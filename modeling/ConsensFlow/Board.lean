/-
  File:      ConsensFlow/Board.lean
  Subject:   THE BOARD IN ITS OWN TERMS: cards that wait for one another and are given to
             windows, whatever mail is written meanwhile. What the ledger's calls are for is
             said here; that each of them is a chain of these edits is shown by the modules of
             its concern.

  * `Met`, `InHand`, `Undecided`, `SettledIn` -- what a card waits for, and what a window has;
  * `Wired` -- the cards, the plan and the staff fit together;
  * `Door` -- the ways a card comes into a window, and what holds of each before it opens;
    a `Licence` is what is asked of a door besides;
  * `Debt` -- what an edit leaves for a later one of the same call to settle: a window's card with
    a need not accepted, waiters not told, a project whose ready cards were not released;
  * **`Edit`** -- everything that can happen to a board; `Edits` -- a chain of edits, one call's.
-/
import ConsensFlow.Moves
import ConsensFlow.Lib.Graph

namespace ConsensFlow

open Lib

/-! ## 1. What holds of a card and of a window -/

/-- On a window's hands, paused or not. -/
def Phase.inHand : Phase → Bool
  | held | paused _ _ => true
  | _ => false

/-- On the board or paused: what a cancelled need leaves waiting. -/
def Phase.waits : Phase → Bool
  | opened | paused _ _ => true
  | _ => false

/-- Over, accepted or not. -/
def Phase.finished : Phase → Bool
  | accepted | failed | cancelled => true
  | _ => false

namespace Board

/-- A card in a phase, by its task. -/
def Is (b : Board) (t : Nat) (ph : Phase) : Prop := ∃ c ∈ b.cards, c.id = t ∧ c.phase = ph

/-- The card of a task, off the board. -/
def Off (b : Board) (t : Nat) : Prop := ∃ c ∈ b.cards, c.id = t ∧ c.deleted = true

/-- Every need of the task is accepted. -/
def Met (b : Board) (t : Nat) : Prop := ∀ n, (t, n) ∈ b.needs → b.Is n .accepted

/-- A member's session. -/
def Session (b : Board) (w : Nat) : Prop :=
  ∃ p ∈ b.participants.rows, p.id = w ∧ p.memberId.isSome = true

/-- A participant that left. -/
def Left (b : Board) (w : Nat) : Prop :=
  ∃ p ∈ b.participants.rows, p.id = w ∧ p.leftAt.isSome = true

/-- A participant of a project. -/
def Seated (b : Board) (w project : Nat) : Prop :=
  ∃ p ∈ b.participants.rows, p.id = w ∧ p.project = project

/-- Whether a project has a chief on the board. -/
def HasChief (b : Board) (project : Nat) : Prop :=
  ∃ p ∈ b.participants.rows, p.project = project ∧ p.role = .chief ∧ p.leftAt.isNone = true

/-- A window with a task in hand. -/
def InHand (b : Board) (w : Nat) : Prop :=
  ∃ c ∈ b.cards, c.assignee = some w ∧ c.phase.inHand = true

/-- A window with a task at work. -/
def AtWork (b : Board) (w : Nat) : Prop := ∃ c ∈ b.cards, c.assignee = some w ∧ c.phase = .held

/-- A window with a result that waits for a decision. -/
def Undecided (b : Board) (w : Nat) : Prop :=
  ∃ c ∈ b.cards, c.assignee = some w ∧ c.phase = .done ∧ c.deleted = false

/-- Nothing ready of a project is left on the board: a card given to a participant, whose needs
    are met, waits for a session that has a task in hand or an undecided result. -/
def SettledIn (b : Board) (project : Nat) : Prop :=
  ∀ c ∈ b.cards, c.project = project → c.phase = .opened → ∀ w, c.assignee = some w →
    b.Met c.id → b.Session w ∧ (b.InHand w ∨ b.Undecided w)

/-- Whether the log says that a card is stranded. -/
def ToldOf (b : Board) (c : Card) : Prop := (c.project, c.number) ∈ b.strandings

end Board

/-- The cards, the plan and the staff fit together. -/
structure Wired (b : Board) : Prop where
  ids : (b.cards.map Card.id).Nodup
  numbers : ∀ c ∈ b.cards, ∀ c' ∈ b.cards, c.project = c'.project → c.number = c'.number →
    c.id = c'.id
  edges : ∀ e ∈ b.needs, ∃ t ∈ b.cards, ∃ n ∈ b.cards,
    t.id = e.1 ∧ n.id = e.2 ∧ t.project = n.project
  projects : ∀ c ∈ b.cards, ∃ p ∈ b.projects.rows, p.id = c.project
  chiefs : ∀ p ∈ b.projects.rows, b.HasChief p.id
  windows : ∀ c ∈ b.cards, ∀ w, c.assignee = some w → b.Seated w c.project
  here : ∀ c ∈ b.cards, c.phase = .opened → ∀ w, c.assignee = some w → ¬ b.Left w
  taken : ∀ c ∈ b.cards, c.phase = .held ∨ (∃ p, c.phase = .paused true p) →
    c.assignee.isSome = true
  deleted : ∀ c ∈ b.cards, c.deleted = true → c.phase.finished = true
  briefs : ∀ e ∈ b.briefs, (∃ c ∈ b.cards, c.id = e.1) ∧ ∃ p ∈ b.participants.rows, p.id = e.2
  pools : ∀ c ∈ b.cards, ∀ r, c.pool = some r → r ∈ Role.memberRoles
  sessions : ∀ p ∈ b.participants.rows, p.memberId.isSome = true → p.role ∈ Role.memberRoles
  members : ∀ p ∈ b.participants.rows, ∀ m, p.memberId = some m → b.Seated m p.project
  counted : ∀ c ∈ b.cards, c.number ≠ 0

/-! ## 2. Doors -/

/-- The ways a card comes into a window. -/
inductive Door where
  | released | assigned | resumed | reopened | wentOn | relaunched | withProject
  -- a new task given by name
  | named
  deriving DecidableEq, Repr

/-- What is asked of a door besides what its call checks. -/
abbrev Licence := Door → Board → Card → Nat → Prop

/-- What holds of the card and the window when a door opens. -/
def Door.Opens (b : Board) (c : Card) (w : Nat) : Door → Prop
  | released => c.phase = .opened ∧ c.assignee = some w ∧ b.Met c.id ∧
      (b.Session w → ¬ b.InHand w ∧ ¬ b.Undecided w)
  | assigned => c.phase = .opened ∧ b.Seated w c.project ∧
      (∀ c' ∈ b.cards, c'.assignee ≠ some w) ∧ ∀ e ∈ b.briefs, e.2 ≠ w
  | resumed => (∃ u p, c.phase = .paused u p) ∧ c.assignee = some w ∧ (b.Session w → ¬ b.AtWork w)
  | reopened => (c.phase = .done ∨ c.phase = .failed) ∧ c.assignee = some w ∧ c.deleted = false ∧
      (b.Session w → ¬ b.InHand w)
  | wentOn => (∃ p, c.phase = .paused true p) ∧ c.assignee = some w
  | relaunched => (∃ u p, c.phase = .paused u p) ∧ c.assignee = some w ∧ (c.id, w) ∈ b.briefs
  | withProject => (∃ u, c.phase = .paused u true) ∧ c.assignee = some w ∧
      (b.Session w → ¬ b.AtWork w)
  | named => False

/-! ## 3. Edits -/

/-- What is owed until the call ends, and the cards it changed. -/
structure Debt where
  unmet : Set Nat := ∅
  untold : Set Nat := ∅
  loose : Set Nat := ∅
  moved : Set Nat := ∅

namespace Debt

/-- Nothing is owed, and nothing has changed. -/
def none : Debt := {}

/-- Nothing is owed. -/
structure Paid (d : Debt) : Prop where
  unmet : d.unmet = ∅
  untold : d.untold = ∅
  loose : d.loose = ∅

def touch (d : Debt) (c : Card) : Debt := { d with moved := insert c.id d.moved }
def loosen (d : Debt) (project : Nat) : Debt := { d with loose := insert project d.loose }
def owe (d : Debt) (t : Nat) : Debt := { d with unmet := insert t d.unmet }
def hide (d : Debt) (t : Nat) : Debt := { d with untold := insert t d.untold }

end Debt

/-- What can happen to one card. -/
inductive Shift (L : Licence) (b : Board) : Debt → Card → Debt → Card → Prop where
  | enter (d : Debt) (c : Card) (door : Door) (w : Nat) (ho : door.Opens b c w)
      (hl : L door b c w) (hu : d.unmet = ∅) (hr : door = .reopened → c.id ∉ d.moved) :
      Shift L b d c (d.touch c) { c with assignee := some w, phase := .held }
  -- asked to stop once more, or not; one marked with its project was so, or is asked
  | paused (d : Debt) (c : Card) (u p : Bool) (n : Nat)
      (hc : c.phase.waits = true ∨ c.phase = .held)
      (hu : u = true → c.phase = .held ∨ ∃ p', c.phase = .paused true p')
      (hp : p = true → (∃ u', c.phase = .paused u' true) ∨ c.stops < n) (hm : d.unmet = ∅) :
      Shift L b d c (d.touch c) { c with phase := .paused u p, stops := n }
  | finished (d : Debt) (c : Card) (hc : c.phase.inHand = true) (hd : c.deleted = false)
      (hm : d.moved = ∅) (hu : d.unmet = ∅) : Shift L b d c (d.touch c) { c with phase := .done }
  | accepted (d : Debt) (c : Card) (hc : c.phase = .done ∨ c.phase = .failed) (hu : d.unmet = ∅) :
      Shift L b d c ((d.touch c).loosen c.project) { c with phase := .accepted }
  | failed (d : Debt) (c : Card) (hc : c.phase = .opened ∨ c.phase = .held) (hu : d.unmet = ∅) :
      Shift L b d c ((d.touch c).loosen c.project) { c with phase := .failed }
  | cancelled (d : Debt) (c : Card) (hc : c.phase ≠ .accepted) (hu : d.unmet = ∅) :
      Shift L b d c (((d.touch c).loosen c.project).hide c.id) { c with phase := .cancelled }
  | shelved (d : Debt) (c : Card) (hc : c.phase.inHand = true) :
      Shift L b d c ((d.touch c).loosen c.project) { c with assignee := none, phase := .opened }
  -- back on the board from a window that is there no more, or from none
  | unpaused (d : Debt) (c : Card) (hc : ∃ u p, c.phase = .paused u p)
      (hw : ∀ w, c.assignee = some w → b.Left w) (hu : d.unmet = ∅) :
      Shift L b d c (d.touch c) { c with assignee := none, phase := .opened }
  | deleted (d : Debt) (c : Card) (hc : c.phase.finished = true)
      (hn : c.phase = .failed → ∀ x ∈ b.cards, (x.id, c.id) ∈ b.needs → x.phase.finished = true)
      (hu : d.unmet = ∅) : Shift L b d c (d.touch c) { c with deleted := true }

/-- What holds of a card that is created, with what it needs. -/
structure Creatable (L : Licence) (b : Board) (c : Card) (ns : List Nat) : Prop where
  fresh : ∀ c' ∈ b.cards, c'.id ≠ c.id
  number : ∀ c' ∈ b.cards, c'.project = c.project → c'.number ≠ c.number
  counted : c.number ≠ 0
  project : ∃ p ∈ b.projects.rows, p.id = c.project
  window : ∀ w, c.assignee = some w → b.Seated w c.project ∧ ¬ b.Left w
  pool : ∀ r, c.pool = some r → r ∈ Role.memberRoles
  kept : c.deleted = false
  stops : c.stops = 0
  needs : ∀ n ∈ ns, ∃ c' ∈ b.cards, c'.id = n ∧ c'.project = c.project ∧ c'.phase ≠ .cancelled ∧
    (c'.phase = .accepted ∨ c'.deleted = false)
  phase : (c.phase = .opened ∧ ∀ w, c.assignee = some w → ∃ n ∈ ns, ¬ b.Is n .accepted) ∨
    (c.phase = .held ∧ (∀ n ∈ ns, b.Is n .accepted) ∧ ∃ w, c.assignee = some w ∧
      (b.Session w → ¬ b.InHand w) ∧ ((b.Session w → ¬ b.Undecided w) ∨ L .named b c w))

/-- The staff changed, and the plan as it was. -/
structure Restaffed (b b' : Board) : Prop where
  needs : b'.needs = b.needs
  cards : b'.cards = b.cards
  briefs : b'.briefs = b.briefs
  strandings : b'.strandings = b.strandings
  asked : b'.asked = b.asked
  stay : ∀ p ∈ b.participants.rows, ∃ p' ∈ b'.participants.rows,
    p'.id = p.id ∧ p'.project = p.project ∧ p'.memberId = p.memberId
  come : ∀ p' ∈ b'.participants.rows,
    (∃ p ∈ b.participants.rows, p.id = p'.id ∧ p.memberId = p'.memberId ∧
      (p'.memberId.isSome = true → p'.role = p.role) ∧
      (p'.leftAt.isSome = true → p.leftAt.isSome = true ∨
        ∀ c ∈ b.cards, c.phase = .opened → c.assignee ≠ some p.id)) ∨
    ((∀ p ∈ b.participants.rows, p.id ≠ p'.id) ∧
      (∀ m, p'.memberId = some m → p'.role ∈ Role.memberRoles ∧ b.Seated m p'.project))
  projects : ∀ p ∈ b.projects.rows, ∃ p' ∈ b'.projects.rows, p'.id = p.id
  chiefs : (∀ p ∈ b.projects.rows, b.HasChief p.id) → ∀ p ∈ b'.projects.rows, b'.HasChief p.id

namespace Board

/-- The board with a card in the place of the one it has of that task. -/
def put (b : Board) (c' : Card) : Board :=
  { b with cards := b.cards.map fun c => if c.id = c'.id then c' else c }

/-- The board with a new card, and what it needs. -/
def add (b : Board) (c : Card) (ns : List Nat) : Board :=
  { b with cards := b.cards ++ [c], needs := b.needs ++ ns.map fun n => (c.id, n) }

/-- The board with one more need. -/
def link (b : Board) (t n : Nat) : Board := { b with needs := b.needs ++ [(t, n)] }

/-- The board with a need fewer. -/
def unlink (b : Board) (t n : Nat) : Board :=
  { b with needs := b.needs.filter fun e => e != (t, n) }

/-- The board with a card said to be stranded. -/
def tell (b : Board) (project number : Nat) : Board :=
  { b with strandings := b.strandings ++ [(project, number)] }

/-- The board with a card said to be asked to stop. -/
def ask (b : Board) (project number : Nat) : Board :=
  { b with asked := b.asked ++ [(project, number)] }

/-- Whether a card leaves with the windows `ws`: it is at one of them, or waits for one. -/
def leaves (ws : List Nat) (c : Card) : Bool :=
  c.assignee.any ws.contains && (c.phase == .opened || c.phase == .held)

/-- The board with the cards of windows that leave cancelled. -/
def dismiss (b : Board) (ws : List Nat) : Board :=
  { b with cards := b.cards.map fun c => if leaves ws c then { c with phase := .cancelled } else c }

end Board

/-- **One edit of the board**, with what was owed before it and after it. -/
inductive Edit (L : Licence) : Debt → Board → Debt → Board → Prop where
  | staff (d : Debt) {b b' : Board} (h : Restaffed b b') : Edit L d b d b'
  | brief (d : Debt) {b : Board} (c : Card) (w : Nat) (hc : c ∈ b.cards) (hp : c.phase = .held)
      (hw : c.assignee = some w) : Edit L d b d (b.brief (some c.id) w)
  | shift {d d' : Debt} {b : Board} {c c' : Card} (hc : c ∈ b.cards) (h : Shift L b d c d' c')
      (hs : c'.stops = c.stops := by exact rfl) : Edit L d b d' (b.put c')
  -- a pause that asks a stop counts it, and the log says so
  | stop {d d' : Debt} {b : Board} {c c' : Card} (hc : c ∈ b.cards) (h : Shift L b d c d' c')
      (hs : c'.stops = c.stops + 1) : Edit L d b d' ((b.put c').ask c.project c.number)
  | create (d : Debt) {b : Board} (c : Card) (ns : List Nat) (h : Creatable L b c ns)
      (hu : d.unmet = ∅) : Edit L d b (d.touch c) (b.add c ns)
  | link (d : Debt) {b : Board} (t n : Card) (ht : t ∈ b.cards) (hn : n ∈ b.cards)
      (hne : t.id ≠ n.id) (hp : t.project = n.project) (hr : ¬ Graph.Reaches b.needs n.id t.id)
      (hc : n.phase ≠ .cancelled) (hd : n.phase = .accepted ∨ n.deleted = false) :
      Edit L d b (d.owe t.id) (b.link t.id n.id)
  | unlink (d : Debt) {b : Board} (t : Card) (n : Nat) (ht : t ∈ b.cards) :
      Edit L d b (d.loosen t.project) (b.unlink t.id n)
  | tell (d : Debt) {b : Board} (project number : Nat) (h : (project, number) ∉ b.strandings) :
      Edit L d b d (b.tell project number)
  | dismiss (d : Debt) {b : Board} (ws : List Nat) (hu : d.unmet = ∅) :
      Edit L d b { d with untold := d.untold ∪ { t | ∃ c ∈ b.cards, c.id = t ∧ Board.leaves ws c }
                          moved := d.moved ∪ { t | ∃ c ∈ b.cards, c.id = t ∧ Board.leaves ws c } }
        (b.dismiss ws)
  -- what was owed is settled
  | allMet (d : Debt) {b : Board} (t : Nat)
      (h : b.Met t ∨ ∀ c ∈ b.cards, c.id = t → c.phase = .opened ∨ c.assignee = none) :
      Edit L d b { d with unmet := d.unmet \ {t} } b
  | allTold (d : Debt) {b : Board} (n : Nat)
      (h : ∀ c ∈ b.cards, c.phase.waits = true → (c.id, n) ∈ b.needs → b.ToldOf c) :
      Edit L d b { d with untold := d.untold \ {n} } b
  | settled (d : Debt) {b : Board} (project : Nat) (h : b.SettledIn project) :
      Edit L d b { d with loose := d.loose \ {project} } b

/-- A chain of edits. -/
inductive Edits (L : Licence) : Debt → Board → Debt → Board → Prop where
  | refl (d : Debt) (b : Board) : Edits L d b d b
  | step {d d' d'' : Debt} {b b' b'' : Board} (h : Edits L d b d' b') (e : Edit L d' b' d'' b'') :
      Edits L d b d'' b''

theorem Edits.trans {L : Licence} {d d' d'' : Debt} {b b' b'' : Board} (h : Edits L d b d' b')
    (k : Edits L d' b' d'' b'') : Edits L d b d'' b'' := by
  induction k with
  | refl => exact h
  | step _ e ih => exact .step (ih h) e

theorem Edit.once {L : Licence} {d d' : Debt} {b b' : Board} (e : Edit L d b d' b') :
    Edits L d b d' b' := .step (.refl d b) e

end ConsensFlow
