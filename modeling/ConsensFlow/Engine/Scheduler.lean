/-
  File:      ConsensFlow/Engine/Scheduler.lean
  Subject:   WHO TAKES WHICH TASK (`cf-engine`, `scheduler.rs`): each open task given to the best
             free member of its tier, its requester told once when nobody is free.

  * `Looked`, `whyNotFree` -- what is looked at of a member, and why it is not free;
  * `Candidate`, `rank` -- the members a task may go to, the best first;
  * `Pass`, `PassM`, `assignOpenTasks` -- one pass over a project's open tasks, through the ledger's
    own calls: an error ends it, and what was done stays done;
  * `Turned` -- what one task's turn leaves of the ledger;
  * **`nobody_free_waits`** -- after a pass, an open task that waits for no other was found nobody
    free for, and its wait is noted: when the pass began, or as the pass told its requester;
  * **`told_once`** -- pass after pass, no requester hears twice of one wait.
-/
import ConsensFlow.Standing
import ConsensFlow.Untouched

namespace ConsensFlow
namespace Scheduler

open Lib Txn

/-! ## 1. Who is free -/

/-- What is looked at of a member: the ledger's other columns, the adapters, the clock, and what the
    scheduler and the member's own record keep. -/
structure Looked where
  adapter : String → Bool
  needsEdit : Bool
  agent : Option String
  now : Time
  busyUntil : Option String
  lowUntil : Option String

/-- `never`. -/
def never (until_ : String) : Bool := "9999-".toList.isPrefixOf until_.toList

/-- `moved_hold`. -/
def movedHold (until_ : String) : Bool := until_ == "9999-12-31T23:59:59.999Z"

/-- `needs_an_edit_because`. -/
def needsAnEditBecause (handle : String) (agent : Option String) : String :=
  let ranOn := agent.getD "its agent"
  s!"@{handle} needs an edit: the update could not tell what it ran on ({ranOn} is in no catalog and no agents file); edit it under Project settings, or remove it"

/-- `out`: a time to come. -/
def Looked.out (r : Looked) (until_ : Option String) : Bool :=
  (until_.bind parseTime).any fun t => decide (r.now < t)

/-- `why_not_free`: the first reason that holds; none where the member is free. -/
def whyNotFree (r : Looked) (member : Participant) : Option String :=
  let harness := member.harness.getD "null"
  if !r.adapter harness then
    some s!"@{member.handle} runs on {harness}, whose windows ConsensFlow cannot open (remove @{member.handle} from the staff and add a member on another harness)"
  else if r.needsEdit then some (needsAnEditBecause member.handle r.agent)
  else if r.out member.outUntil then
    let until_ := member.outUntil.getD ""
    some <|
      if movedHold until_ then
        s!"@{member.handle}'s model moved on its own (it waits for the human's word)"
      else if never until_ then
        s!"@{member.handle}'s account is unavailable (its billing or login was refused)"
      else if r.busyUntil == some until_ then
        s!"@{member.handle}'s model is busy (ConsensFlow tries it again at {until_})"
      else s!"@{member.handle} is out of quota until {until_}"
  else if r.out r.lowUntil then some s!"@{member.handle} is low on quota"
  else none

/-! ## 2. Who a task may go to -/

/-- `Candidate`: a member, how many tasks it has taken, and whether the task was taken from it. -/
structure Candidate where
  member : Participant
  taken : Nat
  hadIt : Bool
  deriving DecidableEq

/-- How many tasks a member and its sessions have. -/
def Ledger.taken (s : Ledger) (member : Nat) : Nat :=
  (s.tasks.rows.filter fun t => s.participants.rows.any fun p =>
    t.assignee == some p.id && (p.id == member || p.memberId == some member)).length

/-- Whether a member may take the task: of the staff, of its pool and tier. -/
def suits (task : Task) (p : Participant) : Bool :=
  p.project == task.project && p.leftAt.isNone && p.memberId.isNone &&
    task.pool.any p.roles.contains && (task.tier.isNone || p.tier == task.tier)

/-- `candidates`, of the task's row. -/
def candidatesOf (s : Ledger) (task : Task) : List Candidate :=
  (s.participants.rows.filter (suits task)).map fun p =>
    { member := p, taken := Ledger.taken s p.id, hadIt := some p.id == task.takenFrom }

/-- `candidates`. -/
def candidates (project number : Nat) : DeskM (List Candidate) := do
  let task ← taskRow project number
  let s ← state
  pure (candidatesOf s task)

/-- How many tasks the candidates on a harness have taken. -/
def loadOf (all : List Candidate) (harness : Option String) : Nat :=
  ((all.filter fun c => c.member.harness == harness).map (·.taken)).sum

/-- What `rank` sorts by. -/
def rankKey (all : List Candidate) (c : Candidate) : Bool ×ₗ Nat ×ₗ Nat ×ₗ Nat :=
  toLex (c.hadIt, toLex (loadOf all c.member.harness, toLex (c.taken, c.member.id)))

/-- `rank`. -/
def rank (free all : List Candidate) : List Candidate :=
  free.insertionSort fun a b => rankKey all a ≤ rankKey all b

/-! ## 3. A pass -/

/-- What is done of a task that others see: it is given to a member; its requester is told that it
    waits; its project is deleted, and what the requester heard forgotten. -/
inductive Said where
  | given (task member : Nat)
  | told (task : Nat)
  | forgot (task : Nat)

/-- A pass so far: the ledger, whose waits were told (`waiting_noted`, each task with its project),
    the calls made, and what was done. -/
structure Pass where
  ledger : Ledger
  noted : List (Nat × Nat)
  made : Nat := 0
  said : List Said := []

/-- What a pass meets: the clock at each call and the names drawn for it, and each look at a member
    for a task, the first and, where nobody was free, the second. -/
structure Around where
  clock : Nat → List Time
  names : Nat → List String
  look : Nat → Bool → Nat → Looked

/-- A program over a pass: an error ends it, and what was done stays done. -/
abbrev PassM := ExceptT LedgerError (StateM Pass)

/-- A call of the ledger, a transaction of its own. -/
def call {R : Ledger → Ledger → Prop} {α : Type} (env : Around) (m : LedgerTxn R α) : PassM α :=
  fun p => match m.run (p.ledger.at_ (env.clock p.made)) with
    | .ok (a, s) => (.ok a, { p with ledger := s, made := p.made + 1 })
    | .error e => (.error e, { p with made := p.made + 1 })

/-- A question of the ledger, which changes nothing. -/
def ask {R : Ledger → Ledger → Prop} {α : Type} (m : LedgerTxn R α) : PassM α :=
  fun p => match m.run p.ledger with
    | .ok (a, _) => (.ok a, p)
    | .error e => (.error e, p)

/-- What the dispatcher keeps, changed. -/
def keep (f : Pass → Pass) : PassM Unit := fun p => (.ok (), f p)

def look : PassM Pass := fun p => (.ok p, p)

/-- An open task as `open_tasks` gives it: its row, its requester, whether it waits for another. -/
structure OpenTask where
  task : Task
  requester : String
  blocked : Bool

/-- The tasks a task needs that are not accepted yet. -/
def blockedBy (s : Ledger) (task : Nat) : List Task :=
  (s.needed task).filter fun d => d.state != .accepted

/-- `open_tasks`. -/
def openTasks (s : Ledger) (project : Nat) : List OpenTask :=
  ((s.tasks.rows.filter fun t => t.project == project && t.state == .opened &&
      t.assignee.isNone).insertionSort fun a b => a.number ≤ b.number).map fun t =>
    { task := t, requester := s.handleOf t.requester, blocked := !(blockedBy s t.id).isEmpty }

/-- The pool a note names. -/
def poolWord (pool : Option Role) : String := (pool.map Role.word).getD "member"

/-- What the note of a task that waits says of its pool. -/
def waitsForPool (task : Task) : String :=
  if task.pool == some .designer then "image designer"
  else
    let tier := (task.tier.map Tier.word).getD "null"
    let pool := (task.pool.map Role.word).getD "null"
    s!"{tier} {pool}"

/-- Why a task waits, where no candidate has a reason. -/
def noReason (task : Task) (all : List Candidate) : String :=
  if all.isEmpty then
    let pool := if task.pool == some .designer then "image designer" else poolWord task.pool
    s!"no {pool} is on the staff (ask the human for one, in your terminal)"
  else "none of them is free"

/-- `tell_retiered`. -/
def tellRetiered (env : Around) (project : Nat) (view : OpenTask) (from_ to_ : Tier)
    (holders : List String) : PassM Unit := do
  let members := ", ".intercalate (holders.map fun handle => s!"@{handle}")
  let _ ← call env (note project
    { whom := view.requester, task := some view.task.number
      body := s!"T-{view.task.number} asked for a {from_.word} {poolWord view.task.pool}; none is on the staff, so it goes to the {to_.word} tier: {members}." })

/-- The tier an open task is for now. -/
def retiered (env : Around) (project : Nat) (view : OpenTask) : PassM Task := do
  match ← call env (retierOpenTask project view.task.number) with
  | some (from_, to_, holders) => do
    tellRetiered env project view from_ to_ holders
    pure { view.task with tier := some to_ }
  | none => pure view.task

/-- The best free member takes the task. -/
def give (env : Around) (project : Nat) (task : Task) (best : Candidate) : PassM Bool := do
  let p ← look
  let _ ← call env (assignTask project task.number best.member.id (env.names p.made))
  keep fun p => { p with
    noted := p.noted.filter fun n => n.1 != task.id
    said := p.said ++ [.given task.id best.member.id] }
  pure true

/-- Nobody is free: the requester hears it, once. -/
def wait (env : Around) (project : Nat) (requester : String) (task : Task)
    (all : List Candidate) : PassM Bool := do
  let p ← look
  if p.noted.any fun n => n.1 == task.id then pure false
  else do
    keep fun p => { p with noted := p.noted ++ [(task.id, project)] }
    let reasons := all.filterMap fun c => whyNotFree (env.look task.id true c.member.id) c.member
    let why := "; ".intercalate (if reasons.isEmpty then [noReason task all] else reasons)
    let _ ← call env (note project
      { whom := requester, task := some task.number
        body := s!"T-{task.number} waits for a free {waitsForPool task}: {why}." })
    keep fun p => { p with said := p.said ++ [.told task.id] }
    pure false

/-- Whether a member was found free, at the first look. -/
def isFree (env : Around) (task : Nat) (c : Candidate) : Bool :=
  (whyNotFree (env.look task false c.member.id) c.member).isNone

/-- One open task's turn: whether it was given out. -/
def turn (env : Around) (project : Nat) (view : OpenTask) : PassM Bool := do
  if view.blocked then pure false
  else do
    let task ← retiered env project view
    let all ← ask (candidates project task.number)
    let free := all.filter (isFree env task.id)
    match rank free all with
    | best :: _ => give env project task best
    | [] => wait env project view.requester task all

/-- The turns of open tasks, one after the other. -/
def turns (env : Around) (project : Nat) : List OpenTask → Bool → PassM Bool
  | [], assigned => pure assigned
  | view :: views, assigned => do
    let given ← turn env project view
    turns env project views (assigned || given)

/-- `assign_open_tasks`. -/
def assignOpenTasks (env : Around) (project : Nat) : PassM Bool := do
  let p ← look
  turns env project (openTasks p.ledger project) false

/-! ## 4. How a pass runs -/

section Runs

variable {α β : Type} {p p' p'' : Pass}

/-- A step after a step that went through, and after one that did not. -/
theorem bind_ok {m : PassM α} {k : α → PassM β} {a : α} (h : m p = (.ok a, p')) :
    (m >>= k) p = k a p' := by
  show (ExceptT.bind m k : PassM β) p = _
  simp only [ExceptT.bind, ExceptT.mk, bind, StateT.bind]
  rw [h]
  rfl

theorem bind_error {m : PassM α} {k : α → PassM β} {e : LedgerError}
    (h : m p = (.error e, p')) : (m >>= k) p = (.error e, p') := by
  show (ExceptT.bind m k : PassM β) p = _
  simp only [ExceptT.bind, ExceptT.mk, bind, StateT.bind]
  rw [h]
  rfl

theorem bind_done {m : PassM α} {k : α → PassM β} {b : β} :
    (m >>= k) p = (.ok b, p'') ↔ ∃ a p', m p = (.ok a, p') ∧ k a p' = (.ok b, p'') := by
  rcases h : m p with ⟨e | a, p1⟩
  · rw [bind_error h]
    constructor
    · intro e
      cases e
    · rintro ⟨a, p2, e, -⟩
      cases e
  · rw [bind_ok h]
    constructor
    · exact fun e => ⟨a, p1, rfl, e⟩
    · rintro ⟨a, p2, e, k⟩
      cases e
      exact k

theorem pure_done {a b : α} : (pure a : PassM α) p = (.ok b, p') ↔ a = b ∧ p = p' := by
  show ((Except.ok a : Except LedgerError α), p) = _ ↔ _
  rw [Prod.mk.injEq, Except.ok.injEq]

theorem keep_done {f : Pass → Pass} {u : Unit} : keep f p = (.ok u, p') ↔ f p = p' := by
  unfold keep
  rw [Prod.mk.injEq]
  exact and_iff_right rfl

theorem keep_bind {f : Pass → Pass} {k : Unit → PassM β} : (keep f >>= k) p = k () (f p) :=
  bind_ok rfl

theorem look_bind {k : Pass → PassM β} : (look >>= k) p = k p p := bind_ok rfl

theorem look_done {a : Pass} : look p = (.ok a, p') ↔ p = a ∧ p = p' := by
  unfold look
  rw [Prod.mk.injEq, Except.ok.injEq]

/-- A call that went through. -/
theorem call_done {R : Ledger → Ledger → Prop} {env : Around} {m : LedgerTxn R α} {a : α}
    (h : call env m p = (.ok a, p')) : ∃ s, m.run (p.ledger.at_ (env.clock p.made)) = .ok (a, s) ∧
      p' = { p with ledger := s, made := p.made + 1 } := by
  unfold call at h
  split at h
  · next x s run =>
    cases h
    exact ⟨s, run, rfl⟩
  · cases h

theorem ask_done {R : Ledger → Ledger → Prop} {m : LedgerTxn R α} {a : α}
    (h : ask m p = (.ok a, p')) : p' = p ∧ ∃ s, m.run p.ledger = .ok (a, s) := by
  unfold ask at h
  split at h
  · next x s run =>
    cases h
    exact ⟨rfl, s, run⟩
  · cases h

end Runs

/-! ## 5. What a turn leaves -/

/-- What the turn of one task leaves of the ledger: the other tasks, what waits for what, and the
    staff; its own task is where it was, or in a window's queue. -/
structure Turned (task : Nat) (s s' : Ledger) : Prop where
  others : ∀ t, t.id ≠ task → (t ∈ s'.tasks.rows ↔ t ∈ s.tasks.rows)
  needs : s'.needs = s.needs
  members : ∀ p : Participant, p.memberId = none →
    (p ∈ s'.participants.rows ↔ p ∈ s.participants.rows)
  own : ∀ t' ∈ s'.tasks.rows, t'.id = task → ∃ t ∈ s.tasks.rows, t.id = task ∧
    t'.project = t.project ∧ t'.number = t.number ∧ t'.pool = t.pool ∧
    (t'.state = t.state ∧ t'.assignee = t.assignee ∨ t'.state = .queued)
  stays : ∀ t ∈ s.tasks.rows, t.id = task → ∃ t' ∈ s'.tasks.rows, t'.id = task ∧
    (t'.state = t.state ∨ t'.state = .queued)

namespace Turned

variable {task : Nat} {s s' s'' : Ledger}

theorem refl (task : Nat) (s : Ledger) : Turned task s s where
  others _ _ := Iff.rfl
  needs := rfl
  members _ _ := Iff.rfl
  own t' mem own := ⟨t', mem, own, rfl, rfl, rfl, .inl ⟨rfl, rfl⟩⟩
  stays t mem own := ⟨t, mem, own, .inl rfl⟩

theorem trans (h : Turned task s s') (k : Turned task s' s'') : Turned task s s'' where
  others t other := (k.others t other).trans (h.others t other)
  needs := k.needs.trans h.needs
  members p none_ := (k.members p none_).trans (h.members p none_)
  own t'' mem own := by
    obtain ⟨t', mem', own', project', number', pool', state'⟩ := k.own t'' mem own
    obtain ⟨t, mem, own, project, number, pool, state⟩ := h.own t' mem' own'
    refine ⟨t, mem, own, project'.trans project, number'.trans number, pool'.trans pool, ?_⟩
    rcases state' with ⟨same', assignee'⟩ | queued
    · rcases state with ⟨same, assignee⟩ | queued
      · exact .inl ⟨same'.trans same, assignee'.trans assignee⟩
      · exact .inr (same'.trans queued)
    · exact .inr queued
  stays t mem own := by
    obtain ⟨t', mem', own', state⟩ := h.stays t mem own
    obtain ⟨t'', mem'', own'', state'⟩ := k.stays t' mem' own'
    refine ⟨t'', mem'', own'', ?_⟩
    rcases state' with same | queued
    · rcases state with same' | queued'
      · exact .inl (same.trans same')
      · exact .inr (same.trans queued')
    · exact .inr queued

/-- The tasks of a ledger are those of another, one of them changed. -/
def Rewrites (task : Nat) (g : Task → Task) (s s' : Ledger) : Prop :=
  ∀ t', t' ∈ s'.tasks.rows ↔ ∃ t ∈ s.tasks.rows, (if t.id = task then g t else t) = t'

theorem Rewrites.alterAt {f : Task → Task} (tasks : s'.tasks = s.tasks.alterAt task f) :
    Rewrites task (fun t => Keyed.rekey t.id (f t)) s s' := by
  intro t'
  rw [tasks]
  unfold Table.alterAt
  rw [Table.mem_alter]
  refine exists_congr fun t => and_congr_right fun _ => ?_
  unfold Table.altered
  by_cases same : t.id = task
  · rw [if_pos same, if_pos (by exact beq_iff_eq.mpr same)]
    rfl
  · rw [if_neg same, if_neg (by exact fun h => same (beq_iff_eq.mp h))]

theorem Rewrites.trans {g g' : Task → Task} (h : Rewrites task g s s')
    (k : Rewrites task g' s' s'') (stays : ∀ t, (g t).id = t.id) :
    Rewrites task (fun t => g' (g t)) s s'' := by
  intro t''
  rw [k t'']
  constructor
  · rintro ⟨t', mem', rfl⟩
    obtain ⟨t, mem, rfl⟩ := (h t').mp mem'
    refine ⟨t, mem, ?_⟩
    by_cases same : t.id = task
    · rw [if_pos same, if_pos same, if_pos ((stays t).trans same)]
    · rw [if_neg same, if_neg same, if_neg same]
  · rintro ⟨t, mem, rfl⟩
    refine ⟨_, (h _).mpr ⟨t, mem, rfl⟩, ?_⟩
    by_cases same : t.id = task
    · rw [if_pos same, if_pos same, if_pos ((stays t).trans same)]
    · rw [if_neg same, if_neg same, if_neg same]

/-- The task's own row changed, and the staff with sessions alone. -/
theorem of_rewrites {g : Task → Task} (rows : Rewrites task g s s') (needs : s'.needs = s.needs)
    (members : ∀ p : Participant, p.memberId = none →
      (p ∈ s'.participants.rows ↔ p ∈ s.participants.rows))
    (own : ∀ t, (g t).id = t.id ∧ (g t).project = t.project ∧ (g t).number = t.number ∧
      (g t).pool = t.pool ∧
      ((g t).state = t.state ∧ (g t).assignee = t.assignee ∨ (g t).state = .queued)) :
    Turned task s s' := by
  refine ⟨fun t other => ?_, needs, members, fun t' there same => ?_, fun t there same => ?_⟩
  · rw [rows]
    constructor
    · rintro ⟨r, hr, rfl⟩
      by_cases same : r.id = task
      · rw [if_pos same] at other
        exact absurd ((own r).1.trans same) other
      · rw [if_neg same]
        exact hr
    · exact fun hr => ⟨t, hr, if_neg other⟩
  · obtain ⟨r, hr, rfl⟩ := (rows t').mp there
    by_cases here : r.id = task
    · rw [if_pos here]
      exact ⟨r, hr, here, (own r).2⟩
    · rw [if_neg here] at same
      exact absurd same here
  · refine ⟨_, (rows _).mpr ⟨t, there, rfl⟩, ?_⟩
    rw [if_pos same]
    refine ⟨(own t).1.trans same, ?_⟩
    rcases (own t).2.2.2.2 with ⟨state, -⟩ | queued
    · exact .inl state
    · exact .inr queued

/-- A call that writes neither the tasks nor what the board shows. -/
theorem of_same (tasks : s'.tasks = s.tasks) (board : s'.board = s.board) : Turned task s s' := by
  have staff : s'.participants = s.participants := congrArg Board.participants board
  refine of_rewrites (g := id) (fun t' => ?_) (congrArg Board.needs board)
    (fun p _ => by rw [staff]) fun t => ⟨rfl, rfl, rfl, rfl, .inl ⟨rfl, rfl⟩⟩
  rw [tasks]
  constructor
  · exact fun mem => ⟨t', mem, by rw [id_eq, ite_self]⟩
  · rintro ⟨t, mem, rfl⟩
    rw [id_eq, ite_self]
    exact mem

end Turned

section Calls

variable {s s' : Ledger} {id project number : Nat}

/-- The one task of a number. -/
def Numbered (s : Ledger) (project number id : Nat) : Prop :=
  ∀ t ∈ s.tasks.rows, t.project = project → t.number = number → t.id = id

theorem turned_note {n : NewNote} {m : Message} (h : (note project n).run s = .ok (m, s')) :
    Turned id s s' :=
  .of_same (leaves_note project n s m s' h) (board_of_desk h)

theorem turned_candidates {all : List Candidate}
    (h : (candidates project number).run s = .ok (all, s')) : s' = s ∧
      ∃ t ∈ s.tasks.rows, t.project = project ∧ t.number = number ∧ all = candidatesOf s t := by
  obtain ⟨t, s1, h1, h⟩ := run_bind_ok.mp h
  obtain ⟨rfl, mem, own, same⟩ := taskRow_ok h1
  obtain ⟨s2, s3, h2, h⟩ := run_bind_ok.mp h
  obtain ⟨rfl, rfl⟩ := run_state_ok.mp h2
  obtain ⟨rfl, rfl⟩ := run_pure_ok.mp h
  exact ⟨rfl, t, mem, own, same, rfl⟩

theorem turned_retierOpenTask {moved : Option (Tier × Tier × List String)}
    (h : (retierOpenTask project number).run s = .ok (moved, s'))
    (only : Numbered s project number id) : Turned id s s' := by
  have board : s'.board = s.board := board_of_desk h
  obtain ⟨t, s1, h1, h⟩ := run_bind_ok.mp h
  obtain ⟨rfl, mem, own, same⟩ := taskRow_ok h1
  obtain rfl := only t mem own same
  obtain ⟨s2, s3, h2, h⟩ := run_bind_ok.mp h
  obtain ⟨rfl, rfl⟩ := run_state_ok.mp h2
  have quiet (a : Option (Tier × Tier × List String))
      (h : (pure none : DeskM (Option (Tier × Tier × List String))).run s = .ok (a, s')) :
      Turned t.id s s' := by
    obtain ⟨-, rfl⟩ := run_pure_ok.mp h
    exact .refl _ _
  split at h
  · split at h
    · exact quiet _ h
    · rename_i tier _
      rw [run_ite] at h
      split at h
      · exact quiet _ h
      · obtain ⟨now', s4, h4, h⟩ := run_bind_ok.mp h
        obtain ⟨u, s5, h5, h⟩ := run_bind_ok.mp h
        obtain ⟨u', s6, h6, h⟩ := run_bind_ok.mp h
        obtain ⟨-, rfl⟩ := run_pure_ok.mp h
        have tasks4 : s4.tasks = s.tasks := leaves_now _ _ _ h4
        simp only [setTasks, run_write_ok] at h5
        have tasks6 : s6.tasks = s5.tasks := leaves_log _ _ _ _ _ _ h6
        have rows : s6.tasks = s.tasks.alterAt t.id
            fun r => { r with tier := some tier, updatedAt := now' } := by
          rw [tasks6, ← h5, ← tasks4]
          rfl
        have staff : s6.participants = s.participants := congrArg Board.participants board
        exact .of_rewrites (.alterAt rows) (congrArg Board.needs board) (fun p _ => by rw [staff])
          fun r => ⟨rfl, rfl, rfl, rfl, .inl ⟨rfl, rfl⟩⟩
  · exact quiet _ h

/-- A member's new session is no member. -/
theorem members_startSession {member p : Participant} {role : Role} {names : List String}
    (h : (startSession project member role names).run s = .ok (p, s')) (q : Participant)
    (none_ : q.memberId = none) : q ∈ s'.participants.rows ↔ q ∈ s.participants.rows := by
  obtain ⟨s0, s1, h1, h⟩ := run_bind_ok.mp h
  obtain ⟨rfl, rfl⟩ := run_state_ok.mp h1
  obtain ⟨t, s1, h1, h⟩ := run_bind_ok.mp h
  obtain ⟨id, s2, h2, h⟩ := run_bind_ok.mp h
  obtain ⟨u, s3, h3, h4⟩ := run_bind_ok.mp h
  have b1 : s1.board = s.board := board_of_lift h1
  obtain ⟨rfl, rfl⟩ := insertParticipant_ok h2
  have b3 := board_of_lift h3
  obtain ⟨rfl, -⟩ := participantRow_ok h4
  have staff : s3.participants = s1.participants.insert
      { project, handle := s.sessionHandle project member names, role, roles := member.roles,
        harness := member.harness, model := member.model, effort := member.effort,
        modelName := member.modelName, designer := member.designer, tier := member.tier,
        memberId := some member.id, createdAt := t } := congrArg Board.participants b3
  rw [staff, Table.mem_insert, show s1.participants = s.participants from
    congrArg Board.participants b1]
  refine or_iff_left fun same => ?_
  rw [same] at none_
  cases none_

theorem tasks_moveTaskAs {task : Task} {to_ : TaskState} {what : What} {u : Unit}
    (h : (moveTaskAs task to_ what).run s = .ok (u, s')) : ∃ t, s'.tasks =
      s.tasks.alterAt task.id fun r =>
        { r with state := to_, updatedAt := t, heldUntil := none, pausedWithProject := false } := by
  obtain ⟨t, s1, h1, h⟩ := run_bind_ok.mp h
  obtain ⟨u2, s2, h2, h⟩ := run_bind_ok.mp h
  obtain ⟨u3, s3, h3, h4⟩ := run_bind_ok.mp h
  obtain ⟨rfl, -⟩ := updateTask_ok h2
  have tasks1 : s1.tasks = s.tasks := leaves_now _ _ _ h1
  have tasks3 := leaves_logOf _ _ _ _ _ h3
  have tasks4 : s'.tasks = s3.tasks := leaves_afterMove _ _ _ _ _ h4
  exact ⟨t, by rw [tasks4, tasks3, ← tasks1]⟩

/-- A task assigned comes to the queue of a new session of the member. -/
theorem turned_assignTask {participant : Nat} {names : List String} {r : TaskMoved}
    (h : (assignTask project number participant names).run s = .ok (r, s'))
    (only : Numbered s project number id) :
    Turned id s s' ∧ ∀ t' ∈ s'.tasks.rows, t'.id = id → t'.state = .queued := by
  obtain ⟨t, s1, h1, h⟩ := run_bind_ok.mp h
  obtain ⟨rfl, mem, own, same⟩ := taskRow_ok h1
  obtain rfl := only t mem own same
  obtain ⟨u2, s2, h2, h⟩ := run_bind_ok.mp h
  obtain ⟨rfl, -⟩ := requireTaskState_ok h2
  obtain ⟨member, s3, h3, h⟩ := run_bind_ok.mp h
  obtain ⟨rfl, -⟩ := requireMemberRow_ok h3
  obtain ⟨pool, s4, h4, h⟩ := run_bind_ok.mp h
  obtain ⟨-, rfl⟩ := run_found_ok.mp h4
  obtain ⟨session, s5, h5, h⟩ := run_bind_ok.mp h
  obtain ⟨u6, s6, h6, h⟩ := run_bind_ok.mp h
  obtain ⟨now', s7, h7, h⟩ := run_bind_ok.mp h
  obtain ⟨u8, s8, h8, h⟩ := run_bind_ok.mp h
  obtain ⟨row, s9, h9, h⟩ := run_bind_ok.mp h
  obtain ⟨rfl, -⟩ := taskById_ok h9
  obtain ⟨m, s10, h10, h⟩ := run_bind_ok.mp h
  obtain ⟨u11, s11, h11, h⟩ := run_bind_ok.mp h
  obtain ⟨row2, s12, h12, h⟩ := run_bind_ok.mp h
  obtain ⟨rfl, -⟩ := taskById_ok h12
  obtain ⟨m', s13, h13, h⟩ := run_bind_ok.mp h
  obtain ⟨rfl, -⟩ := knownMessage_ok h13
  obtain ⟨-, rfl⟩ := run_pure_ok.mp h
  -- the tasks: two statements on the row of the task, and no other
  have tasks5 : s5.tasks = s.tasks := leaves_startSession _ _ _ _ _ _ _ h5
  have tasks6 : s6.tasks = s5.tasks := leaves_leavePauseNotes _ _ _ _ _ _ h6
  have tasks7 : s7.tasks = s6.tasks := leaves_now _ _ _ h7
  obtain ⟨e8, -⟩ := updateTask_ok h8
  have tasks10 : s10.tasks = s8.tasks := leaves_queueTask _ _ _ _ _ h10
  obtain ⟨at_, tasks11⟩ := tasks_moveTaskAs h11
  -- the staff, and what waits for what: a new session, and no other
  have b6 : s6.board = s5.board := board_of_lift h6
  have b7 : s7.board = s6.board := board_of_lift h7
  have b8 : s8.board = s7.board.edit t.id fun c => { c with assignee := some session.id } :=
    updateTask_board (fun _ => rfl) h8
  obtain ⟨-, b10⟩ := queueTask_ok h10
  have b11 := moveTaskAs_board h11 ⟨rfl, rfl⟩
  have staff : s11.participants = s5.participants := by
    show s11.board.participants = s5.board.participants
    rw [b11, b10, ← b6, ← b7]
    show s8.board.participants = _
    rw [b8]
    rfl
  have members5 := fun q none_ => members_startSession h5 q none_
  have needs5 : s5.needs = s.needs := by
    obtain ⟨s0, s1, h1, h⟩ := run_bind_ok.mp h5
    obtain ⟨rfl, rfl⟩ := run_state_ok.mp h1
    obtain ⟨t, s1, h1, h⟩ := run_bind_ok.mp h
    obtain ⟨id, s2, h2, h⟩ := run_bind_ok.mp h
    obtain ⟨u, s3, h3, h4⟩ := run_bind_ok.mp h
    have b1 : s1.board = s.board := board_of_lift h1
    obtain ⟨rfl, rfl⟩ := insertParticipant_ok h2
    have b3 := board_of_lift h3
    obtain ⟨rfl, -⟩ := participantRow_ok h4
    exact (congrArg Board.needs b3).trans (congrArg Board.needs b1)
  have needs : s11.needs = s.needs := by
    rw [← needs5]
    show s11.board.needs = s5.board.needs
    rw [b11, b10, ← b6, ← b7]
    show s8.board.needs = _
    rw [b8]
    rfl
  have rows8 : Turned.Rewrites t.id (fun r => Keyed.rekey r.id
      { r with assignee := some session.id, updatedAt := now' }) s s8 := by
    refine .alterAt ?_
    rw [e8, ← tasks5, ← tasks6, ← tasks7]
  have rows11 : Turned.Rewrites t.id (fun r => Keyed.rekey r.id
      { r with state := .queued, updatedAt := at_, heldUntil := none, pausedWithProject := false })
      s8 s11 := by
    refine .alterAt ?_
    rw [tasks11, tasks10]
  have rows := rows8.trans rows11 fun _ => rfl
  refine ⟨.of_rewrites rows needs (fun q none_ => by rw [staff]; exact members5 q none_)
    fun r => ⟨rfl, rfl, rfl, rfl, .inr rfl⟩, fun t' there same => ?_⟩
  obtain ⟨r, -, rfl⟩ := (rows t').mp there
  by_cases here : r.id = t.id
  · rw [if_pos here]
    rfl
  · rw [if_neg here] at same
    exact absurd same here

end Calls

/-! ## 6. A turn, and a pass -/

/-- The row of a task under its number. -/
def HasRow (s : Ledger) (project number id : Nat) : Prop :=
  ∃ t ∈ s.tasks.rows, t.id = id ∧ t.project = project ∧ t.number = number

section Passes

variable {env : Around} {project id number : Nat} {p p' : Pass} {s s' : Ledger}

theorem Turned.hasRow (h : Turned id s s') (there : HasRow s project number id) :
    HasRow s' project number id := by
  obtain ⟨t, mem, own, pr, nr⟩ := there
  obtain ⟨t', mem', own', -⟩ := h.stays t mem own
  obtain ⟨t2, mem2, own2, pr2, nr2, -⟩ := h.own t' mem' own'
  obtain rfl : t2 = t := Table.eq_of_key mem2 mem (own2.trans own.symm)
  exact ⟨t', mem', own', pr2.trans pr, nr2.trans nr⟩

theorem Turned.hasRow_other (h : Turned id s s') {other : Nat} (ne : other ≠ id)
    (there : HasRow s project number other) : HasRow s' project number other := by
  obtain ⟨t, mem, own, k⟩ := there
  exact ⟨t, (h.others t (own ▸ ne)).mpr mem, own, k⟩

/-- A number is one task's. -/
theorem HasRow.numbered (there : HasRow s project number id) (r : Reachable s) :
    Numbered s project number id := by
  obtain ⟨t, mem, own, pr, nr⟩ := there
  intro t' mem' pr' nr'
  have same : t' = t :=
    r.sound.wired.fits.numbers t' mem' t mem (pr'.trans pr.symm) (nr'.trans nr.symm)
  rw [same, own]

/-- A call that went through is a call of a run. -/
theorem reachable_call (r : Reachable s) {op : Op} {clock : List Time}
    (h : op.attempt (s.at_ clock) = .ok s') : Reachable s' := by
  have step := r.step ⟨op, clock⟩ trivial
  unfold Call.step at step
  rw [h] at step
  exact step

/-- What one call left: a turn's part, and a state a run reaches; what was said stays said. -/
structure Onwards (id : Nat) (p p' : Pass) : Prop where
  reach : Reachable p'.ledger
  turned : Turned id p.ledger p'.ledger
  said : p.said ⊆ p'.said

theorem Onwards.refl (r : Reachable p.ledger) : Onwards id p p := ⟨r, .refl _ _, fun _ h => h⟩

theorem Onwards.trans {p'' : Pass} (h : Onwards id p p') (k : Onwards id p' p'') :
    Onwards id p p'' := ⟨k.reach, h.turned.trans k.turned, fun _ there => k.said (h.said there)⟩

theorem turned_at {clock : List Time} (h : Turned id (s.at_ clock) s') : Turned id s s' :=
  ⟨h.others, h.needs, h.members, h.own, h.stays⟩

theorem noted_call {n : NewNote} {m : Message} (r : Reachable p.ledger)
    (h : call env (note project n) p = (.ok m, p')) :
    Onwards id p p' ∧ p'.noted = p.noted ∧ p'.ledger.tasks = p.ledger.tasks ∧
      p'.ledger.participants = p.ledger.participants := by
  obtain ⟨s, run, rfl⟩ := call_done h
  have silenced : (silent (note project n)).run (p.ledger.at_ (env.clock p.made)) = .ok ((), s) :=
    run_silent.mpr ⟨m, run⟩
  have done : (Op.desk (.note project n)).attempt (p.ledger.at_ (env.clock p.made)) = .ok s :=
    congrArg (Prod.snd <$> ·) silenced
  have tasks : s.tasks = p.ledger.tasks :=
    leaves_note project n (p.ledger.at_ (env.clock p.made)) m s run
  have board : s.board = (p.ledger.at_ (env.clock p.made)).board := board_of_desk run
  exact ⟨⟨reachable_call r done, turned_at (turned_note run), fun _ h => h⟩, rfl, tasks,
    congrArg Board.participants board⟩

theorem retiered_done {view : OpenTask} {task : Task} (r : Reachable p.ledger)
    (there : HasRow p.ledger project view.task.number view.task.id)
    (h : retiered env project view p = (.ok task, p')) :
    Onwards view.task.id p p' ∧ p'.noted = p.noted ∧ task.id = view.task.id ∧
      task.number = view.task.number := by
  obtain ⟨moved, p1, h1, h⟩ := bind_done.mp h
  obtain ⟨s, run, rfl⟩ := call_done h1
  have silenced : (silent (retierOpenTask project view.task.number)).run
      (p.ledger.at_ (env.clock p.made)) = .ok ((), s) := run_silent.mpr ⟨moved, run⟩
  have done : (Op.desk (.retierOpenTask project view.task.number)).attempt
      (p.ledger.at_ (env.clock p.made)) = .ok s := congrArg (Prod.snd <$> ·) silenced
  have first : Onwards view.task.id p { p with ledger := s, made := p.made + 1 } :=
    ⟨reachable_call r done, turned_at (turned_retierOpenTask run (there.numbered r)), fun _ h => h⟩
  cases moved with
  | none =>
    obtain ⟨rfl, rfl⟩ := pure_done.mp h
    exact ⟨first, rfl, rfl, rfl⟩
  | some m =>
    obtain ⟨from_, to_, holders⟩ := m
    obtain ⟨u, p2, h2, h⟩ := bind_done.mp h
    obtain ⟨rfl, rfl⟩ := pure_done.mp h
    obtain ⟨m, p3, h3, h4⟩ := bind_done.mp h2
    obtain ⟨-, rfl⟩ := pure_done.mp h4
    obtain ⟨next, noted, -⟩ := noted_call first.reach h3
    exact ⟨first.trans next, noted, rfl, rfl⟩

/-- The task was given out: its row is in a queue. -/
def GivenOut (s : Ledger) (id : Nat) : Prop :=
  ∀ t ∈ s.tasks.rows, t.id = id → t.state = .queued

/-- The task's wait is noted: it was among those `noted`, or its requester was told since. -/
def Heard (noted : List (Nat × Nat)) (p : Pass) (id : Nat) : Prop :=
  id ∈ p.noted.map (·.1) ∧ (id ∈ noted.map (·.1) ∨ .told id ∈ p.said)

/-- The task's wait is noted, and nobody was found free for it. -/
def Waits (env : Around) (noted : List (Nat × Nat)) (p : Pass) (id : Nat) : Prop :=
  Heard noted p id ∧ ∀ t ∈ p.ledger.tasks.rows, t.id = id →
    ∀ c ∈ candidatesOf p.ledger t, isFree env id c = false

/-- The tasks noted are as before, but for one. -/
def NotedApart (id : Nat) (p p' : Pass) : Prop :=
  ∀ n, n ≠ id → (n ∈ p'.noted.map (·.1) ↔ n ∈ p.noted.map (·.1))

theorem give_done {task : Task} {best : Candidate} {given : Bool}
    (r : Reachable p.ledger) (there : HasRow p.ledger project task.number task.id)
    (h : give env project task best p = (.ok given, p')) :
    Onwards task.id p p' ∧ NotedApart task.id p p' ∧ GivenOut p'.ledger task.id := by
  obtain ⟨a, p1, h1, h⟩ := bind_done.mp h
  obtain ⟨rfl, rfl⟩ := look_done.mp h1
  obtain ⟨moved, p2, h2, h⟩ := bind_done.mp h
  obtain ⟨s, run, rfl⟩ := call_done h2
  obtain ⟨u, p3, h3, h⟩ := bind_done.mp h
  obtain rfl := keep_done.mp h3
  obtain ⟨-, rfl⟩ := pure_done.mp h
  have silenced : (silent (assignTask project task.number best.member.id (env.names p.made))).run
      (p.ledger.at_ (env.clock p.made)) = .ok ((), s) := run_silent.mpr ⟨moved, run⟩
  have done : (Op.board (.assignTask project task.number best.member.id
      (env.names p.made))).attempt (p.ledger.at_ (env.clock p.made)) = .ok s :=
    congrArg (Prod.snd <$> ·) silenced
  obtain ⟨turned, queued⟩ := turned_assignTask run (there.numbered r)
  refine ⟨⟨reachable_call r done, turned_at turned, List.subset_append_left _ _⟩,
    fun n other => ?_, queued⟩
  simp only [List.mem_map, List.mem_filter, bne_iff_ne]
  constructor
  · rintro ⟨x, ⟨mem, -⟩, same⟩
    exact ⟨x, mem, same⟩
  · rintro ⟨x, mem, same⟩
    exact ⟨x, ⟨mem, same ▸ other⟩, same⟩

theorem wait_done {requester : String} {task : Task} {all : List Candidate} {given : Bool}
    (r : Reachable p.ledger) (h : wait env project requester task all p = (.ok given, p')) :
    Onwards task.id p p' ∧ NotedApart task.id p p' ∧ Heard p.noted p' task.id ∧
      p'.ledger.tasks = p.ledger.tasks ∧ p'.ledger.participants = p.ledger.participants := by
  obtain ⟨a, p1, h1, h⟩ := bind_done.mp h
  obtain ⟨rfl, rfl⟩ := look_done.mp h1
  by_cases told : (p.noted.any fun n => n.1 == task.id) = true
  · rw [if_pos told] at h
    obtain ⟨-, rfl⟩ := pure_done.mp h
    obtain ⟨x, mem, same⟩ := List.any_eq_true.mp told
    have there : task.id ∈ p.noted.map (·.1) := List.mem_map.mpr ⟨x, mem, beq_iff_eq.mp same⟩
    exact ⟨.refl r, fun _ _ => Iff.rfl, ⟨there, .inl there⟩, rfl, rfl⟩
  · rw [if_neg told] at h
    obtain ⟨u, p2, h2, h⟩ := bind_done.mp h
    obtain rfl := keep_done.mp h2
    obtain ⟨m, p3, h3, h⟩ := bind_done.mp h
    obtain ⟨u', p4, h4, h⟩ := bind_done.mp h
    obtain rfl := keep_done.mp h4
    obtain ⟨-, rfl⟩ := pure_done.mp h
    have here : Reachable { p with noted := p.noted ++ [(task.id, project)] }.ledger := r
    obtain ⟨next, noted, tasks, staff⟩ := noted_call here h3
    refine ⟨⟨next.reach, next.turned, fun _ there => List.mem_append_left _ (next.said there)⟩,
      fun n other => ?_, ⟨?_, .inr ?_⟩, tasks, staff⟩
    · show n ∈ p3.noted.map (·.1) ↔ _
      rw [noted, List.map_append, List.mem_append]
      exact or_iff_left fun mem => other (List.mem_singleton.mp mem)
    · show task.id ∈ p3.noted.map (·.1)
      rw [noted, List.map_append]
      exact List.mem_append_right _ (List.mem_singleton_self _)
    · exact List.mem_append_right _ (List.mem_singleton_self _)

/-- **One turn**: the task is given out, or its wait noted and nobody found free for it; the
    others, and who is noted of them, are as before. -/
theorem turn_done {view : OpenTask} {given : Bool} (r : Reachable p.ledger)
    (there : HasRow p.ledger project view.task.number view.task.id)
    (h : turn env project view p = (.ok given, p')) :
    Onwards view.task.id p p' ∧ NotedApart view.task.id p p' ∧ (view.blocked = false →
      GivenOut p'.ledger view.task.id ∨ Waits env p.noted p' view.task.id) := by
  unfold turn at h
  by_cases blocked : view.blocked = true
  · rw [if_pos blocked] at h
    obtain ⟨-, rfl⟩ := pure_done.mp h
    refine ⟨.refl r, fun _ _ => Iff.rfl, fun no => ?_⟩
    rw [blocked] at no
    cases no
  · rw [if_neg blocked] at h
    obtain ⟨task, p1, h1, h⟩ := bind_done.mp h
    obtain ⟨first, noted, own, number⟩ := retiered_done r there h1
    have there1 := first.turned.hasRow there
    rw [← own, ← number] at there1
    obtain ⟨all, p2, h2, h⟩ := bind_done.mp h
    obtain ⟨rfl, s, run⟩ := ask_done h2
    obtain ⟨-, t, mem, pr, nr, rfl⟩ := turned_candidates run
    have row : t.id = task.id := there1.numbered first.reach t mem pr nr
    rcases chosen : rank ((candidatesOf p2.ledger t).filter (isFree env task.id))
      (candidatesOf p2.ledger t) with _ | ⟨best, rest⟩ <;> rw [chosen] at h
    · obtain ⟨next, apart, told, tasks, staff⟩ := wait_done first.reach h
      rw [own] at next apart told
      rw [noted] at told
      refine ⟨first.trans next, fun n other => (apart n other).trans (by rw [noted]),
        fun _ => .inr ⟨told, fun t' mem' same c hc => ?_⟩⟩
      -- no candidate was found free: the sorted list of those that are is empty
      have none_free : (candidatesOf p2.ledger t).filter (isFree env task.id) = [] := by
        have same_length := (List.perm_insertionSort (fun a b =>
          rankKey (candidatesOf p2.ledger t) a ≤ rankKey (candidatesOf p2.ledger t) b)
          ((candidatesOf p2.ledger t).filter (isFree env task.id))).length_eq
        unfold rank at chosen
        rw [chosen] at same_length
        exact List.eq_nil_of_length_eq_zero same_length.symm
      rw [tasks] at mem'
      obtain rfl : t' = t := Table.eq_of_key mem' mem (same.trans (own.symm.trans row.symm))
      obtain ⟨q, mem_q, rfl⟩ := List.mem_map.mp hc
      rw [staff] at mem_q
      have found : (⟨q, Ledger.taken p2.ledger q.id, some q.id == t'.takenFrom⟩ : Candidate) ∈
          candidatesOf p2.ledger t' := List.mem_map.mpr ⟨q, mem_q, rfl⟩
      have no := List.filter_eq_nil_iff.mp none_free _ found
      rw [own] at no
      exact Bool.not_eq_true _ ▸ no
    · obtain ⟨next, apart, queued⟩ := give_done first.reach there1 h
      rw [own] at next apart queued
      exact ⟨first.trans next, fun n other => (apart n other).trans (by rw [noted]),
        fun _ => .inl queued⟩

/-- Who a task waits for stays so while its row, its note and the staff do. -/
theorem Waits.stays {noted : List (Nat × Nat)} (waits : Waits env noted p id)
    (still : id ∈ p'.noted.map (·.1)) (said : p.said ⊆ p'.said)
    (rows : ∀ t, t.id = id → (t ∈ p'.ledger.tasks.rows ↔ t ∈ p.ledger.tasks.rows))
    (members : ∀ q : Participant, q.memberId = none →
      (q ∈ p'.ledger.participants.rows ↔ q ∈ p.ledger.participants.rows)) :
    Waits env noted p' id := by
  refine ⟨⟨still, waits.1.2.imp_right fun told => said told⟩, fun t mem own c hc => ?_⟩
  obtain ⟨q, mem_q, rfl⟩ := List.mem_map.mp hc
  obtain ⟨there, fits⟩ := List.mem_filter.mp mem_q
  have member : q.memberId = none := by
    simp only [suits, Bool.and_eq_true, Option.isNone_iff_eq_none] at fits
    exact fits.1.1.2
  -- what else the candidate carries says nothing of whether it is free
  exact waits.2 t ((rows t own).mp mem) own
    ⟨q, Ledger.taken p.ledger q.id, some q.id == t.takenFrom⟩
    (List.mem_map.mpr ⟨q, List.mem_filter.mpr ⟨(members q member).mp there, fits⟩, rfl⟩)

/-- What the turns of some tasks leave: the other tasks and who is noted of them, what waits for
    what, the staff; and of any task a row that is where it was, or in a queue. -/
structure Passed (views : List OpenTask) (p p' : Pass) : Prop where
  reach : Reachable p'.ledger
  said : p.said ⊆ p'.said
  others : ∀ t : Task, t.id ∉ views.map (·.task.id) →
    (t ∈ p'.ledger.tasks.rows ↔ t ∈ p.ledger.tasks.rows)
  apart : ∀ n, n ∉ views.map (·.task.id) → (n ∈ p'.noted.map (·.1) ↔ n ∈ p.noted.map (·.1))
  needs : p'.ledger.needs = p.ledger.needs
  members : ∀ q : Participant, q.memberId = none →
    (q ∈ p'.ledger.participants.rows ↔ q ∈ p.ledger.participants.rows)
  own : ∀ t' ∈ p'.ledger.tasks.rows, ∃ t ∈ p.ledger.tasks.rows, t.id = t'.id ∧
    t'.project = t.project ∧ (t'.state = t.state ∧ t'.assignee = t.assignee ∨ t'.state = .queued)
  stays : ∀ t ∈ p.ledger.tasks.rows, ∃ t' ∈ p'.ledger.tasks.rows, t'.id = t.id ∧
    (t'.state = t.state ∨ t'.state = .queued)

theorem Passed.refl (r : Reachable p.ledger) : Passed [] p p where
  reach := r
  said _ there := there
  others _ _ := Iff.rfl
  apart _ _ := Iff.rfl
  needs := rfl
  members _ _ := Iff.rfl
  own t mem := ⟨t, mem, rfl, rfl, .inl ⟨rfl, rfl⟩⟩
  stays t mem := ⟨t, mem, rfl, .inl rfl⟩

theorem Passed.cons {view : OpenTask} {views : List OpenTask} {p'' : Pass}
    (first : Onwards view.task.id p p') (apart : NotedApart view.task.id p p')
    (rest : Passed views p' p'') : Passed (view :: views) p p'' where
  reach := rest.reach
  said _ there := rest.said (first.said there)
  others t out := by
    obtain ⟨ne, out⟩ := not_or.mp (List.mem_cons.not.mp out)
    exact (rest.others t out).trans (first.turned.others t ne)
  apart n out := by
    obtain ⟨ne, out⟩ := not_or.mp (List.mem_cons.not.mp out)
    exact (rest.apart n out).trans (apart n ne)
  needs := rest.needs.trans first.turned.needs
  members q none_ := (rest.members q none_).trans (first.turned.members q none_)
  own t'' mem := by
    obtain ⟨t', mem', own', project', state'⟩ := rest.own t'' mem
    by_cases same : t'.id = view.task.id
    · obtain ⟨t, mem, own, project, -, -, state⟩ := first.turned.own t' mem' same
      refine ⟨t, mem, own.trans (same.symm.trans own'), project'.trans project, ?_⟩
      rcases state' with ⟨s', a'⟩ | queued
      · rcases state with ⟨s, a⟩ | queued
        · exact .inl ⟨s'.trans s, a'.trans a⟩
        · exact .inr (s'.trans queued)
      · exact .inr queued
    · exact ⟨t', (first.turned.others t' same).mp mem', own', project', state'⟩
  stays t mem := by
    have middle : ∃ t' ∈ p'.ledger.tasks.rows, t'.id = t.id ∧
        (t'.state = t.state ∨ t'.state = .queued) := by
      by_cases same : t.id = view.task.id
      · obtain ⟨t', mem', own', state⟩ := first.turned.stays t mem same
        exact ⟨t', mem', own'.trans same.symm, state⟩
      · exact ⟨t, (first.turned.others t same).mpr mem, rfl, .inl rfl⟩
    obtain ⟨t', mem', own', state⟩ := middle
    obtain ⟨t'', mem'', own'', state'⟩ := rest.stays t' mem'
    refine ⟨t'', mem'', own''.trans own', ?_⟩
    rcases state' with same | queued
    · rcases state with same' | queued'
      · exact .inl (same.trans same')
      · exact .inr (same.trans queued')
    · exact .inr queued

/-- The turns of tasks, one after the other: each that waits for no other is given out, or nobody
    was found free for it and its wait noted. -/
theorem turns_done {views : List OpenTask} {assigned given : Bool} (r : Reachable p.ledger)
    (there : ∀ v ∈ views, HasRow p.ledger project v.task.number v.task.id)
    (once : (views.map (·.task.id)).Nodup)
    (h : turns env project views assigned p = (.ok given, p')) :
    Passed views p p' ∧ ∀ v ∈ views, v.blocked = false →
      GivenOut p'.ledger v.task.id ∨ Waits env p.noted p' v.task.id := by
  induction views generalizing p assigned with
  | nil =>
    obtain ⟨-, rfl⟩ := pure_done.mp h
    exact ⟨.refl r, fun v mem => absurd mem List.not_mem_nil⟩
  | cons view views ih =>
    obtain ⟨a, p1, h1, h⟩ := bind_done.mp h
    obtain ⟨first, apart, served⟩ := turn_done r (there view List.mem_cons_self) h1
    obtain ⟨out, once⟩ := List.nodup_cons.mp once
    have there1 : ∀ v ∈ views, HasRow p1.ledger project v.task.number v.task.id := by
      intro v mem
      refine first.turned.hasRow_other (fun same => out ?_) (there v (List.mem_cons_of_mem _ mem))
      exact List.mem_map.mpr ⟨v, mem, same⟩
    obtain ⟨passed, later⟩ := ih first.reach there1 once h
    refine ⟨.cons first apart passed, fun v mem open_ => ?_⟩
    rcases List.mem_cons.mp mem with rfl | mem
    · -- the later turns are of other tasks, and leave this one as its turn left it
      have rows (t : Task) (own : t.id = v.task.id) := passed.others t (own ▸ out)
      rcases served open_ with queued | waits
      · exact .inl fun t mem own => queued t ((rows t own).mp mem) own
      · exact .inr (waits.stays ((passed.apart _ out).mpr waits.1.1) passed.said rows passed.members)
    · refine (later v mem open_).imp_right fun waits => ⟨⟨waits.1.1, ?_⟩, waits.2⟩
      refine waits.1.2.imp_left (apart _ fun same => out ?_).mp
      exact List.mem_map.mpr ⟨v, mem, same⟩

/-- The open tasks of a project are tasks of it, each once. -/
theorem mem_openTasks {view : OpenTask} : view ∈ openTasks s project ↔ ∃ t ∈ s.tasks.rows,
    t.project = project ∧ t.state = .opened ∧ t.assignee = none ∧
      view = ⟨t, s.handleOf t.requester, !(blockedBy s t.id).isEmpty⟩ := by
  simp only [openTasks, List.mem_map, List.mem_insertionSort, List.mem_filter, Bool.and_eq_true,
    beq_iff_eq, Option.isNone_iff_eq_none]
  constructor
  · rintro ⟨t, ⟨mem, ⟨own, opened⟩, free⟩, rfl⟩
    exact ⟨t, mem, own, opened, free, rfl⟩
  · rintro ⟨t, mem, own, opened, free, rfl⟩
    exact ⟨t, ⟨mem, ⟨own, opened⟩, free⟩, rfl⟩

theorem openTasks_once : ((openTasks s project).map (·.task.id)).Nodup := by
  unfold openTasks
  rw [List.map_map]
  have rows : (s.tasks.rows.map (·.id)).Nodup := s.tasks.rising.imp fun lt => Nat.ne_of_lt lt
  refine (List.Perm.nodup_iff ((List.perm_insertionSort _ _).map _)).mpr ?_
  exact rows.sublist (List.filter_sublist.map _)

/-- What a task waits for at the end of a pass, it waited for at its beginning. -/
theorem Passed.unblocked {views : List OpenTask} (h : Passed views p p') {task : Nat}
    (free : blockedBy p'.ledger task = []) : blockedBy p.ledger task = [] := by
  refine List.filter_eq_nil_iff.mpr fun d mem => ?_
  obtain ⟨mem, edge⟩ := mem_needed.mp mem
  obtain ⟨d', mem', own, state⟩ := h.stays d mem
  have need' : d' ∈ p'.ledger.needed task := by
    rw [mem_needed, h.needs, own]
    exact ⟨mem', edge⟩
  have done : d'.state = .accepted := by
    have no := List.filter_eq_nil_iff.mp free d' need'
    simpa using no
  rcases state with same | queued
  · rw [← same, done]
    simp
  · rw [queued] at done
    cases done

end Passes

/-- **After a pass over a project's open tasks, from any state a run reaches, a task of it that is
    still open, with nobody on it and nothing it waits for, was found nobody free for: every member
    it may go to had a reason not to be, and its wait is noted, when the pass began or as the pass
    told its requester.** -/
theorem nobody_free_waits (before : List Call) (env : Around) (noted : List (Nat × Nat))
    (project : Nat) (assigned : Bool) (p' : Pass)
    (h : assignOpenTasks env project ⟨Ledger.empty.after before, noted, 0, []⟩ =
      (.ok assigned, p')) :
    ∀ t ∈ p'.ledger.tasks.rows, t.project = project → t.state = .opened → t.assignee = none →
      blockedBy p'.ledger t.id = [] → t.id ∈ p'.noted.map (·.1) ∧
        (t.id ∈ noted.map (·.1) ∨ .told t.id ∈ p'.said) ∧
        ∀ c ∈ candidatesOf p'.ledger t, isFree env t.id c = false := by
  intro t mem own opened free unblocked
  obtain ⟨a, p1, h1, h⟩ := bind_done.mp h
  obtain ⟨rfl, rfl⟩ := look_done.mp h1
  have r : Reachable (Ledger.empty.after before) := reachable_after before
  have there : ∀ v ∈ openTasks (Ledger.empty.after before) project,
      HasRow (Ledger.empty.after before) project v.task.number v.task.id := by
    intro v mem
    obtain ⟨t, mem_t, own, -, -, rfl⟩ := mem_openTasks.mp mem
    exact ⟨t, mem_t, rfl, own, rfl⟩
  obtain ⟨passed, served⟩ := turns_done r there openTasks_once h
  obtain ⟨t0, mem0, own0, project0, state0⟩ := passed.own t mem
  rcases state0 with ⟨state0, free0⟩ | queued
  · -- it was open, and nobody's, when the pass began
    have blocked0 := passed.unblocked unblocked
    have view : (⟨t0, (Ledger.empty.after before).handleOf t0.requester, false⟩ : OpenTask) ∈
        openTasks (Ledger.empty.after before) project := by
      refine mem_openTasks.mpr ⟨t0, mem0, project0.symm.trans own, state0.symm.trans opened,
        free0.symm.trans free, ?_⟩
      rw [own0, blocked0]
      rfl
    rcases served _ view rfl with queued | waits
    · have queued := queued t mem own0.symm
      rw [opened] at queued
      cases queued
    · rw [own0] at waits
      exact ⟨waits.1.1, waits.1.2, waits.2 t mem rfl⟩
  · rw [opened] at queued
    cases queued

/-- A pass over one open task, whose members have no windows that open. -/
def shutOut : Around where
  clock _ := []
  names _ := []
  look _ _ _ := ⟨fun _ => false, false, none, 0, none, none⟩

def passShutOut : Except LedgerError Bool × Pass :=
  assignOpenTasks shutOut 1 ⟨Ledger.empty.after [opening, taskFor "first" []], [], 0, []⟩

set_option maxRecDepth 20000 in
theorem nobody_free_waits_shutOut : 1 ∈ passShutOut.2.noted.map (·.1) ∧
    .told 1 ∈ passShutOut.2.said := by
  have ran : passShutOut.1 = .ok false := rfl
  have there : ∃ t ∈ passShutOut.2.ledger.tasks.rows, t.id = 1 ∧ t.project = 1 ∧
      t.state = .opened ∧ t.assignee = none ∧ blockedBy passShutOut.2.ledger t.id = [] := by
    decide
  obtain ⟨t, mem, own, project, opened, free, unblocked⟩ := there
  obtain ⟨noted, told, -⟩ := nobody_free_waits [opening, taskFor "first" []] shutOut [] 1 false
    passShutOut.2 (Prod.ext ran rfl) t mem project opened free unblocked
  rw [own] at noted told
  exact ⟨noted, told.resolve_left List.not_mem_nil⟩

/-! ## 7. Pass after pass -/

/-- `forget_project`. -/
def forgetProject (project : Nat) (p : Pass) : Pass :=
  let gone := (p.noted.filter fun n => n.2 == project).map (·.1)
  { p with
    noted := p.noted.filter fun n => n.2 != project
    said := p.said ++ gone.map .forgot }

/-- What comes of the waits: a pass over a project's open tasks, which an error may end; calls of
    the ledger by others; a project deleted. -/
inductive Beat where
  | pass (env : Around) (project : Nat)
  | between (calls : List Call)
  | forget (project : Nat)

def Beat.step : Pass → Beat → Pass
  | p, .pass env project => (assignOpenTasks env project p).2
  | p, .between calls => { p with ledger := p.ledger.after calls }
  | p, .forget project => forgetProject project p

/-- All that is said over some beats, from an empty ledger. -/
def saidOver (beats : List Beat) : List Said :=
  (beats.foldl Beat.step ⟨Ledger.empty, [], 0, []⟩).said

def Said.task : Said → Nat
  | .given task _ => task
  | .told task => task
  | .forgot task => task

def Said.isTold : Said → Bool
  | .told _ => true
  | _ => false

/-- What is said of one task. -/
def about (task : Nat) (said : List Said) : List Said := said.filter fun x => x.task == task

/-- Whether the last that is said of a task is that it waits. -/
def heard (said : List Said) (task : Nat) : Bool := ((about task said).getLast?).any Said.isTold

/-- Two things said of a task, one after the other. -/
def Said.Apart (x y : Said) : Prop := x.isTold = true → y.isTold = false

/-- No requester is told twice of one wait, and whoever heard of a wait is noted. -/
def Tells (said : List Said) (noted : List (Nat × Nat)) : Prop :=
  ∀ task, (about task said).IsChain Said.Apart ∧ (heard said task = true → task ∈ noted.map (·.1))

section Waits

variable {env : Around} {said : List Said} {noted noted' : List (Nat × Nat)} {p : Pass} {x : Said}

theorem about_snoc (task : Nat) : about task (said ++ [x]) =
    if x.task = task then about task said ++ [x] else about task said := by
  unfold about
  rw [List.filter_append]
  by_cases own : x.task = task
  · rw [if_pos own, List.filter_singleton, beq_iff_eq.mpr own]
    rfl
  · rw [if_neg own, List.filter_singleton, beq_eq_false_iff_ne.mpr own]
    exact List.append_nil _

/-- One more thing said of a task. -/
theorem Tells.snoc (h : Tells said noted) (fresh : x.isTold = true → heard said x.task = false)
    (keeps : ∀ t ∈ noted.map (·.1), t ≠ x.task → t ∈ noted'.map (·.1))
    (own : x.isTold = true → x.task ∈ noted'.map (·.1)) : Tells (said ++ [x]) noted' := by
  intro task
  obtain ⟨chain, waits⟩ := h task
  by_cases same : x.task = task
  · subst same
    refine ⟨?_, fun told => own ?_⟩
    · rw [about_snoc, if_pos rfl, List.isChain_append]
      refine ⟨chain, List.isChain_singleton _, fun last hl y hy was => ?_⟩
      rw [List.head?_cons, Option.mem_def, Option.some.injEq] at hy
      subst hy
      by_contra now_
      have quiet := fresh (Bool.not_eq_false _ ▸ now_)
      unfold heard at quiet
      rw [Option.mem_def.mp hl, Option.any_some, was] at quiet
      cases quiet
    · unfold heard at told
      rwa [about_snoc, if_pos rfl, List.getLast?_concat, Option.any_some] at told
  · unfold heard
    rw [about_snoc, if_neg same]
    exact ⟨chain, fun told => keeps task (waits told) fun e => same e.symm⟩

theorem Tells.more (h : Tells said noted) (more : noted.map (·.1) ⊆ noted'.map (·.1)) :
    Tells said noted' := fun task => ⟨(h task).1, fun told => more ((h task).2 told)⟩

/-- Whoever is not noted has not heard of a wait. -/
theorem Tells.fresh (h : Tells said noted) {task : Nat} (out : task ∉ noted.map (·.1)) :
    heard said task = false := by
  by_contra told
  exact out ((h task).2 (Bool.not_eq_false _ ▸ told))

/-- A program that keeps this, whether it goes through or an error ends it. -/
def KeepsTells {α : Type} (m : PassM α) : Prop :=
  ∀ p : Pass, Tells p.said p.noted → Tells (m p).2.said (m p).2.noted

theorem KeepsTells.bind {α β : Type} {m : PassM α} {k : α → PassM β} (h : KeepsTells m)
    (hk : ∀ a, KeepsTells (k a)) : KeepsTells (m >>= k) := by
  intro p tells
  have first := h p tells
  rcases run : m p with ⟨e | a, p1⟩ <;> rw [run] at first
  · rw [bind_error run]
    exact first
  · rw [bind_ok run]
    exact hk a p1 first

theorem KeepsTells.pure {α : Type} (a : α) : KeepsTells (pure a : PassM α) := fun _ tells => tells

theorem call_apart (env : Around) {R : Ledger → Ledger → Prop} {α : Type} (m : LedgerTxn R α)
    (p : Pass) :
    (call env m p).2.said = p.said ∧ (call env m p).2.noted = p.noted := by
  unfold call
  split <;> exact ⟨rfl, rfl⟩

theorem KeepsTells.call {R : Ledger → Ledger → Prop} {α : Type} (m : LedgerTxn R α) :
    KeepsTells (call env m) := by
  intro p tells
  obtain ⟨said, noted⟩ := call_apart env m p
  rw [said, noted]
  exact tells

theorem KeepsTells.ask {R : Ledger → Ledger → Prop} {α : Type} (m : LedgerTxn R α) :
    KeepsTells (ask m) := by
  intro p tells
  unfold Scheduler.ask
  split <;> exact tells

theorem KeepsTells.retiered {project : Nat} {view : OpenTask} :
    KeepsTells (retiered env project view) := by
  refine .bind (.call _) fun moved => ?_
  cases moved with
  | none => exact .pure _
  | some m => exact .bind (.bind (.call _) fun _ => .pure _) fun _ => .pure _

theorem KeepsTells.give {project : Nat} {task : Task} {best : Candidate} :
    KeepsTells (give env project task best) := by
  refine .bind (fun _ tells => tells) fun p0 => .bind (.call _) fun _ =>
    .bind (fun p tells => ?_) fun _ => .pure _
  refine tells.snoc (fun told => by cases told) (fun t mem ne => ?_) fun told => by cases told
  obtain ⟨n, mem, same⟩ := List.mem_map.mp mem
  refine List.mem_map.mpr ⟨n, List.mem_filter.mpr ⟨mem, bne_iff_ne.mpr fun e => ne ?_⟩, same⟩
  exact same.symm.trans e

/-- A requester told, where the note goes through; where it does not, nothing was said. -/
theorem tells_told {R : Ledger → Ledger → Prop} {α : Type} (m : LedgerTxn R α) {task : Nat}
    (tells : Tells p.said p.noted) (there : task ∈ p.noted.map (·.1))
    (fresh : heard p.said task = false) {tell : PassM Bool}
    (e : tell = do
      let _ ← Scheduler.call env m
      keep fun p => { p with said := p.said ++ [.told task] }
      Pure.pure false) : Tells (tell p).2.said (tell p).2.noted := by
  subst e
  obtain ⟨said, noted⟩ := call_apart env m p
  rcases run : Scheduler.call env m p with ⟨e | a, p1⟩ <;> rw [run] at said noted
  · rw [bind_error run]
    show Tells p1.said p1.noted
    rw [show p1.said = _ from said, show p1.noted = _ from noted]
    exact tells
  · rw [bind_ok run]
    show Tells (p1.said ++ [.told task]) p1.noted
    rw [show p1.said = _ from said, show p1.noted = _ from noted]
    exact tells.snoc (fun _ => fresh) (fun t mem _ => mem) fun _ => there

theorem KeepsTells.wait {project : Nat} {requester : String} {task : Task}
    {all : List Candidate} : KeepsTells (wait env project requester task all) := by
  refine fun p tells => ?_
  unfold Scheduler.wait
  rw [look_bind]
  by_cases told : (p.noted.any fun n => n.1 == task.id) = true
  · rw [if_pos told]
    exact tells
  · have out : task.id ∉ p.noted.map (·.1) := by
      intro mem
      obtain ⟨n, mem, same⟩ := List.mem_map.mp mem
      exact told (List.any_eq_true.mpr ⟨n, mem, beq_iff_eq.mpr same⟩)
    have more : Tells p.said (p.noted ++ [(task.id, project)]) :=
      tells.more fun t mem => by
        rw [List.map_append]
        exact List.mem_append_left _ mem
    have there : task.id ∈ (p.noted ++ [(task.id, project)]).map (·.1) := by
      rw [List.map_append]
      exact List.mem_append_right _ (List.mem_singleton_self _)
    rw [if_neg told, keep_bind]
    exact tells_told (p := { p with noted := p.noted ++ [(task.id, project)] }) (note project _)
      more there (tells.fresh out) rfl

theorem KeepsTells.turn {project : Nat} {view : OpenTask} :
    KeepsTells (turn env project view) := by
  unfold Scheduler.turn
  split
  · exact .pure _
  · refine KeepsTells.bind KeepsTells.retiered fun task => ?_
    refine KeepsTells.bind (KeepsTells.ask _) fun all => ?_
    dsimp only
    rcases rank (all.filter (isFree env task.id)) all with _ | ⟨best, rest⟩
    · exact .wait
    · exact .give

theorem KeepsTells.turns {project : Nat} {views : List OpenTask} :
    ∀ {assigned : Bool}, KeepsTells (turns env project views assigned) := by
  induction views with
  | nil => exact fun {_} => .pure _
  | cons view views ih => exact fun {_} => .bind .turn fun _ => ih

/-- Tasks forgotten, one after the other. -/
theorem Tells.forgotten {gone : List Nat} (tells : Tells said noted)
    (keeps : ∀ t ∈ noted.map (·.1), t ∉ gone → t ∈ noted'.map (·.1)) :
    Tells (said ++ gone.map .forgot) noted' := by
  induction gone generalizing said noted with
  | nil =>
    rw [List.map_nil, List.append_nil]
    exact tells.more fun t mem => keeps t mem List.not_mem_nil
  | cons task gone ih =>
    have next : Tells (said ++ [.forgot task]) (noted.filter fun n => n.1 != task) := by
      refine tells.snoc (fun told => by cases told) (fun t mem ne => ?_) fun told => by cases told
      obtain ⟨n, there, rfl⟩ := List.mem_map.mp mem
      exact List.mem_map.mpr ⟨n, List.mem_filter.mpr ⟨there, bne_iff_ne.mpr ne⟩, rfl⟩
    rw [List.map_cons, List.append_cons]
    refine ih next fun t mem out => ?_
    obtain ⟨n, there, rfl⟩ := List.mem_map.mp mem
    obtain ⟨there, ne⟩ := List.mem_filter.mp there
    exact keeps n.1 (List.mem_map.mpr ⟨n, there, rfl⟩)
      (List.mem_cons.not.mpr (not_or.mpr ⟨bne_iff_ne.mp ne, out⟩))

theorem tells_forgetProject {project : Nat} (tells : Tells p.said p.noted) :
    Tells (forgetProject project p).said (forgetProject project p).noted := by
  refine tells.forgotten fun t mem out => ?_
  obtain ⟨n, there, rfl⟩ := List.mem_map.mp mem
  refine List.mem_map.mpr ⟨n, List.mem_filter.mpr ⟨there, bne_iff_ne.mpr fun own => out ?_⟩, rfl⟩
  exact List.mem_map.mpr ⟨n, List.mem_filter.mpr ⟨there, beq_iff_eq.mpr own⟩, rfl⟩

end Waits

/-- **Over any passes, with any calls of the ledger between them and projects deleted, no requester
    hears twice that a task waits unless the task was given to a member, or forgotten with its
    project, in between.** -/
theorem told_once (beats : List Beat) (task : Nat) :
    (about task (saidOver beats)).IsChain Said.Apart := by
  have tells : ∀ (beats : List Beat) (p : Pass), Tells p.said p.noted →
      Tells (beats.foldl Beat.step p).said (beats.foldl Beat.step p).noted := by
    intro beats
    induction beats with
    | nil => exact fun p tells => tells
    | cons beat beats ih =>
      refine fun p tells => ih _ ?_
      cases beat with
      | pass env project =>
        exact KeepsTells.bind (m := look) (fun _ tells => tells) (fun _ => .turns) p tells
      | between calls => exact tells
      | forget project => exact tells_forgetProject tells
  have first : Tells [] [] := fun _ => ⟨List.isChain_nil, fun told => by cases told⟩
  exact (tells beats ⟨Ledger.empty, [], 0, []⟩ first task).1

end Scheduler
end ConsensFlow
