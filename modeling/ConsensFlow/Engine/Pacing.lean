/-
  File:      ConsensFlow/Engine/Pacing.lean
  Subject:   PACED DELIVERY (`cf-engine`, `pacing.rs`): a message is typed into a window only once
             the window's looks have read it at rest for the settle.

  * `Frontier`, `Rest`, `DeliveryPart` -- what every look of a rest reads the same, and the rest a
    window's looks have read so far;
  * `noteRest`, `restEnds`, `paced` -- a look, the end of a rest, and the gate's word on a message;
  * `Watched`, `Event` -- one window over time: its looks, the looks that failed and the refusals,
    the human's keys, the gate's questions, and the clock;
  * `RestRun` -- looks that follow each other, all at rest on one frontier;
  * **`rest_before_typing`** -- over any run: a message the gate lets go has a whole settle of such
    looks behind it, up to the last, and no key of the human's in that time.
-/
import ConsensFlow.Model
import ConsensFlow.Harness.Drawn
import ConsensFlow.Panes.Input

namespace ConsensFlow
namespace Engine

open Harness (Item)
open Panes (Bytes Fed PaneInputState typedIn)

/-! ## 1. What a look reads -/

/-- A record as a look found it. -/
inductive Reading where
  | unknown (reason : String)
  /-- Not there: it was read, and holds nothing. -/
  | missing (reason : String)
  | known (items : List Item)

namespace Reading

def readFailed : Reading → Bool
  | unknown _ => true
  | missing _ | known _ => false

def reason : Reading → Option String
  | unknown reason | missing reason => some reason
  | known _ => none

end Reading

structure Observed where
  reading : Option Reading
  atPrompt : Bool := false

def Observed.items (observed : Observed) : List Item :=
  match observed.reading with
  | some (.known items) => items
  | some (.unknown _) | some (.missing _) | none => []

/-- What a look read of a window at rest, which every look of its rest reads the same. -/
structure Frontier where
  last : Option (String × Bool)
  items : Nat
  atPrompt : Bool
  deriving DecidableEq, Repr

def Frontier.of (observed : Observed) : Frontier :=
  let items := observed.items
  { last := items.getLast?.map fun item => (item.id, item.complete)
    items := items.length
    atPrompt := observed.atPrompt }

/-- Whether a look read the window's record: one not there was read, one that could not be read says
    nothing. -/
def read (observed : Observed) : Bool :=
  match observed.reading with
  | some reading => !reading.readFailed
  | none => false

/-- Why a message waits for a window whose record could not be read. -/
def unreadable (observed : Observed) : String :=
  let why := (observed.reading.bind Reading.reason).getD "no reading"
  s!"its record cannot be read ({why}): nothing is typed into it until it can be"

/-- `AT_WORK`. -/
def atWorkWhy : String := "its harness says it is at work"

/-! ## 2. A window's rest -/

structure Limits where
  settleMs : Nat := 3000
  settleFromFirstLook : Bool := false
  deriving DecidableEq, Repr

/-- The rest a window's looks have read since `since`, on one frontier, the last of them `look`. -/
structure Rest where
  since : Nat
  frontier : Frontier
  look : Nat
  deriving DecidableEq, Repr

/-- What the look that let a message go read. -/
structure Paced where
  message : Nat
  frontier : Frontier
  restMs : Nat
  typedQuietMs : Option Nat
  screenQuietMs : Option Nat
  outputQuietMs : Option Nat
  fallback : Bool
  deriving DecidableEq, Repr

/-- What a launch put ahead of its window's queue, as far as the pacing asks. -/
structure Prelude where
  replacement : Nat
  displaced : Option Nat
  deriving DecidableEq, Repr

/-- The part of a participant's record that its deliveries keep. -/
structure DeliveryPart where
  looks : Nat := 0
  rest : Option Rest := none
  unrest : Option String := none
  paced : Option Paced := none
  prelude : Option Prelude := none
  deriving DecidableEq, Repr

namespace DeliveryPart

/-- The step's look is the next: its number is the count it leaves. -/
def looked (part : DeliveryPart) : DeliveryPart := { part with looks := part.looks + 1 }

/-- The rest goes on, begins, or ends. It goes on only over looks that follow each other, each
    reading the same frontier. -/
def noteRest (now : Nat) (observed : Observed) (idle atWork : Bool) (looked : Nat)
    (part : DeliveryPart) : DeliveryPart :=
  if !(idle && read observed) || atWork then
    { part with
      rest := none
      unrest := if !read observed then some (unreadable observed)
        else if atWork then some atWorkWhy
        else none }
  else
    let frontier := Frontier.of observed
    match part.rest.filter fun rest => rest.frontier = frontier ∧ rest.look + 1 = looked with
    | some rest => { part with unrest := none, rest := some { rest with look := looked } }
    | none => { part with unrest := none, rest := some { since := now, frontier, look := looked } }

/-- A look failed, or the window refused a message for being at work. -/
def restEnds (part : DeliveryPart) : DeliveryPart := { part with rest := none, paced := none }

/-- What a launch put ahead of the queue goes at the window's first rest. -/
def putFirst (part : DeliveryPart) (message : Nat) : Bool :=
  match part.prelude with
  | some ahead => ahead.replacement == message || ahead.displaced == some message
  | none => false

end DeliveryPart

/-! ## 3. The gate -/

/-- What the gate says of the message at the head of a window's queue. -/
inductive Pace where
  | go
  | wait (why : String)
  | gone
  deriving DecidableEq, Repr

/-- What `pane.snapshot` says, as far as the gate reads it. -/
structure Snapshot where
  pasteInFlight : Bool
  typedQuietMs : Option Nat
  screenQuietMs : Option Nat
  outputQuietMs : Option Nat
  deriving DecidableEq, Repr

/-- The pane host's answer at `now`; how long the screen and the output are quiet is its output
    thread's word. -/
def snapshotOf (now : Nat) (pane : PaneInputState) (quiet : Option Nat × Option Nat) : Snapshot :=
  { pasteInFlight := pane.pasteInFlight
    typedQuietMs := pane.typedAt.map fun last => now - last
    screenQuietMs := quiet.1
    outputQuietMs := quiet.2 }

/-- What the gate finds as it asks of a message. -/
structure Ask where
  message : Message
  /-- The ledger's answer to what is pending for the window's participant. -/
  pending : Except String (List Message)
  /-- The window, as whether its harness has a word of its own that it is at rest. -/
  idleWord : Option Bool
  hasPane : Bool
  /-- The participant was forgotten as the host was asked. -/
  forgotten : Bool

def urgentWaits (pending : List Message) : Bool :=
  pending.any fun waiting => waiting.urgent && waiting.state == .queued

/-- `settle as f64 / 1000.0`, as it is shown. -/
def secondsShown (ms : Nat) : String :=
  let whole := toString (ms / 1000)
  let digits := [ms / 100 % 10, ms / 10 % 10, ms % 10].map Nat.digitChar
  match digits.rdropWhile (· == '0') with
  | [] => whole
  | part => whole ++ "." ++ String.ofList part

/-- `paced`: whether the window has rested long enough for the message to be typed into it now.
    `asked` is the snapshot of a host that answered `ok`. -/
def paced (limits : Limits) (now : Nat) (ask : Ask) (asked : Option Snapshot)
    (part : DeliveryPart) : Except String Pace × DeliveryPart :=
  let part := { part with paced := none }
  if part.putFirst ask.message.id then (.ok .go, part)
  else
    match ask.pending with
    | .error e => (.error e, part)
    | .ok pending =>
    match part.rest with
    | none => (.ok (.wait (part.unrest.getD "it has not read at rest yet")), part)
    | some rest =>
    if limits.settleMs = 0 then (.ok .go, part)
    else
    let restMs := now - rest.since
    if urgentWaits pending then
      (.ok .go, { part with
        paced := some {
          message := ask.message.id, frontier := rest.frontier, restMs, typedQuietMs := none
          screenQuietMs := none, outputQuietMs := none
          fallback := ask.idleWord == some false } })
    else
    let seconds := secondsShown limits.settleMs
    if restMs < limits.settleMs && !limits.settleFromFirstLook then
      (.ok (.wait s!"it has not rested {seconds} s since its last turn"), part)
    else
    match ask.idleWord, ask.hasPane with
    | none, _ | _, false => (.ok .gone, part)
    | some idleWord, true =>
    if ask.forgotten then (.ok .gone, part)
    else
    match asked with
    | none => (.ok (.wait "its pane host did not answer"), part)
    | some snapshot =>
    if snapshot.typedQuietMs.any (· < limits.settleMs) then
      (.ok (.wait s!"the human typed in it within the last {seconds} s"), part)
    else if !idleWord && snapshot.screenQuietMs.all (· < limits.settleMs) then
      (.ok (.wait (s!"what its screen shows changed within the last {seconds} s, and its " ++
        "harness says nothing of its own rest")), part)
    else if snapshot.pasteInFlight then
      (.ok (.wait "a paste is being written into it"), part)
    else
      (.ok .go, { part with
        paced := some {
          message := ask.message.id, frontier := rest.frontier, restMs
          typedQuietMs := snapshot.typedQuietMs, screenQuietMs := snapshot.screenQuietMs
          outputQuietMs := snapshot.outputQuietMs, fallback := !idleWord } })

/-! ## 4. One window over time -/

/-- A look the step noted, with what the window's harness said then. -/
structure Noted where
  number : Nat
  at_ : Nat
  observed : Observed
  idle : Bool
  atWork : Bool

/-- It read the record, the window idle and not at work, and `frontier` of it. -/
structure Noted.AtRest (look : Noted) (frontier : Frontier) : Prop where
  idle : look.idle = true
  read : read look.observed = true
  notAtWork : look.atWork = false
  frontier : Frontier.of look.observed = frontier

/-- What befell the window's rest: a look noted, or one that failed, or a refusal. -/
inductive Past where
  | look (noted : Noted)
  | ended

/-- One window: the clock, what is kept of it, its pane's input, and, for the proofs, what befell
    it, the newest first, and when the human's keys came. -/
structure Watched where
  now : Nat
  part : DeliveryPart := {}
  pane : PaneInputState
  past : List Past := []
  keys : List Nat := []

namespace Watched

inductive Event where
  | later (ms : Nat)
  /-- A step's look at the window. -/
  | look (observed : Observed) (idle atWork : Bool)
  /-- One whose step ends before it is noted. -/
  | unnoted
  /-- A look that failed, a refusal, or a fresh look that does not read it at rest. -/
  | ends
  | ask (ask : Ask) (answer : Option (Option Nat × Option Nat))
  | prelude (ahead : Option Prelude)
  /-- The human's input, counted once it went in. -/
  | typed (bytes : Bytes) (fed : Fed)
  /-- Any other change of the pane's input: a paste begins or ends, a write fails. -/
  | input (pane : PaneInputState)

/-- What the gate says of a message now, `answer` the host's, none where it did not answer. -/
def asked (limits : Limits) (w : Watched) (ask : Ask) (answer : Option (Option Nat × Option Nat)) :
    Except String Pace × DeliveryPart :=
  paced limits w.now ask (answer.map (snapshotOf w.now w.pane)) w.part

/-- Whether the human's input holds a key. -/
def keyed (w : Watched) (bytes : Bytes) (fed : Fed) : Bool :=
  (Panes.keysOf w.pane.unsent bytes fed.segments).keyed

def step (limits : Limits) (w : Watched) : Event → Watched
  | .later ms => { w with now := w.now + ms }
  | .look observed idle atWork =>
    let part := w.part.looked
    { w with
      part := part.noteRest w.now observed idle atWork part.looks
      past := .look { number := part.looks, at_ := w.now, observed, idle, atWork } :: w.past }
  | .unnoted => { w with part := w.part.looked }
  | .ends => { w with part := w.part.restEnds, past := .ended :: w.past }
  | .ask ask answer => { w with part := (w.asked limits ask answer).2 }
  | .prelude ahead => { w with part := { w.part with prelude := ahead } }
  | .typed bytes fed =>
    { w with
      pane := typedIn bytes fed w.now w.pane
      keys := if w.keyed bytes fed then w.now :: w.keys else w.keys }
  | .input pane => { w with pane := { pane with typedAt := w.pane.typedAt } }

def run (limits : Limits) (w : Watched) (events : List Event) : Watched :=
  events.foldl (step limits) w

/-- A window just opened, in a pane nobody typed in. -/
def opened (now generation : Nat) : Watched := { now, pane := { generation } }

end Watched

/-! ## 5. The rest is the looks' -/

/-- Looks, the newest first, that follow each other, all at rest on one frontier: `rest` begins at
    the first of them, and its look is the last. -/
structure RestRun (rest : Rest) (looks : List Noted) : Prop where
  last : looks.head?.map Noted.number = some rest.look
  first : looks.getLast?.map Noted.at_ = some rest.since
  follow : looks.IsChain fun later earlier => later.number = earlier.number + 1
  atRest : ∀ look ∈ looks, look.AtRest rest.frontier

namespace RestRun

variable {rest : Rest} {look : Noted} {looks : List Noted}

theorem one {frontier : Frontier} (atRest : look.AtRest frontier) :
    RestRun { since := look.at_, frontier, look := look.number } [look] where
  last := rfl
  first := rfl
  follow := List.isChain_singleton look
  atRest := by
    intro other among
    rw [List.mem_singleton] at among
    exact among ▸ atRest

theorem more (run : RestRun rest looks) (atRest : look.AtRest rest.frontier)
    (next : look.number = rest.look + 1) :
    RestRun { rest with look := look.number } (look :: looks) := by
  obtain ⟨last, first, follow, all⟩ := run
  cases looks with
  | nil => cases last
  | cons before earlier =>
    have number : before.number = rest.look := Option.some.inj last
    refine ⟨rfl, ?_, ?_, ?_⟩
    · rw [List.getLast?_cons_cons]
      exact first
    · exact List.isChain_cons_cons.2 ⟨by rw [next, number], follow⟩
    · intro other among
      rcases List.mem_cons.1 among with rfl | among
      · exact atRest
      · exact all other among

end RestRun

/-- What is kept of a window is what befell it: its rest is of a run of looks up to the last, no
    failed look and no refusal among them, and its pane knows the human's last key. -/
structure Watched.Kept (w : Watched) : Prop where
  rest : ∀ rest, w.part.rest = some rest →
    ∃ looks, RestRun rest looks ∧ looks.map Past.look <+: w.past
  keys : ∀ key ∈ w.keys, ∃ last, w.pane.typedAt = some last ∧ key ≤ last
  passed : ∀ key ∈ w.keys, key ≤ w.now

namespace DeliveryPart

variable {now looked : Nat} {observed : Observed} {idle atWork : Bool} {part : DeliveryPart}
  {rest : Rest}

/-- A look that leaves a rest read the window at rest, and the rest is the one before it gone on, or
    one that begins with it. -/
theorem noteRest_some (left : (part.noteRest now observed idle atWork looked).rest = some rest) :
    (idle = true ∧ read observed = true ∧ atWork = false ∧ Frontier.of observed = rest.frontier) ∧
    ((∃ before, part.rest = some before ∧ before.look + 1 = looked ∧
        rest = { before with look := looked }) ∨
      rest = { since := now, frontier := Frontier.of observed, look := looked }) := by
  unfold noteRest at left
  split at left
  · cases left
  · rename_i quiet
    have still : (idle = true ∧ read observed = true) ∧ atWork = false := by simpa using quiet
    obtain ⟨⟨idle_, read_⟩, notAtWork⟩ := still
    dsimp only at left
    split at left
    · rename_i before found
      obtain ⟨same, frontier, next⟩ : part.rest = some before ∧
          before.frontier = Frontier.of observed ∧ before.look + 1 = looked := by
        simpa [Option.filter_eq_some_iff] using found
      have rest_ : { before with look := looked } = rest := Option.some.inj left
      subst rest_
      exact ⟨⟨idle_, read_, notAtWork, frontier.symm⟩, .inl ⟨before, same, next, rfl⟩⟩
    · have rest_ : { since := now, frontier := Frontier.of observed, look := looked } = rest :=
        Option.some.inj left
      subst rest_
      exact ⟨⟨idle_, read_, notAtWork, rfl⟩, .inr rfl⟩

end DeliveryPart

section Gate

variable {limits : Limits} {now : Nat} {ask : Ask} {asked : Option Snapshot} {part : DeliveryPart}

/-- The gate's word leaves the rest as it was. -/
theorem paced_rest : (paced limits now ask asked part).2.rest = part.rest := by
  unfold paced
  dsimp only
  repeat' split
  all_goals rfl

/-- A message that is no prelude, while no urgent row waits, goes after a whole settle of rest, the
    human's keys quiet as long. -/
theorem paced_go (settle : 0 < limits.settleMs) (whole : limits.settleFromFirstLook = false)
    (later : part.putFirst ask.message.id = false)
    (plain : ∀ pending, ask.pending = .ok pending → urgentWaits pending = false)
    (went : (paced limits now ask asked part).1 = .ok .go) :
    (∃ rest, part.rest = some rest ∧ limits.settleMs ≤ now - rest.since) ∧
    ∃ snapshot, asked = some snapshot ∧
      ∀ quiet, snapshot.typedQuietMs = some quiet → limits.settleMs ≤ quiet := by
  have later' : { part with paced := none }.putFirst ask.message.id = false := later
  unfold paced at went
  dsimp only at went
  rw [later', if_neg Bool.false_ne_true] at went
  split at went
  · cases went
  rename_i pending found
  rw [plain pending found, whole] at went
  split at went
  · cases went
  rename_i rest rested
  rw [if_neg (Nat.pos_iff_ne_zero.1 settle), if_neg Bool.false_ne_true] at went
  split at went
  · cases went
  rename_i long
  refine ⟨⟨rest, rested, by simpa using long⟩, ?_⟩
  -- Each wait and each window gone is not the word that came.
  split at went
  · cases went
  · cases went
  split at went
  · cases went
  split at went
  · cases went
  rename_i snapshot
  split at went
  · cases went
  rename_i quiet
  refine ⟨snapshot, rfl, fun ms said => ?_⟩
  rw [said] at quiet
  simpa using quiet

end Gate

/-! ## 6. A step, and a run -/

namespace Watched

variable {limits : Limits} {w : Watched}

theorem kept_opened (now generation : Nat) : (opened now generation).Kept where
  rest := by
    intro rest rested
    cases rested
  keys := by
    intro key among
    cases among
  passed := by
    intro key among
    cases among

/-- A step that leaves the rest and what befell it as they were. -/
theorem Kept.of_part {part : DeliveryPart} (kept : w.Kept) (same : part.rest = w.part.rest) :
    ({ w with part } : Watched).Kept where
  rest := by
    intro rest rested
    exact kept.rest rest (same ▸ rested)
  keys := kept.keys
  passed := kept.passed

theorem Kept.look (kept : w.Kept) (observed : Observed) (idle atWork : Bool) :
    (w.step limits (.look observed idle atWork)).Kept where
  rest := by
    intro rest rested
    obtain ⟨⟨idle_, read_, notAtWork, frontier⟩, before | begun⟩ :=
      DeliveryPart.noteRest_some rested
    · obtain ⟨before, had, next, rfl⟩ := before
      obtain ⟨looks, run, upTo⟩ := kept.rest before had
      have look : Noted.AtRest ⟨w.part.looked.looks, w.now, observed, idle, atWork⟩
          before.frontier := ⟨idle_, read_, notAtWork, frontier⟩
      exact ⟨_, run.more look next.symm, List.cons_prefix_cons.2 ⟨rfl, upTo⟩⟩
    · subst begun
      have look : Noted.AtRest ⟨w.part.looked.looks, w.now, observed, idle, atWork⟩
          (Frontier.of observed) := ⟨idle_, read_, notAtWork, rfl⟩
      exact ⟨_, RestRun.one look, List.cons_prefix_cons.2 ⟨rfl, List.nil_prefix⟩⟩
  keys := kept.keys
  passed := kept.passed

/-- The human's input is of a key, counted in the pane as it came, or of none. -/
theorem typed_cases (limits : Limits) (w : Watched) (bytes : Bytes) (fed : Fed) :
    ((w.step limits (.typed bytes fed)).pane.typedAt = some w.now ∧
        (w.step limits (.typed bytes fed)).keys = w.now :: w.keys) ∨
      ((w.step limits (.typed bytes fed)).pane.typedAt = w.pane.typedAt ∧
        (w.step limits (.typed bytes fed)).keys = w.keys) := by
  by_cases holds : w.keyed bytes fed = true
  · exact .inl ⟨if_pos holds, if_pos holds⟩
  · exact .inr ⟨if_neg holds, if_neg holds⟩

theorem Kept.typed (kept : w.Kept) (bytes : Bytes) (fed : Fed) :
    (w.step limits (.typed bytes fed)).Kept := by
  rcases typed_cases limits w bytes fed with ⟨at_, keys⟩ | ⟨at_, keys⟩
  · refine ⟨kept.rest, fun key among => ⟨w.now, at_, ?_⟩, fun key among => ?_⟩
    all_goals
      rw [keys] at among
      rcases List.mem_cons.1 among with rfl | before
      · exact Nat.le_refl _
      · exact kept.passed key before
  · refine ⟨kept.rest, fun key among => ?_, fun key among => ?_⟩
    · rw [at_]
      exact kept.keys key (keys ▸ among)
    · exact kept.passed key (keys ▸ among)

theorem Kept.step (kept : w.Kept) (event : Event) : (w.step limits event).Kept := by
  cases event with
  | later ms => exact ⟨kept.rest, kept.keys, fun key among =>
      Nat.le_add_right_of_le (kept.passed key among)⟩
  | look observed idle atWork => exact kept.look observed idle atWork
  | unnoted => exact kept.of_part rfl
  | ends =>
    refine ⟨fun rest rested => ?_, kept.keys, kept.passed⟩
    cases rested
  | ask ask answer => exact kept.of_part paced_rest
  | prelude ahead => exact kept.of_part rfl
  | typed bytes fed => exact kept.typed bytes fed
  | input pane => exact ⟨kept.rest, kept.keys, kept.passed⟩

theorem Kept.run (kept : w.Kept) (events : List Event) : (w.run limits events).Kept := by
  induction events generalizing w with
  | nil => exact kept
  | cons event events ih => exact ih (kept.step event)

end Watched

/-- **Nothing is typed before a whole settle of rest**: over any run of a window, a message the gate
    lets go, that is no prelude and while no urgent row waits, has a run of looks behind it, up to
    the last thing that befell the rest, all at rest on one frontier and the first of them a settle
    ago or more; and no key of the human's came since. -/
theorem rest_before_typing {limits : Limits} (settle : 0 < limits.settleMs)
    (whole : limits.settleFromFirstLook = false) (now generation : Nat)
    (events : List Watched.Event) (ask : Ask) (answer : Option (Option Nat × Option Nat)) :
    let w := (Watched.opened now generation).run limits events
    w.part.putFirst ask.message.id = false →
    (∀ pending, ask.pending = .ok pending → urgentWaits pending = false) →
    (w.asked limits ask answer).1 = .ok .go →
    ∃ rest looks, RestRun rest looks ∧ looks.map Past.look <+: w.past ∧
      limits.settleMs ≤ w.now - rest.since ∧
      ∀ key ∈ w.keys, key + limits.settleMs ≤ w.now := by
  intro w later plain went
  have kept : w.Kept := (Watched.kept_opened now generation).run events
  obtain ⟨⟨rest, rested, long⟩, snapshot, asked, quiet⟩ := paced_go settle whole later plain went
  obtain ⟨looks, run, upTo⟩ := kept.rest rest rested
  refine ⟨rest, looks, run, upTo, long, fun key among => ?_⟩
  obtain ⟨last, typedAt, upToLast⟩ := kept.keys key among
  obtain ⟨quiets, -, rfl⟩ := Option.map_eq_some_iff.1 asked
  have typed : (snapshotOf w.now w.pane quiets).typedQuietMs = some (w.now - last) := by
    rw [snapshotOf, typedAt]
    rfl
  have since := quiet _ typed
  omega

/-- Two looks at rest a settle apart let a message go. -/
theorem rest_before_typing_goes :
    let limits : Limits := {}
    let w := (Watched.opened 0 0).run limits
      [.look ⟨some (.known []), true⟩ true false, .later 3000,
        .look ⟨some (.known []), true⟩ true false]
    ∃ rest looks, RestRun rest looks ∧ looks.map Past.look <+: w.past ∧
      limits.settleMs ≤ w.now - rest.since ∧ ∀ key ∈ w.keys, key + limits.settleMs ≤ w.now :=
  rest_before_typing (by decide) rfl 0 0 _
    { message := { project := 0, recipient := 0, sender := none, kind := .note, task := none,
                   body := "", state := .queued, createdAt := 0 }
      pending := .ok [], idleWord := some true, hasPane := true, forgotten := false }
    (some (none, none)) rfl (fun pending same => by cases same; rfl) rfl
end Engine
end ConsensFlow
