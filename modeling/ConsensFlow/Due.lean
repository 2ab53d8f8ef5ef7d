/-
  File:      ConsensFlow/Due.lean
  Subject:   WHEN A HELD TASK IS DUE (`cf-ledger`: `pausing.rs`): its time is kept as it was given, and
             compared with the clock's as texts.

  * `heldTasksDue` -- the held tasks whose time has come, by SQLite's order of texts;
  * `hold_leaves` -- what a hold leaves of its task;
  * `DueInOrder` -- a time and the clock's are in the order of their texts;
  * **`due_at_its_time_iff`** -- a held task is listed just from its time on exactly where they are:
    not with an offset, or a precision, by which its text sorts from another instant and the clock
    is between the two (`due_unlisted`).
-/
import ConsensFlow.Sorting
import ConsensFlow.Plan

namespace ConsensFlow

open Lib Txn

/-! ## 1. The held tasks whose time has come -/

/-- A held task whose time has come. -/
structure HeldTask where
  project : Nat
  number : Nat
  assignee : Option Nat
  deriving DecidableEq, Repr

/-- The rows `held_tasks_due` selects. -/
def Task.heldDue (now : String) (t : Task) : Bool :=
  t.state == .paused && t.heldUntil.any fun until_ => decide (until_ ≤ now)

/-- `held_tasks_due`: the held tasks whose time has come, oldest first. -/
def Ledger.heldTasksDue (s : Ledger) (now : String) : List HeldTask :=
  (s.tasks.rows.filter (Task.heldDue now)).map fun t => ⟨t.project, t.number, t.assignee⟩

/-- T-`number` of a project is listed. -/
def Ledger.ListsDue (s : Ledger) (now : String) (project number : Nat) : Prop :=
  ∃ held ∈ s.heldTasksDue now, held.project = project ∧ held.number = number

instance (s : Ledger) (now : String) (project number : Nat) :
    Decidable (s.ListsDue now project number) :=
  inferInstanceAs (Decidable (∃ held ∈ s.heldTasksDue now, held.project = project ∧
    held.number = number))

variable {s s' : Ledger} {project number : Nat} {until_ because : String} {task : Task}

/-- What a hold leaves of its task: paused, with its time as it was given. -/
theorem hold_leaves (wired : Wired s.board)
    (h : (holdTask project number until_ because).run s = .ok (task, s')) :
    task ∈ s'.tasks.rows ∧ task.project = project ∧ task.number = number ∧
      task.state = .paused ∧ task.heldUntil = some until_ ∧ (parseTime until_).isSome = true := by
  obtain ⟨u1, s1, h1, h⟩ := run_bind_ok.mp h
  obtain rfl := requireText_ok h1
  obtain ⟨u2, s2, h2, h⟩ := run_bind_ok.mp h
  obtain ⟨reads, rfl⟩ := run_require_ok.mp h2
  obtain ⟨t, s3, h3, h⟩ := run_bind_ok.mp h
  obtain ⟨rfl, ht, of_, named⟩ := taskRow_ok h3
  obtain ⟨u4, s4, h4, h⟩ := run_bind_ok.mp h
  obtain ⟨rfl, -, -⟩ := requireTaskState_ok h4
  obtain ⟨u5, s5, h5, h⟩ := run_bind_ok.mp h
  obtain ⟨p, -, b5⟩ := pause_board h5
  obtain ⟨u6, s6, h6, h⟩ := run_bind_ok.mp h
  obtain ⟨rfl, there, same⟩ := taskById_ok h
  have b6 : s6.board = s.board.edit t.id fun c => { c with phase := .paused true p } := by
    rw [updateTask_board (fun r => hold_card (some until_) r r.updatedAt) h6, b5]
    exact Board.edit_edit s.board t.id (Card.hold true) (fun c => { c with phase := .paused false p })
      fun _ => rfl
  -- Its card is the one it had, paused until a time.
  have card := card_mem there
  rw [b6] at card
  obtain ⟨c, hc, moved⟩ := List.mem_map.1 card
  have whose : c.id = t.id := by
    by_contra other
    rw [if_neg other] at moved
    exact other ((congrArg Card.id moved).trans same)
  rw [if_pos whose, wired.unique hc (card_mem ht) whose] at moved
  -- Its row has the time.
  rw [(updateTask_ok h6).1] at there
  obtain ⟨row, -, written⟩ := Table.mem_alter.1 there
  have key : Keyed.key row = t.id := by
    rw [← same, show task.id = Keyed.key task from rfl, ← written, Table.key_altered]
  rw [Table.altered, if_pos (beq_iff_eq.2 key)] at written
  refine ⟨?_, ?_, ?_, ?_, ?_, reads⟩
  · rw [(updateTask_ok h6).1]
    exact there
  · rw [← of_]
    exact (congrArg Card.project moved).symm
  · rw [← named]
    exact (congrArg Card.number moved).symm
  · exact (phase_paused_iff.1 (congrArg Card.phase moved).symm).1
  · rw [← written]
    rfl

/-! ## 2. Texts in order -/

/-- An instant is at or after the first of two, and before the other. -/
def Between (a b now : Time) : Prop := min a b ≤ now ∧ now < max a b

theorem not_between_iff {a b now : Time} : (¬ now < b ↔ a ≤ now) ↔ ¬ Between a b now := by
  have ints : ∀ {a b now : Int}, (¬ now < b ↔ a ≤ now) ↔ ¬ (min a b ≤ now ∧ now < max a b) := by
    intro a b now
    omega
  exact ints

/-- A time `due`, of `year`, whose year is written in the style `given` and whose text sorts from
    `from_` on among those of its year, and the clock's `now`: are they in the order of their texts?
    Where the styles differ their order decides; so do the years, backwards, with a minus. -/
def InOrder (due from_ : Time) (year : Int) (given : Nat) (now : Time) : Prop :=
  if isoStyle (yearOf now) < given then now < due
  else if given < isoStyle (yearOf now) then due ≤ now
  else if yearOf now < 0 ∧ yearOf now ≠ year then
    if year < yearOf now then now < due else due ≤ now
  else ¬ Between due from_ now

/-- A time that `parse` reads and the clock's `now` are in the order of their texts. -/
def DueInOrder (until_ : String) (now : Time) : Prop :=
  ∃ due from_ year, parseTime until_ = some due ∧ sortsFrom until_ = some from_ ∧
    (takeYear until_.toList).map Prod.fst = some year ∧
    InOrder due from_ year (style until_.toList) now

variable {due now : Time}

/-- **The texts are in order as the instants are where `InOrder` says so**, and nowhere else. -/
theorem text_le_iff (reads : parseTime until_ = some due) (fits : now.natAbs ≤ lastMs.natAbs) :
    (until_ ≤ iso now ↔ due ≤ now) ↔ DueInOrder until_ now := by
  obtain ⟨year, rest, month, rest', day, rest'', time, taken, hm, hd, date, ht, -, -⟩ :=
    parseTime_some.1 reads
  obtain ⟨from_, some_, order⟩ := lt_restSortsFrom hm hd date ht
  have sorts : sortsFrom until_ = some from_ := by
    unfold sortsFrom
    rw [taken]
    exact some_
  have year_ : (takeYear until_.toList).map Prod.fst = some year := by rw [taken]; rfl
  have only : DueInOrder until_ now ↔ InOrder due from_ year (style until_.toList) now := by
    constructor
    · rintro ⟨due', from_', year', reads', sorts', year_', inOrder⟩
      cases reads.symm.trans reads'
      cases sorts.symm.trans sorts'
      cases year_.symm.trans year_'
      exact inOrder
    · intro inOrder
      exact ⟨due, from_, year, reads, sorts, year_, inOrder⟩
  have before := lt_text fits taken
  have later := order now
  rw [only, ← String.not_lt, before]
  unfold InOrder
  generalize isoStyle (yearOf now) = written
  generalize style until_.toList = given
  rcases Nat.lt_trichotomy written given with first | same | last
  · rw [if_pos first]
    simp only [first, true_or, not_true, false_iff]
    exact Int.not_le
  · -- Written alike: by the year, and then as the instants.
    subst same
    have not_ : ¬ written < written := Nat.lt_irrefl _
    simp only [not_, if_false, true_and, false_or]
    by_cases minus : yearOf now < 0
    · rw [if_pos minus]
      rcases Int.lt_trichotomy (yearOf now) year with earlier | year_ | later_
      · rw [if_pos ⟨minus, by omega⟩, if_neg (by omega)]
        refine ⟨fun h => h.1 ?_, fun h => iff_of_true ?_ h⟩
        · rintro (late | ⟨year_, -⟩) <;> omega
        · rintro (late | ⟨year_, -⟩) <;> omega
      · rw [if_neg (fun both => both.2 year_), ← not_between_iff, ← later]
        have not_ : ¬ yearOf now < year := by omega
        have not_' : ¬ year < yearOf now := by omega
        simp only [not_, not_', false_or]
      · rw [if_pos ⟨minus, by omega⟩, if_pos later_]
        have all : year < yearOf now ∨ (yearOf now = year ∧ isoRest now < rest) := Or.inl later_
        simp only [all, not_true, false_iff]
        exact Int.not_le
    · rw [if_neg minus, if_neg (fun both => minus both.1), later, ← not_between_iff]
  · have not_ : ¬ (written < given ∨ (written = given ∧
        ((if yearOf now < 0 then year < yearOf now else yearOf now < year) ∨
          (yearOf now = year ∧ isoRest now < rest)))) := by
      rintro (first | ⟨same, -⟩) <;> omega
    rw [if_neg (c := written < given) (by omega), if_pos last]
    simp only [not_, not_false_iff, true_iff]

/-! ## 3. Held tasks due -/

/-- A task held until a time is listed just where the time's text is not after the clock's. -/
theorem lists_held {now : String} (wired : Wired s.board) (there : task ∈ s.tasks.rows)
    (paused : task.state = .paused) (held : task.heldUntil = some until_) :
    s.ListsDue now task.project task.number ↔ until_ ≤ now := by
  have due : Task.heldDue now task = true ↔ until_ ≤ now := by
    unfold Task.heldDue
    rw [paused, held]
    simp
  rw [← due]
  constructor
  · rintro ⟨row, listed, of_, named⟩
    obtain ⟨t, ht, rfl⟩ := List.mem_map.1 listed
    obtain ⟨ht, due⟩ := List.mem_filter.1 ht
    have same := wired.numbers _ (card_mem ht) _ (card_mem there) of_ named
    rw [← Table.eq_of_key ht there same]
    exact due
  · intro due
    exact ⟨_, List.mem_map_of_mem (List.mem_filter.2 ⟨there, due⟩), rfl, rfl⟩

/-- The board a hold leaves is one a call leaves. -/
theorem hold_reachable {clock : List Time} (r : Reachable s)
    (h : (holdTask project number until_ because).run (s.at_ clock) = .ok (task, s')) :
    Reachable s' := by
  let c : Call := ⟨.board (.holdTask project number until_ because), clock⟩
  have done : c.op.attempt (s.at_ c.clock) = .ok s' := by
    have ran : (silent (holdTask project number until_ because)).run (s.at_ clock) = .ok ((), s') :=
      run_silent.2 ⟨task, h⟩
    show Prod.snd <$> (silent (holdTask project number until_ because)).run (s.at_ clock) = _
    rw [ran]
    rfl
  have step : c.step s = s' := by
    unfold Call.step
    rw [done]
  rw [← step]
  exact r.step c trivial

/-- **A held task is due at its time** -- it is listed at an instant of the clock's just where that is
    the time, or later -- exactly where the two are in the order of their texts. -/
theorem due_at_its_time_iff {clock : List Time} (r : Reachable s)
    (held : (holdTask project number until_ because).run (s.at_ clock) = .ok (task, s'))
    (fits : now.natAbs ≤ lastMs.natAbs) :
    (s'.ListsDue (iso now) project number ↔ ∃ due at_, parseTime until_ = some due ∧
      parseTime (iso now) = some at_ ∧ due ≤ at_) ↔ DueInOrder until_ now := by
  have sound : Sound (s.at_ clock).board := r.sound
  obtain ⟨there, rfl, rfl, paused, until__, reads⟩ := hold_leaves sound.wired held
  obtain ⟨due, reads⟩ := Option.isSome_iff_exists.1 reads
  have instants : (∃ due at_, parseTime until_ = some due ∧ parseTime (iso now) = some at_ ∧
      due ≤ at_) ↔ due ≤ now := by
    rw [reads, parse_iso fits]
    constructor
    · rintro ⟨due', at_, ⟨⟩, ⟨⟩, less⟩
      exact less
    · intro less
      exact ⟨due, now, rfl, rfl, less⟩
  rw [lists_held (hold_reachable r held).sound.wired there paused until__, instants]
  exact text_le_iff reads fits

/-- T-1 in its window. -/
def oneGiven : Ledger := Ledger.empty.after [opening, taskFor "first" [], assigned 1]

/-- T-1, held while its member is out of quota. -/
def heldUntil (until_ : String) : Except LedgerError (Task × Ledger) :=
  (holdTask 1 1 until_ "the limit is reached").run (oneGiven.at_ [])

/-- Whether T-1, so held, is listed. -/
def listedAt (until_ : String) (now : Time) : Option Bool :=
  (heldUntil until_).toOption.map fun held => decide (held.2.ListsDue (iso now) 1 1)

/-- 2026-10-04T09:00:00.000Z. -/
def nine : Time := 1791104400000

theorem listedAt_some {listed : Bool} (h : listedAt until_ now = some listed) :
    ∃ task s', heldUntil until_ = .ok (task, s') ∧ (s'.ListsDue (iso now) 1 1 ↔ listed = true) := by
  unfold listedAt at h
  cases run : heldUntil until_ with
  | error e =>
    rw [run] at h
    cases h
  | ok held =>
    rw [run] at h
    cases h
    exact ⟨held.1, held.2, rfl, decide_eq_true_iff.symm⟩

theorem due_at_its_time_nine : ∃ s' : Ledger,
    (s'.ListsDue (iso nine) 1 1 ↔ ∃ due at_, parseTime "2026-10-04T09:00:00.000Z" = some due ∧
      parseTime (iso nine) = some at_ ∧ due ≤ at_) ↔ DueInOrder "2026-10-04T09:00:00.000Z" nine := by
  obtain ⟨task, s', held, -⟩ :=
    listedAt_some (show listedAt "2026-10-04T09:00:00.000Z" nine = some true by decide)
  exact ⟨s', due_at_its_time_iff (reachable_after _) held (by decide)⟩

/-- Held until eight, as a zone two hours ahead writes it, the task is not listed at nine. -/
theorem due_unlisted : ¬ ∀ (s s' : Ledger) (clock : List Time) (project number : Nat)
    (until_ because : String) (task : Task) (now : Time), Reachable s →
    (holdTask project number until_ because).run (s.at_ clock) = .ok (task, s') →
    now.natAbs ≤ lastMs.natAbs →
    (s'.ListsDue (iso now) project number ↔ ∃ due at_, parseTime until_ = some due ∧
      parseTime (iso now) = some at_ ∧ due ≤ at_) := by
  intro h
  obtain ⟨task, s', held, listed⟩ := listedAt_some
    (show listedAt "2026-10-04T10:00:00+02:00" nine = some false by decide)
  have due : parseTime "2026-10-04T10:00:00+02:00" = some 1791100800000 := by decide
  have now : parseTime (iso nine) = some nine := by decide
  have yes := (h _ s' [] 1 1 _ _ task nine (reachable_after _) held (by decide)).2
    ⟨_, _, due, now, by decide⟩
  exact absurd (listed.1 yes) Bool.false_ne_true

end ConsensFlow
