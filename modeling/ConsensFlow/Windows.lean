/-
  File:      ConsensFlow/Windows.lean
  Subject:   WINDOWS: what a member's session is given, and when, in every run.

  * `Ledger.OneAtWork` -- each session has one task at work at most;
  * **`one_at_work`** -- it holds in every run whose `go_on_in_window` and `relaunch_stalled` find
    the window free. They do not look (`two_at_work`);
  * **`nothing_ready_left`** -- a task on the board that is ready waits for a session with work in
    hand, or with a result to be decided;
  * **`nothing_before_decision`** -- no call but those that name a window, or go on with one paused
    task, puts one into a window that has such a result; those do (`taken_before_decision`).
-/
import ConsensFlow.Plan
import ConsensFlow.Resumed

namespace ConsensFlow

open Lib Txn

/-! ## 1. One task at work in a window -/

/-- Each member's session has one task at work at most. -/
def Ledger.OneAtWork (s : Ledger) : Prop :=
  ∀ p ∈ s.participants.rows, p.memberId.isSome = true → ∀ t ∈ s.tasks.rows, ∀ t' ∈ s.tasks.rows,
    t.assignee = some p.id → t'.assignee = some p.id → t.state.held = true →
      t'.state.held = true → t.id = t'.id

instance (s : Ledger) : Decidable s.OneAtWork :=
  inferInstanceAs (Decidable (∀ p ∈ s.participants.rows, p.memberId.isSome = true →
    ∀ t ∈ s.tasks.rows, ∀ t' ∈ s.tasks.rows, t.assignee = some p.id → t'.assignee = some p.id →
      t.state.held = true → t'.state.held = true → t.id = t'.id))

/-- T-`number`, where it is paused, is of a window that has no task at work, or of no session. -/
def Ledger.WindowFree (s : Ledger) (project number : Nat) : Prop :=
  ∀ t ∈ s.tasks.rows, t.project = project → t.number = number → t.state = .paused →
    ∀ p ∈ s.participants.rows, p.memberId.isSome = true → t.assignee = some p.id →
      ∀ t' ∈ s.tasks.rows, t'.assignee = some p.id → t'.state.held = false

instance (s : Ledger) (project number : Nat) : Decidable (s.WindowFree project number) :=
  inferInstanceAs (Decidable (∀ t ∈ s.tasks.rows, t.project = project → t.number = number →
    t.state = .paused → ∀ p ∈ s.participants.rows, p.memberId.isSome = true →
      t.assignee = some p.id → ∀ t' ∈ s.tasks.rows, t'.assignee = some p.id →
        t'.state.held = false))

/-- A task its window goes on with, or that is launched again, finds no other at work there. -/
def Call.FindsFree (s : Ledger) (c : Call) : Prop :=
  match c.op with
  | .board (.goOnInWindow p n) => s.WindowFree p n
  | .board (.relaunchStalled p n _ _ _ _) => s.WindowFree p n
  | _ => True

instance (s : Ledger) (c : Call) : Decidable (c.FindsFree s) := by
  obtain ⟨op, clock⟩ := c
  unfold Call.FindsFree
  dsimp only
  split <;> infer_instance

section OneAtWork

variable {s : Ledger}

theorem oneAtWork_iff : s.OneAtWork ↔ s.board.OneAtWork := by
  constructor
  · rintro h w ⟨p, hp, rfl, hm⟩ c hc c' hc' ha ha' hh hh'
    obtain ⟨t, ht, rfl⟩ := mem_cards.mp hc
    obtain ⟨t', ht', rfl⟩ := mem_cards.mp hc'
    exact h p hp hm t ht t' ht' ha ha' (phase_held_iff.mp hh) (phase_held_iff.mp hh')
  · intro h p hp hm t ht t' ht' ha ha' hh hh'
    exact h p.id ⟨p, hp, rfl, hm⟩ _ (card_mem ht) _ (card_mem ht') ha ha'
      (phase_held_iff.mpr hh) (phase_held_iff.mpr hh')

theorem Licence.fair_free : Licence.free.Fair := by
  intro b c w h
  rcases h with h | h <;> cases h

/-- A window that is free has no card at work on the board. -/
theorem Ledger.WindowFree.lets {project number : Nat} {door : Door}
    (h : s.WindowFree project number) : Licence.free.Lets door s project number := by
  rintro t ht hp hn w ha - ⟨u, q, hph⟩ ⟨p, hpm, rfl, hm⟩ ⟨c, hc, hca, hch⟩
  obtain ⟨t', ht', rfl⟩ := mem_cards.mp hc
  have k := h t ht hp hn (phase_paused_iff.mp hph).1 p hpm hm ha t' ht' hca
  rw [phase_held_iff.mp hch] at k
  cases k

/-- The calls that find the window free are those the board's licence asks for. -/
theorem Call.FindsFree.granted {c : Call} (h : c.FindsFree s) : c.op.Granted .free s := by
  have other : ∀ {door b c w}, door ≠ .wentOn → door ≠ .relaunched → Licence.free door b c w :=
    fun h h' k => (k.elim h h').elim
  unfold Call.FindsFree at h
  cases hc : c.op with
  | board op =>
    rw [hc] at h
    cases op with
    | goOnInWindow p n => exact Ledger.WindowFree.lets h
    | relaunchStalled p n w m q i => exact Ledger.WindowFree.lets h
    | createTask p r => exact fun _ _ _ _ _ _ _ _ => other (by decide) (by decide)
    | assignTask p n m l => exact fun _ _ _ _ _ _ _ => other (by decide) (by decide)
    | reopenTask p n b l => exact fun _ _ _ _ _ _ _ => other (by decide) (by decide)
    | resumeTask p n b l => exact fun _ _ _ _ _ _ _ => other (by decide) (by decide)
    | setProjectState p st => exact fun _ _ _ _ _ _ _ _ _ => other (by decide) (by decide)
    | _ => trivial
  | _ => trivial

theorem rule_oneAtWork : Rule .free fun _ b => b.OneAtWork :=
  ⟨fun e hw k => e.oneAtWork (fun _ _ _ _ h => h) hw k, fun _ k => k,
    fun h _ k => h.oneAtWork k⟩

/-- **One task at work in a window**, in every run whose calls find free the windows that they do
    not look at. -/
theorem one_at_work (r : Run (fun s c => c.FindsFree s) s) : s.OneAtWork := by
  refine oneAtWork_iff.mpr (Run.kept (L := .free) Licence.fair_free rule_oneAtWork
    (fun s c _ h => ?_) ?_ r).2
  · exact Call.FindsFree.granted (s := s.at_ c.clock) h
  · intro w _ c hc
    cases hc

end OneAtWork

/-! ### Two at work -/

/-- A task is held until a time. -/
def heldBack (number : Nat) : Call :=
  ⟨.board (.holdTask 1 number "2030-01-01T00:00:00.000Z" "the limit is reached"), []⟩

def wentOn (number : Nat) : Call := ⟨.board (.goOnInWindow 1 number), []⟩

/-- T-2 waits for T-1's window, paused; T-1 is held until a time, and T-2 is resumed into the
    window. -/
def otherResumed : List Call :=
  [opening, taskFor "first" [], assigned 1, following 1 "second", paused 2, heldBack 1, resumed 2]

/-- Their window goes on with T-1 while T-2 is at work in it. -/
theorem two_at_work : ¬ ∀ s, Reachable s → s.OneAtWork := by
  intro h
  have k := h _ (reachable_after (otherResumed ++ [wentOn 1]))
  revert k
  decide

/-- T-1 is held, and its window goes on with it with nothing else at work there; T-2, paused
    meanwhile, is resumed into the window once T-1 is held again. -/
def wentOnAlone : List Call :=
  [opening, taskFor "first" [], assigned 1, heldBack 1, wentOn 1, following 1 "second", paused 2,
    heldBack 1, resumed 2]

theorem one_at_work_wentOnAlone :
    (∃ t ∈ (Ledger.empty.after (wentOnAlone.take 5)).tasks.rows, t.number = 1 ∧ t.state = .queued) ∧
    (∃ t ∈ (Ledger.empty.after wentOnAlone).tasks.rows, t.number = 2 ∧ t.state = .queued) ∧
    (Ledger.empty.after wentOnAlone).OneAtWork :=
  ⟨by decide, by decide, one_at_work (Run.empty.after (by decide))⟩

/-! ## 2. Nothing ready is left on the board -/

/-- A task in hand, or a result of it to be decided. -/
def Task.Occupies (t : Task) : Prop :=
  t.state = .queued ∨ t.state = .working ∨ t.state = .waiting ∨ t.state = .paused ∨
    (t.state = .done ∧ t.deletedAt = none)

/-- Each task on the board that is given to a participant, everything it needs accepted, waits for
    a session that has a task in hand or a result to be decided. -/
def Ledger.NothingReadyLeft (s : Ledger) : Prop :=
  ∀ t ∈ s.tasks.rows, t.state = .opened → ∀ w, t.assignee = some w → s.NeedsAccepted t →
    (∃ p ∈ s.participants.rows, p.id = w ∧ p.memberId.isSome = true) ∧
      ∃ t' ∈ s.tasks.rows, t'.assignee = some w ∧ t'.Occupies

section Ready

variable {s : Ledger}

theorem occupies_of_keeps {t : Task} (h : t.card.keeps = true) : t.Occupies := by
  unfold Card.keeps at h
  rcases Bool.or_eq_true_iff.mp h with h | h
  · have k := phase_inHand_iff.mp h
    cases hst : t.state <;> simp [hst, TaskState.held] at k <;> simp [Task.Occupies, hst]
  · obtain ⟨hp, hd⟩ := Bool.and_eq_true_iff.mp h
    have hst := phase_done_iff.mp (beq_iff_eq.mp hp)
    exact Or.inr (Or.inr (Or.inr (Or.inr ⟨hst, by simpa [Task.card] using hd⟩)))

theorem rule_settled : Rule .any Settled :=
  ⟨fun e hw k => e.settles hw k,
    fun hd k p _ => k p (by rw [hd.loose]; exact Set.notMem_empty _),
    fun h hw k => h.settled hw k⟩

/-- **Nothing ready is left on the board**, in any state. -/
theorem nothing_ready_left (r : Reachable s) : s.NothingReadyLeft := by
  obtain ⟨hs, hk⟩ := Run.kept (L := .any) Licence.fair_any rule_settled
    (fun _ c _ _ => c.op.granted_any _) (fun p _ c hc => by cases hc) r
  intro t ht ho w ha hm
  obtain ⟨hsw, hb⟩ := hk t.project (Set.notMem_empty _) _ (card_mem ht) rfl (phase_opened_iff.mpr ho)
    w ha ((needsAccepted_iff hs.wired).mp hm)
  obtain ⟨c, hc, hca, hck⟩ := Board.busy_iff.mp hb
  obtain ⟨t', ht', rfl⟩ := mem_cards.mp hc
  exact ⟨hsw, t', ht', hca, occupies_of_keeps hck⟩

end Ready

/-- T-2 and T-3 wait for T-1 in its window; T-1 is accepted, and T-2 begun. -/
def secondBegun : List Call :=
  [opening, taskFor "first" [], assigned 1, following 1 "second", following 1 "third"] ++
    pasted 1 ++ [recorded 1 "done"] ++ pasted 2 ++ [acceptedBy 1]

set_option maxRecDepth 4096 in
/-- T-3 is ready, and waits behind T-2. -/
theorem nothing_ready_left_secondBegun :
    (∃ t ∈ (Ledger.empty.after secondBegun).tasks.rows, t.number = 3 ∧ t.state = .opened ∧
      t.assignee = some 4 ∧ (Ledger.empty.after secondBegun).NeedsAccepted t) ∧
    (Ledger.empty.after secondBegun).NothingReadyLeft :=
  ⟨by decide, nothing_ready_left (reachable_after secondBegun)⟩

/-! ## 3. Nothing new before a decision -/

/-- A call that puts a task that was on the board, paused or not there at all into a session while
    another of that session's tasks has a result to be decided. -/
def Ledger.TakesUndecided (s s' : Ledger) : Prop :=
  ∃ t' ∈ s'.tasks.rows, t'.state = .queued ∧
    (∀ t ∈ s.tasks.rows, t.id = t'.id → t.state = .opened ∨ t.state = .paused) ∧
      ∃ p ∈ s'.participants.rows, p.memberId.isSome = true ∧ t'.assignee = some p.id ∧
        ∃ d ∈ s'.tasks.rows, d.id ≠ t'.id ∧ d.assignee = some p.id ∧ d.state = .done ∧
          d.deletedAt = none

instance (s s' : Ledger) : Decidable (s.TakesUndecided s') :=
  inferInstanceAs (Decidable (∃ t' ∈ s'.tasks.rows, t'.state = .queued ∧
    (∀ t ∈ s.tasks.rows, t.id = t'.id → t.state = .opened ∨ t.state = .paused) ∧
      ∃ p ∈ s'.participants.rows, p.memberId.isSome = true ∧ t'.assignee = some p.id ∧
        ∃ d ∈ s'.tasks.rows, d.id ≠ t'.id ∧ d.assignee = some p.id ∧ d.state = .done ∧
          d.deletedAt = none))

/-- A call by which somebody chooses the window: a new task for a session by its name, or a paused
    task that goes on. -/
def Op.Chooses (s : Ledger) : Op → Prop
  | .board (.createTask p r) => r.after = none ∧ ∃ q ∈ s.participants.rows, q.project = p ∧
      r.whom = some q.handle ∧ q.memberId.isSome = true
  | .board (.resumeTask _ _ _ _) => True
  | .board (.goOnInWindow _ _) => True
  | .board (.relaunchStalled _ _ _ _ _ _) => True
  | _ => False

instance (s : Ledger) (op : Op) : Decidable (op.Chooses s) := by
  unfold Op.Chooses
  split <;> infer_instance

section Decision

variable {s s' : Ledger}

theorem Licence.fair_decided : Licence.decided.Fair := fun _ _ _ => Or.inl rfl

/-- The calls that choose no window are those the board's licence asks for, but for a project's
    Close and its Resume. -/
theorem Op.granted_decided {op : Op} (h : ¬ op.Chooses s)
    (closes : ∀ p st, op ≠ .board (.setProjectState p st)) : op.Granted .decided s := by
  unfold Op.Chooses at h
  cases op with
  | board op =>
    cases op with
    | createTask p r =>
      intro q hq hp ha hw hm
      exact absurd ⟨ha, q, hq, hp, hw, hm⟩ h
    | assignTask p n m l => exact fun _ _ _ _ _ _ _ => Or.inr (Or.inl rfl)
    | reopenTask p n b l => exact fun _ _ _ _ _ _ _ => Or.inr (Or.inr rfl)
    | setProjectState p st => exact absurd rfl (closes p st)
    | resumeTask p n b l => exact absurd trivial h
    | goOnInWindow p n => exact absurd trivial h
    | relaunchStalled p n w m q i => exact absurd trivial h
    | _ => trivial
  | _ => trivial

theorem rule_decided {b0 : Board} {d d' : Debt} {b b' : Board} (h : Edits .decided d b d' b')
    (hw : Wired b) (k : Decided b0 d b) : Decided b0 d' b' :=
  (h.keep (fun e hw k => e.decided (fun _ _ _ _ h => h) hw k) hw k).2

/-- A project's Close and its Resume queue no task. -/
theorem queued_before {project : Nat} {st : ProjectState}
    (h : Op.attempt (.board (.setProjectState project st)) s = .ok s') : s.QueuesNone s' := by
  obtain ⟨u, h⟩ := snd_ok h
  obtain ⟨r, h⟩ := run_silent.mp h
  exact setProjectState_queuesNone project st s r s' h

/-- A task queued after a call was in a window before, or had a result, or found none there. -/
theorem Op.decides {op : Op} (h : op.attempt s = .ok s') (hs : Sound s.board)
    (hc : ¬ op.Chooses s) {t' : Task} (ht' : t' ∈ s'.tasks.rows) (hq : t'.state = .queued)
    {w : Nat} (ha : t'.assignee = some w) (hw : s'.board.Session w) :
    (∃ t ∈ s.tasks.rows, t.id = t'.id ∧ t.card.phase.waits = false) ∨
      ¬ s'.board.Undecided w := by
  have hh : t'.state.held = true := by
    rw [hq]
    rfl
  by_cases closes : ∃ p st, op = .board (.setProjectState p st)
  · obtain ⟨p, st, rfl⟩ := closes
    obtain ⟨t, ht, e, hq⟩ := queued_before h t' ht' hq
    refine Or.inl ⟨t, ht, e, ?_⟩
    rw [phase_held_iff.mpr (by rw [hq]; rfl)]
    rfl
  have others : ∀ p st, op ≠ .board (.setProjectState p st) := fun p st e => closes ⟨p, st, e⟩
  rcases Op.edited Licence.fair_decided h hs.wired hs.acyclic (Op.granted_decided hc others) with
    ⟨d, -, e⟩ | ⟨project, -, hr⟩
  · refine ((rule_decided e hs.wired (.start _)).free _ (card_mem ht') (phase_held_iff.mpr hh) w ha
      hw).imp ?_ id
    rintro ⟨c, hc, e, hp⟩
    obtain ⟨t, ht, rfl⟩ := mem_cards.mp hc
    exact ⟨t, ht, e, hp⟩
  · -- what is left when a project goes was there before
    obtain ⟨t, ht, e⟩ := mem_cards.mp (hr.mem_cards.mp (card_mem ht')).1
    refine Or.inl ⟨t, ht, congrArg Card.id e, ?_⟩
    rw [e, phase_held_iff.mpr hh]
    rfl

/-- **A window takes nothing while a result of it waits to be decided**, but by a call that chooses
    the window. -/
theorem nothing_before_decision (r : Reachable s) (c : Call) (hc : ¬ c.op.Chooses s) :
    ¬ s.TakesUndecided (c.step s) := by
  rintro ⟨t', ht', hq, hold, p, hp, hm, ha, d, hd, hne, hda, hdd, hdl⟩
  have hs : Sound (s.at_ c.clock).board := r.sound
  have was : ∀ t ∈ s.tasks.rows, t.id = t'.id → t.card.phase.waits = true := fun t ht e =>
    phase_waits_iff.mpr (by simpa using hold t ht e)
  unfold Call.step at ht' hp hd
  cases h : c.op.attempt (s.at_ c.clock) with
  | error e =>
    rw [h] at ht'
    rcases hold t' ht' rfl with k | k <;> rw [hq] at k <;> cases k
  | ok s' =>
    rw [h] at ht' hp hd
    rcases Op.decides h hs hc ht' hq ha ⟨p, hp, rfl, hm⟩ with ⟨t, ht, e, hw⟩ | k
    · have hw' := was t ht e
      rw [hw] at hw'
      cases hw'
    · exact k ⟨d.card, card_mem hd, hda, phase_done_iff.mpr hdd, by simp [Task.card, hdl]⟩

end Decision

/-! ### A session chosen by its name -/

/-- A task for a window, by its handle. -/
def taskTo (handle body : String) : Call :=
  ⟨.board (.createTask 1 { sender := "chief", whom := some handle, body }), []⟩

/-- T-1's result waits to be decided. -/
def firstDone : List Call :=
  [opening, taskFor "first" [], assigned 1] ++ pasted 1 ++ [recorded 1 "done"]

theorem taken_before_decision : ¬ ∀ (s : Ledger) (c : Call), Reachable s →
    ¬ s.TakesUndecided (c.step s) := by
  intro h
  refine h (Ledger.empty.after firstDone) (taskTo "worker-one" "second") (reachable_after _) ?_
  decide

theorem nothing_before_decision_following :
    ¬ (Ledger.empty.after firstDone).TakesUndecided
      ((following 1 "second").step (Ledger.empty.after firstDone)) :=
  nothing_before_decision (reachable_after firstDone) (following 1 "second") (by decide)

end ConsensFlow
