/-
  File:      ConsensFlow/Moves.lean
  Subject:   THE ONE WAY A TASK CHANGES STATE (`store.rs`: `move_task`), and the one place it
             moves between `queued`, `working` and `waiting` (`messages/receipt.rs`:
             `reconcile`).

  * `Board.edit`, `Board.move` -- what a write on one task does to the board;
  * `updateTask_board`, **`moveTask_board`** -- the board after a statement and after a move:
    every other consequence of a move is the desk's;
  * `reconcile` -- a desk program: a card in hand stays in hand.
-/
import ConsensFlow.Outage

namespace ConsensFlow

open Lib Lib.Text Txn

/-! ## 1. The board after a write on one task -/

/-- The board with the card of task `id` changed. -/
def Board.edit (b : Board) (id : Nat) (f : Card → Card) : Board :=
  { b with cards := b.cards.map fun c => if c.id = id then f c else c }

/-- The board with the card of task `id` in another phase. -/
def Board.move (b : Board) (id : Nat) (ph : Phase) : Board :=
  b.edit id fun c => { c with phase := ph }

theorem board_alterAt (s : Ledger) (id : Nat) (f : Task → Task) (g : Card → Card)
    (h : ∀ t, (Keyed.rekey t.id (f t)).card = g t.card) :
    ({ s with tasks := s.tasks.alterAt id f } : Ledger).board = s.board.edit id g := by
  have e : (s.tasks.alterAt id f).rows.map Task.card =
      (s.tasks.rows.map Task.card).map fun c => if c.id = id then g c else c := by
    simp only [Table.alterAt, Table.alter, List.map_map]
    refine List.map_congr_left fun t _ => ?_
    show (Table.altered (fun r => Keyed.key r == id) f t).card =
      if t.id = id then g t.card else t.card
    unfold Table.altered
    by_cases e : t.id = id
    · rw [if_pos e, if_pos (by exact beq_iff_eq.mpr e)]
      exact h t
    · rw [if_neg e, if_neg (by exact fun k => e (beq_iff_eq.mp k))]
  unfold Ledger.board Board.edit
  rw [e]

theorem updateTask_ok {id : Nat} {f : Task → Task} {s s' : Ledger} {u : Unit}
    (h : (updateTask id f).run s = .ok (u, s')) :
    s' = { s with tasks := s.tasks.alterAt id f } ∧
      ∀ t ∈ s.tasks.rows, t.id = id → (f t).assigneeCheck = true := by
  simp only [updateTask, writeBoard, run_bind_ok, run_state_ok, run_require_ok, run_write_ok] at h
  obtain ⟨s0, s1, ⟨rfl, rfl⟩, _, s2, ⟨hc, rfl⟩, rfl⟩ := h
  refine ⟨rfl, fun t ht e => ?_⟩
  have := List.all_eq_true.mp hc t ht
  simpa [e] using this

/-- The board after `UPDATE task SET … WHERE id = ?`. -/
theorem updateTask_board {id : Nat} {f : Task → Task} {g : Card → Card} {s s' : Ledger} {u : Unit}
    (hg : ∀ t, (Keyed.rekey t.id (f t)).card = g t.card)
    (h : (updateTask id f).run s = .ok (u, s')) : s'.board = s.board.edit id g := by
  rw [(updateTask_ok h).1]
  exact board_alterAt s id f g hg

theorem desk_tasks (s : Ledger) (p : Task → Bool) (f : Task → Task)
    (h : ∀ t, p t = true → (Keyed.rekey t.id (f t)).card = t.card) :
    Desk .none s { s with tasks := s.tasks.alter p f } := by
  refine ⟨Kept.of_eq rfl rfl (fun _ h => h) (fun _ _ h => h), ?_⟩
  have e : (s.tasks.alter p f).rows.map Task.card = s.tasks.rows.map Task.card := by
    simp only [Table.alter, List.map_map]
    refine List.map_congr_left fun t _ => ?_
    show (Table.altered p f t).card = t.card
    unfold Table.altered
    split
    · exact h t ‹_›
    · rfl
  unfold Ledger.board
  rw [e]

/-- What the board shows of a task, written out. -/
theorem Task.card_mk (t : Task) : Card.mk t.id t.project t.number t.requester t.assignee
    (TaskState.phase t.heldUntil t.pausedWithProject t.state) t.pool t.deletedAt.isSome t.stopSeq =
      t.card := rfl

/-- `UPDATE task SET … WHERE …`, of what the board does not show. -/
def setTasks (p : Task → Bool) (f : Task → Task)
    (h : ∀ t, p t = true → (Keyed.rekey t.id (f t)).card = t.card := by
      intro t _; exact t.card_mk) :
    DeskM Unit :=
  write (fun s => { s with tasks := s.tasks.alter p f }) fun s => desk_tasks s p f h

/-! ## 2. A task moves -/

/-- What the mail says of a move, in the write that makes it. -/
def afterMove (task : Task) (to_ : TaskState) : DeskM Unit := do
  doWhen (!to_.active) (withdrawContinuations task to_)
  doWhen (task.state == .failed && to_ != .failed) (noLongerFailed task to_)
  doWhen ((task.state == .opened || task.state == .paused) && !(to_ == .opened || to_ == .paused))
    (noLongerWaiting task to_)

/-- `move_task_as`: a task moves to another state, and the log says so in the words given. A
    move ends a hold, and the mark that a project's suspension paused the task. -/
def moveTaskAs (task : Task) (to_ : TaskState) (what : What) : LedgerM Unit := do
  let t ← now
  updateTask task.id fun r =>
    { r with state := to_, updatedAt := t, heldUntil := none, pausedWithProject := false }
  logOf task.project what
  afterMove task to_

/-- `move_task`. -/
def moveTask (task : Task) (to_ : TaskState) (detail : Detail := {}) : LedgerM Unit :=
  moveTaskAs task to_ (.taskState task.number task.state to_ detail)

/-- What the board shows of the log. -/
def Board.log (b : Board) (project : Nat) (what : What) : Board :=
  { b with
    strandings := b.strandings ++ (what.stranded.map fun n => (project, n)).toList
    asked := b.asked ++ (what.asked.map fun n => (project, n)).toList }

theorem Board.log_quiet {b : Board} {project : Nat} {what : What} (h : what.Quiet) :
    b.log project what = b := by
  unfold Board.log
  rw [h.stranded, h.asked]
  simp only [Option.map_none, Option.toList_none, List.append_nil]

/-- A move that asks no stop is quiet. -/
theorem What.unasked {n : Nat} {was now : TaskState} {d : Detail} (h : d.stop = none) :
    (What.taskState n was now d).Quiet := by
  refine ⟨rfl, ?_⟩
  unfold What.asked
  cases now <;> simp only [h, Option.isSome_none, Bool.false_eq_true, if_false]

theorem logOf_board {project : Nat} {what : What} {s s' : Ledger} {u : Unit}
    (h : (logOf project what).run s = .ok (u, s')) : s'.board = s.board.log project what := by
  obtain ⟨t, s1, h1, h2⟩ := run_bind_ok.mp h
  have b1 : s1.board = s.board := (now.within h1).board
  have h2 := run_write_ok.mp h2
  rw [← b1, ← h2]
  unfold Ledger.logged Ledger.board Board.log Table.insert
  simp only [Keyed.rekey, List.filterMap_append, List.filterMap_cons, List.filterMap_nil]
  cases what.stranded <;> cases what.asked <;> rfl

/-- The board after a move, as the log says it. -/
theorem moveTaskAs_logged {task : Task} {to_ : TaskState} {what : What} {s s' : Ledger} {u : Unit}
    (h : (moveTaskAs task to_ what).run s = .ok (u, s')) :
    s'.board = (s.board.move task.id (to_.phase none false)).log task.project what := by
  obtain ⟨t, s1, h1, h⟩ := run_bind_ok.mp h
  obtain ⟨u1, s2, h2, h⟩ := run_bind_ok.mp h
  obtain ⟨u3, s3, h3, h4⟩ := run_bind_ok.mp h
  have b1 : s1.board = s.board := (now.within h1).board
  have b2 : s2.board = s1.board.move task.id (to_.phase none false) :=
    updateTask_board (fun r => rfl) h2
  have b3 : s3.board = s2.board.log task.project what := logOf_board h3
  have b4 : s'.board = s3.board := ((afterMove task to_).within h4).board
  rw [b4, b3, b2, b1]

/-- **The board after a move**: the one card is in its new phase, and nothing else changed. -/
theorem moveTaskAs_board {task : Task} {to_ : TaskState} {what : What} {s s' : Ledger} {u : Unit}
    (h : (moveTaskAs task to_ what).run s = .ok (u, s')) (hq : what.Quiet) :
    s'.board = s.board.move task.id (to_.phase none false) := by
  rw [moveTaskAs_logged h, Board.log_quiet hq]

theorem moveTask_board {task : Task} {to_ : TaskState} {d : Detail} {s s' : Ledger} {u : Unit}
    (h : (moveTask task to_ d).run s = .ok (u, s'))
    (hq : (What.taskState task.number task.state to_ d).Quiet) :
    s'.board = s.board.move task.id (to_.phase none false) := moveTaskAs_board h hq

/-! ## 3. Received, and what that does to its task -/

/-- Whether a task message for the window is still on its way. -/
def Ledger.barrier (s : Ledger) (task window : Nat) : Bool :=
  s.messages.rows.any fun m => m.task == some task && m.recipient == window && m.kind == .task &&
    (m.state == .queued || m.state == .gated || m.state == .delivering)

/-- Whether the window received a task message about the task. -/
def Ledger.arrived (s : Ledger) (task window : Nat) : Bool :=
  s.messages.rows.any fun m => m.task == some task && m.recipient == window && m.kind == .task &&
    (m.state == .delivered || m.state == .read)

/-- Whether the window asked a question on the task that no received answer resolves. -/
def Ledger.outstanding (s : Ledger) (task window : Nat) : Bool :=
  s.messages.rows.any fun q =>
    q.task == some task && q.kind == .question && q.sender == some window && !q.urgent &&
    !(s.messages.rows.any fun a => a.replyTo == some q.id && a.kind == .answer &&
      (a.state == .delivered || a.state == .read)) &&
    (q.state != .cancelled ||
      s.messages.rows.any fun a => a.replyTo == some q.id && a.kind == .answer)

/-- The state a task's receipts move it to, if any. -/
def Ledger.reconciled (s : Ledger) (t : Task) : Option TaskState :=
  match t.assignee with
  | none => none
  | some window =>
    match t.state with
    | .queued =>
      if s.barrier t.id window || !s.arrived t.id window then none
      else if s.outstanding t.id window then some .waiting else some .working
    | .working => if s.outstanding t.id window then some .waiting else none
    | .waiting => if s.outstanding t.id window then none else some .working
    | _ => none

theorem reconciled_phase {s : Ledger} {t : Task} {to_ : TaskState}
    (h : s.reconciled t = some to_) : t.state.phase t.heldUntil t.pausedWithProject = .held ∧ to_.phase none false = .held := by
  unfold Ledger.reconciled at h
  split at h
  · cases h
  · split at h
    · next hs =>
      rw [hs]
      split at h
      · cases h
      · split at h <;> cases h <;> exact ⟨rfl, rfl⟩
    · next hs =>
      rw [hs]
      split at h <;> cases h
      exact ⟨rfl, rfl⟩
    · next hs =>
      rw [hs]
      split at h <;> cases h
      exact ⟨rfl, rfl⟩
    · cases h

/-- Moving a card to the phase it is in leaves the board as it is. -/
theorem Board.move_self {b : Board} {id : Nat} {ph : Phase}
    (h : ∀ c ∈ b.cards, c.id = id → c.phase = ph) : b.move id ph = b := by
  have e : (b.cards.map fun c => if c.id = id then { c with phase := ph } else c) = b.cards := by
    conv_rhs => rw [← List.map_id b.cards]
    refine List.map_congr_left fun c hc => ?_
    by_cases e : c.id = id
    · rw [if_pos e, ← h c hc e]
      rfl
    · rw [if_neg e]
      rfl
  unfold Board.move Board.edit
  rw [e]

/-- `reconcile`, as a program over the whole ledger. -/
def reconcileMove (task : Nat) : LedgerM Unit := do
  let t ← taskById task
  let s ← state
  match s.reconciled t with
  | none => pure ()
  | some to_ => moveTask t to_

theorem reconcileMove_board {task : Nat} {s s' : Ledger} {u : Unit}
    (h : (reconcileMove task).run s = .ok (u, s')) : s'.board = s.board := by
  simp only [reconcileMove, taskById, run_bind_ok, run_state_ok, run_found_ok] at h
  obtain ⟨t, s1, ⟨s0, s2, ⟨rfl, rfl⟩, ht, rfl⟩, s3, s4, ⟨rfl, rfl⟩, h⟩ := h
  split at h
  · obtain ⟨-, rfl⟩ := run_pure_ok.mp h
    rfl
  · next to_ hto =>
    obtain ⟨hf, hp⟩ := reconciled_phase hto
    obtain ⟨htm, htk⟩ := Table.get?_eq_some.mp ht
    rw [moveTask_board h (What.unasked rfl), hp]
    refine Board.move_self fun c hc e => ?_
    obtain ⟨r, hr, rfl⟩ := List.mem_map.mp hc
    have : r = t := Table.eq_of_key hr htm e
    rw [this]
    exact hf

/-- **The one place a task moves between `queued`, `working` and `waiting`**, after each
    receipt: the board does not see it. -/
def reconcile (task : Nat) : DeskM Unit :=
  narrow (reconcileMove task) fun h => ⟨(reconcileMove task).within h, reconcileMove_board h⟩

/-- The task a message is about is reconciled. -/
def reconcileOf (id : Nat) : DeskM Unit := do
  match ← messageTask id with
  | some t => reconcile t.id
  | none => pure ()

end ConsensFlow
