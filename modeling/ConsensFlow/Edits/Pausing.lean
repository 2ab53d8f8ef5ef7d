/-
  File:      ConsensFlow/Edits/Pausing.lean
  Subject:   THE EDITS OF A TASK STOPPED, AND SENT ON.

  * `pause_board` -- the move to paused, whoever asks it;
  * `pauseTaskAs_edits`, `holdTask_edits`, … -- who stops a task;
  * `goOnInWindow_edits`, `relaunchStalled_edits`, `resumeTask_edits` -- each opens its door;
  * `Calm` -- what leaving windows that hold several leaves of the cards: some of those in hand are
    paused, and no longer with their project;
  * **`resumeWithProject_edits`** -- a window told to go on with its project holds that one task: the
    others were left paused.
-/
import ConsensFlow.Edits.Editing

namespace ConsensFlow

open Lib Txn

/-! ## 1. The move to paused -/

section Pause

variable {L : Licence} {s s' : Ledger} {u : Unit}

/-- A statement on one task, or several of it, is one edit, where its card may move so. -/
theorem Edits.of_edit {d d' : Debt} {c : Card} {f : Card → Card} (hw : Wired s.board)
    (hc : c ∈ s.board.cards) (hb : s'.board = s.board.edit c.id f) (hi : (f c).id = c.id)
    (sh : Shift L s.board d c d' (f c)) (hs : (f c).stops = c.stops) :
    Edits L d s.board d' s'.board := by
  rw [hb, hw.edit_eq_put hc hi]
  exact (Edit.shift hc sh hs).once

/-- A card paused with its project, or not. -/
def Card.mark (with_ : Bool) (c : Card) : Card :=
  { c with phase := match c.phase with
    | .paused u _ => .paused u with_
    | ph => ph }

theorem mark_card (with_ : Bool) (r : Task) :
    (Keyed.rekey r.id { r with pausedWithProject := with_ }).card = r.card.mark with_ := by
  simp only [Task.card, Card.mark, Keyed.rekey]
  cases r.state <;> rfl

theorem updateMark_board {id : Nat} {with_ : Bool}
    (h : (updateTask id fun r => { r with pausedWithProject := with_ }).run s = .ok (u, s')) :
    s'.board = s.board.edit id (Card.mark with_) := updateTask_board (mark_card with_) h

/-- A card paused, asked to stop so many times more. -/
def Card.pause (p : Bool) (more : Nat) (c : Card) : Card :=
  { c with phase := .paused false p, stops := c.stops + more }

/-- The board with a task paused. -/
def Board.pause (b : Board) (task : Task) (p : Bool) : Stops → Board
  | .asked => (b.edit task.id (Card.pause p 1)).ask task.project task.number
  | .notAsked => b.edit task.id (Card.pause p 0)

theorem Board.log_asked (b : Board) (project : Nat) {what : What} {n : Nat}
    (hs : what.stranded = none) (ha : what.asked = some n) : b.log project what = b.ask project n := by
  unfold Board.log Board.ask
  rw [hs, ha]
  simp only [Option.map_none, Option.map_some, Option.toList_none, Option.toList_some,
    List.append_nil]

theorem Board.log_edit (b : Board) (project id : Nat) (what : What) (f : Card → Card) :
    (b.log project what).edit id f = (b.edit id f).log project what := rfl

/-- How many stops a pause asks. -/
def Stops.count : Stops → Nat
  | .asked => 1
  | .notAsked => 0

theorem stop_card (t : Option Time) (n : Nat) (r : Task) :
    (Keyed.rekey r.id { r with pausedAt := t, stopSeq := r.stopSeq + n }).card =
      { r.card with stops := r.card.stops + n } := rfl

/-- **The move to paused**: with its project only where its suspension pauses it, and counted, and
    said in the log, where it asks a stop. -/
theorem pause_board {task : Task} {detail : Detail} {with_ : Bool} {stops : Stops}
    (h : (pause task detail with_ stops).run s = .ok (u, s')) :
    ∃ p : Bool, (with_ = false → p = false) ∧ s'.board = s.board.pause task p stops := by
  obtain ⟨u1, s1, h1, h⟩ := run_bind_ok.mp h
  have b1 := moveTaskAs_logged h1
  obtain ⟨u2, s2, h2, h⟩ := run_bind_ok.mp h
  have b2 : s2.board = s1.board.edit task.id
      fun c => { c with stops := c.stops + if stops = .asked then 1 else 0 } :=
    updateTask_board (fun r => stop_card _ _ r) h2
  obtain ⟨s0, s3, h3, h⟩ := run_bind_ok.mp h
  obtain ⟨rfl, rfl⟩ := run_state_ok.mp h3
  obtain ⟨u4, s4, h4, h5⟩ := run_bind_ok.mp h
  have b5 : s'.board = s4.board := board_of_lift h5
  have count : (if stops = .asked then 1 else 0) = stops.count := by cases stops <;> rfl
  rw [count] at b2
  have said : ∀ p, s'.board = (s.board.edit task.id (Card.pause p stops.count)).log task.project
      (.taskState task.number task.state .paused
        { detail with stop := if stops = .asked then some (task.stopSeq + 1) else none }) →
      s'.board = s.board.pause task p stops := by
    intro p e
    rw [e]
    cases stops with
    | asked => exact Board.log_asked _ _ rfl rfl
    | notAsked => exact Board.log_quiet (What.unasked rfl)
  have moved : (s.board.move task.id (.paused false false)).edit task.id
      (fun c => { c with stops := c.stops + stops.count }) =
      s.board.edit task.id (Card.pause false stops.count) :=
    Board.edit_edit s.board task.id (fun c => { c with stops := c.stops + stops.count })
      (fun c => { c with phase := .paused false false }) fun _ => rfl
  rcases run_doWhen_ok.mp h4 with ⟨hc, h4⟩ | ⟨-, rfl⟩
  · refine ⟨true, fun e => ?_, said true ?_⟩
    · rw [e] at hc
      cases hc
    · have marked : (s.board.edit task.id (Card.pause false stops.count)).edit task.id
          (Card.mark true) = s.board.edit task.id (Card.pause true stops.count) :=
        Board.edit_edit s.board task.id (Card.mark true) (Card.pause false stops.count) fun _ => rfl
      rw [b5, updateMark_board h4, b2, b1, Board.log_edit, Board.log_edit, ← marked, ← moved]
      rfl
  · refine ⟨false, fun _ => rfl, said false ?_⟩
    rw [b5, b2, b1, Board.log_edit, ← moved]
    rfl

/-- A pause is one edit of a card that waits, or is in a window. -/
theorem Edits.paused {task : Task} {p : Bool} {stops : Stops} {d : Debt}
    (hb : s'.board = s.board.pause task p stops) (hw : Wired s.board)
    (hc : task.card ∈ s.board.cards) (hwith : stops = .notAsked → p = false)
    (hp : task.card.phase.waits = true ∨ task.card.phase = .held) (hu : d.unmet = ∅) :
    Edits L d s.board (d.touch task.card) s'.board := by
  cases stops with
  | asked =>
    have put : s.board.edit task.id (Card.pause p 1) = s.board.put (task.card.pause p 1) :=
      hw.edit_eq_put hc rfl
    rw [hb, Board.pause, put]
    exact (Edit.stop hc (.paused d task.card false p _ hp nofun
      (fun _ => .inr (Nat.lt_succ_self _)) hu) rfl).once
  | notAsked =>
    refine Edits.of_edit hw hc hb (f := Card.pause p 0) rfl
      (.paused d task.card false p _ hp nofun (fun k => ?_) hu) rfl
    rw [hwith rfl] at k
    cases k

theorem pausable_phase {t : Task} (h : t.state.pausable = true) :
    t.card.phase.waits = true ∨ t.card.phase = .held := by
  rw [phase_waits_iff, phase_held_iff]
  revert h
  cases t.state <;> simp [TaskState.pausable, TaskState.held]

theorem paused_waits {t : Task} (h : t.state = .paused) :
    t.card.phase.waits = true := by
  rw [phase_waits_iff, h]
  rfl

theorem requireBecause_ok {R : Ledger → Ledger → Prop} [Frame R] {because : Option String}
    (h : (requireBecause because : LedgerTxn R Unit).run s = .ok (u, s')) : s = s' := by
  cases because with
  | none => exact (run_pure_ok.mp h).2
  | some _ => exact requireText_ok h

theorem requireNotChiefs_ok {R : Ledger → Ledger → Prop} [Frame R] {task : Task}
    (h : (requireNotChiefs task : LedgerTxn R Unit).run s = .ok (u, s')) : s = s' := by
  unfold requireNotChiefs at h
  split at h
  · exact (run_pure_ok.mp h).2
  · obtain ⟨p, s1, h1, h⟩ := run_bind_ok.mp h
    obtain ⟨rfl, -⟩ := participantRow_ok h1
    exact (run_require_ok.mp h).2

/-- Whether somebody named takes over the pause of a task its project's suspension paused. -/
def Task.takenBy (t : Task) (by_ : Option String) : Bool :=
  by_.isSome && t.state == .paused && t.pausedWithProject

/-- A pause taken over goes on with its project no more; none is taken where the task is not paused
    with its project. -/
theorem takeOverPause_board {task : Task} {by_ : String} {taken : Bool}
    (h : (takeOverPause task by_).run s = .ok (taken, s')) (ht : task ∈ s.tasks.rows) :
    (task.takenBy (some by_) = false ∧ taken = false ∧ s = s') ∨
    (task.takenBy (some by_) = true ∧ taken = true ∧
      s'.board = s.board.edit task.id (Card.mark false)) := by
  obtain ⟨s0, s1, h1, h⟩ := run_bind_ok.mp h
  obtain ⟨rfl, rfl⟩ := run_state_ok.mp h1
  obtain ⟨u2, s2, h2, h⟩ := run_bind_ok.mp h
  obtain ⟨rfl, rfl⟩ := run_pure_ok.mp h
  have hget : s.tasks.get? task.id = some task := Table.get?_key ht
  rw [hget] at h2 ⊢
  rcases run_doWhen_ok.mp h2 with ⟨hc, h2⟩ | ⟨hc, rfl⟩
  · obtain ⟨u3, s3, h3, h4⟩ := run_bind_ok.mp h2
    have b4 : s2.board = s3.board := board_of_lift h4
    exact Or.inr ⟨hc, hc, b4.trans (updateMark_board h3)⟩
  · exact Or.inl ⟨hc, hc, rfl⟩

theorem takenBy_paused {t : Task} {by_ : Option String} (h : t.takenBy by_ = true) :
    t.state = .paused ∧ t.pausedWithProject = true := by
  simp only [Task.takenBy, Bool.and_eq_true, beq_iff_eq] at h
  exact ⟨h.1.2, h.2⟩

/-- A paused card that goes on with its project no more is one edit. -/
theorem Edits.unmarked {t : Task} {d : Debt} (hb : s'.board = s.board.edit t.id (Card.mark false))
    (hw : Wired s.board) (hc : t.card ∈ s.board.cards) (hst : t.state = .paused)
    (hu : d.unmet = ∅) : Edits L d s.board (d.touch t.card) s'.board := by
  refine Edits.of_edit hw hc hb rfl ?_ rfl
  have e : t.card.mark false = { t.card with phase := .paused t.heldUntil.isSome false } := by
    unfold Card.mark
    rw [phase_paused hst]
  rw [e]
  refine .paused d t.card _ false _ (Or.inl (paused_waits hst)) (fun hu' => ?_) nofun hu
  exact Or.inr ⟨t.pausedWithProject, by rw [phase_paused hst, hu']⟩

/-- A pause taken over is one edit of a paused card. -/
theorem takeOverPause_ok {task : Task} {by_ : String} {taken : Bool} {d : Debt}
    (h : (takeOverPause task by_).run s = .ok (taken, s')) (hw : Wired s.board)
    (ht : task ∈ s.tasks.rows) (hu : d.unmet = ∅) :
    (taken = false ∧ s = s') ∨ (taken = true ∧
      Edits L d s.board (d.touch task.card) s'.board) := by
  rcases takeOverPause_board h ht with ⟨-, rfl, rfl⟩ | ⟨k, rfl, hb⟩
  · exact Or.inl ⟨rfl, rfl⟩
  · exact Or.inr ⟨rfl, Edits.unmarked hb hw (card_mem ht) (takenBy_paused k).1 hu⟩

theorem authorOf_isSome {R : Ledger → Ledger → Prop} [Frame R] {project : Nat}
    {by_ : Option String} {p : Option Participant}
    (h : (authorOf project by_ : LedgerTxn R (Option Participant)).run s = .ok (p, s')) :
    p.isSome = by_.isSome := by
  cases by_ with
  | none =>
    obtain ⟨rfl, -⟩ := run_pure_ok.mp h
    rfl
  | some handle =>
    obtain ⟨a, -, rfl⟩ := run_map_ok.mp h
    rfl

theorem takenOver_board {task : Task} {by_ : Option String} {author : Option Participant}
    {taken : Bool} (h : (takenOver task author).run s = .ok (taken, s'))
    (ha : author.isSome = by_.isSome) (ht : task ∈ s.tasks.rows) :
    (task.takenBy by_ = false ∧ taken = false ∧ s = s') ∨
    (task.takenBy by_ = true ∧ taken = true ∧
      s'.board = s.board.edit task.id (Card.mark false)) := by
  unfold Task.takenBy
  rw [← ha]
  cases author with
  | none =>
    obtain ⟨rfl, rfl⟩ := run_pure_ok.mp h
    exact Or.inl ⟨rfl, rfl, rfl⟩
  | some a => exact takeOverPause_board h ht

/-- **A pause, by anybody**: of a pause of its project's it takes over, or one that asks a stop. -/
theorem pauseTaskAs_board {project number : Nat} {by_ because : Option String} {with_ : Bool}
    {r : Task} (h : (pauseTaskAs project number by_ because with_).run s = .ok (r, s')) :
    ∃ t ∈ s.tasks.rows, t.project = project ∧ t.number = number ∧ r ∈ s'.tasks.rows ∧ r.id = t.id ∧
      ((t.takenBy by_ = true ∧ s'.board = s.board.edit t.id (Card.mark false)) ∨
       (t.takenBy by_ = false ∧ (t.card.phase.waits = true ∨ t.card.phase = .held) ∧
        ∃ p, (with_ = false → p = false) ∧ s'.board = s.board.pause t p .asked)) := by
  obtain ⟨u1, s1, h1, h⟩ := run_bind_ok.mp h
  obtain rfl := requireBecause_ok h1
  obtain ⟨author, s2, h2, h⟩ := run_bind_ok.mp h
  have ha := authorOf_isSome h2
  obtain rfl := authorOf_ok h2
  obtain ⟨t, s3, h3, h⟩ := run_bind_ok.mp h
  obtain ⟨rfl, ht, hp, hn⟩ := taskRow_ok h3
  obtain ⟨taken, s4, h4, h⟩ := run_bind_ok.mp h
  obtain ⟨s0, s5, h5, h⟩ := run_bind_ok.mp h
  obtain ⟨rfl, rfl⟩ := run_state_ok.mp h5
  obtain ⟨u6, s6, h6, h⟩ := run_bind_ok.mp h
  obtain ⟨u7, s7, h7, h⟩ := run_bind_ok.mp h
  obtain ⟨u8, s8, h8, h⟩ := run_bind_ok.mp h
  have b8 : s8.board = s7.board := board_of_lift h8
  obtain ⟨u9, s9, h9, h⟩ := run_bind_ok.mp h
  obtain ⟨rfl, hr, er⟩ := taskById_ok h
  obtain rfl := requireNotChiefs_ok h7
  refine ⟨t, ht, hp, hn, hr, er, ?_⟩
  rcases takenOver_board h4 ha ht with ⟨k, rfl, rfl⟩ | ⟨k, rfl, hb⟩
  · -- the task may be paused: it is at work, or waits, or ConsensFlow paused it
    have j : s = s6 ∧ (t.card.phase.waits = true ∨ t.card.phase = .held) := by
      rcases run_doWhen_ok.mp h6 with ⟨-, h6⟩ | ⟨hc, rfl⟩
      · obtain ⟨rfl, -, hst⟩ := requireTaskState_ok h6
        exact ⟨rfl, pausable_phase hst⟩
      · refine ⟨rfl, Or.inl (paused_waits ?_)⟩
        simp only [Bool.not_false, Bool.true_and, Bool.and_true, Bool.not_eq_false'] at hc
        have := (Bool.and_eq_true_iff.mp hc).2
        unfold Ledger.pausedByConsensflow at this
        simp only [Bool.and_eq_true, beq_iff_eq] at this
        exact this.1.1
    obtain ⟨rfl, hph⟩ := j
    rcases run_doWhen_ok.mp h9 with ⟨-, h9⟩ | ⟨hc, -⟩
    · obtain ⟨p, hpw, hb⟩ := pause_board h9
      rw [b8] at hb
      exact Or.inr ⟨k, hph, p, hpw, hb⟩
    · cases hc
  · have e6 : s4 = s6 := by
      rcases run_doWhen_ok.mp h6 with ⟨hc, -⟩ | ⟨-, rfl⟩
      · cases hc
      · rfl
    subst e6
    rcases run_doWhen_ok.mp h9 with ⟨hc, -⟩ | ⟨-, rfl⟩
    · cases hc
    · exact Or.inl ⟨k, b8.trans hb⟩

/-- **A pause, by anybody**, is one edit. -/
theorem pauseTaskAs_edits {project number : Nat} {by_ because : Option String} {with_ : Bool}
    {r : Task} {d : Debt} (h : (pauseTaskAs project number by_ because with_).run s = .ok (r, s'))
    (hw : Wired s.board) (hu : d.unmet = ∅) :
    ∃ d', Edits L d s.board d' s'.board ∧ d.Still d' := by
  obtain ⟨t, ht, -, -, -, -, ⟨k, hb⟩ | ⟨-, hph, p, -, hb⟩⟩ := pauseTaskAs_board h
  · exact ⟨_, Edits.unmarked hb hw (card_mem ht) (takenBy_paused k).1 hu, rfl, rfl, rfl⟩
  · exact ⟨_, Edits.paused hb hw (card_mem ht) nofun hph hu, rfl, rfl, rfl⟩

theorem pauseWithProject_edits {project number : Nat} {because : String} {r : Stop} {d : Debt}
    (h : (pauseWithProject project number because).run s = .ok (r, s')) (hw : Wired s.board)
    (hu : d.unmet = ∅) : ∃ d', Edits L d s.board d' s'.board ∧ d.Still d' := by
  obtain ⟨t, s1, h1, h⟩ := run_bind_ok.mp h
  obtain ⟨row, s2, h2, h⟩ := run_bind_ok.mp h
  obtain ⟨rfl, -⟩ := taskRow_ok h2
  obtain ⟨-, rfl⟩ := run_pure_ok.mp h
  exact pauseTaskAs_edits h1 hw hu

theorem unmarkPause_edits {project number stop : Nat} {d : Debt}
    (h : (unmarkPause project number stop).run s = .ok (u, s')) (hw : Wired s.board)
    (hu : d.unmet = ∅) : ∃ d', Edits L d s.board d' s'.board ∧ d.Still d' := by
  obtain ⟨t, s1, h1, h⟩ := run_bind_ok.mp h
  obtain ⟨rfl, ht, -⟩ := taskRow_ok h1
  rcases run_doWhen_ok.mp h with ⟨hc, h⟩ | ⟨-, rfl⟩
  · simp only [Bool.and_eq_true, beq_iff_eq] at hc
    exact ⟨_, Edits.unmarked (updateMark_board h) hw (card_mem ht) hc.1 hu, rfl, rfl, rfl⟩
  · exact ⟨d, .refl _ _, .refl d⟩

/-- A card that goes on by itself at a time, or not. -/
def Card.hold (until_ : Bool) (c : Card) : Card :=
  { c with phase := match c.phase with
    | .paused _ p => .paused until_ p
    | ph => ph }

theorem hold_card (until_ : Option String) (r : Task) (t : Time) :
    (Keyed.rekey r.id { r with heldUntil := until_, updatedAt := t }).card =
      r.card.hold until_.isSome := by
  simp only [Task.card, Card.hold, Keyed.rekey]
  cases r.state <;> rfl

/-- A task at work is held: paused until a time, and asked no stop. -/
theorem holdTask_board {project number : Nat} {until_ because : String} {r : Task}
    (h : (holdTask project number until_ because).run s = .ok (r, s')) :
    ∃ t ∈ s.tasks.rows, t.state.held = true ∧
      s'.board = s.board.edit t.id fun c => { c with phase := .paused true false } := by
  obtain ⟨u1, s1, h1, h⟩ := run_bind_ok.mp h
  obtain rfl := requireText_ok h1
  obtain ⟨u2, s2, h2, h⟩ := run_bind_ok.mp h
  obtain ⟨-, rfl⟩ := run_require_ok.mp h2
  obtain ⟨t, s3, h3, h⟩ := run_bind_ok.mp h
  obtain ⟨rfl, ht, -⟩ := taskRow_ok h3
  obtain ⟨u4, s4, h4, h⟩ := run_bind_ok.mp h
  obtain ⟨rfl, -, hst⟩ := requireTaskState_ok h4
  obtain ⟨u5, s5, h5, h⟩ := run_bind_ok.mp h
  obtain ⟨p, hp, b5⟩ := pause_board h5
  obtain ⟨u6, s6, h6, h⟩ := run_bind_ok.mp h
  obtain ⟨rfl, -⟩ := taskById_ok h
  have b6 : s6.board = s5.board.edit t.id (Card.hold true) :=
    updateTask_board (fun r => hold_card (some until_) r r.updatedAt) h6
  obtain rfl := hp rfl
  refine ⟨t, ht, hst, ?_⟩
  rw [b6, b5]
  exact Board.edit_edit s.board t.id (Card.hold true) (Card.pause false 0) fun _ => rfl

theorem holdTask_edits {project number : Nat} {until_ because : String} {r : Task} {d : Debt}
    (h : (holdTask project number until_ because).run s = .ok (r, s')) (hw : Wired s.board)
    (hu : d.unmet = ∅) : ∃ d', Edits L d s.board d' s'.board ∧ d.Still d' := by
  obtain ⟨t, ht, hst, hb⟩ := holdTask_board h
  exact ⟨_, Edits.of_edit hw (card_mem ht) hb rfl
    (.paused d t.card true false _ (Or.inr (phase_held_iff.mpr hst))
      (fun _ => Or.inl (phase_held_iff.mpr hst)) nofun hu) rfl, rfl, rfl, rfl⟩

/-- A follow-up that cannot go on is paused, and asked no stop. -/
theorem holdForContext_board {project number : Nat} {because : String} {r : Task}
    (h : (holdForContext project number because).run s = .ok (r, s')) :
    ∃ t ∈ s.tasks.rows, t.state = .queued ∧ s'.board = s.board.pause t false .notAsked := by
  obtain ⟨u1, s1, h1, h⟩ := run_bind_ok.mp h
  obtain rfl := requireText_ok h1
  obtain ⟨t, s2, h2, h⟩ := run_bind_ok.mp h
  obtain ⟨rfl, ht, -⟩ := taskRow_ok h2
  obtain ⟨u3, s3, h3, h⟩ := run_bind_ok.mp h
  obtain ⟨rfl, -, hst⟩ := requireTaskState_ok h3
  obtain ⟨u4, s4, h4, h⟩ := run_bind_ok.mp h
  obtain ⟨p, hp, b4⟩ := pause_board h4
  obtain rfl := hp rfl
  obtain ⟨q, s5, h5, h⟩ := run_bind_ok.mp h
  obtain ⟨rfl, -⟩ := participantRow_ok h5
  obtain ⟨m, s6, h6, h⟩ := run_bind_ok.mp h
  have b6 : s6.board = s4.board := board_of_lift h6
  obtain ⟨rfl, -⟩ := taskById_ok h
  exact ⟨t, ht, by simpa using hst, b6.trans b4⟩

theorem holdForContext_edits {project number : Nat} {because : String} {r : Task} {d : Debt}
    (h : (holdForContext project number because).run s = .ok (r, s')) (hw : Wired s.board)
    (hu : d.unmet = ∅) : ∃ d', Edits L d s.board d' s'.board ∧ d.Still d' := by
  obtain ⟨t, ht, hst, hb⟩ := holdForContext_board h
  exact ⟨_, Edits.paused hb hw (card_mem ht) (fun _ => rfl)
    (pausable_phase (by rw [hst]; rfl)) hu, rfl, rfl, rfl⟩

theorem clearHold_edits {project number : Nat} {because : String} {r : Task} {d : Debt}
    (h : (clearHold project number because).run s = .ok (r, s')) (hw : Wired s.board)
    (hu : d.unmet = ∅) : ∃ d', Edits L d s.board d' s'.board ∧ d.Still d' := by
  obtain ⟨u1, s1, h1, h⟩ := run_bind_ok.mp h
  obtain rfl := requireText_ok h1
  obtain ⟨t, s2, h2, h⟩ := run_bind_ok.mp h
  obtain ⟨rfl, ht, -⟩ := taskRow_ok h2
  obtain ⟨u3, s3, h3, h⟩ := run_bind_ok.mp h
  obtain ⟨rfl, -, hst⟩ := requireTaskState_ok h3
  have hst : t.state = .paused := by simpa using hst
  obtain ⟨now', s4, h4, h⟩ := run_bind_ok.mp h
  have b4 : s4.board = s.board := board_of_lift h4
  obtain ⟨u5, s5, h5, h⟩ := run_bind_ok.mp h
  have b5 : s5.board = s4.board.edit t.id (Card.hold false) :=
    updateTask_board (fun r => hold_card none r now') h5
  obtain ⟨u6, s6, h6, h⟩ := run_bind_ok.mp h
  have b6 : s6.board = s5.board := board_of_lift h6
  obtain ⟨rfl, -⟩ := taskById_ok h
  have e : t.card.hold false = { t.card with phase := .paused false t.pausedWithProject } := by
    unfold Card.hold
    rw [phase_paused hst]
  refine ⟨d.touch t.card, Edits.of_edit hw (card_mem ht) (f := Card.hold false)
    (by rw [b6, b5, b4]; rfl) rfl ?_ rfl, rfl, rfl, rfl⟩
  rw [e]
  refine .paused d t.card false _ _ (Or.inl (paused_waits hst)) nofun (fun k => Or.inl ?_) hu
  exact ⟨t.heldUntil.isSome, by rw [phase_paused hst, k]⟩

/-- The words of a resume given up in vain: the task is paused again, and asked no stop. -/
theorem pauseAgain_board {m : Message} {t : Task} {reason : String} {b : Bool}
    (h : (pauseAgain m t reason).run s = .ok (b, s')) :
    (b = false ∧ s = s') ∨ (b = true ∧ t.state.pausable = true ∧
      s'.board = s.board.pause t false .notAsked) := by
  obtain ⟨s0, s1, h1, h⟩ := run_bind_ok.mp h
  obtain ⟨rfl, rfl⟩ := run_state_ok.mp h1
  split at h
  · obtain ⟨rfl, rfl⟩ := run_pure_ok.mp h
    exact Or.inl ⟨rfl, rfl⟩
  · next hcond =>
    obtain ⟨u2, s2, h2, h⟩ := run_bind_ok.mp h
    have b2 : s2.board = s.board := board_of_lift h2
    obtain ⟨u3, s3, h3, h⟩ := run_bind_ok.mp h
    have b3 : s3.board = s2.board := board_of_lift h3
    obtain ⟨u4, s4, h4, h⟩ := run_bind_ok.mp h
    have b4 : s4.board = s3.board := board_of_lift h4
    obtain ⟨u5, s5, h5, h⟩ := run_bind_ok.mp h
    obtain ⟨rfl, rfl⟩ := run_pure_ok.mp h
    obtain ⟨p, hp, b5⟩ := pause_board h5
    obtain rfl := hp rfl
    rw [b4, b3, b2] at b5
    refine Or.inr ⟨rfl, ?_, b5⟩
    simp only [Bool.or_eq_true, Bool.not_eq_true', not_or, Bool.not_eq_false, bne_iff_ne, ne_eq,
      Bool.or_eq_false_iff, not_and] at hcond
    rcases hs : t.state <;> simp_all [TaskState.pausable]

theorem pauseAgain_edits {m : Message} {t : Task} {reason : String} {b : Bool} {d : Debt}
    (h : (pauseAgain m t reason).run s = .ok (b, s')) (hw : Wired s.board)
    (hc : t.card ∈ s.board.cards) (hu : d.unmet = ∅) :
    (b = false ∧ s = s') ∨ (b = true ∧ Edits L d s.board (d.touch t.card) s'.board) := by
  rcases pauseAgain_board h with k | ⟨rfl, hst, hb⟩
  · exact Or.inl k
  · exact Or.inr ⟨rfl, Edits.paused hb hw hc (fun _ => rfl) (pausable_phase hst) hu⟩

end Pause

/-! ## 2. A window goes on -/

section GoOn

variable {L : Licence} {s s' : Ledger} {u : Unit}

/-- What a door is asked for one task, on the board as it is. -/
def Licence.Lets (L : Licence) (door : Door) (s : Ledger) (project number : Nat) : Prop :=
  ∀ t ∈ s.tasks.rows, t.project = project → t.number = number →
    ∀ w, t.assignee = some w → L door s.board t.card w

/-- A card comes into its window without words of its own. -/
theorem Edits.entered {d : Debt} {c : Card} {w : Nat} (door : Door) (hw : Wired s.board)
    (hc : c ∈ s.board.cards) (ha : c.assignee = some w)
    (hb : s'.board = s.board.move c.id .held) (ho : door.Opens s.board c w)
    (hl : L door s.board c w) (hu : d.unmet = ∅) (hr : door = .reopened → c.id ∉ d.moved) :
    Edits L d s.board (d.touch c) s'.board := by
  refine Edits.of_edit hw hc hb rfl ?_ rfl
  rw [← Card.same_assignee ha]
  exact .enter d c door w ho hl hu hr

/-- A task of a board that is the same is the same, as far as the board shows it. -/
theorem taskRow_same {t t' : Task} {s1 : Ledger} (hw : Wired s.board) (b : s1.board = s.board)
    (ht : t ∈ s.tasks.rows) (ht' : t' ∈ s1.tasks.rows) (hp : t'.project = t.project)
    (hn : t'.number = t.number) : t'.card = t.card := by
  have hm : t'.card ∈ s.board.cards := b ▸ card_mem ht'
  exact hw.unique hm (card_mem ht) (hw.numbers _ hm _ (card_mem ht) hp hn)

theorem lastPasted_brief {window task : Nat} {m : Message}
    (h : s.lastPasted window task = some m) (hk : m.kind = .task) :
    (task, window) ∈ s.board.briefs := by
  have key : ∀ (ms : List Message) (a : Option Message),
      ms.foldl (fun last m => if last.all fun l => l.deliveredBefore m then some m else last) a =
        some m → a = some m ∨ m ∈ ms := by
    intro ms
    induction ms with
    | nil => exact fun a h => Or.inl h
    | cons x xs ih =>
      intro a h
      rcases ih _ h with h | h
      · simp only at h
        split at h
        · exact Or.inr (by cases h; exact List.mem_cons_self)
        · exact Or.inl h
      · exact Or.inr (List.mem_cons_of_mem _ h)
  rcases key _ _ h with h | h
  · cases h
  · obtain ⟨hm, hp⟩ := List.mem_filter.mp h
    simp only [Bool.and_eq_true, beq_iff_eq] at hp
    obtain ⟨⟨⟨⟨ht, hr⟩, -⟩, -⟩, -⟩ := hp
    refine List.mem_filterMap.mpr ⟨m, hm, ?_⟩
    simp [Message.brief, hk, ht, hr]

/-- What the conditions of a relaunch find: a paused task, whose window was given words of it. -/
theorem requireStalled_ok {R : Ledger → Ledger → Prop} [Frame R]
    {project number participant message seq : Nat} {t : Task}
    (h : (requireStalled project number participant message seq t : LedgerTxn R Unit).run s =
      .ok (u, s')) :
    s = s' ∧ t.state = .paused ∧ t.assignee = some participant ∧
      (t.id, participant) ∈ s.board.briefs := by
  simp only [requireStalled, run_bind_ok, run_require_ok, run_state_ok] at h
  obtain ⟨u1, s1, ⟨h1, rfl⟩, u2, s2, ⟨h2, rfl⟩, s0, s3, ⟨rfl, rfl⟩, u3, s4, ⟨-, rfl⟩, u4, s5, ⟨-, rfl⟩,
    u5, s6, ⟨h5, rfl⟩, -, rfl⟩ := h
  simp only [Bool.and_eq_true, beq_iff_eq] at h1 h2
  refine ⟨rfl, h1.1, h2, ?_⟩
  cases hl : s.lastPasted participant t.id with
  | none => simp [hl] at h5
  | some m =>
    rw [hl] at h5
    simp only [Option.any_some, Bool.and_eq_true, beq_iff_eq] at h5
    exact lastPasted_brief hl h5.2

theorem relaunchStalled_edits {project number participant message seq : Nat} {item : String}
    {r : Task} {d : Debt}
    (h : (relaunchStalled project number participant message seq item).run s = .ok (r, s'))
    (hw : Wired s.board) (hl : L.Lets .relaunched s project number) (hu : d.unmet = ∅) :
    ∃ d', Edits L d s.board d' s'.board ∧ d.Still d' := by
  obtain ⟨t, s1, h1, h⟩ := run_bind_ok.mp h
  obtain ⟨rfl, ht, hp, hn⟩ := taskRow_ok h1
  obtain ⟨u2, s2, h2, h⟩ := run_bind_ok.mp h
  obtain ⟨rfl, hst, ha, hbr⟩ := requireStalled_ok h2
  obtain ⟨u3, s3, h3, h⟩ := run_bind_ok.mp h
  have b3 : s3.board = s.board := board_of_lift h3
  obtain ⟨u4, s4, h4, h⟩ := run_bind_ok.mp h
  have b4 : s4.board = s3.board := board_of_lift h4
  obtain ⟨t', s5, h5, h⟩ := run_bind_ok.mp h
  obtain ⟨rfl, ht', hp', hn'⟩ := taskRow_ok h5
  obtain ⟨u7, s7, h7, h⟩ := run_bind_ok.mp h
  have b7 := moveTask_board h7 ⟨rfl, rfl⟩
  obtain ⟨u8, s8, h8, h⟩ := run_bind_ok.mp h
  have b8 : s8.board = s7.board := board_of_lift h8
  obtain ⟨rfl, -⟩ := taskById_ok h
  have b : s4.board = s.board := b4.trans b3
  have ec : t'.card = t.card :=
    taskRow_same hw b ht ht' (hp'.trans hp.symm) (hn'.trans hn.symm)
  have eid : t'.id = t.id := congrArg Card.id ec
  have hb : s7.board = s.board.move t.card.id .held := by
    rw [b7, b, eid]
    rfl
  have he : Edits L d s.board (d.touch t.card) s7.board :=
    Edits.entered .relaunched hw (card_mem ht) ha hb
      ⟨⟨_, _, phase_paused hst⟩, ha, hbr⟩ (hl t ht hp hn _ ha) hu (by simp)
  exact ⟨_, he.desk b8, rfl, rfl, rfl⟩

theorem goOnInWindow_edits {project number : Nat} {r : Task} {d : Debt}
    (h : (goOnInWindow project number).run s = .ok (r, s')) (hw : Wired s.board)
    (hl : L.Lets .wentOn s project number) (hu : d.unmet = ∅) :
    ∃ d', Edits L d s.board d' s'.board ∧ d.Still d' := by
  obtain ⟨t, s1, h1, h⟩ := run_bind_ok.mp h
  obtain ⟨rfl, ht, hp, hn⟩ := taskRow_ok h1
  obtain ⟨w, s2, h2, h⟩ := run_bind_ok.mp h
  obtain ⟨ha, rfl⟩ := run_found_ok.mp h2
  split at h
  · next hcond =>
    simp only [Bool.and_eq_true, decide_eq_true_eq] at hcond
    obtain ⟨hst, hun⟩ := hcond
    obtain ⟨u3, s3, h3, h⟩ := run_bind_ok.mp h
    have b3 : s3.board = s.board := board_of_lift h3
    obtain ⟨u4, s4, h4, h⟩ := run_bind_ok.mp h
    have b4 := moveTask_board h4 ⟨rfl, rfl⟩
    obtain ⟨u5, s5, h5, h⟩ := run_bind_ok.mp h
    have b5 : s5.board = s4.board := board_of_lift h5
    obtain ⟨u6, s6, h6, h⟩ := run_bind_ok.mp h
    have b6 : s6.board = s5.board := board_of_lift h6
    obtain ⟨rfl, -⟩ := taskById_ok h
    have hb : s4.board = s.board.move t.card.id .held := by
      rw [b4, b3]
      rfl
    have hph : t.card.phase = .paused true t.pausedWithProject := by
      rw [phase_paused hst, hun]
    have he : Edits L d s.board (d.touch t.card) s4.board :=
      Edits.entered .wentOn hw (card_mem ht) ha hb ⟨⟨_, hph⟩, ha⟩ (hl t ht hp hn _ ha) hu
        (by simp)
    exact ⟨_, he.desk (b6.trans b5), rfl, rfl, rfl⟩
  · obtain ⟨u3, s3, h3, h⟩ := run_bind_ok.mp h
    obtain ⟨-, rfl⟩ := run_require_ok.mp h3
    obtain ⟨u4, s4, h4, h⟩ := run_bind_ok.mp h
    have b4 : s4.board = s.board := board_of_lift h4
    obtain ⟨u5, s5, h5, h⟩ := run_bind_ok.mp h
    have b5 : s5.board = s4.board := board_of_lift h5
    obtain ⟨rfl, -⟩ := taskById_ok h
    exact ⟨d, .of_eq (b5.trans b4), .refl d⟩

/-- A move of a task between the states of one phase leaves the board. -/
theorem moveTask_held {t : Task} {to_ : TaskState} {det : Detail}
    (h : (moveTask t to_ det).run s = .ok (u, s')) (hw : Wired s.board) (ht : t ∈ s.tasks.rows)
    (hst : t.state.held = true) (hto : to_.held = true) : s'.board = s.board := by
  have quiet : (What.taskState t.number t.state to_ det).Quiet := by
    revert hto
    cases to_ <;> intro k <;> first | exact ⟨rfl, rfl⟩ | cases k
  have hph : to_.phase none false = .held := by
    revert hto
    cases to_ <;> simp [TaskState.held, TaskState.phase]
  rw [moveTask_board h quiet, hph]
  refine Board.move_self fun c hc e => ?_
  rw [hw.unique hc (card_mem ht) e]
  exact phase_held_iff.mpr hst

theorem workWhileResumed_board {project number : Nat} {r : Task}
    (h : (workWhileResumed project number).run s = .ok (r, s')) (hw : Wired s.board) :
    s'.board = s.board := by
  obtain ⟨t, s1, h1, h⟩ := run_bind_ok.mp h
  obtain ⟨rfl, ht, -⟩ := taskRow_ok h1
  obtain ⟨s0, s2, h2, h⟩ := run_bind_ok.mp h
  obtain ⟨rfl, rfl⟩ := run_state_ok.mp h2
  obtain ⟨words, s3, h3, h⟩ := run_bind_ok.mp h
  obtain ⟨hf, rfl⟩ := run_found_ok.mp h3
  obtain ⟨u4, s4, h4, h⟩ := run_bind_ok.mp h
  obtain ⟨u5, s5, h5, h⟩ := run_bind_ok.mp h
  have b5 : s5.board = s4.board := board_of_lift h5
  obtain ⟨rfl, -⟩ := taskById_ok h
  have hst : t.state = .queued := by
    by_contra k
    simp [k] at hf
  rw [b5]
  exact moveTask_held h4 hw ht (by rw [hst]; rfl) rfl

theorem restWhileResumed_board {project number : Nat} {why : String} {r : Task}
    (h : (restWhileResumed project number why).run s = .ok (r, s')) (hw : Wired s.board) :
    s'.board = s.board := by
  obtain ⟨u0, s0, h0, h⟩ := run_bind_ok.mp h
  obtain rfl := requireText_ok h0
  obtain ⟨t, s1, h1, h⟩ := run_bind_ok.mp h
  obtain ⟨rfl, ht, -⟩ := taskRow_ok h1
  obtain ⟨s0, s2, h2, h⟩ := run_bind_ok.mp h
  obtain ⟨rfl, rfl⟩ := run_state_ok.mp h2
  obtain ⟨words, s3, h3, h⟩ := run_bind_ok.mp h
  obtain ⟨hf, rfl⟩ := run_found_ok.mp h3
  obtain ⟨u4, s4, h4, h⟩ := run_bind_ok.mp h
  obtain ⟨rfl, -⟩ := taskById_ok h
  have hst : t.state.held = true := by
    have k : t.state.active = true := by
      by_contra k
      simp [k] at hf
    revert k
    cases t.state <;> simp [TaskState.active, TaskState.held]
  exact moveTask_held h4 hw ht hst rfl

end GoOn

/-! ## 3. Resumed -/

section Resume

variable {L : Licence} {s s' : Ledger} {u : Unit}

theorem resumeOnBoard_edits {project number : Nat} {author : Option Participant}
    {by_ : Option String} {body : String} {t : Task} {p : Participant} {r : TaskMoved} {d : Debt}
    (h : (resumeOnBoard project number author by_ body t p).run s = .ok (r, s'))
    (hw : Wired s.board) (hc : t.card ∈ s.board.cards) (hst : t.state = .paused)
    (hl : ∀ w, t.assignee = some w → s.board.Left w) (hu : d.unmet = ∅) :
    Edits L d s.board (d.touch t.card) s'.board := by
  obtain ⟨u1, s1, h1, h⟩ := run_bind_ok.mp h
  obtain ⟨-, rfl⟩ := run_require_ok.mp h1
  obtain ⟨carried, s2, h2, h⟩ := run_bind_ok.mp h
  have b2 : s2.board = s.board := board_of_lift h2
  obtain ⟨now', s3, h3, h⟩ := run_bind_ok.mp h
  have b3 : s3.board = s2.board := board_of_lift h3
  obtain ⟨u4, s4, h4, h⟩ := run_bind_ok.mp h
  have b : s3.board = s.board := b3.trans b2
  have e4 : Edits L d s3.board (d.touch t.card) s4.board :=
    updateTask_shift (g := fun c => { c with assignee := none, phase := .opened }) (fun _ => rfl)
      h4 (b ▸ hw) (b ▸ hc) rfl rfl
      (.unpaused d t.card ⟨_, _, phase_paused hst⟩ (fun w ha => b ▸ hl w ha) hu) rfl
  rw [b] at e4
  obtain ⟨u5, s5, h5, h⟩ := run_bind_ok.mp h
  have b5 : s5.board = s4.board := board_of_lift h5
  obtain ⟨q, s6, h6, h⟩ := run_bind_ok.mp h
  obtain ⟨rfl, -⟩ := participantRow_ok h6
  obtain ⟨u7, s7, h7, h⟩ := run_bind_ok.mp h
  have b7 : s7.board = s5.board := by
    rcases run_doWhen_ok.mp h7 with ⟨-, h7⟩ | ⟨-, rfl⟩
    · obtain ⟨m, s8, h8, h9⟩ := run_bind_ok.mp h7
      obtain ⟨-, rfl⟩ := run_pure_ok.mp h9
      exact board_of_lift h8
    · rfl
  obtain ⟨row, s8, h8, h⟩ := run_bind_ok.mp h
  obtain ⟨rfl, -⟩ := taskById_ok h8
  obtain ⟨-, rfl⟩ := run_pure_ok.mp h
  exact e4.desk (b7.trans b5)

theorem resumeInWindow_edits {project number : Nat} {author : Option Participant}
    {by_ : Option String} {body : String} {t : Task} {p : Participant} {r : TaskMoved} {d : Debt}
    (h : (resumeInWindow project number author by_ body t p).run s = .ok (r, s'))
    (hw : Wired s.board) (hc : t.card ∈ s.board.cards) (hst : t.state = .paused)
    (hn : t.number = number) (hp : p ∈ s.participants.rows) (ha : t.assignee = some p.id)
    (hl : L .resumed s.board t.card p.id) (hu : d.unmet = ∅) :
    Edits L d s.board (d.touch t.card) s'.board := by
  obtain ⟨u1, s1, h1, h⟩ := run_bind_ok.mp h
  -- another task at work in the window would have kept this one out
  have free : s.board.Session p.id → ¬ s.board.AtWork p.id := by
    rintro hs ⟨c, hc', hca, hcp⟩
    have k := requireFree_atWork h1 ((session_iff hp).mp hs) hc' hca hcp
    have hpr : c.project = t.project := hw.same_project hc' hc hca ha
    rw [hw.unique hc' hc (hw.numbers _ hc' _ hc hpr (k.trans hn.symm)), phase_paused hst] at hcp
    cases hcp
  obtain ⟨rfl, -⟩ := requireFree_ok h1
  obtain ⟨s0, s2, h2, h⟩ := run_bind_ok.mp h
  obtain ⟨rfl, rfl⟩ := run_state_ok.mp h2
  obtain ⟨id, s3, h3, h⟩ := run_bind_ok.mp h
  have b3 : s3.board = s.board.brief (some t.id) p.id := queueCarrier_board h3
  obtain ⟨u4, s4, h4, h⟩ := run_bind_ok.mp h
  obtain ⟨row, s5, h5, h⟩ := run_bind_ok.mp h
  obtain ⟨rfl, -⟩ := taskById_ok h5
  obtain ⟨m, s6, h6, h⟩ := run_bind_ok.mp h
  obtain ⟨rfl, -⟩ := knownMessage_ok h6
  obtain ⟨-, rfl⟩ := run_pure_ok.mp h
  exact (Edits.sent .resumed hw hc rfl ha b3 h4 ⟨⟨_, _, phase_paused hst⟩, ha, free⟩ hl hu
    (by simp)).1

/-- What a resume asks of its licence, where the window of the task is there still. -/
def Licence.LetsBack (L : Licence) (s : Ledger) (project number : Nat) : Prop :=
  ∀ t ∈ s.tasks.rows, t.project = project → t.number = number →
    ∀ w, t.assignee = some w → ¬ s.board.Left w → L .resumed s.board t.card w

/-- **A paused task goes on in its window, or on the board where that ended.** -/
theorem resumeTask_edits {project number : Nat} {by_ : Option String} {body : String}
    {r : TaskMoved} {d : Debt} (h : (resumeTask project number by_ body).run s = .ok (r, s'))
    (hw : Wired s.board) (hl : L.LetsBack s project number) (hu : d.unmet = ∅) :
    ∃ d', Edits L d s.board d' s'.board ∧ d.Still d' := by
  obtain ⟨u1, s1, h1, h⟩ := run_bind_ok.mp h
  obtain rfl := requireText_ok h1
  obtain ⟨author, s2, h2, h⟩ := run_bind_ok.mp h
  obtain rfl := authorOf_ok h2
  obtain ⟨t, s3, h3, h⟩ := run_bind_ok.mp h
  obtain ⟨rfl, ht, hp, hn⟩ := taskRow_ok h3
  obtain ⟨u4, s4, h4, h⟩ := run_bind_ok.mp h
  obtain ⟨rfl, -, hst⟩ := requireTaskState_ok h4
  have hst : t.state = .paused := by simpa using hst
  obtain ⟨u5, s5, h5, h⟩ := run_bind_ok.mp h
  have b5 : s5.board = s.board := board_of_lift h5
  have hw5 : Wired s5.board := b5 ▸ hw
  have hc5 : t.card ∈ s5.board.cards := b5 ▸ card_mem ht
  have hstill : d.Still (d.touch t.card) := ⟨rfl, rfl, rfl⟩
  refine ⟨_, ?_, hstill⟩
  rw [← b5]
  split at h
  · next ha =>
    obtain ⟨now', s6, h6, h⟩ := run_bind_ok.mp h
    have b6 : s6.board = s5.board := board_of_lift h6
    obtain ⟨u7, s7, h7, h⟩ := run_bind_ok.mp h
    have b7 : s7.board = s6.board := board_of_lift h7
    obtain ⟨u8, s8, h8, h⟩ := run_bind_ok.mp h
    have b8 := moveTask_board h8 ⟨rfl, rfl⟩
    obtain ⟨row, s9, h9, h⟩ := run_bind_ok.mp h
    obtain ⟨rfl, -⟩ := taskById_ok h9
    obtain ⟨-, rfl⟩ := run_pure_ok.mp h
    refine Edits.of_edit hw5 hc5 (f := fun c => { c with phase := .opened }) (by
      rw [b8, b7, b6]
      rfl) rfl ?_ rfl
    have e : { t.card with phase := Phase.opened } =
        { t.card with assignee := none, phase := Phase.opened } := by
      have ha' : t.card.assignee = none := ha
      rw [← ha']
    rw [e]
    refine .unpaused d t.card ⟨_, _, phase_paused hst⟩ (fun w hw' => ?_) hu
    cases ha.symm.trans hw'
  · next id ha =>
    obtain ⟨p, s6, h6, h7⟩ := run_bind_ok.mp h
    obtain ⟨rfl, hpm, hid⟩ := participantRow_ok h6
    rw [← hid] at ha
    split at h7
    · next hleft =>
      refine resumeOnBoard_edits h7 hw5 hc5 hst (fun w hw' => ?_) hu
      obtain rfl : p.id = w := Option.some.inj (ha.symm.trans hw')
      exact (left_iff hpm).mpr hleft
    · next hleft =>
      have hl5 : ¬ s5.board.Left p.id := fun k => hleft ((left_iff hpm).mp k)
      rw [b5] at hl5
      exact resumeInWindow_edits h7 hw5 hc5 hst hn hpm ha (b5 ▸ hl t ht hp hn _ ha hl5) hu

end Resume

/-! ## 4. The project's Resume -/

/-- From one board to another some cards in hand were paused, and none of these with its
    project. -/
structure Calm (b b' : Board) : Prop where
  participants : b'.participants = b.participants
  needs : b'.needs = b.needs
  back : ∀ x ∈ b'.cards, x ∈ b.cards ∨ ∃ y ∈ b.cards, y.phase.inHand = true ∧
    ∃ u n, x = { y with phase := .paused u false, stops := n }
  forth : ∀ y ∈ b.cards, y ∈ b'.cards ∨ y.phase.inHand = true

/-- A card that is not in hand, or is paused and not with its project. -/
def Card.Quiet (c : Card) : Prop := c.phase.inHand = true → ∃ u, c.phase = .paused u false

namespace Calm

variable {b b' b'' : Board}

theorem refl (b : Board) : Calm b b := ⟨rfl, rfl, fun _ h => Or.inl h, fun _ h => Or.inl h⟩

theorem trans (h : Calm b b') (k : Calm b' b'') : Calm b b'' := by
  refine ⟨k.participants.trans h.participants, k.needs.trans h.needs, fun x hx => ?_,
    fun y hy => ?_⟩
  · rcases k.back x hx with hx | ⟨y, hy, hp, u, n, rfl⟩
    · exact h.back x hx
    · rcases h.back y hy with hy | ⟨z, hz, hzp, v, k, rfl⟩
      · exact Or.inr ⟨y, hy, hp, u, n, rfl⟩
      · exact Or.inr ⟨z, hz, hzp, u, n, rfl⟩
  · rcases h.forth y hy with hy | hp
    · exact k.forth y hy
    · exact Or.inr hp

theorem put (hw : Wired b) {c : Card} (hc : c ∈ b.cards) (hp : c.phase.inHand = true) (u : Bool)
    (n : Nat) : Calm b (b.put { c with phase := .paused u false, stops := n }) := by
  have mem : ∀ {x}, x ∈ (b.put { c with phase := .paused u false, stops := n }).cards ↔
      x = { c with phase := .paused u false, stops := n } ∨ (x ∈ b.cards ∧ x.id ≠ c.id) :=
    Board.mem_put hc rfl
  refine ⟨rfl, rfl, fun x hx => ?_, fun y hy => ?_⟩
  · rcases mem.mp hx with rfl | ⟨hx, -⟩
    · exact Or.inr ⟨c, hc, hp, u, n, rfl⟩
    · exact Or.inl hx
  · by_cases e : y.id = c.id
    · exact Or.inr (hw.unique hy hc e ▸ hp)
    · exact Or.inl (mem.mpr (Or.inr ⟨hy, e⟩))

theorem ask (h : Calm b b') (project number : Nat) : Calm b (b'.ask project number) :=
  ⟨h.participants, h.needs, h.back, h.forth⟩

/-- What is quiet stays so. -/
theorem quiet (h : Calm b b') {P : Card → Prop}
    (hq : ∀ c ∈ b.cards, P c → c.Quiet) : ∀ c ∈ b'.cards, P c → c.Quiet := by
  intro c hc hp
  rcases h.back c hc with hc | ⟨y, -, -, u, n, rfl⟩
  · exact hq c hc hp
  · exact fun _ => ⟨u, rfl⟩

/-- A card in hand was in hand, in the same window. -/
theorem inHand_back (h : Calm b b') {x : Card} (hx : x ∈ b'.cards) (hp : x.phase.inHand = true) :
    ∃ y ∈ b.cards, y.phase.inHand = true ∧ y.id = x.id ∧ y.assignee = x.assignee ∧
      y.number = x.number := by
  rcases h.back x hx with hx | ⟨y, hy, hyp, u, n, rfl⟩
  · exact ⟨x, hx, hp, rfl, rfl, rfl⟩
  · exact ⟨y, hy, hyp, rfl, rfl, rfl⟩

theorem accepted (h : Calm b b') {n : Nat} (hn : b.Is n .accepted) : b'.Is n .accepted := by
  obtain ⟨y, hy, e, hp⟩ := hn
  rcases h.forth y hy with hy | hi
  · exact ⟨y, hy, e, hp⟩
  · rw [hp] at hi
    cases hi

end Calm

section Lanes

variable {L : Licence} {s s' : Ledger} {u : Unit}

/-- A pause of ConsensFlow's own. -/
theorem pauseTaskAs_own {project number : Nat} {because : Option String} {r : Task}
    (h : (pauseTaskAs project number none because false).run s = .ok (r, s')) :
    ∃ t ∈ s.tasks.rows, t.project = project ∧ t.number = number ∧
      s'.board = s.board.pause t false .asked := by
  obtain ⟨t, ht, hp, hn, -, -, ⟨k, -⟩ | ⟨-, -, p, hpw, hb⟩⟩ := pauseTaskAs_board h
  · cases k
  · obtain rfl := hpw rfl
    exact ⟨t, ht, hp, hn, hb⟩

/-- One task of a window that holds several is quiet after it. -/
theorem leavePaused_edits {project number : Nat} {because : String} {t : Task} {left : Bool}
    {d : Debt} (h : (leavePaused project number because t).run s = .ok (left, s'))
    (hw : Wired s.board) (ht : t ∈ s.tasks.rows) (hp : t.project = project)
    (hn : t.number = number) (hu : d.unmet = ∅) :
    ∃ d', Edits L d s.board d' s'.board ∧ d.Still d' ∧ Calm s.board s'.board ∧
      ∀ c ∈ s'.board.cards, c.id = t.id → c.Quiet := by
  -- where the card is put paused, it is quiet
  have quieted : ∀ {v : Bool} {n : Nat},
      s'.board.cards = (s.board.put { t.card with phase := .paused v false, stops := n }).cards →
      ∀ c ∈ s'.board.cards, c.id = t.id → c.Quiet := by
    intro v n hb c hc e
    rw [hb] at hc
    rcases (@Board.mem_put _ _ { t.card with phase := .paused v false, stops := n } _
      (card_mem ht) rfl).mp hc with rfl | ⟨-, k⟩
    · exact fun _ => ⟨v, rfl⟩
    · exact absurd e k
  have unchanged : s = s' → t.card.Quiet → ∃ d', Edits L d s.board d' s'.board ∧ d.Still d' ∧
      Calm s.board s'.board ∧ ∀ c ∈ s'.board.cards, c.id = t.id → c.Quiet := by
    rintro rfl hq
    exact ⟨d, .refl _ _, .refl d, .refl _, fun c hc e => hw.unique hc (card_mem ht) e ▸ hq⟩
  have atWork : t.state.held = true → (do
      let _ ← pauseTaskAs project number none (some because) false
      pure true : LedgerM Bool).run s = .ok (left, s') →
      ∃ d', Edits L d s.board d' s'.board ∧ d.Still d' ∧ Calm s.board s'.board ∧
        ∀ c ∈ s'.board.cards, c.id = t.id → c.Quiet := by
    intro hst h
    obtain ⟨r, s1, h1, h⟩ := run_bind_ok.mp h
    obtain ⟨-, rfl⟩ := run_pure_ok.mp h
    obtain ⟨t', ht', hp', hn', hb⟩ := pauseTaskAs_own h1
    have e : t' = t := Table.eq_of_key ht' ht
      (hw.numbers _ (card_mem ht') _ (card_mem ht) (hp'.trans hp.symm) (hn'.trans hn.symm))
    subst e
    have put : s.board.edit t'.id (Card.pause false 1) = s.board.put (t'.card.pause false 1) :=
      hw.edit_eq_put (card_mem ht) rfl
    have hb' : s1.board = (s.board.put (t'.card.pause false 1)).ask t'.project t'.number := by
      rw [hb, ← put]
      rfl
    obtain ⟨d', he, hd⟩ := pauseTaskAs_edits (L := L) h1 hw hu
    have cards : s1.board.cards = (s.board.put (t'.card.pause false 1)).cards := by
      rw [hb']
      rfl
    refine ⟨d', he, hd, ?_, quieted cards⟩
    rw [hb']
    exact (Calm.put hw (card_mem ht) (phase_inHand_iff.mpr (by rw [hst]; rfl)) false _).ask _ _
  have finished : t.state.held = false → t.state ≠ .paused → t.card.Quiet := by
    intro h1 h2 k
    have := phase_inHand_iff.mp k
    rw [h1] at this
    exact absurd (by simpa using this) h2
  unfold leavePaused at h
  split at h
  · next hst =>
    obtain ⟨u1, s1, h1, h⟩ := run_bind_ok.mp h
    obtain ⟨-, rfl⟩ := run_pure_ok.mp h
    rcases run_doWhen_ok.mp h1 with ⟨-, h1⟩ | ⟨hpw, e⟩
    · obtain ⟨u2, s2, h2, h3⟩ := run_bind_ok.mp h1
      have b3 : s1.board = s2.board := board_of_lift h3
      have em : t.card.mark false = { t.card with phase := .paused t.heldUntil.isSome false } := by
        unfold Card.mark
        rw [phase_paused hst]
      have hb : s1.board = s.board.put { t.card with phase := .paused t.heldUntil.isSome false } := by
        rw [b3, updateMark_board h2, ← em]
        exact hw.edit_eq_put (card_mem ht) rfl
      have he : Edits L d s.board (d.touch t.card) s2.board :=
        Edits.unmarked (updateMark_board h2) hw (card_mem ht) hst hu
      refine ⟨_, he.desk b3, ⟨rfl, rfl, rfl⟩, ?_,
        quieted (v := t.heldUntil.isSome) (congrArg Board.cards hb)⟩
      rw [hb]
      exact Calm.put hw (card_mem ht) (phase_inHand_iff.mpr (by rw [hst]; rfl)) _ _
    · exact unchanged e fun _ => ⟨t.heldUntil.isSome, by rw [phase_paused hst, hpw]⟩
  · next hst => exact atWork (by rw [hst]; rfl) h
  · next hst => exact atWork (by rw [hst]; rfl) h
  · next hst => exact atWork (by rw [hst]; rfl) h
  · next h1 h2 h3 h4 =>
    obtain ⟨-, e⟩ := run_pure_ok.mp h
    refine unchanged e (finished ?_ h1)
    revert h2 h3 h4
    cases t.state <;> simp [TaskState.held]

/-- The tasks of one window, each quiet after it. -/
theorem leaveLane_edits {project : Nat} {because : String} {ns : List Nat}
    {told told' : List (Nat × Nat)} {d : Debt}
    (h : (leaveLane project because ns told).run s = .ok (told', s')) (hw : Wired s.board)
    (hu : d.unmet = ∅) :
    ∃ d', Edits L d s.board d' s'.board ∧ d.Still d' ∧ Calm s.board s'.board ∧
      ∀ c ∈ s'.board.cards, c.project = project ∧ c.number ∈ ns → c.Quiet := by
  induction ns generalizing s d told with
  | nil =>
    obtain ⟨-, rfl⟩ := run_pure_ok.mp h
    exact ⟨d, .refl _ _, .refl d, .refl _, by simp⟩
  | cons n ns ih =>
    obtain ⟨t, s1, h1, h⟩ := run_bind_ok.mp h
    obtain ⟨rfl, ht, hp, hn⟩ := taskRow_ok h1
    obtain ⟨left, s2, h2, h⟩ := run_bind_ok.mp h
    obtain ⟨d1, e1, k1, c1, q1⟩ := leavePaused_edits (L := L) (d := d) h2 hw ht hp hn hu
    obtain ⟨told1, s3, h3, h⟩ := run_bind_ok.mp h
    have b3 : s3.board = s2.board := board_of_lift h3
    have hw3 : Wired s3.board := b3 ▸ e1.wired hw
    obtain ⟨d2, e2, k2, c2, q2⟩ := ih (d := d1) h hw3 (k1.unmet.trans hu)
    rw [b3] at e2 c2
    refine ⟨d2, e1.trans e2, k1.trans k2, c1.trans c2, fun c hc ⟨hcp, hcn⟩ => ?_⟩
    rcases List.mem_cons.mp hcn with rfl | hcn
    · -- the task of this round, quiet ever since
      have q : ∀ x ∈ s2.board.cards, x.project = t.project ∧ x.number = t.number → x.Quiet := by
        intro x hx ⟨hxp, hxn⟩
        refine q1 x hx ?_
        obtain ⟨y, hy, ey⟩ : ∃ y ∈ s.board.cards, y.id = x.id ∧ y.project = x.project ∧
            y.number = x.number := by
          rcases c1.back x hx with hx | ⟨y, hy, -, v, k, rfl⟩
          · exact ⟨x, hx, rfl, rfl, rfl⟩
          · exact ⟨y, hy, rfl, rfl, rfl⟩
        rw [← ey.1]
        exact hw.numbers _ hy _ (card_mem ht) (ey.2.1.trans hxp) (ey.2.2.trans hxn)
      exact c2.quiet q c hc ⟨hcp.trans hp.symm, hn.symm⟩
    · exact q2 c hc ⟨hcp, hcn⟩

theorem mem_inHand {w : Nat} {t : Task} : t ∈ s.inHand w ↔
    t ∈ s.tasks.rows ∧ t.assignee = some w ∧ t.card.phase.inHand = true := by
  rw [phase_inHand_iff]
  simp only [Ledger.inHand, List.mem_insertionSort, List.mem_filter, Bool.and_eq_true, beq_iff_eq]

/-- The windows that hold several, each with nothing at work after it. -/
theorem leaveLanes_edits {project : Nat} {lanes : List Participant} {told : List (Nat × Nat)}
    {d : Debt} (h : (leaveLanes project lanes told).run s = .ok (u, s')) (hw : Wired s.board)
    (hu : d.unmet = ∅) :
    ∃ d', Edits L d s.board d' s'.board ∧ d.Still d' ∧ Calm s.board s'.board ∧
      ∀ c ∈ s'.board.cards, c.project = project ∧ (∃ p ∈ lanes, c.assignee = some p.id) →
        c.Quiet := by
  induction lanes generalizing s d told with
  | nil =>
    obtain ⟨-, rfl⟩ := run_pure_ok.mp h
    exact ⟨d, .refl _ _, .refl d, .refl _, by simp⟩
  | cons p ps ih =>
    obtain ⟨s0, s1, h1, h⟩ := run_bind_ok.mp h
    obtain ⟨rfl, rfl⟩ := run_state_ok.mp h1
    obtain ⟨told1, s2, h2, h⟩ := run_bind_ok.mp h
    obtain ⟨d1, e1, k1, c1, q1⟩ := leaveLane_edits (L := L) (d := d) h2 hw hu
    obtain ⟨d2, e2, k2, c2, q2⟩ := ih (d := d1) h (e1.wired hw) (k1.unmet.trans hu)
    refine ⟨d2, e1.trans e2, k1.trans k2, c1.trans c2, fun c hc ⟨hcp, q, hq, hca⟩ => ?_⟩
    rcases List.mem_cons.mp hq with rfl | hq
    · have quiet : ∀ x ∈ s2.board.cards, x.project = project ∧ x.assignee = some q.id →
          x.Quiet := by
        intro x hx ⟨hxp, hxa⟩ hxi
        -- in hand now, it was in hand when the window was looked at
        obtain ⟨y, hy, hyi, -, hya, hyn⟩ := c1.inHand_back hx hxi
        obtain ⟨t, ht, rfl⟩ := mem_cards.mp hy
        have hm : x.number ∈ (s.inHand q.id).map (·.number) :=
          List.mem_map.mpr ⟨t, mem_inHand.mpr ⟨ht, hya.trans hxa, hyi⟩, hyn⟩
        exact q1 x hx ⟨hxp, hm⟩ hxi
      exact c2.quiet quiet c hc ⟨hcp, hca⟩
    · exact q2 c hc ⟨hcp, q, hq, hca⟩

theorem one_lt_length_of_mem {α : Type} {xs : List α} {a b : α} (ha : a ∈ xs) (hb : b ∈ xs)
    (h : a ≠ b) : 1 < xs.length := by
  match xs, ha, hb with
  | [x], ha, hb => exact absurd ((List.mem_singleton.mp ha).trans (List.mem_singleton.mp hb).symm) h
  | _ :: _ :: _, _, _ => exact Nat.succ_lt_succ (Nat.succ_pos _)

/-- A session with two cards in hand holds several. -/
theorem mem_lanes (hw : Wired s.board) {project w : Nat} {x y : Card} (hx : x ∈ s.board.cards)
    (hy : y ∈ s.board.cards) (hne : x.id ≠ y.id) (hxa : x.assignee = some w)
    (hya : y.assignee = some w) (hxi : x.phase.inHand = true) (hyi : y.phase.inHand = true)
    (hp : x.project = project) (hs : s.board.Session w) : ∃ p ∈ s.lanes project, p.id = w := by
  obtain ⟨p, hpm, rfl, hmem⟩ := hs
  have hrole := hw.sessions p hpm hmem
  obtain ⟨q, hq, eq, eproj⟩ := hw.windows x hx _ hxa
  rw [Table.eq_of_key hq hpm eq] at eproj
  obtain ⟨a, ha, rfl⟩ := mem_cards.mp hx
  obtain ⟨b, hb, rfl⟩ := mem_cards.mp hy
  have hlen : 1 < (s.inHand p.id).length := by
    refine one_lt_length_of_mem (mem_inHand.mpr ⟨ha, hxa, hxi⟩) (mem_inHand.mpr ⟨hb, hya, hyi⟩) ?_
    rintro rfl
    exact hne rfl
  refine ⟨p, List.mem_filter.mpr ⟨hpm, ?_⟩, rfl⟩
  have h1 : p.role ≠ .chief := by
    intro k
    rw [k] at hrole
    simp [Role.memberRoles] at hrole
  have h2 : p.role ≠ .human := by
    intro k
    rw [k] at hrole
    simp [Role.memberRoles] at hrole
  have e : p.project = project := eproj.trans hp
  simp [h1, h2, e, hlen]

/-- What goes on with its project: paused with it, and alone in its window. -/
def Board.GoesOn (b : Board) (project : Nat) (c : Card) : Prop :=
  c ∈ b.cards ∧ c.project = project ∧ (∃ u, c.phase = .paused u true) ∧
    ∃ w, c.assignee = some w ∧ (b.Session w → ∀ c' ∈ b.cards, c'.assignee = some w →
      c'.phase.inHand = true → c'.id = c.id)

/-- What the project's Resume asks of its licence, for each card its suspension paused: on a
    board with the same plan, and all accepted that was. -/
def Licence.Resumes (L : Licence) (b0 : Board) (project : Nat) : Prop :=
  ∀ c ∈ b0.cards, c.project = project → (∃ u, c.phase = .paused u true) → ∀ b w,
    b.needs = b0.needs → (∀ n, b0.Is n .accepted → b.Is n .accepted) → L .withProject b c w

/-- One task at work again with its project. -/
theorem resumeOne_edits {project n : Nat} {d : Debt} {c : Card}
    (h : (resumeOne project n).run s = .ok (u, s')) (hw : Wired s.board)
    (hg : s.board.GoesOn project c) (hn : c.number = n)
    (hl : ∀ w, L .withProject s.board c w) (hu : d.unmet = ∅) :
    Edits L d s.board (d.touch c) s'.board ∧ s'.board = s.board.put { c with phase := .held } := by
  obtain ⟨t, s1, h1, h⟩ := run_bind_ok.mp h
  obtain ⟨rfl, ht, htp, htn⟩ := taskRow_ok h1
  obtain ⟨u2, s2, h2, h⟩ := run_bind_ok.mp h
  have b2 : s2.board = s.board := board_of_lift h2
  obtain ⟨u3, s3, h3, h4⟩ := run_bind_ok.mp h
  have b3 := moveTask_board h3 ⟨rfl, rfl⟩
  have b4 : s'.board = s3.board := board_of_lift h4
  obtain ⟨hc, hp, ⟨v, hph⟩, w, ha, halone⟩ := hg
  have e : t.card = c := hw.unique (card_mem ht) hc
    (hw.numbers _ (card_mem ht) _ hc (htp.trans hp.symm) (htn.trans hn.symm))
  subst e
  have hb : s'.board = s.board.move t.card.id .held := by
    rw [b4, b3, b2]
    rfl
  refine ⟨Edits.entered .withProject hw hc ha hb ⟨⟨v, hph⟩, ha, fun hs => ?_⟩ (hl w) hu
    (by simp), ?_⟩
  · rintro ⟨x, hx, hxa, hxp⟩
    have k := halone hs x hx hxa (by rw [hxp]; rfl)
    rw [hw.unique hx hc k, hph] at hxp
    cases hxp
  · rw [hb]
    exact hw.edit_eq_put hc (f := fun c => { c with phase := .held }) rfl

/-- Another card that goes on with its project does so still. -/
theorem Board.GoesOn.put {b : Board} {project : Nat} {c x : Card}
    (hc : b.GoesOn project c) (hx : b.GoesOn project x) (hne : x.id ≠ c.id) :
    (b.put { c with phase := .held }).GoesOn project x := by
  obtain ⟨hcm, -, ⟨v, hcp⟩, wc, hca, -⟩ := hc
  obtain ⟨hxm, hxp, hxu, w, hxa, halone⟩ := hx
  have mem : ∀ {y}, y ∈ (b.put { c with phase := .held }).cards ↔
      y = { c with phase := .held } ∨ (y ∈ b.cards ∧ y.id ≠ c.id) := Board.mem_put hcm rfl
  refine ⟨mem.mpr (Or.inr ⟨hxm, hne⟩), hxp, hxu, w, hxa, fun hs y hy hya hyi => ?_⟩
  rcases mem.mp hy with rfl | ⟨hy, -⟩
  · exact halone hs c hcm hya (by rw [hcp]; rfl)
  · exact halone hs y hy hya hyi

theorem resumeEach_edits {project : Nat} {b0 : Board} {ns : List Nat} {d : Debt}
    (h : (ns.forM (resumeOne project)).run s = .ok (u, s')) (hw : Wired s.board)
    (hnd : ns.Nodup) (hg : ∀ n ∈ ns, ∃ c ∈ b0.cards, s.board.GoesOn project c ∧ c.number = n)
    (hneeds : s.board.needs = b0.needs) (hacc : ∀ n, b0.Is n .accepted → s.board.Is n .accepted)
    (hl : L.Resumes b0 project) (hu : d.unmet = ∅) :
    ∃ d', Edits L d s.board d' s'.board ∧ d.Still d' := by
  induction ns generalizing s d with
  | nil =>
    obtain ⟨-, rfl⟩ := run_pure_ok.mp h
    exact ⟨d, .refl _ _, .refl d⟩
  | cons n ns ih =>
    obtain ⟨u1, s1, h1, h2⟩ := run_bind_ok.mp h
    obtain ⟨hnn, hnd⟩ := List.nodup_cons.mp hnd
    obtain ⟨c, hc0, hgc, hcn⟩ := hg n List.mem_cons_self
    obtain ⟨e1, hb⟩ := resumeOne_edits (L := L) (d := d) h1 hw hgc hcn
      (fun w => hl c hc0 hgc.2.1 hgc.2.2.1 _ w hneeds hacc) hu
    have hd : d.Still (d.touch c) := ⟨rfl, rfl, rfl⟩
    have mem : ∀ {y}, y ∈ s1.board.cards ↔
        y = { c with phase := .held } ∨ (y ∈ s.board.cards ∧ y.id ≠ c.id) := by
      intro y
      rw [hb]
      exact Board.mem_put hgc.1 rfl
    have rest : ∀ m ∈ ns, ∃ x ∈ b0.cards, s1.board.GoesOn project x ∧ x.number = m := by
      intro m hm
      obtain ⟨x, hx0, hgx, hxn⟩ := hg m (List.mem_cons_of_mem _ hm)
      refine ⟨x, hx0, ?_, hxn⟩
      rw [hb]
      refine hgc.put hgx fun e => hnn ?_
      rw [← hcn, ← hw.unique hgx.1 hgc.1 e, hxn]
      exact hm
    have hacc' : ∀ k, b0.Is k .accepted → s1.board.Is k .accepted := by
      intro k hk
      obtain ⟨y, hy, e, hp⟩ := hacc k hk
      refine ⟨y, mem.mpr (Or.inr ⟨hy, fun e' => ?_⟩), e, hp⟩
      obtain ⟨v, hv⟩ := hgc.2.2.1
      rw [hw.unique hy hgc.1 e', hv] at hp
      cases hp
    obtain ⟨d2, e2, k2⟩ := ih (d := d.touch c) h2 (e1.wired hw) hnd rest
      (by rw [hb]; exact hneeds) hacc' hu
    exact ⟨d2, e1.trans e2, hd.trans k2⟩

/-- **The project's Resume**: what its suspension paused is at work again, each alone in its
    window. -/
theorem resumeWithProject_edits {project : Nat} {d : Debt}
    (h : (resumeWithProject project).run s = .ok (u, s')) (hw : Wired s.board)
    (hl : L.Resumes s.board project) (hu : d.unmet = ∅) :
    ∃ d', Edits L d s.board d' s'.board ∧ d.Still d' := by
  obtain ⟨u1, s1, h1, h⟩ := run_bind_ok.mp h
  obtain ⟨s0, s0', h0, h1⟩ := run_bind_ok.mp h1
  obtain ⟨rfl, rfl⟩ := run_state_ok.mp h0
  obtain ⟨d1, e1, k1, c1, q1⟩ := leaveLanes_edits (L := L) (d := d) h1 hw hu
  have hw1 := e1.wired hw
  obtain ⟨s0, s2, h2, h⟩ := run_bind_ok.mp h
  obtain ⟨rfl, rfl⟩ := run_state_ok.mp h2
  obtain ⟨u3, s3, h3, h4⟩ := run_bind_ok.mp h
  have b4 : s'.board = s3.board := board_of_lift h4
  have hnd : (s1.pausedWith project).Nodup := by
    have hinj : ∀ a ∈ s1.tasks.rows.filter (fun t => t.project == project && t.state == .paused &&
        t.pausedWithProject && (t.assignee.bind s1.participants.get?).any fun p => p.leftAt.isNone),
        ∀ b ∈ s1.tasks.rows.filter (fun t => t.project == project && t.state == .paused &&
        t.pausedWithProject && (t.assignee.bind s1.participants.get?).any fun p => p.leftAt.isNone),
        a.number = b.number → a = b := by
      intro a ha b hb e
      simp only [List.mem_filter, Bool.and_eq_true, beq_iff_eq] at ha hb
      exact Table.eq_of_key ha.1 hb.1 (hw1.numbers _ (card_mem ha.1) _ (card_mem hb.1)
        (ha.2.1.1.1.trans hb.2.1.1.1.symm) e)
    refine List.Nodup.map_on hinj ?_
    refine List.Nodup.filter _ ?_
    exact List.Nodup.of_map _ (s1.tasks.rising.imp Nat.ne_of_lt)
  have goes : ∀ n ∈ s1.pausedWith project, ∃ c ∈ s.board.cards,
      s1.board.GoesOn project c ∧ c.number = n := by
    intro n hn
    obtain ⟨t, ht, rfl⟩ := List.mem_map.mp hn
    simp only [List.mem_filter, Bool.and_eq_true, beq_iff_eq] at ht
    obtain ⟨ht, ⟨⟨hp, hst⟩, hpw⟩, hwin⟩ := ht
    have hph : t.card.phase = .paused t.heldUntil.isSome true := by
      rw [phase_paused hst, hpw]
    obtain ⟨w, ha⟩ : ∃ w, t.assignee = some w := by
      cases ha : t.assignee with
      | none => simp [ha] at hwin
      | some w => exact ⟨w, rfl⟩
    -- paused with its project still, it was so before the windows were left
    have h0 : t.card ∈ s.board.cards := by
      rcases c1.back _ (card_mem ht) with k | ⟨y, -, -, v, n, e⟩
      · exact k
      · rw [e] at hph
        cases hph
    have hin : t.card.phase.inHand = true := by
      rw [hph]
      rfl
    refine ⟨t.card, h0, ⟨card_mem ht, hp, ⟨_, hph⟩, w, ha, fun hs x hx hxa hxi => ?_⟩, rfl⟩
    by_contra hne
    obtain ⟨y, hy, hyi, hyid, hya, -⟩ := c1.inHand_back hx hxi
    have hs0 : s.board.Session w := by
      unfold Board.Session at hs ⊢
      rw [← c1.participants]
      exact hs
    have hne' : t.card.id ≠ y.id := fun e => hne (hyid.symm.trans e.symm)
    obtain ⟨p, hpl, hpw'⟩ := mem_lanes hw h0 hy hne' ha (hya.trans hxa) hin hyi hp hs0
    obtain ⟨v, hv⟩ := q1 t.card (card_mem ht) ⟨hp, p, hpl, by rw [hpw']; exact ha⟩ hin
    rw [hph] at hv
    cases hv
  obtain ⟨d2, e2, k2⟩ := resumeEach_edits (L := L) (d := d1) h3 hw1 hnd goes c1.needs
    (fun n hn => c1.accepted hn) hl (k1.unmet.trans hu)
  exact ⟨d2, (e1.trans e2).desk b4, k1.trans k2⟩

end Lanes

end ConsensFlow
