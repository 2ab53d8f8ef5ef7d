/-
  File:      ConsensFlow/Deleting.lean
  Subject:   TASKS TAKEN OFF THE BOARD FOR GOOD (`tasks/finishing.rs`: `delete_tasks`), and what
             still waits for them.

  * `Task.gone` -- a task that failed and was deleted: it is neither accepted nor reopened;
  * `Hopeful` -- no card that is not finished needs one that is gone;
  * `Edit.hopeful` -- every edit keeps it, but a card sent back to its window that needs one gone;
  * **`deletion_strands_nobody`** -- so it holds in every state of a run that sends none such back;
    a deletion takes all of its tasks, or none. Nothing in `reopen_task` looks at what the task
    needs (`reopened_for_nothing`).
-/
import ConsensFlow.Plan

namespace ConsensFlow

open Lib Txn

/-! ## 1. Gone for good -/

/-- A card that failed and was deleted. -/
def Card.Gone (c : Card) : Prop := c.deleted = true ∧ c.phase = .failed

/-- No card that is not finished needs one that is gone. -/
def Hopeful (b : Board) : Prop :=
  ∀ c ∈ b.cards, c.phase.finished = false → ∀ n ∈ b.cards, (c.id, n.id) ∈ b.needs → ¬ n.Gone

/-- What `Hopeful` asks of a card sent back: that it needs none that is gone. -/
def Licence.hopeful : Licence := fun door b c _ =>
  door = .reopened → ∀ n ∈ b.cards, (c.id, n.id) ∈ b.needs → ¬ n.Gone

section Edits

variable {L : Licence} {d d' : Debt} {b b' : Board} {c c' : Card}

/-- A card that is not finished after a move was not finished before it, or was sent back. -/
theorem Shift.unfinished (h : Shift L b d c d' c') (open_ : c'.phase.finished = false) :
    c.phase.finished = false ∨ ∃ w, L .reopened b c w := by
  cases h with
  | enter door w ho hl hu hr =>
    cases door with
    | released => exact .inl (by rw [ho.1]; rfl)
    | assigned => exact .inl (by rw [ho.1]; rfl)
    | resumed =>
      obtain ⟨⟨u, p, e⟩, -⟩ := ho
      exact .inl (by rw [e]; rfl)
    | reopened => exact .inr ⟨w, hl⟩
    | wentOn =>
      obtain ⟨⟨p, e⟩, -⟩ := ho
      exact .inl (by rw [e]; rfl)
    | relaunched =>
      obtain ⟨⟨u, p, e⟩, -⟩ := ho
      exact .inl (by rw [e]; rfl)
    | withProject =>
      obtain ⟨⟨u, e⟩, -⟩ := ho
      exact .inl (by rw [e]; rfl)
    | named => exact ho.elim
  | paused u p n hc hu hp hm =>
    refine .inl ?_
    rcases hc with waits | e
    · cases e : c.phase <;> simp [e, Phase.waits] at waits <;> rfl
    · rw [e]
      rfl
  | finished hc hd hm hu =>
    refine .inl ?_
    cases e : c.phase <;> simp [e, Phase.inHand] at hc <;> rfl
  | accepted hc hu => cases open_
  | failed hc hu => cases open_
  | cancelled hc hu => cases open_
  | shelved hc =>
    refine .inl ?_
    cases e : c.phase <;> simp [e, Phase.inHand] at hc <;> rfl
  | unpaused hc hw hu =>
    obtain ⟨u, p, e⟩ := hc
    exact .inl (by rw [e]; rfl)
  | deleted hc hn hu => exact .inl open_

/-- A card that is gone after a move was gone before it, or nothing unfinished needed it. -/
theorem Shift.gone (h : Shift L b d c d' c') (hw : Wired b) (hc : c ∈ b.cards) (gone : c'.Gone) :
    c.Gone ∨ ∀ x ∈ b.cards, (x.id, c.id) ∈ b.needs → x.phase.finished = true := by
  obtain ⟨off, failed⟩ := gone
  cases h with
  | failed hp hu =>
    -- what fails is not deleted
    have on : c.deleted = false := hw.kept_of hc (by rcases hp with e | e <;> rw [e] <;> rfl)
    have off : c.deleted = true := off
    rw [on] at off
    cases off
  | deleted hp hn hu => exact .inr (hn failed)
  | _ => cases failed

theorem Hopeful.put (hL : ∀ door b c w, L door b c w → Licence.hopeful door b c w) (hw : Wired b)
    (hc : c ∈ b.cards) (h : Shift L b d c d' c') (hopes : Hopeful b) : Hopeful (b.put c') := by
  have id_ := h.shifted.id
  -- the card's own needs, and those of the others, at the card's place
  have own : c'.phase.finished = false → ∀ n ∈ b.cards, (c.id, n.id) ∈ b.needs → ¬ n.Gone := by
    intro open_
    rcases h.unfinished open_ with before | ⟨w, granted⟩
    · exact hopes c hc before
    · exact hL _ _ _ _ granted rfl
  have others : ∀ x ∈ b.cards, x.phase.finished = false → (x.id, c.id) ∈ b.needs → ¬ c'.Gone := by
    intro x hx open_ edge gone
    rcases h.gone hw hc gone with before | over_
    · exact hopes x hx open_ c hc edge before
    · rw [over_ x hx edge] at open_
      cases open_
  intro x hx open_ n hn edge
  have edge : (x.id, n.id) ∈ b.needs := edge
  rcases (Board.mem_put hc id_).mp hx with rfl | ⟨there, -⟩ <;>
    rcases (Board.mem_put hc id_).mp hn with rfl | ⟨needed, -⟩
  · -- no card needs itself: the edges of the plan are between the cards as they were
    rw [id_] at edge
    intro gone
    rcases h.gone hw hc gone with before | over_
    · exact own open_ c hc edge before
    · exact absurd gone.2 (by intro e; rw [e] at open_; cases open_)
  · rw [id_] at edge
    exact own open_ n needed edge
  · rw [id_] at edge
    exact others x there open_ edge
  · exact hopes x there open_ n needed edge

/-- **Every edit keeps hope**, where what is sent back needs none that is gone. -/
theorem Edit.hopeful (hL : ∀ door b c w, L door b c w → Licence.hopeful door b c w)
    (h : Edit L d b d' b') (hw : Wired b) (hopes : Hopeful b) : Hopeful b' := by
  cases h with
  | staff h =>
    intro x hx open_ n hn edge
    exact hopes x (h.cards ▸ hx) open_ n (h.cards ▸ hn) (h.needs ▸ edge)
  | shift hc h => exact hopes.put hL hw hc h
  | stop hc h => exact hopes.put hL hw hc h
  | create c ns h hu =>
    intro x hx open_ n hn edge gone
    rcases Board.mem_add.mp hn with hn | rfl
    · rcases List.mem_append.mp edge with edge | new
      · -- an edge that was there is between cards that were
        obtain ⟨y, hy, z, hz, ey, -⟩ := hw.edges _ edge
        have old : x ∈ b.cards := by
          rcases Board.mem_add.mp hx with hx | rfl
          · exact hx
          · exact absurd ey (h.fresh y hy)
        exact hopes x old open_ n hn edge gone
      · obtain ⟨i, hi, e⟩ := List.mem_map.mp new
        obtain ⟨y, hy, ey, -, -, on⟩ := h.needs i hi
        obtain rfl : n = y := hw.unique hn hy ((Prod.ext_iff.mp e).2.symm.trans ey.symm)
        rcases on with accepted | kept
        · exact absurd (gone.2.symm.trans accepted) (by simp)
        · rw [gone.1] at kept
          cases kept
    · exact absurd (gone.1.symm.trans h.kept) (by simp)
  | link t n ht hn hne hp hr hc hd =>
    intro x hx open_ y hy edge gone
    rcases List.mem_append.mp edge with edge | new
    · exact hopes x hx open_ y hy edge gone
    · have e := Prod.ext_iff.mp (List.mem_singleton.mp new)
      obtain rfl : y = n := hw.unique hy hn e.2
      rcases hd with accepted | kept
      · exact absurd (gone.2.symm.trans accepted) (by simp)
      · rw [gone.1] at kept
        cases kept
  | unlink t n ht =>
    intro x hx open_ y hy edge
    exact hopes x hx open_ y hy (List.mem_filter.mp edge).1
  | dismiss ws hu =>
    intro x hx open_ n hn edge gone
    rcases Board.mem_dismiss hx with ⟨hx, -⟩ | ⟨c, -, -, rfl⟩
    · rcases Board.mem_dismiss hn with ⟨hn, -⟩ | ⟨c, -, -, rfl⟩
      · exact hopes x hx open_ n hn edge gone
      · cases gone.2
    · cases open_
  | _ => exact hopes

end Edits

/-! ## 2. In the ledger -/

/-- A task that failed and was deleted. -/
def Task.gone (t : Task) : Bool := t.deletedAt.isSome && t.state == .failed

/-- The task needs one that is gone. -/
def Ledger.NeedsGone (s : Ledger) (t : Task) : Prop :=
  ∃ d ∈ s.tasks.rows, (t.id, d.id) ∈ s.needs ∧ d.gone = true

instance (s : Ledger) (t : Task) : Decidable (s.NeedsGone t) :=
  inferInstanceAs (Decidable (∃ d ∈ s.tasks.rows, (t.id, d.id) ∈ s.needs ∧ d.gone = true))

/-- No task that is in one of these states needs one that is gone. -/
def Ledger.StrandsNone (s : Ledger) (states : TaskState → Bool) : Prop :=
  ∀ t ∈ s.tasks.rows, states t.state = true → ¬ s.NeedsGone t

instance (s : Ledger) (states : TaskState → Bool) : Decidable (s.StrandsNone states) :=
  inferInstanceAs (Decidable (∀ t ∈ s.tasks.rows, states t.state = true → ¬ s.NeedsGone t))

/-- On the board. -/
def TaskState.onBoard : TaskState → Bool
  | opened => true
  | _ => false

/-- Not over. -/
def TaskState.unfinished (state : TaskState) : Bool := !state.finished

/-- A call sends back no task that needs one that is gone. -/
def Call.SendsBackHope (s : Ledger) (c : Call) : Prop :=
  match c.op with
  | .board (.reopenTask p n _ _) => ∀ t ∈ s.tasks.rows, t.project = p → t.number = n →
      ¬ s.NeedsGone t
  | _ => True

/-- The task a call sends back to be done again. -/
def Op.sendsBack : Op → Option (Nat × Nat)
  | .board (.reopenTask p n _ _) => some (p, n)
  | _ => none

theorem sendsBackHope_iff {s : Ledger} {c : Call} : c.SendsBackHope s ↔
    ∀ x ∈ c.op.sendsBack, ∀ t ∈ s.tasks.rows, t.project = x.1 → t.number = x.2 →
      ¬ s.NeedsGone t := by
  unfold Call.SendsBackHope Op.sendsBack
  split <;> simp

instance (s : Ledger) (c : Call) : Decidable (c.SendsBackHope s) :=
  decidable_of_iff _ sendsBackHope_iff.symm

section Runs

variable {s s' : Ledger}

theorem gone_iff {t : Task} : t.card.Gone ↔ t.gone = true := by
  unfold Card.Gone Task.gone
  rw [phase_failed_iff, card_deleted, Bool.and_eq_true, beq_iff_eq]

theorem needsGone_iff {t : Task} :
    s.NeedsGone t ↔ ∃ n ∈ s.board.cards, (t.card.id, n.id) ∈ s.board.needs ∧ n.Gone := by
  constructor
  · rintro ⟨d, hd, edge, gone⟩
    exact ⟨d.card, card_mem hd, edge, gone_iff.mpr gone⟩
  · rintro ⟨n, hn, edge, gone⟩
    obtain ⟨d, hd, rfl⟩ := mem_cards.mp hn
    exact ⟨d, hd, edge, gone_iff.mp gone⟩

theorem Licence.fair_hopeful : Licence.hopeful.Fair := by
  intro b c w h
  cases h

/-- The calls that send back hope are those the board's licence asks for. -/
theorem Call.SendsBackHope.granted {c : Call} (h : c.SendsBackHope s) :
    c.op.Granted .hopeful s := by
  unfold Call.SendsBackHope at h
  cases hc : c.op with
  | board op =>
    rw [hc] at h
    cases op with
    | reopenTask p n b l =>
      intro t ht hp hn b w hr _ n hn' edge gone
      exact h t ht hp hn (needsGone_iff.mpr ⟨n, hr.cards ▸ hn', hr.needs ▸ edge, gone⟩)
    | createTask p r => exact fun _ _ _ _ _ _ _ _ k => (by cases k)
    | assignTask p n m l => exact fun _ _ _ _ _ _ _ k => (by cases k)
    | resumeTask p n b l => exact fun _ _ _ _ _ _ _ k => (by cases k)
    | setProjectState p st => exact fun _ _ _ _ _ _ _ _ _ k => (by cases k)
    | relaunchStalled p n w m q i => exact fun _ _ _ _ _ _ k => (by cases k)
    | goOnInWindow p n => exact fun _ _ _ _ _ _ k => (by cases k)
    | _ => trivial
  | _ => trivial

theorem Removed.hopeful {project : Nat} {b b' : Board} (h : Removed project b b')
    (hopes : Hopeful b) : Hopeful b' := by
  intro x hx open_ n hn edge
  exact hopes x (h.mem_cards.mp hx).1 open_ n (h.mem_cards.mp hn).1 ((h.needs _).mp edge).1

theorem rule_hopeful : Rule .hopeful fun _ b => Hopeful b :=
  ⟨fun e hw k => e.hopeful (fun _ _ _ _ h => h) hw k, fun _ k => k, fun h _ k => h.hopeful k⟩

theorem Run.hopeful (r : Run (fun s c => c.SendsBackHope s) s) : Hopeful s.board := by
  refine (Run.kept (L := .hopeful) Licence.fair_hopeful rule_hopeful (fun s c _ h => ?_) ?_ r).2
  · exact Call.SendsBackHope.granted (s := s.at_ c.clock) h
  · intro c hc
    cases hc

/-! ## 3. All of them, or none -/

/-- Tasks may be off the board since, and none is on it again. -/
structure Thinned (s s' : Ledger) : Prop where
  back : ∀ t' ∈ s'.tasks.rows, ∃ t ∈ s.tasks.rows, t.id = t'.id ∧ t.project = t'.project ∧
    t.number = t'.number ∧ (t'.deletedAt = none → t.deletedAt = none)
  forth : ∀ t ∈ s.tasks.rows, t.deletedAt.isSome = true →
    ∃ t' ∈ s'.tasks.rows, t'.id = t.id ∧ t'.deletedAt.isSome = true

theorem Thinned.refl (s : Ledger) : Thinned s s :=
  ⟨fun t ht => ⟨t, ht, rfl, rfl, rfl, id⟩, fun t ht off => ⟨t, ht, rfl, off⟩⟩

/-- A task of the project by its number was on the board, and is off it. -/
def TakenOff (s s' : Ledger) (project number : Nat) : Prop :=
  ∃ t ∈ s.tasks.rows, t.project = project ∧ t.number = number ∧ t.deletedAt = none ∧
    ∃ t' ∈ s'.tasks.rows, t'.id = t.id ∧ t'.deletedAt.isSome = true

theorem TakenOff.later {s1 : Ledger} {project number : Nat} (h : TakenOff s s1 project number)
    (k : Thinned s1 s') : TakenOff s s' project number := by
  obtain ⟨t, ht, hp, hn, on, t1, ht1, e, off⟩ := h
  obtain ⟨t', ht', e', off'⟩ := k.forth t1 ht1 off
  exact ⟨t, ht, hp, hn, on, t', ht', e'.trans e, off'⟩

theorem TakenOff.earlier {s1 : Ledger} {project number : Nat} (k : Thinned s s1)
    (h : TakenOff s1 s' project number) : TakenOff s s' project number := by
  obtain ⟨t1, ht1, hp, hn, on, t', ht', e', off'⟩ := h
  obtain ⟨t, ht, e, ep, en, on'⟩ := k.back t1 ht1
  exact ⟨t, ht, ep.trans hp, en.trans hn, on' on, t', ht', e'.trans e.symm, off'⟩

theorem Thinned.trans {s1 : Ledger} (h : Thinned s s1) (k : Thinned s1 s') : Thinned s s' := by
  refine ⟨fun t' ht' => ?_, fun t ht off => ?_⟩
  · obtain ⟨t1, ht1, e1, p1, n1, on1⟩ := k.back t' ht'
    obtain ⟨t, ht, e, p, n, on⟩ := h.back t1 ht1
    exact ⟨t, ht, e.trans e1, p.trans p1, n.trans n1, fun h => on (on1 h)⟩
  · obtain ⟨t1, ht1, e1, off1⟩ := h.forth t ht off
    obtain ⟨t', ht', e', off'⟩ := k.forth t1 ht1 off1
    exact ⟨t', ht', e'.trans e1, off'⟩

theorem deleteTask_takesOff {project number : Nat} {u : Unit}
    (h : (deleteTask project number).run s = .ok (u, s')) :
    Thinned s s' ∧ TakenOff s s' project number := by
  obtain ⟨t, s1, h1, h⟩ := run_bind_ok.mp h
  obtain ⟨rfl, ht, hp, hn⟩ := taskRow_ok h1
  obtain ⟨u2, s2, h2, h⟩ := run_bind_ok.mp h
  obtain ⟨rfl, on⟩ := requireOnBoard_ok h2
  obtain ⟨u3, s3, h3, h⟩ := run_bind_ok.mp h
  obtain ⟨-, rfl⟩ := run_require_ok.mp h3
  obtain ⟨s0, s4, h4, h⟩ := run_bind_ok.mp h
  obtain ⟨rfl, rfl⟩ := run_state_ok.mp h4
  obtain ⟨u5, s5, h5, h⟩ := run_bind_ok.mp h
  obtain ⟨-, rfl⟩ := run_require_ok.mp h5
  obtain ⟨at_, s6, h6, h⟩ := run_bind_ok.mp h
  obtain rfl := now_ok h6
  obtain ⟨u7, s7, h7, h8⟩ := run_bind_ok.mp h
  obtain ⟨rfl, -⟩ := updateTask_ok h7
  have tasks : s'.tasks = s.tasks.alterAt t.id fun r => { r with deletedAt := some at_ } :=
    (@log_ok _ _ _ _ (.other "task.deleted" none) ⟨rfl, rfl⟩ h8).1
  have mem {x : Task} : x ∈ s'.tasks.rows ↔ ∃ r ∈ s.tasks.rows,
      Table.altered (fun r => Keyed.key r == t.id) (fun r => { r with deletedAt := some at_ }) r = x := by
    rw [tasks]
    exact Table.mem_alter
  refine ⟨⟨fun x hx => ?_, fun r hr off => ?_⟩, t, ht, hp, hn, on, _, mem.mpr ⟨t, ht, rfl⟩,
    Table.key_altered _ _ t, ?_⟩
  · obtain ⟨r, hr, rfl⟩ := mem.mp hx
    refine ⟨r, hr, (Table.key_altered _ _ r).symm, ?_⟩
    unfold Table.altered
    split
    · exact ⟨rfl, rfl, fun k => (by cases k)⟩
    · exact ⟨rfl, rfl, id⟩
  · refine ⟨_, mem.mpr ⟨r, hr, rfl⟩, Table.key_altered _ _ r, ?_⟩
    unfold Table.altered
    split
    · rfl
    · exact off
  · unfold Table.altered
    rw [if_pos (by exact beq_self_eq_true t.id)]
    rfl

/-- A loop of deletions takes off each of its tasks. -/
theorem deleteEach_takesOff {project : Nat} {ns : List Nat} {u : Unit}
    (h : (ns.forM (deleteTask project)).run s = .ok (u, s')) :
    Thinned s s' ∧ ∀ n ∈ ns, TakenOff s s' project n := by
  induction ns generalizing s with
  | nil =>
    obtain ⟨-, rfl⟩ := run_pure_ok.mp h
    exact ⟨.refl _, fun n hn => (by cases hn)⟩
  | cons m ns ih =>
    obtain ⟨u1, s1, h1, h2⟩ := run_bind_ok.mp h
    obtain ⟨thin, first⟩ := deleteTask_takesOff h1
    obtain ⟨thin', rest⟩ := ih h2
    refine ⟨thin.trans thin', fun n hn => ?_⟩
    rcases List.mem_cons.mp hn with rfl | hn
    · exact first.later thin'
    · exact (rest n hn).earlier thin

/-- A deletion takes all of its tasks off the board, or changes nothing. -/
theorem deletion_whole (s : Ledger) (project : Nat) (numbers : List Nat) (clock : List Time) :
    (⟨.board (.deleteTasks project numbers), clock⟩ : Call).step s = s ∨
      ∀ n ∈ numbers, TakenOff s ((⟨.board (.deleteTasks project numbers), clock⟩ : Call).step s)
        project n := by
  unfold Call.step
  cases h : Op.attempt (.board (.deleteTasks project numbers)) (s.at_ clock) with
  | error e => exact .inl rfl
  | ok s' =>
    refine .inr fun n hn => ?_
    obtain ⟨u, h⟩ := snd_ok h
    obtain ⟨r, h⟩ := run_silent.mp h
    obtain ⟨u1, s1, h1, h2⟩ := run_bind_ok.mp h
    obtain rfl := mapM_taskRow_ok h2
    exact (deleteEach_takesOff h1).2 n (List.mem_eraseDups.mpr hn)

/-- **A deletion strands nobody** in a run that sends back no task that needs one gone: no task that
    is not finished needs a task that failed and was deleted; and a deletion takes all of its tasks
    off the board, or none. -/
theorem deletion_strands_nobody (r : Run (fun s c => c.SendsBackHope s) s) :
    s.StrandsNone TaskState.unfinished ∧ ∀ (project : Nat) (numbers : List Nat) (clock : List Time),
      (⟨.board (.deleteTasks project numbers), clock⟩ : Call).step s = s ∨
        ∀ n ∈ numbers,
          TakenOff s ((⟨.board (.deleteTasks project numbers), clock⟩ : Call).step s) project n := by
  refine ⟨fun t ht open_ needs => ?_, deletion_whole s⟩
  obtain ⟨n, hn, edge, gone⟩ := needsGone_iff.mp needs
  refine r.hopeful t.card (card_mem ht) ?_ n hn edge gone
  rw [Bool.eq_false_iff]
  intro finished
  rw [TaskState.unfinished, phase_finished_iff.mp finished] at open_
  cases open_

end Runs

/-! ### A waiter sent back -/

def failedTask (number : Nat) : Call := ⟨.board (.failTask 1 number "no way on"), []⟩
def deletedTasks (numbers : List Nat) : Call := ⟨.board (.deleteTasks 1 numbers), []⟩
def sentBackTask (number : Nat) : Call := ⟨.board (.reopenTask 1 number "chief" "once more"), []⟩
def takenBackTask (number : Nat) : Call := ⟨.board (.releaseTask 1 number "its window is out"), []⟩

/-- T-2 follows T-1 in its window and fails as T-1 did; T-1 is deleted, and T-2 sent back. -/
def followerBack : List Call :=
  [opening, taskFor "first" [], assigned 1, following 1 "second", failedTask 1, failedTask 2, deletedTasks [1],
    sentBackTask 2]

/-- T-2 needs T-1, and comes to a window before it; sent back after T-1 is deleted, it is taken
    back to the board. -/
def waiterBack : List Call :=
  [opening, taskFor "first" [], failedTask 1, taskFor "second" [1], assigned 2, failedTask 2, deletedTasks [1],
    sentBackTask 2, takenBackTask 2]

/-- A task sent back waits for one that is gone: on the board, and in its window too where every
    task is assigned with its needs met. -/
theorem reopened_for_nothing : (¬ ∀ s, Reachable s → s.StrandsNone TaskState.onBoard) ∧
    ¬ ∀ s, Run (fun s c => c.AssignsMet s) s → s.StrandsNone TaskState.unfinished := by
  refine ⟨fun h => ?_, fun h => ?_⟩
  · have k := h _ (reachable_after waiterBack)
    revert k
    decide +kernel
  · have k := h (Ledger.empty.after followerBack) (Run.empty.after (by decide +kernel))
    revert k
    decide +kernel

/-- T-2, which needs T-1, is called off before T-1 is deleted. -/
def calledOff : List Call :=
  [opening, taskFor "first" [], taskFor "second" [1], failedTask 1, cancelled 2, deletedTasks [1]]

theorem deletion_strands_nobody_calledOff :
    (Ledger.empty.after calledOff).StrandsNone TaskState.unfinished :=
  (deletion_strands_nobody (Run.empty.after (by decide +kernel))).1

end ConsensFlow
