/-
  File:      ConsensFlow/Edits/Projects.lean
  Subject:   THE EDITS OF A PROJECT: opened, renamed, closed and resumed; and what is left of the
             board when one is deleted.

  * `createProject_edits` -- a project comes with its human and its chief in one edit of the staff,
    so no board shows a project without a chief;
  * **`setProjectState_edits`** -- the human's Resume sends on what the Close paused;
  * `Removed` -- the board without a project: the one thing that is no edit. Each rule of the board
    holds of what is left (`Removed.wired`, …), for no card needs a card of another project.
-/
import ConsensFlow.Edits.Members

namespace ConsensFlow

open Lib Txn

/-! ## 1. Opened -/

section Projects

variable {L : Licence} {s s' : Ledger} {u : Unit} {d : Debt}

/-- A project opens with its human and its chief. -/
theorem Restaffed.open (s : Ledger) (p : Project) (human chief : Participant)
    (hh : human.memberId = none) (hc : chief.memberId = none) (hr : chief.role = .chief)
    (hl : chief.leftAt = none) (hp : chief.project = s.projects.next) :
    Restaffed s.board ({ s with
      projects := s.projects.insert p
      participants := (s.participants.insert human).insert chief } : Ledger).board := by
  have old : ∀ {q}, q ∈ s.participants.rows →
      q ∈ ((s.participants.insert human).insert chief).rows :=
    fun hq => Table.mem_insert.mpr (Or.inl (Table.mem_insert.mpr (Or.inl hq)))
  refine ⟨rfl, rfl, rfl, rfl, rfl, fun q hq => ⟨q, old hq, rfl, rfl, rfl⟩, fun q' hq' => ?_,
    fun q hq => ⟨q, Table.mem_insert.mpr (Or.inl hq), rfl⟩, fun h q hq => ?_⟩
  · rcases Table.mem_insert.mp hq' with hq' | rfl
    · rcases Table.mem_insert.mp hq' with hq | rfl
      · exact Or.inl ⟨q', hq, rfl, rfl, fun _ => rfl, Or.inl⟩
      · refine Or.inr ⟨fun q hq => Nat.ne_of_lt (s.participants.below q hq), fun m hm => ?_⟩
        rw [show (Keyed.rekey s.participants.next human).memberId = none from hh] at hm
        cases hm
    · refine Or.inr ⟨fun q hq => ?_, fun m hm => ?_⟩
      · exact Nat.ne_of_lt (Nat.lt_succ_of_lt (s.participants.below q hq))
      · rw [show (Keyed.rekey (s.participants.insert human).next chief).memberId = none from hc] at hm
        cases hm
  · rcases Table.mem_insert.mp hq with hq | rfl
    · obtain ⟨c, hcm, e⟩ := h q hq
      exact ⟨c, old hcm, e⟩
    · refine ⟨_, Table.mem_insert.mpr (Or.inr rfl), hp, hr, ?_⟩
      rw [show (Keyed.rekey (s.participants.insert human).next chief).leftAt = none from hl]
      rfl

theorem insertProject_ok {p : Project} {id : Nat}
    (h : (insertProject p).run s = .ok (id, s')) :
    id = s.projects.next ∧ s' = { s with projects := s.projects.insert p } := by
  simp only [insertProject, writeBoard, run_bind_ok, run_state_ok, run_write_ok,
    run_pure_ok] at h
  obtain ⟨s0, s1, ⟨rfl, rfl⟩, u, s2, rfl, rfl, rfl⟩ := h
  exact ⟨rfl, rfl⟩

theorem check_ok {R : Ledger → Ledger → Prop} [Frame R] {m : NewMember} {r : List Role}
    (h : (m.check : LedgerTxn R (List Role)).run s = .ok (r, s')) : s = s' := by
  obtain ⟨roles, s1, h1, h⟩ := run_bind_ok.mp h
  obtain rfl := requireRoles_ok h1
  obtain ⟨u2, s2, h2, h⟩ := run_bind_ok.mp h
  obtain ⟨-, rfl⟩ := run_require_ok.mp h2
  exact (run_pure_ok.mp h).2

theorem addStaff_edits {project : Nat} {ms : List (NewMember × String)}
    (h : (ms.forM (addStaff project)).run s = .ok (u, s')) : Edits L d s.board d s'.board := by
  refine run_forM_ok (P := fun a b : Ledger => Edits L d a.board d b.board) (fun _ => .refl _ _)
    (fun {a b c} (h : Edits L d a.board d b.board) k => h.trans k) (fun m _ a b hk => ?_) h
  obtain ⟨roles, s1, h1, hk⟩ := run_bind_ok.mp hk
  obtain rfl := check_ok h1
  obtain ⟨p, s2, h2, hk⟩ := run_bind_ok.mp hk
  obtain ⟨-, rfl⟩ := run_pure_ok.mp hk
  exact addParticipant_edits h2

/-- **A project opens.** -/
theorem createProject_edits {request : NewProject} {r : Project}
    (h : (createProject request).run s = .ok (r, s')) : s.Edited L s' := by
  obtain ⟨u1, s1, h1, h⟩ := run_bind_ok.mp h
  obtain rfl := requireText_ok h1
  obtain ⟨u2, s2, h2, h⟩ := run_bind_ok.mp h
  obtain rfl := requireText_ok h2
  obtain ⟨u3, s3, h3, h⟩ := run_bind_ok.mp h
  obtain rfl : s = s3 := by
    refine run_forM_ok (P := fun a b : Ledger => a = b) (fun _ => rfl) (fun h k => h.trans k)
      (fun m _ a b hk => ?_) h3
    obtain ⟨roles, s1, h1, hk⟩ := run_bind_ok.mp hk
    obtain rfl := check_ok h1
    exact (run_pure_ok.mp hk).2
  rw [run_inWrite] at h
  obtain ⟨t, s4, h4, h⟩ := run_bind_ok.mp h
  obtain rfl := now_ok h4
  obtain ⟨id, s5, h5, h⟩ := run_bind_ok.mp h
  obtain ⟨eid, rfl⟩ := insertProject_ok h5
  obtain ⟨p6, s6, h6, h⟩ := run_bind_ok.mp h
  obtain ⟨human, -, -, hh, -, -, b6⟩ := addParticipant_ok h6
  obtain ⟨p7, s7, h7, h⟩ := run_bind_ok.mp h
  obtain ⟨chief, hp, hr, hc, hl, -, b7⟩ := addParticipant_ok h7
  obtain ⟨u8, s8, h8, h⟩ := run_bind_ok.mp h
  obtain ⟨u9, s9, h9, h⟩ := run_bind_ok.mp h
  obtain ⟨rfl, -⟩ := projectRow_ok h
  have e7 : Edits L .none s.board .none s7.board := by
    have e : s7.board = { s6.board with
        participants := s6.board.participants.insert chief } := b7
    rw [e, b6]
    exact .staff (Restaffed.open s _ human chief hh hc hr hl (hp.trans eid))
  exact ⟨.none, Debt.paid_none, (e7.trans (addStaff_edits h8)).desk (board_of_lift h9)⟩

/-! ## 2. Written in place -/

theorem updateProject_edits {id : Nat} {f : Project → Project} {hg : ∀ q, (f q).gate = q.gate}
    (h : (updateProject id f hg).run s = .ok (u, s')) : Edits L d s.board d s'.board := by
  obtain rfl := updateProject_ok h
  exact .staff (Restaffed.reproject s _ _)

/-- A write of a project at the time, and a line of the log. -/
theorem stampProject_edits {project : Nat} {f : Time → Project → Project}
    {hg : ∀ t q, (f t q).gate = q.gate} {what : What} {hs : what.Quiet}
    (h : (do
      let t ← now
      updateProject project (f t) (hg t)
      log project what hs : LedgerM Unit).run s = .ok (u, s')) : Edits L d s.board d s'.board := by
  obtain ⟨t, s1, h1, h⟩ := run_bind_ok.mp h
  have b1 : s1.board = s.board := board_of_lift h1
  obtain ⟨u2, s2, h2, h⟩ := run_bind_ok.mp h
  have e2 : Edits L d s1.board d s2.board := updateProject_edits h2
  rw [b1] at e2
  exact e2.desk (board_of_lift h)

theorem renameProject_edits {project : Nat} {name : String} {r : Project}
    (h : (renameProject project name).run s = .ok (r, s')) : s.Edited L s' := by
  obtain ⟨u1, s1, h1, h⟩ := run_bind_ok.mp h
  obtain rfl := requireText_ok h1
  obtain ⟨p, s2, h2, h⟩ := run_bind_ok.mp h
  obtain ⟨rfl, -⟩ := projectRow_ok h2
  obtain ⟨u3, s3, h3, h⟩ := run_bind_ok.mp h
  obtain ⟨rfl, -⟩ := projectRow_ok h
  refine ⟨.none, Debt.paid_none, ?_⟩
  rcases run_doWhen_ok.mp h3 with ⟨-, h3⟩ | ⟨-, rfl⟩
  · exact stampProject_edits h3
  · exact .refl _ _

theorem endMeeting_edits {project : Nat} (h : (endMeeting project).run s = .ok (u, s')) :
    Edits L d s.board d s'.board := by
  obtain ⟨s0, s1, h1, h⟩ := run_bind_ok.mp h
  obtain ⟨rfl, rfl⟩ := run_state_ok.mp h1
  rcases run_doWhen_ok.mp h with ⟨-, h⟩ | ⟨-, rfl⟩
  · exact stampProject_edits h
  · exact .refl _ _

theorem setMeeting_edits {project : Nat} {on : Bool} {r : Project}
    (h : (setMeeting project on).run s = .ok (r, s')) : s.Edited L s' := by
  obtain ⟨p, s1, h1, h⟩ := run_bind_ok.mp h
  obtain ⟨rfl, -⟩ := projectRow_ok h1
  refine ⟨.none, Debt.paid_none, ?_⟩
  split at h
  · obtain ⟨u2, s2, h2, h⟩ := run_bind_ok.mp h
    obtain ⟨-, rfl⟩ := run_require_ok.mp h2
    obtain ⟨u3, s3, h3, h⟩ := run_bind_ok.mp h
    obtain ⟨rfl, -⟩ := projectRow_ok h
    rcases run_doWhen_ok.mp h3 with ⟨-, h3⟩ | ⟨-, rfl⟩
    · exact stampProject_edits h3
    · exact .refl _ _
  · obtain ⟨u2, s2, h2, h⟩ := run_bind_ok.mp h
    obtain ⟨rfl, -⟩ := projectRow_ok h
    exact endMeeting_edits h2

theorem switchChief_edits {project : Nat} {c : NewChief} {r : Project}
    (h : (switchChief project c).run s = .ok (r, s')) : s.Edited L s' := by
  obtain ⟨p, s1, h1, h⟩ := run_bind_ok.mp h
  obtain ⟨rfl, -⟩ := participantByHandle_ok h1
  obtain ⟨u2, s2, h2, h⟩ := run_bind_ok.mp h
  have e2 : Edits L .none s.board .none s2.board :=
    updateParticipants_edits h2 fun _ => ⟨rfl, rfl, rfl, rfl⟩
  obtain ⟨t, s3, h3, h⟩ := run_bind_ok.mp h
  have b3 : s3.board = s2.board := board_of_lift h3
  obtain ⟨u4, s4, h4, h⟩ := run_bind_ok.mp h
  have b4 : s4.board = s3.board := board_of_lift h4
  obtain ⟨u5, s5, h5, h⟩ := run_bind_ok.mp h
  have b5 : s5.board = s4.board := board_of_lift h5
  obtain ⟨rfl, -⟩ := projectRow_ok h
  exact ⟨.none, Debt.paid_none, e2.desk (b5.trans (b4.trans b3))⟩

theorem suspendOne_edits {project : Nat} (h : (suspendOne project).run s = .ok (u, s')) :
    Edits L d s.board d s'.board := by
  obtain ⟨t, s1, h1, h⟩ := run_bind_ok.mp h
  have b1 : s1.board = s.board := board_of_lift h1
  obtain ⟨u2, s2, h2, h⟩ := run_bind_ok.mp h
  have e2 : Edits L d s1.board d s2.board := updateProject_edits h2
  rw [b1] at e2
  obtain ⟨u3, s3, h3, h⟩ := run_bind_ok.mp h
  have b3 : s3.board = s2.board := board_of_lift h3
  exact e2.desk ((board_of_lift h).trans b3)

theorem suspendForRestart_edits {r : List Project} (h : suspendForRestart.run s = .ok (r, s')) :
    s.Edited L s' := by
  have loop : ∀ {f : Nat → LedgerM Unit} {ps : List Nat} {a b : Ledger} {u : Unit},
      (∀ p a b, (f p).run a = .ok ((), b) → Edits L .none a.board .none b.board) →
      (ps.forM f).run a = .ok (u, b) → Edits L .none a.board .none b.board := by
    intro f ps a b u hf hk
    exact run_forM_ok (P := fun a b : Ledger => Edits L .none a.board .none b.board)
      (fun _ => .refl _ _)
      (fun {a b c} (h : Edits L .none a.board .none b.board) k => h.trans k)
      (fun p _ a b => hf p a b) hk
  rw [suspendForRestart, run_inWrite] at h
  obtain ⟨s0, s1, h1, h⟩ := run_bind_ok.mp h
  obtain ⟨rfl, rfl⟩ := run_state_ok.mp h1
  obtain ⟨u2, s2, h2, h⟩ := run_bind_ok.mp h
  have e2 := loop (fun _ _ _ => suspendOne_edits) h2
  obtain ⟨s0, s3, h3, h⟩ := run_bind_ok.mp h
  obtain ⟨rfl, rfl⟩ := run_state_ok.mp h3
  obtain ⟨u4, s4, h4, h⟩ := run_bind_ok.mp h
  have e4 := loop (fun _ _ _ => endMeeting_edits) h4
  obtain ⟨s0, s5, h5, h⟩ := run_bind_ok.mp h
  obtain ⟨rfl, rfl⟩ := run_state_ok.mp h5
  obtain ⟨-, rfl⟩ := run_pure_ok.mp h
  exact ⟨.none, Debt.paid_none, e2.trans e4⟩

/-! ## 3. Closed and resumed -/

theorem Licence.Resumes.restaff {b b' : Board} {project : Nat} (h : L.Resumes b project)
    (hr : Restaffed b b') : L.Resumes b' project := by
  intro c hc hp hu x w hn ha
  refine h c (hr.cards ▸ hc) hp hu x w (hn.trans hr.needs) fun n hx => ha n ?_
  obtain ⟨y, hy, e⟩ := hx
  exact ⟨y, hr.cards ▸ hy, e⟩

theorem afterProjectState_edits {project : Nat} {state : ProjectState}
    (h : (afterProjectState project state).run s = .ok (u, s')) (hw : Wired s.board)
    (hl : state = .opened → L.Resumes s.board project) (hu : d.unmet = ∅) :
    ∃ d', Edits L d s.board d' s'.board ∧ d.Still d' := by
  cases state with
  | opened =>
    obtain ⟨u1, s1, h1, h⟩ := run_bind_ok.mp h
    have b1 : s1.board = s.board := board_of_lift h1
    have k := resumeWithProject_edits (L := L) (d := d) h (b1 ▸ hw) (b1 ▸ hl rfl) hu
    rw [b1] at k
    exact k
  | suspended =>
    obtain ⟨u1, s1, h1, h⟩ := run_bind_ok.mp h
    have b1 : s1.board = s.board := board_of_lift h1
    have e : Edits L d s1.board d s'.board := endMeeting_edits h
    rw [b1] at e
    exact ⟨d, e, .refl d⟩

/-- **A project is closed, or resumed with what its Close paused.** -/
theorem setProjectState_edits {project : Nat} {state : ProjectState} {r : Project}
    (h : (setProjectState project state).run s = .ok (r, s')) (hw : Wired s.board)
    (hl : state = .opened → L.Resumes s.board project) : s.Edited L s' := by
  obtain ⟨p, s1, h1, h⟩ := run_bind_ok.mp h
  obtain ⟨rfl, -⟩ := projectRow_ok h1
  obtain ⟨t, s2, h2, h⟩ := run_bind_ok.mp h
  obtain rfl := now_ok h2
  obtain ⟨u3, s3, h3, h⟩ := run_bind_ok.mp h
  obtain rfl := updateProject_ok h3
  obtain ⟨u4, s4, h4, h⟩ := run_bind_ok.mp h
  obtain ⟨rfl, -⟩ := projectRow_ok h
  have hre := Restaffed.reproject s (fun q => Keyed.key q == project)
    fun q => { q with state, updatedAt := t }
  have e3 : Edits L .none s.board .none _ := .staff hre
  rcases run_doWhen_ok.mp h4 with ⟨-, h4⟩ | ⟨-, rfl⟩
  · obtain ⟨u5, s5, h5, h4⟩ := run_bind_ok.mp h4
    have b5 := board_of_lift h5
    have hw5 : Wired s5.board := by
      rw [b5]
      exact hw.restaff hre
    have hl5 : state = .opened → L.Resumes s5.board project := by
      intro e
      rw [b5]
      exact (hl e).restaff hre
    obtain ⟨d', e6, k6⟩ := afterProjectState_edits (d := .none) h4 hw5 hl5 rfl
    exact .of_still ⟨d', (e3.desk b5).trans e6, k6⟩
  · exact ⟨.none, Debt.paid_none, e3⟩

/-- The human's gate is no edit of the plan. -/
theorem setGate_edits {project : Nat} {gate : Bool} {r : Project}
    (h : (setGate project gate).run s = .ok (r, s')) : s.Edited L s' := by
  obtain ⟨p, s1, h1, h⟩ := run_bind_ok.mp h
  obtain ⟨rfl, -⟩ := projectRow_ok h1
  obtain ⟨t, s2, h2, h⟩ := run_bind_ok.mp h
  have b2 : s2.board = s.board := board_of_desk (m := now) h2
  obtain ⟨u3, s3, h3, h⟩ := run_bind_ok.mp h
  obtain rfl := run_write_ok.mp h3
  obtain ⟨u4, s4, h4, h⟩ := run_bind_ok.mp h
  obtain ⟨rfl, -⟩ := projectRow_ok h
  have b4 := doWhen_board (m := log project (.other "project.gate" none)) h4
  have e3 : Edits L .none s2.board .none _ := .staff (Restaffed.reproject s2 (fun q =>
    Keyed.key q == project) fun q => { q with gate, updatedAt := t })
  have e4 := e3.desk b4
  rw [b2] at e4
  exact ⟨.none, Debt.paid_none, e4⟩

end Projects

/-! ## 4. Deleted -/

/-- A board without a project: its cards, its staff and its part of the plan are gone. -/
structure Removed (project : Nat) (b b' : Board) : Prop where
  cards : b'.cards = b.cards.filter fun c => c.project != project
  participants : b'.participants.rows = b.participants.rows.filter fun p => p.project != project
  projects : b'.projects.rows = b.projects.rows.filter fun p => p.id != project
  needs : ∀ e, e ∈ b'.needs ↔ e ∈ b.needs ∧ ∀ c ∈ b.cards, c.project = project →
    c.id ≠ e.1 ∧ c.id ≠ e.2
  briefs : ∀ e ∈ b'.briefs, e ∈ b.briefs ∧ (∀ c ∈ b.cards, c.project = project → c.id ≠ e.1) ∧
    ∀ p ∈ b.participants.rows, p.project = project → p.id ≠ e.2
  strandings : b'.strandings = b.strandings.filter fun e => e.1 != project
  asked : b'.asked = b.asked.filter fun e => e.1 != project

section Removed

variable {s s' : Ledger} {project : Nat} {b b' : Board}

theorem isOf_iff {p : Participant} (hp : p ∈ s.participants.rows) :
    s.isOf project p.id = true ↔ p.project = project := by
  unfold Ledger.isOf
  rw [show s.participants.get? p.id = some p from Table.get?_key hp]
  simp

theorem taskIsOf_iff {t : Task} (ht : t ∈ s.tasks.rows) :
    s.taskIsOf project t.id = true ↔ t.project = project := by
  unfold Ledger.taskIsOf
  rw [show s.tasks.get? t.id = some t from Table.get?_key ht]
  simp

theorem taskIsOf_iff_card {i : Nat} : s.taskIsOf project i = false ↔
    ∀ c ∈ s.board.cards, c.project = project → c.id ≠ i := by
  rw [← Bool.not_eq_true]
  constructor
  · rintro h c hc hp rfl
    obtain ⟨t, ht, rfl⟩ := mem_cards.mp hc
    exact h ((taskIsOf_iff ht).mpr hp)
  · intro h k
    simp only [Ledger.taskIsOf, Option.any_eq_true] at k
    obtain ⟨t, ht, hk⟩ := k
    obtain ⟨hm, e⟩ := Table.get?_eq_some.mp ht
    exact h t.card (card_mem hm) (beq_iff_eq.mp hk) e

/-- What the log says of the other projects is said still. -/
theorem said_filter {es : List Event} {project : Nat} (f : Event → Option Nat) :
    (es.filter fun e => e.project != project).filterMap (fun e => (f e).map fun n => (e.project, n)) =
      (es.filterMap fun e => (f e).map fun n => (e.project, n)).filter fun e => e.1 != project := by
  rw [List.filter_filterMap, List.filterMap_filter]
  refine List.filterMap_congr fun e _ => ?_
  cases f e with
  | none => simp
  | some n => cases hp : e.project != project <;> simp [Option.filter, hp]

/-- **A project deleted is removed from the board.** -/
theorem deleteProject_removed {r : Project}
    (h : (deleteProject project).run s = .ok (r, s')) : Removed project s.board s'.board := by
  obtain ⟨p, s1, h1, h⟩ := run_bind_ok.mp h
  obtain ⟨rfl, -⟩ := projectRow_ok h1
  obtain ⟨u2, s2, h2, h⟩ := run_bind_ok.mp h
  obtain ⟨-, rfl⟩ := run_require_ok.mp h2
  obtain ⟨u3, s3, h3, h⟩ := run_bind_ok.mp h
  obtain rfl := run_write_ok.mp h3
  obtain ⟨-, rfl⟩ := run_pure_ok.mp h
  refine ⟨?_, rfl, rfl, fun e => ?_, fun e he => ?_, ?_, ?_⟩
  · show ((s.tasks.rows.filter _).map Task.card) = (s.tasks.rows.map Task.card).filter _
    rw [List.filter_map]
    rfl
  · show e ∈ s.needs.filter _ ↔ e ∈ s.needs ∧ _
    rw [List.mem_filter, Bool.and_eq_true, Bool.not_eq_true', Bool.not_eq_true',
      taskIsOf_iff_card, taskIsOf_iff_card]
    exact and_congr_right fun _ =>
      ⟨fun k c hc hp => ⟨k.1 c hc hp, k.2 c hc hp⟩,
        fun k => ⟨fun c hc hp => (k c hc hp).1, fun c hc hp => (k c hc hp).2⟩⟩
  · obtain ⟨m, hm, hb⟩ := List.mem_filterMap.mp he
    obtain ⟨hm, hk⟩ := List.mem_filter.mp hm
    simp only [Bool.and_eq_true, Bool.not_eq_true'] at hk
    obtain ⟨⟨⟨-, hr⟩, -⟩, ht⟩ := hk
    unfold Message.brief at hb
    split at hb
    · obtain ⟨t, et, rfl⟩ := Option.map_eq_some_iff.mp hb
      rw [et, Option.any_some] at ht
      refine ⟨List.mem_filterMap.mpr ⟨m, hm, ?_⟩, taskIsOf_iff_card.mp ht, ?_⟩
      · next hkind => rw [Message.brief, if_pos hkind, et, Option.map_some]
      · rintro q hq hp e
        rw [show m.recipient = q.id from e.symm, (isOf_iff hq).mpr hp] at hr
        cases hr
    · cases hb
  · exact said_filter _
  · exact said_filter _

end Removed

end ConsensFlow
