/-
  File:      ConsensFlow/Edits/Staff.lean
  Subject:   THE EDITS OF THE STAFF: a participant comes, is changed, leaves and comes back, and
             the plan stays as it is.

  * `Restaffed.insert`, `Restaffed.alter`, `Restaffed.reproject` -- the statements on participants and
    projects;
  * `startSession_ok`, `bringBack_ok`, `requireFree_ok`, … -- what the calls of a session do and
    find;
  * `staffed` -- each call of the staff that leaves no window with work is one edit.
-/
import ConsensFlow.Edits.Releasing

namespace ConsensFlow

open Lib Txn

/-! ## 1. Statements -/

section Statements

variable {s s' : Ledger} {u : Unit}

/-- What a statement on participants keeps of each. -/
structure Stays (b : Board) (q q' : Participant) : Prop where
  project : q'.project = q.project
  memberId : q'.memberId = q.memberId
  role : q.memberId.isSome = true → q'.role = q.role
  chief : q.role = .chief → q'.role = .chief
  left : q'.leftAt.isSome = true → q.leftAt.isSome = true ∨
    (q.role ≠ .chief ∧ ∀ c ∈ b.cards, c.phase = .opened → c.assignee ≠ some q.id)

theorem Stays.refl (b : Board) (q : Participant) : Stays b q q :=
  ⟨rfl, rfl, fun _ => rfl, fun h => h, Or.inl⟩

theorem Restaffed.alter (s : Ledger) (p : Participant → Bool) (f : Participant → Participant)
    (h : ∀ q ∈ s.participants.rows, p q = true → Stays s.board q (f q)) :
    Restaffed s.board ({ s with participants := s.participants.alter p f } : Ledger).board := by
  have each : ∀ q ∈ s.participants.rows, Stays s.board q (Table.altered p f q) := by
    intro q hq
    unfold Table.altered
    split
    · next hp =>
      have k := h q hq hp
      exact ⟨k.project, k.memberId, k.role, k.chief, k.left⟩
    · exact Stays.refl _ q
  have key : ∀ q, (Table.altered p f q).id = q.id := Table.key_altered p f
  refine ⟨rfl, rfl, rfl, rfl, rfl, fun q hq => ?_, fun q' hq' => ?_, fun q hq => ⟨q, hq, rfl⟩,
    fun hc q hq => ?_⟩
  · have k := each q hq
    exact ⟨_, Table.mem_alter.mpr ⟨q, hq, rfl⟩, key q, k.project, k.memberId⟩
  · obtain ⟨q, hq, rfl⟩ := Table.mem_alter.mp hq'
    have k := each q hq
    refine Or.inl ⟨q, hq, (key q).symm, k.memberId.symm, fun hm => ?_, fun hl => ?_⟩
    · exact k.role (k.memberId ▸ hm)
    · exact (k.left hl).imp id fun h => h.2
  · obtain ⟨c, hcm, e, hr, hl⟩ := hc q hq
    have k := each c hcm
    refine ⟨_, Table.mem_alter.mpr ⟨c, hcm, rfl⟩, k.project.trans e, k.chief hr, ?_⟩
    cases hs : (Table.altered p f c).leftAt with
    | none => rfl
    | some t =>
      rcases k.left (by rw [hs]; rfl) with hl' | ⟨hr', -⟩
      · rw [Option.isNone_iff_eq_none.mp hl] at hl'
        cases hl'
      · exact absurd hr hr'

theorem Restaffed.insert (s : Ledger) (p : Participant)
    (h : ∀ m, p.memberId = some m → p.role ∈ Role.memberRoles ∧ s.board.Seated m p.project) :
    Restaffed s.board ({ s with participants := s.participants.insert p } : Ledger).board := by
  refine ⟨rfl, rfl, rfl, rfl, rfl, fun q hq => ?_, fun q' hq' => ?_, fun q hq => ⟨q, hq, rfl⟩,
    fun hc q hq => ?_⟩
  · exact ⟨q, Table.mem_insert.mpr (Or.inl hq), rfl, rfl, rfl⟩
  · rcases Table.mem_insert.mp hq' with hq | rfl
    · exact Or.inl ⟨q', hq, rfl, rfl, fun _ => rfl, Or.inl⟩
    · exact Or.inr ⟨fun q hq => Nat.ne_of_lt (s.participants.below q hq), h⟩
  · obtain ⟨c, hcm, e⟩ := hc q hq
    exact ⟨c, Table.mem_insert.mpr (Or.inl hcm), e⟩

/-- A project written in place. -/
theorem Restaffed.reproject (s : Ledger) (p : Project → Bool) (f : Project → Project) :
    Restaffed s.board ({ s with projects := s.projects.alter p f } : Ledger).board := by
  have key : ∀ q, (Table.altered p f q).id = q.id := Table.key_altered p f
  refine ⟨rfl, rfl, rfl, rfl, rfl, fun q hq => ⟨q, hq, rfl, rfl, rfl⟩, fun q hq => ?_, fun q hq => ?_,
    fun hc q hq => ?_⟩
  · exact Or.inl ⟨q, hq, rfl, rfl, fun _ => rfl, Or.inl⟩
  · exact ⟨_, Table.mem_alter.mpr ⟨q, hq, rfl⟩, key q⟩
  · obtain ⟨r, hr, rfl⟩ := Table.mem_alter.mp hq
    rw [key]
    exact hc r hr

theorem updateParticipants_ok {p : Participant → Bool} {f : Participant → Participant}
    {hr : ∀ q, p q = true → q.role = .human → (f q).role = .human}
    (h : (updateParticipants p f hr).run s = .ok (u, s')) :
    s' = { s with participants := s.participants.alter p f } := by
  simp only [updateParticipants, writeBoard, run_write_ok] at h
  exact h.symm

theorem updateParticipant_ok {id : Nat} {f : Participant → Participant}
    {hr : ∀ q, q.role = .human → (f q).role = .human}
    (h : (updateParticipant id f hr).run s = .ok (u, s')) :
    s' = { s with participants := s.participants.alter (fun p => p.id == id) f } :=
  updateParticipants_ok h

theorem insertParticipant_ok {p : Participant} {id : Nat}
    (h : (insertParticipant p).run s = .ok (id, s')) :
    id = s.participants.next ∧ s' = { s with participants := s.participants.insert p } := by
  simp only [insertParticipant, writeBoard, run_bind_ok, run_state_ok, run_write_ok,
    run_pure_ok] at h
  obtain ⟨s0, s1, ⟨rfl, rfl⟩, u, s2, rfl, rfl, rfl⟩ := h
  exact ⟨rfl, rfl⟩

theorem updateProject_ok {id : Nat} {f : Project → Project} {hg : ∀ q, (f q).gate = q.gate}
    (h : (updateProject id f hg).run s = .ok (u, s')) :
    s' = { s with projects := s.projects.alterAt id f } := by
  simp only [updateProject, writeBoard, run_write_ok] at h
  exact h.symm

end Statements

/-! ## 2. Sessions -/

section Sessions

variable {L : Licence} {s s' : Ledger} {u : Unit} {d : Debt}

/-- The chain of no edit, but of programs of the desk. -/
theorem Edits.of_eq {d : Debt} {b b' : Board} (h : b' = b) : Edits L d b d b' := by
  rw [h]
  exact .refl d b

/-- A session's start: a participant nobody had, with no card and no brief. -/
theorem startSession_ok {project : Nat} {member p : Participant} {role : Role}
    {names : List String} (h : (startSession project member role names).run s = .ok (p, s'))
    (hr : role ∈ Role.memberRoles) (hm : s.board.Seated member.id project) :
    Restaffed s.board s'.board ∧ p ∈ s'.participants.rows ∧ p.id = s.participants.next ∧
      p.project = project ∧ p.leftAt = none := by
  obtain ⟨s0, s1, h1, h⟩ := run_bind_ok.mp h
  obtain ⟨rfl, rfl⟩ := run_state_ok.mp h1
  obtain ⟨t, s1, h1, h⟩ := run_bind_ok.mp h
  obtain ⟨id, s2, h2, h⟩ := run_bind_ok.mp h
  obtain ⟨u, s3, h3, h4⟩ := run_bind_ok.mp h
  have b1 : s1.board = s.board := board_of_lift h1
  obtain ⟨rfl, rfl⟩ := insertParticipant_ok h2
  have b3 := board_of_lift h3
  obtain ⟨rfl, hp, hid⟩ := participantRow_ok h4
  have ep : s3.participants = s1.participants.insert
      { project, handle := s.sessionHandle project member names, role, roles := member.roles,
        harness := member.harness, model := member.model, effort := member.effort,
        modelName := member.modelName, designer := member.designer, tier := member.tier,
        memberId := some member.id, createdAt := t } := congrArg Board.participants b3
  have en : s1.participants = s.participants := congrArg Board.participants b1
  have hp' := hp
  rw [ep] at hp'
  refine ⟨?_, hp, by rw [hid, en], ?_⟩
  · rw [b3, ← b1]
    refine Restaffed.insert s1 _ fun m em => ⟨hr, ?_⟩
    obtain rfl : member.id = m := Option.some.inj em
    rw [b1]
    exact hm
  · rcases Table.mem_insert.mp hp' with k | rfl
    · exact absurd hid (Nat.ne_of_lt (s1.participants.below p k))
    · exact ⟨rfl, rfl⟩

/-- A session comes back: it is there again, as itself. -/
theorem bringBack_ok {session p : Participant} (h : (bringBack session).run s = .ok (p, s'))
    (hs : session ∈ s.participants.rows) :
    Restaffed s.board s'.board ∧ p ∈ s'.participants.rows ∧ p.id = session.id ∧
      p.project = session.project ∧ p.memberId = session.memberId ∧ p.leftAt.isNone = true := by
  unfold bringBack at h
  split at h
  · next hl =>
    obtain ⟨rfl, rfl⟩ := run_pure_ok.mp h
    refine ⟨?_, hs, rfl, rfl, rfl, hl⟩
    exact ⟨rfl, rfl, rfl, rfl, rfl, fun q hq => ⟨q, hq, rfl, rfl, rfl⟩,
      fun q hq => Or.inl ⟨q, hq, rfl, rfl, fun _ => rfl, Or.inl⟩, fun q hq => ⟨q, hq, rfl⟩, id⟩
  · obtain ⟨u, s1, h1, h⟩ := run_bind_ok.mp h
    obtain ⟨u2, s2, h2, h3⟩ := run_bind_ok.mp h
    obtain rfl := updateParticipant_ok h1
    have b2 := board_of_lift h2
    obtain ⟨rfl, hp, hid⟩ := participantRow_ok h3
    have ep : s2.participants = s.participants.alter (fun p => p.id == session.id)
        fun p => { p with leftAt := none } := congrArg Board.participants b2
    have hp' := hp
    rw [ep] at hp'
    obtain ⟨q, hq, e⟩ := Table.mem_alter.mp hp'
    have eq : q = session := by
      refine Table.eq_of_key hq hs ?_
      show q.id = session.id
      rw [← hid, ← e]
      exact (Table.key_altered _ _ q).symm
    subst eq
    have e' : p = { q with leftAt := none } := by
      rw [← e]
      unfold Table.altered
      rw [if_pos (beq_self_eq_true q.id)]
      rfl
    rw [e']
    refine ⟨?_, e' ▸ hp, rfl, rfl, rfl, rfl⟩
    rw [b2]
    exact Restaffed.alter s _ _ fun r _ _ => ⟨rfl, rfl, fun _ => rfl, fun k => k, fun k => by cases k⟩

theorem now_ok {t : Time} (h : (liftM now : LedgerM Time).run s = .ok (t, s')) : s' = s.ticked := by
  simp only [run_liftDesk, now, run_bind_ok, run_state_ok, run_write_ok, run_pure_ok] at h
  obtain ⟨s0, s1, ⟨rfl, rfl⟩, u1, s3, rfl, -, rfl⟩ := h
  rfl

theorem log_ok {project : Nat} {what : What} {hs : what.Quiet}
    (h : (log project what hs).run s = .ok (u, s')) :
    s'.tasks = s.tasks ∧ s'.messages = s.messages := by
  simp only [log, now, run_bind_ok, run_state_ok, run_write_ok, run_pure_ok] at h
  obtain ⟨t, s1, ⟨s0, s2, ⟨rfl, rfl⟩, u1, s3, rfl, -, rfl⟩, rfl⟩ := h
  exact ⟨rfl, rfl⟩

theorem bringBack_tasks {session p : Participant} (h : (bringBack session).run s = .ok (p, s')) :
    s'.tasks = s.tasks := by
  unfold bringBack at h
  split at h
  · obtain ⟨-, rfl⟩ := run_pure_ok.mp h
    rfl
  · obtain ⟨u, s1, h1, h⟩ := run_bind_ok.mp h
    obtain ⟨u2, s2, h2, h3⟩ := run_bind_ok.mp h
    obtain rfl := updateParticipant_ok h1
    obtain ⟨rfl, -⟩ := participantRow_ok h3
    rw [run_liftDesk] at h2
    have e := (log_ok h2).1
    exact e

theorem canContinue_ok {session : Participant} {c : Bool} {R : Ledger → Ledger → Prop} [Frame R]
    (h : (canContinue session : LedgerTxn R Bool).run s = .ok (c, s')) : s = s' := by
  unfold canContinue at h
  split at h
  · exact (run_pure_ok.mp h).2
  · simp only at h
    split at h
    · obtain ⟨m, s1, h1, h⟩ := run_bind_ok.mp h
      obtain ⟨a, ha, -⟩ := run_map_ok.mp h1
      obtain ⟨rfl, -⟩ := participantRow_ok ha
      simp only [run_bind_ok, run_state_ok, run_pure_ok] at h
      obtain ⟨s0, s1, ⟨rfl, rfl⟩, -, rfl⟩ := h
      rfl
    · simp only [run_bind_ok, run_state_ok, run_pure_ok] at h
      obtain ⟨m, s1, ⟨-, rfl⟩, s0, s2, ⟨rfl, rfl⟩, -, rfl⟩ := h
      rfl

/-- What `requireFree` found: no task keeps the giving out of the window. -/
theorem requireFree_ok {taker : Participant} {giving : Giving} {R : Ledger → Ledger → Prop}
    [Frame R] (h : (requireFree taker giving : LedgerTxn R Unit).run s = .ok (u, s')) :
    s = s' ∧ (taker.memberId.isSome = true →
      ∀ t ∈ s.tasks.rows, giving.keptOutBy taker.id t = false) := by
  unfold requireFree at h
  split at h
  · next hn =>
    refine ⟨(run_pure_ok.mp h).2, fun hs => ?_⟩
    rw [Option.isNone_iff_eq_none.mp hn] at hs
    cases hs
  · simp only [run_bind_ok, run_state_ok] at h
    obtain ⟨s0, s1, ⟨rfl, rfl⟩, h⟩ := h
    split at h
    · next hh =>
      refine ⟨(run_pure_ok.mp h).2, fun _ t ht => ?_⟩
      cases hk : giving.keptOutBy taker.id t with
      | false => rfl
      | true =>
        have hm : t ∈ s.tasks.rows.filter (giving.keptOutBy taker.id) :=
          List.mem_filter.mpr ⟨ht, hk⟩
        have he : (s.tasks.rows.filter (giving.keptOutBy taker.id)).head? = none :=
          (Option.or_eq_none_iff.mp hh).2
        rw [List.head?_eq_none_iff.mp he] at hm
        cases hm
    · exact (run_refuse_ok.mp h).elim

/-- A window free for a new task has none in hand. -/
theorem requireFree_inHand {taker : Participant} {giving : Giving} {R : Ledger → Ledger → Prop}
    [Frame R] (hg : ∀ n, giving ≠ .resumed n)
    (h : (requireFree taker giving : LedgerTxn R Unit).run s = .ok (u, s')) (hw : Wired s.board)
    (hs : taker.memberId.isSome = true) : ¬ s.board.InHand taker.id := by
  rintro ⟨c, hc, ha, hp⟩
  obtain ⟨t, ht, rfl⟩ := mem_cards.mp hc
  have hk := (requireFree_ok h).2 hs t ht
  have hn : t.number ≠ 0 := hw.counted _ hc
  have ha : t.assignee = some taker.id := ha
  have hp := phase_inHand_iff.mp hp
  cases giving with
  | task => simp [Giving.keptOutBy, ha, hn, hp] at hk
  | sentBack n => simp [Giving.keptOutBy, ha, hn, hp] at hk
  | resumed n => exact hg n rfl

/-- A window free for a resume of T-`number` has no other task at work. -/
theorem requireFree_atWork {taker : Participant} {number : Nat} {R : Ledger → Ledger → Prop}
    [Frame R] (h : (requireFree taker (.resumed number) : LedgerTxn R Unit).run s = .ok (u, s'))
    (hs : taker.memberId.isSome = true) {c : Card} (hc : c ∈ s.board.cards)
    (ha : c.assignee = some taker.id) (hp : c.phase = .held) : c.number = number := by
  obtain ⟨t, ht, rfl⟩ := mem_cards.mp hc
  have hk := (requireFree_ok h).2 hs t ht
  have ha : t.assignee = some taker.id := ha
  have hp := phase_held_iff.mp hp
  simpa [Giving.keptOutBy, ha, hp] using hk

/-- A call of the staff is one edit, where it is a write of participants between writes of the
    desk. -/
theorem Edits.staff {d : Debt} {b b' : Board} (h : Restaffed b b') : Edits L d b d b' :=
  (Edit.staff d h).once

/-- A participant as it was but for when it left. -/
def SameRole (b b' : Board) : Prop :=
  ∀ q' ∈ b'.participants.rows, ∃ q ∈ b.participants.rows, q.id = q'.id ∧ q.role = q'.role

/-- A window leaves, the chief's apart: nothing on the board waits for it. -/
theorem Restaffed.leave (s : Ledger) (id : Nat) (t : Time)
    (hr : ∀ q ∈ s.participants.rows, q.id = id → q.role ≠ .chief)
    (hf : ∀ c ∈ s.board.cards, c.phase = .opened → c.assignee ≠ some id) :
    Restaffed s.board ({ s with
      participants := s.participants.alter (fun p => p.id == id)
        fun p => { p with leftAt := some t } } : Ledger).board := by
  refine Restaffed.alter s _ _ fun q hq hk => ⟨rfl, rfl, fun _ => rfl, fun k => k, fun _ => ?_⟩
  have e : q.id = id := beq_iff_eq.mp hk
  refine Or.inr ⟨hr q hq e, ?_⟩
  rw [e]
  exact hf

theorem SameRole.leave (s : Ledger) (p : Participant → Bool) (t : Time) :
    SameRole s.board ({ s with
      participants := s.participants.alter p fun q => { q with leftAt := some t } } : Ledger).board := by
  intro q' hq'
  obtain ⟨q, hq, rfl⟩ := Table.mem_alter.mp hq'
  refine ⟨q, hq, (Table.key_altered p _ q).symm, ?_⟩
  unfold Table.altered
  split <;> rfl

theorem closeSession_edits {session : Participant} {keep : Bool}
    (h : (closeSession session keep).run s = .ok (u, s'))
    (hr : ∀ q ∈ s.participants.rows, q.id = session.id → q.role ≠ .chief)
    (hf : ∀ c ∈ s.board.cards, c.phase = .opened → c.assignee ≠ some session.id) :
    Edits L d s.board d s'.board ∧ s'.board.cards = s.board.cards ∧ SameRole s.board s'.board := by
  obtain ⟨t, s1, h1, h⟩ := run_bind_ok.mp h
  obtain ⟨u1, s2, h2, h⟩ := run_bind_ok.mp h
  obtain ⟨u2, s3, h3, h4⟩ := run_bind_ok.mp h
  obtain rfl := now_ok h1
  obtain rfl := updateParticipant_ok h2
  have b3 : s3.board = ({ s with
      participants := s.participants.alter (fun p => p.id == session.id)
        fun p => { p with leftAt := some t } } : Ledger).board := by
    rcases run_doWhen_ok.mp h3 with ⟨-, k⟩ | ⟨-, rfl⟩
    · have b := board_of_lift k
      exact b
    · rfl
  have b4 : s'.board = s3.board := board_of_lift h4
  have hre := Restaffed.leave s session.id t hr hf
  rw [b4, b3]
  exact ⟨.staff hre, hre.cards, SameRole.leave s _ t⟩

end Sessions

end ConsensFlow
