/-
  File:      ConsensFlow/Edits/Giving.lean
  Subject:   THE EDITS OF A TASK GIVEN, AND TAKEN BACK.

  * `needAll_ok`, `waitAll_edits` -- the two loops over the plan of a new task: what it needs is
    written with it, and what waits for it is linked one by one, each unless that closes a
    circle;
  * **`createTask_edits`**, **`assignTask_edits`** -- a task comes to a window, or to the board;
  * **`releaseInside_edits`** -- a task taken back is on the board again, with whatever its needs are
    by then, and what that makes ready goes to its window.
-/
import ConsensFlow.Edits.Staff

namespace ConsensFlow

open Lib Txn

/-! ## 1. The plan of a new task -/

section Plan

variable {L : Licence} {s s' : Ledger} {u : Unit}

theorem insertNeed_ok {task needs : Nat} (h : (insertNeed task needs).run s = .ok (u, s')) :
    s' = { s with needs := s.needs ++ [(task, needs)] } ∧ task ≠ needs ∧
      (task, needs) ∉ s.needs := by
  simp only [insertNeed, writeBoard, run_bind_ok, run_state_ok, run_require_ok, run_write_ok] at h
  obtain ⟨s0, s1, ⟨rfl, rfl⟩, u1, s2, ⟨h1, rfl⟩, u2, s3, ⟨h2, rfl⟩, rfl⟩ := h
  exact ⟨rfl, by simpa using h1, by simpa using h2⟩

/-- A task that is not finished is on the board. -/
theorem Wired.deletedAt_none (hw : Wired s.board) {t : Task} (ht : t ∈ s.tasks.rows)
    (open_ : t.state.finished = false) : t.deletedAt = none := by
  cases off : t.deletedAt with
  | none => rfl
  | some at_ =>
    have finished := phase_finished_iff.mp (hw.deleted _ (card_mem ht) (by rw [card_deleted, off]; rfl))
    rw [open_] at finished
    cases finished

/-- A task of a project by its number, and its id. -/
def Ledger.HasNumber (s : Ledger) (project n i : Nat) : Prop :=
  ∃ t ∈ s.tasks.rows, t.project = project ∧ t.number = n ∧ t.id = i

theorem hasNumber_iff {s : Ledger} (hw : Wired s.board) {t : Task} (ht : t ∈ s.tasks.rows) {i : Nat} :
    s.HasNumber t.project t.number i ↔ i = t.id := by
  constructor
  · rintro ⟨r, hr, hp, hn, rfl⟩
    exact hw.numbers _ (card_mem hr) _ (card_mem ht) hp hn
  · rintro rfl
    exact ⟨t, ht, rfl, rfl, rfl⟩

/-- The numbers are the cards'. -/
theorem hasNumber_cards {s : Ledger} {project n i : Nat} : s.HasNumber project n i ↔
    ∃ c ∈ s.board.cards, c.project = project ∧ c.number = n ∧ c.id = i := by
  constructor
  · rintro ⟨t, ht, k⟩
    exact ⟨t.card, card_mem ht, k⟩
  · rintro ⟨c, hc, k⟩
    obtain ⟨t, ht, rfl⟩ := mem_cards.mp hc
    exact ⟨t, ht, k⟩

/-- A task of a project by its number, which is not cancelled, and on the board unless it is
    accepted, and its id. -/
structure Numbered (s : Ledger) (proj n i : Nat) : Prop where
  row : ∃ t ∈ s.tasks.rows, t.project = proj ∧ t.number = n ∧ t.id = i ∧ t.state ≠ .cancelled ∧
    (t.state = .accepted ∨ t.deletedAt = none)

theorem needOne_ok {project task number : Nat}
    (h : (needOne project task number).run s = .ok (u, s')) :
    ∃ i, s' = { s with needs := s.needs ++ [(task, i)] } ∧ task ≠ i ∧
      Numbered s project number i := by
  obtain ⟨t, s1, h1, h⟩ := run_bind_ok.mp h
  obtain ⟨rfl, ht, hp, hn⟩ := taskRow_ok h1
  simp only [run_bind_ok, run_require_ok, run_doWhen_ok] at h
  obtain ⟨u1, s2, ⟨hc, rfl⟩, u2, s3, h2, h3⟩ := h
  have e : s = s3 ∧ (t.state = .accepted ∨ t.deletedAt = none) := by
    rcases h2 with ⟨-, h2⟩ | ⟨ha, rfl⟩
    · exact ⟨(requireOnBoard_ok h2).1, .inr (requireOnBoard_ok h2).2⟩
    · exact ⟨rfl, .inl (by simpa using ha)⟩
  obtain ⟨rfl, hk⟩ := e
  obtain ⟨rfl, hne, -⟩ := insertNeed_ok h3
  exact ⟨t.id, rfl, hne, ⟨t, ht, hp, hn, rfl, by simpa using hc, hk⟩⟩

/-- What a new task needs, written: each of the tasks numbered. -/
theorem needAll_ok {project task : Nat} {ns : List Nat}
    (h : (ns.forM (needOne project task)).run s = .ok (u, s')) :
    ∃ ids : List Nat, s' = { s with needs := s.needs ++ ids.map fun i => (task, i) } ∧
      task ∉ ids ∧ List.Forall₂ (Numbered s project) ns ids := by
  induction ns generalizing s with
  | nil =>
    obtain ⟨-, rfl⟩ := run_pure_ok.mp h
    exact ⟨[], by simp, by simp, .nil⟩
  | cons n ns ih =>
    obtain ⟨u1, s1, h1, h2⟩ := run_bind_ok.mp h
    obtain ⟨i, rfl, hne, hi⟩ := needOne_ok h1
    obtain ⟨ids, rfl, hnot, hids⟩ := ih h2
    refine ⟨i :: ids, by simp, ?_, .cons hi ?_⟩
    · simp [hne, hnot]
    · exact hids.imp fun n i k => ⟨k.row⟩

theorem forall₂_left {α β : Type} {P : α → β → Prop} {xs : List α} {ys : List β}
    (h : List.Forall₂ P xs ys) {x : α} (hx : x ∈ xs) : ∃ y ∈ ys, P x y := by
  induction h with
  | nil => cases hx
  | cons hp _ ih =>
    rcases List.mem_cons.mp hx with rfl | hx
    · exact ⟨_, List.mem_cons_self, hp⟩
    · obtain ⟨y, hy, k⟩ := ih hx
      exact ⟨y, List.mem_cons_of_mem _ hy, k⟩

theorem forall₂_right {α β : Type} {P : α → β → Prop} {xs : List α} {ys : List β}
    (h : List.Forall₂ P xs ys) {y : β} (hy : y ∈ ys) : ∃ x ∈ xs, P x y := by
  obtain ⟨x, hx, k⟩ := forall₂_left h.flip hy
  exact ⟨x, hx, k⟩

/-- What a number is looked up to be, where the numbers of a project are one task's each. -/
theorem Numbered.unique (hw : Wired s.board) {project n i : Nat} (h : Numbered s project n i)
    {t : Task} (ht : t ∈ s.tasks.rows) (hp : t.project = project) (hn : t.number = n) :
    t.id = i := by
  obtain ⟨r, hr, ep, en, ei, -⟩ := h.row
  rw [← ei]
  exact hw.numbers _ (card_mem ht) _ (card_mem hr) (hp.trans ep.symm) (hn.trans en.symm)

theorem Numbered.hasNumber {project n i : Nat} (h : Numbered s project n i) :
    s.HasNumber project n i := by
  obtain ⟨t, ht, hp, hn, hi, -⟩ := h.row
  exact ⟨t, ht, hp, hn, hi⟩

/-- What is numbered, with a row more that is not it, was so before. -/
theorem Numbered.old {project n i : Nat} {r : Task}
    (h : Numbered { s with tasks := s.tasks.insert r } project n i) (hi : i ≠ s.tasks.next) :
    Numbered s project n i := by
  obtain ⟨t, ht, hp, hn, e, hc⟩ := h.row
  rcases Table.mem_insert.mp ht with ht | rfl
  · exact ⟨t, ht, hp, hn, e, hc⟩
  · exact absurd e.symm hi

theorem numbered_old {project : Nat} {ns ids : List Nat} {r : Task}
    (h : List.Forall₂ (Numbered { s with tasks := s.tasks.insert r } project) ns ids)
    (hi : s.tasks.next ∉ ids) : List.Forall₂ (Numbered s project) ns ids := by
  induction h with
  | nil => exact .nil
  | cons k _ ih =>
    refine .cons (k.old fun e => hi ?_) (ih fun hm => hi (List.mem_cons_of_mem _ hm))
    rw [e]
    exact List.mem_cons_self

/-- The tasks numbered, by their ids, are those of the numbers. -/
theorem mem_numbered (hw : Wired s.board) {project : Nat} {ns ids : List Nat}
    (h : List.Forall₂ (Numbered s project) ns ids) {i : Nat} :
    i ∈ ids ↔ ∃ n ∈ ns, s.HasNumber project n i := by
  constructor
  · intro hi
    obtain ⟨n, hn, k⟩ := forall₂_right h hi
    exact ⟨n, hn, k.hasNumber⟩
  · rintro ⟨n, hn, t, ht, hp, htn, rfl⟩
    obtain ⟨j, hj, k⟩ := forall₂_left h hn
    rw [k.unique hw ht hp htn]
    exact hj

/-- One of the tasks numbered is not accepted, or all of them are. -/
structure Blocked (s : Ledger) (project : Nat) (ns : List Nat) (b : Bool) : Prop where
  some_not : b = true → ∃ n ∈ ns, ∃ t ∈ s.tasks.rows, t.project = project ∧ t.number = n ∧
    t.state ≠ .accepted
  all : b = false → ∀ n ∈ ns, ∃ t ∈ s.tasks.rows, t.project = project ∧ t.number = n ∧
    t.state = .accepted

theorem blockedBy_ok {project : Nat} {ns : List Nat} {b : Bool}
    (h : (blockedBy project ns).run s = .ok (b, s')) : s = s' ∧ Blocked s project ns b := by
  induction ns with
  | nil =>
    obtain ⟨rfl, rfl⟩ := run_pure_ok.mp h
    exact ⟨rfl, by simp, by simp⟩
  | cons n ns ih =>
    obtain ⟨t, s1, h1, h⟩ := run_bind_ok.mp h
    obtain ⟨rfl, ht, hp, hn⟩ := taskRow_ok h1
    split at h
    · next hs =>
      obtain ⟨rfl, rfl⟩ := run_pure_ok.mp h
      refine ⟨rfl, fun _ => ⟨n, List.mem_cons_self, t, ht, hp, hn, by simpa using hs⟩, nofun⟩
    · next hs =>
      obtain ⟨e, k1, k2⟩ := ih h
      refine ⟨e, fun hb => ?_, fun hb m hm => ?_⟩
      · obtain ⟨m, hm, r⟩ := k1 hb
        exact ⟨m, List.mem_cons_of_mem _ hm, r⟩
      · rcases List.mem_cons.mp hm with rfl | hm
        · exact ⟨t, ht, hp, hn, by simpa using hs⟩
        · exact k2 hb m hm

/-- T-`number` on the board comes to wait for `task`, which does not wait for it. -/
theorem waitOne_ok {project task next number : Nat}
    (h : (waitOne project task next number).run s = .ok (u, s')) :
    ∃ t ∈ s.tasks.rows, t.project = project ∧ t.number = number ∧ t.state = .opened ∧
      t.id ≠ task ∧ ¬ Graph.Reaches s.needs task t.id ∧
      s' = { s with needs := s.needs ++ [(t.id, task)] } := by
  obtain ⟨t, s1, h1, h⟩ := run_bind_ok.mp h
  obtain ⟨rfl, ht, hp, hn⟩ := taskRow_ok h1
  split at h
  · obtain ⟨e, s1, -, h⟩ := run_bind_ok.mp h
    exact (run_refuse_ok.mp h).elim
  · next hs =>
    simp only [run_bind_ok, run_state_ok, run_require_ok] at h
    obtain ⟨s0, s1, ⟨rfl, rfl⟩, u1, s2, ⟨hc, rfl⟩, h2⟩ := h
    obtain ⟨rfl, hne, -⟩ := insertNeed_ok h2
    refine ⟨t, ht, hp, hn, by simpa using hs, hne, fun k => ?_, rfl⟩
    have : t.id ∈ Graph.reach s.needs task := Graph.mem_reach.mpr k
    simp [Ledger.upstream, this] at hc

/-- The link of a card on the board: nothing is owed of it. -/
theorem Edits.linked {d : Debt} {b : Board} {t n : Card} (ht : t ∈ b.cards) (hn : n ∈ b.cards)
    (hw : Wired b) (hne : t.id ≠ n.id) (hp : t.project = n.project)
    (hr : ¬ Graph.Reaches b.needs n.id t.id) (hc : n.phase ≠ .cancelled) (hk : n.deleted = false)
    (ho : t.phase = .opened) (hu : d.unmet = ∅) :
    ∃ d', Edits L d b d' (b.link t.id n.id) ∧ d.Still d' := by
  refine ⟨_, (Edit.link d t n ht hn hne hp hr hc (.inr hk)).once.step (.allMet _ t.id (Or.inr ?_)), ?_⟩
  · intro c hc' e
    exact Or.inl (hw.unique (x := c) hc' ht e ▸ ho)
  · refine ⟨?_, rfl, rfl⟩
    simp [Debt.owe, hu]

/-- What waits for a new task, linked to it. -/
theorem waitAll_edits {project task next : Nat} {ns : List Nat} {d : Debt} {c : Card}
    (h : (ns.forM (waitOne project task next)).run s = .ok (u, s')) (hw : Wired s.board)
    (hc : c ∈ s.board.cards) (e : c.id = task) (hp : c.project = project)
    (hx : c.phase ≠ .cancelled) (hk : c.deleted = false) (hu : d.unmet = ∅) :
    ∃ d', Edits L d s.board d' s'.board ∧ d.Still d' ∧
      ∃ ws : List Nat, s' = { s with needs := s.needs ++ ws.map fun w => (w, task) } ∧
        task ∉ ws ∧ List.Forall₂ (Numbered s project) ns ws := by
  induction ns generalizing s d with
  | nil =>
    obtain ⟨-, rfl⟩ := run_pure_ok.mp h
    exact ⟨d, .refl _ _, .refl d, [], by simp, by simp, .nil⟩
  | cons n ns ih =>
    obtain ⟨u1, s1, h1, h2⟩ := run_bind_ok.mp h
    obtain ⟨t, ht, htp, htn, hto, hne, hr, rfl⟩ := waitOne_ok h1
    obtain ⟨d1, e1, k1⟩ := Edits.linked (L := L) (d := d) (n := c) (card_mem ht) hc hw (e ▸ hne)
      (htp.trans hp.symm) (e ▸ hr) hx hk (phase_opened_iff.mpr hto) hu
    rw [e] at e1
    obtain ⟨d2, e2, k2, ws, rfl, hnot, hws⟩ :=
      ih (d := d1) h2 (e1.wired hw) hc (k1.unmet.trans hu)
    have on := hw.deletedAt_none ht (by rw [hto]; rfl)
    have ht' : Numbered s project n t.id := ⟨t, ht, htp, htn, rfl, by simp [hto], .inr on⟩
    refine ⟨d2, e1.trans e2, k1.trans k2, t.id :: ws, by simp, ?_,
      .cons ht' (hws.imp fun n i k => ⟨k.row⟩)⟩
    simp [hne.symm, hnot]

end Plan

/-! ## 2. Who a new task is for -/

section Taker

variable {L : Licence} {s s' : Ledger} {u : Unit}

theorem Restaffed.refl (b : Board) : Restaffed b b :=
  ⟨rfl, rfl, rfl, rfl, rfl, fun q hq => ⟨q, hq, rfl, rfl, rfl⟩,
    fun q hq => Or.inl ⟨q, hq, rfl, rfl, fun _ => rfl, Or.inl⟩, fun q hq => ⟨q, hq, rfl⟩, id⟩

/-- Who takes a new task of `proj`, which waits behind the tasks numbered `ns`. A session found by
    its handle may have an undecided result; one that did another task has none but those the
    new one waits behind. -/
structure Taker (s : Ledger) (proj : Nat) (byName : Bool) (p : Participant) (ns : List Nat) :
    Prop where
  mem : p ∈ s.participants.rows
  project : p.project = proj
  here : p.leftAt.isNone = true
  blocked : ∀ n ∈ ns, ∃ t ∈ s.tasks.rows, t.project = proj ∧ t.number = n ∧ t.state ≠ .accepted
  free : ns = [] → p.memberId.isSome = true → ¬ s.board.InHand p.id
  decided : byName = false → ns = [] → ¬ s.board.Undecided p.id

theorem mem_undecidedResults {w n : Nat} : n ∈ s.undecidedResults w ↔
    ∃ t ∈ s.tasks.rows, t.assignee = some w ∧ t.state = .done ∧ t.deletedAt.isNone = true ∧
      t.number = n := by
  simp only [Ledger.undecidedResults, List.mem_insertionSort, List.mem_map, List.mem_filter,
    Bool.and_eq_true, beq_iff_eq, and_assoc]

/-- The tasks a follow-up waits behind are of the project, and none is accepted. -/
theorem mem_behind (hw : Wired s.board) {previous : Task} {p : Participant}
    (hr : previous ∈ s.tasks.rows) (ha : previous.assignee = some p.id) {n : Nat}
    (h : n ∈ s.behind previous p) : ∃ t ∈ s.tasks.rows, t.project = previous.project ∧
      t.number = n ∧ t.state ≠ .accepted := by
  simp only [Ledger.behind, List.mem_insertionSort, List.mem_append, List.mem_filter] at h
  rcases h with h | ⟨h, -⟩
  · split at h
    · next hat =>
      simp only [List.mem_singleton] at h
      refine ⟨previous, hr, rfl, h.symm, fun k => ?_⟩
      simp [k, TaskState.held] at hat
    · cases h
  · obtain ⟨t, ht, hta, hd, -, hn⟩ := mem_undecidedResults.mp h
    exact ⟨t, ht, hw.same_project (card_mem ht) (card_mem hr) hta ha, hn, by simp [hd]⟩

/-- A follow-up that waits behind nothing finds nothing undecided. -/
theorem behind_nil {previous : Task} {p : Participant} (h : s.behind previous p = []) :
    ¬ s.board.Undecided p.id := by
  intro k
  have hl : (s.behind previous p).length = 0 := by rw [h]; rfl
  simp only [Ledger.behind, List.length_insertionSort, List.length_append, Nat.add_eq_zero_iff,
    List.length_eq_zero_iff] at hl
  obtain ⟨h1, h2⟩ := hl
  rw [h1] at h2
  simp only [List.contains_nil, Bool.not_false, List.filter_true] at h2
  have := undecidedResults_iff.mpr k
  rw [h2] at this
  cases this

/-- What a follow-up of T-`after` waits behind. -/
def Ledger.WaitsBehind (s : Ledger) (project after n : Nat) : Prop :=
  ∃ t ∈ s.tasks.rows, t.project = project ∧ t.number = after ∧ ∃ p ∈ s.participants.rows,
    t.assignee = some p.id ∧ n ∈ s.behind t p

theorem followUpSession_ok {project after : Nat} {f : FollowUp}
    (h : (followUpSession project after).run s = .ok (f, s')) (hw : Wired s.board) :
    Restaffed s.board s'.board ∧ s'.tasks = s.tasks ∧
      Taker s' project false f.session f.behind ∧
      ∀ n, n ∈ f.behind ↔ s.WaitsBehind project after n := by
  obtain ⟨t, s1, h1, h⟩ := run_bind_ok.mp h
  obtain ⟨rfl, ht, hp, hn⟩ := taskRow_ok h1
  obtain ⟨id, s2, h2, h⟩ := run_bind_ok.mp h
  obtain ⟨ha, rfl⟩ := run_found_ok.mp h2
  obtain ⟨p, s3, h3, h⟩ := run_bind_ok.mp h
  obtain ⟨rfl, hpm, hid⟩ := participantRow_ok h3
  rw [← hid] at ha
  obtain ⟨u1, s4, h4, h⟩ := run_bind_ok.mp h
  obtain ⟨-, rfl⟩ := run_require_ok.mp h4
  obtain ⟨u2, s5, h5, h⟩ := run_bind_ok.mp h
  obtain ⟨-, rfl⟩ := run_require_ok.mp h5
  obtain ⟨c, s6, h6, h⟩ := run_bind_ok.mp h
  obtain rfl := canContinue_ok h6
  obtain ⟨u3, s7, h7, h⟩ := run_bind_ok.mp h
  obtain ⟨-, rfl⟩ := run_require_ok.mp h7
  obtain ⟨s0, s8, h8, h⟩ := run_bind_ok.mp h
  obtain ⟨rfl, rfl⟩ := run_state_ok.mp h8
  obtain ⟨u4, s9, h9, h⟩ := run_bind_ok.mp h
  have free : s = s9 ∧ (s.behind t p = [] → p.memberId.isSome = true →
      ¬ s.board.InHand p.id) := by
    rcases run_doWhen_ok.mp h9 with ⟨-, h9⟩ | ⟨he, rfl⟩
    · exact ⟨(requireFree_ok h9).1, fun _ hs => requireFree_inHand (by simp) h9 hw hs⟩
    · refine ⟨rfl, fun k => ?_⟩
      simp [k] at he
  obtain ⟨rfl, free⟩ := free
  obtain ⟨q, s10, h10, h⟩ := run_bind_ok.mp h
  obtain ⟨rfl, rfl⟩ := run_pure_ok.mp h
  obtain ⟨hre, hq, eid, epr, emem, hl⟩ := bringBack_ok h10 hpm
  have et : s10.tasks = s.tasks := bringBack_tasks h10
  have hproj : p.project = project := by
    obtain ⟨r, hr, e, er⟩ := hw.windows _ (card_mem ht) _ ha
    rw [Table.eq_of_key hr hpm e] at er
    exact er.trans hp
  refine ⟨hre, et, ⟨hq, epr.trans hproj, hl, fun n hn => ?_, fun he hs => ?_, fun _ he => ?_⟩,
    fun n => ⟨fun k => ⟨t, ht, hp, hn, p, hpm, ha, k⟩, ?_⟩⟩
  · obtain ⟨r, hr, er, k⟩ := mem_behind hw ht ha hn
    exact ⟨r, et ▸ hr, er.trans hp, k⟩
  · rw [eid]
    rintro ⟨x, hx, k⟩
    exact free he (emem ▸ hs) ⟨x, hre.cards ▸ hx, k⟩
  · rw [eid]
    rintro ⟨x, hx, k⟩
    exact behind_nil he ⟨x, hre.cards ▸ hx, k⟩
  · rintro ⟨r, hr, hrp, hrn, q, hq, hra, k⟩
    have e : r.id = t.id := hw.numbers _ (card_mem hr) _ (card_mem ht) (hrp.trans hp.symm)
      (hrn.trans hn.symm)
    rw [Table.eq_of_key hr ht e] at hra k
    have eq : q.id = p.id := Option.some.inj (hra.symm.trans ha)
    rw [Table.eq_of_key hq hpm eq] at k
    exact k

theorem takerOf_ok {project : Nat} {request : NewTask} {r : Option Participant × List Nat}
    (h : (takerOf project request).run s = .ok (r, s')) (hw : Wired s.board) :
    Restaffed s.board s'.board ∧ s'.tasks = s.tasks ∧
      (∀ n, n ∈ r.2 ↔ ∃ after, request.after = some after ∧ s.WaitsBehind project after n) ∧
      (r.1 = none → r.2 = [] ∧ request.whom = none ∧ request.after = none) ∧
      ∀ p, r.1 = some p → ∃ byName, Taker s' project byName p r.2 ∧ (byName = true →
        p ∈ s.participants.rows ∧ request.after = none ∧ request.whom = some p.handle) := by
  unfold takerOf at h
  split at h
  · next after _ ea =>
    obtain ⟨f, s1, h1, h⟩ := run_bind_ok.mp h
    obtain ⟨rfl, rfl⟩ := run_pure_ok.mp h
    obtain ⟨hre, et, hk, hb⟩ := followUpSession_ok h1 hw
    refine ⟨hre, et, fun n => ?_, nofun, fun p hp => ?_⟩
    · rw [hb, ea]
      simp
    cases hp
    exact ⟨false, hk, nofun⟩
  · next whom ea ew =>
    obtain ⟨p, s1, h1, h⟩ := run_bind_ok.mp h
    obtain ⟨rfl, hf⟩ := participantByHandle_ok h1
    obtain ⟨u, s2, h2, h⟩ := run_bind_ok.mp h
    obtain ⟨rfl, rfl⟩ := run_pure_ok.mp h
    have free : p.memberId.isSome = true → ¬ s.board.InHand p.id :=
      fun hs => requireFree_inHand (by simp) h2 hw hs
    obtain ⟨rfl, -⟩ := requireFree_ok h2
    refine ⟨Restaffed.refl _, rfl, fun n => by simp [ea], nofun, fun q hq => ?_⟩
    cases hq
    refine ⟨true, ⟨hf.mem, hf.project, hf.here, by simp, fun _ => free, nofun⟩, fun _ => ?_⟩
    exact ⟨hf.mem, ea, ew.trans (congrArg some hf.handle.symm)⟩
  · next ea ew =>
    obtain ⟨rfl, rfl⟩ := run_pure_ok.mp h
    exact ⟨Restaffed.refl _, rfl, fun n => by simp [ea], fun _ => ⟨rfl, ew, ea⟩,
      fun p hp => by cases hp⟩

end Taker

/-! ## 3. A new task -/

section Create

variable {L : Licence} {s s' : Ledger} {u : Unit}

theorem distinct_ok {R : Ledger → Ledger → Prop} [Frame R] {ns r : List Nat} {field : String}
    (h : (distinct ns field : LedgerTxn R (List Nat)).run s = .ok (r, s')) :
    s = s' ∧ r = ns.eraseDups := by
  simp only [distinct, run_bind_ok, run_require_ok, run_pure_ok] at h
  obtain ⟨u, s1, ⟨-, rfl⟩, rfl, rfl⟩ := h
  exact ⟨rfl, rfl⟩

/-- A task for nobody by name is for a pool of the members'. -/
theorem checkWork_ok {R : Ledger → Ledger → Prop} [Frame R] {request : NewTask} {r : Option Tier}
    (h : (request.checkWork : LedgerTxn R (Option Tier)).run s = .ok (r, s')) :
    s = s' ∧ (request.whom = none → request.after = none →
      request.pool.getD .worker ∈ Role.memberRoles) := by
  unfold NewTask.checkWork at h
  split at h
  · next hn =>
    refine ⟨(run_pure_ok.mp h).2, fun hw ha => ?_⟩
    simp [hw, ha] at hn
  · split at h
    · exact (run_refuse_ok.mp h).elim
    · next pool hp =>
      simp only [run_ite] at h
      split at h
      · exact (run_refuse_ok.mp h).elim
      · next hc =>
        have e : s = s' := by
          split at h
          · exact (run_pure_ok.mp h).2
          · split at h
            · exact (run_refuse_ok.mp h).elim
            · simp only [run_ite] at h
              split at h
              · exact (run_refuse_ok.mp h).elim
              · exact (run_pure_ok.mp h).2
        refine ⟨e, fun _ _ => ?_⟩
        rw [hp]
        simpa using hc

theorem insertTask_ok {t : Task} {id : Nat} (h : (insertTask t).run s = .ok (id, s')) :
    id = s.tasks.next ∧ s' = { s with tasks := s.tasks.insert t } := by
  simp only [insertTask, writeBoard, run_bind_ok, run_state_ok, run_require_ok, run_write_ok,
    run_pure_ok] at h
  obtain ⟨s0, s1, ⟨rfl, rfl⟩, u, s2, ⟨-, rfl⟩, u2, s3, rfl, rfl, rfl⟩ := h
  exact ⟨rfl, rfl⟩

theorem le_foldl_max {xs : List Nat} {a n : Nat} (h : n ≤ a ∨ n ∈ xs) : n ≤ xs.foldl max a := by
  induction xs generalizing a with
  | nil => simpa using h
  | cons x xs ih =>
    refine ih ?_
    rcases h with h | h
    · exact Or.inl (Nat.le_trans h (Nat.le_max_left a x))
    · rcases List.mem_cons.mp h with rfl | h
      · exact Or.inl (Nat.le_max_right a n)
      · exact Or.inr h

theorem waitsFor_ok {project : Nat} {taker : Option Participant} {ns : List Nat} {b : Bool}
    (h : (waitsFor project taker ns).run s = .ok (b, s')) :
    s = s' ∧ (taker.isSome = true → Blocked s project ns b) := by
  unfold waitsFor at h
  split at h
  · obtain ⟨rfl, hb⟩ := blockedBy_ok h
    exact ⟨rfl, fun _ => hb⟩
  · next hn => exact ⟨(run_pure_ok.mp h).2, fun k => absurd k hn⟩

/-- The next number of a project is no task's. -/
theorem number_ne_nextNumber {t : Task} (h : t ∈ s.tasks.rows) :
    t.number ≠ s.nextNumber t.project := by
  have hm : t.number ∈ (s.tasks.rows.filter fun r => r.project == t.project).map (·.number) :=
    List.mem_map.mpr ⟨t, List.mem_filter.mpr ⟨h, by simp⟩, rfl⟩
  exact Nat.ne_of_lt (Nat.lt_succ_of_le (le_foldl_max (Or.inr hm)))

/-- What a new task needs is accepted or not as `blockedBy` found it. -/
theorem numbered_accepted (hw : Wired s.board) {project : Nat} {ns ids : List Nat} {blocked : Bool}
    {r : Task} (h : Blocked s project ns blocked)
    (hids : List.Forall₂ (Numbered { s with tasks := s.tasks.insert r } project) ns ids)
    (hnew : s.tasks.next ∉ ids) :
    (∀ i ∈ ids, ∃ c ∈ s.board.cards, c.id = i ∧ c.project = project ∧ c.phase ≠ .cancelled) ∧
      (blocked = true → ∃ i ∈ ids, ¬ s.board.Is i .accepted) ∧
      (blocked = false → ∀ i ∈ ids, s.board.Is i .accepted) := by
  obtain ⟨hb, hf⟩ := h
  -- what is numbered is an old task
  have old : ∀ {n i}, Numbered { s with tasks := s.tasks.insert r } project n i → i ∈ ids →
      Numbered s project n i := by
    rintro n i ⟨t, ht, hp, hn, hi, hc⟩ hm
    rcases Table.mem_insert.mp ht with ht | rfl
    · exact ⟨t, ht, hp, hn, hi, hc⟩
    · have e : s.tasks.next = i := hi
      exact absurd (e ▸ hm) hnew
  refine ⟨fun i hi => ?_, fun hbl => ?_, fun hbl i hi => ?_⟩
  · obtain ⟨n, -, k⟩ := forall₂_right hids hi
    obtain ⟨t, ht, hp, -, ei, hc, -⟩ := (old k hi).row
    exact ⟨t.card, card_mem ht, ei, hp, fun e => hc (phase_cancelled_iff.mp e)⟩
  · obtain ⟨n, hn, t, ht, hp, htn, hs⟩ := hb hbl
    obtain ⟨i, hi, k⟩ := forall₂_left hids hn
    refine ⟨i, hi, fun ha => hs ?_⟩
    rw [← (old k hi).unique hw ht hp htn] at ha
    exact phase_accepted_iff.mp ((hw.is_iff (card_mem ht)).mp ha)
  · obtain ⟨n, hn, k⟩ := forall₂_right hids hi
    obtain ⟨t, ht, hp, htn, hs⟩ := hf hbl n hn
    rw [← (old k hi).unique hw ht hp htn]
    exact ⟨t.card, card_mem ht, rfl, phase_accepted_iff.mpr hs⟩

/-- The card of a new task may be created: with what it needs, for who takes it. -/
theorem creatable_new {project : Nat} {needed behind asked ids : List Nat} {blocked byName : Bool}
    {taker : Option Participant} {t : Task} (hw : Wired s.board)
    (hpr : ∃ q ∈ s.board.projects.rows, q.id = project)
    (htaker : ∀ p, taker = some p → Taker s project byName p behind)
    (en : needed = (asked ++ behind).eraseDups)
    (hbl : taker.isSome = true → Blocked s project needed blocked)
    (hids : List.Forall₂ (Numbered { s with tasks := s.tasks.insert t } project) needed ids)
    (hnew : s.tasks.next ∉ ids)
    (hp : t.project = project) (hn : t.number = s.nextNumber project)
    (ha : t.assignee = taker.map (·.id))
    (hst : t.state = if taker.isNone || blocked then .opened else .queued)
    (hd : t.deletedAt = none ∧ t.stopSeq = 0) (hpool : ∀ r, t.pool = some r → r ∈ Role.memberRoles)
    (hl : byName = true → ∀ p, taker = some p → p.memberId.isSome = true →
      ∀ c, L .named s.board c p.id) :
    Creatable L s.board (Keyed.rekey s.tasks.next t).card ids := by
  subst hp
  have needs : ∀ i ∈ ids, ∃ c ∈ s.board.cards, c.id = i ∧ c.project = t.project ∧
      c.phase ≠ .cancelled ∧ (c.phase = .accepted ∨ c.deleted = false) := by
    intro i hi
    obtain ⟨n, -, r, hr, hrp, -, ei, hc, hk⟩ := forall₂_right hids hi
    have on : r.card.phase = .accepted ∨ r.card.deleted = false := by
      rcases hk with ha | hd
      · exact .inl (phase_accepted_iff.mpr ha)
      · refine .inr ?_
        rw [card_deleted, hd]
        rfl
    rcases Table.mem_insert.mp hr with hr | rfl
    · exact ⟨r.card, card_mem hr, ei, hrp, fun e => hc (phase_cancelled_iff.mp e), on⟩
    · have e : s.tasks.next = i := ei
      exact absurd (e ▸ hi) hnew
  refine ⟨fun c hc => ?_, fun c hc e => ?_, ?_, hpr, fun w hw' => ?_, hpool, ?_, hd.2,
    needs, ?_⟩
  · obtain ⟨r, hr, rfl⟩ := mem_cards.mp hc
    exact Nat.ne_of_lt (s.tasks.below r hr)
  · obtain ⟨r, hr, rfl⟩ := mem_cards.mp hc
    have e : r.project = t.project := e
    show r.number ≠ t.number
    rw [hn, ← e]
    exact number_ne_nextNumber hr
  · show t.number ≠ 0
    rw [hn]
    exact Nat.succ_ne_zero _
  · obtain ⟨p, hpt, rfl⟩ := Option.map_eq_some_iff.mp (ha.symm.trans hw')
    have k := htaker p hpt
    refine ⟨⟨p, k.mem, rfl, k.project⟩, fun hl => ?_⟩
    have := (left_iff k.mem).mp hl
    rw [Option.isNone_iff_eq_none.mp k.here] at this
    cases this
  · show t.deletedAt.isSome = false
    rw [hd.1]
    rfl
  · cases htk : taker with
    | none =>
      rw [htk] at hst ha
      refine Or.inl ⟨phase_opened_iff.mpr hst, fun w hw' => ?_⟩
      cases ha.symm.trans hw'
    | some p =>
      rw [htk] at hst ha
      have k := htaker p htk
      obtain ⟨-, hblk, hfree⟩ := numbered_accepted hw (hbl (by rw [htk]; rfl)) hids hnew
      cases blocked with
      | true => exact Or.inl ⟨phase_opened_iff.mpr hst, fun _ _ => hblk rfl⟩
      | false =>
        have hheld : t.state.held = true := by
          rw [hst]
          rfl
        -- what is behind another is blocked by it
        have nil : behind = [] := by
          cases hbh : behind with
          | nil => rfl
          | cons n ns =>
            have hn : n ∈ behind := hbh ▸ List.mem_cons_self
            obtain ⟨r, hr, hrp, hrn, hrs⟩ := k.blocked n hn
            have hmem : n ∈ needed := by
              rw [en]
              exact List.mem_eraseDups.mpr (List.mem_append_right _ hn)
            obtain ⟨q, hq, hqp, hqn, hqs⟩ := (hbl (by rw [htk]; rfl)).all rfl n hmem
            have e : q.id = r.id := hw.numbers _ (card_mem hq) _ (card_mem hr)
              (hqp.trans hrp.symm) (hqn.trans hrn.symm)
            rw [Table.eq_of_key hq hr e] at hqs
            exact absurd hqs hrs
        refine Or.inr ⟨phase_held_iff.mpr hheld, hfree rfl, p.id, ha, fun hs => ?_, ?_⟩
        · exact k.free nil ((session_iff k.mem).mp hs)
        · cases hb : byName with
          | false => exact Or.inl fun _ => k.decided hb nil
          | true =>
            by_cases hs : s.board.Session p.id
            · exact Or.inr (hl hb p htk ((session_iff k.mem).mp hs) _)
            · exact Or.inl fun h => absurd h hs

theorem Debt.Still.paid {d d' : Debt} (h : d.Still d') (hd : d.Paid) : d'.Paid :=
  ⟨h.unmet.trans hd.unmet, h.untold.trans hd.untold, h.loose.trans hd.loose⟩

theorem Debt.paid_none : Debt.none.Paid := ⟨rfl, rfl, rfl⟩

/-- A task inserted, what it needs, and what waits for it. -/
theorem newTask_edits {project next task : Nat} {needed behind asked blocking : List Nat}
    {blocked byName : Bool} {taker : Option Participant} {t : Task} {s1 s2 : Ledger} {v : Unit}
    (h1 : (insertTask t).run s = .ok (task, s1))
    (h2 : (needed.forM (needOne project task)).run s1 = .ok (u, s2))
    (h3 : (blocking.forM (waitOne project task next)).run s2 = .ok (v, s'))
    (hw : Wired s.board) (hpr : ∃ q ∈ s.board.projects.rows, q.id = project)
    (htaker : ∀ p, taker = some p → Taker s project byName p behind)
    (en : needed = (asked ++ behind).eraseDups)
    (hbl : taker.isSome = true → Blocked s project needed blocked)
    (hp : t.project = project) (hn : t.number = s.nextNumber project)
    (ha : t.assignee = taker.map (·.id))
    (hst : t.state = if taker.isNone || blocked then .opened else .queued)
    (hd : t.deletedAt = none ∧ t.stopSeq = 0) (hpool : ∀ r, t.pool = some r → r ∈ Role.memberRoles)
    (hl : byName = true → ∀ p, taker = some p → p.memberId.isSome = true →
      ∀ c, L .named s.board c p.id) :
    ∃ d : Debt, d.Paid ∧ Edits L .none s.board d s'.board ∧
      (∃ c ∈ s'.board.cards, c.id = task ∧ c.assignee = taker.map (·.id) ∧
        (taker.isNone = false → blocked = false → c.phase = .held)) ∧
      ∀ e, e ∈ s'.needs ↔ e ∈ s.needs ∨
        (e.1 = s.tasks.next ∧ ∃ n ∈ needed, s.HasNumber project n e.2) ∨
        (e.2 = s.tasks.next ∧ ∃ n ∈ blocking, s.HasNumber project n e.1) := by
  obtain ⟨rfl, rfl⟩ := insertTask_ok h1
  obtain ⟨ids, rfl, hnew, hids⟩ := needAll_ok h2
  have hcr : Creatable L s.board (Keyed.rekey s.tasks.next t).card ids :=
    creatable_new hw hpr htaker en hbl hids hnew hp hn ha hst hd hpool hl
  have e1 : Edits L .none s.board (Debt.none.touch (Keyed.rekey s.tasks.next t).card)
      (s.board.add (Keyed.rekey s.tasks.next t).card ids) := (Edit.create _ _ ids hcr rfl).once
  have hb : s.board.add (Keyed.rekey s.tasks.next t).card ids =
      ({ s with tasks := s.tasks.insert t
                needs := s.needs ++ ids.map fun i => (s.tasks.next, i) } : Ledger).board := by
    unfold Board.add Ledger.board Table.insert
    rw [List.map_append]
    rfl
  rw [hb] at e1
  have hc : (Keyed.rekey s.tasks.next t).card ∈ ({ s with
      tasks := s.tasks.insert t
      needs := s.needs ++ ids.map fun i => (s.tasks.next, i) } : Ledger).board.cards :=
    card_mem (Table.mem_insert.mpr (Or.inr rfl))
  have hx : (Keyed.rekey s.tasks.next t).card.phase ≠ .cancelled := by
    rcases hcr.phase with ⟨e, -⟩ | ⟨e, -⟩ <;> simp [e]
  obtain ⟨d, e2, hs, ws, rfl, hnot, hws⟩ := waitAll_edits (L := L)
    (d := Debt.none.touch (Keyed.rekey s.tasks.next t).card) h3 (e1.wired hw) hc rfl hp hx hcr.kept rfl
  refine ⟨d, hs.paid ⟨rfl, rfl, rfl⟩, e1.trans e2, ⟨_, hc, rfl, ha, fun htk hbk => ?_⟩,
    fun e => ?_⟩
  · have : t.state.held = true := by
      rw [hst, htk, hbk]
      rfl
    exact phase_held_iff.mpr this
  · have hws' : List.Forall₂ (Numbered { s with tasks := s.tasks.insert t } project) blocking ws :=
      hws.imp fun n i k => ⟨k.row⟩
    rw [List.mem_append, List.mem_append, List.mem_map, List.mem_map, or_assoc,
      ← mem_numbered hw (numbered_old hids hnew), ← mem_numbered hw (numbered_old hws' hnot)]
    obtain ⟨a, b⟩ := e
    simp only [Prod.mk.injEq]
    constructor
    · rintro (h | ⟨i, hi, rfl, rfl⟩ | ⟨i, hi, rfl, rfl⟩)
      · exact Or.inl h
      · exact Or.inr (Or.inl ⟨rfl, hi⟩)
      · exact Or.inr (Or.inr ⟨rfl, hi⟩)
    · rintro (h | ⟨rfl, hi⟩ | ⟨rfl, hi⟩)
      · exact Or.inl h
      · exact Or.inr (Or.inl ⟨_, hi, rfl, rfl⟩)
      · exact Or.inr (Or.inr ⟨_, hi, rfl, rfl⟩)

/-- Writes of the desk at the end of a call. -/
theorem Edits.desk {d d' : Debt} {b : Board} (h : Edits L d b d' s.board)
    (hb : s'.board = s.board) : Edits L d b d' s'.board := by
  rw [hb]
  exact h

/-- **The plan a new task asks for**: what it names, and what its window must be done with first,
    it needs; what it is before needs it; and every other edge is as it is. -/
def NewTask.Asks (request : NewTask) (s : Ledger) (project : Nat) (e : Nat × Nat) : Prop :=
  e ∈ s.needs ∨
  (e.1 = s.tasks.next ∧ ∃ n, (n ∈ request.needs ∨
    ∃ after, request.after = some after ∧ s.WaitsBehind project after n) ∧
    s.HasNumber project n e.2) ∨
  (e.2 = s.tasks.next ∧ ∃ n ∈ request.before, s.HasNumber project n e.1)

/-- **A task created comes to the board or to its window, with what it needs and what waits for
    it.** -/
theorem createTask_edits {project : Nat} {request : NewTask} {r : TaskCreated}
    (h : (createTask project request).run s = .ok (r, s')) (hw : Wired s.board)
    (hl : ∀ p ∈ s.participants.rows, p.project = project → request.after = none →
      request.whom = some p.handle → p.memberId.isSome = true → ∀ b c, L .named b c p.id) :
    (∃ d', d'.Paid ∧ Edits L .none s.board d' s'.board) ∧
      ∀ e, e ∈ s'.needs ↔ request.Asks s project e := by
  obtain ⟨u1, s1, h1, h⟩ := run_bind_ok.mp h
  obtain rfl := requireText_ok h1
  obtain ⟨asked0, s2, h2, h⟩ := run_bind_ok.mp h
  obtain ⟨rfl, easked⟩ := distinct_ok h2
  obtain ⟨blocking, s3, h3, h⟩ := run_bind_ok.mp h
  obtain ⟨rfl, eblocking⟩ := distinct_ok h3
  obtain ⟨asked, s4, h4, h⟩ := run_bind_ok.mp h
  obtain ⟨rfl, hpool⟩ := checkWork_ok h4
  obtain ⟨requester, s5, h5, h⟩ := run_bind_ok.mp h
  obtain ⟨rfl, hf⟩ := participantByHandle_ok h5
  obtain ⟨u6, s6, h6, h⟩ := run_bind_ok.mp h
  obtain ⟨-, rfl⟩ := run_require_ok.mp h6
  obtain ⟨u7, s7, h7, h⟩ := run_bind_ok.mp h
  obtain ⟨-, rfl⟩ := run_require_ok.mp h7
  obtain ⟨⟨taker, behind⟩, s8, h8, h⟩ := run_bind_ok.mp h
  obtain ⟨hre, et, hbehind, hnone, htaker⟩ := takerOf_ok h8 hw
  have hw8 : Wired s8.board := hw.restaff hre
  simp only [run_bind_ok, run_state_ok, run_require_ok] at h
  obtain ⟨s9, s10, ⟨rfl, rfl⟩, u11, s11, ⟨-, rfl⟩, blocked, s12, h12, s13, s14, ⟨rfl, rfl⟩, t, s15,
    h15, task, s16, h16, u17, s17, h17, u18, s18, h18, h⟩ := h
  obtain ⟨rfl, hbl⟩ := waitsFor_ok h12
  have e15 : s15 = s8.ticked := now_ok h15
  subst e15
  obtain ⟨byName, htk, hby⟩ : ∃ byName,
      (∀ p, taker = some p → Taker s8.ticked project byName p behind) ∧
      (byName = true → ∀ p, taker = some p → p ∈ s.participants.rows ∧ request.after = none ∧
        request.whom = some p.handle) := by
    cases taker with
    | none =>
      refine ⟨false, fun p hp => ?_, fun hb => ?_⟩
      · cases hp
      · cases hb
    | some p =>
      obtain ⟨byName, k, hn⟩ := htaker p rfl
      refine ⟨byName, fun q hq => ?_, fun hb q hq => ?_⟩
      · cases hq
        exact ⟨k.mem, k.project, k.here, k.blocked, k.free, k.decided⟩
      · cases hq
        exact hn hb
  have hpr : ∃ q ∈ s8.ticked.board.projects.rows, q.id = project := by
    obtain ⟨q, hq, e⟩ := hf.row
    obtain ⟨q', hq', e'⟩ := hre.projects q hq
    exact ⟨q', hq', e'.trans e⟩
  have hlic : byName = true → ∀ p, taker = some p → p.memberId.isSome = true →
      ∀ c, L .named s8.ticked.board c p.id := by
    intro hb p hp hs c
    obtain ⟨hm, ha, hwh⟩ := hby hb p hp
    exact hl p hm (htk p hp).project ha hwh hs _ c
  have hpool' : ∀ r, (if taker.isNone = true then some (request.pool.getD .worker) else none) =
      some r → r ∈ Role.memberRoles := by
    intro r hr
    split at hr
    · next hn =>
      obtain ⟨-, hw', ha'⟩ := hnone (Option.isNone_iff_eq_none.mp hn)
      cases hr
      exact hpool hw' ha'
    · cases hr
  obtain ⟨d, hd, he, hcard, hneeds⟩ := newTask_edits h16 h17 h18 hw8 hpr htk rfl
    (fun hs => ⟨(hbl hs).some_not, (hbl hs).all⟩) rfl rfl rfl rfl ⟨rfl, rfl⟩
    hpool' hlic
  have hasks : ∀ {s' : Ledger}, s'.needs = s18.needs → ∀ e, e ∈ s'.needs ↔
      request.Asks s project e := by
    intro s' es e
    have en : s8.ticked.needs = s.needs := hre.needs
    have et' : s8.ticked.tasks = s.tasks := et
    rw [es, hneeds e, en]
    unfold NewTask.Asks Ledger.HasNumber
    simp only [et', easked, eblocking, List.mem_eraseDups, List.mem_append, hbehind]
  cases taker with
  | none =>
    obtain ⟨u19, s19, h19, h20⟩ := run_bind_ok.mp h
    obtain ⟨row, s20, h20, h21⟩ := run_bind_ok.mp h20
    obtain ⟨rfl, -⟩ := taskById_ok h20
    obtain ⟨-, rfl⟩ := run_pure_ok.mp h21
    have b19 : s19.board = s18.board := board_of_lift h19
    exact ⟨⟨d, hd, (Edits.staff hre).trans (he.desk b19)⟩, hasks (congrArg Board.needs b19)⟩
  | some p =>
    cases blocked with
    | true =>
      obtain ⟨u19, s19, h19, h20⟩ := run_bind_ok.mp h
      obtain ⟨row, s20, h20, h21⟩ := run_bind_ok.mp h20
      obtain ⟨rfl, -⟩ := taskById_ok h20
      obtain ⟨-, rfl⟩ := run_pure_ok.mp h21
      have b19 : s19.board = s18.board := board_of_lift h19
      exact ⟨⟨d, hd, (Edits.staff hre).trans (he.desk b19)⟩, hasks (congrArg Board.needs b19)⟩
    | false =>
      obtain ⟨row, s19, h19, h⟩ := run_bind_ok.mp h
      obtain ⟨rfl, -⟩ := taskById_ok h19
      obtain ⟨id, s20, h20, h⟩ := run_bind_ok.mp h
      obtain ⟨-, b20⟩ := queueTask_ok h20
      obtain ⟨u21, s21, h21, h⟩ := run_bind_ok.mp h
      have b21 : s21.board = s20.board := board_of_lift h21
      obtain ⟨row2, s22, h22, h⟩ := run_bind_ok.mp h
      obtain ⟨rfl, -⟩ := taskById_ok h22
      obtain ⟨m, s23, h23, h⟩ := run_bind_ok.mp h
      obtain ⟨rfl, -⟩ := knownMessage_ok h23
      obtain ⟨-, rfl⟩ := run_pure_ok.mp h
      obtain ⟨c, hc, ec, ea, hh⟩ := hcard
      -- the words that brief the window
      have hbrief : Edit L d s18.board d (s18.board.brief (some c.id) p.id) :=
        .brief d c p.id hc (hh rfl rfl) ea
      rw [ec, ← b20] at hbrief
      refine ⟨⟨d, hd, (Edits.staff hre).trans ((he.step hbrief).desk b21)⟩, hasks ?_⟩
      exact congrArg Board.needs (b21.trans b20)

end Create

/-! ## 4. Assigned -/

section Assign

variable {L : Licence} {s s' : Ledger} {u : Unit}

theorem requireMemberRow_ok {R : Ledger → Ledger → Prop} [Frame R] {id : Nat} {does : String}
    {p : Participant}
    (h : (requireMemberRow id does : LedgerTxn R Participant).run s = .ok (p, s')) :
    s = s' ∧ p ∈ s.participants.rows ∧ p.id = id := by
  obtain ⟨q, s1, h1, h⟩ := run_bind_ok.mp h
  obtain ⟨rfl, hq, e⟩ := participantRow_ok h1
  simp only [run_bind_ok, run_state_ok, run_require_ok, run_pure_ok] at h
  obtain ⟨s0, s1, ⟨rfl, rfl⟩, u, s2, ⟨-, rfl⟩, rfl, rfl⟩ := h
  exact ⟨rfl, hq, e⟩

theorem Board.edit_edit (b : Board) (id : Nat) (f g : Card → Card) (hg : ∀ c, (g c).id = c.id) :
    (b.edit id g).edit id f = b.edit id fun c => f (g c) := by
  unfold Board.edit
  simp only [List.map_map]
  congr 1
  refine List.map_congr_left fun c _ => ?_
  simp only [Function.comp]
  by_cases e : c.id = id
  · rw [if_pos e, if_pos e, if_pos ((hg c).trans e)]
  · rw [if_neg e, if_neg e, if_neg e]

/-- What an assignment asks of its licence: nothing has changed but the staff. -/
def Licence.Assigns (L : Licence) (s : Ledger) (project number : Nat) : Prop :=
  ∀ t ∈ s.tasks.rows, t.project = project → t.number = number →
    ∀ b w, Restaffed s.board b → L .assigned b t.card w

/-- **An open task comes to a new session of a member.** -/
theorem assignTask_edits {project number participant : Nat} {names : List String} {r : TaskMoved}
    (h : (assignTask project number participant names).run s = .ok (r, s')) (hw : Wired s.board)
    (hl : L.Assigns s project number) : ∃ d', d'.Paid ∧ Edits L .none s.board d' s'.board := by
  obtain ⟨t, s1, h1, h⟩ := run_bind_ok.mp h
  obtain ⟨rfl, ht, hp, hn⟩ := taskRow_ok h1
  obtain ⟨u2, s2, h2, h⟩ := run_bind_ok.mp h
  obtain ⟨rfl, -, hst⟩ := requireTaskState_ok h2
  obtain ⟨member, s3, h3, h⟩ := run_bind_ok.mp h
  obtain ⟨rfl, hm, -⟩ := requireMemberRow_ok h3
  obtain ⟨pool, s4, h4, h⟩ := run_bind_ok.mp h
  obtain ⟨hpool, rfl⟩ := run_found_ok.mp h4
  obtain ⟨session, s5, h5, h⟩ := run_bind_ok.mp h
  have hrole : pool ∈ Role.memberRoles :=
    hw.pools _ (card_mem ht) pool (Option.filter_eq_some_iff.mp hpool).1
  have hseat : s.board.Seated member.id project := by
    have hc := (Option.filter_eq_some_iff.mp hpool).2
    simp only [Bool.and_eq_true, beq_iff_eq] at hc
    exact ⟨member, hm, rfl, hc.1.1.2⟩
  obtain ⟨hre, hses, eid, epr, -⟩ := startSession_ok h5 hrole hseat
  have hw5 : Wired s5.board := hw.restaff hre
  obtain ⟨u6, s6, h6, h⟩ := run_bind_ok.mp h
  have b6 : s6.board = s5.board := board_of_lift h6
  obtain ⟨now', s7, h7, h⟩ := run_bind_ok.mp h
  have b7 : s7.board = s6.board := board_of_lift h7
  obtain ⟨u8, s8, h8, h⟩ := run_bind_ok.mp h
  have b8 : s8.board = s7.board.edit t.id fun c => { c with assignee := some session.id } :=
    updateTask_board (fun _ => rfl) h8
  obtain ⟨row, s9, h9, h⟩ := run_bind_ok.mp h
  obtain ⟨rfl, -⟩ := taskById_ok h9
  obtain ⟨id, s10, h10, h⟩ := run_bind_ok.mp h
  obtain ⟨-, b10⟩ := queueTask_ok h10
  obtain ⟨u11, s11, h11, h⟩ := run_bind_ok.mp h
  have b11 := moveTaskAs_board h11 ⟨rfl, rfl⟩
  obtain ⟨row2, s12, h12, h⟩ := run_bind_ok.mp h
  obtain ⟨rfl, -⟩ := taskById_ok h12
  obtain ⟨m, s13, h13, h⟩ := run_bind_ok.mp h
  obtain ⟨rfl, -⟩ := knownMessage_ok h13
  obtain ⟨-, rfl⟩ := run_pure_ok.mp h
  have hc : t.card ∈ s5.board.cards := hre.cards ▸ card_mem ht
  have hb : s11.board = (s5.board.put
      { t.card with assignee := some session.id, phase := .held }).brief (some t.id) session.id := by
    have e := Board.edit_edit s5.board t.id (fun c => { c with phase := Phase.held })
      (fun c => { c with assignee := some session.id }) fun _ => rfl
    rw [b11, b10, b8, b7, b6]
    show (((s5.board.edit t.id fun c => { c with assignee := some session.id }).edit t.id
      fun c => { c with phase := Phase.held }).brief (some t.id) session.id) = _
    rw [e]
    exact congrArg (fun b => Board.brief b (some t.id) session.id) (hw5.edit_eq_put hc rfl)
  -- the session is new: nothing was ever given to it
  have fresh : ∀ q ∈ s.participants.rows, q.id ≠ session.id := by
    intro q hq
    rw [eid]
    exact Nat.ne_of_lt (s.participants.below q hq)
  have hopens : Door.assigned.Opens s5.board t.card session.id := by
    refine ⟨phase_opened_iff.mpr (by simpa using hst), ⟨session, hses, rfl, epr.trans hp.symm⟩,
      fun c hc' ha => ?_, fun e he ew => ?_⟩
    · obtain ⟨q, hq, e, -⟩ := hw.windows c (hre.cards ▸ hc') _ ha
      exact fresh q hq e
    · obtain ⟨-, q, hq, e'⟩ := hw.briefs e (hre.briefs ▸ he)
      exact fresh q hq (e'.trans ew)
  have he := Edits.enter (L := L) (d := .none) hc hopens (hl t ht hp hn _ _ hre) rfl
    fun k => by cases k
  rw [hb]
  exact ⟨_, ⟨rfl, rfl, rfl⟩, (Edits.staff hre).trans he⟩

end Assign

/-! ## 5. Taken back -/

/-- The tasks and their numbers, and the edges between them, are as they were. -/
structure SamePlan (s s' : Ledger) : Prop where
  needs : s'.needs = s.needs
  numbers : ∀ {p n i}, s'.HasNumber p n i ↔ s.HasNumber p n i
  cancelled : ∀ {i}, s'.board.Is i .cancelled → s.board.Is i .cancelled
  off : ∀ {i}, s'.board.Off i → s.board.Off i

theorem SamePlan.trans {a b c : Ledger} (h : SamePlan a b) (k : SamePlan b c) : SamePlan a c :=
  ⟨k.needs.trans h.needs, k.numbers.trans h.numbers, fun hi => h.cancelled (k.cancelled hi),
    fun hi => h.off (k.off hi)⟩

theorem SamePlan.of_board {s s' : Ledger} (h : s'.board = s.board) : SamePlan s s' := by
  refine ⟨congrArg Board.needs h, ?_, fun hi => h ▸ hi, fun hi => h ▸ hi⟩
  intro p n i
  rw [hasNumber_cards, hasNumber_cards, h]

theorem SamePlan.of_onward {s s' : Ledger} (h : Onward s.board s'.board) : SamePlan s s' := by
  refine ⟨h.needs, ?_, fun ⟨x, hx, e, hp⟩ => ⟨x, h.opened_back hx (by simp [hp]), e, hp⟩, ?_⟩
  swap
  · rintro i ⟨x, hx, e, hd⟩
    rcases h.back x hx with hx | ⟨y, hy, -, rfl⟩
    · exact ⟨x, hx, e, hd⟩
    · exact ⟨y, hy, e, hd⟩
  intro p n i
  rw [hasNumber_cards, hasNumber_cards]
  constructor
  · rintro ⟨x, hx, k⟩
    rcases h.back x hx with hx | ⟨y, hy, -, rfl⟩
    · exact ⟨x, hx, k⟩
    · exact ⟨y, hy, k⟩
  · rintro ⟨y, hy, k⟩
    rcases h.forth y hy with hy | ⟨-, hy⟩
    · exact ⟨y, hy, k⟩
    · exact ⟨_, hy, k⟩

theorem SamePlan.of_updateTask {s s' : Ledger} {u : Unit} {id : Nat} {f : Task → Task}
    (h : (updateTask id f).run s = .ok (u, s'))
    (hf : ∀ t, (f t).project = t.project ∧ (f t).number = t.number)
    (hc : ∀ t, (f t).state ≠ .cancelled) (hd : ∀ t, (f t).deletedAt = t.deletedAt) :
    SamePlan s s' := by
  obtain ⟨rfl, -⟩ := updateTask_ok h
  have same : ∀ t, (Table.altered (fun r => Keyed.key r == id) f t).project = t.project ∧
      (Table.altered (fun r => Keyed.key r == id) f t).number = t.number ∧
      (Table.altered (fun r => Keyed.key r == id) f t).id = t.id := by
    intro t
    refine ⟨?_, ?_, Table.key_altered _ _ t⟩
    · unfold Table.altered
      split
      · exact (hf t).1
      · rfl
    · unfold Table.altered
      split
      · exact (hf t).2
      · rfl
  refine ⟨rfl, ?_, ?_, ?_⟩
  rotate_left
  · rintro i ⟨c, hc', e, hp⟩
    obtain ⟨t', ht', rfl⟩ := mem_cards.mp hc'
    obtain ⟨t, ht, rfl⟩ := Table.mem_alter.mp ht'
    have hp := phase_cancelled_iff.mp hp
    have e : (Table.altered (fun r => Keyed.key r == id) f t).id = i := e
    refine ⟨t.card, card_mem ht, (same t).2.2.symm.trans e, phase_cancelled_iff.mpr ?_⟩
    unfold Table.altered at hp
    split at hp
    · exact absurd hp (hc t)
    · exact hp
  · rintro i ⟨c, hc', e, hoff⟩
    obtain ⟨t', ht', rfl⟩ := mem_cards.mp hc'
    obtain ⟨t, ht, rfl⟩ := Table.mem_alter.mp ht'
    have e : (Table.altered (fun r => Keyed.key r == id) f t).id = i := e
    have same_ : (Table.altered (fun r => Keyed.key r == id) f t).deletedAt = t.deletedAt := by
      unfold Table.altered
      split
      · exact hd t
      · rfl
    refine ⟨t.card, card_mem ht, (same t).2.2.symm.trans e, ?_⟩
    rw [card_deleted, ← same_]
    exact hoff
  intro p n i
  constructor
  · rintro ⟨t', ht', hp, hn, hi⟩
    obtain ⟨t, ht, rfl⟩ := Table.mem_alter.mp ht'
    obtain ⟨e1, e2, e3⟩ := same t
    exact ⟨t, ht, e1 ▸ hp, e2 ▸ hn, e3 ▸ hi⟩
  · rintro ⟨t, ht, hp, hn, hi⟩
    obtain ⟨e1, e2, e3⟩ := same t
    exact ⟨_, Table.mem_alter.mpr ⟨t, ht, rfl⟩, e1.trans hp, e2.trans hn, e3.trans hi⟩

section Release

variable {L : Licence} {s s' : Ledger} {u : Unit}

theorem requireReleasable_ok {R : Ledger → Ledger → Prop} [Frame R] {task : Task}
    (h : (requireReleasable task : LedgerTxn R Unit).run s = .ok (u, s')) :
    s = s' ∧ task.deletedAt = none ∧ (task.state.held || task.state == .paused) = true := by
  obtain ⟨u1, s1, h1, h⟩ := run_bind_ok.mp h
  obtain ⟨rfl, hd, hst⟩ := requireTaskState_ok h1
  obtain ⟨-, rfl⟩ := run_require_ok.mp h
  exact ⟨rfl, hd, hst⟩

/-- **A task taken back is on the board, and what that makes ready is released**: whatever was
    owed of the one task and of its project is settled. -/
theorem releaseInside_edits {project number : Nat} {because : String} {untouched : Bool} {r : Task}
    {d : Debt} (hR : L.Fair)
    (h : (releaseInside project number because untouched).run s = .ok (r, s')) (hw : Wired s.board)
    (hu : ∀ x ∈ d.unmet, ∀ t ∈ s.tasks.rows, t.project = project → t.number = number → x = t.id)
    (ht : d.untold = ∅) (hlo : d.loose ⊆ {project}) :
    ∃ d', d'.Paid ∧ Edits L d s.board d' s'.board ∧ SamePlan s s' := by
  obtain ⟨u1, s1, h1, h⟩ := run_bind_ok.mp h
  obtain rfl := requireText_ok h1
  obtain ⟨t, s2, h2, h⟩ := run_bind_ok.mp h
  obtain ⟨rfl, htm, hp, hn⟩ := taskRow_ok h2
  obtain ⟨u3, s3, h3, h⟩ := run_bind_ok.mp h
  obtain ⟨rfl, -, hst⟩ := requireReleasable_ok h3
  obtain ⟨u4, s4, h4, h⟩ := run_bind_ok.mp h
  have b4 : s4.board = s.board := board_of_lift h4
  obtain ⟨from_, s5, h5, h⟩ := run_bind_ok.mp h
  have b5 : s5.board = s4.board := board_of_lift h5
  obtain ⟨now', s6, h6, h⟩ := run_bind_ok.mp h
  have b6 : s6.board = s5.board := board_of_lift h6
  obtain ⟨u7, s7, h7, h⟩ := run_bind_ok.mp h
  have b : s6.board = s.board := b6.trans (b5.trans b4)
  have hc : t.card ∈ s6.board.cards := b ▸ card_mem htm
  have hw6 : Wired s6.board := b ▸ hw
  have e7 : Edits L d s6.board ((d.touch t.card).loosen t.card.project) s7.board :=
    updateTask_shift (g := fun c => { c with assignee := none, phase := .opened }) (fun _ => rfl)
      h7 hw6 hc rfl rfl (.shelved d t.card (phase_inHand_iff.mpr hst)) rfl
  have hw7 := e7.wired hw6
  obtain ⟨u8, s8, h8, h⟩ := run_bind_ok.mp h
  have b8 : s8.board = s7.board := board_of_lift h8
  obtain ⟨requester, s9, h9, h⟩ := run_bind_ok.mp h
  obtain ⟨rfl, -⟩ := participantRow_ok h9
  obtain ⟨s0, s10, h10, h⟩ := run_bind_ok.mp h
  obtain ⟨rfl, rfl⟩ := run_state_ok.mp h10
  obtain ⟨m, s11, h11, h⟩ := run_bind_ok.mp h
  have b11 : s11.board = s8.board := board_of_lift h11
  obtain ⟨u12, s12, h12, h13⟩ := run_bind_ok.mp h
  obtain ⟨rfl, -⟩ := taskById_ok h13
  have b' : s11.board = s7.board := b11.trans b8
  -- whatever the task needs now, it is on the board
  have hc7 : { t.card with assignee := none, phase := Phase.opened } ∈ s7.board.cards := by
    have hb : s7.board = s6.board.put { t.card with assignee := none, phase := .opened } := by
      have := updateTask_board (g := fun c => { c with assignee := none, phase := .opened })
        (fun _ => rfl) h7
      rw [this]
      exact hw6.edit_eq_put hc rfl
    rw [hb]
    exact (@Board.mem_put _ _ { t.card with assignee := none, phase := .opened } _ hc rfl).mpr
      (Or.inl rfl)
  let d8 : Debt := { (d.touch t.card).loosen t.card.project with unmet := d.unmet \ {t.id} }
  have e8 : Edit L ((d.touch t.card).loosen t.card.project) s7.board d8 s7.board :=
    .allMet _ t.id (Or.inr fun c hc' e => Or.inl (by rw [hw7.unique hc' hc7 e]))
  have hne : (d.unmet \ {t.id}) = ∅ := by
    refine Set.eq_empty_iff_forall_notMem.mpr fun x hx => hx.2 ?_
    exact hu x hx.1 t htm hp hn
  obtain ⟨d', e12, hd', hon⟩ := releaseReady_edits (d := d8) hR h12 (b' ▸ hw7) hne
  rw [b'] at e12
  rw [b] at e7
  refine ⟨d', ⟨hd'.unmet.trans hne, hd'.untold.trans ht, ?_⟩, (e7.step e8).trans e12, ?_⟩
  · rw [hd'.loose]
    refine Set.eq_empty_iff_forall_notMem.mpr fun x hx => hx.2 ?_
    rcases hx.1 with rfl | hx'
    · exact hp
    · exact hlo hx'
  · exact (SamePlan.of_board b).trans ((SamePlan.of_updateTask h7 (fun _ => ⟨rfl, rfl⟩) (by simp)
      (fun _ => rfl)).trans ((SamePlan.of_board b').trans (.of_onward hon)))

end Release

end ConsensFlow
