/-
  File:      ConsensFlow/Edits/Editing.lean
  Subject:   THE EDITS OF A TASK CHANGED before its window has it: its tier, and the plan around
             it.

  * `Debt.Around` -- what may be owed while the plan around one task is written: the needs of that
    task, and the release of its project;
  * `Linked` -- which edges a loop of links leaves, exactly;
  * **`relink_edits`** -- the plan is as it was asked, no circle is closed, and what was queued with
    a need not accepted is on the board again;
  * **`editTaskWith_edits`** -- all of an edit.
-/
import ConsensFlow.Edits.Giving

namespace ConsensFlow

open Lib Txn

/-! ## 1. What is owed around one task -/

/-- Nothing is owed but the needs of the task and the release of its project. -/
structure Debt.Around (project task : Nat) (d : Debt) : Prop where
  unmet : d.unmet ⊆ {task}
  untold : d.untold = ∅
  loose : d.loose ⊆ {project}

theorem Debt.Paid.around {d : Debt} (h : d.Paid) (project task : Nat) : d.Around project task := by
  refine ⟨?_, h.untold, ?_⟩
  · rw [h.unmet]
    exact Set.empty_subset _
  · rw [h.loose]
    exact Set.empty_subset _

/-! ## 2. Links removed and added -/

section Links

variable {L : Licence} {s s' : Ledger} {u : Unit} {project : Nat} {task : Task}

theorem unlinkNeed_ok {n : Nat} (h : (unlinkNeed project task n).run s = .ok (u, s')) :
    ∃ o ∈ s.tasks.rows, o.project = project ∧ o.number = n ∧
      s' = { s with needs := s.needs.filter fun e => e != (task.id, o.id) } := by
  obtain ⟨o, s1, h1, h2⟩ := run_bind_ok.mp h
  obtain ⟨rfl, ho, hp, hn⟩ := taskRow_ok h1
  simp only [deleteNeed, writeBoard, run_write_ok] at h2
  exact ⟨o, ho, hp, hn, h2.symm⟩

theorem unlinkWaiter_ok {n : Nat} (h : (unlinkWaiter project task n).run s = .ok (u, s')) :
    ∃ o ∈ s.tasks.rows, o.project = project ∧ o.number = n ∧
      s' = { s with needs := s.needs.filter fun e => e != (o.id, task.id) } := by
  obtain ⟨o, s1, h1, h2⟩ := run_bind_ok.mp h
  obtain ⟨rfl, ho, hp, hn⟩ := taskRow_ok h1
  simp only [deleteNeed, writeBoard, run_write_ok] at h2
  exact ⟨o, ho, hp, hn, h2.symm⟩

theorem linkNeed_ok {n : Nat} (h : (linkNeed project task n).run s = .ok (u, s')) :
    ∃ o ∈ s.tasks.rows, o.project = project ∧ o.number = n ∧ o.state ≠ .cancelled ∧
      (o.state = .accepted ∨ o.deletedAt = none) ∧ ¬ Graph.Reaches s.needs o.id task.id ∧
      task.id ≠ o.id ∧ s' = { s with needs := s.needs ++ [(task.id, o.id)] } := by
  obtain ⟨o, s1, h1, h⟩ := run_bind_ok.mp h
  obtain ⟨rfl, ho, hp, hn⟩ := taskRow_ok h1
  simp only [run_bind_ok, run_state_ok, run_require_ok, run_doWhen_ok] at h
  obtain ⟨s0, s1, ⟨rfl, rfl⟩, u1, s2, ⟨hc, rfl⟩, u2, s3, ⟨hx, rfl⟩, u3, s4, h4, h5⟩ := h
  have e : s = s4 ∧ (o.state = .accepted ∨ o.deletedAt = none) := by
    rcases h4 with ⟨-, h4⟩ | ⟨ha, rfl⟩
    · exact ⟨(requireOnBoard_ok h4).1, .inr (requireOnBoard_ok h4).2⟩
    · exact ⟨rfl, .inl (by simpa using ha)⟩
  obtain ⟨rfl, hk⟩ := e
  obtain ⟨rfl, hne, -⟩ := insertNeed_ok h5
  refine ⟨o, ho, hp, hn, by simpa using hx, hk, fun k => ?_, hne, rfl⟩
  have : task.id ∈ Graph.reach s.needs o.id := Graph.mem_reach.mpr k
  simp [Ledger.upstream, this] at hc

theorem linkWaiter_ok {n : Nat} (h : (linkWaiter project task n).run s = .ok (u, s')) :
    ∃ o ∈ s.tasks.rows, o.project = project ∧ o.number = n ∧ o.state = .opened ∧
      ¬ Graph.Reaches s.needs task.id o.id ∧ o.id ≠ task.id ∧
      s' = { s with needs := s.needs ++ [(o.id, task.id)] } := by
  obtain ⟨o, s1, h1, h⟩ := run_bind_ok.mp h
  obtain ⟨rfl, ho, hp, hn⟩ := taskRow_ok h1
  simp only [run_bind_ok, run_state_ok, run_require_ok] at h
  obtain ⟨s0, s1, ⟨rfl, rfl⟩, u1, s2, ⟨hc, rfl⟩, u2, s3, ⟨hx, rfl⟩, h5⟩ := h
  obtain ⟨rfl, hne, -⟩ := insertNeed_ok h5
  refine ⟨o, ho, hp, hn, by simpa using hx, fun k => ?_, hne, rfl⟩
  have : o.id ∈ Graph.reach s.needs task.id := Graph.mem_reach.mpr k
  simp [Ledger.upstream, this] at hc

/-- What a loop over the plan around a task leaves: the tables but for the edges, and of these
    every one that was there, but those of `gone`, and each of `come`. -/
structure Linked (s s' : Ledger) (gone come : Nat × Nat → Prop) : Prop where
  same : s' = { s with needs := s'.needs }
  edges : ∀ e, e ∈ s'.needs ↔ (e ∈ s.needs ∧ ¬ gone e) ∨ come e

theorem Linked.refl (s : Ledger) : Linked s s (fun _ => False) (fun _ => False) :=
  ⟨rfl, fun e => by simp⟩

/-- One round of a loop that removes edges, or adds them. -/
theorem unlinkNeed_edits {n : Nat} {d : Debt} (h : (unlinkNeed project task n).run s = .ok (u, s'))
    (hw : Wired s.board) (ht : task.card ∈ s.board.cards) (hp : task.project = project)
    (hd : d.Around project task.id) :
    (∃ d', Edits L d s.board d' s'.board ∧ d'.Around project task.id) ∧
      Linked s s' (fun e => e.1 = task.id ∧ s.HasNumber project n e.2) (fun _ => False) := by
  obtain ⟨o, ho, rfl, rfl, rfl⟩ := unlinkNeed_ok h
  refine ⟨⟨_, (Edit.unlink d task.card o.id ht).once, hd.unmet, hd.untold, ?_⟩, rfl, fun e => ?_⟩
  · rintro x (rfl | hx)
    · exact hp
    · exact hd.loose hx
  · rw [hasNumber_iff hw ho]
    simp only [List.mem_filter, bne_iff_ne, ne_eq, or_false]
    exact and_congr_right fun _ => not_congr Prod.ext_iff

theorem unlinkWaiter_edits {n : Nat} {d : Debt}
    (h : (unlinkWaiter project task n).run s = .ok (u, s'))
    (hw : Wired s.board) (hd : d.Around project task.id) :
    (∃ d', Edits L d s.board d' s'.board ∧ d'.Around project task.id) ∧
      Linked s s' (fun e => e.2 = task.id ∧ s.HasNumber project n e.1) (fun _ => False) := by
  obtain ⟨o, ho, rfl, rfl, rfl⟩ := unlinkWaiter_ok h
  refine ⟨⟨_, (Edit.unlink d o.card task.id (card_mem ho)).once, hd.unmet, hd.untold, ?_⟩, rfl,
    fun e => ?_⟩
  · rintro x (rfl | hx)
    · rfl
    · exact hd.loose hx
  · rw [hasNumber_iff hw ho]
    simp only [List.mem_filter, bne_iff_ne, ne_eq, or_false]
    exact and_congr_right fun _ => not_congr (Prod.ext_iff.trans and_comm)

theorem linkNeed_edits {n : Nat} {d : Debt} (h : (linkNeed project task n).run s = .ok (u, s'))
    (hw : Wired s.board) (ht : task.card ∈ s.board.cards) (hp : task.project = project)
    (hd : d.Around project task.id) :
    (∃ d', Edits L d s.board d' s'.board ∧ d'.Around project task.id) ∧
      Linked s s' (fun _ => False) (fun e => e.1 = task.id ∧ s.HasNumber project n e.2) := by
  obtain ⟨o, ho, rfl, rfl, hx, hk, hr, hne, rfl⟩ := linkNeed_ok h
  have on : o.card.phase = .accepted ∨ o.card.deleted = false := by
    rcases hk with ha | hd
    · exact .inl (phase_accepted_iff.mpr ha)
    · refine .inr ?_
      rw [card_deleted, hd]
      rfl
  refine ⟨⟨_, (Edit.link d task.card o.card ht (card_mem ho) hne hp hr
    (fun k => hx (phase_cancelled_iff.mp k)) on).once, ?_, hd.untold, hd.loose⟩, rfl, fun e => ?_⟩
  · rintro x (rfl | hx)
    · rfl
    · exact hd.unmet hx
  · rw [hasNumber_iff hw ho]
    simp only [List.mem_append, List.mem_singleton, not_false_eq_true, and_true]
    exact or_congr_right Prod.ext_iff

theorem linkWaiter_edits {n : Nat} {d : Debt} (h : (linkWaiter project task n).run s = .ok (u, s'))
    (hw : Wired s.board) (ht : task.card ∈ s.board.cards) (hp : task.project = project)
    (hx : task.card.phase ≠ .cancelled) (hk : task.card.deleted = false)
    (hd : d.Around project task.id) :
    (∃ d', Edits L d s.board d' s'.board ∧ d'.Around project task.id) ∧
      Linked s s' (fun _ => False) (fun e => e.2 = task.id ∧ s.HasNumber project n e.1) := by
  obtain ⟨o, ho, rfl, rfl, hop, hr, hne, rfl⟩ := linkWaiter_ok h
  have e1 : Edit L d s.board (d.owe o.id) (s.board.link o.id task.id) :=
    .link d o.card task.card (card_mem ho) ht hne hp.symm hr hx (.inr hk)
  have e2 : Edit L (d.owe o.id) (s.board.link o.id task.id) _ (s.board.link o.id task.id) :=
    .allMet _ o.id (Or.inr fun c hc e =>
      Or.inl (hw.unique (x := c) hc (card_mem ho) e ▸ phase_opened_iff.mpr hop))
  refine ⟨⟨_, e1.once.step e2, ?_, hd.untold, hd.loose⟩, rfl, fun e => ?_⟩
  · rintro x ⟨rfl | hx, hn⟩
    · exact absurd rfl hn
    · exact hd.unmet hx
  · rw [hasNumber_iff hw ho]
    simp only [List.mem_append, List.mem_singleton, not_false_eq_true, and_true]
    exact or_congr_right (Prod.ext_iff.trans and_comm)

theorem Linked.trans {s1 : Ledger} {g1 c1 g2 c2 : Nat × Nat → Prop} (h1 : Linked s s1 g1 c1)
    (h2 : Linked s1 s' g2 c2) (hsep : ∀ e, c1 e → ¬ g2 e) :
    Linked s s' (fun e => g1 e ∨ g2 e) (fun e => c1 e ∨ c2 e) := by
  refine ⟨?_, fun e => ?_⟩
  · rw [h2.same, h1.same]
  · rw [h2.edges, h1.edges]
    have := hsep e
    tauto

theorem Linked.congr {g g' c c' : Nat × Nat → Prop} (h : Linked s s' g c) (hg : ∀ e, g e ↔ g' e)
    (hc : ∀ e, c e ↔ c' e) : Linked s s' g' c' := by
  refine ⟨h.same, fun e => ?_⟩
  rw [h.edges, hg, hc]

/-- A loop over the plan around a task: what each round does to the edges, the loop does. -/
theorem linkedEach_edits {f : Nat → LedgerM Unit} (gone come : Nat → Nat × Nat → Prop)
    {ns : List Nat} {d : Debt} {t : Nat}
    (step : ∀ n ∈ ns, ∀ {s1 s2 : Ledger} {u : Unit} {d : Debt}, (f n).run s1 = .ok (u, s2) →
      s1 = { s with needs := s1.needs } → Wired s1.board → d.Around project t →
      (∃ d', Edits L d s1.board d' s2.board ∧ d'.Around project t) ∧
        Linked s1 s2 (gone n) (come n))
    (hsep : ∀ n m e, come n e → ¬ gone m e) (h : (ns.forM f).run s = .ok (u, s'))
    (hw : Wired s.board) (hd : d.Around project t) :
    (∃ d', Edits L d s.board d' s'.board ∧ d'.Around project t) ∧
      Linked s s' (fun e => ∃ n ∈ ns, gone n e) (fun e => ∃ n ∈ ns, come n e) := by
  suffices key : ∀ {ms : List Nat} {s1 s2 : Ledger} {u : Unit} {d : Debt}, ms ⊆ ns →
      (ms.forM f).run s1 = .ok (u, s2) → s1 = { s with needs := s1.needs } → Wired s1.board →
      d.Around project t → (∃ d', Edits L d s1.board d' s2.board ∧ d'.Around project t) ∧
        Linked s1 s2 (fun e => ∃ n ∈ ms, gone n e) (fun e => ∃ n ∈ ms, come n e) from
    key (List.Subset.refl ns) h rfl hw hd
  intro ms
  induction ms with
  | nil =>
    intro s1 s2 u d _ h _ _ hd
    obtain ⟨-, rfl⟩ := run_pure_ok.mp h
    exact ⟨⟨d, .refl _ _, hd⟩, (Linked.refl s1).congr (by simp) (by simp)⟩
  | cons n ms ih =>
    intro s1 s2 u d hsub h e hw hd
    obtain ⟨u1, s3, h1, h2⟩ := run_bind_ok.mp h
    obtain ⟨⟨d1, e1, hd1⟩, l1⟩ := step n (hsub List.mem_cons_self) h1 e hw hd
    have e3 : s3 = { s with needs := s3.needs } := by
      have k := l1.same
      rw [e] at k
      exact k
    obtain ⟨⟨d2, e2, hd2⟩, l2⟩ :=
      ih (fun x hx => hsub (List.mem_cons_of_mem _ hx)) h2 e3 (e1.wired hw) hd1
    refine ⟨⟨d2, e1.trans e2, hd2⟩, (l1.trans l2 fun e k => ?_).congr (by simp) (by simp)⟩
    rintro ⟨m, -, k'⟩
    exact hsep n m e k k'

end Links

/-! ## 3. The plan around a task -/

section Relink

variable {L : Licence} {s s' : Ledger} {u : Unit}

/-- A task queued for a window with a need not accepted is on the board again; whatever else
    was asked of it leaves its needs met, or nobody with it. -/
theorem backToWait_edits {project : Nat} {t : Task} {by_ : String} {d : Debt} (hR : L.Fair)
    (h : (backToWait project t by_).run s = .ok (u, s')) (hw : Wired s.board)
    (ht : t ∈ s.tasks.rows) (hp : t.project = project) (hd : d.Around project t.id) :
    ∃ d', Edits L d s.board d' s'.board ∧ d'.unmet = ∅ ∧ d'.Around project t.id ∧
      SamePlan s s' := by
  simp only [backToWait, run_bind_ok, run_state_ok] at h
  obtain ⟨s0, s1, ⟨rfl, rfl⟩, h⟩ := h
  split at h
  · obtain ⟨u1, s1, h1, h⟩ := run_bind_ok.mp h
    obtain ⟨-, rfl⟩ := run_require_ok.mp h1
    obtain ⟨r, s2, h2, h⟩ := run_bind_ok.mp h
    obtain ⟨-, rfl⟩ := run_pure_ok.mp h
    have hun : ∀ x ∈ d.unmet, ∀ r ∈ s.tasks.rows, r.project = project → r.number = t.number →
        x = r.id := by
      intro x hx r hr hrp hrn
      have e : x = t.id := hd.unmet hx
      rw [e]
      exact hw.numbers _ (card_mem ht) _ (card_mem hr) (hp.trans hrp.symm) hrn.symm
    obtain ⟨d', hd', he, hn⟩ := releaseInside_edits (d := d) hR h2 hw hun hd.untold hd.loose
    exact ⟨d', he, hd'.unmet, hd'.around _ _, hn⟩
  · next hcond =>
    obtain ⟨-, rfl⟩ := run_pure_ok.mp h
    have hmet : s.board.Met t.id ∨
        ∀ c ∈ s.board.cards, c.id = t.id → c.phase = .opened ∨ c.assignee = none := by
      by_cases hb : ((s.needed t.id).any fun d => d.state != .accepted) = true
      · refine Or.inr fun c hc e => ?_
        rw [hw.unique hc (card_mem ht) e]
        simp only [hb, Bool.true_and, Bool.and_eq_true, bne_iff_ne, ne_eq, not_and,
          Decidable.not_not] at hcond
        cases ha : t.assignee with
        | none => exact Or.inr ha
        | some w => exact Or.inl (phase_opened_iff.mpr (hcond (by rw [ha]; rfl)))
      · refine Or.inl ((met_iff hw).mpr (List.all_eq_true.mpr fun x hx => ?_))
        have := List.any_eq_false.mp (Bool.eq_false_iff.mpr hb) x hx
        simpa using this
    refine ⟨_, (Edit.allMet d t.id hmet).once, ?_, ⟨?_, hd.untold, hd.loose⟩, .of_board rfl⟩
    · refine Set.eq_empty_iff_forall_notMem.mpr fun x hx => hx.2 (hd.unmet hx.1)
    · exact fun x hx => hd.unmet hx.1

/-- The numbers a list of links is to have: those asked, or those it has. -/
def Links.now (held : List Nat) : Option Links → List Nat
  | none => held
  | some l => l.wanted held

/-- **The plan an edit of the task `t` asks for**: its needs and its waiters as they are wanted, and
    every other edge as it is. -/
def TaskEdit.Asks (edit : TaskEdit) (s : Ledger) (t : Task) (e : Nat × Nat) : Prop :=
  (e ∈ s.needs ∧ e.1 ≠ t.id ∧ e.2 ≠ t.id) ∨
  (e.1 = t.id ∧ ∃ n ∈ Links.now ((s.needed t.id).map (·.number)) edit.needs,
    s.HasNumber t.project n e.2) ∨
  (e.2 = t.id ∧ ∃ n ∈ Links.now ((s.needing t.id).map (·.number)) edit.before,
    s.HasNumber t.project n e.1)

/-- What a loop removes of the numbers held, and what another adds. -/
def Links.removed (held : List Nat) (o : Option Links) : List Nat :=
  held.filter fun n => (o.map (Links.wanted held)).any fun now => !now.contains n

def Links.added (held : List Nat) (o : Option Links) : List Nat :=
  ((o.map (Links.wanted held)).getD []).filter fun n => !held.contains n

theorem Links.mem_now {held : List Nat} {o : Option Links} {n : Nat} :
    n ∈ Links.now held o ↔ (n ∈ held ∧ n ∉ Links.removed held o) ∨ n ∈ Links.added held o := by
  cases o with
  | none => simp [Links.now, Links.removed, Links.added]
  | some l =>
    simp only [Links.now, Links.removed, Links.added, Option.map_some, Option.any_some,
      Option.getD_some, List.mem_filter, List.contains_eq_mem, Bool.not_eq_true',
      decide_eq_false_iff_not]
    tauto

/-- A task by its number is one, where the numbers of a project are one task's each. -/
theorem exists_hasNumber {o : Task} (ho : o ∈ s.tasks.rows)
    {ns : List Nat} : (∃ n ∈ ns, s.HasNumber o.project n o.id) ↔ o.number ∈ ns := by
  constructor
  · rintro ⟨n, hn, r, hr, hp, rfl, e⟩
    rw [← Table.eq_of_key hr ho e]
    exact hn
  · exact fun h => ⟨o.number, h, o, ho, rfl, rfl, rfl⟩

theorem mem_needs_iff (hw : Wired s.board) {t o : Task} (ht : t ∈ s.tasks.rows)
    (ho : o ∈ s.tasks.rows) (hp : o.project = t.project) :
    (t.id, o.id) ∈ s.needs ↔ o.number ∈ (s.needed t.id).map (·.number) := by
  rw [List.mem_map]
  constructor
  · exact fun h => ⟨o, mem_needed.mpr ⟨ho, h⟩, rfl⟩
  · rintro ⟨r, hr, e⟩
    obtain ⟨hr, hn⟩ := mem_needed.mp hr
    obtain ⟨x, hx, y, hy, ex, ey, exy⟩ := hw.edges _ hn
    rw [hw.unique hx (card_mem ht) ex, hw.unique hy (card_mem hr) ey] at exy
    have : r.id = o.id := hw.numbers _ (card_mem hr) _ (card_mem ho)
      (exy.symm.trans hp.symm) e
    rw [← this]
    exact hn

theorem mem_waiters_iff (hw : Wired s.board) {t o : Task} (ht : t ∈ s.tasks.rows)
    (ho : o ∈ s.tasks.rows) (hp : o.project = t.project) :
    (o.id, t.id) ∈ s.needs ↔ o.number ∈ (s.needing t.id).map (·.number) := by
  rw [List.mem_map]
  constructor
  · exact fun h => ⟨o, mem_needing.mpr ⟨ho, h⟩, rfl⟩
  · rintro ⟨r, hr, e⟩
    obtain ⟨hr, hn⟩ := mem_needing.mp hr
    obtain ⟨x, hx, y, hy, ex, ey, exy⟩ := hw.edges _ hn
    rw [hw.unique hx (card_mem hr) ex, hw.unique hy (card_mem ht) ey] at exy
    have : r.id = o.id := hw.numbers _ (card_mem hr) _ (card_mem ho)
      (exy.trans hp.symm) e
    rw [← this]
    exact hn

/-- The edges of one side of a task: those it keeps and those it is given are those asked for. -/
theorem side_iff {i : Nat} {held : List Nat} {o : Option Links} {project : Nat} {inNeeds : Prop}
    (hrow : inNeeds → ∃ r ∈ s.tasks.rows, r.project = project ∧ r.id = i)
    (hin : ∀ r ∈ s.tasks.rows, r.project = project → r.id = i → (inNeeds ↔ r.number ∈ held)) :
    (inNeeds ∧ ¬ ∃ n ∈ Links.removed held o, s.HasNumber project n i) ∨
      (∃ n ∈ Links.added held o, s.HasNumber project n i) ↔
    ∃ n ∈ Links.now held o, s.HasNumber project n i := by
  by_cases h : ∃ r ∈ s.tasks.rows, r.project = project ∧ r.id = i
  · obtain ⟨r, hr, rfl, rfl⟩ := h
    rw [exists_hasNumber hr, exists_hasNumber hr, exists_hasNumber hr, hin r hr rfl rfl,
      Links.mem_now]
  · have none_of : ∀ {ns : List Nat}, ¬ ∃ n ∈ ns, s.HasNumber project n i := by
      rintro ns ⟨n, -, r, hr, hp, -, e⟩
      exact h ⟨r, hr, hp, e⟩
    constructor
    · rintro (⟨k, -⟩ | k)
      · exact absurd (hrow k) h
      · exact absurd k none_of
    · exact fun k => absurd k none_of

/-- **The four loops of `relink` leave the plan asked for.** -/
theorem asks_iff (hw : Wired s.board) (ha : Graph.Acyclic s.needs) {t : Task}
    (ht : t ∈ s.tasks.rows) {edit : TaskEdit} {a i : Nat} :
    ((a, i) ∈ s.needs ∧
        ¬ ((a = t.id ∧ ∃ n ∈ Links.removed ((s.needed t.id).map (·.number)) edit.needs,
            s.HasNumber t.project n i) ∨
          (i = t.id ∧ ∃ n ∈ Links.removed ((s.needing t.id).map (·.number)) edit.before,
            s.HasNumber t.project n a))) ∨
      ((a = t.id ∧ ∃ n ∈ Links.added ((s.needed t.id).map (·.number)) edit.needs,
          s.HasNumber t.project n i) ∨
        (i = t.id ∧ ∃ n ∈ Links.added ((s.needing t.id).map (·.number)) edit.before,
          s.HasNumber t.project n a)) ↔ edit.Asks s t (a, i) := by
  have irrefl : ∀ x, (x, x) ∉ s.needs := by
    intro x h
    exact ha x (.single h)
  have needs : (t.id, i) ∈ s.needs → ∃ r ∈ s.tasks.rows, r.project = t.project ∧ r.id = i := by
    intro h
    obtain ⟨x, hx, y, hy, ex, ey, exy⟩ := hw.edges _ h
    obtain ⟨r, hr, rfl⟩ := mem_cards.mp hy
    rw [hw.unique hx (card_mem ht) ex] at exy
    exact ⟨r, hr, exy.symm, ey⟩
  have waits : (a, t.id) ∈ s.needs → ∃ r ∈ s.tasks.rows, r.project = t.project ∧ r.id = a := by
    intro h
    obtain ⟨x, hx, y, hy, ex, ey, exy⟩ := hw.edges _ h
    obtain ⟨r, hr, rfl⟩ := mem_cards.mp hx
    rw [hw.unique hy (card_mem ht) ey] at exy
    exact ⟨r, hr, exy, ex⟩
  have needsSide := side_iff (o := edit.needs) needs fun r hr hp e =>
    e ▸ mem_needs_iff hw ht hr hp
  have waitsSide := side_iff (o := edit.before) waits fun r hr hp e =>
    e ▸ mem_waiters_iff hw ht hr hp
  unfold TaskEdit.Asks
  by_cases h1 : a = t.id
  · by_cases h2 : i = t.id
    · subst h1 h2
      simp only [← needsSide, ← waitsSide, irrefl t.id, false_and, false_or, true_and]
    · subst h1
      rw [← needsSide]
      simp only [h2, false_and, or_false, true_and, ne_eq, not_true_eq_false, and_false, false_or]
  · by_cases h2 : i = t.id
    · subst h2
      rw [← waitsSide]
      simp only [h1, false_and, false_or, true_and, ne_eq, not_true_eq_false, and_false]
    · simp [h1, h2]

theorem hasNumber_congr {s1 : Ledger} (e : s1 = { s with needs := s1.needs }) :
    s1.HasNumber = s.HasNumber := by
  have k : s1.tasks = s.tasks := by rw [e]
  unfold Ledger.HasNumber
  rw [k]

theorem Linked.same_trans {s1 : Ledger} {g c : Nat × Nat → Prop} (h : Linked s1 s' g c)
    (e : s1 = { s with needs := s1.needs }) : s' = { s with needs := s'.needs } := by
  have k := h.same
  rw [e] at k
  exact k

/-- The four loops of `relink`: the plan is as it was asked, and what is owed is owed around the
    one task. -/
theorem relinkLoops_edits {project : Nat} {t : Task} (edit : TaskEdit) {d : Debt}
    {s1 s2 s3 : Ledger} {u1 u2 u3 : Unit} (hw : Wired s.board) (ha : Graph.Acyclic s.needs)
    (ht : t ∈ s.tasks.rows) (hp : t.project = project) (hx : t.state ≠ .cancelled)
    (hk : t.card.deleted = false) (hd : d.Around project t.id)
    (h1 : ((Links.removed ((s.needed t.id).map (·.number)) edit.needs).forM
      (unlinkNeed project t)).run s = .ok (u, s1))
    (h2 : ((Links.removed ((s.needing t.id).map (·.number)) edit.before).forM
      (unlinkWaiter project t)).run s1 = .ok (u1, s2))
    (h3 : ((Links.added ((s.needed t.id).map (·.number)) edit.needs).forM
      (linkNeed project t)).run s2 = .ok (u2, s3))
    (h4 : ((Links.added ((s.needing t.id).map (·.number)) edit.before).forM
      (linkWaiter project t)).run s3 = .ok (u3, s')) :
    (∃ d', Edits L d s.board d' s'.board ∧ d'.Around project t.id) ∧
      s' = { s with needs := s'.needs } ∧ ∀ e, e ∈ s'.needs ↔ edit.Asks s t e := by
  subst hp
  have card : ∀ {r : Ledger}, r = { s with needs := r.needs } → t.card ∈ r.board.cards := by
    intro r e
    have k : r.tasks = s.tasks := by rw [e]
    exact card_mem (k ▸ ht)
  obtain ⟨⟨d1, e1, hd1⟩, l1⟩ := linkedEach_edits (L := L) (s := s) (d := d)
    (fun n e => e.1 = t.id ∧ s.HasNumber t.project n e.2) (fun _ _ => False)
    (fun n _ {r1 r2 v d} h e hw hd => by
      rw [← hasNumber_congr e]
      exact unlinkNeed_edits h hw (card e) rfl hd) (by simp) h1 hw hd
  have hw1 := e1.wired hw
  have q1 := l1.same_trans rfl
  obtain ⟨⟨d2, e2, hd2⟩, l2⟩ := linkedEach_edits (L := L) (s := s1) (d := d1)
    (fun n e => e.2 = t.id ∧ s.HasNumber t.project n e.1) (fun _ _ => False)
    (fun n _ {r1 r2 v d} h e hw hd => by
      rw [← hasNumber_congr q1, ← hasNumber_congr e]
      exact unlinkWaiter_edits h hw hd) (by simp) h2 hw1 hd1
  have hw2 := e2.wired hw1
  have q2 := l2.same_trans q1
  obtain ⟨⟨d3, e3, hd3⟩, l3⟩ := linkedEach_edits (L := L) (s := s2) (d := d2)
    (fun _ _ => False) (fun n e => e.1 = t.id ∧ s.HasNumber t.project n e.2)
    (fun n _ {r1 r2 v d} h e hw hd => by
      have q : r1 = { s with needs := r1.needs } := by
        have k := e
        rw [q2] at k
        exact k
      rw [← hasNumber_congr q]
      exact linkNeed_edits h hw (card q) rfl hd) (by simp) h3 hw2 hd2
  have hw3 := e3.wired hw2
  have q3 := l3.same_trans q2
  obtain ⟨⟨d4, e4, hd4⟩, l4⟩ := linkedEach_edits (L := L) (s := s3) (d := d3)
    (fun _ _ => False) (fun n e => e.2 = t.id ∧ s.HasNumber t.project n e.1)
    (fun n _ {r1 r2 v d} h e hw hd => by
      have q : r1 = { s with needs := r1.needs } := by
        have k := e
        rw [q3] at k
        exact k
      rw [← hasNumber_congr q]
      exact linkWaiter_edits h hw (card q) rfl (fun k => hx (phase_cancelled_iff.mp k)) hk hd)
    (by simp) h4 hw3 hd3
  refine ⟨⟨d4, e1.trans (e2.trans (e3.trans e4)), hd4⟩, l4.same_trans q3, fun ⟨a, i⟩ => ?_⟩
  rw [← asks_iff hw ha ht, l4.edges, l3.edges, l2.edges, l1.edges]
  have pull : ∀ {ns : List Nat} {p : Prop} {q : Nat → Prop},
      (∃ n ∈ ns, p ∧ q n) ↔ p ∧ ∃ n ∈ ns, q n := by
    intro ns p q
    constructor
    · rintro ⟨n, hn, k, k'⟩
      exact ⟨k, n, hn, k'⟩
    · rintro ⟨k, n, hn, k'⟩
      exact ⟨n, hn, k, k'⟩
  simp only [pull, and_false, exists_const, or_false, not_false_eq_true, and_true, not_or,
    and_assoc, or_assoc]

theorem mem_neededNumbers {t n : Nat} : n ∈ (s.needed t).map (·.number) ↔
    ∃ p i, s.HasNumber p n i ∧ (t, i) ∈ s.needs := by
  simp only [List.mem_map, mem_needed]
  constructor
  · rintro ⟨r, ⟨hr, hn⟩, rfl⟩
    exact ⟨r.project, r.id, ⟨r, hr, rfl, rfl, rfl⟩, hn⟩
  · rintro ⟨p, i, ⟨r, hr, -, rfl, rfl⟩, hn⟩
    exact ⟨r, ⟨hr, hn⟩, rfl⟩

theorem mem_needingNumbers {t n : Nat} : n ∈ (s.needing t).map (·.number) ↔
    ∃ p i, s.HasNumber p n i ∧ (i, t) ∈ s.needs := by
  simp only [List.mem_map, mem_needing]
  constructor
  · rintro ⟨r, ⟨hr, hn⟩, rfl⟩
    exact ⟨r.project, r.id, ⟨r, hr, rfl, rfl, rfl⟩, hn⟩
  · rintro ⟨p, i, ⟨r, hr, -, rfl, rfl⟩, hn⟩
    exact ⟨r, ⟨hr, hn⟩, rfl⟩

theorem Links.now_congr {held held' : List Nat} {o : Option Links}
    (h : ∀ n, n ∈ held ↔ n ∈ held') {n : Nat} : n ∈ Links.now held o ↔ n ∈ Links.now held' o := by
  cases o with
  | none => exact h n
  | some l =>
    cases l with
    | set ns => rfl
    | change add remove =>
      simp only [Links.now, Links.wanted, sorted, List.mem_dedup, List.mem_insertionSort,
        List.mem_filter, List.mem_append, h n]

/-- What is asked of a plan that is the same is the same. -/
theorem SamePlan.asks (h : SamePlan s s') {edit : TaskEdit} {t t' : Task} (hi : t'.id = t.id)
    (hp : t'.project = t.project) {e : Nat × Nat} : edit.Asks s' t' e ↔ edit.Asks s t e := by
  have needed : ∀ n, n ∈ (s'.needed t.id).map (·.number) ↔ n ∈ (s.needed t.id).map (·.number) := by
    intro n
    simp only [mem_neededNumbers, h.needs, h.numbers]
  have needing : ∀ n, n ∈ (s'.needing t.id).map (·.number) ↔
      n ∈ (s.needing t.id).map (·.number) := by
    intro n
    simp only [mem_needingNumbers, h.needs, h.numbers]
  unfold TaskEdit.Asks
  simp only [hi, hp, h.needs, h.numbers, Links.now_congr needed, Links.now_congr needing]

/-- **The plan around a task is as it was asked**, and nothing is owed of it. -/
theorem relink_edits {project number : Nat} {by_ : String} {edit : TaskEdit} {d : Debt}
    {r : Option (List Nat)} (hR : L.Fair)
    (h : (relink project number by_ edit).run s = .ok (r, s')) (hw : Wired s.board)
    (ha : Graph.Acyclic s.needs) (hd : d.Paid) (hx : ∀ t ∈ s.tasks.rows, t.project = project →
      t.number = number → t.state ≠ .cancelled ∧ t.card.deleted = false) :
    ∃ t ∈ s.tasks.rows, t.project = project ∧ t.number = number ∧
      (∃ d', d'.Paid ∧ Edits L d s.board d' s'.board) ∧ ∀ e, e ∈ s'.needs ↔ edit.Asks s t e := by
  obtain ⟨t, s1, h1, h⟩ := run_bind_ok.mp h
  obtain ⟨rfl, ht, hp, hn⟩ := taskRow_ok h1
  obtain ⟨s0, s2, h2, h⟩ := run_bind_ok.mp h
  obtain ⟨rfl, rfl⟩ := run_state_ok.mp h2
  obtain ⟨u3, s3, h3, h⟩ := run_bind_ok.mp h
  obtain ⟨u4, s4, h4, h⟩ := run_bind_ok.mp h
  obtain ⟨u5, s5, h5, h⟩ := run_bind_ok.mp h
  obtain ⟨u6, s6, h6, h⟩ := run_bind_ok.mp h
  obtain ⟨⟨d1, e1, hd1⟩, same, asks⟩ := relinkLoops_edits (L := L) edit hw ha ht hp
    (hx t ht hp hn).1 (hx t ht hp hn).2 (hd.around project t.id) h3 h4 h5 h6
  obtain ⟨u7, s7, h7, h⟩ := run_bind_ok.mp h
  have hw6 := e1.wired hw
  have ht6 : t ∈ s6.tasks.rows := by
    have k : s6.tasks = s.tasks := by rw [same]
    exact k ▸ ht
  obtain ⟨d2, e2, hu2, hd2, sp7⟩ := backToWait_edits hR h7 hw6 ht6 hp hd1
  obtain ⟨u8, s8, h8, h⟩ := run_bind_ok.mp h
  have b8 : s8.board = s7.board := board_of_lift h8
  obtain ⟨u9, s9, h9, h⟩ := run_bind_ok.mp h
  obtain ⟨-, rfl⟩ := run_pure_ok.mp h
  obtain ⟨d3, e3, hd3, hon⟩ := releaseReady_edits hR h9 (b8 ▸ e2.wired hw6) hu2
  rw [b8] at e3
  refine ⟨t, ht, hp, hn, ⟨d3, ⟨hd3.unmet.trans hu2, hd3.untold.trans hd2.untold, ?_⟩,
    e1.trans (e2.trans e3)⟩, fun e => ?_⟩
  · rw [hd3.loose]
    exact Set.eq_empty_iff_forall_notMem.mpr fun x hx => hx.2 (hd2.loose hx.1)
  · have k := (sp7.trans ((SamePlan.of_board b8).trans (.of_onward hon))).needs
    rw [k]
    exact asks e

end Relink

/-! ## 4. Edited -/

section Edit

variable {L : Licence} {s s' : Ledger} {u : Unit}

theorem given_ok {R : Ledger → Ledger → Prop} [Frame R] {task : Task} {instead : String}
    (h : (given task instead : LedgerTxn R Unit).run s = .ok (u, s')) : False := by
  unfold given at h
  simp only at h
  split at h
  · obtain ⟨w, s1, -, h⟩ := run_bind_ok.mp h
    exact run_refuse_ok.mp h
  · obtain ⟨w, s1, -, h⟩ := run_bind_ok.mp h
    exact run_refuse_ok.mp h

/-- A task that is edited waits for a window, or for its brief to reach one. -/
theorem requireNotGiven_ok {R : Ledger → Ledger → Prop} [Frame R] {task : Task}
    (h : (requireNotGiven task : LedgerTxn R Unit).run s = .ok (u, s')) :
    s = s' ∧ (task.state = .opened ∨ task.state = .queued ∨ task.state = .paused) := by
  simp only [requireNotGiven, run_bind_ok, run_state_ok] at h
  obtain ⟨s0, s1, ⟨rfl, rfl⟩, h⟩ := h
  split at h
  all_goals try exact (given_ok h).elim
  all_goals try exact (run_refuse_ok.mp h).elim
  · next e =>
    split at h
    · exact (given_ok h).elim
    · exact ⟨(run_pure_ok.mp h).2, Or.inr (Or.inr e)⟩
  · next e =>
    split at h
    · exact (given_ok h).elim
    · exact ⟨(run_pure_ok.mp h).2, Or.inr (Or.inl e)⟩
  · next e =>
    split at h
    · exact (given_ok h).elim
    · exact ⟨(run_pure_ok.mp h).2, Or.inl e⟩

theorem tierFor_ok {R : Ledger → Ledger → Prop} [Frame R] {project : Nat} {task : Task}
    {wanted tier : Tier}
    (h : (tierFor project task wanted : LedgerTxn R Tier).run s = .ok (tier, s')) : s = s' := by
  simp only [tierFor, run_bind_ok, run_found_ok, run_require_ok, run_state_ok, run_pure_ok] at h
  obtain ⟨p, s1, ⟨-, rfl⟩, u1, s2, ⟨-, rfl⟩, s0, s3, ⟨rfl, rfl⟩, u2, s4, ⟨-, rfl⟩, -, rfl⟩ := h
  rfl

/-- The checks of an edit write nothing, and find a task that a window does not have. -/
theorem editedTask_ok {project number : Nat} {by_ : String} {edit : TaskEdit}
    {r : Task × Option Tier} (h : (editedTask project number by_ edit).run s = .ok (r, s')) :
    s = s' ∧ r.1 ∈ s.tasks.rows ∧ r.1.project = project ∧ r.1.number = number ∧
      (r.1.state = .opened ∨ r.1.state = .queued ∨ r.1.state = .paused) := by
  obtain ⟨p, s1, h1, h⟩ := run_bind_ok.mp h
  obtain ⟨rfl, -⟩ := participantByHandle_ok h1
  obtain ⟨t, s2, h2, h⟩ := run_bind_ok.mp h
  obtain ⟨rfl, ht, hp, hn⟩ := taskRow_ok h2
  obtain ⟨u3, s3, h3, h⟩ := run_bind_ok.mp h
  obtain ⟨rfl, -⟩ := requireOnBoard_ok h3
  obtain ⟨u4, s4, h4, h⟩ := run_bind_ok.mp h
  obtain ⟨rfl, hst⟩ := requireNotGiven_ok h4
  simp only at h
  split at h
  · obtain ⟨m, s5, h5, h⟩ := run_bind_ok.mp h
    obtain ⟨a, h5, -⟩ := run_map_ok.mp h5
    obtain rfl := tierFor_ok h5
    obtain ⟨rfl, rfl⟩ := run_pure_ok.mp h
    exact ⟨rfl, ht, hp, hn, hst⟩
  · obtain ⟨m, s5, h5, h⟩ := run_bind_ok.mp h
    obtain ⟨-, rfl⟩ := run_pure_ok.mp h5
    obtain ⟨rfl, rfl⟩ := run_pure_ok.mp h
    exact ⟨rfl, ht, hp, hn, hst⟩

theorem editChecks_ok {project number : Nat} {by_ : String} {edit : TaskEdit}
    {r : Task × Option Tier} (h : (editChecks project number by_ edit).run s = .ok (r, s')) :
    s = s' ∧ r.1 ∈ s.tasks.rows ∧ r.1.project = project ∧ r.1.number = number ∧
      (r.1.state = .opened ∨ r.1.state = .queued ∨ r.1.state = .paused) := by
  unfold editChecks at h
  simp only at h
  split at h
  · obtain ⟨u1, s1, h1, h⟩ := run_bind_ok.mp h
    obtain rfl := requireText_ok h1
    exact editedTask_ok h
  · obtain ⟨u1, s1, h1, h⟩ := run_bind_ok.mp h
    have e : s = s1 := by
      rcases run_doWhen_ok.mp h1 with ⟨-, h1⟩ | ⟨-, rfl⟩
      · exact requireText_ok h1
      · rfl
    subst e
    exact editedTask_ok h

theorem retier_edits {project : Nat} {task : Task} {by_ : String} {tier : Tier} {t : Time}
    {d : Debt} (hR : L.Fair) (h : (retier project task by_ tier t).run s = .ok (u, s'))
    (hw : Wired s.board) (hd : d.Paid) :
    ∃ d', d'.Paid ∧ Edits L d s.board d' s'.board ∧ SamePlan s s' := by
  obtain ⟨u1, s1, h1, h⟩ := run_bind_ok.mp h
  have b1 : s1.board = s.board := board_of_lift h1
  obtain ⟨u2, s2, h2, h⟩ := run_bind_ok.mp h
  have b2 : s2.board = s1.board := board_of_lift h2
  have b : s2.board = s.board := b2.trans b1
  split at h
  · obtain ⟨-, rfl⟩ := run_pure_ok.mp h
    exact ⟨d, hd, .of_eq b, .of_board b⟩
  · obtain ⟨p, s3, h3, h⟩ := run_bind_ok.mp h
    obtain ⟨rfl, -⟩ := participantRow_ok h3
    split at h
    · obtain ⟨-, rfl⟩ := run_pure_ok.mp h
      exact ⟨d, hd, .of_eq b, .of_board b⟩
    · obtain ⟨r, s4, h4, h⟩ := run_bind_ok.mp h
      obtain ⟨-, rfl⟩ := run_pure_ok.mp h
      obtain ⟨d', hd', he, hsp⟩ := releaseInside_edits (d := d) hR h4 (b ▸ hw)
        (by simp [hd.unmet]) hd.untold (by simp [hd.loose])
      rw [b] at he
      exact ⟨d', hd', he, (SamePlan.of_board b).trans hsp⟩

/-- Nothing asked of the links is the plan as it is. -/
theorem asks_none (hw : Wired s.board) (ha : Graph.Acyclic s.needs) {t : Task}
    (ht : t ∈ s.tasks.rows) {edit : TaskEdit} (hn : edit.needs = none) (hb : edit.before = none)
    {e : Nat × Nat} : edit.Asks s t e ↔ e ∈ s.needs := by
  obtain ⟨a, i⟩ := e
  rw [← asks_iff hw ha ht]
  simp [hn, hb, Links.removed, Links.added]

/-- What follows the brief: the tier, and the plan. -/
theorem editPlan_edits {project : Nat} {task : Task} {by_ : String} {edit : TaskEdit}
    {moving : Option Tier} {t : Time} {r : TaskEdited} (hR : L.Fair)
    (h : (editPlan project task by_ edit moving t).run s = .ok (r, s')) (hw : Wired s.board)
    (ha : Graph.Acyclic s.needs) (ht : s.HasNumber project task.number task.id)
    (hx : ¬ s.board.Is task.id .cancelled) (hk : ¬ s.board.Off task.id) :
    (∃ d', d'.Paid ∧ Edits L .none s.board d' s'.board) ∧
      ∀ q : Task, q.id = task.id → q.project = project → ∀ e, e ∈ s'.needs ↔ edit.Asks s q e := by
  obtain ⟨u1, s1, h1, h⟩ := run_bind_ok.mp h
  obtain ⟨d1, hd1, e1, sp1⟩ : ∃ d', d'.Paid ∧ Edits L .none s.board d' s1.board ∧ SamePlan s s1 := by
    cases moving with
    | none =>
      obtain ⟨-, rfl⟩ := run_pure_ok.mp h1
      exact ⟨.none, Debt.paid_none, .refl _ _, .of_board rfl⟩
    | some tier =>
      rcases run_doWhen_ok.mp h1 with ⟨-, h1⟩ | ⟨-, rfl⟩
      · exact retier_edits hR h1 hw Debt.paid_none
      · exact ⟨.none, Debt.paid_none, .refl _ _, .of_board rfl⟩
  have hw1 := e1.wired hw
  have ha1 : Graph.Acyclic s1.needs := by
    rw [sp1.needs]
    exact ha
  obtain ⟨s0, s2, h2, h⟩ := run_bind_ok.mp h
  obtain ⟨rfl, rfl⟩ := run_state_ok.mp h2
  obtain ⟨waiting, s3, h3, h⟩ := run_bind_ok.mp h
  obtain ⟨row, s4, h4, h⟩ := run_bind_ok.mp h
  obtain ⟨rfl, -⟩ := taskById_ok h4
  obtain ⟨-, rfl⟩ := run_pure_ok.mp h
  -- the task by its number, before and after its tier was changed
  have one : ∀ r ∈ s1.tasks.rows, r.project = project → r.number = task.number →
      r.id = task.id := by
    intro r hr hp hn
    obtain ⟨r', hr', hp', hn', hi'⟩ := sp1.numbers.mpr ht
    rw [← hi']
    exact hw1.numbers _ (card_mem hr) _ (card_mem hr') (hp.trans hp'.symm) (hn.trans hn'.symm)
  unfold editLinks at h3
  split at h3
  · have hx1 : ∀ r ∈ s1.tasks.rows, r.project = project → r.number = task.number →
        r.state ≠ .cancelled ∧ r.card.deleted = false := by
      intro r hr hp hn
      refine ⟨fun hst => ?_, Bool.eq_false_iff.mpr fun hoff => ?_⟩
      swap
      · exact hk (sp1.off ⟨r.card, card_mem hr, one r hr hp hn, hoff⟩)
      exact hx (sp1.cancelled ⟨r.card, card_mem hr, one r hr hp hn, phase_cancelled_iff.mpr hst⟩)
    obtain ⟨r, hr, hp, hn, ⟨d2, hd2, e2⟩, hasks⟩ := relink_edits hR h3 hw1 ha1 hd1 hx1
    refine ⟨⟨d2, hd2, e1.trans e2⟩, fun q hqi hqp e => ?_⟩
    rw [hasks e]
    exact sp1.asks ((one r hr hp hn).trans hqi.symm) (hp.trans hqp.symm)
  · next hno =>
    obtain ⟨-, rfl⟩ := run_pure_ok.mp h3
    refine ⟨⟨d1, hd1, e1⟩, fun q hqi hqp e => ?_⟩
    have hno : edit.needs = none ∧ edit.before = none := by
      simpa using hno
    obtain ⟨r, hr, hp, hn, hi⟩ := ht
    have k : edit.Asks s q e ↔ edit.Asks s r e :=
      (SamePlan.of_board (s := s) rfl).asks (hqi.trans hi.symm) (hqp.trans hp.symm)
    rw [k, asks_none hw ha hr hno.1 hno.2, sp1.needs]

theorem replaceBrief_board {task : Task} {body : String} {t : Time}
    (h : (replaceBrief task body t).run s = .ok (u, s')) : s'.board = s.board := by
  obtain ⟨row, s1, h1, h⟩ := run_bind_ok.mp h
  obtain ⟨u2, s2, h2, h3⟩ := run_bind_ok.mp h
  have b1 : s1.board = s.board := by
    obtain ⟨u4, s4, h4, h5⟩ := run_bind_ok.mp (run_liftRewrite _ _ ▸ h1)
    obtain ⟨rfl, -⟩ := taskById_ok h5
    exact board_of_lift h4
  have b2 : s2.board = s1.board := by
    obtain rfl := run_write_ok.mp h2
    refine board_withMessages s1 _ _ fun m => ?_
    unfold Table.altered
    split <;> rfl
  have b3 : s'.board = s2.board := by
    rw [run_liftRewrite] at h3
    exact board_of_lift h3
  rw [b3, b2, b1]

/-- **All of an edit**: the plan is as it was asked, and nothing is owed. -/
theorem editTaskWith_edits {project number : Nat} {by_ : String} {edit : TaskEdit} {r : TaskEdited}
    (hR : L.Fair) (h : (editTaskWith project number by_ edit).run s = .ok (r, s'))
    (hw : Wired s.board) (ha : Graph.Acyclic s.needs) :
    (∃ d', d'.Paid ∧ Edits L .none s.board d' s'.board) ∧
      ∀ t ∈ s.tasks.rows, t.project = project → t.number = number →
        ∀ e, e ∈ s'.needs ↔ edit.Asks s t e := by
  obtain ⟨⟨task, moving⟩, s1, h1, h⟩ := run_bind_ok.mp h
  obtain ⟨rfl, ht, hp, hn, hst⟩ := editChecks_ok h1
  obtain ⟨t, s2, h2, h⟩ := run_bind_ok.mp h
  have b2 : s2.board = s.board := board_of_lift (run_liftRewrite _ _ ▸ h2)
  have key : ∀ {s3 : Ledger}, s3.board = s.board →
      (editPlan project task by_ edit moving t).run s3 = .ok (r, s') →
      (∃ d', d'.Paid ∧ Edits L .none s.board d' s'.board) ∧
        ∀ t ∈ s.tasks.rows, t.project = project → t.number = number →
          ∀ e, e ∈ s'.needs ↔ edit.Asks s t e := by
    intro s3 b3 h3
    have sp : SamePlan s s3 := .of_board b3
    have hnum : s3.HasNumber project task.number task.id := sp.numbers.mpr ⟨task, ht, hp, rfl, rfl⟩
    have hx : ¬ s3.board.Is task.id .cancelled := by
      intro k
      have := (hw.is_iff (card_mem ht)).mp (b3 ▸ k)
      rw [phase_cancelled_iff.mp this] at hst
      simp at hst
    have hk : ¬ s3.board.Off task.id := by
      rintro ⟨c, hc, e, off⟩
      have same : c = task.card := hw.unique (b3 ▸ hc) (card_mem ht) e
      have on := hw.deletedAt_none ht (by rcases hst with e | e | e <;> rw [e] <;> rfl)
      rw [same, card_deleted, on] at off
      cases off
    obtain ⟨he, hasks⟩ := editPlan_edits hR h3 (b3 ▸ hw) (by rw [sp.needs]; exact ha) hnum hx hk
    rw [b3] at he
    refine ⟨he, fun q hq hqp hqn e => ?_⟩
    have hid : q.id = task.id := hw.numbers _ (card_mem hq) _ (card_mem ht) (hqp.trans hp.symm)
      (hqn.trans hn.symm)
    rw [hasks q hid hqp e]
    exact sp.asks rfl rfl
  simp only at h
  split at h
  · obtain ⟨u3, s3, h3, h⟩ := run_bind_ok.mp h
    exact key ((replaceBrief_board h3).trans b2) (run_liftRewrite _ _ ▸ h)
  · exact key b2 (run_liftRewrite _ _ ▸ h)

end Edit

end ConsensFlow
