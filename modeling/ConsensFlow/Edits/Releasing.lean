/-
  File:      ConsensFlow/Edits/Releasing.lean
  Subject:   THE EDITS OF A RELEASE: `releaseReady` settles its project, and `tellStranded` tells
             of a card once.

  * `Edits.enter` -- a card comes into a window, with the words that send it there;
  * `Onward` -- what a release leaves of the cards it does not send: everything;
  * **`releaseReady_edits`** -- after it nothing ready of the project is left on the board. A window
    that left has nothing waiting for it, so the branch that cancels is not taken;
  * **`tellStrandedWaiters_edits`** -- every card that waits for the one cancelled is told of.
-/
import ConsensFlow.Edits.Base

namespace ConsensFlow

open Lib Txn

/-- A licence that asks nothing of a release. -/
def Licence.Fair (L : Licence) : Prop := ∀ b c w, L .released b c w

/-! ## 1. A card comes into a window -/

section Enter

variable {L : Licence}

/-- A card comes into its window, and the words that send it there are a brief of it. -/
theorem Edits.enter {d : Debt} {b : Board} {c : Card} {w : Nat} {door : Door} (hc : c ∈ b.cards)
    (ho : door.Opens b c w) (hl : L door b c w) (hu : d.unmet = ∅)
    (hr : door = .reopened → c.id ∉ d.moved) :
    Edits L d b (d.touch c)
      ((b.put { c with assignee := some w, phase := .held }).brief (some c.id) w) := by
  refine .step (Edit.shift hc (.enter d c door w ho hl hu hr) rfl).once ?_
  let c' : Card := { c with assignee := some w, phase := .held }
  have hc' : c' ∈ (b.put c').cards := (@Board.mem_put _ _ c' _ hc rfl).mpr (Or.inl rfl)
  exact Edit.brief _ c' w hc' rfl rfl

/-- A card of a window with another assignee set to its own is that card. -/
theorem Card.same_assignee {c : Card} {w : Nat} (h : c.assignee = some w) (ph : Phase) :
    { c with assignee := some w, phase := ph } = { c with phase := ph } := by
  rw [← h]

/-- A task message for the card's window, and the move of its task there. -/
theorem Edits.sent {d : Debt} {s s1 s2 : Ledger} {t : Task} {c : Card} {w : Nat}
    {det : Detail} {u : Unit} (door : Door) (hw : Wired s.board) (hc : c ∈ s.board.cards) (e : t.id = c.id)
    (ha : c.assignee = some w) (h1 : s1.board = s.board.brief (some t.id) w)
    (h2 : (moveTask t .queued det).run s1 = .ok (u, s2)) (ho : door.Opens s.board c w)
    (hl : L door s.board c w) (hu : d.unmet = ∅) (hr : door = .reopened → c.id ∉ d.moved) :
    Edits L d s.board (d.touch c) s2.board ∧
      s2.board = (s.board.put { c with phase := .held }).brief (some c.id) w := by
  have hb : s2.board = (s.board.put { c with phase := .held }).brief (some c.id) w := by
    rw [moveTask_board h2 ⟨rfl, rfl⟩, h1, e]
    have := hw.edit_eq_put hc (f := fun x => { x with phase := Phase.held }) rfl
    show (Board.edit (s.board.brief (some c.id) w) c.id fun x => { x with phase := Phase.held }) = _
    show (Board.edit s.board c.id fun x => { x with phase := Phase.held }).brief (some c.id) w = _
    rw [this]
  refine ⟨?_, hb⟩
  rw [hb, ← Card.same_assignee ha]
  exact Edits.enter hc ho hl hu hr

end Enter

/-! ## 2. What a release leaves -/

/-- From one board to another some cards went to the windows they waited for. -/
structure Onward (b b' : Board) : Prop where
  participants : b'.participants = b.participants
  needs : b'.needs = b.needs
  back : ∀ x ∈ b'.cards, x ∈ b.cards ∨ ∃ y ∈ b.cards, y.phase = .opened ∧
    x = { y with phase := .held }
  forth : ∀ y ∈ b.cards, y ∈ b'.cards ∨ (y.phase = .opened ∧ { y with phase := .held } ∈ b'.cards)

namespace Onward

variable {b b' b'' : Board}

theorem refl (b : Board) : Onward b b := ⟨rfl, rfl, fun _ h => Or.inl h, fun _ h => Or.inl h⟩

/-- A card on the board after it was there before it. -/
theorem opened_back (h : Onward b b') {x : Card} (hx : x ∈ b'.cards) (hp : x.phase ≠ .held) :
    x ∈ b.cards := by
  rcases h.back x hx with hx | ⟨y, -, -, rfl⟩
  · exact hx
  · exact absurd rfl hp

theorem trans (h : Onward b b') (k : Onward b' b'') : Onward b b'' := by
  refine ⟨k.participants.trans h.participants, k.needs.trans h.needs, fun x hx => ?_,
    fun y hy => ?_⟩
  · rcases k.back x hx with hx | ⟨y, hy, hp, rfl⟩
    · exact h.back x hx
    · exact Or.inr ⟨y, h.opened_back hy (by simp [hp]), hp, rfl⟩
  · rcases h.forth y hy with hy' | ⟨hp, hy'⟩
    · exact k.forth y hy'
    · rcases k.forth _ hy' with hy'' | ⟨hp', -⟩
      · exact Or.inr ⟨hp, hy''⟩
      · cases hp'

theorem put (hw : Wired b) {c : Card} (hc : c ∈ b.cards) (hp : c.phase = .opened) (t w : Nat) :
    Onward b ((b.put { c with phase := .held }).brief (some t) w) := by
  have mem : ∀ {x}, x ∈ (b.put { c with phase := .held }).cards ↔
      x = { c with phase := .held } ∨ (x ∈ b.cards ∧ x.id ≠ c.id) := Board.mem_put hc rfl
  refine ⟨rfl, rfl, fun x hx => ?_, fun y hy => ?_⟩
  · rcases mem.mp hx with rfl | ⟨hx, -⟩
    · exact Or.inr ⟨c, hc, hp, rfl⟩
    · exact Or.inl hx
  · by_cases e : y.id = c.id
    · rw [hw.unique hy hc e]
      exact Or.inr ⟨hp, mem.mpr (Or.inl rfl)⟩
    · exact Or.inl (mem.mpr (Or.inr ⟨hy, e⟩))

theorem met_back (h : Onward b b') {t : Nat} (hm : b'.Met t) : b.Met t := by
  intro n hn
  obtain ⟨x, hx, e, hp⟩ := hm n (h.needs ▸ hn)
  exact ⟨x, h.opened_back hx (by simp [hp]), e, hp⟩

theorem met_forth (h : Onward b b') {t : Nat} (hm : b.Met t) : b'.Met t := by
  intro n hn
  obtain ⟨y, hy, e, hp⟩ := hm n (h.needs ▸ hn)
  rcases h.forth y hy with hy' | ⟨ho, -⟩
  · exact ⟨y, hy', e, hp⟩
  · rw [hp] at ho
    cases ho

/-- A session that is busy stays so: nothing is taken out of a window. -/
theorem busy (h : Onward b b') {w : Nat} (hb : b.Busy w) : b'.Busy w := by
  obtain ⟨y, hy, ha, hk⟩ := Board.busy_iff.mp hb
  refine Board.busy_iff.mpr ?_
  rcases h.forth y hy with hy' | ⟨-, hy'⟩
  · exact ⟨y, hy', ha, hk⟩
  · exact ⟨_, hy', ha, rfl⟩

theorem session (h : Onward b b') {w : Nat} : b'.Session w ↔ b.Session w := by
  unfold Board.Session
  rw [h.participants]

end Onward

/-! ## 3. `releaseReady` -/

section Release

variable {L : Licence} {s s' : Ledger} {u : Unit}

/-- One ready task: its window takes nothing now, or it goes there. -/
theorem releaseTo_ok {project : Nat} {task : Task} {p : Participant} {d : Debt} (hR : L.Fair)
    (h : (releaseTo project task p).run s = .ok (u, s')) (hw : Wired s.board)
    (hc : task.card ∈ s.board.cards) (ho : task.card.phase = .opened) (hm : s.board.Met task.id)
    (hp : p ∈ s.participants.rows) (ha : task.assignee = some p.id) (hu : d.unmet = ∅) :
    (s'.board = s.board ∧ s.board.Session p.id ∧ s.board.Busy p.id) ∨
      (Edits L d s.board (d.touch task.card) s'.board ∧ Onward s.board s'.board ∧
        ∀ x ∈ s.board.cards, x ∈ s'.board.cards ↔ x.id ≠ task.id) := by
  simp only [releaseTo, run_bind_ok, run_state_ok] at h
  obtain ⟨s0, s1, ⟨rfl, rfl⟩, h⟩ := h
  cases htn : s.takesNothing p with
  | true =>
    rw [htn, if_pos rfl] at h
    obtain ⟨-, rfl⟩ := run_pure_ok.mp h
    exact Or.inl ⟨rfl, (takesNothing_iff hp).mp htn⟩
  | false =>
    rw [htn, if_neg Bool.false_ne_true] at h
    obtain ⟨id, s1, h1, h2⟩ := run_bind_ok.mp h
    have hb1 : s1.board = s.board.brief (some task.id) p.id := (queueTask_ok h1).2
    have hfree : s.board.Session p.id → ¬ s.board.InHand p.id ∧ ¬ s.board.Undecided p.id := by
      intro hs
      have hn : ¬ s.board.Busy p.id := by
        intro hb
        rw [(takesNothing_iff hp).mpr ⟨hs, hb⟩] at htn
        cases htn
      exact ⟨fun k => hn (Or.inl k), fun k => hn (Or.inr k)⟩
    obtain ⟨he, hb⟩ := Edits.sent (d := d) .released hw hc rfl ha hb1 h2
      ⟨ho, ha, hm, hfree⟩ (hR _ _ _) hu (by simp)
    refine Or.inr ⟨he, ?_, fun x hx => ?_⟩
    · rw [hb]
      exact Onward.put hw hc ho _ _
    · have mem : x ∈ s'.board.cards ↔ x = { task.card with phase := .held } ∨
          (x ∈ s.board.cards ∧ x.id ≠ task.id) := by
        rw [hb]
        exact @Board.mem_put _ _ { task.card with phase := .held } _ hc rfl
      rw [mem]
      refine ⟨fun k e => ?_, fun k => Or.inr ⟨hx, k⟩⟩
      rcases k with k | ⟨-, k⟩
      · rw [hw.unique hx hc e] at k
        rw [k] at ho
        cases ho
      · exact k e

theorem releaseOne_ok {project : Nat} {task : Task} {d : Debt} (hR : L.Fair)
    (h : (releaseOne project task).run s = .ok (u, s')) (hw : Wired s.board)
    (hc : task.card ∈ s.board.cards) (ho : task.card.phase = .opened) (hm : s.board.Met task.id)
    (hu : d.unmet = ∅) :
    (s'.board = s.board ∧ ∀ w, task.assignee = some w → s.board.Session w ∧ s.board.Busy w) ∨
      (Edits L d s.board (d.touch task.card) s'.board ∧ Onward s.board s'.board ∧
        ∀ x ∈ s.board.cards, x ∈ s'.board.cards ↔ x.id ≠ task.id) := by
  obtain ⟨p, s1, h1, h2⟩ := run_bind_ok.mp h
  obtain ⟨rfl, hp, ha⟩ := participantOf_ok h1
  -- nothing on the board waits for a window that left
  have hl : p.leftAt.isSome = false := by
    cases e : p.leftAt.isSome with
    | false => rfl
    | true => exact absurd ((left_iff hp).mpr e) (hw.here _ hc ho _ ha)
  rw [hl, Bool.and_false, if_neg Bool.false_ne_true] at h2
  rcases releaseTo_ok hR h2 hw hc ho hm hp ha hu with ⟨hb, hs⟩ | h3
  · refine Or.inl ⟨hb, fun w hw' => ?_⟩
    obtain rfl : p.id = w := Option.some.inj (ha.symm.trans hw')
    exact hs
  · exact Or.inr h3

/-- What is settled of one edit's debt to the next: nothing new is owed. -/
structure Debt.Still (d d' : Debt) : Prop where
  unmet : d'.unmet = d.unmet
  untold : d'.untold = d.untold
  loose : d'.loose = d.loose

theorem Debt.Still.refl (d : Debt) : Debt.Still d d := ⟨rfl, rfl, rfl⟩

theorem Debt.Still.trans {d d' d'' : Debt} (h : Debt.Still d d') (k : Debt.Still d' d'') :
    Debt.Still d d'' :=
  ⟨k.unmet.trans h.unmet, k.untold.trans h.untold, k.loose.trans h.loose⟩

/-- The ready tasks, one after the other: each that is on the board still when all are through
    waits for a session that takes nothing. -/
theorem releaseEach_ok {project : Nat} (hR : L.Fair) {ts : List Task} {d : Debt}
    (h : (ts.forM (releaseOne project)).run s = .ok (u, s')) (hw : Wired s.board)
    (hn : (ts.map (·.id)).Nodup) (hu : d.unmet = ∅)
    (hts : ∀ t ∈ ts, t.card ∈ s.board.cards ∧ t.card.phase = .opened ∧ s.board.Met t.id) :
    ∃ d', Edits L d s.board d' s'.board ∧ d.Still d' ∧ Onward s.board s'.board ∧
      ∀ t ∈ ts, t.card ∈ s'.board.cards → ∀ w, t.assignee = some w →
        s'.board.Session w ∧ s'.board.Busy w := by
  induction ts generalizing s d with
  | nil =>
    obtain ⟨-, rfl⟩ := run_pure_ok.mp h
    exact ⟨d, .refl _ _, .refl d, .refl _, by simp⟩
  | cons t ts ih =>
    obtain ⟨u1, s1, h1, h2⟩ := run_bind_ok.mp h
    obtain ⟨hc, ho, hm⟩ := hts t List.mem_cons_self
    obtain ⟨hnt, hn⟩ := List.nodup_cons.mp hn
    rcases releaseOne_ok hR h1 hw hc ho hm hu with ⟨hb, hs⟩ | ⟨he, hon, hgone⟩
    · -- its window takes nothing, then and when all are through
      obtain ⟨d', he', hd', hon', hall⟩ := ih h2 (hb ▸ hw) hn hu fun x hx =>
        hb ▸ hts x (List.mem_cons_of_mem _ hx)
      rw [hb] at he' hon'
      refine ⟨d', he', hd', hon', fun x hx hxc w hxa => ?_⟩
      rcases List.mem_cons.mp hx with rfl | hx
      · exact ⟨hon'.session.mpr (hs w hxa).1, hon'.busy (hs w hxa).2⟩
      · exact hall x hx hxc w hxa
    · have rest : ∀ x ∈ ts, x.card ∈ s1.board.cards ∧ x.card.phase = .opened ∧
          s1.board.Met x.id := by
        intro x hx
        obtain ⟨hxc, hxo, hxm⟩ := hts x (List.mem_cons_of_mem _ hx)
        refine ⟨(hgone _ hxc).mpr fun e => hnt ?_, hxo, hon.met_forth hxm⟩
        exact List.mem_map.mpr ⟨x, hx, e⟩
      obtain ⟨d', he', hd', hon', hall⟩ := ih (d := d.touch t.card) h2 (he.wired hw) hn hu rest
      have hd : d.Still (d.touch t.card) := ⟨rfl, rfl, rfl⟩
      refine ⟨d', he.trans he', hd.trans hd', hon.trans hon', fun x hx hxc w hxa => ?_⟩
      rcases List.mem_cons.mp hx with rfl | hx
      · exact absurd rfl ((hgone _ hc).mp (hon'.opened_back hxc (by simp [ho])))
      · exact hall x hx hxc w hxa

/-- A debt with one project released. -/
structure Debt.Released (project : Nat) (d d' : Debt) : Prop where
  unmet : d'.unmet = d.unmet
  untold : d'.untold = d.untold
  loose : d'.loose = d.loose \ {project}

/-- A task is ready where its card waits on the board for a participant, with its needs met. -/
theorem mem_ready (hw : Wired s.board) {project : Nat} {t : Task} : t ∈ s.ready project ↔
    t ∈ s.tasks.rows ∧ t.project = project ∧ t.card.phase = .opened ∧
      t.assignee.isSome = true ∧ s.board.Met t.id := by
  rw [met_iff hw, phase_opened_iff]
  simp only [Ledger.ready, List.mem_filter, Bool.and_eq_true, beq_iff_eq, and_assoc]

/-- **After `releaseReady` nothing ready of the project is left on the board.** -/
theorem releaseReady_edits {project : Nat} {d : Debt} (hR : L.Fair)
    (h : (releaseReady project).run s = .ok (u, s')) (hw : Wired s.board) (hu : d.unmet = ∅) :
    ∃ d', Edits L d s.board d' s'.board ∧ Debt.Released project d d' ∧
      Onward s.board s'.board := by
  simp only [releaseReady, run_bind_ok, run_state_ok] at h
  obtain ⟨s0, s1, ⟨rfl, rfl⟩, h⟩ := h
  have hn : ((s.ready project).map (·.id)).Nodup := by
    have hs : ((s.ready project).map (·.id)).Sublist (s.tasks.rows.map (·.id)) :=
      List.filter_sublist.map _
    exact (s.tasks.rising.imp Nat.ne_of_lt).sublist hs
  have hts : ∀ t ∈ s.ready project, t.card ∈ s.board.cards ∧ t.card.phase = .opened ∧
      s.board.Met t.id := by
    intro t ht
    obtain ⟨hm, -, ho, -, hmet⟩ := (mem_ready hw).mp ht
    exact ⟨card_mem hm, ho, hmet⟩
  obtain ⟨d', he, hd, hon, hall⟩ := releaseEach_ok (d := d) hR h hw hn hu hts
  refine ⟨{ d' with loose := d'.loose \ {project} }, he.step (.settled d' project ?_),
    ⟨hd.unmet, hd.untold, by rw [← hd.loose]⟩, hon⟩
  intro c hc hp ho w ha hm
  obtain ⟨t, ht, rfl⟩ := mem_cards.mp (hon.opened_back hc (by simp [ho]))
  refine hall t ((mem_ready hw).mpr ⟨ht, hp, ho, ?_, hon.met_back hm⟩) hc w ha
  rw [show t.assignee = some w from ha]
  rfl

end Release

/-! ## 4. Stranded -/

section Stranded

variable {L : Licence} {s s' : Ledger} {u : Unit}

/-- Only what the log says of stranded tasks has changed. -/
structure OnlyTold (b b' : Board) : Prop where
  same : b' = { b with strandings := b'.strandings }
  more : b.strandings ⊆ b'.strandings

theorem OnlyTold.refl (b : Board) : OnlyTold b b := ⟨rfl, fun _ h => h⟩

theorem OnlyTold.trans {b b' b'' : Board} (h : OnlyTold b b') (k : OnlyTold b' b'') :
    OnlyTold b b'' := by
  refine ⟨?_, fun x hx => k.more (h.more hx)⟩
  rw [k.same, h.same]

theorem logStranded_board {project number : Nat}
    (h : (logStranded project number).run s = .ok (u, s')) :
    s'.board = s.board.tell project number := by
  rw [logOf_board h]
  unfold Board.log Board.tell
  simp [What.stranded, What.asked]

theorem toldStranded_iff {project number : Nat} :
    s.toldStranded project number = true ↔ (project, number) ∈ s.board.strandings := by
  simp only [Ledger.toldStranded, List.any_eq_true, Bool.and_eq_true, beq_iff_eq, Ledger.board,
    List.mem_filterMap, Option.map_eq_some_iff, Prod.mk.injEq]
  constructor
  · rintro ⟨e, he, rfl, hw⟩
    exact ⟨e, he, number, by rw [hw]; rfl, rfl, rfl⟩
  · rintro ⟨e, he, n, hn, rfl, rfl⟩
    refine ⟨e, he, rfl, ?_⟩
    cases hw : e.what <;> simp [hw, What.stranded] at hn
    rw [hn]

theorem chiefOf_isSome {project : Nat} (h : s.board.HasChief project) :
    ∃ p, s.chiefOf project = some p := by
  obtain ⟨p, hp, e, hr, hl⟩ := h
  have hm : p ∈ s.participants.rows.filter fun p =>
      p.project == project && p.role == .chief && p.leftAt.isNone := by
    refine List.mem_filter.mpr ⟨hp, ?_⟩
    simp [e, hr, hl]
  exact ⟨_, List.getLast?_eq_some_getLast (List.ne_nil_of_mem hm)⟩

/-- `tellStranded` changes nothing but what is told, and tells of the card where it waits for a
    cancelled one. -/
theorem tellStranded_edits {project number : Nat} {d : Debt}
    (h : (tellStranded project number).run s = .ok (u, s')) (hch : s.board.HasChief project) :
    Edits L d s.board d s'.board ∧ OnlyTold s.board s'.board ∧
      ((s.cancelledNeeds project number).isEmpty = false →
        (project, number) ∈ s'.board.strandings) := by
  simp only [tellStranded, run_bind_ok, run_state_ok] at h
  obtain ⟨s0, s1, ⟨rfl, rfl⟩, h⟩ := h
  obtain ⟨chief, hc⟩ := chiefOf_isSome hch
  rw [hc] at h
  simp only at h
  split at h
  · next hcond =>
    obtain ⟨-, rfl⟩ := run_pure_ok.mp h
    refine ⟨.refl _ _, .refl _, fun hne => ?_⟩
    rw [hne, Bool.or_false] at hcond
    exact toldStranded_iff.mp hcond
  · next hcond =>
    obtain ⟨m, s1, h1, h2⟩ := run_bind_ok.mp h
    have hb1 : s1.board = s.board := board_of_lift h1
    have hb2 := logStranded_board h2
    rw [hb1] at hb2
    have hnot : (project, number) ∉ s.board.strandings := by
      intro k
      rw [toldStranded_iff.mpr k, Bool.true_or] at hcond
      exact hcond rfl
    rw [hb2]
    refine ⟨(Edit.tell d project number hnot).once, ⟨rfl, List.subset_append_left _ _⟩, fun _ => ?_⟩
    exact List.mem_append_right _ (List.mem_singleton.mpr rfl)

/-- A task by its number waits for a cancelled one where its card does. -/
def Board.StrandedAt (b : Board) (project number : Nat) : Prop :=
  ∃ c ∈ b.cards, c.project = project ∧ c.number = number ∧
    ∃ n, (c.id, n) ∈ b.needs ∧ b.Is n .cancelled

theorem cancelledNeeds_of {project number : Nat} (h : s.board.StrandedAt project number) :
    (s.cancelledNeeds project number).isEmpty = false := by
  obtain ⟨c, hc, hp, hn, n, hnd, x, hx, ex, hx'⟩ := h
  obtain ⟨t, ht, rfl⟩ := mem_cards.mp hc
  obtain ⟨d, hd, rfl⟩ := mem_cards.mp hx
  have hm : d.number ∈ s.cancelledNeeds project number := by
    simp only [Ledger.cancelledNeeds, List.mem_map, List.mem_flatMap, List.mem_filter,
      Bool.and_eq_true, beq_iff_eq]
    have e : d.id = n := ex
    exact ⟨d, ⟨t, ⟨ht, hp, hn⟩, mem_needed.mpr ⟨hd, e ▸ hnd⟩, phase_cancelled_iff.mp hx'⟩, rfl⟩
  cases e : s.cancelledNeeds project number with
  | nil =>
    rw [e] at hm
    cases hm
  | cons => rfl

theorem OnlyTold.cards {b b' : Board} (h : OnlyTold b b') : b'.cards = b.cards := by rw [h.same]
theorem OnlyTold.needs {b b' : Board} (h : OnlyTold b b') : b'.needs = b.needs := by rw [h.same]
theorem OnlyTold.participants {b b' : Board} (h : OnlyTold b b') :
    b'.participants = b.participants := by rw [h.same]

theorem OnlyTold.strandedAt {b b' : Board} (h : OnlyTold b b') {p n : Nat}
    (hs : b.StrandedAt p n) : b'.StrandedAt p n := by
  unfold Board.StrandedAt Board.Is
  rw [h.cards, h.needs]
  exact hs

theorem OnlyTold.hasChief {b b' : Board} (h : OnlyTold b b') {p : Nat} (hc : b.HasChief p) :
    b'.HasChief p := by
  unfold Board.HasChief
  rw [h.participants]
  exact hc

/-- Each of some numbers told of. -/
theorem tellEachStranded_edits {project : Nat} {d : Debt} {ns : List Nat}
    (h : (ns.forM (tellStranded project)).run s = .ok (u, s')) (hch : s.board.HasChief project) :
    Edits L d s.board d s'.board ∧ OnlyTold s.board s'.board ∧
      ∀ n ∈ ns, s.board.StrandedAt project n → (project, n) ∈ s'.board.strandings := by
  induction ns generalizing s with
  | nil =>
    obtain ⟨-, rfl⟩ := run_pure_ok.mp h
    exact ⟨.refl _ _, .refl _, by simp⟩
  | cons n ns ih =>
    obtain ⟨u1, s1, h1, h2⟩ := run_bind_ok.mp h
    obtain ⟨e1, o1, t1⟩ := tellStranded_edits (L := L) (d := d) h1 hch
    obtain ⟨e2, o2, t2⟩ := ih h2 (o1.hasChief hch)
    refine ⟨e1.trans e2, o1.trans o2, fun k hk hs => ?_⟩
    rcases List.mem_cons.mp hk with rfl | hk
    · exact o2.more (t1 (cancelledNeeds_of hs))
    · exact t2 k hk (o1.strandedAt hs)

/-- **Every card that waits for the one cancelled is told of.** -/
theorem tellStrandedWaiters_edits {task : Task} {project : Nat} {d : Debt} {c : Card}
    (h : (tellStrandedWaiters project task).run s = .ok (u, s')) (hw : Wired s.board)
    (hc : c ∈ s.board.cards) (e : task.id = c.id) (hp : c.project = project)
    (hx : c.phase = .cancelled) :
    Edits L d s.board { d with untold := d.untold \ {c.id} } s'.board ∧
      OnlyTold s.board s'.board := by
  simp only [tellStrandedWaiters, run_bind_ok, run_state_ok] at h
  obtain ⟨s0, s1, ⟨rfl, rfl⟩, h⟩ := h
  have hch : s.board.HasChief project := by
    obtain ⟨p, hpr, ep⟩ := hw.projects c hc
    rw [← hp, ← ep]
    exact hw.chiefs p hpr
  obtain ⟨he, ho, ht⟩ := tellEachStranded_edits (L := L) (d := d) h hch
  refine ⟨he.step (.allTold d c.id fun x hx' hwait hn => ?_), ho⟩
  rw [ho.cards] at hx'
  rw [ho.needs] at hn
  -- what needs the cancelled card is of its project
  obtain ⟨y, hy, z, hz, ey, ez, epz⟩ := hw.edges _ hn
  rw [hw.unique hy hx' ey, hw.unique hz hc ez, hp] at epz
  obtain ⟨t, ht', rfl⟩ := mem_cards.mp hx'
  have hm : t.number ∈ s.waiters task.id := by
    refine List.mem_map.mpr ⟨t, List.mem_filter.mpr ⟨mem_needing.mpr ⟨ht', ?_⟩, ?_⟩, rfl⟩
    · rw [e]
      exact hn
    · exact phase_waits_iff.mp hwait
  have hs : s.board.StrandedAt project t.number := ⟨t.card, hx', epz, rfl, c.id, hn, c, hc, rfl, hx⟩
  show (t.project, t.number) ∈ s'.board.strandings
  rw [show t.project = project from epz]
  exact ht _ hm hs

/-- A ledger that opens tells of every stranded task, and changes nothing else of the board. -/
theorem noteStrandedWaits_edits {d : Debt} (h : noteStrandedWaits.run s = .ok (u, s'))
    (hw : Wired s.board) : Edits L d s.board d s'.board := by
  simp only [noteStrandedWaits, run_inWrite, run_bind_ok, run_state_ok] at h
  obtain ⟨s0, s1, ⟨rfl, rfl⟩, h⟩ := h
  have each : ∀ {ts : List Task} {s s' : Ledger} {u : Unit},
      (ts.forM fun t => tellStranded t.project t.number).run s = .ok (u, s') →
      (∀ t ∈ ts, s.board.HasChief t.project) → Edits L d s.board d s'.board := by
    intro ts
    induction ts with
    | nil =>
      intro s s' u h _
      obtain ⟨-, rfl⟩ := run_pure_ok.mp h
      exact .refl _ _
    | cons t ts ih =>
      intro s s' u h hch
      obtain ⟨u1, s1, h1, h2⟩ := run_bind_ok.mp h
      obtain ⟨e1, o1, -⟩ := tellStranded_edits (L := L) (d := d) h1 (hch t List.mem_cons_self)
      exact e1.trans (ih h2 fun x hx => o1.hasChief (hch x (List.mem_cons_of_mem _ hx)))
  refine each h fun t ht => ?_
  rw [List.mem_insertionSort, List.mem_filter] at ht
  obtain ⟨p, hp, e⟩ := hw.projects _ (card_mem ht.1)
  have e : p.id = t.project := e
  rw [← e]
  exact hw.chiefs p hp

end Stranded

end ConsensFlow
