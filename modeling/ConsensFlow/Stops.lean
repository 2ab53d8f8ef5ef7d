/-
  File:      ConsensFlow/Stops.lean
  Subject:   STOPS ARE COUNTED (`tasks/pausing.rs`): which stop of a task a pause asked, and that no
             answer that comes late takes back the mark of another pause.

  * `Counted` -- a card was asked as many stops as the log says; `Since` -- what a chain of edits
    leaves of the counts and of the marks it began with;
  * `Ledger.asks` -- the pauses of a task that asked a stop, as the log says them; `BoardOp.asks` --
    how many a call that pauses asks;
  * `MarkedSince` -- the call that asked a task's stop, and that it stayed paused with its project
    from then on;
  * **`stops_counted`** -- a task's count is the log's, and never falls; a pause that asks a stop
    adds one, a hold none; and a late answer takes back the mark of its own pause alone.
-/
import ConsensFlow.Plan

namespace ConsensFlow

open Lib Txn

/-! ## 1. On the board -/

/-- Each card was asked as many stops as the log says, and the log says it of cards alone. -/
structure Counted (b : Board) : Prop where
  counts : ∀ c ∈ b.cards, c.stops = b.asked.count (c.project, c.number)
  known : ∀ e ∈ b.asked, ∃ c ∈ b.cards, (c.project, c.number) = e

/-- Paused with its project. -/
def Card.Marked (c : Card) : Prop := ∃ u, c.phase = .paused u true

/-- From one board to another: no count fell, and a card that is marked was so at this count, or
    was asked a stop since. -/
structure Since (b b' : Board) : Prop where
  rises : ∀ x ∈ b.cards, ∃ y ∈ b'.cards, y.id = x.id ∧ x.stops ≤ y.stops
  marked : ∀ y ∈ b'.cards, y.Marked →
    (∃ x ∈ b.cards, x.id = y.id ∧ x.Marked ∧ x.stops = y.stops) ∨
      ∀ x ∈ b.cards, x.id = y.id → x.stops < y.stops

section Board

variable {L : Licence} {b b' b0 : Board} {d d' : Debt} {c c' : Card}

theorem Since.refl (b : Board) : Since b b :=
  ⟨fun x hx => ⟨x, hx, rfl, Nat.le_refl _⟩, fun y hy m => .inl ⟨y, hy, rfl, m, rfl⟩⟩

theorem Since.trans {b1 b2 : Board} (h : Since b0 b1) (k : Since b1 b2) :
    Since b0 b2 := by
  refine ⟨fun x hx => ?_, fun z hz m => ?_⟩
  · obtain ⟨y, hy, ey, ly⟩ := h.rises x hx
    obtain ⟨z, hz, ez, lz⟩ := k.rises y hy
    exact ⟨z, hz, ez.trans ey, Nat.le_trans ly lz⟩
  · rcases k.marked z hz m with ⟨y, hy, ey, my, sy⟩ | asked
    · rcases h.marked y hy my with ⟨x, hx, ex, mx, sx⟩ | asked
      · exact .inl ⟨x, hx, ex.trans ey, mx, sx.trans sy⟩
      · exact .inr fun x hx e => sy ▸ asked x hx (e.trans ey.symm)
    · refine .inr fun x hx e => ?_
      obtain ⟨y, hy, ey, ly⟩ := h.rises x hx
      exact Nat.lt_of_le_of_lt ly (asked y hy (ey.trans e))

/-- A move of a card takes back no stop, and marks it only as it asks one. -/
theorem Shift.since (h : Shift L b d c d' c') (hs : c.stops ≤ c'.stops) :
    c'.Marked → (c.Marked ∧ c.stops = c'.stops) ∨ c.stops < c'.stops := by
  rintro ⟨u, e⟩
  rcases Nat.lt_or_eq_of_le hs with more | same
  · exact .inr more
  · refine .inl ⟨?_, same⟩
    cases h with
    | paused u' p n hc hu hp hm =>
      cases e
      rcases hp rfl with before | more
      · exact before
      · exact absurd (Nat.lt_of_lt_of_eq more same.symm) (Nat.lt_irrefl _)
    | deleted hc hn hu => exact ⟨u, e⟩
    | _ => cases e

/-- A board with one card moved on. -/
theorem Since.put (hw : Wired b) (hc : c ∈ b.cards) (e : c'.id = c.id) (hs : c.stops ≤ c'.stops)
    (hm : c'.Marked → (c.Marked ∧ c.stops = c'.stops) ∨ c.stops < c'.stops) :
    Since b (b.put c') := by
  have mem {x : Card} : x ∈ (b.put c').cards ↔ x = c' ∨ (x ∈ b.cards ∧ x.id ≠ c.id) :=
    Board.mem_put hc e
  refine ⟨fun x hx => ?_, fun y hy m => ?_⟩
  · by_cases own : x.id = c.id
    · obtain rfl := hw.unique hx hc own
      exact ⟨c', mem.mpr (.inl rfl), e, hs⟩
    · exact ⟨x, mem.mpr (.inr ⟨hx, own⟩), rfl, Nat.le_refl _⟩
  · rcases mem.mp hy with rfl | ⟨hy, -⟩
    · rcases hm m with ⟨before, same⟩ | more
      · exact .inl ⟨c, hc, e.symm, before, same⟩
      · refine .inr fun x hx own => ?_
        rw [hw.unique hx hc (own.trans e)]
        exact more
    · exact .inl ⟨y, hy, rfl, m, rfl⟩

/-- **An edit takes back no stop, and marks a card only as it asks one.** -/
theorem Edit.since (h : Edit L d b d' b') (hw : Wired b) : Since b b' := by
  cases h with
  | staff h =>
    refine ⟨fun x hx => ⟨x, h.cards ▸ hx, rfl, Nat.le_refl _⟩, fun y hy m => ?_⟩
    exact .inl ⟨y, h.cards ▸ hy, rfl, m, rfl⟩
  | shift hc h hs =>
    exact Since.put hw hc h.shifted.id (Nat.le_of_eq hs.symm) (h.since (Nat.le_of_eq hs.symm))
  | stop hc h hs =>
    have le := Nat.le_trans (Nat.le_succ _) (Nat.le_of_eq hs.symm)
    have k := Since.put hw hc h.shifted.id le (h.since le)
    exact ⟨k.rises, k.marked⟩
  | create c ns h hu =>
    refine ⟨fun x hx => ⟨x, Board.mem_add.mpr (.inl hx), rfl, Nat.le_refl _⟩, fun y hy m => ?_⟩
    rcases Board.mem_add.mp hy with hy | rfl
    · exact .inl ⟨y, hy, rfl, m, rfl⟩
    · obtain ⟨u, e⟩ := m
      rcases h.phase with ⟨k, -⟩ | ⟨k, -⟩ <;> rw [e] at k <;> cases k
  | dismiss ws hu =>
    have forth : ∀ x ∈ b.cards, ∃ y ∈ (b.dismiss ws).cards, y.id = x.id ∧ x.stops ≤ y.stops := by
      intro x hx
      refine ⟨_, List.mem_map_of_mem hx, ?_⟩
      split
      · exact ⟨rfl, Nat.le_refl _⟩
      · exact ⟨rfl, Nat.le_refl _⟩
    refine ⟨forth, fun y hy m => ?_⟩
    rcases Board.mem_dismiss hy with ⟨hy, -⟩ | ⟨c, -, -, rfl⟩
    · exact .inl ⟨y, hy, rfl, m, rfl⟩
    · obtain ⟨u, e⟩ := m
      cases e
  | _ => exact ⟨(Since.refl b).rises, (Since.refl b).marked⟩

theorem Edits.since (h : Edits L d b d' b') (hw : Wired b) : Since b b' := by
  exact (h.keep (P := fun _ b1 => Since b b1) (fun e hw1 k => k.trans (e.since hw1)) hw
    (Since.refl b)).2

/-- Where a card is, and how many stops it was asked. -/
def Card.count (c : Card) : (Nat × Nat) × Nat := ((c.project, c.number), c.stops)

/-- Cards that keep their places and counts are counted as before. -/
theorem Counted.same (hb : Counted b) (ec : b'.cards.map Card.count = b.cards.map Card.count)
    (ea : b'.asked = b.asked) : Counted b' := by
  refine ⟨fun c hc => ?_, fun e he => ?_⟩
  · have k : c.count ∈ b.cards.map Card.count := ec ▸ List.mem_map_of_mem hc
    obtain ⟨x, hx, e⟩ := List.mem_map.mp k
    obtain ⟨place, stops⟩ := Prod.mk.inj e
    rw [← stops, ← place, ea]
    exact hb.counts x hx
  · rw [ea] at he
    obtain ⟨c, hc, rfl⟩ := hb.known e he
    have k : c.count ∈ b'.cards.map Card.count := ec ▸ List.mem_map_of_mem hc
    obtain ⟨x, hx, e⟩ := List.mem_map.mp k
    exact ⟨x, hx, (Prod.mk.inj e).1⟩

/-- A stop asked is one more of that card alone. -/
theorem Counted.stop (hb : Counted b) (hw : Wired b) (hc : c ∈ b.cards) (e : c'.id = c.id)
    (ep : c'.project = c.project) (en : c'.number = c.number) (hs : c'.stops = c.stops + 1) :
    Counted ((b.put c').ask c.project c.number) := by
  have mem {x : Card} : x ∈ (b.put c').cards ↔ x = c' ∨ (x ∈ b.cards ∧ x.id ≠ c.id) :=
    Board.mem_put hc e
  have more (p : Nat × Nat) : ((b.put c').ask c.project c.number).asked.count p =
      b.asked.count p + if (c.project, c.number) = p then 1 else 0 := by
    show (b.asked ++ [(c.project, c.number)]).count p = _
    rw [List.count_append, List.count_singleton]
    simp only [beq_iff_eq]
  refine ⟨fun y hy => ?_, fun p hp => ?_⟩
  · rw [more]
    rcases mem.mp hy with rfl | ⟨hy, other⟩
    · rw [ep, en, if_pos rfl, hs, hb.counts c hc]
    · rw [if_neg, Nat.add_zero]
      · exact hb.counts y hy
      · intro same
        obtain ⟨hp, hn⟩ := Prod.mk.inj same
        exact other (hw.numbers y hy c hc hp.symm hn.symm)
  · rcases List.mem_append.mp hp with old | new
    · obtain ⟨x, hx, rfl⟩ := hb.known p old
      by_cases own : x.id = c.id
      · obtain rfl := hw.unique hx hc own
        exact ⟨c', mem.mpr (.inl rfl), by rw [ep, en]⟩
      · exact ⟨x, mem.mpr (.inr ⟨hx, own⟩), rfl⟩
    · rw [List.mem_singleton.mp new]
      exact ⟨c', mem.mpr (.inl rfl), by rw [ep, en]⟩

theorem Counted.add {ns : List Nat} (hb : Counted b) (h : Creatable L b c ns) :
    Counted (b.add c ns) := by
  refine ⟨fun y hy => ?_, fun p hp => ?_⟩
  · rcases Board.mem_add.mp hy with hy | rfl
    · exact hb.counts y hy
    · -- the log speaks of no card of this number
      rw [h.stops]
      refine (List.count_eq_zero.mpr fun said => ?_).symm
      obtain ⟨x, hx, e⟩ := hb.known _ said
      obtain ⟨ep, en⟩ := Prod.mk.inj e
      exact h.number x hx ep en
  · obtain ⟨x, hx, e⟩ := hb.known p hp
    exact ⟨x, Board.mem_add.mpr (.inl hx), e⟩

/-- **Every edit counts the stops it asks.** -/
theorem Edit.counted (h : Edit L d b d' b') (hw : Wired b) (hb : Counted b) : Counted b' := by
  cases h with
  | staff h => exact hb.same (by rw [h.cards]) h.asked
  | shift hc h hs =>
    refine hb.same (Board.map_put Card.count fun y hy e => ?_) rfl
    have k := h.shifted
    rw [hw.unique hy hc (e.trans k.id), Card.count, Card.count, k.project, k.number, hs]
  | stop hc h hs =>
    exact hb.stop hw hc h.shifted.id h.shifted.project h.shifted.number hs
  | create c ns h hu => exact hb.add h
  | dismiss ws hu =>
    refine hb.same ?_ rfl
    show (b.cards.map _).map Card.count = _
    rw [List.map_map]
    refine List.map_congr_left fun c _ => ?_
    simp only [Function.comp]
    split <;> rfl
  | _ => exact hb.same rfl rfl

theorem Removed.counted {project : Nat} (h : Removed project b b') (hb : Counted b) :
    Counted b' := by
  refine ⟨fun c hc => ?_, fun e he => ?_⟩
  · obtain ⟨hc, hp⟩ := h.mem_cards.mp hc
    rw [h.asked, List.count_filter (by simpa using hp)]
    exact hb.counts c hc
  · rw [h.asked, List.mem_filter, bne_iff_ne] at he
    obtain ⟨c, hc, rfl⟩ := hb.known e he.1
    exact ⟨c, h.mem_cards.mpr ⟨hc, he.2⟩, rfl⟩

theorem rule_counted : Rule L fun _ b => Counted b :=
  ⟨fun e hw k => e.counted hw k, fun _ k => k, fun h _ k => h.counted k⟩

end Board

/-! ## 2. In the ledger -/

/-- How many pauses of T-`number` asked it to stop, as the log says. -/
def Ledger.asks (s : Ledger) (project number : Nat) : Nat :=
  s.events.rows.countP fun e => e.project == project && e.what.asked == some number

/-- How many stops of a task a call asks that pauses a task, or holds one. A pause of the task asks
    one, unless it takes over the pause of its project's suspension. -/
def BoardOp.asks (t : Task) : BoardOp → Option Nat
  | pauseTask p n by_ _ =>
    some (if t.project = p ∧ t.number = n ∧ t.takenBy by_ = false then 1 else 0)
  | pauseWithProject p n _ => some (if t.project = p ∧ t.number = n then 1 else 0)
  | holdTask .. => some 0
  | holdForContext .. => some 0
  | _ => none

/-- Paused with its project, and asked so many stops. -/
def Ledger.MarkedAt (s : Ledger) (task stop : Nat) : Prop :=
  ∃ t ∈ s.tasks.rows, t.id = task ∧ t.state = .paused ∧ t.pausedWithProject = true ∧
    t.stopSeq = stop

/-- One of the calls asked the task that stop, and the task has been paused with its project, and
    asked no stop, from that call on. -/
def MarkedSince (calls : List Call) (task stop : Nat) : Prop :=
  ∃ pre call mid, calls = pre ++ call :: mid ∧
    (∀ t ∈ (Ledger.empty.after pre).tasks.rows, t.id = task → t.stopSeq < stop) ∧
    ∀ a b, mid = a ++ b → (Ledger.empty.after (pre ++ call :: a)).MarkedAt task stop

section Ledger

variable {s s' : Ledger}

theorem asks_eq (s : Ledger) (project number : Nat) :
    s.asks project number = s.board.asked.count (project, number) := by
  unfold Ledger.asks List.count
  show _ = (s.events.rows.filterMap _).countP _
  rw [List.countP_filterMap]
  refine List.countP_congr fun e _ => ?_
  cases e.what.asked <;> simp [Prod.ext_iff]

theorem marked_iff {t : Task} :
    t.card.Marked ↔ t.state = .paused ∧ t.pausedWithProject = true := by
  constructor
  · rintro ⟨u, e⟩
    obtain ⟨hst, -, hp⟩ := phase_paused_iff.mp e
    exact ⟨hst, hp⟩
  · rintro ⟨hst, hp⟩
    exact ⟨t.heldUntil.isSome, by rw [phase_paused hst, hp]⟩

theorem counted_empty : Counted Ledger.empty.board :=
  ⟨fun c hc => (by cases hc), fun e he => (by cases he)⟩

/-- Every count a run reaches is the log's. -/
theorem Run.counted {C : Ledger → Call → Prop} (r : Run C s) : Counted s.board :=
  (Run.kept (L := .any) Licence.fair_any rule_counted (fun _ c _ _ => c.op.granted_any _)
    counted_empty r).2

/-- The tasks that are there before a call and after it. -/
theorem Call.since (hs : Sound s.board) (c : Call) :
    (∀ t ∈ s.tasks.rows, ∀ t' ∈ (c.step s).tasks.rows, t'.id = t.id → t.stopSeq ≤ t'.stopSeq) ∧
    ∀ t' ∈ (c.step s).tasks.rows, t'.card.Marked →
      (∃ t ∈ s.tasks.rows, t.id = t'.id ∧ t.card.Marked ∧ t.stopSeq = t'.stopSeq) ∨
        ∀ t ∈ s.tasks.rows, t.id = t'.id → t.stopSeq < t'.stopSeq := by
  have same : ∀ {s' : Ledger}, (∀ t ∈ s'.tasks.rows, t.card ∈ s.board.cards) →
      (∀ t ∈ s.tasks.rows, ∀ t' ∈ s'.tasks.rows, t'.id = t.id → t.stopSeq ≤ t'.stopSeq) ∧
      ∀ t' ∈ s'.tasks.rows, t'.card.Marked →
        (∃ t ∈ s.tasks.rows, t.id = t'.id ∧ t.card.Marked ∧ t.stopSeq = t'.stopSeq) ∨
          ∀ t ∈ s.tasks.rows, t.id = t'.id → t.stopSeq < t'.stopSeq := by
    intro s' there
    refine ⟨fun t ht t' ht' e => ?_, fun t' ht' m => ?_⟩
    · have k := hs.wired.unique (there t' ht') (card_mem ht) e
      exact Nat.le_of_eq (congrArg Card.stops k).symm
    · obtain ⟨t, ht, k⟩ := mem_cards.mp (there t' ht')
      exact .inl ⟨t, ht, congrArg Card.id k, k ▸ m, congrArg Card.stops k⟩
  unfold Call.step
  split
  · next s' h =>
    rcases Op.edited (L := .any) Licence.fair_any h hs.wired hs.acyclic (c.op.granted_any _) with
      ⟨d, -, edits⟩ | ⟨project, -, removed⟩
    · have k : Since s.board s'.board := edits.since hs.wired
      have wired : Wired s'.board := edits.wired hs.wired
      refine ⟨fun t ht t' ht' e => ?_, fun t' ht' m => ?_⟩
      · obtain ⟨y, hy, ey, le⟩ := k.rises _ (card_mem ht)
        rw [wired.unique hy (card_mem ht') (ey.trans e.symm)] at le
        exact le
      · rcases k.marked _ (card_mem ht') m with ⟨x, hx, ex, mx, sx⟩ | more
        · obtain ⟨t, ht, rfl⟩ := mem_cards.mp hx
          exact .inl ⟨t, ht, ex, mx, sx⟩
        · exact .inr fun t ht e => more _ (card_mem ht) e
    · exact same fun t ht => (removed.mem_cards.mp (card_mem ht)).1
  · exact same fun t ht => card_mem ht

/-- **A task that is marked was marked by a call that asked it a stop, and stayed so.** -/
theorem markedSince (calls : List Call) : ∀ t ∈ (Ledger.empty.after calls).tasks.rows,
    t.card.Marked → MarkedSince calls t.id t.stopSeq := by
  induction calls using List.reverseRecOn with
  | nil =>
    intro t ht
    cases ht
  | append_singleton calls c ih =>
    intro t ht m
    have last : Ledger.empty.after (calls ++ [c]) = c.step (Ledger.empty.after calls) :=
      List.foldl_append
    have now_ : (Ledger.empty.after (calls ++ [c])).MarkedAt t.id t.stopSeq :=
      ⟨t, ht, rfl, (marked_iff.mp m).1, (marked_iff.mp m).2, rfl⟩
    rw [last] at ht
    rcases (c.since (reachable_after calls).sound).2 t ht m with ⟨t0, ht0, e, m0, same⟩ | more
    · obtain ⟨pre, call, mid, split_, before, after_⟩ := ih t0 ht0 m0
      rw [e, same] at before after_
      refine ⟨pre, call, mid ++ [c], by rw [split_, List.append_assoc]; rfl, before, ?_⟩
      intro a b ab
      rcases List.eq_nil_or_concat b with rfl | ⟨b, x, rfl⟩
      · rw [List.append_nil] at ab
        rw [← ab]
        have whole : pre ++ call :: (mid ++ [c]) = calls ++ [c] := by
          rw [split_, List.append_assoc]
          rfl
        rw [whole]
        exact now_
      · rw [List.concat_eq_append, ← List.append_assoc] at ab
        exact after_ a b (List.append_inj_left' ab rfl)
    · refine ⟨calls, c, [], rfl, more, fun a b ab => ?_⟩
      obtain ⟨rfl, rfl⟩ := List.append_eq_nil_iff.mp ab.symm
      exact now_

/-! ## 3. What a call asks -/

/-- A task after a write on one card. -/
theorem card_of_edit {id : Nat} {f : Card → Card}
    (hb : s'.board.cards = (s.board.edit id f).cards) (hf : ∀ c, (f c).id = c.id) {t t' : Task}
    (ht : t ∈ s.tasks.rows) (ht' : t' ∈ s'.tasks.rows) (e : t'.id = t.id) :
    t'.card = if t.id = id then f t.card else t.card := by
  have k : t'.card ∈ (s.board.edit id f).cards := hb ▸ card_mem ht'
  obtain ⟨c, hc, ec⟩ := List.mem_map.mp k
  obtain ⟨r, hr, rfl⟩ := mem_cards.mp hc
  have own : r.id = t'.id := by
    have k := congrArg Card.id ec
    split at k
    · exact (hf _).symm.trans k
    · exact k
  obtain rfl := Table.eq_of_key hr ht (own.trans e)
  exact ec.symm

/-- A pause that asks a stop adds one to the count of its task. -/
theorem card_of_pause {t0 : Task} {p : Bool} {stops : Stops}
    (hb : s'.board = s.board.pause t0 p stops) {t t' : Task} (ht : t ∈ s.tasks.rows)
    (ht' : t' ∈ s'.tasks.rows) (e : t'.id = t.id) :
    t'.card = if t.id = t0.id then t.card.pause p stops.count else t.card := by
  have cards : s'.board.cards = (s.board.edit t0.id (Card.pause p stops.count)).cards := by
    rw [hb]
    cases stops <;> rfl
  exact card_of_edit cards (fun _ => rfl) ht ht' e

theorem stops_of_pause {t0 : Task} {p : Bool} {stops : Stops}
    (hb : s'.board = s.board.pause t0 p stops) {t t' : Task} (ht : t ∈ s.tasks.rows)
    (ht' : t' ∈ s'.tasks.rows) (e : t'.id = t.id) :
    t'.stopSeq = t.stopSeq + if t.id = t0.id then stops.count else 0 := by
  have k := congrArg Card.stops (card_of_pause hb ht ht' e)
  split at k
  · next own =>
    rw [if_pos own]
    exact k
  · next other =>
    rw [if_neg other]
    exact k

/-- A write that counts no stop. -/
theorem stops_of_edit {id : Nat} {f : Card → Card} (hb : s'.board = s.board.edit id f)
    (hf : ∀ c, (f c).id = c.id) (hs : ∀ c, (f c).stops = c.stops) {t t' : Task}
    (ht : t ∈ s.tasks.rows) (ht' : t' ∈ s'.tasks.rows) (e : t'.id = t.id) :
    t'.stopSeq = t.stopSeq := by
  have k := congrArg Card.stops (card_of_edit (congrArg Board.cards hb) hf ht ht' e)
  split at k
  · exact k.trans (hs _)
  · exact k

/-- **What a call that pauses asks of each task.** -/
theorem BoardOp.asks_ok {op : BoardOp} {u : Unit} (h : op.program.run s = .ok (u, s'))
    (hw : Wired s.board) {t t' : Task} (ht : t ∈ s.tasks.rows) (ht' : t' ∈ s'.tasks.rows)
    (e : t'.id = t.id) {n : Nat} (asks : op.asks t = some n) : t'.stopSeq = t.stopSeq + n := by
  -- the task of a number is one
  have own {t0 : Task} {p k : Nat} (h0 : t0 ∈ s.tasks.rows) (hp : t0.project = p)
      (hn : t0.number = k) : t.id = t0.id ↔ t.project = p ∧ t.number = k := by
    constructor
    · intro same
      obtain rfl := Table.eq_of_key ht h0 same
      exact ⟨hp, hn⟩
    · rintro ⟨hp', hn'⟩
      exact hw.numbers _ (card_mem ht) _ (card_mem h0) (hp'.trans hp.symm) (hn'.trans hn.symm)
  have paused {p k : Nat} {by_ because : Option String} {with_ : Bool} {r : Task}
      (h : (pauseTaskAs p k by_ because with_).run s = .ok (r, s')) : t'.stopSeq = t.stopSeq +
        if t.project = p ∧ t.number = k ∧ t.takenBy by_ = false then 1 else 0 := by
    obtain ⟨t0, h0, hp, hn, -, -, ⟨taken, hb⟩ | ⟨free, -, q, -, hb⟩⟩ := pauseTaskAs_board h
    · rw [if_neg, stops_of_edit hb (fun _ => rfl) (fun _ => rfl) ht ht' e, Nat.add_zero]
      · rintro ⟨hp', hn', free⟩
        rw [Table.eq_of_key ht h0 ((own h0 hp hn).mpr ⟨hp', hn'⟩), taken] at free
        cases free
    · rw [stops_of_pause hb ht ht' e]
      congr 1
      refine if_congr ?_ rfl rfl
      constructor
      · intro same
        refine ⟨((own h0 hp hn).mp same).1, ((own h0 hp hn).mp same).2, ?_⟩
        rw [Table.eq_of_key ht h0 same]
        exact free
      · rintro ⟨hp', hn', -⟩
        exact (own h0 hp hn).mpr ⟨hp', hn'⟩
  cases op with
  | pauseTask p k b w =>
    obtain ⟨r, h⟩ := run_silent.mp h
    rw [← Option.some.inj asks]
    exact paused h
  | pauseWithProject p k b =>
    obtain ⟨r, h⟩ := run_silent.mp h
    obtain ⟨r1, s1, h1, h⟩ := run_bind_ok.mp h
    obtain ⟨row, s2, h2, h⟩ := run_bind_ok.mp h
    obtain ⟨rfl, -⟩ := taskRow_ok h2
    obtain ⟨-, rfl⟩ := run_pure_ok.mp h
    rw [← Option.some.inj asks, paused h1]
    congr 1
    exact if_congr (by simp [Task.takenBy]) rfl rfl
  | holdTask p k v b =>
    obtain ⟨r, h⟩ := run_silent.mp h
    obtain ⟨t0, h0, -, hb⟩ := holdTask_board h
    rw [← Option.some.inj asks, stops_of_edit hb (fun _ => rfl) (fun _ => rfl) ht ht' e, Nat.add_zero]
  | holdForContext p k b =>
    obtain ⟨r, h⟩ := run_silent.mp h
    obtain ⟨t0, h0, -, hb⟩ := holdForContext_board h
    rw [← Option.some.inj asks, stops_of_pause hb ht ht' e]
    split <;> rfl
  | _ => cases asks

/-- The words of a resume given up in vain ask no stop. -/
theorem pauseAgain_asks {m : Message} {t0 : Task} {reason : String} {b : Bool}
    (h : (pauseAgain m t0 reason).run s = .ok (b, s')) {t t' : Task} (ht : t ∈ s.tasks.rows)
    (ht' : t' ∈ s'.tasks.rows) (e : t'.id = t.id) : t'.stopSeq = t.stopSeq := by
  rcases pauseAgain_board h with ⟨-, rfl⟩ | ⟨-, -, hb⟩
  · rw [Table.eq_of_key ht' ht e]
  · rw [stops_of_pause hb ht ht' e]
    split <;> rfl

/-- A mark is taken back where the task is paused, at the stop named. -/
theorem unmarkPause_ok {project number stop : Nat} {u : Unit}
    (h : (unmarkPause project number stop).run s = .ok (u, s')) {t t' : Task}
    (ht : t ∈ s.tasks.rows) (ht' : t' ∈ s'.tasks.rows) (e : t'.id = t.id)
    (was : t.pausedWithProject = true) (now_ : t'.pausedWithProject = false) :
    t.project = project ∧ t.number = number ∧ t.state = .paused ∧ t.stopSeq = stop := by
  obtain ⟨t0, s1, h1, h⟩ := run_bind_ok.mp h
  obtain ⟨rfl, h0, hp, hn⟩ := taskRow_ok h1
  rcases run_doWhen_ok.mp h with ⟨hc, h⟩ | ⟨-, rfl⟩
  · simp only [Bool.and_eq_true, beq_iff_eq] at hc
    obtain ⟨rfl, -⟩ := updateTask_ok h
    obtain ⟨r, hr, rfl⟩ := Table.mem_alter.mp ht'
    obtain rfl : r = t := Table.eq_of_key hr ht ((Table.key_altered _ _ r).symm.trans e)
    by_cases own : r.id = t0.id
    · obtain rfl := Table.eq_of_key hr h0 own
      exact ⟨hp, hn, hc.1, hc.2⟩
    · rw [Table.altered, if_neg (by exact fun k => own (beq_iff_eq.mp k)), was] at now_
      cases now_
  · rw [Table.eq_of_key ht' ht e, was] at now_
    cases now_

/-- A pause answers its task. -/
theorem pauseTaskAs_answer {project number : Nat} {by_ because : Option String} {with_ : Bool}
    {r : Task} (h : (pauseTaskAs project number by_ because with_).run s = .ok (r, s')) :
    r ∈ s'.tasks.rows ∧ r.project = project ∧ r.number = number := by
  obtain ⟨t, ht, rfl, rfl, hr, er, k⟩ := pauseTaskAs_board h
  have same : r.card.project = t.card.project ∧ r.card.number = t.card.number := by
    rcases k with ⟨-, hb⟩ | ⟨-, -, p, -, hb⟩
    · rw [card_of_edit (congrArg Board.cards hb) (fun _ => rfl) ht hr er, if_pos rfl]
      exact ⟨rfl, rfl⟩
    · rw [card_of_pause hb ht hr er, if_pos rfl]
      exact ⟨rfl, rfl⟩
  exact ⟨hr, same⟩

/-- The stop that a pause with the project answers is the count of its task. -/
theorem pauseWithProject_seq {project number : Nat} {because : String} {stop : Stop}
    (h : (pauseWithProject project number because).run s = .ok (stop, s')) (hw : Wired s.board)
    {t : Task} (ht : t ∈ s'.tasks.rows) (hp : t.project = project) (hn : t.number = number) :
    stop.task = t.id ∧ stop.seq = t.stopSeq := by
  obtain ⟨d, edits, -⟩ := pauseWithProject_edits (L := .any) (d := .none) h hw rfl
  have wired : Wired s'.board := edits.wired hw
  obtain ⟨r, s1, h1, h⟩ := run_bind_ok.mp h
  obtain ⟨row, s2, h2, h⟩ := run_bind_ok.mp h
  obtain ⟨rfl, hr, rp, rn⟩ := taskRow_ok h2
  obtain ⟨rfl, rfl⟩ := run_pure_ok.mp h
  have own {x : Task} (hx : x ∈ s1.tasks.rows) (ep : x.project = project)
      (en : x.number = number) : x = t :=
    Table.eq_of_key hx ht
      (wired.numbers _ (card_mem hx) _ (card_mem ht) (ep.trans hp.symm) (en.trans hn.symm))
  obtain ⟨hm, mp, mn⟩ := pauseTaskAs_answer h1
  rw [own hr rp rn]
  exact ⟨congrArg Task.id (own hm mp mn), rfl⟩

/-- **Stops are counted, and no late answer takes another pause's mark.** -/
theorem stops_counted (calls : List Call) :
    -- the count of a task is the log's
    (∀ t ∈ (Ledger.empty.after calls).tasks.rows,
      t.stopSeq = (Ledger.empty.after calls).asks t.project t.number) ∧
    (∀ (c : Call), ∀ t ∈ (Ledger.empty.after calls).tasks.rows,
      ∀ t' ∈ (c.step (Ledger.empty.after calls)).tasks.rows, t'.id = t.id →
      -- it never falls
      t.stopSeq ≤ t'.stopSeq ∧
      -- a pause adds one where it asks a stop, and a hold none
      (∀ op n u s', c.op = .board op → op.asks t = some n →
        op.program.run ((Ledger.empty.after calls).at_ c.clock) = .ok (u, s') →
        t'.stopSeq = t.stopSeq + n) ∧
      -- a mark is taken back only by the stop that made it, the latest, while the task stays paused
      (∀ project number stop, c.op = .board (.unmarkPause project number stop) →
        t.pausedWithProject = true → t'.pausedWithProject = false →
        t.project = project ∧ t.number = number ∧ t.stopSeq = stop ∧
          MarkedSince calls t.id stop)) ∧
    -- a pause with the project answers the count of its task
    (∀ clock project number because stop s',
      (pauseWithProject project number because).run ((Ledger.empty.after calls).at_ clock) =
        .ok (stop, s') →
      ∀ t ∈ s'.tasks.rows, t.project = project → t.number = number →
        stop.task = t.id ∧ stop.seq = t.stopSeq) ∧
    -- nor does a resume given up in vain ask a stop
    ∀ (s s' : Ledger) m t0 reason b, (pauseAgain m t0 reason).run s = .ok (b, s') →
      ∀ t ∈ s.tasks.rows, ∀ t' ∈ s'.tasks.rows, t'.id = t.id → t'.stopSeq = t.stopSeq := by
  have r : Reachable (Ledger.empty.after calls) := reachable_after calls
  refine ⟨fun t ht => ?_, fun c t ht t' ht' e => ⟨?_, ?_, ?_⟩, ?_, ?_⟩
  · rw [asks_eq]
    exact r.counted.counts _ (card_mem ht)
  · exact (c.since r.sound).1 t ht t' ht' e
  · intro op n u s' isOp asks ran
    have step : c.step (Ledger.empty.after calls) = s' := by
      rw [Call.step, isOp, Op.attempt, ran]
      rfl
    rw [step] at ht'
    exact BoardOp.asks_ok (s := (Ledger.empty.after calls).at_ c.clock) ran r.sound.wired ht ht' e
      asks
  · intro project number stop isOp was now_
    cases ran : c.op.attempt ((Ledger.empty.after calls).at_ c.clock) with
    | error refused =>
      rw [Call.step, ran] at ht'
      rw [Table.eq_of_key ht' ht e, was] at now_
      cases now_
    | ok s' =>
      rw [Call.step, ran] at ht'
      rw [isOp] at ran
      obtain ⟨u, ran⟩ := snd_ok ran
      obtain ⟨hp, hn, hst, hs⟩ := unmarkPause_ok ran ht ht' e was now_
      refine ⟨hp, hn, hs, ?_⟩
      rw [← hs]
      exact markedSince calls t ht (marked_iff.mpr ⟨hst, was⟩)
  · intro clock project number because stop s' ran t ht hp hn
    exact pauseWithProject_seq (s := (Ledger.empty.after calls).at_ clock) ran r.sound.wired ht hp hn
  · intro s s' m t0 reason b h t ht t' ht' e
    exact pauseAgain_asks h ht ht' e

end Ledger

/-- T-1 is at work as its project is closed, and its window with it. -/
def closedAtWork : List Call :=
  [opening, taskFor "first" [], assigned 1, ⟨.board (.setProjectState 1 .suspended), []⟩,
    ⟨.board (.pauseWithProject 1 1 "its window closed"), []⟩]

/-- The kill of its window was refused: the window ended by itself. -/
def killRefused : Call := ⟨.board (.unmarkPause 1 1 1), []⟩

theorem stops_counted_refused : ∃ t ∈ (Ledger.empty.after closedAtWork).tasks.rows,
    t.stopSeq = 1 ∧ (Ledger.empty.after closedAtWork).asks t.project t.number = 1 ∧
      MarkedSince closedAtWork t.id 1 := by
  have taken : ∃ t ∈ (Ledger.empty.after closedAtWork).tasks.rows,
      ∃ t' ∈ (killRefused.step (Ledger.empty.after closedAtWork)).tasks.rows, t'.id = t.id ∧
        t.stopSeq = 1 ∧ t.pausedWithProject = true ∧ t'.pausedWithProject = false := by
    decide
  obtain ⟨t, ht, t', ht', e, one, was, now_⟩ := taken
  obtain ⟨count, calls, -⟩ := stops_counted closedAtWork
  obtain ⟨-, -, -, since⟩ := (calls killRefused t ht t' ht' e).2.2 1 1 1 rfl was now_
  exact ⟨t, ht, one, (count t ht).symm.trans one, since⟩

end ConsensFlow
