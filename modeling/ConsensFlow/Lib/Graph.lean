/-
  File:      ConsensFlow/Lib/Graph.lean
  Subject:   A FINITE DIRECTED GRAPH AS ITS LIST OF EDGES: what a node reaches, computed, and
             graphs with no circle.

  * `Reaches es a b` -- a path of one edge or more from `a` to `b`;
  * `reach es a` -- the nodes `a` reaches, found edge by edge until nothing is new;
    **`mem_reach`**: they are the nodes it reaches;
  * `Acyclic es` -- no node reaches itself. An edge that closes no path keeps it
    (`Acyclic.add`, `Acyclic.fan`), and so does taking edges away (`Acyclic.mono`).
-/
import Mathlib

namespace Lib.Graph

open Relation

variable {α : Type}

/-! ## 1. Paths -/

/-- A path of one edge or more. -/
def Reaches (es : List (α × α)) : α → α → Prop := TransGen fun x y => (x, y) ∈ es

theorem Reaches.mono {es fs : List (α × α)} (h : es ⊆ fs) {a b : α} (p : Reaches es a b) :
    Reaches fs a b := TransGen.mono (fun _ _ he => h he) a b p

/-- A path that uses one edge more either did not need it, or goes through it. -/
theorem Reaches.without {es : List (α × α)} {a b x y : α} (p : Reaches (es ++ [(a, b)]) x y) :
    Reaches es x y ∨ ((x = a ∨ Reaches es x a) ∧ (b = y ∨ Reaches es b y)) := by
  have edge : ∀ {u v : α}, (u, v) ∈ es ++ [(a, b)] → (u, v) ∈ es ∨ (u = a ∧ b = v) := by
    intro u v h
    rcases List.mem_append.mp h with h | h
    · exact Or.inl h
    · obtain ⟨rfl, rfl⟩ := Prod.mk.inj (List.mem_singleton.mp h)
      exact Or.inr ⟨rfl, rfl⟩
  induction p with
  | single h =>
    rcases edge h with h | ⟨rfl, rfl⟩
    · exact Or.inl (TransGen.single h)
    · exact Or.inr ⟨Or.inl rfl, Or.inl rfl⟩
  | tail _ h ih =>
    rcases edge h with h | ⟨rfl, rfl⟩
    · -- the last edge is an old one
      rcases ih with ih | ⟨hx, hb⟩
      · exact Or.inl (TransGen.tail ih h)
      · refine Or.inr ⟨hx, Or.inr ?_⟩
        rcases hb with rfl | hb
        · exact TransGen.single h
        · exact TransGen.tail hb h
    · -- the last edge is the new one
      rcases ih with ih | ⟨hx, -⟩
      · exact Or.inr ⟨Or.inr ih, Or.inl rfl⟩
      · exact Or.inr ⟨hx, Or.inl rfl⟩

/-! ## 2. Graphs with no circle -/

/-- No node reaches itself. -/
def Acyclic (es : List (α × α)) : Prop := ∀ a, ¬ Reaches es a a

theorem Acyclic.mono {es fs : List (α × α)} (h : fs ⊆ es) (ha : Acyclic es) : Acyclic fs :=
  fun a p => ha a (p.mono h)

theorem acyclic_nil : Acyclic ([] : List (α × α)) := by
  intro a p
  cases p with
  | single h => cases h
  | tail _ h => cases h

/-- **An edge that closes no path makes no circle.** -/
theorem Acyclic.add {es : List (α × α)} {a b : α} (ha : Acyclic es) (hne : a ≠ b)
    (hn : ¬ Reaches es b a) : Acyclic (es ++ [(a, b)]) := by
  intro x p
  rcases p.without with p | ⟨hx, hb⟩
  · exact ha x p
  · refine hn ?_
    rcases hb with rfl | hb <;> rcases hx with rfl | hx
    · exact absurd rfl hne
    · exact hx
    · exact hb
    · exact TransGen.trans hb hx

/-- A node no edge leads to is reached by none. -/
theorem not_reaches_of_no_edge {es : List (α × α)} {b : α} (h : ∀ x, (x, b) ∉ es) (a : α) :
    ¬ Reaches es a b := by
  intro p
  cases p with
  | single e => exact h _ e
  | tail _ e => exact h _ e

/-- Edges from a node that no edge leads to make no circle, unless one leads to it. -/
theorem Acyclic.fan {es : List (α × α)} {a : α} {ns : List α} (ha : Acyclic es)
    (hin : ∀ x, (x, a) ∉ es) (hn : a ∉ ns) : Acyclic (es ++ ns.map fun n => (a, n)) := by
  induction ns generalizing es with
  | nil => simpa using ha
  | cons n ns ih =>
    have hne : a ≠ n := fun e => hn (e ▸ List.mem_cons_self)
    have hes : Acyclic (es ++ [(a, n)]) := ha.add hne (not_reaches_of_no_edge hin n)
    have hin' : ∀ x, (x, a) ∉ es ++ [(a, n)] := by
      intro x hx
      rcases List.mem_append.mp hx with hx | hx
      · exact hin x hx
      · exact hne (Prod.mk.inj (List.mem_singleton.mp hx)).2
    have := ih hes hin' fun k => hn (List.mem_cons_of_mem _ k)
    rwa [List.append_assoc] at this

/-! ## 3. What a node reaches, computed -/

variable [DecidableEq α]

/-- The ends of the edges that begin in `xs`. -/
def targets (es : List (α × α)) (xs : List α) : List α :=
  (es.filter fun e => e.1 ∈ xs).map Prod.snd

theorem mem_targets {es : List (α × α)} {xs : List α} {b : α} :
    b ∈ targets es xs ↔ ∃ a ∈ xs, (a, b) ∈ es := by
  unfold targets
  constructor
  · intro h
    obtain ⟨⟨a, b'⟩, he, rfl⟩ := List.mem_map.mp h
    obtain ⟨he, ha⟩ := List.mem_filter.mp he
    exact ⟨a, by simpa using ha, he⟩
  · rintro ⟨a, ha, he⟩
    exact List.mem_map.mpr ⟨(a, b), List.mem_filter.mpr ⟨he, by simpa using ha⟩, rfl⟩

/-- `n` rounds of adding what the nodes found lead to. -/
def grown (es : List (α × α)) : Nat → List α → List α
  | 0, xs => xs
  | n + 1, xs => grown es n (xs ∪ targets es xs)

/-- The nodes that `a` reaches. -/
def reach (es : List (α × α)) (a : α) : List α := grown es es.length (targets es [a])

theorem subset_grown (es : List (α × α)) (n : Nat) (xs : List α) : xs ⊆ grown es n xs := by
  induction n generalizing xs with
  | zero => exact fun _ h => h
  | succ n ih => exact fun x h => ih _ (List.mem_union_iff.mpr (Or.inl h))

theorem grown_sound {es : List (α × α)} {a : α} (n : Nat) {xs : List α}
    (h : ∀ x ∈ xs, Reaches es a x) : ∀ x ∈ grown es n xs, Reaches es a x := by
  induction n generalizing xs with
  | zero => exact h
  | succ n ih =>
    refine ih fun x hx => ?_
    rcases List.mem_union_iff.mp hx with hx | hx
    · exact h x hx
    · obtain ⟨y, hy, he⟩ := mem_targets.mp hx
      exact TransGen.tail (h y hy) he

/-- A set of nodes that nothing leads out of. -/
def Closed (es : List (α × α)) (xs : List α) : Prop := targets es xs ⊆ xs

theorem grown_of_closed {es : List (α × α)} (n : Nat) {xs : List α} (h : Closed es xs) :
    ∀ x, x ∈ grown es n xs ↔ x ∈ xs := by
  induction n generalizing xs with
  | zero => exact fun _ => Iff.rfl
  | succ n ih =>
    have e : ∀ x, x ∈ xs ∪ targets es xs ↔ x ∈ xs := by
      intro x
      rw [List.mem_union_iff]
      exact ⟨fun k => k.elim id (fun k => h k), Or.inl⟩
    have hc : Closed es (xs ∪ targets es xs) := by
      intro x hx
      obtain ⟨y, hy, he⟩ := mem_targets.mp hx
      exact (e x).mpr (h (mem_targets.mpr ⟨y, (e y).mp hy, he⟩))
    exact fun x => (ih hc x).trans (e x)

/-- Each round that is not the last adds an end of an edge, so as many rounds as there are
    ends not found yet are enough. -/
theorem closed_grown (es : List (α × α)) (n : Nat) (xs : List α)
    (h : ((es.map Prod.snd).toFinset \ xs.toFinset).card ≤ n) : Closed es (grown es n xs) := by
  induction n generalizing xs with
  | zero =>
    have he : (es.map Prod.snd).toFinset \ xs.toFinset = ∅ :=
      Finset.card_eq_zero.mp (Nat.le_zero.mp h)
    intro x hx
    obtain ⟨y, -, hxy⟩ := mem_targets.mp hx
    have hm : x ∈ (es.map Prod.snd).toFinset :=
      List.mem_toFinset.mpr (List.mem_map.mpr ⟨(y, x), hxy, rfl⟩)
    exact List.mem_toFinset.mp (Finset.sdiff_eq_empty_iff_subset.mp he hm)
  | succ n ih =>
    by_cases hc : Closed es xs
    · intro x hx
      obtain ⟨y, hy, he⟩ := mem_targets.mp hx
      have hy' : y ∈ xs := (grown_of_closed (n + 1) hc y).mp hy
      exact subset_grown es (n + 1) xs (hc (mem_targets.mpr ⟨y, hy', he⟩))
    · refine ih _ (Nat.le_of_lt_succ (Nat.lt_of_lt_of_le (Finset.card_lt_card ?_) h))
      -- what is new this round is an end that was not found
      obtain ⟨x, hx, hxn⟩ : ∃ x, x ∈ targets es xs ∧ x ∉ xs := by
        by_contra k
        exact hc fun x hx => by
          by_contra hn
          exact k ⟨x, hx, hn⟩
      refine Finset.ssubset_iff_subset_ne.mpr ⟨fun y hy => ?_, fun e => ?_⟩
      · obtain ⟨hy, hyn⟩ := Finset.mem_sdiff.mp hy
        refine Finset.mem_sdiff.mpr ⟨hy, fun k => hyn ?_⟩
        exact List.mem_toFinset.mpr (List.mem_union_iff.mpr (Or.inl (List.mem_toFinset.mp k)))
      · obtain ⟨y, -, hxy⟩ := mem_targets.mp hx
        have hm : x ∈ (es.map Prod.snd).toFinset \ xs.toFinset := by
          refine Finset.mem_sdiff.mpr ⟨?_, fun k => hxn (List.mem_toFinset.mp k)⟩
          exact List.mem_toFinset.mpr (List.mem_map.mpr ⟨(y, x), hxy, rfl⟩)
        rw [← e] at hm
        refine (Finset.mem_sdiff.mp hm).2 ?_
        exact List.mem_toFinset.mpr (List.mem_union_iff.mpr (Or.inr hx))

/-- **The nodes found are the nodes reached.** -/
theorem mem_reach {es : List (α × α)} {a b : α} : b ∈ reach es a ↔ Reaches es a b := by
  constructor
  · refine grown_sound _ (fun x hx => ?_) b
    obtain ⟨y, hy, he⟩ := mem_targets.mp hx
    rw [List.mem_singleton.mp hy] at he
    exact TransGen.single he
  · intro p
    have hc : Closed es (reach es a) := by
      refine closed_grown es _ _ (Nat.le_trans (Finset.card_le_card Finset.sdiff_subset) ?_)
      exact Nat.le_trans (List.toFinset_card_le _) (Nat.le_of_eq (List.length_map ..))
    induction p with
    | single h =>
      exact subset_grown es _ _ (mem_targets.mpr ⟨a, List.mem_singleton.mpr rfl, h⟩)
    | tail _ h ih => exact hc (mem_targets.mpr ⟨_, ih, h⟩)

end Lib.Graph
