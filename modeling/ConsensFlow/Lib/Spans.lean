/-
  File:      ConsensFlow/Lib/Spans.lean
  Subject:   SPANS OF A LIST, joined where they overlap or touch, and replaced by a mark.

  * `join` -- sorted spans joined one after the other;
  * `Joined`, `Runs` -- a chain of spans each of which overlaps or touches what is before it, and the
    chains of a set of spans that neither overlap nor touch one another;
  * **`join_runs`** -- sorted spans are joined to just these;
  * `replaced` -- the list with each run replaced by a mark; `replaced_kept`: all else is kept.
-/
import Mathlib

namespace Lib.Spans

/-- From a place to another, which is not in it. -/
abbrev Span := Nat × Nat

/-! ## 1. Joined -/

/-- Spans joined to the last run, or beginning the next. -/
def joinFrom (last : Span) : List Span → List Span
  | [] => [last]
  | span :: spans =>
    if span.1 ≤ last.2 then joinFrom (last.1, max last.2 span.2) spans
    else last :: joinFrom span spans

/-- Sorted spans, joined where they overlap or touch. -/
def join : List Span → List Span
  | [] => []
  | span :: spans => joinFrom span spans

/-- A run of spans: each overlaps or touches the run before it. -/
inductive Joined (S : Span → Prop) : Span → Prop where
  | one {span : Span} (h : S span) : Joined S span
  | more {run span : Span} (h : Joined S run) (hs : S span) (meets : span.1 ≤ run.2 ∧ run.1 ≤ span.2) :
    Joined S (min run.1 span.1, max run.2 span.2)

/-- The runs of a set of spans, in order: each as long as it can be. -/
structure Runs (S : Span → Prop) (runs : List Span) : Prop where
  apart : runs.Pairwise fun run next => run.2 < next.1
  joined : ∀ run ∈ runs, Joined S run
  all : ∀ span, S span → ∃ run ∈ runs, run.1 ≤ span.1 ∧ span.2 ≤ run.2

variable {S : Span → Prop}

/-- Every place of a run is in a span of it. -/
theorem Joined.covers {run : Span} (h : Joined S run) {place : Nat} (after : run.1 ≤ place)
    (before : place < run.2) : ∃ span, S span ∧ span.1 ≤ place ∧ place < span.2 := by
  induction h with
  | one h => exact ⟨_, h, after, before⟩
  | @more run span h hs meets ih =>
    dsimp only at after before
    by_cases inRun : run.1 ≤ place ∧ place < run.2
    · exact ih inRun.1 inRun.2
    · exact ⟨span, hs, by omega, by omega⟩

theorem Joined.ordered {run : Span} (ordered : ∀ span, S span → span.1 ≤ span.2)
    (h : Joined S run) : run.1 ≤ run.2 := by
  induction h with
  | one h => exact ordered _ h
  | @more run span h hs meets ih =>
    have := ordered span hs
    dsimp only
    omega

theorem Joined.within {run : Span} {bound : Nat} (within : ∀ span, S span → span.2 ≤ bound)
    (h : Joined S run) : run.2 ≤ bound := by
  induction h with
  | one h => exact within _ h
  | @more run span h hs meets ih =>
    have := within span hs
    dsimp only
    omega

/-- A place is in a run just where it is in a span. -/
theorem Runs.covers_iff {runs : List Span} (h : Runs S runs) (place : Nat) :
    (∃ run ∈ runs, run.1 ≤ place ∧ place < run.2) ↔
      ∃ span, S span ∧ span.1 ≤ place ∧ place < span.2 := by
  constructor
  · rintro ⟨run, hr, after, before⟩
    exact (h.joined run hr).covers after before
  · rintro ⟨span, hs, after, before⟩
    obtain ⟨run, hr, first, last⟩ := h.all span hs
    exact ⟨run, hr, by omega, by omega⟩

/-! ## 2. Sorted spans are joined to the runs -/

/-- **What is joined from a run on**: the run goes on in the first, which begins where it did. -/
theorem joinFrom_runs {last : Span} {spans : List Span} (run : Joined S last)
    (sorted : spans.Pairwise fun span next => span.1 ≤ next.1)
    (later : ∀ span ∈ spans, last.1 ≤ span.1) (ordered : ∀ span ∈ spans, span.1 ≤ span.2)
    (hS : ∀ span ∈ spans, S span) :
    (joinFrom last spans).Pairwise (fun run next => run.2 < next.1) ∧
      (∀ run ∈ joinFrom last spans, Joined S run ∧ last.1 ≤ run.1) ∧
      (∃ run ∈ joinFrom last spans, run.1 = last.1 ∧ last.2 ≤ run.2) ∧
      ∀ span ∈ spans, ∃ run ∈ joinFrom last spans, run.1 ≤ span.1 ∧ span.2 ≤ run.2 := by
  induction spans generalizing last with
  | nil =>
    refine ⟨.cons (fun _ h => absurd h List.not_mem_nil) .nil, fun r hr => ?_,
      ⟨last, List.mem_cons_self, rfl, le_rfl⟩, fun _ h => absurd h List.not_mem_nil⟩
    obtain rfl := List.mem_singleton.1 hr
    exact ⟨run, le_rfl⟩
  | cons span spans ih =>
    obtain ⟨next, sorted⟩ := List.pairwise_cons.1 sorted
    have after := later span List.mem_cons_self
    have here := ordered span List.mem_cons_self
    have rest := fun x hx => ordered x (List.mem_cons_of_mem span hx)
    have hS' := fun x hx => hS x (List.mem_cons_of_mem span hx)
    rw [joinFrom]
    split
    · next meets =>
      have goes := run.more (hS span List.mem_cons_self) ⟨meets, by omega⟩
      rw [Nat.min_eq_left after] at goes
      obtain ⟨apart, each, ⟨first, hf, begins, reach⟩, all⟩ := ih goes sorted
        (fun x hx => later x (List.mem_cons_of_mem _ hx)) rest hS'
      dsimp only at begins reach
      refine ⟨apart, each, ⟨first, hf, begins, by omega⟩, fun x hx => ?_⟩
      rcases List.mem_cons.1 hx with rfl | hx
      · exact ⟨first, hf, by omega, by omega⟩
      · exact all x hx
    · next past =>
      obtain ⟨apart, each, ⟨first, hf, begins, reach⟩, all⟩ :=
        ih (.one (hS span List.mem_cons_self)) sorted next rest hS'
      refine ⟨.cons (fun r hr => ?_) apart, fun r hr => ?_,
        ⟨last, List.mem_cons_self, rfl, le_rfl⟩, fun x hx => ?_⟩
      · have := (each r hr).2
        omega
      · rcases List.mem_cons.1 hr with rfl | hr
        · exact ⟨run, le_rfl⟩
        · exact ⟨(each r hr).1, Nat.le_trans after (each r hr).2⟩
      · rcases List.mem_cons.1 hx with rfl | hx
        · exact ⟨first, List.mem_cons_of_mem _ hf, by omega, reach⟩
        · obtain ⟨r, hr, covers⟩ := all x hx
          exact ⟨r, List.mem_cons_of_mem _ hr, covers⟩

/-- **Sorted spans are joined to their runs.** -/
theorem join_runs {spans : List Span} (sorted : spans.Pairwise fun span next => span.1 ≤ next.1)
    (ordered : ∀ span ∈ spans, span.1 ≤ span.2) : Runs (· ∈ spans) (join spans) := by
  cases spans with
  | nil =>
    exact ⟨.nil, fun _ h => absurd h List.not_mem_nil, fun _ h => absurd h List.not_mem_nil⟩
  | cons span spans =>
    obtain ⟨next, sorted⟩ := List.pairwise_cons.1 sorted
    obtain ⟨apart, each, ⟨first, hf, begins, reach⟩, all⟩ :=
      joinFrom_runs (S := (· ∈ span :: spans)) (.one List.mem_cons_self) sorted next
        (fun x hx => ordered x (List.mem_cons_of_mem _ hx)) fun x hx => List.mem_cons_of_mem _ hx
    refine ⟨apart, fun r hr => (each r hr).1, fun x hx => ?_⟩
    rcases List.mem_cons.1 hx with rfl | hx
    · exact ⟨first, hf, Nat.le_of_eq begins, reach⟩
    · exact all x hx

/-! ## 3. Replaced -/

variable {α : Type}

/-- The list from `place` on, with `mark` in the place of each run. -/
def replaced (mark text : List α) : Nat → List Span → List α
  | place, [] => text.drop place
  | place, run :: runs => (text.take run.1).drop place ++ mark ++ replaced mark text run.2 runs

theorem drop_cut (l : List α) {a b : Nat} (h : a ≤ b) : l.drop a = (l.take b).drop a ++ l.drop b := by
  rcases Nat.le_total b l.length with hb | hb
  · conv_lhs => rw [← List.take_append_drop b l]
    rw [List.drop_append_of_le_length (by rw [List.length_take]; omega)]
  · rw [List.take_of_length_le hb, List.drop_of_length_le hb, List.append_nil]

/-- What is between two places is there. -/
theorem between {text : List α} {a b : Nat} {one : α × Nat}
    (h : one ∈ (text.zipIdx.take b).drop a) : a ≤ one.2 ∧ one.2 < b := by
  obtain ⟨k, hk, rfl⟩ := List.getElem_of_mem h
  rw [List.length_drop, List.length_take] at hk
  simp only [List.getElem_drop, List.getElem_take, List.getElem_zipIdx]
  omega

theorem past {text : List α} {a : Nat} {one : α × Nat} (h : one ∈ text.zipIdx.drop a) :
    a ≤ one.2 := by
  obtain ⟨k, hk, rfl⟩ := List.getElem_of_mem h
  simp only [List.getElem_drop, List.getElem_zipIdx]
  omega

/-- Not in a run of these. -/
def outside (runs : List Span) (place : Nat) : Bool :=
  runs.all fun run => place < run.1 || run.2 ≤ place

/-- **All that is in no run is kept**, in order: what is replaced by nothing is left out, and that
    alone. -/
theorem replaced_kept (text : List α) {place : Nat} {runs : List Span}
    (apart : runs.Pairwise fun run next => run.2 < next.1) (ordered : ∀ run ∈ runs, run.1 ≤ run.2)
    (later : ∀ run ∈ runs, place ≤ run.1) :
    replaced [] text place runs =
      ((text.zipIdx.drop place).filter fun one => outside runs one.2).map Prod.fst := by
  induction runs generalizing place with
  | nil =>
    have all : (text.zipIdx.drop place).filter (fun one => outside [] one.2) =
        text.zipIdx.drop place := List.filter_eq_self.2 fun one _ => rfl
    rw [all, replaced, List.map_drop, List.zipIdx_map_fst]
  | cons run runs ih =>
    obtain ⟨next, apart⟩ := List.pairwise_cons.1 apart
    have begins := later run List.mem_cons_self
    have ends := ordered run List.mem_cons_self
    have cut : text.zipIdx.drop place = (text.zipIdx.take run.1).drop place ++
        ((text.zipIdx.take run.2).drop run.1 ++ text.zipIdx.drop run.2) := by
      rw [← drop_cut text.zipIdx ends, ← drop_cut text.zipIdx begins]
    have first : ((text.zipIdx.take run.1).drop place).filter
        (fun one => outside (run :: runs) one.2) = (text.zipIdx.take run.1).drop place := by
      refine List.filter_eq_self.2 fun one hone => List.all_eq_true.2 fun r hr => ?_
      have lt := (between hone).2
      rw [Bool.or_eq_true, decide_eq_true_eq]
      rcases List.mem_cons.1 hr with rfl | hr
      · exact .inl lt
      · have := next r hr
        exact .inl (by omega)
    have middle : ((text.zipIdx.take run.2).drop run.1).filter
        (fun one => outside (run :: runs) one.2) = [] := by
      refine List.filter_eq_nil_iff.2 fun one hone kept => ?_
      have := between hone
      have out := List.all_eq_true.1 kept run List.mem_cons_self
      rw [Bool.or_eq_true, decide_eq_true_eq, decide_eq_true_eq] at out
      omega
    have last : (text.zipIdx.drop run.2).filter (fun one => outside (run :: runs) one.2) =
        (text.zipIdx.drop run.2).filter fun one => outside runs one.2 := by
      refine List.filter_congr fun one hone => ?_
      have := past hone
      rw [outside, List.all_cons, decide_eq_true (p := run.2 ≤ one.2) this, Bool.or_true,
        Bool.true_and]
      rfl
    rw [replaced, cut, List.filter_append, List.filter_append, first, middle, last,
      List.nil_append, List.map_append, List.append_nil,
      ih apart (fun r hr => ordered r (List.mem_cons_of_mem _ hr))
        fun r hr => Nat.le_of_lt (next r hr)]
    congr 1
    rw [List.map_drop, List.map_take, List.zipIdx_map_fst]

end Lib.Spans
