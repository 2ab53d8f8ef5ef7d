/-
  File:      ConsensFlow/Lib/Markers.lean
  Subject:   MARKERS SOUGHT IN A RUN that comes in pieces: which are sought depends on those found.

  * `next` -- the first of some markers in a run; `next_append`, `next_held`: in the run and more after
    it, a marker there is the same, and one that is not begins in the end held of it, or later;
  * `Held` -- the end of a run that could begin a marker;
  * `Seeker.read` -- a run taken apart at its markers, and **`read_append`**: reading on from the end
    held is reading the whole.
-/
import ConsensFlow.Lib.Lines

namespace Lib.Markers

variable {α σ : Type} [DecidableEq α]

/-! ## 1. The first marker -/

/-- Where one of `markers` first is in a run, and which. -/
def next (markers : List (List α)) : List α → Option (Nat × List α)
  | [] => none
  | a :: run =>
    match markers.find? fun marker => marker.isPrefixOf (a :: run) with
    | some marker => some (0, marker)
    | none => (next markers run).map fun found => (found.1 + 1, found.2)

/-- The markers are as long as one another. -/
def Alike (width : Nat) (markers : List (List α)) : Prop := ∀ marker ∈ markers, marker.length = width

variable {markers : List (List α)} {width : Nat} {run more kept : List α} {at_ : Nat} {marker : List α}

/-- A marker found is one of those sought, and is there. -/
theorem next_spec (h : next markers run = some (at_, marker)) :
    marker ∈ markers ∧ marker <+: run.drop at_ := by
  induction run generalizing at_ with
  | nil => cases h
  | cons a run ih =>
    rw [next] at h
    cases found : markers.find? fun marker => marker.isPrefixOf (a :: run) with
    | some marker' =>
      rw [found] at h
      cases h
      have there := List.find?_some found
      exact ⟨List.mem_of_find?_eq_some found, List.isPrefixOf_iff_prefix.1 there⟩
    | none =>
      rw [found] at h
      obtain ⟨⟨place, marker'⟩, h', same⟩ := Option.map_eq_some_iff.1 h
      cases same
      exact ih h'

theorem next_fits (alike : Alike width markers) (some_ : 0 < width)
    (h : next markers run = some (at_, marker)) : at_ + marker.length ≤ run.length := by
  obtain ⟨one, here⟩ := next_spec h
  have := here.length_le
  rw [List.length_drop] at this
  have := alike marker one
  omega

/-- No marker is where none was found. -/
theorem next_none (h : next markers run = none) (some_ : ∀ marker ∈ markers, marker ≠ []) (place : Nat)
    (one : marker ∈ markers) : ¬ marker <+: run.drop place := by
  induction run generalizing place with
  | nil =>
    intro here
    rw [List.drop_nil] at here
    exact some_ marker one (List.prefix_nil.1 here)
  | cons a run ih =>
    rw [next] at h
    cases found : markers.find? fun marker => marker.isPrefixOf (a :: run) with
    | some marker' =>
      rw [found] at h
      cases h
    | none =>
      rw [found] at h
      cases place with
      | zero =>
        intro here
        exact List.find?_eq_none.1 found marker one (List.isPrefixOf_iff_prefix.2 here)
      | succ place => exact ih (Option.map_eq_none_iff.1 h) place

/-- Of markers alike, the one found is the only one there, and none is before it. -/
theorem next_only (alike : Alike width markers) (h : next markers run = some (at_, marker)) {place : Nat}
    {other : List α} (one : other ∈ markers) (here : other <+: run.drop place) :
    at_ ≤ place ∧ (place = at_ → other = marker) := by
  induction run generalizing at_ place with
  | nil => cases h
  | cons a run ih =>
    rw [next] at h
    cases found : markers.find? fun marker => marker.isPrefixOf (a :: run) with
    | some marker' =>
      rw [found] at h
      cases h
      refine ⟨Nat.zero_le _, fun first => ?_⟩
      subst first
      have there := List.find?_some found
      have there := List.isPrefixOf_iff_prefix.1 there
      have same := (alike _ one).trans (alike _ (List.mem_of_find?_eq_some found)).symm
      exact (List.prefix_of_prefix_length_le here there (Nat.le_of_eq same)).eq_of_length same
    | none =>
      rw [found] at h
      obtain ⟨⟨first, marker'⟩, h', same⟩ := Option.map_eq_some_iff.1 h
      cases same
      cases place with
      | zero => exact absurd (List.isPrefixOf_iff_prefix.2 here) (List.find?_eq_none.1 found other one)
      | succ place =>
        obtain ⟨before, same⟩ := ih h' here
        exact ⟨Nat.succ_le_succ before, fun e => same (Nat.succ.inj e)⟩

/-- A place where a marker is, before which none is, is the one found. -/
theorem next_eq (alike : Alike width markers) (some_ : 0 < width) (one : marker ∈ markers)
    (here : marker <+: run.drop at_)
    (first : ∀ place < at_, ∀ other ∈ markers, ¬ other <+: run.drop place) :
    next markers run = some (at_, marker) := by
  cases h : next markers run with
  | none =>
    have filled : ∀ marker ∈ markers, marker ≠ [] := fun marker one none_ => by
      rw [← alike marker one, none_] at some_
      exact absurd some_ (Nat.lt_irrefl 0)
    exact absurd here (next_none h filled at_ one)
  | some found =>
    obtain ⟨place, other⟩ := found
    obtain ⟨one', here'⟩ := next_spec h
    obtain ⟨before, same⟩ := next_only alike h one here
    rcases Nat.lt_or_eq_of_le before with earlier | there
    · exact absurd here' (first place earlier other one')
    · rw [same there.symm, there]

/-- A marker in a run is the first in the run and more after it. -/
theorem next_append (alike : Alike width markers) (some_ : 0 < width)
    (h : next markers run = some (at_, marker)) (more : List α) :
    next markers (run ++ more) = some (at_, marker) := by
  obtain ⟨one, here⟩ := next_spec h
  have fits := next_fits alike some_ h
  refine next_eq alike some_ one ?_ fun place earlier other one' here' => ?_
  · rw [List.drop_append_of_le_length (by omega)]
    exact here.trans (List.prefix_append _ _)
  · have same := (alike other one').trans (alike marker one).symm
    rw [List.drop_append_of_le_length (by omega)] at here'
    have short : other.length ≤ (run.drop place).length := by
      rw [List.length_drop]
      omega
    have there := List.prefix_of_prefix_length_le here' (List.prefix_append _ _) short
    exact absurd (next_only alike h one' there).1 (Nat.not_le.2 earlier)

/-! ## 2. The end held -/

/-- The end of a run that could begin a marker: the longest. -/
structure Held (markers : List (List α)) (run kept : List α) : Prop where
  suffix : kept <:+ run
  begins : ∃ marker ∈ markers, kept <+: marker
  longest : ∀ rest, rest <:+ run → (∃ marker ∈ markers, rest <+: marker) → rest.length ≤ kept.length

omit [DecidableEq α] in
/-- There is one such end. -/
theorem Held.unique {kept' : List α} (held : Held markers run kept) (held' : Held markers run kept') :
    kept = kept' := by
  have same : kept.length = kept'.length :=
    Nat.le_antisymm (held'.longest _ held.suffix held.begins) (held.longest _ held'.suffix held'.begins)
  exact (List.suffix_of_suffix_length_le held.suffix held'.suffix (Nat.le_of_eq same)).eq_of_length same

omit [DecidableEq α] in
/-- The end held of a run and more after it is that of the end held and more after it. -/
theorem Held.append {before later : List α} (held : Held markers (before ++ kept) kept)
    (then_ : Held markers (kept ++ more) later) : Held markers (before ++ (kept ++ more)) later := by
  refine ⟨then_.suffix.trans (List.suffix_append _ _), then_.begins, fun rest ends begins => ?_⟩
  rcases List.suffix_or_suffix_of_suffix ends (List.suffix_append _ _) with within | ⟨back, rfl⟩
  · exact then_.longest rest within begins
  · -- It reaches back before the end held, and what it holds of the run begins a marker too.
    obtain ⟨marker, one, begins⟩ := begins
    have reach : back ++ kept <:+ before ++ kept :=
      List.suffix_append_self_iff.2 (List.suffix_append_self_iff.1 ends)
    have few := held.longest _ reach ⟨marker, one, ((List.append_assoc back kept more ▸
      List.prefix_append (back ++ kept) more)).trans begins⟩
    rw [List.length_append] at few
    have none_ : back = [] := List.length_eq_zero_iff.1 (by omega)
    subst none_
    exact then_.longest _ List.suffix_rfl ⟨marker, one, begins⟩

/-- **A marker in a run and more after it, none in the run, begins in the end held, or later.** -/
theorem next_held {before : List α} (h : next markers (before ++ kept) = none)
    (held : Held markers (before ++ kept) kept) (more : List α) :
    next markers (before ++ (kept ++ more)) =
      (next markers (kept ++ more)).map fun found => (before.length + found.1, found.2) := by
  induction before with
  | nil =>
    rw [List.nil_append, List.length_nil]
    cases next markers (kept ++ more) with
    | none => rfl
    | some found => rw [Option.map_some, Nat.zero_add]
  | cons a before ih =>
    rw [List.cons_append, next] at h
    cases found : markers.find? fun marker => marker.isPrefixOf (a :: (before ++ kept)) with
    | some marker =>
      rw [found] at h
      cases h
    | none =>
      rw [found] at h
      have nowhere : (markers.find? fun marker => marker.isPrefixOf (a :: (before ++ (kept ++ more)))) =
          none := by
        refine List.find?_eq_none.2 fun marker one begins => ?_
        have begins := List.isPrefixOf_iff_prefix.1 begins
        rw [← List.append_assoc, ← List.cons_append] at begins
        rcases Nat.le_total marker.length (a :: (before ++ kept)).length with short | long
        · have there := List.prefix_of_prefix_length_le begins (List.prefix_append _ _) short
          exact List.find?_eq_none.1 found marker one (List.isPrefixOf_iff_prefix.2 there)
        · have whole := List.prefix_of_prefix_length_le (List.prefix_append _ more) begins long
          have few := held.longest _ List.suffix_rfl ⟨marker, one, whole⟩
          rw [List.cons_append, List.length_cons, List.length_append] at few
          omega
      have rest : Held markers (before ++ kept) kept :=
        ⟨List.suffix_append _ _, held.begins,
          fun rest suffix => held.longest rest (suffix.trans (List.suffix_cons a _))⟩
      rw [List.cons_append, next, nowhere]
      dsimp only
      rw [ih (Option.map_eq_none_iff.1 h) rest, Option.map_map]
      congr 1
      funext found
      show (before.length + found.1 + 1, found.2) = (before.length + 1 + found.1, found.2)
      rw [Nat.add_right_comm]

/-! ## 3. A run taken apart -/

/-- What is sought, as the markers found say. -/
structure Seeker (α σ : Type) where
  sought : σ → List (List α)
  after : σ → List α → σ
  width : Nat
  some_ : 0 < width
  alike : ∀ state, Alike width (sought state)

/-- A marker found, and the run before it. -/
structure Mark (α : Type) where
  before : List α
  marker : List α
  deriving DecidableEq, Repr

namespace Seeker

variable (k : Seeker α σ)

/-- The markers of a run, what is sought after them, and what is left of it. -/
def read (state : σ) (run : List α) : List (Mark α) × σ × List α :=
  match h : next (k.sought state) run with
  | none => ([], state, run)
  | some (at_, marker) =>
    have : (run.drop (at_ + marker.length)).length < run.length := by
      have fits := next_fits (k.alike state) k.some_ h
      have long := k.alike state marker (next_spec h).1
      have := k.some_
      rw [List.length_drop]
      omega
    let rest := read (k.after state marker) (run.drop (at_ + marker.length))
    (⟨run.take at_, marker⟩ :: rest.1, rest.2)
termination_by run.length
decreasing_by exact this

theorem read_none {state : σ} (h : next (k.sought state) run = none) :
    k.read state run = ([], state, run) := by
  rw [read]
  split
  · rfl
  · rename_i found
    rw [h] at found
    cases found

theorem read_some {state : σ} (h : next (k.sought state) run = some (at_, marker)) :
    k.read state run = (⟨run.take at_, marker⟩ ::
      (k.read (k.after state marker) (run.drop (at_ + marker.length))).1,
      (k.read (k.after state marker) (run.drop (at_ + marker.length))).2) := by
  rw [read]
  split
  · rename_i found
    rw [h] at found
    cases found
  · rename_i found
    rw [h] at found
    cases found
    rfl

end Seeker

/-- What was read, with more of the run before it. -/
def begun (before : List α) : List (Mark α) × σ × List α → List (Mark α) × σ × List α
  | ([], state, rest) => ([], state, before ++ rest)
  | (mark :: marks, state, rest) => ({ mark with before := before ++ mark.before } :: marks, state, rest)

namespace Seeker

variable {k : Seeker α σ} {state state' : σ} {marks : List (Mark α)} {rest before : List α}

/-- What holds of a run with no marker, and goes back over a marker, holds of every run read. -/
theorem read_induct {motive : σ → List α → List (Mark α) × σ × List α → Prop}
    (left : ∀ state run, next (k.sought state) run = none → motive state run ([], state, run))
    (found : ∀ state run at_ marker marks rest, next (k.sought state) run = some (at_, marker) →
      k.read (k.after state marker) (run.drop (at_ + marker.length)) = (marks, rest) →
      motive (k.after state marker) (run.drop (at_ + marker.length)) (marks, rest) →
      motive state run (⟨run.take at_, marker⟩ :: marks, rest)) (state : σ) (run : List α) :
    motive state run (k.read state run) := by
  induction hl : run.length using Nat.strong_induction_on generalizing state run with
  | _ n ih =>
    cases h : next (k.sought state) run with
    | none =>
      rw [k.read_none h]
      exact left state run h
    | some place =>
      obtain ⟨at_, marker⟩ := place
      have fits := next_fits (k.alike state) k.some_ h
      have long := k.alike state marker (next_spec h).1
      have := k.some_
      have shorter : (run.drop (at_ + marker.length)).length < n := by
        rw [List.length_drop]
        omega
      rw [k.read_some h]
      exact found state run at_ marker _ _ h rfl (ih _ shorter _ _ rfl)

/-- What is left of a run holds no marker sought. -/
theorem read_left (state : σ) (run : List α) :
    next (k.sought (k.read state run).2.1) (k.read state run).2.2 = none :=
  k.read_induct (motive := fun _ _ read => next (k.sought read.2.1) read.2.2 = none)
    (fun _ _ h => h) (fun _ _ _ _ _ _ _ _ ih => ih) state run

/-- A run with no marker, and more after it: read on from the end held. -/
theorem read_held (h : next (k.sought state) (before ++ kept) = none)
    (held : Held (k.sought state) (before ++ kept) kept) (more : List α) :
    k.read state (before ++ (kept ++ more)) = begun before (k.read state (kept ++ more)) := by
  have found := next_held h held more
  cases later : next (k.sought state) (kept ++ more) with
  | none =>
    rw [later] at found
    rw [k.read_none found, k.read_none later]
    rfl
  | some place =>
    obtain ⟨at_, marker⟩ := place
    rw [later] at found
    rw [k.read_some found, k.read_some later]
    dsimp only [begun]
    rw [List.take_length_add_append, Nat.add_assoc, List.drop_length_add_append]

/-- **Reading on from the end held is reading the whole.** -/
theorem read_append (h : k.read state run = (marks, state', before ++ kept))
    (held : Held (k.sought state') (before ++ kept) kept) (more : List α) :
    k.read state (run ++ more) = (marks ++ (begun before (k.read state' (kept ++ more))).1,
      (begun before (k.read state' (kept ++ more))).2) := by
  refine k.read_induct (motive := fun state run read => ∀ marks,
    read = (marks, state', before ++ kept) → k.read state (run ++ more) =
      (marks ++ (begun before (k.read state' (kept ++ more))).1,
        (begun before (k.read state' (kept ++ more))).2))
    (fun state run h => ?_) (fun state run at_ marker marks' left h _ ih => ?_) state run marks h
  · intro marks same
    cases same
    rw [List.append_assoc, read_held h held more]
    rfl
  · intro marks same
    cases same
    have fits := next_fits (k.alike state) k.some_ h
    rw [k.read_some (next_append (k.alike state) k.some_ h more),
      List.drop_append_of_le_length fits, List.take_append_of_le_length (by omega), ih marks' rfl]
    rfl

end Seeker
end Lib.Markers
