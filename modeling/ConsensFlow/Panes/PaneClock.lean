/-
  File:      ConsensFlow/Panes/PaneClock.lean
  Subject:   WHAT THE HOST SAW OF THE WALL CLOCK while a pane was open (`cf-panes`,
             `background/clock.rs`), and which processes it proves older than a time.

  * `Reading.of` -- one reading, of a wall clock read between two reads of the others;
  * `PaneClock.observe` -- the readings kept, the highest steady lead and the largest fall from it;
  * `PaneClock.beganBefore` -- a process left out by its start;
  * `PaneClock.Seen` -- the INVARIANT: what the readings kept say of all those observed;
  * **`PaneClock.beganBefore_proves`** -- a process left out is no later than any reading whose wall
    clock is a second past the time named, but for the noise of the reading just after it.

  The clocks are whole microseconds. `Reading.fits`: on clocks within 140 years of their zeroes no
  difference or slew leaves the type the host keeps them in.
-/
import Mathlib

namespace ConsensFlow
namespace Panes

/-! ## 1. Readings -/

/-- `MAX_GAP`. -/
def maxGap : Int := 2000000

/-- `SLEW_PPM`. -/
def slewPpm : Int := 1000

/-- `BUDGET`. -/
def budget : Int := 500000

/-- `READ_BOUND`. -/
def readBound : Int := 1000

/-- `PROCESS_NOISE`. -/
def processNoise : Int := 5000

/-- `KEPT`. -/
def keptMove : Int := 1000

/-- The engine's margin (`CALL_MARGIN_MS`), in microseconds. -/
def callMargin : Int := 1000000

/-- One reading of the clocks. -/
structure Reading where
  wall : Int
  awake : Int
  continuous : Int
  deriving DecidableEq, Repr

/-- The clocks as read: the wall clock between two reads of the others. -/
structure Read where
  wall : Int
  awake : Int × Int
  continuous : Int × Int

namespace Reading

/-- Two reads of a monotonic clock close enough together. -/
def apart (read : Int × Int) : Bool := 0 ≤ read.2 - read.1 && read.2 - read.1 ≤ readBound

def middle (read : Int × Int) : Int := read.1 + (read.2 - read.1).tdiv 2

/-- The reading a read makes, the monotonic clocks at the middle of their two reads. -/
def of (read : Read) : Option Reading :=
  if !apart read.awake || !apart read.continuous then none
  else some ⟨read.wall, middle read.awake, middle read.continuous⟩

def ahead (r : Reading) : Int := r.wall - r.continuous

def slept (r : Reading) : Int := r.continuous - r.awake

/-- What a slew may have taken since the continuous clock's zero. -/
def slewed (r : Reading) : Int := (r.continuous * slewPpm).tdiv 1000000

/-- The wall clock's lead, less a slew: a fall of it to a later reading is a step back. -/
def steady (r : Reading) : Int := r.ahead + r.slewed

/-- Both monotonic clocks stand no later in `r` than in `s`. -/
def NoLater (r s : Reading) : Prop := r.awake ≤ s.awake ∧ r.continuous ≤ s.continuous

theorem middle_between {read : Int × Int} (h : apart read = true) :
    read.1 ≤ middle read ∧ middle read ≤ read.2 := by
  simp only [apart, Bool.and_eq_true, decide_eq_true_eq] at h
  have half : (read.2 - read.1).tdiv 2 = (read.2 - read.1) / 2 := Int.tdiv_eq_ediv_of_nonneg h.1
  unfold middle
  omega

/-- Readings of reads one after the other have their clocks in order. -/
theorem of_noLater {first later : Read} {r s : Reading} (hr : of first = some r)
    (hs : of later = some s) (awake : first.awake.2 ≤ later.awake.1)
    (continuous : first.continuous.2 ≤ later.continuous.1) : r.NoLater s := by
  have made : ∀ {read : Read} {r : Reading}, of read = some r →
      read.awake.1 ≤ r.awake ∧ r.awake ≤ read.awake.2 ∧
        read.continuous.1 ≤ r.continuous ∧ r.continuous ≤ read.continuous.2 := by
    intro read r h
    unfold of at h
    split at h
    · cases h
    · rename_i near
      simp only [Bool.or_eq_true, Bool.not_eq_true', not_or, Bool.not_eq_false] at near
      cases h
      have a := middle_between near.1
      have c := middle_between near.2
      exact ⟨a.1, a.2, c.1, c.2⟩
  have a := made hr
  have b := made hs
  constructor <;> omega

/-- A slew's part is its thousandth of the continuous clock, rounded towards zero. -/
theorem slewed_bounds (r : Reading) :
    r.continuous - 1000 ≤ 1000 * r.slewed ∧ 1000 * r.slewed ≤ r.continuous + 1000 := by
  have rest := Int.tmod_add_mul_tdiv (r.continuous * slewPpm) 1000000
  have small : ((r.continuous * slewPpm).tmod 1000000).natAbs < 1000000 := by
    rw [Int.natAbs_tmod]
    exact Nat.mod_lt _ (by decide)
  unfold slewed
  generalize (r.continuous * slewPpm).tdiv 1000000 = q at *
  generalize (r.continuous * slewPpm).tmod 1000000 = m at *
  unfold slewPpm at rest
  omega

theorem fits (r : Reading) (wall : r.wall.natAbs ≤ 2 ^ 52) (awake : r.awake.natAbs ≤ 2 ^ 52)
    (continuous : r.continuous.natAbs ≤ 2 ^ 52) :
    ∀ x ∈ [r.ahead, r.slept, r.continuous * slewPpm, r.slewed, r.steady], x.natAbs < 2 ^ 63 := by
  have slew := slewed_bounds r
  simp only [List.mem_cons, List.not_mem_nil, or_false, forall_eq_or_imp, forall_eq, steady, ahead,
    slept, slewPpm]
  refine ⟨?_, ?_, ?_, ?_, ?_⟩ <;> omega

end Reading

/-! ## 2. The pane's clock -/

/-- What the host saw of the clocks from a pane's open. -/
structure PaneClock where
  /-- The readings where the clocks moved against each other, with the one before each. -/
  kept : List Reading
  last : Option Reading
  /-- The highest steady lead so far, and the largest fall from it. -/
  peak : Int
  fall : Int
  unknown : Bool
  deriving DecidableEq, Repr

namespace PaneClock

/-- The clocks read again: none where they made no reading, which leaves a gap. -/
def observe (c : PaneClock) : Option Reading → PaneClock
  | none => c
  | some now =>
    match c.last with
    | none => { c with kept := c.kept ++ [now], last := some now, peak := now.steady }
    | some before =>
      let peak := max c.peak now.steady
      let kept := c.kept.getLast?.getD before
      let moved := keptMove < (now.ahead - kept.ahead).natAbs ∨
        keptMove < (now.slept - before.slept).natAbs
      let withBefore := if c.kept.getLast? ≠ some before then c.kept ++ [before] else c.kept
      { kept := if moved then withBefore ++ [now] else c.kept
        last := some now
        peak := peak
        fall := max c.fall (peak - now.steady)
        unknown := c.unknown ||
          (now.awake < before.awake || maxGap < now.awake - before.awake) }

/-- A clock nothing was read of. -/
def unread : PaneClock := ⟨[], none, -2 ^ 63, 0, false⟩

/-- A pane opens: the clocks read now are its first reading, where they made one. -/
def new (first : Option Reading) : PaneClock := observe unread first

/-- A pane's clock after its reads, one after the other. -/
def watched (first : Option Reading) (later : List (Option Reading)) : PaneClock :=
  later.foldl observe (new first)

/-! ## 3. A process left out by its start -/

/-- The first two readings, one after the other, that `awake` lies between. -/
def around (awake : Int) : List Reading → Option (Reading × Reading)
  | previous :: reading :: rest =>
    if previous.awake ≤ awake ∧ awake ≤ reading.awake then some (previous, reading)
    else around awake (reading :: rest)
  | _ => none

/-- The readings on either side of a process begun at `awake`. -/
def sides (c : PaneClock) (awake : Int) : Option (Reading × Reading) :=
  match c.kept.head?, c.last with
  | some first, some last =>
    (around awake (c.kept ++ [last])).or
      (if c.kept.length = 1 ∧ awake = first.awake then some (first, first) else none)
  | _, _ => none

/-- Whether the process that began at `wall` and `awake` is proved to have begun before `after`. -/
def beganBefore (c : PaneClock) (wall awake after : Int) : Bool :=
  if c.unknown ∨ budget < c.fall ∨ after ≤ wall then false
  else
    match c.sides awake with
    | none => false
    | some (before, afterIt) =>
      -- A sleep between the two: its place on the continuous clock is not known.
      if keptMove < (afterIt.slept - before.slept).natAbs then false
      else
        let ahead := wall - (awake + before.slept)
        decide (min before.ahead afterIt.ahead - processNoise ≤ ahead)

/-! ## 4. What the readings kept say of those observed -/

/-- The readings `b` and `a`, kept one after the other, against all those observed: each lies before
    `b`, within the move of `b` that is not kept, or at `a` and after it. -/
structure Bracket (rs : List Reading) (fall : Int) (b a : Reading) : Prop where
  observed : a ∈ rs
  inOrder : b.awake ≤ a.awake
  near : (a.ahead - b.ahead).natAbs ≤ keptMove ∨ a.awake - b.awake ≤ maxGap
  places : ∀ r ∈ rs, (r.steady - b.steady ≤ fall ∧ r.steady - a.steady ≤ fall) ∨
    ((r.ahead - b.ahead).natAbs ≤ keptMove ∧ (a.ahead - b.ahead).natAbs ≤ keptMove) ∨
    a.continuous ≤ r.continuous

/-- The clock `c` after the readings `rs`. -/
structure Seen (rs : List Reading) (c : PaneClock) : Prop where
  last : c.last = rs.getLast?
  peak : ∀ r ∈ rs, r.steady ≤ c.peak
  falls : rs.Pairwise fun r s => r.steady - s.steady ≤ c.fall
  noRise : 0 ≤ c.fall
  unmoved : ∃ kept k pre mid, c.kept = kept ++ [k] ∧ rs = pre ++ k :: mid ∧
    ∀ r ∈ mid, (r.ahead - k.ahead).natAbs ≤ keptMove
  chain : c.unknown = false → ∀ l, c.last = some l → (c.kept ++ [l]).IsChain (Bracket rs c.fall)

variable {rs : List Reading} {c : PaneClock} {fall fall' : Int} {a b now : Reading}

/-- One reading more, none of whose clocks went back, leaves what is kept as it stood. -/
theorem Bracket.mono (h : Bracket rs fall b a) (ordered : ∀ r ∈ rs, r.NoLater now)
    (more : fall ≤ fall') : Bracket (rs ++ [now]) fall' b a where
  observed := List.mem_append_left _ h.observed
  inOrder := h.inOrder
  near := h.near
  places r hr := by
    rcases List.mem_append.1 hr with hr | hr
    · rcases h.places r hr with ⟨toB, toA⟩ | between | after
      · exact .inl ⟨Int.le_trans toB more, Int.le_trans toA more⟩
      · exact .inr (.inl between)
      · exact .inr (.inr after)
    · cases List.mem_singleton.1 hr
      exact .inr (.inr (ordered a h.observed).2)

theorem isChain_snoc {α : Type} {R : α → α → Prop} {l : List α} {x y : α}
    (h : (l ++ [x]).IsChain R) (hxy : R x y) : (l ++ [x] ++ [y]).IsChain R := by
  refine List.isChain_append.2 ⟨h, .singleton y, ?_⟩
  intro z hz w hw
  rw [List.getLast?_concat] at hz
  cases hz
  cases hw
  exact hxy

/-- The reading after the latest, and each before it. -/
theorem fall_to {l r : Reading} (falls : rs.Pairwise fun r s => r.steady - s.steady ≤ fall)
    (some_fall : 0 ≤ fall) (hl : rs.getLast? = some l) (hr : r ∈ rs) : r.steady - l.steady ≤ fall := by
  obtain ⟨earlier, rfl⟩ := List.getLast?_eq_some_iff.1 hl
  rcases List.mem_append.1 hr with hr | hr
  · exact (List.pairwise_append.1 falls).2.2 r hr l (List.mem_singleton_self l)
  · cases List.mem_singleton.1 hr
    omega

/-- The pane's first reading. -/
theorem seen_first (now : Reading) : Seen [now] (unread.observe (some now)) where
  last := rfl
  peak r hr := by cases List.mem_singleton.1 hr; exact Int.le_refl _
  falls := List.pairwise_singleton _ _
  noRise := Int.le_refl 0
  unmoved := ⟨[], now, [], [], rfl, rfl, fun _ h => nomatch h⟩
  chain _ l hl := by
    cases hl
    refine List.isChain_pair.2
      ⟨List.mem_singleton_self now, Int.le_refl _, .inr ?_, fun r hr => .inr (.inr ?_)⟩
    · rw [Int.sub_self]; decide
    · cases List.mem_singleton.1 hr; exact Int.le_refl _

/-- A reading taken after the latest: the STEP of the invariant. -/
theorem Seen.observe (h : Seen rs c) (ordered : ∀ r ∈ rs, r.NoLater now) :
    Seen (rs ++ [now]) (c.observe (some now)) := by
  obtain ⟨kept, k, pre, mid, hkept, hrs, still⟩ := h.unmoved
  have hkrs : k ∈ rs := hrs ▸ List.mem_append_right _ List.mem_cons_self
  obtain ⟨before, hbefore⟩ : ∃ before, rs.getLast? = some before :=
    Option.isSome_iff_exists.1 (List.getLast?_isSome.2 (List.ne_nil_of_mem hkrs))
  have hlast : c.last = some before := h.last.trans hbefore
  have hkl : c.kept.getLast? = some k := by rw [hkept, List.getLast?_concat]
  have more : c.fall ≤ (c.observe (some now)).fall := by
    simp only [PaneClock.observe, hlast]
    exact Int.le_max_left _ _
  have toNow : ∀ r ∈ rs, r.steady - now.steady ≤ (c.observe (some now)).fall := by
    intro r hr
    have := h.peak r hr
    simp only [PaneClock.observe, hlast]
    omega
  have beforeIn : before ∈ rs := List.mem_of_getLast? hbefore
  refine ⟨?_, ?_, ?_, Int.le_trans h.noRise more, ?_, ?_⟩
  · simp only [PaneClock.observe, hlast, List.getLast?_concat]
  · intro r hr
    simp only [PaneClock.observe, hlast]
    rcases List.mem_append.1 hr with hr | hr
    · exact Int.le_trans (h.peak r hr) (Int.le_max_left _ _)
    · cases List.mem_singleton.1 hr
      exact Int.le_max_right _ _
  · refine List.pairwise_append.2 ⟨h.falls.imp fun hf => Int.le_trans hf more,
      List.pairwise_singleton _ _, fun r hr s hs => ?_⟩
    cases List.mem_singleton.1 hs
    exact toNow r hr
  · simp only [PaneClock.observe, hlast, hkl, Option.getD_some]
    split
    · exact ⟨_, now, rs, [], rfl, rfl, fun _ h => nomatch h⟩
    · rename_i unmoved
      refine ⟨kept, k, pre, mid ++ [now], hkept, by rw [hrs]; simp, fun r hr => ?_⟩
      rcases List.mem_append.1 hr with hr | hr
      · exact still r hr
      · cases List.mem_singleton.1 hr
        omega
  · intro known l hl
    have hl : some now = some l := by rw [← hl]; simp only [PaneClock.observe, hlast]
    cases hl
    have known₀ : c.unknown = false ∧ now.awake - before.awake ≤ maxGap := by
      simp only [PaneClock.observe, hlast, Bool.or_eq_false_iff, decide_eq_false_iff_not] at known
      exact ⟨known.1, by omega⟩
    have chain := (h.chain known₀.1 before hlast).imp fun _ _ hb => hb.mono ordered more
    have inMore : now ∈ rs ++ [now] := List.mem_append_right _ (List.mem_singleton_self now)
    -- The latest reading and the one before it: all the others are at the one before, or earlier.
    have next : Bracket (rs ++ [now]) (c.observe (some now)).fall before now := by
      refine ⟨inMore, (ordered before beforeIn).1, .inr known₀.2, fun r hr => ?_⟩
      rcases List.mem_append.1 hr with hr | hr
      · exact .inl ⟨Int.le_trans (fall_to h.falls h.noRise hbefore hr) more, toNow r hr⟩
      · cases List.mem_singleton.1 hr
        exact .inr (.inr (Int.le_refl _))
    have same : Bracket (rs ++ [now]) (c.observe (some now)).fall now now := by
      refine ⟨inMore, Int.le_refl _, .inr ?_, fun r hr => ?_⟩
      · rw [Int.sub_self]; decide
      · rcases List.mem_append.1 hr with hr | hr
        · exact .inl ⟨toNow r hr, toNow r hr⟩
        · cases List.mem_singleton.1 hr
          exact .inr (.inr (Int.le_refl _))
    simp only [PaneClock.observe, hlast, hkl, Option.getD_some] at next same chain ⊢
    split
    · split
      · exact isChain_snoc (isChain_snoc chain next) same
      · rename_i known
        cases Option.some.inj (Classical.not_not.1 known)
        rw [hkept] at chain ⊢
        have chain := (List.isChain_append.1 chain).1
        exact isChain_snoc (isChain_snoc chain next) same
    · rename_i unmoved
      rw [hkept] at chain ⊢
      refine isChain_snoc (List.isChain_append.1 chain).1
        ⟨inMore, (ordered k hkrs).1, .inl (by omega), fun r hr => ?_⟩
      rcases List.mem_append.1 hr with hr | hr
      · have toNow := toNow r hr
        simp only [PaneClock.observe, hlast] at toNow more
        rcases List.mem_append.1 (hrs ▸ hr) with early | late
        · have falls := (List.pairwise_append.1 (hrs ▸ h.falls)).2.2 r early k List.mem_cons_self
          exact .inl ⟨Int.le_trans falls more, toNow⟩
        · rcases List.mem_cons.1 late with rfl | late
          · exact .inl ⟨by have := h.noRise; omega, toNow⟩
          · exact .inr (.inl ⟨still r late, by omega⟩)
      · cases List.mem_singleton.1 hr
        exact .inr (.inr (Int.le_refl _))

/-- The readings among some reads. -/
def readings (reads : List (Option Reading)) : List Reading := reads.reduceOption

theorem seen_reads (reads : List (Option Reading))
    (ordered : (readings reads).Pairwise Reading.NoLater) :
    (readings reads = [] ∧ reads.foldl PaneClock.observe unread = unread) ∨
      Seen (readings reads) (reads.foldl PaneClock.observe unread) := by
  induction reads using List.reverseRecOn with
  | nil => exact .inl ⟨rfl, rfl⟩
  | append_singleton reads read ih =>
    unfold readings at ordered ih ⊢
    rw [List.foldl_concat]
    cases read with
    | none =>
      rw [List.reduceOption_append, List.reduceOption_cons_of_none, List.reduceOption_nil,
        List.append_nil] at ordered ⊢
      exact ih ordered
    | some now =>
      rw [List.reduceOption_append, List.reduceOption_cons_of_some, List.reduceOption_nil]
        at ordered ⊢
      obtain ⟨earlier, -, latest⟩ := List.pairwise_append.1 ordered
      have ordered : ∀ r ∈ reads.reduceOption, r.NoLater now := fun r hr =>
        latest r hr now (List.mem_singleton_self now)
      right
      rcases ih earlier with ⟨none_, unread_⟩ | seen
      · rw [none_, unread_]
        exact seen_first now
      · exact seen.observe ordered

/-- **What a clock holds, over every run of reads whose monotonic clocks do not go back.** -/
theorem seen_watched {first : Option Reading} {later : List (Option Reading)}
    (ordered : (readings (first :: later)).Pairwise Reading.NoLater)
    (read : readings (first :: later) ≠ []) :
    Seen (readings (first :: later)) (watched first later) := by
  rcases seen_reads _ ordered with ⟨none_, -⟩ | seen
  · exact absurd none_ read
  · exact seen

/-! ## 5. What is left out is older -/

theorem around_spec {R : Reading → Reading → Prop} {awake : Int} {l : List Reading} {b a : Reading}
    (chain : l.IsChain R) (h : around awake l = some (b, a)) :
    R b a ∧ b.awake ≤ awake ∧ awake ≤ a.awake := by
  induction l with
  | nil => cases h
  | cons previous l ih =>
    cases l with
    | nil => cases h
    | cons reading rest =>
      obtain ⟨hr, chain⟩ := List.isChain_cons_cons.1 chain
      unfold around at h
      split at h
      · rename_i between
        cases h
        exact ⟨hr, between⟩
      · exact ih chain h

/-- The readings on either side of a process are kept one after the other, and its awake start lies
    between theirs. -/
theorem sides_spec {awake : Int} (seen : Seen rs c) (known : c.unknown = false)
    (h : c.sides awake = some (b, a)) :
    Bracket rs c.fall b a ∧ b.awake ≤ awake ∧ awake ≤ a.awake := by
  unfold sides at h
  split at h
  · rename_i first last hfirst hlast
    rcases Option.or_eq_some_iff.1 h with found | ⟨none_, one⟩
    · exact around_spec (seen.chain known last hlast) found
    · split at one
      · rename_i alone
        obtain ⟨only, hkept⟩ := List.length_eq_one_iff.1 alone.1
        rw [hkept] at hfirst
        cases hfirst
        have chain := seen.chain known last hlast
        rw [hkept] at chain none_
        -- The first reading and the latest would have been found on either side of it.
        have inOrder := (List.isChain_pair.1 chain).inOrder
        have between : first.awake ≤ awake ∧ awake ≤ last.awake := ⟨by omega, by omega⟩
        rw [List.singleton_append, around, if_pos between] at none_
        cases none_
      · cases one
  · cases h

/-- A process left out, and a reading whose wall clock is the margin past the time named. -/
theorem before_reading {wall awake after : Int} {r : Reading} (h : Bracket rs c.fall b a)
    (from_ : b.awake ≤ awake) (to_ : awake ≤ a.awake) (fell : c.fall ≤ budget)
    (asleep : (a.slept - b.slept).natAbs ≤ keptMove)
    (agrees : min b.ahead a.ahead - processNoise ≤ wall - (awake + b.slept)) (older : wall < after)
    (hr : r ∈ rs) (past : after + callMargin ≤ r.wall) :
    awake + b.slept < r.continuous ∨
      (a.continuous ≤ r.continuous ∧ awake + b.slept ≤ r.continuous + (b.slept - a.slept)) := by
  have sr := r.slewed_bounds
  have sb := b.slewed_bounds
  have sa := a.slewed_bounds
  unfold budget at fell
  unfold processNoise at agrees
  unfold callMargin at past
  rcases h.places r hr with ⟨toB, toA⟩ | ⟨nearB, nearA⟩ | later
  · have near := h.near
    simp only [keptMove, maxGap, Reading.steady, Reading.ahead, Reading.slept] at *
    left
    omega
  · simp only [keptMove, Reading.ahead, Reading.slept] at *
    left
    omega
  · right
    simp only [Reading.slept] at *
    omega

/-- **A process left out began no later than any reading whose wall clock is the engine's margin past
    the time named**: strictly before it, or, where that reading is no earlier than the one just after
    the process, at most what the machine's sleep seemed to shrink by between the two readings on
    either side of the process, a millisecond at the most. -/
theorem beganBefore_proves (first : Option Reading) (later : List (Option Reading))
    (ordered : (readings (first :: later)).Pairwise Reading.NoLater) (wall awake after : Int)
    (proved : (watched first later).beganBefore wall awake after = true) :
    ∃ before afterIt, (watched first later).sides awake = some (before, afterIt) ∧
      before.slept - afterIt.slept ≤ keptMove ∧
      ∀ r ∈ readings (first :: later), after + callMargin ≤ r.wall →
        awake + before.slept < r.continuous ∨
          (afterIt.continuous ≤ r.continuous ∧
            awake + before.slept ≤ r.continuous + (before.slept - afterIt.slept)) := by
  unfold beganBefore at proved
  split at proved
  · cases proved
  · rename_i vouched
    split at proved
    · cases proved
    · rename_i before afterIt hsides
      split at proved
      · cases proved
      · rename_i awakeBetween
        refine ⟨before, afterIt, hsides, by omega, fun r hr past => ?_⟩
        have seen := seen_watched ordered (List.ne_nil_of_mem hr)
        have known : (watched first later).unknown = false := by
          cases h : (watched first later).unknown
          · rfl
          · exact absurd (.inl h) vouched
        obtain ⟨bracket, from_, to_⟩ := sides_spec seen known hsides
        exact before_reading bracket from_ to_ (by omega) (by omega) (of_decide_eq_true proved)
          (by omega) hr past

/-- A process begun a twentieth of a second after the open, and the reading after it once the clock was
    set forward five seconds. -/
theorem beganBefore_proves_set_forward :
    ∃ before afterIt, (watched (some ⟨0, 0, 0⟩) [some ⟨5000000, 100000, 100000⟩]).sides 50000 =
        some (before, afterIt) ∧
      before.slept - afterIt.slept ≤ keptMove ∧
      ∀ r ∈ readings [some ⟨0, 0, 0⟩, some ⟨5000000, 100000, 100000⟩], 60000 + callMargin ≤ r.wall →
        50000 + before.slept < r.continuous ∨
          (afterIt.continuous ≤ r.continuous ∧
            50000 + before.slept ≤ r.continuous + (before.slept - afterIt.slept)) :=
  beganBefore_proves (some ⟨0, 0, 0⟩) [some ⟨5000000, 100000, 100000⟩]
    (List.pairwise_pair.2 (by constructor <;> decide)) 50000 50000 60000 (by decide)

/-- A process begun just as the reading after it was taken stands where that reading does, and the
    wall clock was set forward five seconds between the two. -/
theorem not_before_the_reading_after_it :
    ¬ ∀ (first : Option Reading) (later : List (Option Reading)),
      (readings (first :: later)).Pairwise Reading.NoLater →
      ∀ wall awake after, (watched first later).beganBefore wall awake after = true →
        ∀ before afterIt, (watched first later).sides awake = some (before, afterIt) →
          ∀ r ∈ readings (first :: later), after + callMargin ≤ r.wall →
            awake + before.slept < r.continuous := by
  intro always
  have strict := always (some ⟨0, 0, 0⟩) [some ⟨5000000, 100000, 100000⟩]
    (List.pairwise_pair.2 (by constructor <;> decide)) 100000 100000 200000 (by decide) ⟨0, 0, 0⟩
    ⟨5000000, 100000, 100000⟩ (by decide) ⟨5000000, 100000, 100000⟩ (by decide) (by decide)
  exact absurd strict (by decide)

end PaneClock
end Panes
end ConsensFlow
