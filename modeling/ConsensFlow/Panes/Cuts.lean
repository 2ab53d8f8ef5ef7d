/-
  File:      ConsensFlow/Panes/Cuts.lean
  Subject:   THE HUMAN'S PASTES, HOWEVER THEIR BYTES ARE CUT INTO WRITES (`cf-panes`, `arbiter.rs`).

  * `markers` -- the markers of a paste, sought as the paste open says; `feed` reads a write at them;
  * `Pastes`, `standing` -- what a whole stream holds of pastes, and where it leaves the watch;
  * `Stands`, `feed_stands` -- a watch is where its stream leaves it, and the next write takes it on;
  * **`pastes_found_alike`** -- the same pastes are found in any writes of one stream, and what is
    written of a write to the pane is the bytes given.
-/
import ConsensFlow.Lib.Markers
import ConsensFlow.Panes.Input

namespace ConsensFlow
namespace Panes

open Lib.Markers

/-! ## 1. The markers sought -/

/-- The markers sought in a paste, and out of one. -/
def sought (opened : Bool) : List Bytes := if opened then [pasteEnd, pasteStart] else [pasteStart]

theorem sought_six (opened : Bool) : Alike 6 (sought opened) := by
  unfold Alike
  cases opened <;> decide

/-- What is sought next, as the last marker says. -/
def markers : Seeker UInt8 Bool where
  sought := sought
  after _ marker := marker == pasteStart
  width := 6
  some_ := by decide
  alike := sought_six

variable {run : Bytes} {at_ : Nat} {marker : Bytes}

theorem positionOf_none (h : positionOf run marker = none) (some_ : 0 < marker.length) (place : Nat) :
    ¬ marker <+: run.drop place := by
  intro here
  have fits := here.length_le
  rw [List.length_drop] at fits
  have within : place ∈ List.range (run.length + 1 - marker.length) :=
    List.mem_range.2 (by omega)
  have not_ := List.find?_eq_none.1 h place within
  rw [beq_iff_eq] at not_
  exact not_ (List.prefix_iff_eq_take.1 here).symm

theorem positionOf_some (h : positionOf run marker = some at_) :
    marker <+: run.drop at_ ∧ ∀ place < at_, 0 < marker.length → ¬ marker <+: run.drop place := by
  obtain ⟨there, within, first⟩ := List.find?_range_eq_some.1 h
  refine ⟨?_, fun place before some_ here => ?_⟩
  · rw [beq_iff_eq] at there
    exact List.prefix_iff_eq_take.2 there.symm
  · have not_ := first place before
    rw [Bool.not_eq_true', beq_eq_false_iff_ne] at not_
    exact not_ (List.prefix_iff_eq_take.1 here).symm

/-- Out of a paste, the opening marker. -/
theorem next_out : next (sought false) run =
    (positionOf run pasteStart).map fun at_ => (at_, pasteStart) := by
  cases h : positionOf run pasteStart with
  | none =>
    cases found : next (sought false) run with
    | none => rfl
    | some place =>
      obtain ⟨one, here⟩ := next_spec found
      rw [List.mem_singleton.1 one] at here
      exact absurd here (positionOf_none h (by decide) _)
  | some at_ =>
    obtain ⟨here, first⟩ := positionOf_some h
    refine next_eq (sought_six false) (by decide) (List.mem_singleton.2 rfl) here ?_
    intro place before other one
    rw [List.mem_singleton.1 one]
    exact first place before (by decide)

/-- The closing marker where no opening one is before it, as `feed` looks for it. -/
def closing (run : Bytes) : Option Nat :=
  (positionOf run pasteEnd).filter fun stop => (positionOf run pasteStart).all fun start => stop < start

/-- In a paste, its closing marker, or one that opens it again, whichever is first. -/
theorem next_in : next (sought true) run = ((closing run).map fun at_ => (at_, pasteEnd)).or
    ((positionOf run pasteStart).map fun at_ => (at_, pasteStart)) := by
  have ends : pasteEnd ∈ sought true := List.mem_cons_self
  have starts : pasteStart ∈ sought true := List.mem_cons_of_mem _ List.mem_cons_self
  have either : ∀ other ∈ sought true, other = pasteEnd ∨ other = pasteStart := fun other one =>
    (List.mem_cons.1 one).imp_right List.mem_singleton.1
  cases hc : closing run with
  | some stop =>
    obtain ⟨hp, before⟩ := Option.filter_eq_some_iff.1 hc
    obtain ⟨here, first⟩ := positionOf_some hp
    refine next_eq (sought_six true) (by decide) ends here fun place earlier other one => ?_
    rcases either other one with rfl | rfl
    · exact first place earlier (by decide)
    · cases ho : positionOf run pasteStart with
      | none => exact positionOf_none ho (by decide) place
      | some start =>
        rw [ho, Option.all_some, decide_eq_true_eq] at before
        exact (positionOf_some ho).2 place (earlier.trans before) (by decide)
  | none =>
    have late := Option.filter_eq_none_iff.1 hc
    cases ho : positionOf run pasteStart with
    | some start =>
      obtain ⟨here, first⟩ := positionOf_some ho
      refine next_eq (sought_six true) (by decide) starts here fun place earlier other one => ?_
      rcases either other one with rfl | rfl
      · cases hp : positionOf run pasteEnd with
        | none => exact positionOf_none hp (by decide) place
        | some stop =>
          have late := late stop hp
          rw [ho, Option.all_some, decide_eq_true_eq] at late
          exact (positionOf_some hp).2 place (by omega) (by decide)
      · exact first place earlier (by decide)
    | none =>
      cases found : next (sought true) run with
      | none => rfl
      | some place =>
        obtain ⟨one, here⟩ := next_spec found
        rcases either _ one with same | same
        · rw [same] at here
          cases hp : positionOf run pasteEnd with
          | none => exact absurd here (positionOf_none hp (by decide) _)
          | some stop =>
            have late := late stop hp
            rw [ho] at late
            exact absurd rfl late
        · rw [same] at here
          exact absurd here (positionOf_none ho (by decide) _)

/-- A marker has one escape, its first byte. -/
theorem marker_escape {marker : Bytes} (one : marker ∈ sought true) (i : Nat) :
    marker[i]? = some 0x1b ↔ i = 0 := by
  rcases Nat.lt_or_ge i 6 with short | long
  · have each : ∀ marker ∈ sought true, ∀ i < 6, marker[i]? = some 0x1b ↔ i = 0 := by decide
    exact each marker one i short
  · rw [List.getElem?_eq_none (by rw [sought_six true marker one]; exact long)]
    exact iff_of_false (fun h => Option.some_ne_none _ h.symm) (by omega)

/-- A marker at a place has its bytes there. -/
theorem marker_there {marker run : Bytes} {place : Nat} (here : marker <+: run.drop place) {i : Nat}
    (within : i < marker.length) : run[place + i]? = marker[i]? := by
  obtain ⟨after, same⟩ := here
  rw [← List.getElem?_drop, ← same, List.getElem?_append_left within]

/-! ## 2. What is carried -/

/-- An end of `rest` of so many bytes could begin a marker. -/
def couldBegin (rest : Bytes) (markers : List Bytes) (held : Nat) : Bool :=
  decide (held ≤ rest.length) && markers.any fun marker =>
    (rest.drop (rest.length - held)).isPrefixOf marker

theorem carryLength_eq (rest : Bytes) (markers : List Bytes) :
    carryLength rest markers = ([5, 4, 3, 2, 1].find? (couldBegin rest markers)).getD 0 := rfl

variable {rest : Bytes} {opened : Bool}

/-- `carry` keeps as many bytes as it can, short of a marker. -/
theorem carry_most {held : Nat} (some_ : 0 < held) (short : held < 6)
    (could : couldBegin rest (sought opened) held) : held ≤ carryLength rest (sought opened) := by
  rw [carryLength_eq]
  cases found : [5, 4, 3, 2, 1].find? (couldBegin rest (sought opened)) with
  | none =>
    refine absurd could (List.find?_eq_none.1 found held ?_)
    rw [List.mem_cons, List.mem_cons, List.mem_cons, List.mem_cons, List.mem_singleton]
    omega
  | some most =>
    obtain ⟨-, before, after, split, not_⟩ := List.find?_eq_some_iff_append.1 found
    have sorted : (before ++ most :: after).Pairwise (· > ·) := by
      rw [← split]
      decide
    have one : held ∈ before ++ most :: after := by
      rw [← split, List.mem_cons, List.mem_cons, List.mem_cons, List.mem_cons, List.mem_singleton]
      omega
    rcases List.mem_append.1 one with earlier | later
    · have no := not_ held earlier
      rw [could] at no
      cases no
    · rcases List.mem_cons.1 later with rfl | later
      · exact Nat.le_refl _
      · exact Nat.le_of_lt (List.rel_of_pairwise_cons (List.pairwise_append.1 sorted).2.1 later)

/-- What `carry` keeps could begin a marker. -/
theorem carry_could : couldBegin rest (sought opened) (carryLength rest (sought opened)) ∧
    carryLength rest (sought opened) < 6 := by
  rw [carryLength_eq]
  cases found : [5, 4, 3, 2, 1].find? (couldBegin rest (sought opened)) with
  | none =>
    refine ⟨?_, by decide⟩
    unfold couldBegin
    rw [Option.getD_none, Nat.sub_zero, List.drop_length]
    cases opened <;> rfl
  | some most =>
    have one := List.mem_of_find?_eq_some found
    rw [List.mem_cons, List.mem_cons, List.mem_cons, List.mem_cons, List.mem_singleton] at one
    refine ⟨List.find?_some found, ?_⟩
    rw [Option.getD_some]
    omega

theorem carry_fits : carryLength rest (sought opened) ≤ rest.length := by
  have could := (@carry_could rest opened).1
  rw [couldBegin, Bool.and_eq_true, decide_eq_true_eq] at could
  exact could.1

theorem carried_length :
    (carriedOf rest (sought opened)).length = carryLength rest (sought opened) := by
  have fits := @carry_fits rest opened
  rw [carriedOf, List.length_drop]
  omega

/-- **What is carried is the end held.** -/
theorem carried_held (h : next (sought opened) rest = none) :
    Held (sought opened) rest (carriedOf rest (sought opened)) := by
  have filled : ∀ marker ∈ sought opened, marker ≠ [] := fun marker one none_ => by
    have six := sought_six opened marker one
    rw [none_] at six
    cases six
  refine ⟨List.drop_suffix _ _, ?_, fun end_ ends begins => ?_⟩
  · have could := (@carry_could rest opened).1
    rw [couldBegin, Bool.and_eq_true, List.any_eq_true] at could
    obtain ⟨marker, one, begins⟩ := could.2
    exact ⟨marker, one, List.isPrefixOf_iff_prefix.1 begins⟩
  · rw [carried_length]
    obtain ⟨marker, one, begins⟩ := begins
    have six := sought_six opened marker one
    have same : rest.drop (rest.length - end_.length) = end_ := (List.suffix_iff_eq_drop.1 ends).symm
    rcases Nat.eq_zero_or_pos end_.length with none_ | some_
    · omega
    · have short := begins.length_le
      rcases Nat.lt_or_eq_of_le short with short | whole
      · refine carry_most some_ (by omega) ?_
        rw [couldBegin, Bool.and_eq_true, decide_eq_true_eq, List.any_eq_true, same]
        exact ⟨ends.length_le, marker, one, List.isPrefixOf_iff_prefix.2 begins⟩
      · -- The whole marker would have been found.
        have found := next_none h filled (rest.length - end_.length) one
        rw [same, begins.eq_of_length whole] at found
        exact absurd List.prefix_rfl found

/-! ## 3. What a stream holds of pastes -/

/-- What a stream held so far: the paste open, with its characters, how far it was read, the pastes
    that ended, and the characters pasted. -/
structure Pastes where
  opened : Option Nat := none
  at_ : Nat := 0
  ends : List PasteEnd := []
  pasted : Nat := 0
  deriving DecidableEq, Repr

namespace Pastes

/-- Past some text: of the paste open, or keys. -/
def text (s : Pastes) (text : Bytes) : Pastes :=
  { s with
    opened := s.opened.map (· + charactersIn text)
    at_ := s.at_ + text.length
    pasted := s.pasted + if s.opened.isSome then charactersIn text else 0 }

/-- Past a marker: a paste is open, or has ended. -/
def marked (s : Pastes) (marker : Bytes) : Pastes :=
  if marker == pasteStart then { s with opened := some 0, at_ := s.at_ + marker.length }
  else
    { s with
      opened := none
      at_ := s.at_ + marker.length
      ends := s.ends ++ [⟨s.at_ + marker.length, s.opened.getD 0⟩] }

def past (s : Pastes) (mark : Mark UInt8) : Pastes := (s.text mark.before).marked mark.marker

/-- Past all that was read of a stream, but what is carried. -/
def through (s : Pastes) (read : List (Mark UInt8) × Bool × Bytes) : Pastes :=
  (read.1.foldl past s).text
    (read.2.2.take (read.2.2.length - carryLength read.2.2 (sought read.2.1)))

end Pastes

theorem charactersIn_append (text more : Bytes) :
    charactersIn (text ++ more) = charactersIn text + charactersIn more := by
  unfold charactersIn
  rw [List.filter_append, List.length_append]

theorem text_append (s : Pastes) (text more : Bytes) :
    (s.text text).text more = s.text (text ++ more) := by
  obtain ⟨opened, at_, ends, pasted⟩ := s
  cases opened <;>
    simp only [Pastes.text, Option.map_none, Option.map_some, Option.isSome_none, Option.isSome_some,
      Bool.false_eq_true, if_true, if_false, charactersIn_append, List.length_append, Nat.add_assoc,
      Nat.add_zero]

theorem text_isSome (s : Pastes) (text : Bytes) : (s.text text).opened.isSome = s.opened.isSome := by
  rw [Pastes.text, Option.isSome_map]

theorem marked_isSome (s : Pastes) (marker : Bytes) :
    (s.marked marker).opened.isSome = (marker == pasteStart) := by
  unfold Pastes.marked
  cases marker == pasteStart <;> rfl

theorem past_at (s : Pastes) (mark : Mark UInt8) :
    (s.past mark).at_ = s.at_ + mark.before.length + mark.marker.length := by
  unfold Pastes.past Pastes.marked
  cases mark.marker == pasteStart <;> rfl

/-- Where a stream leaves the human's input: what it held, and what is carried of it. -/
def pastesOf (stream : Bytes) : Pastes := Pastes.through {} (markers.read false stream)

def carriedAfter (stream : Bytes) : Bytes :=
  carriedOf (markers.read false stream).2.2 (sought (markers.read false stream).2.1)

/-- Whether a paste is open is which markers are sought. -/
theorem through_isSome (s : Pastes) (run : Bytes) :
    (s.through (markers.read s.opened.isSome run)).opened.isSome =
      (markers.read s.opened.isSome run).2.1 := by
  refine markers.read_induct (motive := fun state _ read => ∀ s : Pastes, s.opened.isSome = state →
    (s.through read).opened.isSome = read.2.1) (fun state run h s open_ => ?_)
    (fun state run at_ marker marks left h _ ih s open_ => ?_) _ run s rfl
  · rw [Pastes.through, text_isSome]
    exact open_
  · have later := ih (s.past ⟨run.take at_, marker⟩) (marked_isSome _ _)
    exact later

/-- What is carried is the end held of what is left of the stream. -/
theorem left_held (state : Bool) (run : Bytes) :
    Held (sought (markers.read state run).2.1) (markers.read state run).2.2
      (carriedOf (markers.read state run).2.2 (sought (markers.read state run).2.1)) :=
  carried_held (markers.read_left state run)

/-! ## 4. A write, read at its markers -/

/-- A paste's end in a write that begins `offset` bytes into the stream. -/
def PasteEnd.on (offset : Nat) (e : PasteEnd) : PasteEnd := { e with at_ := offset + e.at_ }

def Segment.characters : Segment → Nat
  | typed _ _ => 0
  | pasted characters => characters

/-- The characters pasted in a write. -/
def pastedIn (segments : List Segment) : Nat := (segments.map Segment.characters).sum

/-- What a write, `offset` bytes into the stream, says of pastes is what the stream holds of them
    beyond what was known. -/
structure Agrees (offset : Nat) (known : Pastes) (fed : Fed) (s : Pastes) : Prop where
  ends : s.ends = known.ends ++ fed.ends.map (PasteEnd.on offset)
  pasted : s.pasted = known.pasted + pastedIn fed.segments

section Agrees

variable {offset : Nat} {known s : Pastes} {fed : Fed}

theorem Agrees.typed (h : Agrees offset known fed s) (start stop : Nat) (text : Bytes)
    (out : s.opened = none) : Agrees offset known (fed.typed start stop) (s.text text) := by
  have nothing : (s.text text).pasted = s.pasted := by
    rw [Pastes.text, out]
    rfl
  rw [Fed.typed]
  by_cases some_ : start < stop
  · rw [if_pos some_]
    refine ⟨h.ends, ?_⟩
    rw [nothing, h.pasted, pastedIn, pastedIn, List.map_append, List.sum_append]
    rfl
  · rw [if_neg some_]
    exact ⟨h.ends, nothing.trans h.pasted⟩

theorem Agrees.content (h : Agrees offset known fed s) (text : Bytes) (in_ : s.opened.isSome) :
    Agrees offset known (fed.pasted (charactersIn text)) (s.text text) := by
  refine ⟨h.ends, ?_⟩
  rw [Pastes.text, if_pos in_, h.pasted, Nat.add_assoc]
  unfold Fed.pasted pastedIn
  rw [List.map_append, List.sum_append, List.map_singleton, List.sum_singleton]
  rfl

theorem Agrees.nothing (h : Agrees offset known fed s) : Agrees offset known (fed.pasted 0) s := by
  refine ⟨h.ends, ?_⟩
  unfold Fed.pasted pastedIn
  rw [h.pasted, List.map_append, List.sum_append]
  rfl

theorem Agrees.started (h : Agrees offset known fed s) :
    Agrees offset known fed (s.marked pasteStart) := ⟨h.ends, h.pasted⟩

theorem Agrees.ended (h : Agrees offset known fed s) {at_ characters : Nat}
    (here : s.at_ + pasteEnd.length = offset + at_) (open_ : s.opened = some characters) :
    Agrees offset known (fed.ended at_ characters) (s.marked pasteEnd) := by
  refine ⟨?_, h.pasted⟩
  show s.ends ++ [⟨s.at_ + pasteEnd.length, s.opened.getD 0⟩] = _
  rw [h.ends, here, open_, Fed.ended, List.map_append, List.append_assoc]
  rfl

end Agrees

/-- **The loop of `feed` goes from marker to marker**: it leaves the paste open, the bytes carried
    and the pastes ended that the stream has. -/
theorem feedFrom_through {bytes stream : Bytes} {carried offset : Nat} {known : Pastes}
    (few : carried < 6) (state : Bool) (run : Bytes) :
    ∀ (s : Pastes) (at_ fuel : Nat) (fed : Fed), s.opened.isSome = state → run = stream.drop at_ →
      stream.length - at_ < fuel → s.at_ + carried = offset + at_ → Agrees offset known fed s →
      ∃ fed', feedFrom bytes stream carried fuel s.opened at_ fed =
          ((s.through (markers.read state run)).opened,
            carriedOf (markers.read state run).2.2 (sought (markers.read state run).2.1), fed') ∧
        Agrees offset known fed' (s.through (markers.read state run)) := by
  refine markers.read_induct (motive := fun state run read =>
    ∀ (s : Pastes) (at_ fuel : Nat) (fed : Fed), s.opened.isSome = state → run = stream.drop at_ →
      stream.length - at_ < fuel → s.at_ + carried = offset + at_ → Agrees offset known fed s →
      ∃ fed', feedFrom bytes stream carried fuel s.opened at_ fed =
          ((s.through read).opened, carriedOf read.2.2 (sought read.2.1), fed') ∧
        Agrees offset known fed' (s.through read))
    (fun state run h s at_ fuel fed open_ here enough place agrees => ?_)
    (fun state run at' marker marks left h _ ih s at_ fuel fed open_ here enough place agrees => ?_)
    state run
  · obtain ⟨fuel, rfl⟩ := Nat.exists_eq_succ_of_ne_zero (Nat.ne_zero_of_lt enough)
    subst here open_
    cases hs : s.opened with
    | none =>
      rw [hs] at h
      have nowhere := next_out.symm.trans h
      rw [Option.map_eq_none_iff] at nowhere
      have same : (s.text ((stream.drop at_).take ((stream.drop at_).length -
          carryLength (stream.drop at_) (sought false)))).opened = none := by
        rw [Pastes.text, hs]
        rfl
      refine ⟨_, ?_, agrees.typed (at_ - carried) bytes.length _ hs⟩
      rw [feedFrom, nowhere]
      exact congrArg (·, _) same.symm
    | some characters =>
      rw [hs] at h
      have nowhere := next_in.symm.trans h
      rw [Option.or_eq_none_iff, Option.map_eq_none_iff, Option.map_eq_none_iff] at nowhere
      obtain ⟨not_closed, not_opened⟩ := nowhere
      have same : (s.text ((stream.drop at_).take ((stream.drop at_).length -
          carryLength (stream.drop at_) (sought true)))).opened =
          some (characters + charactersIn ((stream.drop at_).take ((stream.drop at_).length -
            carryLength (stream.drop at_) (sought true)))) := by
        rw [Pastes.text, hs]
        rfl
      rw [closing, not_opened] at not_closed
      refine ⟨_, ?_, agrees.content _ (by rw [hs]; rfl)⟩
      rw [feedFrom, not_opened, not_closed]
      exact congrArg (·, _) same.symm
  · obtain ⟨fuel, rfl⟩ := Nat.exists_eq_succ_of_ne_zero (Nat.ne_zero_of_lt enough)
    subst here open_
    have fits := next_fits (sought_six _) (by decide) h
    have six := sought_six _ marker (next_spec h).1
    rw [List.length_drop] at fits
    have before : ((stream.drop at_).take at').length = at' := by
      rw [List.length_take, List.length_drop]
      omega
    have on : (stream.drop at_).drop (at' + marker.length) =
        stream.drop (at_ + at' + marker.length) := by
      rw [List.drop_drop, Nat.add_assoc]
    have place' : (s.past ⟨(stream.drop at_).take at', marker⟩).at_ + carried =
        offset + (at_ + at' + marker.length) := by
      rw [past_at]
      show s.at_ + ((stream.drop at_).take at').length + marker.length + carried = _
      omega
    cases hs : s.opened with
    | none =>
      rw [hs] at h
      have there := next_out.symm.trans h
      obtain ⟨place'', found, same⟩ := Option.map_eq_some_iff.1 there
      cases same
      obtain ⟨fed', left', agrees'⟩ := ih (s.past ⟨(stream.drop at_).take at', pasteStart⟩)
        (at_ + at' + pasteStart.length) fuel
        ((fed.typed (at_ - carried) (at_ + at' - carried)).pasted 0) rfl on (by omega) place'
        (agrees.typed _ _ _ hs).nothing.started
      refine ⟨fed', ?_, agrees'⟩
      rw [feedFrom, found]
      exact left'
    | some characters =>
      rw [hs] at h
      have there := next_in.symm.trans h
      have content := agrees.content ((stream.drop at_).take at') (by rw [hs]; rfl)
      cases hc : closing (stream.drop at_) with
      | some stop =>
        rw [hc] at there
        cases there
        have open' : (s.text ((stream.drop at_).take at')).opened =
            some (characters + charactersIn ((stream.drop at_).take at')) := by
          rw [Pastes.text, hs]
          rfl
        have at_end : (s.text ((stream.drop at_).take at')).at_ + pasteEnd.length =
            offset + (at_ + at' + pasteEnd.length - carried) := by
          have moved := (past_at s ⟨(stream.drop at_).take at', pasteEnd⟩).symm.trans
            (Nat.eq_sub_of_add_eq place')
          exact moved.trans (Nat.add_sub_assoc (by omega) _)
        obtain ⟨fed', left', agrees'⟩ := ih (s.past ⟨(stream.drop at_).take at', pasteEnd⟩)
          (at_ + at' + pasteEnd.length) fuel
          ((fed.pasted (charactersIn ((stream.drop at_).take at'))).ended
            (at_ + at' + pasteEnd.length - carried)
            (characters + charactersIn ((stream.drop at_).take at'))) rfl on (by omega) place'
          (content.ended at_end open')
        refine ⟨fed', ?_, agrees'⟩
        rw [closing] at hc
        rw [feedFrom, hc]
        exact left'
      | none =>
        rw [hc] at there
        obtain ⟨place'', found, same⟩ := Option.map_eq_some_iff.1 there
        cases same
        obtain ⟨fed', left', agrees'⟩ := ih (s.past ⟨(stream.drop at_).take at', pasteStart⟩)
          (at_ + at' + pasteStart.length) fuel
          (fed.pasted (charactersIn ((stream.drop at_).take at'))) rfl on (by omega) place'
          content.started
        refine ⟨fed', ?_, agrees'⟩
        rw [closing] at hc
        rw [feedFrom, hc, found]
        exact left'

/-! ## 5. The next write -/

/-- What was read and what is carried are the whole stream. -/
theorem through_at (s : Pastes) (run : Bytes) :
    (s.through (markers.read s.opened.isSome run)).at_ +
        carryLength (markers.read s.opened.isSome run).2.2
          (sought (markers.read s.opened.isSome run).2.1) =
      s.at_ + run.length := by
  refine markers.read_induct (motive := fun state run read => ∀ s : Pastes,
    (s.through read).at_ + carryLength read.2.2 (sought read.2.1) = s.at_ + run.length)
    (fun state run h s => ?_) (fun state run at_ marker marks left h _ ih s => ?_) _ run s
  · have fits := @carry_fits run state
    rw [Pastes.through, Pastes.text, List.length_take]
    dsimp only [List.foldl_nil]
    omega
  · have later := ih (s.past ⟨run.take at_, marker⟩)
    have fits := next_fits (sought_six _) (by decide) h
    have moved : (s.past ⟨run.take at_, marker⟩).at_ = s.at_ + min at_ run.length + marker.length := by
      rw [past_at, ← List.length_take]
    rw [moved, List.length_drop] at later
    exact later.trans (by omega)

/-- A run read on from the end held: what it holds, and what is carried of it. -/
theorem through_begun {s : Pastes} {state : Bool} {before kept : Bytes}
    (h : next (sought state) (before ++ kept) = none) (held : Held (sought state) (before ++ kept) kept)
    (more : Bytes) :
    s.through (begun before (markers.read state (kept ++ more))) =
        (s.text before).through (markers.read state (kept ++ more)) ∧
      carriedOf (begun before (markers.read state (kept ++ more))).2.2
          (sought (begun before (markers.read state (kept ++ more))).2.1) =
        carriedOf (markers.read state (kept ++ more)).2.2
          (sought (markers.read state (kept ++ more)).2.1) := by
  cases found : next (sought state) (kept ++ more) with
  | none =>
    rw [markers.read_none found]
    have nowhere := next_held h held more
    rw [found] at nowhere
    have same := (carried_held nowhere).unique (held.append (carried_held found))
    have length := congrArg List.length same
    rw [carried_length, carried_length] at length
    have fits := @carry_fits (kept ++ more) state
    refine ⟨?_, same⟩
    show s.text ((before ++ (kept ++ more)).take ((before ++ (kept ++ more)).length -
      carryLength (before ++ (kept ++ more)) (sought state))) = (s.text before).text _
    rw [text_append, length, List.length_append, Nat.add_sub_assoc fits, List.take_length_add_append]
  | some place =>
    obtain ⟨at_, marker⟩ := place
    rw [markers.read_some found]
    refine ⟨?_, rfl⟩
    unfold Pastes.through begun
    rw [List.foldl_cons, List.foldl_cons, Pastes.past, Pastes.past, text_append]

/-- **The stream read on**: from where it left the paste open, and the bytes carried. -/
theorem stream_append (stream more : Bytes) :
    pastesOf (stream ++ more) = (pastesOf stream).through
        (markers.read (pastesOf stream).opened.isSome (carriedAfter stream ++ more)) ∧
      carriedAfter (stream ++ more) =
        carriedOf (markers.read (pastesOf stream).opened.isSome (carriedAfter stream ++ more)).2.2
          (sought (markers.read (pastesOf stream).opened.isSome (carriedAfter stream ++ more)).2.1) := by
  have state := through_isSome {} stream
  have left := markers.read_left false stream
  have held := left_held false stream
  unfold pastesOf carriedAfter
  cases hr : markers.read false stream with
  | mk marks rest =>
    obtain ⟨opened, rest⟩ := rest
    rw [show ({} : Pastes).opened.isSome = false from rfl, hr] at state
    rw [hr] at left held
    obtain ⟨before, hb⟩ : ∃ before, rest.take (rest.length - carryLength rest (sought opened)) =
      before := ⟨_, rfl⟩
    obtain ⟨kept, hk⟩ : ∃ kept, carriedOf rest (sought opened) = kept := ⟨_, rfl⟩
    have whole : before ++ kept = rest := by
      rw [← hb, ← hk]
      exact List.take_append_drop _ _
    have so_far : Pastes.through {} (marks, opened, rest) = (marks.foldl Pastes.past {}).text before := by
      rw [Pastes.through, hb]
    dsimp only at state left held
    rw [hk, ← whole] at held
    rw [← whole] at hr left
    obtain ⟨on, kept'⟩ := through_begun (s := marks.foldl Pastes.past {}) left held more
    rw [markers.read_append hr held more, state]
    dsimp only
    rw [hk, kept', so_far, ← on]
    refine ⟨?_, rfl⟩
    unfold Pastes.through
    rw [List.foldl_append]

/-- A watch is where its stream leaves it. -/
structure Stands (w : PasteWatch) (stream : Bytes) : Prop where
  opened : w.opened = (pastesOf stream).opened
  carried : w.carried = carriedAfter stream

theorem stands_nil {w : PasteWatch} (opened : w.opened = none) (carried : w.carried = []) :
    Stands w [] := by
  have nothing : markers.read false [] = ([], false, []) := markers.read_none rfl
  refine ⟨?_, ?_⟩
  · rw [opened, pastesOf, nothing]
    rfl
  · rw [carried, carriedAfter, nothing]
    rfl

variable {w : PasteWatch} {stream : Bytes} {now : Nat}

/-- **The next write takes the watch on**, and says of pastes what the stream holds more of them. -/
theorem feed_stands (h : Stands w stream) (inTime : w.resumed now = w) (bytes : Bytes) :
    Stands (w.feed bytes now).1 (stream ++ bytes) ∧
      Agrees stream.length (pastesOf stream) (w.feed bytes now).2 (pastesOf (stream ++ bytes)) := by
  obtain ⟨on, kept⟩ := stream_append stream bytes
  have few : (carriedAfter stream).length < 6 := by
    rw [carriedAfter, carried_length]
    exact carry_could.2
  have place : (pastesOf stream).at_ + (carriedAfter stream).length = stream.length + 0 := by
    rw [carriedAfter, carried_length]
    exact (through_at {} stream).trans (Nat.zero_add _)
  have start : Agrees stream.length (pastesOf stream) {} (pastesOf stream) :=
    ⟨(List.append_nil _).symm, rfl⟩
  obtain ⟨fed, scanned, agrees⟩ := @feedFrom_through bytes _ _ _ _ few _ (carriedAfter stream ++ bytes)
    (pastesOf stream) 0 ((carriedAfter stream ++ bytes).length + 1) {} rfl rfl (Nat.lt_succ_self _)
    place start
  have fed_ : w.feed bytes now = ({ w with
      opened := (pastesOf (stream ++ bytes)).opened, carried := carriedAfter (stream ++ bytes),
      idleSince := some now }, fed) := by
    rw [PasteWatch.feed, inTime, h.carried, h.opened, on, kept]
    dsimp only
    rw [scanned]
  rw [fed_]
  exact ⟨⟨rfl, rfl⟩, by rw [on]; exact agrees⟩

/-! ## 6. The writes of a stream -/

/-- One of the human's writes: its bytes, when the watch reads it, and when the pane has taken it, if
    it does. -/
structure HumanWrite where
  bytes : Bytes
  now : Nat
  taken : Option Nat := none
  deriving DecidableEq, Repr

namespace HumanWrite

/-- When the pane last took anything of the human's, once a write is over. -/
def over_ (write : HumanWrite) : Nat := write.taken.getD write.now

/-- The bytes of writes, one after another. -/
def bytesOf (writes : List HumanWrite) : Bytes := writes.flatMap bytes

/-- Each write comes within the time of abandonment of the one before. -/
def InTime (abandonedAfter : Nat) (writes : List HumanWrite) : Prop :=
  writes.IsChain fun write next => next.now - write.over_ ≤ abandonedAfter

end HumanWrite

/-- What writes are found to hold of pastes: where each ends in the stream, and its characters; the
    characters of all of them; and where they leave the watch. -/
structure PastesFound where
  ends : List PasteEnd
  pasted : Nat
  opened : Option Nat
  carried : Bytes
  deriving DecidableEq, Repr

namespace PasteWatch

/-- A write read, and taken by the pane. -/
def took (w : PasteWatch) (write : HumanWrite) : PasteWatch :=
  match write.taken with
  | none => (w.feed write.bytes write.now).1
  | some at_ => (w.feed write.bytes write.now).1.idle at_

/-- What a watch finds in writes, the first of them `offset` bytes into the stream. -/
def found (w : PasteWatch) (offset : Nat) : List HumanWrite → PastesFound
  | [] => ⟨[], 0, w.opened, w.carried⟩
  | write :: writes =>
    let fed := (w.feed write.bytes write.now).2
    let rest := found (w.took write) (offset + write.bytes.length) writes
    { rest with
      ends := fed.ends.map (PasteEnd.on offset) ++ rest.ends
      pasted := pastedIn fed.segments + rest.pasted }

/-- The watches a pane can come to. -/
inductive Reached : PasteWatch → Prop
  | fresh (abandonedAfter : Nat) : Reached { abandonedAfter }
  | fed {w : PasteWatch} (bytes : Bytes) (now : Nat) : Reached w → Reached (w.feed bytes now).1
  | idle {w : PasteWatch} (now : Nat) : Reached w → Reached (w.idle now)

end PasteWatch

theorem resumed_stands (h : Stands w stream) (now : Nat) : ∃ stream, Stands (w.resumed now) stream := by
  unfold PasteWatch.resumed
  cases w.idleSince.any fun since => decide (w.abandonedAfter < now - since) with
  | true => exact ⟨[], stands_nil rfl rfl⟩
  | false => exact ⟨stream, h⟩

theorem resumed_again (w : PasteWatch) (now : Nat) :
    (w.resumed now).resumed now = w.resumed now := by
  unfold PasteWatch.resumed
  cases h : w.idleSince.any fun since => decide (w.abandonedAfter < now - since) with
  | true =>
    rw [if_pos rfl, if_pos h]
  | false =>
    rw [if_neg Bool.false_ne_true, h, if_neg Bool.false_ne_true]

/-- The next write, whatever came of the paste before it. -/
theorem feed_resumed (w : PasteWatch) (bytes : Bytes) (now : Nat) :
    (w.resumed now).feed bytes now = w.feed bytes now := by
  rw [PasteWatch.feed, resumed_again]
  rfl

theorem reached_stands (h : w.Reached) : ∃ stream, Stands w stream := by
  induction h with
  | fresh abandonedAfter => exact ⟨[], stands_nil rfl rfl⟩
  | fed bytes now _ ih =>
    obtain ⟨stream, stands⟩ := ih
    obtain ⟨stream', stands'⟩ := resumed_stands stands now
    rw [← feed_resumed]
    exact ⟨_, (feed_stands stands' (resumed_again _ _) bytes).1⟩
  | idle now _ ih =>
    obtain ⟨stream, stands⟩ := ih
    exact ⟨stream, stands.opened, stands.carried⟩

theorem feed_patience (w : PasteWatch) (bytes : Bytes) (now : Nat) :
    (w.feed bytes now).1.abandonedAfter = w.abandonedAfter := by
  show (w.resumed now).abandonedAfter = _
  unfold PasteWatch.resumed
  cases w.idleSince.any fun since => decide (w.abandonedAfter < now - since) <;> rfl

/-- Writes found from where the next of them finds the watch. -/
theorem found_resumed (w : PasteWatch) (offset : Nat) (first : HumanWrite)
    (writes : List HumanWrite) :
    (w.resumed first.now).found offset (first :: writes) = w.found offset (first :: writes) := by
  unfold PasteWatch.found PasteWatch.took
  rw [feed_resumed]

theorem on_on (offset more : Nat) (e : PasteEnd) :
    (e.on more).on offset = e.on (offset + more) := by
  unfold PasteEnd.on
  rw [Nat.add_assoc]

theorem on_injective (offset : Nat) : Function.Injective (PasteEnd.on offset) := by
  intro e e' same
  obtain ⟨at_, characters⟩ := e
  obtain ⟨at', characters'⟩ := e'
  injection same with place count
  have place : at_ = at' := Nat.add_left_cancel place
  have count : characters = characters' := count
  rw [place, count]

/-- Writes found further on in the stream: the same pastes, further on. -/
theorem found_on (w : PasteWatch) (offset more : Nat) (writes : List HumanWrite) :
    w.found (offset + more) writes =
      { w.found more writes with ends := (w.found more writes).ends.map (PasteEnd.on offset) } := by
  induction writes generalizing w more with
  | nil => rfl
  | cons write writes ih =>
    unfold PasteWatch.found
    dsimp only
    rw [Nat.add_assoc, ih, List.map_append, List.map_map]
    have moved : PasteEnd.on (offset + more) = PasteEnd.on offset ∘ PasteEnd.on more := by
      funext e
      exact (on_on offset more e).symm
    rw [moved]

/-- A write taken leaves the watch when it was over. -/
theorem took_idle (w : PasteWatch) (write : HumanWrite) :
    (w.took write).idleSince = some write.over_ ∧
      (w.took write).abandonedAfter = (w.feed write.bytes write.now).1.abandonedAfter ∧
      (w.took write).opened = (w.feed write.bytes write.now).1.opened ∧
      (w.took write).carried = (w.feed write.bytes write.now).1.carried := by
  unfold PasteWatch.took HumanWrite.over_
  cases write.taken <;> exact ⟨rfl, rfl, rfl, rfl⟩

/-- A write taken leaves the watch where its stream does, for the next one in time. -/
theorem took_stands {write : HumanWrite} {writes : List HumanWrite} (h : Stands w stream)
    (inTime : w.resumed write.now = w)
    (chain : HumanWrite.InTime w.abandonedAfter (write :: writes)) :
    Stands (w.took write) (stream ++ write.bytes) ∧
      (∀ first ∈ writes.head?, (w.took write).resumed first.now = w.took write) ∧
      HumanWrite.InTime (w.took write).abandonedAfter writes := by
  obtain ⟨stands, -⟩ := feed_stands h inTime write.bytes
  obtain ⟨idle, patience, opened, carried⟩ := took_idle w write
  have patience := patience.trans (feed_patience w write.bytes write.now)
  refine ⟨⟨opened.trans stands.opened, carried.trans stands.carried⟩, fun first here => ?_, ?_⟩
  · have soon := List.IsChain.rel_head? chain here
    rw [PasteWatch.resumed, idle, Option.any_some, patience, if_neg]
    rw [decide_eq_true_eq]
    omega
  · rw [patience]
    exact List.IsChain.tail chain

/-- **What writes in time are found to hold** is what the stream holds of pastes beyond what it held
    before them. -/
theorem found_stands {writes : List HumanWrite} (h : Stands w stream)
    (inTime : ∀ first ∈ writes.head?, w.resumed first.now = w)
    (chain : HumanWrite.InTime w.abandonedAfter writes) :
    (pastesOf (stream ++ HumanWrite.bytesOf writes)).ends =
        (pastesOf stream).ends ++ (w.found stream.length writes).ends ∧
      (pastesOf (stream ++ HumanWrite.bytesOf writes)).pasted =
        (pastesOf stream).pasted + (w.found stream.length writes).pasted ∧
      (pastesOf (stream ++ HumanWrite.bytesOf writes)).opened =
        (w.found stream.length writes).opened ∧
      carriedAfter (stream ++ HumanWrite.bytesOf writes) =
        (w.found stream.length writes).carried := by
  induction writes generalizing w stream with
  | nil =>
    rw [HumanWrite.bytesOf, List.flatMap_nil, List.append_nil]
    exact ⟨(List.append_nil _).symm, rfl, h.opened.symm, h.carried.symm⟩
  | cons write writes ih =>
    obtain ⟨-, agrees⟩ := feed_stands h (inTime write rfl) write.bytes
    obtain ⟨stands, next, chain⟩ := took_stands h (inTime write rfl) chain
    obtain ⟨ends, pasted, opened, carried⟩ := ih stands next chain
    have whole : stream ++ HumanWrite.bytesOf (write :: writes) =
        stream ++ write.bytes ++ HumanWrite.bytesOf writes := by
      rw [HumanWrite.bytesOf, List.flatMap_cons, List.append_assoc, HumanWrite.bytesOf]
    rw [List.length_append] at ends pasted opened carried
    rw [whole]
    refine ⟨?_, ?_, opened, carried⟩
    · rw [ends, agrees.ends, List.append_assoc]
      rfl
    · rw [pasted, agrees.pasted, Nat.add_assoc]
      rfl

/-! ## 7. A write in parts -/

/-- Where pastes end in a write, in its order. -/
def InOrder (ends : List PasteEnd) : Prop := ends.Pairwise fun e later => e.at_ ≤ later.at_

/-- The pastes that end in a write end one after another, whatever the watch. -/
theorem feedFrom_inOrder {bytes stream : Bytes} {carried : Nat} (fuel : Nat) (opened : Option Nat)
    (at_ : Nat) (fed : Fed) (so_far : InOrder fed.ends)
    (before : ∀ e ∈ fed.ends, e.at_ ≤ at_ - carried) :
    InOrder (feedFrom bytes stream carried fuel opened at_ fed).2.2.ends := by
  have typed_ends : ∀ (fed : Fed) start stop, (fed.typed start stop).ends = fed.ends := by
    intro fed start stop
    unfold Fed.typed
    by_cases some_ : start < stop
    · rw [if_pos some_]
    · rw [if_neg some_]
  induction fuel generalizing opened at_ fed with
  | zero => exact so_far
  | succ fuel ih =>
    have later : ∀ more, ∀ e ∈ fed.ends, e.at_ ≤ at_ + more - carried := fun more e one =>
      (before e one).trans (Nat.sub_le_sub_right (Nat.le_add_right _ _) _)
    cases opened with
    | none =>
      rw [feedFrom]
      cases positionOf (stream.drop at_) pasteStart with
      | none =>
        dsimp only
        rw [typed_ends]
        exact so_far
      | some start =>
        refine ih _ _ _ ?_ ?_
        · show InOrder (fed.typed _ _).ends
          rw [typed_ends]
          exact so_far
        · show ∀ e ∈ (fed.typed _ _).ends, _
          rw [typed_ends, Nat.add_assoc]
          exact later _
    | some characters =>
      cases hc : closing (stream.drop at_) with
      | some stop =>
        rw [closing] at hc
        rw [feedFrom, hc]
        refine ih _ _ _ ?_ ?_
        · refine List.pairwise_append.2 ⟨so_far, List.pairwise_singleton _ _, fun e one last is => ?_⟩
          rw [List.mem_singleton.1 is, Nat.add_assoc]
          exact later _ e one
        · intro e one
          rcases List.mem_append.1 one with one | last
          · rw [Nat.add_assoc]
            exact later _ e one
          · rw [List.mem_singleton.1 last]
      | none =>
        rw [closing] at hc
        rw [feedFrom, hc]
        cases positionOf (stream.drop at_) pasteStart with
        | none => exact so_far
        | some start =>
          refine ih _ _ _ so_far ?_
          rw [Nat.add_assoc]
          exact later _

theorem feed_inOrder (w : PasteWatch) (bytes : Bytes) (now : Nat) :
    InOrder (w.feed bytes now).2.ends :=
  feedFrom_inOrder _ _ _ _ List.Pairwise.nil fun _ none_ => absurd none_ List.not_mem_nil

theorem partsFrom_flatten {bytes : Bytes} {ends : List PasteEnd} (start : Nat) (order : InOrder ends)
    (before : ∀ e ∈ ends, start ≤ e.at_) :
    ((partsFrom bytes start ends).map Prod.fst).flatten = bytes.drop start := by
  induction ends generalizing start with
  | nil =>
    rw [partsFrom]
    by_cases left : start < bytes.length
    · rw [if_pos left]
      exact List.append_nil _
    · rw [if_neg left, List.drop_eq_nil_of_le (Nat.le_of_not_lt left)]
      rfl
  | cons e ends ih =>
    obtain ⟨first, order⟩ := List.pairwise_cons.1 order
    have here := before e List.mem_cons_self
    rw [partsFrom, List.map_cons, List.flatten_cons, ih e.at_ order first]
    conv_rhs => rw [← List.take_append_drop e.at_ bytes, List.drop_append]
    rcases Nat.le_total e.at_ bytes.length with within | beyond
    · have none_ : start - (bytes.take e.at_).length = 0 := by
        rw [List.length_take]
        omega
      rw [none_, List.drop_zero]
    · rw [List.drop_eq_nil_of_le beyond, List.drop_nil]

/-- **The parts of a write are the write.** -/
theorem parts_flatten {bytes : Bytes} {ends : List PasteEnd} (order : InOrder ends) :
    ((partsEndingPastes bytes ends).map Prod.fst).flatten = bytes := by
  have whole := @partsFrom_flatten bytes ends 0 order fun _ _ => Nat.zero_le _
  unfold partsEndingPastes
  cases h : partsFrom bytes 0 ends with
  | nil => exact List.append_nil _
  | cons part parts =>
    rw [h] at whole
    exact whole

theorem fedBy_inOrder (pane : PaneKey) (bytes : Bytes) (now : Nat) (state : PaneInputState) :
    InOrder (fedBy pane bytes now state).ends := by
  unfold fedBy
  by_cases current : state.generation = pane.generation
  · rw [if_pos current]
    exact feed_inOrder _ _ _
  · rw [if_neg current]
    exact List.Pairwise.nil

/-! ### Written to the pane -/

/-- The bytes written to a pane so far. -/
def Trace.written (t : Trace) : Bytes := (t.sent.map Prod.fst).flatten

/-- The bytes a moment writes. -/
def Moment.bytes : Moment → Bytes
  | put bytes => bytes
  | look _ => []
  | admission => []

section Written

variable {env : Env} {pane : PaneKey}

theorem failInput_sent (error : PaneError) (begun : Bool) (t : Trace) :
    (failInput env pane error begun t).2.sent = t.sent := by
  unfold failInput
  cases !begun && error.isNotFound with
  | true => rfl
  | false => exact visit_sent _ t

theorem validateAdmission_kept (state : PaneInputState) (t : Trace) :
    (validateAdmission pane state t).2 = t := by
  unfold validateAdmission
  by_cases stale : state.generation ≠ pane.generation
  · rw [if_pos stale]
    rfl
  · rw [if_neg stale]
    cases state.inputFailed <;> rfl

/-- A moment writes its bytes: all of them where it is passed, and otherwise none or all. -/
theorem act_written (m : Moment) (t : Trace) :
    ∃ more, (m.act env pane t).2.written = t.written ++ more ∧ more <+: m.bytes ∧
      ((m.act env pane t).1 = .ok () → more = m.bytes) := by
  cases m with
  | look f =>
    have same : ((Moment.look f).act env pane t).2.sent = t.sent := by
      rw [← @visit_sent env pane f t, Moment.act, bind_run]
      rcases visit env pane f t with ⟨e | a, t'⟩ <;> rfl
    refine ⟨[], ?_, List.prefix_rfl, fun _ => rfl⟩
    rw [Trace.written, same, List.append_nil]
    rfl
  | admission =>
    have same : (Moment.admission.act env pane t).2.sent = t.sent := by
      rw [← @visit_sent env pane (fun _ state => state) t, Moment.act, bind_run]
      rcases visit env pane (fun _ state => state) t with ⟨e | state, t'⟩
      · rfl
      · exact congrArg Trace.sent (validateAdmission_kept state t')
    refine ⟨[], ?_, List.prefix_rfl, fun _ => rfl⟩
    rw [Trace.written, same, List.append_nil]
    rfl
  | put bytes =>
    have same : ((Moment.put bytes).act env pane t).2.sent =
        t.sent ++ [(bytes, env.write t.sent.length)] := by
      rw [Moment.act, bind_run]
      simp only [Panes.put]
      cases env.write t.sent.length with
      | none => rfl
      | some error => exact failInput_sent error false _
    refine ⟨bytes, ?_, List.prefix_rfl, fun _ => rfl⟩
    rw [Trace.written, same, List.map_append, List.flatten_append]
    exact congrArg (_ ++ ·) (List.append_nil bytes)

/-- Moments write their bytes, as far as they come. -/
theorem moments_written (ms : List Moment) (t : Trace) :
    ∃ more, (ms.forM (Moment.act env pane) t).2.written = t.written ++ more ∧
      more <+: ms.flatMap Moment.bytes ∧
      ((ms.forM (Moment.act env pane) t).1 = .ok () → more = ms.flatMap Moment.bytes) := by
  induction ms generalizing t with
  | nil => exact ⟨[], (List.append_nil _).symm, List.prefix_rfl, fun _ => rfl⟩
  | cons m ms ih =>
    obtain ⟨first, written, begins, whole⟩ := @act_written env pane m t
    rw [forM_run, List.flatMap_cons]
    cases ran : m.act env pane t with
    | mk answer t' =>
      rw [ran] at written whole
      cases answer with
      | error e =>
        refine ⟨first, written, begins.trans (List.prefix_append _ _), fun ok => ?_⟩
        cases ok
      | ok u =>
        obtain ⟨more, written', begins', whole'⟩ := ih t'
        have first_ := whole rfl
        subst first_
        refine ⟨m.bytes ++ more, ?_, (List.prefix_append_right_inj _).2 begins', fun ok => ?_⟩
        · rw [← List.append_assoc, ← written]
          exact written'
        · rw [whole' ok]

theorem write_bytes (bytes : Bytes) : (writeMoments bytes).flatMap Moment.bytes = bytes := by
  cases bytes with
  | nil => rfl
  | cons b bytes => exact List.append_nil _

theorem part_bytes (silent : SilentPaste) (part : Bytes × Option Nat) :
    (partMoments silent part).flatMap Moment.bytes = part.1 := by
  unfold partMoments
  rw [List.flatMap_append, List.flatMap_append, write_bytes]
  cases part.1 <;> cases part.2 <;> simp [Moment.bytes]

theorem typed_bytes (bytes : Bytes) (now : Nat) (state : PaneInputState) :
    (typedMoments pane bytes now state).flatMap Moment.bytes = bytes := by
  unfold typedMoments
  rw [List.flatMap_append]
  cases state.silentPaste with
  | none => rw [write_bytes]; exact List.append_nil _
  | some silent =>
    dsimp only
    rw [List.flatMap_assoc, List.flatMap_congr fun part _ => part_bytes silent part]
    have parts := @parts_flatten bytes _ (fedBy_inOrder pane bytes now state)
    rw [← List.flatMap_def] at parts
    rw [parts]
    exact List.append_nil _

/-- A typed write whose first visit finds no pane writes nothing. -/
theorem typed_lost {bytes : Bytes} (lost : ∀ state, env.visit 0 ≠ .there state) :
    ∃ e t, (InputWork.typed bytes).run env pane = (.error e, t) ∧ t.sent = [] := by
  cases found : env.visit 0 with
  | there state => exact absurd found (lost state)
  | gone =>
    refine ⟨.stale, { visits := 1 }, ?_, rfl⟩
    show (_ >>= _ : InputM Unit) _ = _
    rw [bind_run]
    show (_ >>= _ : InputM Unit) _ = _
    rw [bind_run]
    unfold visit
    rw [show ({} : Trace).visits = 0 from rfl, found]
    rfl
  | poisoned =>
    refine ⟨.lockPoisoned, { visits := 1 }, ?_, rfl⟩
    show (_ >>= _ : InputM Unit) _ = _
    rw [bind_run]
    show (_ >>= _ : InputM Unit) _ = _
    rw [bind_run]
    unfold visit
    rw [show ({} : Trace).visits = 0 from rfl, found]
    rfl

/-- **What a typed write writes to the pane is the bytes given**, as far as it comes. -/
theorem typed_written (env : Env) (pane : PaneKey) (bytes : Bytes) :
    ((InputWork.typed bytes).run env pane).2.written <+: bytes ∧
      (((InputWork.typed bytes).run env pane).1 = .ok () →
        ((InputWork.typed bytes).run env pane).2.written = bytes) := by
  by_cases there : ∃ state, env.visit 0 = .there state
  · obtain ⟨state, found⟩ := there
    obtain ⟨t, ran, -, none_⟩ := @typed_there env pane bytes state found
    obtain ⟨more, written, begins, whole⟩ :=
      @moments_written env pane (typedMoments pane bytes (env.now 0) state) t
    rw [show t.written = [] by rw [Trace.written, none_]; rfl, List.nil_append] at written
    rw [typed_bytes] at begins whole
    rw [ran, written]
    exact ⟨begins, whole⟩
  · obtain ⟨e, t, ran, none_⟩ := @typed_lost env pane bytes fun state found => there ⟨state, found⟩
    have nothing : t.written = [] := by
      rw [Trace.written, none_]
      rfl
    rw [ran, nothing]
    refine ⟨List.nil_prefix, fun ok => ?_⟩
    cases ok

end Written

/-! ## 8. However cut -/

/-- **The human's pastes are found the same however their bytes are cut into writes**, from any watch:
    each where it ends in the stream, with its characters, the one still open, and the characters of
    all of them. And what a write writes to the pane, in its parts, is the bytes given. -/
theorem pastes_found_alike {w : PasteWatch} (reached : w.Reached) (first : HumanWrite)
    (writes : List HumanWrite) (inTime : HumanWrite.InTime w.abandonedAfter (first :: writes)) :
    w.found 0 (first :: writes) =
        w.found 0 [{ first with bytes := HumanWrite.bytesOf (first :: writes) }] ∧
      ∀ (env : Env) (pane : PaneKey) (bytes : Bytes),
        ((InputWork.typed bytes).run env pane).2.written <+: bytes ∧
          (((InputWork.typed bytes).run env pane).1 = .ok () →
            ((InputWork.typed bytes).run env pane).2.written = bytes) := by
  refine ⟨?_, typed_written⟩
  obtain ⟨stream, stands⟩ := reached_stands reached
  obtain ⟨before, stands⟩ := resumed_stands stands first.now
  have patience : (w.resumed first.now).abandonedAfter = w.abandonedAfter :=
    feed_patience w [] first.now
  let whole : HumanWrite := { first with bytes := HumanWrite.bytesOf (first :: writes) }
  have same : HumanWrite.bytesOf [whole] = HumanWrite.bytesOf (first :: writes) := List.append_nil _
  have resumed : ∀ write ∈ (first :: writes).head?,
      (w.resumed first.now).resumed write.now = w.resumed first.now := by
    intro write here
    cases here
    exact resumed_again w first.now
  have resumed' : ∀ write ∈ [whole].head?,
      (w.resumed first.now).resumed write.now = w.resumed first.now := by
    intro write here
    cases here
    exact resumed_again w first.now
  obtain ⟨ends, pasted, opened, carried⟩ := found_stands stands resumed (patience ▸ inTime)
  obtain ⟨ends', pasted', opened', carried'⟩ :=
    found_stands stands resumed' (List.IsChain.singleton whole)
  rw [same] at ends' pasted' opened' carried'
  have ends := List.append_cancel_left (ends.symm.trans ends')
  have pasted := Nat.add_left_cancel (pasted.symm.trans pasted')
  have opened := opened.symm.trans opened'
  have carried := carried.symm.trans carried'
  rw [found_resumed w _ first writes, show (w.resumed first.now).found before.length [whole] =
    w.found before.length [whole] from found_resumed w _ whole [], ← Nat.add_zero before.length,
    found_on, found_on] at ends pasted opened carried
  have ends := List.map_injective_iff.2 (on_injective before.length) ends
  show w.found 0 (first :: writes) = w.found 0 [whole]
  revert ends pasted opened carried
  cases w.found 0 (first :: writes)
  cases w.found 0 [whole]
  rintro pasted opened carried ends
  dsimp only at pasted opened carried ends
  rw [ends, pasted, opened, carried]

/-- A paste of one character, its opening marker cut by a write's end. -/
theorem pastes_found_alike_cut :
    ({} : PasteWatch).found 0 [⟨[0x61, 0x1b, 0x5b], 0, none⟩,
        ⟨[0x32, 0x30, 0x30, 0x7e, 0x62], 5, some 7⟩, ⟨pasteEnd ++ [0x63], 9, none⟩] =
      ({} : PasteWatch).found 0 [⟨[0x61] ++ pasteStart ++ [0x62] ++ pasteEnd ++ [0x63], 0, none⟩] :=
  (pastes_found_alike (.fresh pasteAbandonedAfter) _ _ (by
    unfold HumanWrite.InTime
    decide)).1

end Panes
end ConsensFlow
