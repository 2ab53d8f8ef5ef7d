/-
  File:      ConsensFlow/Panes/Unsent.lean
  Subject:   WHAT THE HUMAN LEFT UNSENT, HOWEVER THEIR BYTES ARE CUT (`cf-panes`, `arbiter.rs`): pastes
             and characters are followed over the writes, a key or a report is read within one.

  * `taken`, `keyUnsent`, `unsentAfter` -- keys one after another, as `typed_keys` counts them;
  * `BetweenKeys` -- keys that are whole, whatever comes after them; `unsentAfter_append`;
  * `unsentOver`, `feed_unsent` -- what a stream leaves unsent, and what `keys_of` makes of a write;
  * **`unsent_alike`** -- cut in pastes, between keys, or once in an opening marker between them, a
    stream leaves what it leaves in one write. Cut in a key it may not (`unsent_cut`).
-/
import ConsensFlow.Panes.Cuts

namespace ConsensFlow
namespace Panes

open Lib.Markers

/-! ## 1. One key -/

/-- What a key leaves unsent: its first byte says. -/
def keyUnsent (unsent : Nat) (b : UInt8) : Nat :=
  if b = 0x0d || b = 0x0a then 0
  else if b = 0x03 then 0
  else if b = 0x15 then 0
  else if b = 0x7f || b = 0x08 then unsent - 1
  else if b = 0x16 then unsent + 1
  else if b = 0x1b then unsent
  else if b < 0x20 then unsent
  else if b &&& 0xC0 != 0x80 then unsent + 1
  else unsent

/-- The bytes of the key or the report at the head of `rest`. -/
def taken (rest : Bytes) : Nat :=
  match reportAt rest with
  | some (_, bytes) => bytes
  | none => (keyAt { unsent := 0 } rest).2

variable {rest text more : Bytes} {b : UInt8} {unsent : Nat} {keys : Keys}

theorem key_unsent (keys : Keys) (b : UInt8) (rest : Bytes) :
    (keyAt keys (b :: rest)).1.unsent = keyUnsent keys.unsent b := by
  unfold keyAt keyUnsent
  dsimp only
  repeat (split <;> try rfl)

theorem key_taken (keys keys' : Keys) (rest : Bytes) : (keyAt keys rest).2 = (keyAt keys' rest).2 := by
  unfold keyAt
  cases rest with
  | nil => rfl
  | cons b after =>
    dsimp only
    repeat (split <;> try rfl)

/-- A report begins with an escape. -/
theorem report_escape {class_ : Class} {bytes : Nat} (h : reportAt (b :: rest) = some (class_, bytes)) :
    b = 0x1b := by
  unfold reportAt at h
  split at h
  · rename_i same
    exact (List.cons.inj same).1
  · cases h

theorem stringEnd_le (body : Bytes) : stringEnd body ≤ body.length := by
  fun_induction stringEnd body with
  | case1 => exact Nat.le_refl 0
  | case2 => exact Nat.succ_le_succ (Nat.zero_le _)
  | case3 => exact Nat.succ_le_succ (Nat.succ_le_succ (Nat.zero_le _))
  | case4 b rest _ _ ih => exact Nat.succ_le_succ ih

theorem csiEnd_le (rest : Bytes) : csiEnd rest ≤ rest.length := by
  unfold csiEnd
  cases h : (rest.drop 2).findIdx? fun b => decide (0x40 ≤ b) && decide (b ≤ 0x7e) with
  | none => exact Nat.le_refl _
  | some i =>
    have within := (List.findIdx?_eq_some_iff_getElem.1 h).1
    rw [List.length_drop] at within
    rw [Option.map_some, Option.getD_some]
    omega

theorem csiEnd_pos : 0 < csiEnd (b :: rest) := by
  unfold csiEnd
  cases ((b :: rest).drop 2).findIdx? fun b => decide (0x40 ≤ b) && decide (b ≤ 0x7e) with
  | none => exact Nat.succ_pos _
  | some i => exact Nat.succ_pos _

/-- A report is some of the bytes it is at the head of. -/
theorem report_within {class_ : Class} {bytes : Nat} (h : reportAt rest = some (class_, bytes)) :
    0 < bytes ∧ bytes ≤ rest.length := by
  unfold reportAt at h
  split at h
  · rename_i kind body
    have csi := @csiEnd_pos (kind :: body) 0x1b
    have csi' := csiEnd_le (0x1b :: kind :: body)
    split at h
    · cases h
      have string_ := stringEnd_le body
      rw [List.length_cons, List.length_cons]
      omega
    · split at h
      · split at h
        · cases h
          rw [List.length_cons, List.length_cons, List.length_cons]
          omega
        · cases h
          exact ⟨csi, csi'⟩
        · cases h
          exact ⟨csi, csi'⟩
        · cases h
          exact ⟨csi, csi'⟩
        · cases h
      · cases h
  · cases h

/-- A key is some of the bytes it is at the head of. -/
theorem key_within (keys : Keys) (b : UInt8) (rest : Bytes) :
    0 < (keyAt keys (b :: rest)).2 ∧ (keyAt keys (b :: rest)).2 ≤ (b :: rest).length := by
  have one : 0 < 1 ∧ 1 ≤ (b :: rest).length := ⟨Nat.one_pos, Nat.succ_le_succ (Nat.zero_le _)⟩
  unfold keyAt
  dsimp only
  split
  · exact one
  split
  · exact one
  split
  · exact one
  split
  · exact one
  split
  · exact one
  split
  · cases rest with
    | nil => exact one
    | cons kind body =>
      dsimp only
      split
      · exact ⟨csiEnd_pos, csiEnd_le _⟩
      · rw [List.length_cons, List.length_cons]
        omega
      · rw [List.length_cons, List.length_cons]
        omega
      · exact one
  split
  · exact one
  split <;> exact one

theorem taken_within (b : UInt8) (rest : Bytes) :
    0 < taken (b :: rest) ∧ taken (b :: rest) ≤ (b :: rest).length := by
  unfold taken
  cases h : reportAt (b :: rest) with
  | some report => exact report_within h
  | none => exact key_within _ b rest

/-! ## 2. Keys one after another -/

/-- What keys leave unsent, one after another. -/
def unsentAfter (unsent : Nat) : Bytes → Nat
  | [] => unsent
  | b :: rest => unsentAfter (keyUnsent unsent b) (rest.drop (taken (b :: rest) - 1))
termination_by text => text.length
decreasing_by
  rw [List.length_drop, List.length_cons]
  omega

theorem drop_taken (b : UInt8) (rest : Bytes) :
    (b :: rest).drop (taken (b :: rest)) = rest.drop (taken (b :: rest) - 1) := by
  obtain ⟨n, same⟩ := Nat.exists_eq_succ_of_ne_zero (Nat.ne_of_gt (taken_within b rest).1)
  rw [same, List.drop_succ_cons, Nat.succ_sub_one]

/-- **What `typed_keys` counts** is what the keys leave, one after another. -/
theorem typedKeys_unsent (fuel : Nat) (keys : Keys) (text : Bytes) (enough : text.length ≤ fuel) :
    (typedKeys fuel keys text).unsent = unsentAfter keys.unsent text := by
  induction fuel generalizing keys text with
  | zero =>
    rw [List.length_eq_zero_iff.1 (Nat.le_zero.1 enough), typedKeys, unsentAfter]
  | succ fuel ih =>
    cases text with
    | nil =>
      rw [typedKeys, unsentAfter]
      exact Nat.succ_ne_zero fuel
    | cons b rest =>
      have few : ((b :: rest).drop (taken (b :: rest))).length ≤ fuel := by
        have some_ := (taken_within b rest).1
        rw [List.length_drop]
        omega
      rw [unsentAfter, ← drop_taken, typedKeys]
      · cases h : reportAt (b :: rest) with
        | some report =>
          obtain ⟨class_, bytes⟩ := report
          have same : taken (b :: rest) = bytes := by rw [taken, h]
          rw [same] at few ⊢
          dsimp only
          rw [ih _ _ few, report_escape h]
          rfl
        | none =>
          have same : taken (b :: rest) = (keyAt { keys with keyed := true } (b :: rest)).2 := by
            rw [taken, h]
            exact key_taken _ _ _
          rw [same] at few ⊢
          dsimp only
          rw [ih _ _ few, key_unsent]
      · exact fun none_ => List.cons_ne_nil _ _ none_

/-- Keys that are whole, each whatever comes after it. -/
inductive BetweenKeys : Bytes → Prop
  | start : BetweenKeys []
  | key {b : UInt8} {rest : Bytes} (whole : ∀ more, taken (b :: rest ++ more) = taken (b :: rest))
      (after : BetweenKeys (rest.drop (taken (b :: rest) - 1))) : BetweenKeys (b :: rest)

/-- **Keys that are whole are read the same whatever comes after them.** -/
theorem unsentAfter_append (h : BetweenKeys text) (more : Bytes) :
    unsentAfter unsent (text ++ more) = unsentAfter (unsentAfter unsent text) more := by
  induction h generalizing unsent with
  | start => rw [List.nil_append, unsentAfter]
  | @key b rest whole _ ih =>
    have within := (taken_within b rest).2
    rw [List.cons_append, unsentAfter, ← List.cons_append, whole more, unsentAfter,
      List.drop_append_of_le_length (by rw [List.length_cons] at within; omega), ih]

/-- The beginning of an opening marker, read as keys, leaves what there was. -/
theorem unsentAfter_opening {kept : Bytes} (begins : kept <+: pasteStart) (part : kept.length < 6) :
    unsentAfter unsent kept = unsent := by
  have same := List.prefix_iff_eq_take.1 begins
  rcases Nat.eq_zero_or_pos kept.length with none_ | some_
  · rw [List.length_eq_zero_iff.1 none_, unsentAfter]
  · have all : ∀ n < 6, 0 < n → taken (pasteStart.take n) = n := by decide
    have whole := all kept.length part some_
    rw [← same] at whole
    cases kept with
    | nil => cases some_
    | cons b rest =>
      have escape : b = 0x1b := (List.cons_prefix_cons.1 begins).1
      rw [unsentAfter, ← drop_taken, whole, List.drop_length, unsentAfter, escape]
      rfl

/-! ## 3. A stream -/

/-- What is left unsent past the markers of a run, the first `known` bytes of which were read as keys
    already: the characters pasted count, and what is typed is read as keys. -/
def unsentPast (known : Nat) (opened : Bool) (unsent : Nat) :
    List (Mark UInt8) → Bool × Bytes → Nat
  | [], left =>
    if opened then unsent + charactersIn (left.2.take (left.2.length - carryLength left.2 (sought true)))
    else unsentAfter unsent (left.2.drop known)
  | mark :: marks, left =>
    unsentPast 0 (mark.marker == pasteStart)
      (if opened then unsent + charactersIn mark.before
        else unsentAfter unsent (mark.before.drop known)) marks left

/-- What a whole stream leaves unsent. -/
def unsentOf (unsent : Nat) (stream : Bytes) : Nat :=
  unsentPast 0 false unsent (markers.read false stream).1 (markers.read false stream).2

/-- What a piece of a write leaves unsent. -/
def pieceUnsent (bytes : Bytes) (unsent : Nat) : Segment → Nat
  | .typed start stop => unsentAfter unsent ((bytes.take stop).drop start)
  | .pasted characters => unsent + characters

/-- **What `keys_of` counts** is what the pieces leave, one after another. -/
theorem keysOf_unsent (unsent : Nat) (bytes : Bytes) (segments : List Segment) :
    (keysOf unsent bytes segments).unsent = segments.foldl (pieceUnsent bytes) unsent := by
  suffices each : ∀ keys : Keys, (segments.foldl (fun keys segment => match segment with
      | .typed start stop =>
        let typed := (bytes.take stop).drop start
        typedKeys typed.length keys typed
      | .pasted characters =>
        { keys with keyed := true, unsent := keys.unsent + characters }.with_ .paste) keys).unsent =
      segments.foldl (pieceUnsent bytes) keys.unsent from each { unsent }
  induction segments with
  | nil => exact fun keys => rfl
  | cons segment segments ih =>
    intro keys
    rw [List.foldl_cons, List.foldl_cons, ih]
    cases segment with
    | typed start stop =>
      dsimp only
      rw [typedKeys_unsent _ _ _ (Nat.le_refl _)]
      rfl
    | pasted characters => rfl

/-- What the pieces of a write found so far leave unsent. -/
def Fed.leaves (fed : Fed) (bytes : Bytes) (unsent : Nat) : Nat :=
  fed.segments.foldl (pieceUnsent bytes) unsent

theorem typed_unsent (fed : Fed) (bytes : Bytes) (start stop : Nat) :
    (fed.typed start stop).leaves bytes unsent =
      unsentAfter (fed.leaves bytes unsent) ((bytes.take stop).drop start) := by
  unfold Fed.typed Fed.leaves
  by_cases some_ : start < stop
  · rw [if_pos some_, List.foldl_append]
    rfl
  · rw [if_neg some_, List.drop_eq_nil_of_le, unsentAfter]
    rw [List.length_take]
    omega

theorem pasted_unsent (fed : Fed) (bytes : Bytes) (characters : Nat) :
    (fed.pasted characters).leaves bytes unsent = fed.leaves bytes unsent + characters := by
  unfold Fed.pasted Fed.leaves
  rw [List.foldl_append]
  rfl

/-- The bytes of a write from a place on, as the stream has them: those carried were read already. -/
theorem drop_stream {kept bytes : Bytes} (at_ : Nat) :
    ((kept ++ bytes).drop at_).drop (kept.length - at_) = bytes.drop (at_ - kept.length) := by
  rw [List.drop_drop, List.drop_append, List.drop_eq_nil_of_le (by omega), List.nil_append]
  congr 1
  omega

theorem slice_stream {kept bytes : Bytes} (at_ stop : Nat) :
    (bytes.take (at_ + stop - kept.length)).drop (at_ - kept.length) =
      (((kept ++ bytes).drop at_).take stop).drop (kept.length - at_) := by
  rw [List.drop_take, List.drop_take, drop_stream]
  congr 1
  omega

/-- The loop of `feed` leaves the pieces that the stream says. -/
theorem feedFrom_unsent {kept bytes : Bytes} (few : kept.length < 6) (state : Bool) (run : Bytes) :
    ∀ (opened : Option Nat) (at_ fuel : Nat) (fed : Fed), opened.isSome = state →
      run = (kept ++ bytes).drop at_ → (kept ++ bytes).length - at_ < fuel →
      (feedFrom bytes (kept ++ bytes) kept.length fuel opened at_ fed).2.2.leaves bytes unsent =
        unsentPast (kept.length - at_) state (fed.leaves bytes unsent)
          (markers.read state run).1 (markers.read state run).2 := by
  refine markers.read_induct (motive := fun state run read =>
    ∀ (opened : Option Nat) (at_ fuel : Nat) (fed : Fed), opened.isSome = state →
      run = (kept ++ bytes).drop at_ → (kept ++ bytes).length - at_ < fuel →
      (feedFrom bytes (kept ++ bytes) kept.length fuel opened at_ fed).2.2.leaves bytes unsent =
        unsentPast (kept.length - at_) state (fed.leaves bytes unsent) read.1 read.2)
    (fun state run h opened at_ fuel fed open_ here enough => ?_)
    (fun state run at' marker marks left h _ ih opened at_ fuel fed open_ here enough => ?_) state run
  · obtain ⟨fuel, rfl⟩ := Nat.exists_eq_succ_of_ne_zero (Nat.ne_zero_of_lt enough)
    subst here open_
    cases opened with
    | none =>
      have nowhere := next_out.symm.trans h
      rw [Option.map_eq_none_iff] at nowhere
      rw [feedFrom, nowhere]
      dsimp only
      rw [typed_unsent, List.take_length, ← drop_stream]
      rfl
    | some characters =>
      have nowhere := next_in.symm.trans h
      rw [Option.or_eq_none_iff, Option.map_eq_none_iff, Option.map_eq_none_iff] at nowhere
      obtain ⟨not_closed, not_opened⟩ := nowhere
      rw [closing, not_opened] at not_closed
      rw [feedFrom, not_opened, not_closed]
      dsimp only
      rw [pasted_unsent]
      rfl
  · obtain ⟨fuel, rfl⟩ := Nat.exists_eq_succ_of_ne_zero (Nat.ne_zero_of_lt enough)
    subst here open_
    have fits := next_fits (sought_six _) (by decide) h
    have six := sought_six _ marker (next_spec h).1
    rw [List.length_drop] at fits
    have on : ((kept ++ bytes).drop at_).drop (at' + marker.length) =
        (kept ++ bytes).drop (at_ + at' + marker.length) := by
      rw [List.drop_drop, Nat.add_assoc]
    have known : kept.length - (at_ + at' + marker.length) = 0 := by omega
    have later := fun opened fed open_ =>
      ih opened (at_ + at' + marker.length) fuel fed open_ on (by omega)
    rw [known] at later
    rw [unsentPast]
    cases opened with
    | none =>
      obtain ⟨place, found, same⟩ := Option.map_eq_some_iff.1 (next_out.symm.trans h)
      cases same
      rw [feedFrom, found]
      dsimp only
      refine (later (some 0) _ rfl).trans ?_
      rw [pasted_unsent, typed_unsent, slice_stream]
      rfl
    | some characters =>
      have there := next_in.symm.trans h
      cases hc : closing ((kept ++ bytes).drop at_) with
      | some stop =>
        rw [hc] at there
        cases there
        rw [closing] at hc
        rw [feedFrom, hc]
        dsimp only
        refine (later none _ rfl).trans ?_
        rw [show ∀ (fed : Fed) at_ characters, (fed.ended at_ characters).leaves bytes unsent =
          fed.leaves bytes unsent from fun _ _ _ => rfl, pasted_unsent]
        rfl
      | none =>
        rw [hc] at there
        obtain ⟨place, found, same⟩ := Option.map_eq_some_iff.1 there
        cases same
        rw [closing] at hc
        rw [feedFrom, hc, found]
        dsimp only
        refine (later (some 0) _ rfl).trans ?_
        rw [pasted_unsent]
        rfl

variable {w : PasteWatch} {stream : Bytes} {now : Nat}

/-- **What `keys_of` makes of a write** is what the stream read on leaves. -/
theorem feed_unsent (h : Stands w stream) (inTime : w.resumed now = w) (unsent : Nat)
    (bytes : Bytes) :
    (keysOf unsent bytes (w.feed bytes now).2.segments).unsent =
      unsentPast (carriedAfter stream).length (pastesOf stream).opened.isSome unsent
        (markers.read (pastesOf stream).opened.isSome (carriedAfter stream ++ bytes)).1
        (markers.read (pastesOf stream).opened.isSome (carriedAfter stream ++ bytes)).2 := by
  have few : (carriedAfter stream).length < 6 := by
    rw [carriedAfter, carried_length]
    exact carry_could.2
  have scanned := @feedFrom_unsent unsent _ bytes few _ (carriedAfter stream ++ bytes)
    (pastesOf stream).opened 0 ((carriedAfter stream ++ bytes).length + 1) {} rfl rfl
    (Nat.lt_succ_self _)
  rw [keysOf_unsent, PasteWatch.feed, inTime, h.carried, h.opened]
  exact scanned

/-! ## 4. Where a write may end -/

/-- The bytes of a stream since its last paste, read as keys. -/
def keysLeft (stream : Bytes) : Bytes := (markers.read false stream).2.2

/-- A write ends in an opening marker, and the next one begins with the rest of it. -/
def InOpening (stream next_ : Bytes) : Prop :=
  carriedAfter stream ≠ [] ∧ pasteStart <+: carriedAfter stream ++ next_

/-- Where a write may end: in a paste, between keys, or in an opening marker that is between keys and
    that the next write ends. -/
def MayEnd (stream next_ : Bytes) : Prop :=
  next_ = [] ∨ (pastesOf stream).opened.isSome = true ∨
    (¬ InOpening stream next_ ∧ BetweenKeys (keysLeft stream)) ∨
    (InOpening stream next_ ∧
      BetweenKeys ((keysLeft stream).take ((keysLeft stream).length - (carriedAfter stream).length)))

section Begun

variable {state : Bool} {before kept : Bytes}

/-- In a paste, the characters of what is not carried count once. -/
theorem unsent_pasted (h : next (sought true) (before ++ kept) = none)
    (held : Held (sought true) (before ++ kept) kept) (more : Bytes) :
    unsentPast 0 true unsent (begun before (markers.read true (kept ++ more))).1
        (begun before (markers.read true (kept ++ more))).2 =
      unsentPast kept.length true (unsentPast 0 true unsent [] (true, before ++ kept))
        (markers.read true (kept ++ more)).1 (markers.read true (kept ++ more)).2 := by
  have so_far : (before ++ kept).take ((before ++ kept).length -
      carryLength (before ++ kept) (sought true)) = before := by
    have length := congrArg List.length ((carried_held h).unique held)
    rw [carried_length] at length
    rw [length, List.length_append, Nat.add_sub_cancel, List.take_left]
  have counted : unsentPast 0 true unsent [] (true, before ++ kept) =
      unsent + charactersIn before := by
    rw [unsentPast, if_pos rfl, so_far]
  rw [counted]
  cases found : next (sought true) (kept ++ more) with
  | none =>
    have nowhere := next_held h held more
    rw [found] at nowhere
    have length := congrArg List.length ((carried_held nowhere).unique
      (held.append (carried_held found)))
    rw [carried_length, carried_length] at length
    have fits := @carry_fits (kept ++ more) true
    have found' : next (markers.sought true) (kept ++ more) = none := found
    rw [markers.read_none found']
    dsimp only [begun]
    rw [unsentPast, if_pos rfl, unsentPast, if_pos rfl]
    dsimp only
    rw [length, List.length_append, Nat.add_sub_assoc fits, List.take_length_add_append,
      charactersIn_append, Nat.add_assoc]
  | some place =>
    obtain ⟨at_, marker⟩ := place
    have found' : next (markers.sought true) (kept ++ more) = some (at_, marker) := found
    rw [markers.read_some found']
    dsimp only [begun]
    rw [unsentPast, unsentPast, if_pos rfl, if_pos rfl, charactersIn_append, Nat.add_assoc]

/-- Typed text, cut where a write may end: the keys before the cut, then those after it. -/
theorem unsent_typed (h : next (sought false) (before ++ kept) = none)
    (held : Held (sought false) (before ++ kept) kept) (more : Bytes)
    (cut : more = [] ∨ (¬ (kept ≠ [] ∧ pasteStart <+: kept ++ more) ∧ BetweenKeys (before ++ kept)) ∨
      ((kept ≠ [] ∧ pasteStart <+: kept ++ more) ∧ BetweenKeys before)) :
    unsentPast 0 false unsent (begun before (markers.read false (kept ++ more))).1
        (begun before (markers.read false (kept ++ more))).2 =
      unsentPast kept.length false (unsentPast 0 false unsent [] (false, before ++ kept))
        (markers.read false (kept ++ more)).1 (markers.read false (kept ++ more)).2 := by
  have counted : unsentPast 0 false unsent [] (false, before ++ kept) =
      unsentAfter unsent (before ++ kept) := rfl
  have nowhere := next_held h held more
  rw [counted]
  cases found : next (sought false) (kept ++ more) with
  | none =>
    have found' : next (markers.sought false) (kept ++ more) = none := found
    rw [markers.read_none found']
    dsimp only [begun]
    show unsentAfter unsent (before ++ (kept ++ more)) =
      unsentAfter (unsentAfter unsent (before ++ kept)) ((kept ++ more).drop kept.length)
    rw [List.drop_left, ← List.append_assoc]
    rcases cut with none_ | ⟨-, between⟩ | ⟨⟨-, opening⟩, -⟩
    · rw [none_, List.append_nil, unsentAfter.eq_1]
    · exact unsentAfter_append between more
    · -- The marker would have been found.
      exact absurd opening (next_none found (by decide) 0 (List.mem_singleton.2 rfl))
  | some place =>
    obtain ⟨at_, marker⟩ := place
    obtain ⟨one, here⟩ := next_spec found
    cases List.mem_singleton.1 one
    have found' : next (markers.sought false) (kept ++ more) = some (at_, pasteStart) := found
    rw [markers.read_some found']
    dsimp only [begun]
    rw [unsentPast, unsentPast]
    refine congrArg (unsentPast 0 _ · _ _) ?_
    rw [if_neg Bool.false_ne_true, if_neg Bool.false_ne_true, List.drop_zero]
    obtain ⟨_, begun_, begins⟩ := held.begins
    rw [List.mem_singleton.1 begun_] at begins
    have alone : next (sought false) kept = none := by
      have none_ := next_held h held []
      rw [List.append_nil, h] at none_
      exact Option.map_eq_none_iff.1 none_.symm
    rcases cut with none_ | ⟨not_, between⟩ | ⟨⟨some_, opening⟩, between⟩
    · rw [none_, List.append_nil, alone] at found
      cases found
    · -- The marker begins past what was read before.
      have past : kept.length ≤ at_ := by
        rw [← Nat.not_lt]
        intro short
        have there := @marker_there _ _ _ here 0 (by decide)
        rw [Nat.add_zero, List.getElem?_append_left short] at there
        obtain ⟨after, same⟩ := begins
        have own : pasteStart[at_]? = some 0x1b := by
          rw [← same, List.getElem?_append_left short]
          exact there
        have first := (marker_escape (by decide) at_).1 own
        subst first
        exact not_ ⟨List.ne_nil_of_length_pos short, here⟩
      rw [List.take_append, List.take_of_length_le past, List.drop_left, ← List.append_assoc]
      exact unsentAfter_append between _
    · -- The marker begins in what was read before, between keys.
      have opening : pasteStart <+: (kept ++ more).drop 0 := opening
      have first := (next_only (sought_six false) found (List.mem_singleton.2 rfl) opening).1
      have part : kept.length < 6 := by
        rw [← (carried_held h).unique held, carried_length]
        exact carry_could.2
      rw [Nat.le_zero.1 first, List.take_zero, List.drop_nil, List.append_nil, unsentAfter.eq_1,
        unsentAfter_append between, unsentAfter_opening begins part]

/-- A stream read on, at whatever marker it is: what was left, then what comes. -/
theorem unsentPast_append {run : Bytes} {state' : Bool} {marks : List (Mark UInt8)}
    (read : markers.read state' run = (marks, state, before ++ kept))
    (h : next (sought state) (before ++ kept) = none)
    (held : Held (sought state) (before ++ kept) kept) (more : Bytes)
    (cut : more = [] ∨ state = true ∨
      (¬ (kept ≠ [] ∧ pasteStart <+: kept ++ more) ∧ BetweenKeys (before ++ kept)) ∨
      ((kept ≠ [] ∧ pasteStart <+: kept ++ more) ∧ BetweenKeys before)) :
    unsentPast 0 state' unsent (marks ++ (begun before (markers.read state (kept ++ more))).1)
        (begun before (markers.read state (kept ++ more))).2 =
      unsentPast kept.length state (unsentPast 0 state' unsent marks (state, before ++ kept))
        (markers.read state (kept ++ more)).1 (markers.read state (kept ++ more)).2 := by
  refine markers.read_induct (motive := fun state' run read => ∀ (unsent : Nat) marks,
    read = (marks, state, before ++ kept) →
      unsentPast 0 state' unsent (marks ++ (begun before (markers.read state (kept ++ more))).1)
          (begun before (markers.read state (kept ++ more))).2 =
        unsentPast kept.length state (unsentPast 0 state' unsent marks (state, before ++ kept))
          (markers.read state (kept ++ more)).1 (markers.read state (kept ++ more)).2)
    (fun state' run _ unsent marks same => ?_)
    (fun state' run at_ marker marks' left _ _ ih unsent marks same => ?_) state' run unsent marks read
  · cases same
    cases state with
    | true => exact unsent_pasted h held more
    | false =>
      refine unsent_typed h held more ?_
      rcases cut with none_ | opened | cut
      · exact Or.inl none_
      · cases opened
      · exact Or.inr cut
  · cases same
    rw [List.cons_append, unsentPast, unsentPast]
    exact ih _ marks' rfl

end Begun

/-- **The stream read on**: cut where a write may end, it leaves what the rest leaves after it. -/
theorem unsentOf_append (unsent : Nat) {more : Bytes} (cut : MayEnd stream more) :
    unsentOf unsent (stream ++ more) =
      unsentPast (carriedAfter stream).length (pastesOf stream).opened.isSome (unsentOf unsent stream)
        (markers.read (pastesOf stream).opened.isSome (carriedAfter stream ++ more)).1
        (markers.read (pastesOf stream).opened.isSome (carriedAfter stream ++ more)).2 := by
  have state := through_isSome {} stream
  have left := markers.read_left false stream
  have held := left_held false stream
  unfold MayEnd InOpening keysLeft at cut
  rw [show pastesOf stream = Pastes.through {} (markers.read false stream) from rfl] at cut ⊢
  rw [show ({} : Pastes).opened.isSome = false from rfl] at state
  rw [state] at cut ⊢
  unfold carriedAfter at cut ⊢
  unfold unsentOf
  revert cut left held
  cases hr : markers.read false stream with
  | mk marks rest =>
    obtain ⟨opened, rest⟩ := rest
    intro cut left held
    dsimp only at left held cut ⊢
    obtain ⟨kept, hk⟩ : ∃ kept, carriedOf rest (sought opened) = kept := ⟨_, rfl⟩
    rw [hk] at held cut ⊢
    obtain ⟨before, hb⟩ : ∃ before, rest.take (rest.length - kept.length) = before := ⟨_, rfl⟩
    rw [hb] at cut
    have end_ := List.suffix_iff_eq_drop.1 held.suffix
    have whole : before ++ kept = rest := by
      calc before ++ kept
          = rest.take (rest.length - kept.length) ++ rest.drop (rest.length - kept.length) := by
            rw [hb, ← end_]
        _ = rest := List.take_append_drop _ _
    rw [← whole] at hr left held cut ⊢
    rw [markers.read_append hr held more]
    exact unsentPast_append hr left held more cut

/-! ## 5. However cut -/

/-- What writes leave unsent, read one after another as `write_typed` reads them. -/
def PasteWatch.unsentLeft (w : PasteWatch) (unsent : Nat) : List HumanWrite → Nat
  | [] => unsent
  | write :: writes =>
    (w.took write).unsentLeft
      (keysOf unsent write.bytes (w.feed write.bytes write.now).2.segments).unsent writes

/-- Each write after the first begins where one may end. -/
def HumanWrite.EndWell (stream : Bytes) : List HumanWrite → Prop
  | [] => True
  | write :: writes => MayEnd stream write.bytes ∧ EndWell (stream ++ write.bytes) writes

/-- **What writes in time leave unsent**, cut where a write may end, is what their stream does. -/
theorem unsentLeft_stands {writes : List HumanWrite} (h : Stands w stream)
    (inTime : ∀ first ∈ writes.head?, w.resumed first.now = w)
    (chain : HumanWrite.InTime w.abandonedAfter writes) (well : HumanWrite.EndWell stream writes)
    (unsent : Nat) :
    w.unsentLeft (unsentOf unsent stream) writes =
      unsentOf unsent (stream ++ HumanWrite.bytesOf writes) := by
  induction writes generalizing w stream with
  | nil =>
    rw [HumanWrite.bytesOf, List.flatMap_nil, List.append_nil]
    rfl
  | cons write writes ih =>
    obtain ⟨ends, well⟩ := well
    obtain ⟨stands, next⟩ := took_stands h (inTime write rfl) chain
    have whole : stream ++ HumanWrite.bytesOf (write :: writes) =
        stream ++ write.bytes ++ HumanWrite.bytesOf writes := by
      rw [HumanWrite.bytesOf, List.flatMap_cons, List.append_assoc, HumanWrite.bytesOf]
    rw [PasteWatch.unsentLeft, feed_unsent h (inTime write rfl), ← unsentOf_append unsent ends, whole]
    exact ih stands next.1 next.2 well

/-- Writes read from where the first of them finds the watch. -/
theorem unsentLeft_resumed (w : PasteWatch) (unsent : Nat) (first : HumanWrite)
    (writes : List HumanWrite) :
    (w.resumed first.now).unsentLeft unsent (first :: writes) =
      w.unsentLeft unsent (first :: writes) := by
  unfold PasteWatch.unsentLeft PasteWatch.took
  rw [feed_resumed]

theorem read_nothing : markers.read false [] = ([], false, []) := markers.read_none rfl

theorem unsentOf_nil (unsent : Nat) : unsentOf unsent [] = unsent := by
  unfold unsentOf
  rw [read_nothing, unsentPast, if_neg Bool.false_ne_true, List.drop_nil, unsentAfter]

/-- A stream may begin. -/
theorem mayEnd_nil (bytes : Bytes) : MayEnd [] bytes := by
  have left : keysLeft [] = [] := by
    rw [keysLeft, read_nothing]
  have nothing : carriedAfter [] = [] := by
    rw [carriedAfter, read_nothing]
    rfl
  refine Or.inr (Or.inr (Or.inl ⟨fun in_ => in_.1 nothing, ?_⟩))
  rw [left]
  exact BetweenKeys.start

/-- **What the human left unsent does not depend on how their bytes are cut into writes**, where the
    cuts are in pastes, between keys, or in an opening marker that is between keys and that is cut
    once. -/
theorem unsent_alike {w : PasteWatch} (out : w.opened = none) (nothing : w.carried = [])
    (first : HumanWrite) (writes : List HumanWrite)
    (inTime : HumanWrite.InTime w.abandonedAfter (first :: writes))
    (well : HumanWrite.EndWell [] (first :: writes)) (unsent : Nat) :
    w.unsentLeft unsent (first :: writes) =
      w.unsentLeft unsent [{ first with bytes := HumanWrite.bytesOf (first :: writes) }] := by
  let whole : HumanWrite := { first with bytes := HumanWrite.bytesOf (first :: writes) }
  have stands : Stands (w.resumed first.now) [] := by
    unfold PasteWatch.resumed
    cases w.idleSince.any fun since => decide (w.abandonedAfter < first.now - since) with
    | true => exact stands_nil rfl rfl
    | false => exact stands_nil out nothing
  have patience : (w.resumed first.now).abandonedAfter = w.abandonedAfter :=
    feed_patience w [] first.now
  have resumed : ∀ write ∈ (first :: writes).head?,
      (w.resumed first.now).resumed write.now = w.resumed first.now := by
    intro write here
    cases here
    exact resumed_again w first.now
  have resumed' : ∀ write ∈ [whole].head?,
      (w.resumed first.now).resumed write.now = w.resumed first.now := by
    intro write here
    cases here
    exact resumed_again w first.now
  have parts := unsentLeft_stands stands resumed (patience ▸ inTime) well unsent
  have once := unsentLeft_stands stands resumed' (List.IsChain.singleton whole)
    ⟨mayEnd_nil _, trivial⟩ unsent
  rw [unsentOf_nil, unsentLeft_resumed] at parts
  rw [unsentOf_nil, show (w.resumed first.now).unsentLeft unsent [whole] =
    w.unsentLeft unsent [whole] from unsentLeft_resumed w unsent whole []] at once
  rw [parts, show [{ first with bytes := HumanWrite.bytesOf (first :: writes) }] = [whole] from rfl,
    once, HumanWrite.bytesOf, HumanWrite.bytesOf, List.flatMap_singleton]
  rfl

/-- A letter, an arrow key and a character, and a paste: cut in the character, and in the paste's
    opening marker. -/
theorem unsent_alike_cut :
    ({} : PasteWatch).unsentLeft 3 [⟨[0x61, 0x1b, 0x5b, 0x41, 0xc3], 0, none⟩,
        ⟨[0xa9, 0x1b, 0x5b], 5, none⟩, ⟨[0x32, 0x30, 0x30, 0x7e, 0x62] ++ pasteEnd, 9, none⟩] =
      ({} : PasteWatch).unsentLeft 3 [⟨[0x61, 0x1b, 0x5b, 0x41, 0xc3, 0xa9] ++ pasteStart ++ [0x62] ++
        pasteEnd, 0, none⟩] := by
  have keys : BetweenKeys [0x61, 0x1b, 0x5b, 0x41, 0xc3] :=
    .key (fun _ => rfl) (.key (fun _ => rfl) (.key (fun _ => rfl) .start))
  have keys' : BetweenKeys [0x61, 0x1b, 0x5b, 0x41, 0xc3, 0xa9] :=
    .key (fun _ => rfl) (.key (fun _ => rfl) (.key (fun _ => rfl) (.key (fun _ => rfl) .start)))
  have first : markers.read false [0x61, 0x1b, 0x5b, 0x41, 0xc3] = ([], false, _) :=
    markers.read_none (by decide)
  have second : markers.read false [0x61, 0x1b, 0x5b, 0x41, 0xc3, 0xa9, 0x1b, 0x5b] =
    ([], false, _) := markers.read_none (by decide)
  refine unsent_alike (w := {}) rfl rfl ⟨[0x61, 0x1b, 0x5b, 0x41, 0xc3], 0, none⟩
    [⟨[0xa9, 0x1b, 0x5b], 5, none⟩, ⟨[0x32, 0x30, 0x30, 0x7e, 0x62] ++ pasteEnd, 9, none⟩]
    (by unfold HumanWrite.InTime; decide)
    ⟨mayEnd_nil _, Or.inr (Or.inr (Or.inl ⟨?_, ?_⟩)), Or.inr (Or.inr (Or.inr ⟨?_, ?_⟩)), trivial⟩ 3
  · unfold InOpening carriedAfter
    dsimp only [List.nil_append]
    rw [first]
    decide
  · unfold keysLeft
    dsimp only [List.nil_append]
    rw [first]
    exact keys
  · unfold InOpening carriedAfter
    dsimp only [List.nil_append, List.cons_append]
    rw [second]
    decide
  · unfold keysLeft carriedAfter
    dsimp only [List.nil_append, List.cons_append]
    rw [second]
    exact keys'

/-- An arrow key cut after its escape: the rest of it is read as typed text. -/
theorem unsent_cut : ¬ ∀ (first : HumanWrite) (writes : List HumanWrite) (unsent : Nat),
    HumanWrite.InTime pasteAbandonedAfter (first :: writes) →
      ({} : PasteWatch).unsentLeft unsent (first :: writes) = ({} : PasteWatch).unsentLeft unsent
        [{ first with bytes := HumanWrite.bytesOf (first :: writes) }] := by
  intro always
  have two := always ⟨[0x1b], 0, none⟩ [⟨[0x5b, 0x41], 1, none⟩] 0 (by
    unfold HumanWrite.InTime
    decide)
  exact absurd two (by decide)

end Panes
end ConsensFlow
