/-
  File:      ConsensFlow/History/Items.lean
  Subject:   WHAT BECOMES OF AN ITEM a read comes to: taken or passed, or left for the next read.

  * `Reading.may` -- a read is stopped by its bound only once it moved;
  * **`showItem_dealt`**, **`search_dealt`** -- an item shown, and one searched a part at a time, from
    the part the last read stopped before.
-/
import ConsensFlow.History.Place

namespace ConsensFlow
namespace History

open Lib Lib.Lines Lib.Search

variable {a : Asked} {owes : List Copied} {most : Nat} {r r' : Reading} {rest : List Atom} {part : Nat}
  {i : Copied} {met : Met}

/-! ## 1. An item dealt with -/

namespace Reading

@[simp] theorem may_entries (a : Asked) (more : Nat) (r : Reading) :
    (r.may a more).entries = r.entries := by
  unfold may
  split <;> rfl

@[simp] theorem may_resume (a : Asked) (more : Nat) (r : Reading) :
    (r.may a more).resume = r.resume := by
  unfold may
  split <;> rfl

@[simp] theorem may_full (a : Asked) (more : Nat) (r : Reading) : (r.may a more).full = r.full := by
  unfold may
  split <;> rfl

theorem may_bounded {a : Asked} {more : Nat} {r : Reading} (h : (r.may a more).bounded = true) :
    r.bounded = true ∨ r.moved a = true := by
  unfold may at h
  split at h
  · rename_i past
    exact .inr (Bool.and_eq_true_iff.1 past).1
  · exact .inl h

theorem moved_same (a : Asked) {r r' : Reading} (entries : r'.entries = r.entries)
    (resume : r'.resume = r.resume) : r'.moved a = r.moved a := by
  rw [moved, moved, entries, resume]

end Reading

theorem may_at (h : At a owes most r rest part) (more : Nat) :
    At a owes most (r.may a more) rest part :=
  h.same (Reading.may_entries a more r) (Reading.may_resume a more r)

/-- A read that may go through no more. -/
theorem stopped_of_may (h : At a owes most r rest part) (bounded : r.bounded = false) {more : Nat}
    (stops : (r.may a more).bounded = true) : Stopped a owes most (r.may a more) := by
  refine ⟨.inr stops, ?_, rest, part, may_at h more⟩
  rw [Reading.moved_same a (Reading.may_entries a more r) (Reading.may_resume a more r)]
  exact (Reading.may_bounded stops).resolve_left (by rw [bounded]; decide)

/-- An item the page has no room for is left for the next read. -/
theorem stopped_full (h : At a owes most r rest part) (some_ : r.entries.isEmpty = false) :
    Stopped a owes most { r with full := true } := by
  refine ⟨.inl rfl, ?_, rest, part, h.same rfl rfl⟩
  show (!r.entries.isEmpty || _) = true
  rw [some_]
  rfl

theorem take_dealt (h : At a owes most r (.item i :: rest) part) (wants : a.wants part i = true)
    {row : HistoryRow} (shows : Shows i row) (full : r.full = false) (bounded : r.bounded = false) :
    Dealt a owes most rest (r.take a row) := by
  unfold Reading.take
  dsimp only
  split
  · rename_i noRoom
    rw [Bool.and_eq_true, Bool.not_eq_true'] at noRoom
    exact .stopped (stopped_full h noRoom.1)
  · exact .done (h.take wants shows (congrArg some shows.key) rfl) full bounded

theorem partBytes_none (of : met.Of i) (whole : i.parts = []) (r : Reading) :
    r.partBytes met 0 = (r, none) := by
  unfold Reading.partBytes Met.parts
  rw [of.stored, whole]
  rfl

theorem partBytes_some (of : met.Of i) {first : Text} {parts : List Text} (kept : i.parts = first :: parts)
    (r : Reading) : r.partBytes met 0 = (r.looked, some (octets first)) := by
  unfold Reading.partBytes Met.parts
  rw [of.stored, kept]
  rfl

/-- **An item shown**: whole, or its first part. -/
theorem showItem_dealt (h : At a owes most r (.item i :: rest) part) (wants : a.wants part i = true)
    (of : met.Of i) (full : r.full = false) (bounded : r.bounded = false) :
    Dealt a owes most rest (r.showItem a met) := by
  unfold Reading.showItem
  cases hp : i.parts with
  | nil =>
    rw [partBytes_none of hp]
    dsimp only
    split
    · rename_i noRoom
      rw [Bool.and_eq_true, Bool.not_eq_true'] at noRoom
      exact .stopped (stopped_full h noRoom.1)
    · split
      · rename_i stops
        exact .stopped (stopped_of_may h bounded stops)
      · rename_i free
        have there := may_at h (Option.getD none met.bytes)
        have full := (Reading.may_full a (Option.getD none met.bytes) r).trans full
        generalize r.may a _ = r₁ at there full free ⊢
        exact take_dealt (r := (r₁.wholeRow met).1) (there.same rfl rfl) wants (wholeRow_shows of r₁) full
          (Bool.not_eq_true _ ▸ free)
  | cons first parts =>
    rw [partBytes_some of hp]
    dsimp only
    split
    · rename_i noRoom
      rw [Bool.and_eq_true, Bool.not_eq_true'] at noRoom
      exact .stopped (stopped_full (r := r.looked) (h.same rfl rfl) noRoom.1)
    · have looked : At a owes most r.looked (.item i :: rest) part := h.same rfl rfl
      split
      · rename_i stops
        exact .stopped (stopped_of_may looked bounded stops)
      · rename_i free
        have kept : i.parts ≠ [] := by
          rw [hp]
          exact List.cons_ne_nil _ _
        have whole := (parts_spec kept).1
        rw [hp, List.flatten_cons] at whole
        have stored : met.stored.parts[0]?.getD [] = first := by
          rw [of.stored, hp]
          rfl
        have there := may_at looked (Option.getD (some (octets first)) met.bytes)
        have full := (Reading.may_full a (Option.getD (some (octets first)) met.bytes) r.looked).trans full
        rw [stored]
        generalize r.looked.may a _ = r₁ at there full free ⊢
        refine take_dealt (r := r₁.readPart first) (there.same rfl rfl) wants
          (longRow_shows of ?_ fun alone _ => ?_) full (Bool.not_eq_true _ ▸ free)
        · rw [List.drop_zero, ← whole]
          exact List.prefix_append _ _
        · rw [hp, List.length_cons] at alone
          rw [← whole, List.eq_nil_of_length_eq_zero (Nat.succ.inj alone)]
          exact (List.append_nil first).symm

/-! ## 2. An item searched -/

/-- What a search has of an item's text before part `part`: the end of it, and where that begins. -/
def Previous (i : Copied) (reach part : Nat) : Option (Nat × Text) → Prop
  | none => part = 0
  | some (start, before) => 0 < part ∧ lastOf reach before = lastOf reach (i.before part) ∧
      (i.parts.drop part ≠ [] → before ++ (i.parts.drop part).flatten = i.text.drop start)

/-- The part a search shows is a part of the item. -/
theorem around_spec {reach : Nat} {previous : Option (Nat × Text)} (prev : Previous i reach part previous)
    {text : Text} {parts : List Text} (hp : i.parts.drop part = text :: parts) (found : Nat) :
    (around previous text part found).2 <+: i.text.drop (around previous text part found).1 ∧
      (i.parts.length = 1 → (around previous text part found).1 = 0 →
        (around previous text part found).2 = i.text) := by
  have kept : i.parts ≠ [] := by
    intro none_
    rw [none_, List.drop_nil] at hp
    cases hp
  obtain ⟨whole, -, short⟩ := parts_spec kept
  unfold around chars
  cases previous with
  | none =>
    cases prev
    rw [List.drop_zero] at hp
    rw [hp, List.flatten_cons] at whole
    dsimp only
    rw [Nat.zero_mul, Nat.max_zero, Nat.sub_zero]
    constructor
    · rw [← whole, List.drop_append]
      exact (List.take_prefix _ _).trans (List.prefix_append _ _)
    · intro alone start
      rw [hp, List.length_cons] at alone
      rw [List.eq_nil_of_length_eq_zero (Nat.succ.inj alone), List.flatten_nil, List.append_nil] at whole
      rw [start, List.drop_zero, ← whole]
      exact List.take_of_length_le (short text (by rw [hp]; exact List.mem_cons_self))
  | some previous =>
    obtain ⟨start, before⟩ := previous
    obtain ⟨later, -, joined⟩ := prev
    have joined := joined (by rw [hp]; exact List.cons_ne_nil _ _)
    dsimp only
    constructor
    · have begins : start + (max (found - beforeAMatch) start - start) =
          max (found - beforeAMatch) start := by omega
      rw [← begins, ← List.drop_drop, ← joined, hp, List.flatten_cons, ← List.append_assoc, begins,
        @List.drop_append _ (before ++ text)]
      exact (List.take_prefix _ _).trans (List.prefix_append _ _)
    · intro alone
      have none_ : i.parts.drop part = [] := List.drop_of_length_le (by omega)
      rw [hp] at none_
      cases none_

/-- What a read wants of an item kept in parts, past its header. -/
theorem wants_parts {needle : Text} (hn : a.needle = some needle) (kept : i.parts ≠ [])
    (header : part = 0 → i.headerHolds a.out needle = false) :
    a.wants part i =
      foundIn a.out.lower needle (needle.length - 1) (i.before part) (i.parts.drop part) := by
  have past : (part == 0 && i.headerHolds a.out needle) = false := by
    cases hz : part == 0 with
    | false => rfl
    | true => exact header (beq_iff_eq.1 hz)
  unfold Asked.wants
  rw [hn, Option.all_some, past, Bool.false_or, if_neg (fun none_ => kept (List.isEmpty_iff.1 none_))]

/-- **An item searched part by part**: taken where the words are found, else passed. -/
theorem searchParts_dealt (of : met.Of i) {needle : Text} (hn : a.needle = some needle)
    (kept : i.parts ≠ []) {parts : List Text} (hp : i.parts.drop part = parts)
    {previous : Option (Nat × Text)} (prev : Previous i (needle.length - 1) part previous)
    (header : part = 0 → i.headerHolds a.out needle = false)
    (h : At a owes most r (.item i :: rest) part) (full : r.full = false) (bounded : r.bounded = false) :
    Dealt a owes most rest (r.searchParts a met needle (needle.length - 1) part previous parts) := by
  have wants := wants_parts (a := a) hn kept header
  rw [hp] at wants
  induction parts generalizing r part previous with
  | nil =>
    refine .done (h.pass wants (congrArg some of.key) rfl) full bounded
  | cons text parts ih =>
    unfold Reading.searchParts
    dsimp only
    have looked : At a owes most r.looked (.item i :: rest) part := h.same rfl rfl
    split
    · rename_i stops
      exact .stopped (stopped_of_may looked bounded stops)
    · rename_i free
      have there := may_at looked (octets text)
      have full := (Reading.may_full a (octets text) r.looked).trans full
      generalize r.looked.may a _ = r₁ at there full free ⊢
      have tail : (previous.map fun before => lastOf (needle.length - 1) before.2).getD [] =
          lastOf (needle.length - 1) (i.before part) := by
        cases previous with
        | none =>
          cases prev
          exact (lastOf_all (Nat.zero_le _)).symm
        | some previous => exact prev.2.1
      rw [tail]
      rw [foundIn] at wants
      have holds := firstMatch_isSome a.out (lastOf (needle.length - 1) (i.before part) ++ text) needle
      rw [folded] at holds
      cases hm : firstMatch a.out (lastOf (needle.length - 1) (i.before part) ++ text) needle with
      | some found =>
        rw [hm] at holds
        rw [← holds] at wants
        obtain ⟨shown, alone⟩ := around_spec prev hp (part * historyPart + found -
          (lastOf (needle.length - 1) (i.before part)).length)
        exact take_dealt (r := r₁.readPart text) (there.same rfl rfl) wants
          (longRow_shows of shown alone) full (Bool.not_eq_true _ ▸ free)
      | none =>
        rw [hm] at holds
        rw [← holds, Option.isSome_none, Bool.false_or] at wants
        dsimp only
        have less : part < i.parts.length := by
          refine Nat.lt_of_not_le fun none_ => ?_
          rw [List.drop_of_length_le none_] at hp
          cases hp
        have rest_ : i.parts.drop (part + 1) = parts := by
          rw [← List.drop_drop, hp]
          rfl
        have here : i.before (part + 1) = text := by
          show i.parts[part]?.getD [] = text
          rw [← List.head?_drop, hp]
          rfl
        obtain ⟨whole, fullParts, short⟩ := parts_spec kept
        have later : Previous i (needle.length - 1) (part + 1) (some (part * historyPart, text)) := by
          refine ⟨Nat.succ_pos part, by rw [here], fun _ => ?_⟩
          rw [← whole, ← flatten_drop fullParts short, hp, rest_, List.flatten_cons]
        have header' : part + 1 = 0 → i.headerHolds a.out needle = false :=
          fun h => absurd h (Nat.succ_ne_zero part)
        have wants' := wants_parts (a := a) hn kept header'
        rw [rest_] at wants'
        refine ih rest_ later header' ?_ full (Bool.not_eq_true _ ▸ free) wants'
        rw [here] at wants'
        refine there.inside less (wants.trans wants'.symm) ?_ rfl
        show some (HistoryKey.mk met.key.conversation met.key.row (part + 1)) = _
        rw [of.key]

/-- The end a part keeps of itself is what a search has of the text before the part after it. -/
theorem previous_tail {reach before : Nat} {text : Text} (kept : i.parts ≠ [])
    (ht : i.parts[before]? = some text) (few : reach ≤ partTail) :
    Previous i reach (before + 1)
      (some ((before + 1) * historyPart - (tailOf text).length, tailOf text)) := by
  obtain ⟨whole, full, short⟩ := parts_spec kept
  refine ⟨Nat.succ_pos before, ?_, fun next => ?_⟩
  · show _ = lastOf reach (i.parts[before]?.getD [])
    rw [ht]
    exact lastOf_lastOf few text
  · have length : text.length = historyPart := full_of_next full ht next
    have cut : i.text.drop (before * historyPart) = text ++ (i.parts.drop (before + 1)).flatten := by
      rw [← whole, ← flatten_drop full short, List.drop_eq_getElem?_toList_append, ht]
      rfl
    have tail : partTail = 2000 := rfl
    have part : historyPart = 64000 := rfl
    have size : (tailOf text).length = partTail := by
      rw [tailOf, lastOf_length, length]
      omega
    have place : (before + 1) * historyPart - (tailOf text).length =
        before * historyPart + (text.length - partTail) := by
      rw [size, length, Nat.succ_mul]
      omega
    have left : i.text.drop ((before + 1) * historyPart - (tailOf text).length) =
        (i.text.drop (before * historyPart)).drop (text.length - partTail) := by
      rw [place, List.drop_drop]
    rw [left, cut, List.drop_append, Nat.sub_eq_zero_of_le (Nat.sub_le _ _), List.drop_zero]
    rfl

/-- **An item searched**, from part `part` of it: taken where it holds the words from there on, else
    passed. -/
theorem search_dealt (of : met.Of i) (short : a.Short) {needle : Text} (hn : a.needle = some needle)
    (h : At a owes most r (.item i :: rest) part) (full : r.full = false) (bounded : r.bounded = false) :
    Dealt a owes most rest (r.search a met part needle) := by
  have inside : part ≤ i.parts.length := by
    rcases Nat.eq_zero_or_pos part with none_ | some_
    · rw [none_]
      exact Nat.zero_le _
    · obtain ⟨j, more, e, le, -⟩ := h.place.inside some_
      cases e
      exact le
  unfold Reading.search
  dsimp only
  rw [header_of of]
  split
  · rename_i held
    refine showItem_dealt h ?_ of full bounded
    unfold Asked.wants
    rw [hn, Option.all_some, Bool.or_eq_true]
    exact .inl held
  · rename_i unheld
    have header : part = 0 → i.headerHolds a.out needle = false := fun none_ => by
      cases hh : i.headerHolds a.out needle with
      | false => rfl
      | true => exact absurd (Bool.and_eq_true_iff.2 ⟨beq_iff_eq.2 none_, hh⟩) unheld
    cases hp : i.parts with
    | nil =>
      rw [partBytes_none of hp]
      dsimp only
      split
      · rename_i stops
        exact .stopped (stopped_of_may h bounded stops)
      · rename_i free
        have wants : a.wants part i = Search.holds needle (folded a.out i.text) := by
          have start : part = 0 := by
            rw [hp] at inside
            exact Nat.le_zero.1 inside
          unfold Asked.wants
          rw [hn, Option.all_some, start, header start, hp]
          rfl
        have there := may_at h met.bytes
        have full := (Reading.may_full a met.bytes r).trans full
        generalize r.may a _ = r₁ at there full free ⊢
        have text : (r₁.wholeRow met).2.item.text = i.text := by
          rw [← of.stored]
          rfl
        rw [text]
        split
        · rename_i found
          exact take_dealt (r := (r₁.wholeRow met).1) (there.same rfl rfl) (wants.trans found)
            (wholeRow_shows of r₁) full (Bool.not_eq_true _ ▸ free)
        · rename_i missing
          exact .done (there.pass (wants.trans (Bool.not_eq_true _ ▸ missing)) (congrArg some of.key) rfl)
            full (Bool.not_eq_true _ ▸ free)
    | cons first parts =>
      have kept : i.parts ≠ [] := by
        rw [hp]
        exact List.cons_ne_nil _ _
      rw [partBytes_some of hp, of.stored]
      dsimp only
      have looked : At a owes most r.looked (.item i :: rest) part := h.same rfl rfl
      cases part with
      | zero => exact searchParts_dealt of hn kept List.drop_zero rfl header looked full bounded
      | succ before =>
        dsimp only
        split
        · rename_i stops
          exact .stopped (stopped_of_may looked bounded stops)
        · rename_i free
          have there := may_at looked tailBytes
          have full := (Reading.may_full a tailBytes r.looked).trans full
          generalize r.looked.may a _ = r₁ at there full free ⊢
          obtain ⟨text, ht⟩ : ∃ text, i.parts[before]? = some text :=
            ⟨_, List.getElem?_eq_getElem inside⟩
          have tail : r₁.readTail met before = (r₁.looked.went (tailOf text),
              some ((before + 1) * historyPart - (tailOf text).length, tailOf text)) := by
            unfold Reading.readTail
            rw [of.stored, ht]
          rw [tail]
          exact searchParts_dealt (r := r₁.looked.went (tailOf text)) of hn kept rfl
            (previous_tail kept ht (by have := (short needle hn).2; omega)) header (there.same rfl rfl)
            full (Bool.not_eq_true _ ▸ free)

end History
end ConsensFlow
