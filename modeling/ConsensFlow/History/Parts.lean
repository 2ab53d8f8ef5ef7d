/-
  File:      ConsensFlow/History/Parts.lean
  Subject:   AN ITEM SEARCHED A PART AT A TIME holds the words where its header or its whole text does,
             wherever a part begins.

  * `Copied.holds` -- whether an item holds the words; `Asked.wants` -- whether it does from a part of
    it on; **`wants_start`**: from its start, the two are one;
  * `Shows` -- an entry of a page shows the item: whole, or the part of it the entry says.
-/
import ConsensFlow.History.Reading

namespace ConsensFlow
namespace History

open Lib Lib.Lines Lib.Search

/-! ## 1. The parts of an item -/

theorem chunks_few {text : Text} (h : (chunks historyPart text).length < 2) :
    text.length ≤ historyPart := by
  have whole := chunks_flatten historyPart text
  have short := (chunks_length (by decide : 0 < historyPart) text).2
  match hc : chunks historyPart text with
  | [] =>
    rw [hc] at whole
    rw [← whole]
    exact Nat.zero_le _
  | [piece] =>
    rw [hc] at whole
    rw [← whole, List.flatten_cons, List.flatten_nil, List.append_nil]
    exact short piece (by rw [hc]; exact List.mem_cons_self)
  | _ :: _ :: _ =>
    rw [hc, List.length_cons, List.length_cons] at h
    omega

/-- The parts of an item kept in parts: its text, in pieces of one length but for the last. -/
theorem parts_spec {i : Copied} (kept : i.parts ≠ []) : i.parts.flatten = i.text ∧
    (∀ part ∈ i.parts.dropLast, part.length = historyPart) ∧
      ∀ part ∈ i.parts, part.length ≤ historyPart := by
  unfold Copied.parts partsOf at kept ⊢
  dsimp only at kept ⊢
  split
  · rename_i few
    rw [if_pos few] at kept
    split
    · refine ⟨by rw [List.flatten_cons, List.flatten_nil, List.append_nil],
        fun _ h => absurd h List.not_mem_nil, fun part h => ?_⟩
      cases List.mem_singleton.1 h
      exact chunks_few few
    · rename_i none_
      rw [if_neg none_] at kept
      exact absurd rfl kept
  · exact ⟨chunks_flatten _ _, chunks_length (by decide) _⟩

/-- A text longer than a part is kept in two parts at least. -/
theorem parts_many {i : Copied} (long : historyPart < i.text.length) : 1 < i.parts.length := by
  have many : ¬(chunks historyPart i.text).length < 2 := by
    intro few
    exact Nat.not_lt.2 (chunks_few few) long
  have kept : i.parts = chunks historyPart i.text := if_neg many
  rw [kept]
  omega

/-- The part before part `part`. -/
def Copied.before (i : Copied) : Nat → Text
  | 0 => []
  | part + 1 => i.parts[part]?.getD []

/-! ## 2. The words in an item -/

def Copied.headerHolds (out : Outside) (needle : Text) (i : Copied) : Bool :=
  (i.detail.bind ItemDetail.header).any fun header => Search.holds needle (folded out header)

/-- Whether an item holds the words `find`, in any case: in its header, or in its text. -/
def Copied.holds (out : Outside) (find : Option Text) (i : Copied) : Bool :=
  find.all fun find => find.isEmpty || i.headerHolds out (folded out find) ||
    Search.holds (folded out find) (folded out i.text)

/-- An item whose text holds the words, folded. -/
theorem holds_of_text {out : Outside} {find : Text} {i : Copied} {before after : Text}
    (inside : folded out i.text = before ++ (folded out find ++ after)) :
    i.holds out (some find) = true := by
  have text : Search.holds (folded out find) (folded out i.text) = true := by
    rw [holds_iff, inside]
    exact ⟨before, after, List.append_assoc _ _ _⟩
  unfold Copied.holds
  rw [Option.all_some, text, Bool.or_true]

namespace Asked

/-- Whether a read wants an item from part `part` of it on. -/
def wants (a : Asked) (part : Nat) (i : Copied) : Bool :=
  a.needle.all fun needle => (part == 0 && i.headerHolds a.out needle) ||
    if i.parts.isEmpty then Search.holds needle (folded a.out i.text)
    else foundIn a.out.lower needle (needle.length - 1) (i.before part) (i.parts.drop part)

/-- What a search was let hold: words, of which a part holds more. -/
def Short (a : Asked) : Prop :=
  ∀ needle, a.needle = some needle → needle ≠ [] ∧ needle.length ≤ partTail

end Asked

theorem folded_short (out : Outside) (text : Text) : (folded out text).length ≤ 2 * text.length := by
  induction text with
  | nil => exact Nat.le_refl _
  | cons c text ih =>
    have one := out.lower_short c
    have all : folded out (c :: text) = out.lower c ++ folded out text := rfl
    rw [all, List.length_append, List.length_cons]
    omega

/-- A search of at most 1,000 characters holds at most 2,000 folded. -/
theorem asked_short {out : Outside} {copy : Copy} {participant : Nat} {ask : HistoryAsk}
    (short : (ask.find.map List.length).getD 0 ≤ historyFindMax) :
    (ask.asked out copy participant).Short := by
  intro needle h
  have h : (ask.find.filter (!·.isEmpty)).map (folded out) = some needle := h
  obtain ⟨find, hf, rfl⟩ := Option.map_eq_some_iff.1 h
  obtain ⟨hfind, some_⟩ := Option.filter_eq_some_iff.1 hf
  rw [hfind, Option.map_some, Option.getD_some] at short
  have most := folded_short out find
  have max : historyFindMax = 1000 := rfl
  have tail : partTail = 2000 := rfl
  refine ⟨fun none_ => ?_, by omega⟩
  cases find with
  | nil => cases some_
  | cons c find =>
    have all : folded out (c :: find) = out.lower c ++ folded out find := rfl
    rw [all] at none_
    exact out.lower_some c (List.append_eq_nil_iff.1 none_).1

/-- **A read wants an item from its start where the item holds the words**, however its text is kept. -/
theorem wants_start {a : Asked} (short : a.Short) (i : Copied) :
    a.wants 0 i = a.needle.all fun needle =>
      i.headerHolds a.out needle || Search.holds needle (folded a.out i.text) := by
  unfold Asked.wants
  cases hn : a.needle with
  | none => rfl
  | some needle =>
    obtain ⟨said, few⟩ := short needle hn
    rw [Option.all_some, Option.all_some, beq_self_eq_true, Bool.true_and]
    congr 1
    split
    · rfl
    · rename_i kept
      have kept : i.parts ≠ [] := fun none_ => kept (by rw [none_]; rfl)
      obtain ⟨whole, full, -⟩ := parts_spec kept
      rw [List.drop_zero, folded, ← whole]
      refine foundIn_iff a.out.lower_some said (by omega) fun part hp => ?_
      have max : historyPart = 64000 := rfl
      have tail : partTail = 2000 := rfl
      have := full part hp
      omega

/-- A search finds the words where it says where. -/
theorem firstMatch_isSome (out : Outside) (text needle : Text) :
    (firstMatch out text needle).isSome = Search.holds needle (folded out text) := by
  unfold firstMatch Search.holds
  dsimp only
  rw [Option.isSome_map]

/-! ## 3. What an entry shows -/

namespace Copied

/-- An item as a page shows it whole. -/
def shown (i : Copied) : HistoryItem :=
  ⟨shownId i.id, i.role, i.text, i.complete, i.at_, i.compaction,
    i.detail.map fun detail => { detail with diff := i.diff }⟩

end Copied

/-- An entry shows an item, whole or a part of its text. -/
structure Shows (i : Copied) (row : HistoryRow) : Prop where
  key : row.key = ⟨i.conversation, i.row, 0⟩
  item : { row.item with text := i.text } = i.shown
  whole : row.cut = none → row.item.text = i.text
  cut : ∀ cut, row.cut = some cut → cut.bytes = octets i.text ∧ cut.revision = i.revision ∧
    row.item.text <+: i.text.drop cut.start

/-- What a read knows of an item it met. -/
structure Met.Of (met : Met) (i : Copied) : Prop where
  stored : met.stored = i
  key : met.key = ⟨i.conversation, i.row, 0⟩
  item : { met.item with text := i.text } = i.shown
  bytes : met.bytes = octets i.text
  revision : met.revision = i.revision

theorem of_of {i : Copied} (h : i.diff = none) : (Met.of i).Of i := by
  refine ⟨rfl, rfl, ?_, rfl, rfl⟩
  unfold Copied.shown
  rw [h]
  rfl

theorem withDiff_of {i : Copied} {diff : Text} (h : i.diff = some diff) :
    ((Met.of i).withDiff (some diff)).Of i := by
  refine ⟨rfl, rfl, ?_, rfl, rfl⟩
  unfold Copied.shown
  rw [h]
  unfold Met.withDiff Met.of
  dsimp only
  rw [Option.map_map]
  rfl

theorem header_of {met : Met} {i : Copied} (h : met.Of i) :
    met.item.detail.bind ItemDetail.header = i.detail.bind ItemDetail.header := by
  have detail : met.item.detail = i.detail.map fun detail => { detail with diff := i.diff } :=
    congrArg HistoryItem.detail h.item
  rw [detail]
  cases i.detail <;> rfl

theorem wholeRow_shows {met : Met} {i : Copied} (h : met.Of i) (r : Reading) :
    Shows i (r.wholeRow met).2 := by
  obtain ⟨rfl, key, item, -, -⟩ := h
  exact ⟨key, item, fun _ => rfl, fun _ h => nomatch h⟩

theorem longRow_shows {met : Met} {i : Copied} (h : met.Of i) {text : Text} {start : Nat}
    (part : text <+: i.text.drop start) (alone : i.parts.length = 1 → start = 0 → text = i.text) :
    Shows i (longRow met text start) := by
  obtain ⟨rfl, key, item, bytes, revision⟩ := h
  refine ⟨key, item, fun whole => ?_, fun cut hcut => ?_⟩
  · unfold longRow at whole ⊢
    dsimp only at whole ⊢
    split at whole
    · rename_i one
      rw [Bool.and_eq_true, beq_iff_eq, beq_iff_eq] at one
      exact alone one.1 one.2
    · cases whole
  · unfold longRow at hcut ⊢
    dsimp only at hcut ⊢
    split at hcut
    · cases hcut
    · cases hcut
      exact ⟨bytes, revision, part⟩

end History
end ConsensFlow
