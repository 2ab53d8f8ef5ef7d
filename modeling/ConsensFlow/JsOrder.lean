/-
  File:      ConsensFlow/JsOrder.lean
  Subject:   JAVASCRIPT'S KEY ORDER (`cf-base`: `json.rs`: `js_order`; `js.rs`: `stringify`).

  * `enumerated`, `writeJson`, `stringify` -- the writer, which sorts each object's keys as it
    writes them; how a number is written is a parameter;
  * `arrayIndex_some` -- the keys that are array indices are the numerals below `2 ^ 32 - 1`;
  * `inEnumerationOrder_eq` -- both put a key where its rank sorts it, and move no two of one rank;
  * `Ordered` -- a value beside itself in that order, at every level;
  * **`js_order_is_canonical`** -- ordering twice is ordering once, loses and doubles no member, and
    changes nothing that is written.
-/
import ConsensFlow.Lib.Json
import ConsensFlow.Lib.Text
import ConsensFlow.Lib.Stable
import ConsensFlow.Lib.Digits

namespace ConsensFlow.JsOrder

open Lib.Json Lib.Json.Value Lib.Stable

/-! ## 1. The writer -/

/-- Where JavaScript enumerates a key: the array indices by their number, the others behind them. -/
def rank (key : String) : Nat ×ₗ Nat :=
  match arrayIndex key with
  | some index => toLex (0, index)
  | none => toLex (1, 0)

variable {α : Type}

/-- An object's entries in the order JavaScript enumerates them. -/
def enumerated (entries : List (String × α)) : List (String × α) :=
  if entries.any fun entry => (arrayIndex entry.1).isSome then
    sortByKey (fun entry => rank entry.1) entries
  else entries

section Writer

variable (numberText : Rat → List Char) (indent : List Char)

/-- Before a member or an item: nothing where the text is compact, else a line at its depth. -/
def openLine (depth : Nat) : List Char :=
  if indent = [] then [] else '\n' :: (List.replicate depth indent).flatten

/-- Items between brackets, each on a line of its own. -/
def bracketed (opening closing : Char) (depth : Nat) (items : List (List Char)) : List Char :=
  [opening] ++ [','].intercalate (items.map (openLine indent (depth + 1) ++ ·)) ++
    (if items = [] then [] else openLine indent depth) ++ [closing]

mutual

def writeJson (depth : Nat) : Value → List Char
  | .null => "null".toList
  | .bool flag => if flag then "true".toList else "false".toList
  | .number value => numberText value
  | .string text => (Lib.Text.quoted text).toList
  | .array items => bracketed indent '[' ']' depth (writeItems depth items)
  | .object fields => bracketed indent openBrace closeBrace depth
      ((enumerated (writeFields depth fields)).map fun (key, item) =>
        (Lib.Text.quoted key).toList ++ ':' :: (if indent = [] then [] else [' ']) ++ item)

def writeItems (depth : Nat) : List Value → List (List Char)
  | [] => []
  | item :: items => writeJson (depth + 1) item :: writeItems depth items

/-- Each field with what its value is written as. -/
def writeFields (depth : Nat) : List (String × Value) → List (String × List Char)
  | [] => []
  | (key, item) :: fields => (key, writeJson (depth + 1) item) :: writeFields depth fields

end

def stringify (value : Value) : List Char := writeJson numberText [] 0 value

def stringifyIndented (value : Value) (spaces : Nat) : List Char :=
  writeJson numberText (List.replicate spaces ' ') 0 value

end Writer

/-! ## 2. Which keys are array indices -/

section

open Lib.Digits

theorem digitChar_digit {c : Char} (one : c.isDigit = true) : (digit c).digitChar = c := by
  refine Char.toNat_inj.1 ?_
  rw [Nat.toNat_digitChar_of_lt_ten (digit_lt one), digit_toNat one]

/-- Digits without a leading zero are the numeral of their number. -/
theorem toDigits_value {cs : List Char} (digits : ∀ c ∈ cs, c.isDigit = true) (some_ : cs ≠ [])
    (lead : cs = ['0'] ∨ cs.head? ≠ some '0') : Nat.toDigits 10 (value cs) = cs := by
  induction cs using List.reverseRecOn with
  | nil => exact absurd rfl some_
  | append_singleton front c ih =>
    have last : c.isDigit = true := digits c (List.mem_append_right _ List.mem_cons_self)
    have single : value [c] = digit c := by rw [value_cons]; simp [value]
    have sum : value (front ++ [c]) = 10 * value front + digit c := by
      rw [value_append, single]
      rfl
    rw [sum]
    cases front with
    | nil =>
      have none_ : value [] = 0 := rfl
      rw [none_, Nat.mul_zero, Nat.zero_add, Nat.toDigits_of_lt_base (digit_lt last),
        digitChar_digit last]
      rfl
    | cons d front =>
      have lead' : (d :: front).head? ≠ some '0' := by
        rcases lead with same | other
        · have long := congrArg List.length same
          simp at long
        · exact other
      have before := ih (fun e one => digits e (List.mem_append_left _ one))
        (List.cons_ne_nil _ _) (.inr lead')
      have positive : 0 < value (d :: front) := by
        by_contra zero
        rw [Nat.eq_zero_of_not_pos zero, Nat.toDigits_zero] at before
        rw [← before] at lead'
        exact lead' rfl
      rw [← Nat.toDigits_append_toDigits (by decide) positive (digit_lt last), before,
        Nat.toDigits_of_lt_base (digit_lt last), digitChar_digit last]

/-- A numeral has no leading zero but that of zero. -/
theorem toDigits_head {n : Nat} (positive : 0 < n) : (Nat.toDigits 10 n).head? ≠ some '0' := by
  induction n using Nat.strongRecOn with
  | ind n ih =>
    rcases Nat.lt_or_ge n 10 with low | high
    · rw [Nat.toDigits_of_lt_base low, List.head?_cons]
      intro zero
      have same := Nat.toNat_digitChar_of_lt_ten low
      rw [Option.some.inj zero] at same
      have zero' : '0'.toNat = 48 := rfl
      omega
    · have before := ih (n / 10) (by omega) (by omega)
      rw [Nat.toDigits_of_base_le (by decide) high, List.head?_append]
      cases front : Nat.toDigits 10 (n / 10) with
      | nil => exact absurd front Nat.toDigits_ne_nil
      | cons d front' =>
        rw [front] at before
        exact before

theorem startsWith_zero (key : String) :
    key.startsWith "0" = true ↔ key.toList.head? = some '0' := by
  rw [String.startsWith_string_iff]
  have zero : "0".toList = ['0'] := String.toList_ofList
  rw [zero, List.head?_eq_some_iff]
  constructor
  · rintro ⟨rest, same⟩
    exact ⟨rest, same.symm⟩
  · rintro ⟨rest, same⟩
    exact ⟨rest, same.symm⟩

/-- What a key that is digits reads as. -/
theorem toNat?_digits {key : String} (some_ : key ≠ "")
    (digits : ∀ c ∈ key.toList, c.isDigit = true) : key.toNat? = some (value key.toList) := by
  have under : '_' ∉ key.toList := fun one => absurd (digits '_' one) (by decide)
  rw [String.toNat?_eq_some_ofDigitChars (String.isNat_of_isDigit some_ digits),
    List.filter_bne_eq_self_of_not_mem under]
  rfl

/-- **The keys that are array indices** are the numerals below `2 ^ 32 - 1`, as JavaScript writes
    numbers. -/
theorem arrayIndex_some {key : String} {index : Nat} :
    arrayIndex key = some index ↔ key = Nat.repr index ∧ index < 2 ^ 32 - 1 := by
  have canonical : (!key.isEmpty && key.toList.all Char.isDigit &&
      (key == "0" || !key.startsWith "0")) = true ↔
      key ≠ "" ∧ (∀ c ∈ key.toList, c.isDigit = true) ∧
        (key.toList = ['0'] ∨ key.toList.head? ≠ some '0') := by
    have zero : "0".toList = ['0'] := String.toList_ofList
    have lead : key.startsWith "0" = false ↔ key.toList.head? ≠ some '0' := by
      rw [← Bool.not_eq_true, startsWith_zero]
    rw [Bool.and_eq_true_iff, Bool.and_eq_true_iff, Bool.or_eq_true_iff, List.all_eq_true,
      Bool.not_eq_true', Bool.not_eq_true', beq_iff_eq, ← String.toList_inj, zero, and_assoc, lead]
    exact and_congr (by simp) Iff.rfl
  unfold arrayIndex
  constructor
  · intro h
    split at h
    · rename_i may
      obtain ⟨some_, digits, lead⟩ := canonical.1 may
      rw [toNat?_digits some_ digits] at h
      obtain ⟨same, fits⟩ := Option.filter_eq_some_iff.1 h
      have same := Option.some.inj same
      refine ⟨?_, of_decide_eq_true fits⟩
      rw [← String.toList_inj, Nat.toList_repr, ← same]
      have some' : key.toList ≠ [] := mt String.toList_eq_nil_iff.1 some_
      exact (toDigits_value digits some' lead).symm
    · cases h
  · rintro ⟨rfl, fits⟩
    have may : index.repr ≠ "" ∧ (∀ c ∈ index.repr.toList, c.isDigit = true) ∧
        (index.repr.toList = ['0'] ∨ index.repr.toList.head? ≠ some '0') := by
      rw [← String.toList_eq_nil_iff.ne, Nat.toList_repr]
      refine ⟨Nat.toDigits_ne_nil, fun c one => ?_, ?_⟩
      · exact Nat.isDigit_of_mem_toDigits (by decide) (by decide) one
      · rcases Nat.eq_zero_or_pos index with rfl | positive
        · exact .inl (Nat.toDigits_zero 10)
        · exact .inr (toDigits_head positive)
    rw [if_pos (canonical.2 may), Nat.toNat?_repr]
    exact Option.filter_eq_some_iff.2 ⟨rfl, decide_eq_true fits⟩

end

/-! ## 3. One order -/

/-- Keys of one rank are array indices of one number, or none is one. -/
theorem rank_eq_index {key : String} {index : Nat} :
    rank key = toLex (0, index) ↔ arrayIndex key = some index := by
  unfold rank
  cases arrayIndex key with
  | none => simp
  | some found => simp

theorem enumerated_eq (entries : List (String × α)) :
    enumerated entries = sortByKey (fun entry => rank entry.1) entries := by
  unfold enumerated
  split
  · rfl
  · rename_i none_
    refine (sortByKey_of_sorted (List.pairwise_of_forall_mem_list fun a ha b hb => ?_)).symm
    have other {entry : String × α} (one : entry ∈ entries) : rank entry.1 = toLex (1, 0) := by
      have none' : arrayIndex entry.1 = none := by
        by_contra index
        exact none_ (List.any_eq_true.2 ⟨entry, one, Option.isSome_iff_ne_none.2 index⟩)
      unfold rank
      rw [none']
    rw [other ha, other hb]

variable {index : Nat} {field : String × Value} {done : List (Nat × String × Value)}

theorem mem_placed {entry : Nat × String × Value} (one : entry ∈ placed index field done) :
    entry = (index, field) ∨ entry ∈ done := by
  induction done with
  | nil => exact .inl (List.mem_singleton.1 one)
  | cons known rest ih =>
    obtain ⟨known, other⟩ := known
    rw [placed] at one
    split at one
    · rcases List.mem_cons.1 one with rfl | one
      · exact .inr List.mem_cons_self
      · exact (ih one).imp id (List.mem_cons_of_mem _)
    · exact (List.mem_cons.1 one).imp id id

theorem placed_sorted (sorted : Ascending Prod.fst done) :
    Ascending Prod.fst (placed index field done) := by
  induction done with
  | nil => exact List.pairwise_singleton _ _
  | cons known rest ih =>
    obtain ⟨known, other⟩ := known
    obtain ⟨least, after⟩ := List.pairwise_cons.1 sorted
    rw [placed]
    split
    · rename_i before
      refine List.pairwise_cons.2 ⟨fun entry one => ?_, ih after⟩
      rcases mem_placed one with rfl | one
      · exact before
      · exact least entry one
    · rename_i behind
      refine List.pairwise_cons.2 ⟨fun entry one => ?_, sorted⟩
      rcases List.mem_cons.1 one with rfl | one
      · exact Nat.le_of_not_le behind
      · exact (Nat.le_of_not_le behind).trans (least entry one)

/-- What is put among ascending indices is last of its own. -/
theorem placed_filter (sorted : Ascending Prod.fst done) (k : Nat) :
    (placed index field done).filter (fun entry => entry.1 = k) =
      (done.filter fun entry => entry.1 = k) ++ (if index = k then [(index, field)] else []) := by
  induction done with
  | nil =>
    by_cases own : index = k <;> simp [placed, own]
  | cons known rest ih =>
    obtain ⟨known, other⟩ := known
    obtain ⟨least, after⟩ := List.pairwise_cons.1 sorted
    rw [placed]
    split
    · rw [List.filter_cons, ih after, List.filter_cons]
      split
      · rfl
      · rfl
    · rename_i behind
      by_cases own : index = k
      · have none_ : ((known, other) :: rest).filter (fun entry => entry.1 = k) = [] := by
          refine List.filter_eq_nil_iff.2 fun entry one => ?_
          have far : known ≤ entry.1 := by
            rcases List.mem_cons.1 one with rfl | one
            · exact Nat.le_refl _
            · exact least entry one
          have apart : entry.1 ≠ k := by omega
          simpa using apart
        rw [List.filter_cons_of_pos (by simp [own]), none_, if_pos own]
        rfl
      · rw [List.filter_cons_of_neg (by simp [own]), if_neg own, List.append_nil]

/-- The fields whose keys are array indices, each with its own. -/
theorem indices_spec (fields : Fields) (done : List (Nat × String × Value))
    (sorted : Ascending Prod.fst done) :
    Ascending Prod.fst (fields.foldl (fun done field =>
        match arrayIndex field.1 with
        | some index => placed index field done
        | none => done) done) ∧
      ∀ k, (fields.foldl (fun done field =>
          match arrayIndex field.1 with
          | some index => placed index field done
          | none => done) done).filter (fun entry => entry.1 = k) =
        (done.filter fun entry => entry.1 = k) ++
          (fields.filter fun field => arrayIndex field.1 = some k).map fun field => (k, field) := by
  induction fields generalizing done with
  | nil => exact ⟨sorted, fun k => (List.append_nil _).symm⟩
  | cons field fields ih =>
    rw [List.foldl_cons]
    cases own : arrayIndex field.1 with
    | none =>
      dsimp only
      obtain ⟨sorted', own'⟩ := ih done sorted
      refine ⟨sorted', fun k => ?_⟩
      rw [own' k, List.filter_cons_of_neg (by simp [own])]
    | some index =>
      dsimp only
      obtain ⟨sorted', own'⟩ := ih _ (placed_sorted sorted)
      refine ⟨sorted', fun k => ?_⟩
      rw [own' k, placed_filter sorted k]
      by_cases same : index = k
      · rw [if_pos same, List.filter_cons_of_pos (by simp [own, same]), List.append_assoc, same]
        rfl
      · rw [if_neg same, List.append_nil, List.filter_cons_of_neg (by simp [own, same])]

/-- **A key is put where its rank sorts it**, and no two of one rank change places. -/
theorem inEnumerationOrder_eq (fields : Fields) :
    inEnumerationOrder fields = sortByKey (fun field => rank field.1) fields := by
  obtain ⟨sorted, own⟩ := indices_spec fields [] List.Pairwise.nil
  unfold inEnumerationOrder
  dsimp only
  generalize fields.foldl _ [] = indices at sorted own ⊢
  have mine {entry : Nat × String × Value} (one : entry ∈ indices) :
      arrayIndex entry.2.1 = some entry.1 := by
    have in_ : entry ∈ indices.filter fun other => other.1 = entry.1 :=
      List.mem_filter.2 ⟨one, by simp⟩
    rw [own] at in_
    obtain ⟨field, in_, same⟩ := List.mem_map.1 in_
    rw [← same]
    exact of_decide_eq_true (List.mem_filter.1 in_).2
  have last {field : String × Value}
      (one : field ∈ fields.filter fun field => (arrayIndex field.1).isNone) :
      rank field.1 = toLex (1, 0) := by
    have none_ := Option.isNone_iff_eq_none.1 (List.mem_filter.1 one).2
    rw [rank, none_]
  refine (sortByKey_eq ?_ fun k => ?_).symm
  · refine List.pairwise_append.2 ⟨?_, ?_, ?_⟩
    · refine List.pairwise_map.2 (List.Pairwise.imp_of_mem (fun ha hb less => ?_) sorted)
      dsimp only
      rw [rank_eq_index.2 (mine ha), rank_eq_index.2 (mine hb), Prod.Lex.toLex_le_toLex]
      exact .inr ⟨rfl, less⟩
    · refine List.pairwise_of_forall_mem_list fun a ha b hb => ?_
      dsimp only
      rw [last ha, last hb]
    · intro a ha b hb
      obtain ⟨entry, one, rfl⟩ := List.mem_map.1 ha
      dsimp only
      rw [rank_eq_index.2 (mine one), last hb, Prod.Lex.toLex_le_toLex]
      exact .inl Nat.one_pos
  · rw [List.filter_append]
    by_cases index : ∃ i, k = toLex (0, i)
    · obtain ⟨i, rfl⟩ := index
      have named : (fields.filter fun field => (arrayIndex field.1).isNone).filter
          (fun field => decide (rank field.1 = toLex (0, i))) = [] := by
        refine List.filter_eq_nil_iff.2 fun field one => ?_
        rw [last one]
        simp
      have found : (indices.map (·.2)).filter (fun field => decide (rank field.1 = toLex (0, i))) =
          fields.filter fun field => decide (rank field.1 = toLex (0, i)) := by
        have test : indices.filter ((fun field => decide (rank field.1 = toLex (0, i))) ∘ (·.2)) =
            indices.filter fun entry => entry.1 = i := by
          refine List.filter_congr fun entry one => decide_eq_decide.2 ?_
          rw [rank_eq_index.2 (mine one)]
          simp
        rw [List.filter_map, test, own i, List.filter_nil, List.nil_append, List.map_map]
        refine (List.map_id _).trans (List.filter_congr fun field _ => decide_eq_decide.2 ?_)
        exact rank_eq_index.symm
      rw [named, found, List.append_nil]
    · have indexed : (indices.map (·.2)).filter (fun field => decide (rank field.1 = k)) = [] := by
        refine List.filter_eq_nil_iff.2 fun field one => ?_
        obtain ⟨entry, in_, rfl⟩ := List.mem_map.1 one
        refine fun same => index ⟨entry.1, ?_⟩
        rw [← of_decide_eq_true same, rank_eq_index.2 (mine in_)]
      rw [indexed, List.nil_append, List.filter_filter]
      refine List.filter_congr fun field _ => Bool.eq_iff_iff.2 ?_
      rw [Bool.and_eq_true_iff, decide_eq_true_iff]
      refine ⟨And.left, fun same => ⟨same, Option.isNone_iff_eq_none.2 ?_⟩⟩
      cases own' : arrayIndex field.1 with
      | none => rfl
      | some i => exact absurd ⟨i, same.symm.trans (rank_eq_index.2 own')⟩ index

/-! ## 4. Twice is once -/

theorem jsOrderFields_eq (fields : Fields) :
    jsOrderFields fields = fields.map fun field => (field.1, jsOrder field.2) := by
  induction fields with
  | nil => rfl
  | cons field fields ih =>
    obtain ⟨key, value⟩ := field
    rw [jsOrderFields, ih, List.map_cons]

/-- What the values are does not move the fields. -/
theorem sortByKey_values {β : Type} (f : α → β) (fields : List (String × α)) :
    sortByKey (fun field : String × β => rank field.1)
        (fields.map fun field => (field.1, f field.2)) =
      (sortByKey (fun field : String × α => rank field.1) fields).map
        fun field => (field.1, f field.2) := by
  exact @sortByKey_map (String × α) (String × β) _ _ (fun field => rank field.1)
    (fun field => rank field.1) (fun field => (field.1, f field.2)) (fun _ => rfl) fields

/-- Fields are ordered before or after their values are. -/
theorem jsOrderFields_inEnumerationOrder (fields : Fields) :
    jsOrderFields (inEnumerationOrder fields) = inEnumerationOrder (jsOrderFields fields) := by
  rw [inEnumerationOrder_eq, inEnumerationOrder_eq, jsOrderFields_eq, jsOrderFields_eq]
  exact (sortByKey_values jsOrder fields).symm

theorem inEnumerationOrder_again (fields : Fields) :
    inEnumerationOrder (inEnumerationOrder fields) = inEnumerationOrder fields := by
  rw [inEnumerationOrder_eq, inEnumerationOrder_eq,
    sortByKey_of_sorted (sortByKey_sorted _ fields)]

mutual

/-- **Ordering twice is ordering once.** -/
theorem jsOrder_again : ∀ value : Value, jsOrder (jsOrder value) = jsOrder value
  | .null | .bool _ | .number _ | .string _ => rfl
  | .array items => congrArg Value.array (jsOrderItems_again items)
  | .object fields => by
    show Value.object (inEnumerationOrder (jsOrderFields (inEnumerationOrder _))) =
      .object (inEnumerationOrder _)
    rw [jsOrderFields_inEnumerationOrder, inEnumerationOrder_again, jsOrderFields_again fields]

theorem jsOrderItems_again : ∀ items : List Value,
    jsOrderItems (jsOrderItems items) = jsOrderItems items
  | [] => rfl
  | item :: items => by
    rw [jsOrderItems, jsOrderItems, jsOrder_again item, jsOrderItems_again items]

theorem jsOrderFields_again : ∀ fields : List (String × Value),
    jsOrderFields (jsOrderFields fields) = jsOrderFields fields
  | [] => rfl
  | (key, value) :: fields => by
    rw [jsOrderFields, jsOrderFields, jsOrder_again value, jsOrderFields_again fields]

end

/-! ## 5. The same members -/

mutual

/-- A value beside itself in JavaScript's order: of each object, the members whose keys are array
    indices, each once, ascending, and behind them the others as they were. -/
inductive Ordered : Value → Value → Prop
  | null : Ordered .null .null
  | bool (flag : Bool) : Ordered (.bool flag) (.bool flag)
  | number (value : Rat) : Ordered (.number value) (.number value)
  | string (text : String) : Ordered (.string text) (.string text)
  | array {items items' : List Value} (each : OrderedItems items items') :
      Ordered (.array items) (.array items')
  | object {fields held indices : List (String × Value)} (each : OrderedFields fields held)
      (all : indices.Perm (held.filter fun field => (arrayIndex field.1).isSome))
      (ascending : indices.Pairwise fun field next => ∀ i j, arrayIndex field.1 = some i →
        arrayIndex next.1 = some j → i ≤ j) :
      Ordered (.object fields)
        (.object (indices ++ held.filter fun field => (arrayIndex field.1).isNone))

inductive OrderedItems : List Value → List Value → Prop
  | nil : OrderedItems [] []
  | cons {item item' : Value} {items items' : List Value} (one : Ordered item item')
      (rest : OrderedItems items items') : OrderedItems (item :: items) (item' :: items')

/-- The same keys in the same order, each with its value ordered. -/
inductive OrderedFields : List (String × Value) → List (String × Value) → Prop
  | nil : OrderedFields [] []
  | cons {key : String} {value value' : Value} {fields fields' : List (String × Value)}
      (one : Ordered value value') (rest : OrderedFields fields fields') :
      OrderedFields ((key, value) :: fields) ((key, value') :: fields')

end

/-- The fields in order are the indexed ones, ascending, and the others as they were. -/
theorem inEnumerationOrder_parts (fields : Fields) : ∃ indices,
    inEnumerationOrder fields =
        indices ++ fields.filter (fun field => (arrayIndex field.1).isNone) ∧
      indices.Perm (fields.filter fun field => (arrayIndex field.1).isSome) ∧
      indices.Pairwise fun field next => ∀ i j, arrayIndex field.1 = some i →
        arrayIndex next.1 = some j → i ≤ j := by
  have perm := sortByKey_perm (fun field : String × Value => rank field.1) fields
  have sorted := sortByKey_sorted (fun field : String × Value => rank field.1) fields
  rw [← inEnumerationOrder_eq] at perm sorted
  unfold inEnumerationOrder at perm sorted ⊢
  dsimp only at perm sorted ⊢
  generalize (fields.foldl _ []).map _ = indices at perm sorted ⊢
  refine ⟨indices, rfl, ?_, ?_⟩
  · have split_ := List.filter_append_perm (fun field : String × Value =>
      (arrayIndex field.1).isSome) fields
    have test : (fun field : String × Value => !(arrayIndex field.1).isSome) =
        fun field => (arrayIndex field.1).isNone := by
      funext field
      cases arrayIndex field.1 <;> rfl
    rw [test] at split_
    exact (List.perm_append_right_iff _).1 (perm.trans split_.symm)
  · refine (List.pairwise_append.1 sorted).1.imp fun less i j own own' => ?_
    dsimp only at less
    rw [rank_eq_index.2 own, rank_eq_index.2 own', Prod.Lex.toLex_le_toLex] at less
    rcases less with less | less
    · exact absurd less (Nat.lt_irrefl 0)
    · exact less.2

mutual

/-- **Ordering loses and doubles no member**, at any level. -/
theorem jsOrder_ordered : ∀ value : Value, Ordered value (jsOrder value)
  | .null => .null
  | .bool flag => .bool flag
  | .number value => .number value
  | .string text => .string text
  | .array items => .array (jsOrderItems_ordered items)
  | .object fields => by
    obtain ⟨indices, parts, all, ascending⟩ := inEnumerationOrder_parts (jsOrderFields fields)
    rw [jsOrder, parts]
    exact .object (jsOrderFields_ordered fields) all ascending

theorem jsOrderItems_ordered : ∀ items : List Value, OrderedItems items (jsOrderItems items)
  | [] => .nil
  | item :: items => .cons (jsOrder_ordered item) (jsOrderItems_ordered items)

theorem jsOrderFields_ordered : ∀ fields : List (String × Value),
    OrderedFields fields (jsOrderFields fields)
  | [] => .nil
  | (_, value) :: fields => .cons (jsOrder_ordered value) (jsOrderFields_ordered fields)

end

/-! ## 6. The same text -/

section

variable (numberText : Rat → List Char) (indent : List Char)

theorem writeFields_eq (depth : Nat) (fields : List (String × Value)) :
    writeFields numberText indent depth fields =
      fields.map fun field => (field.1, writeJson numberText indent (depth + 1) field.2) := by
  induction fields with
  | nil => rfl
  | cons field fields ih =>
    obtain ⟨key, value⟩ := field
    rw [writeFields, ih, List.map_cons]

/-- Fields in order are enumerated as they were before. -/
theorem enumerated_inEnumerationOrder (depth : Nat) (fields : Fields) :
    enumerated (writeFields numberText indent depth (inEnumerationOrder fields)) =
      enumerated (writeFields numberText indent depth fields) := by
  rw [enumerated_eq, enumerated_eq, writeFields_eq, writeFields_eq, inEnumerationOrder_eq,
    sortByKey_values, sortByKey_values, sortByKey_of_sorted (sortByKey_sorted _ fields)]

mutual

/-- **An ordered value is written as it was**, at any depth and indent. -/
theorem writeJson_jsOrder : ∀ (depth : Nat) (value : Value),
    writeJson numberText indent depth (jsOrder value) = writeJson numberText indent depth value
  | _, .null | _, .bool _ | _, .number _ | _, .string _ => rfl
  | depth, .array items => by
    rw [jsOrder, writeJson, writeJson, writeItems_jsOrder depth items]
  | depth, .object fields => by
    rw [jsOrder, writeJson, writeJson, enumerated_inEnumerationOrder,
      writeFields_jsOrder depth fields]

theorem writeItems_jsOrder : ∀ (depth : Nat) (items : List Value),
    writeItems numberText indent depth (jsOrderItems items) =
      writeItems numberText indent depth items
  | _, [] => rfl
  | depth, item :: items => by
    rw [jsOrderItems, writeItems, writeItems, writeJson_jsOrder (depth + 1) item,
      writeItems_jsOrder depth items]

theorem writeFields_jsOrder : ∀ (depth : Nat) (fields : List (String × Value)),
    writeFields numberText indent depth (jsOrderFields fields) =
      writeFields numberText indent depth fields
  | _, [] => rfl
  | depth, (key, value) :: fields => by
    rw [jsOrderFields, writeFields, writeFields, writeJson_jsOrder (depth + 1) value,
      writeFields_jsOrder depth fields]

end

end

/-- **JavaScript's key order is canonical.** For every value, ordering it twice is ordering it once;
    it keeps the members of every object, those whose keys are array indices first, ascending, and
    the others as they were; and it is written as it was before, whatever numbers are written as.
    The array indices are the numerals below `2 ^ 32 - 1`. -/
theorem js_order_is_canonical (numberText : Rat → List Char) :
    (∀ value, jsOrder (jsOrder value) = jsOrder value) ∧
    (∀ value, Ordered value (jsOrder value)) ∧
    (∀ value, stringify numberText value = stringify numberText (jsOrder value)) ∧
    ∀ key index, arrayIndex key = some index ↔ key = Nat.repr index ∧ index < 2 ^ 32 - 1 :=
  ⟨jsOrder_again, jsOrder_ordered, fun value => (writeJson_jsOrder numberText [] 0 value).symm,
    fun _ _ => arrayIndex_some⟩

end ConsensFlow.JsOrder
