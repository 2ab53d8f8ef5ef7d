/-
  File:      ConsensFlow/Keeping.lean
  Subject:   A LINE READ FOR SOME OF IT (`cf-base`: `json/keeping.rs`, `json.rs`).

  * `Reader` -- serde_json's reader of a text, a parameter: what starts a value, whether an item or
    a key follows, what ends a list, an object and the text; how deep it reads and which numbers it
    refuses are its own;
  * `whole`, `kept`, `discard` -- the three visitors that read through it;
  * `project` -- what is kept of a value that was read whole;
  * `settles` -- a reading ends;
  * **`keeping_is_projecting`** -- a line read for some of it is the line read whole and projected,
    and fails where that fails.
-/
import ConsensFlow.JsOrder
import ConsensFlow.Surrogates

namespace ConsensFlow.Keeping

open Lib.Json.Value (arrayIndex)
open Lib.Json (openBrace closeBrace)
open Lib.Stable JsOrder

/-! ## 1. Values and what is kept of them -/

/-- A number as it is held; what a double is, is the reader's. -/
inductive Number (δ : Type) where
  | whole (number : Int)
  | double (number : δ)
deriving DecidableEq

inductive Value (δ : Type) where
  | null
  | bool (flag : Bool)
  | number (number : Number δ)
  | string (text : String)
  | array (items : List (Value δ))
  | object (fields : List (String × Value δ))

/-- What a reading keeps of a value. -/
inductive Keep where
  | all
  | scalar
  | members (entries : List (String × Keep))
  | items (keep : Keep)

/-- The entry a key names, if any. -/
def member (entries : List (String × Keep)) (key : String) : Option Keep :=
  (entries.find? fun entry => entry.1 == key).map (·.2)

/-- `Map::insert`: a key said twice is the later value in the earlier place. -/
def insert {α : Type} (key : String) (value : α) : List (String × α) → List (String × α)
  | [] => [(key, value)]
  | (known, old) :: fields =>
    if known = key then (known, value) :: fields else (known, old) :: insert key value fields

mutual

/-- What is kept of a value that was read whole. -/
def project {δ : Type} (keep : Keep) : Value δ → Value δ
  | .array items =>
    match keep with
    | .all => .array items
    | .items keep => .array (projectItems keep items)
    | _ => .array []
  | .object fields =>
    match keep with
    | .all => .object fields
    | .members entries => .object (projectFields entries fields)
    | _ => .object []
  | value => value

def projectItems {δ : Type} (keep : Keep) : List (Value δ) → List (Value δ)
  | [] => []
  | item :: items => project keep item :: projectItems keep items

def projectFields {δ : Type} (entries : List (String × Keep)) :
    List (String × Value δ) → List (String × Value δ)
  | [] => []
  | (key, value) :: fields =>
    match member entries key with
    | some keep => (key, project keep value) :: projectFields entries fields
    | none => projectFields entries fields

end

/-! ## 2. The reader -/

/-- What `deserialize_any` finds where a value starts, a list's or an object's bracket eaten. -/
inductive Start (δ : Type) where
  | unit
  | bool (flag : Bool)
  | whole (number : Int)
  | double (number : δ)
  | text (text : String)
  | seq
  | map

/-- serde_json's reader of a text, with its states and its errors. What the text may hold, how deep
    it may nest and which numbers are too large is the reader's; nothing it does adds to the text
    that is left, and the start of a value takes some of it. -/
structure Reader (σ δ ε : Type) where
  /-- `Deserializer::from_str`. -/
  fromStr : List Char → σ
  /-- `deserialize_any`, up to the visit. -/
  any : σ → Except ε (Start δ × σ)
  /-- Whether a list has another item; the flag says that none was read of it yet. -/
  nextItem : Bool → σ → Except ε (Bool × σ)
  endSeq : σ → Except ε (Unit × σ)
  /-- The next key of an object. -/
  nextKey : Bool → σ → Except ε (Option String × σ)
  /-- What stands between a key and its value. -/
  colon : σ → Except ε (Unit × σ)
  endMap : σ → Except ε (Unit × σ)
  /-- `Deserializer::end`. -/
  finish : σ → Except ε (Unit × σ)
  /-- `f64::is_finite`. -/
  finite : δ → Bool
  /-- A whole number as a double. -/
  asF64 : Int → δ
  left : σ → Nat
  any_left : ∀ {s s' : σ} {start : Start δ}, any s = .ok (start, s') → left s' < left s
  nextItem_left : ∀ {s s' : σ} {first more : Bool},
    nextItem first s = .ok (more, s') → left s' ≤ left s
  endSeq_left : ∀ {s s' : σ}, endSeq s = .ok ((), s') → left s' ≤ left s
  nextKey_left : ∀ {s s' : σ} {first : Bool} {key : Option String},
    nextKey first s = .ok (key, s') → left s' ≤ left s
  colon_left : ∀ {s s' : σ}, colon s = .ok ((), s') → left s' ≤ left s
  endMap_left : ∀ {s s' : σ}, endMap s = .ok ((), s') → left s' ≤ left s
  finish_left : ∀ {s s' : σ}, finish s = .ok ((), s') → left s' ≤ left s

variable {σ δ ε : Type} (r : Reader σ δ ε)

/-- A reading: none where its steps run out, else what it read or the error it met. -/
abbrev Reading (σ ε α : Type) := StateT σ (ExceptT ε Option) α

def ask {α : Type} (call : σ → Except ε (α × σ)) : Reading σ ε α := fun s => some (call s)

/-- No steps left. -/
def outOfSteps {α : Type} : Reading σ ε α := fun _ => none

/-- `visit_unit`, `visit_bool`, `visit_i64`, `visit_u64`, `visit_f64` and `visit_str` of the two
    visitors that build a value. -/
def scalar : Start δ → Value δ
  | .unit => .null
  | .bool flag => .bool flag
  | .whole number => .number (.whole number)
  | .double number => if r.finite number then .number (.double number) else .null
  | .text text => .string text
  | .seq => .array []
  | .map => .object []

mutual

/-- `Value::deserialize`. -/
def whole : Nat → Reading σ ε (Value δ)
  | 0 => outOfSteps
  | fuel + 1 => do
    match ← ask r.any with
    | .seq =>
      let items ← wholeItems fuel true
      ask r.endSeq
      pure (.array items)
    | .map =>
      let fields ← wholeFields fuel true []
      ask r.endMap
      pure (.object fields)
    | start => pure (scalar r start)

def wholeItems : Nat → Bool → Reading σ ε (List (Value δ))
  | 0, _ => outOfSteps
  | fuel + 1, first => do
    if ← ask (r.nextItem first) then
      let item ← whole fuel
      let items ← wholeItems fuel false
      pure (item :: items)
    else pure []

def wholeFields : Nat → Bool → List (String × Value δ) → Reading σ ε (List (String × Value δ))
  | 0, _, _ => outOfSteps
  | fuel + 1, first, fields => do
    match ← ask (r.nextKey first) with
    | some key =>
      ask r.colon
      let value ← whole fuel
      wholeFields fuel false (insert key value fields)
    | none => pure fields

end

mutual

/-- `Discard`. -/
def discard : Nat → Reading σ ε Unit
  | 0 => outOfSteps
  | fuel + 1 => do
    match ← ask r.any with
    | .seq =>
      discardItems fuel true
      ask r.endSeq
    | .map =>
      discardFields fuel true
      ask r.endMap
    | _ => pure ()

def discardItems : Nat → Bool → Reading σ ε Unit
  | 0, _ => outOfSteps
  | fuel + 1, first => do
    if ← ask (r.nextItem first) then
      discard fuel
      discardItems fuel false
    else pure ()

def discardFields : Nat → Bool → Reading σ ε Unit
  | 0, _ => outOfSteps
  | fuel + 1, first => do
    match ← ask (r.nextKey first) with
    | some _ =>
      ask r.colon
      discard fuel
      discardFields fuel false
    | none => pure ()

end

mutual

/-- `Kept`. -/
def kept : Keep → Nat → Reading σ ε (Value δ)
  | _, 0 => outOfSteps
  | .all, fuel + 1 => whole r (fuel + 1)
  | keep, fuel + 1 => do
    match ← ask r.any with
    | .seq =>
      match keep with
      | .items keep =>
        let items ← keptItems keep fuel true
        ask r.endSeq
        pure (.array items)
      | _ =>
        discardItems r fuel true
        ask r.endSeq
        pure (.array [])
    | .map =>
      match keep with
      | .members entries =>
        let fields ← keptFields entries fuel true []
        ask r.endMap
        pure (.object fields)
      | _ =>
        discardFields r fuel true
        ask r.endMap
        pure (.object [])
    | start => pure (scalar r start)

def keptItems : Keep → Nat → Bool → Reading σ ε (List (Value δ))
  | _, 0, _ => outOfSteps
  | keep, fuel + 1, first => do
    if ← ask (r.nextItem first) then
      let item ← kept keep fuel
      let items ← keptItems keep fuel false
      pure (item :: items)
    else pure []

def keptFields : List (String × Keep) → Nat → Bool → List (String × Value δ) →
    Reading σ ε (List (String × Value δ))
  | _, 0, _, _ => outOfSteps
  | entries, fuel + 1, first, fields => do
    match ← ask (r.nextKey first) with
    | some key =>
      match member entries key with
      | some keep =>
        ask r.colon
        let value ← kept keep fuel
        keptFields entries fuel false (insert key value fields)
      | none =>
        ask r.colon
        discard r fuel
        keptFields entries fuel false fields
    | none => pure fields

end

/-! ## 3. As it is parsed -/

/-- The fields as JavaScript enumerates them: the keys that are array indices first, ascending,
    then the others as written. -/
def inEnumerationOrder {α : Type} (fields : List (String × α)) : List (String × α) :=
  if fields.any fun field => (arrayIndex field.1).isSome then
    let parts := fields.partition fun field => (arrayIndex field.1).isSome
    sortByKey (fun field => (arrayIndex field.1).getD 0) parts.1 ++ parts.2
  else fields

/-- The double an integer past `2 ^ 53` is read as. -/
def pastSafe : Number δ → Option (Number δ)
  | .whole number =>
    if 2 ^ 53 < number.natAbs then
      if r.finite (r.asF64 number) then some (.double (r.asF64 number)) else none
    else none
  | .double _ => none

mutual

def asParsed : Value δ → Value δ
  | .number number => .number ((pastSafe r number).getD number)
  | .array items => .array (asParsedItems items)
  -- The order looks at the keys alone, so the values may be read first.
  | .object fields => .object (inEnumerationOrder (asParsedFields fields))
  | value => value

def asParsedItems : List (Value δ) → List (Value δ)
  | [] => []
  | item :: items => asParsed item :: asParsedItems items

def asParsedFields : List (String × Value δ) → List (String × Value δ)
  | [] => []
  | (key, value) :: fields => (key, asParsed value) :: asParsedFields fields

end

section Lines

variable (fromUtf8Lossy : List UInt8 → List Char)

/-- The text of a line, every lone surrogate's escape replaced. -/
def fixedText (bytes : List UInt8) : Option (List Char) :=
  let text := fromUtf8Lossy bytes
  (Surrogates.withoutLoneSurrogates text).map fun fixed => fixed.getD text

/-- What a visitor reads of a text, read to its end, as it is parsed. -/
def toEnd (reading : Reading σ ε (Value δ)) : Reading σ ε (Value δ) := do
  let value ← reading
  ask r.finish
  pure (asParsed r value)

def readText (visitor : Nat → Reading σ ε (Value δ)) (text : List Char) :
    Option (Except ε (Value δ)) :=
  let s := r.fromStr text
  -- Each value takes some of the text, and so do two steps.
  Option.map (Except.map Prod.fst) (toEnd r (visitor (2 * r.left s + 1)) s)

def fromSliceLossy (bytes : List UInt8) : Option (Except ε (Value δ)) :=
  (fixedText fromUtf8Lossy bytes).bind (readText r (whole r))

def fromSliceLossyKeeping (bytes : List UInt8) (keep : Keep) : Option (Except ε (Value δ)) :=
  (fixedText fromUtf8Lossy bytes).bind (readText r (kept r keep))

end Lines

/-! ## 4. Projecting what is parsed -/

section

variable {α : Type} {fields : List (String × α)} {field : String × α}

/-- The fields whose keys are array indices, ascending. -/
def indices (fields : List (String × α)) : List (String × α) :=
  sortByKey (fun field => (arrayIndex field.1).getD 0)
    (fields.filter fun field => (arrayIndex field.1).isSome)

theorem indices_rank (one : field ∈ indices fields) :
    rank field.1 = toLex (0, (arrayIndex field.1).getD 0) := by
  have some_ := (List.mem_filter.1 ((sortByKey_perm _ _).mem_iff.1 one)).2
  obtain ⟨found, same⟩ := Option.isSome_iff_exists.1 some_
  rw [rank_eq_index, same]
  rfl

theorem named_rank (one : field ∈ fields.filter (not ∘ fun field => (arrayIndex field.1).isSome)) :
    rank field.1 = toLex (1, 0) := by
  have none_ : arrayIndex field.1 = none := by simpa using (List.mem_filter.1 one).2
  rw [rank, none_]

/-- The elements of one rank, among the indices and among the others. -/
theorem ranked_filter (k : Nat ×ₗ Nat) :
    (indices fields ++ fields.filter (not ∘ fun field => (arrayIndex field.1).isSome)).filter
      (fun field => rank field.1 = k) = fields.filter fun field => rank field.1 = k := by
  rw [List.filter_append]
  by_cases index : ∃ i, k = toLex (0, i)
  · obtain ⟨i, rfl⟩ := index
    have named : (fields.filter (not ∘ fun field => (arrayIndex field.1).isSome)).filter
        (fun field => decide (rank field.1 = toLex (0, i))) = [] := by
      refine List.filter_eq_nil_iff.2 fun field one => ?_
      rw [named_rank one]
      simp
    have found : (indices fields).filter (fun field => decide (rank field.1 = toLex (0, i))) =
        (indices fields).filter fun field => (arrayIndex field.1).getD 0 = i := by
      refine List.filter_congr fun field one => decide_eq_decide.2 ?_
      rw [indices_rank one]
      simp
    rw [named, found, List.append_nil, indices, sortByKey_filter, List.filter_filter]
    refine List.filter_congr fun field _ => Bool.eq_iff_iff.2 ?_
    rw [Bool.and_eq_true_iff, decide_eq_true_iff, decide_eq_true_iff, rank_eq_index]
    cases arrayIndex field.1 with
    | none => simp
    | some index => simp
  · have indexed : (indices fields).filter (fun field => decide (rank field.1 = k)) = [] := by
      refine List.filter_eq_nil_iff.2 fun field one same => ?_
      exact index ⟨_, (of_decide_eq_true same).symm.trans (indices_rank one)⟩
    rw [indexed, List.nil_append, List.filter_filter]
    refine List.filter_congr fun field _ => Bool.eq_iff_iff.2 ?_
    rw [Bool.and_eq_true_iff, decide_eq_true_iff]
    refine ⟨And.left, fun same => ⟨same, ?_⟩⟩
    cases own : arrayIndex field.1 with
    | none => simp [own]
    | some i => exact absurd ⟨i, same.symm.trans (rank_eq_index.2 own)⟩ index

/-- **The order is that of the keys' ranks.** -/
theorem inEnumerationOrder_eq (fields : List (String × α)) :
    inEnumerationOrder fields = sortByKey (fun field => rank field.1) fields := by
  rw [← enumerated_eq]
  unfold inEnumerationOrder enumerated
  split
  · dsimp only
    rw [List.partition_eq_filter_filter]
    refine (sortByKey_eq ?_ ranked_filter).symm
    refine List.pairwise_append.2 ⟨?_, ?_, ?_⟩
    · refine List.Pairwise.imp_of_mem (fun ha hb less => ?_) (sortByKey_sorted _ _)
      dsimp only
      rw [indices_rank ha, indices_rank hb, Prod.Lex.toLex_le_toLex]
      exact .inr ⟨rfl, less⟩
    · refine List.pairwise_of_forall_mem_list fun a ha b hb => ?_
      dsimp only
      rw [named_rank ha, named_rank hb]
    · intro a ha b hb
      dsimp only
      rw [indices_rank ha, named_rank hb, Prod.Lex.toLex_le_toLex]
      exact .inl Nat.one_pos
  · rfl

/-- The order of the values that hold no doubles. -/
theorem inEnumerationOrder_same (fields : Lib.Json.Fields) :
    inEnumerationOrder fields = Lib.Json.Value.inEnumerationOrder fields := by
  rw [inEnumerationOrder_eq, JsOrder.inEnumerationOrder_eq]

end

/-- What of an object's fields is kept is kept in their order. -/
theorem inEnumerationOrder_filterMap {α β : Type} {f : String × α → Option (String × β)}
    (keeps : ∀ field out, f field = some out → out.1 = field.1) (fields : List (String × α)) :
    inEnumerationOrder (fields.filterMap f) = (inEnumerationOrder fields).filterMap f := by
  rw [inEnumerationOrder_eq, inEnumerationOrder_eq]
  refine sortByKey_filterMap (fun field out became => ?_) fields
  rw [keeps field out became]

theorem projectFields_eq {δ : Type} (entries : List (String × Keep))
    (fields : List (String × Value δ)) : projectFields entries fields =
      fields.filterMap fun field => (member entries field.1).map fun keep =>
        (field.1, project keep field.2) := by
  induction fields with
  | nil => rfl
  | cons field fields ih =>
    rw [projectFields, ih]
    cases named : member entries field.1 with
    | none => rw [List.filterMap_cons_none (by rw [named]; rfl)]
    | some keep => rw [List.filterMap_cons_some (by rw [named]; rfl)]

theorem projectFields_order {δ : Type} (entries : List (String × Keep))
    (fields : List (String × Value δ)) :
    projectFields entries (inEnumerationOrder fields) =
      inEnumerationOrder (projectFields entries fields) := by
  rw [projectFields_eq, projectFields_eq, inEnumerationOrder_filterMap]
  intro field out became
  obtain ⟨keep, _, rfl⟩ := Option.map_eq_some_iff.1 became
  rfl

@[simp] theorem project_all {δ : Type} (value : Value δ) : project .all value = value := by
  cases value <;> rfl

mutual

/-- **What is kept is parsed as the whole is.** -/
theorem asParsed_project (keep : Keep) : ∀ value : Value δ,
    asParsed r (project keep value) = project keep (asParsed r value)
  | .null | .bool _ | .number _ | .string _ => rfl
  | .array items => by
    cases keep with
    | all | scalar | members => simp [project, asParsed, asParsedItems]
    | items keep => simp only [project, asParsed, asParsedItems_project keep items]
  | .object fields => by
    cases keep with
    | all | scalar | items => simp [project, asParsed, asParsedFields, inEnumerationOrder]
    | members entries =>
      simp only [project, asParsed, asParsedFields_project entries fields, projectFields_order]

theorem asParsedItems_project (keep : Keep) : ∀ items : List (Value δ),
    asParsedItems r (projectItems keep items) = projectItems keep (asParsedItems r items)
  | [] => rfl
  | item :: items => by
    rw [projectItems, asParsedItems, asParsed_project keep item,
      asParsedItems_project keep items, asParsedItems, projectItems]

theorem asParsedFields_project (entries : List (String × Keep)) :
    ∀ fields : List (String × Value δ),
      asParsedFields r (projectFields entries fields) =
        projectFields entries (asParsedFields r fields)
  | [] => rfl
  | (key, value) :: fields => by
    rw [asParsedFields, projectFields, projectFields]
    cases member entries key with
    | none => exact asParsedFields_project entries fields
    | some keep =>
      dsimp only
      rw [asParsedFields, asParsed_project keep value, asParsedFields_project entries fields]

end

/-! ## 5. What is dropped is read -/

/-- A value read and dropped is one read whole and forgotten. -/
theorem discard_eq (fuel : Nat) :
    (discard r fuel = (fun _ => ()) <$> whole r fuel) ∧
    (∀ first, discardItems r fuel first = (fun _ => ()) <$> wholeItems r fuel first) ∧
    ∀ first fields,
      discardFields r fuel first = (fun _ => ()) <$> wholeFields r fuel first fields := by
  induction fuel with
  | zero => exact ⟨rfl, fun _ => rfl, fun _ _ => rfl⟩
  | succ fuel ih =>
    obtain ⟨value, items, fields⟩ := ih
    refine ⟨?_, fun first => ?_, fun first done => ?_⟩
    · rw [discard, whole, map_bind]
      refine bind_congr fun start => ?_
      cases start with
      | seq => simp [items]
      | map => simp [fields true []]
      | _ => simp
    · rw [discardItems, wholeItems, map_bind]
      refine bind_congr fun more => ?_
      cases more with
      | true => simp [items, value]
      | false => simp
    · rw [discardFields, wholeFields, map_bind]
      refine bind_congr fun key => ?_
      cases key with
      | none => simp
      | some key =>
        dsimp only
        rw [map_bind, value]
        refine bind_congr fun _ => ?_
        rw [map_bind, bind_map_left]
        exact bind_congr fun value => fields false _

theorem projectFields_insert {δ : Type} (entries : List (String × Keep)) (key : String)
    (value : Value δ) (fields : List (String × Value δ)) :
    projectFields entries (insert key value fields) =
      match member entries key with
      | some keep => insert key (project keep value) (projectFields entries fields)
      | none => projectFields entries fields := by
  induction fields with
  | nil =>
    rw [insert, projectFields]
    rfl
  | cons field fields ih =>
    obtain ⟨known, old⟩ := field
    rw [insert]
    by_cases same : known = key
    · subst same
      rw [if_pos rfl, projectFields, projectFields]
      cases member entries known with
      | none => rfl
      | some keep => exact (if_pos rfl).symm
    · rw [if_neg same, projectFields, projectFields, ih]
      cases member entries known with
      | none => rfl
      | some kept =>
        cases member entries key with
        | none => rfl
        | some keep => exact (if_neg same).symm

/-- A text, a number, a flag or null is kept as it is read. -/
theorem project_scalar (keep : Keep) {start : Start δ} (seq : start ≠ .seq) (map : start ≠ .map) :
    project keep (scalar r start) = scalar r start := by
  cases start with
  | seq => exact absurd rfl seq
  | map => exact absurd rfl map
  | double number =>
    rw [scalar]
    split <;> rfl
  | _ => rfl

/-- **A value read for some of it is the whole one projected.** -/
theorem kept_eq (fuel : Nat) :
    (∀ keep, kept r keep fuel = project keep <$> whole r fuel) ∧
    (∀ keep first, keptItems r keep fuel first = projectItems keep <$> wholeItems r fuel first) ∧
    ∀ entries first fields, keptFields r entries fuel first (projectFields entries fields) =
      projectFields entries <$> wholeFields r fuel first fields := by
  induction fuel with
  | zero => exact ⟨fun _ => by rw [kept]; rfl, fun _ _ => by rw [keptItems]; rfl,
      fun _ _ _ => by rw [keptFields]; rfl⟩
  | succ fuel ih =>
    obtain ⟨value, items, fields⟩ := ih
    obtain ⟨dropped, droppedItems, droppedFields⟩ := discard_eq r fuel
    refine ⟨fun keep => ?_, fun keep first => ?_, fun entries first done => ?_⟩
    · cases keep with
      | all =>
        have none_ : project (δ := δ) .all = id := funext project_all
        rw [none_, id_map]
        simp only [kept]
      | scalar =>
        simp only [kept, whole, map_bind]
        refine bind_congr fun start => ?_
        cases start with
        | seq => simp [droppedItems, project]
        | map => simp [droppedFields true [], project]
        | _ => simp [project_scalar]
      | members entries =>
        simp only [kept, whole, map_bind]
        refine bind_congr fun start => ?_
        have members := fields entries true []
        rw [projectFields] at members
        cases start with
        | seq => simp [droppedItems, project]
        | map => simp [members, project]
        | _ => simp [project_scalar]
      | items keep =>
        simp only [kept, whole, map_bind]
        refine bind_congr fun start => ?_
        cases start with
        | seq => simp [items, project]
        | map => simp [droppedFields true [], project]
        | _ => simp [project_scalar]
    · rw [keptItems, wholeItems, map_bind]
      refine bind_congr fun more => ?_
      cases more with
      | true => simp [items, value, projectItems]
      | false => simp [projectItems]
    · rw [keptFields, wholeFields, map_bind]
      refine bind_congr fun key => ?_
      cases key with
      | none => simp
      | some key =>
        dsimp only
        cases named : member entries key with
        | none =>
          dsimp only
          rw [map_bind, dropped]
          refine bind_congr fun _ => ?_
          rw [map_bind, bind_map_left]
          refine bind_congr fun value => ?_
          rw [← fields, projectFields_insert, named]
        | some keep =>
          dsimp only
          rw [map_bind, value]
          refine bind_congr fun _ => ?_
          rw [map_bind, bind_map_left]
          refine bind_congr fun value => ?_
          rw [← fields, projectFields_insert, named]

/-! ## 6. A reading ends -/

/-- A reading that ends wherever fewer than `room` are left, at an error or with `taken` less. -/
def Ends {α : Type} (room taken : Nat) (reading : Reading σ ε α) : Prop :=
  ∀ s, r.left s < room → ∃ out, reading s = some out ∧
    ∀ value s', out = Except.ok (value, s') → r.left s' + taken ≤ r.left s

section

variable {r} {α β : Type} {room taken more : Nat}

theorem Ends.pure (value : α) : Ends r room 0 (pure value : Reading σ ε α) := by
  refine fun s _ => ⟨.ok (value, s), rfl, fun value' s' same => ?_⟩
  cases same
  exact Nat.le_refl _

theorem Ends.ask {call : σ → Except ε (α × σ)}
    (takes : ∀ {s s' : σ} {value : α}, call s = .ok (value, s') → r.left s' + taken ≤ r.left s) :
    Ends r room taken (ask call) :=
  fun s _ => ⟨call s, rfl, fun _ _ same => takes same⟩

theorem Ends.bind {reading : Reading σ ε α} {next : α → Reading σ ε β}
    (first : Ends r room taken reading)
    (rest : ∀ value, Ends r (room - taken) more (next value)) :
    Ends r room (taken + more) (reading >>= next) := by
  intro s inside
  obtain ⟨out, run, left⟩ := first s inside
  have step : (reading >>= next) s =
      ExceptT.bindCont (fun step : α × σ => next step.1 step.2) =<< reading s := rfl
  cases out with
  | error failed =>
    refine ⟨.error failed, ?_, fun _ _ same => by cases same⟩
    rw [step, run]
    rfl
  | ok read =>
    obtain ⟨value, s'⟩ := read
    have fewer := left value s' rfl
    obtain ⟨out, run', left'⟩ := rest value s' (by omega)
    refine ⟨out, ?_, fun value' s'' same => ?_⟩
    · rw [step, run]
      exact run'
    · have fewer' := left' value' s'' same
      omega

/-- What follows a step that may take nothing. -/
theorem Ends.after {reading : Reading σ ε α} {next : α → Reading σ ε β}
    (first : Ends r room 0 reading) (rest : ∀ value, Ends r room more (next value)) :
    Ends r room more (reading >>= next) :=
  Nat.zero_add more ▸ Ends.bind first rest

theorem Ends.weaken {reading : Reading σ ε α} (ends : Ends r room 1 reading) :
    Ends r room 0 reading := by
  intro s inside
  obtain ⟨out, run, left⟩ := ends s inside
  refine ⟨out, run, fun value s' same => ?_⟩
  have fewer := left value s' same
  omega

/-- What follows a value. -/
theorem Ends.then {reading : Reading σ ε α} {next : α → Reading σ ε β}
    (first : Ends r room 1 reading) (rest : ∀ value, Ends r (room - 1) 0 (next value)) :
    Ends r room 1 (reading >>= next) := Ends.bind first rest

end

theorem any_ends (room : Nat) : Ends r room 1 (ask r.any) := Ends.ask r.any_left

theorem nextItem_ends (room : Nat) (first : Bool) : Ends r room 0 (ask (r.nextItem first)) :=
  Ends.ask r.nextItem_left

theorem endSeq_ends (room : Nat) : Ends r room 0 (ask r.endSeq) := Ends.ask r.endSeq_left

theorem nextKey_ends (room : Nat) (first : Bool) : Ends r room 0 (ask (r.nextKey first)) :=
  Ends.ask r.nextKey_left

theorem colon_ends (room : Nat) : Ends r room 0 (ask r.colon) := Ends.ask r.colon_left

theorem endMap_ends (room : Nat) : Ends r room 0 (ask r.endMap) := Ends.ask r.endMap_left

theorem finish_ends (room : Nat) : Ends r room 0 (ask r.finish) := Ends.ask r.finish_left

/-- **A reading ends**, with steps enough for what is left of the text. -/
theorem settles (fuel : Nat) :
    (∀ room, 2 * room ≤ fuel + 1 → Ends r room 1 (whole r fuel)) ∧
    (∀ room first, 2 * room ≤ fuel → Ends r room 0 (wholeItems r fuel first)) ∧
    ∀ room first fields, 2 * room ≤ fuel → Ends r room 0 (wholeFields r fuel first fields) := by
  induction fuel with
  | zero =>
    refine ⟨fun room few s inside => ?_, fun room _ few s inside => ?_,
      fun room _ _ few s inside => ?_⟩ <;> omega
  | succ fuel ih =>
    obtain ⟨value, items, fields⟩ := ih
    refine ⟨fun room few => ?_, fun room first few => ?_, fun room first done few => ?_⟩
    · rw [whole]
      refine Ends.then (any_ends r room) fun start => ?_
      cases start with
      | seq =>
        refine Ends.after (items _ true (by omega)) fun items => ?_
        exact Ends.after (endSeq_ends r _) fun _ => Ends.pure _
      | map =>
        refine Ends.after (fields _ true [] (by omega)) fun fields => ?_
        exact Ends.after (endMap_ends r _) fun _ => Ends.pure _
      | _ => exact Ends.pure _
    · rw [wholeItems]
      refine Ends.after (nextItem_ends r room first) fun more => ?_
      cases more with
      | false => exact Ends.pure _
      | true =>
        refine Ends.weaken (Ends.then (value room (by omega)) fun item => ?_)
        exact Ends.after (items _ false (by omega)) fun items => Ends.pure _
    · rw [wholeFields]
      refine Ends.after (nextKey_ends r room first) fun key => ?_
      cases key with
      | none => exact Ends.pure _
      | some key =>
        refine Ends.after (colon_ends r room) fun _ => ?_
        refine Ends.weaken (Ends.then (value room (by omega)) fun item => ?_)
        exact fields _ false _ (by omega)

/-! ## 7. A line kept is the line projected -/

theorem map_run {α β : Type} (f : α → β) (reading : Reading σ ε α) (s : σ) :
    (f <$> reading) s = Option.map (Except.map fun read => (f read.1, read.2)) (reading s) := by
  have step : (f <$> reading) s =
      ExceptT.bindCont (fun read : α × σ => ExceptT.mk (some (.ok (f read.1, read.2)))) =<<
        reading s := rfl
  rw [step]
  cases reading s with
  | none => rfl
  | some out =>
    cases out with
    | error failed => rfl
    | ok read => rfl

theorem toEnd_kept (keep : Keep) (steps : Nat) :
    toEnd r (kept r keep steps) = project keep <$> toEnd r (whole r steps) := by
  rw [(kept_eq r steps).1 keep]
  simp [toEnd, asParsed_project]

theorem readText_kept (keep : Keep) (text : List Char) :
    readText r (kept r keep) text =
      (readText r (whole r) text).map (Except.map (project keep)) := by
  unfold readText
  dsimp only
  rw [toEnd_kept, map_run, Option.map_map, Option.map_map]
  congr 1
  funext out
  cases out with
  | error failed => rfl
  | ok read => rfl

theorem readText_ends (text : List Char) : ∃ read, readText r (whole r) text = some read := by
  have ends (left : Nat) : Ends r (left + 1) 1 (toEnd r (whole r (2 * left + 1))) := by
    refine Ends.then ((settles r _).1 _ (by omega)) fun value => ?_
    exact Ends.after (finish_ends r _) fun _ => Ends.pure _
  obtain ⟨out, run, _⟩ := ends (r.left (r.fromStr text)) (r.fromStr text) (Nat.lt_succ_self _)
  refine ⟨out.map Prod.fst, ?_⟩
  rw [readText, run]
  rfl

theorem fixedText_ends (fromUtf8Lossy : List UInt8 → List Char) (bytes : List UInt8) :
    ∃ text, fixedText fromUtf8Lossy bytes = some text := by
  obtain ⟨_, fixed, read, _⟩ := Surrogates.lone_surrogates_are_replaced (fromUtf8Lossy bytes)
  exact ⟨_, by rw [fixedText, read]; rfl⟩

/-- **A line read for some of it is the line read whole and projected.** For every reader, every
    line and all that may be kept: both readings end, the one fails exactly where the other does
    and with its error, and what it reads is what is kept of what the other reads. -/
theorem keeping_is_projecting (fromUtf8Lossy : List UInt8 → List Char) (bytes : List UInt8)
    (keep : Keep) : ∃ read : Except ε (Value δ),
      fromSliceLossy r fromUtf8Lossy bytes = some read ∧
      fromSliceLossyKeeping r fromUtf8Lossy bytes keep = some (read.map (project keep)) := by
  obtain ⟨text, fixed⟩ := fixedText_ends fromUtf8Lossy bytes
  obtain ⟨read, run⟩ := readText_ends r text
  refine ⟨read, ?_, ?_⟩
  · rw [fromSliceLossy, fixed]
    exact run
  · rw [fromSliceLossyKeeping, fixed, Option.bind_some, readText_kept, run]
    rfl

/-! ## 8. A reader of plain texts

Texts without escapes, digits, `null`, lists and objects, no blank between them. -/

/-- A text up to its closing quote, and what follows. -/
def closed : List Char → Option (List Char × List Char)
  | [] => none
  | c :: cs => if c = '"' then some ([], cs) else (closed cs).map fun read => (c :: read.1, read.2)

theorem closed_left : ∀ {cs text rest : List Char}, closed cs = some (text, rest) →
    rest.length ≤ cs.length
  | [], _, _, h => by cases h
  | c :: cs, text, rest, h => by
    rw [closed] at h
    by_cases quote : c = '"'
    · rw [if_pos quote] at h
      cases h
      exact Nat.le_succ _
    · rw [if_neg quote] at h
      obtain ⟨read, run, same⟩ := Option.map_eq_some_iff.1 h
      cases same
      exact Nat.le_succ_of_le (closed_left run)

/-- What is left of a text, and the levels it may still nest. -/
abbrev PlainState := List Char × Nat

def plainAny : PlainState → Except Unit (Start Int × PlainState)
  | ('n' :: 'u' :: 'l' :: 'l' :: rest, levels) => .ok (.unit, rest, levels)
  | ('[' :: rest, levels + 1) => .ok (.seq, rest, levels)
  | ('"' :: rest, levels) =>
    match closed rest with
    | some (text, rest) => .ok (.text (String.ofList text), rest, levels)
    | none => .error ()
  | (c :: rest, levels) =>
    if c = openBrace then
      match levels with
      | levels + 1 => .ok (.map, rest, levels)
      | 0 => .error ()
    else if c.isDigit then
      .ok (.whole (Lib.Digits.value (c :: rest.takeWhile Char.isDigit)),
        rest.dropWhile Char.isDigit, levels)
    else .error ()
  | _ => .error ()

/-- A closing bracket eaten, or another part announced. -/
def plainNext (closing : Char) (first : Bool) : PlainState → Except Unit (Bool × PlainState)
  | (c :: rest, levels) =>
    if c = closing then .ok (false, c :: rest, levels)
    else if first then .ok (true, c :: rest, levels)
    else if c = ',' then .ok (true, rest, levels)
    else .error ()
  | _ => .error ()

def plainKey (first : Bool) (s : PlainState) : Except Unit (Option String × PlainState) :=
  match plainNext closeBrace first s with
  | .ok (true, '"' :: rest, levels) =>
    match closed rest with
    | some (text, rest) => .ok (some (String.ofList text), rest, levels)
    | none => .error ()
  | .ok (false, s) => .ok (none, s)
  | _ => .error ()

/-- One character eaten. -/
def plainEat (c : Char) (levels : Nat) : PlainState → Except Unit (Unit × PlainState)
  | (d :: rest, left) => if d = c then .ok ((), rest, left + levels) else .error ()
  | _ => .error ()

theorem plainAny_left {s s' : PlainState} {start : Start Int}
    (h : plainAny s = .ok (start, s')) : s'.1.length < s.1.length := by
  unfold plainAny at h
  split at h
  · cases h
    simp only [List.length_cons]
    omega
  · cases h
    exact Nat.lt_succ_self _
  · split at h
    · rename_i found
      cases h
      exact Nat.lt_succ_of_le (closed_left found)
    · cases h
  · split at h
    · split at h
      · cases h
        exact Nat.lt_succ_self _
      · cases h
    · split at h
      · cases h
        exact Nat.lt_succ_of_le (List.dropWhile_sublist _).length_le
      · cases h
  · cases h

theorem plainNext_left {closing : Char} {first more : Bool} {s s' : PlainState}
    (h : plainNext closing first s = .ok (more, s')) : s'.1.length ≤ s.1.length := by
  unfold plainNext at h
  split at h
  · split at h
    · cases h
      exact Nat.le_refl _
    · split at h
      · cases h
        exact Nat.le_refl _
      · split at h
        · cases h
          exact Nat.le_succ _
        · cases h
  · cases h

theorem plainKey_left {first : Bool} {key : Option String} {s s' : PlainState}
    (h : plainKey first s = .ok (key, s')) : s'.1.length ≤ s.1.length := by
  unfold plainKey at h
  split at h
  · rename_i next
    have fewer := plainNext_left next
    split at h
    · rename_i found
      cases h
      exact (Nat.le_succ_of_le (closed_left found)).trans fewer
    · cases h
  · rename_i next
    cases h
    exact plainNext_left next
  · cases h

theorem plainEat_left {c : Char} {levels : Nat} {s s' : PlainState}
    (h : plainEat c levels s = .ok ((), s')) : s'.1.length ≤ s.1.length := by
  unfold plainEat at h
  split at h
  · split at h
    · cases h
      exact Nat.le_succ _
    · cases h
  · cases h

def plainFinish : PlainState → Except Unit (Unit × PlainState)
  | ([], levels) => .ok ((), [], levels)
  | _ => .error ()

theorem plainFinish_left {s s' : PlainState} (h : plainFinish s = .ok ((), s')) :
    s'.1.length ≤ s.1.length := by
  unfold plainFinish at h
  split at h
  · cases h
    exact Nat.le_refl _
  · cases h

/-- Plain texts, nested 127 levels deep at most. -/
def plain : Reader PlainState Int Unit where
  fromStr text := (text, 127)
  any := plainAny
  nextItem := plainNext ']'
  endSeq := plainEat ']' 1
  nextKey := plainKey
  colon := plainEat ':' 0
  endMap := plainEat closeBrace 1
  finish := plainFinish
  finite _ := true
  asF64 number := number
  left s := s.1.length
  any_left := plainAny_left
  nextItem_left := plainNext_left
  endSeq_left := plainEat_left
  nextKey_left := plainKey_left
  colon_left := plainEat_left
  endMap_left := plainEat_left
  finish_left := plainFinish_left

/-- A member said twice, and one that is dropped. -/
def saidTwice : List Char :=
  [openBrace, '"', 'b', '"', ':', '1', ',', '"', 'a', '"', ':', '2', ',', '"', 'b', '"', ':', '3',
    closeBrace]

theorem keeping_is_projecting_saidTwice (bytes : List UInt8) :
    ∃ read, fromSliceLossy plain (fun _ => saidTwice) bytes = some read ∧
      fromSliceLossyKeeping plain (fun _ => saidTwice) bytes (.members [("b", .scalar)]) =
        some (read.map (project (.members [("b", .scalar)]))) :=
  keeping_is_projecting plain (fun _ => saidTwice) bytes (.members [("b", .scalar)])

example : readText plain (kept plain (.members [("b", .scalar)])) saidTwice =
    some (.ok (.object [("b", .number (.whole 3))])) := by
  rfl

end ConsensFlow.Keeping
