/-
  File:      ConsensFlow/Lib/Json.lean
  Subject:   JSON VALUES as a program holds one it has read (`serde_json::Value`, fields in the
             order they were written).

  * `Value` -- a value; a number is the double it reads as;
  * `get`, `asStr`, `asObject`, `truthy` -- what programs ask of one, as `serde_json` and JavaScript
    answer it;
  * `set`, `jsOrder` -- a field put in place, and the order JavaScript gives an object's fields;
  * `get_set_self`, `get_set_other` -- what fields hold once one is put among them.
-/
import Mathlib

namespace Lib.Json

/-- A value read. JSON has no infinities, so a double it reads is a rational. -/
inductive Value where
  | null
  | bool (flag : Bool)
  | number (value : Rat)
  | string (text : String)
  | array (items : List Value)
  | object (fields : List (String × Value))

abbrev Fields := List (String × Value)

/-- What an object is written between. -/
def openBrace : Char := '\x7b'

def closeBrace : Char := '\x7d'

/-- What the fields hold under a name. -/
def Fields.get (fields : Fields) (key : String) : Option Value :=
  (fields.find? fun field => field.1 == key).map (·.2)

def Fields.containsKey (fields : Fields) (key : String) : Bool :=
  fields.any fun field => field.1 == key

/-- `Map::insert`: in place of what the name had, else at the end. -/
def Fields.set (key : String) (value : Value) : Fields → Fields
  | [] => [(key, value)]
  | field :: rest =>
    if field.1 == key then (key, value) :: rest else field :: Fields.set key value rest

theorem Fields.get_cons (field : String × Value) (rest : Fields) (key : String) :
    Fields.get (field :: rest) key =
      if field.1 = key then some field.2 else Fields.get rest key := by
  unfold Fields.get
  rw [List.find?_cons]
  by_cases own : field.1 = key
  · rw [if_pos own, beq_iff_eq.mpr own]
    rfl
  · rw [if_neg own, beq_eq_false_iff_ne.mpr own]

theorem Fields.get_set_self (key : String) (value : Value) (fields : Fields) :
    (Fields.set key value fields).get key = some value := by
  induction fields with
  | nil => rw [Fields.set, Fields.get_cons, if_pos rfl]
  | cons field fields ih =>
    rw [Fields.set]
    split
    · rw [Fields.get_cons, if_pos rfl]
    · next apart => rw [Fields.get_cons, if_neg (mt beq_iff_eq.mpr apart), ih]

theorem Fields.get_set_other {key other : String} (apart : other ≠ key) (value : Value)
    (fields : Fields) : (Fields.set other value fields).get key = fields.get key := by
  induction fields with
  | nil => rw [Fields.set, Fields.get_cons, if_neg apart]
  | cons field fields ih =>
    rw [Fields.set]
    split
    · next own => rw [Fields.get_cons, Fields.get_cons, if_neg apart, beq_iff_eq.mp own, if_neg apart]
    · rw [Fields.get_cons, Fields.get_cons, ih]

namespace Value

/-- `Value::get`: a field of an object. -/
def get (value : Value) (key : String) : Option Value :=
  match value with
  | object fields => Fields.get fields key
  | _ => none

def asStr : Value → Option String
  | string text => some text
  | _ => none

def asObject : Value → Option Fields
  | object fields => some fields
  | _ => none

def asArray : Value → Option (List Value)
  | array items => some items
  | _ => none

/-- Whether JavaScript's `value ? … : …` takes the first branch. -/
def truthy : Option Value → Bool
  | none | some null => false
  | some (bool flag) => flag
  | some (number value) => value != 0
  | some (string text) => !text.isEmpty
  | some (array _) | some (object _) => true

/-- The array index a key is: digits with no leading zero, below `2 ^ 32 - 1`. -/
def arrayIndex (key : String) : Option Nat :=
  if !key.isEmpty && key.toList.all Char.isDigit && (key == "0" || !key.startsWith "0") then
    key.toNat?.filter (· < 2 ^ 32 - 1)
  else none

/-- A field put among fields whose keys are ascending indices, after those as small. -/
def placed (index : Nat) (field : String × Value) : List (Nat × String × Value) →
    List (Nat × String × Value)
  | [] => [(index, field)]
  | (known, other) :: rest =>
    if known ≤ index then (known, other) :: placed index field rest
    else (index, field) :: (known, other) :: rest

/-- The fields whose keys are array indices first, ascending, then the others as written. -/
def inEnumerationOrder (fields : Fields) : Fields :=
  let indices := fields.foldl (fun done field =>
    match arrayIndex field.1 with
    | some index => placed index field done
    | none => done) []
  indices.map (·.2) ++ fields.filter fun field => (arrayIndex field.1).isNone

mutual

/-- A value with every object's fields in JavaScript's order. -/
def jsOrder : Value → Value
  | array items => array (jsOrderItems items)
  | object fields => object (inEnumerationOrder (jsOrderFields fields))
  | value => value

def jsOrderItems : List Value → List Value
  | [] => []
  | item :: items => jsOrder item :: jsOrderItems items

def jsOrderFields : List (String × Value) → Fields
  | [] => []
  | (key, value) :: fields => (key, jsOrder value) :: jsOrderFields fields

end

end Value
end Lib.Json
