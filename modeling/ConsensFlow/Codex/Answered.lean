/-
  File:      ConsensFlow/Codex/Answered.lean
  Subject:   WHAT CODEX READS in the response to its question (`cf-codex-session`, `questions.rs`).

  * `get_jsOrder` -- fields hold what they held, once they are ordered;
  * `Asked.Responds` -- a response that gives each question its labels, as its reader finds them;
  * **`Asked.answered_responds`**, **`Asked.refused_responds`** -- the two the broker makes do.
-/
import ConsensFlow.JsOrder
import ConsensFlow.Codex.Pair

open Lib.Json

namespace ConsensFlow
namespace Codex
namespace Proxy

/-! ## 1. What ordered fields hold -/

section Members

open Lib.Stable ConsensFlow.JsOrder

/-- The first field of a name is among those of its rank. -/
theorem find?_rank (fields : Fields) (key : String) :
    (fields.filter fun field => rank field.1 = rank key).find? (·.1 == key) =
      fields.find? (·.1 == key) := by
  rw [List.find?_filter]
  refine congrArg (fun test => fields.find? test) (funext fun field => ?_)
  by_cases own : field.1 = key
  · simp [own]
  · simp [own]

/-- **Ordered fields hold what they held**, each value ordered. -/
theorem get_jsOrder (fields : Fields) (key : String) :
    (Value.object fields).jsOrder.get key = (fields.get key).map Value.jsOrder := by
  have ordered : (Value.jsOrderFields fields).find? (·.1 == key) =
      (fields.find? (·.1 == key)).map fun field => (field.1, field.2.jsOrder) := by
    rw [jsOrderFields_eq, List.find?_map]
    rfl
  show ((Value.inEnumerationOrder (Value.jsOrderFields fields)).find? (·.1 == key)).map (·.2) = _
  rw [inEnumerationOrder_eq, ← find?_rank (sortByKey _ _),
    sortByKey_filter (fun field : String × Value => rank field.1), find?_rank, ordered,
    Option.map_map]
  unfold Fields.get
  rw [Option.map_map]
  rfl

end Members

/-! ## 2. The responses -/

/-- A response to a request of Codex: each question, by the id it is answered under, has its labels;
    of questions of one id the last does. -/
structure Asked.Responds (asked : Asked) (message request : Value) (labels : Nat → List String) :
    Prop where
  id : message.get "id" = some request.jsOrder
  picked : ∀ n key, asked.keys[n]? = some key → (∀ m, n < m → asked.keys[m]? ≠ some key) →
    ((((message.get "result").bind fun result => result.get "answers").bind fun answers =>
        answers.get key).bind fun answer => answer.get "answers") =
      some (.array ((labels n).map .string))

namespace Asked

variable {labels : Nat → Value}

/-- The answers of other keys leave what a key holds. -/
theorem get_folded {key : String} (keys : List (String × Nat)) (fields : Fields)
    (apart : ∀ pair ∈ keys, pair.1 ≠ key) :
    (keys.foldl (fun fields (key, n) =>
      Fields.set key (.object [("answers", labels n)]) fields) fields).get key =
        fields.get key := by
  induction keys generalizing fields with
  | nil => rfl
  | cons first keys ih =>
    rw [List.foldl_cons, ih _ fun pair mem => apart pair (List.mem_cons_of_mem _ mem)]
    exact Fields.get_set_other (apart first List.mem_cons_self) _ _

/-- What the answers hold under a key, by the last question of it. -/
theorem get_answers {asked : Asked} {key : String} {n : Nat} (there : asked.keys[n]? = some key)
    (last : ∀ m, n < m → asked.keys[m]? ≠ some key) :
    (asked.answers labels).get key = some (.object [("answers", labels n)]) := by
  have here : asked.keys.zipIdx[n]? = some (key, n) := by
    rw [List.getElem?_zipIdx, there, Option.map_some, Nat.zero_add]
  obtain ⟨room, own⟩ := List.getElem?_eq_some_iff.mp here
  have cut : asked.keys.zipIdx =
      asked.keys.zipIdx.take n ++ (key, n) :: asked.keys.zipIdx.drop (n + 1) := by
    rw [← own, List.getElem_cons_drop, List.take_append_drop]
  unfold Asked.answers
  rw [cut, List.foldl_append, List.foldl_cons, get_folded]
  · exact Fields.get_set_self _ _ _
  · -- a later question of this key is none
    intro pair mem same
    obtain ⟨m, after⟩ := List.mem_iff_getElem?.mp mem
    rw [List.getElem?_drop, List.getElem?_zipIdx] at after
    obtain ⟨word, found, e⟩ := Option.map_eq_some_iff.mp after
    refine last (n + 1 + m) (by omega) ?_
    rw [found, ← same, ← e]

/-- **What a response holds under a question's id.** -/
theorem response_picked {asked : Asked} {key : String} {n : Nat} (request : Value)
    (there : asked.keys[n]? = some key) (last : ∀ m, n < m → asked.keys[m]? ≠ some key) :
    (((((response request (asked.answers labels)).get "result").bind
        fun result => result.get "answers").bind fun answers => answers.get key).bind
          fun answer => answer.get "answers") = some (labels n).jsOrder := by
  unfold response
  have apart : ("id" : String) ≠ "result" := by decide
  rw [get_jsOrder, Fields.get_cons, if_neg apart, Fields.get_cons, if_pos rfl,
    Option.map_some, Option.bind_some, get_jsOrder, Fields.get_cons, if_pos rfl,
    Option.map_some, Option.bind_some, get_jsOrder, get_answers there last,
    Option.map_some, Option.bind_some, get_jsOrder, Fields.get_cons, if_pos rfl, Option.map_some]

theorem response_id (request : Value) (answers : Fields) :
    (response request answers).get "id" = some request.jsOrder := by
  unfold response
  rw [get_jsOrder, Fields.get_cons, if_pos rfl, Option.map_some]

theorem jsOrder_texts (texts : List String) :
    (Value.array (texts.map .string)).jsOrder = .array (texts.map .string) := by
  rw [Value.jsOrder]
  refine congrArg Value.array ?_
  induction texts with
  | nil => rfl
  | cons text texts ih =>
    rw [List.map_cons, Value.jsOrderItems, ih]
    rfl

/-- **The response to an answered question gives each its picks.** -/
theorem answered_responds (asked : Asked) (request : Value) (answer : Answer) :
    asked.Responds (asked.answered request answer) request answer.picks where
  id := response_id _ _
  picked n key there last := by
    unfold Asked.answered
    rw [response_picked request there last, jsOrder_texts]

/-- **The response to a refused question gives each the reason.** -/
theorem refused_responds (asked : Asked) (request : Value) (reason : String) :
    asked.Responds (asked.refused request reason) request fun _ => [reason] where
  id := response_id _ _
  picked n key there last := by
    unfold Asked.refused
    rw [response_picked request there last]
    exact congrArg some (jsOrder_texts [reason])

end Asked

end Proxy
end Codex
end ConsensFlow
