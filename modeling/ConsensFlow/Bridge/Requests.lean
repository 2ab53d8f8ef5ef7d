/-
  File:      ConsensFlow/Bridge/Requests.lean
  Subject:   REQUESTS AND THEIR ANSWERS on the bridge: whose answer is whose, and what a request
             leaves in the table.

  * `Busy` -- who closes the transport, for which call;
  * `Ids` -- every id is of one call;
  * `Matched` -- the INVARIANT of the table, the reader's hand, the closer's list and the channels: a
    call's entry is in one of them, and what it is handed bears its id and its op;
  * `Clean` -- no call that has returned is in the table;
  * `refused_leaves` -- a call that the queue refuses, where its entry is in the table, leaves it there;
  * **`requests_end_once_iff`** -- along a run every request ends with its own answer, once, and
    nothing is left of it, just where no such call was refused.
-/
import ConsensFlow.Bridge.Transport

namespace ConsensFlow
namespace Bridge

open Lib.Json

/-! ## 1. The calls after a step -/

section Lists

variable {calls : List Call} {c d : Nat} {x y : Call} {f : Call → Call}

theorem set_cases (h : (calls.set c x)[d]? = some y) : d = c ∧ y = x ∨ d ≠ c ∧ calls[d]? = some y := by
  by_cases same : d = c
  · subst same
    rw [List.getElem?_set] at h
    split at h
    · split at h
      · cases h
        exact Or.inl ⟨rfl, rfl⟩
      · cases h
    · rename_i differ
      exact absurd rfl differ
  · rw [List.getElem?_set_ne (Ne.symm same)] at h
    exact Or.inr ⟨same, h⟩

theorem set_self (here : calls[c]? = some y) : (calls.set c x)[c]? = some x :=
  List.getElem?_set_self (List.getElem?_eq_some_iff.1 here).1

theorem set_other (differ : d ≠ c) (there : calls[d]? = some y) : (calls.set c x)[d]? = some y := by
  rw [List.getElem?_set_ne (Ne.symm differ), there]

theorem modify_cases (h : (calls.modify c f)[d]? = some y) :
    ∃ x, calls[d]? = some x ∧ (d = c ∧ y = f x ∨ d ≠ c ∧ y = x) := by
  rw [List.getElem?_modify] at h
  obtain ⟨x, there, same⟩ := Option.map_eq_some_iff.1 h
  refine ⟨x, there, ?_⟩
  by_cases here : c = d
  · rw [if_pos here] at same
    exact Or.inl ⟨here.symm, same.symm⟩
  · rw [if_neg here] at same
    exact Or.inr ⟨Ne.symm here, same.symm⟩

theorem modify_self (here : calls[c]? = some x) : (calls.modify c f)[c]? = some (f x) := by
  rw [List.getElem?_modify, here]
  exact congrArg some (if_pos rfl)

theorem modify_other (differ : d ≠ c) (there : calls[d]? = some x) :
    (calls.modify c f)[d]? = some x := by
  rw [List.getElem?_modify, there]
  exact congrArg some (if_neg (Ne.symm differ))

theorem append_cases (h : (calls ++ [x])[d]? = some y) : calls[d]? = some y ∨ y = x := by
  rw [List.getElem?_append] at h
  split at h
  · exact Or.inl h
  · exact Or.inr (List.mem_singleton.1 (List.mem_of_getElem? h))

theorem append_old (there : calls[d]? = some y) : (calls ++ [x])[d]? = some y := by
  rw [List.getElem?_append_left (List.getElem?_eq_some_iff.1 there).1, there]

end Lists

/-! ## 2. Who closes, for which call -/

def Stage.isClosing : Stage → Bool
  | asked _ .closing => true
  | _ => false

/-- The calls that close the transport, or cut the output. -/
def Inner.closers (s : Inner) : List Nat :=
  ((s.closing.map Closing.who).toList ++ s.cuts.map Cutting.who).filterMap Who.caller

/-- A call closes the transport. -/
def Inner.Closes (s : Inner) (c : Nat) : Prop :=
  ∃ call, s.calls[c]? = some call ∧ call.stage.isClosing = true

/-- A call closes the transport once, where its stage is that. -/
structure Busy (s : Inner) : Prop where
  once : s.closers.Nodup
  tells : ∀ c, c ∈ s.closers ↔ s.Closes c

variable {cfg : Config} {s s' : Inner} {act : Act}

/-- A step of a call that closes nothing, before or after. -/
theorem Busy.set (h : Busy s) {c : Nat} {call call' : Call} (here : s.calls[c]? = some call)
    (before : call.stage.isClosing = false) (after : call'.stage.isClosing = false)
    (calls : s'.calls = s.calls.set c call') (closers : s'.closers = s.closers) : Busy s' where
  once := by
    rw [closers]
    exact h.once
  tells d := by
    rw [closers, h.tells d]
    constructor
    · rintro ⟨one, there, closes⟩
      have differ : d ≠ c := by
        rintro rfl
        rw [here] at there
        cases there
        rw [before] at closes
        cases closes
      exact ⟨one, by rw [calls, set_other differ there], closes⟩
    · rintro ⟨one, there, closes⟩
      rw [calls] at there
      rcases set_cases there with ⟨rfl, rfl⟩ | ⟨-, there⟩
      · rw [after] at closes
        cases closes
      · exact ⟨one, there, closes⟩

/-- What is in a call's channel is not its stage. -/
theorem Busy.modify (h : Busy s) {c : Nat} {f : Call → Call} (same : ∀ call, (f call).stage = call.stage)
    (calls : s'.calls = s.calls.modify c f) (closers : s'.closers = s.closers) : Busy s' where
  once := by
    rw [closers]
    exact h.once
  tells d := by
    rw [closers, h.tells d]
    constructor
    · rintro ⟨one, there, closes⟩
      by_cases differ : d = c
      · subst differ
        exact ⟨f one, by rw [calls, modify_self there], by rw [same]; exact closes⟩
      · exact ⟨one, by rw [calls, modify_other differ there], closes⟩
    · rintro ⟨one, there, closes⟩
      rw [calls] at there
      obtain ⟨old, before, ⟨-, rfl⟩ | ⟨-, rfl⟩⟩ := modify_cases there
      · exact ⟨old, before, by rw [same] at closes; exact closes⟩
      · exact ⟨one, before, closes⟩

theorem Busy.same (h : Busy s) (calls : s'.calls = s.calls) (closers : s'.closers = s.closers) :
    Busy s' where
  once := by
    rw [closers]
    exact h.once
  tells d := by
    rw [closers, h.tells d]
    unfold Inner.Closes
    rw [calls]

/-- A call begins to close. -/
theorem Busy.begins (h : Busy s) {c : Nat} {call call' : Call} (here : s.calls[c]? = some call)
    (before : call.stage.isClosing = false) (after : call'.stage.isClosing = true)
    (calls : s'.calls = s.calls.set c call') (closers : s'.closers.Perm (c :: s.closers)) : Busy s' where
  once := by
    refine closers.nodup_iff.2 (List.nodup_cons.2 ⟨fun inside => ?_, h.once⟩)
    obtain ⟨one, there, closes⟩ := (h.tells c).1 inside
    rw [here] at there
    cases there
    rw [before] at closes
    cases closes
  tells d := by
    rw [closers.mem_iff, List.mem_cons, h.tells d]
    constructor
    · rintro (rfl | ⟨one, there, closes⟩)
      · exact ⟨call', by rw [calls, set_self here], after⟩
      · by_cases differ : d = c
        · subst differ
          exact ⟨call', by rw [calls, set_self here], after⟩
        · exact ⟨one, by rw [calls, set_other differ there], closes⟩
    · rintro ⟨one, there, closes⟩
      rw [calls] at there
      rcases set_cases there with ⟨rfl, -⟩ | ⟨-, there⟩
      · exact Or.inl rfl
      · exact Or.inr ⟨one, there, closes⟩

/-- Who closed is done. -/
theorem Busy.finish (h : Busy s) {t : Inner} (who : Who) (calls : t.calls = s.calls)
    (closers : s.closers.Perm (who.caller.toList ++ t.closers)) : Busy (t.finish who) := by
  have once := closers.nodup_iff.1 h.once
  cases who with
  | call c error =>
    have once : (c :: t.closers).Nodup := once
    have unsaid : (t.finish (.call c error)).closers = t.closers := rfl
    refine ⟨?_, fun d => ?_⟩
    · rw [unsaid]
      exact (List.nodup_cons.1 once).2
    · have mem : d ∈ s.closers ↔ d = c ∨ d ∈ t.closers := closers.mem_iff.trans List.mem_cons
      have tells := h.tells d
      rw [unsaid]
      constructor
      · intro inside
        have differ : d ≠ c := by
          rintro rfl
          exact (List.nodup_cons.1 once).1 inside
        obtain ⟨one, there, closes⟩ := tells.1 (mem.2 (Or.inr inside))
        rw [← calls] at there
        exact ⟨one, modify_other differ there, closes⟩
      · rintro ⟨one, there, closes⟩
        obtain ⟨old, there, ⟨-, rfl⟩ | ⟨differ, rfl⟩⟩ := modify_cases there
        · cases closes
        · rw [calls] at there
          exact (mem.1 (tells.2 ⟨one, there, closes⟩)).resolve_left differ
  | reader | writer | other =>
    have mem : ∀ d, d ∈ s.closers ↔ d ∈ t.closers := fun d => closers.mem_iff
    refine ⟨once, fun d => (mem d).symm.trans ((h.tells d).trans ?_)⟩
    unfold Inner.Closes
    rw [← calls]
    rfl

theorem closers_set {i : Nat} {who : Who} (at_ : s.cuts[i]? = some ⟨who, false⟩) :
    (s.cuts.set i ⟨who, true⟩).map Cutting.who = s.cuts.map Cutting.who := by
  rw [List.map_set]
  refine List.ext_getElem? fun j => ?_
  by_cases same : j = i
  · subst same
    rw [List.getElem?_set_self (by
      rw [List.length_map]
      exact (List.getElem?_eq_some_iff.1 at_).1), List.getElem?_map, at_]
    rfl
  · rw [List.getElem?_set_ne (Ne.symm same)]

theorem closers_erase {i : Nat} {who : Who} {ended : Bool} (at_ : s.cuts[i]? = some ⟨who, ended⟩) :
    s.closers.Perm (who.caller.toList ++ ({ s with cuts := s.cuts.eraseIdx i } : Inner).closers) := by
  obtain ⟨inside, at_⟩ := List.getElem?_eq_some_iff.1 at_
  have cuts : s.cuts.Perm (⟨who, ended⟩ :: s.cuts.eraseIdx i) := by
    rw [← at_]
    exact (List.getElem_cons_eraseIdx_perm inside).symm
  have all : s.closers.Perm (((s.closing.map Closing.who).toList ++
      (who :: (s.cuts.eraseIdx i).map Cutting.who)).filterMap Who.caller) :=
    ((cuts.map Cutting.who).append_left _).filterMap _
  refine all.trans ?_
  have first : (who :: ((s.closing.map Closing.who).toList ++
      (s.cuts.eraseIdx i).map Cutting.who)).filterMap Who.caller =
      who.caller.toList ++ ({ s with cuts := s.cuts.eraseIdx i } : Inner).closers := by
    rw [List.filterMap_cons]
    cases who.caller <;> rfl
  rw [← first]
  exact List.perm_middle.filterMap _

theorem Busy.step (h : Busy s) (step : Stepped cfg s act s') : Busy s' := by
  cases step with
  | aside now jobs writer outputEnded writing reading keeps => exact h.same rfl rfl
  | began op body deadline =>
    refine ⟨h.once, fun c => (h.tells c).trans ?_⟩
    constructor
    · rintro ⟨call, there, closes⟩
      exact ⟨call, append_old there, closes⟩
    · rintro ⟨call, there, closes⟩
      rcases append_cases there with there | rfl
      · exact ⟨call, there, closes⟩
      · cases closes
  | goesOn c call here begun | foundClosed c call here begun =>
    exact h.set here (by rw [begun]; rfl) rfl rfl rfl
  | minted c call here minting | unsent c call here minting =>
    exact h.set here (by rw [minting]; rfl) rfl rfl rfl
  | shut c call id here encoded closed | entered c call id here encoded open_ =>
    exact h.set here (by rw [encoded]; rfl) rfl rfl rfl
  | moved c call id phase phase' canceled jobs here at_ inside inside' =>
    refine h.set here ?_ ?_ rfl rfl
    · rw [at_]
      cases phase <;> first | rfl | cases inside
    · cases phase' <;> first | rfl | cases inside'
  | refused c call id phase here at_ why how =>
    refine h.set here ?_ rfl rfl rfl
    rw [at_]
    rcases why with ⟨rfl, -⟩ | ⟨rfl, -⟩ <;> rfl
  | received c call id answer inbox here at_ first => exact h.set here (by rw [at_]; rfl) rfl rfl rfl
  | dropped c call id here at_ nowhere => exact h.set here (by rw [at_]; rfl) rfl rfl rfl
  | removed c call id here at_ => exact h.set here (by rw [at_]; rfl) rfl rfl rfl
  | read frame => exact h.same rfl rfl
  | took frame request at_ there same => exact h.same rfl rfl
  | gave frame sender at_ =>
    exact h.modify (f := fun call => { call with inbox := call.inbox ++ [.ok frame.body] })
      (fun _ => rfl) rfl rfl
  | marked who error point reading writing keeps free open_ start nobody =>
    refine h.same rfl ?_
    unfold Inner.closers
    rw [free]
    show (who :: s.cuts.map Cutting.who).filterMap Who.caller = _
    rw [List.filterMap_cons, nobody]
    rfl
  | markedBy c call id error here at_ free open_ =>
    refine h.begins here (by rw [at_]; rfl) rfl rfl ?_
    unfold Inner.closers
    rw [free]
    exact .refl _
  | cutting who reading writing keeps nobody =>
    refine h.same rfl ?_
    show ((s.closing.map Closing.who).toList ++ (s.cuts ++ [Cutting.mk who false]).map
      Cutting.who).filterMap Who.caller = s.closers
    rw [List.map_append, ← List.append_assoc, List.filterMap_append]
    show s.closers ++ [who].filterMap Who.caller = s.closers
    rw [List.filterMap_cons, nobody, List.filterMap_nil, List.append_nil]
  | cuttingBy c call id error here at_ free closed =>
    refine h.begins here (by rw [at_]; rfl) rfl rfl ?_
    show (((s.closing.map Closing.who).toList ++
      (s.cuts ++ [Cutting.mk (.call c error) false]).map Cutting.who).filterMap Who.caller).Perm (c :: s.closers)
    rw [List.map_append, ← List.append_assoc, List.filterMap_append]
    exact List.perm_append_comm
  | ending who error point point' writer outputEnded at_ next =>
    refine h.same rfl ?_
    unfold Inner.closers
    rw [at_]
    rfl
  | drained who error at_ =>
    refine h.same rfl ?_
    unfold Inner.closers
    rw [at_]
    rfl
  | told who error rest c one at_ =>
    refine h.modify (f := fun call => { call with inbox := call.inbox ++ [.error error] })
      (fun _ => rfl) rfl ?_
    unfold Inner.closers
    rw [at_]
    rfl
  | released who error at_ =>
    refine h.finish who rfl ?_
    unfold Inner.closers
    rw [at_]
    show ((who :: s.cuts.map Cutting.who).filterMap Who.caller).Perm _
    rw [List.filterMap_cons]
    cases who.caller with
    | none => exact .refl _
    | some c => exact .refl _
  | cut i who at_ =>
    refine h.same rfl ?_
    unfold Inner.closers
    rw [closers_set at_]
  | cutOff i who at_ => exact h.finish who rfl (closers_erase at_)

/-! ## 3. A call goes on, with its id -/

/-- A call later. -/
structure Call.Follows (call call' : Call) : Prop where
  op : call'.op = call.op
  id : ∀ id, call.stage.id = some id → call'.stage.id = some id
  entered : call.stage.entered = true → call'.stage.entered = true
  answer : ∀ answer, call.stage.answer = some answer → call'.stage = call.stage

theorem Call.Follows.refl (call : Call) : call.Follows call := ⟨rfl, fun _ h => h, fun h => h, fun _ _ => rfl⟩

theorem Call.Follows.same {call call' : Call} (op : call'.op = call.op)
    (stage : call'.stage = call.stage) : call.Follows call' where
  op := op
  id id h := by rw [stage, h]
  entered h := by rw [stage, h]
  answer _ _ := stage

/-- A call that has not returned goes on. -/
theorem Call.Follows.goesOn {call call' : Call} (op : call'.op = call.op)
    (running : call.stage.answer = none)
    (id : ∀ id, call.stage.id = some id → call'.stage.id = some id)
    (entered : call.stage.entered = true → call'.stage.entered = true) : call.Follows call' where
  op := op
  id := id
  entered := entered
  answer answer one := by
    rw [running] at one
    cases one

theorem follows_set {calls calls' : List Call} {c d : Nat} {call call' one : Call}
    (here : calls[c]? = some call) (eq : calls' = calls.set c call')
    (follows : call.Follows call') (there : calls[d]? = some one) :
    ∃ one', calls'[d]? = some one' ∧ one.Follows one' := by
  subst eq
  by_cases differ : d = c
  · subst differ
    rw [here] at there
    cases there
    exact ⟨call', set_self here, follows⟩
  · exact ⟨one, set_other differ there, .refl one⟩

theorem follows_modify {calls calls' : List Call} {c d : Nat} {f : Call → Call} {one : Call}
    (eq : calls' = calls.modify c f)
    (follows : ∀ call, calls[c]? = some call → call.Follows (f call)) (there : calls[d]? = some one) :
    ∃ one', calls'[d]? = some one' ∧ one.Follows one' := by
  subst eq
  by_cases differ : d = c
  · subst differ
    exact ⟨f one, modify_self there, follows one there⟩
  · exact ⟨one, modify_other differ there, .refl one⟩

/-- A call that closed the transport returns, as no other did. -/
theorem Busy.finish_follows (h : Busy s) {t : Inner} {who : Who} (calls : t.calls = s.calls)
    (inside : ∀ c, who.caller = some c → c ∈ s.closers) {c : Nat} {call : Call}
    (there : s.calls[c]? = some call) :
    ∃ call', (t.finish who).calls[c]? = some call' ∧ call.Follows call' := by
  cases who with
  | call d error =>
    rw [← calls] at there
    refine follows_modify rfl (fun one here => ?_) there
    rw [calls] at here
    obtain ⟨one', here', closes⟩ := (h.tells d).1 (inside d rfl)
    rw [here] at here'
    cases here'
    have running : one.stage.answer = none := by
      cases stage : one.stage with
      | returned id answer =>
        rw [stage] at closes
        cases closes
      | _ => rfl
    exact .goesOn rfl running (fun _ h => h) fun _ => rfl
  | reader | writer | other => exact ⟨call, by rw [← there, ← calls]; rfl, .refl call⟩

theorem Stepped.follows (busy : Busy s) (step : Stepped cfg s act s') {d : Nat} {one : Call}
    (there : s.calls[d]? = some one) : ∃ one', s'.calls[d]? = some one' ∧ one.Follows one' := by
  cases step with
  | aside now jobs writer outputEnded writing reading keeps => exact ⟨one, there, .refl one⟩
  | began op body deadline => exact ⟨one, append_old there, .refl one⟩
  | goesOn c call here begun | foundClosed c call here begun =>
    refine follows_set here rfl (.goesOn rfl (by rw [begun]; rfl) (fun id h => ?_) fun h => ?_) there
    · rw [begun] at h
      cases h
    · rw [begun] at h
      cases h
  | minted c call here minting | unsent c call here minting answer which =>
    refine follows_set here rfl (.goesOn rfl (by rw [minting]; rfl) (fun id h => ?_) fun h => ?_) there
    · rw [minting] at h
      cases h
    · rw [minting] at h
      cases h
  | shut c call id here encoded closed | entered c call id here encoded open_ =>
    refine follows_set here rfl (.goesOn rfl (by rw [encoded]; rfl) (fun id h => ?_) fun _ => rfl) there
    rw [encoded] at h
    exact h
  | moved c call id phase phase' canceled jobs here at_ inside inside' =>
    refine follows_set here rfl (.goesOn rfl (by rw [at_]; rfl) (fun id h => ?_) fun _ => ?_) there
    · rw [at_] at h
      exact h
    · cases phase' <;> first | rfl | cases inside'
  | refused c call id phase here at_ why how | received c call id answer inbox here at_ first
  | dropped c call id here at_ nowhere | removed c call id here at_
  | markedBy c call id error here at_ free open_ | cuttingBy c call id error here at_ free closed =>
    refine follows_set here rfl (.goesOn rfl (by rw [at_]; rfl) (fun id h => ?_) fun _ => rfl) there
    rw [at_] at h
    exact h
  | read frame | took frame request at_ there same | drained who error at_ | cut i who at_ =>
    exact ⟨one, by assumption, .refl one⟩
  | gave frame sender at_ =>
    exact follows_modify (f := fun call => { call with inbox := call.inbox ++ [.ok frame.body] })
      rfl (fun call _ => .same rfl rfl) there
  | marked who error point reading writing keeps free open_ start nobody =>
    exact ⟨one, there, .refl one⟩
  | cutting who reading writing keeps nobody => exact ⟨one, there, .refl one⟩
  | ending who error point point' writer outputEnded at_ next => exact ⟨one, there, .refl one⟩
  | told who error rest c inside at_ =>
    exact follows_modify (f := fun call => { call with inbox := call.inbox ++ [.error error] })
      rfl (fun call _ => .same rfl rfl) there
  | released who error at_ =>
    refine busy.finish_follows (t := { s with closing := none }) rfl (fun c calls => ?_) there
    refine List.mem_filterMap.2 ⟨who, List.mem_append_left _ ?_, calls⟩
    rw [at_]
    exact List.mem_singleton_self _
  | cutOff i who at_ =>
    refine busy.finish_follows (t := { s with writer := false, cuts := s.cuts.eraseIdx i }) rfl
      (fun c calls => ?_) there
    exact List.mem_filterMap.2 ⟨who,
      List.mem_append_right _ (List.mem_map.2 ⟨_, List.mem_of_getElem? at_, rfl⟩), calls⟩

/-- What holds of a call. -/
def Inner.Has (s : Inner) (c : Nat) (P : Call → Prop) : Prop := ∃ call, s.calls[c]? = some call ∧ P call

section Has

variable {t : Inner} {P : Call → Prop} {c d : Nat} {call call' : Call} {f : Call → Call}

theorem has_set (h : t.Has d P) (here : s.calls[c]? = some call)
    (calls : t.calls = s.calls.set c call') (same : P call' → P call) : s.Has d P := by
  obtain ⟨one, there, holds⟩ := h
  rw [calls] at there
  rcases set_cases there with ⟨rfl, rfl⟩ | ⟨-, there⟩
  · exact ⟨call, here, same holds⟩
  · exact ⟨one, there, holds⟩

theorem has_modify (h : t.Has d P) (calls : t.calls = s.calls.modify c f)
    (same : ∀ call, P (f call) → P call) : s.Has d P := by
  obtain ⟨one, there, holds⟩ := h
  rw [calls] at there
  obtain ⟨old, before, ⟨-, rfl⟩ | ⟨-, rfl⟩⟩ := modify_cases there
  · exact ⟨old, before, same old holds⟩
  · exact ⟨one, before, holds⟩

theorem has_finish {who : Who} (h : (t.finish who).Has d P) (calls : t.calls = s.calls)
    (same : ∀ (call : Call) (error : BridgeError),
      P { call with stage := .returned call.stage.id (.error error) } → P call) : s.Has d P := by
  have before : t.Has d P := by
    cases who with
    | call c error =>
      exact has_modify (f := fun call =>
        { call with stage := .returned call.stage.id (.error error) }) h rfl fun call => same call error
    | reader | writer | other => exact h
  obtain ⟨one, there, holds⟩ := before
  exact ⟨one, by rw [← calls, there], holds⟩

end Has

/-- A call has an id. -/
def Inner.Bears (s : Inner) (c : Nat) (id : String) : Prop := s.Has c fun call => call.stage.id = some id

/-- Every id is of one call, and was minted. -/
structure Ids (cfg : Config) (s : Inner) : Prop where
  minted : ∀ {c id}, s.Bears c id → ∃ n < s.nextId, id = cfg.idAfter n
  own : ∀ {c d id}, s.Bears c id → s.Bears d id → c = d

theorem idAfter_inj {n m : Nat} (h : cfg.idAfter n = cfg.idAfter m) : n = m :=
  Nat.succ.inj (Nat.repr_injective (String.append_right_inj _ |>.1 h))

/-- Whose each id is after a step: whose it was, or the call's that minted it. -/
theorem Stepped.bears (step : Stepped cfg s act s') : s.nextId ≤ s'.nextId ∧
    ∃ c₀, ∀ {c id}, s'.Bears c id →
      s.Bears c id ∨ (c = c₀ ∧ id = cfg.idAfter s.nextId ∧ s.nextId < s'.nextId) := by
  cases step with
  | minted c call here minting =>
    refine ⟨Nat.le_succ _, c, fun {d id} h => ?_⟩
    obtain ⟨one, there, bears⟩ := h
    rcases set_cases there with ⟨rfl, rfl⟩ | ⟨-, there⟩
    · cases bears
      exact Or.inr ⟨rfl, rfl, Nat.lt_succ_self _⟩
    · exact Or.inl ⟨one, there, bears⟩
  | unsent c call here minting answer which =>
    refine ⟨Nat.le_succ _, c, fun {d id} h => ?_⟩
    obtain ⟨one, there, bears⟩ := h
    rcases set_cases there with ⟨rfl, rfl⟩ | ⟨-, there⟩
    · cases bears
      exact Or.inr ⟨rfl, rfl, Nat.lt_succ_self _⟩
    · exact Or.inl ⟨one, there, bears⟩
  | began op body deadline =>
    refine ⟨Nat.le_refl _, 0, fun h => Or.inl ?_⟩
    obtain ⟨one, there, bears⟩ := h
    rcases append_cases there with there | rfl
    · exact ⟨one, there, bears⟩
    · cases bears
  | goesOn c call here begun | foundClosed c call here begun =>
    exact ⟨Nat.le_refl _, 0, fun h => Or.inl (has_set h here rfl fun one => by cases one)⟩
  | shut c call id here at_ | entered c call id here at_ | removed c call id here at_
  | received c call id answer inbox here at_ | dropped c call id here at_
  | refused c call id phase here at_ | markedBy c call id error here at_
  | cuttingBy c call id error here at_ | moved c call id phase phase' canceled jobs here at_ =>
    refine ⟨Nat.le_refl _, 0, fun h => Or.inl (has_set h here rfl fun one => ?_)⟩
    rw [at_]
    exact one
  | gave frame sender at_ =>
    exact ⟨Nat.le_refl _, 0, fun h => Or.inl (has_modify
      (f := fun call => { call with inbox := call.inbox ++ [.ok frame.body] }) h rfl fun _ one => one)⟩
  | told who error rest c inside at_ =>
    exact ⟨Nat.le_refl _, 0, fun h => Or.inl (has_modify
      (f := fun call => { call with inbox := call.inbox ++ [.error error] }) h rfl fun _ one => one)⟩
  | released who error at_ =>
    refine ⟨Nat.le_of_eq ?_, 0, fun h => Or.inl (has_finish (t := { s with closing := none }) h rfl
      fun _ _ one => one)⟩
    cases who <;> rfl
  | cutOff i who at_ =>
    refine ⟨Nat.le_of_eq ?_, 0, fun h => Or.inl (has_finish
      (t := { s with writer := false, cuts := s.cuts.eraseIdx i }) h rfl fun _ _ one => one)⟩
    cases who <;> rfl
  | _ => exact ⟨Nat.le_refl _, 0, fun h => Or.inl h⟩

theorem Ids.step (h : Ids cfg s) (step : Stepped cfg s act s') : Ids cfg s' := by
  obtain ⟨grows, c₀, from_⟩ := step.bears
  have unminted {c : Nat} (bears : s.Bears c (cfg.idAfter s.nextId)) : False := by
    obtain ⟨n, before, same⟩ := h.minted bears
    exact absurd (idAfter_inj same) (Nat.ne_of_gt before)
  constructor
  · intro c id bears
    rcases from_ bears with old | ⟨-, new, more⟩
    · obtain ⟨n, before, same⟩ := h.minted old
      exact ⟨n, Nat.lt_of_lt_of_le before grows, same⟩
    · exact ⟨s.nextId, more, new⟩
  · intro c d id bears bears'
    rcases from_ bears with old | ⟨rfl, rfl, -⟩ <;> rcases from_ bears' with old' | ⟨rfl, new, -⟩
    · exact h.own old old'
    · subst new
      exact (unminted old).elim
    · exact (unminted old').elim
    · rfl

/-! ## 4. The table, and who is answered -/

/-- The table was drained, by who closed the transport. -/
def Inner.Drained (s : Inner) : Prop :=
  s.closed = true ∧
    (s.closing = none ∨ ∃ who error rest, s.closing = some ⟨who, error, .sending rest⟩)

/-- What an entry of the table says: the call's op, and its id as the key. -/
structure Table (s : Inner) : Prop where
  entry : ∀ {id request}, s.pending.lookup id = some request → ∃ call,
    s.calls[request.sender]? = some call ∧ call.stage.id = some id ∧ call.op = request.op ∧
      call.stage.entered = true
  marked : s.closing ≠ none → s.closed = true
  drained : s.Drained → s.pending = ∅
  cutters : ∀ cut ∈ s.cuts, cut.who.caller ≠ none → s.Drained

/-- Where an entry is from: it was there, or its call entered it. -/
theorem Stepped.entry (step : Stepped cfg s act s') {id : String} {request : PendingRequest}
    (h : s'.pending.lookup id = some request) :
    s.pending.lookup id = some request ∨ (s.closed = false ∧ ∃ call,
      s.calls[request.sender]? = some call ∧ call.stage = .asked id .encoded ∧
        request.op = call.op ∧
        s'.calls[request.sender]? = some { call with stage := .asked id .asking }) := by
  have erased {id' : String} (h : (s.pending.erase id').lookup id = some request) :
      s.pending.lookup id = some request := by
    by_cases same : id = id'
    · subst same
      rw [AList.lookup_erase] at h
      cases h
    · rwa [AList.lookup_erase_ne same] at h
  cases step with
  | entered c call id' here encoded open_ =>
    by_cases same : id = id'
    · subst same
      have h : (s.pending.insert id ⟨call.op, c⟩).lookup id = some request := h
      rw [AList.lookup_insert] at h
      cases h
      exact Or.inr ⟨open_, call, here, encoded, rfl, set_self here⟩
    · have h : (s.pending.insert id' ⟨call.op, c⟩).lookup id = some request := h
      rw [AList.lookup_insert_ne same] at h
      exact Or.inl h
  | removed c call id' here at_ => exact Or.inl (erased h)
  | took frame request' at_ there same => exact Or.inl (erased h)
  | drained who error at_ =>
    have h : (∅ : AList fun _ : String => PendingRequest).lookup id = some request := h
    rw [AList.lookup_empty] at h
    cases h
  | released who error at_ =>
    cases who <;> exact Or.inl h
  | cutOff i who at_ => cases who <;> exact Or.inl h
  | _ => exact Or.inl h

theorem drained_stays (step : Stepped cfg s act s') (h : s.Drained) : s'.Drained := by
  obtain ⟨closed, free⟩ := h
  have sending {who : Who} {error : BridgeError} {point : Point}
      (at_ : s.closing = some ⟨who, error, point⟩) : ∃ rest, point = .sending rest := by
    rcases free with free | ⟨_, _, rest, free⟩
    · rw [at_] at free
      cases free
    · rw [at_] at free
      cases free
      exact ⟨rest, rfl⟩
  cases step with
  | marked who error point reading writing keeps free' open_ start nobody =>
    rw [closed] at open_
    cases open_
  | markedBy c call id error here at_ free' open_ =>
    rw [closed] at open_
    cases open_
  | ending who error point point' writer outputEnded at_ next =>
    obtain ⟨rest, rfl⟩ := sending at_
    rcases next with ⟨next, -⟩ | ⟨next, -⟩ <;> cases next
  | drained who error at_ =>
    obtain ⟨rest, same⟩ := sending at_
    cases same
  | told who error rest c one at_ => exact ⟨closed, Or.inr ⟨who, error, _, rfl⟩⟩
  | released who error at_ => cases who <;> exact ⟨closed, Or.inl rfl⟩
  | cutOff i who at_ => cases who <;> exact ⟨closed, free⟩
  | _ => exact ⟨closed, free⟩

/-- Where the table was drained, or is by a step. -/
theorem Stepped.drains (step : Stepped cfg s act s') (h : s'.Drained) : s.Drained ∨ s'.pending = ∅ := by
  obtain ⟨closed, free⟩ := h
  cases step with
  | marked who error point reading writing keeps free' open_ start nobody =>
    rcases free with free | ⟨_, _, _, free⟩
    · cases free
    · rcases start with rfl | rfl <;> cases free
  | markedBy c call id error here at_ free' open_ =>
    rcases free with free | ⟨_, _, _, free⟩ <;> cases free
  | ending who error point point' writer outputEnded at_ next =>
    rcases free with free | ⟨_, _, _, free⟩
    · cases free
    · rcases next with ⟨-, rfl⟩ | ⟨-, rfl⟩ <;> cases free
  | drained who error at_ => exact Or.inr rfl
  | told who error rest c one at_ => exact Or.inl ⟨closed, Or.inr ⟨who, error, rest, at_⟩⟩
  | released who error at_ =>
    refine Or.inl ⟨?_, Or.inr ⟨who, error, [], at_⟩⟩
    cases who <;> exact closed
  | cutOff i who at_ => cases who <;> exact Or.inl ⟨closed, free⟩
  | _ => exact Or.inl ⟨closed, free⟩

theorem Stepped.closes (step : Stepped cfg s act s') (h : s.closing ≠ none → s.closed = true)
    (busy : s'.closing ≠ none) : s'.closed = true := by
  cases step with
  | marked who error point reading writing keeps free open_ start nobody => rfl
  | markedBy c call id error here at_ free open_ => rfl
  | ending who error point point' writer outputEnded at_ next =>
    exact h (by rw [at_]; exact Option.some_ne_none _)
  | drained who error at_ => exact h (by rw [at_]; exact Option.some_ne_none _)
  | told who error rest c one at_ => exact h (by rw [at_]; exact Option.some_ne_none _)
  | released who error at_ =>
    cases who <;> exact absurd rfl busy
  | cutOff i who at_ => cases who <;> exact h busy
  | _ => exact h busy

/-- A call that cuts the output, under no lock, found the transport closed. -/
theorem Stepped.cutters (step : Stepped cfg s act s') {cut : Cutting} (inside : cut ∈ s'.cuts)
    (calls : cut.who.caller ≠ none) :
    (∃ before ∈ s.cuts, before.who.caller ≠ none) ∨ (s.closed = true ∧ s.closing = none) := by
  cases step with
  | cutting who reading writing keeps nobody =>
    rcases List.mem_append.1 inside with inside | inside
    · exact Or.inl ⟨cut, inside, calls⟩
    · rw [List.mem_singleton.1 inside] at calls
      exact absurd nobody calls
  | cuttingBy c call id error here at_ free closed => exact Or.inr ⟨closed, free⟩
  | cut i who at_ =>
    rcases List.mem_or_eq_of_mem_set inside with inside | rfl
    · exact Or.inl ⟨cut, inside, calls⟩
    · exact Or.inl ⟨_, List.mem_of_getElem? at_, calls⟩
  | released who error at_ =>
    refine Or.inl ⟨cut, ?_, calls⟩
    cases who <;> exact inside
  | cutOff i who at_ =>
    refine Or.inl ⟨cut, List.mem_of_mem_eraseIdx (i := i) ?_, calls⟩
    cases who <;> exact inside
  | _ => exact Or.inl ⟨cut, inside, calls⟩

theorem Table.step (h : Table s) (busy : Busy s) (step : Stepped cfg s act s') : Table s' where
  entry := by
    intro id request there
    rcases step.entry there with old | ⟨-, call, here, at_, op, new⟩
    · obtain ⟨call, here, bears, op, entered⟩ := h.entry old
      obtain ⟨call', here', follows⟩ := step.follows busy here
      exact ⟨call', here', follows.id _ bears, follows.op.trans op, follows.entered entered⟩
    · exact ⟨_, new, rfl, op.symm, rfl⟩
  marked := step.closes h.marked
  drained := by
    intro drained
    rcases step.drains drained with before | empty
    · have empty := h.drained before
      refine AList.ext (List.eq_nil_iff_forall_not_mem.2 ?_)
      rintro ⟨id, request⟩ inside
      have there := AList.mem_lookup_iff.2 inside
      rcases step.entry there with old | ⟨open_, -⟩
      · rw [empty, AList.lookup_empty] at old
        cases old
      · rw [before.1] at open_
        cases open_
    · exact empty
  cutters := by
    intro cut inside calls
    refine drained_stays step ?_
    rcases step.cutters inside calls with ⟨before, inside, calls⟩ | ⟨closed, free⟩
    · exact h.cutters before inside calls
    · exact ⟨closed, Or.inl free⟩

/-- A call that entered the table and left it. -/
def Inner.Settled (s : Inner) (c : Nat) : Prop :=
  ∃ call id, s.calls[c]? = some call ∧ call.stage.id = some id ∧ call.stage.entered = true ∧
    id ∉ s.pending

theorem Inner.Settled.step (h : s.Settled d) (ids : Ids cfg s) (busy : Busy s)
    (step : Stepped cfg s act s') : s'.Settled d := by
  obtain ⟨call, id, here, bears, entered, out⟩ := h
  obtain ⟨call', here', follows⟩ := step.follows busy here
  refine ⟨call', id, here', follows.id id bears, follows.entered entered, fun inside => ?_⟩
  obtain ⟨request, there⟩ := Option.isSome_iff_exists.1 (AList.lookup_isSome.2 inside)
  rcases step.entry there with old | ⟨-, one, there, encoded, -⟩
  · exact out (AList.lookup_isSome.1 (by rw [old]; rfl))
  · have same := ids.own ⟨one, there, congrArg Stage.id encoded⟩ ⟨call, here, bears⟩
    rw [same, here] at there
    cases there
    rw [encoded] at entered
    cases entered

/-! ## 5. What is handed over -/

/-- The calls that who closed the transport has still to tell. -/
def Inner.rest (s : Inner) : List Nat :=
  match s.closing with
  | some ⟨_, _, .sending rest⟩ => rest
  | _ => []

/-- A call has a message it has not read. -/
def Inner.Boxed (s : Inner) (c : Nat) : Prop := s.Has c fun call => call.inbox ≠ []

/-- A call's entry was taken: it is in the reader's hand, on the closer's list, or was handed over. -/
def Inner.Taken (s : Inner) (c : Nat) : Prop :=
  (∃ frame, s.reading.hand = some (frame, c)) ∨ c ∈ s.rest ∨ s.Boxed c ∨ c ∈ s.handed.map Prod.snd

theorem boxed_deliver {c d : Nat} {answer : Answer} (h : (s.deliver d answer).Boxed c) :
    c = d ∨ s.Boxed c := by
  obtain ⟨one, there, some_⟩ := h
  obtain ⟨old, before, ⟨same, -⟩ | ⟨-, rfl⟩⟩ := modify_cases there
  · exact Or.inl same
  · exact Or.inr ⟨one, before, some_⟩

theorem taken_finish {t : Inner} {c : Nat} (who : Who) (calls : t.calls = s.calls)
    (reading : t.reading = s.reading) (rest : t.rest = s.rest) (handed : t.handed = s.handed)
    (h : (t.finish who).Taken c) : s.Taken c := by
  unfold Inner.Taken
  rw [← reading, ← rest, ← handed]
  rcases h with ⟨frame, hand⟩ | inside | box | given
  · refine Or.inl ⟨frame, ?_⟩
    cases who with
    | reader => cases hand
    | writer | call | other => exact hand
  · refine Or.inr (Or.inl ?_)
    cases who <;> exact inside
  · exact Or.inr (Or.inr (Or.inl (has_finish box calls fun _ _ some_ => some_)))
  · refine Or.inr (Or.inr (Or.inr ?_))
    cases who <;> exact given

/-- Whose entry is taken after a step: whose was, or one the step took from the table. -/
theorem Stepped.taken (step : Stepped cfg s act s') {c : Nat} (h : s'.Taken c) :
    s.Taken c ∨ ∃ id request, s.pending.lookup id = some request ∧ request.sender = c ∧
      id ∉ s'.pending := by
  cases step with
  | aside now jobs writer outputEnded writing reading keeps =>
    rcases h with ⟨frame, hand⟩ | more
    · exact Or.inl (Or.inl ⟨frame, keeps.hand _ hand⟩)
    · exact Or.inl (Or.inr more)
  | began op body deadline =>
    rcases h with hand | inside | ⟨one, there, some_⟩ | given
    · exact Or.inl (Or.inl hand)
    · exact Or.inl (Or.inr (Or.inl inside))
    · rcases append_cases there with there | rfl
      · exact Or.inl (Or.inr (Or.inr (Or.inl ⟨one, there, some_⟩)))
      · exact absurd rfl some_
    · exact Or.inl (Or.inr (Or.inr (Or.inr given)))
  | goesOn d call here | foundClosed d call here | minted d call here | unsent d call here
  | shut d call id here | entered d call id here | moved d call id phase phase' canceled jobs here
  | refused d call id phase here | received d call id answer inbox here | dropped d call id here
  | removed d call id here | cuttingBy d call id error here =>
    rcases h with hand | inside | box | given
    · exact Or.inl (Or.inl hand)
    · exact Or.inl (Or.inr (Or.inl inside))
    · exact Or.inl (Or.inr (Or.inr (Or.inl (has_set box here rfl fun some_ => some_))))
    · exact Or.inl (Or.inr (Or.inr (Or.inr given)))
  | read frame =>
    rcases h with ⟨frame, hand⟩ | more
    · cases hand
    · exact Or.inl (Or.inr more)
  | took frame request at_ there same =>
    rcases h with ⟨frame', hand⟩ | more
    · cases hand
      refine Or.inr ⟨frame.id, request, there, rfl, fun inside => ?_⟩
      exact (AList.mem_erase.1 inside).1 rfl
    · exact Or.inl (Or.inr more)
  | gave frame sender at_ =>
    have was : s.Taken sender := Or.inl ⟨frame, by rw [at_]; rfl⟩
    rcases h with ⟨frame', hand⟩ | inside | box | given
    · cases hand
    · exact Or.inl (Or.inr (Or.inl inside))
    · rcases boxed_deliver box with rfl | box
      · exact Or.inl was
      · exact Or.inl (Or.inr (Or.inr (Or.inl box)))
    · have given : c ∈ (s.handed ++ [(s.frames.length - 1, sender)]).map Prod.snd := given
      rw [List.map_append] at given
      rcases List.mem_append.1 given with given | given
      · exact Or.inl (Or.inr (Or.inr (Or.inr given)))
      · rw [List.mem_singleton.1 given]
        exact Or.inl was
  | marked who error point reading writing keeps free open_ start nobody =>
    rcases h with ⟨frame, hand⟩ | inside | more
    · exact Or.inl (Or.inl ⟨frame, keeps.hand _ hand⟩)
    · rcases start with rfl | rfl <;> exact absurd inside List.not_mem_nil
    · exact Or.inl (Or.inr (Or.inr more))
  | markedBy d call id error here at_ free open_ =>
    rcases h with hand | inside | box | given
    · exact Or.inl (Or.inl hand)
    · exact absurd inside List.not_mem_nil
    · exact Or.inl (Or.inr (Or.inr (Or.inl (has_set box here rfl fun some_ => some_))))
    · exact Or.inl (Or.inr (Or.inr (Or.inr given)))
  | cutting who reading writing keeps nobody =>
    rcases h with ⟨frame, hand⟩ | more
    · exact Or.inl (Or.inl ⟨frame, keeps.hand _ hand⟩)
    · exact Or.inl (Or.inr more)
  | ending who error point point' writer outputEnded at_ next =>
    rcases h with hand | inside | more
    · exact Or.inl (Or.inl hand)
    · rcases next with ⟨-, rfl⟩ | ⟨-, rfl⟩ <;> exact absurd inside List.not_mem_nil
    · exact Or.inl (Or.inr (Or.inr more))
  | drained who error at_ =>
    rcases h with hand | inside | more
    · exact Or.inl (Or.inl hand)
    · obtain ⟨⟨id, request⟩, there, rfl⟩ := List.mem_map.1 inside
      exact Or.inr ⟨id, request, AList.mem_lookup_iff.2 there, rfl, AList.notMem_empty id⟩
    · exact Or.inl (Or.inr (Or.inr more))
  | told who error rest d one at_ =>
    have was {d : Nat} (one : d ∈ rest) : s.Taken d := by
      refine Or.inr (Or.inl ?_)
      unfold Inner.rest
      rw [at_]
      exact one
    rcases h with hand | inside | box | given
    · exact Or.inl (Or.inl hand)
    · exact Or.inl (was (List.mem_of_mem_erase inside))
    · rcases boxed_deliver box with rfl | box
      · exact Or.inl (was one)
      · exact Or.inl (Or.inr (Or.inr (Or.inl box)))
    · exact Or.inl (Or.inr (Or.inr (Or.inr given)))
  | released who error at_ =>
    have rest : ({ s with closing := none } : Inner).rest = s.rest := by
      unfold Inner.rest
      rw [at_]
    exact Or.inl (taken_finish (t := { s with closing := none }) who rfl rfl rest rfl h)
  | cut i who at_ => exact Or.inl h
  | cutOff i who at_ =>
    exact Or.inl (taken_finish (t := { s with writer := false, cuts := s.cuts.eraseIdx i }) who rfl
      rfl rfl rfl h)

/-- The call that a frame answers. -/
def Inner.Fits (s : Inner) (frame : Frame) (c : Nat) : Prop :=
  s.Has c fun call => call.stage.id = some frame.id ∧ call.op = frame.op

theorem Inner.Fits.step {frame : Frame} {c : Nat} (h : s.Fits frame c) (busy : Busy s)
    (step : Stepped cfg s act s') : s'.Fits frame c := by
  obtain ⟨call, here, id, op⟩ := h
  obtain ⟨call', here', follows⟩ := step.follows busy here
  exact ⟨call', here', follows.id _ id, follows.op.trans op⟩

/-- What the reader has read, and handed over: each response once, and to each call one. -/
structure Handing (s : Inner) : Prop where
  settled : ∀ {c}, s.Taken c → s.Settled c
  known : ∀ k ∈ s.handed.map Prod.fst, k < s.frames.length
  asks : ∀ {frame}, s.reading.asks = some frame →
    s.frames.getLast? = some frame ∧ ∀ k ∈ s.handed.map Prod.fst, k + 1 < s.frames.length
  hand : ∀ {frame c}, s.reading.hand = some (frame, c) →
    (s.frames.getLast? = some frame ∧ ∀ k ∈ s.handed.map Prod.fst, k + 1 < s.frames.length) ∧
      c ∉ s.handed.map Prod.snd ∧ s.Fits frame c
  fits : ∀ {k c}, (k, c) ∈ s.handed → ∃ frame, s.frames[k]? = some frame ∧ s.Fits frame c
  onceFrames : (s.handed.map Prod.fst).Nodup
  onceCalls : (s.handed.map Prod.snd).Nodup

theorem Handing.settles (h : Handing s) (table : Table s) (ids : Ids cfg s) (busy : Busy s)
    (step : Stepped cfg s act s') {c : Nat} (taken : s'.Taken c) : s'.Settled c := by
  rcases step.taken taken with before | ⟨id, request, there, rfl, out⟩
  · exact (h.settled before).step ids busy step
  · obtain ⟨call, here, bears, -, entered⟩ := table.entry there
    obtain ⟨call', here', follows⟩ := step.follows busy here
    exact ⟨call', id, here', follows.id _ bears, follows.entered entered, out⟩

/-- A step that reads no frame, and hands none over. -/
theorem Handing.aside (h : Handing s) (follow : ∀ {frame c}, s.Fits frame c → s'.Fits frame c)
    (settled : ∀ {c}, s'.Taken c → s'.Settled c) (keeps : s.reading.Keeps s'.reading)
    (frames : s'.frames = s.frames) (handed : s'.handed = s.handed) : Handing s' where
  settled := settled
  known := by
    rw [frames, handed]
    exact h.known
  asks one := by
    rw [frames, handed]
    exact h.asks (keeps.asks _ one)
  hand one := by
    obtain ⟨last, new, fits⟩ := h.hand (keeps.hand _ one)
    rw [frames, handed]
    exact ⟨last, new, follow fits⟩
  fits one := by
    rw [handed] at one
    obtain ⟨frame, there, fits⟩ := h.fits one
    rw [frames]
    exact ⟨frame, there, follow fits⟩
  onceFrames := by
    rw [handed]
    exact h.onceFrames
  onceCalls := by
    rw [handed]
    exact h.onceCalls

theorem finish_keeps (t : Inner) (who : Who) : t.reading.Keeps (t.finish who).reading ∧
    (t.finish who).frames = t.frames ∧ (t.finish who).handed = t.handed := by
  cases who with
  | reader => exact ⟨.of_none rfl rfl, rfl, rfl⟩
  | writer | call | other => exact ⟨.same, rfl, rfl⟩

theorem Handing.step (h : Handing s) (table : Table s) (ids : Ids cfg s) (busy : Busy s)
    (step : Stepped cfg s act s') : Handing s' := by
  have settled {c : Nat} (taken : s'.Taken c) : s'.Settled c := h.settles table ids busy step taken
  have follow {frame : Frame} {c : Nat} (fits : s.Fits frame c) : s'.Fits frame c :=
    fits.step busy step
  cases step with
  | read frame =>
    have more {k : Nat} (one : k ∈ s.handed.map Prod.fst) : k + 1 < (s.frames ++ [frame]).length := by
      rw [List.length_append]
      exact Nat.succ_lt_succ (h.known k one)
    refine ⟨settled, fun k one => Nat.lt_of_succ_lt (more one), fun one => ?_, fun one => (by cases one),
      fun one => ?_, h.onceFrames, h.onceCalls⟩
    · cases one
      exact ⟨List.getLast?_concat, fun k one => more one⟩
    · obtain ⟨frame', there, fits⟩ := h.fits one
      refine ⟨frame', ?_, fits⟩
      show (s.frames ++ [frame])[_]? = some frame'
      rw [List.getElem?_append_left (List.getElem?_eq_some_iff.1 there).1, there]
  | took frame request at_ there same =>
    obtain ⟨call, here, bears, op, entered⟩ := table.entry there
    refine ⟨settled, h.known, fun one => (by cases one), fun one => ?_, h.fits, h.onceFrames,
      h.onceCalls⟩
    cases one
    refine ⟨h.asks (by rw [at_]; rfl), fun given => ?_, ⟨call, here, bears, op.trans same⟩⟩
    obtain ⟨call', id, here', bears', -, out⟩ := h.settled (Or.inr (Or.inr (Or.inr given)))
    rw [here] at here'
    cases here'
    rw [bears] at bears'
    cases bears'
    exact out (AList.lookup_isSome.1 (by rw [there]; rfl))
  | gave frame sender at_ =>
    have held : s.reading.hand = some (frame, sender) := by
      rw [at_]
      rfl
    obtain ⟨⟨last, below⟩, new, fits⟩ := h.hand held
    have some_ : s.frames ≠ [] := by
      rintro empty
      rw [empty] at last
      cases last
    have positive := List.length_pos_iff.2 some_
    refine ⟨settled, ?_, fun one => (by cases one), fun one => (by cases one), fun {k c} one => ?_, ?_, ?_⟩
    · intro k one
      rw [List.map_append] at one
      rcases List.mem_append.1 one with one | one
      · exact h.known k one
      · rw [List.mem_singleton.1 one]
        exact Nat.sub_lt positive Nat.one_pos
    · rcases List.mem_append.1 one with one | one
      · obtain ⟨frame', there, fits'⟩ := h.fits one
        exact ⟨frame', there, follow fits'⟩
      · cases List.mem_singleton.1 one
        refine ⟨frame, ?_, follow fits⟩
        show s.frames[s.frames.length - 1]? = some frame
        rw [← List.getLast?_eq_getElem?, last]
    · rw [List.map_append]
      refine List.nodup_append.2 ⟨h.onceFrames, List.nodup_singleton _, ?_⟩
      rintro k one j other rfl
      have same := List.mem_singleton.1 other
      have := below k one
      omega
    · rw [List.map_append]
      refine List.nodup_append.2 ⟨h.onceCalls, List.nodup_singleton _, ?_⟩
      rintro c one d other rfl
      rw [List.mem_singleton.1 other] at one
      exact new one
  | aside now jobs writer outputEnded writing reading keeps =>
    exact h.aside follow settled keeps rfl rfl
  | marked who error point reading writing keeps free open_ start nobody =>
    exact h.aside follow settled keeps rfl rfl
  | cutting who reading writing keeps nobody => exact h.aside follow settled keeps rfl rfl
  | released who error at_ =>
    obtain ⟨keeps, frames, handed⟩ := finish_keeps { s with closing := none } who
    exact h.aside follow settled keeps frames handed
  | cutOff i who at_ =>
    obtain ⟨keeps, frames, handed⟩ :=
      finish_keeps { s with writer := false, cuts := s.cuts.eraseIdx i } who
    exact h.aside follow settled keeps frames handed
  | _ => exact h.aside follow settled .same rfl rfl

/-! ## 6. What is answered -/

/-- What a call was handed: the body of a response, or an error. -/
def Inner.Given (s : Inner) (c : Nat) (answer : Answer) : Prop :=
  (∃ error, answer = .error error) ∨
    ∃ k frame, (k, c) ∈ s.handed ∧ s.frames[k]? = some frame ∧ answer = .ok frame.body

/-- What a call returns. -/
def Inner.Right (s : Inner) (c : Nat) (answer : Answer) : Prop :=
  answer = .ok deadlineBody ∨ answer = .ok tooLargeBody ∨ s.Given c answer

structure Answers (s : Inner) : Prop where
  messages : ∀ {c answer}, s.Has c (fun call => answer ∈ call.inbox) → s.Given c answer
  answers : ∀ {c answer}, s.Has c (fun call => call.stage.answer = some answer) → s.Right c answer

theorem Inner.Given.step {c : Nat} {answer : Answer} (h : s.Given c answer)
    (step : Stepped cfg s act s') : s'.Given c answer := by
  rcases h with error | ⟨k, frame, given, there, body⟩
  · exact Or.inl error
  · refine Or.inr ⟨k, frame, ?_⟩
    cases step with
    | read frame' =>
      refine ⟨given, ?_, body⟩
      show (s.frames ++ [frame'])[k]? = some frame
      rw [List.getElem?_append_left (List.getElem?_eq_some_iff.1 there).1, there]
    | gave frame' sender at_ => exact ⟨List.mem_append_left _ given, there, body⟩
    | released who error at_ => cases who <;> exact ⟨given, there, body⟩
    | cutOff i who at_ => cases who <;> exact ⟨given, there, body⟩
    | _ => exact ⟨given, there, body⟩

theorem Inner.Right.step {c : Nat} {answer : Answer} (h : s.Right c answer)
    (step : Stepped cfg s act s') : s'.Right c answer := by
  rcases h with deadline | large | given
  · exact Or.inl deadline
  · exact Or.inr (Or.inl large)
  · exact Or.inr (Or.inr (given.step step))

theorem has_deliver {c d : Nat} {answer one : Answer}
    (h : (s.deliver d one).Has c fun call => answer ∈ call.inbox) :
    s.Has c (fun call => answer ∈ call.inbox) ∨ c = d ∧ answer = one := by
  obtain ⟨call, there, inside⟩ := h
  obtain ⟨old, before, ⟨same, rfl⟩ | ⟨-, rfl⟩⟩ := modify_cases there
  · rcases List.mem_append.1 inside with inside | inside
    · exact Or.inl ⟨old, before, inside⟩
    · exact Or.inr ⟨same, List.mem_singleton.1 inside⟩
  · exact Or.inl ⟨call, before, inside⟩

/-- Which message a call has after a step: one it had, or what the step gave it. -/
theorem Answers.messages_step (h : Answers s) (handing : Handing s) (step : Stepped cfg s act s') {c : Nat}
    {answer : Answer} (has : s'.Has c fun call => answer ∈ call.inbox) : s'.Given c answer := by
  have old (has : s.Has c fun call => answer ∈ call.inbox) : s'.Given c answer :=
    (h.messages has).step step
  cases step with
  | began op body deadline =>
    obtain ⟨call, there, inside⟩ := has
    rcases append_cases there with there | rfl
    · exact old ⟨call, there, inside⟩
    · cases inside
  | goesOn d call here | foundClosed d call here | minted d call here | unsent d call here
  | shut d call id here | entered d call id here | moved d call id phase phase' canceled jobs here
  | refused d call id phase here | received d call id answer inbox here | dropped d call id here
  | removed d call id here | cuttingBy d call id error here | markedBy d call id error here =>
    exact old (has_set has here rfl fun inside => inside)
  | gave frame sender at_ =>
    rcases has_deliver has with has | ⟨rfl, rfl⟩
    · exact old has
    · have held : s.reading.hand = some (frame, c) := by
        rw [at_]
        rfl
      obtain ⟨⟨last, -⟩, -⟩ := handing.hand held
      refine Or.inr ⟨_, frame, List.mem_append_right _ (List.mem_singleton_self _), ?_, rfl⟩
      show s.frames[s.frames.length - 1]? = some frame
      rw [← List.getLast?_eq_getElem?, last]
  | told who error rest d one at_ =>
    rcases has_deliver has with has | ⟨rfl, rfl⟩
    · exact old has
    · exact Or.inl ⟨error, rfl⟩
  | released who error at_ =>
    exact old (has_finish (t := { s with closing := none }) has rfl fun _ _ inside => inside)
  | cutOff i who at_ =>
    exact old (has_finish (t := { s with writer := false, cuts := s.cuts.eraseIdx i }) has rfl
      fun _ _ inside => inside)
  | _ => exact old has

/-- A call's return, or that of another. -/
theorem returns_set {t : Inner} {c d : Nat} {call' : Call} {answer : Answer}
    (has : t.Has d fun call => call.stage.answer = some answer)
    (calls : t.calls = s.calls.set c call') :
    s.Has d (fun call => call.stage.answer = some answer) ∨ d = c ∧ call'.stage.answer = some answer := by
  obtain ⟨one, there, returned⟩ := has
  rw [calls] at there
  rcases set_cases there with ⟨same, rfl⟩ | ⟨-, there⟩
  · exact Or.inr ⟨same, returned⟩
  · exact Or.inl ⟨one, there, returned⟩

theorem returns_finish {t : Inner} {who : Who} {c : Nat} {answer : Answer}
    (has : (t.finish who).Has c fun call => call.stage.answer = some answer) :
    t.Has c (fun call => call.stage.answer = some answer) ∨ ∃ error, answer = .error error := by
  cases who with
  | call d error =>
    obtain ⟨one, there, returned⟩ := has
    obtain ⟨old, before, ⟨-, rfl⟩ | ⟨-, rfl⟩⟩ := modify_cases there
    · cases returned
      exact Or.inr ⟨error, rfl⟩
    · exact Or.inl ⟨one, before, returned⟩
  | reader | writer | other => exact Or.inl has

/-- What is returned after a step: what was, or what the step returned. -/
theorem Answers.answers_step (h : Answers s) (step : Stepped cfg s act s') {c : Nat} {answer : Answer}
    (has : s'.Has c fun call => call.stage.answer = some answer) : s'.Right c answer := by
  have old (has : s.Has c fun call => call.stage.answer = some answer) : s'.Right c answer :=
    (h.answers has).step step
  have failed {error : BridgeError} (same : answer = .error error) : s'.Right c answer :=
    Or.inr (Or.inr (Or.inl ⟨error, same⟩))
  cases step with
  | began op body deadline =>
    obtain ⟨call, there, returned⟩ := has
    rcases append_cases there with there | rfl
    · exact old ⟨call, there, returned⟩
    · cases returned
  | goesOn d call here | minted d call here | entered d call id here
  | moved d call id phase phase' canceled jobs here | markedBy d call id error here
  | cuttingBy d call id error here =>
    rcases returns_set has rfl with has | ⟨-, returned⟩
    · exact old has
    · cases returned
  | foundClosed d call here | shut d call id here | refused d call id phase here
  | dropped d call id here =>
    rcases returns_set has rfl with has | ⟨-, returned⟩
    · exact old has
    · cases returned
      exact failed rfl
  | unsent d call here minting one which =>
    rcases returns_set has rfl with has | ⟨-, returned⟩
    · exact old has
    · cases returned
      rcases which with rfl | ⟨error, rfl⟩
      · exact Or.inr (Or.inl rfl)
      · exact failed rfl
  | received d call id one inbox here at_ first =>
    rcases returns_set has rfl with has | ⟨rfl, returned⟩
    · exact old has
    · cases returned
      have message : s.Has c fun call => answer ∈ call.inbox :=
        ⟨call, here, by
          show answer ∈ call.inbox
          rw [first]
          exact List.mem_cons_self⟩
      exact Or.inr (Or.inr (h.messages message))
  | removed d call id here at_ =>
    rcases returns_set has rfl with has | ⟨-, returned⟩
    · exact old has
    · cases returned
      exact Or.inl rfl
  | gave frame sender at_ =>
    exact old (has_modify (f := fun call => { call with inbox := call.inbox ++ [.ok frame.body] }) has
      rfl fun _ one => one)
  | told who error rest d one at_ =>
    exact old (has_modify (f := fun call => { call with inbox := call.inbox ++ [.error error] }) has
      rfl fun _ one => one)
  | released who error at_ =>
    rcases returns_finish has with has | ⟨error, same⟩
    · exact old has
    · exact failed same
  | cutOff i who at_ =>
    rcases returns_finish has with has | ⟨error, same⟩
    · exact old has
    · exact failed same
  | _ => exact old has

/-- What holds of a bridge, whatever happened. -/
structure Sound (cfg : Config) (s : Inner) : Prop where
  busy : Busy s
  ids : Ids cfg s
  table : Table s
  handing : Handing s
  answers : Answers s

theorem Sound.new : Sound cfg {} where
  busy := by
    refine ⟨List.nodup_nil, fun c => ⟨fun inside => absurd inside List.not_mem_nil, ?_⟩⟩
    rintro ⟨call, there, -⟩
    cases there
  ids := by
    constructor
    · rintro c id ⟨call, there, -⟩
      cases there
    · rintro c d id ⟨call, there, -⟩
      cases there
  table := by
    refine ⟨fun there => ?_, fun some_ => absurd rfl some_, fun _ => rfl,
      fun cut inside => absurd inside List.not_mem_nil⟩
    rw [AList.lookup_empty] at there
    cases there
  handing := by
    refine ⟨?_, fun k one => absurd one List.not_mem_nil, fun one => (by cases one),
      fun one => (by cases one), fun one => absurd one List.not_mem_nil, List.nodup_nil, List.nodup_nil⟩
    rintro c (⟨frame, hand⟩ | inside | ⟨call, there, -⟩ | given)
    · cases hand
    · cases inside
    · cases there
    · cases given
  answers := by
    constructor
    · rintro c answer ⟨call, there, -⟩
      cases there
    · rintro c answer ⟨call, there, -⟩
      cases there

theorem Sound.step (h : Sound cfg s) (step : Stepped cfg s act s') : Sound cfg s' where
  busy := h.busy.step step
  ids := h.ids.step step
  table := h.table.step h.busy step
  handing := h.handing.step h.table h.ids h.busy step
  answers := ⟨h.answers.messages_step h.handing step, h.answers.answers_step step⟩

/-! ## 7. A call that has not returned can -/

/-- A step of a call, of the clock, or of who closes the transport. -/
def Act.isOwn (c : Nat) : Act → Bool
  | go d => d == c
  | tick | close | send _ | cut _ => true
  | _ => false

/-- A call returns, by steps that no peer, reader or writer takes. -/
def Inner.Ends (cfg : Config) (s : Inner) (c : Nat) : Prop :=
  ∃ acts t, (∀ act ∈ acts, act.isOwn c = true) ∧ s.runs cfg acts = some t ∧
    t.Has c fun call => call.stage.answer.isSome = true

section Ends

variable {c : Nat} {call : Call} {id : String}

theorem ends_step (step : s.step cfg act = some s') (own : act.isOwn c = true) (h : s'.Ends cfg c) :
    s.Ends cfg c := by
  obtain ⟨acts, t, owns, runs, ended⟩ := h
  refine ⟨act :: acts, t, fun one inside => ?_, ?_, ended⟩
  · rcases List.mem_cons.1 inside with rfl | inside
    · exact own
    · exact owns one inside
  · show (s.step cfg act).bind _ = some t
    rw [step]
    exact runs

theorem ends_go (here : s.calls[c]? = some call) (go : s.go cfg c call = some s')
    (h : s'.Ends cfg c) : s.Ends cfg c := by
  have step : s.step cfg (.go c) = some s' := by
    show s.calls[c]?.bind (s.go cfg c) = some s'
    rw [here]
    exact go
  exact ends_step step (beq_self_eq_true c) h

theorem ends_returned (here : s.calls[c]? = some call) (returned : call.stage.answer.isSome = true) :
    s.Ends cfg c :=
  ⟨[], s, fun _ inside => absurd inside List.not_mem_nil, rfl, call, here, returned⟩

/-- A call that returns by its next step. -/
theorem ends_at {id : Option String} {answer : Answer} {t : Inner} (here : s.calls[c]? = some call)
    (go : s.go cfg c call = some t)
    (calls : t.calls = s.calls.set c { call with stage := .returned id answer }) : s.Ends cfg c :=
  have there : t.calls[c]? = some { call with stage := .returned id answer } := by
    rw [calls, set_self here]
  ends_go here go (ends_returned there rfl)

theorem sound_go (h : Sound cfg s) (here : s.calls[c]? = some call) (go : s.go cfg c call = some s') :
    Sound cfg s' := by
  have step : s.step cfg (.go c) = some s' := by
    show s.calls[c]?.bind (s.go cfg c) = some s'
    rw [here]
    exact go
  exact h.step (step_stepped step)

theorem ends_removing (here : s.calls[c]? = some call) (at_ : call.stage = .asked id .removing) :
    s.Ends cfg c := by
  have go : s.go cfg c call = some { s.put c call (.returned (some id) (.ok deadlineBody)) with
      pending := s.pending.erase id } := by
    unfold Inner.go
    rw [at_]
  exact ends_at here go rfl

theorem ends_canceling (here : s.calls[c]? = some call) (at_ : call.stage = .asked id .canceling) :
    s.Ends cfg c := by
  have go : s.go cfg c call =
      some (s.put c { call with canceled := true } (.asked id .removing)) := by
    unfold Inner.go
    rw [at_]
  exact ends_go here go (ends_removing (set_self here) rfl)

/-- The clock comes to a call's deadline. -/
theorem ends_waits (here : s.calls[c]? = some call)
    (ends : ∀ {t : Inner}, t.calls[c]? = some call → call.deadline ≤ t.now → t.Ends cfg c) :
    s.Ends cfg c := by
  generalize left : call.deadline - s.now = n
  induction n generalizing s with
  | zero => exact ends here (Nat.le_of_sub_eq_zero left)
  | succ n ih =>
    have step : s.step cfg .tick = some { s with now := s.now + 1 } := rfl
    refine ends_step step rfl (ih here ?_)
    show call.deadline - (s.now + 1) = n
    omega

theorem ends_receiving (here : s.calls[c]? = some call) (at_ : call.stage = .asked id .receiving) :
    s.Ends cfg c := by
  refine ends_waits here fun {t} here late => ?_
  cases inbox : call.inbox with
  | cons answer inbox' =>
    have go : t.go cfg c call = some (t.put c call (.returned (some id) answer)) := by
      unfold Inner.go
      rw [at_]
      dsimp only
      rw [inbox]
    exact ends_at here go rfl
  | nil =>
    cases nowhere : t.sendable c with
    | false =>
      have go : t.go cfg c call = some (t.put c call (.returned (some id) (.error .eof))) := by
        unfold Inner.go
        rw [at_]
        dsimp only
        rw [inbox]
        dsimp only
        rw [nowhere]
        rfl
      exact ends_at here go rfl
    | true =>
      have go : t.go cfg c call = some (t.put c call (.asked id .canceling)) := by
        unfold Inner.go
        rw [at_]
        dsimp only
        rw [inbox]
        dsimp only
        rw [nowhere, if_neg (by decide), if_pos late]
      exact ends_go here go (ends_canceling (set_self here) rfl)

/-- A call is where it was, or has returned. -/
def Inner.At (s : Inner) (c : Nat) (stage : Stage) : Prop :=
  s.Has c fun call => call.stage = stage ∨ call.stage.answer.isSome = true

theorem at_deliver {stage : Stage} {d : Nat} {answer : Answer} (h : s.At c stage) :
    (s.deliver d answer).At c stage := by
  obtain ⟨one, there, where_⟩ := h
  by_cases same : c = d
  · subst same
    exact ⟨_, modify_self there, where_⟩
  · exact ⟨one, modify_other same there, where_⟩

theorem at_finish {stage : Stage} {who : Who} (h : s.At c stage) : (s.finish who).At c stage := by
  cases who with
  | call d error =>
    obtain ⟨one, there, where_⟩ := h
    by_cases same : c = d
    · subst same
      exact ⟨_, modify_self there, Or.inr rfl⟩
    · exact ⟨one, modify_other same there, where_⟩
  | reader | writer | other => exact h

section Release

variable {stage : Stage} {who : Who} {error : BridgeError}

theorem ends_close (step : s.step cfg .close = some s') (sound : Sound cfg s)
    (h : Sound cfg s' → s'.Ends cfg c) : s.Ends cfg c :=
  ends_step step rfl (h (sound.step (step_stepped step)))

/-- Who closes the transport tells all who wait, and lets go of the lock. -/
theorem ends_sending {rest : List Nat} (sound : Sound cfg s) (there : s.At c stage)
    (at_ : s.closing = some ⟨who, error, .sending rest⟩)
    (h : ∀ {t}, Sound cfg t → t.closing = none → t.At c stage → t.Ends cfg c) : s.Ends cfg c := by
  generalize left : rest.length = n
  induction n generalizing s rest with
  | zero =>
    cases List.length_eq_zero_iff.1 left
    have step : s.step cfg .close = some ({ s with closing := none }.finish who) := by
      show s.closing.bind s.goClose = _
      rw [at_]
      rfl
    refine ends_close step sound fun sound => h sound ?_ (at_finish there)
    cases who <;> rfl
  | succ n ih =>
    obtain ⟨d, rest', rfl⟩ := List.exists_cons_of_length_eq_add_one left
    have step : s.step cfg (.send d) = some { s.deliver d (.error error) with
        closing := some ⟨who, error, .sending ((d :: rest').erase d)⟩ } := by
      show (match s.closing with
        | some ⟨who, error, .sending rest⟩ =>
          if d ∈ rest then
            some { s.deliver d (.error error) with
              closing := some ⟨who, error, .sending (rest.erase d)⟩ }
          else none
        | _ => none) = _
      rw [at_]
      exact if_pos List.mem_cons_self
    refine ends_step step rfl (ih (sound.step (step_stepped step)) (at_deliver there) rfl ?_)
    rw [List.erase_cons_head]
    exact Nat.succ.inj left

theorem ends_draining (sound : Sound cfg s) (there : s.At c stage)
    (at_ : s.closing = some ⟨who, error, .draining⟩)
    (h : ∀ {t}, Sound cfg t → t.closing = none → t.At c stage → t.Ends cfg c) : s.Ends cfg c := by
  have step : s.step cfg .close = some { s with
      pending := ∅
      closing := some ⟨who, error, .sending (s.pending.entries.map (·.2.sender))⟩ } := by
    show s.closing.bind s.goClose = _
    rw [at_]
    rfl
  refine ends_close step sound fun sound => ?_
  exact ends_sending sound there rfl h

theorem ends_taking (sound : Sound cfg s) (there : s.At c stage)
    (at_ : s.closing = some ⟨who, error, .taking⟩)
    (h : ∀ {t}, Sound cfg t → t.closing = none → t.At c stage → t.Ends cfg c) : s.Ends cfg c := by
  have step : s.step cfg .close = some { s with
      writer := false, closing := some ⟨who, error, .draining⟩ } := by
    show s.closing.bind s.goClose = _
    rw [at_]
    rfl
  refine ends_close step sound fun sound => ?_
  exact ends_draining sound there rfl h

/-- **The lifecycle's lock is let go of**: no call waits for it for good. -/
theorem ends_locked {closing : Closing} (sound : Sound cfg s) (there : s.At c stage)
    (at_ : s.closing = some closing)
    (h : ∀ {t}, Sound cfg t → t.closing = none → t.At c stage → t.Ends cfg c) : s.Ends cfg c := by
  obtain ⟨who, error, point⟩ := closing
  cases point with
  | sending rest => exact ends_sending sound there at_ h
  | draining => exact ends_draining sound there at_ h
  | taking => exact ends_taking sound there at_ h
  | ending =>
    have step : s.step cfg .close = some { s with
        outputEnded := true, closing := some ⟨who, error, .taking⟩ } := by
      show s.closing.bind s.goClose = _
      rw [at_]
      rfl
    refine ends_close step sound fun sound => ?_
    exact ends_taking sound there rfl h

end Release

/-- A call that cuts the output, under no lock. -/
theorem ends_cutting (sound : Sound cfg s) (free : s.closing = none)
    (here : s.calls[c]? = some call) (at_ : call.stage = .asked id .closing) : s.Ends cfg c := by
  have closes : c ∈ s.closers := (sound.busy.tells c).2 ⟨call, here, by rw [at_]; rfl⟩
  unfold Inner.closers at closes
  rw [free] at closes
  obtain ⟨_, one, calls⟩ := List.mem_filterMap.1 closes
  obtain ⟨⟨who', ended⟩, cut, rfl⟩ := List.mem_map.1 one
  obtain ⟨i, inside⟩ := List.mem_iff_getElem?.1 cut
  have off {s : Inner} (here : s.calls[c]? = some call) (inside : s.cuts[i]? = some ⟨who', true⟩) :
      s.Ends cfg c := by
    have step : s.step cfg (.cut i) =
        some ({ s with writer := false, cuts := s.cuts.eraseIdx i }.finish who') := by
      rw [Inner.step, inside]
    refine ends_step step rfl ?_
    cases who' with
    | call d error =>
      cases calls
      exact ends_returned (modify_self here) rfl
    | reader | writer | other => cases calls
  cases ended with
  | true => exact off here inside
  | false =>
    have step : s.step cfg (.cut i) =
        some { s with outputEnded := true, cuts := s.cuts.set i ⟨who', true⟩ } := by
      rw [Inner.step, inside]
    exact ends_step step rfl
      (off here (List.getElem?_set_self (List.getElem?_eq_some_iff.1 inside).1))

theorem ends_closing (sound : Sound cfg s) (here : s.calls[c]? = some call)
    (at_ : call.stage = .asked id .closing) : s.Ends cfg c := by
  cases closing : s.closing with
  | none => exact ends_cutting sound closing here at_
  | some closing' =>
    refine ends_locked sound ⟨call, here, Or.inl at_⟩ closing fun sound free there => ?_
    obtain ⟨one, there, at_ | returned⟩ := there
    · exact ends_cutting sound free there at_
    · exact ends_returned there returned

theorem ends_failing {error : BridgeError} (sound : Sound cfg s) (here : s.calls[c]? = some call)
    (at_ : call.stage = .asked id (.failing error)) : s.Ends cfg c := by
  have unlocked {s : Inner} {call : Call} (sound : Sound cfg s) (free : s.closing = none)
      (here : s.calls[c]? = some call) (at_ : call.stage = .asked id (.failing error)) :
      s.Ends cfg c := by
    cases closed : s.closed with
    | true =>
      have go : s.go cfg c call = some { s.put c call (.asked id .closing) with
          cuts := s.cuts ++ [⟨.call c error, false⟩] } := by
        unfold Inner.go
        rw [at_]
        show Inner.closeTransport _ _ _ _ = _
        unfold Inner.closeTransport
        show (if s.closing.isSome = true then _ else _) = _
        rw [free, if_neg (by decide)]
        show (if s.closed = true then _ else _) = _
        rw [closed, if_pos rfl, if_neg (by decide)]
        rfl
      exact ends_go here go (ends_closing (sound_go sound here go) (set_self here) rfl)
    | false =>
      have go : s.go cfg c call = some { s.put c call (.asked id .closing) with
          closed := true, closing := some ⟨.call c error, error, .ending⟩ } := by
        unfold Inner.go
        rw [at_]
        show Inner.closeTransport _ _ _ _ = _
        unfold Inner.closeTransport
        show (if s.closing.isSome = true then _ else _) = _
        rw [free, if_neg (by decide)]
        show (if s.closed = true then _ else _) = _
        rw [closed, if_neg (by decide), if_neg (by decide)]
      exact ends_go here go (ends_closing (sound_go sound here go) (set_self here) rfl)
  cases closing : s.closing with
  | none => exact unlocked sound closing here at_
  | some closing' =>
    refine ends_locked sound ⟨call, here, Or.inl at_⟩ closing fun sound free there => ?_
    obtain ⟨one, there, at_ | returned⟩ := there
    · exact unlocked sound free there at_
    · exact ends_returned there returned

theorem ends_stalled (here : s.calls[c]? = some call) (at_ : call.stage = .asked id .stalled) :
    s.Ends cfg c := by
  refine ends_waits here fun {t} here late => ?_
  have go : t.go cfg c call = some (t.put c call (.asked id .canceling)) := by
    unfold Inner.go
    rw [at_]
    dsimp only
    rw [if_pos late]
  exact ends_go here go (ends_canceling (set_self here) rfl)

theorem ends_offering (sound : Sound cfg s) (here : s.calls[c]? = some call)
    (at_ : call.stage = .asked id .offering) : s.Ends cfg c := by
  have run : s.go cfg c call = if !s.writer then
        some (s.put c call (.returned (some id) (.error .eof)))
      else if s.writing = .gone then
        some (s.put c call (.asked id (.failing (.io "bridge writer queue is closed"))))
      else if writerQueueCapacity ≤ s.jobs.length then some (s.put c call (.asked id .stalled))
      else some { s.put c call (.asked id .receiving) with jobs := s.jobs ++ [some c] } := by
    unfold Inner.go
    rw [at_]
  by_cases gone : (!s.writer) = true
  · rw [if_pos gone] at run
    exact ends_at here run rfl
  · rw [if_neg gone] at run
    by_cases closed : s.writing = .gone
    · rw [if_pos closed] at run
      exact ends_go here run (ends_failing (sound_go sound here run) (set_self here) rfl)
    · rw [if_neg closed] at run
      by_cases full : writerQueueCapacity ≤ s.jobs.length
      · rw [if_pos full] at run
        exact ends_go here run (ends_stalled (set_self here) rfl)
      · rw [if_neg full] at run
        exact ends_go here run (ends_receiving (set_self here) rfl)

theorem ends_asking (sound : Sound cfg s) (here : s.calls[c]? = some call)
    (at_ : call.stage = .asked id .asking) : s.Ends cfg c := by
  have run : s.go cfg c call = some (s.put c call (if s.outputClosed cfg then
      .returned (some id) (.error .eof) else .asked id .offering)) := by
    unfold Inner.go
    rw [at_]
  by_cases closed : s.outputClosed cfg = true
  · rw [if_pos closed] at run
    exact ends_at here run rfl
  · rw [if_neg closed] at run
    exact ends_go here run (ends_offering (sound_go sound here run) (set_self here) rfl)

theorem ends_encoded (sound : Sound cfg s) (here : s.calls[c]? = some call)
    (at_ : call.stage = .asked id .encoded) : s.Ends cfg c := by
  have run : s.go cfg c call = if s.closed then
        some (s.put c call (.returned (some id) (.error .eof)))
      else some { s.put c call (.asked id .asking) with
        pending := s.pending.insert id ⟨call.op, c⟩ } := by
    unfold Inner.go
    rw [at_]
  by_cases closed : s.closed = true
  · rw [if_pos closed] at run
    exact ends_at here run rfl
  · rw [if_neg closed] at run
    exact ends_go here run (ends_asking (sound_go sound here run) (set_self here) rfl)

theorem ends_minting (sound : Sound cfg s) (here : s.calls[c]? = some call)
    (at_ : call.stage = .minting) : s.Ends cfg c := by
  cases encoded : cfg.toVec ⟨protocolVersion, cfg.idAfter s.nextId, "req", call.op, call.body⟩ with
  | error message =>
    have run : s.go cfg c call = some (Inner.put { s with nextId := s.nextId + 1 } c call
        (.returned (some (cfg.idAfter s.nextId)) (.error (.malformedFrame message)))) := by
      unfold Inner.go
      rw [at_]
      dsimp only
      rw [encoded]
    exact ends_at here run rfl
  | ok bytes =>
    have run : s.go cfg c call = some (Inner.put { s with nextId := s.nextId + 1 } c call
        (if cfg.maxFrameBytes < bytes.length then
          .returned (some (cfg.idAfter s.nextId)) (.ok tooLargeBody)
        else .asked (cfg.idAfter s.nextId) .encoded)) := by
      unfold Inner.go
      rw [at_]
      dsimp only
      rw [encoded]
    by_cases large : cfg.maxFrameBytes < bytes.length
    · rw [if_pos large] at run
      exact ends_at here run rfl
    · rw [if_neg large] at run
      exact ends_go here run (ends_encoded (sound_go sound here run) (set_self here) rfl)

theorem ends_begun (sound : Sound cfg s) (here : s.calls[c]? = some call)
    (at_ : call.stage = .begun) : s.Ends cfg c := by
  have run : s.go cfg c call = some (s.put c call (if s.closed then
      .returned none (.error .eof) else .minting)) := by
    unfold Inner.go
    rw [at_]
  by_cases closed : s.closed = true
  · rw [if_pos closed] at run
    exact ends_at here run rfl
  · rw [if_neg closed] at run
    exact ends_go here run (ends_minting (sound_go sound here run) (set_self here) rfl)

/-- **Every call returns**, of any state, by its own steps, the clock's, and those of whoever closes
    the transport. -/
theorem Sound.ends (sound : Sound cfg s) (here : s.calls[c]? = some call) : s.Ends cfg c := by
  cases at_ : call.stage with
  | begun => exact ends_begun sound here at_
  | minting => exact ends_minting sound here at_
  | returned id answer => exact ends_returned here (by rw [at_]; rfl)
  | asked id phase =>
    cases phase with
    | encoded => exact ends_encoded sound here at_
    | asking => exact ends_asking sound here at_
    | offering => exact ends_offering sound here at_
    | stalled => exact ends_stalled here at_
    | failing error => exact ends_failing sound here at_
    | closing => exact ends_closing sound here at_
    | receiving => exact ends_receiving here at_
    | canceling => exact ends_canceling here at_
    | removing => exact ends_removing here at_

end Ends

/-! ## 8. What a call leaves behind -/

/-- A call that has returned, with an id. -/
def Inner.Returned (s : Inner) (c : Nat) (id : String) : Prop :=
  s.Has c fun call => ∃ answer, call.stage = .returned (some id) answer

/-- No call that has returned is in the table. -/
def Inner.Clean (s : Inner) : Prop :=
  ∀ c id, s.Returned c id → id ∉ s.pending

/-- The queue refuses a call, the output closed or the writer taken, where its entry is in the table. -/
def Inner.Refused (cfg : Config) (s : Inner) (act : Act) : Prop :=
  ∃ c call id phase, act = .go c ∧ s.calls[c]? = some call ∧ call.stage = .asked id phase ∧
    ((phase = .asking ∧ s.outputClosed cfg = true) ∨ (phase = .offering ∧ s.writer = false)) ∧
    id ∈ s.pending

/-- What is in the table after a step was there, or bears the id of a call that has not returned. -/
theorem Stepped.in_table (step : Stepped cfg s act s') {id : String} (h : id ∈ s'.pending) :
    id ∈ s.pending ∨ ∃ c, s'.Has c fun call => call.stage = .asked id .asking := by
  obtain ⟨request, there⟩ := Option.isSome_iff_exists.1 (AList.lookup_isSome.2 h)
  rcases step.entry there with old | ⟨-, call, -, -, -, new⟩
  · exact Or.inl (AList.lookup_isSome.1 (by rw [old]; rfl))
  · exact Or.inr ⟨request.sender, _, new, rfl⟩

theorem returned_set {t : Inner} {c d : Nat} {call' : Call} {id : String} (h : t.Returned d id)
    (calls : t.calls = s.calls.set c call') :
    s.Returned d id ∨ d = c ∧ ∃ answer, call'.stage = .returned (some id) answer := by
  obtain ⟨one, there, answer, returned⟩ := h
  rw [calls] at there
  rcases set_cases there with ⟨same, rfl⟩ | ⟨-, there⟩
  · exact Or.inr ⟨same, answer, returned⟩
  · exact Or.inl ⟨one, there, answer, returned⟩

/-- Who closed the transport, or cut the output, returns: the table was drained. -/
theorem returned_finish {t : Inner} {who : Who} {d : Nat} {id : String}
    (h : (t.finish who).Returned d id) (calls : t.calls = s.calls) :
    s.Returned d id ∨ who.caller ≠ none := by
  cases who with
  | call c error => exact Or.inr (Option.some_ne_none c)
  | reader | writer | other =>
    obtain ⟨one, there, returned⟩ := h
    exact Or.inl ⟨one, by rw [← calls]; exact there, returned⟩

/-- An entry of the table is that of the call that has its id. -/
theorem Sound.entry_of (sound : Sound cfg s) {id : String} (inside : id ∈ s.pending) {c : Nat}
    {call : Call} (here : s.calls[c]? = some call) (bears : call.stage.id = some id) :
    call.stage.entered = true ∧ s.sendable c = true := by
  obtain ⟨request, there⟩ := Option.isSome_iff_exists.1 (AList.lookup_isSome.2 inside)
  obtain ⟨one, here', bears', -, entered⟩ := sound.table.entry there
  have same := sound.ids.own ⟨one, here', bears'⟩ ⟨call, here, bears⟩
  rw [same, here] at here'
  cases here'
  refine ⟨entered, ?_⟩
  have listed : (s.pending.entries.any (·.2.sender == c)) = true :=
    List.any_eq_true.2 ⟨⟨id, request⟩, AList.mem_lookup_iff.1 there, beq_iff_eq.2 same⟩
  unfold Inner.sendable
  rw [listed]
  rfl

/-- A call that returns is not in the table: it never entered it, or it left, or its entry was taken,
    or the table was drained. -/
theorem Stepped.returns_out (step : Stepped cfg s act s') (sound : Sound cfg s)
    (fine : ¬ s.Refused cfg act) {c : Nat} {id : String} (h : s'.Returned c id) :
    s.Returned c id ∨ id ∉ s'.pending := by
  cases step with
  | began op body deadline =>
    obtain ⟨call, there, answer, returned⟩ := h
    rcases append_cases there with there | rfl
    · exact Or.inl ⟨call, there, answer, returned⟩
    · cases returned
  | goesOn d call here | minted d call here | entered d call id' here
  | moved d call id' phase phase' canceled jobs here | foundClosed d call here
  | markedBy d call id' error here | cuttingBy d call id' error here =>
    rcases returned_set h rfl with before | ⟨-, _, returned⟩
    · exact Or.inl before
    · cases returned
  | unsent d call here minting answer which =>
    rcases returned_set h rfl with before | ⟨-, _, returned⟩
    · exact Or.inl before
    · cases returned
      refine Or.inr fun inside => ?_
      obtain ⟨request, there⟩ := Option.isSome_iff_exists.1 (AList.lookup_isSome.2 inside)
      obtain ⟨one, here', bears, -, -⟩ := sound.table.entry there
      obtain ⟨n, before, same⟩ := sound.ids.minted ⟨one, here', bears⟩
      exact absurd (idAfter_inj same) (Nat.ne_of_gt before)
  | shut d call id' here encoded closed =>
    rcases returned_set h rfl with before | ⟨-, _, returned⟩
    · exact Or.inl before
    · cases returned
      refine Or.inr fun inside => ?_
      have entered := (sound.entry_of inside here (by rw [encoded]; rfl)).1
      rw [encoded] at entered
      cases entered
  | refused d call id' phase here at_ why how =>
    rcases returned_set h rfl with before | ⟨-, _, returned⟩
    · exact Or.inl before
    · cases returned
      exact Or.inr fun inside => fine ⟨d, call, id, phase, how, here, at_, why, inside⟩
  | received d call id' answer inbox here at_ first =>
    rcases returned_set h rfl with before | ⟨-, _, returned⟩
    · exact Or.inl before
    · cases returned
      have some_ : call.inbox ≠ [] := by
        rw [first]
        exact List.cons_ne_nil _ _
      obtain ⟨one, _, here', bears, -, out⟩ := sound.handing.settled
        (Or.inr (Or.inr (Or.inl ⟨call, here, some_⟩)))
      rw [here] at here'
      cases here'
      rw [at_] at bears
      cases bears
      exact Or.inr out
  | dropped d call id' here at_ nowhere =>
    rcases returned_set h rfl with before | ⟨-, _, returned⟩
    · exact Or.inl before
    · cases returned
      refine Or.inr fun inside => ?_
      have somewhere := (sound.entry_of inside here (by rw [at_]; rfl)).2
      rw [nowhere] at somewhere
      cases somewhere
  | removed d call id' here at_ =>
    rcases returned_set h rfl with before | ⟨-, _, returned⟩
    · exact Or.inl before
    · cases returned
      exact Or.inr fun inside => (AList.mem_erase.1 inside).1 rfl
  | gave frame sender at_ =>
    exact Or.inl (has_modify (f := fun call => { call with inbox := call.inbox ++ [.ok frame.body] }) h
      rfl fun _ one => one)
  | told who error rest d one at_ =>
    exact Or.inl (has_modify (f := fun call => { call with inbox := call.inbox ++ [.error error] }) h
      rfl fun _ one => one)
  | released who error at_ =>
    rcases returned_finish (s := s) h rfl with before | calls
    · exact Or.inl before
    · have closed := sound.table.marked (by rw [at_]; exact Option.some_ne_none _)
      have empty := sound.table.drained ⟨closed, Or.inr ⟨who, error, [], at_⟩⟩
      refine Or.inr fun inside => ?_
      have inside : id ∈ s.pending := by cases who <;> exact inside
      rw [empty] at inside
      exact AList.notMem_empty id inside
  | cutOff i who at_ =>
    rcases returned_finish (s := s) h rfl with before | calls
    · exact Or.inl before
    · have empty := sound.table.drained (sound.table.cutters _ (List.mem_of_getElem? at_) calls)
      refine Or.inr fun inside => ?_
      have inside : id ∈ s.pending := by cases who <;> exact inside
      rw [empty] at inside
      exact AList.notMem_empty id inside
  | _ => exact Or.inl h

theorem Inner.Clean.step (h : s.Clean) (sound : Sound cfg s) (step : Stepped cfg s act s')
    (fine : ¬ s.Refused cfg act) : s'.Clean := by
  intro c id returned inside
  rcases step.returns_out sound fine returned with before | out
  · rcases step.in_table inside with inside | ⟨d, one, there, asking⟩
    · exact h c id before inside
    · -- the id is that of a call that goes on, and of one that had returned
      obtain ⟨call, here, answer, at_⟩ := returned
      have own := (sound.step step).ids.own ⟨call, here, congrArg Stage.id at_⟩
        ⟨one, there, congrArg Stage.id asking⟩
      rw [own, there] at here
      cases here
      rw [asking] at at_
      cases at_
  · exact out inside

/-- **What the queue refuses is left**: the call returns, and its entry stays. -/
theorem refused_leaves (h : s.Refused cfg act) :
    ∃ t, s.step cfg act = some t ∧ ¬ t.Clean := by
  obtain ⟨c, call, id, phase, rfl, here, at_, why, inside⟩ := h
  refine ⟨s.put c call (.returned (some id) (.error .eof)), ?_, fun clean => ?_⟩
  · show s.calls[c]?.bind (s.go cfg c) = _
    rw [here]
    show s.go cfg c call = _
    unfold Inner.go
    rw [at_]
    rcases why with ⟨rfl, closed⟩ | ⟨rfl, gone⟩
    · dsimp only
      rw [if_pos closed]
    · dsimp only
      rw [gone]
      rfl
  · exact clean c id ⟨_, set_self here, _, rfl⟩ inside

/-! ## 9. Runs -/

/-- What every step keeps, runs keep. -/
theorem Inner.Leads.keeps {P : Inner → Prop} (kept : ∀ {s s' act}, P s → Stepped cfg s act s' → P s')
    (h : Inner.Leads cfg s s') (start : P s) : P s' := by
  obtain ⟨acts, h⟩ := h
  induction acts generalizing s with
  | nil =>
    cases h
    exact start
  | cons act acts ih =>
    obtain ⟨t, one, rest⟩ := Option.bind_eq_some_iff.1 h
    exact ih (kept start (step_stepped one)) rest

theorem runs_append (before after : List Act) :
    s.runs cfg (before ++ after) = (s.runs cfg before).bind fun t => t.runs cfg after := by
  induction before generalizing s with
  | nil => rfl
  | cons act before ih =>
    show (s.step cfg act).bind _ = ((s.step cfg act).bind _).bind _
    cases s.step cfg act with
    | none => rfl
    | some u => exact ih

/-- Every request ends once, with its own answer, and leaves nothing behind. -/
structure Inner.EndsOnce (cfg : Config) (s : Inner) : Prop where
  /-- It can return, and what it returned stays. -/
  ends : ∀ {c call}, s.calls[c]? = some call → s.Ends cfg c
  once : ∀ {c call answer}, s.calls[c]? = some call → call.stage.answer = some answer →
    ∀ {t}, s.Leads cfg t → t.Has c fun later => later.stage = call.stage
  /-- The body of a response with its id and op, the deadline's answer, too large, or an error. -/
  own : ∀ {c answer}, s.Has c (fun call => call.stage.answer = some answer) →
    (∃ frame ∈ s.frames, s.Fits frame c ∧ answer = .ok frame.body) ∨ answer = .ok deadlineBody ∨
      answer = .ok tooLargeBody ∨ ∃ error, answer = .error error
  /-- A response is handed to one call, whose id and op it bears, and a call one response. -/
  handed : (∀ {k c}, (k, c) ∈ s.handed → ∃ frame, s.frames[k]? = some frame ∧ s.Fits frame c) ∧
    (s.handed.map Prod.fst).Nodup ∧ (s.handed.map Prod.snd).Nodup
  clean : s.Clean

theorem Sound.endsOnce (h : Sound cfg s) (clean : s.Clean) : s.EndsOnce cfg where
  ends := h.ends
  once := by
    intro c call answer here returned t leads
    have kept : Sound cfg t ∧ t.Has c fun later => later.stage = call.stage := by
      refine leads.keeps (P := fun t => Sound cfg t ∧ t.Has c fun later => later.stage = call.stage)
        ?_ ⟨h, call, here, rfl⟩
      rintro u u' act ⟨sound, later, there, same⟩ step
      obtain ⟨later', there', follows⟩ := step.follows sound.busy there
      exact ⟨sound.step step, later', there', (follows.answer answer (by rw [same, returned])).trans same⟩
    exact kept.2
  own := by
    intro c answer has
    rcases h.answers.answers has with deadline | large | error | ⟨k, frame, given, there, body⟩
    · exact Or.inr (Or.inl deadline)
    · exact Or.inr (Or.inr (Or.inl large))
    · exact Or.inr (Or.inr (Or.inr error))
    · obtain ⟨frame', there', fits⟩ := h.handing.fits given
      rw [there] at there'
      cases there'
      exact Or.inl ⟨frame, List.mem_of_getElem? there, fits, body⟩
  handed := ⟨h.handing.fits, h.handing.onceFrames, h.handing.onceCalls⟩
  clean := clean

/-- **Every request ends once, with its own answer, and leaves nothing behind**, along a run, just where
    the queue refused no call whose entry was in the table. -/
theorem requests_end_once_iff (cfg : Config) (acts : List Act) :
    (∀ before after t, acts = before ++ after → Inner.runs cfg {} before = some t →
      t.EndsOnce cfg) ↔
    ∀ before act after t, acts = before ++ act :: after → Inner.runs cfg {} before = some t →
      ¬ t.Refused cfg act := by
  have sound {before : List Act} {t : Inner} (runs : Inner.runs cfg {} before = some t) :
      Sound cfg t :=
    Inner.Leads.keeps (P := Sound cfg) Sound.step ⟨before, runs⟩ Sound.new
  constructor
  · intro h before act after t all runs refused
    obtain ⟨t', step, dirty⟩ := refused_leaves refused
    refine dirty (h (before ++ [act]) after t' (by rw [all, List.append_assoc]; rfl) ?_).clean
    rw [runs_append, runs]
    show (t.step cfg act).bind _ = _
    rw [step]
    rfl
  · intro h before
    -- from the run's last step to its first
    induction before using List.reverseRecOn with
    | nil =>
      intro after t all runs
      cases runs
      refine Sound.new.endsOnce ?_
      intro c id returned
      obtain ⟨call, there, -⟩ := returned
      cases there
    | append_singleton before act ih =>
      intro after t all runs
      refine (sound runs).endsOnce ?_
      have last := runs
      rw [runs_append] at last
      obtain ⟨u, before_, last⟩ := Option.bind_eq_some_iff.1 last
      obtain ⟨t', step, same⟩ := Option.bind_eq_some_iff.1 last
      cases same
      have all : acts = before ++ act :: after := by
        rw [all, List.append_assoc]
        rfl
      have clean := (ih (act :: after) u all before_).clean
      exact clean.step (sound before_) (step_stepped step) (h before act after u all before_)

/-- The input is closed, and a request is made: it is minted and entered, and finds no writer. -/
def closedInput : List Act :=
  [.closeInput, .request "pane.open" .null none, .go 0, .go 0, .go 0, .go 0, .go 0]

/-- What the daemon's end was built with, and writes nothing of. -/
def silent : Config where
  role := .daemon
  maxFrameBytes := 1024
  keepsOutput := false
  defaultRequestDeadline := 30000
  toVec := fun _ => .ok []

/-- A request after `close_input` returns, and its entry stays in the table. -/
theorem entry_left : ∃ t, Inner.runs silent {} closedInput = some t ∧ t.closed = false ∧
    t.Returned 0 "n-1" ∧ "n-1" ∈ t.pending ∧ ¬ t.EndsOnce silent := by
  refine ⟨_, rfl, rfl, ⟨_, rfl, _, rfl⟩, ?_, fun ends => ?_⟩
  · exact (AList.mem_insert _).2 (Or.inl rfl)
  · exact ends.clean 0 _ ⟨_, rfl, _, rfl⟩ ((AList.mem_insert _).2 (Or.inl rfl))

end Bridge
end ConsensFlow
