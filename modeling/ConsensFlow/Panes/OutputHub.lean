/-
  File:      ConsensFlow/Panes/OutputHub.lean
  Subject:   WHERE THE PANES' OUTPUT GOES (`cf-panes`, `output_hub.rs`): to one destination at a time,
             and what a pane prints while there is none waits for the next.

  * `OutputHub.deliverOrPark`, `attach`, `publish` -- the hub's calls, each under its lock;
  * `Asked`, `Answers` -- what the sinks were asked, and what they answer: anything, by all they were
    asked before;
  * **`output_kept`** -- what some sink took, in order, and then what is parked is what was published.
-/
import ConsensFlow.Panes.Watch

namespace ConsensFlow
namespace Panes

/-! ## 1. The hub -/

structure PaneOutputMessage where
  id : String
  generation : Nat
  seq : Nat
  bytes : Bytes
  deriving DecidableEq, Repr

/-- A sink asked to take a message, and its answer: `false` where it is gone. -/
structure Asked (S : Type) where
  sink : S
  message : PaneOutputMessage
  took : Bool
  deriving DecidableEq, Repr

/-- What each sink answers, after all that was asked before. -/
abbrev Answers (S : Type) := List (Asked S) → S → PaneOutputMessage → Bool

/-- The hub, and what its sinks were asked so far. -/
structure OutputHub (S : Type) where
  sink : Option S := none
  pending : List PaneOutputMessage := []
  asked : List (Asked S) := []
  deriving DecidableEq, Repr

variable {S : Type}

namespace OutputHub

/-- `deliver_or_park`. -/
def deliverOrPark (answers : Answers S) (hub : OutputHub S) (message : PaneOutputMessage) :
    OutputHub S :=
  match hub.sink with
  | none => { hub with pending := hub.pending ++ [message] }
  | some sink =>
    let took := answers hub.asked sink message
    let hub := { hub with asked := hub.asked ++ [⟨sink, message, took⟩] }
    if took then hub else { hub with sink := none, pending := hub.pending ++ [message] }

def attach (answers : Answers S) (hub : OutputHub S) (sink : S) : OutputHub S :=
  hub.pending.foldl (deliverOrPark answers) { hub with sink := some sink, pending := [] }

/-- `register_sink`. -/
def registerSink (answers : Answers S) (hub : OutputHub S) (sink : S) : OutputHub S :=
  hub.attach answers sink

def publish (answers : Answers S) (hub : OutputHub S) (message : PaneOutputMessage) : OutputHub S :=
  hub.deliverOrPark answers message

/-- The messages some sink took, in the order of their answers. -/
def taken (hub : OutputHub S) : List PaneOutputMessage :=
  (hub.asked.filter Asked.took).map Asked.message

end OutputHub

/-- A call of the hub's. -/
inductive HubCall (S : Type) where
  | registerSink (sink : S)
  | publish (message : PaneOutputMessage)

namespace HubCall

def apply (answers : Answers S) (hub : OutputHub S) : HubCall S → OutputHub S
  | registerSink sink => hub.registerSink answers sink
  | publish message => hub.publish answers message

def published : HubCall S → Option PaneOutputMessage
  | registerSink _ => none
  | publish message => some message

end HubCall

/-! ## 2. What the hub keeps -/

namespace OutputHub

variable {answers : Answers S} {hub : OutputHub S} {messages : List PaneOutputMessage}

/-- The hub has the messages `messages`: those taken, then those parked, none of which it parks while
    a sink is attached. -/
structure Has (hub : OutputHub S) (messages : List PaneOutputMessage) : Prop where
  kept : hub.taken ++ hub.pending = messages
  parked : hub.sink.isSome → hub.pending = []

/-- One more question to a sink. -/
theorem taken_concat (asked : List (Asked S)) (last : Asked S) :
    ((asked ++ [last]).filter Asked.took).map Asked.message =
      (asked.filter Asked.took).map Asked.message ++ if last.took then [last.message] else [] := by
  rw [List.filter_append, List.map_append]
  congr 1
  cases took : last.took with
  | true => rw [List.filter_cons_of_pos took]; rfl
  | false => rw [List.filter_cons_of_neg (by rw [took]; decide)]; rfl

theorem deliverOrPark_has (h : hub.Has messages) (message : PaneOutputMessage) :
    (hub.deliverOrPark answers message).Has (messages ++ [message]) := by
  unfold deliverOrPark
  split
  · rename_i gone
    refine ⟨?_, fun attached => ?_⟩
    · show hub.taken ++ (hub.pending ++ [message]) = _
      rw [← List.append_assoc, h.kept]
    · have attached : hub.sink.isSome := attached
      rw [gone] at attached
      cases attached
  · rename_i sink attached
    have none_ : hub.pending = [] := h.parked (by rw [attached]; rfl)
    have all : hub.taken = messages := by rw [← h.kept, none_, List.append_nil]
    dsimp only
    cases took : answers hub.asked sink message with
    | true =>
      rw [if_pos rfl]
      refine ⟨?_, fun _ => none_⟩
      show List.map _ (List.filter _ _) ++ hub.pending = _
      rw [taken_concat, none_, List.append_nil, ← all]
      rfl
    | false =>
      rw [if_neg Bool.false_ne_true]
      refine ⟨?_, fun attached => absurd attached Bool.false_ne_true⟩
      show List.map _ (List.filter _ _) ++ (hub.pending ++ [message]) = _
      rw [taken_concat, none_, List.nil_append, ← all]
      exact congrArg (· ++ [message]) (List.append_nil _)

theorem deliverEach_has (h : hub.Has messages) (backlog : List PaneOutputMessage) :
    (backlog.foldl (deliverOrPark answers) hub).Has (messages ++ backlog) := by
  induction backlog generalizing hub messages with
  | nil =>
    rw [List.append_nil]
    exact h
  | cons message backlog ih =>
    have delivered := ih (@deliverOrPark_has S answers hub messages h message)
    rw [List.append_assoc] at delivered
    exact delivered

/-- **A new sink gets the backlog before anything newer**, up to where it goes. -/
theorem attach_has (h : hub.Has messages) (sink : S) : (hub.attach answers sink).Has messages := by
  have emptied : Has { hub with sink := some sink, pending := [] } hub.taken :=
    ⟨List.append_nil _, fun _ => rfl⟩
  have delivered := @deliverEach_has S answers _ _ emptied hub.pending
  rw [h.kept] at delivered
  exact delivered

theorem apply_has (h : hub.Has messages) (call : HubCall S) :
    (call.apply answers hub).Has (messages ++ call.published.toList) := by
  cases call with
  | registerSink sink =>
    show Has _ (messages ++ [])
    rw [List.append_nil]
    exact attach_has h sink
  | publish message => exact deliverOrPark_has h message

end OutputHub

/-- **Pane output is neither lost, doubled nor reordered by the hub**: after any calls, whatever the
    sinks answer, the messages taken and then those parked are those published, in their order, and
    while a sink is attached nothing is parked. -/
theorem output_kept (answers : Answers S) (calls : List (HubCall S)) :
    let hub : OutputHub S := calls.foldl (HubCall.apply answers) {}
    hub.taken ++ hub.pending = calls.filterMap HubCall.published ∧
      (hub.sink.isSome → hub.pending = []) := by
  have run : ∀ (hub : OutputHub S) messages, hub.Has messages →
      (calls.foldl (HubCall.apply answers) hub).Has (messages ++ calls.filterMap HubCall.published) := by
    induction calls with
    | nil =>
      intro hub messages h
      rw [List.filterMap_nil, List.append_nil]
      exact h
    | cons call calls ih =>
      intro hub messages h
      have step := ih _ _ (@OutputHub.apply_has S answers _ _ h call)
      have more : (call :: calls).filterMap HubCall.published =
          call.published.toList ++ calls.filterMap HubCall.published := by
        cases call <;> rfl
      rw [more, ← List.append_assoc]
      exact step
  have kept := run {} [] ⟨rfl, fun _ => rfl⟩
  exact ⟨kept.kept, kept.parked⟩

/-- A sink that goes at the second message: the next gets it, and what came after. -/
example :
    let answers : Answers Nat := fun _ sink message => sink == 1 || message.seq == 1
    let message := fun seq => (⟨"p1-chief", 1, seq, [65]⟩ : PaneOutputMessage)
    let hub := [HubCall.registerSink 0, .publish (message 1), .publish (message 2),
      .publish (message 3), .registerSink 1, .publish (message 4)].foldl (HubCall.apply answers) {}
    hub.asked.map (fun asked => (asked.sink, asked.message.seq)) =
      [(0, 1), (0, 2), (1, 2), (1, 3), (1, 4)] := by decide

end Panes
end ConsensFlow
