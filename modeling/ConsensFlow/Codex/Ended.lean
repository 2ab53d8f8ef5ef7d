/-
  File:      ConsensFlow/Codex/Ended.lean
  Subject:   THE ANSWERS TO QUESTIONS THAT ENDED (`cf-codex-session`, `broker/pair.rs`: a turn over,
             a request resolved, a pair gone).

  * `Quiet`, `Unbegun` -- a step that begins no message, and one that begins none of an answer to a
    question that ended;
  * **`said_ends`**, **`retire_ends`** -- what ends a question raises its flag;
  * **`ended_answers_stay_unsent`** -- nothing is begun of the answer to a question that has ended.
-/
import ConsensFlow.Codex.Settled

open Lib.Json

namespace ConsensFlow
namespace Codex
namespace Proxy

/-! ## 1. What leaves an ended question ended -/

/-- What the writer of the connection to Codex's server has begun. -/
def Pair.begun (p : Pair) : List Queued := p.native.sent ++ p.native.writing.toList

/-- A step that begins no message, and leaves what ended ended. -/
structure Quiet (p p' : Pair) : Prop where
  begun : p'.begun ⊆ p.begun
  ended : ∀ q, p.ended q = true → p'.ended q = true

namespace Quiet

variable {wire : Wire} {p p' p'' : Pair}

theorem refl (p : Pair) : Quiet p p := ⟨List.Subset.refl _, fun _ => id⟩

theorem trans (h : Quiet p p') (k : Quiet p' p'') : Quiet p p'' :=
  ⟨fun _ mem => h.begun (k.begun mem), fun q ended => k.ended q (h.ended q ended)⟩

/-- A step that touches neither the socket to Codex nor the questions. -/
theorem of_same (native : p'.native = p.native) (questions : p'.questions = p.questions) :
    Quiet p p' := by
  refine ⟨?_, fun q => ?_⟩
  · simp only [Pair.begun, native, List.Subset.refl]
  · simp only [Pair.ended, questions, imp_self]

theorem map (p : Pair) {f : Held → Held} (keeps : ∀ h, h.raised = true → (f h).raised = true) :
    Quiet p { p with questions := p.questions.map f } := by
  refine ⟨List.Subset.refl _, fun q ended => ?_⟩
  unfold Pair.ended at ended ⊢
  dsimp only
  rw [List.getElem?_map]
  cases there : p.questions[q]? with
  | none =>
    rw [there] at ended
    cases ended
  | some h =>
    rw [there] at ended
    exact keeps h ended

theorem change (p : Pair) (r : Nat) {f : Held → Held}
    (keeps : ∀ h, h.raised = true → (f h).raised = true) : Quiet p (p.change r f) := by
  refine ⟨List.Subset.refl _, fun q ended => ?_⟩
  unfold Pair.ended Pair.change at *
  dsimp only
  rw [List.getElem?_modify]
  cases there : p.questions[q]? with
  | none =>
    rw [there] at ended
    cases ended
  | some h =>
    rw [there] at ended
    show (if r = q then f h else h).raised = true
    split
    · exact keeps h ended
    · exact ended

theorem report (p : Pair) (told : Option (Nat × Bool)) : Quiet p (p.report told) := by
  cases told with
  | none => exact refl p
  | some told =>
    refine change p told.1 fun h raised => ?_
    split <;> exact raised

theorem retire (p : Pair) : Quiet p p.retire := by
  unfold Pair.retire
  split
  · exact refl p
  · have marked := map p (f := fun h => { h with raised := h.raised || h.held }) fun h raised => by
      rw [raised, Bool.true_or]
    refine ⟨fun f mem => ?_, marked.ended⟩
    exact List.mem_append_left _ (by simpa [Pair.begun, Outbox.abandon] using mem)

theorem enqueue (p : Pair) (frame : Queued) :
    Quiet p { p with native := (p.native.enqueue frame).2 } := by
  refine ⟨?_, fun _ => id⟩
  have writing : (p.native.enqueue frame).2.writing = p.native.writing := by
    by_cases taken : (p.native.enqueue frame).1 = .queued
    · rw [(Outbox.enqueue_queued taken).1]
    · rcases Outbox.enqueue_refused taken with same | ⟨-, -, e⟩
      · rw [same]
      · rw [e]
  unfold Pair.begun
  dsimp only
  rw [Carries.sent_enqueue, writing]
  exact List.Subset.refl _

theorem toCodex (p : Pair) (frame : Queued) : Quiet p (p.toCodex frame) := by
  have first := enqueue p frame
  unfold Pair.toCodex
  dsimp only
  split
  · exact first
  · exact first.trans (retire _)

theorem toTui (p : Pair) (frame : Queued) : Quiet p (p.toTui frame) := by
  have first : Quiet p { p with tui := (p.tui.enqueue frame).2 } := of_same rfl rfl
  unfold Pair.toTui
  dsimp only
  split
  · exact first
  · exact first.trans (retire _)

theorem pass (p : Pair) (text : String) : Quiet p (p.pass text) := by
  have first : Quiet p { p with heard := p.heard ++ [⟨text, none⟩] } := of_same rfl rfl
  exact first.trans (toTui _ _)

theorem processTui (p : Pair) (text : String) : Quiet p (p.processTui wire text) := by
  unfold Pair.processTui
  split
  · exact toCodex p _
  · exact retire p
  · next message _ =>
    have first : Quiet p { p with
        requests := (p.state.tuiSaid p.client p.requests message).2.1
        state := ((p.state.tuiSaid p.client p.requests message).2.2.unclassified message).2
        unclassified := p.unclassified ++
          ((p.state.tuiSaid p.client p.requests message).2.2.unclassified message).1.toList } :=
      of_same rfl rfl
    exact first.trans (toCodex _ _)

theorem processAll (p : Pair) (rest : List String) : Quiet p (p.processAll wire rest) := by
  induction rest generalizing p with
  | nil => exact refl p
  | cons text rest ih =>
    unfold Pair.processAll
    split
    · exact refl p
    · exact (processTui p text).trans (ih _)

theorem tuiSaid (p : Pair) (text : String) : Quiet p (p.tuiSaid wire text) := by
  have first : Quiet p { p with said := p.said ++ [text] } := of_same rfl rfl
  unfold Pair.tuiSaid
  dsimp only
  split
  · exact first.trans (processTui _ text)
  · next waiting _ =>
    split
    · have more : Quiet p { p with
          said := p.said ++ [text]
          waiting := some { waiting with bytes := waiting.bytes + text.utf8ByteSize } } :=
        of_same rfl rfl
      exact more.trans (retire _)
    · exact of_same rfl rfl

theorem holdQuestion (p : Pair) (id : Value) (params : Option Value) (text : String) :
    Quiet p (p.holdQuestion wire id params text) := by
  unfold Pair.holdQuestion
  split
  · exact pass p text
  · refine ⟨List.Subset.refl _, fun q ended => ?_⟩
    unfold Pair.ended at ended ⊢
    obtain ⟨h, there, raised⟩ := (Option.any_eq_true _ _).mp ended
    dsimp only
    rw [List.getElem?_append_left (List.getElem?_eq_some_iff.mp there).1, there]
    exact raised

theorem codexSaid (p : Pair) (text : String) : Quiet p (p.codexSaid wire text) := by
  unfold Pair.codexSaid
  split
  · exact pass p text
  · have first : Quiet p { p with heard := p.heard ++ [⟨text, none⟩] } := of_same rfl rfl
    exact first.trans (retire _)
  · next message _ =>
    have first : Quiet p { p with
        requests := (p.state.codexSaid p.client p.requests message).1
        state := (p.state.codexSaid p.client p.requests message).2 } := of_same rfl rfl
    have ended := first.trans (map _ (f := fun h => { h with
      raised := h.raised || (h.held && Pair.ends wire message h) }) fun h raised => by
        rw [raised, Bool.true_or])
    dsimp only
    split
    · split
      · exact ended.trans (holdQuestion _ _ _ text)
      · exact ended.trans (pass _ text)
    · exact ended.trans (pass _ text)

theorem replied (p : Pair) (q : Nat) (h : Held) (reply : Option Reply) :
    Quiet p (p.replied wire q h reply) := by
  unfold Pair.replied
  split
  · split
    · next answer _ =>
      have first : Quiet p (p.tell q answer false) := of_same rfl rfl
      exact first.trans (change _ _ fun _ => id)
    · next answer _ =>
      have first := enqueue p ⟨wire.write (h.asked.answered h.request answer), .answer q⟩
      unfold Pair.handOver
      dsimp only
      split
      · exact first.trans (change _ _ fun _ => id)
      · have apart := change { p with native := (p.native.enqueue
            ⟨wire.write (h.asked.answered h.request answer), .answer q⟩).2 } q
          (f := fun h => { h with held := false, stage := .giving, claimed := some answer })
          fun _ => id
        exact (first.trans apart).trans (retire _)
  · split
    · exact change _ _ fun _ => id
    · exact (toCodex p _).trans (change _ _ fun _ => id)
  all_goals
    split
    · exact change _ _ fun _ => id
    · exact (toTui p _).trans (change _ _ fun _ => id)

theorem releases (p : Pair) (q : Nat) (answer : Answer) (received : Bool) :
    Quiet p ((p.release q).tell q answer received) := by
  have first : Quiet p (p.release q) := change p q fun _ => id
  exact first.trans (of_same rfl rfl)

theorem settle (p : Pair) (q : Nat) (h : Held) (handed : Bool) :
    Quiet p (p.settle q h handed) := by
  unfold Pair.settle
  split
  · exact releases p q _ _
  · exact refl p

theorem wroteCodex (p : Pair) (ok : Bool) : Quiet p (p.wroteCodex ok) := by
  unfold Pair.wroteCodex
  split
  · exact refl p
  · next frame begun =>
    have told := report p (frame.watch.map fun q => (q, ok))
    have same : (p.report (frame.watch.map fun q => (q, ok))).native = p.native := by
      cases frame.watch <;> rfl
    dsimp only
    rw [same]
    split
    · refine ⟨fun f mem => ?_, told.ended⟩
      unfold Pair.begun
      rw [begun]
      exact (by simpa [Pair.begun, Outbox.wrote] using mem)
    · have first : Quiet p { p.report (frame.watch.map fun q => (q, ok)) with
          native := p.native.abandon } := by
        refine ⟨fun f mem => ?_, told.ended⟩
        exact List.mem_append_left _ (by simpa [Pair.begun, Outbox.abandon] using mem)
      exact first.trans (retire _)

theorem wroteTui (p : Pair) (ok : Bool) : Quiet p (p.wroteTui ok) := by
  unfold Pair.wroteTui
  split
  · exact refl p
  · split
    · exact of_same rfl rfl
    · have first : Quiet p { p with tui := p.tui.abandon } := of_same rfl rfl
      exact first.trans (retire _)

end Quiet

/-- A step from where a question ended: it stays so, and no answer to it is begun. -/
structure Unbegun (p p' : Pair) (q : Nat) : Prop where
  ended : p'.ended q = true
  begun : ∀ frame ∈ p'.begun, frame.from_ = .answer q → frame ∈ p.begun

section Ends

variable {wire : Wire} {p p' : Pair} {q : Nat}

theorem Quiet.unbegun (h : Quiet p p') (ended : p.ended q = true) : Unbegun p p' q :=
  ⟨h.ended q ended, fun _ mem _ => h.begun mem⟩

/-- The writer reads whether the question ended right before it begins its answer. -/
theorem takes_unbegun (ended : p.ended q = true) : Unbegun p
    (({ p with native := (p.native.take p.ended).1 } : Pair).report (p.native.take p.ended).2)
    q := by
  have told := Quiet.report { p with native := (p.native.take p.ended).1 }
    (p.native.take p.ended).2
  refine ⟨told.ended q ended, fun frame mem own => ?_⟩
  have mem : frame ∈ (p.native.take p.ended).1.sent ++
      (p.native.take p.ended).1.writing.toList := told.begun mem
  rcases p.native.take_cases p.ended with e | ⟨first, queue, writing, -, wanted, e⟩ |
    ⟨first, queue, r, writing, -, -, -, e⟩
  · rwa [e] at mem
  · rw [e] at mem
    rcases List.mem_append.mp mem with mem | mem
    · exact List.mem_append_left _ mem
    · -- the message begun would be of a question that did not end
      rw [Option.toList_some, List.mem_singleton] at mem
      subst mem
      have watch : frame.watch = some q := by
        unfold Queued.watch
        rw [own]
      rw [watch, Option.any_some, ended] at wanted
      cases wanted
  · rwa [e] at mem

theorem step_unbegun (ended : p.ended q = true) (e : Event) : Unbegun p (p.step wire e) q := by
  have idle : Unbegun p p q := (Quiet.refl p).unbegun ended
  unfold Pair.step
  cases e with
  | said side text =>
    cases side with
    | tui =>
      dsimp only
      split
      · exact idle
      · exact (Quiet.tuiSaid p text).unbegun ended
    | codex =>
      dsimp only
      split
      · exact idle
      · exact (Quiet.codexSaid p text).unbegun ended
  | ends side =>
    cases side with
    | tui => exact (Quiet.retire p).unbegun ended
    | codex =>
      dsimp only
      split
      · exact (Quiet.retire p).unbegun ended
      · exact idle
  | opened =>
    dsimp only
    split
    · exact idle
    · have first : Quiet p { p with opened := true, waiting := none } := .of_same rfl rfl
      exact (first.trans (.processAll _ _)).unbegun ended
  | unreachable =>
    dsimp only
    split
    · exact idle
    · exact (Quiet.retire p).unbegun ended
  | takes side =>
    cases side with
    | tui =>
      dsimp only
      split
      · exact idle
      · have here : Quiet p { p with tui := (p.tui.take p.ended).1 } := .of_same rfl rfl
        exact here.unbegun ended
    | codex =>
      dsimp only
      split
      · exact idle
      · exact takes_unbegun ended
  | wrote side ok =>
    cases side with
    | tui =>
      dsimp only
      split
      · exact idle
      · exact (Quiet.wroteTui p ok).unbegun ended
    | codex =>
      dsimp only
      split
      · exact idle
      · exact (Quiet.wroteCodex p ok).unbegun ended
  | replied r reply =>
    dsimp only
    split
    · split
      · exact (Quiet.replied p r _ reply).unbegun ended
      · exact idle
    · exact idle
  | settled r byWriter =>
    dsimp only
    split
    · exact idle
    · split
      · exact (Quiet.settle p r _ _).unbegun ended
      · split
        · exact (Quiet.settle p r _ _).unbegun ended
        · exact idle
      · exact idle
  | gives r =>
    dsimp only
    split
    · exact idle
    · split
      · exact (Quiet.releases p r _ _).unbegun ended
      · exact idle
  | hears r =>
    dsimp only
    split
    · split
      · have here : Quiet p (p.release r) := .change p r fun _ => id
        exact here.unbegun ended
      · exact idle
    · exact idle
  | elsewhere state =>
    have here : Quiet p { p with state } := .of_same rfl rfl
    exact here.unbegun ended
  | closes =>
    have first : Quiet p { p with state := p.state.close } := .of_same rfl rfl
    have here : Quiet p p.closed := (first.trans (.retire _)).trans
      (.map _ (f := fun h => { h with stage := .dropped }) fun _ => id)
    exact here.unbegun ended

theorem run_unbegun (ended : p.ended q = true) (events : List Event) :
    Unbegun p (p.run wire events) q := by
  unfold Pair.run
  induction events generalizing p with
  | nil => exact (Quiet.refl p).unbegun ended
  | cons e events ih =>
    have first : Unbegun p (p.step wire e) q := step_unbegun ended e
    have rest := ih first.ended
    exact ⟨rest.ended, fun frame mem own => first.begun frame (rest.begun frame mem own) own⟩

end Ends

/-! ## 2. What ends a question -/

section Raised

variable {wire : Wire} {p : Pair} {q : Nat} {h : Held} {message : Value}

/-- A turn that is over ends the questions of its thread. -/
theorem ends_turn (turnOver : methodOf message = some "turn/completed")
    (thread : ((message.get "params").bind (·.get "threadId")).bind Value.asStr = h.thread)
    (named : h.thread.isSome = true) : Pair.ends wire message h = true := by
  unfold Pair.ends
  simp [turnOver, thread, named]

theorem ends_idle (idle : methodOf message = some "thread/status/changed")
    (status : statusIsIdle (message.get "params") = true)
    (thread : ((message.get "params").bind (·.get "threadId")).bind Value.asStr = h.thread)
    (named : h.thread.isSome = true) : Pair.ends wire message h = true := by
  unfold Pair.ends
  simp [idle, status, thread, named]

/-- A request resolved elsewhere ends its question. -/
theorem ends_resolved {request : Value}
    (resolved : methodOf message = some "serverRequest/resolved")
    (named : (message.get "params").bind (·.get "requestId") = some request)
    (same : wire.same request h.request = true) : Pair.ends wire message h = true := by
  unfold Pair.ends
  simp [resolved, named, same]

theorem endQuestionsOf_ended (there : p.questions[q]? = some h) (held : h.held = true)
    (ends : Pair.ends wire message h = true) : (p.endQuestionsOf wire message).ended q = true := by
  unfold Pair.ended Pair.endQuestionsOf
  dsimp only
  rw [List.getElem?_map, there]
  simp [held, ends]

/-- **What Codex says of a turn or a request raises the flag of each question it ends**, whatever
    else becomes of the message. -/
theorem said_ends {text : String} (lasts : p.retired = false ∧ p.opened = true)
    (read : wire.reading text = .message message) (there : p.questions[q]? = some h)
    (held : h.held = true) (ends : Pair.ends wire message h = true) :
    (p.step wire (.said .codex text)).ended q = true := by
  have raised : (({ p with
      requests := (p.state.codexSaid p.client p.requests message).1
      state := (p.state.codexSaid p.client p.requests message).2 } : Pair).endQuestionsOf wire
        message).ended q = true := endQuestionsOf_ended there held ends
  show (if p.retired || !p.opened then p else p.codexSaid wire text).ended q = true
  rw [lasts.1, lasts.2, if_neg (by decide)]
  unfold Pair.codexSaid
  rw [read]
  dsimp only
  split
  · split
    · exact (Quiet.holdQuestion _ _ _ text).ended q raised
    · exact (Quiet.pass _ text).ended q raised
  · exact (Quiet.pass _ text).ended q raised

/-- **The end of its pair raises the flag of each question held.** -/
theorem retire_ends (lasts : p.retired = false) (there : p.questions[q]? = some h)
    (held : h.held = true) : p.retire.ended q = true := by
  unfold Pair.ended Pair.retire
  rw [lasts]
  show ((p.questions.map fun h => { h with raised := h.raised || h.held })[q]?).any _ = true
  rw [List.getElem?_map, there]
  simp [held]

end Raised

/-! ## 3. An ended question's answer -/

/-- **From where a question has ended, whatever follows, nothing of its answer is sent that the
    writer had not begun by then: what has been begun of it later was begun before.** -/
theorem ended_answers_stay_unsent (wire : Wire) (client : ClientId) (state : Selection)
    (board : Bool) (before after : List Event) (q : Nat)
    (ended : ((Pair.start client state board).run wire before).ended q = true) {frame : Queued}
    (mem : frame ∈ ((Pair.start client state board).run wire (before ++ after)).begun)
    (own : frame.from_ = .answer q) :
    frame ∈ ((Pair.start client state board).run wire before).begun := by
  have later : Unbegun _ (Pair.run wire _ after) q := run_unbegun ended after
  rw [Pair.run, List.foldl_append] at mem
  exact later.begun frame mem own

section Skipped

/-- Codex's question, and the message that it was answered elsewhere. -/
def asksColour : Value := .object [
  ("id", .string "ask-1"),
  ("method", .string Pair.requestUserInput),
  ("params", .object [
    ("threadId", .string "t"),
    ("questions", .array [.object [("id", .string "colour")]])])]

def colourResolved : Value := .object [
  ("method", .string "serverRequest/resolved"),
  ("params", .object [("requestId", .string "ask-1")])]

/-- The two messages read back, and values written as JavaScript writes them. -/
def shortWire : Wire where
  reading text :=
    if text = "ask" then .message asksColour
    else if text = "resolved" then .message colourResolved
    else .notJson
  write value := String.ofList (JsOrder.stringify (fun _ => ['0']) value)
  same one other := one.asStr.isSome && one.asStr == other.asStr
  numberText _ := "0"

def nothingShown : Selection :=
  ⟨none, true, none, false, 0, [], false, none, [], false, false, false⟩

/-- The board's answer waits in the queue as the question is resolved elsewhere. -/
def resolvedFirst : List Event :=
  [.opened, .said .codex "ask", .replied 0 (some (.answered ⟨some 70, some [["blue"]]⟩)),
    .said .codex "resolved"]

/-- The answer that waited is skipped, and the board told that Codex did not get it. -/
theorem ended_answers_stay_unsent_skipped :
    ∃ p p', p = (Pair.start ⟨1⟩ nothingShown true).run shortWire resolvedFirst ∧
      p' = (Pair.start ⟨1⟩ nothingShown true).run shortWire
        (resolvedFirst ++ [.takes .codex, .settled 0 true]) ∧
      p.native.queue.map Queued.from_ = [.answer 0] ∧ p.ended 0 = true ∧
      p'.native.queue.isEmpty ∧ (p'.toldOf 0).map Told.received = [false] ∧
      ∀ frame ∈ p'.begun, frame.from_ ≠ .answer 0 := by
  refine ⟨_, _, rfl, rfl, by decide, by decide, by decide, by decide, fun frame mem own => ?_⟩
  have before := ended_answers_stay_unsent shortWire ⟨1⟩ nothingShown true resolvedFirst
    [.takes .codex, .settled 0 true] 0 (by decide) mem own
  exact absurd before List.not_mem_nil

end Skipped

end Proxy
end Codex
end ConsensFlow
