/-
  File:      ConsensFlow/Codex/Delivery.lean
  Subject:   A DELIVERY PUT TO CODEX (`cf-codex-session`: `delivery.rs`, `control.rs`), on the
             broker's own connection, which it shares with every other.

  * `Control`, `Request` -- the connection, the requests sent on it and what became of each;
  * `Under`, `Desk` -- the deliveries under way, and the broker they share;
  * `Event`, `Desk.step` -- one task's step: a delivery begins, goes on, gives up or is dropped;
    Codex answers; the connection is lost;
  * **`delivered_once_at_most`** -- whatever the order, at most one request of a delivery may be in
    with Codex; none is where the delivery was refused, and one is where it was admitted.
-/
import ConsensFlow.Codex.Pair

open Lib.Json

namespace ConsensFlow
namespace Codex
namespace Broker

open Proxy (Wire Outbox Queued)

/-! ## 1. The broker's own connection -/

/-- What became of a request: it waits; its task was handed an answer, or none where the connection
    was lost; its task is not there any more. -/
inductive Fate where
  | waiting
  | told (answer : Option Value)
  | ended

/-- A request that went into the connection's queue, and the delivery it is of, if any. -/
structure Request where
  delivery : Option Nat
  method : String
  params : Value
  id : String
  fate : Fate := .waiting

/-- The connection, with which request waits under which id. -/
structure Control where
  outbox : Outbox := {}
  pending : List (String × Nat) := []
  open_ : Bool := true

/-! ## 2. Deliveries -/

/-- The daemon's message for a thread, read. -/
structure Delivery where
  sessionId : String
  text : String
  expiresAt : Rat

/-- What the daemon is answered; `expired` and `refused` say that nothing is in. -/
inductive Reply where
  | admitted
  | expired
  | refused (why : Refusal)
  | uncertain

/-- What became of a request to Codex's server, as its task hears it. -/
inductive Asked where
  | answered (answer : Value)
  | notSent
  | unanswered

/-- Where a delivery is: waiting for a request's answer, its first or the one after a refusal; its
    daemon answered; or dropped, its daemon gone. -/
inductive Course where
  | asking (admission : Admission) (first : Bool) (request : Nat)
  | replied (reply : Reply)
  | dropped

structure Under where
  delivery : Delivery
  course : Course

/-- The broker, as deliveries share it: the window's state, its connection to Codex, the deliveries
    so far, the requests sent so far, and how many ids were drawn. -/
structure Desk where
  state : Selection
  control : Option Control := none
  deliveries : List Under := []
  requests : List Request := []
  drawn : Nat := 0

namespace Desk

variable (wire : Wire) (uuid : Nat → String) (s : Desk)

/-- A request's task is handed what came, where it still waits. -/
def tell (answer : Option Value) (r : Request) : Request :=
  match r.fate with
  | .waiting => { r with fate := .told answer }
  | _ => r

/-- An id's place among the pending ones is given up; who waited there, if anyone, hears nothing. -/
def letGo (id : String) : Desk :=
  match s.control with
  | none => s
  | some control =>
    { s with
      control := some { control with pending := control.pending.filter fun x => x.1 != id }
      requests := s.requests.mapIdx fun n r =>
        if control.pending.contains (id, n) then tell none r else r }

/-- `control_lost`. -/
def controlLost : Desk :=
  match s.control with
  | none => { s with state := s.state.loseControl }
  | some control =>
    { s with
      state := s.state.loseControl
      control := some { outbox := control.outbox.abandon, pending := [], open_ := false }
      requests := s.requests.mapIdx fun n r =>
        if control.pending.any fun x => x.2 == n then tell none r else r }

/-- `control_open`. -/
def controlOpen : Bool := s.control.any Control.open_

/-- `message` of a request, as it is written. -/
def requestText (id method : String) (params : Value) : String :=
  wire.write (.object [("id", .string id), ("method", .string method), ("params", params)])

/-- `request`, to where it waits for its answer: the desk, and the request it waits for, or none
    where it was not sent. -/
def request (k : Option Nat) (method : String) (params : Value) : Desk × Option Nat :=
  match s.control with
  | none => (s, none)
  | some control =>
    if !control.open_ then (s, none)
    else
      let id := uuid s.drawn
      let s := { s with drawn := s.drawn + 1 }.letGo id
      let sent := control.outbox.enqueue ⟨requestText wire id method params, .said⟩
      let pending := control.pending.filter fun x => x.1 != id
      match sent.1 with
      | .queued =>
        ({ s with
            control := some { control with
              outbox := sent.2, pending := (id, s.requests.length) :: pending }
            requests := s.requests ++ [{ delivery := k, method, params, id }] },
          some s.requests.length)
      | .full => ({ s with control := some { control with outbox := sent.2, pending } }.controlLost,
          none)
      | .closed => ({ s with control := some { control with outbox := sent.2, pending } }, none)

def input (text : String) : Value :=
  .array [.object [("type", .string "text"), ("text", .string text), ("text_elements", .array [])]]

/-- Where a delivery is, changed. -/
def put (k : Nat) (course : Course) : Desk :=
  { s with deliveries := s.deliveries.modify k fun u => { u with course } }

/-- The end of `deliver`: what the last request came to. -/
def conclude (k : Nat) : Asked → Desk
  | .answered answer =>
    s.put k (.replied (if Value.truthy (answer.get "result") then .admitted else .uncertain))
  | .notSent => s.put k (.replied (.refused .nativeSessionUnavailable))
  | .unanswered => s.put k (.replied .uncertain)

/-- The request sent, or the delivery's end where it was not. -/
def waitFor (k : Nat) (admission : Admission) (first : Bool) (sent : Desk × Option Nat) : Desk :=
  match sent.2 with
  | some n => sent.1.put k (.asking admission first n)
  | none => sent.1.conclude k .notSent

/-- `thread/queue/add`. -/
def queueAdd (k : Nat) (d : Delivery) (admission : Admission) (first : Bool) : Desk :=
  let params : Value := .object [("threadId", .string admission.thread), ("input", input d.text),
    ("clientUserMessageId", .string (uuid s.drawn))]
  let s := { s with drawn := s.drawn + 1 }
  waitFor k admission first (s.request wire uuid (some k) "thread/queue/add" params)

/-- `turn/start`. -/
def turnStart (k : Nat) (d : Delivery) (admission : Admission) : Desk :=
  let params : Value := .object [("threadId", .string admission.thread), ("input", input d.text)]
  waitFor k admission true (s.request wire uuid (some k) "turn/start" params)

/-- `deliver`, to where it waits for its first request's answer. -/
def deliver (d : Delivery) (now : Rat) : Desk :=
  let k := s.deliveries.length
  if d.expiresAt ≤ now then
    { s with deliveries := s.deliveries ++ [⟨d, .replied .expired⟩] }
  else
    let admitted := s.state.admitDelivery d.sessionId s.controlOpen
    let s : Desk := { s with state := admitted.2 }
    match admitted.1 with
    | .error why => { s with deliveries := s.deliveries ++ [⟨d, .replied (.refused why)⟩] }
    | .ok admission =>
      let s : Desk := { s with deliveries := s.deliveries ++ [⟨d, .dropped⟩] }
      if admission.idle then s.turnStart wire uuid k d admission
      else s.queueAdd wire uuid k d admission true

/-- `deliver`, from a request's answer on. -/
def goOn (k : Nat) (d : Delivery) (admission : Admission) (first : Bool) (asked : Asked) : Desk :=
  match asked with
  | .answered answer =>
    if first && admission.idle && failed answer then
      if s.state.isCurrent admission then s.queueAdd wire uuid k d admission false
      else s.put k (.replied (.refused .nativeSessionChanged))
    else s.conclude k asked
  | asked => s.conclude k asked

/-- A request's task is not there any more. -/
def endRequest (n : Nat) : Desk :=
  { s with requests := s.requests.modify n fun r => { r with fate := .ended } }

end Desk

/-! ## 3. Its runs -/

/-- One task's step. -/
inductive Event where
  /-- The broker's connection to Codex opens. -/
  | opens
  /-- What Codex said on it. -/
  | said (text : String)
  /-- It is lost, or its writer failed. -/
  | lost
  /-- Its writer takes the next message, and is done with it. -/
  | takes
  | wrote
  /-- A delivery arrives, at a time of the clock. -/
  | deliver (d : Delivery) (now : Rat)
  /-- A delivery goes on with what its request's task was handed. -/
  | wakes (k : Nat)
  /-- A delivery's request runs out of time. -/
  | timesOut (k : Nat)
  /-- A delivery's daemon hung up. -/
  | drops (k : Nat)
  /-- The rest of the broker asks Codex something else, or sends it something, and does not wait for
      an answer any more. -/
  | asks (method : String) (params : Value)
  | sends (message : Value)
  | leaves (n : Nat)
  /-- The rest of the broker changes the window's state. -/
  | elsewhere (state : Selection)

namespace Desk

variable (wire : Wire) (uuid : Nat → String) (s : Desk)

/-- The request a delivery waits for. -/
def waitedFor (k : Nat) : Option (Under × Admission × Bool × Nat × Request) :=
  match s.deliveries[k]? with
  | some u =>
    match u.course with
    | .asking admission first n => (s.requests[n]?).map fun r => (u, admission, first, n, r)
    | _ => none
  | none => none

/-- `control_said`. -/
def controlSaid (text : String) : Desk :=
  match wire.reading text with
  | .tooDeep => s
  | .notJson => s.controlLost
  | .message message =>
    let s := { s with state := s.state.controlSaid message }
    match s.control, (if isResponse message then (message.get "id").bind Value.asStr else none) with
    | some control, some id =>
      { s with
        control := some { control with pending := control.pending.filter fun x => x.1 != id }
        requests := s.requests.mapIdx fun n r =>
          if control.pending.contains (id, n) then tell (some message) r else r }
    | _, _ => s

def step : Event → Desk
  | .opens => if s.control.isNone then { s with control := some {} } else s
  | .said text => if s.controlOpen then s.controlSaid wire text else s
  | .lost => if s.controlOpen then s.controlLost else s
  | .takes =>
    { s with control := s.control.map fun c =>
        { c with outbox := (c.outbox.take fun _ => false).1 } }
  | .wrote =>
    { s with control := s.control.map fun c =>
        match c.outbox.writing with
        | some frame => { c with outbox := c.outbox.wrote frame }
        | none => c }
  | .deliver d now => s.deliver wire uuid d now
  | .wakes k =>
    match s.waitedFor k with
    | some (u, admission, first, _, r) =>
      match r.fate with
      | .told (some answer) =>
        (s.letGo r.id).goOn wire uuid k u.delivery admission first (.answered answer)
      | .told none => (s.letGo r.id).goOn wire uuid k u.delivery admission first .unanswered
      | _ => s
    | none => s
  | .timesOut k =>
    match s.waitedFor k with
    | some (u, admission, first, n, r) =>
      match r.fate with
      | .waiting =>
        ((s.letGo r.id).endRequest n).goOn wire uuid k u.delivery admission first .unanswered
      | _ => s
    | none => s
  | .drops k =>
    match s.waitedFor k with
    | some (_, _, _, n, r) => ((s.letGo r.id).endRequest n).put k .dropped
    | none => s
  | .asks method params => (s.request wire uuid none method params).1
  | .sends message =>
    { s with control := s.control.map fun c =>
        { c with outbox := (c.outbox.enqueue ⟨wire.write message, .said⟩).2 } }
  | .leaves n =>
    match s.requests[n]? with
    | some r => if r.delivery.isNone then (s.letGo r.id).endRequest n else s
    | none => s
  | .elsewhere state => { s with state }

def run (s : Desk) (events : List Event) : Desk := events.foldl (step wire uuid) s

end Desk

/-! ## 4. What becomes of a delivery's requests -/

/-- Codex said that nothing of a request went in. -/
def Request.notIn (r : Request) : Bool :=
  match r.fate with
  | .told (some answer) => failed answer
  | _ => false

/-- A request names the thread its delivery was checked against, and puts its words there. -/
def Request.Of (r : Request) (d : Delivery) : Prop :=
  r.params.get "threadId" = some (.string d.sessionId) ∧
    r.params.get "input" = some (Desk.input d.text)

/-- What a request may become: what it is, and once its task was handed something, that. -/
structure Grows (r r' : Request) : Prop where
  delivery : r'.delivery = r.delivery
  params : r'.params = r.params
  id : r'.id = r.id
  fate : ∀ answer, r.fate = .told answer → r'.fate = .told answer

namespace Grows

variable {r r' r'' : Request}

theorem refl (r : Request) : Grows r r := ⟨rfl, rfl, rfl, fun _ told => told⟩

theorem trans (h : Grows r r') (k : Grows r' r'') : Grows r r'' :=
  ⟨k.delivery.trans h.delivery, k.params.trans h.params, k.id.trans h.id,
    fun answer told => k.fate answer (h.fate answer told)⟩

theorem tell (answer : Option Value) (r : Request) : Grows r (Desk.tell answer r) := by
  unfold Desk.tell
  split
  · next waits =>
    refine ⟨rfl, rfl, rfl, fun other told => ?_⟩
    rw [waits] at told
    cases told
  · exact refl r

theorem notIn (h : Grows r r') (no : r.notIn = true) : r'.notIn = true := by
  unfold Request.notIn at no ⊢
  split at no
  · next answer told =>
    rw [h.fate _ told]
    exact no
  · cases no

theorem of_ (h : Grows r r') {d : Delivery} (own : r.Of d) : r'.Of d := by
  unfold Request.Of at own ⊢
  rw [h.params]
  exact own

end Grows

/-- What a step leaves of a delivery it is not about: where it is, and its requests, each what it
    was or what it grew to. -/
structure Carries (s s' : Desk) (k : Nat) : Prop where
  course : s'.deliveries[k]? = s.deliveries[k]?
  kept : ∀ (n : Nat) r, s.requests[n]? = some r → r.delivery = some k →
    ∃ r', s'.requests[n]? = some r' ∧ Grows r r'
  older : ∀ (n : Nat) r', s'.requests[n]? = some r' → r'.delivery = some k →
    ∃ r, s.requests[n]? = some r ∧ Grows r r'

namespace Carries

variable {wire : Wire} {uuid : Nat → String} {s s' s'' : Desk} {k : Nat}

theorem refl (s : Desk) (k : Nat) : Carries s s k :=
  ⟨rfl, fun _ r there _ => ⟨r, there, .refl r⟩, fun _ r there _ => ⟨r, there, .refl r⟩⟩

theorem trans (h : Carries s s' k) (h' : Carries s' s'' k) : Carries s s'' k := by
  refine ⟨h'.course.trans h.course, fun n r there own => ?_, fun n r'' there own => ?_⟩
  · obtain ⟨r', there', one⟩ := h.kept n r there own
    obtain ⟨r'', there'', two⟩ := h'.kept n r' there' (one.delivery.trans own)
    exact ⟨r'', there'', one.trans two⟩
  · obtain ⟨r', there', two⟩ := h'.older n r'' there own
    obtain ⟨r, there, one⟩ := h.older n r' there' (two.delivery.symm.trans own)
    exact ⟨r, there, one.trans two⟩

/-- A step that changes what requests grew to, and nothing of the deliveries. -/
theorem of_mapIdx {f : Nat → Request → Request} (grows : ∀ n r, Grows r (f n r))
    (requests : s'.requests = s.requests.mapIdx f) (deliveries : s'.deliveries = s.deliveries) :
    Carries s s' k := by
  refine ⟨by rw [deliveries], fun n r there _ => ⟨f n r, ?_, grows n r⟩, fun n r' there _ => ?_⟩
  · rw [requests, List.getElem?_mapIdx, there]
    rfl
  · rw [requests, List.getElem?_mapIdx] at there
    obtain ⟨r, found, rfl⟩ := Option.map_eq_some_iff.mp there
    exact ⟨r, found, grows n r⟩

theorem of_same (requests : s'.requests = s.requests)
    (course : s'.deliveries[k]? = s.deliveries[k]?) : Carries s s' k :=
  ⟨course, fun _ r there _ => ⟨r, by rw [requests, there], .refl r⟩,
    fun _ r there _ => ⟨r, by rw [← requests, there], .refl r⟩⟩

theorem letGo (s : Desk) (id : String) : Carries s (s.letGo id) k := by
  unfold Desk.letGo
  split
  · exact refl s k
  · refine of_mapIdx (fun n r => ?_) rfl rfl
    split
    · exact .tell none r
    · exact .refl r

theorem controlLost (s : Desk) : Carries s s.controlLost k := by
  unfold Desk.controlLost
  split
  · exact of_same rfl rfl
  · refine of_mapIdx (fun n r => ?_) rfl rfl
    split
    · exact .tell none r
    · exact .refl r

/-- The connection lost, whatever was done with it before. -/
theorem lostWith (s : Desk) (control : Option Control) :
    Carries s { s with control := control }.controlLost k :=
  (of_same rfl rfl : Carries s { s with control := control } k).trans (controlLost _)

theorem letGo_deliveries (s : Desk) (id : String) : (s.letGo id).deliveries = s.deliveries := by
  unfold Desk.letGo
  split <;> rfl

theorem controlLost_deliveries (s : Desk) : s.controlLost.deliveries = s.deliveries := by
  unfold Desk.controlLost
  split <;> rfl

theorem controlSaid (s : Desk) (text : String) : Carries s (s.controlSaid wire text) k := by
  unfold Desk.controlSaid
  split
  · exact refl s k
  · exact controlLost s
  · next message _ =>
    dsimp only
    split
    · refine of_mapIdx (fun n r => ?_) rfl rfl
      split
      · exact .tell (some message) r
      · exact .refl r
    · exact of_same rfl rfl

/-- A request of another's, appended. -/
theorem append (s : Desk) (r : Request) (other : r.delivery ≠ some k) {control : Option Control} :
    Carries s { s with control := control, requests := s.requests ++ [r] } k := by
  refine ⟨rfl, fun n q there _ => ⟨q, ?_, .refl q⟩, fun n q there own => ?_⟩
  · obtain ⟨before, _⟩ := List.getElem?_eq_some_iff.mp there
    rw [List.getElem?_append_left before, there]
  · dsimp only at there
    rw [List.getElem?_append] at there
    split at there
    · exact ⟨q, there, .refl q⟩
    · rw [List.getElem?_singleton] at there
      split at there
      · cases there
        exact absurd own other
      · cases there

/-- The end of another's request's task. -/
theorem endRequest (s : Desk) (n : Nat)
    (other : ∀ r, s.requests[n]? = some r → r.delivery ≠ some k) :
    Carries s (s.endRequest n) k := by
  unfold Desk.endRequest
  refine ⟨rfl, fun m r there own => ?_, fun m r' there own => ?_⟩
  · refine ⟨r, ?_, .refl r⟩
    have here : n ≠ m := fun same => other r (same ▸ there) own
    exact (List.getElem?_modify_ne _ _ here).trans there
  · dsimp only at there
    rw [List.getElem?_modify] at there
    obtain ⟨r, found, same⟩ := Option.map_eq_some_iff.mp there
    split at same
    · next here =>
      subst here same
      exact absurd own (other r found)
    · subst same
      exact ⟨r, found, .refl r⟩

theorem put (s : Desk) {j : Nat} (other : j ≠ k) (course : Course) :
    Carries s (s.put j course) k :=
  of_same rfl (List.getElem?_modify_ne _ _ other)

theorem conclude (s : Desk) {j : Nat} (other : j ≠ k) (asked : Asked) :
    Carries s (s.conclude j asked) k := by
  cases asked with
  | answered answer => exact put s other _
  | notSent => exact put s other _
  | unanswered => exact put s other _

/-- Another's request, sent or not. -/
theorem request (s : Desk) {j : Option Nat} (other : j ≠ some k) (method : String)
    (params : Value) : Carries s (s.request wire uuid j method params).1 k := by
  unfold Desk.request
  split
  · exact refl s k
  · next control _ =>
    split
    · exact refl s k
    · dsimp only
      have first : Carries s ({ s with drawn := s.drawn + 1 }.letGo (uuid s.drawn)) k :=
        (of_same rfl rfl : Carries s { s with drawn := s.drawn + 1 } k).trans (letGo _ _)
      split
      · exact first.trans (append _ _ other)
      · dsimp only
        exact first.trans (lostWith _ _)
      · exact first.trans (of_same rfl rfl)

theorem waitFor {sent : Desk × Option Nat} {j : Nat} (h : Carries s sent.1 k) (other : j ≠ k)
    (admission : Admission) (first : Bool) :
    Carries s (Desk.waitFor j admission first sent) k := by
  unfold Desk.waitFor
  split
  · exact h.trans (put _ other _)
  · exact h.trans (conclude _ other _)

theorem queueAdd (s : Desk) {j : Nat} (other : j ≠ k) (d : Delivery) (admission : Admission)
    (first : Bool) : Carries s (s.queueAdd wire uuid j d admission first) k := by
  have drawn : Carries s { s with drawn := s.drawn + 1 } k := of_same rfl rfl
  exact waitFor (drawn.trans (request _ (fun same => other (Option.some.inj same)) _ _)) other _ _

theorem turnStart (s : Desk) {j : Nat} (other : j ≠ k) (d : Delivery) (admission : Admission) :
    Carries s (s.turnStart wire uuid j d admission) k :=
  waitFor (request _ (fun same => other (Option.some.inj same)) _ _) other _ _

theorem goOn (s : Desk) {j : Nat} (other : j ≠ k) (d : Delivery) (admission : Admission)
    (first : Bool) (asked : Asked) : Carries s (s.goOn wire uuid j d admission first asked) k := by
  unfold Desk.goOn
  split
  · split
    · split
      · exact queueAdd s other d admission false
      · exact put s other _
    · exact conclude s other _
  · exact conclude s other _

/-- A delivery that comes after this one, or before it. -/
theorem arrive (s : Desk) (u : Under) (other : s.deliveries.length ≠ k) {state : Selection} :
    Carries s { s with state := state, deliveries := s.deliveries ++ [u] } k := by
  refine of_same rfl ?_
  dsimp only
  rw [List.getElem?_append]
  split
  · rfl
  · next past =>
    rw [List.getElem?_singleton, if_neg (by omega), List.getElem?_eq_none (by omega)]

theorem deliver (s : Desk) (other : s.deliveries.length ≠ k) (d : Delivery) (now : Rat) :
    Carries s (s.deliver wire uuid d now) k := by
  unfold Desk.deliver
  dsimp only
  split
  · exact arrive s _ other
  · split
    · exact arrive s _ other
    · split
      · exact (arrive s _ other).trans (turnStart _ other _ _)
      · exact (arrive s _ other).trans (queueAdd _ other _ _ _)

end Carries

/-! ## 5. Where a delivery stands -/

/-- Nothing of a delivery is in. -/
def Desk.Clear (s : Desk) (k : Nat) : Prop :=
  ∀ (n : Nat) r, s.requests[n]? = some r → r.delivery = some k → r.notIn = true

/-- Nothing of a delivery is in but what one request may have put there. -/
def Desk.ClearBut (s : Desk) (k n : Nat) : Prop :=
  ∀ (m : Nat) r, s.requests[m]? = some r → r.delivery = some k → m ≠ n → r.notIn = true

/-- A delivery's requests are its own. -/
def Desk.Own (s : Desk) (k : Nat) (d : Delivery) : Prop :=
  ∀ (n : Nat) r, s.requests[n]? = some r → r.delivery = some k → r.Of d

/-- A request of a delivery Codex answered, and all the others did not go in. -/
def Desk.Answered (s : Desk) (k : Nat) (answer : Value) : Prop :=
  ∃ n r, s.requests[n]? = some r ∧ r.delivery = some k ∧ r.fate = .told (some answer) ∧
    s.ClearBut k n

/-- What the requests of a delivery are, by where it is. -/
def Desk.Stands (s : Desk) (k : Nat) : Course → Prop
  | .asking _ _ n => (∃ r, s.requests[n]? = some r ∧ r.delivery = some k) ∧ s.ClearBut k n
  | .replied .admitted => ∃ answer, Value.truthy (answer.get "result") = true ∧ s.Answered k answer
  | .replied .expired | .replied (.refused _) => s.Clear k
  | .replied .uncertain | .dropped => ∃ n, s.ClearBut k n

/-- A delivery's thread is the one it was checked against. -/
def Under.Checked (u : Under) : Prop :=
  ∀ admission first n, u.course = .asking admission first n →
    admission.thread = u.delivery.sessionId

/-- A delivery, whether it has come yet or not, stands where it should. -/
def Desk.Ready (s : Desk) (k : Nat) : Prop :=
  match s.deliveries[k]? with
  | some u => u.Checked ∧ s.Own k u.delivery ∧ s.Stands k u.course
  | none => ∀ (n : Nat) r, s.requests[n]? = some r → r.delivery ≠ some k

namespace Carries

variable {wire : Wire} {uuid : Nat → String} {s s' : Desk} {k : Nat}

theorem clear (h : Carries s s' k) (none_in : s.Clear k) : s'.Clear k := by
  intro n r' there own
  obtain ⟨r, found, grew⟩ := h.older n r' there own
  exact grew.notIn (none_in n r found (grew.delivery.symm.trans own))

theorem clearBut (h : Carries s s' k) {n : Nat} (but : s.ClearBut k n) : s'.ClearBut k n := by
  intro m r' there own other
  obtain ⟨r, found, grew⟩ := h.older m r' there own
  exact grew.notIn (but m r found (grew.delivery.symm.trans own) other)

theorem own (h : Carries s s' k) {d : Delivery} (all : s.Own k d) : s'.Own k d := by
  intro n r' there own
  obtain ⟨r, found, grew⟩ := h.older n r' there own
  exact grew.of_ (all n r found (grew.delivery.symm.trans own))

theorem answered (h : Carries s s' k) {answer : Value} (was : s.Answered k answer) :
    s'.Answered k answer := by
  obtain ⟨n, r, there, own, told, but⟩ := was
  obtain ⟨r', found, grew⟩ := h.kept n r there own
  exact ⟨n, r', found, grew.delivery.trans own, grew.fate _ told, h.clearBut but⟩

theorem stands (h : Carries s s' k) {course : Course} (was : s.Stands k course) :
    s'.Stands k course := by
  cases course with
  | asking admission first n =>
    obtain ⟨⟨r, there, own⟩, but⟩ := was
    obtain ⟨r', found, grew⟩ := h.kept n r there own
    exact ⟨⟨r', found, grew.delivery.trans own⟩, h.clearBut but⟩
  | replied reply =>
    cases reply with
    | admitted =>
      obtain ⟨answer, result, answered⟩ := was
      exact ⟨answer, result, h.answered answered⟩
    | expired => exact h.clear was
    | refused why => exact h.clear was
    | uncertain =>
      obtain ⟨n, but⟩ := was
      exact ⟨n, h.clearBut but⟩
  | dropped =>
    obtain ⟨n, but⟩ := was
    exact ⟨n, h.clearBut but⟩

/-- A delivery stands where it did after a step of another's. -/
theorem ready (h : Carries s s' k) (was : s.Ready k) : s'.Ready k := by
  unfold Desk.Ready at was ⊢
  rw [h.course]
  split
  · next u there =>
    rw [there] at was
    obtain ⟨checked, own, stands⟩ := was
    exact ⟨checked, h.own own, h.stands stands⟩
  · next missing =>
    rw [missing] at was
    intro n r' there own
    obtain ⟨r, found, grew⟩ := h.older n r' there own
    exact was n r found (grew.delivery.symm.trans own)

end Carries

/-! ## 6. A delivery's own steps -/

section

variable {wire : Wire} {uuid : Nat → String} {s : Desk} {k : Nat}

/-- A delivery that is there stands where it is put. -/
theorem ready_put {u : Under} (there : s.deliveries[k]? = some u) {course : Course}
    (checked : Under.Checked ⟨u.delivery, course⟩) (own : s.Own k u.delivery)
    (stands : s.Stands k course) : (s.put k course).Ready k := by
  have put : (s.put k course).deliveries[k]? = some ⟨u.delivery, course⟩ := by
    unfold Desk.put
    rw [List.getElem?_modify_eq, there]
    rfl
  unfold Desk.Ready
  rw [put]
  exact ⟨checked, own, stands⟩

/-- What a delivery is to make of a request's end: what it was told is so. -/
def Desk.Came (s : Desk) (k : Nat) : Asked → Prop
  | .answered answer => s.Answered k answer
  | .notSent => s.Clear k
  | .unanswered => ∃ n, s.ClearBut k n

/-- The end of a delivery: what its daemon is told is what came of its requests. -/
theorem ready_conclude {u : Under} (there : s.deliveries[k]? = some u) (own : s.Own k u.delivery)
    {asked : Asked} (came : s.Came k asked) : (s.conclude k asked).Ready k := by
  have ended {reply : Reply} : Under.Checked ⟨u.delivery, .replied reply⟩ := by
    intro _ _ _ asking
    cases asking
  cases asked with
  | answered answer =>
    refine ready_put there ended own ?_
    split
    · next result => exact ⟨answer, result, came⟩
    · obtain ⟨n, _, _, _, _, but⟩ := came
      exact ⟨n, but⟩
  | notSent => exact ready_put there ended own came
  | unanswered => exact ready_put there ended own came

/-- What became of a delivery's request: sent, it is the one that may go in; not sent, nothing of
    the delivery is in still. -/
def Desk.Went (s : Desk) (k : Nat) (d : Delivery) (sent : Desk × Option Nat) : Prop :=
  sent.1.deliveries = s.deliveries ∧ sent.1.Own k d ∧
    match sent.2 with
    | some n => (∃ r, sent.1.requests[n]? = some r ∧ r.delivery = some k) ∧ sent.1.ClearBut k n
    | none => sent.1.Clear k

/-- A request that is sent is the last, and every other is what it was. -/
theorem went_append {d : Delivery} (none_in : s.Clear k) (own : s.Own k d) {r : Request}
    (mine : r.delivery = some k) (of_ : r.Of d) (control : Option Control) :
    s.Went k d ({ s with control := control, requests := s.requests ++ [r] },
      some s.requests.length) := by
  have split_ {n : Nat} {q : Request} (there : (s.requests ++ [r])[n]? = some q) :
      s.requests[n]? = some q ∨ n = s.requests.length ∧ q = r := by
    rw [List.getElem?_append] at there
    split at there
    · exact .inl there
    · next past =>
      rw [List.getElem?_singleton] at there
      split at there
      · next zero =>
        cases there
        exact .inr ⟨by omega, rfl⟩
      · cases there
  refine ⟨rfl, fun n q there its => ?_, ⟨r, ?_, mine⟩, fun n q there its other => ?_⟩
  · rcases split_ there with old | ⟨_, rfl⟩
    · exact own n q old its
    · exact of_
  · exact List.getElem?_concat_length
  · rcases split_ there with old | ⟨last, _⟩
    · exact none_in n q old its
    · exact absurd last other

/-- A delivery nothing of which is in asks: what its request came to. -/
theorem went_request {d : Delivery} (none_in : s.Clear k) (own : s.Own k d) {method : String}
    {params : Value} (of_ : ∀ id, (⟨some k, method, params, id, .waiting⟩ : Request).Of d) :
    s.Went k d (s.request wire uuid (some k) method params) := by
  unfold Desk.request
  split
  · exact ⟨rfl, own, none_in⟩
  · next control _ =>
    split
    · exact ⟨rfl, own, none_in⟩
    · dsimp only
      have first : Carries s ({ s with drawn := s.drawn + 1 }.letGo (uuid s.drawn)) k :=
        (Carries.of_same rfl rfl : Carries s { s with drawn := s.drawn + 1 } k).trans
          (Carries.letGo _ _)
      have same : ({ s with drawn := s.drawn + 1 }.letGo (uuid s.drawn)).deliveries =
          s.deliveries := Carries.letGo_deliveries _ _
      split
      · obtain ⟨_, sent⟩ := went_append (first.clear none_in) (first.own own) rfl
          (of_ (uuid s.drawn)) none
        exact ⟨same, sent⟩
      · have lost := first.trans (Carries.lostWith _ (some { control with
          outbox := (control.outbox.enqueue
            ⟨Desk.requestText wire (uuid s.drawn) method params, .said⟩).2
          pending := control.pending.filter fun x => x.1 != uuid s.drawn }))
        exact ⟨(Carries.controlLost_deliveries _).trans same, lost.own own, lost.clear none_in⟩
      · exact ⟨same, first.own own, first.clear none_in⟩

/-- A delivery that asked stands where it should. -/
theorem ready_waitFor {sent : Desk × Option Nat} {u : Under} (there : s.deliveries[k]? = some u)
    (went : s.Went k u.delivery sent) {admission : Admission}
    (thread : admission.thread = u.delivery.sessionId) (first : Bool) :
    (Desk.waitFor k admission first sent).Ready k := by
  obtain ⟨same, own, went⟩ := went
  rw [← same] at there
  unfold Desk.waitFor
  split
  · next n found =>
    rw [found] at went
    refine ready_put there ?_ own went
    intro _ _ _ asking
    cases asking
    exact thread
  · next found =>
    rw [found] at went
    exact ready_conclude there own went

/-- The queue's request, of a delivery nothing of which is in. -/
theorem ready_queueAdd {u : Under} (there : s.deliveries[k]? = some u) (none_in : s.Clear k)
    (own : s.Own k u.delivery) {admission : Admission}
    (thread : admission.thread = u.delivery.sessionId) (first : Bool) :
    (s.queueAdd wire uuid k u.delivery admission first).Ready k := by
  refine ready_waitFor there (went_request (s := { s with drawn := s.drawn + 1 }) none_in own ?_)
    thread first
  intro id
  exact ⟨by rw [← thread]; rfl, rfl⟩

/-- The turn's request, of a delivery nothing of which is in. -/
theorem ready_turnStart {u : Under} (there : s.deliveries[k]? = some u) (none_in : s.Clear k)
    (own : s.Own k u.delivery) {admission : Admission}
    (thread : admission.thread = u.delivery.sessionId) :
    (s.turnStart wire uuid k u.delivery admission).Ready k := by
  refine ready_waitFor there (went_request none_in own ?_) thread true
  intro id
  exact ⟨by rw [← thread]; rfl, rfl⟩

/-- A delivery goes on with what its request came to: where it asks once more, the answer said that
    nothing went in. -/
theorem ready_goOn {u : Under} (there : s.deliveries[k]? = some u) (own : s.Own k u.delivery)
    {admission : Admission} (thread : admission.thread = u.delivery.sessionId) (first : Bool)
    (asked : Asked) (came : s.Came k asked) :
    (s.goOn wire uuid k u.delivery admission first asked).Ready k := by
  unfold Desk.goOn
  split
  · next answer =>
    split
    · next again =>
      have none_in : s.Clear k := by
        obtain ⟨n, r, found, _, told, but⟩ := came
        intro m q at_ its
        by_cases same : m = n
        · subst same
          rw [found] at at_
          cases at_
          unfold Request.notIn
          rw [told]
          simp only [Bool.and_eq_true] at again
          exact again.2
        · exact but m q at_ its same
      split
      · exact ready_queueAdd there none_in own thread false
      · refine ready_put there ?_ own none_in
        intro _ _ _ asking
        cases asking
    · exact ready_conclude there own came
  · exact ready_conclude there own came

/-- A delivery that comes. -/
theorem ready_deliver (d : Delivery) (now : Rat) (was : s.Ready s.deliveries.length) :
    (s.deliver wire uuid d now).Ready s.deliveries.length := by
  have none_yet : ∀ (n : Nat) r, s.requests[n]? = some r →
      r.delivery ≠ some s.deliveries.length := by
    unfold Desk.Ready at was
    rwa [List.getElem?_eq_none (Nat.le_refl _)] at was
  have none_in : s.Clear s.deliveries.length := fun n r there own =>
    absurd own (none_yet n r there)
  have own : s.Own s.deliveries.length d := fun n r there own => absurd own (none_yet n r there)
  have ended {reply : Reply} : Under.Checked ⟨d, .replied reply⟩ := by
    intro _ _ _ asking
    cases asking
  unfold Desk.deliver
  dsimp only
  split
  · unfold Desk.Ready
    dsimp only
    rw [List.getElem?_concat_length]
    exact ⟨ended, own, none_in⟩
  · split
    · unfold Desk.Ready
      dsimp only
      rw [List.getElem?_concat_length]
      exact ⟨ended, own, none_in⟩
    · next admission admitted =>
      obtain ⟨_, _, thread⟩ := Selection.admitDelivery_ok _ admitted
      have there : (s.deliveries ++ [⟨d, .dropped⟩])[s.deliveries.length]? =
          some ⟨d, .dropped⟩ := List.getElem?_concat_length
      split
      · refine ready_turnStart (u := ⟨d, .dropped⟩) ?_ ?_ ?_ thread
        · exact there
        · exact none_in
        · exact own
      · refine ready_queueAdd (u := ⟨d, .dropped⟩) ?_ ?_ ?_ thread true
        · exact there
        · exact none_in
        · exact own

end

/-! ## 7. Every run -/

section

variable {wire : Wire} {uuid : Nat → String} {s : Desk} {k : Nat}

/-- What a delivery waits for, where it waits. -/
theorem waitedFor_some {u : Under} {admission : Admission} {first : Bool} {n : Nat} {r : Request}
    (h : s.waitedFor k = some (u, admission, first, n, r)) :
    s.deliveries[k]? = some u ∧ u.course = .asking admission first n ∧
      s.requests[n]? = some r := by
  unfold Desk.waitedFor at h
  split at h
  · next u' there =>
    split at h
    · next admission' first' n' asking =>
      obtain ⟨r', found, same⟩ := Option.map_eq_some_iff.mp h
      cases same
      exact ⟨there, asking, found⟩
    · cases h
  · cases h

/-- Where a delivery that is there stands. -/
theorem ready_there {u : Under} (was : s.Ready k) (there : s.deliveries[k]? = some u) :
    u.Checked ∧ s.Own k u.delivery ∧ s.Stands k u.course := by
  unfold Desk.Ready at was
  rwa [there] at was

/-- A request's task ends: every other request is what it was. -/
theorem endRequest_clearBut {n : Nat} (but : s.ClearBut k n) : (s.endRequest n).ClearBut k n := by
  intro m r there own other
  refine but m r ?_ own other
  rw [← there]
  exact (List.getElem?_modify_ne _ _ (Ne.symm other)).symm

theorem endRequest_own {d : Delivery} {n : Nat} (own : s.Own k d) : (s.endRequest n).Own k d := by
  intro m r there its
  unfold Desk.endRequest at there
  dsimp only at there
  rw [List.getElem?_modify] at there
  obtain ⟨q, found, same⟩ := Option.map_eq_some_iff.mp there
  split at same <;> subst same
  · exact own m q found its
  · exact own m q found its

/-- A delivery's task leaves its request: that one may be in, and nothing else of the delivery. -/
theorem left_request {u : Under} {admission : Admission} {first : Bool} {n : Nat} {r : Request}
    (was : s.Ready k) (waits : s.waitedFor k = some (u, admission, first, n, r)) :
    r.delivery = some k ∧ admission.thread = u.delivery.sessionId ∧
      ((s.letGo r.id).endRequest n).deliveries[k]? = some u ∧
      ((s.letGo r.id).endRequest n).Own k u.delivery ∧
      ((s.letGo r.id).endRequest n).ClearBut k n := by
  obtain ⟨there, asking, found⟩ := waitedFor_some waits
  obtain ⟨checked, own, stands⟩ := ready_there was there
  rw [asking] at stands
  obtain ⟨⟨r', found', its⟩, but⟩ := stands
  rw [found] at found'
  cases found'
  have gone := Carries.letGo (k := k) s r.id
  exact ⟨its, checked admission first n asking, gone.course.trans there,
    endRequest_own (gone.own own), endRequest_clearBut (gone.clearBut but)⟩

/-- Another's task leaves its request. -/
theorem Carries.left {n : Nat} {r : Request} (found : s.requests[n]? = some r)
    (other : r.delivery ≠ some k) : Carries s ((s.letGo r.id).endRequest n) k := by
  have gone := Carries.letGo (k := k) s r.id
  refine gone.trans (Carries.endRequest _ n fun r' there own => ?_)
  obtain ⟨q, there', grew⟩ := gone.older n r' there own
  rw [found] at there'
  cases there'
  exact other (grew.delivery.symm.trans own)

/-- **A step leaves every delivery where it should stand.** -/
theorem step_ready (event : Event) (was : ∀ k, s.Ready k) (k : Nat) :
    (s.step wire uuid event).Ready k := by
  cases event with
  | opens =>
    unfold Desk.step
    dsimp only
    split
    · exact (Carries.of_same rfl rfl).ready (was k)
    · exact was k
  | said text =>
    unfold Desk.step
    dsimp only
    split
    · exact (Carries.controlSaid s text).ready (was k)
    · exact was k
  | lost =>
    unfold Desk.step
    dsimp only
    split
    · exact (Carries.controlLost s).ready (was k)
    · exact was k
  | takes => exact (Carries.of_same rfl rfl).ready (was k)
  | wrote => exact (Carries.of_same rfl rfl).ready (was k)
  | deliver d now =>
    by_cases mine : s.deliveries.length = k
    · subst mine
      exact ready_deliver d now (was _)
    · exact (Carries.deliver s mine d now).ready (was k)
  | wakes j =>
    unfold Desk.step
    dsimp only
    split
    · next u admission first n r waits =>
      obtain ⟨there, asking, found⟩ := waitedFor_some waits
      have gone := Carries.letGo (k := k) s r.id
      by_cases mine : j = k
      · subst mine
        obtain ⟨checked, own, stands⟩ := ready_there (was j) there
        rw [asking] at stands
        obtain ⟨⟨r', found', its⟩, but⟩ := stands
        rw [found] at found'
        cases found'
        have thread := checked admission first n asking
        rw [← gone.course] at there
        split
        · next answer told =>
          have came : s.Answered j answer := ⟨n, r, found, its, told, but⟩
          exact ready_goOn there (gone.own own) thread first (.answered answer)
            (gone.answered came)
        · exact ready_goOn there (gone.own own) thread first .unanswered
            ⟨n, gone.clearBut but⟩
        · exact was j
      · split
        · exact (gone.trans (Carries.goOn _ mine _ _ _ _)).ready (was k)
        · exact (gone.trans (Carries.goOn _ mine _ _ _ _)).ready (was k)
        · exact was k
    · exact was k
  | timesOut j =>
    unfold Desk.step
    dsimp only
    split
    · next u admission first n r waits =>
      obtain ⟨its, thread, there, own, but⟩ := left_request (was j) waits
      split
      · by_cases mine : j = k
        · subst mine
          exact ready_goOn there own thread first .unanswered ⟨n, but⟩
        · obtain ⟨_, _, found⟩ := waitedFor_some waits
          have other : r.delivery ≠ some k := fun same =>
            mine (Option.some.inj (its.symm.trans same))
          exact ((Carries.left found other).trans (Carries.goOn _ mine _ _ _ _)).ready (was k)
      · exact was k
    · exact was k
  | drops j =>
    unfold Desk.step
    dsimp only
    split
    · next u admission first n r waits =>
      obtain ⟨its, thread, there, own, but⟩ := left_request (was j) waits
      by_cases mine : j = k
      · subst mine
        refine ready_put there ?_ own ⟨n, but⟩
        intro _ _ _ asking
        cases asking
      · obtain ⟨_, _, found⟩ := waitedFor_some waits
        have other : r.delivery ≠ some k := fun same =>
          mine (Option.some.inj (its.symm.trans same))
        exact ((Carries.left found other).trans (Carries.put _ mine _)).ready (was k)
    · exact was k
  | asks method params =>
    exact (Carries.request s (by rintro ⟨⟩) method params).ready (was k)
  | sends message => exact (Carries.of_same rfl rfl).ready (was k)
  | leaves n =>
    unfold Desk.step
    dsimp only
    split
    · next r found =>
      split
      · next nobody =>
        have other : r.delivery ≠ some k := fun same => by
          rw [same] at nobody
          cases nobody
        exact (Carries.left found other).ready (was k)
      · exact was k
    · exact was k
  | elsewhere state => exact (Carries.of_same rfl rfl).ready (was k)

/-- Every delivery of every run stands where it should. -/
theorem run_ready (events : List Event) (was : ∀ k, s.Ready k) (k : Nat) :
    (s.run wire uuid events).Ready k := by
  induction events generalizing s with
  | nil => exact was k
  | cons event events ih => exact ih (step_ready event was)

/-- Wherever a delivery is, at most one request of it may be in. -/
theorem Desk.Stands.clearBut {course : Course} (h : s.Stands k course) : ∃ n, s.ClearBut k n := by
  have of_clear (none_in : s.Clear k) : ∃ n, s.ClearBut k n :=
    ⟨0, fun m r there own _ => none_in m r there own⟩
  cases course with
  | asking admission first n => exact ⟨n, h.2⟩
  | replied reply =>
    cases reply with
    | admitted =>
      obtain ⟨_, _, n, _, _, _, _, but⟩ := h
      exact ⟨n, but⟩
    | expired => exact of_clear h
    | refused why => exact of_clear h
    | uncertain => exact h
  | dropped => exact h

end

/-- What holds of a delivery, whatever came between its steps: its requests go to the thread it
    names; at most one of them was not refused by Codex; where its daemon was told that it is
    expired or refused, all of them were; where it was told that it is admitted, Codex took one. -/
structure DeliveredOnce (s : Desk) (k : Nat) (u : Under) : Prop where
  own : ∀ (n : Nat) r, s.requests[n]? = some r → r.delivery = some k → r.Of u.delivery
  once : ∀ (n m : Nat) r q, s.requests[n]? = some r → s.requests[m]? = some q →
    r.delivery = some k → q.delivery = some k → r.notIn = false → q.notIn = false → n = m
  nothing : (u.course = .replied .expired ∨ ∃ why, u.course = .replied (.refused why)) →
    ∀ (n : Nat) r, s.requests[n]? = some r → r.delivery = some k → r.notIn = true
  taken : u.course = .replied .admitted → ∃ (n : Nat) (r : Request) (answer : Value),
    s.requests[n]? = some r ∧ r.delivery = some k ∧ r.fate = .told (some answer) ∧
      Value.truthy (answer.get "result") = true ∧
      ∀ (m : Nat) q, s.requests[m]? = some q → q.delivery = some k → m ≠ n → q.notIn = true

/-- **A delivery is put to Codex once at most.** Whatever the order in which deliveries arrive,
    wait, run out of time, are dropped and are answered, the connection is lost and the window
    moves. -/
theorem delivered_once_at_most (wire : Wire) (uuid : Nat → String) (state : Selection)
    (events : List Event) (k : Nat) :
    ∀ u, (Desk.run wire uuid { state } events).deliveries[k]? = some u →
      DeliveredOnce (Desk.run wire uuid { state } events) k u := by
  intro u there
  have start (j : Nat) : Desk.Ready { state } j := by
    intro n r there
    cases there
  obtain ⟨_, own, stands⟩ := ready_there (run_ready events start k) there
  refine ⟨own, fun n m r q first second its also yes too => ?_, fun told => ?_, fun told => ?_⟩
  · obtain ⟨one, but⟩ := stands.clearBut
    have only {i : Nat} {p : Request} (found : (Desk.run wire uuid { state } events).requests[i]? =
        some p) (of_ : p.delivery = some k) (may : p.notIn = false) : i = one := by
      by_contra other
      rw [but i p found of_ other] at may
      cases may
    exact (only first its yes).trans (only second also too).symm
  · rcases told with told | ⟨why, told⟩
    · rw [told] at stands
      exact stands
    · rw [told] at stands
      exact stands
  · rw [told] at stands
    obtain ⟨answer, result, n, r, found, its, was, but⟩ := stands
    exact ⟨n, r, answer, found, its, was, result, but⟩

/-- A window that shows an idle thread, and Codex refuses it a turn, then queues the message. -/
def refusedThenQueued : Desk :=
  Desk.run
    { reading := fun text => .message (.object [("id", .string text),
        (if text == "0" then "error" else "result", .object [])])
      write := fun _ => ""
      same := fun _ _ => false
      numberText := fun _ => "" }
    (fun n => if n == 0 then "0" else "2")
    { state := { (Selection.start false none []).beReady with
        selected := some "t", idle := [("t", true)] } }
    [.opens, .deliver ⟨"t", "hello", 1⟩ 0, .said "0", .wakes 0, .said "2", .wakes 0]

theorem delivered_once_at_most_queued :
    refusedThenQueued.requests.map Request.notIn = [true, false] ∧
      DeliveredOnce refusedThenQueued 0 ⟨⟨"t", "hello", 1⟩, .replied .admitted⟩ :=
  ⟨by decide, delivered_once_at_most _ _ _ _ 0 _ (by rfl)⟩

end Broker
end Codex
end ConsensFlow
