/-
  File:      ConsensFlow/Bridge/Transport.lean
  Subject:   THE BRIDGE'S TRANSPORT (`cf-bridge`): requests from any threads, the reader that matches
             responses to them, the writer and its queue, and the ends of the input, the output and
             the transport.

  * `Frame`, `Call`, `Inner` -- a line on the bridge; how far a call of `request` is; the bridge, with
    the calls, its two threads, and who closes it;
  * `Act`, `Inner.step` -- each access to what threads share, each section under a lock and each end of
    a wait is one step, in any order;
  * `Stepped` -- what each step does to the table, the calls and what is between them.

  A lock is poisoned by a panic under it, and none of the sections under a lock panics. Ids are counted
  in 64 bits, which no run uses up. A report is told to the owner, and nothing of the bridge reads it.
-/
import ConsensFlow.Lib.Json

namespace ConsensFlow
namespace Bridge

open Lib.Json

/-! ## 1. Frames -/

inductive BridgeError where
  | eof
  | io (message : String)
  | malformedFrame (message : String)
  deriving DecidableEq, Repr

/-- What a request is answered. -/
abbrev Answer := Except BridgeError Value

inductive Role where
  | host
  | daemon
  deriving DecidableEq, Repr

def Role.idPrefix : Role → String
  | host => "r-"
  | daemon => "n-"

def protocolVersion : Nat := 1

/-- One line on the bridge. -/
structure Frame where
  v : Nat
  id : String
  kind : String
  op : String
  body : Value

def Frame.isWellFormed (frame : Frame) : Bool :=
  frame.v == protocolVersion && !frame.id.isEmpty && ["req", "res", "evt"].contains frame.kind

def tooLargeBody : Value := .object [("ok", .bool false), ("error", .string "too-large")]

def deadlineBody : Value := .object [("ok", .bool false), ("error", .string "deadline")]

def writerQueueCapacity : Nat := 32

/-- What a bridge was built with. `toVec` is `serde_json::to_vec`. -/
structure Config where
  role : Role
  maxFrameBytes : Nat
  keepsOutput : Bool
  defaultRequestDeadline : Nat
  toVec : Frame → Except String (List UInt8)

/-- The id a bridge mints after so many. -/
def Config.idAfter (cfg : Config) (minted : Nat) : String :=
  cfg.role.idPrefix ++ Nat.repr (minted + 1)

/-! ## 2. The bridge, and how far its calls are -/

/-- How far a call of `request` that has an id is. -/
inductive Phase where
  /-- It is to enter the table. -/
  | encoded
  /-- `enqueue_encoded`: it is to look whether the output is closed; to offer its frame to the writer;
      it found the queue full. -/
  | asking
  | offering
  | stalled
  /-- It found the writer gone, and is to close the transport; it does. -/
  | failing (error : BridgeError)
  | closing
  /-- It waits for its answer. -/
  | receiving
  /-- Its deadline passed: it is to cancel its frame; to leave the table. -/
  | canceling
  | removing
  deriving DecidableEq, Repr

/-- How far a call of `request` is. -/
inductive Stage where
  | begun
  | minting
  | asked (id : String) (phase : Phase)
  | returned (id : Option String) (answer : Answer)

namespace Stage

def id : Stage → Option String
  | asked id _ => some id
  | returned id _ => id
  | _ => none

/-- It never enters the table again. -/
def entered : Stage → Bool
  | asked _ .encoded | begun | minting => false
  | _ => true

def answer : Stage → Option Answer
  | returned _ answer => some answer
  | _ => none

end Stage

/-- A call of `request`: what it asks, its receiver and its frame's flag. -/
structure Call where
  op : String
  body : Value
  deadline : Nat
  stage : Stage := .begun
  inbox : List Answer := []
  canceled : Bool := false

/-- An entry of the table; the sender is that of a call. -/
structure PendingRequest where
  op : String
  sender : Nat
  deriving DecidableEq, Repr

/-- What reading a line comes to. -/
inductive Outcome where
  | line (frame : Frame)
  | malformed
  | ended
  | failed

/-- How far the reader is. -/
inductive Reader where
  | looking
  | waiting
  | dispatching (frame : Frame)
  | answering (frame : Frame)
  | handing (frame : Frame) (sender : Nat)
  | ended
  | closing
  | stopped

/-- How far the writer is; a job is that of a call, or another's. -/
inductive Writer where
  | receiving
  | checking (job : Option Nat)
  | flushing
  | failing (error : BridgeError)
  | closing
  | gone
  deriving DecidableEq, Repr

/-- Who closes the transport. -/
inductive Who where
  | reader
  | writer
  | call (c : Nat) (error : BridgeError)
  | other
  deriving DecidableEq, Repr

/-- The call of `request` that it is for. -/
def Who.caller : Who → Option Nat
  | call c _ => some c
  | _ => none

/-- How far `close_transport` is: to end the output; to take the writer; to drain the table; to tell
    who waits. -/
inductive Point where
  | ending
  | taking
  | draining
  | sending (rest : List Nat)
  deriving DecidableEq, Repr

/-- The call of `close_transport` that holds the lifecycle's lock. -/
structure Closing where
  who : Who
  error : BridgeError
  point : Point
  deriving DecidableEq, Repr

/-- A call of `cut_output` under no lock: whether it ended the output, and is to take the writer. -/
structure Cutting where
  who : Who
  ended : Bool
  deriving DecidableEq, Repr

/-- The bridge, its threads, and what happened so far: the response frames that came, and which was
    handed to which call. -/
structure Inner where
  now : Nat := 0
  nextId : Nat := 0
  closed : Bool := false
  outputEnded : Bool := false
  writer : Bool := true
  jobs : List (Option Nat) := []
  pending : AList (fun _ : String => PendingRequest) := ∅
  calls : List Call := []
  reading : Reader := .looking
  writing : Writer := .receiving
  closing : Option Closing := none
  cuts : List Cutting := []
  frames : List Frame := []
  handed : List (Nat × Nat) := []

/-! ## 3. Steps -/

inductive Act where
  | tick
  /-- Some thread calls `request`. -/
  | request (op : String) (body : Value) (deadlineMs : Option Nat)
  /-- A call goes on. -/
  | go (c : Nat)
  /-- The reader goes on; what it reads, where it reads. -/
  | reader (outcome : Outcome)
  /-- The writer goes on; how it fails, where it writes and does. -/
  | writer (failure : Option String)
  /-- Another frame is queued: an event, or a response. -/
  | push
  /-- `close_input`; `end_output`, after that. -/
  | closeInput
  | endOutput
  /-- Another thread fails the transport. -/
  | fail (error : BridgeError)
  /-- Who closes the transport goes on; tells one who waits. -/
  | close
  | send (c : Nat)
  /-- An output is cut. -/
  | cut (i : Nat)

namespace Inner

def outputClosed (cfg : Config) (s : Inner) : Bool :=
  s.closed && (!cfg.keepsOutput || s.outputEnded)

/-- A call's next stage. -/
def put (s : Inner) (c : Nat) (call : Call) (stage : Stage) : Inner :=
  { s with calls := s.calls.set c { call with stage } }

/-- A message in a call's channel. -/
def deliver (s : Inner) (c : Nat) (answer : Answer) : Inner :=
  { s with calls := s.calls.modify c fun call => { call with inbox := call.inbox ++ [answer] } }

/-- The sender of a call's channel is somewhere. -/
def sendable (s : Inner) (c : Nat) : Bool :=
  s.pending.entries.any (·.2.sender == c) ||
  (match s.reading with
    | .handing _ sender => sender == c
    | _ => false) ||
  (match s.closing with
    | some ⟨_, _, .sending rest⟩ => rest.contains c
    | _ => false)

/-- Who closed the transport, or cut the output, is done. -/
def finish (s : Inner) : Who → Inner
  | .reader => { s with reading := .stopped }
  | .writer => { s with writing := .gone, jobs := [] }
  | .call c error => { s with
      calls := s.calls.modify c fun call =>
        { call with stage := .returned call.stage.id (.error error) } }
  | .other => s

/-- `close_transport`, under the lifecycle's lock, to the mark. -/
def closeTransport (s : Inner) (who : Who) (error : BridgeError) (keepsOutput : Bool) :
    Option Inner :=
  if s.closing.isSome then none
  else if s.closed then
    some (if keepsOutput then s.finish who else { s with cuts := s.cuts ++ [⟨who, false⟩] })
  else some { s with
    closed := true
    closing := some ⟨who, error, if keepsOutput then .draining else .ending⟩ }

/-- What a call does next: `request`, and `enqueue_encoded` for it. -/
def go (cfg : Config) (s : Inner) (c : Nat) (call : Call) : Option Inner :=
  match call.stage with
  | .begun => some (s.put c call (if s.closed then .returned none (.error .eof) else .minting))
  | .minting =>
    let id := cfg.idAfter s.nextId
    let s := { s with nextId := s.nextId + 1 }
    match cfg.toVec ⟨protocolVersion, id, "req", call.op, call.body⟩ with
    | .error message => some (s.put c call (.returned (some id) (.error (.malformedFrame message))))
    | .ok encoded =>
      some (s.put c call (if cfg.maxFrameBytes < encoded.length then
        .returned (some id) (.ok tooLargeBody) else .asked id .encoded))
  | .asked id .encoded =>
    if s.closed then some (s.put c call (.returned (some id) (.error .eof)))
    else some { s.put c call (.asked id .asking) with pending := s.pending.insert id ⟨call.op, c⟩ }
  | .asked id .asking =>
    some (s.put c call (if s.outputClosed cfg then .returned (some id) (.error .eof)
      else .asked id .offering))
  | .asked id .offering =>
    if !s.writer then some (s.put c call (.returned (some id) (.error .eof)))
    else if s.writing = .gone then
      some (s.put c call (.asked id (.failing (.io "bridge writer queue is closed"))))
    else if writerQueueCapacity ≤ s.jobs.length then some (s.put c call (.asked id .stalled))
    else some { s.put c call (.asked id .receiving) with jobs := s.jobs ++ [some c] }
  | .asked id .stalled =>
    some (s.put c call (.asked id (if call.deadline ≤ s.now then .canceling else .asking)))
  | .asked id (.failing error) =>
    (s.put c call (.asked id .closing)).closeTransport (.call c error) error false
  | .asked _ .closing => none
  | .asked id .receiving =>
    match call.inbox with
    | answer :: _ => some (s.put c call (.returned (some id) answer))
    | [] =>
      if !s.sendable c then some (s.put c call (.returned (some id) (.error .eof)))
      else if call.deadline ≤ s.now then some (s.put c call (.asked id .canceling))
      else none
  | .asked id .canceling => some (s.put c { call with canceled := true } (.asked id .removing))
  | .asked id .removing =>
    some { s.put c call (.returned (some id) (.ok deadlineBody)) with
      pending := s.pending.erase id }
  | .returned _ _ => none

/-- What the reader does next: its loop, `dispatch_line` and `dispatch_response`. -/
def goReader (cfg : Config) (s : Inner) (outcome : Outcome) : Option Inner :=
  match s.reading with
  | .looking => some { s with reading := if s.closed then .stopped else .waiting }
  | .waiting => some { s with reading := match outcome with
      | .line frame => .dispatching frame
      | .malformed => .looking
      | .ended | .failed => .ended }
  | .dispatching frame =>
    -- a request and an event go to the owner's handlers, each on a thread
    if !s.closed && frame.isWellFormed && frame.kind == "res" &&
        frame.id.startsWith cfg.role.idPrefix then
      some { s with reading := .answering frame, frames := s.frames ++ [frame] }
    else some { s with reading := .looking }
  | .answering frame =>
    match s.pending.lookup frame.id with
    | some request =>
      if request.op = frame.op then
        some { s with
          pending := s.pending.erase frame.id
          reading := .handing frame request.sender }
      else some { s with reading := .looking }
    | none => some { s with reading := .looking }
  | .handing frame sender =>
    some { s.deliver sender (.ok frame.body) with
      reading := .looking
      handed := s.handed ++ [(s.frames.length - 1, sender)] }
  | .ended => { s with reading := .closing }.closeTransport .reader .eof cfg.keepsOutput
  | .closing | .stopped => none

/-- The flag of a job's frame. -/
def canceled (s : Inner) (job : Option Nat) : Bool :=
  (job.bind fun c => s.calls[c]?).any Call.canceled

/-- What the writer does next: `writer_loop`. -/
def goWriter (cfg : Config) (s : Inner) (failure : Option String) : Option Inner :=
  match s.writing with
  | .receiving =>
    match s.jobs with
    | job :: jobs => some { s with jobs, writing := .checking job }
    | [] => if s.writer then none else some { s with writing := .gone }
  | .checking job => some { s with writing := if s.canceled job then .receiving else .flushing }
  | .flushing =>
    if s.outputClosed cfg then some { s with writing := .gone, jobs := [] }
    else some { s with writing := match failure with
      | some message => .failing (.io message)
      | none => .receiving }
  | .failing error => { s with writing := .closing }.closeTransport .writer error false
  | .closing | .gone => none

/-- What who holds the lifecycle's lock does next. -/
def goClose (s : Inner) (closing : Closing) : Option Inner :=
  match closing.point with
  | .ending => some { s with outputEnded := true, closing := some { closing with point := .taking } }
  | .taking => some { s with writer := false, closing := some { closing with point := .draining } }
  | .draining => some { s with
      pending := ∅
      closing := some { closing with point := .sending (s.pending.entries.map (·.2.sender)) } }
  | .sending [] => some ({ s with closing := none }.finish closing.who)
  | .sending (_ :: _) => none

/-- One step. -/
def step (cfg : Config) (s : Inner) : Act → Option Inner
  | .tick => some { s with now := s.now + 1 }
  | .request op body deadlineMs => some { s with
      calls := s.calls ++
        [{ op, body, deadline := s.now + deadlineMs.getD cfg.defaultRequestDeadline }] }
  | .go c => s.calls[c]?.bind (s.go cfg c)
  | .reader outcome => s.goReader cfg outcome
  | .writer failure => s.goWriter cfg failure
  | .push =>
    if s.writer ∧ s.writing ≠ .gone ∧ s.jobs.length < writerQueueCapacity then
      some { s with jobs := s.jobs ++ [none] }
    else none
  | .closeInput => some { s with writer := false }
  | .endOutput => some { s with cuts := s.cuts ++ [⟨.other, false⟩] }
  | .fail error => s.closeTransport .other error false
  | .close => s.closing.bind s.goClose
  | .send c =>
    match s.closing with
    | some ⟨who, error, .sending rest⟩ =>
      if c ∈ rest then
        some { s.deliver c (.error error) with
          closing := some ⟨who, error, .sending (rest.erase c)⟩ }
      else none
    | _ => none
  | .cut i =>
    match s.cuts[i]? with
    | some ⟨who, false⟩ => some { s with outputEnded := true, cuts := s.cuts.set i ⟨who, true⟩ }
    | some ⟨who, true⟩ => some ({ s with writer := false, cuts := s.cuts.eraseIdx i }.finish who)
    | none => none

/-- Steps one after the other. -/
def runs (cfg : Config) : Inner → List Act → Option Inner
  | s, [] => some s
  | s, act :: acts => (s.step cfg act).bind fun s => s.runs cfg acts

/-- The states some steps lead to. -/
def Leads (cfg : Config) (s s' : Inner) : Prop := ∃ acts, s.runs cfg acts = some s'

end Inner

/-! ## 4. What a step does -/

def Reader.hand : Reader → Option (Frame × Nat)
  | handing frame sender => some (frame, sender)
  | _ => none

def Reader.asks : Reader → Option Frame
  | answering frame => some frame
  | _ => none

/-- The reader has no frame it had not. -/
structure Reader.Keeps (reading reading' : Reader) : Prop where
  hand : ∀ held, reading'.hand = some held → reading.hand = some held
  asks : ∀ frame, reading'.asks = some frame → reading.asks = some frame

/-- A phase of a call that is in the table, or was. -/
def Phase.inside : Phase → Bool
  | encoded | closing => false
  | _ => true

/-- What each step does, and when; what is not named is as it was, but for the clock, the queue, the
    writer, its sender and the output's end. -/
inductive Stepped (cfg : Config) (s : Inner) (act : Act) : Inner → Prop where
  | aside (now : Nat) (jobs : List (Option Nat)) (writer outputEnded : Bool) (writing : Writer)
    (reading : Reader) (keeps : s.reading.Keeps reading) :
    Stepped cfg s act { s with now, jobs, writer, outputEnded, writing, reading }
  | began (op : String) (body : Value) (deadline : Nat) :
    Stepped cfg s act { s with calls := s.calls ++ [{ op, body, deadline }] }
  -- a call goes on
  | goesOn (c : Nat) (call : Call) (here : s.calls[c]? = some call) (begun : call.stage = .begun) :
    Stepped cfg s act (s.put c call .minting)
  | foundClosed (c : Nat) (call : Call) (here : s.calls[c]? = some call)
    (begun : call.stage = .begun) :
    Stepped cfg s act (s.put c call (.returned none (.error .eof)))
  | minted (c : Nat) (call : Call) (here : s.calls[c]? = some call) (minting : call.stage = .minting) :
    Stepped cfg s act { s.put c call (.asked (cfg.idAfter s.nextId) .encoded) with
      nextId := s.nextId + 1 }
  | unsent (c : Nat) (call : Call) (here : s.calls[c]? = some call) (minting : call.stage = .minting)
    (answer : Answer) (which : answer = .ok tooLargeBody ∨ ∃ error, answer = .error error) :
    Stepped cfg s act { s.put c call (.returned (some (cfg.idAfter s.nextId)) answer) with
      nextId := s.nextId + 1 }
  | shut (c : Nat) (call : Call) (id : String) (here : s.calls[c]? = some call)
    (encoded : call.stage = .asked id .encoded) (closed : s.closed = true) :
    Stepped cfg s act (s.put c call (.returned (some id) (.error .eof)))
  | entered (c : Nat) (call : Call) (id : String) (here : s.calls[c]? = some call)
    (encoded : call.stage = .asked id .encoded) (open_ : s.closed = false) :
    Stepped cfg s act { s.put c call (.asked id .asking) with
      pending := s.pending.insert id ⟨call.op, c⟩ }
  | moved (c : Nat) (call : Call) (id : String) (phase phase' : Phase) (canceled : Bool)
    (jobs : List (Option Nat)) (here : s.calls[c]? = some call)
    (at_ : call.stage = .asked id phase) (inside : phase.inside = true)
    (inside' : phase'.inside = true) :
    Stepped cfg s act { s.put c { call with canceled } (.asked id phase') with jobs }
  | refused (c : Nat) (call : Call) (id : String) (phase : Phase) (here : s.calls[c]? = some call)
    (at_ : call.stage = .asked id phase)
    (why : (phase = .asking ∧ s.outputClosed cfg = true) ∨ (phase = .offering ∧ s.writer = false))
    (how : act = .go c) :
    Stepped cfg s act (s.put c call (.returned (some id) (.error .eof)))
  | received (c : Nat) (call : Call) (id : String) (answer : Answer) (inbox : List Answer)
    (here : s.calls[c]? = some call) (at_ : call.stage = .asked id .receiving)
    (first : call.inbox = answer :: inbox) :
    Stepped cfg s act (s.put c call (.returned (some id) answer))
  | dropped (c : Nat) (call : Call) (id : String) (here : s.calls[c]? = some call)
    (at_ : call.stage = .asked id .receiving) (nowhere : s.sendable c = false) :
    Stepped cfg s act (s.put c call (.returned (some id) (.error .eof)))
  | removed (c : Nat) (call : Call) (id : String) (here : s.calls[c]? = some call)
    (at_ : call.stage = .asked id .removing) :
    Stepped cfg s act { s.put c call (.returned (some id) (.ok deadlineBody)) with
      pending := s.pending.erase id }
  -- a response is read
  | read (frame : Frame) :
    Stepped cfg s act { s with reading := .answering frame, frames := s.frames ++ [frame] }
  | took (frame : Frame) (request : PendingRequest) (at_ : s.reading = .answering frame)
    (there : s.pending.lookup frame.id = some request) (same : request.op = frame.op) :
    Stepped cfg s act { s with
      pending := s.pending.erase frame.id
      reading := .handing frame request.sender }
  | gave (frame : Frame) (sender : Nat) (at_ : s.reading = .handing frame sender) :
    Stepped cfg s act { s.deliver sender (.ok frame.body) with
      reading := .looking
      handed := s.handed ++ [(s.frames.length - 1, sender)] }
  -- the transport is closed, and the output cut
  | marked (who : Who) (error : BridgeError) (point : Point) (reading : Reader) (writing : Writer)
    (keeps : s.reading.Keeps reading) (free : s.closing = none) (open_ : s.closed = false)
    (start : point = .draining ∨ point = .ending) (nobody : who.caller = none) :
    Stepped cfg s act { s with closed := true, closing := some ⟨who, error, point⟩, reading, writing }
  | markedBy (c : Nat) (call : Call) (id : String) (error : BridgeError)
    (here : s.calls[c]? = some call) (at_ : call.stage = .asked id (.failing error))
    (free : s.closing = none) (open_ : s.closed = false) :
    Stepped cfg s act { s.put c call (.asked id .closing) with
      closed := true, closing := some ⟨.call c error, error, .ending⟩ }
  | cutting (who : Who) (reading : Reader) (writing : Writer) (keeps : s.reading.Keeps reading)
    (nobody : who.caller = none) :
    Stepped cfg s act { s with cuts := s.cuts ++ [⟨who, false⟩], reading, writing }
  | cuttingBy (c : Nat) (call : Call) (id : String) (error : BridgeError)
    (here : s.calls[c]? = some call) (at_ : call.stage = .asked id (.failing error))
    (free : s.closing = none) (closed : s.closed = true) :
    Stepped cfg s act { s.put c call (.asked id .closing) with
      cuts := s.cuts ++ [⟨.call c error, false⟩] }
  | ending (who : Who) (error : BridgeError) (point point' : Point) (writer outputEnded : Bool)
    (at_ : s.closing = some ⟨who, error, point⟩)
    (next : point = .ending ∧ point' = .taking ∨ point = .taking ∧ point' = .draining) :
    Stepped cfg s act { s with writer, outputEnded, closing := some ⟨who, error, point'⟩ }
  | drained (who : Who) (error : BridgeError) (at_ : s.closing = some ⟨who, error, .draining⟩) :
    Stepped cfg s act { s with
      pending := ∅
      closing := some ⟨who, error, .sending (s.pending.entries.map (·.2.sender))⟩ }
  | told (who : Who) (error : BridgeError) (rest : List Nat) (c : Nat) (one : c ∈ rest)
    (at_ : s.closing = some ⟨who, error, .sending rest⟩) :
    Stepped cfg s act { s.deliver c (.error error) with
      closing := some ⟨who, error, .sending (rest.erase c)⟩ }
  | released (who : Who) (error : BridgeError) (at_ : s.closing = some ⟨who, error, .sending []⟩) :
    Stepped cfg s act ({ s with closing := none }.finish who)
  | cut (i : Nat) (who : Who) (at_ : s.cuts[i]? = some ⟨who, false⟩) :
    Stepped cfg s act { s with outputEnded := true, cuts := s.cuts.set i ⟨who, true⟩ }
  | cutOff (i : Nat) (who : Who) (at_ : s.cuts[i]? = some ⟨who, true⟩) :
    Stepped cfg s act ({ s with writer := false, cuts := s.cuts.eraseIdx i }.finish who)


variable {cfg : Config} {s s' : Inner} {act : Act}

theorem Reader.Keeps.of_none {reading reading' : Reader} (hand : reading'.hand = none)
    (asks : reading'.asks = none) : reading.Keeps reading' where
  hand held h := by
    rw [hand] at h
    cases h
  asks frame h := by
    rw [asks] at h
    cases h

theorem Reader.Keeps.same {reading : Reader} : reading.Keeps reading := ⟨fun _ h => h, fun _ h => h⟩

/-- What a call does. -/
theorem go_stepped {c : Nat} {call : Call} (here : s.calls[c]? = some call)
    (h : s.go cfg c call = some s') : Stepped cfg s (.go c) s' := by
  unfold Inner.go at h
  split at h
  · rename_i at_
    split at h
    · cases h
      exact .foundClosed c call here at_
    · cases h
      exact .goesOn c call here at_
  · rename_i at_
    dsimp only at h
    split at h
    · rename_i message _
      cases h
      exact .unsent c call here at_ _ (Or.inr ⟨_, rfl⟩)
    · split at h
      · cases h
        exact .unsent c call here at_ _ (Or.inl rfl)
      · cases h
        exact .minted c call here at_
  · rename_i id at_
    split at h
    · rename_i closed
      cases h
      exact .shut c call id here at_ closed
    · rename_i open_
      cases h
      exact .entered c call id here at_ (Bool.not_eq_true _ ▸ open_)
  · rename_i id at_
    split at h
    · rename_i closed
      cases h
      exact .refused c call id .asking here at_ (Or.inl ⟨rfl, closed⟩) rfl
    · cases h
      exact .moved c call id .asking .offering _ _ here at_ rfl rfl
  · rename_i id at_
    split at h
    · rename_i gone
      cases h
      exact .refused c call id .offering here at_ (Or.inr ⟨rfl, by simpa using gone⟩) rfl
    · split at h
      · cases h
        exact .moved c call id .offering (.failing _) _ _ here at_ rfl rfl
      · split at h
        · cases h
          exact .moved c call id .offering .stalled _ _ here at_ rfl rfl
        · cases h
          exact .moved c call id .offering .receiving _ _ here at_ rfl rfl
  · rename_i id at_
    split at h
    · cases h
      exact .moved c call id .stalled .canceling _ _ here at_ rfl rfl
    · cases h
      exact .moved c call id .stalled .asking _ _ here at_ rfl rfl
  · rename_i id error at_
    unfold Inner.closeTransport at h
    split at h
    · cases h
    · rename_i free
      have free : s.closing = none := by simpa [Inner.put] using free
      split at h
      · rename_i closed
        cases h
        exact .cuttingBy c call id error here at_ free closed
      · rename_i open_
        cases h
        exact .markedBy c call id error here at_ free (Bool.not_eq_true _ ▸ open_)
  · cases h
  · rename_i id at_
    split at h
    · rename_i answer inbox first
      cases h
      exact .received c call id answer inbox here at_ first
    · split at h
      · rename_i nowhere
        cases h
        exact .dropped c call id here at_ (by simpa using nowhere)
      · split at h
        · cases h
          exact .moved c call id .receiving .canceling _ _ here at_ rfl rfl
        · cases h
  · rename_i id at_
    cases h
    exact .moved c call id .canceling .removing true _ here at_ rfl rfl
  · rename_i id at_
    cases h
    exact .removed c call id here at_
  · cases h

theorem closeTransport_stepped {who : Who} {error : BridgeError} {keepsOutput : Bool}
    {reading : Reader} {writing : Writer} (keeps : s.reading.Keeps reading)
    (nobody : who.caller = none)
    (h : ({ s with reading, writing } : Inner).closeTransport who error keepsOutput = some s') :
    Stepped cfg s act s' := by
  unfold Inner.closeTransport at h
  split at h
  · cases h
  · rename_i free
    have free : s.closing = none := by simpa using free
    split at h
    · split at h
      · cases h
        cases who with
        | reader => exact .aside _ _ _ _ _ _ (.of_none rfl rfl)
        | writer => exact .aside _ _ _ _ _ _ keeps
        | call c error => cases nobody
        | other => exact .aside _ _ _ _ _ _ keeps
      · cases h
        exact .cutting who reading writing keeps nobody
    · rename_i open_
      cases h
      refine .marked who error _ reading writing keeps free (Bool.not_eq_true _ ▸ open_) ?_ nobody
      split
      · exact Or.inl rfl
      · exact Or.inr rfl

theorem goReader_stepped {outcome : Outcome} (h : s.goReader cfg outcome = some s') :
    Stepped cfg s act s' := by
  unfold Inner.goReader at h
  split at h
  · cases h
    exact .aside _ _ _ _ _ _ (.of_none (by split <;> rfl) (by split <;> rfl))
  · cases h
    exact .aside _ _ _ _ _ _ (.of_none (by cases outcome <;> rfl) (by cases outcome <;> rfl))
  · rename_i frame _
    split at h
    · cases h
      exact .read frame
    · cases h
      exact .aside _ _ _ _ _ _ (.of_none rfl rfl)
  · rename_i frame at_
    split at h
    · rename_i request there
      split at h
      · rename_i same
        cases h
        exact .took frame request at_ there same
      · cases h
        exact .aside _ _ _ _ _ _ (.of_none rfl rfl)
    · cases h
      exact .aside _ _ _ _ _ _ (.of_none rfl rfl)
  · rename_i frame sender at_
    cases h
    exact .gave frame sender at_
  · exact closeTransport_stepped (.of_none rfl rfl) rfl h
  · cases h
  · cases h

theorem goWriter_stepped {failure : Option String} (h : s.goWriter cfg failure = some s') :
    Stepped cfg s act s' := by
  unfold Inner.goWriter at h
  split at h
  · split at h
    · cases h
      exact .aside _ _ _ _ _ _ .same
    · split at h
      · cases h
      · cases h
        exact .aside _ _ _ _ _ _ .same
  · cases h
    exact .aside _ _ _ _ _ _ .same
  · split at h
    · cases h
      exact .aside _ _ _ _ _ _ .same
    · cases h
      exact .aside _ _ _ _ _ _ .same
  · exact closeTransport_stepped .same rfl h
  · cases h
  · cases h

theorem goClose_stepped {closing : Closing} (here : s.closing = some closing)
    (h : s.goClose closing = some s') : Stepped cfg s act s' := by
  obtain ⟨who, error, point⟩ := closing
  unfold Inner.goClose at h
  cases point with
  | ending =>
    cases h
    exact .ending who error .ending .taking s.writer true here (Or.inl ⟨rfl, rfl⟩)
  | taking =>
    cases h
    exact .ending who error .taking .draining false s.outputEnded here (Or.inr ⟨rfl, rfl⟩)
  | draining =>
    cases h
    exact .drained who error here
  | sending rest =>
    cases rest with
    | nil =>
      cases h
      exact .released who error here
    | cons c rest => cases h

theorem step_stepped (h : s.step cfg act = some s') : Stepped cfg s act s' := by
  cases act with
  | tick =>
    cases h
    exact .aside _ _ _ _ _ _ .same
  | request op body deadlineMs =>
    cases h
    exact .began op body _
  | go c =>
    obtain ⟨call, here, h⟩ := Option.bind_eq_some_iff.1 h
    exact go_stepped here h
  | reader outcome => exact goReader_stepped h
  | writer failure => exact goWriter_stepped h
  | push =>
    rw [Inner.step] at h
    split at h
    · cases h
      exact .aside _ _ _ _ _ _ .same
    · cases h
  | closeInput =>
    cases h
    exact .aside _ _ _ _ _ _ .same
  | endOutput =>
    cases h
    exact .cutting .other s.reading s.writing .same rfl
  | fail error => exact @closeTransport_stepped cfg s s' _ .other error false s.reading s.writing .same rfl h
  | close =>
    obtain ⟨closing, here, h⟩ := Option.bind_eq_some_iff.1 h
    exact goClose_stepped here h
  | send c =>
    rw [Inner.step] at h
    split at h
    · rename_i who error rest here
      split at h
      · rename_i one
        cases h
        exact .told who error rest c one here
      · cases h
    · cases h
  | cut i =>
    rw [Inner.step] at h
    split at h
    · rename_i who here
      cases h
      exact .cut i who here
    · rename_i who here
      cases h
      exact .cutOff i who here
    · cases h

end Bridge
end ConsensFlow
