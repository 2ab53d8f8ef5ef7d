/-
  File:      ConsensFlow/Codex/Pair.lean
  Subject:   A TUI'S CONNECTION AND CODEX'S, proxied frame by frame, and the questions the board
             answers on the way (`cf-codex-session`: `broker/pair.rs`, `broker/transport.rs`,
             `questions.rs`).

  * `Wire` -- what is taken from outside: a text read as JSON, a value written, a number as text;
  * `Outbox` -- a socket's queue and its writer, which counts the bytes it holds;
  * `Asked`, `Answer` -- a question in the board's shape, and the response Codex gets;
  * `Pair`, `Event`, `Pair.step` -- the pair, one task's step at a time, in any order;
  * `Outbox.Counts`, `Outbox.enqueue_queued`, `Outbox.take_cases` -- what a queue's calls leave.
-/
import ConsensFlow.Codex.Selection

open Lib.Json

namespace ConsensFlow
namespace Codex
namespace Proxy

/-! ## 1. What is read and written -/

/-- What a message says, as the broker can read it. -/
inductive Reading where
  | message (value : Value)
  | tooDeep
  | notJson

/-- `serde_json`'s reader, writer and comparison of values, and a double as JavaScript writes it. -/
structure Wire where
  reading : String → Reading
  write : Value → String
  same : Value → Value → Bool
  numberText : Rat → String

mutual

/-- `js::text`, of a value that is there. -/
def textOf (wire : Wire) : Value → String
  | .null => "null"
  | .bool flag => if flag then "true" else "false"
  | .number value => wire.numberText value
  | .string text => text
  | .array items => ",".intercalate (textsOf wire items)
  | .object _ => "[object Object]"

/-- The items `js::join` joins. -/
def textsOf (wire : Wire) : List Value → List String
  | [] => []
  | .null :: items => "" :: textsOf wire items
  | item :: items => textOf wire item :: textsOf wire items

end

/-- `js::text`. -/
def jsText (wire : Wire) : Option Value → String
  | none => "undefined"
  | some value => textOf wire value

/-! ## 2. Questions -/

structure Choice where
  label : Option Value
  description : Option Value

structure Question where
  question : Option Value
  header : Option Value
  options : List Choice
  multiple : Bool

/-- An option a question offers; none for one that is null. -/
def Choice.read : Value → Option Choice
  | .null => none
  | option => some ⟨option.get "label", option.get "description"⟩

/-- `Question::read`. -/
def Question.read (question : Value) (multiple : Bool) : Option Question :=
  match question with
  | .null => none
  | question => do
    let options ← match question.get "options" with
      | none | some .null => some []
      | some (.array options) => options.mapM Choice.read
      | some _ => none
    pure ⟨question.get "question", question.get "header", options, multiple⟩

/-- The questions of one request, and the id each is answered under. -/
structure Asked where
  questions : List Question
  keys : List String

/-- `Asked::read`. -/
def Asked.read (wire : Wire) (params : Option Value) : Option Asked := do
  let list ← match params.bind (·.get "questions") with
    | none | some .null => some []
    | some (.array list) => some list
    | some _ => none
  let questions ← list.mapM fun question => Question.read question false
  pure ⟨questions, list.map fun question => jsText wire (question.get "id")⟩

/-- The chief's answer: its message, and the labels picked for each question. -/
structure Answer where
  id : Option Int
  choices : Option (List (List String))

/-- `Answer::picks`. -/
def Answer.picks (answer : Answer) (n : Nat) : List String :=
  (answer.choices.bind fun choices => choices[n]?).getD []

def response (id : Value) (answers : Fields) : Value :=
  Value.jsOrder (.object [("id", id), ("result", .object [("answers", .object answers)])])

/-- `Asked::answers`: an answer per id, a later one in the place of one before. -/
def Asked.answers (asked : Asked) (labels : Nat → Value) : Fields :=
  asked.keys.zipIdx.foldl (fun fields (key, n) =>
    Fields.set key (.object [("answers", labels n)]) fields) []

def Asked.answered (asked : Asked) (id : Value) (answer : Answer) : Value :=
  response id (asked.answers fun n => .array ((answer.picks n).map .string))

def Asked.refused (asked : Asked) (id : Value) (reason : String) : Value :=
  response id (asked.answers fun _ => .array [.string reason])

/-- What came of questions put to the board. -/
inductive Reply where
  | answered (answer : Answer)
  | refused (reason : String)
  | unanswered

/-! ## 3. A socket's queue -/

/-- `MAX_FRAME`: 64 MiB. -/
def maxFrame : Nat := 64 * 1024 * 1024

/-- Where a frame is from: the other side said it, or it is of a question: the board's answer, its
    refusal, or the request itself, left to the TUI. -/
inductive Origin where
  | said
  | answer (question : Nat)
  | refusal (question : Nat)
  | asked (question : Nat)
  deriving DecidableEq

/-- The question a frame is of. -/
def Origin.question : Origin → Option Nat
  | .said => none
  | .answer q => some q
  | .refusal q => some q
  | .asked q => some q

/-- What waits in a socket's queue: a message, and where it is from; an answer is watched. -/
structure Queued where
  text : String
  from_ : Origin

/-- The question whose hand-over watches a frame. -/
def Queued.watch (frame : Queued) : Option Nat :=
  match frame.from_ with
  | .answer q => some q
  | _ => none

def Queued.size (frame : Queued) : Nat := frame.text.utf8ByteSize

inductive Sent where
  | queued
  | closed
  | full
  deriving DecidableEq

/-- A socket's queue with its writer's end (`inbox`, until that is gone): what waits, what the
    writer has begun, and what it has written whole. -/
structure Outbox where
  queue : List Queued := []
  unsent : Nat := 0
  open_ : Bool := true
  inbox : Bool := true
  writing : Option Queued := none
  sent : List Queued := []

namespace Outbox

/-- `enqueue`. -/
def enqueue (o : Outbox) (frame : Queued) : Sent × Outbox :=
  if !o.open_ then (.closed, o)
  else if o.unsent + frame.size > maxFrame then (.full, o)
  else if !o.inbox then (.closed, { o with unsent := o.unsent + frame.size, open_ := false })
  else (.queued, { o with unsent := o.unsent + frame.size, queue := o.queue ++ [frame] })

/-- The writer takes the next message: one not wanted any more (`ended`) is skipped, and whoever
    watches it told; another is begun. -/
def take (o : Outbox) (ended : Nat → Bool) : Outbox × Option (Nat × Bool) :=
  match o.writing, o.queue with
  | none, frame :: queue =>
    if frame.watch.any ended then
      ({ o with queue, unsent := o.unsent - frame.size }, frame.watch.map fun q => (q, false))
    else ({ o with queue, writing := some frame }, none)
  | _, _ => (o, none)

/-- The writer's end is gone, and what waited with it. -/
def abandon (o : Outbox) : Outbox :=
  { o with open_ := false, inbox := false, queue := [], writing := none }

/-- The message begun is written whole. -/
def wrote (o : Outbox) (frame : Queued) : Outbox :=
  { o with
    sent := o.sent ++ [frame]
    writing := none
    unsent := o.unsent - frame.size }

/-- All it was given and has not dropped, in order. -/
def all (o : Outbox) : List Queued := o.sent ++ (o.writing.toList ++ o.queue)

end Outbox

/-! ## 4. The pair -/

/-- Where a question is: asked of the board; its answer claimed too late, and to be given back, or
    being given back; its answer queued for Codex, and what the writer said of it; settled; or
    dropped with the broker. -/
inductive Stage where
  | asking
  | giving
  | telling
  | handing (report : Option Bool)
  | over
  | dropped
  deriving DecidableEq

/-- A question Codex asked, which the board answers: its thread, its request and that as it came;
    whether it is held, whether it ended, where it is, and the answer the board gave. -/
structure Held where
  thread : Option String
  request : Value
  text : String
  asked : Asked
  raised : Bool := false
  held : Bool := true
  stage : Stage := .asking
  claimed : Option Answer := none

/-- A frame Codex said, and the question it was held for, if any. -/
structure Heard where
  text : String
  question : Option Nat

/-- What the board is told of an answer it gave. -/
structure Told where
  question : Nat
  answer : Answer
  received : Bool

/-- What the TUI said before the connection to Codex's server opened. -/
structure Waiting where
  frames : List String := []
  bytes : Nat := 0

/-- A pair, with what it shares with its broker: the window's state, whether there is a board, the
    starts it could not tell and what the board was told. `said` and `heard` are what the TUI and
    Codex said so far. -/
structure Pair where
  client : ClientId
  state : Selection
  board : Bool
  requests : Requests := []
  waiting : Option Waiting := some {}
  opened : Bool := false
  tui : Outbox := {}
  native : Outbox := {}
  questions : List Held := []
  retired : Bool := false
  said : List String := []
  heard : List Heard := []
  unclassified : List String := []
  told : List Told := []

namespace Pair

variable (wire : Wire) (p : Pair)

/-- A question changed. -/
def change (q : Nat) (f : Held → Held) : Pair := { p with questions := p.questions.modify q f }

/-- `release`: the question is no longer held. -/
def release (q : Nat) : Pair := p.change q fun h => { h with held := false, stage := .over }

def tell (q : Nat) (answer : Answer) (received : Bool) : Pair :=
  { p with told := p.told ++ [⟨q, answer, received⟩] }

/-- `retire`. -/
def retire : Pair :=
  if p.retired then p
  else
    { p with
      retired := true
      state := p.state.retire p.client
      questions := p.questions.map fun h => { h with raised := h.raised || h.held }
      tui := p.tui.abandon
      native := p.native.abandon }

/-- `forward`, to Codex's server. -/
def toCodex (frame : Queued) : Pair :=
  let sent := p.native.enqueue frame
  let p := { p with native := sent.2 }
  if sent.1 = .queued then p else p.retire

/-- `forward`, to the TUI. -/
def toTui (frame : Queued) : Pair :=
  let sent := p.tui.enqueue frame
  let p := { p with tui := sent.2 }
  if sent.1 = .queued then p else p.retire

/-- `process_tui`. -/
def processTui (text : String) : Pair :=
  match wire.reading text with
  | .tooDeep => p.toCodex ⟨text, .said⟩
  | .notJson => p.retire
  | .message message =>
    let said := p.state.tuiSaid p.client p.requests message
    let untold := said.2.2.unclassified message
    let p : Pair := { p with
      requests := said.2.1
      state := untold.2
      unclassified := p.unclassified ++ untold.1.toList }
    p.toCodex ⟨(said.1.map wire.write).getD text, .said⟩

/-- `tui_said`. -/
def tuiSaid (text : String) : Pair :=
  let p : Pair := { p with said := p.said ++ [text] }
  match p.waiting with
  | none => p.processTui wire text
  | some waiting =>
    let bytes := waiting.bytes + text.utf8ByteSize
    if bytes > maxFrame then { p with waiting := some { waiting with bytes } }.retire
    else { p with waiting := some { frames := waiting.frames ++ [text], bytes } }

/-- What waited, passed through until the pair ends. -/
def processAll : Pair → List String → Pair
  | p, [] => p
  | p, text :: rest => if p.retired then p else processAll (p.processTui wire text) rest

/-- `native_opened`. -/
def nativeOpened : Pair :=
  { p with opened := true, waiting := none }.processAll wire
    ((p.waiting.map Waiting.frames).getD [])

/-- Whether a message of Codex's ends a question. -/
def ends (message : Value) (h : Held) : Bool :=
  let params := message.get "params"
  let turnOver :=
    methodOf message == some "turn/completed" ||
      (methodOf message == some "thread/status/changed" && statusIsIdle params)
  let thread := (params.bind (·.get "threadId")).bind Value.asStr
  let resolved :=
    if methodOf message == some "serverRequest/resolved" then params.bind (·.get "requestId")
    else none
  (turnOver && thread.isSome && h.thread == thread) ||
    resolved.any fun request => wire.same request h.request

/-- `end_questions_of`. -/
def endQuestionsOf (message : Value) : Pair :=
  { p with
    questions := p.questions.map fun h =>
      { h with raised := h.raised || (h.held && ends wire message h) } }

/-- `REQUEST_USER_INPUT`. -/
def requestUserInput : String := "item/tool/requestUserInput"

/-- The rest of `codex_said`, of a frame that goes on to the TUI. -/
def pass (text : String) : Pair :=
  let p : Pair := { p with heard := p.heard ++ [⟨text, none⟩] }
  p.toTui ⟨text, .said⟩

/-- `hold_question`, to where the board is asked. -/
def holdQuestion (id : Value) (params : Option Value) (text : String) : Pair :=
  match Asked.read wire params with
  | none => p.pass text
  | some asked =>
    { p with
      heard := p.heard ++ [⟨text, some p.questions.length⟩]
      questions := p.questions ++
        [{ thread := (params.bind (·.get "threadId")).bind Value.asStr
           request := id
           text
           asked }] }

/-- `codex_said`. -/
def codexSaid (text : String) : Pair :=
  match wire.reading text with
  | .tooDeep => p.pass text
  | .notJson =>
    let p : Pair := { p with heard := p.heard ++ [⟨text, none⟩] }
    p.retire
  | .message message =>
    let heard := p.state.codexSaid p.client p.requests message
    let p : Pair := { p with requests := heard.1, state := heard.2 }
    let p := p.endQuestionsOf wire message
    if methodOf message == some requestUserInput && p.board then
      match message.get "id" with
      | some id => p.holdQuestion wire id (message.get "params") text
      | none => p.pass text
    else p.pass text

/-- `hand_over`, to where the writer has the answer. -/
def handOver (q : Nat) (h : Held) (answer : Answer) : Pair :=
  let sent := p.native.enqueue ⟨wire.write (h.asked.answered h.request answer), .answer q⟩
  let p := { p with native := sent.2 }
  if sent.1 = .queued then
    p.change q fun h => { h with stage := .handing none, claimed := some answer }
  else
    (p.change q fun h => { h with held := false, stage := .giving, claimed := some answer }).retire

/-- The rest of `hold_question`, when the board answered or its poll failed. -/
def replied (q : Nat) (h : Held) : Option Reply → Pair
  | some (.answered answer) =>
    if h.raised then
      (p.tell q answer false).change q fun h =>
        { h with stage := .telling, claimed := some answer }
    else p.handOver wire q h answer
  | some (.refused reason) =>
    if h.raised then p.release q
    else (p.toCodex ⟨wire.write (h.asked.refused h.request reason), .refusal q⟩).release q
  | some .unanswered | none =>
    if h.raised then p.release q else (p.toTui ⟨h.text, .asked q⟩).release q

/-- The rest of `hand_over`, once it is known whether the answer was handed over. -/
def settle (q : Nat) (h : Held) (handed : Bool) : Pair :=
  match h.claimed with
  | some answer => (p.release q).tell q answer (handed && !h.raised)
  | none => p

/-- What a writer says of a message it was watched with. -/
def report : Option (Nat × Bool) → Pair
  | none => p
  | some (q, written) => p.change q fun h =>
    if h.stage = .handing none then { h with stage := .handing (some written) } else h

/-- Whether a question ended. -/
def ended (q : Nat) : Bool := p.questions[q]?.any Held.raised

end Pair

/-! ## 5. Its runs -/

/-- The two ends of a pair. -/
inductive Side where
  | tui
  | codex

/-- One task's step: what the TUI or Codex said, or its end; the connection to Codex's server open,
    or out of reach; a writer taking the next message, or done with one; the board's reply to a
    question; a hand-over going on, by the writer's word or by the question's end; the board told;
    the rest of the broker changing the window's state, or closing. -/
inductive Event where
  | said (side : Side) (text : String)
  | ends (side : Side)
  | opened
  | unreachable
  | takes (side : Side)
  | wrote (side : Side) (ok : Bool)
  | replied (q : Nat) (reply : Option Reply)
  | settled (q : Nat) (byWriter : Bool)
  | gives (q : Nat)
  | hears (q : Nat)
  | elsewhere (state : Selection)
  | closes

namespace Pair

variable (wire : Wire) (p : Pair)

/-- The writer of the connection to Codex's server is done with a message. -/
def wroteCodex (ok : Bool) : Pair :=
  match p.native.writing with
  | none => p
  | some frame =>
    let p := p.report (frame.watch.map fun q => (q, ok))
    if ok then { p with native := p.native.wrote frame }
    else { p with native := p.native.abandon }.retire

/-- The writer of the TUI's connection is done with a message. -/
def wroteTui (ok : Bool) : Pair :=
  match p.tui.writing with
  | none => p
  | some frame =>
    if ok then { p with tui := p.tui.wrote frame }
    else { p with tui := p.tui.abandon }.retire

/-- The broker closed: the pair and every task of its questions end. -/
def closed : Pair :=
  let p := { p with state := p.state.close }.retire
  { p with questions := p.questions.map fun h => { h with stage := .dropped } }

/-- One step; a task that is not there, or ended with the pair, takes none. -/
def step : Event → Pair
  | .said .tui text => if p.retired then p else p.tuiSaid wire text
  | .said .codex text => if p.retired || !p.opened then p else p.codexSaid wire text
  | .ends .tui => p.retire
  | .ends .codex => if p.opened then p.retire else p
  | .opened => if p.retired || p.opened then p else p.nativeOpened wire
  | .unreachable => if p.opened then p else p.retire
  | .takes .tui =>
    if p.retired then p else { p with tui := (p.tui.take p.ended).1 }
  | .takes .codex =>
    if p.retired || !p.opened then p
    else { p with native := (p.native.take p.ended).1 }.report (p.native.take p.ended).2
  | .wrote .tui ok => if p.retired then p else p.wroteTui ok
  | .wrote .codex ok => if p.retired then p else p.wroteCodex ok
  | .replied q reply =>
    match p.questions[q]? with
    | some h => if h.stage = .asking then p.replied wire q h reply else p
    | none => p
  | .settled q byWriter =>
    match p.questions[q]? with
    | none => p
    | some h =>
      match h.stage, byWriter with
      | .handing (some written), true => p.settle q h written
      | .handing _, false => if h.raised then p.settle q h false else p
      | _, _ => p
  | .gives q =>
    match p.questions[q]? with
    | none => p
    | some h =>
      match h.stage, h.claimed with
      | .giving, some answer => (p.release q).tell q answer false
      | _, _ => p
  | .hears q =>
    match p.questions[q]? with
    | some h => if h.stage = .telling then p.release q else p
    | none => p
  | .elsewhere state => { p with state }
  | .closes => p.closed

/-- A pair as its TUI's connection opens. -/
def start (client : ClientId) (state : Selection) (board : Bool) : Pair := { client, state, board }

/-- A run: what the events made of it. -/
def run (p : Pair) (events : List Event) : Pair := events.foldl (step wire) p

end Pair

/-! ## 6. What a socket's queue keeps -/

namespace Outbox

/-- How many bytes some frames are. -/
def sizes (frames : List Queued) : Nat := (frames.map Queued.size).sum

/-- The bytes it holds are counted, and there are no more than 64 MiB of them. -/
structure Counts (o : Outbox) : Prop where
  room : o.unsent ≤ maxFrame
  exact_ : o.inbox = true → o.unsent = sizes (o.writing.toList ++ o.queue)

/-- Nothing goes into it, and nothing waits. -/
structure Gone (o : Outbox) : Prop where
  shut : o.open_ = false
  queue : o.queue = []
  writing : o.writing = none

variable {o : Outbox} {frame : Queued}

theorem enqueue_queued (h : (o.enqueue frame).1 = .queued) :
    (o.enqueue frame).2 =
      { o with unsent := o.unsent + frame.size, queue := o.queue ++ [frame] } ∧
    o.open_ = true ∧ o.inbox = true ∧ o.unsent + frame.size ≤ maxFrame := by
  unfold enqueue at h ⊢
  split at h
  · cases h
  · split at h
    · cases h
    · split at h
      · cases h
      · next isOpen room inbox =>
        rw [if_neg isOpen, if_neg room, if_neg inbox]
        simp only [Bool.not_eq_true', Bool.not_eq_false] at isOpen inbox
        exact ⟨rfl, isOpen, inbox, Nat.le_of_not_lt room⟩

/-- A message refused leaves what waits as it was. -/
theorem enqueue_refused (h : (o.enqueue frame).1 ≠ .queued) :
    (o.enqueue frame).2 = o ∨
      o.unsent + frame.size ≤ maxFrame ∧ o.inbox = false ∧
        (o.enqueue frame).2 = { o with unsent := o.unsent + frame.size, open_ := false } := by
  unfold enqueue at h ⊢
  split
  · exact .inl rfl
  · next isOpen =>
    rw [if_neg isOpen] at h
    split
    · exact .inl rfl
    · next room =>
      rw [if_neg room] at h
      split
      · next inbox => exact .inr ⟨Nat.le_of_not_lt room, by simpa using inbox, rfl⟩
      · next inbox =>
        rw [if_neg inbox] at h
        exact absurd rfl h

theorem sizes_append (as bs : List Queued) : sizes (as ++ bs) = sizes as + sizes bs := by
  unfold sizes
  rw [List.map_append, List.sum_append]

theorem gone_abandon (o : Outbox) : o.abandon.Gone := ⟨rfl, rfl, rfl⟩

/-- What the writer's taking leaves: everything is where it was, or one answer that is not wanted
    is gone. -/
theorem take_cases (o : Outbox) (ended : Nat → Bool) :
    o.take ended = (o, none) ∨
    (∃ frame queue, o.writing = none ∧ o.queue = frame :: queue ∧
      frame.watch.any ended = false ∧
      o.take ended = ({ o with queue, writing := some frame }, none)) ∨
    ∃ frame queue q, o.writing = none ∧ o.queue = frame :: queue ∧
      frame.from_ = .answer q ∧ ended q = true ∧
      o.take ended = ({ o with queue, unsent := o.unsent - frame.size }, some (q, false)) := by
  unfold take
  split
  · next frame queue writing waits =>
    by_cases unwanted : frame.watch.any ended = true
    · rw [if_pos unwanted]
      obtain ⟨q, watch, raised⟩ := (Option.any_eq_true _ _).mp unwanted
      refine .inr (.inr ⟨frame, queue, q, writing, waits, ?_, raised, by rw [watch]; rfl⟩)
      unfold Queued.watch at watch
      split at watch
      · next q' own =>
        cases watch
        exact own
      · cases watch
    · rw [if_neg unwanted]
      exact .inr (.inl ⟨frame, queue, writing, waits, by simpa using unwanted, rfl⟩)
  · exact .inl rfl

end Outbox

end Proxy
end Codex
end ConsensFlow
