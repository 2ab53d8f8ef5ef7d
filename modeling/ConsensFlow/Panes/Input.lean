/-
  File:      ConsensFlow/Panes/Input.lean
  Subject:   A PANE'S INPUT (`cf-panes`, `arbiter.rs` and `input_queue.rs`): the human's keys, the
             daemon's, and a delivery's paste, each answered done, refused or uncertain.

  * `Env` -- what each visit to the pane's state finds, other threads having done what they will
    meanwhile, and how each write into the pane ends;
  * `writeTyped`, `write`, `writePaste` -- the three ways in, each error as the source gives it;
  * `Moment`, `Turn`, `breaks` -- a typed write as the moments it passes, and whether it is refused
    after a part of it went in;
  * **`refused_wrote_nothing_iff`** -- an input refused wrote nothing, but for typed keys that break
    off so. They can (`refused_midway`).
-/
import ConsensFlow.Panes.Watch

namespace ConsensFlow
namespace Panes

/-! ## 1. Answers -/

structure PaneKey where
  id : String
  generation : Nat
  deriving DecidableEq, Repr

/-- Why a write into a pane failed: the pane is gone from the table, or anything else. -/
inductive PaneError where
  | notFound (key : PaneKey)
  | other (text : String)
  deriving DecidableEq, Repr

namespace PaneError

def isNotFound : PaneError → Bool
  | notFound _ => true
  | other _ => false

def text : PaneError → String
  | notFound key => s!"pane {key.id} generation {key.generation} is not open"
  | other text => text

end PaneError

inductive SanitizeError where
  | controlByte (byte : Char)
  | controlCharacter (character : Char)
  | invalidUtf8
  deriving DecidableEq, Repr

/-- The hexadecimal digits of a number, `width` of them at least. -/
def hex (width n : Nat) (digit : Nat → Char) : String :=
  let digits := (Nat.toDigits 16 n).map fun c => digit (c.toNat - if c.isDigit then 48 else 87)
  String.ofList (List.replicate (width - digits.length) '0' ++ digits)

def lowerHex (d : Nat) : Char := if d < 10 then Char.ofNat (48 + d) else Char.ofNat (87 + d)
def upperHex (d : Nat) : Char := if d < 10 then Char.ofNat (48 + d) else Char.ofNat (55 + d)

def SanitizeError.text : SanitizeError → String
  | controlByte byte => s!"control byte 0x{hex 2 byte.toNat lowerHex} is not allowed"
  | controlCharacter c => s!"control character U+{hex 4 c.toNat upperHex} is not allowed"
  | invalidUtf8 => "paste body is not valid UTF-8"

/-- Why the arbiter did not take a pane's input. -/
inductive ArbiterError where
  | stale
  | busy
  | inputFailed
  | unsent
  | invalidBody (error : SanitizeError)
  | pane (error : PaneError)
  | lockPoisoned
  deriving DecidableEq, Repr

def ArbiterError.text : ArbiterError → String
  | stale => "stale pane generation"
  | busy => "a paste is already in flight"
  | inputFailed => "pane input is failed until restart"
  | unsent => "the human has unsent text in the window"
  | invalidBody error => s!"invalid paste body: {error.text}"
  | pane error => error.text
  | lockPoisoned => "input arbiter lock is poisoned"

/-- Why a pane's input did not go in. -/
inductive InputError where
  | refused (code cause : String)
  | uncertain (cause : String)
  deriving DecidableEq, Repr

/-- `From<ArbiterError> for InputError`. -/
def ArbiterError.answer : ArbiterError → InputError
  | pane error => .uncertain error.text
  | stale => .refused "stale-pane" stale.text
  | busy => .refused "paste-in-flight" busy.text
  | inputFailed => .refused "input-failed" inputFailed.text
  | unsent => .refused "unsent-text" unsent.text
  | invalidBody error => .refused "invalid-body" (invalidBody error).text
  | lockPoisoned => .refused "lock-poisoned" lockPoisoned.text

/-! ## 2. The pane's state, and what befalls an input -/

/-- How a window's harness reads a paste silently. -/
structure SilentPaste where
  paceUsPerCharacter : Nat
  drawnAfterMs : Nat
  quietMs : Nat
  mostMs : Nat
  mostUsPerCharacter : Nat
  deriving DecidableEq, Repr

structure EnterTiming where
  leastMs : Nat
  drawnAfterMs : Nat
  quietMs : Nat
  mostMs : Nat
  deriving DecidableEq, Repr

/-- `per_character_ms`, in 64 bits. -/
def perCharacterMs (us characters : Nat) : Nat := min (us * characters) (2 ^ 64 - 1) / 1000

/-- `of_silent_paste`. -/
def EnterTiming.ofSilentPaste (silent : SilentPaste) (characters : Nat) : EnterTiming where
  leastMs := perCharacterMs silent.paceUsPerCharacter characters
  drawnAfterMs := silent.drawnAfterMs
  quietMs := silent.quietMs
  mostMs := min (silent.mostMs + perCharacterMs silent.mostUsPerCharacter characters) (2 ^ 64 - 1)

/-- One of the human's writes: when, how many bytes, of what kinds. -/
structure Written where
  at_ : Nat
  length : Nat
  classes : List Class
  deriving DecidableEq, Repr

/-- `HUMAN_WRITES`. -/
def humanWrites : Nat := 8

/-- `PaneInputState`. -/
structure PaneInputState where
  generation : Nat
  pasteInFlight : Bool := false
  inputFailed : Bool := false
  unsent : Nat := 0
  typed : Nat := 0
  typedAt : Option Nat := none
  pasted : Option Nat := none
  silentPaste : Option SilentPaste := none
  humanPasted : Option (Nat × EnterTiming) := none
  paste : PasteWatch := {}
  writes : List Written := []
  deriving DecidableEq, Repr

/-- What a visit to the pane's state finds: the pane retired, a lock poisoned, or the state as
    whoever had it last left it. -/
inductive Found where
  | gone
  | poisoned
  | there (state : PaneInputState)

/-- What befalls an input: what each visit finds, the time then, and how each write ends. -/
structure Env where
  visit : Nat → Found
  now : Nat → Nat
  write : Nat → Option PaneError

/-- How far an input came: its visits, with the states it left, and its writes, each with how it
    ended. -/
structure Trace where
  visits : Nat := 0
  left : List PaneInputState := []
  sent : List (Bytes × Option PaneError) := []

/-- A step of an input: what it did stands, refused or not. -/
abbrev InputM := ExceptT ArbiterError (StateM Trace)

/-! ## 3. The ways in -/

section Ways

variable (env : Env) (pane : PaneKey)

/-- What a visit finds, as the error its caller would pass on. -/
def Found.state : Found → Except ArbiterError PaneInputState
  | gone => .error .stale
  | poisoned => .error .lockPoisoned
  | there state => .ok state

/-- `pane_state` and `lock_state`: the state is left as `f` says, of the time and the state found,
    where that is the pane's own generation. -/
def visit (f : Nat → PaneInputState → PaneInputState) : InputM PaneInputState := fun t =>
  let now := env.now t.visits
  match (env.visit t.visits).state with
  | .error e => (.error e, { t with visits := t.visits + 1 })
  | .ok state =>
    let left := if state.generation = pane.generation then f now state else state
    (.ok state, { t with visits := t.visits + 1, left := t.left ++ [left] })

/-- A visit whose errors nobody asks for. -/
def visitAnyway (f : Nat → PaneInputState → PaneInputState) : InputM Unit := fun t =>
  (.ok (), (visit env pane f t).2)

/-- `PaneInputWriter::write`. -/
def put (bytes : Bytes) : InputM (Option PaneError) := fun t =>
  let ended := env.write t.sent.length
  (.ok ended, { t with sent := t.sent ++ [(bytes, ended)] })

/-- `validate_admission`. -/
def validateAdmission (state : PaneInputState) : InputM Unit :=
  if state.generation ≠ pane.generation then throw .stale
  else if state.inputFailed then throw .inputFailed
  else pure ()

/-- `fail_input`: a write that found the pane gone wrote nothing, and where none before it had
    begun the input, it is refused; after any other the pane takes no more input. -/
def failInput (error : PaneError) (begun : Bool) : InputM Unit :=
  if !begun && error.isNotFound then throw .stale
  else do
    visitAnyway env pane fun _ state => { state with inputFailed := true }
    throw (.pane error)

/-- `write_via`. -/
def writeVia (bytes : Bytes) : InputM Unit := do
  let state ← visit env pane fun _ state => state
  validateAdmission pane state
  if bytes.isEmpty then pure ()
  else
    match ← put env bytes with
    | none => pure ()
    | some error => failInput env pane error false

/-- `settle_human_paste`: the wait for the window to take the human's last paste in. -/
def settleHumanPaste : InputM Unit := do
  let _ ← visit env pane fun _ state => { state with humanPasted := none }
  pure ()

/-- One part of a typed write, in a window that reads a paste silently. -/
def writePart (silent : SilentPaste) (part : Bytes × Option Nat) : InputM Unit := do
  if part.1.isEmpty then pure () else settleHumanPaste env pane
  writeVia env pane part.1
  match part.2 with
  | none => pure ()
  | some characters => do
    let _ ← visit env pane fun now state =>
      { state with humanPasted := some (now, .ofSilentPaste silent characters) }
    pure ()

/-- What a write of the human's keys leaves the pane's state. -/
def typedIn (bytes : Bytes) (fed : Fed) (now : Nat) (state : PaneInputState) : PaneInputState :=
  let read := keysOf state.unsent bytes fed.segments
  { state with
    unsent := read.unsent
    paste := state.paste.idle now
    writes := (if state.writes.length = humanWrites then state.writes.tail else state.writes) ++
      [{ at_ := now, length := bytes.length, classes := read.classes }]
    typed := if read.keyed then state.typed + 1 else state.typed
    typedAt := if read.keyed then some now else state.typedAt }

/-- What a write holds, as the state found says. -/
def fedBy (bytes : Bytes) (now : Nat) (state : PaneInputState) : Fed :=
  if state.generation = pane.generation then (state.paste.feed bytes now).2
  else { segments := [.typed 0 bytes.length] }

/-- A typed write past its first visit, which found `state` at `now`. -/
def writeTypedFrom (bytes : Bytes) (now : Nat) (state : PaneInputState) : InputM Unit := do
  let fed := fedBy pane bytes now state
  match state.silentPaste with
  | some silent => (partsEndingPastes bytes fed.ends).forM (writePart env pane silent)
  | none => writeVia env pane bytes
  let _ ← visit env pane (typedIn bytes fed)
  pure ()

/-- `write_typed`. -/
def writeTyped (bytes : Bytes) : InputM Unit := do
  let now := env.now (← get).visits
  let state ← visit env pane fun now state =>
    { state with paste := (state.paste.feed bytes now).1 }
  writeTypedFrom env pane bytes now state

/-- `write`: the daemon's keys and the terminal's replies, at once. -/
def write (bytes : Bytes) : InputM Unit := writeVia env pane bytes

/-- Line ends as a pane takes them. -/
def lineFeeds : Bytes → Bytes
  | 0x0d :: 0x0a :: rest => 0x0a :: lineFeeds rest
  | b :: rest => b :: lineFeeds rest
  | [] => []

/-- `char::is_control`. -/
def isControl (c : Char) : Bool :=
  decide (c.toNat < 0x20) || (decide (0x7f ≤ c.toNat) && decide (c.toNat ≤ 0x9f))

/-- `sanitize`. -/
def sanitize (body : Bytes) : Except SanitizeError Bytes :=
  let sanitized := lineFeeds body
  match String.fromUTF8? ⟨sanitized.toArray⟩ with
  | none => .error .invalidUtf8
  | some text =>
    match text.toList.find? fun c => isControl c && c != '\t' && c != '\n' with
    | none => .ok sanitized
    | some c => .error (if c.toNat < 0x80 then .controlByte c else .controlCharacter c)

/-- Whether text the human left unsent holds a paste back. -/
def PaneInputState.holds (state : PaneInputState) (readEmpty : Option Nat) : Bool :=
  decide (0 < state.unsent) && readEmpty != some state.typed

/-- The state a paste leaves as it goes in. -/
def PaneInputState.inFlight (state : PaneInputState) (readEmpty : Option Nat) : PaneInputState :=
  if state.inputFailed || state.holds readEmpty then state
  else { state with unsent := 0, pasteInFlight := true }

/-- The paste is over; it was written at `at_`, if it was. -/
def landed (pasted : Bool) : InputM Unit :=
  visitAnyway env pane fun now state =>
    { state with
      pasteInFlight := false, pasted := if pasted then some now else state.pasted }

/-- A paste and its Enter. -/
def pasteAndEnter (body : Bytes) : InputM Unit := do
  match ← put env (pasteStart ++ body ++ pasteEnd) with
  | some error =>
    landed env pane false
    failInput env pane error false
  | none =>
    match ← put env [0x0d] with
    | some error =>
      landed env pane true
      failInput env pane error true
    | none => landed env pane true

/-- `write_paste`. -/
def writePaste (body : Bytes) (readEmpty : Option Nat) : InputM Unit :=
  match sanitize body with
  | .error e => throw (.invalidBody e)
  | .ok body => do
    let state ← visit env pane fun _ state => state.inFlight readEmpty
    validateAdmission pane state
    if state.holds readEmpty then throw .unsent else pasteAndEnter env pane body

end Ways

/-- `InputWork`, but for a claim, which writes nothing. -/
inductive InputWork where
  | typed (bytes : Bytes)
  | write (bytes : Bytes)
  | reply (bytes : Bytes)
  | paste (body : Bytes) (readEmpty : Option Nat)

/-- What a pane's worker does with an input. -/
def InputWork.program (env : Env) (pane : PaneKey) : InputWork → InputM Unit
  | typed bytes => writeTyped env pane bytes
  | write bytes => Panes.write env pane bytes
  | reply bytes => Panes.write env pane bytes
  | paste body readEmpty => writePaste env pane body readEmpty

/-- How an input ends, from the moment it comes. -/
def InputWork.run (work : InputWork) (env : Env) (pane : PaneKey) :
    Except ArbiterError Unit × Trace := work.program env pane {}

/-! ## 4. Refused, and gone in -/

/-- The answer is a refusal. -/
def Refused (r : Except ArbiterError Unit) : Prop :=
  ∃ e code cause, r = .error e ∧ e.answer = .refused code cause

/-- A write that may have reached the pane: done, or failed once begun. -/
def MayHaveGoneIn (w : Bytes × Option PaneError) : Bool := w.2.all fun e => !e.isNotFound

/-- Something of the input may have gone in. -/
def Trace.gone (t : Trace) : Bool := t.sent.any MayHaveGoneIn

/-- An input answered refused wrote nothing. -/
def InputWork.Honest (work : InputWork) (env : Env) (pane : PaneKey) : Prop :=
  Refused (work.run env pane).1 → (work.run env pane).2.gone = false

/-! ## 5. The moments of a typed write -/

/-- What a typed write passes: a look at the pane's state, its admission, a write into it. -/
inductive Moment where
  | look (f : Nat → PaneInputState → PaneInputState)
  | admission
  | put (bytes : Bytes)

/-- What a moment comes to: nothing, a part gone in, a refusal, or a write failed once begun. -/
inductive Turn where
  | smooth | wrote | refused | failed
  deriving DecidableEq, Repr

/-- Whether an input is refused after a part of it went in. -/
def breaks : Bool → List Turn → Bool
  | _, [] => false
  | gone, .smooth :: turns => breaks gone turns
  | _, .wrote :: turns => breaks true turns
  | gone, .refused :: _ => gone
  | _, .failed :: _ => false

section Moments

variable (env : Env) (pane : PaneKey)

/-- A moment, as the source has it. -/
def Moment.act : Moment → InputM Unit
  | look f => do
    let _ ← visit env pane f
    pure ()
  | admission => do
    let state ← visit env pane fun _ state => state
    validateAdmission pane state
  | put bytes => do
    match ← Panes.put env bytes with
    | none => pure ()
    | some error => failInput env pane error false

/-- What a moment comes to, after `visits` visits and `writes` writes. -/
def Moment.turn (m : Moment) (visits writes : Nat) : Turn :=
  match m with
  | look _ =>
    match env.visit visits with
    | .there _ => .smooth
    | _ => .refused
  | admission =>
    match env.visit visits with
    | .there state =>
      if state.generation = pane.generation ∧ state.inputFailed = false then .smooth else .refused
    | _ => .refused
  | put _ =>
    match env.write writes with
    | none => .wrote
    | some (.notFound _) => .refused
    | some (.other _) => .failed

/-- What moments come to, one after the other, as if none of them ended the input. -/
def turns : List Moment → Nat → Nat → List Turn
  | [], _, _ => []
  | .put bytes :: ms, visits, writes =>
    (Moment.put bytes).turn env pane visits writes :: turns ms visits (writes + 1)
  | m :: ms, visits, writes => m.turn env pane visits writes :: turns ms (visits + 1) writes

/-- The moments of one write. -/
def writeMoments (bytes : Bytes) : List Moment :=
  .admission :: if bytes.isEmpty then [] else [.put bytes]

/-- The moments of a part. -/
def partMoments (silent : SilentPaste) (part : Bytes × Option Nat) : List Moment :=
  (if part.1.isEmpty then [] else [.look fun _ state => { state with humanPasted := none }]) ++
    writeMoments part.1 ++
    match part.2 with
    | none => []
    | some characters => [.look fun now state =>
        { state with humanPasted := some (now, .ofSilentPaste silent characters) }]

/-- The moments of a typed write, once its first visit found `state` at `now`. -/
def typedMoments (bytes : Bytes) (now : Nat) (state : PaneInputState) : List Moment :=
  let fed := fedBy pane bytes now state
  (match state.silentPaste with
    | some silent => (partsEndingPastes bytes fed.ends).flatMap (partMoments silent)
    | none => writeMoments bytes) ++ [.look (typedIn bytes fed)]

/-- What a typed write comes to, moment by moment. -/
def typedTurns (bytes : Bytes) : List Turn :=
  match env.visit 0 with
  | .there state => turns env pane (typedMoments pane bytes (env.now 0) state) 1 0
  | _ => [.refused]

/-! ### How a moment runs -/

/-- A step after a step: what the first did stands, and its error is passed on. -/
theorem bind_run {α β : Type} (x : InputM α) (f : α → InputM β) (t : Trace) :
    (x >>= f) t = match x t with
      | (.ok a, t') => f a t'
      | (.error e, t') => (.error e, t') := by
  show (ExceptT.bind x f : InputM β) t = _
  simp only [ExceptT.bind, ExceptT.mk, bind, StateT.bind]
  rcases x t with ⟨a | a, t'⟩ <;> rfl

variable {env pane}

theorem gone_put {t : Trace} {b : Bytes} {e : Option PaneError} :
    ({ t with sent := t.sent ++ [(b, e)] } : Trace).gone =
      (t.gone || e.all fun e => !e.isNotFound) := by
  simp [Trace.gone, MayHaveGoneIn]

theorem visit_sent (f : Nat → PaneInputState → PaneInputState) (t : Trace) :
    (visit env pane f t).2.sent = t.sent := by
  unfold visit
  cases (env.visit t.visits).state <;> rfl

/-- A look: the state is there, or it is refused. -/
theorem act_look (f : Nat → PaneInputState → PaneInputState) (t : Trace) :
    match (Moment.look f).turn env pane t.visits t.sent.length with
    | .smooth => ∃ t', (Moment.look f).act env pane t = (.ok (), t') ∧
        t'.visits = t.visits + 1 ∧ t'.sent = t.sent
    | _ => ∃ e t', (Moment.look f).act env pane t = (.error e, t') ∧ Refused (.error e) ∧
        t'.sent = t.sent := by
  unfold Moment.turn Moment.act
  simp only [bind_run, visit]
  cases env.visit t.visits with
  | gone => exact ⟨_, _, rfl, ⟨_, _, _, rfl, rfl⟩, rfl⟩
  | poisoned => exact ⟨_, _, rfl, ⟨_, _, _, rfl, rfl⟩, rfl⟩
  | there state => exact ⟨_, rfl, rfl, rfl⟩

/-- An admission: the pane is current and its input works, or it is refused. -/
theorem act_admission (t : Trace) :
    match Moment.admission.turn env pane t.visits t.sent.length with
    | .smooth => ∃ t', Moment.admission.act env pane t = (.ok (), t') ∧
        t'.visits = t.visits + 1 ∧ t'.sent = t.sent
    | _ => ∃ e t', Moment.admission.act env pane t = (.error e, t') ∧ Refused (.error e) ∧
        t'.sent = t.sent := by
  unfold Moment.turn Moment.act
  simp only [bind_run, visit]
  cases env.visit t.visits with
  | gone => exact ⟨_, _, rfl, ⟨_, _, _, rfl, rfl⟩, rfl⟩
  | poisoned => exact ⟨_, _, rfl, ⟨_, _, _, rfl, rfl⟩, rfl⟩
  | there state =>
    simp only [Found.state, validateAdmission]
    by_cases hg : state.generation = pane.generation
    · cases hi : state.inputFailed with
      | false =>
        simp only [hg, ne_eq, not_true, if_false, and_self, if_true]
        exact ⟨_, rfl, rfl, rfl⟩
      | true =>
        simp only [hg, ne_eq, not_true, if_false, if_true, Bool.true_eq_false, and_false]
        exact ⟨_, _, rfl, ⟨_, _, _, rfl, rfl⟩, rfl⟩
    · simp only [hg, ne_eq, not_false_eq_true, if_true, false_and, if_false]
      exact ⟨_, _, rfl, ⟨_, _, _, rfl, rfl⟩, rfl⟩

/-- A write into the pane: done, refused with nothing written, or failed once begun. -/
theorem act_put (bytes : Bytes) (t : Trace) :
    match (Moment.put bytes).turn env pane t.visits t.sent.length with
    | .wrote => ∃ t', (Moment.put bytes).act env pane t = (.ok (), t') ∧ t'.visits = t.visits ∧
        t'.sent.length = t.sent.length + 1 ∧ t'.gone = true
    | .refused => ∃ e t', (Moment.put bytes).act env pane t = (.error e, t') ∧
        Refused (.error e) ∧ t'.gone = t.gone
    | .failed => ∃ e t', (Moment.put bytes).act env pane t = (.error (.pane e), t')
    | .smooth => False := by
  unfold Moment.turn Moment.act
  simp only [bind_run, Panes.put]
  cases hw : env.write t.sent.length with
  | none =>
    refine ⟨_, rfl, rfl, ?_, ?_⟩
    · simp
    · rw [gone_put]
      simp
  | some e =>
    cases e with
    | notFound key =>
      refine ⟨_, _, rfl, ⟨_, _, _, rfl, rfl⟩, ?_⟩
      rw [gone_put]
      simp [PaneError.isNotFound]
    | other text => exact ⟨_, _, rfl⟩

theorem forM_run (m : Moment) (ms : List Moment) (t : Trace) :
    (m :: ms).forM (Moment.act env pane) t = match m.act env pane t with
      | (.ok _, t') => ms.forM (Moment.act env pane) t'
      | (.error e, t') => (.error e, t') := by
  show (m.act env pane >>= fun _ => ms.forM (Moment.act env pane)) t = _
  rw [bind_run]
  rcases m.act env pane t with ⟨a | a, t'⟩ <;> rfl

theorem not_refused_ok (u : Unit) : ¬ Refused (.ok u) := by
  rintro ⟨e, _, _, h, -⟩
  cases h

theorem not_refused_pane (e : PaneError) : ¬ Refused (.error (.pane e)) := by
  rintro ⟨_, _, _, h, ha⟩
  cases h
  cases ha

theorem turn_admission (visits writes : Nat) :
    Moment.admission.turn env pane visits writes = .smooth ∨
      Moment.admission.turn env pane visits writes = .refused := by
  unfold Moment.turn
  cases env.visit visits with
  | there state => exact ite_eq_or_eq _ _ _
  | _ => exact Or.inr rfl

/-- The run after a moment that is a visit. -/
theorem run_breaks_visit {m : Moment} {ms : List Moment} {t : Trace}
    (ih : ∀ t, (Refused (ms.forM (Moment.act env pane) t).1 ∧
        (ms.forM (Moment.act env pane) t).2.gone = true) ↔
      breaks t.gone (turns env pane ms t.visits t.sent.length) = true)
    (h : match m.turn env pane t.visits t.sent.length with
      | .smooth => ∃ t', m.act env pane t = (.ok (), t') ∧ t'.visits = t.visits + 1 ∧
          t'.sent = t.sent
      | _ => ∃ e t', m.act env pane t = (.error e, t') ∧ Refused (.error e) ∧ t'.sent = t.sent)
    (hm : m.turn env pane t.visits t.sent.length = .smooth ∨
      m.turn env pane t.visits t.sent.length = .refused) :
    (Refused ((m :: ms).forM (Moment.act env pane) t).1 ∧
        ((m :: ms).forM (Moment.act env pane) t).2.gone = true) ↔
      breaks t.gone (m.turn env pane t.visits t.sent.length ::
        turns env pane ms (t.visits + 1) t.sent.length) = true := by
  rw [forM_run]
  rcases hm with hm | hm <;> rw [hm] at h ⊢
  · obtain ⟨t', e, hv, hs⟩ := h
    rw [e]
    have hg : t'.gone = t.gone := by rw [Trace.gone, hs, Trace.gone]
    rw [ih t', hv, hs, hg]
    rfl
  · obtain ⟨e, t', e', hr, hs⟩ := h
    rw [e']
    have hg : t'.gone = t.gone := by rw [Trace.gone, hs, Trace.gone]
    show Refused (.error e) ∧ t'.gone = true ↔ t.gone = true
    rw [hg]
    exact and_iff_right hr

/-- **A run of moments**: it is refused after a part went in just where its turns break. -/
theorem run_breaks (ms : List Moment) (t : Trace) :
    (Refused (ms.forM (Moment.act env pane) t).1 ∧
        (ms.forM (Moment.act env pane) t).2.gone = true) ↔
      breaks t.gone (turns env pane ms t.visits t.sent.length) = true := by
  induction ms generalizing t with
  | nil => exact ⟨fun h => absurd h.1 (not_refused_ok ()), fun h => absurd h Bool.false_ne_true⟩
  | cons m ms ih =>
    cases m with
    | look f =>
      refine run_breaks_visit ih (act_look f t) ?_
      unfold Moment.turn
      cases env.visit t.visits <;> simp
    | admission => exact run_breaks_visit ih (act_admission t) (turn_admission _ _)
    | put bytes =>
      have h := @act_put env pane bytes t
      rw [forM_run]
      show _ ↔ breaks t.gone ((Moment.put bytes).turn env pane t.visits t.sent.length ::
        turns env pane ms t.visits (t.sent.length + 1)) = true
      cases hm : (Moment.put bytes).turn env pane t.visits t.sent.length <;> rw [hm] at h
      · exact h.elim
      · obtain ⟨t', e, hv, hs, hg⟩ := h
        rw [e]
        show _ ↔ breaks true _ = true
        rw [ih t', hv, hs, hg]
      · obtain ⟨e, t', e', hr, hg⟩ := h
        rw [e']
        show Refused (.error e) ∧ t'.gone = true ↔ t.gone = true
        rw [hg]
        exact and_iff_right hr
      · obtain ⟨e, t', e'⟩ := h
        rw [e']
        exact ⟨fun k => absurd k.1 (not_refused_pane e), fun k => absurd k Bool.false_ne_true⟩

/-! ### The ways in, moment by moment -/

theorem writeVia_moments (bytes : Bytes) :
    writeVia env pane bytes = (writeMoments bytes).forM (Moment.act env pane) := by
  unfold writeVia writeMoments
  cases bytes.isEmpty with
  | true =>
    simp only [if_true, List.forM_eq_forM, List.forM_cons, List.forM_nil, Moment.act, bind_assoc]
  | false =>
    simp only [Bool.false_eq_true, if_false, List.forM_eq_forM, List.forM_cons, List.forM_nil,
      Moment.act, bind_assoc, bind_pure_unit]

theorem writePart_moments (silent : SilentPaste) (part : Bytes × Option Nat) :
    writePart env pane silent part = (partMoments silent part).forM (Moment.act env pane) := by
  unfold writePart partMoments settleHumanPaste
  rw [writeVia_moments]
  simp only [List.forM_eq_forM, List.forM_append, bind_assoc]
  cases part.1.isEmpty <;> cases part.2 <;>
    simp only [if_true, Bool.false_eq_true, if_false, List.forM_cons, List.forM_nil, pure_bind,
      bind_assoc, Moment.act, bind_pure_unit]

theorem parts_moments (silent : SilentPaste) (parts : List (Bytes × Option Nat)) :
    parts.forM (writePart env pane silent) =
      (parts.flatMap (partMoments silent)).forM (Moment.act env pane) := by
  induction parts with
  | nil => rfl
  | cons part parts ih =>
    simp only [List.forM_eq_forM, List.flatMap_cons, List.forM_append, List.forM_cons] at ih ⊢
    rw [writePart_moments, ih]
    rfl

theorem typedFrom_moments (bytes : Bytes) (now : Nat) (state : PaneInputState) :
    writeTypedFrom env pane bytes now state =
      (typedMoments pane bytes now state).forM (Moment.act env pane) := by
  unfold writeTypedFrom typedMoments
  simp only [List.forM_eq_forM, List.forM_append, List.forM_cons, List.forM_nil, Moment.act,
    bind_assoc, pure_bind]
  cases state.silentPaste with
  | none => rw [writeVia_moments, List.forM_eq_forM]
  | some silent =>
    have hp := @parts_moments env pane silent
      (partsEndingPastes bytes (fedBy pane bytes now state).ends)
    rw [List.forM_eq_forM, List.forM_eq_forM] at hp
    dsimp only
    rw [hp]

/-- A typed write whose first visit finds the pane: its moments, from there. -/
theorem typed_there {bytes : Bytes} {state : PaneInputState} (h : env.visit 0 = .there state) :
    ∃ t : Trace, (InputWork.typed bytes).run env pane =
        (typedMoments pane bytes (env.now 0) state).forM (Moment.act env pane) t ∧
      t.visits = 1 ∧ t.sent = [] := by
  rw [← typedFrom_moments]
  let left := if state.generation = pane.generation then
    { state with paste := (state.paste.feed bytes (env.now 0)).1 } else state
  refine ⟨{ visits := 1, left := [left] }, ?_, rfl, rfl⟩
  show (_ >>= _ : InputM Unit) _ = _
  rw [bind_run]
  show (_ >>= _ : InputM Unit) _ = _
  rw [bind_run]
  unfold visit
  rw [show ({} : Trace).visits = 0 from rfl, h]
  rfl

/-- A typed write whose first visit finds no pane is refused with nothing written. -/
theorem typed_not_there {bytes : Bytes} (h : ∀ state, env.visit 0 ≠ .there state) :
    ((InputWork.typed bytes).run env pane).2.gone = false := by
  show Trace.gone (Prod.snd ((_ >>= _ : InputM Unit) _)) = false
  rw [bind_run]
  show Trace.gone (Prod.snd ((_ >>= _ : InputM Unit) _)) = false
  rw [bind_run]
  unfold visit
  rw [show ({} : Trace).visits = 0 from rfl]
  cases hv : env.visit 0 with
  | there state => exact absurd hv (h state)
  | gone => rfl
  | poisoned => rfl

/-- Typed keys refused after a part went in: just where their turns break. -/
theorem typed_breaks (bytes : Bytes) :
    (Refused ((InputWork.typed bytes).run env pane).1 ∧
        ((InputWork.typed bytes).run env pane).2.gone = true) ↔
      breaks false (typedTurns env pane bytes) = true := by
  unfold typedTurns
  cases hv : env.visit 0 with
  | there state =>
    obtain ⟨t, e, ht, hs⟩ := @typed_there env pane bytes _ hv
    have hg : t.gone = false := by rw [Trace.gone, hs]; rfl
    rw [e, run_breaks, ht, hs, hg]
    rfl
  | gone =>
    have hg := @typed_not_there env pane bytes fun state h => by
      rw [hv] at h
      cases h
    rw [hg]
    simp [breaks]
  | poisoned =>
    have hg := @typed_not_there env pane bytes fun state h => by
      rw [hv] at h
      cases h
    rw [hg]
    simp [breaks]

/-- A write at once is refused before anything of it went in. -/
theorem write_honest (bytes : Bytes) : ¬ (Refused (write env pane bytes {}).1 ∧
    (write env pane bytes {}).2.gone = true) := by
  unfold write
  rw [writeVia_moments, run_breaks, Bool.not_eq_true]
  unfold writeMoments turns
  rcases @turn_admission env pane ({} : Trace).visits
    ({} : Trace).sent.length with h | h <;> rw [h]
  · -- The one write is the last moment: nothing went in before it.
    cases bytes.isEmpty with
    | true => rfl
    | false =>
      show breaks false [(Moment.put bytes).turn env pane _ _] = false
      cases (Moment.put bytes).turn env pane _ _ <;> rfl
  · rfl

/-- A failed write is a refusal only where it found the pane gone and none before it had begun. -/
theorem failInput_refused {error : PaneError} {begun : Bool} {t : Trace}
    (h : Refused (failInput env pane error begun t).1) :
    begun = false ∧ error.isNotFound = true ∧ (failInput env pane error begun t).2 = t := by
  unfold failInput at h ⊢
  by_cases hb : (!begun && error.isNotFound) = true
  · rw [if_pos hb]
    rw [Bool.and_eq_true, Bool.not_eq_true'] at hb
    exact ⟨hb.1, hb.2, rfl⟩
  · rw [if_neg hb, bind_run] at h
    exact absurd h (not_refused_pane error)

/-- A paste refused on its way in is one of whose writes none was done. -/
theorem pasteAndEnter_honest {body : Bytes} {t : Trace} (ht : t.gone = false)
    (h : Refused (pasteAndEnter env pane body t).1) :
    (pasteAndEnter env pane body t).2.gone = false := by
  unfold pasteAndEnter at h ⊢
  simp only [bind_run, put] at h ⊢
  cases hw : env.write t.sent.length with
  | some error =>
    simp only [hw, bind_run, landed, visitAnyway] at h ⊢
    obtain ⟨-, hn, e⟩ := failInput_refused h
    rw [e, Trace.gone, visit_sent]
    show Trace.gone { t with sent := _ } = false
    rw [gone_put, ht, Option.all_some, hn]
    rfl
  | none =>
    -- Once the paste is in, a failed Enter is uncertain, gone pane or not.
    simp only [hw, bind_run, put, landed] at h
    cases hw' : env.write (t.sent ++ [(pasteStart ++ body ++ pasteEnd, none)]).length with
    | none =>
      simp only [hw'] at h
      exact absurd h (not_refused_ok ())
    | some error =>
      simp only [hw', bind_run, visitAnyway] at h
      exact absurd (failInput_refused h).1 Bool.noConfusion

/-- A paste is refused before anything of it went in. -/
theorem paste_honest {body : Bytes} {readEmpty : Option Nat}
    (h : Refused (writePaste env pane body readEmpty {}).1) :
    (writePaste env pane body readEmpty {}).2.gone = false := by
  unfold writePaste at h ⊢
  revert h
  cases sanitize body with
  | error e => exact fun _ => rfl
  | ok body =>
    simp only [bind_run]
    intro h
    have hs := @visit_sent env pane (fun _ s => s.inFlight readEmpty) {}
    revert h hs
    rcases visit env pane (fun _ s => s.inFlight readEmpty) {} with ⟨e | state, t⟩ <;>
      intro h hs <;> have ht : t.gone = false := (by rw [Trace.gone, hs]; rfl)
    · exact ht
    · simp only at h ⊢
      unfold validateAdmission at h ⊢
      by_cases hg : state.generation ≠ pane.generation
      · rw [if_pos hg]
        exact ht
      · rw [if_neg hg] at h ⊢
        cases hi : state.inputFailed with
        | true => exact ht
        | false =>
          rw [hi] at h
          cases hu : state.holds readEmpty with
          | true => exact ht
          | false =>
            rw [hu] at h
            exact pasteAndEnter_honest ht h

end Moments

/-! ## 6. Refused, nothing written -/

/-- Nothing breaks an input off once a part of it went in: it is not the human's keys, or after a
    part of them the first thing to stop the rest is a write that failed once begun. -/
def InputWork.Unbroken (work : InputWork) (env : Env) (pane : PaneKey) : Prop :=
  match work with
  | typed bytes => breaks false (typedTurns env pane bytes) = false
  | _ => True

/-- **An input refused wrote nothing**, whatever the pane's state and its writer do, just where
    nothing breaks it off between its parts. -/
theorem refused_wrote_nothing_iff (work : InputWork) (env : Env) (pane : PaneKey) :
    work.Honest env pane ↔ work.Unbroken env pane := by
  unfold InputWork.Honest InputWork.Unbroken
  cases work with
  | typed bytes =>
    have h := @typed_breaks env pane bytes
    show _ ↔ breaks false (typedTurns env pane bytes) = false
    rw [← Bool.not_eq_true (breaks _ _), ← h, not_and, Bool.not_eq_true]
  | write bytes =>
    refine iff_true_intro fun h => ?_
    rw [← Bool.not_eq_true]
    exact not_and.mp (write_honest bytes) h
  | reply bytes =>
    refine iff_true_intro fun h => ?_
    rw [← Bool.not_eq_true]
    exact not_and.mp (write_honest bytes) h
  | paste body readEmpty => exact iff_true_intro paste_honest

/-- A window that reads a paste silently, whose pane goes once the human's paste is in. -/
def goneMidway (key : PaneKey) : Env where
  visit _ := .there { generation := key.generation, silentPaste := some ⟨0, 0, 0, 0, 0⟩ }
  now _ := 0
  write n := if n = 0 then none else some (.notFound key)

/-- Keys typed after a paste, in one write: the paste goes in, the pane goes, and the answer is a
    refusal. -/
theorem refused_midway : ¬ (InputWork.typed (pasteStart ++ [0x61] ++ pasteEnd ++ [0x0d])).Honest
    (goneMidway ⟨"1", 1⟩) ⟨"1", 1⟩ := by
  intro h
  have hr : ((InputWork.typed (pasteStart ++ [0x61] ++ pasteEnd ++ [0x0d])).run
      (goneMidway ⟨"1", 1⟩) ⟨"1", 1⟩).1 = .error .stale := by decide
  have hg := h ⟨_, _, _, hr, rfl⟩
  exact absurd hg (by decide)

end Panes
end ConsensFlow
