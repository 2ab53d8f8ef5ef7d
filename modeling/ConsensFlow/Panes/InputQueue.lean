/-
  File:      ConsensFlow/Panes/InputQueue.lean
  Subject:   EVERY OPEN PANE'S INPUT QUEUE (`cf-panes`, `input_queue.rs`): its two workers, the
             bytes it may hold, and the page's numbered input.

  A run is any order of steps of the threads at the queue: the host's, the page's, the workers',
  and the one that stops the host. A step a lock keeps waiting does nothing. A submission is two
  steps, the workers free to go between them: it reserves its bytes, then the channel takes it or
  gives it back, the senders' lock its own meanwhile (and the page's, for a page's input).

  * `InputQueue`, `Event`, `step`, `run` -- the state, and what each step does to it;
  * `Kept`, `kept_step`, **`input_in_order`** -- each way's worker answers what was admitted to it,
    in order and once, and the bytes counted as pending are those of what is not answered yet.
-/
import ConsensFlow.Panes.Input

namespace ConsensFlow
namespace Panes
namespace Queued

/-! ## 1. The queue -/

/-- `INPUT_QUEUE_CAPACITY`. -/
def inputQueueCapacity : Nat := 1024

/-- `MAX_PENDING_INPUT_BYTES_PER_PANE`. -/
def maxPendingInputBytesPerPane : Nat := 4 * 1024 * 1024

/-- `MAX_PENDING_INPUT_TICKETS`. -/
def maxPendingInputTickets : Nat := 4096

/-- `MAX_INPUT_BYTES`. -/
def maxInputBytes : Nat := 64 * 1024

/-- A pane's two queues, each with a worker of its own. -/
inductive Way where
  | input
  | replies
  deriving DecidableEq, Repr

/-- `InputWork`, a native send's claim among it. -/
inductive Work where
  | input (work : InputWork)
  | claim

namespace Work

/-- `byte_count`. -/
def byteCount : Work → Nat
  | input (.typed bytes) => bytes.length
  | input (.write bytes) => bytes.length
  | input (.reply bytes) => bytes.length
  | input (.paste body _) => min (body.length + 13) (2 ^ 64 - 1)
  | claim => 0

/-- The queue it goes to. -/
def way : Work → Way
  | input (.reply _) => .replies
  | _ => .input

/-- The bytes `validate_input` looks at. -/
def bytes : Work → Bytes
  | input (.typed bytes) => bytes
  | input (.write bytes) => bytes
  | input (.reply bytes) => bytes
  | input (.paste body _) => body
  | claim => []

end Work

/-- `InputJob`: the work, and the channel its answer goes down. -/
structure InputJob where
  work : Work
  response : Nat

namespace InputJob

def reservedBytes (job : InputJob) : Nat := job.work.byteCount
def way (job : InputJob) : Way := job.work.way

end InputJob

/-- One of a pane's queues, and its worker: the job it is at, and whether it broke down. -/
structure Lane where
  queue : List InputJob := []
  busy : Option InputJob := none
  ended : Bool := false

/-- What the lane holds and has not answered. -/
def Lane.waiting (lane : Lane) : List InputJob := lane.busy.toList ++ lane.queue

/-- `InputRoute`. -/
structure InputRoute where
  lanes : Way → Lane := fun _ => {}
  pendingBytes : Nat := 0

/-- `PageInputCompletion`. -/
structure PageInputCompletion where
  receiver : Nat
  human : Bool
  deriving DecidableEq, Repr

/-- A submission between its reservation and its send; of the page, with the ticket number after
its own and whether a human typed it. -/
structure Underway where
  key : PaneKey
  route : Nat
  job : InputJob
  page : Option (Nat × Bool)

/-- `InputQueue`, and the routes made so far: one a `senders` entry leads to, or led to. -/
structure InputQueue where
  accepting : Bool := true
  senders : PaneKey → Option Nat := fun _ => none
  opened : Nat := 0
  routes : Nat → InputRoute := fun _ => {}
  channels : Nat := 0
  underway : Option Underway := none
  lastSequences : PaneKey → Option Nat := fun _ => none
  completions : List (String × PageInputCompletion) := []
  nextTicket : Nat := 1

/-- What a step shows. -/
inductive Happening where
  | opened (key : PaneKey)
  | notOpened (cause : String)
  | admitted (route : Nat) (job : InputJob)
  | rejected (error : InputError)
  | answered (route : Nat) (job : InputJob) (response : Except InputError Unit)
  | numbered (key : PaneKey) (sequence : Nat)
  | ticketed (ticket : String) (completion : PageInputCompletion)
  | turnedAway (cause : String)
  | collected (ticket : String) (completion : PageInputCompletion)
  | notFound (ticket : String)
  | began
  | forgot (key : PaneKey)

/-- The steps of the threads at the queue. -/
inductive Event where
  | openPane (key : PaneKey) (failure : Option String)
  | retire (key : PaneKey)
  | forget (key : PaneKey)
  | submit (key : PaneKey) (work : Work)
  | enqueuePage (key : PaneKey) (sequence : Nat) (work : Work) (human : Bool)
  | send
  | beginPage
  | takePageCompletion (ticket : String)
  | take (route : Nat) (way : Way)
  | finish (route : Nat) (way : Way) (result : Except ArbiterError Unit)
  | breakDown (route : Nat) (way : Way)
  | close
  | drain

/-! ## 2. Its steps -/

def queueFull : InputError := .refused "pane-input-queue-full" "the pane's input queue is full"

/-- `input-closed`, for the host that is stopping. -/
def closed : InputError := .refused "input-closed" "pane input admission is closed"

/-- The cause, which is all the page is answered. -/
def cause : InputError → String
  | .refused _ cause => cause
  | .uncertain cause => cause

/-- `fetch_sub`, in 64 bits. -/
def fetchSub (pending n : Nat) : Nat := (pending + 2 ^ 64 - n) % 2 ^ 64

/-- A thread with the senders' lock. -/
def InputQueue.held (q : InputQueue) : Bool := q.underway.isSome

/-- A thread with the page's lock. -/
def InputQueue.pageHeld (q : InputQueue) : Bool := q.underway.any fun u => u.page.isSome

def InputQueue.setRoute (q : InputQueue) (i : Nat) (route : InputRoute) : InputQueue :=
  { q with routes := Function.update q.routes i route }

def InputRoute.setLane (route : InputRoute) (way : Way) (lane : Lane) : InputRoute :=
  { route with lanes := Function.update route.lanes way lane }

/-- `submit`, until the bytes are reserved. -/
def InputQueue.reserve (q : InputQueue) (key : PaneKey) (work : Work)
    (page : Option (Nat × Bool)) : Except InputError InputQueue :=
  if q.accepting = false then .error closed
  else match q.senders key with
    | none => .error ArbiterError.stale.answer
    | some i =>
      let route := q.routes i
      -- `checked_add` overflows only past the bound
      if route.pendingBytes + work.byteCount ≤ maxPendingInputBytesPerPane then
        .ok { q.setRoute i { route with pendingBytes := route.pendingBytes + work.byteCount } with
          channels := q.channels + 1
          underway := some { key, route := i, job := { work, response := q.channels }, page } }
      else .error queueFull

/-- Why a channel gave a job back. -/
inductive TrySendError where
  | full
  | disconnected

/-- `try_send`. -/
def Lane.trySend (lane : Lane) (job : InputJob) : Except TrySendError Lane :=
  if lane.ended then .error .disconnected
  else if lane.queue.length < inputQueueCapacity then
    .ok { lane with queue := lane.queue ++ [job] }
  else .error .full

def TrySendError.answer (key : PaneKey) : TrySendError → InputError
  | full => queueFull
  | disconnected => .refused "input-closed" s!"pane input queue for {key.id} is closed"

/-- The ticket of a number. -/
def ticket (n : Nat) : String := "pane-input-" ++ Nat.repr n

/-- A job the channel took: a page's input gets its ticket. -/
def InputQueue.takeIn (q : InputQueue) (u : Underway) : InputQueue × List Happening :=
  match u.page with
  | none => ({ q with underway := none }, [.admitted u.route u.job])
  | some (next, human) =>
    let completion : PageInputCompletion := { receiver := u.job.response, human := human }
    ({ q with
        underway := none
        completions := (ticket q.nextTicket, completion) ::
          q.completions.filter fun c => c.1 != ticket q.nextTicket
        nextTicket := next },
      [.admitted u.route u.job, .ticketed (ticket q.nextTicket) completion])

/-- A job the channel gave back. -/
def InputQueue.giveBack (q : InputQueue) (u : Underway) (error : InputError) :
    InputQueue × List Happening :=
  let route := q.routes u.route
  ({ q.setRoute u.route
      { route with pendingBytes := fetchSub route.pendingBytes u.job.reservedBytes } with
      underway := none },
    [if u.page.isSome then .turnedAway (cause error) else .rejected error])

/-- The rest of the submission under way, and of the page's admission of it. -/
def InputQueue.send (q : InputQueue) (u : Underway) : InputQueue × List Happening :=
  let route := q.routes u.route
  match (route.lanes u.job.way).trySend u.job with
  | .ok lane => (q.setRoute u.route (route.setLane u.job.way lane)).takeIn u
  | .error e => q.giveBack u (e.answer u.key)

/-- The number a pane's input must come under next. -/
def InputQueue.checkSequence (q : InputQueue) (key : PaneKey) (sequence : Nat) :
    Except String Unit :=
  let expected := (q.lastSequences key).getD 0 + 1
  if 2 ^ 64 ≤ expected then .error "pane-input-sequence-overflow"
  else if sequence < expected then .error "pane-input-sequence-regression"
  else if expected < sequence then .error "pane-input-sequence-gap"
  else .ok ()

/-- What the page's input is held to once its number is spent; the ticket number after its own. -/
def InputQueue.checkTicket (q : InputQueue) (work : Work) : Except String Nat :=
  if maxInputBytes < work.bytes.length then .error s!"pane input exceeds {maxInputBytes} bytes"
  else if maxPendingInputTickets ≤ q.completions.length then .error "pane-input-ticket-capacity"
  else if 2 ^ 64 ≤ q.nextTicket + 1 then .error "pane-input-ticket-overflow"
  else .ok (q.nextTicket + 1)

/-- `enqueue_page`, until the bytes are reserved. A number it takes is spent, admitted or not. -/
def InputQueue.enqueuePage (q : InputQueue) (key : PaneKey) (sequence : Nat) (work : Work)
    (human : Bool) : InputQueue × List Happening :=
  match q.checkSequence key sequence with
  | .error e => (q, [.turnedAway e])
  | .ok () =>
    let q := { q with lastSequences := Function.update q.lastSequences key (some sequence) }
    match q.checkTicket work with
    | .error e => (q, [.numbered key sequence, .turnedAway e])
    | .ok next =>
      match q.reserve key work (some (next, human)) with
      | .error e => (q, [.numbered key sequence, .turnedAway (cause e)])
      | .ok q => (q, [.numbered key sequence])

/-- `open`: why a worker did not start, if one did not. -/
def InputQueue.openPane (q : InputQueue) (key : PaneKey) (failure : Option String) :
    InputQueue × List Happening :=
  if q.accepting = false then (q, [.notOpened "pane input admission is closed"])
  else match failure with
    | some error => (q, [.notOpened s!"could not start pane input queue: {error}"])
    | none =>
      ({ q with senders := Function.update q.senders key (some q.opened), opened := q.opened + 1 },
        [.opened key])

/-- `take_page_completion`. -/
def InputQueue.takePageCompletion (q : InputQueue) (ticket : String) :
    InputQueue × List Happening :=
  match q.completions.find? fun c => c.1 == ticket with
  | some c => ({ q with completions := q.completions.filter fun c => c.1 != ticket },
      [.collected ticket c.2])
  | none => (q, [.notFound ticket])

/-- A worker takes the first job of its queue. -/
def InputQueue.take (q : InputQueue) (i : Nat) (way : Way) : InputQueue :=
  let route := q.routes i
  let lane := route.lanes way
  match lane.ended, lane.busy, lane.queue with
  | false, none, job :: rest =>
    q.setRoute i (route.setLane way { lane with busy := some job, queue := rest })
  | _, _, _ => q

/-- A worker is done with its job: its bytes are no longer pending, and it is answered. -/
def InputQueue.finish (q : InputQueue) (i : Nat) (way : Way) (result : Except ArbiterError Unit) :
    InputQueue × List Happening :=
  let route := q.routes i
  let lane := route.lanes way
  match lane.ended, lane.busy with
  | false, some job =>
    let route := route.setLane way { lane with busy := none }
    (q.setRoute i { route with pendingBytes := fetchSub route.pendingBytes job.reservedBytes },
      [.answered i job (result.mapError ArbiterError.answer)])
  | _, _ => (q, [])

/-- A worker breaks down: its channel closes, what it held never answered. -/
def InputQueue.breakDown (q : InputQueue) (i : Nat) (way : Way) : InputQueue :=
  if i < q.opened then
    let route := q.routes i
    q.setRoute i (route.setLane way { route.lanes way with ended := true })
  else q

/-- One step, and what it shows. The page's lock is taken before the senders', and only its own
thread can see what lies between, so that an `enqueue_page` takes both at once. -/
def InputQueue.step (q : InputQueue) : Event → InputQueue × List Happening
  | .openPane key failure => if q.held then (q, []) else q.openPane key failure
  | .retire key =>
    if q.held then (q, []) else ({ q with senders := Function.update q.senders key none }, [])
  | .forget key =>
    if q.pageHeld then (q, [])
    else ({ q with lastSequences := Function.update q.lastSequences key none }, [.forgot key])
  | .submit key work =>
    if q.held then (q, [])
    else match q.reserve key work none with
      | .error e => (q, [.rejected e])
      | .ok q => (q, [])
  | .enqueuePage key sequence work human =>
    if q.held then (q, []) else q.enqueuePage key sequence work human
  | .send =>
    match q.underway with
    | some u => q.send u
    | none => (q, [])
  | .beginPage =>
    if q.pageHeld then (q, [])
    else ({ q with lastSequences := fun _ => none, completions := [] }, [.began])
  | .takePageCompletion ticket =>
    if q.pageHeld then (q, []) else q.takePageCompletion ticket
  | .take i way => (q.take i way, [])
  | .finish i way result => q.finish i way result
  | .breakDown i way => (q.breakDown i way, [])
  | .close => ({ q with accepting := false }, [])
  | .drain =>
    if q.held || q.accepting then (q, []) else ({ q with senders := fun _ => none }, [])

/-- A run from a queue just made: where it ends, and all it showed. -/
def run (events : List Event) : InputQueue × List Happening :=
  events.foldl (fun r e => ((r.1.step e).1, r.2 ++ (r.1.step e).2)) ({}, [])

theorem run_concat (events : List Event) (e : Event) :
    run (events ++ [e]) =
      (((run events).1.step e).1, (run events).2 ++ ((run events).1.step e).2) := by
  unfold run
  rw [List.foldl_append]
  rfl

/-! ## 3. What a step does to the panes' queues -/

/-- A job the channel of a route took. -/
def Happening.admission : Happening → Option (Nat × InputJob)
  | admitted route job => some (route, job)
  | _ => none

/-- A job a worker of a route answered. -/
def Happening.answer : Happening → Option (Nat × InputJob)
  | answered route job _ => some (route, job)
  | _ => none

def admissions (h : List Happening) : List (Nat × InputJob) := h.filterMap Happening.admission
def answers (h : List Happening) : List (Nat × InputJob) := h.filterMap Happening.answer

/-- The jobs of one way of a route. -/
def along (i : Nat) (way : Way) (jobs : List (Nat × InputJob)) : List InputJob :=
  (jobs.filter fun j => j.1 = i ∧ j.2.way = way).map (·.2)

/-- The bytes of jobs. -/
def bytesOf (jobs : List InputJob) : Nat := (jobs.map InputJob.reservedBytes).sum

/-- The bytes of what a pane's queues hold and have not answered. -/
def InputRoute.unanswered (route : InputRoute) : Nat :=
  bytesOf (route.lanes .input).waiting + bytesOf (route.lanes .replies).waiting

/-- The bytes a submission under way has reserved of a route. -/
def InputQueue.reserved (q : InputQueue) (i : Nat) : Nat :=
  match q.underway with
  | some u => if u.route = i then u.job.reservedBytes else 0
  | none => 0

/-- **What a step can do to the panes' queues.** -/
inductive Moved (q : InputQueue) : InputQueue → List Happening → Prop where
  | still {q' : InputQueue} {hs : List Happening} (routes : q'.routes = q.routes)
      (underway : q'.underway = q.underway) (channels : q'.channels = q.channels)
      (opened : q.opened ≤ q'.opened)
      (leads : ∀ key i, q'.senders key = some i →
        q.senders key = some i ∨ (i = q.opened ∧ q'.opened = q.opened + 1))
      (none_in : admissions hs = []) (none_out : answers hs = []) : Moved q q' hs
  | reserved (u : Underway) (sequences : PaneKey → Option Nat) {hs : List Happening}
      (free : q.underway = none) (leads : q.senders u.key = some u.route)
      (minted : u.job.response = q.channels)
      (fits : (q.routes u.route).pendingBytes + u.job.reservedBytes ≤ maxPendingInputBytesPerPane)
      (none_in : admissions hs = []) (none_out : answers hs = []) :
      Moved q
        { q.setRoute u.route { q.routes u.route with
            pendingBytes := (q.routes u.route).pendingBytes + u.job.reservedBytes } with
          channels := q.channels + 1
          underway := some u
          lastSequences := sequences } hs
  | sent (u : Underway) (lane : Lane) (completions : List (String × PageInputCompletion))
      (next : Nat) {hs : List Happening} (there : q.underway = some u)
      (took : ((q.routes u.route).lanes u.job.way).trySend u.job = .ok lane)
      (one_in : admissions hs = [(u.route, u.job)]) (none_out : answers hs = []) :
      Moved q
        { q.setRoute u.route ((q.routes u.route).setLane u.job.way lane) with
          underway := none
          completions := completions
          nextTicket := next } hs
  | returned (u : Underway) {hs : List Happening} (there : q.underway = some u)
      (none_in : admissions hs = []) (none_out : answers hs = []) :
      Moved q
        { q.setRoute u.route { q.routes u.route with
            pendingBytes := fetchSub (q.routes u.route).pendingBytes u.job.reservedBytes } with
          underway := none } hs
  | took (i : Nat) (way : Way) (job : InputJob) (rest : List InputJob)
      (idle : ((q.routes i).lanes way).busy = none)
      (first : ((q.routes i).lanes way).queue = job :: rest) :
      Moved q
        (q.setRoute i ((q.routes i).setLane way
          { (q.routes i).lanes way with busy := some job, queue := rest })) []
  | finished (i : Nat) (way : Way) (job : InputJob) (response : Except InputError Unit)
      (at_it : ((q.routes i).lanes way).busy = some job) :
      Moved q
        (q.setRoute i { (q.routes i).setLane way { (q.routes i).lanes way with busy := none } with
          pendingBytes := fetchSub (q.routes i).pendingBytes job.reservedBytes })
        [.answered i job response]
  | broke (i : Nat) (way : Way) (there : i < q.opened) :
      Moved q
        (q.setRoute i ((q.routes i).setLane way { (q.routes i).lanes way with ended := true })) []

/-- A step that leaves the routes and the senders be. -/
theorem Moved.aside {q q' : InputQueue} {hs : List Happening} (routes : q'.routes = q.routes)
    (underway : q'.underway = q.underway) (channels : q'.channels = q.channels)
    (opened : q'.opened = q.opened) (senders : q'.senders = q.senders)
    (none_in : admissions hs = []) (none_out : answers hs = []) : Moved q q' hs :=
  .still routes underway channels (le_of_eq opened.symm)
    (fun _ _ h => .inl (senders ▸ h)) none_in none_out

/-- A reservation made: where it leads, and what it leaves. -/
theorem reserve_ok {q q' : InputQueue} {key : PaneKey} {work : Work} {page : Option (Nat × Bool)}
    (made : q.reserve key work page = .ok q') :
    ∃ u : Underway, u.key = key ∧ u.job.work = work ∧ u.page = page ∧
      q.senders u.key = some u.route ∧ u.job.response = q.channels ∧
      (q.routes u.route).pendingBytes + u.job.reservedBytes ≤ maxPendingInputBytesPerPane ∧
      q' = { q.setRoute u.route { q.routes u.route with
          pendingBytes := (q.routes u.route).pendingBytes + u.job.reservedBytes } with
        channels := q.channels + 1
        underway := some u } := by
  unfold InputQueue.reserve at made
  split at made
  · cases made
  · cases found : q.senders key with
    | none =>
      rw [found] at made
      cases made
    | some i =>
      rw [found] at made
      dsimp only at made
      split at made
      · rename_i fits
        cases made
        exact ⟨⟨key, i, ⟨work, q.channels⟩, page⟩, rfl, rfl, rfl, found, rfl, fits, rfl⟩
      · cases made

theorem moved_enqueuePage {q : InputQueue} (free : q.underway = none) (key : PaneKey)
    (sequence : Nat) (work : Work) (human : Bool) :
    Moved q (q.enqueuePage key sequence work human).1
      (q.enqueuePage key sequence work human).2 := by
  unfold InputQueue.enqueuePage
  split
  · exact .aside rfl rfl rfl rfl rfl rfl rfl
  · dsimp only
    split
    · exact .aside rfl rfl rfl rfl rfl rfl rfl
    · split
      · exact .aside rfl rfl rfl rfl rfl rfl rfl
      · rename_i made
        obtain ⟨u, -, -, -, leads, minted, fits, rfl⟩ := reserve_ok made
        exact .reserved u _ free leads minted fits rfl rfl

theorem moved_send {q : InputQueue} {u : Underway} (there : q.underway = some u) :
    Moved q (q.send u).1 (q.send u).2 := by
  unfold InputQueue.send
  dsimp only
  split
  · rename_i lane took
    unfold InputQueue.takeIn
    split
    · exact .sent u lane q.completions q.nextTicket there took rfl rfl
    · exact .sent u lane _ _ there took rfl rfl
  · unfold InputQueue.giveBack
    refine .returned u there ?_ ?_ <;>
    · dsimp only
      split <;> rfl

theorem moved_take (q : InputQueue) (i : Nat) (way : Way) : Moved q (q.take i way) [] := by
  unfold InputQueue.take
  dsimp only
  split
  · rename_i idle first
    exact .took i way _ _ idle first
  · exact .aside rfl rfl rfl rfl rfl rfl rfl

theorem moved_finish (q : InputQueue) (i : Nat) (way : Way) (result : Except ArbiterError Unit) :
    Moved q (q.finish i way result).1 (q.finish i way result).2 := by
  unfold InputQueue.finish
  dsimp only
  split
  · rename_i at_it
    exact .finished i way _ _ at_it
  · exact .aside rfl rfl rfl rfl rfl rfl rfl

theorem moved_openPane (q : InputQueue) (key : PaneKey) (failure : Option String) :
    Moved q (q.openPane key failure).1 (q.openPane key failure).2 := by
  unfold InputQueue.openPane
  split
  · exact .aside rfl rfl rfl rfl rfl rfl rfl
  · split
    · exact .aside rfl rfl rfl rfl rfl rfl rfl
    · refine .still rfl rfl rfl (Nat.le_succ _) (fun other i found => ?_) rfl rfl
      dsimp only at found
      by_cases same : other = key
      · rw [same, Function.update_self] at found
        exact .inr ⟨(Option.some.inj found).symm, rfl⟩
      · rw [Function.update_of_ne same] at found
        exact .inl found

/-- **A step moves the queues in one of these ways.** -/
theorem moved_step (q : InputQueue) (e : Event) : Moved q (q.step e).1 (q.step e).2 := by
  have free (h : ¬ q.held = true) : q.underway = none := by
    unfold InputQueue.held at h
    exact Option.not_isSome_iff_eq_none.1 h
  have idle : Moved q q [] := .aside rfl rfl rfl rfl rfl rfl rfl
  cases e with
  | openPane key failure =>
    unfold InputQueue.step
    dsimp only
    split
    · exact idle
    · exact moved_openPane q key failure
  | retire key =>
    unfold InputQueue.step
    dsimp only
    split
    · exact idle
    · refine .still rfl rfl rfl (le_refl _) (fun other i found => ?_) rfl rfl
      dsimp only at found
      by_cases same : other = key
      · rw [same, Function.update_self] at found
        cases found
      · rw [Function.update_of_ne same] at found
        exact .inl found
  | forget key =>
    unfold InputQueue.step
    dsimp only
    split
    · exact idle
    · exact .aside rfl rfl rfl rfl rfl rfl rfl
  | submit key work =>
    unfold InputQueue.step
    dsimp only
    split
    · exact idle
    · rename_i lock
      split
      · exact .aside rfl rfl rfl rfl rfl rfl rfl
      · rename_i made
        obtain ⟨u, -, -, -, leads, minted, fits, rfl⟩ := reserve_ok made
        exact .reserved u q.lastSequences (free lock) leads minted fits rfl rfl
  | enqueuePage key sequence work human =>
    unfold InputQueue.step
    dsimp only
    split
    · exact idle
    · rename_i lock
      exact moved_enqueuePage (free lock) key sequence work human
  | send =>
    unfold InputQueue.step
    dsimp only
    split
    · rename_i there
      exact moved_send there
    · exact idle
  | beginPage =>
    unfold InputQueue.step
    dsimp only
    split
    · exact idle
    · exact .aside rfl rfl rfl rfl rfl rfl rfl
  | takePageCompletion ticket =>
    unfold InputQueue.step InputQueue.takePageCompletion
    dsimp only
    split
    · exact idle
    · split <;> exact .aside rfl rfl rfl rfl rfl rfl rfl
  | take i way => exact moved_take q i way
  | finish i way result => exact moved_finish q i way result
  | breakDown i way =>
    unfold InputQueue.step InputQueue.breakDown
    dsimp only
    split
    · rename_i there
      exact .broke i way there
    · exact idle
  | close => exact .aside rfl rfl rfl rfl rfl rfl rfl
  | drain =>
    unfold InputQueue.step
    dsimp only
    split
    · exact idle
    · exact .still rfl rfl rfl (le_refl _) (fun _ _ found => by cases found) rfl rfl

/-! ## 4. Answered in order, and once -/

theorem admissions_append (h hs : List Happening) :
    admissions (h ++ hs) = admissions h ++ admissions hs := List.filterMap_append

theorem answers_append (h hs : List Happening) :
    answers (h ++ hs) = answers h ++ answers hs := List.filterMap_append

theorem along_append (i : Nat) (way : Way) (jobs more : List (Nat × InputJob)) :
    along i way (jobs ++ more) = along i way jobs ++ along i way more := by
  unfold along
  rw [List.filter_append, List.map_append]

theorem along_single (i : Nat) (way : Way) (route : Nat) (job : InputJob) :
    along i way [(route, job)] = if route = i ∧ job.way = way then [job] else [] := by
  unfold along
  by_cases here : route = i ∧ job.way = way
  · rw [if_pos here, List.filter_cons_of_pos (by simpa using here)]
    rfl
  · rw [if_neg here, List.filter_cons_of_neg (by simpa using here)]
    rfl

theorem mem_along {i : Nat} {way : Way} {jobs : List (Nat × InputJob)} {job : InputJob} :
    job ∈ along i way jobs ↔ (i, job) ∈ jobs ∧ job.way = way := by
  unfold along
  simp only [List.mem_map, List.mem_filter, decide_eq_true_eq, Prod.exists]
  constructor
  · rintro ⟨j, other, ⟨mem, rfl, rfl⟩, rfl⟩
    exact ⟨mem, rfl⟩
  · rintro ⟨mem, rfl⟩
    exact ⟨i, job, ⟨mem, rfl, rfl⟩, rfl⟩

theorem bytesOf_append (jobs more : List InputJob) :
    bytesOf (jobs ++ more) = bytesOf jobs + bytesOf more := by
  unfold bytesOf
  rw [List.map_append, List.sum_append]

/-- The lanes of a queue one lane of which was set. -/
theorem lanes_set (q : InputQueue) (i : Nat) (way : Way) (lane : Lane) (pending : Nat) (j : Nat)
    (w : Way) :
    ((Function.update q.routes i
        { (q.routes i).setLane way lane with pendingBytes := pending }) j).lanes w =
      if j = i ∧ w = way then lane else (q.routes j).lanes w := by
  by_cases route : j = i
  · rw [route, Function.update_self]
    by_cases same : w = way
    · rw [if_pos ⟨rfl, same⟩, same]
      exact Function.update_self ..
    · rw [if_neg fun h => same h.2]
      exact Function.update_of_ne same ..
  · rw [Function.update_of_ne route, if_neg fun h => route h.1]

/-- The lanes of a queue whose pending bytes alone were set. -/
theorem lanes_pending (q : InputQueue) (i pending : Nat) (j : Nat) :
    ((Function.update q.routes i { q.routes i with pendingBytes := pending }) j).lanes =
      (q.routes j).lanes := by
  by_cases route : j = i
  · rw [route, Function.update_self]
  · rw [Function.update_of_ne route]

/-- The bytes a route has unanswered, one lane of it set. -/
theorem unanswered_setLane (route : InputRoute) (way : Way) (lane : Lane) :
    (route.setLane way lane).unanswered + bytesOf (route.lanes way).waiting =
      route.unanswered + bytesOf lane.waiting := by
  unfold InputRoute.unanswered InputRoute.setLane
  dsimp only
  cases way with
  | input =>
    rw [Function.update_self, Function.update_of_ne (fun h => by cases h)]
    omega
  | replies =>
    rw [Function.update_self, Function.update_of_ne (fun h => by cases h)]
    omega

/-- **What holds of the queue's state and what it has shown, in every run.** -/
structure Kept (q : InputQueue) (h : List Happening) : Prop where
  /-- Each way's worker has answered the first of what was admitted, and holds the rest. -/
  order : ∀ i way, along i way (admissions h) =
    along i way (answers h) ++ ((q.routes i).lanes way).waiting
  room : ∀ i way, ((q.routes i).lanes way).queue.length ≤ inputQueueCapacity
  count : ∀ i, (q.routes i).pendingBytes = (q.routes i).unanswered + q.reserved i
  bound : ∀ i, (q.routes i).pendingBytes ≤ maxPendingInputBytesPerPane
  /-- Channels are given out in order. -/
  minted : ((admissions h).map (·.2.response) ++
    (q.underway.map fun u => u.job.response).toList).Pairwise (· < ·)
  below : ∀ n ∈ (admissions h).map (·.2.response) ++
    (q.underway.map fun u => u.job.response).toList, n < q.channels
  once : ((answers h).map (·.2.response)).Nodup
  fresh : ∀ i, q.opened ≤ i → q.routes i = {}
  leads : ∀ key i, q.senders key = some i → i < q.opened
  held : ∀ u, q.underway = some u → u.route < q.opened

theorem kept_new : Kept {} [] where
  order _ _ := rfl
  room _ _ := Nat.zero_le _
  count _ := rfl
  bound _ := Nat.zero_le _
  minted := List.Pairwise.nil
  below _ mem := by cases mem
  once := List.nodup_nil
  fresh _ _ := rfl
  leads _ _ found := by cases found
  held _ found := by cases found

section Step

variable {q : InputQueue} {h : List Happening}

/-- A channel says whose route and job it is. -/
theorem Kept.same_channel (kept : Kept q h) {a b : Nat × InputJob} (one : a ∈ admissions h)
    (other : b ∈ admissions h) (same : a.2.response = b.2.response) : a = b := by
  have apart : ((admissions h).map (·.2.response)).Nodup :=
    (List.pairwise_append.1 kept.minted).1.imp fun less => Nat.ne_of_lt less
  exact List.inj_on_of_nodup_map apart one other same

/-- What was answered was admitted. -/
theorem Kept.answers_admitted (kept : Kept q h) {a : Nat × InputJob} (mem : a ∈ answers h) :
    a ∈ admissions h := by
  have answered : a.2 ∈ along a.1 a.2.way (answers h) := mem_along.2 ⟨mem, rfl⟩
  have admitted : a.2 ∈ along a.1 a.2.way (admissions h) := by
    rw [kept.order]
    exact List.mem_append_left _ answered
  exact (mem_along.1 admitted).1

/-- A job held was admitted, to the lane that holds it. -/
theorem Kept.waiting_admitted (kept : Kept q h) {i : Nat} {way : Way} {job : InputJob}
    (mem : job ∈ ((q.routes i).lanes way).waiting) :
    (i, job) ∈ admissions h ∧ job.way = way := by
  have admitted : job ∈ along i way (admissions h) := by
    rw [kept.order]
    exact List.mem_append_right _ mem
  exact mem_along.1 admitted

/-- A job held was not answered yet. -/
theorem Kept.waiting_unanswered (kept : Kept q h) {i : Nat} {way : Way} {job : InputJob}
    (mem : job ∈ ((q.routes i).lanes way).waiting) :
    job.response ∉ (answers h).map (·.2.response) := by
  intro found
  obtain ⟨a, answered, same⟩ := List.mem_map.1 found
  obtain ⟨admitted, rfl⟩ := kept.waiting_admitted mem
  have one : a = (i, job) := kept.same_channel (kept.answers_admitted answered) admitted same
  have twice : job ∈ along i job.way (answers h) := mem_along.2 ⟨one ▸ answered, rfl⟩
  have apart : (along i job.way (admissions h)).Nodup := by
    have all : (admissions h).Nodup :=
      List.Nodup.of_map _ ((List.pairwise_append.1 kept.minted).1.imp fun less => Nat.ne_of_lt less)
    unfold along
    refine (List.nodup_map_iff_inj_on (all.filter _)).2 fun x hx y hy e => ?_
    have hx := of_decide_eq_true (List.mem_filter.1 hx).2
    have hy := of_decide_eq_true (List.mem_filter.1 hy).2
    exact Prod.ext (hx.1.trans hy.1.symm) e
  rw [kept.order] at apart
  exact (List.nodup_append.1 apart).2.2 _ twice _ mem rfl

/-- A count of the pending bytes never wraps. -/
theorem fetchSub_of_le {pending n : Nat} (le : n ≤ pending)
    (bound : pending ≤ maxPendingInputBytesPerPane) : fetchSub pending n = pending - n := by
  unfold fetchSub
  unfold maxPendingInputBytesPerPane at bound
  omega

/-- A step that shows no admission and no answer, and leaves the routes be. -/
theorem Kept.still (kept : Kept q h) {q' : InputQueue} {hs : List Happening}
    (routes : q'.routes = q.routes) (underway : q'.underway = q.underway)
    (channels : q'.channels = q.channels) (opened : q.opened ≤ q'.opened)
    (leads : ∀ key i, q'.senders key = some i →
      q.senders key = some i ∨ (i = q.opened ∧ q'.opened = q.opened + 1))
    (none_in : admissions hs = []) (none_out : answers hs = []) : Kept q' (h ++ hs) := by
  have ins : admissions (h ++ hs) = admissions h := by
    rw [admissions_append, none_in, List.append_nil]
  have outs : answers (h ++ hs) = answers h := by rw [answers_append, none_out, List.append_nil]
  have reserved : ∀ i, q'.reserved i = q.reserved i := by
    intro i
    unfold InputQueue.reserved
    rw [underway]
  refine ⟨?_, ?_, ?_, ?_, ?_, ?_, ?_, ?_, ?_, ?_⟩
  · intro i way
    rw [ins, outs, routes]
    exact kept.order i way
  · rw [routes]
    exact kept.room
  · intro i
    rw [routes, reserved]
    exact kept.count i
  · rw [routes]
    exact kept.bound
  · rw [ins, underway]
    exact kept.minted
  · rw [ins, underway, channels]
    exact kept.below
  · rw [outs]
    exact kept.once
  · intro i le
    rw [routes]
    exact kept.fresh i (opened.trans le)
  · intro key i found
    rcases leads key i found with before | ⟨rfl, more⟩
    · exact (kept.leads key i before).trans_le opened
    · omega
  · intro u there
    exact (kept.held u (underway ▸ there)).trans_le opened

/-- A lane set, and the pending bytes of its route with it: what must be shown of the lane. -/
theorem Kept.setLane (kept : Kept q h) {i : Nat} {way : Way} {lane : Lane} {pending : Nat}
    {underway : Option Underway} {completions : List (String × PageInputCompletion)} {next : Nat}
    {hs : List Happening} (there : i < q.opened)
    (still : underway = q.underway ∨ underway = none)
    (order : along i way (admissions (h ++ hs)) =
      along i way (answers (h ++ hs)) ++ lane.waiting)
    (elsewhere : ∀ j w, ¬ (j = i ∧ w = way) →
      along j w (admissions (h ++ hs)) = along j w (admissions h) ∧
      along j w (answers (h ++ hs)) = along j w (answers h))
    (room : lane.queue.length ≤ inputQueueCapacity)
    (count : pending = ((q.routes i).setLane way lane).unanswered +
      (({ q with underway := underway } : InputQueue).reserved i))
    (others : ∀ j, j ≠ i → ({ q with underway := underway } : InputQueue).reserved j = q.reserved j)
    (bound : pending ≤ maxPendingInputBytesPerPane)
    (channels : (admissions (h ++ hs)).map (·.2.response) ++
        (underway.map fun u => u.job.response).toList =
      (admissions h).map (·.2.response) ++ (q.underway.map fun u => u.job.response).toList)
    (once : ((answers (h ++ hs)).map (·.2.response)).Nodup) :
    Kept
      { q.setRoute i { (q.routes i).setLane way lane with pendingBytes := pending } with
        underway := underway
        completions := completions
        nextTicket := next } (h ++ hs) := by
  refine ⟨?_, ?_, ?_, ?_, ?_, ?_, once, ?_, kept.leads, ?_⟩
  · intro j w
    dsimp only [InputQueue.setRoute]
    rw [lanes_set]
    by_cases here : j = i ∧ w = way
    · rw [if_pos here, here.1, here.2]
      exact order
    · rw [if_neg here, (elsewhere j w here).1, (elsewhere j w here).2]
      exact kept.order j w
  · intro j w
    dsimp only [InputQueue.setRoute]
    rw [lanes_set]
    by_cases here : j = i ∧ w = way
    · rw [if_pos here]
      exact room
    · rw [if_neg here]
      exact kept.room j w
  · intro j
    dsimp only [InputQueue.setRoute]
    by_cases route : j = i
    · rw [route, Function.update_self]
      exact count
    · rw [Function.update_of_ne route]
      exact (kept.count j).trans (congrArg _ (others j route).symm)
  · intro j
    dsimp only [InputQueue.setRoute]
    by_cases route : j = i
    · rw [route, Function.update_self]
      exact bound
    · rw [Function.update_of_ne route]
      exact kept.bound j
  · rw [channels]
    exact kept.minted
  · rw [channels]
    exact kept.below
  · intro j le
    dsimp only [InputQueue.setRoute] at le ⊢
    rw [Function.update_of_ne (by omega)]
    exact kept.fresh j le
  · intro u found
    rcases still with same | gone
    · exact kept.held u (same ▸ found)
    · rw [gone] at found
      cases found

/-- A worker that takes a job, or breaks down: the lane holds what it held. -/
theorem Kept.same_waiting (kept : Kept q h) {i : Nat} {way : Way} {lane : Lane}
    (there : i < q.opened) (waiting : lane.waiting = ((q.routes i).lanes way).waiting)
    (room : lane.queue.length ≤ inputQueueCapacity) :
    Kept (q.setRoute i ((q.routes i).setLane way lane)) (h ++ []) := by
  have same : ((q.routes i).setLane way lane).unanswered = (q.routes i).unanswered := by
    have := unanswered_setLane (q.routes i) way lane
    rw [waiting] at this
    omega
  show Kept
    { q.setRoute i { (q.routes i).setLane way lane with
        pendingBytes := (q.routes i).pendingBytes } with
      underway := q.underway
      completions := q.completions
      nextTicket := q.nextTicket } (h ++ [])
  refine kept.setLane there (.inl rfl) ?_ (fun j w _ => ?_) room ?_ (fun _ _ => rfl)
    (kept.bound i) ?_ ?_
  · rw [List.append_nil, waiting]
    exact kept.order i way
  · rw [List.append_nil]
    exact ⟨rfl, rfl⟩
  · rw [same]
    exact kept.count i
  · rw [List.append_nil]
  · rw [List.append_nil]
    exact kept.once

/-- A worker done with its job. -/
theorem Kept.finished (kept : Kept q h) {i : Nat} {way : Way} {job : InputJob}
    {response : Except InputError Unit} (at_it : ((q.routes i).lanes way).busy = some job) :
    Kept
      (q.setRoute i { (q.routes i).setLane way { (q.routes i).lanes way with busy := none } with
        pendingBytes := fetchSub (q.routes i).pendingBytes job.reservedBytes })
      (h ++ [.answered i job response]) := by
  have waiting : ((q.routes i).lanes way).waiting =
      job :: ((q.routes i).lanes way).queue := by
    unfold Lane.waiting
    rw [at_it]
    rfl
  have mem : job ∈ ((q.routes i).lanes way).waiting := by
    rw [waiting]
    exact List.mem_cons_self
  have there : i < q.opened := by
    by_contra far
    rw [kept.fresh i (not_lt.1 far)] at at_it
    cases at_it
  have ways : job.way = way := (kept.waiting_admitted mem).2
  -- its bytes were among those counted
  have less := unanswered_setLane (q.routes i) way { (q.routes i).lanes way with busy := none }
  have bytes : bytesOf ((q.routes i).lanes way).waiting =
      job.reservedBytes + bytesOf ((q.routes i).lanes way).queue := by
    rw [waiting]
    exact List.sum_cons
  have left : ({ (q.routes i).lanes way with busy := none } : Lane).waiting =
      ((q.routes i).lanes way).queue := rfl
  rw [bytes, left] at less
  have counted := kept.count i
  have enough : job.reservedBytes ≤ (q.routes i).pendingBytes := by omega
  rw [fetchSub_of_le enough (kept.bound i)]
  have ins : admissions (h ++ [Happening.answered i job response]) = admissions h := by
    rw [admissions_append]
    exact List.append_nil _
  have outs : answers (h ++ [Happening.answered i job response]) = answers h ++ [(i, job)] := by
    rw [answers_append]
    rfl
  show Kept
    { q.setRoute i { (q.routes i).setLane way { (q.routes i).lanes way with busy := none } with
        pendingBytes := (q.routes i).pendingBytes - job.reservedBytes } with
      underway := q.underway
      completions := q.completions
      nextTicket := q.nextTicket } _
  refine kept.setLane there (.inl rfl) ?_ (fun j w other => ?_) (kept.room i way) ?_
    (fun _ _ => rfl) ?_ ?_ ?_
  · rw [ins, outs, along_append, along_single, if_pos ⟨rfl, ways⟩, left, kept.order i way, waiting,
      List.append_assoc]
    rfl
  · rw [ins, outs, along_append, along_single,
      if_neg fun same => other ⟨same.1.symm, same.2.symm.trans ways⟩, List.append_nil]
    exact ⟨rfl, rfl⟩
  · show _ = _ + q.reserved i
    omega
  · exact (Nat.sub_le _ _).trans (kept.bound i)
  · rw [ins]
  · rw [outs, List.map_append, List.nodup_append]
    refine ⟨kept.once, List.nodup_singleton _, fun n old m new same => ?_⟩
    have new : m = job.response := by simpa using new
    exact kept.waiting_unanswered mem (new ▸ same ▸ old)

/-- What a submission under way has reserved of its own route, and of the others. -/
theorem reserved_underway {u : Underway} (there : q.underway = some u) (i : Nat) :
    q.reserved i = if u.route = i then u.job.reservedBytes else 0 := by
  unfold InputQueue.reserved
  rw [there]

/-- The channel takes the job of the submission under way. -/
theorem Kept.sent (kept : Kept q h) {u : Underway} {lane : Lane}
    {completions : List (String × PageInputCompletion)} {next : Nat} {hs : List Happening}
    (there : q.underway = some u)
    (took : ((q.routes u.route).lanes u.job.way).trySend u.job = .ok lane)
    (one_in : admissions hs = [(u.route, u.job)]) (none_out : answers hs = []) :
    Kept
      { q.setRoute u.route ((q.routes u.route).setLane u.job.way lane) with
        underway := none
        completions := completions
        nextTicket := next } (h ++ hs) := by
  have ins : admissions (h ++ hs) = admissions h ++ [(u.route, u.job)] := by
    rw [admissions_append, one_in]
  have outs : answers (h ++ hs) = answers h := by rw [answers_append, none_out, List.append_nil]
  have sent : lane = { (q.routes u.route).lanes u.job.way with
        queue := ((q.routes u.route).lanes u.job.way).queue ++ [u.job] } ∧
      ((q.routes u.route).lanes u.job.way).queue.length < inputQueueCapacity := by
    unfold Lane.trySend at took
    split at took
    · cases took
    · split at took
      · rename_i space
        cases took
        exact ⟨rfl, space⟩
      · cases took
  have waiting : lane.waiting =
      ((q.routes u.route).lanes u.job.way).waiting ++ [u.job] := by
    rw [sent.1]
    exact (List.append_assoc _ _ _).symm
  have more := unanswered_setLane (q.routes u.route) u.job.way lane
  have bytes : bytesOf [u.job] = u.job.reservedBytes := Nat.add_zero _
  rw [waiting, bytesOf_append, bytes] at more
  have counted := kept.count u.route
  rw [reserved_underway there, if_pos rfl] at counted
  show Kept
    { q.setRoute u.route { (q.routes u.route).setLane u.job.way lane with
        pendingBytes := (q.routes u.route).pendingBytes } with
      underway := none
      completions := completions
      nextTicket := next } (h ++ hs)
  refine kept.setLane (kept.held u there) (.inr rfl) ?_ (fun j w other => ?_) ?_ ?_
    (fun j other => ?_) (kept.bound _) ?_ ?_
  · rw [ins, outs, along_append, along_single, if_pos ⟨rfl, rfl⟩, kept.order, waiting,
      List.append_assoc]
  · rw [ins, outs, along_append, along_single,
      if_neg fun same => other ⟨same.1.symm, same.2.symm⟩, List.append_nil]
    exact ⟨rfl, rfl⟩
  · rw [sent.1]
    dsimp only
    rw [List.length_append]
    exact sent.2
  · show _ = _ + 0
    omega
  · rw [reserved_underway there, if_neg (Ne.symm other)]
    rfl
  · rw [ins, there, List.map_append]
    exact List.append_nil _
  · rw [outs]
    exact kept.once

/-- The pending bytes of a route set, and the submission under way with them. -/
theorem Kept.setPending (kept : Kept q h) {i pending channels : Nat}
    {underway : Option Underway} {sequences : PaneKey → Option Nat} {hs : List Happening}
    (none_in : admissions hs = []) (none_out : answers hs = [])
    (count : pending = (q.routes i).unanswered +
      (({ q with underway := underway } : InputQueue).reserved i))
    (others : ∀ j, j ≠ i → ({ q with underway := underway } : InputQueue).reserved j = q.reserved j)
    (bound : pending ≤ maxPendingInputBytesPerPane)
    (there : i < q.opened) (held : ∀ u, underway = some u → u.route < q.opened)
    (minted : ((admissions h).map (·.2.response) ++
      (underway.map fun u => u.job.response).toList).Pairwise (· < ·))
    (below : ∀ n ∈ (admissions h).map (·.2.response) ++
      (underway.map fun u => u.job.response).toList, n < channels) :
    Kept
      { q.setRoute i { q.routes i with pendingBytes := pending } with
        channels := channels
        underway := underway
        lastSequences := sequences } (h ++ hs) := by
  have ins : admissions (h ++ hs) = admissions h := by
    rw [admissions_append, none_in, List.append_nil]
  have outs : answers (h ++ hs) = answers h := by rw [answers_append, none_out, List.append_nil]
  refine ⟨?_, ?_, ?_, ?_, ?_, ?_, ?_, ?_, kept.leads, held⟩
  · intro j w
    dsimp only [InputQueue.setRoute]
    rw [ins, outs, lanes_pending]
    exact kept.order j w
  · intro j w
    dsimp only [InputQueue.setRoute]
    rw [lanes_pending]
    exact kept.room j w
  · intro j
    dsimp only [InputQueue.setRoute]
    by_cases route : j = i
    · rw [route, Function.update_self]
      exact count
    · rw [Function.update_of_ne route]
      exact (kept.count j).trans (congrArg _ (others j route).symm)
  · intro j
    dsimp only [InputQueue.setRoute]
    by_cases route : j = i
    · rw [route, Function.update_self]
      exact bound
    · rw [Function.update_of_ne route]
      exact kept.bound j
  · rw [ins]
    exact minted
  · rw [ins]
    exact below
  · rw [outs]
    exact kept.once
  · intro j le
    dsimp only [InputQueue.setRoute] at le ⊢
    rw [Function.update_of_ne (by omega)]
    exact kept.fresh j le

/-- **Every step keeps it.** -/
theorem kept_step (kept : Kept q h) {q' : InputQueue} {hs : List Happening}
    (moved : Moved q q' hs) : Kept q' (h ++ hs) := by
  cases moved with
  | still routes underway channels opened leads none_in none_out =>
    exact kept.still routes underway channels opened leads none_in none_out
  | reserved u sequences free leads minted fits none_in none_out =>
    have no_underway : ∀ i, q.reserved i = 0 := by
      intro i
      unfold InputQueue.reserved
      rw [free]
    have counted := kept.count u.route
    rw [no_underway] at counted
    have before := kept.minted
    have below := kept.below
    rw [free] at before below
    simp only [Option.map_none, Option.toList_none, List.append_nil] at before below
    refine kept.setPending none_in none_out ?_ (fun j other => ?_) fits (kept.leads _ _ leads)
      (fun v there => ?_) ?_ ?_
    · rw [reserved_underway rfl, if_pos rfl]
      omega
    · rw [reserved_underway rfl, if_neg (Ne.symm other), no_underway]
    · cases there
      exact kept.leads _ _ leads
    · refine List.pairwise_append.2 ⟨before, List.pairwise_singleton _ _, fun n old m new => ?_⟩
      have last : m = q.channels := (List.mem_singleton.1 new).trans minted
      rw [last]
      exact below n old
    · intro n mem
      rcases List.mem_append.1 mem with old | new
      · exact Nat.lt_succ_of_lt (below n old)
      · have last : n = q.channels := (List.mem_singleton.1 new).trans minted
        rw [last]
        exact Nat.lt_succ_self _
  | sent u lane completions next there took one_in none_out =>
    exact kept.sent there took one_in none_out
  | returned u there none_in none_out =>
    have counted := kept.count u.route
    rw [reserved_underway there, if_pos rfl] at counted
    have enough : u.job.reservedBytes ≤ (q.routes u.route).pendingBytes := by omega
    have before := kept.minted
    have below := kept.below
    rw [fetchSub_of_le enough (kept.bound _)]
    show Kept
      { q.setRoute u.route { q.routes u.route with
          pendingBytes := (q.routes u.route).pendingBytes - u.job.reservedBytes } with
        channels := q.channels
        underway := none
        lastSequences := q.lastSequences } _
    refine kept.setPending none_in none_out ?_ (fun j other => ?_) ?_ (kept.held u there)
      (fun v absent => by cases absent) ?_ (fun n mem => ?_)
    · show _ = _ + 0
      omega
    · rw [reserved_underway there, if_neg (Ne.symm other)]
      rfl
    · exact (Nat.sub_le _ _).trans (kept.bound _)
    · rw [Option.map_none, Option.toList_none, List.append_nil]
      exact (List.pairwise_append.1 before).1
    · rw [Option.map_none, Option.toList_none, List.append_nil] at mem
      exact below n (List.mem_append_left _ mem)
  | took i way job rest idle first =>
    have there : i < q.opened := by
      by_contra far
      rw [kept.fresh i (not_lt.1 far)] at first
      cases first
    refine kept.same_waiting there ?_ ?_
    · unfold Lane.waiting
      rw [idle, first]
      rfl
    · have room := kept.room i way
      rw [first] at room
      exact Nat.le_of_succ_le room
  | finished i way job response at_it => exact kept.finished at_it
  | broke i way there => exact kept.same_waiting there rfl (kept.room i way)

end Step

theorem kept_run (events : List Event) : Kept (run events).1 (run events).2 := by
  induction events using List.reverseRecOn with
  | nil => exact kept_new
  | append_singleton events e ih =>
    rw [run_concat]
    exact kept_step ih (moved_step _ e)

/-- **A pane's input goes in order.** In any order of steps of the threads at the queue, what was
    admitted to one way of a pane's route is, in the order of its admission, what its worker has
    answered, then the job it is at, then what its queue holds; no input is answered twice; and the
    bytes counted as pending are those of all that is admitted and not answered, and of what is
    being sent: no byte is lost or counted twice, and they stay within their bound. -/
theorem input_in_order (events : List Event) (i : Nat) :
    (∀ way, along i way (admissions (run events).2) =
      along i way (answers (run events).2) ++
        (((run events).1.routes i).lanes way).busy.toList ++
        (((run events).1.routes i).lanes way).queue) ∧
    ((answers (run events).2).map (·.2.response)).Nodup ∧
    ((run events).1.routes i).pendingBytes =
      bytesOf (((run events).1.routes i).lanes .input).waiting +
        bytesOf (((run events).1.routes i).lanes .replies).waiting + (run events).1.reserved i ∧
    ((run events).1.routes i).pendingBytes ≤ maxPendingInputBytesPerPane := by
  have kept := kept_run events
  refine ⟨fun way => ?_, kept.once, kept.count i, kept.bound i⟩
  rw [List.append_assoc]
  exact kept.order i way

end Queued
end Panes
end ConsensFlow
