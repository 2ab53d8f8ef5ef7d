/-
  File:      ConsensFlow/Codex/Selection.lean
  Subject:   WHICH THREAD A WINDOW SHOWS, and whether a delivery may go to it
             (`cf-codex-session`, `broker/selection.rs`).

  * `Requests` -- what one TUI connection asked for and has no answer to yet, by the ids of its
    requests as a JavaScript `Map` finds them (`sameId`);
  * `Selection` -- the broker's state, and each of its transitions: what a TUI said, what Codex
    said, a connection's end, a delivery admitted;
  * `Requests.take_cases`, `Requests.Distinct.insert` -- an id holds one request at a time, and an
    answer takes it;
  * `Selection.SameThread` -- the transitions that leave the window's thread as it is.
-/
import ConsensFlow.Lib.Json

open Lib.Json

namespace ConsensFlow
namespace Codex

/-! ## 1. Requests not answered yet -/

/-- One TUI connection, as the broker names it. -/
structure ClientId where
  id : Nat
  deriving DecidableEq, Repr

/-- The id a request carries: any JSON value, or none. -/
abbrev RequestId := Option Value

/-- Whether two ids are one: numbers by their value, strings and the like by theirs, and an object
    or a list never, being a new one each time it is read. -/
def sameId : RequestId → RequestId → Bool
  | some (.number one), some (.number other) => one == other
  | some (.string one), some (.string other) => one == other
  | some (.bool one), some (.bool other) => one == other
  | some .null, some .null => true
  | none, none => true
  | _, _ => false

/-- What a TUI's request that was not answered yet may change. -/
inductive Pending where
  | switch (revision : Nat) (prior : Option String) (priorEmpty mainResume : Bool)
  | permissionChange

/-- The requests one TUI connection made and has no answer to yet. -/
abbrev Requests := List (RequestId × Pending)

/-- Remembers `pending` for `id`, in place of what that id had. -/
def Requests.insert (id : RequestId) (pending : Pending) : Requests → Requests
  | [] => [(id, pending)]
  | entry :: rest =>
    if sameId entry.1 id then (entry.1, pending) :: rest
    else entry :: Requests.insert id pending rest

def Requests.take (id : RequestId) : Requests → Option Pending × Requests
  | [] => (none, [])
  | entry :: rest =>
    if sameId entry.1 id then (some entry.2, rest)
    else ((Requests.take id rest).1, entry :: (Requests.take id rest).2)

theorem eq_of_sameId {one other : RequestId} (h : sameId one other = true) : one = other := by
  unfold sameId at h
  split at h <;> simp_all

/-- Every id holds one request. -/
def Requests.Distinct (requests : Requests) : Prop :=
  requests.Pairwise fun one other => ¬ sameId one.1 other.1 = true

namespace Requests

variable {requests : Requests} {id : RequestId} {pending : Pending}

theorem mem_insert {entry : RequestId × Pending} (h : entry ∈ requests.insert id pending) :
    entry = (id, pending) ∨ entry ∈ requests := by
  induction requests with
  | nil => exact .inl (List.mem_singleton.mp h)
  | cons known rest ih =>
    rw [Requests.insert] at h
    split at h
    · rename_i same
      rcases List.mem_cons.mp h with rfl | h
      · exact .inl (by rw [eq_of_sameId same])
      · exact .inr (List.mem_cons_of_mem _ h)
    · rcases List.mem_cons.mp h with rfl | h
      · exact .inr List.mem_cons_self
      · exact (ih h).imp_right (List.mem_cons_of_mem _)

theorem Distinct.insert (h : requests.Distinct) : (requests.insert id pending).Distinct := by
  induction requests with
  | nil => exact List.pairwise_singleton _ _
  | cons known rest ih =>
    obtain ⟨others, rest'⟩ := List.pairwise_cons.mp h
    rw [Requests.insert]
    split
    · exact List.pairwise_cons.mpr ⟨others, rest'⟩
    · rename_i other
      refine List.pairwise_cons.mpr ⟨fun entry he => ?_, ih rest'⟩
      rcases mem_insert he with rfl | he
      · exact other
      · exact others entry he

theorem mem_insert_if {c : Prop} [Decidable c] {entry : RequestId × Pending}
    (h : entry ∈ if c then requests.insert id pending else requests) :
    (c ∧ entry = (id, pending)) ∨ entry ∈ requests := by
  split at h
  · rename_i hc
    exact (mem_insert h).imp_left fun he => ⟨hc, he⟩
  · exact .inr h

theorem Distinct.insert_if {c : Prop} [Decidable c] (h : requests.Distinct) :
    Distinct (if c then requests.insert id pending else requests) := by
  split
  · exact h.insert
  · exact h

/-- An answer takes the first request of its id, and leaves the others; or there is none. -/
theorem take_cases (requests : Requests) (id : RequestId) :
    (requests.take id = (none, requests) ∧ ∀ entry ∈ requests, ¬ sameId entry.1 id = true) ∨
    ∃ before entry after, requests = before ++ entry :: after ∧ sameId entry.1 id = true ∧
      requests.take id = (some entry.2, before ++ after) := by
  induction requests with
  | nil => exact .inl ⟨rfl, fun _ h => by cases h⟩
  | cons known rest ih =>
    by_cases same : sameId known.1 id = true
    · exact .inr ⟨[], known, rest, rfl, same, by simp [Requests.take, same]⟩
    rcases ih with ⟨he, none'⟩ | ⟨before, entry, after, rfl, found, he⟩
    · refine .inl ⟨by simp [Requests.take, same, he], fun entry h => ?_⟩
      rcases List.mem_cons.mp h with rfl | h
      · exact same
      · exact none' entry h
    · exact .inr ⟨known :: before, entry, after, rfl, found, by simp [Requests.take, same, he]⟩

theorem mem_take {entry : RequestId × Pending} (h : entry ∈ (requests.take id).2) :
    entry ∈ requests := by
  rcases take_cases requests id with ⟨he, -⟩ | ⟨before, taken, after, rfl, -, he⟩
  · rwa [he] at h
  · rw [he] at h
    rcases List.mem_append.mp h with h | h
    · exact List.mem_append_left _ h
    · exact List.mem_append_right _ (List.mem_cons_of_mem _ h)

/-- What an answer leaves has none of its id. -/
theorem Distinct.take (h : requests.Distinct) :
    (requests.take id).2.Distinct ∧
      ∀ entry ∈ (requests.take id).2, ¬ sameId entry.1 id = true := by
  rcases take_cases requests id with ⟨he, none'⟩ | ⟨before, taken, after, rfl, found, he⟩
  · rw [he]
    exact ⟨h, none'⟩
  · rw [he]
    obtain ⟨hb, ha, hx⟩ := List.pairwise_append.mp h
    obtain ⟨hafter, ha⟩ := List.pairwise_cons.mp ha
    refine ⟨List.pairwise_append.mpr ⟨hb, ha, fun x hx' y hy =>
      hx x hx' y (List.mem_cons_of_mem _ hy)⟩, fun entry hm same => ?_⟩
    have key : entry.1 = taken.1 := (eq_of_sameId same).trans (eq_of_sameId found).symm
    have selfSame : sameId taken.1 taken.1 = true := by
      have here := found
      rwa [← eq_of_sameId found] at here
    rcases List.mem_append.mp hm with hm | hm
    · exact hx entry hm taken List.mem_cons_self (by rw [key]; exact selfSame)
    · exact hafter entry hm (by rw [key]; exact selfSame)

end Requests

/-! ## 2. The broker's state -/

/-- A delivery that passed the broker's checks. -/
structure Admission where
  thread : String
  revision : Nat
  idle : Bool
  deriving DecidableEq, Repr

/-- Why a delivery is not taken. -/
inductive Refusal where
  | nativeSessionUnavailable
  | nativeSessionChanged
  deriving DecidableEq, Repr

/-- The broker's state. -/
structure Selection where
  /-- The main thread the TUI shows. -/
  selected : Option String
  /-- Whether nothing was said in it yet. -/
  empty : Bool
  /-- The TUI connection that chose the thread. -/
  owner : Option ClientId
  /-- Whether the window is moving to another thread: nothing is taken then. -/
  switching : Bool
  /-- Counts every change of the window's thread. -/
  revision : Nat
  /-- Whether each thread is idle, as Codex last said. -/
  idle : List (String × Bool)
  freshBypass : Bool
  role : Option String
  shellEnv : List (String × String)
  toldUnclassified : Bool
  closed : Bool
  /-- Whether the broker's own connection to Codex is initialized. -/
  ready : Bool

/-- What a map of threads holds, one put in place of what was there. -/
def putIdle (thread : String) (idle : Bool) (known : List (String × Bool)) : List (String × Bool) :=
  (thread, idle) :: known.filter fun entry => entry.1 != thread

/-- A thread's `status.type` is `idle`. -/
def statusIsIdle (thread : Option Value) : Bool :=
  ((thread.bind (·.get "status")).bind (·.get "type")).bind Value.asStr == some "idle"

/-- A hexadecimal digit. -/
def isHexDigit (c : Char) : Bool :=
  c.isDigit || ('a' ≤ c && c ≤ 'f') || ('A' ≤ c && c ≤ 'F')

/-- A thread id as Codex writes one: a hyphenated UUID of version 1 to 8 and variant 8 to b, in any
    case. -/
def isThreadId (text : String) : Bool :=
  text.toList.length == 36 && text.toList.zipIdx.all fun (c, i) =>
    if i == 8 || i == 13 || i == 18 || i == 23 then c == '-'
    else if i == 14 then '1' ≤ c && c ≤ '8'
    else if i == 19 then c == '8' || c == '9' || c.toLower == 'a' || c.toLower == 'b'
    else isHexDigit c

/-- What kind of thread a TUI's `thread/start` begins. -/
inductive Start where
  | main
  | side
  | unclassified (why : String)
  deriving DecidableEq, Repr

/-- An `ephemeral` not said is false, as the server takes it. -/
def startKind (params : Fields) : Start :=
  let ephemeral := match params.get "ephemeral" with
    | none | some .null => some false
    | some (.bool ephemeral) => some ephemeral
    | some _ => none
  match ephemeral, params.get "threadSource" with
  | some true, _ => .side
  | none, _ => .unclassified "its `ephemeral` is neither true nor false"
  | some false, some (.string source) => if source == "user" then .main else .side
  | some false, _ => .unclassified "it names no `threadSource`"

/-- The start, resume or fork `message` as it goes out. -/
def rewrittenStart (message : Value) (bypass : Bool) (role : Option String)
    (env : List (String × String)) : Value :=
  let params := ((message.get "params").bind Value.asObject).getD []
  let params :=
    if bypass then
      Fields.set "permissions" .null (Fields.set "sandbox" (.string "danger-full-access")
        (Fields.set "approvalPolicy" (.string "never") params))
    else params
  let params := match role with
    | some role => Fields.set "developerInstructions" (.string role) params
    | none => params
  let params :=
    if env.isEmpty then params
    else
      let config := ((params.get "config").bind Value.asObject).getD []
      Fields.set "config" (.object (env.foldl (fun config (name, value) =>
        Fields.set ("shell_environment_policy.set." ++ name) (.string value) config) config)) params
  match message with
  | .object fields => Value.jsOrder (.object (Fields.set "params" (.object params) fields))
  | message => Value.jsOrder message

/-! ## 3. What a message is -/

def methodOf (message : Value) : Option String := (message.get "method").bind Value.asStr

def paramsOf (message : Value) : Fields := ((message.get "params").bind Value.asObject).getD []

def idOf (message : Value) : RequestId := message.get "id"

def isMainStart (message : Value) : Bool :=
  methodOf message == some "thread/start" && startKind (paramsOf message) == .main

/-- The TUI's own resume names its workspace roots: it is the field being there that counts. -/
def isMainResume (message : Value) : Bool :=
  methodOf message == some "thread/resume" &&
    (paramsOf message).containsKey "runtimeWorkspaceRoots"

def isMainFork (message : Value) : Bool :=
  methodOf message == some "thread/fork" &&
    (match (paramsOf message).get "ephemeral" with
      | some (.bool true) => false
      | _ => true) &&
    ((paramsOf message).get "threadSource").bind Value.asStr == some "user" &&
    (paramsOf message).containsKey "runtimeWorkspaceRoots"

/-- A request that may switch the main thread. -/
def isSwitch (message : Value) : Bool :=
  isMainStart message || isMainResume message || isMainFork message

/-- Only a message with no method answers a request of the TUI's. -/
def isResponse (message : Value) : Bool := (message.get "method").isNone

def failed (message : Value) : Bool := Value.truthy (message.get "error")

/-- The thread an answer names, where a delivery can go to it. -/
def candidate (message : Value) : Option String :=
  let result := message.get "result"
  (((result.bind (·.get "thread")).bind (·.get "id")).bind Value.asStr).filter fun id =>
    isThreadId id && !Value.truthy (result.bind (·.get "readOnly"))

/-- Whether a message names the thread the window shows. -/
def namesSelected (selected : Option String) (message : Value) : Bool :=
  selected.isSome && ((paramsOf message).get "threadId").bind Value.asStr == selected

/-! ## 4. Its transitions -/

namespace Selection

/-- `Selection::new`. -/
def start (freshBypass : Bool) (role : Option String) (shellEnv : List (String × String)) :
    Selection where
  selected := none
  empty := false
  owner := none
  switching := false
  revision := 0
  idle := []
  freshBypass := freshBypass
  role := role
  shellEnv := shellEnv
  toldUnclassified := false
  closed := false
  ready := false

/-- The broker's connection to Codex is initialized. -/
def beReady (s : Selection) : Selection := { s with ready := true }

/-- The broker's connection to Codex is gone. -/
def loseControl (s : Selection) : Selection := { s with ready := false }

/-- The broker is closed: it takes nothing more and shows no thread. -/
def close (s : Selection) : Selection := { s with closed := true, selected := none, ready := false }

/-- The thread the window shows; none while it switches. -/
def sessionId (s : Selection) : Option String := if s.switching then none else s.selected

/-- Learns a thread's status from what Codex answered a read of it. -/
def learn (s : Selection) (thread : String) (read : Option Value) : Selection :=
  if s.sessionId == some thread && (read.bind (·.get "status")).isSome then
    { s with idle := putIdle thread (statusIsIdle read) s.idle }
  else s

/-- Whether a delivery would be taken now. -/
def available (s : Selection) (controlOpen : Bool) : Bool :=
  !s.closed && s.ready && controlOpen && !s.switching && s.selected.isSome

/-- Takes a delivery for `session` if the window shows that thread and the broker can reach
    Codex. -/
def admitDelivery (s : Selection) (session : String) (controlOpen : Bool) :
    Except Refusal Admission × Selection :=
  if !s.available controlOpen then (.error .nativeSessionUnavailable, s)
  else match s.selected.filter (· == session) with
    | none => (.error .nativeSessionChanged, s)
    | some thread =>
      let idle := s.idle.any fun entry => entry.1 == thread && entry.2
      (.ok ⟨thread, s.revision, idle⟩,
        { s with empty := false, idle := if idle then putIdle thread false s.idle else s.idle })

/-- Whether the window still shows what `admission` was checked against. -/
def isCurrent (s : Selection) (admission : Admission) : Bool :=
  s.revision == admission.revision && s.selected == some admission.thread

/-- A request that may switch the main thread is asked: the window shows none while it switches. -/
def asked (s : Selection) (client : ClientId) : Selection :=
  { s with
    selected := if s.switching then s.selected else none
    owner := some client
    empty := false
    switching := true
    revision := s.revision + 1 }

/-- What the broker remembers of a switch asked: what the window showed, to go back to. -/
def pendingSwitch (s : Selection) (message : Value) : Pending :=
  .switch (s.revision + 1) (if s.switching then none else s.selected) (!s.switching && s.empty)
    (isMainResume message)

/-- What a message of a TUI's asks the broker to remember, after the switch it may be. -/
def tracksPermissions (s : Selection) (message : Value) : Bool :=
  methodOf message == some "thread/settings/update" && namesSelected s.selected message &&
    ["approvalPolicy", "sandbox", "permissions"].any fun key =>
      (paramsOf message).containsKey key

def startsTurn (s : Selection) (message : Value) : Bool :=
  (methodOf message == some "turn/start" || methodOf message == some "thread/queue/add") &&
    namesSelected s.selected message

/-- A turn asked for in the shown thread: it is not empty and not idle. -/
def turnAsked (s : Selection) : Selection :=
  { s with
    empty := false
    idle := match s.selected with
      | some thread => putIdle thread false s.idle
      | none => s.idle }

/-- The message a TUI's start, resume or fork goes out as, where it is changed. -/
def rewritten (s : Selection) (message : Value) : Option Value :=
  let mainStart := isMainStart message
  let bypass := mainStart && s.freshBypass
  let role := s.role.filter fun _ => mainStart
  let env := (methodOf message == some "thread/start" || methodOf message == some "thread/resume" ||
    methodOf message == some "thread/fork") && !s.shellEnv.isEmpty
  if bypass || role.isSome || env then
    some (rewrittenStart message bypass role (if env then s.shellEnv else []))
  else none

/-- What a TUI connection said to Codex: the message sent in its place, if any, and what is
    remembered of it. -/
def tuiSaid (s : Selection) (client : ClientId) (requests : Requests) (message : Value) :
    Option Value × Requests × Selection :=
  let requests₁ :=
    if isSwitch message then requests.insert (idOf message) (s.pendingSwitch message) else requests
  let s₁ := if isSwitch message then s.asked client else s
  let requests₂ :=
    if s₁.tracksPermissions message then requests₁.insert (idOf message) .permissionChange
    else requests₁
  let s₂ := if s₁.startsTurn message then s₁.turnAsked else s₁
  (s.rewritten message, requests₂, s₂)

/-- Learns which threads are idle from what Codex says of them. -/
def observe (s : Selection) (message : Value) : Selection :=
  let params := message.get "params"
  match (params.bind (·.get "threadId")).bind Value.asStr with
  | none => s
  | some thread =>
    match methodOf message with
    | some "thread/status/changed" =>
      { s with idle := putIdle thread (statusIsIdle params) s.idle }
    | some "turn/started" =>
      { s with
        idle := putIdle thread false s.idle
        empty := if s.selected == some thread then false else s.empty }
    | some "turn/completed" => { s with idle := putIdle thread true s.idle }
    | _ => s

/-- The answer to the latest switch of the window's owner. -/
def switched (s : Selection) (message : Value) (prior : Option String)
    (priorEmpty mainResume : Bool) : Selection :=
  if failed message then
    { s with selected := prior, empty := priorEmpty, switching := false }
  else
    let thread := (message.get "result").bind (·.get "thread")
    let idle := statusIsIdle thread
    let noTurns := ((thread.bind (·.get "turns")).bind Value.asArray).any List.isEmpty
    { s with
      selected := candidate message
      empty := (candidate message).isSome && noTurns && idle
      freshBypass := s.freshBypass && !((candidate message).isSome && mainResume)
      idle := match candidate message with
        | some selected => putIdle selected idle s.idle
        | none => s.idle
      switching := false }

/-- What an answer changes, the request it answers being taken from those open. -/
def answered (s : Selection) (client : ClientId) (message : Value) : Option Pending → Selection
  | some .permissionChange => if failed message then s else { s with freshBypass := false }
  | some (.switch revision prior priorEmpty mainResume) =>
    if s.owner = some client ∧ revision = s.revision then
      s.switched message prior priorEmpty mainResume
    else s
  | none => s

/-- What Codex said to a TUI connection: the answer to a request it made, or a message of Codex's
    own. -/
def codexSaid (s : Selection) (client : ClientId) (requests : Requests) (message : Value) :
    Requests × Selection :=
  if isResponse message then
    ((requests.take (idOf message)).2,
      (s.answered client message (requests.take (idOf message)).1).observe message)
  else (requests, s.observe message)

/-- What Codex said to the broker's own connection. -/
def controlSaid (s : Selection) (message : Value) : Selection := s.observe message

/-- A TUI connection ended. -/
def retire (s : Selection) (client : ClientId) : Selection :=
  if s.owner = some client then
    { s with
      selected := none
      empty := false
      owner := none
      switching := false
      revision := s.revision + 1 }
  else s

/-- Why the window's role was not given to a start the broker cannot tell: said once a window, and
    only where it has a role to give. -/
def unclassified (s : Selection) (message : Value) : Option String × Selection :=
  if s.toldUnclassified || s.role.isNone || methodOf message != some "thread/start" then (none, s)
  else match startKind (paramsOf message) with
    | .unclassified why => (some why, { s with toldUnclassified := true })
    | _ => (none, s)

/-! ## 5. What leaves the window's thread as it is -/

/-- The window shows the same thread, by the same choice. -/
structure SameThread (s s' : Selection) : Prop where
  selected : s'.selected = s.selected
  owner : s'.owner = s.owner
  switching : s'.switching = s.switching
  revision : s'.revision = s.revision

namespace SameThread

variable {s s' s'' : Selection}

theorem refl (s : Selection) : SameThread s s := ⟨rfl, rfl, rfl, rfl⟩

theorem trans (h : SameThread s s') (h' : SameThread s' s'') : SameThread s s'' :=
  ⟨h'.selected.trans h.selected, h'.owner.trans h.owner, h'.switching.trans h.switching,
    h'.revision.trans h.revision⟩

theorem sessionId (h : SameThread s s') : s'.sessionId = s.sessionId := by
  rw [Selection.sessionId, Selection.sessionId, h.selected, h.switching]

end SameThread

variable (s : Selection)

theorem observe_same (message : Value) : SameThread s (s.observe message) := by
  rw [observe]
  cases (((message.get "params").bind (·.get "threadId")).bind Value.asStr) with
  | none => exact .refl s
  | some thread =>
    dsimp only
    split <;> exact ⟨rfl, rfl, rfl, rfl⟩

theorem learn_same (thread : String) (read : Option Value) : SameThread s (s.learn thread read) := by
  unfold learn
  split <;> exact ⟨rfl, rfl, rfl, rfl⟩

theorem unclassified_same (message : Value) : SameThread s (s.unclassified message).2 := by
  unfold unclassified
  split
  · exact .refl s
  · split <;> exact ⟨rfl, rfl, rfl, rfl⟩

theorem admitDelivery_same (session : String) (controlOpen : Bool) :
    SameThread s (s.admitDelivery session controlOpen).2 := by
  unfold admitDelivery
  split
  · exact .refl s
  · split <;> exact ⟨rfl, rfl, rfl, rfl⟩

theorem turnAsked_same : SameThread s s.turnAsked := ⟨rfl, rfl, rfl, rfl⟩

/-- A delivery admitted goes to the thread the window shows. -/
theorem admitDelivery_ok {session : String} {controlOpen : Bool} {admission : Admission}
    (h : (s.admitDelivery session controlOpen).1 = .ok admission) :
    s.switching = false ∧ s.selected = some session ∧ admission.thread = session := by
  unfold admitDelivery at h
  split at h
  · cases h
  · rename_i available
    split at h
    · cases h
    · rename_i thread found
      obtain ⟨selected, same⟩ := Option.filter_eq_some_iff.mp found
      have named : thread = session := eq_of_beq same
      cases h
      simp only [Selection.available, Bool.not_eq_true', Bool.not_eq_false, Bool.and_eq_true]
        at available
      exact ⟨by simpa using available.1.2, by rw [selected, named], named⟩

end Selection
end Codex
end ConsensFlow
