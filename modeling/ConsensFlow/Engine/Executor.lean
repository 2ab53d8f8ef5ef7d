/-
  File:      ConsensFlow/Engine/Executor.lean
  Subject:   WAKES AND DRAINS (`cf-engine`, `runtime/executor.rs`): what is woken, from any thread, and
             the one drain that runs it.

  * `Queue`, `Exec` -- the queue of woken work, the flag, the driver; how far every call is; what
    happened so far;
  * `Act`, `Exec.step` -- each access to the flag, each section under a lock, and each end of a poll
    is one step, in any order the calls allow;
  * `Sound` -- the INVARIANT: one drain at a time, the flag that of the drain, the table all the work
    that has not ended;
  * **`no_wake_lost`** -- with a driver registered, and no panic let out of the drain begun last, work
    that is woken is looked for; and it is polled in the order it was woken, once for each entry, and
    again where it was woken as it ran;
  * `wakes_left` -- with no driver, or after such a panic, woken work may wait for the next drain.
-/
import Mathlib

namespace ConsensFlow
namespace Engine
namespace Executor

/-! ## 1. The executor, and how far its calls are -/

/-- The work that is woken, in the order it was, each once. -/
structure Queue where
  order : List Nat := []
  queued : List Nat := []
  deriving DecidableEq, Repr

/-- The section of `wake` under the lock: whether the work was not queued yet. -/
def Queue.push (q : Queue) (task : Nat) : Bool × Queue :=
  if q.queued.contains task then (false, q)
  else (true, { order := q.order ++ [task], queued := task :: q.queued })

/-- The section of `next`. -/
def Queue.pop (q : Queue) : Option (Nat × Queue) :=
  match q.order with
  | [] => none
  | task :: order => some (task, { order, queued := q.queued.filter (· != task) })

/-- How far a call of `wake` that queued its work is. -/
inductive Calling where
  /-- It is to look at the flag. -/
  | pushed
  /-- It saw no drain, and is to ask who drives. -/
  | undrained
  /-- It has the driver's waker, and is to wake it. -/
  | holding
  deriving DecidableEq, Repr

/-- How far a call of `drain` is. -/
inductive Frame where
  /-- It is to look for the next piece of work. -/
  | looking
  /-- It polls one, which is out of the table. -/
  | polling (task : Nat)
  /-- It found none, and is to let go of the flag. -/
  | lettingGo
  /-- It is to look once more. -/
  | lastLook
  /-- There is more: it is to take the flag again. -/
  | again
  /-- It returns, or unwinds: its guard is to let go of the flag. -/
  | leaving
  deriving DecidableEq, Repr

/-- How far a poll of the driver is. -/
inductive Driving where
  | away
  | begun
  | registered
  | draining
  deriving DecidableEq, Repr

/-- An entry taken from the queue, and whether its work had ended by then. -/
structure Taken where
  task : Nat
  ended : Bool
  deriving DecidableEq, Repr

/-- The executor, the calls in progress, the innermost drain first, and what happened so far. -/
structure Exec where
  queue : Queue := {}
  draining : Bool := false
  driver : Bool := false
  /-- The driver was woken since its last poll began. -/
  driverWoken : Bool := false
  table : List Nat := []
  next : Nat := 0
  wakes : List Calling := []
  driving : Driving := .away
  drains : List Frame := []
  /-- How many drains were begun: the number of the one begun last. -/
  began : Nat := 0
  /-- The numbers of the drains a panic came out of. -/
  unwound : List Nat := []
  woken : List Nat := []
  taken : List Taken := []
  polls : List Nat := []
  ended : List Nat := []
  deriving DecidableEq, Repr

/-! ## 2. Steps -/

inductive Act where
  /-- The engine's thread takes work in. -/
  | add
  /-- Some thread wakes a piece of work. -/
  | push (task : Nat)
  /-- A wake looks at the flag; asks who drives; wakes the driver. -/
  | look (i : Nat)
  | clone (i : Nat)
  | wakeDriver (i : Nat)
  /-- The driver's poll begins, and registers its waker. -/
  | beginPoll
  | register
  /-- The engine's thread calls `drain`: the swap of the flag. -/
  | drain
  /-- The innermost drain goes on. -/
  | next
  | pending
  | ready
  | panic
  | letGo
  | lastLook
  | again
  | leave
  deriving DecidableEq, Repr

/-- The piece of work a drain polls. -/
def Frame.task : Frame → Option Nat
  | polling task => some task
  | _ => none

namespace Exec

/-- The work that is polled, by the innermost drain. -/
def polled (s : Exec) : Option Nat := s.drains.head?.bind Frame.task

/-- The engine's thread runs what is not the executor's: none of its calls, or a piece of work. -/
def free (s : Exec) : Bool :=
  (s.drains.isEmpty && s.driving == .away) || s.polled.isSome

/-- One step. A `strict` executor lets a panic of a piece of work out of the drain. -/
def step (strict : Bool) (s : Exec) : Act → Option Exec
  | .add =>
    if s.free then some { s with table := s.table ++ [s.next], next := s.next + 1 } else none
  | .push task =>
    if task < s.next then
      let (queued, queue) := s.queue.push task
      some (if queued then
        { s with queue, wakes := s.wakes ++ [.pushed], woken := s.woken ++ [task] }
      else { s with queue })
    else none
  | .look i =>
    if s.wakes[i]? = some .pushed then
      some (if s.draining then { s with wakes := s.wakes.eraseIdx i }
        else { s with wakes := s.wakes.set i .undrained })
    else none
  | .clone i =>
    if s.wakes[i]? = some .undrained then
      some (if s.driver then { s with wakes := s.wakes.set i .holding }
        else { s with wakes := s.wakes.eraseIdx i })
    else none
  | .wakeDriver i =>
    if s.wakes[i]? = some .holding then
      some { s with wakes := s.wakes.eraseIdx i, driverWoken := true }
    else none
  | .beginPoll =>
    if s.drains = [] ∧ s.driving = .away then
      some { s with driving := .begun, driverWoken := false }
    else none
  | .register =>
    if s.driving = .begun then some { s with driver := true, driving := .registered } else none
  | .drain =>
    if s.free || s.driving == .registered then
      -- a call from inside work being run does nothing
      if s.draining then
        some { s with driving := if s.driving = .registered then .away else s.driving }
      else
        some { s with
          draining := true
          drains := .looking :: s.drains
          began := s.began + 1
          driving := if s.driving = .registered then .draining else s.driving }
    else none
  | .next =>
    match s.drains with
    | .looking :: outer =>
      match s.queue.pop with
      | none => some { s with drains := .lettingGo :: outer }
      | some (task, queue) =>
        let taken := s.taken ++ [⟨task, s.ended.contains task⟩]
        -- ended, or woken again before it ran: nothing to run
        if s.table.contains task then
          some { s with
            queue, taken
            table := s.table.filter (· != task)
            drains := .polling task :: outer
            polls := s.polls ++ [task] }
        else some { s with queue, taken }
    | _ => none
  | .pending =>
    match s.drains with
    | .polling task :: outer =>
      some { s with table := s.table ++ [task], drains := .looking :: outer }
    | _ => none
  | .ready =>
    match s.drains with
    | .polling task :: outer =>
      some { s with ended := s.ended ++ [task], drains := .looking :: outer }
    | _ => none
  | .panic =>
    match s.drains with
    | .polling task :: outer =>
      if strict then
        some { s with
          ended := s.ended ++ [task]
          drains := .leaving :: outer
          unwound := s.unwound ++ [s.began] }
      else some { s with ended := s.ended ++ [task], drains := .looking :: outer }
    | _ => none
  | .letGo =>
    match s.drains with
    | .lettingGo :: outer => some { s with draining := false, drains := .lastLook :: outer }
    | _ => none
  | .lastLook =>
    match s.drains with
    | .lastLook :: outer =>
      some { s with drains := (if s.queue.order.isEmpty then .leaving else .again) :: outer }
    | _ => none
  | .again =>
    match s.drains with
    | .again :: outer => some { s with draining := true, drains := .looking :: outer }
    | _ => none
  | .leave =>
    match s.drains with
    | .leaving :: outer =>
      some { s with
        draining := false
        drains := outer
        driving := if outer.isEmpty && s.driving == .draining then .away else s.driving }
    | _ => none

/-- Steps one after the other. -/
def runs (strict : Bool) : Exec → List Act → Option Exec
  | s, [] => some s
  | s, act :: acts => (s.step strict act).bind fun s => s.runs strict acts

/-- The states some steps lead to. -/
def Leads (strict : Bool) (s s' : Exec) : Prop := ∃ acts, s.runs strict acts = some s'

end Exec

/-! ## 3. What a step does -/

/-- What each step does, and when. -/
inductive Stepped (strict : Bool) (s : Exec) : Exec → Prop where
  | add (free : s.free = true) :
    Stepped strict s { s with table := s.table ++ [s.next], next := s.next + 1 }
  | queued (task : Nat) (known : task < s.next) (new : task ∉ s.queue.queued) :
    Stepped strict s { s with
      queue := { order := s.queue.order ++ [task], queued := task :: s.queue.queued }
      wakes := s.wakes ++ [.pushed]
      woken := s.woken ++ [task] }
  | same : Stepped strict s s
  | sawDrain (i : Nat) (draining : s.draining = true) :
    Stepped strict s { s with wakes := s.wakes.eraseIdx i }
  | sawNone (i : Nat) (there : i < s.wakes.length) (calling : Calling) :
    Stepped strict s { s with wakes := s.wakes.set i calling }
  | noDriver (i : Nat) (none_ : s.driver = false) :
    Stepped strict s { s with wakes := s.wakes.eraseIdx i }
  | wokeDriver (i : Nat) :
    Stepped strict s { s with wakes := s.wakes.eraseIdx i, driverWoken := true }
  | beginPoll (alone : s.drains = []) (away : s.driving = .away) :
    Stepped strict s { s with driving := .begun, driverWoken := false }
  | register (begun : s.driving = .begun) :
    Stepped strict s { s with driver := true, driving := .registered }
  | refused (draining : s.draining = true) (may : s.free = true ∨ s.driving = .registered) :
    Stepped strict s { s with driving := if s.driving = .registered then .away else s.driving }
  | drain (may : s.free = true ∨ s.driving = .registered) (draining : s.draining = false) :
    Stepped strict s { s with
      draining := true
      drains := .looking :: s.drains
      began := s.began + 1
      driving := if s.driving = .registered then .draining else s.driving }
  | found (outer : List Frame) (task : Nat) (order : List Nat) (here : s.drains = .looking :: outer)
    (first : s.queue.order = task :: order) (inside : task ∈ s.table) :
    Stepped strict s { s with
      queue := { order, queued := s.queue.queued.filter (· != task) }
      taken := s.taken ++ [⟨task, s.ended.contains task⟩]
      table := s.table.filter (· != task)
      drains := .polling task :: outer
      polls := s.polls ++ [task] }
  | absent (outer : List Frame) (task : Nat) (order : List Nat) (here : s.drains = .looking :: outer)
    (first : s.queue.order = task :: order) (out : task ∉ s.table) :
    Stepped strict s { s with
      queue := { order, queued := s.queue.queued.filter (· != task) }
      taken := s.taken ++ [⟨task, s.ended.contains task⟩] }
  | foundNone (outer : List Frame) (here : s.drains = .looking :: outer) (none_ : s.queue.order = []) :
    Stepped strict s { s with drains := .lettingGo :: outer }
  | pending (outer : List Frame) (task : Nat) (here : s.drains = .polling task :: outer) :
    Stepped strict s { s with table := s.table ++ [task], drains := .looking :: outer }
  | ended (outer : List Frame) (task : Nat) (here : s.drains = .polling task :: outer) :
    Stepped strict s { s with ended := s.ended ++ [task], drains := .looking :: outer }
  | unwinds (outer : List Frame) (task : Nat) (here : s.drains = .polling task :: outer) :
    Stepped strict s { s with
      ended := s.ended ++ [task]
      drains := .leaving :: outer
      unwound := s.unwound ++ [s.began] }
  | letGo (outer : List Frame) (here : s.drains = .lettingGo :: outer) :
    Stepped strict s { s with draining := false, drains := .lastLook :: outer }
  | idle (outer : List Frame) (here : s.drains = .lastLook :: outer) (none_ : s.queue.order = []) :
    Stepped strict s { s with drains := .leaving :: outer }
  | more (outer : List Frame) (here : s.drains = .lastLook :: outer) :
    Stepped strict s { s with drains := .again :: outer }
  | again (outer : List Frame) (here : s.drains = .again :: outer) :
    Stepped strict s { s with draining := true, drains := .looking :: outer }
  | leave (outer : List Frame) (here : s.drains = .leaving :: outer) :
    Stepped strict s { s with
      draining := false
      drains := outer
      driving := if outer.isEmpty && s.driving == .draining then .away else s.driving }

variable {strict : Bool} {s s' : Exec} {act : Act}

theorem step_stepped (h : s.step strict act = some s') : Stepped strict s s' := by
  cases act with
  | add =>
    rw [Exec.step] at h
    split at h
    · rename_i free
      cases h
      exact .add free
    · cases h
  | push task =>
    rw [Exec.step] at h
    split at h
    · rename_i known
      by_cases old : task ∈ s.queue.queued
      · have pushed : s.queue.push task = (false, s.queue) := if_pos (List.contains_iff_mem.2 old)
        rw [pushed] at h
        cases h
        exact .same
      · have pushed : s.queue.push task = (true,
            { order := s.queue.order ++ [task], queued := task :: s.queue.queued }) :=
          if_neg fun there => old (List.contains_iff_mem.1 there)
        rw [pushed] at h
        cases h
        exact .queued task known old
    · cases h
  | look i =>
    rw [Exec.step] at h
    split at h
    · rename_i there
      split at h
      · rename_i draining
        cases h
        exact .sawDrain i draining
      · cases h
        exact .sawNone i (List.getElem?_eq_some_iff.1 there).1 .undrained
    · cases h
  | clone i =>
    rw [Exec.step] at h
    split at h
    · rename_i there
      split at h
      · cases h
        exact .sawNone i (List.getElem?_eq_some_iff.1 there).1 .holding
      · rename_i none_
        cases h
        exact .noDriver i (Bool.not_eq_true _ ▸ none_)
    · cases h
  | wakeDriver i =>
    rw [Exec.step] at h
    split at h
    · cases h
      exact .wokeDriver i
    · cases h
  | beginPoll =>
    rw [Exec.step] at h
    split at h
    · rename_i both
      cases h
      exact .beginPoll both.1 both.2
    · cases h
  | register =>
    rw [Exec.step] at h
    split at h
    · rename_i begun
      cases h
      exact .register begun
    · cases h
  | drain =>
    rw [Exec.step] at h
    split at h
    · rename_i may
      have may : s.free = true ∨ s.driving = .registered := by simpa using may
      split at h
      · rename_i draining
        cases h
        exact .refused draining may
      · rename_i draining
        cases h
        exact .drain may (Bool.not_eq_true _ ▸ draining)
    · cases h
  | next =>
    rw [Exec.step] at h
    split at h
    · rename_i outer here
      unfold Queue.pop at h
      cases first : s.queue.order with
      | nil =>
        rw [first] at h
        cases h
        exact .foundNone outer here first
      | cons task order =>
        rw [first] at h
        dsimp only at h
        split at h
        · rename_i inside
          cases h
          exact .found outer task order here first (List.contains_iff_mem.1 inside)
        · rename_i out
          cases h
          exact .absent outer task order here first fun inside => out (List.contains_iff_mem.2 inside)
    · cases h
  | pending =>
    rw [Exec.step] at h
    split at h
    · rename_i task outer here
      cases h
      exact .pending outer task here
    · cases h
  | ready =>
    rw [Exec.step] at h
    split at h
    · rename_i task outer here
      cases h
      exact .ended outer task here
    · cases h
  | panic =>
    rw [Exec.step] at h
    split at h
    · rename_i task outer here
      split at h
      · cases h
        exact .unwinds outer task here
      · cases h
        exact .ended outer task here
    · cases h
  | letGo =>
    rw [Exec.step] at h
    split at h
    · rename_i outer here
      cases h
      exact .letGo outer here
    · cases h
  | lastLook =>
    rw [Exec.step] at h
    split at h
    · rename_i outer here
      cases h
      split
      · rename_i none_
        exact .idle outer here (List.isEmpty_iff.1 none_)
      · exact .more outer here
    · cases h
  | again =>
    rw [Exec.step] at h
    split at h
    · rename_i outer here
      cases h
      exact .again outer here
    · cases h
  | leave =>
    rw [Exec.step] at h
    split at h
    · rename_i outer here
      cases h
      exact .leave outer here
    · cases h

/-! ## 4. One drain at a time -/

/-- What the flag is, as far as a drain is: a drain that leaves may have it or not. -/
def Frame.flag : Frame → Option Bool
  | looking | polling _ | lettingGo => some true
  | lastLook | again => some false
  | leaving => none

/-- One drain at most, the flag its own, and the driver's poll the one it is in. -/
structure Placed (s : Exec) : Prop where
  alone : s.drains.length ≤ 1
  down : s.drains = [] → s.draining = false ∧ s.driving ≠ .draining
  flag : ∀ f ∈ s.drains, ∀ b, f.flag = some b → s.draining = b
  left : s.began ∉ s.unwound → .leaving ∈ s.drains → s.draining = false
  driven : s.drains ≠ [] → s.driving = .away ∨ s.driving = .draining

theorem Placed.outer (h : Placed s) {f : Frame} {outer : List Frame} (here : s.drains = f :: outer) :
    outer = [] := by
  have few := h.alone
  rw [here, List.length_cons] at few
  exact List.length_eq_zero_iff.1 (by omega)

/-- No drain is begun but where none is. -/
theorem Placed.none_begun (h : Placed s) (may : s.free = true ∨ s.driving = .registered)
    (draining : s.draining = false) : s.drains = [] := by
  by_contra some_
  have driven := h.driven some_
  rcases may with free | registered
  · unfold Exec.free at free
    rw [Bool.or_eq_true, Bool.and_eq_true, List.isEmpty_iff] at free
    rcases free with ⟨none_, -⟩ | polls
    · exact some_ none_
    · obtain ⟨f, outer, here⟩ := List.exists_cons_of_ne_nil some_
      unfold Exec.polled at polls
      rw [here, List.head?_cons, Option.bind_some] at polls
      have holds : f.flag = some true := by
        cases f with
        | polling task => rfl
        | looking => cases polls
        | lettingGo => cases polls
        | lastLook => cases polls
        | again => cases polls
        | leaving => cases polls
      have flag := h.flag f (by rw [here]; exact List.mem_cons_self) true holds
      rw [draining] at flag
      cases flag
  · rw [registered] at driven
    rcases driven with driven | driven <;> cases driven

/-- The drain of the only frame goes on: as the flag and the driver's poll have it. -/
theorem Placed.goesOn (h : Placed s) {f g : Frame} {outer : List Frame}
    (here : s.drains = f :: outer) (at_ : s'.drains = g :: outer) (driving : s'.driving = s.driving)
    (flag : ∀ b, g.flag = some b → s'.draining = b)
    (left : s'.began ∉ s'.unwound → g = .leaving → s'.draining = false) : Placed s' := by
  have none_ := h.outer here
  subst none_
  have driven := h.driven (by rw [here]; exact List.cons_ne_nil _ _)
  refine ⟨?_, ?_, ?_, ?_, ?_⟩
  · rw [at_]
    exact Nat.le_refl 1
  · intro down
    rw [at_] at down
    cases down
  · intro f' one
    rw [at_, List.mem_singleton] at one
    rw [one]
    exact flag
  · intro kept one
    rw [at_, List.mem_singleton] at one
    exact left kept one.symm
  · intro _
    rw [driving]
    exact driven

/-- What moves no drain, and neither flag nor driver. -/
theorem Placed.aside (h : Placed s) (drains : s'.drains = s.drains) (draining : s'.draining = s.draining)
    (driving : s'.driving = s.driving) (began : s'.began = s.began)
    (unwound : s'.unwound = s.unwound) : Placed s' := by
  refine ⟨?_, ?_, ?_, ?_, ?_⟩
  · rw [drains]
    exact h.alone
  · rw [drains, draining, driving]
    exact h.down
  · rw [drains, draining]
    exact h.flag
  · rw [drains, draining, began, unwound]
    exact h.left
  · rw [drains, driving]
    exact h.driven

/-- **There is one drain at a time**, and the flag says whether it would see what is pushed. -/
theorem Placed.step (h : Placed s) (step : Stepped strict s s') : Placed s' := by
  have held : ∀ {f : Frame} {outer : List Frame}, s.drains = f :: outer →
      ∀ b, f.flag = some b → s.draining = b := by
    intro f outer here
    exact h.flag f (by rw [here]; exact List.mem_cons_self)
  cases step with
  | same => exact h
  | add | queued | sawDrain | sawNone | noDriver | wokeDriver | absent =>
    exact h.aside rfl rfl rfl rfl rfl
  | beginPoll alone away =>
    refine ⟨h.alone, fun down => ⟨(h.down down).1, fun same => by cases same⟩, h.flag, h.left,
      fun some_ => absurd alone some_⟩
  | register begun =>
    have none_ : s.drains = [] := by
      by_contra some_
      have driven := h.driven some_
      rw [begun] at driven
      rcases driven with driven | driven <;> cases driven
    exact ⟨h.alone, fun down => ⟨(h.down down).1, fun same => by cases same⟩, h.flag, h.left,
      fun some_ => absurd none_ some_⟩
  | refused draining may =>
    have some_ : s.drains ≠ [] := by
      intro none_
      rw [(h.down none_).1] at draining
      cases draining
    have driven := h.driven some_
    have still : (if s.driving = .registered then Driving.away else s.driving) = s.driving := by
      rcases driven with driven | driven <;> rw [driven] <;> rfl
    exact h.aside rfl rfl still rfl rfl
  | drain may draining =>
    have none_ := h.none_begun may draining
    refine ⟨?_, ?_, ?_, ?_, ?_⟩
    · rw [none_]
      exact Nat.le_refl 1
    · intro down
      cases down
    · intro f one
      rw [none_, List.mem_singleton] at one
      rw [one]
      rintro b ⟨⟩
      rfl
    · intro _ one
      rw [none_, List.mem_singleton] at one
      cases one
    · intro _
      rcases may with free | registered
      · have away : s.driving = .away := by
          unfold Exec.free Exec.polled at free
          rw [none_] at free
          simpa using free
        refine Or.inl ?_
        show (if s.driving = .registered then Driving.draining else s.driving) = .away
        rw [away]
        rfl
      · exact Or.inr (if_pos registered)
  | found outer task order here first inside =>
    exact h.goesOn here rfl rfl (fun b is => held here b is) (by rintro - ⟨⟩)
  | foundNone outer here none_ =>
    exact h.goesOn here rfl rfl (fun b is => held here b is) (by rintro - ⟨⟩)
  | pending outer task here =>
    exact h.goesOn here rfl rfl (fun b is => held here b is) (by rintro - ⟨⟩)
  | ended outer task here =>
    exact h.goesOn here rfl rfl (fun b is => held here b is) (by rintro - ⟨⟩)
  | unwinds outer task here =>
    refine h.goesOn here rfl rfl (by rintro b ⟨⟩) fun whole => ?_
    exact absurd (List.mem_append_right _ (List.mem_singleton_self _)) whole
  | letGo outer here => exact h.goesOn here rfl rfl (by rintro b ⟨⟩; rfl) (by rintro - ⟨⟩)
  | idle outer here none_ =>
    exact h.goesOn here rfl rfl (by rintro b ⟨⟩) fun _ _ => held here false rfl
  | more outer here =>
    exact h.goesOn here rfl rfl (fun b is => held here b is) (by rintro - ⟨⟩)
  | again outer here => exact h.goesOn here rfl rfl (by rintro b ⟨⟩; rfl) (by rintro - ⟨⟩)
  | leave outer here =>
    have none_ := h.outer here
    subst none_
    have driven := h.driven (by rw [here]; exact List.cons_ne_nil _ _)
    refine ⟨Nat.zero_le 1, fun _ => ⟨rfl, ?_⟩, fun f one => absurd one List.not_mem_nil,
      fun _ one => absurd one List.not_mem_nil, fun some_ => absurd rfl some_⟩
    intro same
    have same : (if [].isEmpty && s.driving == .draining then Driving.away else s.driving) =
      Driving.draining := same
    rcases driven with driven | driven
    · rw [driven] at same
      cases same
    · rw [driven] at same
      cases same

/-! ## 5. In the order it was woken, once for each entry -/

/-- The queue has each piece of work once, and all that was queued was taken, or is there still, in
    order. -/
structure Lined (s : Exec) : Prop where
  queued : ∀ task, task ∈ s.queue.queued ↔ task ∈ s.queue.order
  once : s.queue.order.Nodup
  known : ∀ task ∈ s.queue.order, task < s.next
  woken : s.woken = s.taken.map Taken.task ++ s.queue.order

theorem Lined.aside (h : Lined s) (queue : s'.queue = s.queue) (next : s.next ≤ s'.next)
    (woken : s'.woken = s.woken) (taken : s'.taken = s.taken) : Lined s' := by
  refine ⟨?_, ?_, ?_, ?_⟩
  · rw [queue]
    exact h.queued
  · rw [queue]
    exact h.once
  · intro task one
    rw [queue] at one
    exact Nat.lt_of_lt_of_le (h.known task one) next
  · rw [queue, woken, taken]
    exact h.woken

/-- An entry is taken. -/
theorem Lined.takes (h : Lined s) {task : Nat} {order : List Nat} (first : s.queue.order = task :: order)
    (queue : s'.queue = { order, queued := s.queue.queued.filter (· != task) })
    (next : s'.next = s.next) (woken : s'.woken = s.woken) {ended : Bool}
    (taken : s'.taken = s.taken ++ [⟨task, ended⟩]) : Lined s' := by
  have once := h.once
  rw [first, List.nodup_cons] at once
  refine ⟨?_, ?_, ?_, ?_⟩
  · intro other
    rw [queue, List.mem_filter, h.queued, first, List.mem_cons]
    constructor
    · rintro ⟨rfl | one, not_⟩
      · simp at not_
      · exact one
    · intro one
      refine ⟨Or.inr one, ?_⟩
      rw [bne_iff_ne]
      rintro rfl
      exact once.1 one
  · rw [queue]
    exact once.2
  · intro other one
    rw [queue] at one
    rw [next]
    exact h.known other (by rw [first]; exact List.mem_cons_of_mem _ one)
  · rw [woken, h.woken, taken, queue, first, List.map_append, List.append_assoc]
    rfl

/-- **Work is taken in the order it was first woken since it was taken last.** -/
theorem Lined.step (h : Lined s) (step : Stepped strict s s') : Lined s' := by
  cases step with
  | same => exact h
  | add => exact h.aside rfl (Nat.le_succ _) rfl rfl
  | queued task known new =>
    have new : task ∉ s.queue.order := fun one => new ((h.queued task).2 one)
    refine ⟨?_, ?_, ?_, ?_⟩
    · intro other
      show other ∈ task :: s.queue.queued ↔ other ∈ s.queue.order ++ [task]
      rw [List.mem_cons, List.mem_append, List.mem_singleton, h.queued, or_comm]
    · refine List.nodup_append.2 ⟨h.once, List.nodup_singleton task, ?_⟩
      rintro a one b other rfl
      rw [List.mem_singleton.1 other] at one
      exact new one
    · intro other one
      rcases List.mem_append.1 one with one | one
      · exact h.known other one
      · rw [List.mem_singleton.1 one]
        exact known
    · show s.woken ++ [task] = _ ++ (s.queue.order ++ [task])
      rw [h.woken, List.append_assoc]
  | found outer task order here first inside => exact h.takes first rfl rfl rfl rfl
  | absent outer task order here first out => exact h.takes first rfl rfl rfl rfl
  | _ => exact h.aside rfl (Nat.le_refl _) rfl rfl

/-- The table is all the work that has not ended, but what is polled; and what was taken was polled,
    but what had ended. -/
structure Worked (s : Exec) : Prop where
  ended : ∀ task ∈ s.ended, task < s.next
  table : ∀ task ∈ s.table, task < s.next ∧ task ∉ s.ended
  whole : ∀ task < s.next, task ∈ s.ended ∨ task ∈ s.table ∨ s.polled = some task
  out : ∀ task, s.polled = some task → task < s.next ∧ task ∉ s.ended ∧ task ∉ s.table
  polls : s.polls = (s.taken.filter fun entry => !entry.ended).map Taken.task
  told : ∀ entry ∈ s.taken, entry.ended = true → entry.task ∈ s.ended

theorem Exec.polled_eq {f : Frame} {outer : List Frame} (here : s.drains = f :: outer) :
    s.polled = f.task := by
  unfold Exec.polled
  rw [here, List.head?_cons, Option.bind_some]

theorem Worked.aside (h : Worked s) (polled : s'.polled = s.polled) (table : s'.table = s.table)
    (next : s'.next = s.next) (ended : s'.ended = s.ended) (polls : s'.polls = s.polls)
    (taken : s'.taken = s.taken) : Worked s' := by
  refine ⟨?_, ?_, ?_, ?_, ?_, ?_⟩
  · rw [ended, next]
    exact h.ended
  · rw [table, next, ended]
    exact h.table
  · rw [next, ended, table, polled]
    exact h.whole
  · rw [polled, next, ended, table]
    exact h.out
  · rw [polls, taken]
    exact h.polls
  · rw [taken, ended]
    exact h.told

/-- A poll that ends its work. -/
theorem Worked.ends (h : Worked s) {task : Nat} (was : s.polled = some task) (is : s'.polled = none)
    (table : s'.table = s.table) (next : s'.next = s.next) (ended : s'.ended = s.ended ++ [task])
    (polls : s'.polls = s.polls) (taken : s'.taken = s.taken) : Worked s' := by
  obtain ⟨known, not_, out⟩ := h.out task was
  refine ⟨?_, ?_, ?_, ?_, ?_, ?_⟩
  · intro other one
    rw [ended] at one
    rw [next]
    rcases List.mem_append.1 one with one | one
    · exact h.ended other one
    · rw [List.mem_singleton.1 one]
      exact known
  · intro other one
    rw [table] at one
    obtain ⟨known', not_'⟩ := h.table other one
    rw [next, ended]
    refine ⟨known', fun again => ?_⟩
    rcases List.mem_append.1 again with again | again
    · exact not_' again
    · rw [List.mem_singleton.1 again] at one
      exact out one
  · intro other known'
    rw [next] at known'
    rw [ended, table]
    rcases h.whole other known' with one | one | one
    · exact Or.inl (List.mem_append_left _ one)
    · exact Or.inr (Or.inl one)
    · rw [was] at one
      cases one
      exact Or.inl (List.mem_append_right _ (List.mem_singleton_self _))
  · intro other one
    rw [is] at one
    cases one
  · rw [polls, taken]
    exact h.polls
  · rw [taken, ended]
    exact fun entry one yes => List.mem_append_left _ (h.told entry one yes)

theorem Worked.takes_told (h : Worked s) {task : Nat} :
    ∀ entry ∈ s.taken ++ [⟨task, s.ended.contains task⟩], entry.ended = true →
      entry.task ∈ s.ended := by
  intro entry one yes
  rcases List.mem_append.1 one with one | one
  · exact h.told entry one yes
  · rw [List.mem_singleton.1 one] at yes ⊢
    exact List.contains_iff_mem.1 yes

/-- **What is taken is polled, once, but where it has ended.** -/
theorem Worked.step (h : Worked s) (lined : Lined s) (placed : Placed s)
    (step : Stepped strict s s') : Worked s' := by
  cases step with
  | same => exact h
  | add free =>
    have new : ∀ task, task ∈ s.ended ∨ s.polled = some task → task ≠ s.next := by
      rintro task (one | one) rfl
      · exact Nat.lt_irrefl _ (h.ended _ one)
      · exact Nat.lt_irrefl _ (h.out _ one).1
    refine ⟨fun task one => Nat.lt_succ_of_lt (h.ended task one), fun task one => ?_,
      fun task known => ?_, fun task one => ?_, h.polls, h.told⟩
    · rcases List.mem_append.1 one with one | one
      · obtain ⟨known, not_⟩ := h.table task one
        exact ⟨Nat.lt_succ_of_lt known, not_⟩
      · have same := List.mem_singleton.1 one
        exact ⟨by rw [same]; exact Nat.lt_succ_self _, fun over_ => new task (Or.inl over_) same⟩
    · rcases Nat.lt_succ_iff_lt_or_eq.1 known with known | same
      · rcases h.whole task known with one | one | one
        · exact Or.inl one
        · exact Or.inr (Or.inl (List.mem_append_left _ one))
        · exact Or.inr (Or.inr one)
      · exact Or.inr (Or.inl (List.mem_append_right _ (by rw [same]; exact List.mem_singleton_self _)))
    · obtain ⟨known, not_, out⟩ := h.out task one
      refine ⟨Nat.lt_succ_of_lt known, not_, fun one' => ?_⟩
      rcases List.mem_append.1 one' with one' | one'
      · exact out one'
      · exact new task (Or.inr one) (List.mem_singleton.1 one')
  | found outer task order here first inside =>
    obtain ⟨known, not_⟩ := h.table task inside
    have was : s.polled = none := Exec.polled_eq here
    refine ⟨h.ended, fun other one => ?_, fun other known' => ?_, fun other one => ?_, ?_,
      h.takes_told⟩
    · exact h.table other (List.mem_filter.1 one).1
    · rcases h.whole other known' with one | one | one
      · exact Or.inl one
      · by_cases same : other = task
        · exact Or.inr (Or.inr (congrArg some same.symm))
        · exact Or.inr (Or.inl (List.mem_filter.2 ⟨one, bne_iff_ne.2 same⟩))
      · rw [was] at one
        cases one
    · cases one
      exact ⟨known, not_, fun one => by simp at one⟩
    · show s.polls ++ [task] = _
      have new : s.ended.contains task = false := by
        simpa using not_
      rw [h.polls, List.filter_append, List.map_append, new]
      rfl
  | absent outer task order here first out =>
    have was : s.polled = none := Exec.polled_eq here
    have over_ : task ∈ s.ended := by
      rcases h.whole task (lined.known task (by rw [first]; exact List.mem_cons_self)) with
        one | one | one
      · exact one
      · exact absurd one out
      · rw [was] at one
        cases one
    refine ⟨h.ended, h.table, h.whole, h.out, ?_, h.takes_told⟩
    show s.polls = _
    rw [h.polls, List.filter_append, List.contains_iff_mem.2 over_, List.map_append]
    exact (List.append_nil _).symm
  | foundNone outer here none_ => exact h.aside (Exec.polled_eq here).symm rfl rfl rfl rfl rfl
  | pending outer task here =>
    have was : s.polled = some task := Exec.polled_eq here
    obtain ⟨known, not_, out⟩ := h.out task was
    refine ⟨h.ended, fun other one => ?_, fun other known' => ?_, fun other one => ?_, h.polls,
      h.told⟩
    · rcases List.mem_append.1 one with one | one
      · exact h.table other one
      · rw [List.mem_singleton.1 one]
        exact ⟨known, not_⟩
    · rcases h.whole other known' with one | one | one
      · exact Or.inl one
      · exact Or.inr (Or.inl (List.mem_append_left _ one))
      · rw [was] at one
        cases one
        exact Or.inr (Or.inl (List.mem_append_right _ (List.mem_singleton_self _)))
    · cases one
  | ended outer task here => exact h.ends (Exec.polled_eq here) rfl rfl rfl rfl rfl rfl
  | unwinds outer task here => exact h.ends (Exec.polled_eq here) rfl rfl rfl rfl rfl rfl
  | letGo outer here => exact h.aside (Exec.polled_eq here).symm rfl rfl rfl rfl rfl
  | idle outer here none_ => exact h.aside (Exec.polled_eq here).symm rfl rfl rfl rfl rfl
  | more outer here => exact h.aside (Exec.polled_eq here).symm rfl rfl rfl rfl rfl
  | again outer here => exact h.aside (Exec.polled_eq here).symm rfl rfl rfl rfl rfl
  | leave outer here =>
    have none_ := placed.outer here
    subst none_
    exact h.aside (Exec.polled_eq here).symm rfl rfl rfl rfl rfl
  | drain may draining =>
    have none_ := placed.none_begun may draining
    refine h.aside ?_ rfl rfl rfl rfl rfl
    unfold Exec.polled
    rw [none_]
    rfl
  | _ => exact h.aside rfl rfl rfl rfl rfl rfl

/-! ## 6. No wake is lost -/

/-- A drain runs that will look at the queue, or the driver's poll is on its way to one. -/
def Exec.WillLook (s : Exec) : Prop :=
  (∃ f ∈ s.drains, f ≠ .leaving) ∨ s.driving = .begun ∨ s.driving = .registered

/-- A wake is between its push and its look at the flag; or saw no drain, and is waking the driver. -/
def Exec.Waking (s : Exec) : Prop :=
  .pushed ∈ s.wakes ∨ .undrained ∈ s.wakes ∨ .holding ∈ s.wakes

theorem Exec.waking_iff : s.Waking ↔ s.wakes ≠ [] := by
  unfold Exec.Waking
  constructor
  · rintro (one | one | one) none_ <;> rw [none_] at one <;> cases one
  · intro some_
    obtain ⟨calling, rest, here⟩ := List.exists_cons_of_ne_nil some_
    rw [here]
    cases calling with
    | pushed => exact Or.inl List.mem_cons_self
    | undrained => exact Or.inr (Or.inl List.mem_cons_self)
    | holding => exact Or.inr (Or.inr List.mem_cons_self)

/-- Work that is woken is looked for. -/
def Exec.LookedFor (s : Exec) : Prop := s.WillLook ∨ s.Waking ∨ s.driverWoken = true

/-- It is, where a driver is registered, and no panic came out of the drain begun last. -/
def Exec.Kept (s : Exec) : Prop :=
  s.began ∉ s.unwound → s.driver = true → s.queue.order ≠ [] → s.LookedFor

/-- A drain that holds the flag will look at the queue again. -/
theorem Placed.willLook (h : Placed s) (whole : s.began ∉ s.unwound) (draining : s.draining = true) :
    s.WillLook := by
  by_cases none_ : s.drains = []
  · rw [(h.down none_).1] at draining
    cases draining
  · obtain ⟨f, outer, here⟩ := List.exists_cons_of_ne_nil none_
    have one : f ∈ s.drains := by rw [here]; exact List.mem_cons_self
    refine Or.inl ⟨f, one, ?_⟩
    rintro rfl
    rw [h.left whole one] at draining
    cases draining

/-- What a step keeps that neither takes a wake away, nor ends a drain or the driver's poll. -/
theorem Exec.LookedFor.aside (h : s.LookedFor) (drains : s'.drains = s.drains)
    (driving : s'.driving = s.driving) (wakes : s.wakes ≠ [] → s'.wakes ≠ [])
    (woken : s.driverWoken = true → s'.driverWoken = true) : s'.LookedFor := by
  rcases h with look | waking | woken_
  · unfold Exec.LookedFor Exec.WillLook
    rw [drains, driving]
    exact Or.inl look
  · exact Or.inr (Or.inl (Exec.waking_iff.2 (wakes (Exec.waking_iff.1 waking))))
  · exact Or.inr (Or.inr (woken woken_))

/-- A step of a drain that goes on to look at the queue. -/
theorem Exec.LookedFor.looks {f : Frame} {outer : List Frame} (here : s'.drains = f :: outer)
    (not_ : f ≠ .leaving) : s'.LookedFor :=
  Or.inl (Or.inl ⟨f, by rw [here]; exact List.mem_cons_self, not_⟩)

/-- **No wake is lost**: what a drain would see is left to it, and what it may not have seen wakes the
    driver, or is found by its last look. -/
theorem Exec.Kept.step (h : s.Kept) (placed : Placed s) (step : Stepped strict s s') : s'.Kept := by
  cases step with
  | same => exact h
  | add =>
    intro whole driver some_
    exact (h whole driver some_).aside rfl rfl id id
  | queued task known new =>
    intro _ _ _
    refine Or.inr (Or.inl (Exec.waking_iff.2 ?_))
    exact List.append_ne_nil_of_right_ne_nil _ (List.cons_ne_nil _ _)
  | sawDrain i draining =>
    intro whole _ _
    exact Or.inl (placed.willLook whole draining)
  | sawNone i there calling =>
    intro whole driver some_
    refine (h whole driver some_).aside rfl rfl (fun wakes none_ => ?_) id
    have length := congrArg List.length none_
    rw [List.length_set] at length
    exact wakes (List.length_eq_zero_iff.1 length)
  | noDriver i none_ =>
    intro _ driver
    have driver : s.driver = true := driver
    rw [none_] at driver
    cases driver
  | wokeDriver i => exact fun _ _ _ => Or.inr (Or.inr rfl)
  | beginPoll alone away => exact fun _ _ _ => Or.inl (Or.inr (Or.inl rfl))
  | register begun => exact fun _ _ _ => Or.inl (Or.inr (Or.inr rfl))
  | refused draining may =>
    intro whole _ _
    have placed' := @Placed.step strict s _ placed (.refused draining may)
    exact Or.inl (placed'.willLook whole draining)
  | drain may draining => exact fun _ _ _ => .looks rfl (fun same => by cases same)
  | found outer task order here first inside =>
    exact fun _ _ _ => .looks rfl (fun same => by cases same)
  | absent outer task order here first out =>
    exact fun _ _ _ => .looks here (fun same => by cases same)
  | foundNone outer here none_ => exact fun _ _ _ => .looks rfl (fun same => by cases same)
  | pending outer task here => exact fun _ _ _ => .looks rfl (fun same => by cases same)
  | ended outer task here => exact fun _ _ _ => .looks rfl (fun same => by cases same)
  | unwinds outer task here =>
    intro whole
    exact absurd (List.mem_append_right _ (List.mem_singleton_self _)) whole
  | letGo outer here => exact fun _ _ _ => .looks rfl (fun same => by cases same)
  | idle outer here none_ => exact fun _ _ some_ => absurd none_ some_
  | more outer here => exact fun _ _ _ => .looks rfl (fun same => by cases same)
  | again outer here => exact fun _ _ _ => .looks rfl (fun same => by cases same)
  | leave outer here =>
    intro whole driver some_
    have only := placed.outer here
    have driven := placed.driven (by rw [here]; exact List.cons_ne_nil _ _)
    rcases h whole driver some_ with (⟨f, one, not_⟩ | begun | registered) | waking | woken
    · rw [here, only, List.mem_singleton] at one
      exact absurd one not_
    · rw [begun] at driven
      rcases driven with driven | driven <;> cases driven
    · rw [registered] at driven
      rcases driven with driven | driven <;> cases driven
    · exact Or.inr (Or.inl waking)
    · exact Or.inr (Or.inr woken)

/-! ## 7. Runs -/

/-- What holds of an executor, whatever happened. -/
structure Sound (s : Exec) : Prop where
  placed : Placed s
  lined : Lined s
  worked : Worked s
  kept : s.Kept

theorem Sound.new : Sound {} where
  placed := ⟨Nat.zero_le 1, fun _ => ⟨rfl, fun same => by cases same⟩,
    fun _ one => absurd one List.not_mem_nil, fun _ one => absurd one List.not_mem_nil,
    fun some_ => absurd rfl some_⟩
  lined := ⟨fun _ => Iff.rfl, List.nodup_nil, fun _ one => absurd one List.not_mem_nil, rfl⟩
  worked := ⟨fun _ one => absurd one List.not_mem_nil, fun _ one => absurd one List.not_mem_nil,
    fun _ known => absurd known (Nat.not_lt_zero _), fun _ one => (by cases one), rfl,
    fun _ one => absurd one List.not_mem_nil⟩
  kept := fun _ _ some_ => absurd rfl some_

theorem Sound.step (h : Sound s) (step : Stepped strict s s') : Sound s' :=
  ⟨h.placed.step step, h.lined.step step, h.worked.step h.lined h.placed step,
    h.kept.step h.placed step⟩

/-- **The rule of runs**: what every step keeps, runs keep. -/
theorem Exec.Leads.keeps {P : Exec → Prop} (kept : ∀ {s s'}, P s → Stepped strict s s' → P s')
    (h : Exec.Leads strict s s') (start : P s) : P s' := by
  obtain ⟨acts, h⟩ := h
  induction acts generalizing s with
  | nil =>
    cases h
    exact start
  | cons act acts ih =>
    obtain ⟨t, one, rest⟩ := Option.bind_eq_some_iff.1 h
    exact ih (kept start (step_stepped one)) rest

/-- Since `asked`, an entry of the queue was taken, or is there for the drain that ran then. -/
def Pending (asked : Exec) (task : Nat) (s : Exec) : Prop :=
  ∃ more, s.taken = asked.taken ++ more ∧ (asked.began ∉ s.unwound →
    (∃ entry ∈ more, entry.task = task) ∨
      (task ∈ s.queue.order ∧ s.began = asked.began ∧ ∃ f ∈ s.drains, f ≠ .leaving))

section Pending

variable {asked : Exec} {task : Nat}

/-- What takes nothing, and begins and ends no drain. -/
theorem Pending.aside (h : Pending asked task s) (taken : s'.taken = s.taken)
    (unwound : s'.unwound = s.unwound) (began : s'.began = s.began)
    (goes : task ∈ s.queue.order → (∃ f ∈ s.drains, f ≠ .leaving) →
      task ∈ s'.queue.order ∧ ∃ f ∈ s'.drains, f ≠ .leaving) : Pending asked task s' := by
  obtain ⟨more, all, left⟩ := h
  refine ⟨more, taken.trans all, fun whole => ?_⟩
  rw [unwound] at whole
  rcases left whole with one | ⟨one, same, runs⟩
  · exact Or.inl one
  · exact Or.inr ⟨(goes one runs).1, began.trans same, (goes one runs).2⟩

/-- An entry is taken, this or another. -/
theorem Pending.takes (h : Pending asked task s) {other : Nat} {order : List Nat} {ended : Bool}
    (first : s.queue.order = other :: order) (queue : s'.queue.order = order)
    (taken : s'.taken = s.taken ++ [⟨other, ended⟩]) (unwound : s'.unwound = s.unwound)
    (began : s'.began = s.began) (runs : ∃ f ∈ s'.drains, f ≠ .leaving) :
    Pending asked task s' := by
  obtain ⟨more, all, left⟩ := h
  refine ⟨more ++ [⟨other, ended⟩], by rw [taken, all, List.append_assoc], fun whole => ?_⟩
  rw [unwound] at whole
  rcases left whole with ⟨entry, one, same⟩ | ⟨one, same, -⟩
  · exact Or.inl ⟨entry, List.mem_append_left _ one, same⟩
  · rw [first] at one
    rcases List.mem_cons.1 one with rfl | one
    · exact Or.inl ⟨_, List.mem_append_right _ (List.mem_singleton_self _), rfl⟩
    · rw [queue]
      exact Or.inr ⟨one, began.trans same, runs⟩

theorem Pending.step (h : Sound s ∧ Pending asked task s) (step : Stepped strict s s') :
    Sound s' ∧ Pending asked task s' := by
  obtain ⟨sound, h⟩ := h
  refine ⟨sound.step step, ?_⟩
  cases step with
  | found outer other order here first inside =>
    exact h.takes first rfl rfl rfl rfl ⟨_, List.mem_cons_self, fun same => by cases same⟩
  | absent outer other order here first out =>
    refine h.takes first rfl rfl rfl rfl ⟨.looking, ?_, fun same => by cases same⟩
    show Frame.looking ∈ s.drains
    rw [here]
    exact List.mem_cons_self
  | queued other known new =>
    exact h.aside rfl rfl rfl fun one runs => ⟨List.mem_append_left _ one, runs⟩
  | drain may draining =>
    -- the drain it waits for has returned
    obtain ⟨more, all, left⟩ := h
    refine ⟨more, all, fun whole => ?_⟩
    rcases left whole with one | ⟨-, -, f, inside, -⟩
    · exact Or.inl one
    · rw [sound.placed.none_begun may draining] at inside
      exact absurd inside List.not_mem_nil
  | foundNone outer here | pending outer _ here | ended outer _ here | letGo outer here
  | more outer here | again outer here =>
    exact h.aside rfl rfl rfl fun one _ => ⟨one, _, List.mem_cons_self, fun same => by cases same⟩
  | unwinds outer other here =>
    -- the panic comes out of the drain it waits for
    obtain ⟨more, all, left⟩ := h
    refine ⟨more, all, fun whole => ?_⟩
    rcases left (fun one => whole (List.mem_append_left _ one)) with one | ⟨-, same, -⟩
    · exact Or.inl one
    · refine absurd ?_ whole
      rw [← same]
      exact List.mem_append_right _ (List.mem_singleton_self _)
  | idle outer here none_ =>
    exact h.aside rfl rfl rfl fun one _ => absurd one (by rw [none_]; exact List.not_mem_nil)
  | leave outer here =>
    refine h.aside rfl rfl rfl fun _ runs => ?_
    obtain ⟨f, inside, not_⟩ := runs
    rw [here, sound.placed.outer here, List.mem_singleton] at inside
    exact absurd inside not_
  | _ => exact h.aside rfl rfl rfl fun one runs => ⟨one, runs⟩

end Pending

/-- **No wake is lost**, of any run, where a driver is registered and no panic came out of the drain
    begun last. And work is taken in the order it was queued, and is in the queue once; what is taken
    is polled, once, but where it has ended; and what is woken as it is polled is polled again, or has
    ended, before the drain that polls it returns, but where a panic comes out of it. -/
theorem no_wake_lost (h : Exec.Leads strict {} s) :
    (s.began ∉ s.unwound → s.driver = true → s.queue.order ≠ [] →
      s.WillLook ∨ s.Waking ∨ s.driverWoken = true) ∧
    (s.woken = s.taken.map Taken.task ++ s.queue.order ∧ s.queue.order.Nodup) ∧
    s.polls = (s.taken.filter fun entry => !entry.ended).map Taken.task ∧
    ∀ (task : Nat) (s' : Exec), s.polled = some task → task ∈ s.queue.order →
      Exec.Leads strict s s' → s'.drains = [] → s.began ∉ s'.unwound →
      ∃ more, s'.polls = s.polls ++ more ∧ (task ∈ more ∨ task ∈ s'.ended) := by
  have sound : Sound s := h.keeps Sound.step Sound.new
  refine ⟨sound.kept, ⟨sound.lined.woken, sound.lined.once⟩, sound.worked.polls, ?_⟩
  intro task s' polled one leads returned whole
  have runs : ∃ f ∈ s.drains, f ≠ .leaving := by
    unfold Exec.polled at polled
    cases here : s.drains with
    | nil =>
      rw [here] at polled
      cases polled
    | cons f outer =>
      rw [here] at polled
      refine ⟨f, List.mem_cons_self, ?_⟩
      rintro rfl
      cases polled
  have start : Sound s ∧ Pending s task s :=
    ⟨sound, [], (List.append_nil _).symm, fun _ => Or.inr ⟨one, rfl, runs⟩⟩
  obtain ⟨sound', more, taken, left⟩ := leads.keeps Pending.step start
  rcases left whole with ⟨entry, inside, rfl⟩ | ⟨-, -, f, inside, -⟩
  · refine ⟨(more.filter fun entry => !entry.ended).map Taken.task, ?_, ?_⟩
    · rw [sound'.worked.polls, taken, sound.worked.polls, List.filter_append, List.map_append]
    · cases ended : entry.ended with
      | true =>
        refine Or.inr (sound'.worked.told entry ?_ ended)
        rw [taken]
        exact List.mem_append_right _ inside
      | false =>
        refine Or.inl (List.mem_map_of_mem (List.mem_filter.2 ⟨inside, ?_⟩))
        rw [ended]
        rfl
  · rw [returned] at inside
    cases inside

/-- The executor after some steps. -/
def after (strict : Bool) (acts : List Act) : Exec := (Exec.runs strict {} acts).getD {}

/-- The driver drains, two pieces of work are woken, and the first panics in its next drain. -/
def unwinding : List Act :=
  [.add, .add, .beginPoll, .register, .drain, .next, .letGo, .lastLook, .leave,
    .push 0, .look 0, .clone 0, .wakeDriver 0, .push 1, .look 0, .clone 0, .wakeDriver 0,
    .beginPoll, .register, .drain, .next, .panic, .leave]

/-- The second is polled by the drain after that, and is woken meanwhile. -/
def wokenAgain : List Act := unwinding ++ [.drain, .next, .push 1]

/-- That drain polls it again, and returns. -/
def polledAgain : List Act := [.look 0, .pending, .next, .ready, .next, .letGo, .lastLook, .leave]

/-- The executor as work is woken that it polls, after a panic came out of the drain before. -/
abbrev asWoken : Exec := after true wokenAgain

theorem no_wake_lost_wokenAgain :
    (asWoken.unwound = [2] ∧ asWoken.queue.order = [1] ∧
      (asWoken.WillLook ∨ asWoken.Waking ∨ asWoken.driverWoken = true)) ∧
    (asWoken.woken = asWoken.taken.map Taken.task ++ asWoken.queue.order ∧
      asWoken.queue.order.Nodup) ∧
    asWoken.polls = (asWoken.taken.filter fun entry => !entry.ended).map Taken.task ∧
    ∃ more, (after true (wokenAgain ++ polledAgain)).polls = asWoken.polls ++ more ∧
      (1 ∈ more ∨ 1 ∈ (after true (wokenAgain ++ polledAgain)).ended) := by
  obtain ⟨looked, lined, polls, again⟩ :=
    no_wake_lost (⟨wokenAgain, by decide⟩ : Exec.Leads true {} asWoken)
  refine ⟨⟨by decide, by decide, looked (by decide) (by decide) (by decide)⟩, lined, polls, ?_⟩
  exact again 1 _ (by decide) (by decide) ⟨polledAgain, by decide⟩ (by decide) (by decide)

/-- Work taken in and woken, where nobody drives. -/
def undriven : List Act := [.add, .push 0, .look 0, .clone 0]

theorem undriven_leads : Exec.Leads false {} (after false undriven) :=
  ⟨undriven, by decide⟩

instance (s : Exec) : Decidable s.WillLook :=
  inferInstanceAs (Decidable ((∃ f ∈ s.drains, f ≠ .leaving) ∨ s.driving = .begun ∨
    s.driving = .registered))

instance (s : Exec) : Decidable s.Waking :=
  inferInstanceAs (Decidable (.pushed ∈ s.wakes ∨ .undrained ∈ s.wakes ∨ .holding ∈ s.wakes))

/-- With no driver registered, or after a panic came out of the drain begun last, work that is woken
    may wait for the next call of `drain`. -/
theorem wakes_left :
    (¬ ∀ s, Exec.Leads false {} s → s.queue.order ≠ [] →
      s.WillLook ∨ s.Waking ∨ s.driverWoken = true) ∧
    ¬ ∀ s, Exec.Leads true {} s → s.driver = true → s.queue.order ≠ [] →
      s.WillLook ∨ s.Waking ∨ s.driverWoken = true := by
  constructor
  · intro h
    have looked := h _ undriven_leads (by decide)
    revert looked
    decide
  · intro h
    have looked := h (after true unwinding) ⟨unwinding, by decide⟩ (by decide) (by decide)
    revert looked
    decide

end Executor
end Engine
end ConsensFlow
