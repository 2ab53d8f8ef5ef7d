/-
  File:      ConsensFlow/Panes/Teardown.lean
  Subject:   NO PANE BESIDE AN UPDATE (`cf-panes`, `pty.rs` and `pty/close.rs`): the pane table, its
             panes being torn down, and the permit to install an update.

  * `Table`, `Pc`, `Pc.move` -- what the threads share, and where each one is in an open, a close, a
    pane's end or an update: one atomic access a move;
  * `World`, `Step`, `Reachable` -- any number of threads, any interleaving;
  * `Sound` -- what the lock, the permit and the two counts say of the threads, and where each pane
    is;
  * **`update_alone`** -- while a permit is held nothing else is there; a pane that left the table
    is counted before its lock goes and resolved once; and an unproven end refuses updates for good.
-/
import ConsensFlow.Panes.Input

namespace ConsensFlow
namespace Panes

/-! ## 1. What the threads share -/

/-- The windows killed before their open reached the table that are kept. -/
def cancelledKept : Nat := 256

/-- The pane table, and its counts. A pane has a number of its own, being another pane where its key
    opens again. -/
structure Table where
  panes : List (PaneKey × Nat)
  cancelled : List PaneKey
  locked : Bool
  /-- A thread panicked holding the lock: every operation that takes it fails from then on. -/
  poisoned : Bool
  updating : Bool
  finishing : Nat
  unconfirmed : Nat
  /-- How many panes were opened. -/
  opened : Nat
  /-- The panes whose end was resolved. -/
  resolved : List Nat
  deriving DecidableEq, Repr

namespace Table

/-- `PaneTable::new`. -/
def new : Table where
  panes := []
  cancelled := []
  locked := false
  poisoned := false
  updating := false
  finishing := 0
  unconfirmed := 0
  opened := 0
  resolved := []

/-- `cancel`: a window closed before its open reached the table. -/
def cancel (t : Table) (key : PaneKey) : Table :=
  if key ∈ t.cancelled then t
  else
    { t with
      cancelled := (if t.cancelled.length = cancelledKept then t.cancelled.tail else t.cancelled)
        ++ [key] }

def lock (t : Table) : Table := { t with locked := true }
def unlock (t : Table) : Table := { t with locked := false }

end Table

/-- How a pane leaves the table. -/
inductive Way where
  /-- `kill` and `reap`. -/
  | close
  /-- `kill_detached`. -/
  | detached
  /-- `retire_exited`. -/
  | retire
  deriving DecidableEq, Repr

/-- Why an operation on the table is refused. -/
inductive TableError where
  | lockPoisoned
  | updateBlocked
  | updating
  | alreadyOpen (key : PaneKey)
  | cancelled (key : PaneKey)
  /-- A close before this one is ending the window's programs still. -/
  | ending (key : PaneKey)
  | io
  deriving DecidableEq, Repr

/-- What the system answers a thread: yes, no, or an error. -/
inductive Outcome where
  | yes
  | no
  | error
  deriving DecidableEq, Repr

/-! ## 2. A thread -/

/-- Where a thread is: what it does next. -/
inductive Pc where
  /-- `open_at`: takes the lock; reads `updating`; makes the pane and puts it; lets the lock go. -/
  | opening (key : PaneKey)
  | openLocked (key : PaneKey)
  | openChecked (key : PaneKey)
  | openPut
  /-- `begin_update`: takes the lock; reads `finishing`, then `unconfirmed`; looks at the table;
      swaps `updating`; lets the lock go. -/
  | update
  | updateLocked
  | updateCounted (finishing : Nat)
  | updateRead (finishing unconfirmed : Nat)
  | updateSwap
  | updateSwapped
  /-- An `UpdatePermit` held: its drop is next. -/
  | permit
  /-- A close: takes the lock; takes the pane out; counts it; lets the lock go. -/
  | closing (key : PaneKey) (way : Way)
  | closeLocked (key : PaneKey) (way : Way)
  | removed (pane : Nat) (way : Way)
  | counted (pane : Nat) (way : Way)
  /-- A close of a window that left the table: waits for the end a close before it makes. -/
  | awaiting (key : PaneKey)
  /-- `retire_exited`, of a window whose program runs: looks again, until its time is over. -/
  | lookingAgain (key : PaneKey)
  /-- `kill_detached` starts the thread that ends the pane. -/
  | detaching (pane : Nat)
  /-- `end_pane`: reads whether a write is in progress; ends the programs, waiting for the exit or
      not; starts the reaper. -/
  | ending (pane : Nat)
  | terminate (pane : Nat)
  | terminateDetached (pane : Nat)
  | startReaper (pane : Nat)
  | reaping (pane : Nat)
  /-- `resolve`: raises `unconfirmed` where the end is unproven; lowers `finishing`. -/
  | raising (pane : Nat)
  | lowering (pane : Nat) (gone : Bool)
  | answered (answer : Except TableError Unit)
  deriving DecidableEq

namespace Pc

/-- The lock is let go of, and the operation answers. -/
def leave (table : Table) (answer : Except TableError Unit) : Option (Table × List Pc) :=
  some (table.unlock, [answered answer])

/-- Takes the table's lock, where no thread holds it. -/
def lockPanes (table : Table) (next : Pc) : Option (Table × List Pc) :=
  if table.locked then none
  else if table.poisoned then some (table, [answered (.error .lockPoisoned)])
  else some (table.lock, [next])

/-- `Teardown::resolve`. -/
def resolve (pane : Nat) (gone : Bool) : Pc := if gone then lowering pane true else raising pane

/-- One move of a thread, given what the system answers it: what the table is then, and the thread
    where it is then, with the thread it started. None where it waits for the lock. -/
def move (pc : Pc) (outcome : Outcome) (table : Table) : Option (Table × List Pc) :=
  match pc with
  | opening key => lockPanes table (openLocked key)
  | openLocked key =>
    if table.updating then leave table (.error .updating) else some (table, [openChecked key])
  | openChecked key =>
    if table.panes.any (fun pane => pane.1 = key) then leave table (.error (.alreadyOpen key))
    else if key ∈ table.cancelled then
      leave { table with cancelled := table.cancelled.erase key } (.error (.cancelled key))
    else match outcome with
      | .yes | .no =>
        some ({ table with
          panes := (key, table.opened) :: table.panes, opened := table.opened + 1 }, [openPut])
      | .error => leave table (.error .io)
  | openPut => leave table (.ok ())
  | update => lockPanes table updateLocked
  | updateLocked => some (table, [updateCounted table.finishing])
  | updateCounted finishing => some (table, [updateRead finishing table.unconfirmed])
  | updateRead finishing unconfirmed =>
    if !table.panes.isEmpty || finishing != 0 || unconfirmed != 0 then
      leave table (.error .updateBlocked)
    else some (table, [updateSwap])
  | updateSwap =>
    if table.updating then leave table (.error .updating)
    else some ({ table with updating := true }, [updateSwapped])
  | updateSwapped => some (table.unlock, [permit])
  | permit => some ({ table with updating := false }, [answered (.ok ())])
  | closing key way => lockPanes table (closeLocked key way)
  | closeLocked key way =>
    match table.panes.find? (fun pane => pane.1 = key), way, outcome with
    | none, .close, _ => some ((table.cancel key).unlock, [awaiting key])
    | none, _, _ => leave table (.ok ())
    | some _, .retire, .no => some (table.unlock, [lookingAgain key])
    | some _, .retire, .error => leave table (.error .io)
    | some pane, way, _ =>
      some ({ table with panes := table.panes.erase pane }, [removed pane.2 way])
  | awaiting key =>
    match outcome with
    | .yes => some (table, [answered (.ok ())])
    | _ => some (table, [answered (.error (.ending key))])
  | lookingAgain key =>
    match outcome with
    | .yes => some (table, [closing key .retire])
    | _ => some (table, [answered (.ok ())])
  | removed pane way => some ({ table with finishing := table.finishing + 1 }, [counted pane way])
  | counted pane .detached => some (table.unlock, [detaching pane])
  | counted pane _ => some (table.unlock, [ending pane])
  | detaching pane =>
    match outcome with
    | .error => some (table, [resolve pane false])
    | .yes | .no => some (table, [answered (.ok ()), ending pane])
  | ending pane =>
    match outcome with
    | .yes => some (table, [terminateDetached pane])
    | _ => some (table, [terminate pane])
  | terminate pane =>
    match outcome with
    | .yes => some (table, [resolve pane true])
    | _ => some (table, [resolve pane false])
  | terminateDetached pane =>
    match outcome with
    | .yes => some (table, [resolve pane true])
    | .no => some (table, [startReaper pane])
    | _ => some (table, [resolve pane false])
  | startReaper pane =>
    match outcome with
    | .error => some (table, [resolve pane false])
    | .yes | .no => some (table, [answered (.ok ()), reaping pane])
  | reaping pane =>
    match outcome with
    | .yes => some (table, [resolve pane true])
    | _ => some (table, [resolve pane false])
  | raising pane => some ({ table with unconfirmed := table.unconfirmed + 1 }, [lowering pane false])
  | lowering pane gone =>
    some ({ table with
      finishing := table.finishing - 1, resolved := table.resolved ++ [pane] },
      [answered (if gone then .ok () else .error .io)])
  | answered _ => none

end Pc
/-! ## 3. Any number of threads -/

/-- What a caller asks of the table. -/
inductive Request where
  | open_ (key : PaneKey)
  | close (key : PaneKey) (way : Way)
  | beginUpdate
  deriving DecidableEq, Repr

def Request.start : Request → Pc
  | open_ key => .opening key
  | close key way => .closing key way
  | beginUpdate => .update

structure World where
  table : Table
  threads : List Pc

def World.new : World := ⟨.new, []⟩

/-- One step of the world: a thread begins what was asked, or makes its next move; or another
    operation on the table panics holding its lock. -/
inductive Step : World → World → Prop
  | call (w : World) (request : Request) :
      Step w { w with threads := request.start :: w.threads }
  | move {table table' : Table} {before after moved : List Pc} {pc : Pc} (outcome : Outcome)
      (moves : pc.move outcome table = some (table', moved)) :
      Step ⟨table, before ++ pc :: after⟩ ⟨table', before ++ moved ++ after⟩
  | poison (w : World) (free : w.table.locked = false) :
      Step w { w with table := { w.table with poisoned := true } }

/-- What any interleaving of any threads reaches. -/
abbrev Reachable (w : World) : Prop := Relation.ReflTransGen Step World.new w

/-! ## 4. What the counts say of the threads -/

namespace Pc

/-- Whether a thread holds the table's lock. -/
def holdsLock : Pc → Bool
  | openLocked _ | openChecked _ | openPut | updateLocked | updateCounted _ | updateRead _ _
  | updateSwap | updateSwapped | closeLocked _ _ | removed _ _ | counted _ _ => true
  | _ => false

/-- Whether a thread holds the permit, or is about to return it. -/
def holdsPermit : Pc → Bool
  | updateSwapped | permit => true
  | _ => false

/-- Whether a thread has a pane whose teardown is counted and not resolved. -/
def isCounted : Pc → Bool
  | counted _ _ | detaching _ | ending _ | terminate _ | terminateDetached _ | startReaper _
  | reaping _ | raising _ | lowering _ _ => true
  | _ => false

/-- Whether a thread found a pane's end unproven, and has not said so. -/
def doubts : Pc → Bool
  | raising _ => true
  | _ => false

/-- The pane a thread took out of the table and has not resolved. -/
def hand : Pc → List Nat
  | removed pane _ | counted pane _ | detaching pane | ending pane | terminate pane
  | terminateDetached pane | startReaper pane | reaping pane | raising pane | lowering pane _ =>
    [pane]
  | _ => []

/-- What a thread knows of the table while it holds the lock. -/
def Knows (table : Table) : Pc → Prop
  | openChecked _ | openPut | removed _ _ => table.updating = false
  | updateCounted finishing => finishing = 0 → table.finishing = 0
  | updateRead finishing unconfirmed =>
    finishing = 0 → table.finishing = 0 ∧ table.unconfirmed = unconfirmed
  | updateSwap => table.panes = [] ∧ table.finishing = 0 ∧ table.unconfirmed = 0
  | _ => True

section Parts

variable (pane : Nat) (gone : Bool) (answer : Except TableError Unit)

@[simp] theorem answered_holdsLock : (answered answer).holdsLock = false := rfl
@[simp] theorem answered_holdsPermit : (answered answer).holdsPermit = false := rfl
@[simp] theorem answered_isCounted : (answered answer).isCounted = false := rfl
@[simp] theorem answered_hand : (answered answer).hand = [] := rfl

@[simp] theorem resolve_holdsLock : (resolve pane gone).holdsLock = false := by cases gone <;> rfl
@[simp] theorem resolve_holdsPermit : (resolve pane gone).holdsPermit = false := by
  cases gone <;> rfl
@[simp] theorem resolve_isCounted : (resolve pane gone).isCounted = true := by cases gone <;> rfl
@[simp] theorem resolve_hand : (resolve pane gone).hand = [pane] := by cases gone <;> rfl

end Parts

theorem sure_of_holdsLock {pc : Pc} (h : pc.holdsLock = true) : pc.doubts = false := by
  cases pc <;> first | rfl | cases h

theorem Knows.of_unlocked {table : Table} {pc : Pc} (h : pc.holdsLock = false) :
    pc.Knows table := by
  cases pc <;> trivial

end Pc

/-- **What every interleaving keeps.** -/
structure Sound (w : World) : Prop where
  lock : w.threads.countP Pc.holdsLock = w.table.locked.toNat
  permit : w.threads.countP Pc.holdsPermit = w.table.updating.toNat
  finishing : w.table.finishing = w.threads.countP Pc.isCounted
  /-- While an update is on, the table is empty and no teardown is unfinished or unconfirmed. -/
  alone : w.table.updating = true →
    w.table.panes = [] ∧ w.table.finishing = 0 ∧ w.table.unconfirmed = 0
  knows : ∀ pc ∈ w.threads, pc.Knows w.table
  /-- Every pane opened is in the table, in one thread's hand, or resolved once. -/
  owned : ∀ n, w.table.panes.countP (·.2 = n) + (w.threads.flatMap Pc.hand).count n +
    w.table.resolved.count n = if n < w.table.opened then 1 else 0

theorem Sound.new : Sound World.new where
  lock := rfl
  permit := rfl
  finishing := rfl
  alone h := by cases h
  knows _ h := by cases h
  owned _ := rfl

/-! ## 5. One move -/

/-- **What one move does to the counts**: its thread's part of each goes over to the threads it
    leaves, as the table's own changes. -/
structure Moves (table table' : Table) (pc : Pc) (moved : List Pc) : Prop where
  lock : moved.countP Pc.holdsLock + table.locked.toNat = pc.holdsLock.toNat + table'.locked.toNat
  permit : moved.countP Pc.holdsPermit + table.updating.toNat =
    pc.holdsPermit.toNat + table'.updating.toNat
  finishing : moved.countP Pc.isCounted + table.finishing = pc.isCounted.toNat + table'.finishing
  alone : table'.updating = true →
    table'.panes = [] ∧ table'.finishing = 0 ∧ table'.unconfirmed = 0
  doubt : pc.doubts.toNat + table.unconfirmed ≤ moved.countP Pc.doubts + table'.unconfirmed
  knows : ∀ pc' ∈ moved, pc'.Knows table'
  others : pc.holdsLock = false → ∀ other : Pc, other.Knows table → other.Knows table'
  owned : ∀ n, table'.panes.countP (·.2 = n) + (moved.flatMap Pc.hand).count n +
      table'.resolved.count n + (if n < table.opened then 1 else 0) =
    table.panes.countP (·.2 = n) + pc.hand.count n + table.resolved.count n +
      if n < table'.opened then 1 else 0

/-- What a thread's place says of the table, as every interleaving keeps it. -/
structure Placed (table : Table) (pc : Pc) : Prop where
  lock : pc.holdsLock = true → table.locked = true
  permit : pc.holdsPermit = true → table.updating = true
  finishing : pc.isCounted = true → 0 < table.finishing
  alone : table.updating = true →
    table.panes = [] ∧ table.finishing = 0 ∧ table.unconfirmed = 0
  knows : pc.Knows table

variable {table table' : Table} {pc pc' : Pc} {moved : List Pc}

/-- A move that leaves the table alone, and the thread's part of each count. -/
theorem Placed.stays (h : Placed table pc)
    (lock : moved.countP Pc.holdsLock = pc.holdsLock.toNat)
    (permit : moved.countP Pc.holdsPermit = pc.holdsPermit.toNat)
    (counted : moved.countP Pc.isCounted = pc.isCounted.toNat)
    (hand : moved.flatMap Pc.hand = pc.hand) (sure : pc.doubts = false)
    (knows : ∀ pc' ∈ moved, pc'.Knows table) : Moves table table pc moved where
  lock := by rw [lock]
  permit := by rw [permit]
  finishing := by rw [counted]
  alone := h.alone
  doubt := by simp [sure]
  knows := knows
  others _ _ known := known
  owned n := by rw [hand]

/-- A thread lets go of the lock. -/
theorem Placed.unlocks (h : Placed table pc) (cancelled : List PaneKey)
    (holds : pc.holdsLock = true) (free : pc'.holdsLock = false)
    (permit : pc'.holdsPermit = pc.holdsPermit) (counted : pc'.isCounted = pc.isCounted)
    (hand : pc'.hand = pc.hand) :
    Moves table { table with cancelled := cancelled, locked := false } pc [pc'] where
  lock := by simp [free, holds, h.lock holds]
  permit := by simp [List.countP_cons, permit, Bool.toNat, Bool.cond_eq_ite]
  finishing := by simp [List.countP_cons, counted, Bool.toNat, Bool.cond_eq_ite]
  alone := h.alone
  doubt := by simp [Pc.sure_of_holdsLock holds]
  knows _ known := by
    rw [List.mem_singleton.mp known]
    exact .of_unlocked free
  others free' := by rw [holds] at free'; cases free'
  owned n := by simp [hand]

/-- A thread that left the table's lock with an answer has no part in any count. -/
theorem Placed.leaves (h : Placed table pc) (cancelled : List PaneKey)
    (holds : pc.holdsLock = true) (permit : pc.holdsPermit = false)
    (counted : pc.isCounted = false) (hand : pc.hand = []) {answer : Except TableError Unit}
    (moves : Pc.leave { table with cancelled := cancelled } answer = some (table', moved)) :
    Moves table table' pc moved := by
  cases moves
  exact h.unlocks cancelled holds rfl permit.symm counted.symm hand.symm

/-- A thread takes the lock, or finds it poisoned. -/
theorem Placed.locks (h : Placed table pc) (next : Pc)
    (moves : Pc.lockPanes table next = some (table', moved)) (out : pc.holdsLock = false)
    (noPermit : pc.holdsPermit = false) (notCounted : pc.isCounted = false) (empty : pc.hand = [])
    (holds : next.holdsLock = true) (permit : next.holdsPermit = false)
    (counted : next.isCounted = false) (hand : next.hand = []) (sure : pc.doubts = false)
    (knows : next.Knows table.lock) : Moves table table' pc moved := by
  unfold Pc.lockPanes at moves
  split at moves
  · cases moves
  rename_i free
  split at moves
  · cases moves
    refine h.stays ?_ ?_ ?_ ?_ sure fun _ known => ?_
    · simp [out]
    · simp [noPermit]
    · simp [notCounted]
    · simp [empty]
    · rw [List.mem_singleton.mp known]
      exact .of_unlocked rfl
  · cases moves
    constructor
    · simp [out, holds, Table.lock, free]
    · simp [noPermit, permit, Table.lock]
    · simp [notCounted, counted, Table.lock]
    · exact h.alone
    · simp [sure, Table.lock]
    · intro _ known
      rw [List.mem_singleton.mp known]
      exact knows
    · intro _ other known
      cases other <;> exact known
    · intro n
      rw [List.flatMap_cons, hand, empty]
      rfl

/-- A thread that goes on with a pane in hand. -/
theorem Placed.goesOn (h : Placed table pc) (next : Pc) (out : pc.holdsLock = false)
    (noPermit : pc.holdsPermit = false) (counted : pc.isCounted = true)
    (free : next.holdsLock = false) (permit : next.holdsPermit = false)
    (counted' : next.isCounted = true) (hand : next.hand = pc.hand) (sure : pc.doubts = false) :
    Moves table table pc [next] := by
  refine h.stays ?_ ?_ ?_ ?_ sure fun _ known => ?_
  · simp [out, free]
  · simp [noPermit, permit]
  · simp [counted, counted']
  · simp [hand]
  · rw [List.mem_singleton.mp known]
    exact .of_unlocked free

/-- A thread that hands the pane to a thread it started. -/
theorem Placed.handsOn (h : Placed table pc) (next : Pc) (answer : Except TableError Unit)
    (out : pc.holdsLock = false) (noPermit : pc.holdsPermit = false)
    (counted : pc.isCounted = true) (free : next.holdsLock = false)
    (permit : next.holdsPermit = false) (counted' : next.isCounted = true)
    (hand : next.hand = pc.hand) (sure : pc.doubts = false) :
    Moves table table pc [.answered answer, next] := by
  refine h.stays ?_ ?_ ?_ ?_ sure fun _ known => ?_
  · simp [out, free]
  · simp [noPermit, permit]
  · simp [counted, counted']
  · simp [hand]
  · rcases List.mem_cons.mp known with rfl | known
    · exact .of_unlocked rfl
    · rw [List.mem_singleton.mp known]
      exact .of_unlocked free

/-- A thread with no part in any count goes on outside the lock. -/
theorem Placed.idles (h : Placed table pc) (next : Pc) (out : pc.holdsLock = false)
    (noPermit : pc.holdsPermit = false) (notCounted : pc.isCounted = false) (empty : pc.hand = [])
    (free : next.holdsLock = false) (permit : next.holdsPermit = false)
    (counted : next.isCounted = false) (hand : next.hand = []) (sure : pc.doubts = false) :
    Moves table table pc [next] := by
  refine h.stays ?_ ?_ ?_ ?_ sure fun _ known => ?_
  · simp [out, free]
  · simp [noPermit, permit]
  · simp [notCounted, counted]
  · simp [empty, hand]
  · rw [List.mem_singleton.mp known]
    exact .of_unlocked free

/-- A thread that holds the lock reads on. -/
theorem Placed.reads (h : Placed table pc) (next : Pc) (holds : pc.holdsLock = true)
    (noPermit : pc.holdsPermit = false) (notCounted : pc.isCounted = false) (empty : pc.hand = [])
    (keeps : next.holdsLock = true) (permit : next.holdsPermit = false)
    (counted : next.isCounted = false) (hand : next.hand = []) (knows : next.Knows table) :
    Moves table table pc [next] := by
  refine h.stays ?_ ?_ ?_ ?_ (Pc.sure_of_holdsLock holds) fun _ known => ?_
  · simp [holds, keeps]
  · simp [noPermit, permit]
  · simp [notCounted, counted]
  · simp [empty, hand]
  · rw [List.mem_singleton.mp known]
    exact knows

/-- The open of a window puts its pane. -/
theorem Placed.puts {key : PaneKey} (h : Placed table (.openChecked key)) :
    Moves table { table with
      panes := (key, table.opened) :: table.panes, opened := table.opened + 1 }
      (.openChecked key) [.openPut] where
  lock := by simp [Pc.holdsLock]
  permit := by simp [Pc.holdsPermit]
  finishing := by simp [Pc.isCounted]
  alone on := by
    have off : table.updating = false := h.knows
    simp [off] at on
  doubt := by simp [Pc.doubts]
  knows _ known := by
    rw [List.mem_singleton.mp known]
    exact h.knows
  others free := by cases free
  owned n := by
    simp only [List.countP_cons, Pc.hand, List.flatMap_cons, List.flatMap_nil, List.append_nil,
      List.count_nil]
    grind

/-- A pane leaves the table. -/
theorem Placed.removes {key : PaneKey} {way : Way} (h : Placed table (.closeLocked key way))
    {pane : PaneKey × Nat} (found : pane ∈ table.panes) :
    Moves table { table with panes := table.panes.erase pane } (.closeLocked key way)
      [.removed pane.2 way] where
  lock := by simp [Pc.holdsLock]
  permit := by simp [Pc.holdsPermit]
  finishing := by simp [Pc.isCounted]
  alone on := by
    have empty := (h.alone on).1
    rw [empty] at found
    cases found
  doubt := by simp [Pc.doubts]
  knows _ known := by
    rw [List.mem_singleton.mp known]
    show table.updating = false
    by_contra on
    have empty := (h.alone (by simpa using on)).1
    rw [empty] at found
    cases found
  others free := by cases free
  owned n := by
    have out := (List.perm_cons_erase found).countP_eq (fun pane => decide (pane.2 = n))
    rw [List.countP_cons] at out
    simp only [Pc.hand, List.flatMap_cons, List.flatMap_nil, List.append_nil, List.count_nil,
      List.count_cons]
    grind

/-- **One move, of a thread anywhere.** -/
theorem Placed.moves (h : Placed table pc) {outcome : Outcome}
    (moves : pc.move outcome table = some (table', moved)) : Moves table table' pc moved := by
  cases pc with
  | opening key => exact h.locks _ moves rfl rfl rfl rfl rfl rfl rfl rfl rfl trivial
  | update => exact h.locks _ moves rfl rfl rfl rfl rfl rfl rfl rfl rfl trivial
  | closing key way => exact h.locks _ moves rfl rfl rfl rfl rfl rfl rfl rfl rfl trivial
  | openLocked key =>
    simp only [Pc.move] at moves
    split at moves
    · exact h.leaves table.cancelled rfl rfl rfl rfl moves
    · rename_i off
      cases moves
      exact h.reads _ rfl rfl rfl rfl rfl rfl rfl rfl (by simpa [Pc.Knows] using off)
  | openChecked key =>
    simp only [Pc.move] at moves
    split at moves
    · exact h.leaves table.cancelled rfl rfl rfl rfl moves
    · split at moves
      · exact h.leaves _ rfl rfl rfl rfl moves
      · cases outcome with
        | yes =>
          cases moves
          exact h.puts
        | no =>
          cases moves
          exact h.puts
        | error => exact h.leaves table.cancelled rfl rfl rfl rfl moves
  | openPut => exact h.leaves table.cancelled rfl rfl rfl rfl moves
  | updateLocked =>
    cases moves
    exact h.reads _ rfl rfl rfl rfl rfl rfl rfl rfl fun none' => none'
  | updateCounted finishing =>
    cases moves
    exact h.reads _ rfl rfl rfl rfl rfl rfl rfl rfl fun none' => ⟨h.knows none', rfl⟩
  | updateRead finishing unconfirmed =>
    simp only [Pc.move] at moves
    split at moves
    · exact h.leaves table.cancelled rfl rfl rfl rfl moves
    · rename_i clear
      cases moves
      simp only [Bool.or_eq_true, Bool.not_eq_true', bne_iff_ne, not_or, not_not] at clear
      obtain ⟨⟨empty, rfl⟩, rfl⟩ := clear
      exact h.reads _ rfl rfl rfl rfl rfl rfl rfl rfl
        ⟨by simpa using empty, (h.knows rfl).1, (h.knows rfl).2⟩
  | updateSwap =>
    simp only [Pc.move] at moves
    split at moves
    · exact h.leaves table.cancelled rfl rfl rfl rfl moves
    · rename_i off
      cases moves
      refine ⟨?_, ?_, ?_, fun _ => h.knows, ?_, ?_, fun free => ?_, ?_⟩
      · simp [Pc.holdsLock]
      · simp [Pc.holdsPermit, off]
      · simp [Pc.isCounted]
      · simp [Pc.doubts]
      · simp [Pc.Knows]
      · cases free
      · simp [Pc.hand]
  | updateSwapped =>
    cases moves
    exact h.unlocks table.cancelled rfl rfl rfl rfl rfl
  | permit =>
    cases moves
    refine ⟨?_, ?_, ?_, fun on => ?_, ?_, ?_, fun _ other known => ?_, ?_⟩
    · simp [Pc.holdsLock]
    · simp [Pc.holdsPermit, h.permit rfl]
    · simp [Pc.isCounted]
    · cases on
    · simp [Pc.doubts]
    · simp [Pc.Knows]
    · cases other <;> first | exact rfl | exact known
    · simp [Pc.hand]
  | closeLocked key way =>
    simp only [Pc.move] at moves
    split at moves
    · cases moves
      have kept : (table.cancel key).unlock =
          { table with cancelled := (table.cancel key).cancelled, locked := false } := by
        unfold Table.cancel
        split <;> rfl
      rw [kept]
      exact h.unlocks _ rfl rfl rfl rfl rfl
    · exact h.leaves table.cancelled rfl rfl rfl rfl moves
    · cases moves
      exact h.unlocks table.cancelled rfl rfl rfl rfl rfl
    · exact h.leaves table.cancelled rfl rfl rfl rfl moves
    · rename_i found _ _
      cases moves
      exact h.removes (List.mem_of_find?_eq_some found)
  | awaiting key =>
    cases outcome <;> (cases moves; exact h.idles _ rfl rfl rfl rfl rfl rfl rfl rfl rfl)
  | lookingAgain key =>
    cases outcome <;> (cases moves; exact h.idles _ rfl rfl rfl rfl rfl rfl rfl rfl rfl)
  | removed pane way =>
    cases moves
    have off : table.updating = false := h.knows
    refine ⟨?_, ?_, ?_, fun on => ?_, ?_, ?_, fun free => ?_, ?_⟩
    · simp [Pc.holdsLock]
    · simp [Pc.holdsPermit]
    · simp [Pc.isCounted, Nat.add_comm]
    · simp [off] at on
    · simp [Pc.doubts]
    · simp [Pc.Knows]
    · cases free
    · simp [Pc.hand]
  | counted pane way =>
    cases way with
    | detached =>
      cases moves
      exact h.unlocks table.cancelled rfl rfl rfl rfl rfl
    | close =>
      cases moves
      exact h.unlocks table.cancelled rfl rfl rfl rfl rfl
    | retire =>
      cases moves
      exact h.unlocks table.cancelled rfl rfl rfl rfl rfl
  | detaching pane =>
    cases outcome with
    | error =>
      cases moves
      exact h.goesOn _ rfl rfl rfl rfl rfl rfl rfl rfl
    | yes =>
      cases moves
      exact h.handsOn _ _ rfl rfl rfl rfl rfl rfl rfl rfl
    | no =>
      cases moves
      exact h.handsOn _ _ rfl rfl rfl rfl rfl rfl rfl rfl
  | ending pane =>
    cases outcome <;> (cases moves; exact h.goesOn _ rfl rfl rfl rfl rfl rfl rfl rfl)
  | terminate pane =>
    cases outcome with
    | yes =>
      cases moves
      exact h.goesOn _ rfl rfl rfl rfl rfl rfl rfl rfl
    | no =>
      cases moves
      exact h.goesOn _ rfl rfl rfl rfl rfl rfl rfl rfl
    | error =>
      cases moves
      exact h.goesOn _ rfl rfl rfl rfl rfl rfl rfl rfl
  | terminateDetached pane =>
    cases outcome with
    | yes =>
      cases moves
      exact h.goesOn _ rfl rfl rfl rfl rfl rfl rfl rfl
    | no =>
      cases moves
      exact h.goesOn _ rfl rfl rfl rfl rfl rfl rfl rfl
    | error =>
      cases moves
      exact h.goesOn _ rfl rfl rfl rfl rfl rfl rfl rfl
  | startReaper pane =>
    cases outcome with
    | error =>
      cases moves
      exact h.goesOn _ rfl rfl rfl rfl rfl rfl rfl rfl
    | yes =>
      cases moves
      exact h.handsOn _ _ rfl rfl rfl rfl rfl rfl rfl rfl
    | no =>
      cases moves
      exact h.handsOn _ _ rfl rfl rfl rfl rfl rfl rfl rfl
  | reaping pane =>
    cases outcome with
    | yes =>
      cases moves
      exact h.goesOn _ rfl rfl rfl rfl rfl rfl rfl rfl
    | no =>
      cases moves
      exact h.goesOn _ rfl rfl rfl rfl rfl rfl rfl rfl
    | error =>
      cases moves
      exact h.goesOn _ rfl rfl rfl rfl rfl rfl rfl rfl
  | raising pane =>
    cases moves
    have unfinished : 0 < table.finishing := h.finishing rfl
    refine ⟨?_, ?_, ?_, fun on => ?_, ?_, ?_, fun _ other known => ?_, ?_⟩
    · simp [Pc.holdsLock]
    · simp [Pc.holdsPermit]
    · simp [Pc.isCounted]
    · have := (h.alone on).2.1
      omega
    · simp [Pc.doubts, Nat.add_comm]
    · simp [Pc.Knows]
    · -- a thread that reads the counts has read that one teardown is not finished
      cases other with
      | updateRead finishing unconfirmed =>
        intro none'
        have := (known none').1
        omega
      | updateSwap =>
        have := known.2.1
        omega
      | _ => exact known
    · simp [Pc.hand]
  | lowering pane gone =>
    cases moves
    have unfinished : 0 < table.finishing := h.finishing rfl
    refine ⟨?_, ?_, ?_, fun on => ?_, ?_, ?_, fun _ other known => ?_, ?_⟩
    · simp [Pc.holdsLock]
    · simp [Pc.holdsPermit]
    · simp [Pc.isCounted]
      omega
    · have := (h.alone on).2.1
      omega
    · simp [Pc.doubts]
    · simp [Pc.Knows]
    · cases other with
      | updateCounted finishing =>
        intro none'
        have := known none'
        omega
      | updateRead finishing unconfirmed =>
        intro none'
        have := (known none').1
        omega
      | updateSwap =>
        have := known.2.1
        omega
      | _ => exact known
    · intro n
      simp only [List.flatMap_cons, List.flatMap_nil, Pc.hand, List.append_nil, List.count_append,
        List.count_nil]
      omega
  | answered answer => cases moves

/-! ## 6. Any interleaving -/

variable {w w' : World}

/-- What each thread's place says of the table. -/
theorem Sound.placed (h : Sound w) (there : pc ∈ w.threads) : Placed w.table pc where
  lock holds := by
    have := List.countP_pos_iff.mpr ⟨pc, there, holds⟩
    rw [h.lock] at this
    cases held : w.table.locked with
    | true => rfl
    | false => simp [held] at this
  permit holds := by
    have := List.countP_pos_iff.mpr ⟨pc, there, holds⟩
    rw [h.permit] at this
    cases on : w.table.updating with
    | true => rfl
    | false => simp [on] at this
  finishing counted := by
    rw [h.finishing]
    exact List.countP_pos_iff.mpr ⟨pc, there, counted⟩
  alone := h.alone
  knows := h.knows pc there

/-- One thread holds the lock at most. -/
theorem Sound.lockedOut {before after : List Pc} (h : Sound ⟨table, before ++ pc :: after⟩)
    (holds : pc.holdsLock = true) {other : Pc} (there : other ∈ before ++ after) :
    other.holdsLock = false := by
  by_contra held
  have both : 0 < (before ++ after).countP Pc.holdsLock :=
    List.countP_pos_iff.mpr ⟨other, there, by simpa using held⟩
  have lock := h.lock
  have one : table.locked.toNat ≤ 1 := Bool.toNat_le _
  simp only [List.countP_append, List.countP_cons, holds, if_true] at lock both
  omega

/-- **One step of any thread keeps what the counts say.** -/
theorem Sound.step (h : Sound w) (step : Step w w') : Sound w' := by
  cases step with
  | call w request =>
    have holds : request.start.holdsLock = false := by cases request <;> rfl
    have permit : request.start.holdsPermit = false := by cases request <;> rfl
    have counted : request.start.isCounted = false := by cases request <;> rfl
    have hand : request.start.hand = [] := by cases request <;> rfl
    constructor
    · simpa [holds] using h.lock
    · simpa [permit] using h.permit
    · simpa [counted] using h.finishing
    · exact h.alone
    · exact List.forall_mem_cons.mpr ⟨.of_unlocked holds, h.knows⟩
    · simpa [hand] using h.owned
  | poison w free =>
    refine ⟨h.lock, h.permit, h.finishing, h.alone, fun pc there => ?_, h.owned⟩
    have known := h.knows pc there
    cases pc <;> exact known
  | @move table table' before after moved pc outcome moves =>
    have there : pc ∈ before ++ pc :: after := by simp
    have placed : Placed table pc := h.placed there
    have m := placed.moves moves
    have boole : ∀ b : Bool, (if b = true then 1 else 0) = b.toNat := by decide
    constructor
    · have whole := h.lock
      have part := m.lock
      simp only [List.countP_append, List.countP_cons, boole] at whole ⊢
      omega
    · have whole := h.permit
      have part := m.permit
      simp only [List.countP_append, List.countP_cons, boole] at whole ⊢
      omega
    · have whole := h.finishing
      have part := m.finishing
      simp only [List.countP_append, List.countP_cons, boole] at whole ⊢
      omega
    · exact m.alone
    · intro other here
      have apart : other ∈ moved ∨ other ∈ before ++ after := by
        simp only [List.mem_append] at here ⊢
        tauto
      rcases apart with fresh | apart
      · exact m.knows other fresh
      · by_cases holds : pc.holdsLock = true
        · exact .of_unlocked (h.lockedOut holds apart)
        · refine m.others (by simpa using holds) other (h.knows other ?_)
          simp only [List.mem_append, List.mem_cons] at apart ⊢
          tauto
    · intro n
      have whole := h.owned n
      have part := m.owned n
      simp only [List.flatMap_append, List.flatMap_cons, List.count_append] at whole ⊢
      omega

/-- **What the counts say holds in any interleaving.** -/
theorem Reachable.sound (reach : Reachable w) : Sound w := by
  induction reach with
  | refl => exact .new
  | tail _ step ih => exact ih.step step

/-- The ends found unproven: those said so, and those not yet. -/
def World.doubts (w : World) : Nat := w.table.unconfirmed + w.threads.countP Pc.doubts

/-- No step takes a doubt back. -/
theorem Sound.doubts_step (h : Sound w) (step : Step w w') : w.doubts ≤ w'.doubts := by
  cases step with
  | call w request =>
    simp only [World.doubts, List.countP_cons]
    omega
  | poison w free => exact le_rfl
  | @move table table' before after moved pc outcome moves =>
    have placed : Placed table pc := h.placed (by simp)
    have m := (placed.moves moves).doubt
    have boole : ∀ b : Bool, (if b = true then 1 else 0) = b.toNat := by decide
    simp only [World.doubts, List.countP_append, List.countP_cons, boole] at *
    omega

theorem Sound.doubts_steps (h : Sound w) (steps : Relation.ReflTransGen Step w w') :
    Sound w' ∧ w.doubts ≤ w'.doubts := by
  induction steps with
  | refl => exact ⟨h, le_rfl⟩
  | tail _ step ih => exact ⟨ih.1.step step, ih.2.trans (ih.1.doubts_step step)⟩

/-! ## 7. No pane beside an update -/

/-- **No pane is beside an update, and none is lost on its way out.** -/
structure Guarded (w : World) : Prop where
  /-- While a permit is held, it is the only one, the table is empty, and no teardown is unfinished
      or unconfirmed. -/
  alone : Pc.permit ∈ w.threads → w.threads.countP Pc.holdsPermit = 1 ∧ w.table.panes = [] ∧
    w.table.finishing = 0 ∧ w.table.unconfirmed = 0 ∧ ∀ pc ∈ w.threads, pc.hand = []
  /-- `finishing` counts the panes out of the table and not resolved, but for one whose thread still
      holds the table's lock. -/
  counted : w.table.finishing = w.threads.countP Pc.isCounted ∧
    ∀ pc ∈ w.threads, pc.hand ≠ [] →
      pc.isCounted = true ∨ (pc.holdsLock = true ∧ w.table.locked = true)
  /-- A pane that left the table is in one thread's hand and not resolved, or in none and resolved
      once. -/
  once : ∀ n < w.table.opened, (∀ pane ∈ w.table.panes, pane.2 ≠ n) →
    ((w.threads.flatMap Pc.hand).count n = 1 ∧ w.table.resolved.count n = 0) ∨
    ((w.threads.flatMap Pc.hand).count n = 0 ∧ w.table.resolved.count n = 1)

theorem Sound.guarded (h : Sound w) : Guarded w where
  alone permit := by
    have on : w.table.updating = true := (h.placed permit).permit rfl
    obtain ⟨empty, finished, confirmed⟩ := h.alone on
    refine ⟨by rw [h.permit, on]; rfl, empty, finished, confirmed, fun pc there => ?_⟩
    have notCounted : pc.isCounted = false := by
      by_contra counted
      have := (h.placed there).finishing (by simpa using counted)
      omega
    have known := h.knows pc there
    cases pc with
    | removed pane way =>
      have off : w.table.updating = false := known
      simp [on] at off
    | _ => first | rfl | cases notCounted
  counted := by
    refine ⟨h.finishing, fun pc there held => ?_⟩
    have lock := (h.placed there).lock
    cases pc with
    | removed pane way => exact .inr ⟨rfl, lock rfl⟩
    | _ => first | exact .inl rfl | exact absurd rfl held
  once n known out := by
    have whole := h.owned n
    have gone : w.table.panes.countP (·.2 = n) = 0 := by
      rw [List.countP_eq_zero]
      simpa using fun key number there => out (key, number) there
    rw [gone, if_pos known] at whole
    omega

/-- **In any interleaving of opens, closes, ends and updates, no pane is beside an update; and once
    an end is found unproven, no update is permitted any more.** -/
theorem update_alone (reach : Reachable w) :
    Guarded w ∧ ∀ w', Relation.ReflTransGen Step w w' → 0 < w.doubts → Pc.permit ∉ w'.threads := by
  refine ⟨reach.sound.guarded, fun w' steps doubt permit => ?_⟩
  obtain ⟨sound, kept⟩ := reach.sound.doubts_steps steps
  obtain ⟨-, -, finished, confirmed, -⟩ := sound.guarded.alone permit
  have noneDoubts : w'.threads.countP Pc.doubts = 0 := by
    rw [List.countP_eq_zero]
    intro pc there doubts
    have counted : pc.isCounted = true := by cases pc <;> first | rfl | cases doubts
    have := (sound.placed there).finishing counted
    omega
  simp only [World.doubts] at doubt kept
  omega

/-- The world after the newest thread's next move. -/
def World.moveFirst (w : World) (outcome : Outcome) : World :=
  match w.threads with
  | [] => w
  | pc :: after =>
    match pc.move outcome w.table with
    | some (table, moved) => ⟨table, moved ++ after⟩
    | none => w

/-- A request made, and its thread's moves with what the system answers each. -/
def World.make (w : World) (request : Request) (outcomes : List Outcome) : World :=
  outcomes.foldl World.moveFirst { w with threads := request.start :: w.threads }

theorem World.moveFirst_steps (w : World) (outcome : Outcome) :
    Relation.ReflTransGen Step w (w.moveFirst outcome) := by
  obtain ⟨table, threads⟩ := w
  cases threads with
  | nil => exact .refl
  | cons pc after =>
    cases moves : pc.move outcome table with
    | none => simpa only [World.moveFirst, moves] using .refl
    | some moved =>
      obtain ⟨table', moved⟩ := moved
      simp only [World.moveFirst, moves]
      exact .single (@Step.move table table' [] after moved pc outcome moves)

theorem World.make_steps (w : World) (request : Request) (outcomes : List Outcome) :
    Relation.ReflTransGen Step w (w.make request outcomes) := by
  refine .trans (.single (.call w request)) ?_
  unfold World.make
  generalize { w with threads := request.start :: w.threads } = w'
  induction outcomes generalizing w' with
  | nil => exact .refl
  | cons outcome outcomes ih => exact (w'.moveFirst_steps outcome).trans (ih (w'.moveFirst outcome))

/-- A pane is opened and closed, and an update begins. -/
def permitted : World :=
  ((World.new.make (.open_ ⟨"w", 1⟩) [.yes, .yes, .yes, .yes]).make (.close ⟨"w", 1⟩ .close)
    [.yes, .yes, .yes, .yes, .no, .yes, .yes]).make .beginUpdate (List.replicate 6 .yes)

theorem permitted_reachable : Reachable permitted :=
  ((World.make_steps _ _ _).trans (World.make_steps _ _ _)).trans (World.make_steps _ _ _)

/-- The permit is given back, and another pane's end is not proven. -/
def doubted : World :=
  ((permitted.moveFirst .yes).make (.open_ ⟨"w", 2⟩) [.yes, .yes, .yes, .yes]).make
    (.close ⟨"w", 2⟩ .close) [.yes, .yes, .yes, .yes, .no, .error]

theorem doubted_reachable : Reachable doubted :=
  ((permitted_reachable.trans (World.moveFirst_steps _ _)).trans (World.make_steps _ _ _)).trans
    (World.make_steps _ _ _)

/-- The doubt is said, and an update asked for. -/
def blocked : World :=
  ((doubted.moveFirst .yes).moveFirst .yes).make .beginUpdate (List.replicate 6 .yes)

theorem blocked_after : Relation.ReflTransGen Step doubted blocked :=
  ((World.moveFirst_steps _ _).trans (World.moveFirst_steps _ _)).trans (World.make_steps _ _ _)

/-- The permit is held with the closed pane resolved once; and none is given after the doubt. -/
theorem permitted_alone :
    (Pc.permit ∈ permitted.threads ∧ permitted.table.opened = 1 ∧ Guarded permitted) ∧
      0 < doubted.doubts ∧ Pc.answered (.error .updateBlocked) ∈ blocked.threads ∧
        Pc.permit ∉ blocked.threads :=
  ⟨⟨by decide, by decide, (update_alone permitted_reachable).1⟩, by decide, by decide,
    (update_alone doubted_reachable).2 blocked blocked_after (by decide)⟩

end Panes
end ConsensFlow
