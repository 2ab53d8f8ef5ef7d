/-
  File:      ConsensFlow/Harness/Drawn.lean
  Subject:   THE ITEMS A CLAUDE TRANSCRIPT'S RECORDS MADE (`Items`), pushed in any order, and laid out:
             the record's items, and beside them what only the history shows.

  * `Item`, `Detail` -- an item of a record, and what the history draws of it;
  * `sort`, `localeCompare` -- a JavaScript comparator's stable sort, and the order of ids;
  * `Items`, `Push` -- the items, and each thing a record's reader says of them;
  * `Items.timeline` -- the items in their order, and those beside with the place each stands before;
  * **`timeline_placed`** -- the places never go back.
-/
import ConsensFlow.Lib.Json

namespace ConsensFlow
namespace Harness

open Lib.Json

/-! ## 1. Items -/

/-- What an item is, as the history draws it. -/
inductive Kind where
  | prompt | text | thinking | tool | compaction | notice
  deriving DecidableEq, Repr

/-- How a tool's call stands. -/
inductive Status where
  | running | ok | failed
  deriving DecidableEq, Repr

/-- What the history draws of an item besides its words. -/
structure Detail where
  kind : Kind
  name : Option String := none
  header : Option String := none
  status : Option Status := none
  tookMs : Option Nat := none
  diff : Option String := none
  tokens : Option Nat := none
  deriving DecidableEq, Repr

inductive Role where
  | user | assistant | tool | custom
  deriving DecidableEq, Repr

structure Item where
  id : String
  role : Role
  text : String
  complete : Bool
  at_ : Option Value
  commentary : Bool := false
  synthetic : Bool := false
  compaction : Bool := false
  detail : Option Detail := none

/-- `beside_item`: one only the history shows. -/
def besideItem (id : String) (role : Role) (text : String) (at_ : Option Value) (detail : Detail) :
    Item :=
  { id, role, text, complete := true, at_, compaction := detail.kind == .compaction,
    detail := some detail }

/-- A value of a record, as a JavaScript map takes it for a key: a number by its double, an object
    by which one it is. -/
inductive Key where
  | undefined
  | null
  | flag (flag : Bool)
  | number (bits : Nat)
  | text (text : String)
  | object (which : Nat)
  deriving DecidableEq, Repr

/-! ## 2. Sorted -/

section Sorting

variable {α : Type}

/-- Two runs merged, the right one first only where it is less: `less` is whether the comparator's
    number is below 0, or that it threw, which fails the sort. -/
def merge (less : α → α → Except String Bool) : List α → List α → Except String (List α)
  | [], right => .ok right
  | left, [] => .ok left
  | a :: left, b :: right =>
    match less b a with
    | .error reason => .error reason
    | .ok true => (merge less (a :: left) right).map (b :: ·)
    | .ok false => (merge less left (b :: right)).map (a :: ·)

/-- Each two runs next to each other are merged into one of twice the width. -/
def mergeRuns (less : α → α → Except String Bool) : List (List α) → Except String (List (List α))
  | left :: right :: runs =>
    match merge less left right with
    | .error reason => .error reason
    | .ok run => (mergeRuns less runs).map (run :: ·)
  | runs => .ok runs

/-- The loop: the runs are `2 ^ doubled` wide. -/
def sortFrom (less : α → α → Except String Bool) (length doubled : Nat) (runs : List (List α)) :
    Except String (List α) :=
  if _ : 2 ^ doubled < length then
    match mergeRuns less runs with
    | .error reason => .error reason
    | .ok runs => sortFrom less length (doubled + 1) runs
  else .ok runs.flatten
termination_by length - 2 ^ doubled
decreasing_by
  have := Nat.pow_lt_pow_right (a := 2) (by decide) (Nat.lt_succ_self doubled)
  omega

/-- `sort`: a JavaScript comparator's stable sort. -/
def sort (less : α → α → Except String Bool) (items : List α) : Except String (List α) :=
  sortFrom less items.length 0 (items.map fun item => [item])

variable {less : α → α → Except String Bool}

theorem map_ok {β : Type} {f : α → β} {x : Except String α} {y : β} (h : x.map f = .ok y) :
    ∃ a, x = .ok a ∧ f a = y := by
  cases x with
  | error reason => cases h
  | ok a => exact ⟨a, rfl, Except.ok.inj h⟩

end Sorting

/-- ASCII in the order the root collation sorts it at its first level. -/
def collated : List Char :=
  "\t\n\x0b\x0c\r _-,;:!?.'\"()[]\x7b\x7d@*/\\&#%`^+<=>|~$0123456789aAbBcCdDeEfFgGhHiIjJkKlLmMnNoOpPqQrRsStTuUvVwWxXyYzZ".toList

/-- `char::is_ascii_control`. -/
def isAsciiControl (c : Char) : Bool := c.toNat < 0x20 || c.toNat == 0x7f

/-- A character's place at the first level, and its case at the third: none where it is ignored. -/
def collationWeights (c : Char) : Option (Nat × Nat) :=
  if isAsciiControl c ∧ c ∉ ['\t', '\n', '\x0b', '\x0c', '\r'] then none
  else
    let lower := c.toLower
    let primary := ((collated.filter fun c => !c.isUpper).findIdx? (· == lower)).getD
      (0x100 + c.toNat)
    some (primary, if c.isUpper then 1 else 0)

/-- `locale_compare`: whether one id comes before another, or neither does. -/
def localeCompare (left right : String) : Ordering :=
  let left := left.toList.filterMap collationWeights
  let right := right.toList.filterMap collationWeights
  (compare (left.map (·.1)) (right.map (·.1))).then
    (compare (left.map (·.2)) (right.map (·.2)))

/-! ## 3. The items pushed -/

/-- A map by text. -/
abbrev Places := String → Option Nat

def Places.insert (m : Places) (key : String) (place : Nat) : Places := fun other =>
  if other = key then some place else m other

def Places.remove (m : Places) (key : String) : Places := fun other =>
  if other = key then none else m other

/-- An assistant's text in the pieces its records said it in: the records' uuids, as each first said
    something, and what each said last. -/
structure Fragments where
  order : List String := []
  text : String → Option String := fun _ => none

/-- An item, the place of the latest record that said anything of it, and of the one it began in. -/
structure Entry where
  item : Item
  seq : Nat
  began : Nat
  fragments : Fragments := {}

def Entry.new (id : String) (role : Role) (text : String) (complete : Bool) (at_ : Value)
    (seq : Nat) : Entry :=
  { item := { id, role, text, complete, at_ := some at_ }, seq, began := seq }

/-- Where an item only the history shows stands among the items of the record that said it. -/
inductive Stands where
  | before
  | after
  deriving DecidableEq, Repr

def Stands.rank : Stands → Nat
  | before => 0
  | after => 1

/-- An item only the history shows. -/
structure Beside where
  item : Item
  seq : Nat
  stands : Stands
  call : Option Key
  answered : Bool

structure Items where
  list : List Entry := []
  assistants : Places := fun _ => none
  tools : Places := fun _ => none
  beside : List Beside := []
  running : Places := fun _ => none

/-- What a record's reader says of the items. -/
inductive Push where
  | push (id : String) (role : Role) (text : String) (at_ : Value) (seq : Nat)
  | notification (id text : String) (at_ : Value) (seq : Nat)
  | summary (id text : String) (at_ : Value) (seq : Nat) (tokens : Option Nat)
  | thinking (record text : String) (at_ : Value) (seq : Nat)
  | called (id : String) (call : Key) (detail : Detail) (at_ : Value) (seq : Nat)
  | assistant (id : String) (at_ : Value) (seq : Nat)
  | fragment (place : Nat) (identity text : String)
  | tool (id text : String) (at_ : Value) (seq : Nat) (detail : Detail)
  | synthetic (place : Nat)
  | complete (id : String)

namespace Items

def entry (items : Items) (place : Nat) (f : Entry → Entry) : Items :=
  { items with list := items.list.modify place f }

def push (items : Items) (e : Entry) : Items := { items with list := items.list ++ [e] }

/-- `thinking`: its id says which of the record's thinking blocks it is. -/
def thinking (items : Items) (record text : String) (at_ : Value) (seq : Nat) : Items :=
  let place := (items.beside.filter fun beside => beside.seq == seq).length
  let item := besideItem s!"{record}:thinking:{place}" .custom text (some at_) { kind := .thinking }
  { items with beside := items.beside ++
      [{ item, seq, stands := .before, call := none, answered := false }] }

/-- `called`: said again, it is the same call. -/
def called (items : Items) (id : String) (call : Key) (detail : Detail) (at_ : Value) (seq : Nat) :
    Items :=
  if (items.running id).isSome || (items.tools id).isSome then items
  else
    let item := besideItem id .tool "" (some at_) detail
    { items with
      running := items.running.insert id items.beside.length
      beside := items.beside ++
        [{ item, seq, stands := .after, call := some call, answered := false }] }

/-- `assistant`: the message is made at its first record; its time and place are the latest's. -/
def assistant (items : Items) (id : String) (at_ : Value) (seq : Nat) : Items :=
  let (items, place) := match items.assistants id with
    | some place => (items, place)
    | none =>
      ({ items.push (Entry.new id .assistant "" false at_ seq) with
          assistants := items.assistants.insert id items.list.length }, items.list.length)
  items.entry place fun e => { e with item := { e.item with at_ := some at_ }, seq }

/-- What a record says of a message is its text now: the message's is every record's. -/
def Fragments.say (fragments : Fragments) (identity text : String) : Fragments :=
  { order := if (fragments.text identity).isSome then fragments.order
      else fragments.order ++ [identity]
    text := fun other => if other = identity then some text else fragments.text other }

def Fragments.joined (fragments : Fragments) : String :=
  "\n".intercalate (fragments.order.filterMap fragments.text)

/-- `fragment`: a record that says nothing changes nothing. -/
def fragment (items : Items) (place : Nat) (identity text : String) : Items :=
  if text.isEmpty then items
  else items.entry place fun e =>
    let fragments := Fragments.say e.fragments identity text
    { e with fragments, item := { e.item with text := Fragments.joined fragments } }

/-- `tool`: made at the first record of it and said anew by a later one; the call it answers is
    beside the items no more. -/
def tool (items : Items) (id text : String) (at_ : Value) (seq : Nat) (detail : Detail) : Items :=
  let items := match items.running id with
    | some place =>
      { items with
        running := items.running.remove id
        beside := items.beside.modify place fun b => { b with answered := true } }
    | none => items
  match items.tools id with
  | some place =>
    items.entry place fun e =>
      { e with item := { e.item with text, at_ := some at_, detail := some detail }, seq }
  | none =>
    let e := Entry.new id .tool text true at_ seq
    { items.push { e with item := { e.item with detail := some detail } } with
      tools := items.tools.insert id items.list.length }

/-- One thing said of the items. -/
def say (items : Items) : Push → Items
  | .push id role text at_ seq => items.push (Entry.new id role text true at_ seq)
  | .notification id text at_ seq =>
    let e := Entry.new id .user text true at_ seq
    items.push { e with item := { e.item with synthetic := true } }
  | .summary id text at_ seq tokens =>
    let e := Entry.new id .user text true at_ seq
    items.push { e with item := { e.item with
      compaction := true, detail := some { kind := .compaction, tokens } } }
  | .thinking record text at_ seq => items.thinking record text at_ seq
  | .called id call detail at_ seq => items.called id call detail at_ seq
  | .assistant id at_ seq => items.assistant id at_ seq
  | .fragment place identity text => items.fragment place identity text
  | .tool id text at_ seq detail => items.tool id text at_ seq detail
  | .synthetic place =>
    items.entry place fun e => { e with item := { e.item with
      commentary := true, synthetic := true } }
  | .complete id =>
    match items.assistants id with
    | some place => items.entry place fun e => { e with item := { e.item with complete := true } }
    | none => items

/-- The items after a run of pushes. -/
def pushed (pushes : List Push) : Items := pushes.foldl say {}

/-! ## 4. Laid out -/

/-- The comparator of `ordered`: by the latest record's place, then by id. -/
def comesBefore (left right : Entry) : Except String Bool :=
  .ok ((compare left.seq right.seq).then (localeCompare left.item.id right.item.id) == .lt)

/-- `ordered`: the entries in the record's order. -/
def ordered (items : Items) : Except String (List Entry) := sort comesBefore items.list

/-- The key those beside are sorted by, stably. -/
def Beside.before (left right : Beside) : Bool :=
  left.seq < right.seq || (left.seq == right.seq && left.stands.rank ≤ right.stands.rank)

/-- A call whose turn is over without its result says no more that it runs. -/
def Beside.shown (calls : Key → Bool) (one : Beside) : Item :=
  if one.call.any fun call => !calls call then
    { one.item with detail := one.item.detail.map fun detail => { detail with status := none } }
  else one.item

/-- The first item from `next` on that stands after `one`. -/
def placeFrom (seqs : List Nat) (one : Beside) (next : Nat) : Nat :=
  next + ((seqs.drop next).takeWhile fun seq =>
    seq < one.seq || (seq == one.seq && one.stands == .after)).length

/-- Those beside one after the other, each with the place it stands before. -/
def layFrom (seqs : List Nat) (calls : Key → Bool) : Nat → List Beside → List (Nat × Item)
  | _, [] => []
  | next, one :: beside =>
    let next := placeFrom seqs one next
    (next, Beside.shown calls one) :: layFrom seqs calls next beside

/-- The items in their order, the place of the record each began in, and those only the history
    shows, each with the place among the items it stands before. -/
structure Laid where
  items : List Item
  places : List Nat
  beside : List (Nat × Item)

/-- `timeline`: `calls` are the calls open. -/
def timeline (items : Items) (calls : Key → Bool) : Except String Laid :=
  (ordered items).map fun entries =>
    let beside := (items.beside.filter fun one => !one.answered).mergeSort Beside.before
    { items := entries.map (·.item), places := entries.map (·.began)
      beside := layFrom (entries.map (·.seq)) calls 0 beside }

/-! ## 5. The places never go back -/

/-- Those beside stand at places that never go back, none past the last item. -/
structure InPlace (items : List Item) (beside : List (Nat × Item)) : Prop where
  forward : beside.Pairwise fun one other => one.1 ≤ other.1
  within : ∀ one ∈ beside, one.1 ≤ items.length

theorem placeFrom_within {seqs : List Nat} {one : Beside} {next : Nat} (h : next ≤ seqs.length) :
    next ≤ placeFrom seqs one next ∧ placeFrom seqs one next ≤ seqs.length := by
  unfold placeFrom
  have taken := (List.takeWhile_prefix (l := seqs.drop next) fun seq =>
    seq < one.seq || (seq == one.seq && one.stands == .after)).length_le
  rw [List.length_drop] at taken
  omega

theorem layFrom_within {seqs : List Nat} {calls : Key → Bool} {beside : List Beside} {next : Nat}
    (h : next ≤ seqs.length) :
    ∀ x ∈ layFrom seqs calls next beside, next ≤ x.1 ∧ x.1 ≤ seqs.length := by
  induction beside generalizing next with
  | nil => exact fun x hx => absurd hx List.not_mem_nil
  | cons one beside ih =>
    obtain ⟨after, within⟩ := @placeFrom_within seqs one next h
    intro x hx
    rcases List.mem_cons.1 hx with rfl | hx
    · exact ⟨after, within⟩
    · exact ⟨Nat.le_trans after (ih within x hx).1, (ih within x hx).2⟩

theorem layFrom_forward {seqs : List Nat} {calls : Key → Bool} {beside : List Beside} {next : Nat}
    (h : next ≤ seqs.length) :
    (layFrom seqs calls next beside).Pairwise fun one other => one.1 ≤ other.1 := by
  induction beside generalizing next with
  | nil => exact .nil
  | cons one beside ih =>
    have within := (@placeFrom_within seqs one next h).2
    exact .cons (fun x hx => (layFrom_within within x hx).1) (ih within)

/-- **However the items were pushed, what only the history shows is laid out in place.** -/
theorem timeline_placed {items : Items} {calls : Key → Bool} {laid : Laid}
    (h : items.timeline calls = .ok laid) : InPlace laid.items laid.beside := by
  obtain ⟨entries, -, rfl⟩ := map_ok h
  refine ⟨layFrom_forward (Nat.zero_le _), fun one hone => ?_⟩
  have within := (layFrom_within (Nat.zero_le _) one hone).2
  rw [List.length_map] at within ⊢
  exact within

end Items

end Harness
end ConsensFlow
