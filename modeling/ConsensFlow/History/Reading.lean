/-
  File:      ConsensFlow/History/Reading.lean
  Subject:   A PARTICIPANT'S HISTORY READ a page at a time (`cf-ledger`, `conversations/history.rs`),
             from the copy of its conversations (`conversations/transcripts.rs`).

  * `Copied`, `Copy` -- an item of the copy, with the parts its text is kept in; the copy beside the
    ledger;
  * `Reading` -- a read as it goes: `may`, what it may go through, `showItem`, `search`, `take`, what
    it does with an item, `conversation`, `conversations`, how it goes on;
  * `readHistory` -- one read; `follow` -- the reads that follow each answer's `resume`.

  The lower case of a character and the JSON of an item stay parameters (`Outside`). The machine's
  steps, which nothing reads, are left out.
-/
import ConsensFlow.Lib.Search
import ConsensFlow.Lib.Paging
import ConsensFlow.Lib.Text
import ConsensFlow.Model

namespace ConsensFlow
namespace History

open Lib Lib.Lines Lib.Search Lib.Text

abbrev Text := List Char

/-- `octet_length`. -/
def octets (text : Text) : Nat := (text.map Char.utf8Size).sum

/-! ## 1. The copy -/

/-- A role an item is copied with (`TRANSCRIPT_ROLES`). -/
inductive ItemRole where
  | user | assistant | tool | custom
  deriving DecidableEq, Repr

/-- The kinds of item the history draws. -/
inductive DrawnKind where
  | prompt | text | thinking | tool | compaction | notice
  deriving DecidableEq, Repr

def DrawnKind.word : DrawnKind → String
  | prompt => "prompt"
  | text => "text"
  | thinking => "thinking"
  | tool => "tool"
  | compaction => "compaction"
  | notice => "notice"

/-- How a tool's call may stand. -/
inductive DrawnStatus where
  | running | ok | failed
  deriving DecidableEq, Repr

def DrawnStatus.word : DrawnStatus → String
  | running => "running"
  | ok => "ok"
  | failed => "failed"

/-- What the history draws of an item besides its words. -/
structure ItemDetail where
  kind : DrawnKind
  name : Option String
  header : Option Text
  status : Option DrawnStatus
  tookMs : Option Nat
  tokens : Option Nat
  diff : Option Text
  deriving DecidableEq, Repr

/-- An item of the copy: its row, its head and its text. -/
structure Copied where
  row : Nat
  conversation : Nat
  id : Text
  role : ItemRole
  text : Text
  complete : Bool
  at_ : Option String
  compaction : Bool
  revision : Int
  detail : Option ItemDetail
  deriving DecidableEq, Repr

instance : Keyed Copied where
  key i := i.row
  rekey n i := { i with row := n }
  key_rekey _ _ := rfl
  rekey_key _ := rfl

/-- `ID_SHOWN`. -/
def idShown : Nat := 256

/-- `ID_IN_ROW`. -/
def idInRow : Nat := 4 * idShown

/-- `TRANSCRIPT_ITEM_MAX`, and `HISTORY_PART`. -/
def historyPart : Nat := 64000

/-- `PART_TAIL`. -/
def partTail : Nat := 2000

/-- `shown_id`. -/
def shownId (id : Text) : Text := if idShown < id.length then id.take idShown ++ ['…'] else id

/-- The parts `text` is kept in: one where it must be kept in parts all the same (`kept`), though it is
    no longer than one. -/
def partsOf (text : Text) (kept : Bool) : List Text :=
  let parts := chunks historyPart text
  if parts.length < 2 then if kept then [text] else [] else parts

/-- `tail_of`. -/
def tailOf (part : Text) : Text := lastOf partTail part

namespace Copied

def parts (i : Copied) : List Text := partsOf i.text (idInRow < octets i.id)

/-- The change an edit made, where its head says it made one (`diff_bytes`). -/
def diff (i : Copied) : Option Text := (i.detail.bind ItemDetail.diff).filter (!·.isEmpty)

/-- `field_bytes`. -/
def fieldBytes (i : Copied) : Nat :=
  octets (shownId i.id) + (i.at_.map String.utf8ByteSize).getD 0 +
    (i.detail.map fun detail => detail.kind.word.utf8ByteSize +
      (detail.name.map String.utf8ByteSize).getD 0 + (detail.header.map octets).getD 0 +
      (detail.status.map fun status => status.word.utf8ByteSize).getD 0).getD 0

end Copied

/-- The last row there can be. -/
def maxRow : Int := 2 ^ 63 - 1

def minRow : Int := -2 ^ 63

/-- The copy of every conversation, beside the ledger. A key is given after the last one, from 1 on;
    the last there can be is never given. -/
structure Copy where
  ledger : Ledger
  items : Table Copied
  first : ∀ i ∈ items.rows, 0 < i.row
  itemsLeft : (items.next : Int) ≤ maxRow
  conversationsLeft : (ledger.conversations.next : Int) ≤ maxRow

/-! ## 2. What a read is asked for -/

/-- Where an item stands: with how many of its parts a search went through, where it stopped inside
    it. -/
structure HistoryKey where
  conversation : Int
  row : Int
  part : Nat
  deriving DecidableEq, Repr

inductive HistoryFrom where
  | newest
  | before (key : HistoryKey)
  | after (key : HistoryKey)
  deriving DecidableEq, Repr

structure HistoryAsk where
  start : HistoryFrom
  find : Option Text
  tools : Bool
  room : Nat
  scan : Nat

structure HistoryItem where
  id : Text
  role : ItemRole
  text : Text
  complete : Bool
  at_ : Option String
  compaction : Bool
  detail : Option ItemDetail
  deriving DecidableEq, Repr

structure TextCut where
  start : Nat
  bytes : Nat
  revision : Int
  deriving DecidableEq, Repr

structure HistoryRow where
  key : HistoryKey
  item : HistoryItem
  cut : Option TextCut
  deriving DecidableEq, Repr

structure Scanned where
  conversations : Nat
  rows : Nat
  parts : Nat
  bytes : Nat
  fields : Nat
  deriving DecidableEq, Repr

structure HistoryRead where
  participant : Nat
  entries : List HistoryRow
  resume : Option HistoryKey
  bounded : Bool
  scanned : Scanned
  charged : Nat
  deriving DecidableEq, Repr

/-- What the crates outside do: the lower case of a character is one or two, and an item's JSON has a
    length. -/
structure Outside where
  /-- `char::to_lowercase`. -/
  lower : Char → Text
  jsonLen : HistoryItem → Nat
  lower_some : ∀ c, lower c ≠ []
  lower_short : ∀ c, (lower c).length ≤ 2

/-- `HISTORY_FIND_MAX`. -/
def historyFindMax : Nat := 1000

/-- `HEADER_MAX`. -/
def headerMax : Nat := idShown

/-- `NAME_MAX`. -/
def nameMax : Nat := 64

def drawnFields : Nat := 4 * headerMax + 4 * nameMax + 2 * 16 + 2 * 20

def rowFields : Nat := 4 * idShown + 3 + 64 + drawnFields

def conversationCost : Nat := 4096

def rowCost : Nat := 256

def partCost : Nat := 64

def tailBytes : Nat := 4 * partTail

def beforeAMatch : Nat := 2000

def rowSlack : Nat := 600

/-! ## 3. Words -/

variable (out : Outside)

/-- `folded`. -/
def folded (text : Text) : Text := text.flatMap out.lower

/-- Where `text` first holds `needle` (folded), in characters of `text`. -/
def firstMatch (text needle : Text) : Option Nat :=
  -- Each folded character's place in the text it came from.
  let cameFrom := text.zipIdx.flatMap fun (c, place) => (out.lower c).map fun _ => place
  (firstAt needle (folded out text)).map fun found => cameFrom.getD found 0

/-- `chars`. -/
def chars (text : Text) (start count : Nat) : Text := (text.drop start).take count

/-- The part a search shows of a long item it found its words in at character `found`. -/
def around (previous : Option (Nat × Text)) (text : Text) (part found : Nat) : Nat × Text :=
  let (start, joined) := match previous with
    | some (start, before) => (start, before ++ text)
    | none => (part * historyPart, text)
  let shown := max (found - beforeAMatch) start
  (shown, chars joined (shown - start) historyPart)

/-! ## 4. A read as it goes -/

/-- What a read goes by. -/
structure Asked where
  out : Outside
  copy : Copy
  participant : Nat
  newestFirst : Bool
  needle : Option Text
  tools : Bool
  room : Nat
  scan : Nat
  start : Option HistoryKey

/-- A read as it goes: the items taken, the room they take, what it went through, the place of the last
    item it is done with, and why it stopped. -/
structure Reading where
  entries : List HistoryRow
  used : Nat
  scanned : Scanned
  resume : Option HistoryKey
  full : Bool
  bounded : Bool

/-- A row as a read comes to it, before it reads any of its text. -/
structure Met where
  key : HistoryKey
  item : HistoryItem
  revision : Int
  bytes : Nat
  /-- What the queries find by its row. -/
  stored : Copied

namespace Met

def parts (met : Met) : Nat := met.stored.parts.length

/-- As its head says it, the change an edit made yet to be read. -/
def of (i : Copied) : Met where
  key := ⟨i.conversation, i.row, 0⟩
  item := ⟨shownId i.id, i.role, [], i.complete, i.at_, i.compaction,
    i.detail.map fun detail => { detail with diff := none }⟩
  revision := i.revision
  bytes := octets i.text
  stored := i

def withDiff (met : Met) (diff : Option Text) : Met :=
  { met with item.detail := met.item.detail.map fun detail => { detail with diff := diff } }

end Met

/-- An item kept in parts, showing `text`, the part of it from character `start`. -/
def longRow (met : Met) (text : Text) (start : Nat) : HistoryRow :=
  let whole := met.parts == 1 && start == 0
  ⟨met.key, { met.item with text := text }, if whole then none else some ⟨start, met.bytes, met.revision⟩⟩

namespace Reading

def charged (r : Reading) : Nat :=
  r.scanned.bytes + r.scanned.fields + r.scanned.rows * rowCost + r.scanned.parts * partCost +
    r.scanned.conversations * conversationCost

/-- Whether the read took an item or passed one. -/
def moved (a : Asked) (r : Reading) : Bool := !r.entries.isEmpty || r.resume != a.start

/-- Whether the read may go through `more`: bounded where it may not. Until it moved it always may. -/
def may (a : Asked) (more : Nat) (r : Reading) : Reading :=
  if r.moved a && a.scan < r.charged + more then { r with bounded := true } else r

/-- A part looked up. -/
def looked (r : Reading) : Reading := { r with scanned.parts := r.scanned.parts + 1 }

/-- Text read. -/
def went (r : Reading) (text : Text) : Reading :=
  { r with scanned.bytes := r.scanned.bytes + octets text }

/-- The size of part `part` of an item; none past them. -/
def partBytes (met : Met) (part : Nat) (r : Reading) : Reading × Option Nat :=
  if met.parts ≤ part then (r, none) else (r.looked, met.stored.parts[part]?.map octets)

def readPart (text : Text) (r : Reading) : Reading := r.looked.went text

/-- The end of part `part`, and where it begins. -/
def readTail (met : Met) (part : Nat) (r : Reading) : Reading × Option (Nat × Text) :=
  match met.stored.parts[part]? with
  | none => (r.looked, none)
  | some text =>
    let tail := tailOf text
    (r.looked.went tail, some ((part + 1) * historyPart - tail.length, tail))

def wholeRow (met : Met) (r : Reading) : Reading × HistoryRow :=
  (r.went met.stored.text, ⟨met.key, { met.item with text := met.stored.text }, none⟩)

/-- Takes an item if the page has room for it, its first always. -/
def take (a : Asked) (row : HistoryRow) (r : Reading) : Reading × Bool :=
  let cost := a.out.jsonLen row.item + rowSlack
  if !r.entries.isEmpty && a.room < r.used + cost then ({ r with full := true }, false)
  else
    ({ r with used := r.used + cost, resume := some row.key, entries := r.entries ++ [row] }, true)

/-- Takes an item: whole, or its first part where it is kept in parts. -/
def showItem (a : Asked) (met : Met) (r : Reading) : Reading × Bool :=
  let (r, first) := r.partBytes met 0
  let reading := first.getD met.bytes
  if !r.entries.isEmpty && a.room < r.used + reading + rowSlack then ({ r with full := true }, false)
  else
    let r := r.may a reading
    if r.bounded then (r, false)
    else
      match first with
      | none =>
        let (r, row) := r.wholeRow met
        r.take a row
      | some _ =>
        let text := met.stored.parts[0]?.getD []
        (r.readPart text).take a (longRow met text 0)

/-- The parts of an item from `part` on, each with the end of the one before. -/
def searchParts (a : Asked) (met : Met) (needle : Text) (reach : Nat) (part : Nat)
    (previous : Option (Nat × Text)) (parts : List Text) (r : Reading) : Reading × Bool :=
  match parts with
  | [] => ({ r with resume := some met.key }, true)
  | text :: parts =>
    let r := r.looked.may a (octets text)
    if r.bounded then (r, false)
    else
      let r := r.readPart text
      let tail := (previous.map fun (_, before) => lastOf reach before).getD []
      match firstMatch a.out (tail ++ text) needle with
      | some found =>
        let (start, shown) := around previous text part (part * historyPart + found - tail.length)
        r.take a (longRow met shown start)
      | none =>
        -- A read that stops before the next part goes on from it.
        searchParts a met needle reach (part + 1) (some (part * historyPart, text)) parts
          { r with resume := some { met.key with part := part + 1 } }

/-- Takes an item if it holds `needle`, from part `fromPart` of it; else passes it. -/
def search (a : Asked) (met : Met) (fromPart : Nat) (needle : Text) (r : Reading) : Reading × Bool :=
  let header := met.item.detail.bind ItemDetail.header
  if fromPart == 0 && header.any fun header => holds needle (folded a.out header) then r.showItem a met
  else
    let (r, first) := r.partBytes met 0
    match first with
    | none =>
      let r := r.may a met.bytes
      if r.bounded then (r, false)
      else
        let (r, row) := r.wholeRow met
        if holds needle (folded a.out row.item.text) then r.take a row
        else ({ r with resume := some met.key }, true)
    | some _ =>
      let reach := needle.length - 1
      match fromPart with
      | 0 => r.searchParts a met needle reach 0 none met.stored.parts
      | before + 1 =>
        let r := r.may a tailBytes
        if r.bounded then (r, false)
        else
          let (r, previous) := r.readTail met before
          r.searchParts a met needle reach fromPart previous (met.stored.parts.drop fromPart)

/-- A row come to, and the change an edit made, where it made one. -/
def meet (a : Asked) (i : Copied) (r : Reading) : Reading × Met :=
  let r := { r with
    scanned.rows := r.scanned.rows + 1, scanned.fields := r.scanned.fields + i.fieldBytes }
  match i.diff with
  | none => (r, Met.of i)
  | some diff =>
    let r := r.may a (partCost + octets diff)
    if r.bounded then (r, Met.of i) else (r.looked.went diff, (Met.of i).withDiff (some diff))

/-- The rows of a conversation the way the read goes, from `within`. -/
def rows (a : Asked) (within : Option HistoryKey) : List Copied → Reading → Reading
  | [], r => r.may a (rowCost + rowFields)
  | i :: items, r =>
    let r := r.may a (rowCost + rowFields)
    if r.bounded then r
    else
      let (r, met) := r.meet a i
      if r.bounded then r
      else
        let fromPart := ((within.filter fun place => place.row == met.key.row).map HistoryKey.part).getD 0
        let (r, going) := match a.needle with
          | none => r.showItem a met
          | some needle => r.search a met fromPart needle
        if going then rows a within items r else r

end Reading

namespace Asked

/-- `a` comes before `b` the way the read goes. -/
def ahead (a : Asked) (first second : Int) : Bool :=
  if a.newestFirst then second < first else first < second

def directed {α : Type} (a : Asked) (as : List α) : List α := if a.newestFirst then as.reverse else as

/-- `rows_from`, without its bound. -/
def items (a : Asked) (conversation : Nat) : List Copied :=
  (a.directed a.copy.items.rows).filter fun i =>
    i.conversation == conversation && (a.tools || i.role != .tool)

/-- The participant's conversations, the way the read goes. -/
def conversations (a : Asked) : List Conversation :=
  (a.directed a.copy.ledger.conversations.rows).filter fun c => c.participant == a.participant

/-- The row past every row of a conversation. -/
def edge (a : Asked) : Int := if a.newestFirst then 0 else maxRow

/-- Where a conversation is read from: with the row itself, where a search stopped inside it. -/
def bound (a : Asked) (within : Option HistoryKey) : Int × Bool :=
  match within with
  | some place => (place.row, 0 < place.part)
  | none => if a.newestFirst then (maxRow, false) else (0, false)

/-- Where the read begins: from the place's own conversation, or from the newest. -/
def past (a : Asked) : Int :=
  match a.start with
  | none => maxRow
  | some key =>
    if a.newestFirst then min (key.conversation + 1) maxRow else max (key.conversation - 1) minRow

end Asked

namespace Reading

/-- Goes through a conversation from `within`. -/
def conversation (a : Asked) (id : Nat) (within : Option HistoryKey) (r : Reading) : Reading :=
  let (bound, withIt) := a.bound within
  let items := (a.items id).filter fun i => a.ahead bound i.row || (withIt && bound == i.row)
  let r := r.rows a within items
  if r.full || r.bounded then r
  -- Through the whole conversation: the next read goes on past it.
  else { r with resume := some ⟨id, a.edge, 0⟩ }

/-- The conversations past `past`, one after the other: each time the next the index has. -/
def conversations (a : Asked) (past : Int) : List Conversation → Reading → Reading
  | [], r => r.may a conversationCost
  | c :: cs, r =>
    if a.ahead past c.id then
      let r := r.may a conversationCost
      if r.bounded then r
      else
        let r := { r with scanned.conversations := r.scanned.conversations + 1 }
        let within := a.start.filter fun key => key.conversation == (c.id : Int)
        let r := r.conversation a c.id within
        if r.full || r.bounded then r else r.conversations a c.id cs
    else r.conversations a past cs

end Reading

/-! ## 5. One read, and those that follow it -/

/-- Participant `handle` of project `project`, still in it. -/
def whose (s : Ledger) (project : Nat) (handle : String) : Except LedgerError Nat :=
  if (s.projects.get? project).isNone then
    .error (.refused "unknown-project" s!"no project {project}" 404)
  else
    match s.participants.rows.find? fun p => p.project == project && p.handle == handle with
    | none =>
      .error (.refused "unknown-participant" s!"{quoted handle} is not in project {project}" 404)
    | some p =>
      if p.leftAt.isSome then .error (.refused "member-left" s!"@{handle} left the staff" 409)
      else .ok p.id

def HistoryFrom.newestFirst : HistoryFrom → Bool
  | newest | before _ => true
  | after _ => false

def HistoryFrom.key : HistoryFrom → Option HistoryKey
  | newest => none
  | before key | after key => some key

/-- What the read of participant `participant` goes by. -/
def HistoryAsk.asked (ask : HistoryAsk) (copy : Copy) (participant : Nat) : Asked where
  out := out
  copy := copy
  participant := participant
  newestFirst := ask.start.newestFirst
  needle := (ask.find.filter (!·.isEmpty)).map (folded out)
  tools := ask.tools
  room := ask.room
  scan := ask.scan
  start := ask.start.key

/-- A read that took nothing yet. -/
def Asked.begin (a : Asked) : Reading := ⟨[], 0, ⟨0, 0, 0, 0, 0⟩, a.start, false, false⟩

/-- `read_history`. -/
def readHistory (copy : Copy) (project : Nat) (handle : String) (ask : HistoryAsk) :
    Except LedgerError HistoryRead := do
  let participant ← whose copy.ledger project handle
  let asked := (ask.find.map List.length).getD 0
  if historyFindMax < asked then
    .error (.refused "invalid-text" s!"a search holds at most 1,000 characters; this one has {asked}" 400)
  else
    let a := ask.asked out copy participant
    let r := a.begin.conversations a a.past a.conversations
    .ok ⟨participant, r.entries, if r.full || r.bounded then r.resume else none, r.bounded, r.scanned,
      r.charged⟩

/-- Where the read that goes on from `key` begins. -/
def HistoryFrom.next (start : HistoryFrom) (key : HistoryKey) : HistoryFrom :=
  if start.newestFirst then .before key else .after key

/-- The `n`th of the reads that follow each answer's `resume`, with its own room and bound. -/
def nthRead (copy : Copy) (project : Nat) (handle : String) (find : Option Text) (tools : Bool)
    (bounds : Nat → Nat × Nat) (n : Nat) (start : HistoryFrom) :
    Option (List HistoryRow × Option HistoryFrom) :=
  match readHistory out copy project handle ⟨start, find, tools, (bounds n).1, (bounds n).2⟩ with
  | .error _ => none
  | .ok read => some (read.entries, read.resume.map start.next)

/-- The reads from `start` that follow each answer's `resume`, `count` of them at the most: their entries,
    one after the other, where they end. -/
def follow (copy : Copy) (project : Nat) (handle : String) (find : Option Text) (tools : Bool)
    (bounds : Nat → Nat × Nat) (count : Nat) (start : HistoryFrom) : Option (List HistoryRow) :=
  Paging.follow (nthRead out copy project handle find tools bounds) count 0 start

end History
end ConsensFlow
