/-
  File:      ConsensFlow/History/CopyRows.lean
  Subject:   THE ROWS THE COPY IS KEPT IN (`cf-ledger`, `conversations/transcripts.rs`): an item's row,
             its head, and its text in parts where it is long.

  * `CopyRows` -- the tables; `ItemRow.parts`, the parts an item's text is to be kept in;
  * `writeHead`, `writeParts` -- what the copy writes with an item's row;
  * `copyTranscript` -- the copy of a window's conversation: an upsert an item, at its place;
  * `headCopied`, `splitCopied` -- what the migration writes of the items copied before;
  * `readHistoryPart` -- a part read alone (`conversations/history.rs`); `wholeText`, the parts that
    follow one another;
  * `Reached` -- the tables any run leaves.

  When an item was copied, what its head draws of it (`write_drawn`) and the rows' bytes are left out:
  no read of a part reads them.
-/
import ConsensFlow.Lib.Rows
import ConsensFlow.History.Reading
import ConsensFlow.Members

namespace ConsensFlow
namespace History

open Lib Lib.Rows Lib.Text

/-! ## 1. The tables -/

/-- A row of `transcript`, under its rowid; its conversation and its id are its primary key. -/
structure ItemRow where
  row : Nat
  conversation : Nat
  id : Text
  seq : Int
  role : ItemRole
  text : Text
  complete : Bool
  at_ : Option String
  compaction : Bool
  detail : Option ItemDetail
  drawnOnly : Bool
  deriving DecidableEq, Repr

/-- A row of `transcript_head`. -/
structure HeadRow where
  item : Nat
  conversation : Nat
  role : ItemRole
  bytes : Nat
  parts : Nat
  idShown : Text
  complete : Bool
  at_ : Option String
  compaction : Bool
  revision : Int := 0
  deriving DecidableEq, Repr

/-- A row of `transcript_part`. -/
structure PartRow where
  item : Nat
  part : Nat
  tail : Text
  text : Text
  deriving DecidableEq, Repr

def PartRow.key (p : PartRow) : Nat × Nat := (p.item, p.part)

structure CopyRows where
  ledger : Ledger
  transcript : List ItemRow
  heads : List HeadRow
  parts : List PartRow

namespace ItemRow

/-- The primary key. -/
def place (i : ItemRow) : Nat × Text := (i.conversation, i.id)

/-- The parts the item's text is kept in. -/
def parts (i : ItemRow) : List Text := partsOf i.text (idInRow < octets i.id)

/-- The row of a part. -/
def partRow (i : ItemRow) (part : Nat) (text : Text) : PartRow := ⟨i.row, part, tailOf text, text⟩

def head (i : ItemRow) (parts : Nat) : HeadRow where
  item := i.row
  conversation := i.conversation
  role := i.role
  bytes := octets i.text
  parts := parts
  idShown := shownId i.id
  complete := i.complete
  at_ := i.at_
  compaction := i.compaction

end ItemRow

/-! ## 2. What is written with an item's row -/

/-- A head written before, as `head` writes it: the next revision of it. -/
def HeadRow.rewritten (head old : HeadRow) : HeadRow :=
  { old with
    role := head.role, bytes := head.bytes, parts := head.parts, complete := head.complete
    at_ := head.at_, revision := old.revision + 1 }

/-- `write_head`. -/
def writeHead (head : HeadRow) (heads : List HeadRow) : List HeadRow :=
  upsert HeadRow.item head.rewritten head heads

/-- A part written, where it changed. -/
def writePart (item : Nat) (parts : List PartRow) (piece : Text × Nat) : List PartRow :=
  upsert PartRow.key
    (fun old => if old.text ≠ piece.1 then { old with tail := tailOf piece.1, text := piece.1 } else old)
    ⟨item, piece.2, tailOf piece.1, piece.1⟩ parts

/-- `write_parts`: each part, and those past the last taken away. -/
def writeParts (item : Nat) (pieces : List Text) (parts : List PartRow) : List PartRow :=
  (pieces.zipIdx.foldl (writePart item) parts).filter fun p =>
    !(p.item = item && pieces.length ≤ p.part)

/-! ## 3. The copy -/

/-- `ok_or`. -/
def okOr {α : Type} (found : Option α) (cause : LedgerError) : Except LedgerError α :=
  match found with
  | some a => .ok a
  | none => .error cause

/-- What an item says of how it draws, each field none where it is not there or no such value. -/
structure GivenDetail where
  kind : Option String
  name : Option String
  header : Option Text
  status : Option String
  tookMs : Option Nat
  tokens : Option Nat
  diff : Option Text

/-- An item as a harness's record gives it, as the copy reads it: `complete` where it does not say `false`,
    the other flags where it says `true`. -/
structure Given where
  id : Option Text
  role : Option String
  text : Option Text
  complete : Bool
  at_ : Option String
  compaction : Bool
  detail : Option GivenDetail
  drawnOnly : Bool

/-- `cut`. -/
def cut (text : Text) (max : Nat) : Text :=
  let length := (text.map utf16Width).sum
  if length ≤ max then text
  else
    let gap := if max = 0 then "" else "\n"
    utf16Take max text ++ s!"{gap}… ({length} characters; cut here)".toList

def ItemRole.ofWord : Option String → ItemRole
  | some "user" => .user
  | some "assistant" => .assistant
  | some "tool" => .tool
  | _ => .custom

def DrawnKind.all : List DrawnKind := [prompt, text, thinking, tool, compaction, notice]

def DrawnStatus.all : List DrawnStatus := [running, ok, failed]

/-- `Drawn::of`: none of a kind it does not know. -/
def GivenDetail.drawn (d : GivenDetail) : Option ItemDetail := do
  let kind ← d.kind.bind fun said => DrawnKind.all.find? fun kind => kind.word == said
  some {
    kind := kind
    name := d.name.map fun name => String.ofList (name.toList.take nameMax)
    header := d.header.map (List.take headerMax)
    status := d.status.bind fun said => DrawnStatus.all.find? fun status => status.word == said
    tookMs := d.tookMs
    tokens := d.tokens
    diff := d.diff.map fun diff => cut diff historyPart }

/-- `id_of`: an item's id, where it has one that is not empty. -/
def Given.idOf (given : Given) : Option Text := given.id.filter (!·.isEmpty)

namespace CopyRows

def known (t : CopyRows) (conversation : Nat) (id : Text) : Option ItemRow :=
  rowAt ItemRow.place (conversation, id) t.transcript

/-- `misplaced`: which of the items are only the history's and would stand before one copied already, and
    whether any of them is copied. -/
def misplaced (t : CopyRows) (conversation : Nat) : List Given → List Bool × Bool
  | [] => ([], false)
  | given :: rest =>
    let (marks, laterCopied) := misplaced t conversation rest
    match given.idOf with
    | none => (false :: marks, laterCopied)
    | some id =>
      let present := (t.known conversation id).isSome
      ((given.drawnOnly && !present && laterCopied) :: marks, laterCopied || present)

/-- The rowid a new row gets: the one after the last. -/
def nextRow (t : CopyRows) : Nat := (t.transcript.map ItemRow.row).foldr max 0 + 1

/-- Whether an item copied before says something else now. -/
def changed (old new : ItemRow) : Bool :=
  old.text != new.text || old.complete != new.complete || old.role != new.role ||
    old.detail != new.detail || old.drawnOnly != new.drawnOnly

/-- The upsert of an item: the row it wrote, and the rows then; none where nothing of it changed. -/
def upsertItem (t : CopyRows) (new : ItemRow) : Option (ItemRow × List ItemRow) :=
  match t.known new.conversation new.id with
  | none =>
    let row := { new with row := t.nextRow }
    some (row, t.transcript ++ [row])
  | some old =>
    if changed old new then
      let row := { new with row := old.row, compaction := old.compaction }
      some (row, t.transcript.map fun i => if i.place = row.place then row else i)
    else none

/-- An item copied: its row, its head and its parts. -/
def copyItem (t : CopyRows) (new : ItemRow) : Option CopyRows :=
  (t.upsertItem new).map fun (row, transcript) => { t with
    transcript := transcript
    heads := writeHead (row.head row.parts.length) t.heads
    parts := writeParts row.row row.parts t.parts }

/-- Where an item goes: where it stands, or where it is wanted and nothing older stands; else at the end. -/
def placeOf (t : CopyRows) (conversation : Nat) (id : Text) (wanted next : Int) : Int :=
  let free := if t.transcript.any fun i => i.conversation == conversation && i.seq == wanted && i.id != id
    then next else wanted
  match t.known conversation id with
  | some held => if wanted ≤ held.seq then held.seq else free
  | none => free

end CopyRows

/-- A copy as it goes: the tables, the place after every item, and how many rows changed. -/
structure Copying where
  rows : CopyRows
  next : Int
  written : Nat

/-- The row an item is copied to. -/
def Given.row (given : Given) (conversation : Nat) (id : Text) (place : Int) : ItemRow :=
  let role := ItemRole.ofWord given.role
  let drawn := given.detail.bind GivenDetail.drawn
  let thinking := drawn.any fun drawn => drawn.kind == .thinking
  let text := given.text.getD []
  { row := 0, conversation := conversation, id := id, seq := place, role := role
    text := if role == .tool || thinking then cut text historyPart else text
    complete := given.complete, at_ := given.at_.bind canonicalTime, compaction := given.compaction
    detail := drawn, drawnOnly := given.drawnOnly }

/-- One item of a copy, wanted at its place in the record. -/
def Copying.item (conversation : Nat) (wanted : Int) (given : Given) (c : Copying) : Copying :=
  match given.idOf with
  | none => c
  | some id =>
    let place := c.rows.placeOf conversation id wanted c.next
    let next := max c.next (place + 1)
    match c.rows.copyItem (given.row conversation id place) with
    | none => { c with next := next }
    | some rows => ⟨rows, next, c.written + 1⟩

/-- The items of a copy from the `index`th on, each with whether it is misplaced. -/
def Copying.items (conversation : Nat) (start : Int) :
    List (Given × Bool) → Nat → Copying → Copying
  | [], _, c => c
  | (given, misplaced) :: rest, index, c =>
    items conversation start rest (index + 1)
      (if misplaced then c else c.item conversation (start + index) given)

namespace CopyRows

/-- `copy_transcript`: the tables then, and how many rows changed. -/
def copyTranscript (conversation : Nat) (items : List Given) (start : Int) (t : CopyRows) :
    Except LedgerError (CopyRows × Nat) := do
  let _ ← okOr (t.ledger.conversations.get? conversation) (unknownConversation conversation)
  let seqs := (t.transcript.filter fun i => i.conversation == conversation).map ItemRow.seq
  let next := seqs.foldr max (-1) + 1
  let c := Copying.items conversation start (items.zip (t.misplaced conversation items).1) 0 ⟨t, next, 0⟩
  .ok (c.rows, c.written)

/-! ## 4. What the migration writes -/

/-- `head_copied`: the head of every item copied before, its time kept as a store keeps one. -/
def headCopied (t : CopyRows) : CopyRows :=
  let transcript := t.transcript.map fun i => { i with at_ := i.at_.bind canonicalTime }
  { t with transcript := transcript, heads := transcript.map fun i => i.head 0 }

/-- One long item kept in parts, and how many written to its head. -/
def splitItem (t : CopyRows) (i : ItemRow) : CopyRows :=
  { t with
    parts := t.parts ++ i.parts.zipIdx.map fun piece => i.partRow piece.2 piece.1
    heads := t.heads.map fun head =>
      if head.item = i.row then { head with parts := i.parts.length } else head }

/-- `split_copied`: only a text of more bytes than a part's characters can be longer than a part. -/
def splitCopied (t : CopyRows) : CopyRows :=
  (t.transcript.filter fun i => historyPart < octets i.text || idInRow < octets i.id).foldl splitItem t

end CopyRows

/-! ## 5. A part read alone -/

structure TextPart where
  text : Text
  start : Nat
  next : Option Nat
  revision : Int
  deriving DecidableEq, Repr

open CopyRows

/-- `PART_HEAD`: the head of an item of a participant's conversation. -/
def CopyRows.partHead (t : CopyRows) (participant conversation row : Nat) : Option HeadRow :=
  (rowAt HeadRow.item row t.heads).filter fun head => head.conversation == conversation &&
    (t.ledger.conversations.get? conversation).any fun c => c.participant == participant

/-- `read_history_part`: from character `start` of the item to the end of the part its copy keeps it
    in. -/
def readHistoryPart (t : CopyRows) (project : Nat) (handle : String) (conversation row start : Nat) :
    Except LedgerError TextPart := do
  let participant ← whose t.ledger project handle
  let head ← okOr (t.partHead participant conversation row)
    (.refused "unknown-item" s!"no item at row {row} of {handle}'s conversation {conversation}" 404)
  if 0 < head.parts then
    let index := min (start / historyPart) (head.parts - 1)
    let text := ((rowAt PartRow.key (row, index) t.parts).map PartRow.text).getD []
    .ok ⟨chars text (start - index * historyPart) historyPart, start,
      if index + 1 < head.parts then some ((index + 1) * historyPart) else none, head.revision⟩
  else
    let item ← okOr (rowAt ItemRow.row row t.transcript) (.sqlite "Query returned no rows")
    let part := chars item.text start historyPart
    let next := start + part.length
    .ok ⟨part, start, if next < item.text.length then some next else none, head.revision⟩

/-- The parts of an item from `start` on, each from the place the one before says, `fuel` of them at the
    most: their texts, one after the other, where they end. -/
def textFrom (t : CopyRows) (project : Nat) (handle : String) (conversation row : Nat) :
    Nat → Nat → Option Text
  | 0, _ => none
  | fuel + 1, start =>
    match readHistoryPart t project handle conversation row start with
    | .error _ => none
    | .ok part =>
      match part.next with
      | none => some part.text
      | some next => (textFrom t project handle conversation row fuel next).map (part.text ++ ·)

/-! ## 6. Runs -/

/-- The rows whose conversations are still there: what goes with a conversation that goes. -/
def CopyRows.under (t : CopyRows) (ledger : Ledger) : CopyRows :=
  let there := fun conversation => (ledger.conversations.get? conversation).isSome
  let heads := t.heads.filter fun head => there head.conversation
  { ledger := ledger
    transcript := t.transcript.filter fun i => there i.conversation
    heads := heads
    parts := t.parts.filter fun part => heads.any fun head => head.item = part.item }

/-- The items of a copy made before there were heads: one a row, and one an id of a conversation. -/
def Apart (old : List ItemRow) : Prop :=
  (old.map ItemRow.row).Nodup ∧ (old.map ItemRow.place).Nodup

/-- The tables a run leaves: the migration's (of no items, where the copy is new), those of any copy of
    any items after it, and those anything else the ledger does leaves. -/
inductive Reached : CopyRows → Prop
  | migrated (ledger : Ledger) {old : List ItemRow} (apart : Apart old) :
      Reached (splitCopied (headCopied ⟨ledger, old, [], []⟩))
  | copied {t t' : CopyRows} {conversation : Nat} {items : List Given} {start : Int} {written : Nat}
      (reached : Reached t) (h : t.copyTranscript conversation items start = .ok (t', written)) : Reached t'
  | elsewhere {t : CopyRows} (reached : Reached t) (ledger : Ledger) : Reached (t.under ledger)

end History
end ConsensFlow
