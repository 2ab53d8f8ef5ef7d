/-
  File:      ConsensFlow/Words/DeliveryText.lean
  Subject:   HOW A MESSAGE READS IN ITS RECIPIENT'S PANE, and how a record proves that it arrived
             (`cf-engine`: `delivery_text.rs`; `cf-base`: `text.rs`; `cf-proto`: `cf_word.rs`;
             `cf-ledger`: `conversations/transcripts.rs`).

  * `windowText` -- text as a window takes it;
  * `CfWord.inText` -- the commands of a text started by the window's own `cf`;
  * `MessageView`, `textOf` -- a message's paste: its header, its words and those it carries, and
    what to do with it;
  * `isPasteOf`, `headerId`, `headerOf` -- whether an item is the paste of a message, and which
    message an item is.

  A character's class in Unicode (`char::is_alphanumeric`) is a parameter.
-/
import ConsensFlow.Lib.Json
import ConsensFlow.Lib.Text

namespace ConsensFlow.Deliveries

open Lib Lib.Text

/-! ## 1. Text as a window takes it -/

/-- The text with no carriage return before a line's end. -/
def unreturned : List Char → List Char
  | [] => []
  | c :: cs =>
    if c = '\r' ∧ cs.head? = some '\n' then unreturned cs else c :: unreturned cs

/-- A control character as a window is shown it. -/
def shown (c : Char) : Char :=
  if c = '\t' ∨ c = '\n' then c
  else if c.toNat ≤ 0x1F then Char.ofNat (0x2400 + c.toNat)
  else if c.toNat = 0x7F then Char.ofNat 0x2421
  else if 0x80 ≤ c.toNat ∧ c.toNat ≤ 0x9F then Char.ofNat 0xFFFD
  else c

def windowText (text : List Char) : List Char := (unreturned text).map shown

/-- `char::is_whitespace`. -/
def isWhitespace (c : Char) : Bool :=
  let n := c.toNat
  (0x9 ≤ n && n ≤ 0xD) || n == 0x20 || n == 0x85 || n == 0xA0 || n == 0x1680 ||
    (0x2000 ≤ n && n ≤ 0x200A) || n == 0x2028 || n == 0x2029 || n == 0x202F || n == 0x205F ||
    n == 0x3000

def trimStart (text : List Char) : List Char := text.dropWhile isWhitespace

def trim (text : List Char) : List Char := (trimStart (trimStart text).reverse).reverse

def startsWith (start text : List Char) : Bool := (stripPrefix start text).isSome

/-! ## 2. A window's `cf` -/

/-- The first word of a command that runs a window's own `cf`. -/
structure CfWord where
  word : String
  deriving DecidableEq, Repr

def commands : List String := ["task", "ask", "inbox", "answer", "note", "tell", "staff", "history"]

section Words

variable (alphanumeric : Char → Bool)

/-- Whether a word may begin after a character. -/
def startsAWord (before : Option Char) : Bool :=
  !before.any fun c => alphanumeric c || "_-./\\'$%".toList.contains c

/-- Whether a text begins with one of the board's commands as a word. -/
def namesACommand (rest : List Char) : Bool :=
  commands.any fun command =>
    (stripPrefix command.toList rest).any fun after =>
      !after.head?.any fun next => alphanumeric next || next == '-' || next == '_'

/-- A text with its commands started by `word`, `before` the character ahead of it; the letter
    `f` of a command taken is passed over. -/
def inTextFrom (word : List Char) : Bool → Option Char → List Char → List Char
  | _, _, [] => []
  | true, _, c :: cs => inTextFrom word false (some c) cs
  | false, before, c :: cs =>
    if (stripPrefix "cf ".toList (c :: cs)).any (namesACommand alphanumeric) &&
        startsAWord alphanumeric before then
      word ++ inTextFrom word true (some c) cs
    else c :: inTextFrom word false (some c) cs

def CfWord.inText (cf : CfWord) (text : String) : String :=
  if cf.word = "cf" then text
  else String.ofList (inTextFrom alphanumeric cf.word.toList false none text.toList)

/-! ## 3. A paste -/

/-- What a paste is made of. -/
structure MessageView where
  id : Int
  sender : Option String
  kind : String
  taskNumber : Option Int
  replyTo : Option Int
  body : String
  questions : Json.Value
  urgent : Bool

def inlineLimit : Nat := 16000
def openingUnits : Nat := 15000

def sentAgain : String := " · sent again after a restart, it may be there already"

/-- The characters whose units are no more than `units` together. -/
def openingFrom : Nat → List Char → List Char
  | _, [] => []
  | units, c :: cs => if utf16Width c ≤ units then c :: openingFrom (units - utf16Width c) cs else []

def opening (body : String) : String := String.ofList (openingFrom openingUnits body.toList)

namespace MessageView

/-- Who a message is from. -/
def fromOf (m : MessageView) : String :=
  match m.sender with
  | some sender => s!"@{sender}"
  | none => "ConsensFlow"

/-- The words of a row, its commands started by `cf` where ConsensFlow wrote them. -/
def bodyOf (row : MessageView) (cf : CfWord) : String :=
  if row.sender.isNone then cf.inText alphanumeric row.body else row.body

/-- The line before a row a paste carries. -/
def label (row : MessageView) : String :=
  match row.kind == "answer", row.replyTo with
  | true, some question =>
    s!"(kept for you: answer m-{row.id} from {row.fromOf}, to your m-{question})"
  | _, _ => s!"(kept for you: {row.kind} m-{row.id} from {row.fromOf})"

/-- What a carrier's paste says: its own words and the rows it carries, in the order of their
    ids. -/
def composite (carrier : MessageView) (carried : List MessageView) (cf : CfWord) : String :=
  let rows := (carried ++ [carrier]).mergeSort fun a b => a.id ≤ b.id
  "\n\n".intercalate (rows.map fun row =>
    if row.id = carrier.id then row.bodyOf alphanumeric cf
    else s!"{row.label}\n{row.bodyOf alphanumeric cf}")

/-- The words a message has whole, and the command that reads them where they are cut. -/
def wordsOf (m : MessageView) (carried : List MessageView) (cf : CfWord) : String × String :=
  match m.taskNumber.filter fun _ => !carried.isEmpty with
  | none => (m.bodyOf alphanumeric cf, s!"{cf.word} inbox read m-{m.id}")
  | some number => (m.composite alphanumeric carried cf, s!"{cf.word} task get T-{number}")

/-- What a reader is told to do with a message. -/
def footer (m : MessageView) (cf : CfWord) (toldIn : Option Int) : String :=
  if m.kind = "question" then
    if Json.Value.truthy (some m.questions) then
      let several := m.questions.asArray.any fun questions => questions.length > 1
      let lines := if several then "; one line per question" else ""
      s!"\n\nRun in your shell: {cf.word} answer m-{m.id} \"…\" (a label or your own words{lines})"
    else
      match m.urgent, m.taskNumber with
      | true, some task =>
        s!"\n\nT-{task} is paused for this. Run in your shell: {cf.word} answer m-{m.id} \"…\"; the chief resumes the task."
      | _, _ => s!"\n\nRun in your shell: {cf.word} answer m-{m.id} \"…\""
  else
    match m.kind == "result", m.taskNumber with
    | true, some task =>
      let beside := match toldIn with
        | some note =>
          s!"The turn on your words while T-{task} was paused ended with a report too, given in m-{note}: this result is the one to decide. "
        | none => ""
      s!"\n\n{beside}Decide with: {cf.word} task accept T-{task} · {cf.word} task reopen T-{task} \"…\""
    | _, _ => ""

/-- A message as it reads in its recipient's pane, `again` at the end of its header. -/
def textOf (m : MessageView) (carried : List MessageView) (cf : CfWord) (again : String)
    (toldIn : Option Int) : String :=
  let task := match m.taskNumber with
    | some number => s!" · T-{number}"
    | none => ""
  let (whole, readAll) := m.wordsOf alphanumeric carried cf
  let length := utf16Len whole
  let body := if length ≤ inlineLimit then whole
    else s!"{opening whole}\n… ({length} characters; read all of it with: {readAll})"
  s!"[ConsensFlow m-{m.id}{task} · {m.kind} from {m.fromOf}{again}]\n{body}{m.footer cf toldIn}"

/-- A message's paste, sent again after a restart or not, `toldIn` in its footer. -/
def deliveryTextBeside (m : MessageView) (carried : List MessageView) (cf : CfWord) (again : Bool)
    (toldIn : Option Int) : String :=
  m.textOf alphanumeric carried cf (if again then sentAgain else "") toldIn

def deliveryText (m : MessageView) (carried : List MessageView) (cf : CfWord) : String :=
  m.textOf alphanumeric carried cf "" none

/-- What a member's fresh window is given ahead of its first message. -/
def briefFirst (brief : MessageView) (carried : List MessageView) (cf : CfWord) : String :=
  s!"{brief.deliveryText alphanumeric carried cf}\n\n"

end MessageView
end Words

/-! ## 4. An item of a record -/

def headerStart : List Char := "[ConsensFlow m-".toList

/-- The start of a message's header. -/
def markerOf (id : Int) : List Char := (s!"[ConsensFlow m-{id} ").toList

def image : List Char := "[Image #".toList

def pastedTag : List Char := "pasted_content".toList

/-- What follows a placeholder that begins a text. -/
def afterPlaceholder (text : List Char) : Option (List Char) :=
  (stripPrefix image text).bind fun after =>
    if (after.takeWhile Char.isDigit).isEmpty then none
    else stripPrefix [']'] (after.dropWhile Char.isDigit)

/-- What follows the run of placeholders that begins a text, `seen` one before it, at most `fuel`
    of them. -/
def afterRun : Nat → Bool → List Char → Option (List Char)
  | 0, seen, rest => if seen then some rest else none
  | fuel + 1, seen, rest =>
    match afterPlaceholder rest with
    | none => if seen then some rest else none
    | some next =>
      match stripPrefix [' '] next with
      | some more => if startsWith image more then afterRun fuel true more else some next
      | none => some next

def afterPlaceholders (text : List Char) : Option (List Char) := afterRun text.length false text

/-- The attributes of the wrapper that begins a text, and what is after its line. -/
def afterWrapperOpening (text : List Char) : Option (List Char × List Char) :=
  (stripPrefix ('<' :: pastedTag) text).bind fun rest =>
    (splitOnce ['>', '\n'] rest).filter fun (attributes, _) =>
      (attributes.isEmpty || startsWith [' '] attributes) &&
        !(attributes.contains '>' || attributes.contains '\n')

/-- The tag that closes a wrapper. -/
def closingTag (attributes : List Char) : List Char :=
  '<' :: '/' :: (pastedTag ++ (attributes ++ ['>']))

/-- The paste in a wrapper, where the same tag closes after it; else the text. -/
def unwrapped (text : List Char) : List Char :=
  match afterWrapperOpening text with
  | none => text
  | some (attributes, inner) => if contains (closingTag attributes) inner then inner else text

/-- The lines of a text, each with its end. -/
def linesInclusive : List Char → List (List Char)
  | [] => []
  | c :: cs =>
    if c = '\n' then [c] :: linesInclusive cs
    else match linesInclusive cs with
      | [] => [[c]]
      | line :: more => (c :: line) :: more

/-- Whether a line ends with the name of an image file. -/
def namesAnImage (line : List Char) : Bool :=
  let line := trim line
  let line := ((stripSuffix ['"'] line).orElse fun _ => stripSuffix ['\''] line).getD line
  (splitOnce ['.'] line.reverse).any fun (kind, _) =>
    ["png", "jpg", "jpeg", "gif", "webp"].any fun image =>
      kind.reverse.map Char.toLower == image.toList

/-- What follows the lines of a brief in a paste, but for those taken out of it: blank ones, where
    pictures were attached, and the names of as many pictures. -/
def afterBriefLines (handled : Bool) : List (List Char) → Nat → List Char → Option (List Char)
  | [], _, rest => some rest
  | line :: lines, attached, rest =>
    match stripPrefix line rest with
    | some after => afterBriefLines handled lines attached after
    | none =>
      if handled && (trim line).isEmpty then afterBriefLines handled lines attached rest
      else if 0 < attached ∧ namesAnImage line then afterBriefLines handled lines (attached - 1) rest
      else none

def afterBrief (paste first : List Char) (attached : Nat) : Option (List Char) :=
  afterBriefLines (0 < attached) (linesInclusive first) attached paste

/-- The paste an item holds, behind the placeholders of the images attached or in its wrapper. -/
def pasteIn (text : List Char) : List Char :=
  match afterPlaceholders text with
  | some head =>
    match stripPrefix ['\n', '\n'] head with
    | some rest => unwrapped rest
    | none => head
  | none => unwrapped text

/-- How many pictures were taken out of an item. -/
def attachedIn (text : List Char) : Nat :=
  match afterPlaceholders text with
  | some head => (splitAll image (text.take (text.length - head.length))).length - 1
  | none => 0

/-- Whether an item is the paste of a message, which proves it arrived; `first` is what a fresh
    window was given ahead of it. -/
def isPasteOf (text : List Char) (id : Int) (first : Option (List Char)) : Bool :=
  if contains (markerOf id) text then
    let text := trimStart (windowText text)
    let behind := first.bind fun first =>
      afterBrief (pasteIn text) (windowText first) (attachedIn text)
    startsWith (markerOf id) (pasteIn text) || behind.any fun rest => startsWith (markerOf id) rest
  else false

/-- The message an item is: the one whose header comes first in it. -/
def headerId (text : List Char) : Option Int :=
  (splitOnce headerStart text).bind fun (_, after) => parseI64 (after.takeWhile Char.isDigit)

/-- The message a delivery's header names, as the ledger reads it: the first header with a number
    and a space after it. -/
def headerOf : List Char → Option Int
  | [] => none
  | c :: cs =>
    match stripPrefix headerStart (c :: cs) with
    | some after =>
      let digits := after.takeWhile Char.isDigit
      if !digits.isEmpty && startsWith [' '] (after.dropWhile Char.isDigit) then parseI64 digits
      else headerOf cs
    | none => headerOf cs

end ConsensFlow.Deliveries
