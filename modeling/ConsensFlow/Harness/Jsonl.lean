/-
  File:      ConsensFlow/Harness/Jsonl.lean
  Subject:   A JSONL FILE READ ON from where an earlier look stopped (`cf-harness`,
             `shared/record/jsonl.rs`), and a transcript followed from look to look (`followed.rs`).

  * `wholeLine` -- the records one line holds, and whether the rest of it is torn;
  * `Seen` -- where a look stopped; `check` -- whether the file is the one read so far;
  * `readChunk`, `endLine` -- the bytes read a chunk at a time, and what a line's end does;
  * `readOnWith` -- a look at the file; `Followed.read` -- a look at the transcript.

  What the crates outside read stays a parameter (`Reader`): the parser of a line's JSON, whether a
  line is JSON at all, where the values run together in one end, and the text a run of bytes is.
  A hash of the bytes read is those bytes: two are equal where they hash the same. A file's time is a
  double of milliseconds, counted in the double's own step (2^-12 ms in our years), in which a step of
  two seconds is added to it exactly. The daemon's log is left out.
-/
import ConsensFlow.Lib.Lines

namespace ConsensFlow
namespace Harness

abbrev Bytes := List UInt8

/-! ## 1. Lines -/

def newline : UInt8 := 10

/-- `is_json_space`. -/
def isJsonSpace (byte : UInt8) : Bool := byte == 32 || byte == 9 || byte == 13 || byte == 10

def isBlank (bytes : Bytes) : Bool := bytes.all isJsonSpace

def contains (haystack needle : Bytes) : Bool :=
  needle.isEmpty || haystack.tails.any fun rest => needle.isPrefixOf rest

/-- `DEEPEST`. -/
def deepest : Nat := 127

/-- Why a look stopped short. -/
inductive Stop where
  | failed (reason : String)
  /-- The file could not be read. -/
  | io (error : String)
  /-- The transcript is to be read again from its start. -/
  | reread
  deriving DecidableEq, Repr

namespace Stop

/-- What a reading says of it. -/
def reason : Stop → String
  | failed reason => reason
  | io error => error
  | reread => "read the transcript again"

end Stop

/-- How a line is read: what the crates outside do. -/
structure Reader (V : Type) where
  /-- `Parser::parse`. -/
  parse : Bytes → Option V
  /-- `is_json_lossy`. -/
  isJson : Bytes → Bool
  /-- Where each of the values a line begins with ends (`StreamDeserializer::byte_offset`). -/
  ends : Bytes → List Nat
  /-- `String::from_utf8_lossy`. -/
  lossy : Bytes → Bytes

variable {V P : Type}

namespace Reader

/-- What a parser of JSON promises: the white space after a record is no part of it, and bytes that
    are no text read as the text they stand for. -/
structure Lawful (r : Reader V) : Prop where
  parse_blank : ∀ line blank, isBlank blank → r.parse (line ++ blank) = r.parse line
  parse_lossy : ∀ line, r.parse (r.lossy line) = r.parse line

/-- The records of a line run together, and where the last of them ends. -/
def together (r : Reader V) (raw : Bytes) (start : Nat) : List Nat → List V × Nat
  | [] => ([], start)
  | stop :: stops =>
    match r.parse ((raw.drop start).take (stop - start)) with
    | none => ([], start)
    | some record =>
      let more := r.together raw stop stops
      (record :: more.1, more.2)

end Reader

def cannotHold (index : Nat) : Stop :=
  .failed s!"JSON this build cannot hold at record {index}: nested past {deepest} levels, or a number past a double's range"

/-- One whole line, which would be the record `index`: the records it holds, and whether the rest of
    it is torn. -/
def wholeLine (r : Reader V) (raw : Bytes) (index : Nat) : Except Stop (List V × Bool) :=
  if isBlank raw then .ok ([], false)
  else
    match r.parse raw with
    | some record => .ok ([record], false)
    | none =>
      if r.isJson raw then .error (cannotHold index)
      else
        let whole := r.together raw 0 (r.ends raw)
        .ok (whole.1, !isBlank (raw.drop whole.2))

/-! ## 2. Where a look stopped -/

/-- `EDGE_BYTES`. -/
def edgeBytes : Nat := 1024

/-- `TORN_WAIT_MS`. -/
def tornWaitMs : Int := 5000

/-- The steps of a file's time in a millisecond. -/
def perMs : Int := 4096

/-- `WRITE_TIME_STEP_MS`, in those steps. -/
def writeTimeStep : Int := 2000 * perMs

/-- A file as a look finds it. -/
structure File where
  identity : Nat
  /-- When it was last written (`mtimeMs`). -/
  mtime : Int
  bytes : Bytes

/-- An unfinished last line that is no record, as long as when it was first found. -/
structure Unfinished where
  since : Int
  said : Bool
  deriving DecidableEq, Repr

/-- Where a look at a file stopped: the next look reads on from here. -/
structure Seen where
  identity : Nat
  size : Nat
  mtime : Int
  looked : Int
  since : Int
  offset : Nat
  edge : Bytes
  read : Bytes
  rest : Bytes
  tail : Bytes
  records : Nat
  passedOver : List Nat
  tornSince : Option Int
  unfinished : Option Unfinished
  deriving DecidableEq, Repr

/-- What a look found. -/
inductive Looked where
  | unchanged
  | held (seen : Seen)
  | read (seen : Seen)
  | notTheFile
  deriving DecidableEq, Repr

namespace Looked

/-- Where the next look starts. -/
def stopped (seen : Option Seen) : Looked → Option Seen
  | held seen | read seen => some seen
  | _ => seen

/-- Whether the look read anything. -/
def changed : Looked → Bool
  | read _ => true
  | _ => false

end Looked

/-- No write since can have kept the time `written`. -/
def settled (written since checked now : Int) : Bool :=
  written + writeTimeStep < checked * perMs ||
    (since * perMs + writeTimeStep < checked * perMs && now * perMs + writeTimeStep < written)

/-- `bytes_at`. -/
def bytesAt (file : File) (first last : Nat) : Bytes := (file.bytes.take last).drop first

/-- Whether the file still holds `bytes` at `begins`. -/
def holds (file : File) (begins : Nat) (bytes : Bytes) : Bool :=
  bytes.isEmpty || bytesAt file begins (begins + bytes.length) == bytes

def waited (looked since : Int) : Bool := tornWaitMs ≤ looked - since

/-- The torn line the last look stopped at, if its wait is over. -/
def doneWaiting (seen : Option Seen) (looked : Int) : Option Nat :=
  seen.bind fun seen => if seen.tornSince.any (waited looked) then some seen.offset else none

/-- An unfinished last line that has not grown for the wait, and is not said yet. -/
def unfinishedDue (seen : Seen) (looked : Int) : Bool :=
  seen.unfinished.any fun it => !it.said && waited looked it.since

/-- As long and as old as the last look found it, and nothing is due. -/
def same (file : File) (seen : Seen) (looked : Int) : Bool :=
  file.bytes.length == seen.size && file.mtime == seen.mtime &&
    (doneWaiting (some seen) looked).isNone && !unfinishedDue seen looked

/-- What is known of the file before it is read on: none where it is. -/
def check (file : File) (seen : Seen) (looked : Int) : Option Looked :=
  if file.identity ≠ seen.identity then some .notTheFile
  else if same file seen looked && settled file.mtime seen.since seen.looked looked then
    some .unchanged
  else if !holds file (seen.offset - seen.edge.length) seen.edge ||
      !holds file seen.offset seen.tail then
    some .notTheFile
  else if same file seen looked then
    if settled file.mtime seen.since looked looked && file.bytes.take seen.offset ≠ seen.read then
      some .notTheFile
    else if file.bytes.drop seen.offset = seen.rest then some (.held { seen with looked := looked })
    else none
  else none

/-! ## 3. Reading on -/

/-- A torn line read and not yet passed over: the byte it begins at, the place among the records it
    stands at, and every byte before it. -/
structure Torn where
  begins : Nat
  index : Nat
  read : Bytes
  deriving DecidableEq, Repr

/-- A look reading on. -/
structure Scan (P : Type) where
  line : Bytes
  /-- The line is the rest of the tail's, whose record was visited. -/
  visited : Bool
  tail : Bytes
  offset : Nat
  records : Nat
  /-- The torn lines since the last record, which wait for one. -/
  waiting : List Torn
  /-- The torn line whose wait is over was met: those after it go with it. -/
  passing : Bool
  places : List Nat
  hashed : Bytes
  state : P

/-- Why a look reads no further. -/
inductive Broke where
  | notTheFile
  | stop (stop : Stop)
  deriving DecidableEq, Repr

/-- A record given to the parser, with its place and the byte its line begins at. -/
abbrev Visit (V P : Type) := P → V → Nat → Nat → Except Stop P

/-- What one look reads by. -/
structure Looking (V P : Type) where
  reader : Reader V
  visit : Visit V P
  /-- Lines that do not hold these bytes are passed over unparsed. -/
  only : Option Bytes
  /-- The torn line whose wait is over. -/
  done : Option Nat

namespace Looking

def holdsOnly (k : Looking V P) (line : Bytes) : Bool := k.only.all (contains line)

/-- A record read: the torn lines that waited for one are passed over. -/
def take (k : Looking V P) (s : Scan P) (record : V) : Except Broke (Scan P) :=
  match k.visit s.state record s.records s.offset with
  | .error stop => .error (.stop stop)
  | .ok state =>
    .ok { s with
      places := s.places ++ s.waiting.map Torn.index
      waiting := []
      passing := false
      records := s.records + 1
      state := state }

/-- The rest of a line, torn: passed over at once where it cannot become a record. -/
def torn (k : Looking V P) (s : Scan P) (led : Bool) : Scan P :=
  let passing := s.passing || k.done == some s.offset
  if led || passing then
    { s with passing := passing, places := s.places ++ [s.records] }
  else
    { s with passing := passing, waiting := s.waiting ++ [⟨s.offset, s.records, s.hashed⟩] }

/-- The line's bytes, at its newline. -/
def lineRead (k : Looking V P) (s : Scan P) : Except Broke (Scan P) :=
  if s.visited then
    -- A record visited whole may be followed by nothing but white space.
    if isBlank s.line then .ok { s with visited := false, hashed := s.hashed ++ s.tail, tail := [] }
    else .error .notTheFile
  else if k.holdsOnly s.line then
    match wholeLine k.reader s.line s.records with
    | .error stop => .error (.stop stop)
    | .ok (whole, isTorn) => do
      let s ← whole.foldlM k.take s
      .ok (if isTorn then k.torn s (!whole.isEmpty) else s)
  else .ok s

/-- A line ended: the next begins at `next`. -/
def endLine (k : Looking V P) (next : Nat) (s : Scan P) : Except Broke (Scan P) := do
  let s ← k.lineRead s
  .ok { s with hashed := s.hashed ++ s.line ++ [newline], line := [], offset := next }

/-- A chunk read at the byte `begins`. -/
def readChunk (k : Looking V P) (begins : Nat) (chunk : Bytes) (s : Scan P) :
    Except Broke (Scan P) :=
  match chunk with
  | [] => .ok s
  | byte :: chunk =>
    if byte = newline then do
      let s ← k.endLine (begins + 1) s
      k.readChunk (begins + 1) chunk s
    else k.readChunk (begins + 1) chunk { s with line := s.line ++ [byte] }

/-- The chunks, one after the other. -/
def readChunks (k : Looking V P) (begins : Nat) : List Bytes → Scan P → Except Broke (Scan P)
  | [], s => .ok s
  | chunk :: chunks, s => do
    let s ← k.readChunk begins chunk s
    k.readChunks (begins + chunk.length) chunks s

end Looking

/-- A look begins where the last stopped. -/
def start (seen : Option Seen) (state : P) : Scan P :=
  match seen with
  | none => ⟨[], false, [], 0, 0, [], false, [], [], state⟩
  | some seen =>
    ⟨[], !seen.tail.isEmpty, seen.tail, seen.offset, seen.records, [], false, seen.passedOver,
      seen.read, state⟩

/-- Where the look stops: before the first torn line that waits. -/
def close (file : File) (seen : Option Seen) (looked : Int) (s : Scan P)
    (unfinished : Option Unfinished) : Seen :=
  let offset := (s.waiting.head?.map Torn.begins).getD s.offset
  let kept := seen.filter fun seen => seen.offset == offset
  { identity := file.identity
    size := file.bytes.length
    mtime := file.mtime
    looked := looked
    since := ((seen.filter fun seen => seen.mtime == file.mtime).map Seen.since).getD looked
    offset := offset
    edge := (kept.map Seen.edge).getD (bytesAt file (offset - edgeBytes) offset)
    read := (s.waiting.head?.map Torn.read).getD s.hashed
    rest := file.bytes.drop offset
    tail := s.tail
    records := s.records
    passedOver := s.places
    tornSince := s.waiting.head?.map fun _ => (kept.bind Seen.tornSince).getD looked
    unfinished := unfinished }

/-- An unfinished last line that does not grow is said once its wait is over. -/
def stillUnfinished (file : File) (seen : Option Seen) (looked : Int) : Unfinished :=
  let it := ((seen.filter fun seen => seen.size == file.bytes.length).bind
    Seen.unfinished).getD ⟨looked, false⟩
  if !it.said && waited looked it.since then { it with said := true } else it

/-- The bytes are all read: the last line may have no newline yet. -/
def finish (k : Looking V P) (file : File) (seen : Option Seen) (looked : Int) (s : Scan P) :
    Except Broke (Looked × P) :=
  if s.visited then
    if isBlank s.line then .ok (.read (close file seen looked s none), s.state)
    else .error .notTheFile
  else if !isBlank s.line && k.holdsOnly s.line then
    match k.reader.parse (k.reader.lossy s.line) with
    | some record => do
      let s' ← k.take s record
      .ok (.read (close file seen looked { s' with tail := s.line } none), s'.state)
    | none =>
      if k.reader.isJson s.line then .error (.stop (cannotHold s.records))
      else .ok (.read (close file seen looked s (some (stillUnfinished file seen looked))), s.state)
  else .ok (.read (close file seen looked s none), s.state)

/-- Reads on in `file` from `seen`, in a look that began at `looked`, the bytes read in pieces cut at
    `cuts`. -/
def readOnWith (reader : Reader V) (visit : Visit V P) (only : Option Bytes) (cuts : List Nat)
    (file : File) (seen : Option Seen) (looked : Int) (state : P) : Except Stop (Looked × P) :=
  match seen.bind fun seen => check file seen looked with
  | some answer => .ok (answer, state)
  | none =>
    let k : Looking V P := ⟨reader, visit, only, doneWaiting seen looked⟩
    let s := start seen state
    let begins := s.offset + s.tail.length
    let looked := do
      let s ← k.readChunks begins (Lib.Lines.pieces cuts (file.bytes.drop begins)) s
      finish k file seen looked s
    match looked with
    | .ok answer => .ok answer
    | .error .notTheFile => .ok (.notTheFile, state)
    | .error (.stop stop) => .error stop

/-! ## 4. A transcript followed -/

/-- What reads a transcript's records into what they say. -/
structure Parser (V P : Type) where
  reader : Reader V
  visitAt : Visit V P
  flush : P → Except String P
  /-- How a fresh state is made, for the file it reads. -/
  fresh : String → P

/-- What a look finds on the disk. -/
structure Disk where
  /-- Where the transcript is, if the harness keeps one yet. -/
  locate : Except String (Option String)
  file : String → Except String File

/-- A file's identity, size and time. -/
abbrev Stat := Nat × Nat × Int

def File.stat (file : File) : Stat := (file.identity, file.bytes.length, file.mtime)

/-- A transcript followed from look to look. -/
structure Followed (P : Type) where
  file : Option String
  seen : Option Seen
  state : Option P
  /-- A failure, kept until the file changes, with when the look that found it began. -/
  broken : Option (Stat × Int × String)

/-- What a look at a followed transcript read. -/
structure Read (P : Type) where
  state : P
  file : String
  changed : Bool
  lost : List Nat

namespace Followed

def new : Followed P := ⟨none, none, none, none⟩

/-- A look reads on, or from the start into a fresh state: `fuel` times at the most. -/
def reads (p : Parser V P) (cuts : List Nat) (path : String) (file : File) (now : Int) :
    Nat → Followed P → Option (Except Stop (Option (Read P)) × Followed P)
  | 0, _ => none
  | fuel + 1, f =>
    let failed (stop : Stop) : Option (Except Stop (Option (Read P)) × Followed P) :=
      some (.error stop,
        { f with seen := none, state := none, broken := some (file.stat, now, stop.reason) })
    match readOnWith p.reader p.visitAt none cuts file f.seen now (f.state.getD (p.fresh path)) with
    | .error .reread | .ok (.notTheFile, _) =>
      reads p cuts path file now fuel { f with seen := none, state := none }
    | .error stop => failed stop
    | .ok (looked, state) =>
      match p.flush state with
      | .error reason => failed (.failed reason)
      | .ok state =>
        let seen := looked.stopped f.seen
        some (.ok (some ⟨state, path, looked.changed, (seen.map Seen.passedOver).getD []⟩),
          { f with seen := seen, state := some state })

/-- Where the transcript is: looked for again once its file is gone. -/
def located (f : Followed P) (disk : Disk) : Except Stop (Followed P) :=
  match f.file.bind fun path => (disk.file path).toOption with
  | some _ => .ok f
  | none =>
    match disk.locate with
    | .error reason => .error (.failed reason)
    | .ok path => .ok (if path ≠ f.file then ⟨path, none, none, none⟩ else { f with file := path })

/-- A look that began at `now`: none when the harness keeps no transcript of the conversation. -/
def read (p : Parser V P) (f : Followed P) (disk : Disk) (cuts : List Nat) (now : Int)
    (fuel : Nat) : Option (Except Stop (Option (Read P)) × Followed P) :=
  match f.located disk with
  | .error stop => some (.error stop, f)
  | .ok f =>
    match f.file with
    | none => some (.ok none, f)
    | some path =>
      match disk.file path with
      | .error error => some (.error (.io error), f)
      | .ok file =>
        match f.broken.filter fun (stat, looked, _) =>
            stat == file.stat && settled stat.2.2 looked looked now with
        | some (_, _, reason) => some (.error (.failed reason), f)
        | none => reads p cuts path file now fuel { f with broken := none }

end Followed
end Harness
end ConsensFlow
