/-
  File:      ConsensFlow/Processes/Baseline.lean
  Subject:   WHAT A WINDOW'S PROGRAM STARTED AND LEFT RUNNING (`cf-panes`, `background.rs`, with
             `background/work.rs` and `background/harness.rs`).

  * `ProcessTree` -- a window's processes, none of them twice, with the one that started each;
  * `turns`, `detached` -- the turn's work, by a chain up to a shell the harness started; the work
    that lost its starter;
  * `own`, `programs`, `Baseline.protected_` -- the harness's own, and what was seen so;
  * `Baseline.mark`, `rest`, `turnWork`, `detached`, `named`, `commands` -- the host's calls;
  * `Window.step` -- a window: its baseline, the copies looks are made with, and the harness's own
    that they share.
-/
import ConsensFlow.Lib.Climb

namespace ConsensFlow
namespace Processes

open Lib.Climb

/-! ## 1. Processes -/

/-- A process by what tells it from a later one of the same number. -/
structure ProcessKey where
  pid : Nat
  began : Nat
  deriving DecidableEq, Repr

/-- A process of a pane's tree. -/
structure Member where
  key : ProcessKey
  command : String
  program : String
  exe : String
  group : Option Int
  parent : Option ProcessKey
  deriving DecidableEq, Repr

/-- The processes of a pane's tree, none of them twice. -/
structure ProcessTree where
  members : List Member
  distinct : (members.map Member.key).Nodup

/-- `by_key.get`: the process of a key. -/
def byKey (members : List Member) (key : ProcessKey) : Option Member :=
  members.find? fun m => m.key == key

/-- `sort_by_key(|member| (member.key.began, member.key.pid))` -/
def ProcessKey.before (a b : ProcessKey) : Bool :=
  decide (a.began < b.began ∨ (a.began = b.began ∧ a.pid ≤ b.pid))

def sorted (members : List Member) : List Member :=
  members.mergeSort fun a b => a.key.before b.key

/-- `descending_from`: what is in `roots`, or descends from a process in it. -/
def rootLook (roots : List ProcessKey) (members : List Member) (at_ : Member) : Bool ⊕ Member :=
  if roots.contains at_.key then .inl true
  else match at_.parent.bind (byKey members) with
    | some parent => .inr parent
    | none => .inl false

def descendingFrom (roots : List ProcessKey) (members : List Member) : List ProcessKey :=
  if roots.isEmpty then []
  else (members.filter fun m => climb (rootLook roots members) (members.length + 1) m).map Member.key

/-! ## 2. Programs -/

def lower (text : List Char) : List Char := text.map Char.toLower

def isSeparator (c : Char) : Bool := c == '/' || c == '\\'

def dotExe : List Char := ['.', 'e', 'x', 'e']

/-- `SHELLS` -/
def shells : List (List Char) :=
  ["sh", "bash", "zsh", "dash", "ksh", "fish", "csh", "tcsh", "powershell", "pwsh"].map String.toList

/-- `strip_exe`: a file without a `.exe`. -/
def stripExe (file : List Char) : List Char :=
  if dotExe.isSuffixOf (lower file) then file.take (file.length - dotExe.length) else file

/-- `is_shell` -/
def isShell (program : List Char) : Bool := shells.contains (lower (stripExe program))

/-- `runs_a_shell`: by the file its path names, else by the name of its program. -/
def runsAShell (m : Member) : Bool :=
  let file := (m.exe.toList.reverse.takeWhile fun c => !isSeparator c).reverse
  if file.isEmpty then isShell m.program.toList else isShell file

/-- `split`: the directory and the file of a program's path. -/
def splitPath (exe : List Char) : Option (List Char × List Char) :=
  let file := (exe.reverse.takeWhile fun c => !isSeparator c).reverse
  match exe.reverse.dropWhile fun c => !isSeparator c with
  | [] => none
  | _ :: dir => if file.isEmpty then none else some (dir.reverse, file)

/-- `name_of` -/
def nameOf (program : List Char) : List Char := lower (stripExe program)

/-- `stem_of` -/
def stemOf (exe : List Char) : List Char :=
  ((splitPath exe).map fun path => nameOf path.2).getD []

/-- `same_directory`: Windows' have no case. -/
def sameDirectory (windows : Bool) (a b : List Char) : Bool :=
  if windows then lower a == lower b else a == b

/-- `programs`: the programs of the harness's own, beside its binary, and what descends from them. -/
def programs (windows : Bool) (harness : String) (members : List Member) : List ProcessKey :=
  let harness := lower harness.toList
  let homes := (members.filter fun m =>
    nameOf m.program.toList == harness || stemOf m.exe.toList == harness).filterMap fun m =>
      (splitPath m.exe.toList).map Prod.fst
  let roots := (members.filter fun m => (splitPath m.exe.toList).any fun path =>
    (harness ++ ['-']).isPrefixOf (lower (stripExe path.2)) &&
      homes.any fun home => sameDirectory windows home path.1).map Member.key
  descendingFrom roots members

/-! ## 3. The harness's servers -/

/-- How a harness keeps its servers. -/
inductive Servers where
  | inGroup | atLaunch | byShell | unknown
  deriving DecidableEq, Repr

/-- What the daemon said of the harness at a mark, with the group of the window's program. -/
structure Kept where
  group : Option Int
  servers : Servers
  deriving DecidableEq, Repr

/-- `Kept::of` -/
def Kept.of (servers : Servers) (group : Option Int) : Option Kept :=
  if servers = .unknown then none else some { group, servers }

/-- `i32::try_from(pid)` -/
def tryI32 (pid : Nat) : Option Int := if pid < 2 ^ 31 then some pid else none

/-- `leads`: whether a process is the window's program. -/
def leads (kept : Kept) (m : Member) : Bool :=
  kept.group.any fun group => tryI32 m.key.pid == some group

/-- `is_server`: whether a process is a server in the way the harness keeps them. -/
def isServer (kept : Kept) (launch : List ProcessKey) (m : Member) : Bool :=
  match kept.servers with
  | .inGroup => kept.group.isSome && m.group == kept.group
  | .atLaunch => launch.contains m.key &&
      kept.group.any fun window => m.group.any fun group => group != window
  | .byShell | .unknown => false

/-- `descends_from_a_server`: the walk up stops at the window's program. -/
def serverLook (kept : Kept) (launch : List ProcessKey) (members : List Member) (at_ : Member) :
    Bool ⊕ Member :=
  if isServer kept launch at_ then .inl true
  else match at_.parent.bind (byKey members) with
    | some parent => if leads kept parent then .inl false else .inr parent
    | none => .inl false

/-- `own`: the harness's own servers, and what they started. -/
def own (kept : Kept) (launch : List ProcessKey) (members : List Member) : List ProcessKey :=
  (members.filter fun m => !leads kept m &&
    climb (serverLook kept launch members) (members.length + 1) m).map Member.key

/-- `harness::commands`: what leads a group of its own, started by the window's program or left with no
    parent, less what ran at a rest and what is proved to have begun before. -/
def commandsOf (group : Int) (members : List Member) (rest : List ProcessKey)
    (before : Member → Bool) : List Member :=
  (((members.filter fun m => !rest.contains m.key).filter fun m => !before m).filter fun m =>
    m.group != some group).filter fun m =>
      match m.parent with
      | some parent => tryI32 parent.pid == some group
      | none => m.group == tryI32 m.key.pid

/-! ## 4. The turn's work, and the work detached from it -/

/-- `descends_from_a_shell`: the walk up ends at a shell with a parent that began before. -/
def shellLook (started : List Member) (at_ : Member) : Bool ⊕ Member :=
  match at_.parent.bind (byKey started) with
  | some parent => .inr parent
  | none => .inl (at_.parent.isSome && runsAShell at_)

def descendsFromAShell (m : Member) (started : List Member) : Bool :=
  climb (shellLook started) (started.length + 1) m

/-- `turns`: the processes of `started` that are the turn's work. -/
def turns (started : List Member) (ours : List ProcessKey) : List ProcessKey :=
  (started.filter fun m => !ours.contains m.key && descendsFromAShell m started).map Member.key

/-- `lost_its_starter`: the walk up meets none of the harness's, and ends at a process with no parent. -/
def starterLook (started : List Member) (ours : List ProcessKey) (at_ : Member) : Bool ⊕ Member :=
  if ours.contains at_.key then .inl false
  else match at_.parent with
    | none => .inl true
    | some parent =>
      match byKey started parent with
      | some parent => .inr parent
      -- a parent from before the mark: the harness's
      | none => .inl false

def lostItsStarter (m : Member) (started : List Member) (ours : List ProcessKey) : Bool :=
  climb (starterLook started ours) (started.length + 1) m

/-- `detached`: the processes of `started` that are detached work. -/
def detached (started : List Member) (ours : List ProcessKey) : List ProcessKey :=
  (started.filter fun m => lostItsStarter m started ours).map Member.key

/-! ## 5. What the daemon is told -/

structure Background where
  total : Nat
  processes : List (Nat × String)
  possiblyLeft : List (Nat × String)
  deriving DecidableEq, Repr

/-- `char::is_whitespace` -/
def isWhitespace (c : Char) : Bool :=
  (9 ≤ c.toNat && c.toNat ≤ 13) || (0x2000 ≤ c.toNat && c.toNat ≤ 0x200a) ||
    [0x20, 0x85, 0xa0, 0x1680, 0x2028, 0x2029, 0x202f, 0x205f, 0x3000].contains c.toNat

/-- `bounded`: a command line with its blanks made one, cut at `COMMAND_CHARS`. -/
def bounded (command : String) : String :=
  let words := [' '].intercalate ((command.toList.splitOnP isWhitespace).filter (!·.isEmpty))
  if words.length ≤ 512 then String.ofList words else String.ofList (words.take 511 ++ ['…'])

/-- `listed`: how many were chosen, and the first `BACKGROUND_PROCESSES` of them. -/
def listed (chosen : List Member) : Background where
  total := (sorted chosen).length
  processes := ((sorted chosen).take 16).map fun m => (m.key.pid, bounded m.command)
  possiblyLeft := []

/-! ## 6. A baseline -/

/-- The processes of a pane's tree when its turn began. -/
structure Baseline where
  before : Option (List ProcessKey) := none
  launch : List ProcessKey := []
  kept : Option Kept := none
  harness : Option String := none
  rests : List (Nat × List ProcessKey) := []
  nextRest : Nat := 0
  carried : List ProcessKey := []
  deriving DecidableEq, Repr

/-- What was seen to descend from a process of the harness's own at the latest look. -/
abbrev Own := List ProcessKey

namespace Baseline

variable (windows : Bool)

/-- `protected`: the members that are the harness's own, and what is kept for the next look. -/
def protected_ (b : Baseline) (seen : Own) (members : List Member) : List ProcessKey × Own :=
  let ours := ((b.kept.map fun kept => own kept b.launch members).getD []) ++
    ((b.harness.map fun harness => programs windows harness members).getD []) ++
    descendingFrom seen members
  (ours, (members.filter fun m => ours.contains m.key &&
    (seen.contains m.key || m.parent.any fun parent => ours.contains parent)).map Member.key)

/-- `turn_work`: the turn's work, oldest first. -/
def turnWork (b : Baseline) (seen : Own) (members : List Member) : List Member × Own :=
  match b.before with
  | none => ([], seen)
  | some before =>
    let (ours, seen) := b.protected_ windows seen members
    let started := members.filter fun m => !before.contains m.key
    let turns := turns started ours
    (sorted (started.filter fun m => turns.contains m.key), seen)

/-- `detached`: the work detached from the turn, and from those before it, oldest first. -/
def detached (b : Baseline) (seen : Own) (members : List Member) : List Member × Own :=
  match b.before with
  | none => ([], seen)
  | some before =>
    let (ours, seen) := b.protected_ windows seen members
    let started := members.filter fun m => !(before.contains m.key && !b.carried.contains m.key)
    let detached := Processes.detached started ours
    (sorted (started.filter fun m => detached.contains m.key), seen)

/-- `named`: the turn's work, and of the detached work what the platform proves. -/
def named {E : Type} (b : Baseline) (seen : Own) (members : List Member)
    (proved : List Member → Except E (Option (List ProcessKey))) : Except E (List Member) × Own :=
  let (work, seen) := b.turnWork windows seen members
  let (detached, seen) := b.detached windows seen members
  if detached.isEmpty then (.ok work, seen)
  else
    match proved detached with
    | .error e => (.error e, seen)
    | .ok proved => (.ok (sorted (work ++ detached.filter fun m =>
        proved.all fun named => named.contains m.key)), seen)

/-- `mark`: a turn begins. -/
def mark (b : Baseline) (seen : Own) (members : List Member) (kept : Option Kept)
    (harness : Option String) : Baseline × Own :=
  let (carried, seen) := b.detached windows seen members
  let now := members.map Member.key
  let b := { b with
    launch := if b.before.isNone then now else b.launch
    before := some now
    carried := carried.map Member.key
    kept := kept
    harness := harness }
  (b, (b.protected_ windows seen members).2)

/-- `commands_kept` -/
def commandsKept (b : Baseline) : Option Kept :=
  ((b.kept.filter fun kept => kept.servers == .inGroup).filter fun kept => kept.group.isSome).or
    (b.kept.filter fun kept => kept.servers == .byShell)

/-- `rest`: the window is at rest. The last sixteen are kept, and those `keep` names. -/
def rest (b : Baseline) (members : List Member) (keep : List Nat) : Baseline × Option Nat :=
  match b.commandsKept with
  | none => (b, none)
  | some _ =>
    let number := b.nextRest
    let rests := b.rests ++ [(number, members.map Member.key)]
    let latest := rests.length - 16
    ({ b with
      nextRest := b.nextRest + 1
      rests := ((rests.zipIdx 1).filter fun (rest, at_) =>
        decide (latest < at_) || keep.contains rest.1).map Prod.fst }, some number)

/-- `chained`: the commands of a window on a platform with no groups. -/
def chained (b : Baseline) (seen : Own) (members : List Member) (since : Option Nat) :
    List Member × Own :=
  let rest := since.bind fun number => b.rests.find? fun rest => rest.1 == number
  let leftOut := (rest.map Prod.snd).getD b.launch
  let (ours, seen) := b.protected_ windows seen members
  let started := members.filter fun m => !leftOut.contains m.key
  let shells := turns started ours
  (started.filter fun m => shells.contains m.key, seen)

/-- `commands`: the commands of the window's harness that run now. -/
def commands (b : Baseline) (seen : Own) (members : List Member) (since : Option Nat)
    (before : Member → Bool) : Option Background × Own :=
  match b.commandsKept with
  | none => (none, seen)
  | some kept =>
    match kept.group.filter fun _ => kept.servers == .inGroup with
    | none =>
      let (chained, seen) := b.chained windows seen members since
      (some (listed chained), seen)
    | some group =>
      let rest := since.bind fun number => b.rests.find? fun rest => rest.1 == number
      (some (listed (commandsOf group members ((rest.map Prod.snd).getD []) before)), seen)

end Baseline

/-! ## 7. A window -/

/-- A window's baseline, those it was before, whose copies a look may still be made with, and what
    they all share: the harness's own that was seen. -/
structure Window where
  current : Baseline := {}
  earlier : List Baseline := []
  seen : Own := []

/-- A look at a window's tree. What the platform proves is told by none of it. -/
inductive Look where
  | turnWork
  | detached
  | named
  | commands (since : Option Nat)

/-- The harness's own, as a look leaves them. -/
def Look.seen (windows : Bool) (b : Baseline) (seen : Own) (members : List Member) : Look → Own
  | turnWork => (b.turnWork windows seen members).2
  | detached => (b.detached windows seen members).2
  | named => (b.named windows seen members fun _ => (Except.ok none : Except Unit _)).2
  | commands since => (b.commands windows seen members since fun _ => false).2

/-- What happens to a window. -/
inductive Op where
  | mark (tree : ProcessTree) (kept : Option Kept) (harness : Option String)
  | rest (tree : ProcessTree) (keep : List Nat)
  | look (b : Baseline) (tree : ProcessTree) (look : Look)

/-- A look is made with the baseline, or with a copy of one it was. -/
def Op.May (w : Window) : Op → Prop
  | look b _ _ => b ∈ w.current :: w.earlier
  | _ => True

def Window.step (windows : Bool) (w : Window) : Op → Window
  | .mark tree kept harness =>
    let (b, seen) := w.current.mark windows w.seen tree.members kept harness
    { current := b, earlier := w.current :: w.earlier, seen }
  | .rest tree keep =>
    { w with current := (w.current.rest tree.members keep).1, earlier := w.current :: w.earlier }
  | .look b tree look => { w with seen := look.seen windows b w.seen tree.members }

/-- The windows that marks, rests and looks lead to. -/
inductive Watched (windows : Bool) : Window → Prop where
  | opened : Watched windows {}
  | step {w : Window} (h : Watched windows w) (op : Op) (may : op.May w) :
    Watched windows (w.step windows op)

end Processes
end ConsensFlow
