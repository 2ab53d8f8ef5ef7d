/-
  File:      ConsensFlow/Paths/Win32.lean
  Subject:   WINDOWS PATHS (`cf-base`: `path/win32.rs`: `normalize`, `join`).

  * `normalize`, `rootOf`, `finish`, `join` -- from the source, `none` where a cut would be inside a
    character;
  * `Slashed`, `Drive` -- a path from the root, and one of a drive;
  * `finish_absolute`, `finish_drive`, `finish_named`, `finish_relative` -- what is written behind
    each kind of root;
  * **`paths_keep_their_root`** -- a path is normalized and joined without becoming one from a root.
-/
import ConsensFlow.Paths.Segmented

namespace Paths

open Lib.Utf8 Lib.Segments

namespace Win32

/-! ## 1. Names of devices -/

/-- The names Windows keeps for devices. -/
def windowsReservedNames : List (List Char) :=
  ["CON".toList, "PRN".toList, "AUX".toList, "NUL".toList, "COM1".toList, "COM2".toList,
    "COM3".toList, "COM4".toList, "COM5".toList, "COM6".toList, "COM7".toList, "COM8".toList,
    "COM9".toList, "LPT1".toList, "LPT2".toList, "LPT3".toList, "LPT4".toList, "LPT5".toList,
    "LPT6".toList, "LPT7".toList, "LPT8".toList, "LPT9".toList, "COM¹".toList, "COM²".toList,
    "COM³".toList, "LPT¹".toList, "LPT²".toList, "LPT³".toList]

/-- Unicode's upper case, of the characters past ASCII by a table. -/
def upper (table : Char → List Char) (c : Char) : List Char :=
  if IsAscii c then [c.toUpper] else table c

/-- All but the last character, where that is one UTF-16 unit. -/
def withoutLastUnit (path : List Char) : Option (List Char) :=
  match path.getLast? with
  | some last => if Lib.Text.utf16Width last = 1 then some path.dropLast else none
  | none => none

def reserves (table : Char → List Char) (device : List Char) : Bool :=
  windowsReservedNames.contains (device.flatMap (upper table))

def isWindowsReservedName (table : Char → List Char) (path : List Char) :
    Option Nat → Option Bool
  | some colonIndex => (slice path 0 colonIndex).map (reserves table)
  | none => some ((withoutLastUnit path).any (reserves table))

def isWindowsDeviceRoot (code : Option UInt8) : Bool :=
  code.any fun b => (0x41 ≤ b && b ≤ 0x5a) || (0x61 ≤ b && b ≤ 0x7a)

/-! ## 2. `normalize` -/

/-- The index of the first byte from `j` on that the test is not true of. -/
def advanceIn (test : Option UInt8 → Bool) : List UInt8 → Nat → Nat
  | [], j => j
  | b :: rest, j => if test (some b) then advanceIn test rest (j + 1) else j

def advance (test : Option UInt8 → Bool) (path : List Char) (j : Nat) : Nat :=
  advanceIn test ((bytes path).drop j) j

def isOther (code : Option UInt8) : Bool := !isPathSeparator code

/-- What `normalize` finds at the head of a path: all of its answer, or the device, where the root
    ends, and whether the path is absolute. -/
inductive Root where
  | whole (answer : List Char)
  | root (device : Option (List Char)) (rootEnd : Nat) (isAbsolute : Bool)

/-- A matched UNC root, of which `firstPart` is the first part and the second is from `last` to
    `j`. -/
def uncRoot (table : Char → List Char) (path firstPart : List Char) (last j : Nat) : Option Root :=
  if firstPart = ['.'] ∨ firstPart = ['?'] then do
    let colonIndex := find path ':'
    let possibleDevice ← slice path 4 ((colonIndex.map (· + 1)).getD 0)
    let reserved ← isWindowsReservedName table possibleDevice
      (if size possibleDevice = 0 then none else some (size possibleDevice - 1))
    if reserved then
      some (.root (some ("\\\\?\\".toList ++ possibleDevice)) (4 + size possibleDevice) true)
    else some (.root (some ("\\\\".toList ++ firstPart)) 4 true)
  else if j = size path then
    (slice path last (size path)).map fun share =>
      .whole ("\\\\".toList ++ firstPart ++ ['\\'] ++ share ++ ['\\'])
  else
    (slice path last j).map fun share =>
      .root (some ("\\\\".toList ++ firstPart ++ ['\\'] ++ share)) j true

/-- Behind two separators. -/
def doubleRoot (table : Char → List Char) (path : List Char) : Option Root :=
  let j := advance isOther path 2
  if j < size path ∧ j ≠ 2 then do
    let firstPart ← slice path 2 j
    let share := advance isPathSeparator path j
    if share < size path ∧ share ≠ j then
      let end_ := advance isOther path share
      if end_ = size path ∨ end_ ≠ share then uncRoot table path firstPart share end_
      else some (.root none 0 true)
    else some (.root none 0 true)
  else some (.root none 0 true)

/-- Behind a letter and a colon, or a device's name. -/
def deviceRoot (table : Char → List Char) (path : List Char) : Option Root :=
  match (find path ':').filter (0 < ·) with
  | none => some (.root none 0 false)
  | some colonIndex =>
    if isWindowsDeviceRoot (codeAt path 0) ∧ colonIndex = 1 then
      (slice path 0 2).map fun device =>
        if 2 < size path ∧ isPathSeparator (codeAt path 2) then .root (some device) 3 true
        else .root (some device) 2 false
    else do
      let reserved ← isWindowsReservedName table path (some colonIndex)
      if reserved then
        (slice path 0 (colonIndex + 1)).map fun device => .root (some device) (colonIndex + 1) false
      else some (.root none 0 false)

def rootOf (table : Char → List Char) (path : List Char) : Option Root :=
  if isPathSeparator (codeAt path 0) then
    if isPathSeparator (codeAt path 1) then doubleRoot table path
    else some (.root none 1 true)
  else deviceRoot table path

/-- The path behind its root. -/
def tailOf (path : List Char) (rootEnd : Nat) (isAbsolute : Bool) : Option (List Char) :=
  if rootEnd < size path then do
    let rest ← slice path rootEnd (size path)
    normalizeString rest (!isAbsolute) '\\' isPathSeparator
  else some []

/-- With the separator the path ended in, and a dot for a relative one that came to nothing. -/
def closed (path : List Char) (isAbsolute : Bool) (tail : List Char) : List Char :=
  let tail := if tail = [] ∧ isAbsolute = false then ['.'] else tail
  if tail ≠ [] ∧ isPathSeparator (codeAt path (size path - 1)) then tail ++ ['\\'] else tail

/-- Whether what is left of a path could be read as one of a drive or a device. -/
def misleads (path tail : List Char) : Bool :=
  (isWindowsDeviceRoot (codeAt tail 0) && codeAt tail 1 == some 0x3a) ||
    (List.range (size path)).any fun index => codeAt path index == some 0x3a &&
      (index == size path - 1 || isPathSeparator (codeAt path (index + 1)))

/-- The answer, from the root on. -/
def finish (table : Char → List Char) (path : List Char) (device : Option (List Char))
    (rootEnd : Nat) (isAbsolute : Bool) : Option (List Char) := do
  let tail ← tailOf path rootEnd isAbsolute
  let tail := closed path isAbsolute tail
  if isAbsolute = false ∧ device = none ∧ ':' ∈ path ∧ misleads path tail then
    some (".\\".toList ++ tail)
  else do
    let reserved ← isWindowsReservedName table path (find path ':')
    if reserved then some (".\\".toList ++ device.getD [] ++ tail)
    else
      some (match device, isAbsolute with
        | none, true => '\\' :: tail
        | none, false => tail
        | some device, true => device ++ '\\' :: tail
        | some device, false => device ++ tail)

/-- `path.win32.normalize`. -/
def normalize (table : Char → List Char) (path : List Char) : Option (List Char) :=
  if size path = 0 then some ['.']
  else if (path.map Lib.Text.utf16Width).sum = 1 then
    some (if codeAt path 0 = some 0x2f then ['\\'] else path)
  else do
    match ← rootOf table path with
    | .whole answer => some answer
    | .root device rootEnd isAbsolute => finish table path device rootEnd isAbsolute

/-! ## 3. `join` -/

/-- Whether the separators at the head of the joined path are to be one, and how many of them the
    first part was seen to have. -/
def leading (firstPart : List Char) : Bool × Nat :=
  if isPathSeparator (codeAt firstPart 0) then
    if 1 < size firstPart ∧ isPathSeparator (codeAt firstPart 1) then
      if 2 < size firstPart then
        if isPathSeparator (codeAt firstPart 2) then (true, 3) else (false, 2)
      else (true, 2)
    else (true, 1)
  else (true, 0)

/-- With its leading separators as one, unless they are a UNC path's. -/
def oneSlash (firstPart joined : List Char) : Option (List Char) :=
  let (needsReplace, slashCount) := leading firstPart
  if needsReplace then
    let slashCount := advance isPathSeparator joined slashCount
    if 2 ≤ slashCount then (slice joined slashCount (size joined)).map ('\\' :: ·)
    else some joined
  else some joined

/-- Whether a part of it, between backslashes, is a device's name before its colon. -/
def reservedPart (table : Char → List Char) (joined : List Char) : Option Bool :=
  ((joined.splitOnP (· == '\\')).filter (· ≠ [])).anyM fun part =>
    match find part ':' with
    | some colonIndex => isWindowsReservedName table part (some colonIndex)
    | none => some false

/-- `path.win32.join`. -/
def join (table : Char → List Char) (parts : List (List Char)) : Option (List Char) :=
  match parts.filter (· ≠ []) with
  | [] => some ['.']
  | firstPart :: more => do
    let joined ← oneSlash firstPart (['\\'].intercalate (firstPart :: more))
    let reserved ← reservedPart table joined
    if reserved then some (joined.map fun c => if c = '/' then '\\' else c)
    else normalize table joined

/-! ## 4. Heads of paths -/

/-- A path from the root. -/
def Slashed (path : List Char) : Prop := ∃ c rest, path = c :: rest ∧ (c = '/' ∨ c = '\\')

/-- A path of a drive: a letter and a colon at its head. -/
def Drive (path : List Char) : Prop := ∃ c rest, path = c :: ':' :: rest ∧ c.isAlpha = true

section

variable {path text a b : List Char} {n : Nat}

theorem separates_iff {c : Char} : windows.separates c = true ↔ c = '/' ∨ c = '\\' := by
  show (c == '/' || c == '\\') = true ↔ _
  rw [Bool.or_eq_true_iff, beq_iff_eq, beq_iff_eq]

/-- A test of bytes that is one of characters. -/
def Agrees (test : Option UInt8 → Bool) (p : Char → Bool) : Prop :=
  ∀ c, ∀ x ∈ String.utf8EncodeChar c, test (some x) = p c

theorem agrees_separator : Agrees isPathSeparator windows.separates := by
  intro c x one
  by_cases ascii : IsAscii c
  · rw [encode_ascii ascii] at one
    rw [List.mem_singleton.1 one]
    exact windows_tests.same c ascii
  · rw [windows_tests.other x (encode_other ascii x one)]
    exact (Bool.eq_false_iff.2 fun sep => ascii (windows_tests.ascii c sep)).symm

theorem agrees_other : Agrees isOther fun c => !windows.separates c :=
  fun c x one => congrArg (!·) (agrees_separator c x one)

/-- The test of a path's first byte is one of its first character. -/
theorem Agrees.here {test : Option UInt8 → Bool} {p : Char → Bool} (agrees : Agrees test p)
    (a : List Char) (c : Char) (b : List Char) :
    (codeAt (a ++ c :: b) (size a)).any (fun x => test (some x)) = p c := by
  have here := codeAt_append a c b c.utf8Size_pos
  have some_ : 0 < (String.utf8EncodeChar c).length := by
    rw [String.length_utf8EncodeChar]
    exact c.utf8Size_pos
  rw [Nat.add_zero, List.getElem?_eq_getElem some_] at here
  rw [here, Option.any_some]
  exact agrees c _ (List.getElem_mem some_)

/-- And so is that of a path that has one. -/
theorem Agrees.head {test : Option UInt8 → Bool} {p : Char → Bool} (agrees : Agrees test p)
    (c : Char) (rest : List Char) : test (codeAt (c :: rest) 0) = p c := by
  have here := agrees.here [] c rest
  have some_ : 0 < size (c :: rest) := Nat.add_pos_left c.utf8Size_pos _
  obtain ⟨x, code⟩ := codeAt_some some_
  rw [List.nil_append, size_nil, code, Option.any_some] at here
  rw [code, here]

theorem slashed_code : isPathSeparator (codeAt path 0) = true ↔ Slashed path := by
  cases path with
  | nil =>
    refine iff_of_false (by decide) ?_
    rintro ⟨c, rest, same, -⟩
    cases same
  | cons c rest =>
    rw [agrees_separator.head, separates_iff]
    constructor
    · exact fun sep => ⟨c, rest, rfl, sep⟩
    · rintro ⟨d, rest', same, sep⟩
      cases same
      exact sep

theorem isAlpha_iff {c : Char} : c.isAlpha = true ↔
    (65 ≤ c.toNat ∧ c.toNat ≤ 90) ∨ (97 ≤ c.toNat ∧ c.toNat ≤ 122) := by
  simp [Char.isAlpha, Char.isUpper, Char.isLower, UInt32.le_iff_toNat_le]

theorem agrees_device : Agrees isWindowsDeviceRoot Char.isAlpha := by
  intro c x one
  have letter : isWindowsDeviceRoot (some x) = true ↔
      (65 ≤ x.toNat ∧ x.toNat ≤ 90) ∨ (97 ≤ x.toNat ∧ x.toNat ≤ 122) := by
    simp [isWindowsDeviceRoot, UInt8.le_iff_toNat_le]
  rw [Bool.eq_iff_iff, letter, isAlpha_iff]
  by_cases ascii : IsAscii c
  · have low : c.toNat < 0x80 := ascii
    rw [encode_ascii ascii] at one
    rw [List.mem_singleton.1 one, UInt8.toNat_ofNat', Nat.mod_eq_of_lt (by omega)]
  · have high := encode_other ascii x one
    have high' : 0x80 ≤ c.toNat := Nat.not_lt.1 ascii
    omega

theorem drive_code : isWindowsDeviceRoot (codeAt path 0) = true ∧ codeAt path 1 = some 0x3a ↔
    Drive path := by
  cases path with
  | nil =>
    refine iff_of_false (fun both => absurd both.1 (by decide)) ?_
    rintro ⟨c, rest, same, -⟩
    cases same
  | cons c rest =>
    rw [agrees_device.head]
    by_cases alpha : c.isAlpha = true
    · have ascii : IsAscii c := by
        have letter := isAlpha_iff.1 alpha
        show c.toNat < 0x80
        omega
      have second : codeAt (c :: rest) 1 = codeAt ([c] ++ rest) (size [c]) := by
        rw [size_cons, utf8Size_ascii ascii]
        rfl
      rw [second]
      cases rest with
      | nil =>
        refine iff_of_false (fun both => ?_) ?_
        · rw [List.append_nil, codeAt_end _ (Nat.le_refl _)] at both
          cases both.2
        · rintro ⟨d, more, same, -⟩
          cases same
      | cons d more =>
        have colon : codeAt ([c] ++ d :: more) (size [c]) = some 0x3a ↔ d = ':' :=
          codeAt_here (by decide : IsAscii ':')
        rw [colon]
        constructor
        · rintro ⟨-, rfl⟩
          exact ⟨c, more, rfl, alpha⟩
        · rintro ⟨e, more', same, -⟩
          cases same
          exact ⟨alpha, rfl⟩
    · refine iff_of_false (fun both => alpha both.1) ?_
      rintro ⟨d, more, same, alpha'⟩
      cases same
      exact alpha alpha'

theorem not_drive_of_slashed (slashed : Slashed path) : ¬Drive path := by
  obtain ⟨c, rest, rfl, sep⟩ := slashed
  rintro ⟨d, more, same, alpha⟩
  cases same
  rcases sep with rfl | rfl
  · exact absurd alpha (by decide)
  · exact absurd alpha (by decide)

/-! ## 5. Names at the head of a path -/

variable {table : Char → List Char}

/-- No device's name is shorter than three characters or begins with a separator. -/
theorem reserved_names : ∀ name ∈ windowsReservedNames, 3 ≤ name.length ∧
    name.head? ≠ some '/' ∧ name.head? ≠ some '\\' := by
  decide

theorem not_reserves_slashed (slashed : path = [] ∨ Slashed path) :
    reserves table path = false := by
  refine Bool.eq_false_iff.2 fun reserved => ?_
  obtain ⟨long, slash, back⟩ := reserved_names _ (List.contains_iff_mem.1 reserved)
  rcases slashed with rfl | ⟨c, rest, rfl, rfl | rfl⟩
  · exact absurd long (Nat.not_succ_le_zero 2)
  · exact slash rfl
  · exact back rfl

theorem not_reserves_letter {c : Char} (alpha : c.isAlpha = true) :
    reserves table [c] = false := by
  refine Bool.eq_false_iff.2 fun reserved => ?_
  obtain ⟨long, -⟩ := reserved_names _ (List.contains_iff_mem.1 reserved)
  have ascii : IsAscii c := by
    have letter := isAlpha_iff.1 alpha
    show c.toNat < 0x80
    omega
  rw [List.flatMap_cons, List.flatMap_nil, upper, if_pos ascii] at long
  exact absurd long (Nat.not_succ_le_self 1 ∘ Nat.le_of_succ_le)

/-- Whether a path is a device's name before its colon can always be told. -/
theorem isWindowsReservedName_some (table : Char → List Char) (path : List Char) :
    ∃ reserved, isWindowsReservedName table path (find path ':') = some reserved := by
  cases colon : find path ':' with
  | none => exact ⟨_, rfl⟩
  | some n =>
    obtain ⟨a, b, rfl, -, rfl⟩ := find_some.1 colon
    exact ⟨_, by rw [isWindowsReservedName, slice_upto]; rfl⟩

theorem withoutLastUnit_some (h : withoutLastUnit path = some text) :
    ∃ last, path = text ++ [last] := by
  unfold withoutLastUnit at h
  split at h
  · rename_i last some_
    split at h
    · cases h
      exact ⟨last, (List.dropLast_append_getLast? last some_).symm⟩
    · cases h
  · cases h

/-- A path from the root is no device's name. -/
theorem not_reserved_slashed (slashed : Slashed path) :
    isWindowsReservedName table path (find path ':') = some false := by
  have head {a b : List Char} (whole : path = a ++ b) : a = [] ∨ Slashed a := by
    obtain ⟨c, rest, same, sep⟩ := slashed
    cases a with
    | nil => exact .inl rfl
    | cons d a =>
      rw [same] at whole
      cases whole
      exact .inr ⟨c, a, rfl, sep⟩
  cases colon : find path ':' with
  | none =>
    rw [isWindowsReservedName]
    cases device : withoutLastUnit path with
    | none => rfl
    | some device =>
      obtain ⟨last, whole⟩ := withoutLastUnit_some device
      rw [Option.any_some, not_reserves_slashed (head whole)]
  | some n =>
    obtain ⟨a, b, whole, -, rfl⟩ := find_some.1 colon
    rw [isWindowsReservedName]
    conv_lhs => rw [whole, slice_upto]
    rw [Option.map_some, not_reserves_slashed (head whole)]

/-- And so is none of a drive. -/
theorem not_reserved_drive (drive : Drive path) :
    isWindowsReservedName table path (find path ':') = some false := by
  obtain ⟨c, rest, rfl, alpha⟩ := drive
  have first : ':' ∉ [c] := by
    intro one
    rw [← List.mem_singleton.1 one] at alpha
    exact absurd alpha (by decide)
  have colon : find (c :: ':' :: rest) ':' = some (size [c]) :=
    find_some.2 ⟨[c], rest, rfl, first, rfl⟩
  have device : slice (c :: ':' :: rest) 0 (size [c]) = some [c] := slice_upto [c] (':' :: rest)
  rw [colon, isWindowsReservedName, device, Option.map_some, not_reserves_letter alpha]

/-! ## 6. Behind a root -/

/-- What is behind a root is no path from the root. -/
theorem not_slashed_resolve {above : Bool} : ¬Slashed (windows.resolve above path) := by
  rintro ⟨c, rest, same, sep⟩
  have apart := windows.head_resolve same
  rw [separates_iff.2 sep] at apart
  cases apart

theorem tailOf_some {rootEnd : Nat} (between : Between path rootEnd) (isAbsolute : Bool) :
    ∃ tail, tailOf path rootEnd isAbsolute = some tail ∧ ¬Slashed tail ∧
      ∀ c ∈ tail, c = '\\' ∨ c ∈ path := by
  obtain ⟨a, b, rfl, rfl⟩ := between
  unfold tailOf
  split
  · rw [slice_from]
    refine ⟨_, normalizeString_resolve windows_tests b (!isAbsolute), not_slashed_resolve, ?_⟩
    exact fun c one => (windows.mem_resolve one).imp id (List.mem_append_right _)
  · refine ⟨[], rfl, ?_, fun c one => absurd one List.not_mem_nil⟩
    rintro ⟨c, rest, same, -⟩
    cases same

theorem not_slashed_append {more : List Char} (some_ : text ≠ []) (apart : ¬Slashed text) :
    ¬Slashed (text ++ more) := by
  rintro ⟨c, rest, same, sep⟩
  cases text with
  | nil => exact some_ rfl
  | cons d text =>
    cases same
    exact apart ⟨_, text, rfl, sep⟩

theorem dot_not_slashed (text : List Char) : ¬Slashed ('.' :: text) := by
  rintro ⟨c, rest, same, sep⟩
  cases same
  exact absurd sep (by decide)

theorem dot_not_drive (text : List Char) : ¬Drive ('.' :: text) := by
  rintro ⟨c, rest, same, alpha⟩
  cases same
  exact absurd alpha (by decide)

/-- What is written behind a root: the rest or a dot, and a separator at its end or none. -/
theorem closed_form (path : List Char) (isAbsolute : Bool) (tail : List Char) :
    ∃ body more, closed path isAbsolute tail = body ++ more ∧ (body = tail ∨ body = ['.']) ∧
      (more = [] ∨ (body ≠ [] ∧ more = ['\\'])) := by
  unfold closed
  dsimp only
  have body : (if tail = [] ∧ isAbsolute = false then ['.'] else tail) = tail ∨
      (if tail = [] ∧ isAbsolute = false then ['.'] else tail) = ['.'] := by
    split
    · exact .inr rfl
    · exact .inl rfl
  generalize (if tail = [] ∧ isAbsolute = false then ['.'] else tail) = body_ at body ⊢
  split
  · rename_i ends
    exact ⟨body_, ['\\'], rfl, body, .inr ⟨ends.1, rfl⟩⟩
  · exact ⟨body_, [], (List.append_nil _).symm, body, .inl rfl⟩

theorem closed_apart {isAbsolute : Bool} (apart : ¬Slashed text) :
    ¬Slashed (closed path isAbsolute text) := by
  obtain ⟨body, more, same, body_, more_⟩ := closed_form path isAbsolute text
  have apart' : ¬Slashed body := by
    rcases body_ with rfl | rfl
    · exact apart
    · exact dot_not_slashed []
  rw [same]
  rcases more_ with rfl | ⟨some_, -⟩
  · rwa [List.append_nil]
  · exact not_slashed_append some_ apart'

theorem mem_closed {isAbsolute : Bool} {c : Char} (one : c ∈ closed path isAbsolute text) :
    c = '.' ∨ c = '\\' ∨ c ∈ text := by
  obtain ⟨body, more, same, body_, more_⟩ := closed_form path isAbsolute text
  rw [same] at one
  rcases List.mem_append.1 one with one | one
  · rcases body_ with rfl | rfl
    · exact .inr (.inr one)
    · exact .inl (List.mem_singleton.1 one)
  · rcases more_ with rfl | ⟨-, rfl⟩
    · exact absurd one List.not_mem_nil
    · exact .inr (.inl (List.mem_singleton.1 one))

/-- **Behind the root of an absolute path.** -/
theorem finish_absolute {device : Option (List Char)} {rootEnd : Nat} (slashed : Slashed path)
    (between : Between path rootEnd) (device_ : ∀ d, device = some d → Slashed d) :
    ∃ out, finish table path device rootEnd true = some out ∧ Slashed out := by
  obtain ⟨tail, cut, -⟩ := tailOf_some between true
  unfold finish
  rw [cut, not_reserved_slashed slashed]
  cases device with
  | none => exact ⟨_, rfl, '\\', _, rfl, .inr rfl⟩
  | some device =>
    obtain ⟨c, rest, rfl, sep⟩ := device_ device rfl
    exact ⟨_, rfl, c, _, rfl, sep⟩

/-- **Behind a drive.** -/
theorem finish_drive {device : List Char} {rootEnd : Nat} {isAbsolute : Bool} (drive : Drive path)
    (between : Between path rootEnd) (device_ : Drive device) :
    ∃ out, finish table path (some device) rootEnd isAbsolute = some out ∧ Drive out := by
  obtain ⟨tail, cut, -⟩ := tailOf_some between isAbsolute
  obtain ⟨c, rest, rfl, alpha⟩ := device_
  unfold finish
  rw [cut, not_reserved_drive drive]
  cases isAbsolute with
  | true => exact ⟨_, rfl, c, _, rfl, alpha⟩
  | false => exact ⟨_, rfl, c, _, rfl, alpha⟩

/-- **Behind the name of a device.** -/
theorem finish_named {device : List Char} {rootEnd : Nat} (between : Between path rootEnd)
    (reserved : isWindowsReservedName table path (find path ':') = some true) :
    ∃ out, finish table path (some device) rootEnd false = some out ∧ ¬Slashed out ∧
      ¬Drive out := by
  obtain ⟨tail, cut, -⟩ := tailOf_some between false
  unfold finish
  rw [cut, reserved]
  exact ⟨_, rfl, dot_not_slashed _, dot_not_drive _⟩

/-- **Behind no root.** -/
theorem finish_relative (table : Char → List Char) (path : List Char) :
    ∃ out, finish table path none 0 false = some out ∧ ¬Slashed out ∧ ¬Drive out := by
  have between : Between path 0 := ⟨[], path, rfl, rfl⟩
  obtain ⟨tail, cut, apart, within⟩ := tailOf_some between false
  have apart' : ¬Slashed (closed path false tail) := closed_apart apart
  obtain ⟨reserved, told⟩ := isWindowsReservedName_some table path
  unfold finish
  rw [cut, told, Option.bind_eq_bind, Option.bind_some]
  dsimp only
  split
  · exact ⟨_, rfl, dot_not_slashed _, dot_not_drive _⟩
  · rename_i leads
    cases reserved with
    | true => exact ⟨_, rfl, dot_not_slashed _, dot_not_drive _⟩
    | false =>
      refine ⟨_, rfl, apart', fun drive => leads ⟨rfl, rfl, ?_, ?_⟩⟩
      · obtain ⟨c, rest, same, -⟩ := drive
        have one : ':' ∈ closed path false tail := by
          rw [same]
          exact List.mem_cons_of_mem _ List.mem_cons_self
        rcases mem_closed one with dot | sep | one
        · cases dot
        · cases sep
        · exact (within _ one).elim (fun sep => by cases sep) id
      · obtain ⟨letter, colon⟩ := drive_code.2 drive
        show ((isWindowsDeviceRoot _ && _ == _) || _) = true
        rw [letter, colon]
        rfl

/-! ## 7. The root -/

theorem advanceIn_append {test : Option UInt8 → Bool} {xs : List UInt8}
    (all : ∀ x ∈ xs, test (some x) = true) (ys : List UInt8) (n : Nat) :
    advanceIn test (xs ++ ys) n = advanceIn test ys (n + xs.length) := by
  induction xs generalizing n with
  | nil => rfl
  | cons x xs ih =>
    rw [List.cons_append, advanceIn, if_pos (all x List.mem_cons_self),
      ih fun y one => all y (List.mem_cons_of_mem _ one), List.length_cons]
    congr 1
    omega

/-- The bytes a test is true of, from a character on, are those of the characters it is true of. -/
theorem advance_append {test : Option UInt8 → Bool} {p : Char → Bool} (agrees : Agrees test p)
    (a b : List Char) : advance test (a ++ b) (size a) = size a + size (b.takeWhile p) := by
  have from_ : (bytes (a ++ b)).drop (size a) = bytes b := by
    rw [bytes, List.flatMap_append]
    exact List.drop_left' (length_bytes a)
  rw [advance, from_]
  clear from_
  generalize size a = n
  induction b generalizing n with
  | nil => rfl
  | cons c b ih =>
    have parts : bytes (c :: b) = String.utf8EncodeChar c ++ bytes b := List.flatMap_cons
    rw [parts]
    by_cases one : p c = true
    · rw [advanceIn_append (fun x in_ => (agrees c x in_).trans one), ih,
        List.takeWhile_cons_of_pos one, size_cons, String.length_utf8EncodeChar]
      omega
    · rw [List.takeWhile_cons_of_neg one]
      cases code : String.utf8EncodeChar c with
      | nil => exact absurd code String.utf8EncodeChar_ne_nil
      | cons x xs =>
        have stop : test (some x) = p c := agrees c x (by rw [code]; exact List.mem_cons_self)
        rw [List.cons_append, advanceIn, stop, if_neg one]
        rfl

theorem separator_ascii {c : Char} (sep : c = '/' ∨ c = '\\') : IsAscii c :=
  windows_tests.ascii c (separates_iff.2 sep)

/-- A root found at the head of an absolute path. -/
def Absolute (path : List Char) : Root → Prop
  | .whole answer => Slashed answer
  | .root device rootEnd isAbsolute => isAbsolute = true ∧ Between path rootEnd ∧
      ∀ d, device = some d → Slashed d

theorem slashed_back (text : List Char) : Slashed ('\\' :: text) := ⟨'\\', text, rfl, .inr rfl⟩

/-- Where the first colon of a path is behind its first characters, it is behind all of them. -/
theorem behind {head rest before after : List Char} {c : Char} (out : c ∉ head)
    (same : head ++ rest = before ++ c :: after) : ∃ more, before = head ++ more := by
  rcases List.append_eq_append_iff.1 same with ⟨more, before_, -⟩ | ⟨more, head_, rest_⟩
  · exact ⟨more, before_⟩
  · cases more with
    | nil => exact ⟨[], by rw [head_, List.append_nil, List.append_nil]⟩
    | cons d more =>
      cases rest_
      exact absurd (by rw [head_]; exact List.mem_append_right _ List.mem_cons_self) out

/-- The device behind `\\\\.\\` or `\\\\?\\`, up to the first colon. -/
theorem possibleDevice_some (table : Char → List Char) {head rest : List Char} (some_ : head ≠ [])
    (out : ':' ∉ head) (path_ : path = head ++ rest) : ∃ possible reserved,
    slice path (size head) (((find path ':').map (· + 1)).getD 0) = some possible ∧
      isWindowsReservedName table possible
        (if size possible = 0 then none else some (size possible - 1)) = some reserved ∧
      Between path (size head + size possible) := by
  cases colon : find path ':' with
  | none =>
    refine ⟨[], _, ?_, rfl, head, rest, path_, rfl⟩
    have back := slice_back [] head rest some_
    rw [List.nil_append, size_nil, Nat.zero_add, ← path_] at back
    exact back
  | some n =>
    obtain ⟨before, after, whole, -, rfl⟩ := find_some.1 colon
    obtain ⟨more, rfl⟩ := behind out (path_.symm.trans whole)
    have one : size [':'] = 1 := rfl
    have width : size (more ++ [':']) = size more + 1 := by rw [size_append, one]
    have whole' : path = head ++ ((more ++ [':']) ++ after) := by
      rw [whole]
      simp only [List.append_assoc, List.cons_append, List.nil_append]
    refine ⟨more ++ [':'], reserves table more, ?_, ?_, head ++ (more ++ [':']), after, ?_, ?_⟩
    · have mid := slice_mid head (more ++ [':']) after
      rw [← whole', width] at mid
      rw [size_append]
      exact mid
    · rw [if_neg (by omega), isWindowsReservedName, width, Nat.add_sub_cancel, slice_upto,
        Option.map_some]
    · simp only [whole', List.append_assoc]
    · rw [size_append]

/-- **A UNC or device root** is found, and no part of it is cut inside a character. -/
theorem uncRoot_some (table : Char → List Char) {s s' t : Char} {first seps share rest : List Char}
    (hs : s = '/' ∨ s = '\\') (hs' : s' = '/' ∨ s' = '\\') (ht : t = '/' ∨ t = '\\')
    (path_ : path = [s, s'] ++ (first ++ (t :: seps ++ (share ++ rest)))) {last j : Nat}
    (last_ : last = size ([s, s'] ++ first ++ (t :: seps))) (j_ : j = last + size share) :
    ∃ root, uncRoot table path first last j = some root ∧ Absolute path root := by
  have back (text : List Char) : Slashed ("\\\\".toList ++ text) := slashed_back _
  have whole : path = ([s, s'] ++ first ++ (t :: seps)) ++ (share ++ rest) := by
    rw [path_]
    simp only [List.append_assoc]
  have share_ : slice path last j = some share := by
    rw [j_, last_, whole]
    exact slice_mid _ _ _
  unfold uncRoot
  split
  · rename_i dot
    obtain ⟨d, rfl, dot_⟩ : ∃ d, first = [d] ∧ (d = '.' ∨ d = '?') := by
      rcases dot with rfl | rfl
      · exact ⟨'.', rfl, .inl rfl⟩
      · exact ⟨'?', rfl, .inr rfl⟩
    have four : size [s, s', d, t] = 4 := by
      have ascii : IsAscii d := by rcases dot_ with rfl | rfl <;> decide
      simp only [size_cons, size_nil, utf8Size_ascii (separator_ascii hs), utf8Size_ascii ascii,
        utf8Size_ascii (separator_ascii hs'), utf8Size_ascii (separator_ascii ht)]
    have out : ':' ∉ [s, s', d, t] := by
      rcases hs with rfl | rfl <;> rcases hs' with rfl | rfl <;> rcases dot_ with rfl | rfl <;>
        rcases ht with rfl | rfl <;> decide
    have head : path = [s, s', d, t] ++ (seps ++ (share ++ rest)) := path_
    obtain ⟨possible, reserved, cut, told, between⟩ :=
      possibleDevice_some table (List.cons_ne_nil _ _) out head
    rw [four] at cut between
    dsimp only
    rw [cut, Option.bind_eq_bind, Option.bind_some, told, Option.bind_eq_bind, Option.bind_some]
    split
    · refine ⟨_, rfl, rfl, between, fun device same => ?_⟩
      rw [← Option.some.inj same]
      exact slashed_back _
    · refine ⟨_, rfl, rfl, ⟨[s, s', d, t], _, head, four⟩, fun device same => ?_⟩
      rw [← Option.some.inj same]
      exact back _
  · split
    · rename_i far
      rw [← far, share_]
      refine ⟨_, rfl, ?_⟩
      simp only [List.append_assoc]
      exact back _
    · rw [share_]
      have between : Between path j := by
        refine ⟨[s, s'] ++ first ++ (t :: seps) ++ share, rest, ?_, ?_⟩
        · simp only [whole, List.append_assoc]
        · rw [size_append, j_, last_]
      refine ⟨_, rfl, rfl, between, fun d same => ?_⟩
      rw [← Option.some.inj same]
      simp only [List.append_assoc]
      exact back _

/-- **Behind two separators.** -/
theorem doubleRoot_some (table : Char → List Char) {s s' : Char} {more : List Char}
    (hs : s = '/' ∨ s = '\\') (hs' : s' = '/' ∨ s' = '\\') (path_ : path = [s, s'] ++ more) :
    ∃ root, doubleRoot table path = some root ∧ Absolute path root := by
  have two : size [s, s'] = 2 := by
    simp only [size_cons, size_nil, utf8Size_ascii (separator_ascii hs),
      utf8Size_ascii (separator_ascii hs')]
  have none_ : Absolute path (.root none 0 true) :=
    ⟨rfl, ⟨[], path, rfl, rfl⟩, fun d same => by cases same⟩
  let first := more.takeWhile fun c => !windows.separates c
  let after := more.dropWhile fun c => !windows.separates c
  have more_ : more = first ++ after := List.takeWhile_append_dropWhile.symm
  have j_ : advance isOther path 2 = 2 + size first := by
    have far := advance_append agrees_other [s, s'] more
    rwa [← path_, two] at far
  unfold doubleRoot
  dsimp only
  split
  · rename_i matched
    have cut : slice path 2 (advance isOther path 2) = some first := by
      have mid := slice_mid [s, s'] first after
      rwa [← more_, ← path_, two, ← j_] at mid
    rw [cut, Option.bind_eq_bind, Option.bind_some]
    let seps := after.takeWhile windows.separates
    let rest := after.dropWhile windows.separates
    have after_ : after = seps ++ rest := List.takeWhile_append_dropWhile.symm
    have share_ : advance isPathSeparator path (advance isOther path 2) =
        size ([s, s'] ++ first) + size seps := by
      have far := advance_append agrees_separator ([s, s'] ++ first) after
      rw [List.append_assoc, ← more_, ← path_] at far
      rw [j_, ← far, size_append, two]
    split
    · rename_i found
      obtain ⟨t, seps', split_⟩ : ∃ t seps', seps = t :: seps' := by
        cases same : seps with
        | nil =>
          rw [share_, same, j_, size_append, two, size_nil] at found
          exact absurd rfl found.2
        | cons t seps' => exact ⟨t, seps', rfl⟩
      have ht : t = '/' ∨ t = '\\' := by
        have one : t ∈ seps := by
          rw [split_]
          exact List.mem_cons_self
        exact separates_iff.1 (List.mem_takeWhile_imp one)
      split
      · have parts : path = [s, s'] ++ (first ++ (t :: seps' ++
            ((rest.takeWhile fun c => !windows.separates c) ++
              rest.dropWhile fun c => !windows.separates c))) := by
          rw [List.takeWhile_append_dropWhile, ← split_, ← after_, ← more_, path_]
        have last_ : advance isPathSeparator path (advance isOther path 2) =
            size ([s, s'] ++ first ++ (t :: seps')) := by
          rw [share_, ← split_, size_append ([s, s'] ++ first)]
        have far := advance_append agrees_other ([s, s'] ++ first ++ seps) rest
        rw [List.append_assoc, ← after_, List.append_assoc, ← more_, ← path_,
          size_append ([s, s'] ++ first), ← share_] at far
        exact uncRoot_some table hs hs' ht parts last_ far
      · exact ⟨_, rfl, none_⟩
    · exact ⟨_, rfl, none_⟩
  · exact ⟨_, rfl, none_⟩

/-- A byte of a separator is its own character. -/
theorem separator_at (sep : isPathSeparator (codeAt (a ++ b) (size a)) = true) :
    ∃ s rest, b = s :: rest ∧ (s = '/' ∨ s = '\\') := by
  cases b with
  | nil =>
    rw [List.append_nil, codeAt_end a (Nat.le_refl _)] at sep
    cases sep
  | cons s rest =>
    have here := agrees_separator.here a s rest
    have inside : size a < size (a ++ s :: rest) := by
      have some_ := s.utf8Size_pos
      rw [size_append, size_cons]
      omega
    obtain ⟨x, code⟩ := codeAt_some inside
    rw [code, Option.any_some, ← code, sep] at here
    exact ⟨s, rest, rfl, separates_iff.1 here.symm⟩

theorem rootOf_slashed (table : Char → List Char) (slashed : Slashed path) :
    ∃ root, rootOf table path = some root ∧ Absolute path root := by
  unfold rootOf
  rw [if_pos (slashed_code.2 slashed)]
  obtain ⟨s, more, path_, hs⟩ := slashed
  have one : size [s] = 1 := by rw [size_cons, utf8Size_ascii (separator_ascii hs)]; rfl
  have absolute : Absolute path (.root none 1 true) :=
    ⟨rfl, ⟨[s], more, path_, one⟩, fun d same => by cases same⟩
  split
  · rename_i sep
    rw [path_, ← one] at sep
    obtain ⟨s', more', rfl, hs'⟩ := separator_at (a := [s]) sep
    exact doubleRoot_some table hs hs' path_
  · exact ⟨_, rfl, absolute⟩

theorem not_slashed_drive (drive : Drive path) : ¬Slashed path := fun slashed =>
  not_drive_of_slashed slashed drive

theorem rootOf_drive (table : Char → List Char) (drive : Drive path) :
    ∃ device rootEnd isAbsolute,
      rootOf table path = some (.root (some device) rootEnd isAbsolute) ∧ Between path rootEnd ∧
        Drive device := by
  have apart := not_slashed_drive drive
  obtain ⟨letter, -⟩ := drive_code.2 drive
  obtain ⟨c, rest, path_, alpha⟩ := drive
  have ascii : IsAscii c := by
    have letter := isAlpha_iff.1 alpha
    show c.toNat < 0x80
    omega
  have first : ':' ∉ [c] := by
    intro one
    rw [← List.mem_singleton.1 one] at alpha
    exact absurd alpha (by decide)
  have one : size [c] = 1 := by rw [size_cons, utf8Size_ascii ascii]; rfl
  have two : size [c, ':'] = 2 := by rw [size_cons, utf8Size_ascii ascii]; rfl
  have colon : find path ':' = some 1 := find_some.2 ⟨[c], rest, path_, first, one⟩
  have device : slice path 0 2 = some [c, ':'] := by
    rw [path_, ← two]
    exact slice_upto [c, ':'] rest
  have drive_ : Drive [c, ':'] := ⟨c, [], rfl, alpha⟩
  have root : deviceRoot table path = some
      (if 2 < size path ∧ isPathSeparator (codeAt path 2) then .root (some [c, ':']) 3 true
        else .root (some [c, ':']) 2 false) := by
    unfold deviceRoot
    rw [colon, Option.filter_some_pos (by decide)]
    dsimp only
    rw [if_pos ⟨letter, rfl⟩, device]
    rfl
  rw [rootOf, if_neg (mt slashed_code.1 apart), root]
  split
  · rename_i sep
    have sep := sep.2
    rw [path_, ← two] at sep
    obtain ⟨t, rest', rfl, ht⟩ := separator_at (a := [c, ':']) sep
    have three : size [c, ':', t] = 3 := by
      rw [size_cons, utf8Size_ascii ascii, size_cons, size_cons,
        utf8Size_ascii (separator_ascii ht)]
      rfl
    exact ⟨_, _, _, rfl, ⟨[c, ':', t], rest', path_, three⟩, drive_⟩
  · exact ⟨_, _, _, rfl, ⟨[c, ':'], rest, path_, two⟩, drive_⟩

theorem rootOf_relative (table : Char → List Char) (apart : ¬Slashed path) (other : ¬Drive path) :
    rootOf table path = some (.root none 0 false) ∨ ∃ device rootEnd,
      rootOf table path = some (.root (some device) rootEnd false) ∧ Between path rootEnd ∧
        isWindowsReservedName table path (find path ':') = some true := by
  rw [rootOf, if_neg (mt slashed_code.1 apart)]
  unfold deviceRoot
  cases colon : find path ':' with
  | none => exact .inl rfl
  | some n =>
    obtain ⟨a, b, path_, -, width⟩ := find_some.1 colon
    have cut : slice path 0 n = some a := by
      rw [path_, ← width]
      exact slice_upto a _
    by_cases first : 0 < n
    · have kept : (some n).filter (fun at_ => decide (0 < at_)) = some n :=
        Option.filter_some_pos (by simpa using first)
      rw [kept]
      have other' : ¬(isWindowsDeviceRoot (codeAt path 0) = true ∧ n = 1) := by
        rintro ⟨letter, rfl⟩
        refine other (drive_code.1 ⟨letter, ?_⟩)
        rw [path_, ← width]
        exact codeAt_ascii a (by decide) b
      dsimp only
      rw [if_neg other', isWindowsReservedName, cut]
      show (if reserves table a = true then _ else _) = _ ∨ ∃ device rootEnd,
        (if reserves table a = true then _ else _) = _ ∧ _
      by_cases reserved : reserves table a = true
      · have whole : path = a ++ [':'] ++ b := by rw [path_, List.append_assoc]; rfl
        have device : slice path 0 (n + 1) = some (a ++ [':']) := by
          have upto := slice_upto (a ++ [':']) b
          rw [← whole, size_append, width] at upto
          exact upto
        rw [if_pos reserved, device]
        refine .inr ⟨_, _, rfl, ⟨a ++ [':'], b, whole, ?_⟩, congrArg some reserved⟩
        rw [size_append, width]
        rfl
      · rw [if_neg reserved]
        exact .inl rfl
    · have none_ : (some n).filter (fun at_ => decide (0 < at_)) = none :=
        Option.filter_some_neg (by simpa using first)
      rw [none_]
      exact .inl rfl

/-! ## 8. Whole paths -/

theorem length_of_utf16 (one : (path.map Lib.Text.utf16Width).sum = 1) :
    ∃ c, path = [c] := by
  have short := length_le_utf16 path
  cases path with
  | nil => cases one
  | cons c path =>
    cases path with
    | nil => exact ⟨c, rfl⟩
    | cons d path =>
      rw [one] at short
      exact absurd short (by simp)

/-- **A path is normalized** as one from the root, or of a drive, just where it is one. -/
theorem normalize_keeps (table : Char → List Char) (path : List Char) :
    ∃ out, normalize table path = some out ∧ (Slashed out ↔ Slashed path) ∧
      (Drive out ↔ Drive path) := by
  unfold normalize
  by_cases empty : size path = 0
  · rw [if_pos empty, size_eq_zero.1 empty]
    have none_ : ¬Slashed [] := by
      rintro ⟨c, rest, same, -⟩
      cases same
    have none' : ¬Drive [] := by
      rintro ⟨c, rest, same, -⟩
      cases same
    exact ⟨_, rfl, iff_of_false (dot_not_slashed []) none_,
      iff_of_false (dot_not_drive []) none'⟩
  rw [if_neg empty]
  by_cases one : (path.map Lib.Text.utf16Width).sum = 1
  · rw [if_pos one]
    obtain ⟨c, rfl⟩ := length_of_utf16 one
    split
    · rename_i slash
      have slashed : Slashed [c] := by
        refine slashed_code.1 ?_
        rw [slash]
        rfl
      exact ⟨_, rfl, iff_of_true (slashed_back []) slashed,
        iff_of_false (not_drive_of_slashed (slashed_back [])) (not_drive_of_slashed slashed)⟩
    · exact ⟨_, rfl, Iff.rfl, Iff.rfl⟩
  rw [if_neg one]
  by_cases slashed : Slashed path
  · obtain ⟨root, found, absolute⟩ := rootOf_slashed table slashed
    have from_ {out : List Char} (begins : Slashed out) : (Slashed out ↔ Slashed path) ∧
        (Drive out ↔ Drive path) :=
      ⟨iff_of_true begins slashed,
        iff_of_false (not_drive_of_slashed begins) (not_drive_of_slashed slashed)⟩
    rw [found, Option.bind_eq_bind, Option.bind_some]
    cases root with
    | whole answer => exact ⟨answer, rfl, from_ absolute⟩
    | root device rootEnd isAbsolute =>
      obtain ⟨rfl, between, device_⟩ := absolute
      obtain ⟨out, done, begins⟩ := finish_absolute slashed between device_
      exact ⟨out, done, from_ begins⟩
  by_cases drive : Drive path
  · obtain ⟨device, rootEnd, isAbsolute, found, between, device_⟩ := rootOf_drive table drive
    obtain ⟨out, done, begins⟩ := finish_drive drive between device_
    rw [found]
    exact ⟨out, done, iff_of_false (not_slashed_drive begins) slashed, iff_of_true begins drive⟩
  have relative {out : List Char} (apart : ¬Slashed out ∧ ¬Drive out) :
      (Slashed out ↔ Slashed path) ∧ (Drive out ↔ Drive path) :=
    ⟨iff_of_false apart.1 slashed, iff_of_false apart.2 drive⟩
  rcases rootOf_relative table slashed drive with found | ⟨device, rootEnd, found, between, named⟩
  · obtain ⟨out, done, apart⟩ := finish_relative table path
    rw [found]
    exact ⟨out, done, relative apart⟩
  · obtain ⟨out, done, apart⟩ := finish_named between named
    rw [found]
    exact ⟨out, done, relative apart⟩

/-! ## 9. Joined paths -/

/-- Two texts that begin alike, as paths. -/
def Alike (text path : List Char) : Prop :=
  (Slashed text ↔ Slashed path) ∧ (Drive text ↔ Drive path)

theorem Alike.trans {other : List Char} (h : Alike text path) (h' : Alike path other) :
    Alike text other := ⟨h.1.trans h'.1, h.2.trans h'.2⟩

variable {firstPart joined : List Char}

/-- The joined path begins as its first part. -/
theorem alike_first {more : List (List Char)} (some_ : firstPart ≠ []) :
    Alike (['\\'].intercalate (firstPart :: more)) firstPart := by
  have tail : ∃ rest, ['\\'].intercalate (firstPart :: more) = firstPart ++ rest ∧
      rest.head? ≠ some ':' := by
    by_cases none_ : more = []
    · refine ⟨[], ?_, by simp⟩
      rw [none_, List.intercalate_singleton, List.append_nil]
    · refine ⟨'\\' :: ['\\'].intercalate more, ?_, by simp⟩
      rw [List.intercalate_cons_of_ne_nil none_, List.append_assoc]
      rfl
  obtain ⟨rest, whole, apart⟩ := tail
  rw [whole]
  cases firstPart with
  | nil => exact absurd rfl some_
  | cons c first =>
    constructor
    · constructor
      · rintro ⟨d, more', same, sep⟩
        cases same
        exact ⟨_, first, rfl, sep⟩
      · rintro ⟨d, more', same, sep⟩
        cases same
        exact ⟨_, _, rfl, sep⟩
    · cases first with
      | nil =>
        constructor
        · rintro ⟨d, more', same, -⟩
          cases rest with
          | nil => cases same
          | cons e rest =>
            cases same
            exact absurd rfl apart
        · rintro ⟨d, more', same, -⟩
          cases same
      | cons e first =>
        constructor
        · rintro ⟨d, more', same, alpha⟩
          cases same
          exact ⟨_, first, rfl, alpha⟩
        · rintro ⟨d, more', same, alpha⟩
          cases same
          exact ⟨_, _, rfl, alpha⟩

/-- The separators counted at the head of the first part. -/
theorem leading_between (firstPart : List Char) : Between firstPart (leading firstPart).2 := by
  unfold leading
  split
  · rename_i sep
    obtain ⟨s, rest, path_, hs⟩ := slashed_code.1 sep
    have one : size [s] = 1 := by rw [size_cons, utf8Size_ascii (separator_ascii hs)]; rfl
    split
    · rename_i sep'
      have sep' := sep'.2
      rw [path_, ← one] at sep'
      obtain ⟨s', rest', rfl, hs'⟩ := separator_at (a := [s]) sep'
      have two : size [s, s'] = 2 := by
        rw [size_cons, size_cons, utf8Size_ascii (separator_ascii hs),
          utf8Size_ascii (separator_ascii hs')]
        rfl
      have between : Between firstPart 2 := ⟨[s, s'], rest', path_, two⟩
      split
      · split
        · rename_i sep''
          rw [path_, ← two] at sep''
          obtain ⟨t, rest'', rfl, ht⟩ := separator_at (a := [s, s']) sep''
          refine ⟨[s, s', t], rest'', path_, ?_⟩
          rw [size_cons, size_cons, size_cons, utf8Size_ascii (separator_ascii hs),
            utf8Size_ascii (separator_ascii hs'), utf8Size_ascii (separator_ascii ht)]
          rfl
        · exact between
      · exact between
    · exact ⟨[s], rest, path_, one⟩
  · exact ⟨[], firstPart, rfl, rfl⟩

theorem leading_apart (apart : ¬Slashed firstPart) : leading firstPart = (true, 0) :=
  if_neg (mt slashed_code.1 apart)

/-- With its leading separators as one, a path begins as before. -/
theorem oneSlash_some (alike : Alike joined firstPart) (rest : List Char)
    (whole : joined = firstPart ++ rest) :
    ∃ out, oneSlash firstPart joined = some out ∧ Alike out joined := by
  have self : Alike joined joined := ⟨Iff.rfl, Iff.rfl⟩
  obtain ⟨a, b, first_, width⟩ := leading_between firstPart
  have joined_ : joined = a ++ (b ++ rest) := by rw [whole, first_, List.append_assoc]
  have far := advance_append agrees_separator a (b ++ rest)
  rw [← joined_, width] at far
  unfold oneSlash
  cases lead : leading firstPart with
  | mk needsReplace slashCount =>
    rw [lead] at far width
    dsimp only at far width ⊢
    split
    · split
      · rename_i many
        have slashed : Slashed joined := by
          by_contra apart
          have none_ := leading_apart (mt alike.1.2 apart)
          rw [lead] at none_
          cases none_
          rw [size_eq_zero.1 width, List.nil_append] at joined_
          have stop : (b ++ rest).takeWhile windows.separates = [] := by
            rw [← joined_]
            cases joined with
            | nil => rfl
            | cons c more =>
              refine List.takeWhile_cons_of_neg fun sep => apart ⟨c, more, rfl, ?_⟩
              exact separates_iff.1 sep
          rw [stop] at far
          rw [far] at many
          exact absurd many (by decide)
        have cut : slice joined (advance isPathSeparator joined slashCount) (size joined) =
            some ((b ++ rest).dropWhile windows.separates) := by
          have from_ := slice_from (a ++ (b ++ rest).takeWhile windows.separates)
            ((b ++ rest).dropWhile windows.separates)
          rw [List.append_assoc, List.takeWhile_append_dropWhile, ← joined_, size_append, width,
            ← far] at from_
          exact from_
        rw [cut]
        exact ⟨_, rfl, iff_of_true (slashed_back _) slashed,
          iff_of_false (not_drive_of_slashed (slashed_back _)) (not_drive_of_slashed slashed)⟩
      · exact ⟨joined, rfl, self⟩
    · exact ⟨joined, rfl, self⟩

theorem reservedPart_some (table : Char → List Char) (joined : List Char) :
    ∃ reserved, reservedPart table joined = some reserved := by
  unfold reservedPart
  induction (joined.splitOnP (· == '\\')).filter (· ≠ []) with
  | nil => exact ⟨_, rfl⟩
  | cons part parts ih =>
    have told : ∃ reserved, (match find part ':' with
        | some colonIndex => isWindowsReservedName table part (some colonIndex)
        | none => some false) = some reserved := by
      split
      · rename_i colon
        rw [← colon]
        exact isWindowsReservedName_some table part
      · exact ⟨_, rfl⟩
    obtain ⟨reserved, told⟩ := told
    rw [List.anyM_cons, told]
    cases reserved with
    | true => exact ⟨_, rfl⟩
    | false => exact ih

/-- With backslashes for slashes, a path begins as before. -/
theorem alike_backslashes (path : List Char) :
    Alike (path.map fun c => if c = '/' then '\\' else c) path := by
  constructor
  · constructor
    · rintro ⟨c, rest, same, sep⟩
      cases path with
      | nil => cases same
      | cons d path =>
        rw [List.map_cons] at same
        by_cases slash : d = '/'
        · exact ⟨d, path, rfl, .inl slash⟩
        · rw [if_neg slash] at same
          cases same
          exact ⟨_, path, rfl, sep⟩
    · rintro ⟨c, rest, rfl, sep⟩
      refine ⟨_, _, List.map_cons, ?_⟩
      rcases sep with rfl | rfl
      · exact .inr rfl
      · exact .inr rfl
  · constructor
    · rintro ⟨c, rest, same, alpha⟩
      obtain ⟨d, more, rfl, rfl, after⟩ := List.map_eq_cons_iff.1 same
      obtain ⟨e, more', rfl, colon, -⟩ := List.map_eq_cons_iff.1 after
      have colon' : e = ':' := by
        by_cases slash : e = '/'
        · rw [if_pos slash] at colon
          cases colon
        · rwa [if_neg slash] at colon
      by_cases slash : d = '/'
      · rw [if_pos slash] at alpha
        exact absurd alpha (by decide)
      · rw [if_neg slash] at alpha
        exact ⟨d, more', by rw [colon'], alpha⟩
    · rintro ⟨c, rest, rfl, alpha⟩
      have other : c ≠ '/' := by
        rintro rfl
        exact absurd alpha (by decide)
      refine ⟨c, rest.map fun c => if c = '/' then '\\' else c, ?_, alpha⟩
      rw [List.map_cons, if_neg other, List.map_cons, if_neg (by decide)]

/-- **A path is joined** as one from the root, or of a drive, just where its first part is one. -/
theorem join_keeps (table : Char → List Char) (parts : List (List Char)) :
    ∃ out, join table parts = some out ∧
      (Slashed out ↔ ∃ first, parts.find? (· ≠ []) = some first ∧ Slashed first) ∧
      (Drive out ↔ ∃ first, parts.find? (· ≠ []) = some first ∧ Drive first) := by
  rw [← List.head?_filter]
  unfold join
  cases given : parts.filter (· ≠ []) with
  | nil =>
    refine ⟨_, rfl, iff_of_false (dot_not_slashed []) ?_, iff_of_false (dot_not_drive []) ?_⟩
    · rintro ⟨first, none_, -⟩
      cases none_
    · rintro ⟨first, none_, -⟩
      cases none_
  | cons firstPart more =>
    have some_ : firstPart ≠ [] := by
      have one : firstPart ∈ parts.filter (· ≠ []) := by
        rw [given]
        exact List.mem_cons_self
      exact of_decide_eq_true (List.mem_filter.1 one).2
    have head (p : List Char → Prop) : p firstPart ↔
        ∃ first, (firstPart :: more).head? = some first ∧ p first :=
      ⟨fun h => ⟨firstPart, rfl, h⟩, fun ⟨first, same, h⟩ => by cases same; exact h⟩
    have whole : ∃ rest, ['\\'].intercalate (firstPart :: more) = firstPart ++ rest := by
      by_cases none_ : more = []
      · exact ⟨[], by rw [none_, List.intercalate_singleton, List.append_nil]⟩
      · exact ⟨_, by rw [List.intercalate_cons_of_ne_nil none_, List.append_assoc]⟩
    have alike : Alike (['\\'].intercalate (firstPart :: more)) firstPart := alike_first some_
    obtain ⟨rest, whole⟩ := whole
    obtain ⟨joined, slash, alike'⟩ := oneSlash_some alike rest whole
    obtain ⟨reserved, told⟩ := reservedPart_some table joined
    rw [← head Slashed, ← head Drive]
    dsimp only
    rw [slash, Option.bind_eq_bind, Option.bind_some, told, Option.bind_eq_bind, Option.bind_some]
    cases reserved with
    | true => exact ⟨_, rfl, (alike_backslashes joined).trans (alike'.trans alike)⟩
    | false =>
      obtain ⟨out, done, keeps⟩ := normalize_keeps table joined
      exact ⟨out, done, Alike.trans keeps (alike'.trans alike)⟩

end

/-- **A relative Windows path stays relative.** For every path and every list of parts, no cut that
    `normalize` and `join` take falls inside a character; what they give is a path from the root,
    or of a drive, just where the path, or the first part that is not empty, is one. -/
theorem paths_keep_their_root (table : Char → List Char) :
    (∀ path, ∃ out, normalize table path = some out ∧ (Slashed out ↔ Slashed path) ∧
      (Drive out ↔ Drive path)) ∧
    ∀ parts, ∃ out, join table parts = some out ∧
      (Slashed out ↔ ∃ first, parts.find? (· ≠ []) = some first ∧ Slashed first) ∧
      (Drive out ↔ ∃ first, parts.find? (· ≠ []) = some first ∧ Drive first) :=
  ⟨normalize_keeps table, join_keeps table⟩

/-- Dots that take away all before a drive's name do not make it the drive. -/
example : normalize (fun c => [c]) "a/../C:/x".toList = some ".\\C:\\x".toList := by decide

end Win32

end Paths
