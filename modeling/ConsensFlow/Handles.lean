/-
  File:      ConsensFlow/Handles.lean
  Subject:   HANDLES MADE OF MODELS (`cf-ledger`, `handles.rs`): a member's handle, and the renaming
             of members and their windows.

  * `slug`, `numbered`, `memberHandle` -- a handle of words, one with a number after it, and the
    first of a member's that is free;
  * `Slug` -- words of small letters and digits, joined by `-`; `numbered_inj`;
  * `Row`, `setHandle` -- a participant's row, and an update the table's constraint may refuse;
  * `renameMember`, `nameMembersById`, `editNames` -- a member and its windows under another name,
    every member under its model's, and members edited one after another;
  * **`handles_free_and_unique`** -- a member's handle is free, short and a slug, and every renaming
    goes through and leaves the project's handles apart.
-/
import ConsensFlow.Lib.Lines
import ConsensFlow.Model
import ConsensFlow.Words.DeliveryText

namespace ConsensFlow
namespace Handles

open Lib.Text (stripPrefix splitOnce)

abbrev Text := List Char

/-! ## 1. Handles -/

/-- `MEMBER_HANDLE_MAX`. -/
def memberHandleMax : Nat := 40

/-- The runs of letters and digits of a text, in lowercase. -/
def parts (word : Text) : List Text :=
  ((word.map Char.toLower).splitOnP fun c => !c.isAlphanum).filter (· ≠ [])

def trimDashes (text : Text) : Text := text.rdropWhile (· == '-')

/-- `slug`: a slug is ASCII, so that its bytes are its characters. -/
def slug (words : List Text) : Text :=
  let slug := ['-'].intercalate (words.flatMap parts)
  let slug :=
    if memberHandleMax < slug.length then trimDashes (slug.take memberHandleMax) else slug
  if slug = [] then "member".toList else slug

/-- `numbered`: a name and a number after it, cut to leave room for it. -/
def numbered (name : Text) (n : Nat) : Text :=
  let number := '-' :: Nat.toDigits 10 n
  let room := memberHandleMax - number.length
  trimDashes (name.take room) ++ number

/-- The first free of the names of so many numbers, from `n` on. -/
def firstFree (name : Text) (taken : Text → Bool) : Nat → Nat → Option Text
  | 0, _ => none
  | count + 1, n =>
    if !taken (numbered name n) then some (numbered name n)
    else firstFree name taken count (n + 1)

/-- How many numbers a `usize` has from 2 on. -/
def numbers : Nat := 2 ^ 64 - 2

/-- A name that ends with its effort already does not say it twice. -/
def unsaid (shown : Text) (effort : Option Text) : Text :=
  (effort.filter fun effort => !('-' :: slug [effort]).isSuffixOf (slug [shown])).getD []

/-- `member_handle`. -/
def memberHandle (shown : Text) (provider effort : Option Text) (harness : Text)
    (taken : Text → Bool) : Text :=
  let effort := unsaid shown effort
  let plain := slug [shown, effort]
  let withProvider := provider.map fun provider => slug [provider, shown, effort]
  let withHarness := slug [harness, provider.getD [], shown, effort]
  if !taken plain then plain
  else
    match withProvider.filter (!taken ·) with
    | some handle => handle
    | none =>
      if !taken withHarness then withHarness
      else (firstFree withHarness taken numbers 2).getD withHarness

/-- `split_provider`: a model that holds a `/` is a provider and an id. -/
def splitProvider (model : Text) : Option Text × Text :=
  match splitOnce ['/'] model with
  | some (provider, id) => if provider ≠ [] ∧ id ≠ [] then (some provider, id) else (none, model)
  | none => (none, model)

/-- `model_handle`. -/
def modelHandle (model : Text) (effort : Option Text) (harness : Text) (taken : Text → Bool) :
    Text :=
  let (provider, id) := splitProvider model
  memberHandle id provider effort harness taken

/-! ## 2. A handle is a slug -/

def IsSlugChar (c : Char) : Prop := c.isLower ∨ c.isDigit

/-- A word of a slug. -/
structure Word (word : Text) : Prop where
  some : word ≠ []
  chars : ∀ c ∈ word, IsSlugChar c

/-- The slug grammar: words joined by `-`. -/
inductive Slug : Text → Prop
  | word {word : Text} : Word word → Slug word
  | more {word rest : Text} : Word word → Slug rest → Slug (word ++ '-' :: rest)

theorem dash_not_slugChar : ¬IsSlugChar '-' := by
  unfold IsSlugChar
  decide

namespace Word

variable {w : Text}

theorem no_dash (word : Word w) : '-' ∉ w := fun here => dash_not_slugChar (word.chars _ here)

theorem trimmed (word : Word w) : trimDashes w = w := by
  rw [trimDashes, List.rdropWhile_eq_self_iff]
  intro some_ last
  exact word.no_dash ((eq_of_beq last) ▸ List.getLast_mem some_)

theorem take (word : Word w) {n : Nat} (some_ : 0 < n) : Word (w.take n) where
  some := by
    intro none_
    rcases List.take_eq_nil_iff.1 none_ with zero | none_
    · omega
    · exact word.some none_
  chars := fun c here => word.chars c (List.mem_of_mem_take here)

end Word

namespace Slug

variable {a b : Text}

theorem ne_nil (slug : Slug a) : a ≠ [] := by
  cases slug with
  | word word => exact word.some
  | more word rest => exact List.append_ne_nil_of_right_ne_nil _ (List.cons_ne_nil _ _)

theorem append (first : Slug a) (second : Slug b) : Slug (a ++ '-' :: b) := by
  induction first with
  | word word => exact .more word second
  | more word _ ih =>
    rw [List.append_assoc, List.cons_append]
    exact .more word ih

theorem trimDashes_append {first second : Text} (some_ : trimDashes second ≠ []) :
    trimDashes (first ++ second) = first ++ trimDashes second := by
  have some' : ¬(second.reverse.dropWhile (· == '-')).isEmpty = true := by
    intro none_
    rw [List.isEmpty_iff] at none_
    exact some_ (by rw [trimDashes, List.rdropWhile, none_, List.reverse_nil])
  rw [trimDashes, List.rdropWhile, List.reverse_append, List.dropWhile_append, if_neg some',
    List.reverse_append, List.reverse_reverse]
  rfl

/-- A slug cut anywhere, and trimmed, is a slug. -/
theorem cut (slug : Slug a) {n : Nat} (some_ : 0 < n) : Slug (trimDashes (a.take n)) := by
  induction slug generalizing n with
  | word word =>
    rw [(word.take some_).trimmed]
    exact .word (word.take some_)
  | @more w rest word _ ih =>
    rcases Nat.lt_trichotomy n (w.length + 1) with short | here | long
    · rw [List.take_append_of_le_length (by omega), (word.take some_).trimmed]
      exact .word (word.take some_)
    · rw [here, List.take_length_add_append]
      show Slug (trimDashes (w ++ ['-']))
      rw [trimDashes, List.rdropWhile_concat_pos _ _ _ rfl]
      show Slug (trimDashes w)
      rw [word.trimmed]
      exact .word word
    · obtain ⟨k, rfl⟩ : ∃ k, n = w.length + (k + 1) := ⟨n - w.length - 1, by omega⟩
      have rest_ := ih (n := k) (by omega)
      have cut_ : trimDashes (('-' :: rest).take (k + 1)) = '-' :: trimDashes (rest.take k) :=
        @trimDashes_append ['-'] _ rest_.ne_nil
      rw [List.take_length_add_append, trimDashes_append (by rw [cut_]; exact List.cons_ne_nil _ _),
        cut_]
      exact .more word rest_

theorem joined {words : List Text} (some_ : words ≠ []) (all : ∀ w ∈ words, Word w) :
    Slug (['-'].intercalate words) := by
  induction words with
  | nil => exact absurd rfl some_
  | cons w words ih =>
    cases words with
    | nil =>
      rw [List.intercalate_singleton]
      exact .word (all w List.mem_cons_self)
    | cons next words =>
      rw [List.intercalate_cons_cons, List.append_assoc]
      exact .more (all w List.mem_cons_self)
        (ih (List.cons_ne_nil _ _) fun w here => all w (List.mem_cons_of_mem _ here))

end Slug

theorem mem_splitOnP {p : Char → Bool} {text part : Text} (one : part ∈ text.splitOnP p) :
    ∀ c ∈ part, c ∈ text ∧ p c = false := by
  induction text generalizing part with
  | nil =>
    rw [List.splitOnP_nil, List.mem_singleton] at one
    rw [one]
    simp
  | cons d text ih =>
    rw [List.splitOnP_cons_eq_if_modifyHead] at one
    intro c here
    split at one
    · rcases List.mem_cons.1 one with rfl | one
      · cases here
      · exact ⟨List.mem_cons_of_mem _ (ih one c here).1, (ih one c here).2⟩
    · rename_i not
      cases split_ : text.splitOnP p with
      | nil => exact absurd split_ (List.splitOnP_ne_nil p text)
      | cons first others =>
        rw [split_, List.modifyHead_cons] at one
        rcases List.mem_cons.1 one with rfl | one
        · rcases List.mem_cons.1 here with rfl | here
          · exact ⟨List.mem_cons_self, by simpa using not⟩
          · have inside := ih (split_ ▸ List.mem_cons_self) c here
            exact ⟨List.mem_cons_of_mem _ inside.1, inside.2⟩
        · have inside := ih (split_ ▸ List.mem_cons_of_mem _ one) c here
          exact ⟨List.mem_cons_of_mem _ inside.1, inside.2⟩

theorem parts_words (word : Text) : ∀ part ∈ parts word, Word part := by
  intro part one
  obtain ⟨one, some_⟩ := List.mem_filter.1 one
  refine ⟨of_decide_eq_true some_, fun c here => ?_⟩
  obtain ⟨among, alphanum⟩ := mem_splitOnP one c here
  obtain ⟨d, -, rfl⟩ := List.mem_map.1 among
  have alphanum' : d.toLower.isAlphanum = true := by simpa using alphanum
  unfold IsSlugChar
  rw [Char.isAlphanum, Char.isAlpha, Char.isUpper_toLower_eq_false] at alphanum'
  simpa using alphanum'

theorem member_list : "member".toList = ['m', 'e', 'm', 'b', 'e', 'r'] := String.toList_ofList

theorem slug_member : Slug "member".toList := by
  have small : ['m', 'e', 'm', 'b', 'e', 'r'].all Char.isLower = true := rfl
  rw [member_list]
  exact .word ⟨List.cons_ne_nil _ _, fun c here => .inl (List.all_eq_true.1 small c here)⟩

/-- **What is made of words is a slug**, of 40 characters at most. -/
theorem slug_slug (words : List Text) : Slug (slug words) ∧ (slug words).length ≤ 40 := by
  have all : ∀ part ∈ words.flatMap parts, Word part := by
    intro part one
    obtain ⟨word, -, one⟩ := List.mem_flatMap.1 one
    exact parts_words word part one
  unfold slug
  dsimp only
  by_cases none_ : words.flatMap parts = []
  · have short : ¬memberHandleMax < ([] : Text).length := Nat.not_lt.2 (Nat.zero_le _)
    rw [none_, List.intercalate_nil, if_neg short, if_pos rfl]
    refine ⟨slug_member, ?_⟩
    rw [member_list]
    decide
  · have whole : Slug (['-'].intercalate (words.flatMap parts)) := Slug.joined none_ all
    by_cases long : memberHandleMax < (['-'].intercalate (words.flatMap parts)).length
    · have cut := whole.cut (by decide : 0 < memberHandleMax)
      rw [if_pos long, if_neg cut.ne_nil]
      exact ⟨cut, Nat.le_trans (List.rdropWhile_prefix _ _).length_le (List.length_take_le _ _)⟩
    · rw [if_neg long, if_neg whole.ne_nil]
      exact ⟨whole, Nat.not_lt.1 long⟩

theorem digits_word (n : Nat) : Word (Nat.toDigits 10 n) where
  some := Nat.toDigits_ne_nil
  chars := fun _ here => .inr (Nat.isDigit_of_mem_toDigits (by decide) (by decide) here)

theorem numbered_slug {name : Text} (slug : Slug name) {n : Nat} (small : n < 2 ^ 64) :
    Slug (numbered name n) ∧ (numbered name n).length ≤ 40 := by
  have digits : (Nat.toDigits 10 n).length ≤ 20 :=
    (Nat.length_toDigits_le_iff (by decide) (by decide)).2 (by omega)
  unfold numbered
  refine ⟨(slug.cut ?_).append (.word (digits_word n)), ?_⟩
  · rw [List.length_cons, memberHandleMax]
    omega
  · have cut : (trimDashes (name.take (memberHandleMax - ('-' :: Nat.toDigits 10 n).length))).length
        ≤ memberHandleMax - ('-' :: Nat.toDigits 10 n).length :=
      Nat.le_trans (List.rdropWhile_prefix _ _).length_le (List.length_take_le _ _)
    rw [List.length_append]
    rw [List.length_cons, memberHandleMax] at cut ⊢
    omega

/-- **Distinct numbers make distinct handles**, whatever is left of the names. -/
theorem numbered_inj {a b : Text} {n m : Nat} (same : numbered a n = numbered b m) : n = m := by
  have digits (name : Text) (n : Nat) :
      (numbered name n).rtakeWhile (· ≠ '-') = Nat.toDigits 10 n := by
    have clear : ∀ c ∈ (Nat.toDigits 10 n).reverse, (decide (c ≠ '-')) = true := by
      intro c here
      refine decide_eq_true fun dash => (digits_word n).no_dash ?_
      exact dash ▸ List.mem_reverse.1 here
    rw [numbered, List.rtakeWhile, List.reverse_append, List.reverse_cons, List.append_assoc,
      List.takeWhile_append_of_pos clear, List.singleton_append,
      List.takeWhile_cons_of_neg (by simp), List.append_nil, List.reverse_reverse]
  have same' : Nat.toDigits 10 n = Nat.toDigits 10 m := by
    rw [← digits a n, same, digits b m]
  rw [← Nat.ofDigitChars_ten_toDigits (n := n), same', Nat.ofDigitChars_ten_toDigits]

/-- A name of a list longer than those taken is free. -/
theorem find_free {taken names : List Text} (apart : names.Nodup)
    (few : taken.length < names.length) :
    ∃ name ∈ names, names.find? (fun name => !decide (name ∈ taken)) = some name ∧
      name ∉ taken := by
  cases found : names.find? fun name => !decide (name ∈ taken) with
  | some name =>
    exact ⟨name, List.mem_of_find?_eq_some found, rfl, by simpa using List.find?_some found⟩
  | none =>
    rw [List.find?_eq_none] at found
    have all : names ⊆ taken := by
      intro name here
      simpa using found name here
    exact absurd (List.subperm_of_subset apart all).length_le (Nat.not_le.2 few)

theorem firstFree_eq (name : Text) (taken : Text → Bool) (count n : Nat) :
    firstFree name taken count n =
      ((List.range' n count).map (numbered name)).find? fun handle => !taken handle := by
  induction count generalizing n with
  | zero => rfl
  | succ count ih =>
    rw [firstFree, List.range'_succ, List.map_cons, List.find?_cons, ih]
    cases taken (numbered name n) with
    | true => rfl
    | false => rfl

/-- **A member's handle** is a slug of 40 characters at most, and free where fewer are taken than a
    `usize` has numbers. -/
theorem memberHandle_free (shown : Text) (provider effort : Option Text) (harness : Text)
    (taken : List Text) :
    let handle := memberHandle shown provider effort harness fun name => decide (name ∈ taken)
    Slug handle ∧ handle.length ≤ 40 ∧ (taken.length < 2 ^ 64 - 2 → handle ∉ taken) := by
  unfold memberHandle
  dsimp only
  split
  · rename_i free
    exact ⟨(slug_slug _).1, (slug_slug _).2, fun _ => by simpa using free⟩
  split
  · rename_i handle found
    obtain ⟨made, free⟩ := Option.filter_eq_some_iff.1 found
    obtain ⟨name, -, rfl⟩ := Option.map_eq_some_iff.1 made
    exact ⟨(slug_slug _).1, (slug_slug _).2, fun _ => by simpa using free⟩
  split
  · rename_i free
    exact ⟨(slug_slug _).1, (slug_slug _).2, fun _ => by simpa using free⟩
  obtain ⟨slug_, short⟩ := slug_slug [harness, provider.getD [], shown, unsaid shown effort]
  revert slug_ short
  generalize slug [harness, provider.getD [], shown, unsaid shown effort] = name
  intro slug_ short
  rw [firstFree_eq]
  have apart : ((List.range' 2 numbers).map (numbered name)).Nodup :=
    List.Nodup.map (fun _ _ => numbered_inj) List.nodup_range'
  cases found : ((List.range' 2 numbers).map (numbered name)).find? fun handle =>
      !decide (handle ∈ taken) with
  | some handle =>
    obtain ⟨n, one, rfl⟩ := List.mem_map.1 (List.mem_of_find?_eq_some found)
    have within := (List.mem_range'_1.1 one).2
    rw [numbers] at within
    obtain ⟨grammar, fits⟩ := numbered_slug slug_ (by omega : n < 2 ^ 64)
    exact ⟨grammar, fits, fun _ => by simpa using List.find?_some found⟩
  | none =>
    refine ⟨slug_, short, fun few => ?_⟩
    have more : taken.length < ((List.range' 2 numbers).map (numbered name)).length := by
      rw [List.length_map, List.length_range']
      exact few
    obtain ⟨handle, -, free, -⟩ := find_free apart more
    rw [found] at free
    cases free

/-! ## 3. The table -/

/-- A participant's row, as far as its name is made of it. -/
structure Row where
  id : Nat
  project : Nat
  handle : Text
  role : Role
  harness : Option Text := none
  model : Option Text := none
  effort : Option Text := none
  modelName : Option Text := none
  memberId : Option Nat := none
  needsEdit : Bool := false
  formerHandles : List Text := []
  deriving DecidableEq, Repr

/-- `participant_handle_unique`. -/
def Apart (rows : List Row) : Prop :=
  rows.Pairwise fun r q => ¬(r.project = q.project ∧ r.handle = q.handle)

instance (rows : List Row) : Decidable (Apart rows) :=
  inferInstanceAs (Decidable (rows.Pairwise _))

def handlesOf (rows : List Row) (project : Nat) : List Text :=
  (rows.filter fun r => r.project = project).map Row.handle

/-- `handle_taken`: whether the project has a participant of that handle. -/
def handleTaken (rows : List Row) (project : Nat) (handle : Text) : Bool :=
  decide (handle ∈ handlesOf rows project)

/-- The rows, the one of an id changed. -/
def update (rows : List Row) (id : Nat) (f : Row → Row) : List Row :=
  rows.map fun r => if r.id = id then f r else r

/-- A row's handle is set, or the table refuses it: `none`. -/
def setHandle (rows : List Row) (id : Nat) (handle : Text) : Option (List Row) :=
  let rows := update rows id fun r => { r with handle }
  if Apart rows then some rows else none

/-- `keep_former`: a name joins those the participant has left. -/
def keepFormer (rows : List Row) (id : Nat) (handle : Text) : Option (List Row) :=
  if rows.any fun r => r.id = id then
    some (update rows id fun r =>
      if r.formerHandles.getLast? = some handle then r
      else { r with formerHandles := r.formerHandles ++ [handle] })
  else none

/-! ## 4. Renaming -/

/-- The first name free of a base and its numbers, of as many as there are rows and two more. -/
def freeName (rows : List Row) (project : Nat) (base : Text) : Option Text :=
  (base :: (List.range' 2 (rows.length + 1)).map fun n => base ++ '-' :: Nat.toDigits 10 n).find?
    fun name => !handleTaken rows project name

/-- A window's own words, after its member's handle. -/
def ownWords (old was : Text) : Text :=
  ((stripPrefix old was).bind (stripPrefix ['-'])).getD was

def renameWindow (project : Nat) (old new : Text) (rows : List Row) (window : Nat × Text) :
    Option (List Row) := do
  let name ← freeName rows project (new ++ '-' :: ownWords old window.2)
  let rows ← keepFormer rows window.1 window.2
  setHandle rows window.1 name

def windowsOf (rows : List Row) (member : Nat) : List (Nat × Text) :=
  ((rows.filter fun r => r.memberId = some member).insertionSort fun r q => r.id ≤ q.id).map
    fun r => (r.id, r.handle)

/-- `rename_member`: a member and its windows under another name. -/
def renameMember (rows : List Row) (project member : Nat) (old new : Text) :
    Option (List Row) := do
  let rows ← if old = new then some rows else keepFormer rows member old
  let rows ← setHandle rows member new
  if old = new then some rows
  else (windowsOf rows member).foldlM (renameWindow project old new) rows

/-- The models a harness's list holds, each as its listed id and the launch ids it has. -/
abbrev ModelsList := List (Text × List Text)

/-- How a row's listed model was found. -/
inductive Listed where
  | asTaken | fromList | byLabel | launchId
  deriving DecidableEq, Repr

/-- The words of a launch id but its effort's, where that is among them once. -/
def withoutEffort (model effort : Text) : Option Text :=
  let words := Lib.Lines.parted '-' model
  match words.findIdxs (· = effort) with
  | [at_] => some (['-'].intercalate (words.eraseIdx at_))
  | _ => none

/-- `listed_model`. -/
def listedModel (model : Text) (effort label : Option Text) (list : ModelsList) :
    Text × Listed :=
  let found := ((list.filter fun entry => entry.2.contains model).map Prod.fst).destutter (· ≠ ·)
  match found with
  | [id] => (id, .fromList)
  | _ :: _ => (model, .launchId)
  | [] =>
    if list.any fun entry => entry.1 = model then (model, .asTaken)
    else
      let stripped := do
        let effort ← effort
        let label ← label
        let stripped ← withoutEffort model effort
        if stripped ≠ [] ∧ slug [stripped] = slug [label] then some stripped else none
      match stripped with
      | some stripped => (stripped, .byLabel)
      | none => (model, .asTaken)

/-- What the renaming of every member did, counted. -/
structure Renamed where
  members : Nat := 0
  chiefs : Nat := 0
  changed : Nat := 0
  windows : Nat := 0
  byList : Nat := 0
  byLabel : Nat := 0
  byLaunchId : Nat := 0
  deriving DecidableEq, Repr

def Renamed.count (done : Renamed) : Listed → Renamed
  | .fromList => { done with byList := done.byList + 1 }
  | .byLabel => { done with byLabel := done.byLabel + 1 }
  | .launchId => { done with byLaunchId := done.byLaunchId + 1 }
  | .asTaken => done

/-- A name no handle is like, while every member's old one goes. -/
def placeholder (id : Nat) : Text := Char.ofNat 1 :: Nat.toDigits 10 id

/-- The rows a renaming names: members with a model, gone or not, and chiefs. -/
def namedRows (rows : List Row) : List Row :=
  (rows.filter fun r => r.memberId.isNone && r.role != .human && !r.needsEdit &&
      r.model.isSome && r.harness.isSome).insertionSort
    fun r q => r.project < q.project ∨ r.project = q.project ∧ r.id ≤ q.id

/-- One member of them, `row` as it was read. -/
def nameMember (lists : Text → ModelsList) (state : List Row × Renamed) (row : Row) :
    Option (List Row × Renamed) := do
  let (rows, done) := state
  let harness := row.harness.getD []
  let (listed, how) :=
    listedModel (row.model.getD []) row.effort row.modelName (lists harness)
  let done := done.count how
  let rows := rows.map fun r =>
    if r.id = row.id ∨ r.memberId = some row.id then { r with modelName := some listed } else r
  if row.role = .chief then some (rows, { done with chiefs := done.chiefs + 1 })
  else
    let handle := modelHandle listed row.effort harness (handleTaken rows row.project)
    let done := { done with members := done.members + 1 }
    let done :=
      if handle = row.handle then done
      else
        { done with
          changed := done.changed + 1
          windows := done.windows + (windowsOf rows row.id).length }
    let rows ← renameMember rows row.project row.id row.handle handle
    some (rows, done)

/-- `name_members_by_id`: every member takes the name its model's id and effort make. `lists` is
    what the home ledger holds of each harness's models. -/
def nameMembersById (lists : Text → ModelsList) (rows : List Row) :
    Option (List Row × Renamed) := do
  let named := namedRows rows
  let rows ← (named.filter fun r => r.role ≠ .chief).foldlM
    (fun rows r => setHandle rows r.id (placeholder r.id)) rows
  named.foldlM (nameMember lists) (rows, {})

/-- `harness_label`. -/
def harnessLabel (harness : Option Text) : Text :=
  match harness with
  | some harness =>
    match String.ofList harness with
    | "claude-code" => "Claude Code".toList
    | "codex" => "Codex".toList
    | "pi" => "Pi".toList
    | "devin" => "Devin".toList
    | "muse" => "Muse Code".toList
    | _ => harness
  | none => "its harness's".toList

/-- `model_shown`: what a member's model is called. -/
def modelShown (modelName model harness : Option Text) : Text :=
  match modelName.filter (fun name => Deliveries.trim name ≠ []), model with
  | some name, _ => name
  | none, some model => model
  | none, none => harnessLabel harness ++ " default".toList

/-- What Edit member changes of a member that its name is made of. -/
structure MemberEdit where
  member : Nat
  harness : Text
  model : Option Text
  effort : Option Text
  modelName : Option Text
  deriving DecidableEq, Repr

/-- The naming of `edit_member`: a member on a model now is named by it, its windows with it. -/
def editName (rows : List Row) (edit : MemberEdit) : Option (List Row) := do
  let member ← rows.find? fun r => r.id = edit.member
  let rows := rows.map fun r =>
    if r.id = member.id ∨ r.memberId = some member.id then
      { r with
        harness := some edit.harness, model := edit.model, effort := edit.effort
        modelName := edit.modelName, needsEdit := false }
    else r
  match edit.model with
  | none => some rows
  | some model =>
    let shown := modelShown edit.modelName (some model) (some edit.harness)
    let renamed := modelHandle shown edit.effort edit.harness fun candidate =>
      candidate ≠ member.handle && handleTaken rows member.project candidate
    if renamed = member.handle then some rows
    else renameMember rows member.project member.id member.handle renamed

/-- Members edited one after another. -/
def editNames (rows : List Row) (edits : List MemberEdit) : Option (List Row) :=
  edits.foldlM editName rows

/-! ## 5. The rows stay apart -/

/-- Which row it is: its id, its project and its member. -/
def Row.key (r : Row) : Nat × Nat × Option Nat := (r.id, r.project, r.memberId)

/-- And under which handle. -/
def Row.tag (r : Row) : (Nat × Nat × Option Nat) × Text := (r.key, r.handle)

/-- A table as the ledger keeps it: a row of each id, which is a 64-bit one, a handle of a project
    given once, and a window in the project of its member. -/
structure Sound (rows : List Row) : Prop where
  ids : (rows.map Row.id).Nodup
  small : ∀ r ∈ rows, r.id < 2 ^ 63
  windows : ∀ w ∈ rows, ∀ m ∈ rows, w.memberId = some m.id → w.project = m.project
  apart : Apart rows

section Rows

variable {rows rows' : List Row} {r m : Row} {id project : Nat} {handle : Text}

theorem apart_of_tags (same : rows'.map Row.tag = rows.map Row.tag) (apart : Apart rows) :
    Apart rows' := by
  have form (rows : List Row) : Apart rows ↔ (rows.map Row.tag).Pairwise fun a b =>
      ¬(a.1.2.1 = b.1.2.1 ∧ a.2 = b.2) := by
    rw [List.pairwise_map]
    rfl
  rw [form, same, ← form]
  exact apart

theorem keys_of_tags (same : rows'.map Row.tag = rows.map Row.tag) :
    rows'.map Row.key = rows.map Row.key := by
  have form (rows : List Row) : rows.map Row.key = (rows.map Row.tag).map Prod.fst := by
    rw [List.map_map]
    rfl
  rw [form, same, ← form]

theorem handlesOf_tags (same : rows'.map Row.tag = rows.map Row.tag) (project : Nat) :
    handlesOf rows' project = handlesOf rows project := by
  have form (rows : List Row) : handlesOf rows project =
      ((rows.map Row.tag).filter fun t => t.1.2.1 = project).map Prod.snd := by
    rw [List.filter_map, List.map_map]
    rfl
  rw [form, same, form]

theorem mem_handlesOf : handle ∈ handlesOf rows project ↔
    ∃ r ∈ rows, r.project = project ∧ r.handle = handle := by
  simp [handlesOf, and_assoc]

/-- The same rows, as far as something of them goes. -/
theorem mem_same {α : Type} {g : Row → α} (same : rows'.map g = rows.map g) (one : r ∈ rows) :
    ∃ q ∈ rows', g q = g r := by
  have inside : g r ∈ rows'.map g := same ▸ List.mem_map_of_mem one
  exact List.mem_map.1 inside

theorem Sound.of_keys (sound : Sound rows) (same : rows'.map Row.key = rows.map Row.key)
    (apart : Apart rows') : Sound rows' where
  ids := by
    have ids (rows : List Row) : rows.map Row.id = (rows.map Row.key).map Prod.fst := by
      rw [List.map_map]
      rfl
    rw [ids, same, ← ids]
    exact sound.ids
  small := by
    intro r one
    obtain ⟨q, among, key⟩ := mem_same same.symm one
    have id : q.id = r.id := congrArg Prod.fst key
    exact id ▸ sound.small q among
  windows := by
    intro w one m other has
    obtain ⟨w', among, key⟩ := mem_same same.symm one
    obtain ⟨m', among', key'⟩ := mem_same same.symm other
    simp only [Row.key, Prod.mk.injEq] at key key'
    have whole := sound.windows w' among m' among' (by rw [key.2.2, key'.1]; exact has)
    rw [← key.2.1, ← key'.2.1]
    exact whole
  apart := apart

theorem Sound.eq_of_id (sound : Sound rows) {q : Row} (one : r ∈ rows) (other : q ∈ rows)
    (same : r.id = q.id) : r = q :=
  List.inj_on_of_nodup_map sound.ids one other same

theorem update_map {α : Type} {f : Row → Row} {g : Row → α} (keeps : ∀ r, g (f r) = g r)
    (rows : List Row) (id : Nat) : (update rows id f).map g = rows.map g := by
  rw [update, List.map_map]
  refine List.map_congr_left fun r _ => ?_
  show g (if r.id = id then f r else r) = g r
  split
  · exact keeps r
  · rfl

/-- A handle is set where no other row of the project has it. -/
theorem setHandle_sound (sound : Sound rows) (one : m ∈ rows)
    (free : ∀ q ∈ rows, q.project = m.project → q.handle = handle → q.id = m.id) :
    ∃ rows', setHandle rows m.id handle = some rows' ∧ Sound rows' ∧
      rows'.map Row.key = rows.map Row.key ∧
      rows' = update rows m.id fun r => { r with handle } := by
  have keys : (update rows m.id fun r => { r with handle }).map Row.key = rows.map Row.key :=
    update_map (f := fun r => { r with handle }) (g := Row.key) (fun _ => rfl) rows m.id
  have apart : Apart (update rows m.id fun r => { r with handle }) := by
    unfold Apart update
    rw [List.pairwise_map]
    refine List.Pairwise.imp_of_mem ?_
      (sound.apart.and (List.pairwise_map.1 (List.nodup_iff_pairwise_ne.1 sound.ids)))
    rintro r q among among' ⟨apart, ids⟩ ⟨project, same⟩
    by_cases mine : r.id = m.id
    · have other : q.id ≠ m.id := fun e => ids (mine.trans e.symm)
      rw [if_pos mine, if_neg other] at project same
      refine other (free q among' ?_ same.symm)
      rw [← sound.eq_of_id among one mine]
      exact project.symm
    · rw [if_neg mine] at project same
      by_cases its : q.id = m.id
      · rw [if_pos its] at project same
        refine mine (free r among ?_ same)
        rw [← sound.eq_of_id among' one its]
        exact project
      · rw [if_neg its] at project same
        exact apart ⟨project, same⟩
  refine ⟨_, ?_, sound.of_keys keys apart, keys, rfl⟩
  rw [setHandle]
  exact if_pos apart

/-- A name kept among those left changes no handle. -/
theorem keepFormer_sound (sound : Sound rows) (one : m ∈ rows) (handle : Text) :
    ∃ rows', keepFormer rows m.id handle = some rows' ∧ Sound rows' ∧
      rows'.map Row.tag = rows.map Row.tag := by
  have there : (rows.any fun r => r.id = m.id) = true :=
    List.any_eq_true.2 ⟨m, one, decide_eq_true rfl⟩
  have tags : (update rows m.id fun r =>
      if r.formerHandles.getLast? = some handle then r
      else { r with formerHandles := r.formerHandles ++ [handle] }).map Row.tag =
        rows.map Row.tag := by
    refine update_map (fun r => ?_) rows m.id
    split
    · rfl
    · rfl
  exact ⟨_, if_pos there, sound.of_keys (keys_of_tags tags) (apart_of_tags tags sound.apart), tags⟩

/-- **A name is free** among a base and as many numbers as there are rows, and one more. -/
theorem freeName_free (rows : List Row) (project : Nat) (base : Text) :
    ∃ name, freeName rows project base = some name ∧ name ∉ handlesOf rows project := by
  have digits {n k : Nat}
      (same : base ++ '-' :: Nat.toDigits 10 n = base ++ '-' :: Nat.toDigits 10 k) : n = k := by
    have same' := List.tail_eq_of_cons_eq (List.append_cancel_left same)
    rw [← Nat.ofDigitChars_ten_toDigits (n := n), same', Nat.ofDigitChars_ten_toDigits]
  have apart : (base :: (List.range' 2 (rows.length + 1)).map fun n =>
      base ++ '-' :: Nat.toDigits 10 n).Nodup := by
    rw [List.nodup_cons]
    refine ⟨fun among => ?_, List.Nodup.map (fun _ _ => digits) List.nodup_range'⟩
    obtain ⟨n, -, same⟩ := List.mem_map.1 among
    have long := congrArg List.length same
    rw [List.length_append, List.length_cons] at long
    omega
  have few : (handlesOf rows project).length < (base :: (List.range' 2 (rows.length + 1)).map
      fun n => base ++ '-' :: Nat.toDigits 10 n).length := by
    have some_ : (handlesOf rows project).length ≤ rows.length := by
      rw [handlesOf, List.length_map]
      exact List.length_filter_le _ _
    rw [List.length_cons, List.length_map, List.length_range']
    omega
  obtain ⟨name, -, found, free⟩ := find_free apart few
  exact ⟨name, found, free⟩

theorem renameWindow_sound (sound : Sound rows) (one : m ∈ rows) (old new was : Text) :
    ∃ rows', renameWindow m.project old new rows (m.id, was) = some rows' ∧ Sound rows' ∧
      rows'.map Row.key = rows.map Row.key := by
  obtain ⟨name, found, free⟩ := freeName_free rows m.project (new ++ '-' :: ownWords old was)
  obtain ⟨kept, form, sound', tags⟩ := keepFormer_sound sound one was
  obtain ⟨m', among, tag⟩ := mem_same tags one
  simp only [Row.tag, Row.key, Prod.mk.injEq] at tag
  obtain ⟨⟨id, project, -⟩, -⟩ := tag
  have free' : ∀ q ∈ kept, q.project = m'.project → q.handle = name → q.id = m'.id := by
    intro q other its same
    rw [← handlesOf_tags tags] at free
    exact absurd (mem_handlesOf.2 ⟨q, other, its.trans project, same⟩) free
  obtain ⟨rows', form', sound'', keys, -⟩ := setHandle_sound sound' among free'
  refine ⟨rows', ?_, sound'', keys.trans (keys_of_tags tags)⟩
  rw [renameWindow, found]
  show (keepFormer rows m.id was).bind _ = _
  rw [form, ← id]
  exact form'

theorem renameWindows_sound (sound : Sound rows) (old new : Text) (windows : List (Nat × Text))
    (all : ∀ w ∈ windows, ∃ r ∈ rows, r.id = w.1 ∧ r.project = project) :
    ∃ rows', windows.foldlM (renameWindow project old new) rows = some rows' ∧ Sound rows' ∧
      rows'.map Row.key = rows.map Row.key := by
  induction windows generalizing rows with
  | nil => exact ⟨rows, rfl, sound, rfl⟩
  | cons w windows ih =>
    obtain ⟨id, was⟩ := w
    obtain ⟨r, one, rfl, rfl⟩ := all (id, was) List.mem_cons_self
    obtain ⟨kept, form, sound', keys⟩ := renameWindow_sound sound one old new was
    have all' : ∀ w ∈ windows, ∃ q ∈ kept, q.id = w.1 ∧ q.project = r.project := by
      intro w here
      obtain ⟨q, among, id, project⟩ := all w (List.mem_cons_of_mem _ here)
      obtain ⟨q', among', key⟩ := mem_same keys among
      simp only [Row.key, Prod.mk.injEq] at key
      exact ⟨q', among', key.1.trans id, key.2.1.trans project⟩
    obtain ⟨rows', form', sound'', keys'⟩ := ih sound' all'
    rw [List.foldlM_cons, form]
    exact ⟨rows', form', sound'', keys'.trans keys⟩

/-- **A member and its windows take another name**, where no other has it, and no two rows of the
    project have one handle. -/
theorem renameMember_sound (sound : Sound rows) (one : m ∈ rows) (old : Text) {new : Text}
    (free : ∀ q ∈ rows, q.project = m.project → q.handle = new → q.id = m.id) :
    ∃ rows', renameMember rows m.project m.id old new = some rows' ∧ Sound rows' ∧
      rows'.map Row.key = rows.map Row.key := by
  obtain ⟨kept, form, sound', tags⟩ : ∃ kept,
      (if old = new then some rows else keepFormer rows m.id old) = some kept ∧ Sound kept ∧
        kept.map Row.tag = rows.map Row.tag := by
    split
    · exact ⟨rows, rfl, sound, rfl⟩
    · exact keepFormer_sound sound one old
  obtain ⟨m', among, tag⟩ := mem_same tags one
  simp only [Row.tag, Row.key, Prod.mk.injEq] at tag
  obtain ⟨⟨id, project, -⟩, -⟩ := tag
  have free' : ∀ q ∈ kept, q.project = m'.project → q.handle = new → q.id = m'.id := by
    intro q other its same
    obtain ⟨q', among', tag'⟩ := mem_same tags.symm other
    simp only [Row.tag, Row.key, Prod.mk.injEq] at tag'
    rw [← tag'.1.1, id]
    exact free q' among' (tag'.1.2.1.trans (its.trans project)) (tag'.2.trans same)
  obtain ⟨named, form', sound'', keys, -⟩ := setHandle_sound sound' among free'
  have keys' : named.map Row.key = rows.map Row.key := keys.trans (keys_of_tags tags)
  rw [id] at form'
  have whole : renameMember rows m.project m.id old new =
      if old = new then some named
      else (windowsOf named m.id).foldlM (renameWindow m.project old new) named := by
    unfold renameMember
    by_cases unchanged : old = new
    · rw [if_pos unchanged] at form ⊢
      show (some rows).bind (fun rows => (setHandle rows m.id new).bind _) = _
      rw [form, Option.bind_some, form', if_pos unchanged]
      exact if_pos unchanged
    · rw [if_neg unchanged] at form ⊢
      show (keepFormer rows m.id old).bind (fun rows => (setHandle rows m.id new).bind _) = _
      rw [form, Option.bind_some, form', if_neg unchanged]
      exact if_neg unchanged
  rw [whole]
  split
  · exact ⟨named, rfl, sound'', keys'⟩
  · have all : ∀ w ∈ windowsOf named m.id, ∃ r ∈ named, r.id = w.1 ∧ r.project = m.project := by
      intro w here
      obtain ⟨r, sorted, rfl⟩ := List.mem_map.1 here
      obtain ⟨among, its⟩ := List.mem_filter.1 ((List.mem_insertionSort _).1 sorted)
      obtain ⟨q, other, key⟩ := mem_same keys' one
      simp only [Row.key, Prod.mk.injEq] at key
      have mine : r.memberId = some q.id := by rw [key.1]; exact of_decide_eq_true its
      exact ⟨r, among, rfl, (sound''.windows r among q other mine).trans key.2.1⟩
    obtain ⟨rows', all_, sound_, keys_⟩ := renameWindows_sound sound'' old new _ all
    exact ⟨rows', all_, sound_, keys_.trans keys'⟩

/-! ## 6. Every member under its model's name -/

theorem Sound.few (sound : Sound rows) (project : Nat) :
    (handlesOf rows project).length < 2 ^ 64 - 2 := by
  have inside : rows.map Row.id ⊆ List.range (2 ^ 63) := by
    intro id here
    obtain ⟨r, among, rfl⟩ := List.mem_map.1 here
    exact List.mem_range.2 (sound.small r among)
  have bound := (List.subperm_of_subset sound.ids inside).length_le
  have some_ : (handlesOf rows project).length ≤ rows.length := by
    rw [handlesOf, List.length_map]
    exact List.length_filter_le _ _
  rw [List.length_map, List.length_range] at bound
  omega

theorem modelHandle_free (model : Text) (effort : Option Text) (harness : Text)
    (taken : List Text) :
    let handle := modelHandle model effort harness fun name => decide (name ∈ taken)
    Slug handle ∧ handle.length ≤ 40 ∧ (taken.length < 2 ^ 64 - 2 → handle ∉ taken) :=
  memberHandle_free _ _ _ _ taken

/-- A handle made for the project's table is no row's. -/
theorem modelHandle_new (sound : Sound rows) (model : Text) (effort : Option Text) (harness : Text)
    (project : Nat) : ∀ q ∈ rows, q.project = project →
      q.handle = modelHandle model effort harness (handleTaken rows project) → q.id = id := by
  intro q among its same
  have free := (modelHandle_free model effort harness (handlesOf rows project)).2.2
    (sound.few project)
  exact absurd (mem_handlesOf.2 ⟨q, among, its, same⟩) free

theorem nameMember_sound (sound : Sound rows) (lists : Text → ModelsList) (done : Renamed)
    {row : Row} (one : ∃ m ∈ rows, m.id = row.id ∧ m.project = row.project) :
    ∃ rows' done', nameMember lists (rows, done) row = some (rows', done') ∧ Sound rows' ∧
      rows'.map Row.key = rows.map Row.key := by
  unfold nameMember
  dsimp only
  generalize listedModel (row.model.getD []) row.effort row.modelName
    (lists (row.harness.getD [])) = listed
  obtain ⟨listed, how⟩ := listed
  have tags : (rows.map fun r =>
      if r.id = row.id ∨ r.memberId = some row.id then { r with modelName := some listed }
      else r).map Row.tag = rows.map Row.tag := by
    rw [List.map_map]
    refine List.map_congr_left fun r _ => ?_
    show Row.tag (if _ then _ else _) = r.tag
    split
    · rfl
    · rfl
  revert tags
  generalize (rows.map fun r =>
    if r.id = row.id ∨ r.memberId = some row.id then { r with modelName := some listed }
    else r) = updated
  intro tags
  have sound' := sound.of_keys (keys_of_tags tags) (apart_of_tags tags sound.apart)
  by_cases chief : row.role = .chief
  · rw [if_pos chief]
    exact ⟨updated, _, rfl, sound', keys_of_tags tags⟩
  · rw [if_neg chief]
    obtain ⟨m, among, id, project⟩ := one
    obtain ⟨m', among', tag⟩ := mem_same tags among
    simp only [Row.tag, Row.key, Prod.mk.injEq] at tag
    obtain ⟨⟨id', project', -⟩, -⟩ := tag
    obtain ⟨rows', form, sound'', keys⟩ := renameMember_sound sound' among' row.handle
      (modelHandle_new sound' listed row.effort (row.harness.getD []) m'.project)
    rw [id', id, project', project] at form
    rw [form]
    exact ⟨rows', _, rfl, sound'', keys.trans (keys_of_tags tags)⟩

theorem nameMembers_sound (sound : Sound rows) (lists : Text → ModelsList) (done : Renamed)
    (named : List Row) (all : ∀ row ∈ named, ∃ m ∈ rows, m.id = row.id ∧ m.project = row.project) :
    ∃ rows' done', named.foldlM (nameMember lists) (rows, done) = some (rows', done') ∧
      Sound rows' ∧ rows'.map Row.key = rows.map Row.key := by
  induction named generalizing rows done with
  | nil => exact ⟨rows, done, rfl, sound, rfl⟩
  | cons row named ih =>
    obtain ⟨next, done', form, sound', keys⟩ :=
      nameMember_sound sound lists done (all row List.mem_cons_self)
    have all' : ∀ row ∈ named, ∃ m ∈ next, m.id = row.id ∧ m.project = row.project := by
      intro row here
      obtain ⟨m, among, id, project⟩ := all row (List.mem_cons_of_mem _ here)
      obtain ⟨m', among', key⟩ := mem_same keys among
      simp only [Row.key, Prod.mk.injEq] at key
      exact ⟨m', among', key.1.trans id, key.2.1.trans project⟩
    obtain ⟨rows', done'', form', sound'', keys'⟩ := ih sound' done' all'
    rw [List.foldlM_cons, form]
    exact ⟨rows', done'', form', sound'', keys'.trans keys⟩

/-- A handle that begins as a placeholder does is its row's own. -/
def Marked (rows : List Row) : Prop :=
  ∀ r ∈ rows, r.handle.head? = some (Char.ofNat 1) → r.handle = placeholder r.id

theorem placeholder_inj {a b : Nat} (same : placeholder a = placeholder b) : a = b := by
  have same' : Nat.toDigits 10 a = Nat.toDigits 10 b := List.tail_eq_of_cons_eq same
  rw [← Nat.ofDigitChars_ten_toDigits (n := a), same', Nat.ofDigitChars_ten_toDigits]

theorem placeholders_sound (sound : Sound rows) (marked : Marked rows) (named : List Row)
    (all : ∀ row ∈ named, ∃ m ∈ rows, m.id = row.id) :
    ∃ rows', named.foldlM (fun rows r => setHandle rows r.id (placeholder r.id)) rows =
        some rows' ∧ Sound rows' ∧ rows'.map Row.key = rows.map Row.key := by
  induction named generalizing rows with
  | nil => exact ⟨rows, rfl, sound, rfl⟩
  | cons row named ih =>
    obtain ⟨m, one, id⟩ := all row List.mem_cons_self
    have free : ∀ q ∈ rows, q.project = m.project → q.handle = placeholder m.id →
        q.id = m.id := by
      intro q among _ same
      have own := marked q among (by rw [same]; rfl)
      exact placeholder_inj (own.symm.trans same)
    obtain ⟨next, form, sound', keys, next_⟩ := setHandle_sound sound one free
    have marked' : Marked next := by
      intro r among begins
      rw [next_, update, List.mem_map] at among
      obtain ⟨q, other, rfl⟩ := among
      by_cases mine : q.id = m.id
      · rw [if_pos mine]
        exact congrArg placeholder mine.symm
      · rw [if_neg mine] at begins ⊢
        exact marked q other begins
    have all' : ∀ row ∈ named, ∃ m ∈ next, m.id = row.id := by
      intro row here
      obtain ⟨m, among, id⟩ := all row (List.mem_cons_of_mem _ here)
      obtain ⟨m', among', key⟩ := mem_same keys among
      exact ⟨m', among', (congrArg Prod.fst key).trans id⟩
    obtain ⟨rows', form', sound'', keys'⟩ := ih sound' marked' all'
    rw [List.foldlM_cons, ← id, form]
    exact ⟨rows', form', sound'', keys'.trans keys⟩

/-- **Every member takes its model's name**, and the handles stay apart. -/
theorem nameMembersById_sound (sound : Sound rows) (lists : Text → ModelsList)
    (plain : ∀ r ∈ rows, r.handle.head? ≠ some (Char.ofNat 1)) :
    ∃ rows' done, nameMembersById lists rows = some (rows', done) ∧ Sound rows' ∧
      rows'.map Row.key = rows.map Row.key := by
  have inside {r : Row} (here : r ∈ namedRows rows) : r ∈ rows :=
    (List.mem_filter.1 ((List.mem_insertionSort _).1 here)).1
  obtain ⟨placed, form, sound', keys⟩ := placeholders_sound sound
    (fun r among begins => absurd begins (plain r among))
    ((namedRows rows).filter fun r => r.role ≠ .chief)
    (fun row here => ⟨row, inside (List.mem_filter.1 here).1, rfl⟩)
  have all : ∀ row ∈ namedRows rows, ∃ m ∈ placed, m.id = row.id ∧ m.project = row.project := by
    intro row here
    obtain ⟨m, among, key⟩ := mem_same keys (inside here)
    simp only [Row.key, Prod.mk.injEq] at key
    exact ⟨m, among, key.1, key.2.1⟩
  obtain ⟨rows', done, form', sound'', keys'⟩ :=
    nameMembers_sound sound' lists {} (namedRows rows) all
  unfold nameMembersById
  dsimp only
  rw [form]
  exact ⟨rows', done, form', sound'', keys'.trans keys⟩

/-! ## 7. Members edited -/

theorem editName_sound (sound : Sound rows) {edit : MemberEdit}
    (one : ∃ m ∈ rows, m.id = edit.member) :
    ∃ rows', editName rows edit = some rows' ∧ Sound rows' ∧
      rows'.map Row.key = rows.map Row.key := by
  obtain ⟨m, among, id⟩ := one
  have there : (rows.find? fun r => decide (r.id = edit.member)).isSome = true :=
    List.find?_isSome.2 ⟨m, among, decide_eq_true id⟩
  obtain ⟨member, found⟩ := Option.isSome_iff_exists.1 there
  have there := List.mem_of_find?_eq_some found
  unfold editName
  rw [found]
  dsimp only [bind, Option.bind]
  have tags : (rows.map fun r =>
      if r.id = member.id ∨ r.memberId = some member.id then
        { r with
          harness := some edit.harness, model := edit.model, effort := edit.effort
          modelName := edit.modelName, needsEdit := false }
      else r).map Row.tag = rows.map Row.tag := by
    rw [List.map_map]
    refine List.map_congr_left fun r _ => ?_
    show Row.tag (if _ then _ else _) = r.tag
    split
    · rfl
    · rfl
  revert tags
  generalize (rows.map fun r =>
      if r.id = member.id ∨ r.memberId = some member.id then
        { r with
          harness := some edit.harness, model := edit.model, effort := edit.effort
          modelName := edit.modelName, needsEdit := false }
      else r) = updated
  intro tags
  have sound' := sound.of_keys (keys_of_tags tags) (apart_of_tags tags sound.apart)
  cases edit.model with
  | none => exact ⟨updated, rfl, sound', keys_of_tags tags⟩
  | some model =>
    dsimp only
    split
    · exact ⟨updated, rfl, sound', keys_of_tags tags⟩
    · rename_i changed
      obtain ⟨member', there', tag⟩ := mem_same tags there
      simp only [Row.tag, Row.key, Prod.mk.injEq] at tag
      obtain ⟨⟨id', project', -⟩, -⟩ := tag
      have others : (fun candidate => decide (candidate ≠ member.handle) &&
          handleTaken updated member.project candidate) = fun name =>
            decide (name ∈ (handlesOf updated member.project).filter (· ≠ member.handle)) := by
        funext candidate
        simp [handleTaken, and_comm]
      rw [others] at changed ⊢
      have free := (modelHandle_free
        (modelShown edit.modelName (some model) (some edit.harness)) edit.effort edit.harness
        ((handlesOf updated member.project).filter (· ≠ member.handle))).2.2
        (Nat.lt_of_le_of_lt (List.length_filter_le _ _) (sound'.few member.project))
      revert changed free
      generalize (modelHandle (modelShown edit.modelName (some model) (some edit.harness))
        edit.effort edit.harness fun name => decide
          (name ∈ (handlesOf updated member.project).filter (· ≠ member.handle))) = new
      intro changed free
      have others : ∀ q ∈ updated, q.project = member'.project → q.handle = new →
          q.id = member'.id := by
        intro q other its same
        have taken := mem_handlesOf.2 ⟨q, other, its.trans project', same⟩
        exact absurd (List.mem_filter.2 ⟨taken, decide_eq_true changed⟩) free
      obtain ⟨rows', form, sound'', keys⟩ :=
        renameMember_sound sound' there' member.handle others
      rw [id', project'] at form
      exact ⟨rows', form, sound'', keys.trans (keys_of_tags tags)⟩

theorem editNames_sound (sound : Sound rows) (edits : List MemberEdit)
    (all : ∀ edit ∈ edits, ∃ m ∈ rows, m.id = edit.member) :
    ∃ rows', editNames rows edits = some rows' ∧ Sound rows' ∧
      rows'.map Row.key = rows.map Row.key := by
  induction edits generalizing rows with
  | nil => exact ⟨rows, rfl, sound, rfl⟩
  | cons edit edits ih =>
    obtain ⟨next, form, sound', keys⟩ := editName_sound sound (all edit List.mem_cons_self)
    have all' : ∀ edit ∈ edits, ∃ m ∈ next, m.id = edit.member := by
      intro edit here
      obtain ⟨m, among, id⟩ := all edit (List.mem_cons_of_mem _ here)
      obtain ⟨m', among', key⟩ := mem_same keys among
      exact ⟨m', among', (congrArg Prod.fst key).trans id⟩
    obtain ⟨rows', form', sound'', keys'⟩ := ih sound' all'
    refine ⟨rows', ?_, sound'', keys'.trans keys⟩
    rw [editNames, List.foldlM_cons, form]
    exact form'

/-! ## 8. What goes through is apart -/

theorem foldlM_apart {α β : Type} {f : β → α → Option β} (rowsOf : β → List Row)
    (step : ∀ s a s', Apart (rowsOf s) → f s a = some s' → Apart (rowsOf s')) (as : List α)
    {s s' : β} (apart : Apart (rowsOf s)) (form : as.foldlM f s = some s') :
    Apart (rowsOf s') := by
  induction as generalizing s with
  | nil => exact Option.some.inj form ▸ apart
  | cons a as ih =>
    rw [List.foldlM_cons] at form
    obtain ⟨next, one, rest⟩ := Option.bind_eq_some_iff.1 form
    exact ih (step s a next apart one) rest

theorem setHandle_apart (form : setHandle rows id handle = some rows') : Apart rows' := by
  unfold setHandle at form
  dsimp only at form
  split at form
  · rename_i apart
    exact Option.some.inj form ▸ apart
  · cases form

theorem renameWindow_apart {old new : Text} (window : Nat × Text)
    (form : renameWindow project old new rows window = some rows') : Apart rows' := by
  obtain ⟨name, -, form⟩ := Option.bind_eq_some_iff.1 form
  obtain ⟨kept, -, form⟩ := Option.bind_eq_some_iff.1 form
  exact setHandle_apart form

theorem renameMember_apart {member : Nat} {old new : Text}
    (form : renameMember rows project member old new = some rows') : Apart rows' := by
  have named {kept : List Row} (form : ((setHandle kept member new).bind fun rows =>
      if old = new then some rows
      else (windowsOf rows member).foldlM (renameWindow project old new) rows) = some rows') :
      Apart rows' := by
    obtain ⟨named, one, form⟩ := Option.bind_eq_some_iff.1 form
    split at form
    · exact Option.some.inj form ▸ setHandle_apart one
    · exact foldlM_apart (fun rows => rows) (fun _ window _ _ => renameWindow_apart window) _
        (setHandle_apart one) form
  unfold renameMember at form
  by_cases unchanged : old = new
  · rw [if_pos unchanged] at form
    exact named form
  · rw [if_neg unchanged] at form
    obtain ⟨kept, -, form⟩ := Option.bind_eq_some_iff.1 form
    exact named form

/-- Two rows of a project with one handle are one. -/
theorem Apart.eq (apart : Apart rows) {q : Row} (one : r ∈ rows) (other : q ∈ rows)
    (project : r.project = q.project) (same : r.handle = q.handle) : r = q := by
  by_contra ne
  have symmetric : Std.Symm fun r q : Row => ¬(r.project = q.project ∧ r.handle = q.handle) :=
    ⟨fun _ _ h k => h ⟨k.1.symm, k.2.symm⟩⟩
  exact List.Pairwise.forall apart one other ne ⟨project, same⟩

/-- A handle another row of the project has is refused. -/
theorem setHandle_taken {q : Row} (one : m ∈ rows) (other : q ∈ rows)
    (project : q.project = m.project) (taken : q.handle = handle) (ne : q.id ≠ m.id) :
    setHandle rows m.id handle = none := by
  rw [setHandle]
  refine if_neg fun apart => ne ?_
  have mine : { m with handle } ∈ update rows m.id fun r => { r with handle } :=
    List.mem_map.2 ⟨m, one, if_pos rfl⟩
  have its : q ∈ update rows m.id fun r => { r with handle } :=
    List.mem_map.2 ⟨q, other, if_neg ne⟩
  have whole : q = { m with handle } := apart.eq its mine project taken
  rw [whole]

theorem renameMember_taken (sound : Sound rows) {q : Row} (one : m ∈ rows) (other : q ∈ rows)
    (project : q.project = m.project) (taken : q.handle = handle) (ne : q.id ≠ m.id) (old : Text) :
    renameMember rows m.project m.id old handle = none := by
  unfold renameMember
  split
  · show (setHandle rows m.id handle).bind _ = none
    rw [setHandle_taken one other project taken ne]
    rfl
  · -- the name kept among those left changes no handle
    obtain ⟨kept, form, -, tags⟩ := keepFormer_sound sound one old
    obtain ⟨m', among, tag⟩ := mem_same tags one
    obtain ⟨q', among', tag'⟩ := mem_same tags other
    simp only [Row.tag, Row.key, Prod.mk.injEq] at tag tag'
    have refused := setHandle_taken among among' (tag'.1.2.1.trans (project.trans tag.1.2.1.symm))
      (tag'.2.trans taken) (by rw [tag.1.1, tag'.1.1]; exact ne)
    rw [tag.1.1] at refused
    rw [form]
    show (setHandle kept m.id handle).bind _ = none
    rw [refused]
    rfl

theorem nameMember_apart {lists : Text → ModelsList} {state state' : List Row × Renamed}
    {row : Row} (apart : Apart state.1) (form : nameMember lists state row = some state') :
    Apart state'.1 := by
  unfold nameMember at form
  dsimp only at form
  split at form
  · rw [← Option.some.inj form]
    refine apart_of_tags ?_ apart
    rw [List.map_map]
    refine List.map_congr_left fun r _ => ?_
    show Row.tag (if _ then _ else _) = r.tag
    split
    · rfl
    · rfl
  · obtain ⟨rows', one, form⟩ := Option.bind_eq_some_iff.1 form
    rw [← Option.some.inj form]
    exact renameMember_apart one

theorem nameMembersById_apart {lists : Text → ModelsList} {done : Renamed} (apart : Apart rows)
    (form : nameMembersById lists rows = some (rows', done)) : Apart rows' := by
  obtain ⟨placed, one, form⟩ := Option.bind_eq_some_iff.1 form
  exact foldlM_apart Prod.fst (fun _ _ _ => nameMember_apart) _
    (foldlM_apart (fun rows => rows) (fun _ _ _ _ => setHandle_apart) _ apart one) form

end Rows

/-- The participants, as the ledger keeps them. -/
structure Staff where
  rows : List Row
  sound : Sound rows

/-- **A member's handle is always free, short and well formed**: of any words it is a slug of 40
    characters at most, and none of those taken, which are fewer than a `usize` has numbers;
    distinct numbers make distinct handles. A member renamed under a name no other row of its
    project has, members edited one after another, and every member named by its model: each goes
    through, and leaves the staff as the ledger keeps one, its handles apart. A name another row
    has is refused, and whatever goes through leaves the handles apart. -/
theorem handles_free_and_unique :
    (∀ shown provider effort harness (taken : List Text),
      let handle := memberHandle shown provider effort harness fun name => decide (name ∈ taken)
      Slug handle ∧ handle.length ≤ 40 ∧ (taken.length < 2 ^ 64 - 2 → handle ∉ taken)) ∧
    (∀ a b n m, numbered a n = numbered b m → n = m) ∧
    (∀ (staff : Staff), ∀ m ∈ staff.rows, ∀ old new : Text,
      (∀ q ∈ staff.rows, q.project = m.project → q.handle = new → q.id = m.id) →
      ∃ after : Staff, renameMember staff.rows m.project m.id old new = some after.rows ∧
        after.rows.map Row.key = staff.rows.map Row.key) ∧
    (∀ (staff : Staff), ∀ m ∈ staff.rows, ∀ q ∈ staff.rows, ∀ old : Text,
      q.project = m.project → q.id ≠ m.id →
      renameMember staff.rows m.project m.id old q.handle = none) ∧
    (∀ (staff : Staff) (edits : List MemberEdit),
      (∀ edit ∈ edits, ∃ m ∈ staff.rows, m.id = edit.member) →
      ∃ after : Staff, editNames staff.rows edits = some after.rows ∧
        after.rows.map Row.key = staff.rows.map Row.key) ∧
    (∀ (staff : Staff) (lists : Text → ModelsList),
      (∀ r ∈ staff.rows, r.handle.head? ≠ some (Char.ofNat 1)) →
      ∃ (after : Staff) (done : Renamed),
        nameMembersById lists staff.rows = some (after.rows, done) ∧
        after.rows.map Row.key = staff.rows.map Row.key) ∧
    (∀ rows project member old new rows', renameMember rows project member old new = some rows' →
      Apart rows') ∧
    (∀ lists rows rows' done, Apart rows → nameMembersById lists rows = some (rows', done) →
      Apart rows') := by
  refine ⟨memberHandle_free, fun _ _ _ _ => numbered_inj, ?_, ?_, ?_, ?_, fun _ _ _ _ _ _ =>
    renameMember_apart, fun _ _ _ _ => nameMembersById_apart⟩
  · intro staff m one old new free
    obtain ⟨rows', form, sound, keys⟩ := renameMember_sound staff.sound one old free
    exact ⟨⟨rows', sound⟩, form, keys⟩
  · exact fun staff m one q other old project ne =>
      renameMember_taken staff.sound one other project rfl ne old
  · intro staff edits all
    obtain ⟨rows', form, sound, keys⟩ := editNames_sound staff.sound edits all
    exact ⟨⟨rows', sound⟩, form, keys⟩
  · intro staff lists plain
    obtain ⟨rows', done, form, sound, keys⟩ := nameMembersById_sound staff.sound lists plain
    exact ⟨⟨rows', sound⟩, done, form, keys⟩

/-- A member and its two windows, and another member. -/
def opusRows : List Row :=
  [{ id := 3, project := 1, handle := ['o', 'p', 'u', 's'], role := .worker,
     harness := some ['c', 'l', 'a', 'u', 'd', 'e'], model := some ['o', 'p', 'u', 's'] },
   { id := 4, project := 1, handle := ['o', 'p', 'u', 's', '-', 'o', 'n', 'e'], role := .worker,
     memberId := some 3 },
   { id := 5, project := 1, handle := ['o', 'p', 'u', 's', '-', 't', 'w', 'o'], role := .worker,
     memberId := some 3 },
   { id := 6, project := 1, handle := ['g', 'p', 't'], role := .worker }]

def opusStaff : Staff := ⟨opusRows, by decide, by decide, by decide, by decide⟩

/-- The member is renamed, edited and named by its model, its windows with it; the name of the other
    is refused. -/
theorem handles_free_and_unique_opus :
    (∃ after : Staff, renameMember opusRows 1 3 ['o', 'p', 'u', 's'] ['h', 'i'] = some after.rows) ∧
    (renameMember opusRows 1 3 ['o', 'p', 'u', 's'] ['h', 'i']).map (·.map Row.handle) =
      some [['h', 'i'], ['h', 'i', '-', 'o', 'n', 'e'], ['h', 'i', '-', 't', 'w', 'o'],
        ['g', 'p', 't']] ∧
    renameMember opusRows 1 3 ['o', 'p', 'u', 's'] ['g', 'p', 't'] = none ∧
    (∃ after : Staff, editNames opusRows [⟨3, ['p', 'i'], some ['h', 'i'], none, none⟩] =
      some after.rows) ∧
    ∃ (after : Staff) (done : Renamed), nameMembersById (fun _ => []) opusRows =
      some (after.rows, done) := by
  obtain ⟨-, -, renamed, taken, edited, named, -⟩ := handles_free_and_unique
  obtain ⟨after, one, -⟩ := renamed opusStaff _ List.mem_cons_self ['o', 'p', 'u', 's'] ['h', 'i']
    (by decide)
  obtain ⟨after', two, -⟩ := edited opusStaff [⟨3, ['p', 'i'], some ['h', 'i'], none, none⟩]
    (by decide)
  obtain ⟨after'', done, three, -⟩ := named opusStaff (fun _ => []) (by decide)
  refine ⟨⟨after, one⟩, by decide, ?_, ⟨after', two⟩, after'', done, three⟩
  exact taken opusStaff _ List.mem_cons_self (opusRows.get ⟨3, by decide⟩) (by decide) _ rfl
    (by decide)

end Handles
end ConsensFlow
