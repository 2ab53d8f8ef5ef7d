/-
  File:      ConsensFlow/Shown/Mask.lean
  Subject:   HIDING WHAT LOOKS LIKE A KEY OR A TOKEN (`mask`) in text a window showed: the spans of
             every rule are found in the text as it was, joined, and replaced once.

  * `rules` -- the masker's patterns, which group of each is the secret, and whether what it matched
    is one; the regex crate is `Regex`: where each match and its first group are in the text;
  * `sought`, `mask` -- the source's loops; a slice that would panic is none;
  * `Hidden` -- what the rules say is hidden;
  * `mem_sought` -- the spans found are those; **`mask_hides`** -- each run of them is one mark, and
    every other character is kept.

  Places are counted in characters: the crate's are bytes, on the borders of characters, in the same
  order.
-/
import ConsensFlow.Lib.Spans

namespace ConsensFlow
namespace Shown

open Lib.Spans

/-! ## 1. Matches -/

/-- A part of a text. -/
structure Part (text : List Char) where
  start : Nat
  stop : Nat
  ordered : start ≤ stop
  inside : stop ≤ text.length

namespace Part

variable {text : List Char}

def words (part : Part text) : List Char := (text.take part.stop).drop part.start

def span (part : Part text) : Span := (part.start, part.stop)

def overlaps (part other : Part text) : Bool :=
  part.start < other.stop && other.start < part.stop

end Part

/-- A match of a pattern: all of it, and its first group, where it has one that took part. -/
structure Match (text : List Char) where
  whole : Part text
  first : Option (Part text)

/-- `found.get(group)`. -/
def Match.get {text : List Char} (found : Match text) : Nat → Option (Part text)
  | 0 => some found.whole
  | _ => found.first

/-- A pattern: its matches in a text, in order. -/
abbrev Regex := (text : List Char) → List (Match text)

/-! ## 2. The rules -/

/-- What a hidden secret is replaced with. -/
def maskWords : List Char := "[masked]".toList

/-- A pattern, which group of it is the secret, and whether what that group matched is one. -/
structure Rule where
  pattern : Regex
  secret : Nat
  isSecret : List Char → Bool
  yieldsToUrl : Bool := false

def always (_ : List Char) : Bool := true

def hasALetterAndADigit (found : List Char) : Bool :=
  found.any Char.isAlpha && found.any Char.isDigit

def eqIgnoreAsciiCase (found : List Char) (word : String) : Bool :=
  found.map Char.toLower == word.toList

/-- Not the scheme that comes before the token, nor what is hidden already. -/
def aValue (found : List Char) : Bool :=
  !maskWords.isPrefixOf found && !eqIgnoreAsciiCase found "bearer" &&
    !eqIgnoreAsciiCase found "basic"

def base64Credentials (found : List Char) : Bool :=
  hasALetterAndADigit found || found.getLast? == some '=' || (found.drop 1).any Char.isUpper

def aLongOrNumberedValue (found : List Char) : Bool :=
  aValue found &&
    (decide (found.length ≥ 16) || (decide (found.length ≥ 8) && found.any Char.isDigit))

/-- A run of forty letters and digits or more that is no number. -/
def isBase64Letters (found : List Char) : Bool :=
  (found.rdropWhile (· == '=')).any Char.isAlpha

/-- A base64 run that says what it is by its characters. -/
def isBase64Marked (found : List Char) : Bool :=
  found.contains '+' || found.getLast? == some '='

/-- The user and password of a URL. -/
def urlUserPassword : String := "(?i)\\b[a-z][a-z0-9+.-]*://([^\\s/@:]+:[^\\s/@]+)@"

/-- `RULES`, where `regex` is the crate's. -/
def rules (regex : String → Regex) : List Rule :=
  [⟨regex urlUserPassword, 1, always, false⟩,
    ⟨regex "[A-Za-z0-9._%+-]+@[A-Za-z0-9-]+(?:\\.[A-Za-z0-9-]+)*\\.[A-Za-z]\x7b2,\x7d\\b", 0, always,
      true⟩,
    ⟨regex "(?:^|\\s)(?:-[uU]|--user|--proxy-user)(?:\\s+|=)?([^\\s:]+:\\S+)", 1, always, false⟩,
    ⟨regex "(?i)\\bbearer\\s+([A-Za-z0-9._~+/=-]\x7b8,\x7d)", 1, always, false⟩,
    ⟨regex "(?i)\\bbasic\\s+([A-Za-z0-9._~+/=-]\x7b8,\x7d)", 1, base64Credentials, false⟩,
    ⟨regex ("(?i)\\b[A-Za-z0-9_.-]*(?:passw(?:or)?d|pwd|secret|credential)[A-Za-z0-9_.-]*[\"']?" ++
      "\\s*[:=]\\s*[\"']?([^\\s\"',;]\x7b6,\x7d)"), 1, aValue, false⟩,
    ⟨regex ("(?i)\\b[A-Za-z0-9_.-]*(?:key|token)[A-Za-z0-9_.-]*[\"']?" ++
      "\\s*[:=]\\s*[\"']?([^\\s\"',;]\x7b8,\x7d)"), 1, aLongOrNumberedValue, false⟩,
    ⟨regex ("\\b(?:(?:sk|pk|rk)[-_][A-Za-z0-9_-]\x7b12,\x7d|gh[pousr]_[A-Za-z0-9]\x7b20,\x7d" ++
      "|github_pat_[A-Za-z0-9_]\x7b20,\x7d|glpat-[A-Za-z0-9_-]\x7b16,\x7d" ++
      "|xox[abprs]-[A-Za-z0-9-]\x7b10,\x7d|(?:AKIA|ASIA)[A-Z0-9]\x7b16\x7d" ++
      "|AIza[A-Za-z0-9_-]\x7b30,\x7d|npm_[A-Za-z0-9]\x7b30,\x7d|hf_[A-Za-z0-9]\x7b30,\x7d" ++
      "|ya29\\.[A-Za-z0-9._-]\x7b20,\x7d" ++
      "|SG\\.[A-Za-z0-9_-]\x7b16,\x7d\\.[A-Za-z0-9_-]\x7b16,\x7d" ++
      "|eyJ[A-Za-z0-9_-]\x7b8,\x7d\\.[A-Za-z0-9_-]\x7b8,\x7d\\.[A-Za-z0-9_-]*)"), 0, always, false⟩,
    ⟨regex "[A-Za-z0-9_-]\x7b24,\x7d", 0, hasALetterAndADigit, false⟩,
    ⟨regex "[A-Za-z0-9+/=]\x7b40,\x7d", 0, hasALetterAndADigit, false⟩,
    ⟨regex "[A-Za-z0-9]\x7b40,\x7d=\x7b0,2\x7d", 0, isBase64Letters, false⟩,
    ⟨regex "[A-Za-z0-9+/]\x7b39,\x7d=\x7b0,2\x7d", 0, isBase64Marked, false⟩]

/-! ## 3. The masker -/

/-- The spans found, and those of URLs' users and passwords. -/
structure Sought (text : List Char) where
  spans : List (Part text) := []
  users : List (Part text) := []

section Seek

variable {text : List Char}

/-- One match of the rule at `at_`. -/
def seekMatch (at_ : Nat) (rule : Rule) (s : Sought text) (found : Match text) : Sought text :=
  match found.get rule.secret with
  | none => s
  | some secret =>
    if !rule.isSecret secret.words then s
    else
      -- the first rule is the URL's user and password
      let users := if at_ == 0 then s.users ++ [secret] else s.users
      if rule.yieldsToUrl && users.any found.whole.overlaps then { s with users }
      else { spans := s.spans ++ [secret], users }

/-- Each match of a rule. -/
def seekRule (text : List Char) (s : Sought text) (rule : Rule × Nat) : Sought text :=
  (rule.1.pattern text).foldl (seekMatch rule.2 rule.1) s

/-- Each match of each rule. -/
def sought (rules : List Rule) (text : List Char) : Sought text :=
  rules.zipIdx.foldl (seekRule text) {}

end Seek

/-- Spans as pairs are sorted. -/
def spanLe (span other : Span) : Bool :=
  span.1 < other.1 || (span.1 == other.1 && span.2 ≤ other.2)

/-- `text[from..to]`, which panics where they are not places in order. -/
def slice (text : List Char) (start stop : Nat) : Option (List Char) :=
  if start ≤ stop ∧ stop ≤ text.length then some ((text.take stop).drop start) else none

/-- The text with each run replaced, from `at_` on. -/
def hideFrom (text : List Char) : Nat → List Span → Option (List Char)
  | at_, [] => slice text at_ text.length
  | at_, run :: runs => do
    let before ← slice text at_ run.1
    let after ← hideFrom text run.2 runs
    some (before ++ maskWords ++ after)

/-- A text, and how many secrets were hidden in it. -/
structure Masked where
  text : List Char
  count : Nat
  deriving DecidableEq

/-- `mask`. -/
def mask (rules : List Rule) (text : List Char) : Option Masked := do
  let spans := ((sought rules text).spans.map Part.span).mergeSort spanLe
  let joined := join spans
  let hidden ← hideFrom text 0 joined
  some { text := hidden, count := joined.length }

/-! ## 4. What is hidden -/

section Hidden

variable {text : List Char}

/-- A match of the rule has a secret, which its test does not refuse. -/
structure Rule.Finds (rule : Rule) (found : Match text) (secret : Part text) : Prop where
  matched : found ∈ rule.pattern text
  group : found.get rule.secret = some secret
  taken : rule.isSecret secret.words = true

/-- A user and password of a URL: what the first rule finds. -/
def UrlUser (rules : List Rule) (user : Part text) : Prop :=
  ∃ rule found, rules.head? = some rule ∧ rule.Finds found user

/-- What the rules hide: what they find, but for a match that yields to a URL's user and password it
    overlaps. -/
def Hidden (rules : List Rule) (secret : Part text) : Prop :=
  ∃ rule ∈ rules, ∃ found, rule.Finds found secret ∧
    (rule.yieldsToUrl = true → ∀ user, UrlUser rules user → found.whole.overlaps user = false)

/-- The first rule's matches are spans, and users. -/
theorem first_found {rule : Rule} (own : rule.yieldsToUrl = false) (matches_ : List (Match text))
    (s : Sought text) (secret : Part text) :
    (secret ∈ (matches_.foldl (seekMatch 0 rule) s).users ↔ secret ∈ s.users ∨
      ∃ found ∈ matches_, found.get rule.secret = some secret ∧
        rule.isSecret secret.words = true) ∧
    (secret ∈ (matches_.foldl (seekMatch 0 rule) s).spans ↔ secret ∈ s.spans ∨
      ∃ found ∈ matches_, found.get rule.secret = some secret ∧
        rule.isSecret secret.words = true) := by
  induction matches_ generalizing s with
  | nil => simp
  | cons found matches_ ih =>
    have here : ∀ spans : List (Part text),
        (secret ∈ spans ∨ ∃ f ∈ found :: matches_, f.get rule.secret = some secret ∧
          rule.isSecret secret.words = true) ↔
        (secret ∈ spans ∨ found.get rule.secret = some secret ∧
          rule.isSecret secret.words = true) ∨
        ∃ f ∈ matches_, f.get rule.secret = some secret ∧ rule.isSecret secret.words = true := by
      intro spans
      simp only [List.mem_cons, exists_eq_or_imp, or_assoc]
    rw [List.foldl_cons, (ih _).1, (ih _).2, here, here]
    unfold seekMatch
    cases hg : found.get rule.secret with
    | none => simp
    | some part =>
      simp only [own, Bool.false_and, Bool.false_eq_true, if_false, beq_self_eq_true, if_true,
        Option.some.injEq]
      by_cases ht : rule.isSecret part.words = true
      · rw [ht]
        simp only [Bool.not_true, Bool.false_eq_true, if_false, List.mem_append,
          List.mem_singleton]
        have same : secret = part ↔ part = secret ∧ rule.isSecret secret.words = true :=
          ⟨fun e => ⟨e.symm, e ▸ ht⟩, fun e => e.1.symm⟩
        rw [same]
        exact ⟨Iff.rfl, Iff.rfl⟩
      · have other : ¬ (part = secret ∧ rule.isSecret secret.words = true) := fun e => ht (e.1 ▸ e.2)
        rw [Bool.not_eq_true] at ht
        simp only [ht, Bool.not_false, if_true, or_iff_left other, and_self]

/-- A later rule's matches are spans where they yield to no user. -/
theorem later_found {rule : Rule} {at_ : Nat} (later : at_ ≠ 0) (matches_ : List (Match text))
    (s : Sought text) (secret : Part text) :
    (matches_.foldl (seekMatch at_ rule) s).users = s.users ∧
    (secret ∈ (matches_.foldl (seekMatch at_ rule) s).spans ↔ secret ∈ s.spans ∨
      ∃ found ∈ matches_, found.get rule.secret = some secret ∧
        rule.isSecret secret.words = true ∧
        (rule.yieldsToUrl && s.users.any found.whole.overlaps) = false) := by
  induction matches_ generalizing s with
  | nil => simp
  | cons found matches_ ih =>
    have users : (seekMatch at_ rule s found).users = s.users := by
      unfold seekMatch
      cases found.get rule.secret with
      | none => rfl
      | some part =>
        simp only [beq_eq_false_iff_ne.2 later, Bool.false_eq_true, if_false]
        split
        · rfl
        · split <;> rfl
    obtain ⟨same, iff_⟩ := ih (seekMatch at_ rule s found)
    rw [List.foldl_cons, same, iff_, users]
    refine ⟨rfl, ?_⟩
    simp only [List.mem_cons, exists_eq_or_imp, ← or_assoc]
    refine or_congr_left ?_
    unfold seekMatch
    cases hg : found.get rule.secret with
    | none => simp
    | some part =>
      simp only [beq_eq_false_iff_ne.2 later, Bool.false_eq_true, if_false, Option.some.injEq]
      by_cases ht : rule.isSecret part.words = true
      · simp only [ht, Bool.not_true, Bool.false_eq_true, if_false]
        cases rule.yieldsToUrl && s.users.any found.whole.overlaps with
        | true => simp
        | false =>
          have same : secret = part ↔ part = secret ∧ rule.isSecret secret.words = true :=
            ⟨fun e => ⟨e.symm, e ▸ ht⟩, fun e => e.1.symm⟩
          simp [same]
      · have other : ¬ (part = secret ∧ rule.isSecret secret.words = true ∧
            (rule.yieldsToUrl && s.users.any found.whole.overlaps) = false) :=
          fun e => ht (e.1 ▸ e.2.1)
        rw [Bool.not_eq_true] at ht
        simp only [ht, Bool.not_false, if_true, or_iff_left other]

theorem rest_found {rules : List (Rule × Nat)} (later : ∀ rule ∈ rules, rule.2 ≠ 0)
    (s : Sought text) (secret : Part text) :
    (rules.foldl (seekRule text) s).users = s.users ∧
    (secret ∈ (rules.foldl (seekRule text) s).spans ↔ secret ∈ s.spans ∨
      ∃ rule ∈ rules, ∃ found, rule.1.Finds found secret ∧
        (rule.1.yieldsToUrl && s.users.any found.whole.overlaps) = false) := by
  induction rules generalizing s with
  | nil => simp
  | cons rule rules ih =>
    obtain ⟨users, spans⟩ := @later_found _ rule.1 rule.2 (later rule List.mem_cons_self)
      (rule.1.pattern text) s secret
    obtain ⟨same, iff_⟩ := ih (fun x hx => later x (List.mem_cons_of_mem _ hx))
      (seekRule text s rule)
    rw [List.foldl_cons, same, iff_]
    refine ⟨users, ?_⟩
    rw [show (seekRule text s rule).users = s.users from users,
      show secret ∈ (seekRule text s rule).spans ↔ _ from spans]
    simp only [List.mem_cons, exists_eq_or_imp, or_assoc]
    refine or_congr_right (or_congr_left ?_)
    exact exists_congr fun found =>
      ⟨fun ⟨matched, group, taken, free⟩ => ⟨⟨matched, group, taken⟩, free⟩,
        fun ⟨finds, free⟩ => ⟨finds.matched, finds.group, finds.taken, free⟩⟩

/-- **The spans found are what the rules hide**, where the first of them yields to none. -/
theorem mem_sought {rule : Rule} {rules : List Rule} (own : rule.yieldsToUrl = false)
    (secret : Part text) :
    secret ∈ (sought (rule :: rules) text).spans ↔ Hidden (rule :: rules) secret := by
  have user_iff : ∀ user : Part text,
      user ∈ (seekRule text {} (rule, 0)).users ↔ UrlUser (rule :: rules) user := by
    intro user
    rw [show user ∈ (seekRule text {} (rule, 0)).users ↔ _ from
      (first_found own (rule.pattern text) {} user).1, or_iff_right List.not_mem_nil]
    exact ⟨fun ⟨found, matched, group, taken⟩ => ⟨rule, found, rfl, matched, group, taken⟩,
      fun ⟨_, found, first, finds⟩ => by
        cases first
        exact ⟨found, finds.matched, finds.group, finds.taken⟩⟩
  have free_iff : ∀ (other : Rule) (found : Match text),
      (other.yieldsToUrl && (seekRule text {} (rule, 0)).users.any found.whole.overlaps) = false ↔
        (other.yieldsToUrl = true → ∀ user, UrlUser (rule :: rules) user →
          found.whole.overlaps user = false) := by
    intro other found
    simp only [Bool.and_eq_false_imp, List.any_eq_false, user_iff, Bool.not_eq_true]
  have rest := (@rest_found _ (rules.zipIdx 1) (fun x hx => by
    have := (List.mem_zipIdx hx).1
    omega) (seekRule text {} (rule, 0)) secret).2
  rw [sought, List.zipIdx_cons, List.foldl_cons, rest,
    show secret ∈ (seekRule text {} (rule, 0)).spans ↔ _ from
      (first_found own (rule.pattern text) {} secret).2, or_iff_right List.not_mem_nil, Hidden]
  simp only [List.mem_cons, exists_eq_or_imp]
  refine or_congr ⟨?_, ?_⟩ ⟨?_, ?_⟩
  · rintro ⟨found, matched, group, taken⟩
    exact ⟨found, ⟨matched, group, taken⟩, fun yields => by simp [own] at yields⟩
  · rintro ⟨found, finds, -⟩
    exact ⟨found, finds.matched, finds.group, finds.taken⟩
  · rintro ⟨one, hone, found, finds, free⟩
    exact ⟨one.1, List.fst_mem_of_mem_zipIdx hone, found, finds, (free_iff _ _).1 free⟩
  · rintro ⟨other, hother, found, finds, free⟩
    obtain ⟨at_, hat⟩ := List.mem_iff_getElem?.1 hother
    exact ⟨(other, 1 + at_), List.mk_add_mem_zipIdx_iff_getElem?.2 hat, found, finds,
      (free_iff _ _).2 free⟩

end Hidden

/-! ## 5. The mask -/

section Hiding

variable {text : List Char}

theorem spanLe_total (span other : Span) : (spanLe span other || spanLe other span) = true := by
  simp only [spanLe, Bool.or_eq_true, Bool.and_eq_true, decide_eq_true_eq, beq_iff_eq]
  omega

theorem spanLe_trans (a b c : Span) (h : spanLe a b = true) (k : spanLe b c = true) :
    spanLe a c = true := by
  simp only [spanLe, Bool.or_eq_true, Bool.and_eq_true, decide_eq_true_eq, beq_iff_eq] at *
  omega

theorem spanLe_start {span other : Span} (h : spanLe span other = true) : span.1 ≤ other.1 := by
  simp only [spanLe, Bool.or_eq_true, Bool.and_eq_true, decide_eq_true_eq, beq_iff_eq] at h
  omega

/-- Where the runs are in the text and in order, no slice panics. -/
theorem hideFrom_runs {place : Nat} {runs : List Span}
    (apart : runs.Pairwise fun run next => run.2 < next.1) (ordered : ∀ run ∈ runs, run.1 ≤ run.2)
    (within : ∀ run ∈ runs, run.2 ≤ text.length) (later : ∀ run ∈ runs, place ≤ run.1)
    (here : place ≤ text.length) :
    hideFrom text place runs = some (replaced maskWords text place runs) := by
  induction runs generalizing place with
  | nil =>
    rw [hideFrom, slice, if_pos ⟨here, le_rfl⟩, List.take_length]
    rfl
  | cons run runs ih =>
    obtain ⟨next, apart⟩ := List.pairwise_cons.1 apart
    have begins := later run List.mem_cons_self
    have order := ordered run List.mem_cons_self
    have inside := within run List.mem_cons_self
    rw [hideFrom, slice, if_pos ⟨begins, by omega⟩,
      ih apart (fun r hr => ordered r (List.mem_cons_of_mem _ hr))
        (fun r hr => within r (List.mem_cons_of_mem _ hr)) (fun r hr => Nat.le_of_lt (next r hr))
        inside]
    rfl

/-- The spans hidden, as pairs. -/
def hiddenSpan (regex : String → Regex) (text : List Char) (span : Span) : Prop :=
  ∃ secret : Part text, Hidden (rules regex) secret ∧ secret.span = span

/-- **Masking hides every secret found and keeps every other character**: whatever the patterns
    match, the text is masked, each run of overlapping or touching secrets by one mark; the
    characters outside them are kept in order; and a URL's user and password, to which an address
    gives way, are hidden themselves. -/
theorem mask_hides (regex : String → Regex) (text : List Char) :
    ∃ runs, Runs (hiddenSpan regex text) runs ∧
      mask (rules regex) text =
        some { text := replaced maskWords text 0 runs, count := runs.length } ∧
      replaced [] text 0 runs =
        (text.zipIdx.filter fun one => outside runs one.2).map Prod.fst ∧
      (∀ place, outside runs place = false ↔
        ∃ secret : Part text, Hidden (rules regex) secret ∧
          secret.start ≤ place ∧ place < secret.stop) ∧
      ∀ user : Part text, UrlUser (rules regex) user → Hidden (rules regex) user := by
  have found : ∀ secret : Part text, secret ∈ (sought (rules regex) text).spans ↔
      Hidden (rules regex) secret := mem_sought rfl
  have sorted := List.pairwise_mergeSort spanLe_trans spanLe_total
    ((sought (rules regex) text).spans.map Part.span)
  have mem_iff : ∀ span, span ∈ ((sought (rules regex) text).spans.map Part.span).mergeSort spanLe ↔
      hiddenSpan regex text span := by
    intro span
    rw [List.mem_mergeSort, List.mem_map]
    exact exists_congr fun secret => and_congr_left fun _ => found secret
  have ordered : ∀ span, hiddenSpan regex text span → span.1 ≤ span.2 := by
    rintro span ⟨secret, -, rfl⟩
    exact secret.ordered
  have inside : ∀ span, hiddenSpan regex text span → span.2 ≤ text.length := by
    rintro span ⟨secret, -, rfl⟩
    exact secret.inside
  have runs := join_runs (sorted.imp fun le => spanLe_start le) fun span hs =>
    ordered span ((mem_iff span).1 hs)
  rw [show (· ∈ ((sought (rules regex) text).spans.map Part.span).mergeSort spanLe) =
    hiddenSpan regex text from funext fun span => propext (mem_iff span)] at runs
  have order : ∀ run ∈ join (((sought (rules regex) text).spans.map Part.span).mergeSort spanLe),
      run.1 ≤ run.2 := fun run hr => (runs.joined run hr).ordered ordered
  refine ⟨_, runs, ?_, ?_, fun place => ?_, ?_⟩
  · rw [mask]
    simp only [hideFrom_runs runs.apart order (fun run hr => (runs.joined run hr).within inside)
      (fun run _ => Nat.zero_le run.1) (Nat.zero_le _)]
    rfl
  · exact replaced_kept text runs.apart order fun run _ => Nat.zero_le run.1
  · have covers := runs.covers_iff place
    have secret_iff : (∃ span, hiddenSpan regex text span ∧ span.1 ≤ place ∧ place < span.2) ↔
        ∃ secret : Part text, Hidden (rules regex) secret ∧
          secret.start ≤ place ∧ place < secret.stop := by
      constructor
      · rintro ⟨_, ⟨secret, hidden, rfl⟩, after, before⟩
        exact ⟨secret, hidden, after, before⟩
      · rintro ⟨secret, hidden, after, before⟩
        exact ⟨_, ⟨secret, hidden, rfl⟩, after, before⟩
    rw [← secret_iff, ← covers, outside, List.all_eq_false]
    simp only [Bool.or_eq_true, decide_eq_true_eq, not_or, Nat.not_lt, Nat.not_le]
  · rintro user ⟨rule, match_, first, finds⟩
    refine ⟨rule, List.mem_of_mem_head? first, match_, finds, fun yields => ?_⟩
    cases first
    cases yields

end Hiding

end Shown
end ConsensFlow
