/-
  File:      ConsensFlow/Words/Arrivals.lean
  Subject:   A PASTE PROVES ITS OWN MESSAGE AND NO OTHER (`delivery_text.rs`, `transcripts.rs`).

  * `textOf_marker` -- a paste begins with its message's marker;
  * `Shape`, `Recorded` -- the records a harness makes of a paste: bare, wrapped, behind
    placeholders, behind blank space, its lines ended either way;
  * `Clear` -- a text in which no header begins, whatever follows it;
  * `windowText_recorded` -- a record as its reader sees it;
  * **`paste_proves_its_message`** -- what every reader says of a record: the paste's message.
-/
import ConsensFlow.Lib.Apart
import ConsensFlow.Words.DeliveryText

namespace ConsensFlow.Deliveries

open Lib Lib.Text

/-! ## 1. A paste and its records -/

theorem toList_markerOf (id : Int) :
    markerOf id = headerStart ++ ((toString id).toList ++ [' ']) := by
  unfold markerOf headerStart
  have form : s!"[ConsensFlow m-{id} " = "[ConsensFlow m-" ++ (toString id ++ " ") := by
    rw [← String.toList_inj]
    simp only [String.toList_append, toString, List.append_assoc]
  rw [form, String.toList_append, String.toList_append]
  rfl

/-- A paste begins with its message's marker. -/
theorem textOf_marker (alphanumeric : Char → Bool) (m : MessageView) (carried : List MessageView)
    (cf : CfWord) (again : String) (toldIn : Option Int) :
    ∃ more, (m.textOf alphanumeric carried cf again toldIn).toList = markerOf m.id ++ more := by
  have dot : (toString " · ").toList = [' '] ++ ['·', ' '] := String.toList_ofList
  have task : (toString " · T-").toList = [' '] ++ ['·', ' ', 'T', '-'] := String.toList_ofList
  rw [toList_markerOf]
  unfold MessageView.textOf
  cases m.taskNumber with
  | none =>
    dsimp only
    simp only [String.toList_append, List.append_assoc, dot]
    exact ⟨_, rfl⟩
  | some number =>
    have form : (toString s!" · T-{number}").toList =
        [' '] ++ (['·', ' ', 'T', '-'] ++ (toString number).toList) := by
      rw [← List.append_assoc, ← task, ← String.toList_append]
      rfl
    dsimp only
    simp only [String.toList_append, List.append_assoc, form]
    exact ⟨_, rfl⟩

/-- The attributes of a tag: none, or some after a space, with no sign that ends the tag or begins a
    header, and no control character. -/
def Attributes (attributes : List Char) : Prop :=
  (attributes = [] ∨ ∃ more, attributes = ' ' :: more) ∧
    ∀ c ∈ attributes, c ≠ '>' ∧ c ≠ '[' ∧ c ≠ '\n' ∧ shown c = c ∧ c ≠ '\r'

/-- A run of placeholders, of pictures with these numbers. -/
def placeholders : List (List Char) → List Char
  | [] => []
  | [digits] => image ++ (digits ++ [']'])
  | digits :: more => image ++ (digits ++ (']' :: ' ' :: placeholders more))

/-- Some numbers, each of digits. -/
def Numbers (run : List (List Char)) : Prop :=
  run ≠ [] ∧ ∀ digits ∈ run, digits ≠ [] ∧ ∀ c ∈ digits, c.isDigit = true

/-- A paste, or what a wrapper makes of it: the tag with its attributes on a line of its own, the
    first piece of the paste, which holds its marker (all of it, or what the wrapper took), the tag
    closed, and whatever stands after it. -/
inductive Held (id : Int) (paste : List Char) : List Char → Prop where
  | bare : Held id paste paste
  | wrapped {attributes piece rest : List Char} (attributes_ : Attributes attributes)
      (marked : markerOf id <+: piece) (whole : paste = piece ++ rest) (after : List Char) :
      Held id paste ('<' :: (pastedTag ++ (attributes ++ ('>' :: '\n' ::
        (piece ++ ('\n' :: (closingTag attributes ++ after)))))))

/-- What a harness records of a paste: it, or it behind placeholders, at once or after a blank
    line. -/
inductive Shape (id : Int) (paste : List Char) : List Char → Prop where
  | plain {item : List Char} (held : Held id paste item) : Shape id paste item
  | pictured {run : List (List Char)} (numbers : Numbers run) :
      Shape id paste (placeholders run ++ paste)
  | apart_ {run : List (List Char)} {item : List Char} (numbers : Numbers run)
      (held : Held id paste item) : Shape id paste (placeholders run ++ ('\n' :: '\n' :: item))

/-- A text with some of its lines ended by a carriage return too. -/
inductive Returned : List Char → List Char → Prop where
  | nil : Returned [] []
  | keep (c : Char) {cs ds : List Char} (more : Returned cs ds) : Returned (c :: cs) (c :: ds)
  | ended {cs ds : List Char} (more : Returned cs ds) : Returned ('\n' :: cs) ('\r' :: '\n' :: ds)

/-- Space a window shows as space. -/
def Blank (blank : List Char) : Prop :=
  ∀ c ∈ blank, isWhitespace c = true ∧ shown c = c ∧ c ≠ '\r'

/-- **A record of a paste**: behind blank space or none, its lines ended either way. -/
def Recorded (id : Int) (paste record : List Char) : Prop :=
  ∃ blank item, Blank blank ∧ Shape id paste item ∧ Returned (blank ++ item) record

/-! ## 2. Texts in which no header begins -/

/-- No header begins in the text, whatever follows it: a bracket in it is followed by a character
    that no header has there. -/
def Clear : List Char → Prop
  | [] => True
  | c :: cs => (c = '[' → ∃ d more, cs = d :: more ∧ d ≠ 'C' ∧ d ≠ '\n') ∧ Clear cs

/-- Characters a window shows as they are. -/
def Shown (cs : List Char) : Prop := ∀ c ∈ cs, shown c = c ∧ c ≠ '\r'

variable {a b cs ds : List Char} {id : Int}

theorem Clear.append (first : Clear a) (second : Clear b) : Clear (a ++ b) := by
  induction a with
  | nil => exact second
  | cons c a ih =>
    refine ⟨fun bracket => ?_, ih first.2⟩
    obtain ⟨d, more, rfl, other⟩ := first.1 bracket
    exact ⟨d, more ++ b, rfl, other⟩

theorem Clear.of_out (out : '[' ∉ cs) : Clear cs := by
  induction cs with
  | nil => trivial
  | cons c cs ih =>
    refine ⟨fun bracket => absurd ?_ out, ih fun one => out (List.mem_cons_of_mem c one)⟩
    rw [bracket]
    exact List.mem_cons_self

theorem headerStart_eq : headerStart = '[' :: 'C' :: "onsensFlow m-".toList := by decide

/-- A header does not begin at a text's first character. -/
theorem Clear.begins {c : Char} (clear : Clear (c :: cs)) (x : List Char) :
    stripPrefix headerStart (c :: (cs ++ x)) = none := by
  rw [headerStart_eq, stripPrefix]
  by_cases bracket : '[' = c
  · obtain ⟨d, more, rfl, other, -⟩ := clear.1 bracket.symm
    rw [if_pos bracket, List.cons_append, stripPrefix, if_neg (Ne.symm other)]
  · rw [if_neg bracket]

theorem Clear.splitOnce (clear : Clear a) (x : List Char) : Lib.Text.splitOnce headerStart (a ++ x) =
    (Lib.Text.splitOnce headerStart x).map fun parts => (a ++ parts.1, parts.2) := by
  induction a with
  | nil =>
    rw [List.nil_append]
    cases Lib.Text.splitOnce headerStart x <;> rfl
  | cons c a ih =>
    rw [List.cons_append, Lib.Text.splitOnce, clear.begins, ih clear.2, Option.map_map]
    rfl

theorem Clear.headerOf (clear : Clear a) (x : List Char) :
    Deliveries.headerOf (a ++ x) = Deliveries.headerOf x := by
  induction a with
  | nil => rfl
  | cons c a ih =>
    rw [List.cons_append, Deliveries.headerOf, clear.begins]
    exact ih clear.2

theorem Clear.returned (clear : Clear cs) (h : Returned cs ds) : Clear ds := by
  induction h with
  | nil => trivial
  | keep c more ih =>
    refine ⟨fun bracket => ?_, ih clear.2⟩
    obtain ⟨d, rest, rfl, other, line⟩ := clear.1 bracket
    cases more with
    | keep d more => exact ⟨d, _, rfl, other, line⟩
    | ended more => exact absurd rfl line
  | ended more ih =>
    exact ⟨fun bracket => (by cases bracket), fun bracket => (by cases bracket), ih clear.2⟩

/-! ## 3. A record as its reader sees it -/

theorem Returned.of_append {s r : List Char} (h : Returned s r) (a b : List Char) (whole : s = a ++ b) :
    ∃ a' b', r = a' ++ b' ∧ Returned a a' ∧ Returned b b' := by
  induction h generalizing a with
  | nil =>
    obtain ⟨rfl, rfl⟩ := List.append_eq_nil_iff.1 whole.symm
    exact ⟨[], [], rfl, .nil, .nil⟩
  | @keep c cs ds more ih =>
    cases a with
    | nil =>
      subst whole
      exact ⟨[], c :: ds, rfl, .nil, .keep c more⟩
    | cons d a =>
      obtain ⟨rfl, whole'⟩ := List.cons.inj whole
      obtain ⟨a', b', rfl, first, second⟩ := ih a whole'
      exact ⟨c :: a', b', rfl, .keep c first, second⟩
  | @ended cs ds more ih =>
    cases a with
    | nil =>
      subst whole
      exact ⟨[], '\r' :: '\n' :: ds, rfl, .nil, .ended more⟩
    | cons d a =>
      obtain ⟨rfl, whole'⟩ := List.cons.inj whole
      obtain ⟨a', b', rfl, first, second⟩ := ih a whole'
      exact ⟨'\r' :: '\n' :: a', b', rfl, .ended first, second⟩

theorem Returned.append {a' b' : List Char} (first : Returned a a') (second : Returned b b') :
    Returned (a ++ b) (a' ++ b') := by
  induction first with
  | nil => exact second
  | keep c more ih => exact .keep c ih
  | ended more ih => exact .ended ih

/-- A text of one line is recorded as it is. -/
theorem Returned.line (h : Returned cs ds) (line : '\n' ∉ cs) : ds = cs := by
  induction h with
  | nil => rfl
  | keep c more ih => rw [ih fun one => line (List.mem_cons_of_mem c one)]
  | ended more => exact absurd List.mem_cons_self line

theorem unreturned_append (next : b.head? ≠ some '\n') :
    unreturned (a ++ b) = unreturned a ++ unreturned b := by
  induction a with
  | nil => rfl
  | cons c a ih =>
    have same : (c = '\r' ∧ (a ++ b).head? = some '\n') ↔ (c = '\r' ∧ a.head? = some '\n') := by
      cases a with
      | nil =>
        constructor
        · exact fun h => absurd h.2 next
        · exact fun h => (by cases h.2)
      | cons d a => exact Iff.rfl
    rw [List.cons_append, unreturned, unreturned, ih]
    by_cases here : c = '\r' ∧ a.head? = some '\n'
    · rw [if_pos here, if_pos (same.2 here)]
    · rw [if_neg here, if_neg fun h => here (same.1 h)]
      rfl

theorem windowText_append (next : b.head? ≠ some '\n') :
    windowText (a ++ b) = windowText a ++ windowText b := by
  unfold windowText
  rw [unreturned_append next, List.map_append]

theorem windowText_shown (plain : Shown a) (b : List Char) :
    windowText (a ++ b) = a ++ windowText b := by
  unfold windowText
  induction a with
  | nil => rfl
  | cons c a ih =>
    obtain ⟨same, other⟩ := plain c List.mem_cons_self
    rw [List.cons_append, unreturned, if_neg fun h => other h.1, List.map_cons, same,
      ih fun d one => plain d (List.mem_cons_of_mem c one)]
    rfl

/-- What a window shows as it is, its lines ended either way, reads as it was. -/
theorem windowText_returned (plain : Shown a) (h : Returned a b) : windowText b = a := by
  induction h with
  | nil => rfl
  | keep c more ih =>
    obtain ⟨same, other⟩ := plain c List.mem_cons_self
    have rest := ih fun d one => plain d (List.mem_cons_of_mem c one)
    unfold windowText at rest ⊢
    rw [unreturned, if_neg fun h => other h.1, List.map_cons, same, rest]
  | ended more ih =>
    have rest := ih fun d one => plain d (List.mem_cons_of_mem _ one)
    unfold windowText at rest ⊢
    rw [unreturned, if_pos ⟨rfl, rfl⟩, unreturned, if_neg fun h => (by cases h.1), List.map_cons, rest]
    rfl

/-! ## 4. What is ahead of the marker -/

/-- What is ahead of a marker: no header begins in it, a window shows it as it is, and whatever
    follows the marker, the reader finds the paste behind it. `more` is what follows, before its
    lines were ended. -/
structure Ahead (id : Int) (front more : List Char) (reads : List Char → List Char) : Prop where
  clear : Clear front
  shown : Shown front
  solid : ∀ x, ∃ c rest, front ++ (markerOf id ++ x) = c :: rest ∧ isWhitespace c = false
  found : ∀ more', Returned more more' →
    reads (front ++ (markerOf id ++ windowText more')) = markerOf id ++ windowText more'

theorem markerOf_begun (id : Int) : ∃ rest, markerOf id = '[' :: 'C' :: rest := by
  rw [toList_markerOf, headerStart_eq]
  exact ⟨_, rfl⟩

theorem markerOf_line (id : Int) : '\n' ∉ markerOf id := by
  rw [toList_markerOf]
  simp only [List.mem_append, not_or]
  refine ⟨by decide, fun one => ?_, by decide⟩
  rcases mem_toString one with same | digit
  · cases same
  · exact absurd digit (by decide)

/-- A character a window shows as it is: it prints. -/
theorem shown_prints {c : Char} (low : 0x20 ≤ c.toNat) (high : c.toNat < 0x7F) :
    shown c = c ∧ c ≠ '\r' := by
  have no (d : Char) (control : d.toNat < 0x20) : c ≠ d := by
    rintro rfl
    omega
  unfold shown
  rw [if_neg fun h => h.elim (no _ (by decide)) (no _ (by decide)), if_neg (by omega),
    if_neg (by omega), if_neg (by omega)]
  exact ⟨rfl, no _ (by decide)⟩

theorem shown_digit {c : Char} (digit : c.isDigit = true) : shown c = c ∧ c ≠ '\r' := by
  rw [Char.isDigit, Bool.and_eq_true, decide_eq_true_eq, decide_eq_true_eq] at digit
  have low : 48 ≤ c.toNat := digit.1
  have high : c.toNat ≤ 57 := digit.2
  exact shown_prints (by omega) (by omega)

theorem shown_all {cs : List Char} (prints : ∀ c ∈ cs, 0x20 ≤ c.toNat ∧ c.toNat < 0x7F) :
    Shown cs :=
  fun c one => shown_prints (prints c one).1 (prints c one).2

theorem Shown.append (first : Shown a) (second : Shown b) : Shown (a ++ b) :=
  fun c one => (List.mem_append.1 one).elim (first c) (second c)

theorem markerOf_shown (id : Int) : Shown (markerOf id) := by
  have start : Shown headerStart := by
    rw [headerStart_eq]
    exact shown_all (by simp)
  have space : Shown [' '] := shown_all (by simp)
  rw [toList_markerOf]
  refine start.append (Shown.append (fun c one => ?_) space)
  rcases mem_toString one with rfl | digit
  · exact shown_prints (by decide) (by decide)
  · exact shown_digit digit

theorem image_begun : image = '[' :: 'I' :: "mage #".toList := by decide

/-- A marker is no placeholder. -/
theorem afterPlaceholder_marker (id : Int) (x : List Char) :
    afterPlaceholder (markerOf id ++ x) = none := by
  obtain ⟨rest, begun⟩ := markerOf_begun id
  rw [begun, afterPlaceholder, image_begun]
  rfl

theorem afterPlaceholders_none {text : List Char} (none_ : afterPlaceholder text = none) :
    afterPlaceholders text = none := by
  unfold afterPlaceholders
  cases text with
  | nil => rfl
  | cons c cs =>
    rw [List.length_cons, afterRun, none_]
    rfl

theorem unwrapped_marker (id : Int) (x : List Char) :
    unwrapped (markerOf id ++ x) = markerOf id ++ x := by
  obtain ⟨rest, begun⟩ := markerOf_begun id
  rw [begun, unwrapped, afterWrapperOpening]
  rfl

/-- The opening of a wrapper, with its line's end. -/
def openingTag (attributes : List Char) : List Char :=
  '<' :: (pastedTag ++ (attributes ++ ['>', '\n']))

variable {attributes : List Char}

theorem pastedTag_shown : Shown pastedTag := by
  have one : pastedTag = _ := String.toList_ofList
  rw [one]
  exact shown_all (by simp)

theorem Attributes.shown (h : Attributes attributes) : Shown attributes :=
  fun c one => ⟨(h.2 c one).2.2.2.1, (h.2 c one).2.2.2.2⟩

theorem openingTag_shown (h : Attributes attributes) : Shown (openingTag attributes) := by
  have sign : Shown ['<'] := shown_all (by simp)
  have line : Shown ['>', '\n'] := by
    intro c one
    simp only [List.mem_cons, List.not_mem_nil, or_false] at one
    rcases one with rfl | rfl <;> decide
  exact sign.append (pastedTag_shown.append (h.shown.append line))

theorem closingTag_shown (h : Attributes attributes) : Shown (closingTag attributes) := by
  have sign : Shown ['<', '/'] := shown_all (by simp)
  have line : Shown ['>'] := shown_all (by simp)
  exact sign.append (pastedTag_shown.append (h.shown.append line))

theorem openingTag_out (h : Attributes attributes) : '[' ∉ openingTag attributes := by
  intro one
  have tag : '[' ∉ pastedTag := by decide
  unfold openingTag at one
  simp only [List.mem_cons, List.mem_append, List.not_mem_nil, or_false] at one
  rcases one with same | one | one | same | same
  · cases same
  · exact tag one
  · exact (h.2 _ one).2.1 rfl
  · cases same
  · cases same

theorem afterWrapperOpening_opening (h : Attributes attributes) (inner : List Char) :
    afterWrapperOpening (openingTag attributes ++ inner) = some (attributes, inner) := by
  have form : openingTag attributes ++ inner =
      ('<' :: pastedTag) ++ (attributes ++ (['>', '\n'] ++ inner)) := by
    unfold openingTag
    simp only [List.cons_append, List.append_assoc]
  have noSign : '>' ∉ attributes := fun one => (h.2 _ one).1 rfl
  have noLine : '\n' ∉ attributes := fun one => (h.2 _ one).2.2.1 rfl
  have start : (attributes.isEmpty || startsWith [' '] attributes) = true := by
    rcases h.1 with rfl | ⟨more, rfl⟩
    · rfl
    · rfl
  have one : (attributes.contains '>' || attributes.contains '\n') = false := by
    simp [noSign, noLine]
  rw [form, afterWrapperOpening, stripPrefix_append, Option.bind_some, splitOnce_head rfl noSign,
    Option.filter_some]
  refine if_pos ?_
  dsimp only
  rw [start, one]
  rfl

/-- A wrapper is read as what is in it, where its tag closes. -/
theorem unwrapped_opening (h : Attributes attributes) {inner : List Char}
    (closes : contains (closingTag attributes) inner = true) :
    unwrapped (openingTag attributes ++ inner) = inner := by
  rw [unwrapped, afterWrapperOpening_opening h]
  dsimp only
  rw [closes]
  rfl

/-- A closing tag stays in a record, whatever its lines end with. -/
theorem closes_windowText (h : Attributes attributes) (a after : List Char) {record : List Char}
    (returned : Returned (a ++ (closingTag attributes ++ after)) record) (b : List Char) :
    contains (closingTag attributes) (b ++ windowText record) = true := by
  obtain ⟨a', rest, rfl, -, restEnded⟩ := returned.of_append _ _ rfl
  obtain ⟨tag, after', rfl, tagEnded, -⟩ := restEnded.of_append _ _ rfl
  have line : '\n' ∉ closingTag attributes := by
    intro one
    have out : '\n' ∉ pastedTag := by decide
    unfold closingTag at one
    simp only [List.mem_cons, List.mem_append, List.not_mem_nil, or_false] at one
    rcases one with same | same | one | one | same
    · cases same
    · cases same
    · exact out one
    · exact (h.2 _ one).2.2.1 rfl
    · cases same
  obtain rfl := tagEnded.line line
  have next : (closingTag attributes ++ after').head? ≠ some '\n' := fun h => (by cases h)
  rw [windowText_append next, windowText_shown (closingTag_shown h), ← List.append_assoc]
  exact contains_iff.2 ⟨b ++ windowText a', windowText after', rfl⟩

/-- The paste an item holds: bare, or in its wrapper. -/
theorem Held.ahead {paste item more : List Char} (marked : paste = markerOf id ++ more)
    (held : Held id paste item) : ∃ front more', item = front ++ (markerOf id ++ more') ∧
      Ahead id front more' unwrapped ∧
      ∀ x, afterPlaceholders (front ++ (markerOf id ++ x)) = none := by
  cases held with
  | bare =>
    refine ⟨[], more, marked, ⟨trivial, fun c one => (by cases one), fun x => ?_, fun more' _ => ?_⟩,
      fun x => afterPlaceholders_none (afterPlaceholder_marker id x)⟩
    · obtain ⟨rest, begun⟩ := markerOf_begun id
      exact ⟨'[', 'C' :: (rest ++ x), by rw [begun]; rfl, by decide⟩
    · exact unwrapped_marker id _
  | @wrapped attributes piece rest attributes_ begins whole after =>
    obtain ⟨p, rfl⟩ := begins
    refine ⟨openingTag attributes, p ++ ('\n' :: (closingTag attributes ++ after)), ?_,
      ⟨Clear.of_out (openingTag_out attributes_), openingTag_shown attributes_, fun x => ?_,
        fun more' ended => ?_⟩, fun x => afterPlaceholders_none ?_⟩
    · unfold openingTag
      simp only [List.cons_append, List.append_assoc]
      rfl
    · exact ⟨'<', _, rfl, by decide⟩
    · have parts : p ++ ('\n' :: (closingTag attributes ++ after)) =
          (p ++ ['\n']) ++ (closingTag attributes ++ after) := by
        rw [List.append_assoc]
        rfl
      rw [parts] at ended
      exact unwrapped_opening attributes_ (closes_windowText attributes_ _ _ ended _)
    · rfl

variable {run : List (List Char)} {digits : List Char}

theorem image_clear : Clear image := by
  rw [image_begun]
  refine ⟨fun _ => ⟨'I', _, rfl, by decide, by decide⟩, Clear.of_out ?_⟩
  decide

theorem image_shown : Shown image := by
  have one : image = _ := String.toList_ofList
  rw [one]
  exact shown_all (by simp)

/-- Placeholders, the first of them apart. -/
theorem placeholders_cons (digits : List Char) (more : List (List Char)) :
    placeholders (digits :: more) = image ++ (digits ++ (']' ::
      (if more = [] then [] else ' ' :: placeholders more))) := by
  cases more <;> rfl

/-- What holds of each placeholder, and of the space between two, holds of a run of them. -/
theorem placeholders_all {P : List Char → Prop} (append : ∀ {a b}, P a → P b → P (a ++ b))
    (image_ : P image) (closed : P [']']) (between : P [' ']) (nil : P [])
    (numbers : ∀ digits ∈ run, P digits) : P (placeholders run) := by
  induction run with
  | nil => exact nil
  | cons digits more ih =>
    have rest := ih fun d one => numbers d (List.mem_cons_of_mem _ one)
    have first := numbers digits List.mem_cons_self
    rw [placeholders_cons]
    by_cases last : more = []
    · rw [if_pos last]
      exact append image_ (append first closed)
    · rw [if_neg last]
      have same : image ++ (digits ++ (']' :: ' ' :: placeholders more)) =
          image ++ (digits ++ ([']'] ++ ([' '] ++ placeholders more))) := rfl
      rw [same]
      exact append image_ (append first (append closed (append between rest)))

theorem placeholders_clear (numbers : Numbers run) : Clear (placeholders run) := by
  refine placeholders_all Clear.append image_clear (Clear.of_out (by decide))
    (Clear.of_out (by decide)) trivial fun digits one => Clear.of_out fun bracket => ?_
  exact absurd ((numbers.2 digits one).2 _ bracket) (by decide)

theorem placeholders_shown (numbers : Numbers run) : Shown (placeholders run) :=
  placeholders_all Shown.append image_shown (shown_all (by simp)) (shown_all (by simp))
    (fun _ one => (by cases one))
    fun digits one c here => shown_digit ((numbers.2 digits one).2 c here)

theorem placeholders_solid (numbers : Numbers run) (x : List Char) :
    ∃ c rest, placeholders run ++ x = c :: rest ∧ isWhitespace c = false := by
  cases run with
  | nil => exact absurd rfl numbers.1
  | cons digits more =>
    rw [placeholders_cons, image_begun]
    exact ⟨'[', _, rfl, by decide⟩

theorem afterPlaceholder_image (some_ : digits ≠ []) (digits_ : ∀ c ∈ digits, c.isDigit = true)
    (x : List Char) : afterPlaceholder (image ++ (digits ++ (']' :: x))) = some x := by
  have taken : (digits ++ (']' :: x)).takeWhile Char.isDigit = digits := by
    rw [List.takeWhile_append_of_pos digits_, List.takeWhile_cons_of_neg (by decide),
      List.append_nil]
  have dropped : (digits ++ (']' :: x)).dropWhile Char.isDigit = ']' :: x := by
    rw [List.dropWhile_append_of_pos digits_, List.dropWhile_cons_of_neg (by decide)]
  have filled : digits.isEmpty = false := by
    cases digits with
    | nil => exact absurd rfl some_
    | cons c cs => rfl
  rw [afterPlaceholder, stripPrefix_append, Option.bind_some, taken, dropped, filled]
  rfl

/-- A run of placeholders is passed over whole, where no space is behind it. -/
theorem afterRun_placeholders {x : List Char} (apart_ : stripPrefix [' '] x = none)
    (numbers : Numbers run) (seen : Bool) (fuel : Nat) (enough : run.length ≤ fuel) :
    afterRun fuel seen (placeholders run ++ x) = some x := by
  induction run generalizing seen fuel with
  | nil => exact absurd rfl numbers.1
  | cons digits more ih =>
    obtain ⟨some_, digits_⟩ := numbers.2 digits List.mem_cons_self
    obtain ⟨fuel, rfl⟩ : ∃ f, fuel = f + 1 := ⟨fuel - 1, by rw [List.length_cons] at enough; omega⟩
    rw [List.length_cons, Nat.add_le_add_iff_right] at enough
    by_cases last : more = []
    · rw [placeholders_cons, if_pos last]
      have parts : image ++ (digits ++ [']']) ++ x = image ++ (digits ++ (']' :: x)) := by
        simp only [List.append_assoc, List.cons_append, List.nil_append]
      rw [parts, afterRun, afterPlaceholder_image some_ digits_]
      dsimp only
      rw [apart_]
    · rw [placeholders_cons, if_neg last]
      have parts : image ++ (digits ++ (']' :: ' ' :: placeholders more)) ++ x =
          image ++ (digits ++ (']' :: ' ' :: (placeholders more ++ x))) := by
        simp only [List.append_assoc, List.cons_append]
      have again : startsWith image (placeholders more ++ x) = true := by
        cases more with
        | nil => exact absurd rfl last
        | cons d more =>
          rw [placeholders_cons, List.append_assoc, startsWith, stripPrefix_append]
          rfl
      have space (y : List Char) : stripPrefix [' '] (' ' :: y) = some y := rfl
      rw [parts, afterRun, afterPlaceholder_image some_ digits_]
      dsimp only
      rw [space]
      dsimp only
      rw [if_pos again]
      exact ih ⟨last, fun d one => numbers.2 d (List.mem_cons_of_mem _ one)⟩ true fuel enough

theorem afterPlaceholders_run {x : List Char} (apart_ : stripPrefix [' '] x = none)
    (numbers : Numbers run) : afterPlaceholders (placeholders run ++ x) = some x := by
  refine afterRun_placeholders apart_ numbers false _ ?_
  have length (run : List (List Char)) : run.length ≤ (placeholders run).length := by
    induction run with
    | nil => exact Nat.le_refl _
    | cons digits more ih =>
      rw [placeholders_cons]
      split
      · rename_i last
        subst last
        simp only [List.length_append, List.length_cons, List.length_nil]
        omega
      · simp only [List.length_append, List.length_cons]
        omega
  rw [List.length_append]
  exact Nat.le_trans (length run) (Nat.le_add_right _ _)

/-- What a harness records of a paste: a marker, and ahead of it what its reader passes over. -/
theorem Shape.ahead {paste item more : List Char} (marked : paste = markerOf id ++ more)
    (shape : Shape id paste item) : ∃ front more', item = front ++ (markerOf id ++ more') ∧
      Ahead id front more' pasteIn := by
  obtain ⟨rest, begun⟩ := markerOf_begun id
  cases shape with
  | plain held =>
    obtain ⟨front, more', rfl, ahead, none_⟩ := held.ahead marked
    refine ⟨front, more', rfl, ahead.clear, ahead.shown, ahead.solid, fun more'' ended => ?_⟩
    rw [pasteIn, none_]
    exact ahead.found more'' ended
  | @pictured run numbers =>
    refine ⟨placeholders run, more, by rw [marked], placeholders_clear numbers,
      placeholders_shown numbers, fun x => placeholders_solid numbers _, fun more' ended => ?_⟩
    rw [pasteIn, afterPlaceholders_run (by rw [begun]; rfl) numbers, begun]
    rfl
  | @apart_ run item numbers held =>
    obtain ⟨front, more', rfl, ahead, -⟩ := held.ahead marked
    have lines : Shown ['\n', '\n'] := by
      intro c one
      simp only [List.mem_cons, List.not_mem_nil, or_false, or_self] at one
      rw [one]
      decide
    have space : Clear ['\n', '\n'] := Clear.of_out (by decide)
    refine ⟨placeholders run ++ (['\n', '\n'] ++ front), more', ?_,
      (placeholders_clear numbers).append (space.append ahead.clear),
      (placeholders_shown numbers).append (lines.append ahead.shown), fun x => ?_,
      fun more'' ended => ?_⟩
    · simp only [List.append_assoc, List.cons_append, List.nil_append]
    · rw [List.append_assoc]
      exact placeholders_solid numbers _
    · rw [List.append_assoc, List.append_assoc, pasteIn, afterPlaceholders_run rfl numbers]
      dsimp only
      rw [stripPrefix_append]
      exact ahead.found more'' ended

/-! ## 5. What every reader says of a record -/

/-- A record, and what its reader sees of it. -/
theorem Recorded.parts {paste record more : List Char} (marked : paste = markerOf id ++ more)
    (recorded : Recorded id paste record) : ∃ front rest seen,
      record = front ++ (markerOf id ++ rest) ∧ Clear front ∧
      pasteIn (trimStart (windowText record)) = markerOf id ++ seen := by
  obtain ⟨blank, item, blank_, shape, returned⟩ := recorded
  obtain ⟨front, more, rfl, ahead⟩ := shape.ahead marked
  obtain ⟨blank', item', rfl, blankEnded, itemEnded⟩ := returned.of_append _ _ rfl
  obtain ⟨front', rest', rfl, frontEnded, restEnded⟩ := itemEnded.of_append _ _ rfl
  obtain ⟨marker', more', rfl, markerEnded, moreEnded⟩ := restEnded.of_append _ _ rfl
  obtain rfl := markerEnded.line (markerOf_line id)
  have shownBlank : Shown blank := fun c one => (blank_ c one).2
  have outBlank : '[' ∉ blank := by
    intro one
    exact absurd (blank_ _ one).1 (by decide)
  -- what the reader sees: the blank space, what is ahead of the marker, and the paste
  have sees : windowText (blank' ++ (front' ++ (markerOf id ++ more'))) =
      blank ++ (front ++ (markerOf id ++ windowText more')) := by
    have whole : Shown (blank ++ front) := shownBlank.append ahead.shown
    have ended : Returned (blank ++ front) (blank' ++ front') := blankEnded.append frontEnded
    obtain ⟨rest, begun⟩ := markerOf_begun id
    have next : (markerOf id ++ more').head? ≠ some '\n' := by
      rw [begun]
      exact fun h => (by cases h)
    rw [← List.append_assoc, windowText_append next, windowText_returned whole ended,
      windowText_shown (markerOf_shown id), List.append_assoc]
  refine ⟨blank' ++ front', more', windowText more', ?_, ?_, ?_⟩
  · rw [List.append_assoc]
  · exact ((Clear.of_out outBlank).returned blankEnded).append (ahead.clear.returned frontEnded)
  · obtain ⟨c, rest, solid, here⟩ := ahead.solid (windowText more')
    have trimmed : trimStart (blank ++ (front ++ (markerOf id ++ windowText more'))) =
        front ++ (markerOf id ++ windowText more') := by
      unfold trimStart
      rw [List.dropWhile_append_of_pos fun c one => (blank_ c one).1, solid,
        List.dropWhile_cons_of_neg (by rw [here]; decide)]
    rw [sees, trimmed]
    exact ahead.found more' moreEnded

/-- A number that is not negative is written in digits. -/
theorem toString_digits (nonneg : 0 ≤ id) : ∀ c ∈ (toString id).toList, c.isDigit = true := by
  obtain ⟨n, rfl⟩ := Int.eq_ofNat_of_zero_le nonneg
  exact fun c one => isDigit_of_repr one

theorem toString_some (nonneg : 0 ≤ id) : (toString id).toList.isEmpty = false := by
  obtain ⟨n, rfl⟩ := Int.eq_ofNat_of_zero_le nonneg
  obtain ⟨c, cs, form, -⟩ := repr_cons n
  have begun : (toString (n : Int)).toList = c :: cs := form
  rw [begun]
  rfl

/-- A marker and what follows it, the id between. -/
theorem marker_append (id : Int) (x : List Char) :
    markerOf id ++ x = headerStart ++ ((toString id).toList ++ (' ' :: x)) := by
  rw [toList_markerOf, List.append_assoc, List.append_assoc]
  rfl

theorem takeWhile_id (nonneg : 0 ≤ id) (x : List Char) :
    ((toString id).toList ++ (' ' :: x)).takeWhile Char.isDigit = (toString id).toList := by
  rw [List.takeWhile_append_of_pos (toString_digits nonneg),
    List.takeWhile_cons_of_neg (by decide), List.append_nil]

theorem dropWhile_id (nonneg : 0 ≤ id) (x : List Char) :
    ((toString id).toList ++ (' ' :: x)).dropWhile Char.isDigit = ' ' :: x := by
  rw [List.dropWhile_append_of_pos (toString_digits nonneg),
    List.dropWhile_cons_of_neg (by decide)]

/-- The engine reads the message of the first header. -/
theorem headerId_marker (in_ : InI64 id) (nonneg : 0 ≤ id) {front : List Char}
    (clear : Clear front) (x : List Char) : headerId (front ++ (markerOf id ++ x)) = some id := by
  have first : splitOnce headerStart (markerOf id ++ x) =
      some ([], (toString id).toList ++ (' ' :: x)) := by
    rw [marker_append]
    exact splitOnce_head (a := []) (c := '[') (by rw [headerStart_eq]; rfl) (by decide)
  rw [headerId, clear.splitOnce, first, Option.map_some, Option.bind_some]
  dsimp only
  rw [takeWhile_id nonneg, parseI64_toString in_]

/-- So does the ledger. -/
theorem headerOf_marker (in_ : InI64 id) (nonneg : 0 ≤ id) {front : List Char}
    (clear : Clear front) (x : List Char) : headerOf (front ++ (markerOf id ++ x)) = some id := by
  obtain ⟨tail, begun⟩ : ∃ tail, markerOf id ++ x = '[' :: tail := by
    rw [marker_append, headerStart_eq]
    exact ⟨_, rfl⟩
  have strip : stripPrefix headerStart ('[' :: tail) =
      some ((toString id).toList ++ (' ' :: x)) := by
    rw [← begun, marker_append, stripPrefix_append]
  rw [clear.headerOf, begun, headerOf, strip]
  dsimp only
  rw [takeWhile_id nonneg, dropWhile_id nonneg, toString_some nonneg, parseI64_toString in_]
  rfl

/-- No marker begins with another message's. -/
theorem marker_apart {n id : Int} (in_ : InI64 n) (in' : InI64 id) {x : List Char}
    (h : startsWith (markerOf n) (markerOf id ++ x) = true) : n = id := by
  obtain ⟨rest, here⟩ := Option.isSome_iff_exists.1 h
  have same := stripPrefix_iff.1 here
  rw [marker_append, marker_append] at same
  have same := List.append_cancel_left same
  -- no number has a space in it, so the first space ends both
  have out (k : Int) : ' ' ∉ (toString k).toList := by
    intro one
    rcases mem_toString one with minus | digit
    · cases minus
    · exact absurd digit (by decide)
  have ends (k : Int) (y : List Char) : splitOnce [' '] ((toString k).toList ++ (' ' :: y)) =
      some ((toString k).toList, y) := splitOnce_head (b := y) rfl (out k)
  have both := ends id x
  rw [same, ends n rest] at both
  have digits : (toString n).toList = (toString id).toList := congrArg Prod.fst (Option.some.inj both)
  have read := parseI64_toString in_
  rw [digits, parseI64_toString in'] at read
  exact (Option.some.inj read).symm

theorem isPasteOf_none (record : List Char) (n : Int) : isPasteOf record n none =
    (contains (markerOf n) record &&
      startsWith (markerOf n) (pasteIn (trimStart (windowText record)))) := by
  unfold isPasteOf
  cases contains (markerOf n) record
  · rfl
  · dsimp only [Option.bind_none, Option.any_none]
    rw [if_pos rfl, Bool.or_false, Bool.true_and]

/-- **A paste proves its own message and no other.** Of every record a harness makes of it, the
    message is the one the engine and the ledger read, and the record is its paste and no other
    message's, whatever its words quote. -/
theorem paste_proves_its_message (alphanumeric : Char → Bool) (m : MessageView)
    (carried : List MessageView) (cf : CfWord) (again : Bool) (toldIn : Option Int)
    (id_ : 0 ≤ m.id ∧ m.id < 2 ^ 63) (record : List Char)
    (recorded : Recorded m.id
      (m.deliveryTextBeside alphanumeric carried cf again toldIn).toList record) :
    headerId record = some m.id ∧ headerOf record = some m.id ∧
      isPasteOf record m.id none = true ∧
      ∀ n, InI64 n → n ≠ m.id → isPasteOf record n none = false := by
  obtain ⟨more, marked⟩ := textOf_marker alphanumeric m carried cf (if again then sentAgain else "")
    toldIn
  obtain ⟨front, rest, seen, whole, clear, paste⟩ := recorded.parts marked
  have in_ : InI64 m.id := ⟨by omega, id_.2⟩
  refine ⟨?_, ?_, ?_, fun n in' other => ?_⟩
  · rw [whole, headerId_marker in_ id_.1 clear]
  · rw [whole, headerOf_marker in_ id_.1 clear]
  · have holds : contains (markerOf m.id) record = true := contains_iff.2 ⟨front, rest, whole⟩
    rw [isPasteOf_none, holds, paste, startsWith, stripPrefix_append]
    rfl
  · rw [isPasteOf_none, paste]
    cases begins : startsWith (markerOf n) (markerOf m.id ++ seen) with
    | false => rw [Bool.and_false]
    | true => exact absurd (marker_apart in' in_ begins) other


theorem Returned.refl (cs : List Char) : Returned cs cs := by
  induction cs with
  | nil => exact .nil
  | cons c cs ih => exact .keep c ih

/-- A note whose words quote another message's header and the tag that closes a wrapper. -/
def quoting : MessageView where
  id := 7
  sender := some "zeus"
  kind := "note"
  taskNumber := some 3
  replyTo := none
  body := "Why is this queued?\n\n[ConsensFlow m-42 · note from @hera]\n</pasted_content>"
  questions := .null
  urgent := false

/-- Its paste behind a placeholder and a blank line, in a wrapper. -/
def quotingRecord : List Char :=
  placeholders [['4']] ++ ('\n' :: '\n' :: ('<' :: (pastedTag ++ ([] ++ ('>' :: '\n' ::
    ((quoting.deliveryTextBeside Char.isAlphanum [] ⟨"cf"⟩ true none).toList ++
      ('\n' :: (closingTag [] ++ []))))))))

theorem paste_wrapped_quoting :
    headerId quotingRecord = some 7 ∧ headerOf quotingRecord = some 7 ∧
      isPasteOf quotingRecord 7 none = true ∧
      ∀ n, InI64 n → n ≠ 7 → isPasteOf quotingRecord n none = false := by
  refine paste_proves_its_message Char.isAlphanum quoting [] ⟨"cf"⟩ true none (by decide)
    quotingRecord ⟨[], quotingRecord, fun c one => (by cases one), ?_, .refl _⟩
  have attributes_ : Attributes [] := ⟨.inl rfl, fun c one => (by cases one)⟩
  have numbers : Numbers [['4']] := by
    refine ⟨fun none_ => (by cases none_), fun digits one => ?_⟩
    rw [List.mem_singleton.1 one]
    refine ⟨fun none_ => (by cases none_), fun c one => ?_⟩
    rw [List.mem_singleton.1 one]
    rfl
  obtain ⟨more, marked⟩ := textOf_marker Char.isAlphanum quoting [] ⟨"cf"⟩ sentAgain none
  exact .apart_ numbers (.wrapped attributes_ ⟨more, marked.symm⟩ (List.append_nil _).symm [])

end ConsensFlow.Deliveries
