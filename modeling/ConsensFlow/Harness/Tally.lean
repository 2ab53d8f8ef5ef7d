/-
  File:      ConsensFlow/Harness/Tally.lean
  Subject:   WHAT A FILE'S BYTES HOLD, read once from the start, and that a look which reads on comes
             to the same.

  * `tally` -- the records of the bytes in order, each with the byte its line begins at, and the
    places of the torn lines;
  * `Scan.Of` -- the INVARIANT of a look reading on: the lines it read, tallied;
  * `Seen.Of` -- where a look stopped, against the bytes it read;
  * **`readOnWith_read`** -- from a place of such bytes, a look that reads on stops at a place of the
    bytes it found after it.
-/
import ConsensFlow.Harness.Jsonl

namespace ConsensFlow
namespace Harness

open Lib.Lines

variable {V P : Type}

/-! ## 1. The bytes, tallied -/

/-- What some whole lines hold: the byte after them, their records and their torn lines, each by the
    place among the records it stands at. -/
structure Tally (V : Type) where
  next : Nat
  records : List (V × Nat)
  torn : List Nat

namespace Tally

def none_ : Tally V := ⟨0, [], []⟩

/-- One line more. -/
def line (r : Reader V) (t : Tally V) (line : Bytes) : Option (Tally V) :=
  match wholeLine r line t.records.length with
  | .error _ => none
  | .ok (whole, isTorn) =>
    let records := t.records ++ whole.map (·, t.next)
    some ⟨t.next + line.length + 1, records, if isTorn then t.torn ++ [records.length] else t.torn⟩

/-- What follows the last newline: a record, where it is one already. -/
def last (r : Reader V) (t : Tally V) (last : Bytes) : Option (Tally V) :=
  if isBlank last then some t
  else
    match r.parse last with
    | some record => some { t with records := t.records ++ [(record, t.next)] }
    | none => if r.isJson last then none else some t

end Tally

def tallyLines (r : Reader V) (lines : List Bytes) : Option (Tally V) :=
  lines.foldlM (Tally.line r) Tally.none_

/-- The bytes of a file, read once from the start: none where a line of JSON cannot be held. -/
def tally (r : Reader V) (bytes : Bytes) : Option (Tally V) :=
  (tallyLines r (split newline bytes).1).bind fun t => t.last r (split newline bytes).2

theorem tallyLines_concat {r : Reader V} {lines : List Bytes} {t : Tally V}
    (h : tallyLines r lines = some t) (line : Bytes) :
    tallyLines r (lines ++ [line]) = t.line r line := by
  unfold tallyLines at h ⊢
  rw [List.foldlM_append, h]
  show (do let t ← some t; [line].foldlM (Tally.line r) t) = _
  exact bind_pure (m := Option) (t.line r line)

theorem tally_joined {r : Reader V} {lines : List Bytes} {rest : Bytes} {t : Tally V}
    (hlines : ∀ line ∈ lines, newline ∉ line) (hrest : newline ∉ rest)
    (h : tallyLines r lines = some t) : tally r (joined newline lines ++ rest) = t.last r rest := by
  rw [tally, split_joined hlines hrest]
  simp only [h, Option.bind_some]

theorem tallyLines_next {r : Reader V} {lines : List Bytes} {t : Tally V}
    (h : tallyLines r lines = some t) : t.next = (joined newline lines).length := by
  induction lines using List.reverseRecOn generalizing t with
  | nil => cases h; rfl
  | append_singleton lines line ih =>
    cases hl : tallyLines r lines with
    | none =>
      unfold tallyLines at h hl
      rw [List.foldlM_append, hl] at h
      cases h
    | some before =>
      rw [tallyLines_concat hl] at h
      have before_ := ih hl
      unfold Tally.line at h
      split at h
      · cases h
      · cases h
        rw [joined_concat, List.length_append, List.length_append]
        show before.next + line.length + 1 = _
        rw [before_, List.length_append]
        rfl

theorem isBlank_append (a b : Bytes) : isBlank (a ++ b) = (isBlank a && isBlank b) :=
  List.all_append

/-- One line more adds to what the lines before it hold. -/
theorem line_grows {r : Reader V} {t t' : Tally V} {line : Bytes} (h : t.line r line = some t') :
    t.records <+: t'.records ∧ t.torn <+: t'.torn ∧
      ((∀ place ∈ t.torn, place ≤ t.records.length) →
        ∀ place ∈ t'.torn, place ≤ t'.records.length) := by
  unfold Tally.line at h
  split at h
  · cases h
  · rename_i whole _ _
    cases h
    refine ⟨List.prefix_append _ _, ?_, fun places place hp => ?_⟩
    · dsimp only
      split
      · exact List.prefix_append _ _
      · exact List.prefix_rfl
    · have more : t.records.length ≤ (t.records ++ whole.map (·, t.next)).length :=
        (List.prefix_append _ _).length_le
      dsimp only at hp ⊢
      split at hp
      · rcases List.mem_append.1 hp with hp | hp
        · exact Nat.le_trans (places place hp) more
        · exact Nat.le_of_eq (List.mem_singleton.1 hp)
      · exact Nat.le_trans (places place hp) more

theorem tallyLines_append {r : Reader V} {lines more : List Bytes} {all : Tally V}
    (h : tallyLines r (lines ++ more) = some all) :
    ∃ t, tallyLines r lines = some t ∧ t.records <+: all.records ∧ t.torn <+: all.torn := by
  induction more using List.reverseRecOn generalizing all with
  | nil => exact ⟨all, List.append_nil lines ▸ h, List.prefix_rfl, List.prefix_rfl⟩
  | append_singleton more line ih =>
    rw [← List.append_assoc] at h
    cases hm : tallyLines r (lines ++ more) with
    | none =>
      unfold tallyLines at h hm
      rw [List.foldlM_append, hm] at h
      cases h
    | some t =>
      rw [tallyLines_concat hm] at h
      obtain ⟨t₀, h₀, records, torn⟩ := ih hm
      obtain ⟨records', torn', -⟩ := line_grows h
      exact ⟨t₀, h₀, records.trans records', torn.trans torn'⟩

/-- A torn line stands among the records there are. -/
theorem tallyLines_places {r : Reader V} {lines : List Bytes} {t : Tally V}
    (h : tallyLines r lines = some t) : ∀ place ∈ t.torn, place ≤ t.records.length := by
  induction lines using List.reverseRecOn generalizing t with
  | nil =>
    cases h
    exact fun _ hp => absurd hp List.not_mem_nil
  | append_singleton lines line ih =>
    obtain ⟨t₀, h₀, -⟩ := tallyLines_append h
    rw [tallyLines_concat h₀] at h
    exact (line_grows h).2.2 (ih h₀)

theorem last_grows {r : Reader V} {t t' : Tally V} {last : Bytes} (h : t.last r last = some t') :
    t.records <+: t'.records ∧ t'.torn = t.torn := by
  unfold Tally.last at h
  split at h
  · cases h
    exact ⟨List.prefix_rfl, rfl⟩
  · split at h
    · cases h
      exact ⟨List.prefix_append _ _, rfl⟩
    · split at h
      · cases h
      · cases h
        exact ⟨List.prefix_rfl, rfl⟩

/-- Bytes that begin with some whole lines hold what those hold. -/
theorem tally_prefix {r : Reader V} {lines : List Bytes} {rest : Bytes} {all : Tally V}
    (hlines : ∀ line ∈ lines, newline ∉ line)
    (h : tally r (joined newline lines ++ rest) = some all) :
    ∃ t, tallyLines r lines = some t ∧ t.records <+: all.records ∧ t.torn <+: all.torn := by
  obtain ⟨whole, lines', last⟩ := joined_split newline rest
  have hsplit : split newline (joined newline lines ++ rest) =
      (lines ++ (split newline rest).1, (split newline rest).2) := by
    rw [← whole, ← List.append_assoc, ← joined_append]
    rw [whole]
    refine split_joined (fun line hl => ?_) last
    rcases List.mem_append.1 hl with hl | hl
    · exact hlines line hl
    · exact lines' line hl
  unfold tally at h
  rw [hsplit] at h
  obtain ⟨t', ht', hlast⟩ := Option.bind_eq_some_iff.1 h
  obtain ⟨t, ht, records, torn⟩ := tallyLines_append ht'
  obtain ⟨records', torn'⟩ := last_grows hlast
  exact ⟨t, ht, records.trans records', torn' ▸ torn⟩

/-- The torn lines of some bytes are torn lines of the bytes that go on with them, and stand among
    their records. -/
theorem tally_torn {r : Reader V} {bytes more : Bytes} {all all' : Tally V}
    (h : tally r bytes = some all) (h' : tally r (bytes ++ more) = some all') :
    all.torn <+: all'.torn ∧ ∀ place ∈ all.torn, place ≤ all.records.length := by
  obtain ⟨whole, lines, -⟩ := joined_split newline bytes
  obtain ⟨t, ht, hlast⟩ := Option.bind_eq_some_iff.1 h
  obtain ⟨records, torn⟩ := last_grows hlast
  rw [← whole, List.append_assoc] at h'
  obtain ⟨t', ht', -, torn'⟩ := tally_prefix lines h'
  cases ht.symm.trans ht'
  rw [torn]
  exact ⟨torn', fun place hp => Nat.le_trans (tallyLines_places ht place hp) records.length_le⟩

/-- A record and white space after it are that record. -/
theorem wholeLine_blank {r : Reader V} (lawful : r.Lawful) {tail blank : Bytes} {record : V}
    (some_ : isBlank tail = false) (hb : isBlank blank = true) (hp : r.parse tail = some record)
    (index : Nat) : wholeLine r (tail ++ blank) index = .ok ([record], false) := by
  unfold wholeLine
  rw [isBlank_append, some_, lawful.parse_blank tail blank hb, hp]
  rfl

theorem last_blank {r : Reader V} (lawful : r.Lawful) {tail blank : Bytes} {record : V}
    (some_ : isBlank tail = false) (hb : isBlank blank = true) (hp : r.parse tail = some record)
    (t : Tally V) :
    t.last r (tail ++ blank) = some { t with records := t.records ++ [(record, t.next)] } := by
  unfold Tally.last
  rw [isBlank_append, some_, lawful.parse_blank tail blank hb, hp]
  rfl

/-! ## 2. A look reading on -/

/-- What is kept of the records visited: it holds of one more after the parser took it. -/
def Keeps (visit : Visit V P) (Has : List (V × Nat) → P → Prop) : Prop :=
  ∀ records state record begins state', Has records state →
    visit state record records.length begins = .ok state' → Has (records ++ [(record, begins)]) state'

variable {Has : List (V × Nat) → P → Prop} {r : Reader V} {k : Looking V P}

/-- A line that is torn, and no record. -/
def TornLine (r : Reader V) (line : Bytes) (index : Nat) : Prop :=
  wholeLine r line index = .ok ([], true)

/-- The first torn line that waits, after the lines `before`: no record came since. -/
structure Waits (r : Reader V) (base : Nat) (lines : List Bytes) (t : Tally V) (places : List Nat)
    (torn : Torn) : Prop where
  stopped : ∃ before line after tallied, lines = before ++ line :: after ∧
    TornLine r line tallied.records.length ∧ tallyLines r before = some tallied ∧
    tallied.records = t.records ∧ tallied.torn = places ∧ torn.begins = tallied.next ∧
    torn.read = joined newline before ∧ base ≤ tallied.next

/-- Where a look that reads on stands, the lines `lines` read and those before `base` by the looks
    before it. -/
structure Scan.Of (r : Reader V) (Has : List (V × Nat) → P → Prop) (base : Nat) (lines : List Bytes)
    (t : Tally V) (s : Scan P) : Prop where
  whole : ∀ line ∈ lines, newline ∉ line
  unended : newline ∉ s.line
  tallied : tallyLines r lines = some t
  offset : s.offset = t.next
  onward : base ≤ t.next
  hashed : s.hashed = joined newline lines
  places : t.torn = s.places ++ s.waiting.map Torn.index
  waits : ∀ torn ∈ s.waiting, torn.index = t.records.length
  first : ∀ torn, s.waiting.head? = some torn → Waits r base lines t s.places torn
  passing : s.passing = true → s.waiting = []
  later : s.waiting ≠ [] → base < t.next
  here : (s.visited = false ∧ s.tail = [] ∧ s.records = t.records.length ∧ Has t.records s.state) ∨
    (s.visited = true ∧ s.waiting = [] ∧ newline ∉ s.tail ∧ isBlank s.tail = false ∧
      ∃ record, r.parse s.tail = some record ∧ s.records = t.records.length + 1 ∧
        Has (t.records ++ [(record, t.next)]) s.state)

/-- The records of a line, taken. -/
structure Took (Has : List (V × Nat) → P → Prop) (records : List (V × Nat)) (whole : List V)
    (s s' : Scan P) : Prop where
  has : Has (records ++ whole.map (·, s.offset)) s'.state
  count : s'.records = (records ++ whole.map (·, s.offset)).length
  line : s'.line = s.line
  visited : s'.visited = s.visited
  tail : s'.tail = s.tail
  offset : s'.offset = s.offset
  hashed : s'.hashed = s.hashed
  places : s'.places ++ s'.waiting.map Torn.index = s.places ++ s.waiting.map Torn.index
  waiting : (whole = [] ∧ s' = s) ∨ (whole ≠ [] ∧ s'.waiting = [] ∧ s'.passing = false)

theorem take_took {s s' : Scan P} {record : V} {records : List (V × Nat)}
    (keeps : Keeps k.visit Has) (has : Has records s.state) (count : s.records = records.length)
    (h : k.take s record = .ok s') : Took Has records [record] s s' := by
  unfold Looking.take at h
  split at h
  · cases h
  · rename_i state hv
    cases h
    refine ⟨keeps _ _ _ _ _ has (count ▸ hv), ?_, rfl, rfl, rfl, rfl, rfl, ?_, .inr ⟨?_, rfl, rfl⟩⟩
    · rw [List.length_append, ← count]
      rfl
    · exact List.append_nil _
    · exact List.cons_ne_nil _ _

theorem takes_took {whole : List V} {s s' : Scan P} {records : List (V × Nat)}
    (keeps : Keeps k.visit Has) (has : Has records s.state) (count : s.records = records.length)
    (h : whole.foldlM k.take s = .ok s') : Took Has records whole s s' := by
  induction whole generalizing s records with
  | nil =>
    cases h
    have none_ : records ++ ([] : List V).map (·, s'.offset) = records := List.append_nil _
    exact ⟨none_.symm ▸ has, none_.symm ▸ count, rfl, rfl, rfl, rfl, rfl, rfl, .inl ⟨rfl, rfl⟩⟩
  | cons record whole ih =>
    rw [List.foldlM_cons] at h
    cases ht : k.take s record with
    | error e => rw [ht] at h; cases h
    | ok s₁ =>
      rw [ht] at h
      have one := take_took keeps has count ht
      have rest := ih one.has one.count h
      have all : records ++ (record :: whole).map (·, s.offset) =
          records ++ [record].map (·, s.offset) ++ whole.map (·, s₁.offset) := by
        rw [one.offset, List.append_assoc]
        rfl
      refine ⟨all ▸ rest.has, all ▸ rest.count, rest.line.trans one.line,
        rest.visited.trans one.visited, rest.tail.trans one.tail, rest.offset.trans one.offset,
        rest.hashed.trans one.hashed, rest.places.trans one.places,
        .inr ⟨List.cons_ne_nil _ _, ?_⟩⟩
      rcases one.waiting with ⟨none_, -⟩ | ⟨-, waiting, passing⟩
      · exact absurd none_ (List.cons_ne_nil _ _)
      · rcases rest.waiting with ⟨-, rfl⟩ | ⟨-, waiting', passing'⟩
        · exact ⟨waiting, passing⟩
        · exact ⟨waiting', passing'⟩

/-- A whole line after those read, where no line waits or the one first waiting still does. -/
theorem Waits.more {base : Nat} {lines : List Bytes} {t t' : Tally V} {places : List Nat} {torn : Torn}
    (h : Waits r base lines t places torn) (line : Bytes) (records : t'.records = t.records) :
    Waits r base (lines ++ [line]) t' places torn := by
  obtain ⟨before, first, after, tallied, rfl, hfirst, htallied, hrecords, htorn, rest⟩ := h.stopped
  exact ⟨before, first, after ++ [line], tallied, List.append_assoc _ _ _, hfirst, htallied,
    hrecords.trans records.symm, htorn, rest⟩

/-- A line's newline, its bytes dealt with. -/
theorem ended_of {base : Nat} {lines : List Bytes} {t t' : Tally V} {s s₁ : Scan P} {line : Bytes}
    (h : s.Of r Has base lines t) (hline : newline ∉ line) (tallied : t.line r line = some t')
    (hashed : s₁.hashed ++ s₁.line = joined newline lines ++ line)
    (places : t'.torn = s₁.places ++ s₁.waiting.map Torn.index)
    (waits : ∀ torn ∈ s₁.waiting, torn.index = t'.records.length)
    (first : ∀ torn, s₁.waiting.head? = some torn → Waits r base (lines ++ [line]) t' s₁.places torn)
    (passing : s₁.passing = true → s₁.waiting = []) (visited : s₁.visited = false)
    (tail : s₁.tail = []) (count : s₁.records = t'.records.length) (has : Has t'.records s₁.state) :
    Scan.Of r Has base (lines ++ [line]) t'
      { s₁ with
        hashed := s₁.hashed ++ s₁.line ++ [newline], line := [],
        offset := t.next + line.length + 1 } := by
  have next : t'.next = t.next + line.length + 1 := by
    unfold Tally.line at tallied
    split at tallied
    · cases tallied
    · cases tallied
      rfl
  have onward := h.onward
  refine ⟨?_, List.not_mem_nil, (tallyLines_concat h.tallied line).trans tallied, next.symm, ?_, ?_,
    places, waits, first, passing, fun _ => ?_, .inl ⟨visited, tail, count, has⟩⟩
  · intro l hl
    rcases List.mem_append.1 hl with hl | hl
    · exact h.whole l hl
    · cases List.mem_singleton.1 hl
      exact hline
  · omega
  · rw [hashed, joined_concat, List.append_assoc]
  · omega

@[simp] theorem torn_tail (s : Scan P) (led : Bool) : (k.torn s led).tail = s.tail := by
  unfold Looking.torn
  dsimp only
  split <;> rfl

/-- A line of records alone, or of none. -/
theorem whole_of {base : Nat} {lines : List Bytes} {t : Tally V} {s s₂ : Scan P} {whole : List V}
    (h : s.Of r Has base lines t) (hv : s.visited = false) (htail : s.tail = [])
    (hw : wholeLine r s.line t.records.length = .ok (whole, false))
    (took : Took Has t.records whole s s₂) :
    ∃ t', Scan.Of r Has base (lines ++ [s.line]) t'
      { s₂ with
        hashed := s₂.hashed ++ s₂.line ++ [newline], line := [],
        offset := t.next + s.line.length + 1 } := by
  obtain ⟨has, count, line, visited, tail, -, hashed, places, waiting⟩ := took
  rw [h.offset] at has count
  have tallied : t.line r s.line = some ⟨t.next + s.line.length + 1,
      t.records ++ whole.map (·, t.next), t.torn⟩ := by
    rw [Tally.line, hw]
    rfl
  refine ⟨_, ended_of h h.unended tallied (by rw [hashed, line, h.hashed])
    (h.places.trans places.symm) ?_ ?_ ?_ (visited.trans hv) (tail.trans htail) count has⟩
  · rcases waiting with ⟨rfl, rfl⟩ | ⟨-, none_, -⟩
    · intro torn ht
      rw [h.waits torn ht, List.map_nil, List.append_nil]
    · rw [none_]
      exact fun _ hw => absurd hw List.not_mem_nil
  · rcases waiting with ⟨rfl, rfl⟩ | ⟨-, none_, -⟩
    · exact fun torn ht => (h.first torn ht).more _ (List.append_nil _)
    · rw [none_]
      exact fun _ hw => nomatch hw
  · rcases waiting with ⟨-, rfl⟩ | ⟨-, none_, -⟩
    · exact h.passing
    · exact fun _ => none_

/-- A line whose rest is torn: passed over at once, or put with those that wait. -/
theorem torn_of {base : Nat} (done : k.done = none ∨ k.done = some base) {lines : List Bytes}
    {t : Tally V} {s s₂ : Scan P} {whole : List V} (h : s.Of r Has base lines t)
    (hv : s.visited = false) (htail : s.tail = [])
    (hw : wholeLine r s.line t.records.length = .ok (whole, true))
    (took : Took Has t.records whole s s₂) :
    ∃ t', Scan.Of r Has base (lines ++ [s.line]) t'
      { k.torn s₂ (!whole.isEmpty) with
        hashed := (k.torn s₂ (!whole.isEmpty)).hashed ++ (k.torn s₂ (!whole.isEmpty)).line ++ [newline]
        line := [], offset := t.next + s.line.length + 1 } := by
  obtain ⟨has, count, line, visited, tail, offset, hashed, places, waiting⟩ := took
  rw [h.offset] at has count
  have tallied : t.line r s.line = some ⟨t.next + s.line.length + 1,
      t.records ++ whole.map (·, t.next),
      t.torn ++ [(t.records ++ whole.map (·, t.next)).length]⟩ := by
    rw [Tally.line, hw]
    rfl
  have hhashed : s₂.hashed ++ s₂.line = joined newline lines ++ s.line := by
    rw [hashed, line, h.hashed]
  have hplaces : t.torn = s₂.places ++ s₂.waiting.map Torn.index := h.places.trans places.symm
  cases hp : !whole.isEmpty || (s₂.passing || k.done == some s₂.offset) with
  | true =>
    -- No torn line waits here: a record of this very line came, or the line is past its wait.
    have none_ : s₂.waiting = [] := by
      rcases waiting with ⟨rfl, rfl⟩ | ⟨-, none_, -⟩
      · simp only [List.isEmpty_nil, Bool.not_true, Bool.false_or, Bool.or_eq_true,
          beq_iff_eq] at hp
        rcases hp with passing | due
        · exact h.passing passing
        · refine Classical.byContradiction fun some_ => ?_
          have later := h.later some_
          rcases done with done | done
          · rw [done] at due
            cases due
          · rw [done, h.offset] at due
            cases due
            omega
      · exact none_
    rw [Looking.torn, if_pos hp]
    refine ⟨_, ended_of h h.unended tallied hhashed ?_ ?_ ?_ ?_ (visited.trans hv)
      (tail.trans htail) count has⟩
    · simp only [none_, hplaces, count, List.map_nil, List.append_nil]
    · rw [none_]
      exact fun _ hw => absurd hw List.not_mem_nil
    · rw [none_]
      exact fun _ hw => nomatch hw
    · exact fun _ => none_
  | false =>
    have hq := hp
    rw [Bool.or_eq_false_iff, Bool.not_eq_false', List.isEmpty_iff] at hq
    obtain ⟨rfl, notPassing⟩ := hq
    rcases waiting with ⟨-, rfl⟩ | ⟨some_, -⟩
    · rw [Looking.torn, if_neg (by rw [hp]; decide)]
      rw [List.map_nil, List.append_nil] at tallied has count
      refine ⟨_, ended_of h h.unended tallied hhashed ?_ ?_ ?_ ?_ hv htail count has⟩
      · rw [List.map_append, hplaces, count, List.append_assoc]
        rfl
      · intro torn ht
        rcases List.mem_append.1 ht with ht | ht
        · exact h.waits torn ht
        · cases List.mem_singleton.1 ht
          exact count
      · intro torn ht
        cases hwait : s₂.waiting with
        | nil =>
          rw [hwait] at ht
          cases ht
          refine ⟨lines, s₂.line, [], t, rfl, hw, h.tallied, rfl, ?_, h.offset, h.hashed, h.onward⟩
          rw [hplaces, hwait]
          exact List.append_nil _
        | cons first rest =>
          rw [hwait] at ht
          cases ht
          exact (h.first torn (by rw [hwait]; rfl)).more _ rfl
      · intro passing
        exact absurd (notPassing.symm.trans passing) (by decide)
    · exact absurd rfl some_

/-- **A line's end**: the STEP of the invariant. -/
theorem endLine_of (lawful : r.Lawful) (keeps : Keeps k.visit Has) (reader : k.reader = r)
    (only : k.only = none) {base : Nat} (done : k.done = none ∨ k.done = some base)
    {lines : List Bytes} {t : Tally V} {s s' : Scan P} (h : s.Of r Has base lines t) {next : Nat}
    (hnext : next = s.offset + s.tail.length + s.line.length + 1)
    (hs : k.endLine next s = .ok s') :
    ∃ t', s'.Of r Has base (lines ++ [s.tail ++ s.line]) t' ∧ s'.line = [] ∧ s'.tail = [] ∧
      s'.offset = next := by
  unfold Looking.endLine at hs
  cases hr : k.lineRead s with
  | error e => rw [hr] at hs; cases hs
  | ok s₁ =>
    rw [hr] at hs
    cases hs
    unfold Looking.lineRead at hr
    rcases h.here with ⟨hv, htail, hcount, has⟩ | ⟨hv, hwait, htail, some_, record, hp, hcount, has⟩
    · rw [if_neg (by rw [hv]; decide), if_pos (by rw [Looking.holdsOnly, only]; rfl), reader,
        hcount] at hr
      have hoffset : next = t.next + s.line.length + 1 := by
        rw [hnext, h.offset, htail]
        rfl
      rw [htail, List.nil_append, hoffset]
      cases hw : wholeLine r s.line t.records.length with
      | error stop => rw [hw] at hr; cases hr
      | ok line =>
        obtain ⟨whole, isTorn⟩ := line
        rw [hw] at hr
        dsimp only at hr
        cases ht : whole.foldlM k.take s with
        | error e => rw [ht] at hr; cases hr
        | ok s₂ =>
          rw [ht] at hr
          have took := takes_took keeps has hcount ht
          have tail' : s₂.tail = [] := took.tail.trans htail
          cases isTorn with
          | false =>
            have e : s₂ = s₁ := Except.ok.inj hr
            subst e
            obtain ⟨t', ht'⟩ := whole_of h hv htail hw took
            exact ⟨t', ht', rfl, tail', rfl⟩
          | true =>
            have e : k.torn s₂ (!whole.isEmpty) = s₁ := Except.ok.inj hr
            subst e
            obtain ⟨t', ht'⟩ := torn_of done h hv htail hw took
            exact ⟨t', ht', rfl, (torn_tail _ _).trans tail', rfl⟩
    · -- The rest of the tail's line: the record is the one visited.
      rw [if_pos hv] at hr
      split at hr
      · rename_i blank
        cases hr
        have hline : t.line r (s.tail ++ s.line) =
            some ⟨t.next + (s.tail ++ s.line).length + 1, t.records ++ [(record, t.next)], t.torn⟩ := by
          rw [Tally.line, wholeLine_blank lawful some_ blank hp]
          rfl
        have hoffset : next = t.next + (s.tail ++ s.line).length + 1 := by
          rw [hnext, h.offset, List.length_append]
          omega
        rw [hoffset]
        refine ⟨_, ended_of h ?_ hline ?_ h.places ?_ ?_ ?_ rfl rfl ?_ has, rfl, rfl, rfl⟩
        · exact fun hn => (List.mem_append.1 hn).elim htail h.unended
        · rw [h.hashed, List.append_assoc]
        · rw [hwait]
          exact fun _ hw => absurd hw List.not_mem_nil
        · rw [hwait]
          exact fun _ hw => nomatch hw
        · exact fun _ => hwait
        · rw [hcount, List.length_append]
          rfl
      · cases hr

/-- A byte of a line. -/
theorem byte_of {base : Nat} {lines : List Bytes} {t : Tally V} {s : Scan P} {byte : UInt8}
    (h : s.Of r Has base lines t) (hb : byte ≠ newline) :
    Scan.Of r Has base lines t { s with line := s.line ++ [byte] } := by
  refine ⟨h.whole, ?_, h.tallied, h.offset, h.onward, h.hashed, h.places, h.waits, h.first,
    h.passing, h.later, h.here⟩
  intro hn
  rcases List.mem_append.1 hn with hn | hn
  · exact h.unended hn
  · exact hb (List.mem_singleton.1 hn).symm

/-- **The bytes read in chunks**: the lines they end are read, and the last is begun. -/
theorem readChunk_of (lawful : r.Lawful) (keeps : Keeps k.visit Has) (reader : k.reader = r)
    (only : k.only = none) {base : Nat} (done : k.done = none ∨ k.done = some base) {chunk : Bytes}
    {lines : List Bytes} {t : Tally V} {s s' : Scan P} (h : s.Of r Has base lines t) {begins : Nat}
    (hbegins : begins = s.offset + s.tail.length + s.line.length)
    (hs : k.readChunk begins chunk s = .ok s') :
    ∃ lines' t', s'.Of r Has base lines' t' ∧
      joined newline lines' ++ s'.tail ++ s'.line =
        joined newline lines ++ s.tail ++ s.line ++ chunk ∧
      begins + chunk.length = s'.offset + s'.tail.length + s'.line.length := by
  induction chunk generalizing lines t s begins with
  | nil =>
    cases hs
    exact ⟨lines, t, h, (List.append_nil _).symm, hbegins⟩
  | cons byte chunk ih =>
    unfold Looking.readChunk at hs
    split at hs
    · rename_i hb
      cases he : k.endLine (begins + 1) s with
      | error e => rw [he] at hs; cases hs
      | ok s₁ =>
        rw [he] at hs
        obtain ⟨t₁, h₁, line₁, tail₁, offset₁⟩ :=
          endLine_of lawful keeps reader only done h (by rw [hbegins]) he
        obtain ⟨lines', t', h', whole, ends⟩ :=
          ih h₁ (by rw [offset₁, line₁, tail₁]; rfl) hs
        refine ⟨lines', t', h', ?_, ?_⟩
        · rw [whole, line₁, tail₁, joined_concat, hb]
          simp only [List.append_nil, List.append_assoc, List.singleton_append]
        · rw [← ends, List.length_cons]
          omega
    · rename_i hb
      obtain ⟨lines', t', h', whole, ends⟩ :=
        ih (byte_of h hb) (by rw [hbegins, List.length_append]; rfl) hs
      refine ⟨lines', t', h', ?_, ?_⟩
      · rw [whole]
        simp only [List.append_assoc, List.singleton_append]
      · rw [← ends, List.length_cons]
        omega

/-- Where the chunks are cut does not matter. -/
theorem readChunks_eq (k : Looking V P) (begins : Nat) (chunks : List Bytes) (s : Scan P) :
    k.readChunks begins chunks s = k.readChunk begins chunks.flatten s := by
  have append : ∀ (chunk more : Bytes) (begins : Nat) (s : Scan P),
      k.readChunk begins (chunk ++ more) s =
        (k.readChunk begins chunk s).bind (k.readChunk (begins + chunk.length) more) := by
    intro chunk more
    induction chunk with
    | nil => exact fun _ _ => rfl
    | cons byte chunk ih =>
      intro begins s
      have hlen : begins + 1 + chunk.length = begins + (byte :: chunk).length := by
        rw [List.length_cons]
        omega
      rw [List.cons_append, Looking.readChunk, Looking.readChunk]
      split
      · cases k.endLine (begins + 1) s with
        | error e => rfl
        | ok s₁ =>
          show k.readChunk (begins + 1) (chunk ++ more) s₁ = _
          rw [ih, hlen]
          rfl
      · rw [ih, hlen]
  induction chunks generalizing begins s with
  | nil => rfl
  | cons chunk chunks ih =>
    rw [Looking.readChunks, List.flatten_cons, append]
    cases k.readChunk begins chunk s with
    | error e => rfl
    | ok s₁ => exact ih _ _

/-! ## 3. Where a look stopped -/

/-- The unterminated record remembered, where there is one: white space alone follows it. -/
def Tailed (r : Reader V) (before all : Tally V) (seen : Seen) : Prop :=
  (seen.tail = [] ∧ all.records = before.records) ∨
    (newline ∉ seen.tail ∧ isBlank seen.tail = false ∧ ∃ record blank,
      seen.rest = seen.tail ++ blank ∧ isBlank blank = true ∧ newline ∉ blank ∧
        r.parse seen.tail = some record ∧
        all.records = before.records ++ [(record, before.next)])

/-- A look that read the bytes `v` stopped after the lines `lines`, its parser in `state`. -/
structure Seen.Of (r : Reader V) (Has : List (V × Nat) → P → Prop) (v : Bytes) (lines : List Bytes)
    (before all : Tally V) (seen : Seen) (state : P) : Prop where
  whole : ∀ line ∈ lines, newline ∉ line
  tallied : tallyLines r lines = some before
  read : seen.read = joined newline lines
  offset : seen.offset = before.next
  size : seen.size = v.length
  bytes : v = seen.read ++ seen.rest
  edge : seen.edge.length = min edgeBytes seen.offset
  passed : before.torn = seen.passedOver
  entire : tally r v = some all
  count : seen.records = all.records.length
  has : Has all.records state
  later : ∃ more, all.torn = before.torn ++ more ∧ ∀ place ∈ more, place = all.records.length
  stands : seen.tornSince = none → all.torn = before.torn
  first : seen.tornSince ≠ none → ∃ line rest, seen.rest = line ++ newline :: rest ∧ newline ∉ line ∧
    TornLine r line before.records.length
  tailed : Tailed r before all seen

/-- A look begins where the last stopped. -/
theorem start_of {v : Bytes} {lines : List Bytes} {before all : Tally V} {seen : Seen} {state : P}
    (h : Seen.Of r Has v lines before all seen state) :
    (start (some seen) state).Of r Has before.next lines before := by
  refine ⟨h.whole, List.not_mem_nil, h.tallied, h.offset, Nat.le_refl _, h.read, ?_,
    fun _ hw => absurd hw List.not_mem_nil, (fun _ hw => nomatch hw), fun _ => rfl,
    fun hw => absurd rfl hw, ?_⟩
  · show before.torn = seen.passedOver ++ []
    rw [List.append_nil, h.passed]
  · rcases h.tailed with ⟨none_, hrecords⟩ | ⟨htail, some_, record, blank, -, -, -, hp, hrecords⟩
    · refine .inl ⟨?_, none_, h.count.trans (congrArg List.length hrecords), hrecords ▸ h.has⟩
      show (!seen.tail.isEmpty) = false
      rw [none_]
      rfl
    · refine .inr ⟨?_, rfl, htail, some_, record, hp, ?_, hrecords ▸ h.has⟩
      · show (!seen.tail.isEmpty) = true
        cases hs : seen.tail with
        | nil => rw [hs] at some_; cases some_
        | cons _ _ => rfl
      · refine h.count.trans ?_
        rw [hrecords, List.length_append]
        rfl

theorem start_none {state : P} (has : Has [] state) :
    (start none state).Of r Has 0 [] Tally.none_ :=
  ⟨fun _ hl => absurd hl List.not_mem_nil, List.not_mem_nil, rfl, rfl, Nat.le_refl _, rfl, rfl,
    fun _ hw => absurd hw List.not_mem_nil, (fun _ hw => nomatch hw), fun _ => rfl,
    fun hw => absurd rfl hw, .inl ⟨rfl, rfl, rfl, has⟩⟩

/-- The file a look found, against the bytes it takes it for: the same from `base` on. -/
structure Agrees (file : File) (base : Nat) (v : Bytes) : Prop where
  size : file.bytes.length = v.length
  onward : ∀ n, base ≤ n → file.bytes.drop n = v.drop n

/-- What was known of a file's edge. -/
def Edged (seen : Option Seen) : Prop :=
  ∀ s, seen = some s → s.edge.length = min edgeBytes s.offset

theorem close_edge {file : File} {seen : Option Seen} (edged : Edged seen) {looked : Int}
    {s : Scan P} {unfinished : Option Unfinished}
    (inside : (close file seen looked s unfinished).offset ≤ file.bytes.length) :
    (close file seen looked s unfinished).edge.length =
      min edgeBytes (close file seen looked s unfinished).offset := by
  unfold close at inside ⊢
  dsimp only at inside ⊢
  generalize (s.waiting.head?.map Torn.begins).getD s.offset = offset at inside ⊢
  cases hk : seen.filter fun seen => seen.offset == offset with
  | none =>
    rw [Option.map_none, Option.getD_none, bytesAt, List.length_drop, List.length_take]
    omega
  | some old =>
    obtain ⟨hseen, hoffset⟩ := Option.filter_eq_some_iff.1 hk
    rw [Option.map_some, Option.getD_some, edged old hseen, beq_iff_eq.1 hoffset]

/-- A look closes where it stopped after the lines `lines`. -/
theorem close_of {v : Bytes} {lines : List Bytes} {before all : Tally V} {s : Scan P} {file : File}
    {seen : Option Seen} {base : Nat} (edged : Edged seen) (agrees : Agrees file base v)
    (looked : Int) (unfinished : Option Unfinished) (whole : ∀ line ∈ lines, newline ∉ line)
    (tallied : tallyLines r lines = some before) {rest : Bytes}
    (bytes : v = joined newline lines ++ rest) (onward : base ≤ before.next)
    (offset : (s.waiting.head?.map Torn.begins).getD s.offset = before.next)
    (read : (s.waiting.head?.map Torn.read).getD s.hashed = joined newline lines)
    (passed : before.torn = s.places) (entire : tally r v = some all)
    (count : s.records = all.records.length) (has : Has all.records s.state)
    (later : ∃ more, all.torn = before.torn ++ more ∧ ∀ place ∈ more, place = all.records.length)
    (stands : s.waiting = [] → all.torn = before.torn)
    (first : s.waiting ≠ [] → ∃ line more, rest = line ++ newline :: more ∧ newline ∉ line ∧
      TornLine r line before.records.length)
    (tailed : (s.tail = [] ∧ all.records = before.records) ∨
      (newline ∉ s.tail ∧ isBlank s.tail = false ∧ ∃ record blank, rest = s.tail ++ blank ∧
        isBlank blank = true ∧ newline ∉ blank ∧ r.parse s.tail = some record ∧
        all.records = before.records ++ [(record, before.next)])) :
    Seen.Of r Has v lines before all (close file seen looked s unfinished) s.state := by
  have hrest : (close file seen looked s unfinished).rest = rest := by
    unfold close
    dsimp only
    rw [offset, agrees.onward _ onward, bytes, tallyLines_next tallied, List.drop_left]
  have hread : (close file seen looked s unfinished).read = joined newline lines := read
  have hoffset : (close file seen looked s unfinished).offset = before.next := offset
  refine ⟨whole, tallied, hread, hoffset, agrees.size, ?_, close_edge edged ?_, passed, entire, count,
    has, later, fun none_ => stands ?_, fun some_ => ?_, ?_⟩
  · rw [hread, hrest, bytes]
  · rw [hoffset, agrees.size, bytes, tallyLines_next tallied, List.length_append]
    omega
  · exact List.head?_eq_none_iff.1 (Option.map_eq_none_iff.1 none_)
  · rw [hrest]
    exact first fun none_ => some_ (by rw [close, none_]; rfl)
  · rw [Tailed, hrest]
    exact tailed

/-- **A look that read all the bytes there are** stops at a place of them. -/
theorem finish_of (lawful : r.Lawful) (keeps : Keeps k.visit Has) (reader : k.reader = r)
    (only : k.only = none) {base : Nat} {lines : List Bytes} {t : Tally V} {s : Scan P} {file : File}
    {seen : Option Seen} {v : Bytes} (edged : Edged seen) (h : s.Of r Has base lines t)
    (bytes : v = joined newline lines ++ s.tail ++ s.line) (agrees : Agrees file base v)
    {looked : Int} {answer : Looked × P} (hs : finish k file seen looked s = .ok answer) :
    ∃ s' unfinished lines' before all, answer = (.read (close file seen looked s' unfinished), s'.state) ∧
      Seen.Of r Has v lines' before all (close file seen looked s' unfinished) s'.state := by
  unfold finish at hs
  rcases h.here with ⟨hv, htail, hcount, has⟩ | ⟨hv, hwait, htail, some_, record, hp, hcount, has⟩
  · rw [htail, List.append_nil] at bytes
    -- Nothing more to read: the look stops before the first torn line that waits.
    have closed : ∀ unfinished, t.last r s.line = some t → ∃ lines' before,
        Seen.Of r Has v lines' before t (close file seen looked s unfinished) s.state := by
      intro unfinished last
      have entire : tally r v = some t := by
        rw [bytes, tally_joined h.whole h.unended h.tallied, last]
      cases hwait : s.waiting with
      | nil =>
        have places : t.torn = s.places := by
          rw [h.places, hwait]
          exact List.append_nil _
        refine ⟨lines, t, close_of edged agrees looked unfinished h.whole h.tallied bytes h.onward ?_ ?_
          places entire hcount has ⟨[], (List.append_nil _).symm, ?_⟩ (fun _ => rfl)
          (fun some_ => absurd hwait some_) (.inl ⟨htail, rfl⟩)⟩
        · rw [hwait]
          exact h.offset
        · rw [hwait]
          exact h.hashed
        · exact fun _ hp => absurd hp List.not_mem_nil
      | cons first more =>
        obtain ⟨before, line, after, tallied, hlines, htorn, htallied, hrecords, hplaces, hbegins,
          hread, hbase⟩ := (h.first first (by rw [hwait]; rfl)).stopped
        have hbytes : v = joined newline before ++
            (line ++ newline :: (joined newline after ++ s.line)) := by
          rw [bytes, hlines, joined_append, joined_cons]
          simp only [List.append_assoc, List.cons_append]
        refine ⟨before, tallied, close_of edged agrees looked unfinished ?_ htallied hbytes hbase ?_ ?_
          hplaces entire hcount has ⟨s.waiting.map Torn.index, ?_, ?_⟩ ?_ (fun _ => ⟨line, _, rfl, ?_, htorn⟩)
          (.inl ⟨htail, hrecords.symm⟩)⟩
        · exact fun line hl => h.whole line (hlines ▸ List.mem_append_left _ hl)
        · rw [hwait]
          exact hbegins
        · rw [hwait]
          exact hread
        · rw [hplaces, h.places]
        · intro place hp
          obtain ⟨torn, ht, rfl⟩ := List.mem_map.1 hp
          exact h.waits torn ht
        · rw [hwait]
          exact fun none_ => absurd none_ (List.cons_ne_nil _ _)
        · exact h.whole line (hlines ▸ List.mem_append_right _ List.mem_cons_self)
    rw [if_neg (by rw [hv]; decide)] at hs
    split at hs
    · rename_i some_
      simp only [Bool.and_eq_true, Bool.not_eq_true'] at some_
      rw [reader, lawful.parse_lossy] at hs
      cases hp : r.parse s.line with
      | some record =>
        rw [hp] at hs
        dsimp only at hs
        cases ht : k.take s record with
        | error e => rw [ht] at hs; cases hs
        | ok s' =>
          rw [ht] at hs
          cases hs
          have took := take_took keeps has hcount ht
          have last : t.last r s.line =
              some { t with records := t.records ++ [(record, t.next)] } := by
            rw [Tally.last, some_.1, hp]
            rfl
          have entire : tally r v = some { t with records := t.records ++ [(record, t.next)] } := by
            rw [bytes, tally_joined h.whole h.unended h.tallied, last]
          have waiting : s'.waiting = [] := by
            rcases took.waiting with ⟨none_, -⟩ | ⟨-, waiting, -⟩
            · exact absurd none_ (List.cons_ne_nil _ _)
            · exact waiting
          have places : t.torn = s'.places := by
            rw [h.places, ← took.places, waiting]
            exact List.append_nil _
          have has' := took.has
          have count' := took.count
          rw [h.offset] at has' count'
          refine ⟨{ s' with tail := s.line }, none, lines, t, _, rfl,
            close_of edged agrees looked none h.whole h.tallied bytes h.onward ?_ ?_ places entire count'
              has' ⟨[], (List.append_nil _).symm, fun _ hp => absurd hp List.not_mem_nil⟩
              (fun _ => rfl) (fun some_ => absurd waiting some_)
              (.inr ⟨h.unended, some_.1, record, [], (List.append_nil _).symm, rfl, List.not_mem_nil,
                hp, rfl⟩)⟩
          · show (s'.waiting.head?.map Torn.begins).getD s'.offset = t.next
            rw [waiting]
            exact took.offset.trans h.offset
          · show (s'.waiting.head?.map Torn.read).getD s'.hashed = _
            rw [waiting]
            exact took.hashed.trans h.hashed
      | none =>
        rw [hp] at hs
        dsimp only at hs
        split at hs
        · cases hs
        · rename_i notJson
          cases hs
          obtain ⟨lines', before, closed⟩ := closed (some (stillUnfinished file seen looked)) (by
            rw [Tally.last, some_.1, hp]
            exact if_neg notJson)
          exact ⟨s, _, lines', before, t, rfl, closed⟩
    · rename_i blank
      cases hs
      rw [Looking.holdsOnly, only, Option.all_none, Bool.and_true, Bool.not_eq_true',
        Bool.not_eq_false] at blank
      obtain ⟨lines', before, closed⟩ := closed none (by rw [Tally.last, if_pos blank])
      exact ⟨s, none, lines', before, t, rfl, closed⟩
  · -- The tail's record, and white space after it.
    rw [if_pos hv] at hs
    split at hs
    · rename_i blank
      cases hs
      rw [List.append_assoc] at bytes
      have entire : tally r v = some { t with records := t.records ++ [(record, t.next)] } := by
        rw [bytes, tally_joined h.whole ?_ h.tallied, last_blank lawful some_ blank hp]
        exact fun hn => (List.mem_append.1 hn).elim htail h.unended
      have places : t.torn = s.places := by
        rw [h.places, hwait]
        exact List.append_nil _
      refine ⟨s, none, lines, t, _, rfl,
        close_of edged agrees looked none h.whole h.tallied bytes h.onward ?_ ?_ places entire ?_ has
          ⟨[], (List.append_nil _).symm, fun _ hp => absurd hp List.not_mem_nil⟩
          (fun _ => rfl) (fun some_ => absurd hwait some_)
          (.inr ⟨htail, some_, record, s.line, rfl, blank, h.unended, hp, rfl⟩)⟩
      · rw [hwait]
        exact h.offset
      · rw [hwait]
        exact h.hashed
      · rw [hcount, List.length_append]
        rfl
    · cases hs

/-! ## 4. A look -/

theorem holds_spec {file : File} {begins : Nat} {bytes : Bytes} (h : holds file begins bytes = true) :
    bytes = [] ∨ bytesAt file begins (begins + bytes.length) = bytes := by
  unfold holds at h
  rcases Bool.or_eq_true_iff.1 h with h | h
  · exact .inl (List.isEmpty_iff.1 h)
  · exact .inr (beq_iff_eq.1 h)

/-- A file that holds some bytes at a place goes on with them there. -/
theorem holds_drop {file : File} {begins : Nat} {bytes : Bytes}
    (h : holds file begins bytes = true) :
    file.bytes.drop begins = bytes ++ file.bytes.drop (begins + bytes.length) := by
  rcases holds_spec h with rfl | h
  · rfl
  · rw [← List.drop_drop]
    have taken : (file.bytes.drop begins).take bytes.length = bytes := by
      rw [bytesAt, List.drop_take, Nat.add_sub_cancel_left] at h
      exact h
    conv => lhs; rw [← List.take_append_drop bytes.length (file.bytes.drop begins), taken]

/-- The edge is there: so is every byte before it. -/
theorem holds_inside {file : File} {seen : Seen}
    (edge : seen.edge.length = min edgeBytes seen.offset)
    (h : holds file (seen.offset - seen.edge.length) seen.edge = true) :
    seen.offset ≤ file.bytes.length := by
  rcases holds_spec h with none_ | held
  · rw [none_] at edge
    have : edgeBytes = 1024 := rfl
    have : ([] : Bytes).length = 0 := rfl
    omega
  · have := congrArg List.length held
    rw [bytesAt, List.length_drop, List.length_take] at this
    have : edgeBytes = 1024 := rfl
    omega

/-- A look that reads on found the edge and the tail. -/
theorem check_none {file : File} {seen : Seen} {looked : Int} (h : check file seen looked = none) :
    file.identity = seen.identity ∧
      holds file (seen.offset - seen.edge.length) seen.edge = true ∧
      holds file seen.offset seen.tail = true := by
  unfold check at h
  split at h
  · cases h
  · rename_i identity
    split at h
    · cases h
    · split at h
      · cases h
      · rename_i held
        rw [Bool.or_eq_true, not_or, Bool.not_eq_true', Bool.not_eq_true', Bool.not_eq_false,
          Bool.not_eq_false] at held
        exact ⟨Classical.not_not.1 identity, held⟩

/-- Where a look begins: from the start, into a state that visited nothing, or at a place of the bytes
    read so far. -/
def Begins (r : Reader V) (Has : List (V × Nat) → P → Prop) (seen : Option Seen) (state : P) : Prop :=
  match seen with
  | none => Has [] state
  | some seen => ∃ v lines before all, Seen.Of r Has v lines before all seen state

/-- The bytes a look takes the file for: what was read of it, and what it holds after that. -/
def takenFor (file : File) (seen : Option Seen) : Bytes :=
  match seen with
  | none => file.bytes
  | some seen => seen.read ++ file.bytes.drop seen.offset

/-- **A look that reads on from a place of the bytes read so far** stops at a place of those bytes and
    the ones the file holds after them, or answers that it is not the file. -/
theorem readOnWith_read (lawful : r.Lawful) {visit : Visit V P} (keeps : Keeps visit Has)
    (seen : Option Seen) {cuts : List Nat} {file : File} {looked : Int} {state : P}
    (begins : Begins r Has seen state)
    (check_ : (seen.bind fun seen => check file seen looked) = none) {answer : Looked × P}
    (h : readOnWith r visit none cuts file seen looked state = .ok answer) :
    answer = (.notTheFile, state) ∨ ∃ s unfinished lines before all,
      answer = (.read (close file seen looked s unfinished), s.state) ∧
        Seen.Of r Has (takenFor file seen) lines before all (close file seen looked s unfinished)
          s.state := by
  unfold readOnWith at h
  rw [check_] at h
  dsimp only at h
  have done : ∀ base, (∀ s, seen = some s → s.offset = base) →
      doneWaiting seen looked = none ∨ doneWaiting seen looked = some base := by
    intro base hbase
    cases seen with
    | none => exact .inl rfl
    | some s =>
      by_cases hw : s.tornSince.any (waited looked) = true
      · exact .inr ((if_pos hw).trans (congrArg some (hbase s rfl)))
      · exact .inl (if_neg hw)
  -- Where the look begins, and what is left to read from there.
  obtain ⟨base, lines, t, hof, edged, agrees, hbegins, hdone⟩ : ∃ base lines t,
      (start seen state).Of r Has base lines t ∧ Edged seen ∧ Agrees file base (takenFor file seen) ∧
        takenFor file seen = joined newline lines ++ (start seen state).tail ++
          file.bytes.drop ((start seen state).offset + (start seen state).tail.length) ∧
        (doneWaiting seen looked = none ∨ doneWaiting seen looked = some base) := by
    cases seen with
    | none =>
      exact ⟨0, [], _, start_none begins, (fun _ hs => nomatch hs), ⟨rfl, fun _ _ => rfl⟩, rfl, .inl rfl⟩
    | some seen =>
      obtain ⟨v, lines, before, all, hof⟩ := begins
      obtain ⟨-, edge, tail⟩ := check_none check_
      have inside := holds_inside hof.edge edge
      have hread : seen.read.length = seen.offset := by
        rw [hof.read, hof.offset, tallyLines_next hof.tallied]
      refine ⟨before.next, lines, before, start_of hof, fun s hs => Option.some.inj hs ▸ hof.edge,
        ⟨?_, ?_⟩, ?_, done _ fun s hs => Option.some.inj hs ▸ hof.offset⟩
      · show _ = (seen.read ++ file.bytes.drop seen.offset).length
        rw [List.length_append, List.length_drop, hread]
        omega
      · intro n hn
        rw [← hof.offset] at hn
        show _ = (seen.read ++ file.bytes.drop seen.offset).drop n
        have past : seen.read.drop n = [] := List.drop_of_length_le (by omega)
        rw [List.drop_append, past, List.nil_append, List.drop_drop, hread, Nat.add_sub_of_le hn]
      · show seen.read ++ file.bytes.drop seen.offset = _
        rw [hof.read, holds_drop tail, List.append_assoc]
        rfl
  rw [readChunks_eq, Lib.Lines.pieces_flatten] at h
  generalize hk : (⟨r, visit, none, doneWaiting seen looked⟩ : Looking V P) = k at h
  have keeps' : Keeps k.visit Has := hk ▸ keeps
  have reader : k.reader = r := hk ▸ rfl
  have only : k.only = none := hk ▸ rfl
  have done' : k.done = none ∨ k.done = some base := hk ▸ hdone
  cases hc : k.readChunk ((start seen state).offset + (start seen state).tail.length)
      (file.bytes.drop ((start seen state).offset + (start seen state).tail.length))
      (start seen state) with
  | error e =>
    rw [hc] at h
    cases e with
    | notTheFile => exact .inl (Except.ok.inj h).symm
    | stop stop => cases h
  | ok s =>
    rw [hc] at h
    obtain ⟨lines', t', hof', whole, -⟩ :=
      readChunk_of lawful keeps' reader only done' hof (by cases seen <;> rfl) hc
    have bytes : takenFor file seen = joined newline lines' ++ s.tail ++ s.line := by
      rw [whole, hbegins]
      cases seen <;> simp [start]
    dsimp only [bind, Except.bind] at h
    cases hf : finish k file seen looked s with
    | error e =>
      rw [hf] at h
      cases e with
      | notTheFile => exact .inl (Except.ok.inj h).symm
      | stop stop => cases h
    | ok answer' =>
      rw [hf] at h
      cases h
      exact .inr (finish_of lawful keeps' reader only edged hof' bytes agrees hf)

/-- A look that has nothing to know of the file before it reads it. -/
theorem readOnWith_check {visit : Visit V P} {cuts : List Nat} {file : File} {seen : Seen}
    {looked : Int} {state : P} {answer : Looked} (h : check file seen looked = some answer) :
    readOnWith r visit none cuts file (some seen) looked state = .ok (answer, state) := by
  unfold readOnWith
  rw [Option.bind_some, h]

/-! ## 5. A reader of digits -/

/-- A line that is one digit, white space around it. -/
def digit (line : Bytes) : Option UInt8 :=
  match (line.reverse.dropWhile isJsonSpace).reverse.dropWhile isJsonSpace with
  | [byte] => if 48 ≤ byte ∧ byte ≤ 57 then some byte else none
  | _ => none

/-- Reads JSON of one digit as JSON is read, and no other. -/
def digits : Reader UInt8 := ⟨digit, fun line => (digit line).isSome, fun _ => [], id⟩

theorem digits_lawful : digits.Lawful where
  parse_blank line blank hb := by
    have trimmed : (line ++ blank).reverse.dropWhile isJsonSpace =
        line.reverse.dropWhile isJsonSpace := by
      rw [List.reverse_append]
      refine List.dropWhile_append_of_pos fun byte hbyte => ?_
      exact List.all_eq_true.1 hb byte (List.mem_reverse.1 hbyte)
    show digit (line ++ blank) = digit line
    rw [digit, trimmed]
    rfl
  parse_lossy _ := rfl

end Harness
end ConsensFlow
