/-
  File:      ConsensFlow/Harness/Onward.lean
  Subject:   WHAT A LOOK THAT READS ON KEEPS AND HOW IT FAILS, line by line.

  * `Fails` -- what every failure of a look satisfies: **`readOnWith_fails`**, and `notTheFile_only`,
    the one way it can say that what it reads on in is another file;
  * `Grows` -- what was passed over stays so: `readOnWith_grows`;
  * **`readOnWith_stays`** -- a torn line that waits goes on waiting, from when it first did, until a
    record comes or its wait is over.
-/
import ConsensFlow.Harness.Followed

namespace ConsensFlow
namespace Harness

variable {V P : Type} {k : Looking V P}

/-! ## 1. How a look fails -/

/-- Every failure the lines or the parser make. -/
structure Fails (k : Looking V P) (Q : Broke → Prop) : Prop where
  hold : ∀ index, Q (.stop (cannotHold index))
  visit : ∀ state record index begins stop, k.visit state record index begins = .error stop →
    Q (.stop stop)

variable {Q : Broke → Prop} {s s' : Scan P} {e : Broke}

theorem wholeLine_error {r : Reader V} {raw : Bytes} {index : Nat} {stop : Stop}
    (h : wholeLine r raw index = .error stop) : stop = cannotHold index := by
  unfold wholeLine at h
  split at h
  · cases h
  · split at h
    · cases h
    · split at h
      · cases h
        rfl
      · cases h

theorem take_fails (fails : Fails k Q) {record : V} (h : k.take s record = .error e) : Q e := by
  unfold Looking.take at h
  split at h
  · rename_i stop hv
    cases h
    exact fails.visit _ _ _ _ _ hv
  · cases h

theorem takes_fails (fails : Fails k Q) {whole : List V} (h : whole.foldlM k.take s = .error e) :
    Q e := by
  induction whole generalizing s with
  | nil => cases h
  | cons record whole ih =>
    rw [List.foldlM_cons] at h
    cases ht : k.take s record with
    | error e' =>
      rw [ht] at h
      cases h
      exact take_fails fails ht
    | ok s₁ =>
      rw [ht] at h
      exact ih h

/-- More than white space after a record visited. -/
def Overran (s : Scan P) (rest : Bytes) (e : Broke) : Prop :=
  e = .notTheFile ∧ s.visited = true ∧ isBlank (s.line ++ rest) = false

theorem endLine_fails (fails : Fails k Q) {next : Nat} (h : k.endLine next s = .error e) :
    Q e ∨ Overran s [] e := by
  unfold Looking.endLine at h
  cases hr : k.lineRead s with
  | ok s₁ => rw [hr] at h; cases h
  | error e' =>
    rw [hr] at h
    cases h
    unfold Looking.lineRead at hr
    split at hr
    · rename_i hv
      split at hr
      · cases hr
      · rename_i some_
        cases hr
        refine .inr ⟨rfl, hv, ?_⟩
        rw [List.append_nil]
        exact Bool.not_eq_true _ ▸ some_
    · split at hr
      · cases hw : wholeLine k.reader s.line s.records with
        | error stop =>
          rw [hw] at hr
          cases hr
          rw [wholeLine_error hw]
          exact .inl (fails.hold _)
        | ok line =>
          obtain ⟨whole, isTorn⟩ := line
          rw [hw] at hr
          dsimp only at hr
          cases ht : whole.foldlM k.take s with
          | error e' =>
            rw [ht] at hr
            cases hr
            exact .inl (takes_fails fails ht)
          | ok s₁ => rw [ht] at hr; cases hr
      · cases hr

/-! ## 2. What a line does -/

/-- A look further on: what was passed over stays so, and the records visited too. -/
structure Grows (s s' : Scan P) : Prop where
  places : s.places <+: s'.places
  records : s.records ≤ s'.records
  visited : s'.visited = true → s.visited = true

theorem Grows.refl (s : Scan P) : Grows s s := ⟨List.prefix_rfl, Nat.le_refl _, id⟩

theorem Grows.trans {s₁ s₂ s₃ : Scan P} (h : Grows s₁ s₂) (h' : Grows s₂ s₃) : Grows s₁ s₃ :=
  ⟨h.places.trans h'.places, Nat.le_trans h.records h'.records, fun hv => h.visited (h'.visited hv)⟩

theorem take_grows {record : V} (h : k.take s record = .ok s') :
    Grows s s' ∧ s.records < s'.records := by
  unfold Looking.take at h
  split at h
  · cases h
  · cases h
    exact ⟨⟨List.prefix_append _ _, Nat.le_succ _, id⟩, Nat.lt_succ_self _⟩

theorem takes_grows {whole : List V} (h : whole.foldlM k.take s = .ok s') :
    Grows s s' ∧ (s' = s ∧ whole = [] ∨ s.records < s'.records) := by
  induction whole generalizing s with
  | nil =>
    cases h
    exact ⟨.refl _, .inl ⟨rfl, rfl⟩⟩
  | cons record whole ih =>
    rw [List.foldlM_cons] at h
    cases ht : k.take s record with
    | error e => rw [ht] at h; cases h
    | ok s₁ =>
      rw [ht] at h
      obtain ⟨first, more⟩ := take_grows ht
      obtain ⟨rest, -⟩ := ih h
      exact ⟨first.trans rest, .inr (Nat.lt_of_lt_of_le more rest.records)⟩

theorem torn_grows (k : Looking V P) (s : Scan P) (led : Bool) :
    Grows s (k.torn s led) ∧ (k.torn s led).records = s.records := by
  unfold Looking.torn
  dsimp only
  split
  · exact ⟨⟨List.prefix_append _ _, Nat.le_refl _, id⟩, rfl⟩
  · exact ⟨⟨List.prefix_rfl, Nat.le_refl _, id⟩, rfl⟩

/-- What a line's bytes can do. -/
theorem lineRead_cases (h : k.lineRead s = .ok s') :
    (s.visited = true ∧ isBlank s.line = true ∧
      s' = { s with visited := false, hashed := s.hashed ++ s.tail, tail := [] }) ∨
    (s.visited = false ∧ k.holdsOnly s.line = false ∧ s' = s) ∨
    (s.visited = false ∧ ∃ whole isTorn s₁, wholeLine k.reader s.line s.records = .ok (whole, isTorn) ∧
      whole.foldlM k.take s = .ok s₁ ∧ s' = if isTorn then k.torn s₁ (!whole.isEmpty) else s₁) := by
  unfold Looking.lineRead at h
  split at h
  · rename_i hv
    split at h
    · rename_i blank
      cases h
      exact .inl ⟨hv, blank, rfl⟩
    · cases h
  · rename_i hv
    have hv : s.visited = false := Bool.not_eq_true _ ▸ hv
    split at h
    · cases hw : wholeLine k.reader s.line s.records with
      | error stop => rw [hw] at h; cases h
      | ok line =>
        obtain ⟨whole, isTorn⟩ := line
        rw [hw] at h
        dsimp only at h
        cases ht : whole.foldlM k.take s with
        | error e => rw [ht] at h; cases h
        | ok s₁ =>
          rw [ht] at h
          cases h
          exact .inr (.inr ⟨hv, whole, isTorn, s₁, rfl, ht, rfl⟩)
    · rename_i only
      cases h
      exact .inr (.inl ⟨hv, Bool.not_eq_true _ ▸ only, rfl⟩)

theorem endLine_ok {next : Nat} (h : k.endLine next s = .ok s') :
    ∃ s₁, k.lineRead s = .ok s₁ ∧
      s' = { s₁ with hashed := s₁.hashed ++ s₁.line ++ [newline], line := [], offset := next } := by
  unfold Looking.endLine at h
  cases hr : k.lineRead s with
  | error e => rw [hr] at h; cases h
  | ok s₁ =>
    rw [hr] at h
    cases h
    exact ⟨s₁, rfl, rfl⟩

theorem endLine_grows {next : Nat} (h : k.endLine next s = .ok s') :
    Grows s s' ∧ s'.visited = false := by
  obtain ⟨s₁, hr, rfl⟩ := endLine_ok h
  rcases lineRead_cases hr with ⟨hv, -, rfl⟩ | ⟨hv, -, rfl⟩ | ⟨hv, whole, isTorn, s₂, -, ht, rfl⟩
  · exact ⟨⟨List.prefix_rfl, Nat.le_refl _, fun _ => hv⟩, rfl⟩
  · exact ⟨⟨List.prefix_rfl, Nat.le_refl _, id⟩, hv⟩
  · have taken := (takes_grows ht).1
    have torn := (torn_grows k s₂ (!whole.isEmpty)).1
    have grows : Grows s (if isTorn then k.torn s₂ (!whole.isEmpty) else s₂) := by
      split
      · exact taken.trans torn
      · exact taken
    refine ⟨⟨grows.places, grows.records, grows.visited⟩, ?_⟩
    cases hv' : (if isTorn then k.torn s₂ (!whole.isEmpty) else s₂).visited with
    | false => rfl
    | true => exact absurd (hv.symm.trans (grows.visited hv')) (by decide)

/-! ## 3. The bytes read -/

theorem readChunk_grows {chunk : Bytes} {begins : Nat} (h : k.readChunk begins chunk s = .ok s') :
    Grows s s' := by
  induction chunk generalizing begins s with
  | nil =>
    cases h
    exact .refl _
  | cons byte chunk ih =>
    unfold Looking.readChunk at h
    split at h
    · cases he : k.endLine (begins + 1) s with
      | error e => rw [he] at h; cases h
      | ok s₁ =>
        rw [he] at h
        exact (endLine_grows he).1.trans (ih h)
    · have rest := ih h
      exact ⟨rest.places, rest.records, rest.visited⟩

theorem readChunk_fails (fails : Fails k Q) {chunk : Bytes} {begins : Nat}
    (h : k.readChunk begins chunk s = .error e) :
    Q e ∨ Overran s (chunk.takeWhile (· ≠ newline)) e := by
  induction chunk generalizing begins s with
  | nil => cases h
  | cons byte chunk ih =>
    unfold Looking.readChunk at h
    split at h
    · rename_i hb
      have ends : (byte :: chunk).takeWhile (· ≠ newline) = [] := by
        rw [hb]
        rfl
      cases he : k.endLine (begins + 1) s with
      | error e' =>
        rw [he] at h
        cases h
        rw [ends]
        exact endLine_fails fails he
      | ok s₁ =>
        rw [he] at h
        rcases ih h with q | ⟨-, visited, -⟩
        · exact .inl q
        · rw [(endLine_grows he).2] at visited
          cases visited
    · rename_i hb
      have goes : (byte :: chunk).takeWhile (· ≠ newline) =
          byte :: chunk.takeWhile (· ≠ newline) := by
        rw [List.takeWhile_cons, if_pos (decide_eq_true hb)]
      rcases ih h with q | ⟨he, visited, some_⟩
      · exact .inl q
      · refine .inr ⟨he, visited, ?_⟩
        rw [goes]
        rw [List.append_assoc] at some_
        exact some_

/-- A look that still reads the rest of the tail's line met no newline. -/
theorem readChunk_visited {chunk : Bytes} {begins : Nat} (h : k.readChunk begins chunk s = .ok s')
    (visited : s'.visited = true) :
    s'.line = s.line ++ chunk.takeWhile (· ≠ newline) ∧ s.visited = true := by
  induction chunk generalizing begins s with
  | nil =>
    cases h
    exact ⟨(List.append_nil _).symm, visited⟩
  | cons byte chunk ih =>
    unfold Looking.readChunk at h
    split at h
    · cases he : k.endLine (begins + 1) s with
      | error e => rw [he] at h; cases h
      | ok s₁ =>
        rw [he] at h
        have := (ih h).2
        rw [(endLine_grows he).2] at this
        cases this
    · rename_i hb
      obtain ⟨line, hv⟩ := ih h
      refine ⟨?_, hv⟩
      rw [line, List.takeWhile_cons, if_pos (decide_eq_true hb), List.append_assoc]
      rfl

/-! ## 4. A look -/

theorem finish_fails (fails : Fails k Q) {file : File} {seen : Option Seen} {looked : Int}
    (h : finish k file seen looked s = .error e) : Q e ∨ Overran s [] e := by
  unfold finish at h
  split at h
  · rename_i hv
    split at h
    · cases h
    · rename_i some_
      cases h
      refine .inr ⟨rfl, hv, ?_⟩
      rw [List.append_nil]
      exact Bool.not_eq_true _ ▸ some_
  · split at h
    · cases hp : k.reader.parse (k.reader.lossy s.line) with
      | some record =>
        rw [hp] at h
        dsimp only at h
        cases ht : k.take s record with
        | error e' =>
          rw [ht] at h
          cases h
          exact .inl (take_fails fails ht)
        | ok s₁ => rw [ht] at h; cases h
      | none =>
        rw [hp] at h
        dsimp only at h
        split at h
        · cases h
          exact .inl (fails.hold _)
        · cases h
    · cases h

theorem finish_ok {file : File} {seen : Option Seen} {looked : Int} {answer : Looked × P}
    (h : finish k file seen looked s = .ok answer) :
    ∃ s' unfinished, answer = (.read (close file seen looked s' unfinished), s'.state) ∧ Grows s s' ∧
      (s.records < s'.records ∨ s' = s) := by
  unfold finish at h
  split at h
  · split at h
    · cases h
      exact ⟨s, none, rfl, .refl s, .inr rfl⟩
    · cases h
  · split at h
    · cases hp : k.reader.parse (k.reader.lossy s.line) with
      | some record =>
        rw [hp] at h
        dsimp only at h
        cases ht : k.take s record with
        | error e => rw [ht] at h; cases h
        | ok s₁ =>
          rw [ht] at h
          cases h
          obtain ⟨grows, more⟩ := take_grows ht
          exact ⟨{ s₁ with tail := s.line }, none, rfl, ⟨grows.places, grows.records, grows.visited⟩,
            .inl more⟩
      | none =>
        rw [hp] at h
        dsimp only at h
        split at h
        · cases h
        · cases h
          exact ⟨s, some _, rfl, .refl s, .inr rfl⟩
    · cases h
      exact ⟨s, none, rfl, .refl s, .inr rfl⟩

/-- A look that reads on, all its bytes at once. -/
theorem readOnWith_eq {r : Reader V} {visit : Visit V P} {only : Option Bytes} {cuts : List Nat}
    {file : File} (seen : Option Seen) {looked : Int} {state : P}
    (check_ : (seen.bind fun seen => check file seen looked) = none) {k : Looking V P}
    (hk : k = ⟨r, visit, only, doneWaiting seen looked⟩) (begins : Nat)
    (hb : begins = (start seen state).offset + (start seen state).tail.length) :
    readOnWith r visit only cuts file seen looked state =
      match (k.readChunk begins (file.bytes.drop begins) (start seen state)).bind
        (finish k file seen looked) with
      | .ok answer => .ok answer
      | .error .notTheFile => .ok (.notTheFile, state)
      | .error (.stop stop) => .error stop := by
  subst hk hb
  unfold readOnWith
  rw [check_, ← Lib.Lines.pieces_flatten cuts (file.bytes.drop _), ← readChunks_eq]
  rfl

/-- Reading the bytes, or what is done at their end, fails. -/
theorem reading_fails (fails : Fails k Q) {begins : Nat} {bytes : Bytes} {file : File}
    {seen : Option Seen} {looked : Int}
    (h : (k.readChunk begins bytes s).bind (finish k file seen looked) = .error e) :
    Q e ∨ Overran s (bytes.takeWhile (· ≠ newline)) e := by
  cases hc : k.readChunk begins bytes s with
  | error e' =>
    rw [hc] at h
    cases h
    exact readChunk_fails fails hc
  | ok s₁ =>
    rw [hc] at h
    rcases finish_fails fails h with q | ⟨he, visited, some_⟩
    · exact .inl q
    · obtain ⟨line, visited⟩ := readChunk_visited hc visited
      refine .inr ⟨he, visited, ?_⟩
      rw [← line, ← List.append_nil s₁.line]
      exact some_

/-- **A look fails as its lines and its parser do.** -/
theorem readOnWith_fails {r : Reader V} {visit : Visit V P} {only : Option Bytes} {cuts : List Nat}
    {file : File} {seen : Option Seen} {looked : Int} {state : P} {stop : Stop} {Q : Stop → Prop}
    (hold : ∀ index, Q (cannotHold index))
    (visits : ∀ state record index begins stop, visit state record index begins = .error stop → Q stop)
    (h : readOnWith r visit only cuts file seen looked state = .error stop) : Q stop := by
  cases hc : seen.bind fun seen => check file seen looked with
  | some answer =>
    unfold readOnWith at h
    rw [hc] at h
    cases h
  | none =>
    rw [readOnWith_eq seen hc rfl _ rfl] at h
    generalize hk : (⟨r, visit, only, doneWaiting seen looked⟩ : Looking V P) = k at h
    have fails : Fails k (fun e => ∀ stop, e = .stop stop → Q stop) := by
      subst hk
      refine ⟨fun index stop e => ?_, fun s v i o stop hv stop' e => ?_⟩
      · cases e
        exact hold index
      · cases e
        exact visits s v i o _ hv
    cases hb : (k.readChunk ((start seen state).offset + (start seen state).tail.length)
        (file.bytes.drop ((start seen state).offset + (start seen state).tail.length))
        (start seen state)).bind (finish k file seen looked) with
    | ok answer => rw [hb] at h; cases h
    | error e =>
      rw [hb] at h
      cases e with
      | notTheFile => cases h
      | stop stop' =>
        cases h
        rcases reading_fails fails hb with q | ⟨he, -⟩
        · exact q _ rfl
        · cases he

/-- **The one way a look that reads on finds another file**: the record remembered goes on with more
    than white space. -/
theorem notTheFile_only {r : Reader V} {visit : Visit V P} {only : Option Bytes} {cuts : List Nat}
    {file : File} {seen : Option Seen} {looked : Int} {state state' : P}
    (check_ : (seen.bind fun seen => check file seen looked) = none)
    (h : readOnWith r visit only cuts file seen looked state = .ok (.notTheFile, state')) :
    ∃ s, seen = some s ∧ s.tail ≠ [] ∧
      isBlank ((file.bytes.drop (s.offset + s.tail.length)).takeWhile (· ≠ newline)) = false := by
  rw [readOnWith_eq seen check_ rfl _ rfl] at h
  generalize hk : (⟨r, visit, only, doneWaiting seen looked⟩ : Looking V P) = k at h
  have fails : Fails k (· ≠ .notTheFile) := by
    constructor <;> intros <;> exact Broke.noConfusion
  cases hb : (k.readChunk ((start seen state).offset + (start seen state).tail.length)
      (file.bytes.drop ((start seen state).offset + (start seen state).tail.length))
      (start seen state)).bind (finish k file seen looked) with
  | ok answer =>
    rw [hb] at h
    cases h
    cases hc : k.readChunk ((start seen state).offset + (start seen state).tail.length)
        (file.bytes.drop ((start seen state).offset + (start seen state).tail.length))
        (start seen state) with
    | error e => rw [hc] at hb; cases hb
    | ok s₁ =>
      rw [hc] at hb
      obtain ⟨_, _, e, -⟩ := finish_ok hb
      cases e
  | error e =>
    rcases reading_fails fails hb with q | ⟨-, visited, some_⟩
    · cases e with
      | notTheFile => exact absurd rfl q
      | stop stop => rw [hb] at h; cases h
    · cases seen with
      | none => cases visited
      | some seen =>
        refine ⟨seen, rfl, ?_, some_⟩
        intro none_
        have visited : (!seen.tail.isEmpty) = true := visited
        rw [none_] at visited
        cases visited

/-- **What was passed over stays so**, and the records visited too. -/
theorem readOnWith_grows {r : Reader V} {visit : Visit V P} {only : Option Bytes} {cuts : List Nat}
    {file : File} {seen seen' : Seen} {looked : Int} {state state' : P}
    (check_ : check file seen looked = none)
    (h : readOnWith r visit only cuts file (some seen) looked state = .ok (.read seen', state')) :
    seen.passedOver <+: seen'.passedOver ∧ seen.records ≤ seen'.records := by
  rw [readOnWith_eq (some seen) check_ rfl _ rfl] at h
  generalize (⟨r, visit, only, doneWaiting (some seen) looked⟩ : Looking V P) = k at h
  cases hc : k.readChunk ((start (some seen) state).offset + (start (some seen) state).tail.length)
      (file.bytes.drop
        ((start (some seen) state).offset + (start (some seen) state).tail.length))
      (start (some seen) state) with
  | error e =>
    rw [hc] at h
    cases e <;> cases h
  | ok s₁ =>
    rw [hc] at h
    cases hf : finish k file (some seen) looked s₁ with
    | error e =>
      rw [show (Except.ok s₁).bind (finish k file (some seen) looked) = _ from hf] at h
      cases e <;> cases h
    | ok answer =>
      rw [show (Except.ok s₁).bind (finish k file (some seen) looked) = _ from hf] at h
      obtain ⟨s', unfinished, e, grows, -⟩ := finish_ok hf
      subst e
      cases h
      have grows := (readChunk_grows hc).trans grows
      exact ⟨grows.places, grows.records⟩

/-! ## 5. A torn line that waits -/

/-- The torn line at `base` where the look began, no record visited since: passed over where its wait
    is over, and else still the first that waits. -/
def Stays (k : Looking V P) (base count : Nat) (s : Scan P) : Prop :=
  s.records = count →
    if k.done = some base then s.passing = true ∧ s.waiting = []
    else ∃ torn, s.waiting.head? = some torn ∧ torn.begins = base

variable {base count : Nat}

theorem torn_stays (h : Stays k base count s) : Stays k base count (k.torn s false) := by
  intro records
  have records : s.records = count := (torn_grows k s false).2 ▸ records
  have h := h records
  unfold Looking.torn
  dsimp only
  rw [Bool.false_or]
  split
  · rename_i done
    rw [if_pos done] at h
    rw [h.1, Bool.true_or, if_pos rfl]
    exact ⟨rfl, h.2⟩
  · rename_i notDone
    rw [if_neg notDone] at h
    obtain ⟨torn, head, begins⟩ := h
    refine ⟨torn, ?_, begins⟩
    split
    · exact head
    · show (s.waiting ++ _).head? = _
      rw [List.head?_append, head]
      rfl

theorem endLine_stays {next : Nat} (h : Stays k base count s) (onward : count ≤ s.records)
    (hs : k.endLine next s = .ok s') : Stays k base count s' := by
  obtain ⟨s₁, hr, rfl⟩ := endLine_ok hs
  rcases lineRead_cases hr with ⟨-, -, rfl⟩ | ⟨-, -, rfl⟩ | ⟨-, whole, isTorn, s₂, -, ht, rfl⟩
  · exact h
  · exact h
  · rcases (takes_grows ht).2 with ⟨rfl, rfl⟩ | more
    · cases isTorn with
      | false => exact h
      | true => exact torn_stays h
    · intro records
      have same : (if isTorn then k.torn s₂ (!whole.isEmpty) else s₂).records = s₂.records := by
        split
        · exact (torn_grows k s₂ _).2
        · rfl
      have records : (if isTorn then k.torn s₂ (!whole.isEmpty) else s₂).records = count := records
      omega

theorem readChunk_stays {chunk : Bytes} {begins : Nat} (h : Stays k base count s)
    (onward : count ≤ s.records) (hs : k.readChunk begins chunk s = .ok s') :
    Stays k base count s' := by
  induction chunk generalizing begins s with
  | nil =>
    cases hs
    exact h
  | cons byte chunk ih =>
    unfold Looking.readChunk at hs
    split at hs
    · cases he : k.endLine (begins + 1) s with
      | error e => rw [he] at hs; cases hs
      | ok s₁ =>
        rw [he] at hs
        exact ih (endLine_stays h onward he)
          (Nat.le_trans onward (endLine_grows he).1.records) hs
    · exact ih (s := { s with line := s.line ++ [byte] }) h onward hs

/-- The bytes of a line, to its newline. -/
theorem readChunk_line {line more : Bytes} (h : newline ∉ line) (begins : Nat) (s : Scan P) :
    k.readChunk begins (line ++ newline :: more) s =
      (k.endLine (begins + line.length + 1) { s with line := s.line ++ line }).bind
        (k.readChunk (begins + line.length + 1) more) := by
  induction line generalizing begins s with
  | nil =>
    rw [List.nil_append, Looking.readChunk, if_pos rfl, List.append_nil]
    rfl
  | cons byte line ih =>
    rw [List.mem_cons, not_or] at h
    rw [List.cons_append, Looking.readChunk, if_neg (Ne.symm h.1), ih h.2, List.append_assoc,
      List.length_cons, Nat.add_right_comm begins 1, Nat.add_assoc begins line.length 1]
    rfl

/-- **A torn line that waits goes on waiting, from when it first did**, until a record comes or its
    wait is over. -/
theorem readOnWith_stays {r : Reader V} {visit : Visit V P} {cuts : List Nat} {file : File}
    {seen seen' : Seen} {looked since : Int} {state state' : P}
    (check_ : check file seen looked = none) (tail : seen.tail = [])
    (torn : seen.tornSince = some since) {line more : Bytes}
    (rest : file.bytes.drop seen.offset = line ++ newline :: more) (hline : newline ∉ line)
    (tornLine : TornLine r line seen.records)
    (h : readOnWith r visit none cuts file (some seen) looked state = .ok (.read seen', state'))
    (records : seen'.records = seen.records) :
    seen'.tornSince = if waited looked since then none else some since := by
  have done : doneWaiting (some seen) looked = if waited looked since then some seen.offset else none := by
    rw [doneWaiting, Option.bind_some, torn, Option.any_some]
  have none_ : (start (some seen) state).tail = [] := tail
  rw [readOnWith_eq (some seen) check_ rfl seen.offset (by rw [none_]; rfl),
    rest, readChunk_line hline] at h
  generalize hk : (⟨r, visit, none, doneWaiting (some seen) looked⟩ : Looking V P) = k at h
  have reader : k.reader = r := hk ▸ rfl
  have only : k.only = none := hk ▸ rfl
  have hdone : k.done = doneWaiting (some seen) looked := hk ▸ rfl
  cases he : k.endLine (seen.offset + line.length + 1)
      { start (some seen) state with line := (start (some seen) state).line ++ line } with
  | error e =>
    rw [he] at h
    cases e <;> cases h
  | ok s₁ =>
    rw [he] at h
    -- The line met first: nothing was read since the look began.
    have first : Stays k seen.offset seen.records s₁ := by
      obtain ⟨s₂, hr, rfl⟩ := endLine_ok he
      rcases lineRead_cases hr with ⟨visited, -⟩ | ⟨-, held, -⟩ | ⟨-, whole, isTorn, s₃, hw, ht, rfl⟩
      · have visited : (!seen.tail.isEmpty) = true := visited
        rw [tail] at visited
        cases visited
      · rw [Looking.holdsOnly, only] at held
        cases held
      · have hw : wholeLine k.reader line seen.records = .ok (whole, isTorn) := hw
        rw [reader, tornLine] at hw
        cases hw
        cases ht
        intro _
        show if k.done = some seen.offset then (k.torn _ false).passing = true ∧ _ else _
        unfold Looking.torn
        dsimp only
        rw [Bool.false_or]
        split
        · rename_i due
          have met : (k.done == some (start (some seen) state).offset) = true := beq_iff_eq.2 due
          rw [met, Bool.or_true, if_pos rfl]
          exact ⟨rfl, rfl⟩
        · rename_i notDue
          have met : (k.done == some (start (some seen) state).offset) = false :=
            beq_eq_false_iff_ne.2 notDue
          rw [met]
          exact ⟨_, rfl, rfl⟩
    have onward : seen.records ≤ s₁.records := (endLine_grows he).1.records
    cases hc : k.readChunk (seen.offset + line.length + 1) more s₁ with
    | error e =>
      rw [show (Except.ok s₁).bind (k.readChunk (seen.offset + line.length + 1) more) = _ from hc] at h
      cases e <;> cases h
    | ok s₂ =>
      rw [show (Except.ok s₁).bind (k.readChunk (seen.offset + line.length + 1) more) = _ from hc] at h
      cases hf : finish k file (some seen) looked s₂ with
      | error e =>
        rw [show (Except.ok s₂).bind (finish k file (some seen) looked) = _ from hf] at h
        cases e <;> cases h
      | ok answer =>
        rw [show (Except.ok s₂).bind (finish k file (some seen) looked) = _ from hf] at h
        obtain ⟨s', unfinished, e, -, same⟩ := finish_ok hf
        subst e
        cases h
        have onward' : seen.records ≤ s₂.records := Nat.le_trans onward (readChunk_grows hc).records
        have records : s'.records = seen.records := records
        rcases same with more | rfl
        · omega
        · have stays := readChunk_stays first onward hc records
          rw [hdone, done] at stays
          unfold close
          dsimp only
          by_cases over_ : waited looked since = true
          · rw [if_pos over_, if_pos rfl] at stays
            rw [if_pos over_, stays.2]
            rfl
          · rw [if_neg over_, if_neg (by intro e; cases e)] at stays
            obtain ⟨w, head, begins⟩ := stays
            rw [if_neg over_, head]
            simp only [Option.map_some, Option.getD_some, begins, Option.filter_some, beq_self_eq_true,
              if_true, Option.bind_some, torn]

end Harness
end ConsensFlow
