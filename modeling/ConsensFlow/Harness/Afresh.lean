/-
  File:      ConsensFlow/Harness/Afresh.lean
  Subject:   BYTES READ ONCE FROM THE START: what a parser whose state is fresh comes to.

  * `visitFrom` -- records visited in order, with indexes from a place on;
  * `Visited` -- the state a fresh parser comes to on some records, each visited once, in order, with
    the indexes 0, 1, 2, ...;
  * **`fresh_reads`** -- a parser that reads the bytes once from the start stops somewhere, in the
    state their records make.
-/
import ConsensFlow.Harness.Onward

namespace ConsensFlow
namespace Harness

open Lib.Lines

variable {V P : Type}

/-! ## 1. Records visited in order -/

/-- The records visited one after the other, the first at `index`. -/
def visitFrom (visit : Visit V P) (state : P) (index : Nat) : List (V × Nat) → Except Stop P
  | [] => .ok state
  | (record, begins) :: rest =>
    match visit state record index begins with
    | .error stop => .error stop
    | .ok state => visitFrom visit state (index + 1) rest

theorem visitFrom_append (visit : Visit V P) (state : P) (index : Nat) (records more : List (V × Nat)) :
    visitFrom visit state index (records ++ more) =
      (visitFrom visit state index records).bind fun state =>
        visitFrom visit state (index + records.length) more := by
  induction records generalizing state index with
  | nil => rfl
  | cons record records ih =>
    obtain ⟨record, begins⟩ := record
    rw [List.cons_append, visitFrom, visitFrom]
    cases visit state record index begins with
    | error stop => rfl
    | ok state =>
      show visitFrom visit state (index + 1) (records ++ more) = _
      rw [ih, List.length_cons, Nat.add_assoc, Nat.add_comm 1]

/-- The state a fresh parser reaches on some records. -/
def Visited (visit : Visit V P) (fresh : P) (records : List (V × Nat)) (state : P) : Prop :=
  visitFrom visit fresh 0 records = .ok state

theorem visited_keeps (visit : Visit V P) (fresh : P) : Keeps visit (Visited visit fresh) := by
  intro records state record begins state' has h
  unfold Visited at has ⊢
  rw [visitFrom_append, has]
  show visitFrom visit state (0 + records.length) [(record, begins)] = _
  rw [Nat.zero_add, visitFrom, h]
  rfl

/-- What was visited of some records, where more were visited after them. -/
theorem Visited.split {visit : Visit V P} {fresh state : P} {records more : List (V × Nat)}
    (h : Visited visit fresh (records ++ more) state) :
    ∃ between, Visited visit fresh records between ∧
      visitFrom visit between records.length more = .ok state := by
  unfold Visited at h ⊢
  rw [visitFrom_append, Nat.zero_add] at h
  cases hr : visitFrom visit fresh 0 records with
  | error stop => rw [hr] at h; cases h
  | ok between =>
    rw [hr] at h
    exact ⟨between, rfl, h⟩

/-! ## 2. Read once from the start -/

variable {k : Looking V P} {r : Reader V} {fresh : P}

theorem takes_ok {whole : List V} {s : Scan P} {state : P}
    (h : visitFrom k.visit s.state s.records (whole.map (·, s.offset)) = .ok state) :
    ∃ s', whole.foldlM k.take s = .ok s' := by
  induction whole generalizing s with
  | nil => exact ⟨s, rfl⟩
  | cons record whole ih =>
    rw [List.map_cons, visitFrom] at h
    cases hv : k.visit s.state record s.records s.offset with
    | error stop => rw [hv] at h; cases h
    | ok state₁ =>
      rw [hv] at h
      have taken : k.take s record = .ok { s with
          places := s.places ++ s.waiting.map Torn.index, waiting := [], passing := false,
          records := s.records + 1, state := state₁ } := by
        rw [Looking.take, hv]
      rw [List.foldlM_cons, taken]
      exact ih (s := { s with
        places := s.places ++ s.waiting.map Torn.index, waiting := [], passing := false,
        records := s.records + 1, state := state₁ }) h

theorem endLine_goes (reader : k.reader = r) {base : Nat} {lines : List Bytes} {t t' : Tally V}
    {s : Scan P} (h : s.Of r (Visited k.visit fresh) base lines t) (hv : s.visited = false)
    (line : t.line r s.line = some t') {state : P} (visits : Visited k.visit fresh t'.records state)
    (next : Nat) : ∃ s', k.endLine next s = .ok s' := by
  rcases h.here with ⟨-, -, count, has⟩ | ⟨visited, -⟩
  · have read : ∃ s', k.lineRead s = .ok s' := by
      unfold Looking.lineRead
      rw [if_neg (by rw [hv]; decide)]
      split
      · rw [reader, count]
        unfold Tally.line at line
        cases hw : wholeLine r s.line t.records.length with
        | error stop => rw [hw] at line; cases line
        | ok whole =>
          obtain ⟨whole, isTorn⟩ := whole
          rw [hw] at line
          cases line
          obtain ⟨between, visited, more⟩ := Visited.split visits
          cases has.symm.trans visited
          obtain ⟨s', ht⟩ := @takes_ok _ _ k whole s state (by
            rw [count, h.offset]
            exact more)
          dsimp only
          rw [ht]
          exact ⟨_, rfl⟩
      · exact ⟨_, rfl⟩
    obtain ⟨s', hr⟩ := read
    unfold Looking.endLine
    rw [hr]
    exact ⟨_, rfl⟩
  · rw [hv] at visited
    cases visited

theorem readChunk_goes (lawful : r.Lawful) (reader : k.reader = r) (only : k.only = none) {base : Nat}
    (done : k.done = none ∨ k.done = some base) {chunk : Bytes} {lines : List Bytes} {t all : Tally V}
    {s : Scan P} (h : s.Of r (Visited k.visit fresh) base lines t) (hv : s.visited = false)
    {begins : Nat} (hbegins : begins = s.offset + s.tail.length + s.line.length)
    (tallied : tally r (joined newline lines ++ (s.line ++ chunk)) = some all) {state : P}
    (visits : Visited k.visit fresh all.records state) :
    ∃ s', k.readChunk begins chunk s = .ok s' := by
  induction chunk generalizing lines t s begins with
  | nil => exact ⟨s, rfl⟩
  | cons byte chunk ih =>
    unfold Looking.readChunk
    split
    · rename_i hb
      have htail : s.tail = [] := by
        rcases h.here with ⟨-, tail, -⟩ | ⟨visited, -⟩
        · exact tail
        · rw [hv] at visited
          cases visited
      have bytes : joined newline lines ++ (s.line ++ byte :: chunk) =
          joined newline (lines ++ [s.line]) ++ chunk := by
        rw [joined_concat, hb]
        simp only [List.append_assoc, List.singleton_append]
      rw [bytes] at tallied
      have whole : ∀ line ∈ lines ++ [s.line], newline ∉ line := by
        intro line hl
        rcases List.mem_append.1 hl with hl | hl
        · exact h.whole line hl
        · cases List.mem_singleton.1 hl
          exact h.unended
      obtain ⟨t', ht', ⟨more, hmore⟩, -⟩ := tally_prefix whole tallied
      obtain ⟨between, visited, -⟩ := Visited.split (hmore.symm ▸ visits)
      rw [tallyLines_concat h.tallied] at ht'
      obtain ⟨s₁, he⟩ := endLine_goes reader h hv ht' visited (begins + 1)
      obtain ⟨t₁, h₁, line₁, tail₁, offset₁⟩ :=
        endLine_of lawful (visited_keeps _ _) reader only done h (by rw [hbegins]) he
      rw [htail, List.nil_append] at h₁
      rw [he]
      refine ih h₁ (endLine_grows he).2 (by rw [offset₁, line₁, tail₁]; rfl) ?_
      rw [line₁]
      exact tallied
    · rename_i hb
      refine ih (byte_of h hb) hv (by rw [hbegins, List.length_append]; rfl) ?_
      rw [List.append_assoc]
      exact tallied

theorem finish_goes (lawful : r.Lawful) (reader : k.reader = r) {base : Nat}
    {lines : List Bytes} {t all : Tally V} {s : Scan P}
    (h : s.Of r (Visited k.visit fresh) base lines t) (hv : s.visited = false)
    (tallied : tally r (joined newline lines ++ s.line) = some all) {state : P}
    (visits : Visited k.visit fresh all.records state) (file : File) (seen : Option Seen)
    (looked : Int) : ∃ answer, finish k file seen looked s = .ok answer := by
  rcases h.here with ⟨-, -, count, has⟩ | ⟨visited, -⟩
  · rw [tally_joined h.whole h.unended h.tallied] at tallied
    unfold finish
    rw [if_neg (by rw [hv]; decide)]
    split
    · rename_i some_
      simp only [Bool.and_eq_true, Bool.not_eq_true'] at some_
      rw [reader, lawful.parse_lossy]
      unfold Tally.last at tallied
      rw [some_.1] at tallied
      cases hp : r.parse s.line with
      | some record =>
        rw [hp] at tallied
        cases tallied
        obtain ⟨between, visited, more⟩ := Visited.split visits
        cases has.symm.trans visited
        obtain ⟨s', ht⟩ := @takes_ok _ _ k [record] s state (by
          rw [count, h.offset]
          exact more)
        have ht : k.take s record = .ok s' := by
          rw [List.foldlM_cons] at ht
          cases hk : k.take s record with
          | error e => rw [hk] at ht; cases ht
          | ok s₁ =>
            rw [hk] at ht
            exact ht
        dsimp only
        rw [ht]
        exact ⟨_, rfl⟩
      | none =>
        rw [hp] at tallied
        have notJson : ¬ r.isJson s.line = true := by
          intro json
          have tallied : (if r.isJson s.line then none else some t) = some all := tallied
          rw [if_pos json] at tallied
          cases tallied
        dsimp only
        rw [if_neg notJson]
        exact ⟨_, rfl⟩
    · exact ⟨_, rfl⟩
  · rw [hv] at visited
    cases visited

/-- **A parser that reads some bytes once from the start** comes to the state their records make,
    where they can be read and it takes them. -/
theorem fresh_reads (lawful : r.Lawful) {visit : Visit V P} {file : File} {all : Tally V}
    (tallied : tally r file.bytes = some all) {state : P}
    (visits : Visited visit fresh all.records state) (cuts : List Nat) (looked : Int) :
    ∃ seen, readOnWith r visit none cuts file none looked fresh = .ok (.read seen, state) := by
  have begun : (start none fresh).Of r (Visited visit fresh) 0 [] Tally.none_ := start_none rfl
  have reads : ∃ answer, readOnWith r visit none cuts file none looked fresh = .ok answer ∧
      answer.1 ≠ .notTheFile := by
    rw [readOnWith_eq none rfl rfl 0 rfl]
    generalize hk : (⟨r, visit, none, doneWaiting none looked⟩ : Looking V P) = k
    have reader : k.reader = r := hk ▸ rfl
    have only : k.only = none := hk ▸ rfl
    have done : k.done = none ∨ k.done = some 0 := hk ▸ .inl rfl
    have hvisit : k.visit = visit := hk ▸ rfl
    rw [← hvisit] at visits begun
    obtain ⟨s₁, hc⟩ : ∃ s₁, k.readChunk 0 (file.bytes.drop 0) (start none fresh) = .ok s₁ :=
      readChunk_goes lawful reader only done begun rfl rfl tallied visits
    obtain ⟨lines, t, hof, whole, -⟩ :=
      readChunk_of lawful (visited_keeps _ _) reader only done begun rfl hc
    have visited : s₁.visited = false := by
      cases hv : s₁.visited with
      | false => rfl
      | true => exact absurd ((readChunk_grows hc).visited hv) Bool.false_ne_true
    have htail : s₁.tail = [] := by
      rcases hof.here with ⟨-, tail, -⟩ | ⟨hv, -⟩
      · exact tail
      · rw [visited] at hv
        cases hv
    rw [htail, List.append_nil] at whole
    obtain ⟨answer, hf⟩ := finish_goes lawful reader hof visited (by rw [whole]; exact tallied)
      visits file none looked
    rw [hc]
    dsimp only [bind, Except.bind]
    rw [hf]
    obtain ⟨s', unfinished, rfl, -⟩ := finish_ok hf
    exact ⟨_, rfl, Looked.noConfusion⟩
  obtain ⟨answer, ha, theFile⟩ := reads
  rcases readOnWith_read lawful (visited_keeps visit fresh) none rfl rfl ha with e |
    ⟨s, unfinished, lines, before, all', e, hof⟩
  · rw [e] at theFile
    exact absurd rfl theFile
  · cases hof.entire.symm.trans tallied
    cases hof.has.symm.trans visits
    exact ⟨_, ha.trans (congrArg _ e)⟩

end Harness
end ConsensFlow
