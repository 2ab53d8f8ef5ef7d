/-
  File:      ConsensFlow/Harness/Followed.lean
  Subject:   WHAT HOLDS FROM LOOK TO LOOK of a transcript followed (`followed.rs`), whatever its file
             and its parser do.

  * `Followed.Holds` -- where the last look stopped is a place of some bytes, its parser in the state
    that visited their records;
  * **`Followed.read_holds`** -- the RULE: a look keeps it, given what each of the four answers a look
    at the file can have keeps of those bytes.
-/
import ConsensFlow.Harness.Tally

namespace ConsensFlow
namespace Harness

variable {V P : Type} {r : Reader V} {Has : List (V × Nat) → P → Prop}

/-- When a look began is no part of where it stopped. -/
theorem Seen.Of.looked {v : Bytes} {lines : List Bytes} {before all : Tally V} {seen : Seen} {state : P}
    (h : Seen.Of r Has v lines before all seen state) (looked : Int) :
    Seen.Of r Has v lines before all { seen with looked := looked } state :=
  ⟨h.whole, h.tallied, h.read, h.offset, h.size, h.bytes, h.edge, h.passed, h.entire, h.count, h.has,
    h.later, h.stands, h.first, h.tailed⟩

theorem Seen.Of.has_of {v : Bytes} {lines : List Bytes} {before all : Tally V} {seen : Seen}
    {state state' : P} (h : Seen.Of r Has v lines before all seen state)
    (has : Has all.records state') : Seen.Of r Has v lines before all seen state' :=
  ⟨h.whole, h.tallied, h.read, h.offset, h.size, h.bytes, h.edge, h.passed, h.entire, h.count, has,
    h.later, h.stands, h.first, h.tailed⟩

/-- The last look stopped at a place of the bytes `v`. -/
def Seen.At (r : Reader V) (Has : List (V × Nat) → P → Prop) (v : Bytes) (seen : Seen) (state : P) :
    Prop :=
  ∃ lines before all, Seen.Of r Has v lines before all seen state

/-! ## 1. The answers -/

theorem same_spec {file : File} {seen : Seen} {now : Int} (h : same file seen now = true) :
    file.bytes.length = seen.size ∧ file.mtime = seen.mtime := by
  unfold same at h
  simp only [Bool.and_eq_true, beq_iff_eq] at h
  exact h.1.1

/-- A file unchanged is as the last look left it, its time settled since. -/
theorem check_unchanged {file : File} {seen : Seen} {now : Int}
    (h : check file seen now = some .unchanged) :
    same file seen now = true ∧ settled file.mtime seen.since seen.looked now = true := by
  unfold check at h
  split at h
  · cases h
  · split at h
    · rename_i unchanged
      exact Bool.and_eq_true_iff.1 unchanged
    · repeat' split at h
      all_goals cases h

/-- A file held is as the last look left it, and the bytes it holds after where that stopped too; a
    look whose time settles it reads those before it. -/
theorem check_held {file : File} {seen seen' : Seen} {now : Int}
    (h : check file seen now = some (.held seen')) :
    seen' = { seen with looked := now } ∧ same file seen now = true ∧
      file.bytes.drop seen.offset = seen.rest ∧
      (settled file.mtime seen.since now now = true → file.bytes.take seen.offset = seen.read) := by
  unfold check at h
  split at h
  · cases h
  · split at h
    · cases h
    · split at h
      · cases h
      · split at h
        · rename_i same_
          split at h
          · cases h
          · rename_i hashed
            split at h
            · rename_i rest
              cases h
              refine ⟨rfl, same_, rest, fun settles => Classical.byContradiction fun read => hashed ?_⟩
              rw [settles]
              exact decide_eq_true read
            · cases h
        · cases h

theorem check_not_read {file : File} {seen seen' : Seen} {now : Int} :
    check file seen now ≠ some (.read seen') := by
  intro h
  unfold check at h
  repeat' split at h
  all_goals cases h

/-- A look that reads on in a file as the last left it, whose time settles it, read it whole. -/
theorem check_none_same {file : File} {seen : Seen} {now : Int} (h : check file seen now = none)
    (same_ : same file seen now = true) (settles : settled file.mtime seen.since now now = true) :
    file.bytes.take seen.offset = seen.read := by
  unfold check at h
  split at h
  · cases h
  · split at h
    · cases h
    · split at h
      · cases h
      · split at h
        · cases h
        · rename_i hashed
          refine Classical.byContradiction fun read => hashed ?_
          rw [settles]
          exact decide_eq_true read

namespace Followed

/-! ## 2. A look -/

/-- The last look that read the file stopped at a place of bytes `Keep` says something of. -/
def Holds (r : Reader V) (Has : List (V × Nat) → P → Prop) (Keep : Seen → Bytes → Prop)
    (f : Followed P) : Prop :=
  match f.seen with
  | none => f.state = none
  | some seen => ∃ state v, f.state = some state ∧ Seen.At r Has v seen state ∧ Keep seen v

variable {Keep Keep' : Seen → Bytes → Prop} {f f' : Followed P} {p : Parser V P} {cuts : List Nat}
  {path : String} {file : File} {now : Int} {fuel : Nat}
  {outcome : Except Stop (Option (Read P))}

theorem holds_none (h : f.seen = none) (hs : f.state = none) : f.Holds r Has Keep := by
  unfold Holds
  rw [h]
  exact hs

/-- What a look at the file keeps of the bytes read. -/
structure Keeping (r : Reader V) (Has : List (V × Nat) → P → Prop) (file : File) (now : Int)
    (Keep Keep' : Seen → Bytes → Prop) : Prop where
  unchanged : ∀ seen v state, Seen.At r Has v seen state → Keep seen v →
    check file seen now = some .unchanged → Keep' seen v
  held : ∀ seen v state, Seen.At r Has v seen state → Keep seen v →
    check file seen now = some (.held { seen with looked := now }) → Keep' { seen with looked := now } v
  read : ∀ (seen : Seen) v state (s : Scan P) unfinished, Seen.At r Has v seen state → Keep seen v →
    check file seen now = none →
    Keep' (close file (some seen) now s unfinished) (takenFor file (some seen))
  fresh : ∀ (s : Scan P) unfinished, Keep' (close file none now s unfinished) file.bytes

/-- A look at the file that is neither another nor unreadable. -/
theorem looked_holds (lawful : r.Lawful) {visit : Visit V P} (visits : Harness.Keeps visit Has)
    (keeping : Keeping r Has file now Keep Keep') {fresh : P} (has : Has [] fresh)
    (h : f.Holds r Has Keep) {looked : Looked} {state : P}
    (hr : readOnWith r visit none cuts file f.seen now (f.state.getD fresh) = .ok (looked, state))
    (theFile : looked ≠ .notTheFile) :
    ∃ seen v, looked.stopped f.seen = some seen ∧ Seen.At r Has v seen state ∧ Keep' seen v := by
  unfold Holds at h
  cases hseen : f.seen with
  | none =>
    rw [hseen] at h hr
    rw [h, Option.getD_none] at hr
    rcases readOnWith_read lawful visits none has rfl hr with e |
      ⟨s, unfinished, lines, before, all, e, hof⟩
    · cases e
      exact absurd rfl theFile
    · cases e
      exact ⟨_, _, rfl, ⟨lines, before, all, hof⟩, keeping.fresh s unfinished⟩
  | some seen =>
    rw [hseen] at h hr
    obtain ⟨state₀, v, hstate, hat, keep⟩ := h
    rw [hstate, Option.getD_some] at hr
    cases hc : check file seen now with
    | none =>
      obtain ⟨lines₀, before₀, all₀, hof₀⟩ := hat
      rcases readOnWith_read lawful visits (some seen) ⟨v, lines₀, before₀, all₀, hof₀⟩ hc hr
        with e | ⟨s, unfinished, lines, before, all, e, hof⟩
      · cases e
        exact absurd rfl theFile
      · cases e
        exact ⟨_, _, rfl, ⟨lines, before, all, hof⟩,
          keeping.read seen v state₀ s unfinished ⟨lines₀, before₀, all₀, hof₀⟩ keep hc⟩
    | some answer =>
      rw [readOnWith_check hc] at hr
      cases hr
      cases looked with
      | unchanged => exact ⟨seen, v, rfl, hat, keeping.unchanged seen v _ hat keep hc⟩
      | held seen' =>
        cases (check_held hc).1
        obtain ⟨lines, before, all, hof⟩ := hat
        exact ⟨_, v, rfl, ⟨lines, before, all, hof.looked now⟩,
          keeping.held seen v _ ⟨lines, before, all, hof⟩ keep hc⟩
      | read seen' => exact absurd hc check_not_read
      | notTheFile => exact absurd rfl theFile

/-- **The rule for a look that reads on, and from the start where it has to.** -/
theorem reads_holds (lawful : p.reader.Lawful) (visits : Harness.Keeps p.visitAt Has)
    (flushes : ∀ records state state', Has records state → p.flush state = .ok state' →
      Has records state')
    (fresh : Has [] (p.fresh path)) (keeping : Keeping p.reader Has file now Keep Keep')
    (h : f.Holds p.reader Has Keep) (hr : reads p cuts path file now fuel f = some (outcome, f')) :
    f'.Holds p.reader Has Keep' ∧ f'.file = f.file ∧
      (f'.broken = f.broken ∨ (f'.seen = none ∧ f'.state = none)) ∧
      ∀ read, outcome = .ok (some read) → f'.state = some read.state ∧
        ∃ seen, f'.seen = some seen ∧ read.lost = seen.passedOver := by
  induction fuel generalizing f with
  | zero => cases hr
  | succ fuel ih =>
    unfold reads at hr
    have again := @ih { f with seen := none, state := none } (holds_none rfl rfl)
    cases hread : readOnWith p.reader p.visitAt none cuts file f.seen now
        (f.state.getD (p.fresh path)) with
    | error stop =>
      rw [hread] at hr
      cases stop with
      | reread => exact again hr
      | failed reason =>
        cases hr
        exact ⟨holds_none rfl rfl, rfl, .inr ⟨rfl, rfl⟩, fun _ h => nomatch h⟩
      | io error =>
        cases hr
        exact ⟨holds_none rfl rfl, rfl, .inr ⟨rfl, rfl⟩, fun _ h => nomatch h⟩
    | ok answer =>
      obtain ⟨looked, state⟩ := answer
      rw [hread] at hr
      by_cases theFile : looked = .notTheFile
      · subst theFile
        exact again hr
      · obtain ⟨seen, v, hseen, ⟨lines, before, all, hof⟩, keep⟩ :=
          looked_holds lawful visits keeping fresh h hread theFile
        cases hf : p.flush state with
        | error reason =>
          have failed : some (.error (.failed reason),
              { f with seen := none, state := none, broken := some (file.stat, now, reason) }) =
                some (outcome, f') := by
            cases looked with
            | notTheFile => exact absurd rfl theFile
            | unchanged | held _ | read _ =>
              dsimp only at hr
              rw [hf] at hr
              exact hr
          cases failed
          exact ⟨holds_none rfl rfl, rfl, .inr ⟨rfl, rfl⟩, fun _ h => nomatch h⟩
        | ok state' =>
          have answered : some (.ok (some ⟨state', path, looked.changed,
                ((looked.stopped f.seen).map Seen.passedOver).getD []⟩),
              { f with seen := looked.stopped f.seen, state := some state' }) = some (outcome, f') := by
            cases looked with
            | notTheFile => exact absurd rfl theFile
            | unchanged | held _ | read _ =>
              dsimp only at hr
              rw [hf] at hr
              exact hr
          rw [hseen] at answered
          obtain ⟨read_, rfl⟩ := Prod.mk.inj (Option.some.inj answered)
          refine ⟨⟨state', v, rfl, ⟨lines, before, all, ?_⟩, keep⟩, rfl, .inl rfl, fun read e => ?_⟩
          · exact hof.has_of (flushes _ _ _ hof.has hf)
          · cases read_.trans e
            exact ⟨rfl, seen, rfl, rfl⟩

/-! ## 3. A transcript that is there -/

/-- A disk that holds the one transcript. -/
def oneFile (path : String) (file : File) : Disk :=
  ⟨.ok (some path), fun name => if name = path then .ok file else .error "no such file"⟩

/-- The transcript followed is the one at `path`, or none yet; what could not be read is not kept. -/
structure Sits (path : String) (f : Followed P) : Prop where
  file : f.file = none ∨ f.file = some path
  unseen : f.file = none → f.seen = none ∧ f.state = none
  broken : f.broken ≠ none → f.seen = none ∧ f.state = none

theorem sits_new (path : String) : (Followed.new : Followed P).Sits path :=
  ⟨.inl rfl, fun _ => ⟨rfl, rfl⟩, fun _ => ⟨rfl, rfl⟩⟩

theorem located_oneFile (file : File) (sits : f.Sits path) :
    ∃ f₁, f.located (oneFile path file) = .ok f₁ ∧ f₁.file = some path ∧ f₁.seen = f.seen ∧
      f₁.state = f.state ∧ (f₁.broken ≠ none → f.seen = none ∧ f.state = none) := by
  have here : (oneFile path file).file path = .ok file := if_pos rfl
  unfold located
  rcases sits.file with none_ | some_
  · obtain ⟨seen, state⟩ := sits.unseen none_
    rw [none_]
    exact ⟨⟨some path, none, none, none⟩, rfl, rfl, seen.symm, state.symm, fun h => absurd rfl h⟩
  · rw [some_, Option.bind_some, here]
    exact ⟨f, rfl, some_, rfl, rfl, sits.broken⟩

/-- **The rule for a look.** -/
theorem read_holds (lawful : p.reader.Lawful) (visits : Harness.Keeps p.visitAt Has)
    (flushes : ∀ records state state', Has records state → p.flush state = .ok state' →
      Has records state')
    (fresh : Has [] (p.fresh path)) (keeping : Keeping p.reader Has file now Keep Keep')
    (sits : f.Sits path) (h : f.Holds p.reader Has Keep)
    (hr : f.read p (oneFile path file) cuts now fuel = some (outcome, f')) :
    f'.Sits path ∧ f'.Holds p.reader Has Keep' ∧
      ∀ read, outcome = .ok (some read) → f'.state = some read.state ∧
        ∃ seen, f'.seen = some seen ∧ read.lost = seen.passedOver := by
  obtain ⟨f₁, hlocated, hfile, hseen, hstate, hbroken⟩ := located_oneFile file sits
  have here : (oneFile path file).file path = .ok file := if_pos rfl
  unfold Followed.read at hr
  rw [hlocated] at hr
  dsimp only at hr
  rw [hfile] at hr
  dsimp only at hr
  rw [here] at hr
  dsimp only at hr
  split at hr
  · -- Still broken: nothing was kept of it.
    rename_i failure
    have broken : f₁.broken ≠ none := by
      intro none_
      rw [none_] at failure
      cases failure
    obtain ⟨seen, state⟩ := hbroken broken
    cases hr
    refine ⟨⟨.inr hfile, fun h => ?_, fun _ => ⟨hseen.trans seen, hstate.trans state⟩⟩,
      holds_none (hseen.trans seen) (hstate.trans state), fun _ h => nomatch h⟩
    rw [hfile] at h
    cases h
  · have h₁ : (⟨some path, f₁.seen, f₁.state, none⟩ : Followed P).Holds p.reader Has Keep := by
      unfold Holds at h ⊢
      dsimp only
      rw [hseen, hstate]
      exact h
    obtain ⟨holds', file', broken', read'⟩ :=
      reads_holds lawful visits flushes fresh keeping h₁ hr
    refine ⟨⟨.inr file', fun h => ?_, fun h => ?_⟩, holds', read'⟩
    · rw [file'] at h
      cases h
    · rcases broken' with same | none_
      · exact absurd same h
      · exact none_

end Followed
end Harness
end ConsensFlow
