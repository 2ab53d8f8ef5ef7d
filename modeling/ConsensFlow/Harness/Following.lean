/-
  File:      ConsensFlow/Harness/Following.lean
  Subject:   FOLLOWING A TRANSCRIPT IS READING IT AFRESH: a file that only grows, cut anywhere, and a
             look at any time of it.

  * `Follows` -- the looks at such a file, in the order of their times; `Onward` -- those after one
    of them that do not begin anew;
  * `Kept` -- the INVARIANT: the last look stopped at a place of the file's present bytes;
  * **`following`** -- after every look that reads, the state is the one of the bytes read once from
    the start, and the torn lines passed over are counted once each, at their places;
  * `counted_anew` -- a look that begins anew lets a torn line wait again.
-/
import ConsensFlow.Harness.Afresh

namespace ConsensFlow
namespace Harness

open Lib.Lines

variable {V P : Type}

/-! ## 1. A file that grows -/

/-- A transcript followed, and the bytes its file held at the last look. -/
structure Transcript (P : Type) where
  bytes : Bytes
  followed : Followed P
  time : Int

/-- A look at `now`: what was appended before it, the time the file has by then, and where the look
    cuts what it reads. -/
structure Look where
  more : Bytes
  mtime : Int
  now : Int
  cuts : List Nat

namespace Transcript

/-- The file a look finds. -/
def file (w : Transcript P) (identity : Nat) (l : Look) : File := ⟨identity, l.mtime, w.bytes ++ l.more⟩

/-- A look, of two readings at the most: one that reads on, and one from the start. -/
def look (p : Parser V P) (path : String) (identity : Nat) (w : Transcript P) (l : Look) :
    Option (Except Stop (Option (Read P)) × Transcript P) :=
  (w.followed.read p (Followed.oneFile path (w.file identity l)) l.cuts l.now 2).map fun answer =>
    (answer.1, ⟨w.bytes ++ l.more, answer.2, l.now⟩)

end Transcript

/-- The transcripts some looks at a file that grows come to. -/
inductive Follows (p : Parser V P) (path : String) (identity : Nat) : Transcript P → Prop
  | start (bytes : Bytes) (time : Int) : Follows p path identity ⟨bytes, .new, time⟩
  | look {w w' : Transcript P} (h : Follows p path identity w) (l : Look) (later : w.time ≤ l.now)
      {outcome : Except Stop (Option (Read P))} (looked : w.look p path identity l = some (outcome, w')) :
      Follows p path identity w'

/-- What was appended leaves the record a file's bytes end in, still without its newline, as it was:
    there is none, or white space follows it. -/
def GoesOn (r : Reader V) (bytes more : Bytes) : Prop :=
  isBlank (split newline bytes).2 = true ∨ r.parse (split newline bytes).2 = none ∨
    isBlank (more.takeWhile (· ≠ newline)) = true

/-- From a look's answer to a later one's: every look between reads, and goes on. -/
inductive Onward (p : Parser V P) (path : String) (identity : Nat) (w : Transcript P) (read : Read P) :
    Transcript P → Read P → Prop
  | refl : Onward p path identity w read w read
  | look {w₁ w₂ : Transcript P} {read₁ read₂ : Read P} (h : Onward p path identity w read w₁ read₁)
      (l : Look) (later : w₁.time ≤ l.now) (goes : GoesOn p.reader w₁.bytes l.more)
      (looked : w₁.look p path identity l = some (.ok (some read₂), w₂)) :
      Onward p path identity w read w₂ read₂

/-! ## 2. What is kept of the bytes -/

/-- The last look stopped at a place of the file's present bytes `bytes`, before `time`. -/
structure Kept (identity : Nat) (bytes : Bytes) (time : Int) (seen : Seen) (v : Bytes) : Prop where
  bytes : v = bytes
  identity : seen.identity = identity
  edge : seen.edge = (v.take seen.offset).drop (seen.offset - edgeBytes)
  since : ∀ since, seen.tornSince = some since → since ≤ time

variable {r : Reader V} {Has : List (V × Nat) → P → Prop} {identity : Nat} {seen : Seen} {state : P}
  {v : Bytes} {time : Int}

/-- A look's bytes, up to where it stopped. -/
theorem Seen.At.inside (h : Seen.At r Has v seen state) :
    seen.read.length = seen.offset ∧ v = seen.read ++ seen.rest := by
  obtain ⟨lines, before, all, hof⟩ := h
  exact ⟨by rw [hof.read, hof.offset, tallyLines_next hof.tallied], hof.bytes⟩

/-- The bytes that grew, before and after where the last look stopped. -/
theorem grown (h : Seen.At r Has v seen state) (more : Bytes) :
    (v ++ more).take seen.offset = seen.read ∧ (v ++ more).drop seen.offset = seen.rest ++ more ∧
      v.take seen.offset = seen.read := by
  obtain ⟨length, bytes⟩ := h.inside
  rw [bytes, List.append_assoc]
  exact ⟨List.take_left' length, List.drop_left' length, List.take_left' length⟩

/-- The record remembered begins what is left to read. -/
theorem Seen.At.tail (h : Seen.At r Has v seen state) : ∃ blank, seen.rest = seen.tail ++ blank ∧
    (seen.tail ≠ [] → newline ∉ seen.tail ∧ newline ∉ blank ∧ isBlank seen.tail = false ∧
      isBlank blank = true ∧ (split newline v).2 = seen.tail ++ blank ∧
      ∃ record, r.parse seen.tail = some record) := by
  obtain ⟨lines, before, all, hof⟩ := h
  rcases hof.tailed with ⟨none_, -⟩ | ⟨htail, some_, record, blank, rest, hb, hblank, hp, -⟩
  · exact ⟨seen.rest, by rw [none_]; rfl, fun h => absurd none_ h⟩
  · refine ⟨blank, rest, fun _ => ⟨htail, hblank, some_, hb, ?_, record, hp⟩⟩
    rw [hof.bytes, hof.read, rest, split_joined hof.whole]
    exact fun hn => (List.mem_append.1 hn).elim htail hblank

/-- **A file that grew is never taken for another** before it is read on. -/
theorem check_grown (h : Seen.At r Has v seen state) (kept : Kept identity v time seen v) (more : Bytes)
    (mtime now : Int) : check ⟨identity, mtime, v ++ more⟩ seen now ≠ some .notTheFile := by
  obtain ⟨taken, dropped, taken'⟩ := grown h more
  obtain ⟨length, -⟩ := h.inside
  obtain ⟨blank, rest, -⟩ := h.tail
  have edgeLength : seen.edge.length = min edgeBytes seen.offset := by
    rw [kept.edge, taken', List.length_drop, length]
    omega
  have edge : holds ⟨identity, mtime, v ++ more⟩ (seen.offset - seen.edge.length) seen.edge = true := by
    refine Bool.or_eq_true_iff.2 (.inr (beq_iff_eq.2 ?_))
    have begins : seen.offset - seen.edge.length = seen.offset - edgeBytes := by
      rw [edgeLength]
      omega
    have ends : seen.offset - seen.edge.length + seen.edge.length = seen.offset := by
      rw [edgeLength]
      omega
    rw [bytesAt, ends, begins]
    show ((v ++ more).take seen.offset).drop _ = _
    rw [taken, kept.edge, taken']
  have tail : holds ⟨identity, mtime, v ++ more⟩ seen.offset seen.tail = true := by
    refine Bool.or_eq_true_iff.2 (.inr (beq_iff_eq.2 ?_))
    rw [bytesAt, List.drop_take, Nat.add_sub_cancel_left]
    show ((v ++ more).drop seen.offset).take _ = _
    rw [dropped, rest, List.append_assoc, List.take_left]
  intro another
  unfold check at another
  rw [if_neg (not_not_intro kept.identity.symm), edge, tail] at another
  split at another
  · cases another
  · split at another
    · rename_i lost
      cases lost
    · split at another
      · split at another
        · rename_i unlike
          rw [show (⟨identity, mtime, v ++ more⟩ : File).bytes.take seen.offset = seen.read from taken,
            Bool.and_eq_true, decide_eq_true_iff] at unlike
          exact unlike.2 rfl
        · split at another <;> cases another
      · cases another

/-- A file as long as the last look found it did not grow. -/
theorem unchanged_more {lines : List Bytes} {before all : Tally V} {bytes more : Bytes} {mtime now : Int}
    (hof : Seen.Of r Has v lines before all seen state) (kept : Kept identity bytes time seen v)
    (h : same ⟨identity, mtime, bytes ++ more⟩ seen now = true) : more = [] := by
  have size : (bytes ++ more).length = seen.size := (same_spec h).1
  rw [hof.size, kept.bytes, List.length_append] at size
  exact List.eq_nil_of_length_eq_zero (by omega)

/-- **A look at a file that grew keeps it.** -/
theorem keeping_grown {bytes more : Bytes} {mtime now : Int} (later : time ≤ now) :
    Followed.Keeping r Has ⟨identity, mtime, bytes ++ more⟩ now (Kept identity bytes time)
      (Kept identity (bytes ++ more) now) where
  unchanged seen v state hat kept hc := by
    obtain ⟨lines, before, all, hof⟩ := hat
    have none_ := unchanged_more hof kept (check_unchanged hc).1
    exact ⟨by rw [none_, List.append_nil, kept.bytes], kept.identity, kept.edge,
      fun since hs => Int.le_trans (kept.since since hs) later⟩
  held seen v state hat kept hc := by
    obtain ⟨lines, before, all, hof⟩ := hat
    have none_ := unchanged_more hof kept (check_held hc).2.1
    exact ⟨by rw [none_, List.append_nil, kept.bytes], kept.identity, kept.edge,
      fun since hs => Int.le_trans (kept.since since hs) later⟩
  read seen v state s unfinished hat kept hc := by
    obtain ⟨taken, dropped, taken'⟩ := grown hat more
    rw [kept.bytes] at taken dropped taken'
    have whole : takenFor ⟨identity, mtime, bytes ++ more⟩ (some seen) = bytes ++ more := by
      show seen.read ++ (bytes ++ more).drop seen.offset = _
      rw [← taken, List.take_append_drop]
    refine ⟨whole, rfl, ?_, ?_⟩
    · rw [whole]
      unfold close
      dsimp only
      generalize (s.waiting.head?.map Torn.begins).getD s.offset = offset
      cases hk : (some seen).filter fun seen => seen.offset == offset with
      | none => rw [Option.map_none, Option.getD_none, bytesAt]
      | some old =>
        obtain ⟨hseen, offset⟩ := Option.filter_eq_some_iff.1 hk
        cases hseen
        rw [← beq_iff_eq.1 offset, Option.map_some, Option.getD_some, taken, kept.edge, kept.bytes,
          taken']
    · intro since hs
      unfold close at hs
      dsimp only at hs
      cases hw : s.waiting.head? with
      | none => rw [hw] at hs; cases hs
      | some torn =>
        rw [hw, Option.map_some, Option.some.injEq] at hs
        cases hk : ((some seen).filter fun seen =>
            seen.offset == ((some torn).map Torn.begins).getD s.offset).bind Seen.tornSince with
        | none =>
          rw [hk] at hs
          exact Int.le_of_eq hs.symm
        | some since' =>
          rw [hk] at hs
          obtain ⟨old, hold, hsince⟩ := Option.bind_eq_some_iff.1 hk
          cases (Option.filter_eq_some_iff.1 hold).1
          cases hs
          exact Int.le_trans (kept.since _ hsince) later
  fresh s unfinished := by
    refine ⟨rfl, rfl, ?_, fun since hs => ?_⟩
    · unfold close
      dsimp only
      generalize (s.waiting.head?.map Torn.begins).getD s.offset = offset
      rw [Option.filter_none, Option.map_none, Option.getD_none, bytesAt]
    unfold close at hs
    dsimp only at hs
    cases hw : s.waiting.head? with
    | none => rw [hw] at hs; cases hs
    | some torn =>
      rw [hw] at hs
      cases hs
      exact Int.le_refl _

/-! ## 3. A look that answers -/

section Looks

variable {p : Parser V P} {path : String} {w w' : Transcript P} {l : Look} {outcome : Except Stop (Option (Read P))}

/-- What every transcript followed satisfies. -/
structure Transcript.Holds (p : Parser V P) (path : String) (identity : Nat) (w : Transcript P) :
    Prop where
  sits : w.followed.Sits path
  kept : w.followed.Holds p.reader (Visited p.visitAt (p.fresh path)) (Kept identity w.bytes w.time)

/-- What the claims of a look rest on: the reader is one of JSON, the parser asks for no reread, and
    its flush does nothing. -/
structure Plain (p : Parser V P) : Prop where
  lawful : p.reader.Lawful
  visits : ∀ state record index begins, p.visitAt state record index begins ≠ .error .reread
  flush : ∀ state, p.flush state = .ok state

theorem look_eq (h : w.look p path identity l = some (outcome, w')) :
    ∃ f', w.followed.read p (Followed.oneFile path (w.file identity l)) l.cuts l.now 2 =
      some (outcome, f') ∧ w' = ⟨w.bytes ++ l.more, f', l.now⟩ := by
  unfold Transcript.look at h
  cases hr : w.followed.read p (Followed.oneFile path (w.file identity l)) l.cuts l.now 2 with
  | none => rw [hr] at h; cases h
  | some answer =>
    rw [hr] at h
    cases h
    exact ⟨answer.2, rfl, rfl⟩

theorem look_holds (plain : Plain p) (h : w.Holds p path identity) (later : w.time ≤ l.now)
    (looked : w.look p path identity l = some (outcome, w')) :
    w'.Holds p path identity ∧ ∀ read, outcome = .ok (some read) →
      w'.followed.state = some read.state ∧
        ∃ seen, w'.followed.seen = some seen ∧ read.lost = seen.passedOver := by
  obtain ⟨f', hr, rfl⟩ := look_eq looked
  obtain ⟨sits, holds, read⟩ := Followed.read_holds plain.lawful (visited_keeps _ _)
    (fun records state state' has hf => by
      rw [plain.flush] at hf
      cases hf
      exact has)
    rfl (keeping_grown later) h.sits h.kept hr
  exact ⟨⟨sits, holds⟩, read⟩

/-- **The invariant, over every run of looks.** -/
theorem follows_hold (plain : Plain p) (h : Follows p path identity w) : w.Holds p path identity := by
  induction h with
  | start bytes time => exact ⟨Followed.sits_new path, rfl⟩
  | look h l later looked ih => exact (look_holds plain ih later looked).1

/-- A line no build can hold is no reason to read again. -/
theorem cannotHold_ne (index : Nat) : cannotHold index ≠ .reread := by
  intro again
  unfold cannotHold at again
  cases again

/-- A reading from the start is of the file. -/
theorem reads_once (plain : Plain p) (cuts : List Nat) (file : File) (now : Int) {f : Followed P}
    (none_ : f.seen = none) : ∃ answer, Followed.reads p cuts path file now 1 f = some answer := by
  unfold Followed.reads
  rw [none_]
  cases hr : readOnWith p.reader p.visitAt none cuts file none now (f.state.getD (p.fresh path)) with
  | error stop =>
    cases stop with
    | reread =>
      have never : Stop.reread ≠ .reread := readOnWith_fails (Q := (· ≠ .reread))
        cannotHold_ne
        (fun state record index begins stop hv h => plain.visits state record index begins (h ▸ hv)) hr
      exact absurd rfl never
    | failed reason => exact ⟨_, rfl⟩
    | io error => exact ⟨_, rfl⟩
  | ok answer =>
    obtain ⟨looked, state⟩ := answer
    cases looked with
    | notTheFile =>
      obtain ⟨s, some_, -⟩ := notTheFile_only (by rw [Option.bind_none]) hr
      cases some_
    | unchanged => dsimp only; rw [plain.flush]; exact ⟨_, rfl⟩
    | held _ => dsimp only; rw [plain.flush]; exact ⟨_, rfl⟩
    | read _ => dsimp only; rw [plain.flush]; exact ⟨_, rfl⟩

/-- Two readings are enough. -/
theorem reads_twice (plain : Plain p) (cuts : List Nat) (file : File) (now : Int) (f : Followed P) :
    ∃ answer, Followed.reads p cuts path file now 2 f = some answer := by
  have again := @reads_once V P p path plain cuts file now { f with seen := none, state := none } rfl
  unfold Followed.reads
  cases hr : readOnWith p.reader p.visitAt none cuts file f.seen now (f.state.getD (p.fresh path)) with
  | error stop =>
    cases stop with
    | reread => exact again
    | failed reason => exact ⟨_, rfl⟩
    | io error => exact ⟨_, rfl⟩
  | ok answer =>
    obtain ⟨looked, state⟩ := answer
    cases looked with
    | notTheFile => exact again
    | unchanged => dsimp only; rw [plain.flush]; exact ⟨_, rfl⟩
    | held _ => dsimp only; rw [plain.flush]; exact ⟨_, rfl⟩
    | read _ => dsimp only; rw [plain.flush]; exact ⟨_, rfl⟩

/-- **Every look answers.** -/
theorem look_answers (plain : Plain p) (h : w.Holds p path identity) (l : Look) :
    ∃ outcome w', w.look p path identity l = some (outcome, w') := by
  obtain ⟨f₁, hlocated, hfile, -⟩ := Followed.located_oneFile (w.file identity l) h.sits
  have here : (Followed.oneFile path (w.file identity l)).file path = .ok (w.file identity l) :=
    if_pos rfl
  have answers : ∃ answer, w.followed.read p (Followed.oneFile path (w.file identity l)) l.cuts l.now 2 =
      some answer := by
    unfold Followed.read
    rw [hlocated]
    dsimp only
    rw [hfile]
    dsimp only
    rw [here]
    dsimp only
    split
    · exact ⟨_, rfl⟩
    · exact reads_twice plain l.cuts _ l.now _
  obtain ⟨answer, ha⟩ := answers
  exact ⟨answer.1, ⟨w.bytes ++ l.more, answer.2, l.now⟩, by rw [Transcript.look, ha]; rfl⟩

/-! ## 4. A look that goes on -/

/-- A look that goes on finds no other file. -/
theorem goes_on (lawful : p.reader.Lawful) (h : Seen.At p.reader Has v seen state)
    (kept : Kept identity v time seen v) {more : Bytes} (goes : GoesOn p.reader v more) (cuts : List Nat)
    (mtime now : Int) {visit : Visit V P} {answer : Looked} {state' : P}
    (hr : readOnWith p.reader visit none cuts ⟨identity, mtime, v ++ more⟩ (some seen) now state =
      .ok (answer, state')) : answer ≠ .notTheFile := by
  intro another
  rw [another] at hr
  cases hc : check ⟨identity, mtime, v ++ more⟩ seen now with
  | some looked =>
    rw [readOnWith_check hc] at hr
    cases hr
    exact check_grown h kept more mtime now hc
  | none =>
    have notChecked : ((some seen).bind fun seen => check ⟨identity, mtime, v ++ more⟩ seen now) = none :=
      hc
    obtain ⟨seen', hs, some_, overran⟩ := notTheFile_only notChecked hr
    cases hs
    obtain ⟨-, dropped, -⟩ := grown h more
    obtain ⟨blank, rest, tailed⟩ := h.tail
    obtain ⟨-, hblank, tailSome, blanks, last, record, hp⟩ := tailed some_
    have white : isBlank (more.takeWhile (· ≠ newline)) = true := by
      rcases goes with goes | goes | goes
      · rw [last, isBlank_append, tailSome] at goes
        cases goes
      · rw [last, lawful.parse_blank _ _ blanks, hp] at goes
        cases goes
      · exact goes
    have left : (v ++ more).drop (seen.offset + seen.tail.length) = blank ++ more := by
      rw [← List.drop_drop, dropped, rest, List.append_assoc, List.drop_left]
    have line : (blank ++ more).takeWhile (· ≠ newline) = blank ++ more.takeWhile (· ≠ newline) :=
      List.takeWhile_append_of_pos fun byte hb => decide_eq_true fun e => hblank (e ▸ hb)
    rw [show (⟨identity, mtime, v ++ more⟩ : File).bytes.drop (seen.offset + seen.tail.length) =
      blank ++ more from left, line, isBlank_append, blanks, white] at overran
    cases overran

/-- From where a look stopped to where the next did, which went on from there. -/
structure Went (now : Int) (seen seen' : Seen) : Prop where
  places : seen.passedOver <+: seen'.passedOver
  waits : ∀ since, seen.tornSince = some since → seen'.records = seen.records →
    seen'.tornSince = if waited now since then none else some since
  records : seen.records ≤ seen'.records

theorem same_waits {file : File} {now since : Int} (h : same file seen now = true)
    (torn : seen.tornSince = some since) : waited now since = false := by
  unfold same at h
  simp only [Bool.and_eq_true, Option.isNone_iff_eq_none] at h
  have notDone := h.1.2
  rw [doneWaiting, Option.bind_some, torn, Option.any_some] at notDone
  cases hw : waited now since with
  | false => rfl
  | true =>
    rw [hw] at notDone
    cases notDone

theorem went_same {file : File} {now : Int} (h : same file seen now = true) (looked : Int) :
    Went now seen { seen with looked := looked } :=
  ⟨List.prefix_rfl, fun since torn _ => by rw [same_waits h torn]; exact torn, Nat.le_refl _⟩

/-- A torn line that waits is met first by a look that reads on. -/
theorem Seen.At.torn (h : Seen.At r Has v seen state) (torn : seen.tornSince ≠ none) :
    seen.tail = [] ∧ ∃ line more, seen.rest = line ++ newline :: more ∧ newline ∉ line ∧
      TornLine r line seen.records := by
  obtain ⟨lines, before, all, hof⟩ := h
  obtain ⟨line, more, rest, hline, tornLine⟩ := hof.first torn
  rcases hof.tailed with ⟨tail, records⟩ | ⟨htail, -, record, blank, rest', -, hblank, -⟩
  · refine ⟨tail, line, more, rest, hline, ?_⟩
    rw [hof.count, records]
    exact tornLine
  · have ended : newline ∈ seen.tail ++ blank := by
      rw [← rest', rest]
      exact List.mem_append_right _ List.mem_cons_self
    exact absurd ended fun hn => (List.mem_append.1 hn).elim htail hblank

/-- **A look that goes on**, from where the last stopped. -/
theorem look_went (plain : Plain p) (h : w.Holds p path identity)
    (hseen : w.followed.seen = some seen) (goes : GoesOn p.reader w.bytes l.more) {read : Read P}
    (looked : w.look p path identity l = some (.ok (some read), w')) :
    ∃ seen', w'.followed.seen = some seen' ∧ Went l.now seen seen' := by
  obtain ⟨f', hr, rfl⟩ := look_eq looked
  obtain ⟨f₁, hlocated, hfile, hseen₁, hstate₁, hbroken⟩ :=
    Followed.located_oneFile (w.file identity l) h.sits
  have here : (Followed.oneFile path (w.file identity l)).file path = .ok (w.file identity l) :=
    if_pos rfl
  have kept := h.kept
  unfold Followed.Holds at kept
  rw [hseen] at kept
  obtain ⟨state, v, hstate, hat, kept⟩ := kept
  cases kept.bytes
  have whole : f₁.broken = none :=
    Classical.byContradiction fun some_ => nomatch hseen.symm.trans (hbroken some_).1
  unfold Followed.read at hr
  rw [hlocated] at hr
  dsimp only at hr
  rw [hfile] at hr
  dsimp only at hr
  rw [here, whole] at hr
  have hr : Followed.reads p l.cuts path (w.file identity l) l.now 2
      ⟨some path, f₁.seen, f₁.state, none⟩ = some (.ok (some read), f') := hr
  unfold Followed.reads at hr
  dsimp only at hr
  rw [hseen₁, hseen, hstate₁, hstate, Option.getD_some] at hr
  cases ha : readOnWith p.reader p.visitAt none l.cuts (w.file identity l) (some seen) l.now state with
  | error stop =>
    rw [ha] at hr
    cases stop with
    | reread =>
      have never : Stop.reread ≠ .reread := readOnWith_fails (Q := (· ≠ .reread))
        cannotHold_ne
        (fun state record index begins stop hv h => plain.visits state record index begins (h ▸ hv)) ha
      exact absurd rfl never
    | failed reason => cases hr
    | io error => cases hr
  | ok answer =>
    obtain ⟨answer, state'⟩ := answer
    have theFile := goes_on plain.lawful hat kept goes l.cuts l.mtime l.now ha
    rw [ha] at hr
    cases hc : check (w.file identity l) seen l.now with
    | some answer' =>
      rw [readOnWith_check hc] at ha
      cases ha
      cases answer with
      | notTheFile => exact absurd rfl theFile
      | unchanged =>
        dsimp only at hr
        rw [plain.flush] at hr
        cases hr
        exact ⟨seen, rfl, went_same (check_unchanged hc).1 seen.looked⟩
      | held seen' =>
        dsimp only at hr
        rw [plain.flush] at hr
        cases hr
        obtain ⟨rfl, same_, -⟩ := check_held hc
        exact ⟨_, rfl, went_same same_ l.now⟩
      | read seen' => exact absurd hc check_not_read
    | none =>
      rcases readOnWith_read plain.lawful (visited_keeps _ _) (some seen) ⟨_, hat⟩ hc ha with
        e | ⟨s, unfinished, -, -, -, e, -⟩
      · cases e
        exact absurd rfl theFile
      · cases e
        dsimp only at hr
        rw [plain.flush] at hr
        cases hr
        obtain ⟨places, records⟩ := readOnWith_grows hc ha
        refine ⟨_, rfl, places, fun since torn same_ => ?_, records⟩
        obtain ⟨tail, line, more, rest, hline, tornLine⟩ := hat.torn (by rw [torn]; exact Option.some_ne_none since)
        have left : (w.file identity l).bytes.drop seen.offset =
            line ++ newline :: (more ++ l.more) := by
          show (w.bytes ++ l.more).drop seen.offset = _
          rw [(grown hat l.more).2.1, rest, List.append_assoc]
          rfl
        exact readOnWith_stays hc tail torn left hline tornLine ha same_

/-! ## 5. Each torn line is counted -/

/-- The torn lines of some bytes before the last of their records, or past their wait: they are counted,
    and those left have no record after them. -/
def Counted (all : Tally V) (lost : List Nat) : Prop :=
  ∃ more, all.torn = lost ++ more ∧ ∀ place ∈ more, place = all.records.length

/-- Torn lines with a record after them are counted. -/
theorem Counted.followed {all : Tally V} {lost torn : List Nat} (h : Counted all lost)
    (torn_ : torn <+: all.torn) {count : Nat} (places : ∀ place ∈ torn, place ≤ count)
    (more : count < all.records.length) : torn <+: lost := by
  obtain ⟨rest, whole, last⟩ := h
  rw [whole] at torn_
  rcases List.prefix_or_prefix_of_prefix torn_ (List.prefix_append lost rest) with
    counted | ⟨waiting, rfl⟩
  · exact counted
  · cases waiting with
    | nil => exact (List.append_nil lost).symm ▸ List.prefix_rfl
    | cons place waiting =>
      have before := places place (List.mem_append_right _ List.mem_cons_self)
      have after := last place
        (((List.prefix_append_right_inj lost).1 torn_).subset List.mem_cons_self)
      omega

/-- A transcript after a look that read: where the look stopped, and what it says of the bytes. -/
theorem Transcript.Holds.counted (h : w.Holds p path identity) (hseen : w.followed.seen = some seen)
    (hstate : w.followed.state = some state) : ∃ all, tally p.reader w.bytes = some all ∧
      Visited p.visitAt (p.fresh path) all.records state ∧ Counted all seen.passedOver ∧
      seen.records = all.records.length ∧ (seen.tornSince = none → all.torn = seen.passedOver) ∧
      ∀ since, seen.tornSince = some since → since ≤ w.time := by
  have kept := h.kept
  unfold Followed.Holds at kept
  rw [hseen] at kept
  obtain ⟨state', v, hstate', ⟨lines, before, all, hof⟩, kept⟩ := kept
  cases kept.bytes
  cases hstate.symm.trans hstate'
  obtain ⟨more, torn, places⟩ := hof.later
  refine ⟨all, hof.entire, hof.has, ⟨more, by rw [torn, hof.passed], places⟩, hof.count, ?_, kept.since⟩
  exact fun none_ => (hof.stands none_).trans hof.passed

/-- What a look's answer says of the bytes, read afresh: the state a fresh parser comes to, each record
    visited once, in order, with the indexes 0, 1, 2, ...; the torn lines counted, which stay counted
    from look to look that goes on, and those it leaves are counted once they waited. -/
structure Afresh (p : Parser V P) (path : String) (identity : Nat) (w : Transcript P) (read : Read P)
    (all : Tally V) : Prop where
  tallied : tally p.reader w.bytes = some all
  visited : visitFrom p.visitAt (p.fresh path) 0 all.records = .ok read.state
  fresh : ∀ mtime cuts now, ∃ seen, readOnWith p.reader p.visitAt none cuts
    ⟨identity, mtime, w.bytes⟩ none now (p.fresh path) = .ok (.read seen, read.state)
  counted : Counted all read.lost
  stays : ∀ w' read', Onward p path identity w read w' read' → read.lost <+: read'.lost
  waited : ∀ w' read', Onward p path identity w read w' read' → w.time + tornWaitMs ≤ w'.time →
    all.torn <+: read'.lost

/-- The looks after one that read: the torn lines it found are counted, or wait still. -/
theorem onward_counts (plain : Plain p) (h : w.Holds p path identity) {read read' : Read P}
    (hseen : w.followed.seen = some seen) (hstate : w.followed.state = some state)
    (lost : read.lost = seen.passedOver) {all : Tally V} (tallied : tally p.reader w.bytes = some all)
    (onward : Onward p path identity w read w' read') :
    w'.Holds p path identity ∧ (∃ more, w'.bytes = w.bytes ++ more) ∧ ∃ seen' state',
      w'.followed.seen = some seen' ∧ w'.followed.state = some state' ∧
      read'.lost = seen'.passedOver ∧ read.lost <+: read'.lost ∧
      (all.torn <+: read'.lost ∨ ∃ since, seen'.tornSince = some since ∧ since ≤ w.time ∧
        seen'.records = all.records.length ∧ w'.time < w.time + tornWaitMs) := by
  induction onward with
  | refl =>
    obtain ⟨all', tallied', -, -, count, stands, since⟩ := h.counted hseen hstate
    cases tallied.symm.trans tallied'
    refine ⟨h, ⟨[], (List.append_nil _).symm⟩, seen, state, hseen, hstate, lost, List.prefix_rfl, ?_⟩
    cases ht : seen.tornSince with
    | none =>
      rw [lost, ← stands ht]
      exact .inl List.prefix_rfl
    | some found =>
      refine .inr ⟨found, rfl, since found ht, count, ?_⟩
      have : tornWaitMs = 5000 := rfl
      omega
  | @look w₁ w₂ read₁ read₂ _ l later goes looked ih =>
    obtain ⟨holds₁, ⟨more₁, bytes₁⟩, seen₁, state₁, hseen₁, hstate₁, lost₁, grows₁, counts₁⟩ := ih
    obtain ⟨holds₂, answered⟩ := look_holds plain holds₁ later looked
    obtain ⟨hstate₂, seen₂, hseen₂, lost₂⟩ := answered read₂ rfl
    obtain ⟨f₂, -, e₂⟩ := look_eq looked
    obtain ⟨seen₂', hseen₂', went⟩ := look_went plain holds₁ hseen₁ goes looked
    cases hseen₂.symm.trans hseen₂'
    have places : read₁.lost <+: read₂.lost := lost₁ ▸ lost₂ ▸ went.places
    have bytes₂ : w₂.bytes = w.bytes ++ (more₁ ++ l.more) := by
      rw [e₂, ← List.append_assoc, ← bytes₁]
    refine ⟨holds₂, ⟨_, bytes₂⟩, seen₂, read₂.state, hseen₂, hstate₂, lost₂, grows₁.trans places, ?_⟩
    rcases counts₁ with counted | ⟨since, torn, found, count, -⟩
    · exact .inl (counted.trans places)
    · obtain ⟨all₂, tallied₂, -, counted₂, count₂, stands₂, -⟩ := holds₂.counted hseen₂ hstate₂
      rw [bytes₂] at tallied₂
      obtain ⟨torn_, places_⟩ := tally_torn tallied tallied₂
      rw [lost₂]
      by_cases same_ : seen₂.records = seen₁.records
      · have waits := went.waits since torn same_
        by_cases over_ : waited l.now since = true
        · rw [if_pos over_] at waits
          rw [← stands₂ waits]
          exact .inl torn_
        · rw [if_neg over_] at waits
          refine .inr ⟨since, waits, found, same_.trans count, ?_⟩
          have over_ : ¬ tornWaitMs ≤ l.now - since := fun h => over_ (decide_eq_true h)
          have now : w₂.time = l.now := by rw [e₂]
          omega
      · refine .inl (counted₂.followed torn_ places_ ?_)
        have := went.records
        omega

/-- **Following a transcript is reading it afresh**: every look at a file that grows answers, and one
    that reads says what the bytes read once from the start say. -/
theorem following (plain : Plain p) (h : Follows p path identity w) (l : Look)
    (later : w.time ≤ l.now) : ∃ outcome w', w.look p path identity l = some (outcome, w') ∧
      ∀ read, outcome = .ok (some read) → ∃ all, Afresh p path identity w' read all := by
  have holds := follows_hold plain h
  obtain ⟨outcome, w', looked⟩ := look_answers plain holds l
  refine ⟨outcome, w', looked, fun read answer => ?_⟩
  obtain ⟨holds', answered⟩ := look_holds plain holds later looked
  obtain ⟨hstate, seen, hseen, lost⟩ := answered read answer
  obtain ⟨all, tallied, visited, counted, -⟩ := holds'.counted hseen hstate
  refine ⟨all, tallied, visited, fun mtime cuts now => ?_, lost ▸ counted, fun w'' read'' onward => ?_,
    fun w'' read'' onward waited_ => ?_⟩
  · exact fresh_reads plain.lawful tallied visited cuts now
  · obtain ⟨-, -, _, _, -, -, -, stays, -⟩ := onward_counts plain holds' hseen hstate lost tallied onward
    exact stays
  · obtain ⟨-, -, _, _, -, -, -, -, counts⟩ := onward_counts plain holds' hseen hstate lost tallied onward
    rcases counts with counted | ⟨-, -, -, -, soon⟩
    · exact counted
    · omega

end Looks

/-! ## 6. A torn line that waits again -/

/-- A parser that keeps the digits it visits. -/
def collector : Parser UInt8 (List UInt8) :=
  ⟨digits, fun state record _ _ => .ok (state ++ [record]), .ok, fun _ => []⟩

theorem collector_plain : Plain collector := ⟨digits_lawful, (fun _ _ _ _ h => nomatch h), fun _ => rfl⟩

/-- Bytes appended, and a look at `now` after them. -/
def appended (more : Bytes) (now : Int) : Look := ⟨more, 0, now, []⟩

def after (w : Transcript (List UInt8)) (l : Look) : Transcript (List UInt8) :=
  ((w.look collector "t.jsonl" 0 l).map Prod.snd).getD w

/-- What a look that read says: the state, and the torn lines counted. -/
def answerOf (w : Transcript (List UInt8)) (l : Look) : Option (List UInt8 × List Nat) :=
  (w.look collector "t.jsonl" 0 l).bind fun answer =>
    match answer.1 with
    | .ok (some read) => some (read.state, read.lost)
    | _ => none

theorem look_of_answer {w : Transcript (List UInt8)} {l : Look} {answer : List UInt8 × List Nat}
    (h : answerOf w l = some answer) : ∃ read, w.look collector "t.jsonl" 0 l =
      some (.ok (some read), after w l) ∧ read.state = answer.1 ∧ read.lost = answer.2 := by
  unfold answerOf at h
  unfold after
  cases hl : w.look collector "t.jsonl" 0 l with
  | none => rw [hl] at h; cases h
  | some found =>
    rw [hl] at h
    obtain ⟨outcome, w'⟩ := found
    cases outcome with
    | error stop => cases h
    | ok read =>
      cases read with
      | none => cases h
      | some read =>
        cases h
        exact ⟨read, rfl, rfl, rfl⟩

/-- A torn line alone, found when it was written. -/
def foundTorn : Transcript (List UInt8) := after ⟨[120, newline], .new, 0⟩ (appended [] 0)

/-- Its wait is over: it is counted. -/
def counted : Transcript (List UInt8) := after foundTorn (appended [] 5000)

/-- A record after it, still without its newline. -/
def recorded : Transcript (List UInt8) := after counted (appended [49] 6000)

theorem follows_counted : Follows collector "t.jsonl" 0 counted := by
  have first : answerOf ⟨[120, newline], .new, 0⟩ (appended [] 0) = some ([], []) := by decide
  have second : answerOf foundTorn (appended [] 5000) = some ([], [0]) := by decide
  obtain ⟨_, first, -⟩ := look_of_answer first
  obtain ⟨_, second, -⟩ := look_of_answer second
  exact .look (.look (.start _ _) _ (by decide) first) _ (by decide) second

/-- A record found after a torn line passed over, read as a fresh parser reads the two. -/
theorem following_recorded : ∃ read all, Afresh collector "t.jsonl" 0 recorded read all ∧
    read.state = [49] ∧ read.lost = [0] := by
  obtain ⟨outcome, w', looked, afresh⟩ :=
    following collector_plain follows_counted (appended [49] 6000) (by decide)
  have answer : answerOf counted (appended [49] 6000) = some ([49], [0]) := by decide
  obtain ⟨read, found, state, lost⟩ := look_of_answer answer
  cases looked.symm.trans found
  obtain ⟨all, afresh⟩ := afresh read rfl
  exact ⟨read, all, afresh, state, lost⟩

/-- **A torn line counted waits again where the last record goes on**: the record was visited before its
    newline came, so the file is read anew. -/
theorem counted_anew :
    ¬ ∀ (p : Parser UInt8 (List UInt8)) (path : String) (identity : Nat)
      (w w₁ w₂ : Transcript (List UInt8)) (l₁ l₂ : Look) (read₁ read₂ : Read (List UInt8)), Plain p →
      Follows p path identity w → w.time ≤ l₁.now → w₁.time ≤ l₂.now →
      w.look p path identity l₁ = some (.ok (some read₁), w₁) →
      w₁.look p path identity l₂ = some (.ok (some read₂), w₂) → read₁.lost <+: read₂.lost := by
  intro stays
  have third : answerOf counted (appended [49] 6000) = some ([49], [0]) := by decide
  have fourth : answerOf recorded (appended [120] 7000) = some ([], []) := by decide
  obtain ⟨read₁, third, -, lost₁⟩ := look_of_answer third
  obtain ⟨read₂, fourth, -, lost₂⟩ := look_of_answer fourth
  have lost := stays collector "t.jsonl" 0 counted recorded _ _ _ read₁ read₂ collector_plain
    follows_counted (by decide) (by decide) third fourth
  rw [lost₁, lost₂] at lost
  exact absurd (List.prefix_nil.1 lost) (List.cons_ne_nil 0 [])

end Harness
end ConsensFlow
