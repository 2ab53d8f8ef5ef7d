/-
  File:      ConsensFlow/Harness/FileTimes.lean
  Subject:   WHAT A FILE'S TIME PROVES: a transcript followed while its file is written to in any way
             (appended to, truncated, rewritten in place at any byte), each write stamped by the clock.

  * `Logged` -- a parser whose state also says what it visited since it was fresh;
  * `Runs` -- the writes and the looks, in the order of their times;
  * **`unchanged_says`** -- where each look that reads on past a settled time finds what was read
    still before it, `Unchanged` is answered of the file's records alone;
  * `stale_for_good` -- where one does not, it is answered of records the file no longer holds: the
    bytes before where the last look stopped are hashed only at a look of an unchanged size and time.
-/
import ConsensFlow.Harness.Followed

namespace ConsensFlow
namespace Harness

variable {V P : Type}

/-! ## 1. What was visited -/

/-- A parser, and the records it visited since its state was fresh, each with the byte its line begins
    at: the place of one in the list is the place it was visited with. -/
def Parser.logged (p : Parser V P) : Parser V (P × List (V × Nat)) where
  reader := p.reader
  visitAt state record index begins :=
    (p.visitAt state.1 record index begins).map fun s => (s, state.2 ++ [(record, begins)])
  flush state := (p.flush state.1).map fun s => (s, state.2)
  fresh path := (p.fresh path, [])

/-- The log is the records. -/
def Logged (records : List (V × Nat)) (state : P × List (V × Nat)) : Prop := state.2 = records

theorem logged_visits (p : Parser V P) : Keeps p.logged.visitAt Logged := by
  intro records state record begins state' has h
  cases hv : p.visitAt state.1 record records.length begins with
  | error stop =>
    have h : (p.visitAt state.1 record records.length begins).map _ = .ok state' := h
    rw [hv] at h
    cases h
  | ok s =>
    have h : (p.visitAt state.1 record records.length begins).map _ = .ok state' := h
    rw [hv] at h
    cases h
    exact congrArg (· ++ [(record, begins)]) has

theorem logged_flushes (p : Parser V P) (records : List (V × Nat)) (state state' : P × List (V × Nat))
    (has : Logged records state) (h : p.logged.flush state = .ok state') : Logged records state' := by
  cases hf : p.flush state.1 with
  | error reason =>
    have h : (p.flush state.1).map _ = .ok state' := h
    rw [hf] at h
    cases h
  | ok s =>
    have h : (p.flush state.1).map _ = .ok state' := h
    rw [hf] at h
    cases h
    exact has

/-! ## 2. Writes and looks -/

/-- The file, the transcript followed, and the clock, in the steps of a file's time. -/
structure World (P : Type) where
  file : File
  followed : Followed P
  time : Int

namespace World

/-- Milliseconds, as a look reads the clock. -/
def looksAt (time : Int) : Int := time / perMs

def write (w : World P) (time stamp : Int) (bytes : Bytes) : World P :=
  { w with file := { w.file with mtime := stamp, bytes := bytes }, time := time }

def look (p : Parser V P) (path : String) (w : World P) (time : Int) (cuts : List Nat) (fuel : Nat) :
    Option (World P) :=
  (w.followed.read p (Followed.oneFile path w.file) cuts (looksAt time) fuel).map fun answer =>
    { w with followed := answer.2, time := time }

/-- A look at `time` that reads on, past a time that settles the file, in one that is not as the last
    look left it, finds what was read still before it. -/
def Sound (w : World P) (time : Int) : Prop :=
  ∀ seen, w.followed.seen = some seen → check w.file seen (looksAt time) = none →
    same w.file seen (looksAt time) = false →
      w.file.mtime + writeTimeStep < looksAt time * perMs →
        w.file.bytes.take seen.offset = seen.read

end World

/-- The worlds some writes and looks come to: a write stamps the file with a time not after the clock,
    and a step before it at the most. -/
inductive Runs (p : Parser V P) (path : String) (Ok : World P → Int → Prop) (first : File) (time : Int) :
    World P → Prop
  | start (stamped : first.mtime ≤ time) : Runs p path Ok first time ⟨first, .new, time⟩
  | write {w : World P} (h : Runs p path Ok first time w) (t stamp : Int) (bytes : Bytes)
      (later : w.time ≤ t) (step : t - writeTimeStep ≤ stamp) (notAfter : stamp ≤ t) :
      Runs p path Ok first time (w.write t stamp bytes)
  | look {w w' : World P} (h : Runs p path Ok first time w) (t : Int) (cuts : List Nat) (fuel : Nat)
      (later : w.time ≤ t) (ok : Ok w t) (looked : w.look p path t cuts fuel = some w') :
      Runs p path Ok first time w'

/-! ## 3. What a settled time proves -/

/-- What is kept of the bytes read, at a place a look stopped: the look was before now, and where the
    file's time was settled by then, the file that has it still holds the bytes. -/
structure Trusted (file : File) (time : Int) (seen : Seen) (v : Bytes) : Prop where
  looked : seen.looked * perMs ≤ time
  settled : seen.mtime + writeTimeStep < seen.looked * perMs → file.mtime = seen.mtime →
    file.bytes = v

theorem looksAt_le (time : Int) : World.looksAt time * perMs ≤ time :=
  Int.ediv_mul_le time (by decide)

theorem lt_looksAt (time : Int) : time < (World.looksAt time + 1) * perMs :=
  Int.lt_ediv_add_one_mul_self time (by decide)

/-- A look, where it is sound. -/
theorem keeping_trusted {w : World P} {time : Int} {r : Reader V}
    {Has : List (V × Nat) → P → Prop} (ok : w.Sound time) (later : w.time ≤ time) :
    Followed.Keeping r Has w.file (World.looksAt time)
      (fun seen v => w.followed.seen = some seen ∧ Trusted w.file w.time seen v)
      (Trusted w.file time) where
  unchanged seen v state hat keep hc := ⟨Int.le_trans keep.2.looked later, keep.2.settled⟩
  held seen v state hat keep hc := by
    obtain ⟨-, same_, rest, read⟩ := check_held hc
    obtain ⟨lines, before, all, hof⟩ := hat
    refine ⟨looksAt_le time, fun settles _ => ?_⟩
    have settles : settled w.file.mtime seen.since (World.looksAt time) (World.looksAt time) = true := by
      rw [(same_spec same_).2]
      exact Bool.or_eq_true_iff.2 (.inl (decide_eq_true settles))
    rw [hof.bytes, ← read settles, ← rest, List.take_append_drop]
  read seen v state s unfinished hat keep hc := by
    refine ⟨looksAt_le time, fun settles _ => ?_⟩
    have settles : w.file.mtime + writeTimeStep < World.looksAt time * perMs := settles
    have read : w.file.bytes.take seen.offset = seen.read := by
      cases same_ : same w.file seen (World.looksAt time) with
      | false => exact ok seen keep.1 hc same_ settles
      | true =>
        exact check_none_same hc same_ (Bool.or_eq_true_iff.2 (.inl (decide_eq_true settles)))
    show w.file.bytes = seen.read ++ w.file.bytes.drop seen.offset
    rw [← read, List.take_append_drop]
  fresh s unfinished := ⟨looksAt_le time, fun _ _ => rfl⟩

/-- What holds of every world: the clock has passed the file's time, and the bytes read are trusted
    only so far. -/
structure World.Holds (r : Reader V) (path : String) (w : World (P × List (V × Nat))) : Prop where
  notAfter : w.file.mtime ≤ w.time
  sits : w.followed.Sits path
  trusted : w.followed.Holds r Logged (Trusted w.file w.time)

variable {p : Parser V P} {path : String} {first : File} {time : Int}
  {w : World (P × List (V × Nat))}

/-- **The invariant, over every run whose looks are sound.** -/
theorem runs_hold (lawful : p.reader.Lawful) (h : Runs p.logged path World.Sound first time w) :
    w.Holds p.reader path := by
  induction h with
  | start stamped => exact ⟨stamped, Followed.sits_new path, rfl⟩
  | @write w h t stamp bytes later step notAfter ih =>
    refine ⟨notAfter, ih.sits, ?_⟩
    have trusted := ih.trusted
    unfold Followed.Holds at trusted ⊢
    dsimp only [World.write]
    cases hs : w.followed.seen with
    | none =>
      rw [hs] at trusted
      exact trusted
    | some seen =>
      rw [hs] at trusted
      obtain ⟨state, v, hstate, hat, keep⟩ := trusted
      refine ⟨state, v, hstate, hat, Int.le_trans keep.looked later, fun settles same_ => ?_⟩
      -- A write since the look has a later time than one it settled.
      have same_ : stamp = seen.mtime := same_
      have := keep.looked
      omega
  | @look w w' h t cuts fuel later ok looked ih =>
    unfold World.look at looked
    cases hr : w.followed.read p.logged (Followed.oneFile path w.file) cuts (World.looksAt t) fuel with
    | none =>
      rw [hr] at looked
      cases looked
    | some answer =>
      rw [hr] at looked
      cases looked
      have kept : w.followed.Holds p.reader Logged
          fun seen v => w.followed.seen = some seen ∧ Trusted w.file w.time seen v := by
        have trusted := ih.trusted
        unfold Followed.Holds at trusted ⊢
        cases hs : w.followed.seen with
        | none =>
          rw [hs] at trusted
          exact trusted
        | some seen =>
          rw [hs] at trusted
          obtain ⟨state, v, hstate, hat, keep⟩ := trusted
          exact ⟨state, v, hstate, hat, rfl, keep⟩
      obtain ⟨sits, holds, -⟩ := Followed.read_holds (p := p.logged) lawful (logged_visits p)
        (logged_flushes p) rfl (keeping_trusted ok later) ih.sits kept hr
      exact ⟨Int.le_trans ih.notAfter later, sits, holds⟩

/-- **Unchanged is answered of the file's records alone**, in every run whose looks that read on past
    a settled time find what was read still before it: the records visited since the state was fresh
    are then the records of the file's present bytes, in order. -/
theorem unchanged_says (lawful : p.reader.Lawful)
    (h : Runs p.logged path World.Sound first time w) {t : Int} (later : w.time ≤ t) {cuts : List Nat}
    {state state' : P × List (V × Nat)} (hs : w.followed.state = some state)
    (answer : readOnWith p.reader p.logged.visitAt none cuts w.file w.followed.seen (World.looksAt t)
      state = .ok (.unchanged, state')) :
    ∃ all, tally p.reader w.file.bytes = some all ∧ state.2 = all.records := by
  obtain ⟨notAfter, -, trusted⟩ := runs_hold lawful h
  unfold Followed.Holds at trusted
  cases hseen : w.followed.seen with
  | none =>
    rw [hseen] at trusted
    rw [trusted] at hs
    cases hs
  | some seen =>
    rw [hseen] at trusted answer
    obtain ⟨state₀, v, hstate, ⟨lines, before, all, hof⟩, keep⟩ := trusted
    cases hstate.symm.trans hs
    cases hc : check w.file seen (World.looksAt t) with
    | none =>
      rcases readOnWith_read (r := p.reader) lawful (logged_visits p) (some seen)
        ⟨v, lines, before, all, hof⟩ hc answer with e | ⟨_, _, _, _, _, e, -⟩
      · cases e
      · cases e
    | some looked =>
      rw [readOnWith_check hc] at answer
      cases answer
      obtain ⟨same_, settled_⟩ := check_unchanged hc
      have now := lt_looksAt t
      have bytes : w.file.bytes = v := by
        refine keep.settled ?_ (same_spec same_).2
        rcases Bool.or_eq_true_iff.1 settled_ with past | ahead
        · rw [← (same_spec same_).2]
          exact of_decide_eq_true past
        · -- A file dated ahead of the clock: none is, by a clock that stamps every write.
          have ahead := of_decide_eq_true (Bool.and_eq_true_iff.1 ahead).2
          have step : writeTimeStep = 2000 * perMs := rfl
          have perMs_ : perMs = 4096 := rfl
          rw [step, perMs_] at ahead
          rw [perMs_] at now
          omega
      exact ⟨all, bytes ▸ hof.entire, hof.has⟩

/-! ## 4. A rewrite unseen -/

/-- A parser that takes every record and says nothing of them. -/
def silent : Parser UInt8 Unit := ⟨digits, fun _ _ _ _ => .ok (), .ok, fun _ => ()⟩

/-- A digit, spaces past the edge, and the newline. -/
def page (byte : UInt8) : Bytes := byte :: List.replicate 1030 32 ++ [newline]

/-- A page found at the start of the clock. -/
def opened : World (Unit × List (UInt8 × Nat)) := ⟨⟨0, 0, page 49⟩, .new, 0⟩

/-- A look in a world, `ms` milliseconds past the start of the clock. -/
def lookedAt (w : World (Unit × List (UInt8 × Nat))) (ms : Int) : World (Unit × List (UInt8 × Nat)) :=
  (w.look silent.logged "t.jsonl" (ms * perMs) [] 2).getD w

/-- The page is rewritten in place ten seconds after the first look, and looked at three seconds
    later. -/
def rewritten : World (Unit × List (UInt8 × Nat)) :=
  lookedAt ((lookedAt opened 0).write (10000 * perMs) (10000 * perMs) (page 50)) 13000

theorem runs_lookedAt {Ok : World (Unit × List (UInt8 × Nat)) → Int → Prop} {first : File} {time : Int}
    {w : World (Unit × List (UInt8 × Nat))} (h : Runs silent.logged "t.jsonl" Ok first time w) (ms : Int)
    (later : w.time ≤ ms * perMs) (ok : Ok w (ms * perMs))
    (ends : (w.look silent.logged "t.jsonl" (ms * perMs) [] 2).isSome = true) :
    Runs silent.logged "t.jsonl" Ok first time (lookedAt w ms) := by
  refine .look h (ms * perMs) [] 2 later ok ?_
  obtain ⟨w', hw⟩ := Option.isSome_iff_exists.1 ends
  rw [lookedAt, hw]
  rfl

/-- A record read, and then another appended, before a look more than a step later. -/
def writtenOn : World (Unit × List (UInt8 × Nat)) :=
  (lookedAt ⟨⟨0, 0, [49, newline]⟩, .new, 0⟩ 0).write (10000 * perMs) (10000 * perMs)
    [49, newline, 50, newline]

def readOn : World (Unit × List (UInt8 × Nat)) := lookedAt writtenOn 13000

/-- The look reads on, and finds what was read still before it. -/
theorem runs_readOn : Runs silent.logged "t.jsonl" World.Sound ⟨0, 0, [49, newline]⟩ 0 readOn := by
  have first : Runs silent.logged "t.jsonl" World.Sound ⟨0, 0, [49, newline]⟩ 0
      (lookedAt ⟨⟨0, 0, [49, newline]⟩, .new, 0⟩ 0) :=
    runs_lookedAt (.start (by decide)) 0 (by decide) (fun _ h => nomatch h) (by decide +kernel)
  refine runs_lookedAt (.write first _ _ _ (by decide +kernel) (by decide) (by decide)) 13000
    (by decide +kernel) (fun seen hs _ _ _ => ?_) (by decide +kernel)
  have still : (writtenOn.followed.seen.all fun seen =>
      writtenOn.file.bytes.take seen.offset == seen.read) = true := by decide +kernel
  have hs : writtenOn.followed.seen = some seen := hs
  rw [hs] at still
  exact beq_iff_eq.1 still

/-- The file is unchanged then, and its two records are those visited. -/
theorem unchanged_says_readOn :
    ∃ all, tally digits readOn.file.bytes = some all ∧
      [((49 : UInt8), 0), (50, 2)] = all.records := by
  have unchanged : readOnWith silent.logged.reader silent.logged.visitAt none [] readOn.file
      readOn.followed.seen (World.looksAt (13001 * perMs)) ((), [(49, 0), (50, 2)]) =
        .ok (.unchanged, ((), [(49, 0), (50, 2)])) := by decide +kernel
  have state : readOn.followed.state = some ((), [(49, 0), (50, 2)]) := by decide +kernel
  exact unchanged_says digits_lawful runs_readOn (by decide +kernel) state unchanged

/-- **A record rewritten in place, more than an edge before the end, is not seen by a look more than a
    step after the write**, and then for good: the file is unchanged, and its record was never
    visited. -/
theorem stale_for_good :
    ¬ ∀ (p : Parser UInt8 Unit) (path : String) (first : File) (time : Int)
      (w : World (Unit × List (UInt8 × Nat))), p.reader.Lawful →
      Runs p.logged path (fun _ _ => True) first time w → ∀ t, w.time ≤ t → ∀ cuts state state',
      w.followed.state = some state →
      readOnWith p.reader p.logged.visitAt none cuts w.file w.followed.seen (World.looksAt t) state =
        .ok (.unchanged, state') →
      ∃ all, tally p.reader w.file.bytes = some all ∧ state.2 = all.records := by
  intro always
  let seenFirst := lookedAt opened 0
  let written := seenFirst.write (10000 * perMs) (10000 * perMs) (page 50)
  obtain ⟨ends, ends', first_, last_, state, unchanged, now⟩ :
      (opened.look silent.logged "t.jsonl" (0 * perMs) [] 2).isSome = true ∧
      (written.look silent.logged "t.jsonl" (13000 * perMs) [] 2).isSome = true ∧
      seenFirst.time ≤ 10000 * perMs ∧ rewritten.time ≤ 13001 * perMs ∧
      rewritten.followed.state = some ((), [(49, 0)]) ∧
      rewritten.followed.seen.bind (fun seen =>
        check rewritten.file seen (World.looksAt (13001 * perMs))) = some .unchanged ∧
      (tally digits rewritten.file.bytes).map Tally.records = some [(50, 0)] := by
    decide +kernel
  have first : Runs silent.logged "t.jsonl" (fun _ _ => True) opened.file 0 seenFirst :=
    runs_lookedAt (.start (by decide)) 0 (by decide) trivial ends
  have run : Runs silent.logged "t.jsonl" (fun _ _ => True) opened.file 0 rewritten :=
    runs_lookedAt (.write first (10000 * perMs) (10000 * perMs) (page 50) first_ (by decide)
      (by decide)) 13000 (by decide) trivial ends'
  cases hseen : rewritten.followed.seen with
  | none =>
    rw [hseen] at unchanged
    cases unchanged
  | some seen =>
    rw [hseen, Option.bind_some] at unchanged
    obtain ⟨all, hall, records⟩ := always silent "t.jsonl" opened.file 0 rewritten digits_lawful run
      (13001 * perMs) last_ [] ((), [(49, 0)]) ((), [(49, 0)]) state
      (by rw [hseen]; exact readOnWith_check unchanged)
    rw [show tally digits rewritten.file.bytes = some all from hall, Option.map_some, ← records] at now
    exact absurd now (by decide)

end Harness
end ConsensFlow
