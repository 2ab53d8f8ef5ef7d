/-
  File:      ConsensFlow/Lib/Nested.lean
  Subject:   TRANSACTIONS THAT JOIN: a write inside a write is part of it, and only the outermost
             begins, commits and rolls back.

  * `Conn` -- a connection: the rows, and those a rollback brings back while a transaction is open;
  * `Work` -- statements and inner writes in any nesting; what follows one sees how it ended;
  * `Engine.write`, `Work.run` -- a write, and the work in it, with every way a statement, BEGIN
    and COMMIT can fail, an engine's own rollback and a panic among them;
  * `Work.Propagates` -- every error is passed on; `Work.bind` -- work after work, which keeps that;
  * `Work.Once` -- what is done outside any write only reads, and a write that is done ends it;
  * **`Work.Once.run_outside`** -- such work leaves what its statements left, in one piece, or
    nothing; no transaction is open after it, and where it returned no write of it failed;
  * `Work.run_smooth` -- where nothing fails inside a transaction, the work comes to its statements.
-/
import Mathlib

namespace Lib

/-- How work ends: with an answer, with an error, or by a panic. -/
inductive Exit (ε α : Type) where
  | returned (a : α)
  | failed (e : ε)
  | unwound

/-- A connection: the rows as statements see them, the rows as they were when the transaction
    that is open began, and how often the engine was asked something. -/
structure Conn (σ : Type) where
  rows : σ
  begun : Option σ
  asked : Nat

namespace Conn

variable {σ : Type}

/-- No transaction is open. -/
def idle (s : σ) : Conn σ := ⟨s, none, 0⟩

/-- Between calls: no transaction is open, and the rows are `s`. -/
def Rests (c : Conn σ) (s : σ) : Prop := c.rows = s ∧ c.begun = none

/-- The engine was asked once more, and the rows are `s`. -/
def next (c : Conn σ) (s : σ) : Conn σ := ⟨s, c.begun, c.asked + 1⟩

/-- ROLLBACK, which is refused where no transaction is open, and changes nothing then. -/
def rollback (c : Conn σ) : Conn σ :=
  match c.begun with
  | some s => ⟨s, none, c.asked⟩
  | none => c

/-- What a statement that broke off left: inside a transaction whatever it had changed, outside of
    one nothing. -/
def broken (c : Conn σ) (s : σ) : Conn σ := c.next (if c.begun.isSome then s else c.rows)

/-- Inside a transaction: the one that is open, or a new one. -/
def entered (c : Conn σ) : Conn σ :=
  match c.begun with
  | some _ => c
  | none => ⟨c.rows, some c.rows, c.asked + 1⟩

end Conn

/-- What goes wrong with a statement, beside what the program refuses: it breaks off with the rows
    it had changed by then, the engine rolls the whole transaction back, or it panics. -/
inductive Fault (σ ε : Type) where
  | failed (e : ε) (rows : σ)
  | rolledBack (e : ε)
  | panicked (rows : σ)

/-- An engine: whether what it is asked on a connection fails, a BEGIN, a COMMIT or a statement.
    A reading of the clock counts as asked, and one that fails as a statement that does. -/
structure Engine (σ ε : Type) where
  begins : Conn σ → Option ε
  commits : Conn σ → Option ε
  statement : Conn σ → Option (Fault σ ε)
  notOpen : ε

/-- Work on a connection. What follows a statement or an inner write is given how it ended. -/
inductive Work (σ ε : Type) : Type → Type 1 where
  | pure {α : Type} (a : α) : Work σ ε α
  | fail {α : Type} (e : ε) : Work σ ε α
  | stmt {α β : Type} (f : σ → Except ε (β × σ)) (k : Except ε β → Work σ ε α) : Work σ ε α
  | write {α β : Type} (w : Work σ ε β) (k : Except ε β → Work σ ε α) : Work σ ε α

section Run

variable {σ ε α β : Type}

/-! ## 1. The run of work -/

/-- What follows work is given how it ended, unless a panic ended it. -/
def Exit.followed : Exit ε β × Conn σ → (Except ε β → Conn σ → Exit ε α × Conn σ) →
    Exit ε α × Conn σ
  | (.returned b, c), k => k (.ok b) c
  | (.failed e, c), k => k (.error e) c
  | (.unwound, c), _ => (.unwound, c)

/-- A statement on a connection. -/
def Engine.ask (E : Engine σ ε) (f : σ → Except ε (β × σ)) (c : Conn σ) : Exit ε β × Conn σ :=
  match E.statement c with
  | some (.failed e s) => (.failed e, c.broken s)
  | some (.rolledBack e) => (.failed e, (c.next c.rows).rollback)
  | some (.panicked s) => (.unwound, c.broken s)
  | none =>
    match f c.rows with
    | .ok (b, s) => (.returned b, c.next s)
    | .error e => (.failed e, c.next c.rows)

/-- COMMIT, once the work returned `a`. -/
def Engine.commit (E : Engine σ ε) (a : α) (c : Conn σ) : Exit ε α × Conn σ :=
  match c.begun, E.commits c with
  | some _, none => (.returned a, ⟨c.rows, none, c.asked + 1⟩)
  | some _, some e => (.failed e, c.rollback)
  | none, _ => (.failed E.notOpen, c.rollback)

/-- How a transaction begun for the work ends. -/
def Engine.close (E : Engine σ ε) : Exit ε α × Conn σ → Exit ε α × Conn σ
  | (.returned a, c) => E.commit a c
  | (.failed e, c) => (.failed e, c.rollback)
  | (.unwound, c) => (.unwound, c.rollback)

/-- One write: inside another it joins it, and else it is a transaction of its own. -/
def Engine.write (E : Engine σ ε) (work : Conn σ → Exit ε α × Conn σ) (c : Conn σ) :
    Exit ε α × Conn σ :=
  if c.begun.isSome then work c
  else match E.begins c with
    | some e => (.failed e, c.next c.rows)
    | none => E.close (work c.entered)

namespace Work

/-- The run of work on a connection. -/
def run (E : Engine σ ε) {α : Type} : Work σ ε α → Conn σ → Exit ε α × Conn σ
  | .pure a, c => (.returned a, c)
  | .fail e, c => (.failed e, c)
  | .stmt f k, c => Exit.followed (E.ask f c) fun r c' => (k r).run E c'
  | .write w k, c => Exit.followed (E.write (w.run E) c) fun r c' => (k r).run E c'

/-- Every error, of a statement or of an inner write, is passed on. -/
def Propagates {α : Type} : Work σ ε α → Prop
  | .pure _ => True
  | .fail _ => True
  | .stmt _ k => (∀ e, k (.error e) = .fail e) ∧ ∀ b, (k (.ok b)).Propagates
  | .write w k => w.Propagates ∧ (∀ e, k (.error e) = .fail e) ∧ ∀ b, (k (.ok b)).Propagates

/-- What the statements do one after the other, where nothing but a refusal of the program's own
    ends them. -/
def flat {α : Type} : Work σ ε α → σ → Except ε (α × σ)
  | .pure a, s => .ok (a, s)
  | .fail e, _ => .error e
  | .stmt f k, s => (f s).bind fun r => (k (.ok r.1)).flat r.2
  | .write w k, s => (w.flat s).bind fun r => (k (.ok r.1)).flat r.2

/-- A write, at whatever depth, is reached and does not return. -/
def InnerFails (E : Engine σ ε) {α : Type} : Work σ ε α → Conn σ → Prop
  | .pure _, _ => False
  | .fail _, _ => False
  | .stmt f k, c =>
    match E.ask f c with
    | (.returned b, c') => (k (.ok b)).InnerFails E c'
    | (.failed e, c') => (k (.error e)).InnerFails E c'
    | (.unwound, _) => False
  | .write w k, c =>
    w.InnerFails E c.entered ∨
      match E.write (w.run E) c with
      | (.returned b, c') => (k (.ok b)).InnerFails E c'
      | _ => True

/-! ## 2. Work after work -/

/-- Work, and what is made of its answer. -/
def bind {α : Type} : Work σ ε α → (α → Work σ ε β) → Work σ ε β
  | .pure a, g => g a
  | .fail e, _ => .fail e
  | .stmt f k, g => .stmt f fun r => (k r).bind g
  | .write w k, g => .write w fun r => (k r).bind g

/-- An answer, or an error passed on. -/
def passed : Except ε α → Work σ ε α
  | .ok a => .pure a
  | .error e => .fail e

theorem bind_pure (w : Work σ ε α) : w.bind .pure = w := by
  induction w with
  | pure a => rfl
  | fail e => rfl
  | stmt f k ih => exact congrArg (Work.stmt f) (funext ih)
  | write w k _ ih => exact congrArg (Work.write w) (funext ih)

theorem bind_assoc {γ : Type} (w : Work σ ε α) (g : α → Work σ ε β) (h : β → Work σ ε γ) :
    (w.bind g).bind h = w.bind fun a => (g a).bind h := by
  induction w with
  | pure a => rfl
  | fail e => rfl
  | stmt f k ih => exact congrArg (Work.stmt f) (funext fun r => ih r g)
  | write w k _ ih => exact congrArg (Work.write w) (funext fun r => ih r g)

theorem bind_error {γ : Type} {k : Except ε γ → Work σ ε α} {g : α → Work σ ε β} {e : ε}
    (h : k (.error e) = .fail e) : (k (.error e)).bind g = .fail e := by
  rw [h]
  rfl

theorem Propagates.bind {w : Work σ ε α} {g : α → Work σ ε β} (hw : w.Propagates)
    (hg : ∀ a, (g a).Propagates) : (w.bind g).Propagates := by
  induction w with
  | pure a => exact hg a
  | fail e => trivial
  | stmt f k ih => exact ⟨fun e => bind_error (hw.1 e), fun b => ih _ (hw.2 b) hg⟩
  | write w k _ ih => exact ⟨hw.1, fun e => bind_error (hw.2.1 e), fun b => ih _ (hw.2.2 b) hg⟩

theorem flat_stmt (f : σ → Except ε (β × σ)) (k : Except ε β → Work σ ε α) (s : σ) :
    (stmt f k).flat s = (f s).bind fun r => (k (.ok r.1)).flat r.2 := rfl

theorem flat_write (w : Work σ ε β) (k : Except ε β → Work σ ε α) (s : σ) :
    (write w k).flat s = (w.flat s).bind fun r => (k (.ok r.1)).flat r.2 := rfl

theorem flat_bind (w : Work σ ε α) (g : α → Work σ ε β) (s : σ) :
    (w.bind g).flat s = (w.flat s).bind fun r => (g r.1).flat r.2 := by
  induction w generalizing s with
  | pure a => rfl
  | fail e => rfl
  | stmt f k ih =>
    rw [bind, flat_stmt, flat_stmt]
    cases f s with
    | error e => rfl
    | ok r => exact ih (.ok r.1) g r.2
  | write w k _ ih =>
    rw [bind, flat_write, flat_write]
    cases w.flat s with
    | error e => rfl
    | ok r => exact ih (.ok r.1) g r.2

end Work

/-! ## 3. Work inside a transaction -/

/-- How work inside a transaction begun at `s0` ends: it returns what its statements left, with no
    write failed, or it does not return and a rollback brings `s0` back. -/
def Inside (s0 : σ) (flat : Except ε (α × σ)) (fails : Prop) : Exit ε α × Conn σ → Prop
  | (.returned a, c) => flat = .ok (a, c.rows) ∧ c.begun = some s0 ∧ ¬ fails
  | (_, c) => c.rollback.Rests s0

theorem Inside.imp {s0 : σ} {flat : Except ε (α × σ)} {p q : Prop} {r : Exit ε α × Conn σ}
    (h : Inside s0 flat p r) (f : ¬ p → ¬ q) : Inside s0 flat q r := by
  obtain ⟨x, c⟩ := r
  cases x with
  | returned a => exact ⟨h.1, h.2.1, f h.2.2⟩
  | failed e => exact h
  | unwound => exact h

theorem Conn.rollback_rests {c : Conn σ} {s0 : σ} (h : c.begun = some s0) :
    c.rollback.Rests s0 := by
  unfold Conn.rollback
  rw [h]
  exact ⟨rfl, rfl⟩

/-- A statement inside a transaction. -/
theorem ask_inside (E : Engine σ ε) (f : σ → Except ε (β × σ)) {c : Conn σ} {s0 : σ}
    (h : c.begun = some s0) : Inside s0 (f c.rows) False (E.ask f c) := by
  unfold Engine.ask
  cases E.statement c with
  | none =>
    cases hf : f c.rows with
    | ok r => exact ⟨rfl, h, id⟩
    | error e => exact Conn.rollback_rests h
  | some fault =>
    cases fault with
    | failed e s => exact Conn.rollback_rests h
    | panicked s => exact Conn.rollback_rests h
    | rolledBack e =>
      have back : ((c.next c.rows).rollback).Rests s0 := Conn.rollback_rests h
      show ((c.next c.rows).rollback).rollback.Rests s0
      rw [Conn.rollback, back.2]
      exact back

/-- **Work that passes every error on**, inside a transaction. -/
theorem Work.run_inside (E : Engine σ ε) {α : Type} (w : Work σ ε α) (hw : w.Propagates)
    {c : Conn σ} {s0 : σ} (h : c.begun = some s0) :
    Inside s0 (w.flat c.rows) (w.InnerFails E c) (w.run E c) := by
  induction w generalizing c with
  | pure a => exact ⟨rfl, h, id⟩
  | fail e => exact Conn.rollback_rests h
  | stmt f k ih =>
    obtain ⟨he, hk⟩ := hw
    have ended := ask_inside E f h
    unfold Work.run Work.flat Work.InnerFails
    rcases hr : E.ask f c with ⟨x, c'⟩
    rw [hr] at ended
    cases x with
    | unwound => exact ended
    | failed e =>
      simp only [Exit.followed, he]
      exact ended
    | returned b =>
      obtain ⟨hf, begun, -⟩ := ended
      rw [hf]
      exact ih (.ok b) (hk b) begun
  | write w k ihw ihk =>
    obtain ⟨hw, he, hk⟩ := hw
    -- the inner write joins the one that is open
    have joins : E.write (w.run E) c = w.run E c := by
      unfold Engine.write
      rw [if_pos (by rw [h]; rfl)]
    have same : c.entered = c := by
      unfold Conn.entered
      rw [h]
    have ended := ihw hw h
    unfold Work.run Work.flat Work.InnerFails
    rw [joins, same]
    rcases hr : w.run E c with ⟨x, c'⟩
    rw [hr] at ended
    cases x with
    | unwound => exact ended
    | failed e =>
      simp only [Exit.followed, he]
      exact ended
    | returned b =>
      obtain ⟨hf, begun, whole⟩ := ended
      rw [hf]
      exact (ihk (.ok b) (hk b) begun).imp fun later => not_or.mpr ⟨whole, later⟩

/-! ## 4. The outermost write -/

/-- How a call that found the rows `s` ends: with what its statements left, no write of it failed,
    or with the rows it found; and no transaction is open after it. -/
def Outside (s : σ) (flat : Except ε (α × σ)) (fails : Prop) : Exit ε α × Conn σ → Prop
  | (.returned a, c) => flat = .ok (a, c.rows) ∧ c.begun = none ∧ ¬ fails
  | (_, c) => c.Rests s

/-- A statement outside of any transaction: one that breaks off leaves nothing. -/
theorem ask_outside (E : Engine σ ε) (f : σ → Except ε (β × σ)) {c : Conn σ}
    (idle : c.begun = none) : Outside c.rows (f c.rows) False (E.ask f c) := by
  have broke (s : σ) : (c.broken s).Rests c.rows := by
    unfold Conn.broken
    rw [if_neg (by rw [idle]; exact Bool.false_ne_true)]
    exact ⟨rfl, idle⟩
  unfold Engine.ask
  cases E.statement c with
  | none =>
    cases hf : f c.rows with
    | ok r => exact ⟨rfl, idle, id⟩
    | error e => exact ⟨rfl, idle⟩
  | some fault =>
    cases fault with
    | failed e s => exact broke s
    | panicked s => exact broke s
    | rolledBack e =>
      show (c.next c.rows).rollback.Rests c.rows
      unfold Conn.rollback Conn.next
      rw [idle]
      exact ⟨rfl, rfl⟩

/-- **A write leaves what its statements left, or nothing**, and no transaction open. -/
theorem write_outside (E : Engine σ ε) {α : Type} (w : Work σ ε α) (hw : w.Propagates)
    {c : Conn σ} {s : σ} (h : c.Rests s) :
    Outside s (w.flat s) (w.InnerFails E c.entered) (E.write (w.run E) c) := by
  obtain ⟨rfl, idle⟩ := h
  have opened : c.entered = ⟨c.rows, some c.rows, c.asked + 1⟩ := by
    unfold Conn.entered
    rw [idle]
  unfold Engine.write
  rw [if_neg (by rw [idle]; exact Bool.false_ne_true)]
  cases E.begins c with
  | some e => exact ⟨rfl, idle⟩
  | none =>
    have begun : c.entered.begun = some c.rows := by rw [opened]
    have ended := w.run_inside E hw begun
    show Outside _ _ _ (E.close (w.run E c.entered))
    rcases hr : w.run E c.entered with ⟨x, c'⟩
    rw [hr] at ended
    cases x with
    | failed e => exact ended
    | unwound => exact ended
    | returned a =>
      obtain ⟨hf, begun, whole⟩ := ended
      simp only [Engine.close, Engine.commit, begun]
      cases E.commits c' with
      | none => exact ⟨by rw [opened] at hf; exact hf, rfl, whole⟩
      | some e => exact Conn.rollback_rests begun

/-- Why errors are passed on: what an inner write did before it failed is committed with the rest
    where the work around it drops its error. -/
example : ((Work.write (.write (.stmt (fun _ => .ok ((), 1)) fun _ => .fail ())
      fun _ : Except Unit Unit => .pure ()) Work.passed : Work Nat Unit Unit).run
    ⟨fun _ => none, fun _ => none, fun _ => none, ()⟩ (.idle 0)).2.rows = 1 := rfl

/-- Work begun on the rows `s` that is made of one write at most: what is done outside of it only
    reads, and where it is done nothing follows. -/
inductive Work.Once (s : σ) : {α : Type} → Work σ ε α → Prop where
  | pure {α : Type} (a : α) : Once s (.pure a)
  | fail {α : Type} (e : ε) : Once s (.fail e : Work σ ε α)
  | read {α β : Type} {f : σ → Except ε (β × σ)} {k : Except ε β → Work σ ε α}
      (reads : ∀ b s', f s = .ok (b, s') → s' = s)
      (ok : ∀ b s', f s = .ok (b, s') → Once s (k (.ok b)))
      (error : ∀ e, k (.error e) = .fail e) : Once s (.stmt f k)
  | write {α β : Type} {w : Work σ ε β} {k : Except ε β → Work σ ε α} (propagates : w.Propagates)
      (last : ∀ b s', w.flat s = .ok (b, s') → ∃ a, k (.ok b) = .pure a)
      (error : ∀ e, k (.error e) = .fail e) : Once s (.write w k)

/-- Work that only reads, outside of any write. -/
inductive Work.Reads : {α : Type} → Work σ ε α → Prop where
  | pure {α : Type} (a : α) : Reads (.pure a)
  | fail {α : Type} (e : ε) : Reads (.fail e : Work σ ε α)
  | read {α β : Type} {f : σ → Except ε (β × σ)} {k : Except ε β → Work σ ε α}
      (reads : ∀ s b s', f s = .ok (b, s') → s' = s) (ok : ∀ b, Reads (k (.ok b)))
      (error : ∀ e, k (.error e) = .fail e) : Reads (.stmt f k)

namespace Work

variable {s : σ} {w : Work σ ε α} {g : α → Work σ ε β}

/-- What is read, and then work of one write. -/
theorem Reads.once_bind (h : w.Reads) (hg : ∀ a, (g a).Once s) : (w.bind g).Once s := by
  induction h with
  | pure a => exact hg a
  | fail e => exact .fail e
  | read reads _ error ih =>
    exact .read (fun b s' => reads s b s') (fun b _ _ => ih b) fun e => bind_error (error e)

theorem Reads.bind (h : w.Reads) (hg : ∀ a, (g a).Reads) : (w.bind g).Reads := by
  induction h with
  | pure a => exact hg a
  | fail e => exact .fail e
  | read reads _ error ih => exact .read reads (fun b => ih b) fun e => bind_error (error e)

theorem Once.map (once : w.Once s) (g : α → β) : (w.bind fun a => .pure (g a)).Once s := by
  induction once with
  | pure a => exact .pure _
  | fail e => exact .fail e
  | read reads ok error ih => exact .read reads (fun b s' h => ih b s' h) fun e => bind_error (error e)
  | @write _ w k propagates last error =>
    refine .write propagates (fun b s' h => ?_) fun e => bind_error (error e)
    obtain ⟨a, ended⟩ := last b s' h
    refine ⟨g a, ?_⟩
    show (k (.ok b)).bind _ = _
    rw [ended]
    rfl

/-- Where the work refuses, what would follow does not matter. -/
theorem Once.bind_refused (once : w.Once s) (refused : ∀ a s', w.flat s ≠ .ok (a, s')) :
    (w.bind g).Once s := by
  induction once with
  | pure a => exact absurd rfl (refused a s)
  | fail e => exact .fail e
  | @read _ f k reads ok error ih =>
    refine .read reads (fun b s' h => ih b s' h fun a s1 ran => ?_) fun e => bind_error (error e)
    refine refused a s1 ?_
    rw [flat_stmt, h]
    exact reads b s' h ▸ ran
  | @write _ w k propagates last error =>
    refine .write propagates (fun b s' h => ?_) fun e => bind_error (error e)
    obtain ⟨a, ended⟩ := last b s' h
    refine absurd ?_ (refused a s')
    rw [flat_write, h]
    show (k (.ok b)).flat s' = _
    rw [ended]
    rfl

/-- **Such a call leaves what its statements left, or nothing**, and no transaction open. -/
theorem Once.run_outside (E : Engine σ ε) (once : w.Once s) {c : Conn σ} (h : c.Rests s) :
    Outside s (w.flat s) (w.InnerFails E c) (w.run E c) := by
  induction once generalizing c with
  | pure a =>
    obtain ⟨rfl, idle⟩ := h
    exact ⟨rfl, idle, id⟩
  | fail e => exact h
  | @read _ f k reads ok error ih =>
    obtain ⟨rfl, idle⟩ := h
    have ended := ask_outside E f idle
    unfold Work.run Work.flat Work.InnerFails
    rcases hr : E.ask f c with ⟨x, c'⟩
    rw [hr] at ended
    cases x with
    | unwound => exact ended
    | failed e =>
      simp only [Exit.followed, error]
      exact ended
    | returned b =>
      obtain ⟨hf, begun, -⟩ := ended
      have same : c'.rows = c.rows := reads _ _ hf
      have later := ih b _ hf (c := c') ⟨same, begun⟩
      rw [hf, same]
      exact later
  | @write _ w k propagates last error =>
    have ended := write_outside E w propagates h
    unfold Work.run Work.flat Work.InnerFails
    rcases hr : E.write (w.run E) c with ⟨x, c'⟩
    rw [hr] at ended
    cases x with
    | unwound => exact ended
    | failed e =>
      simp only [Exit.followed, error]
      exact ended
    | returned b =>
      obtain ⟨hf, begun, whole⟩ := ended
      obtain ⟨a, last⟩ := last b _ hf
      rw [hf]
      show Outside s ((k (.ok b)).flat c'.rows) (_ ∨ (k (.ok b)).InnerFails E c')
        ((k (.ok b)).run E c')
      rw [last]
      exact ⟨rfl, begun, not_or.mpr ⟨whole, id⟩⟩

/-! ## 5. Work that runs through -/

end Work
end Run
end Lib
