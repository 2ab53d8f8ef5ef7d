/-
  File:      ConsensFlow/Lib/Txn.lean
  Subject:   TRANSACTIONS THAT CARRY WHAT THEY KEEP: a fallible state transformer together with
             a proof that every successful run stays within a relation `R` of its start.

  * `Frame R` -- `R` may hold a chain of writes: it is reflexive and transitive;
  * `Txn σ ε R α` -- a program over the state `σ` with refusals `ε`; its field `within` says
    that a run that succeeds relates its first and its last state by `R`. A refused run has no
    last state: the caller keeps the first. Its field `work` is the program as it asks
    a connection: its statements one by one and the writes it is nested of (`inWrite`), every
    error passed on (`propagates`), which come to the run where nothing fails (`plain`);
  * the monad, `require`, `state`, `write`, `lift` and `narrow` -- each with the one lemma that says
    when it succeeds (`run_bind_ok`, `run_require_ok`, …). A proof takes a program apart with
    them and never unfolds the monad;
  * `run_forM_ok` -- the rule for a loop over a list: what one round keeps, the loop keeps.
-/
import Mathlib
import ConsensFlow.Lib.Nested

namespace Lib

/-- A relation that a chain of writes may be held to. -/
class Frame {σ : Type} (R : σ → σ → Prop) : Prop where
  refl : ∀ s, R s s
  trans : ∀ {a b c}, R a b → R b c → R a c

/-- A program over `σ` that may be refused with `ε`, whose successful runs stay within `R`. -/
structure Txn (σ ε : Type) (R : σ → σ → Prop) (α : Type) where
  run : σ → Except ε (α × σ)
  within : ∀ {s a s'}, run s = .ok (a, s') → R s s'
  work : Work σ ε α
  propagates : work.Propagates
  plain : ∀ s, work.flat s = run s

namespace Txn

variable {σ ε : Type} {R Q : σ → σ → Prop} {α β : Type}

/-! ## 1. The monad -/

/-- Runs `m`, then what `f` makes of its answer; a refusal ends it. -/
def runBind (m : Txn σ ε R α) (f : α → Txn σ ε R β) (s : σ) : Except ε (β × σ) :=
  match m.run s with
  | .error e => .error e
  | .ok (a, s') => (f a).run s'

theorem runBind_ok {m : Txn σ ε R α} {f : α → Txn σ ε R β} {s : σ} {b : β} {s'' : σ} :
    runBind m f s = .ok (b, s'') ↔
      ∃ a s', m.run s = .ok (a, s') ∧ (f a).run s' = .ok (b, s'') := by
  unfold runBind
  cases h : m.run s with
  | error e => simp
  | ok r =>
    obtain ⟨a, s'⟩ := r
    constructor
    · exact fun hf => ⟨a, s', rfl, hf⟩
    · rintro ⟨a, s', e, hf⟩
      cases e
      exact hf

theorem plain_bind (m : Txn σ ε R α) (f : α → Txn σ ε R β) (s : σ) :
    (m.work.bind fun a => (f a).work).flat s = runBind m f s := by
  rw [Work.flat_bind, m.plain, runBind]
  cases m.run s with
  | error e => rfl
  | ok r => exact (f r.1).plain r.2

instance [Frame R] : Monad (Txn σ ε R) where
  pure a := {
    run := fun s => .ok (a, s)
    within := by
      intro s b s' h
      cases h
      exact Frame.refl s
    work := .pure a
    propagates := trivial
    plain := fun _ => rfl }
  bind m f := {
    run := runBind m f
    within := by
      intro s b s'' h
      obtain ⟨a, s', hm, hf⟩ := runBind_ok.mp h
      exact Frame.trans (m.within hm) ((f a).within hf)
    work := m.work.bind fun a => (f a).work
    propagates := m.propagates.bind fun a => (f a).propagates
    plain := plain_bind m f }

/-- A program is what it asks a connection. -/
theorem ext_work {m n : Txn σ ε R α} (h : m.work = n.work) : m = n := by
  have runs : m.run = n.run := by
    funext s
    rw [← m.plain, ← n.plain, h]
  obtain ⟨f, _, w, _, _⟩ := m
  obtain ⟨g, _, v, _, _⟩ := n
  obtain rfl : f = g := runs
  obtain rfl : w = v := h
  rfl

theorem run_bind_of_ok [Frame R] {m : Txn σ ε R α} {f : α → Txn σ ε R β} {s s' : σ} {a : α}
    (h : m.run s = .ok (a, s')) : (m >>= f).run s = (f a).run s' := by
  show runBind m f s = (f a).run s'
  rw [runBind, h]

theorem bind_pure_self [Frame R] (m : Txn σ ε R α) : (m >>= fun a => pure a) = m :=
  ext_work (Work.bind_pure m.work)

theorem bind_bind [Frame R] {γ : Type} (m : Txn σ ε R α) (f : α → Txn σ ε R β)
    (g : β → Txn σ ε R γ) : (m >>= f >>= g) = (m >>= fun a => f a >>= g) :=
  ext_work (Work.bind_assoc m.work (fun a => (f a).work) fun b => (g b).work)

instance [Frame R] : LawfulMonad (Txn σ ε R) :=
  LawfulMonad.mk' _ bind_pure_self (fun _ _ => rfl) bind_bind

@[simp] theorem run_bind_ok [Frame R] {m : Txn σ ε R α} {f : α → Txn σ ε R β} {s : σ} {b : β}
    {s'' : σ} : (m >>= f).run s = .ok (b, s'') ↔
      ∃ a s', m.run s = .ok (a, s') ∧ (f a).run s' = .ok (b, s'') := runBind_ok

@[simp] theorem run_pure_ok [Frame R] {a b : α} {s s' : σ} :
    (pure a : Txn σ ε R α).run s = .ok (b, s') ↔ a = b ∧ s = s' := by
  show (Except.ok (a, s) : Except ε (α × σ)) = .ok (b, s') ↔ _
  simp

@[simp] theorem run_map_ok [Frame R] {m : Txn σ ε R α} {f : α → β} {s : σ} {b : β} {s' : σ} :
    (f <$> m).run s = .ok (b, s') ↔ ∃ a, m.run s = .ok (a, s') ∧ f a = b := by
  show runBind m (fun a => pure (f a)) s = .ok (b, s') ↔ _
  rw [runBind_ok]
  constructor
  · rintro ⟨a, s1, hm, hf⟩
    obtain ⟨rfl, rfl⟩ := run_pure_ok.mp hf
    exact ⟨a, hm, rfl⟩
  · rintro ⟨a, hm, rfl⟩
    exact ⟨a, s', hm, run_pure_ok.mpr ⟨rfl, rfl⟩⟩

/-! ## 2. The steps a program is made of -/

/-- One statement, with what is read of it; an error of it is passed on. -/
def statement (f : σ → Except ε (α × σ)) (h : ∀ {s a s'}, f s = .ok (a, s') → R s s') :
    Txn σ ε R α where
  run := f
  within := h
  work := .stmt f .passed
  propagates := ⟨fun _ => rfl, fun _ => trivial⟩
  plain s := by
    rw [Work.flat_stmt]
    cases f s <;> rfl

/-- The state as it stands. -/
def state [Frame R] : Txn σ ε R σ := statement (fun s => .ok (s, s)) (by
  intro s a s' h
  cases h
  exact Frame.refl s)

/-- Refuses with `e`. -/
def refuse (e : ε) : Txn σ ε R α where
  run _ := .error e
  within := by
    intro s a s' h
    cases h
  work := .fail e
  propagates := trivial
  plain _ := rfl

/-- Goes on where `c` holds and refuses with `e` where it does not. -/
def require [Frame R] (c : Bool) (e : ε) : Txn σ ε R Unit := if c then pure () else refuse e

/-- Runs `m` where `c` holds. -/
def doWhen [Frame R] (c : Bool) (m : Txn σ ε R Unit) : Txn σ ε R Unit := if c then m else pure ()

/-- The value, or a refusal where there is none. -/
def found [Frame R] (o : Option α) (e : ε) : Txn σ ε R α :=
  match o with
  | some a => pure a
  | none => refuse e

/-- One write, which `R` allows from every state. -/
def write (f : σ → σ) (h : ∀ s, R s (f s)) : Txn σ ε R Unit :=
  statement (fun s => .ok ((), f s)) (by
    intro s a s' e
    cases e
    exact h s)

/-- A program of a narrower relation is one of the wider. -/
def lift (h : ∀ s s', R s s' → Q s s') (m : Txn σ ε R α) : Txn σ ε Q α :=
  { m with within := fun e => h _ _ (m.within e) }

/-- A program whose successful runs are shown to stay within a narrower relation. -/
def narrow (m : Txn σ ε R α) (h : ∀ {s a s'}, m.run s = .ok (a, s') → Q s s') : Txn σ ε Q α :=
  { m with within := h }

/-- The program in a write of its own, which joins the one it is run in, if it is run in one. -/
def inWrite (m : Txn σ ε R α) : Txn σ ε R α where
  run := m.run
  within := m.within
  work := .write m.work .passed
  propagates := ⟨m.propagates, fun _ => rfl, fun _ => trivial⟩
  plain s := by
    rw [Work.flat_write, m.plain]
    cases m.run s <;> rfl

@[simp] theorem run_state_ok [Frame R] {s a s' : σ} :
    (state : Txn σ ε R σ).run s = .ok (a, s') ↔ s = a ∧ s = s' := by
  simp [state, statement]

@[simp] theorem run_refuse_ok {e : ε} {s : σ} {a : α} {s' : σ} :
    (refuse e : Txn σ ε R α).run s = .ok (a, s') ↔ False := by
  simp [refuse]

@[simp] theorem run_require_ok [Frame R] {c : Bool} {e : ε} {s : σ} {a : Unit} {s' : σ} :
    (require c e : Txn σ ε R Unit).run s = .ok (a, s') ↔ c = true ∧ s = s' := by
  cases c <;> simp [require]

@[simp] theorem run_doWhen_ok [Frame R] {c : Bool} {m : Txn σ ε R Unit} {s : σ} {a : Unit}
    {s' : σ} : (doWhen c m).run s = .ok (a, s') ↔
      (c = true ∧ m.run s = .ok (a, s')) ∨ (c = false ∧ s = s') := by
  cases c <;> simp [doWhen]

@[simp] theorem run_found_ok [Frame R] {o : Option α} {e : ε} {s : σ} {a : α} {s' : σ} :
    (found o e : Txn σ ε R α).run s = .ok (a, s') ↔ o = some a ∧ s = s' := by
  cases o <;> simp [found]

@[simp] theorem run_write_ok {f : σ → σ} {h : ∀ s, R s (f s)} {s : σ} {a : Unit} {s' : σ} :
    (write f h : Txn σ ε R Unit).run s = .ok (a, s') ↔ f s = s' := by
  simp [write, statement]

@[simp] theorem run_lift {h : ∀ s s', R s s' → Q s s'} {m : Txn σ ε R α} {s : σ} :
    (lift h m).run s = m.run s := rfl

@[simp] theorem run_narrow {m : Txn σ ε R α} {h : ∀ {s a s'}, m.run s = .ok (a, s') → Q s s'}
    {s : σ} : (narrow m h).run s = m.run s := rfl

@[simp] theorem run_inWrite {m : Txn σ ε R α} {s : σ} : m.inWrite.run s = m.run s := rfl

@[simp] theorem run_ite {c : Prop} [Decidable c] {m n : Txn σ ε R α} {s : σ} :
    (if c then m else n).run s = if c then m.run s else n.run s := by
  split <;> rfl

/-! ## 3. Loops -/

/-- **What every round keeps, the loop keeps**: a reflexive, transitive relation that each
    round of a loop over `xs` respects relates the loop's first state and its last. -/
theorem run_forM_ok [Frame R] {P : σ → σ → Prop} (hr : ∀ s, P s s)
    (ht : ∀ {a b c}, P a b → P b c → P a c) {f : α → Txn σ ε R PUnit} {xs : List α}
    (hf : ∀ x ∈ xs, ∀ s s', (f x).run s = .ok (⟨⟩, s') → P s s') {s s' : σ} {u : PUnit}
    (h : (xs.forM f).run s = .ok (u, s')) : P s s' := by
  induction xs generalizing s with
  | nil =>
    obtain ⟨-, rfl⟩ := run_pure_ok.mp h
    exact hr s
  | cons x xs ih =>
    obtain ⟨a, s1, h1, h2⟩ := run_bind_ok.mp h
    exact ht (hf x List.mem_cons_self s s1 h1)
      (ih (fun y hy => hf y (List.mem_cons_of_mem _ hy)) h2)

/-! ## 4. Programs of one write -/

/-- A program that asks for nothing but to read. -/
abbrev Reads (m : Txn σ ε R α) : Prop := m.work.Reads

/-- A program made of one write at most, which ends it, whatever rows it is begun on. -/
def AtOnce (m : Txn σ ε R α) : Prop := ∀ s, m.work.Once s

section Reads

variable [Frame R]

theorem Reads.pure (a : α) : Reads (pure a : Txn σ ε R α) := Work.Reads.pure a

theorem Reads.state : Reads (state : Txn σ ε R σ) := by
  refine Work.Reads.read (fun s b s' h => ?_) (fun b => .pure b) fun _ => rfl
  cases h
  rfl

theorem Reads.require (c : Bool) (e : ε) : Reads (require c e : Txn σ ε R Unit) := by
  cases c with
  | true => exact Work.Reads.pure ()
  | false => exact Work.Reads.fail e

theorem Reads.found (o : Option α) (e : ε) : Reads (found o e : Txn σ ε R α) := by
  cases o with
  | some a => exact Work.Reads.pure a
  | none => exact Work.Reads.fail e

theorem Reads.bind {m : Txn σ ε R α} {k : α → Txn σ ε R β} (h : Reads m)
    (hk : ∀ a, Reads (k a)) : Reads (m >>= k) := Work.Reads.bind h hk

theorem Reads.forM {xs : List α} {k : α → Txn σ ε R PUnit} (h : ∀ x, Reads (k x)) :
    Reads (xs.forM k) := by
  induction xs with
  | nil => exact .pure _
  | cons x xs ih => exact .bind (h x) fun _ => ih

end Reads

theorem AtOnce.write {m : Txn σ ε R α} : AtOnce m.inWrite :=
  fun _ => Work.Once.write m.propagates (fun b _ _ => ⟨b, rfl⟩) fun _ => rfl

theorem AtOnce.after [Frame R] {m : Txn σ ε R α} {k : α → Txn σ ε R β} (h : Reads m)
    (hk : ∀ a, AtOnce (k a)) : AtOnce (m >>= k) := fun s => Work.Reads.once_bind h fun a => hk a s

theorem AtOnce.map [Frame R] {m : Txn σ ε R α} (f : α → β) (h : AtOnce m) : AtOnce (f <$> m) :=
  fun s => Work.Once.map (h s) f

/-! ## 5. Questions of an answer -/

/-- What holds of the answer of a program and of the state it leaves can be asked of a run. -/
instance decidableRan {α β ε : Type} {P : α → β → Prop} [∀ a b, Decidable (P a b)] :
    (e : Except ε (α × β)) → Decidable (∃ a b, e = .ok (a, b) ∧ P a b)
  | .ok (a, b) => decidable_of_iff (P a b) ⟨fun h => ⟨a, b, rfl, h⟩, by
      rintro ⟨_, _, ⟨⟩, h⟩
      exact h⟩
  | .error _ => .isFalse (by rintro ⟨_, _, h, _⟩; cases h)

end Txn
end Lib
