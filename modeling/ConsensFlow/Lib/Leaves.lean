/-
  File:      ConsensFlow/Lib/Leaves.lean
  Subject:   WHAT A PROGRAM DOES BESIDE WHAT ITS TYPE SAYS: a relation that every run of it respects,
             and a reading of the state that no run of it changes.

  * `Txn.Respects Q m` -- every run of `m` that succeeds relates its first and its last state by `Q`;
  * one lemma for each step a program is made of: a proof that a program respects a relation follows
    the program;
  * `Txn.Leaves f m` -- every run of `m` that succeeds leaves what `f` reads of the state.
-/
import ConsensFlow.Lib.Txn

namespace Lib
namespace Txn

variable {σ ε : Type} {R P : σ → σ → Prop} {α β γ : Type}

/-! ## 1. A relation -/

/-- A program whose successful runs relate their first and their last state by `Q`. -/
def Respects (Q : σ → σ → Prop) (m : Txn σ ε R α) : Prop :=
  ∀ s a s', m.run s = .ok (a, s') → Q s s'

namespace Respects

section Steps

variable {Q : σ → σ → Prop}

theorem refuse (e : ε) : Respects Q (refuse e : Txn σ ε R α) := by
  intro s b s' h
  exact (run_refuse_ok.mp h).elim

theorem map [Frame R] {m : Txn σ ε R α} (g : α → β) (h : Respects Q m) : Respects Q (g <$> m) := by
  intro s b s' run
  obtain ⟨a, h1, -⟩ := run_map_ok.mp run
  exact h s a s' h1

theorem ite {c : Prop} [Decidable c] {m n : Txn σ ε R α} (h : Respects Q m) (k : Respects Q n) :
    Respects Q (if c then m else n) := by
  split
  · exact h
  · exact k

theorem write {g : σ → σ} {h : ∀ s, R s (g s)} (each : ∀ s, Q s (g s)) :
    Respects Q (write g h : Txn σ ε R Unit) := by
  intro s b s' run
  rw [← run_write_ok.mp run]
  exact each s

theorem lift {h : ∀ s s', R s s' → P s s'} {m : Txn σ ε R α} (k : Respects Q m) :
    Respects Q (lift h m) := k

theorem inWrite {m : Txn σ ε R α} (h : Respects Q m) : Respects Q m.inWrite := h

variable [Frame Q]

theorem pure [Frame R] (a : α) : Respects Q (pure a : Txn σ ε R α) := by
  intro s b s' h
  rw [← (run_pure_ok.mp h).2]
  exact Frame.refl s

theorem require [Frame R] (c : Bool) (e : ε) : Respects Q (require c e : Txn σ ε R Unit) := by
  intro s b s' h
  rw [← (run_require_ok.mp h).2]
  exact Frame.refl s

theorem found [Frame R] (o : Option α) (e : ε) : Respects Q (found o e : Txn σ ε R α) := by
  intro s b s' h
  rw [← (run_found_ok.mp h).2]
  exact Frame.refl s

theorem state [Frame R] : Respects Q (state : Txn σ ε R σ) := by
  intro s b s' h
  rw [← (run_state_ok.mp h).2]
  exact Frame.refl s

theorem bind [Frame R] {m : Txn σ ε R α} {k : α → Txn σ ε R β} (h : Respects Q m)
    (hk : ∀ a, Respects Q (k a)) : Respects Q (m >>= k) := by
  intro s b s' run
  obtain ⟨a, s1, h1, h2⟩ := run_bind_ok.mp run
  exact Frame.trans (h s a s1 h1) (hk a s1 b s' h2)

theorem doWhen [Frame R] (c : Bool) {m : Txn σ ε R Unit} (h : Respects Q m) :
    Respects Q (doWhen c m) := by
  intro s b s' run
  rcases run_doWhen_ok.mp run with ⟨-, run⟩ | ⟨-, rfl⟩
  · exact h s b s' run
  · exact Frame.refl s

theorem forM [Frame R] {xs : List α} {k : α → Txn σ ε R PUnit} (h : ∀ x, Respects Q (k x)) :
    Respects Q (xs.forM k) := by
  induction xs with
  | nil => exact .pure _
  | cons x xs ih => exact .bind (h x) fun _ => ih

theorem mapM [Frame R] {xs : List α} {k : α → Txn σ ε R β} (h : ∀ x, Respects Q (k x)) :
    Respects Q (xs.mapM k) := by
  induction xs with
  | nil =>
    rw [List.mapM_nil]
    exact .pure _
  | cons x xs ih =>
    rw [List.mapM_cons]
    exact .bind (h x) fun _ => .bind ih fun _ => .pure _

end Steps

end Respects

/-! ## 2. A reading -/

/-- Two states of which `f` reads the same. -/
def Same (f : σ → γ) (s s' : σ) : Prop := f s' = f s

instance (f : σ → γ) : Frame (Same f) := ⟨fun _ => rfl, fun h k => Eq.trans k h⟩

/-- A program that leaves what `f` reads of the state as it was. -/
abbrev Leaves (f : σ → γ) (m : Txn σ ε R α) : Prop := Respects (Same f) m

/-- A program that leaves what a relation asks of respects it. -/
theorem Respects.of_leaves {Q : σ → σ → Prop} {f : σ → γ} {m : Txn σ ε R α} (h : Leaves f m)
    (each : ∀ s s', f s' = f s → Q s s') : Respects Q m :=
  fun s a s' run => each s s' (h s a s' run)

end Txn
end Lib
