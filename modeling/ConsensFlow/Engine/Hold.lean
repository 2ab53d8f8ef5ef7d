/-
  File:      ConsensFlow/Engine/Hold.lean
  Subject:   WHO HOLDS A PARTICIPANT (`cf-engine`, `runtime.rs`): one piece of work at a time, first
             come, first served.

  * `Hold`, `Stage` -- the three flags and the queue, and with them how far every piece of work
    begun on the participant is;
  * `Event`, `Stage.step` -- `try_exclusive`, `exclusive` and `act`, each with how the work's first
    poll ends; a later poll of a piece of work; a waiter that goes away;
  * `Sound`, `Settled` -- what the flags and the queue say of the works, at every moment and between
    two polls;
  * **`hold_is_fair`** -- over any run: one work runs at a time, none between a hand-over and the
    waiter's start, waiters run as they queued, and nobody waits for what nothing holds.
-/
import Mathlib

namespace ConsensFlow
namespace Engine

/-! ## 1. The hold, and the works -/

/-- The flag a piece of work sets: `running` for a step or a human's operation, `acting` for a
    launch or a delivery going on apart from the pass. -/
inductive Flag where
  | running
  | acting
  deriving DecidableEq, Repr

structure Hold where
  running : Bool
  acting : Bool
  /-- Handed to the first waiter, which has not run yet. -/
  handed : Bool
  waiting : List Nat
  deriving DecidableEq, Repr

/-- Whether some work holds the participant now. -/
def Hold.held (h : Hold) : Bool := h.running || h.acting || h.handed

def Hold.set (h : Hold) : Flag → Bool → Hold
  | .running, b => { h with running := b }
  | .acting, b => { h with acting := b }

/-- How far a piece of work is. -/
inductive Phase where
  | absent
  /-- A waiter in the queue. -/
  | queued
  /-- A waiter whose turn was given. -/
  | given
  /-- It took its turn, and goes on a turn later. -/
  | taken
  /-- It was polled first, and waits. -/
  | working (flag : Flag)
  /-- It ended, and its promises settle: the turns left. -/
  | lettingGo (flag : Flag) (turns : Nat)
  | gone
  deriving DecidableEq, Repr

/-- What a poll of a piece of work comes to. -/
inductive Polled where
  | pending
  | ready
  | panics
  deriving DecidableEq, Repr

/-- The participant's hold and every work begun on it, by number. `lined` and `began` are the
    waiters, in the order each queued and in the order each one's work began. -/
structure Stage where
  hold : Hold
  phase : Nat → Phase
  next : Nat
  lined : List Nat
  began : List Nat

/-- `LET_GO_AFTER_WAIT`. -/
def letGoAfterWait : Nat := 2

/-- `LET_GO_AFTER_START`. -/
def letGoAfterStart : Nat := 3

namespace Stage

def start : Stage where
  hold := ⟨false, false, false, []⟩
  phase _ := .absent
  next := 0
  lined := []
  began := []

/-- The stage with one work in another phase. -/
def put (s : Stage) (w : Nat) (p : Phase) : Stage :=
  { s with phase := fun x => if x = w then p else s.phase x }

def setFlag (s : Stage) (flag : Flag) (b : Bool) : Stage := { s with hold := s.hold.set flag b }

def setHanded (s : Stage) (b : Bool) : Stage := { s with hold := { s.hold with handed := b } }

/-- A work of its own. -/
def fresh (s : Stage) : Stage := { s with next := s.next + 1 }

/-- Hands the participant to the first waiter, once nothing holds it. -/
def passOn (s : Stage) : Stage :=
  if s.hold.held then s
  else match s.hold.waiting with
    | [] => s
    | w :: rest => { s with hold := { s.hold with waiting := rest, handed := true } }.put w .given

/-- `Release`'s drop. -/
def release (s : Stage) (w : Nat) (flag : Flag) : Stage :=
  ((s.setFlag flag false).put w .gone).passOn

/-- The first poll of `lasting`: nothing is held until it is done. A panic drops the release. -/
def lasting (s : Stage) (w : Nat) (flag : Flag) : Polled → Stage
  | .pending => (s.setFlag flag true).put w (.working flag)
  | .ready => (s.setFlag flag true).put w (.lettingGo flag letGoAfterStart)
  | .panics => s.release w flag

/-- A later poll of a work. -/
def poll (s : Stage) (w : Nat) (polled : Polled) : Stage :=
  match s.phase w with
  | .given => s.put w .taken
  | .taken => { s.setHanded false with began := s.began ++ [w] }.lasting w .running polled
  | .working flag =>
    match polled with
    | .pending => s
    | .ready => s.put w (.lettingGo flag letGoAfterWait)
    | .panics => s.release w flag
  | .lettingGo flag (turns + 2) => s.put w (.lettingGo flag (turns + 1))
  | .lettingGo flag _ => s.release w flag
  | .absent | .queued | .gone => s

/-- `Waiting`'s drop, before its turn was taken. -/
def leave (s : Stage) (w : Nat) : Stage :=
  match s.phase w with
  | .queued =>
    { s with hold := { s.hold with waiting := s.hold.waiting.filter (· ≠ w) } }.put w .gone
  | .given => ((s.setHanded false).put w .gone).passOn
  | _ => s

end Stage

/-- What happens to a participant: the calls, each with what the work's first poll comes to if it is
    begun in place; a poll of a work begun; a waiter gone before it took its turn. -/
inductive Event where
  | tryExclusive (polled : Polled)
  | exclusive (polled : Polled)
  | act (polled : Polled)
  | poll (w : Nat) (polled : Polled)
  | leave (w : Nat)
  deriving DecidableEq, Repr

namespace Stage

def tryExclusive (s : Stage) (polled : Polled) : Stage :=
  if s.hold.held then s else s.fresh.lasting s.next .running polled

def exclusive (s : Stage) (polled : Polled) : Stage :=
  if s.hold.held then
    { s.fresh with
      hold := { s.hold with waiting := s.hold.waiting ++ [s.next] }
      lined := s.lined ++ [s.next] }.put s.next .queued
  else s.fresh.lasting s.next .running polled

def act (s : Stage) (polled : Polled) : Stage := s.fresh.lasting s.next .acting polled

def step (s : Stage) : Event → Stage
  | .tryExclusive polled => s.tryExclusive polled
  | .exclusive polled => s.exclusive polled
  | .act polled => s.act polled
  | .poll w polled => s.poll w polled
  | .leave w => s.leave w

/-- The stage after a run. -/
def after (events : List Event) : Stage := events.foldl step start

end Stage

/-! ## 2. What the flags and the queue say -/

/-- What a work is to the hold. -/
inductive Role where
  | none
  | waits
  | handed
  | runs
  | acts
  deriving DecidableEq, Repr

def Flag.role : Flag → Role
  | running => .runs
  | acting => .acts

def Phase.role : Phase → Role
  | absent | gone => .none
  | queued => .waits
  | given | taken => .handed
  | working flag | lettingGo flag _ => flag.role

namespace Stage

variable (s : Stage)

/-- What a work is to the hold now. -/
def role (w : Nat) : Role := (s.phase w).role

/-- A work that waited, or was begun by `try_exclusive` or `exclusive`, runs. -/
def Runs (w : Nat) : Prop := s.role w = .runs

/-- A waiter was handed the participant and has not begun its work. -/
def HandedTo (w : Nat) : Prop := s.role w = .handed

/-- **What holds at every moment**, also where a flag was just let go of. -/
structure Sound : Prop where
  fresh : ∀ w, s.next ≤ w → s.phase w = .absent
  queue : ∀ w, w ∈ s.hold.waiting ↔ s.role w = .waits
  running : s.hold.running = true ↔ ∃ w, s.Runs w
  handed : s.hold.handed = true ↔ ∃ w, s.HandedTo w
  one : ∀ w w', s.Runs w ∨ s.HandedTo w → s.Runs w' ∨ s.HandedTo w' → w = w'
  acting : s.hold.acting = true → ∃ w, s.role w = .acts
  lined : s.lined.Nodup ∧ ∀ w ∈ s.lined, w < s.next
  order : ∃ mid, (∀ w, w ∈ mid ↔ s.HandedTo w) ∧ (s.began ++ (mid ++ s.hold.waiting)).Sublist s.lined

/-- **What holds between two polls.** -/
structure Settled : Prop extends s.Sound where
  free : s.hold.held = false → s.hold.waiting = []

/-! ## 3. One work changes its phase -/

section Parts

variable {s : Stage} {w : Nat} {p : Phase} {flag : Flag} {b : Bool}

@[grind =] theorem put_phase (s : Stage) (w : Nat) (p : Phase) (x : Nat) :
    (s.put w p).phase x = if x = w then p else s.phase x := rfl

@[grind =] theorem put_role (s : Stage) (w : Nat) (p : Phase) (x : Nat) :
    (s.put w p).role x = if x = w then p.role else s.role x := by
  rw [role, put_phase]
  split <;> rfl

@[simp, grind =] theorem put_hold : (s.put w p).hold = s.hold := rfl
@[simp, grind =] theorem put_next : (s.put w p).next = s.next := rfl
@[simp, grind =] theorem put_lined : (s.put w p).lined = s.lined := rfl
@[simp, grind =] theorem put_began : (s.put w p).began = s.began := rfl

@[simp, grind =] theorem setFlag_phase : (s.setFlag flag b).phase = s.phase := rfl
@[simp, grind =] theorem setFlag_role (x : Nat) : (s.setFlag flag b).role x = s.role x := rfl
@[simp, grind =] theorem setFlag_hold : (s.setFlag flag b).hold = s.hold.set flag b := rfl
@[simp, grind =] theorem setFlag_next : (s.setFlag flag b).next = s.next := rfl
@[simp, grind =] theorem setFlag_lined : (s.setFlag flag b).lined = s.lined := rfl
@[simp, grind =] theorem setFlag_began : (s.setFlag flag b).began = s.began := rfl

@[simp, grind =] theorem set_waiting (h : Hold) : (h.set flag b).waiting = h.waiting := by
  cases flag <;> rfl

@[simp, grind =] theorem set_handed (h : Hold) : (h.set flag b).handed = h.handed := by
  cases flag <;> rfl

@[grind =] theorem set_running (h : Hold) :
    (h.set flag b).running = if flag = .running then b else h.running := by
  cases flag <;> rfl

@[grind =] theorem set_acting (h : Hold) :
    (h.set flag b).acting = if flag = .acting then b else h.acting := by
  cases flag <;> rfl

end Parts

attribute [grind =] Runs HandedTo

variable {s : Stage} {w : Nat} {p : Phase} {flag : Flag}

/-- **One work becomes another thing to the hold**: what the flags and the queue must say then. -/
theorem Sound.become {t : Stage} (h : s.Sound) (w : Nat)
    (others : ∀ x, x ≠ w → t.phase x = s.phase x)
    (fresh : s.next ≤ t.next ∧ w < t.next)
    (queue : ∀ x, x ∈ t.hold.waiting ↔ (x ≠ w ∧ x ∈ s.hold.waiting) ∨ (x = w ∧ t.role w = .waits))
    (running : t.hold.running = true ↔
      t.role w = .runs ∨ (s.hold.running = true ∧ s.role w ≠ .runs))
    (handed : t.hold.handed = true ↔
      t.role w = .handed ∨ (s.hold.handed = true ∧ s.role w ≠ .handed))
    (one : t.role w = .runs ∨ t.role w = .handed →
      s.role w = .runs ∨ s.role w = .handed ∨ (s.hold.running = false ∧ s.hold.handed = false))
    (acting : t.hold.acting = true → t.role w = .acts ∨ (s.hold.acting = true ∧ s.role w ≠ .acts))
    (lined : t.lined.Nodup ∧ ∀ x ∈ t.lined, x < t.next)
    (order : ∃ mid, (∀ x, x ∈ mid ↔ t.HandedTo x) ∧
      (t.began ++ (mid ++ t.hold.waiting)).Sublist t.lined) : t.Sound := by
  have role : ∀ x, x ≠ w → t.role x = s.role x := fun x hx => by rw [Stage.role, others x hx]; rfl
  constructor
  · intro x hx
    rw [others x (by omega)]
    exact h.fresh x (fresh.1.trans hx)
  · intro x
    rw [queue]
    by_cases hx : x = w
    · simp [hx]
    · simp [hx, role x hx, h.queue]
  · rw [running, h.running]
    constructor
    · rintro (hw | ⟨⟨x, hx⟩, hw⟩)
      · exact ⟨w, hw⟩
      · have other : x ≠ w := by
          rintro rfl
          exact hw hx
        exact ⟨x, (role x other).trans hx⟩
    · rintro ⟨x, hx⟩
      by_cases same : x = w
      · exact .inl (same ▸ hx)
      · have hs : s.Runs x := (role x same).symm.trans hx
        refine or_iff_not_imp_left.mpr fun _ => ⟨⟨x, hs⟩, fun hw => same ?_⟩
        exact h.one x w (.inl hs) (.inl hw)
  · rw [handed, h.handed]
    constructor
    · rintro (hw | ⟨⟨x, hx⟩, hw⟩)
      · exact ⟨w, hw⟩
      · have other : x ≠ w := by
          rintro rfl
          exact hw hx
        exact ⟨x, (role x other).trans hx⟩
    · rintro ⟨x, hx⟩
      by_cases same : x = w
      · exact .inl (same ▸ hx)
      · have hs : s.HandedTo x := (role x same).symm.trans hx
        refine or_iff_not_imp_left.mpr fun _ => ⟨⟨x, hs⟩, fun hw => same ?_⟩
        exact h.one x w (.inr hs) (.inr hw)
  · -- any other work that runs or was handed it was the only one, and `w` is not another
    have back : ∀ x, x ≠ w → t.Runs x ∨ t.HandedTo x → s.Runs x ∨ s.HandedTo x := by
      intro x hx hold
      rwa [Runs, HandedTo, role x hx] at hold
    have alone : ∀ x, x ≠ w → t.Runs x ∨ t.HandedTo x → ¬ (t.Runs w ∨ t.HandedTo w) := by
      intro x hx hold hw
      have hx' := back x hx hold
      rcases one hw with before | before | ⟨notRunning, notHanded⟩
      · exact hx (h.one x w hx' (.inl before))
      · exact hx (h.one x w hx' (.inr before))
      · rcases hx' with runs | isHanded
        · have := h.running.mpr ⟨x, runs⟩
          simp [notRunning] at this
        · have := h.handed.mpr ⟨x, isHanded⟩
          simp [notHanded] at this
    intro x y hx hy
    by_cases hxw : x = w
    · by_cases hyw : y = w
      · rw [hxw, hyw]
      · exact absurd (hxw ▸ hx) (alone y hyw hy)
    · by_cases hyw : y = w
      · exact absurd (hyw ▸ hy) (alone x hxw hx)
      · exact h.one x y (back x hxw hx) (back y hyw hy)
  · intro ht
    rcases acting ht with hw | ⟨hs, hw⟩
    · exact ⟨w, hw⟩
    · obtain ⟨x, hx⟩ := h.acting hs
      have other : x ≠ w := by
        rintro rfl
        exact hw hx
      exact ⟨x, (role x other).trans hx⟩
  · exact lined
  · exact order

/-- A work that stays what it is to the hold. -/
theorem Sound.sameRole (h : s.Sound) (known : s.phase w ≠ .absent) (same : p.role = s.role w) :
    (s.put w p).Sound := by
  have role : ∀ x, (s.put w p).role x = s.role x := by grind
  constructor
  · intro x hx
    have := h.fresh x hx
    rw [put_phase, if_neg (by rintro rfl; exact known this), this]
  · simpa only [role, put_hold] using h.queue
  · simpa only [Runs, role, put_hold] using h.running
  · simpa only [HandedTo, role, put_hold] using h.handed
  · simpa only [Runs, HandedTo, role] using h.one
  · simpa only [role, put_hold] using h.acting
  · exact h.lined
  · simpa only [HandedTo, role, put_hold, put_began, put_lined] using h.order

/-- The waiters stay in order where a work neither was nor is one. -/
theorem Sound.order_aside {t : Stage} (h : s.Sound) (others : ∀ x, x ≠ w → t.role x = s.role x)
    (before : s.role w ≠ .handed) (after : t.role w ≠ .handed) (began : t.began = s.began)
    (lined : t.lined = s.lined) (waiting : t.hold.waiting.Sublist s.hold.waiting) :
    ∃ mid, (∀ x, x ∈ mid ↔ t.HandedTo x) ∧
      (t.began ++ (mid ++ t.hold.waiting)).Sublist t.lined := by
  obtain ⟨mid, handed, sub⟩ := h.order
  refine ⟨mid, fun x => ?_, ?_⟩
  · by_cases hx : x = w
    · subst hx
      rw [handed, HandedTo, HandedTo]
      exact ⟨fun hb => absurd hb before, fun ha => absurd ha after⟩
    · rw [handed, HandedTo, HandedTo, others x hx]
  · rw [began, lined]
    exact ((List.Sublist.refl _).append ((List.Sublist.refl _).append waiting)).trans sub

/-- A waiter handed the participant stands between those that began and those that wait. -/
theorem Sound.order_handed (h : s.Sound) (before : s.HandedTo w) :
    ((s.began ++ [w]) ++ s.hold.waiting).Sublist s.lined := by
  obtain ⟨mid, handed, sub⟩ := h.order
  have here : [w].Sublist mid := List.singleton_sublist.mpr ((handed w).mpr before)
  rw [List.append_assoc]
  exact ((List.Sublist.refl _).append (here.append (List.Sublist.refl _))).trans sub

/-- Those that began stand before those that wait. -/
theorem Sound.order_waiting (h : s.Sound) : (s.began ++ s.hold.waiting).Sublist s.lined := by
  obtain ⟨mid, -, sub⟩ := h.order
  exact ((List.Sublist.refl _).append (List.sublist_append_right _ _)).trans sub

/-- Nobody is handed the participant where the flag does not say so. -/
theorem Sound.noneHanded (h : s.Sound) (free : s.hold.handed = false) (x : Nat) :
    ¬ s.HandedTo x := fun hx => by
  have := h.handed.mpr ⟨x, hx⟩
  simp [free] at this

theorem Sound.waiting_nodup (h : s.Sound) : s.hold.waiting.Nodup :=
  (List.sublist_append_right _ _).nodup (h.order_waiting.nodup h.lined.1)

theorem Sound.known (h : s.Sound) (hw : s.role w ≠ .none) : w < s.next := by
  by_contra hn
  exact hw (by rw [role, h.fresh w (Nat.le_of_not_lt hn)]; rfl)

/-! ## 4. What each part of a step does -/

/-- Passing the participant on settles it. -/
theorem Sound.passOn (h : s.Sound) : s.passOn.Settled := by
  unfold Stage.passOn
  split
  · rename_i held
    exact ⟨h, fun free => by simp [held] at free⟩
  · rename_i free
    have running : s.hold.running = false := by grind [Hold.held]
    have notHanded : s.hold.handed = false := by grind [Hold.held]
    split
    · rename_i empty
      exact ⟨h, fun _ => empty⟩
    · rename_i w rest queued
      have waits : s.role w = .waits := (h.queue w).mp (by rw [queued]; exact List.mem_cons_self)
      have nodup := h.waiting_nodup
      rw [queued] at nodup
      obtain ⟨notIn, -⟩ := List.nodup_cons.mp nodup
      refine ⟨h.become w ?_ ?_ ?_ ?_ ?_ ?_ ?_ ?_ ?_, fun free' => ?_⟩
      · intro x hx
        rw [put_phase, if_neg hx]
      · exact ⟨le_rfl, h.known (by simp [waits])⟩
      · intro x
        rw [queued]
        grind [Phase.role]
      · simp [put_role, Phase.role, running]
      · simp [put_role, Phase.role]
      · exact fun _ => .inr (.inr ⟨running, notHanded⟩)
      · exact fun ha => .inr ⟨ha, by simp [waits]⟩
      · exact h.lined
      · refine ⟨[w], fun x => ?_, ?_⟩
        · have other := h.noneHanded notHanded x
          change x ∈ [w] ↔ (if x = w then Phase.given else s.phase x).role = .handed
          by_cases hx : x = w
          · simp [hx, Phase.role]
          · simpa [hx, HandedTo, role] using other
        · have sub := h.order_waiting
          rw [queued] at sub
          exact sub
      · simp [Hold.held] at free'

theorem mem_waiting_put (h : s.Sound) (before : s.role w ≠ .waits) (x : Nat) :
    x ∈ s.hold.waiting ↔ x ≠ w ∧ x ∈ s.hold.waiting := by
  refine ⟨fun hx => ⟨?_, hx⟩, And.right⟩
  rintro rfl
  exact before ((h.queue x).mp hx)

/-- A work that holds the participant by `flag`, or whose first poll panicked, lets go of it. -/
theorem Sound.release (h : s.Sound) (known : w < s.next)
    (role : s.role w = flag.role ∨
      s.role w = .none ∧ (flag = .running → s.hold.running = false)) :
    (s.release w flag).Settled := by
  have notHanded : s.role w ≠ .handed := by cases flag <;> grind [Flag.role]
  have notWaiting : s.role w ≠ .waits := by cases flag <;> grind [Flag.role]
  refine Sound.passOn (h.become w ?_ ?_ ?_ ?_ ?_ ?_ ?_ ?_ ?_)
  · intro x hx
    rw [put_phase, if_neg hx]
    rfl
  · exact ⟨le_rfl, known⟩
  · intro x
    simpa [put_role, Phase.role] using mem_waiting_put h notWaiting x
  · have ran := h.running
    simp only [put_hold, setFlag_hold, set_running, put_role, if_true, Phase.role]
    cases flag with
    | running => grind [Flag.role]
    | acting => grind [Flag.role]
  · simpa [put_role, Phase.role] using fun _ => notHanded
  · simp [put_role, Phase.role]
  · simp only [put_hold, setFlag_hold, set_acting, put_role, if_true, Phase.role]
    cases flag with
    | running => grind [Flag.role]
    | acting => simp
  · exact h.lined
  · exact h.order_aside (fun x hx => by rw [put_role, if_neg hx]; rfl) notHanded
      (by simp [put_role, Phase.role]) rfl rfl (by simp)

theorem put_put (s : Stage) (w : Nat) (p q : Phase) : (s.put w p).put w q = s.put w q := by
  unfold put
  congr 1
  funext x
  dsimp only
  split <;> rfl

/-- The first poll of a work sets its phase, whatever it was. -/
theorem lasting_put (s : Stage) (w : Nat) (p : Phase) (flag : Flag) (polled : Polled) :
    (s.put w p).lasting w flag polled = s.lasting w flag polled := by
  cases polled with
  | pending => exact put_put (s.setFlag flag true) w p _
  | ready => exact put_put (s.setFlag flag true) w p _
  | panics => exact congrArg passOn (put_put (s.setFlag flag false) w p _)

/-- A work begun, which holds the participant from then on. -/
theorem Sound.hold (h : s.Sound) (known : w < s.next) (before : s.role w = .none)
    (free : flag = .running → s.hold.running = false ∧ s.hold.handed = false)
    (after : p.role = flag.role) : ((s.setFlag flag true).put w p).Settled := by
  have role : ((s.setFlag flag true).put w p).role w = flag.role := by
    rw [put_role, if_pos rfl, after]
  have notHanded : flag.role ≠ .handed := by cases flag <;> simp [Flag.role]
  have notWaiting : flag.role ≠ .waits := by cases flag <;> simp [Flag.role]
  refine ⟨h.become w ?_ ?_ ?_ ?_ ?_ ?_ ?_ ?_ ?_, fun free' => ?_⟩
  · intro x hx
    rw [put_phase, if_neg hx]
    rfl
  · exact ⟨le_rfl, known⟩
  · intro x
    simpa [role, notWaiting] using mem_waiting_put h (by simp [before]) x
  · rw [role, before]
    cases flag <;> simp [Flag.role, Hold.set]
  · rw [role, before]
    simp [notHanded]
  · rw [role]
    cases flag with
    | running => exact fun _ => .inr (.inr (free rfl))
    | acting => simp [Flag.role]
  · rw [role, before]
    cases flag <;> simp [Flag.role, Hold.set]
  · exact h.lined
  · exact h.order_aside (fun x hx => by rw [put_role, if_neg hx]; rfl) (by simp [before])
      (by rw [role]; exact notHanded) rfl rfl (by simp)
  · cases flag <;> simp [Hold.held, Hold.set] at free'

/-- The first poll of a work, however it ends. -/
theorem Sound.lasting (h : s.Sound) (known : w < s.next) (before : s.role w = .none)
    (free : flag = .running → s.hold.running = false ∧ s.hold.handed = false) (polled : Polled) :
    (s.lasting w flag polled).Settled := by
  cases polled with
  | pending => exact h.hold known before free rfl
  | ready => exact h.hold known before free rfl
  | panics => exact h.release known (.inr ⟨before, fun hf => (free hf).1⟩)

/-- A waiter handed the participant is waited for no more: it begins, or it is gone. -/
theorem Sound.unhand (h : s.Sound) (before : s.HandedTo w) {began : List Nat}
    (order : began = s.began ∨ began = s.began ++ [w]) :
    ({ s.setHanded false with began := began }.put w .gone).Sound := by
  have known : w < s.next := h.known (by rw [before]; simp)
  have running : s.hold.running = false := by
    by_contra hr
    obtain ⟨x, hx⟩ := h.running.mp (by simpa using hr)
    have same := h.one x w (.inl hx) (.inr before)
    rw [same] at hx
    exact absurd (hx.symm.trans before) (by simp)
  refine h.become w ?_ ?_ ?_ ?_ ?_ ?_ ?_ ?_ ?_
  · intro x hx
    rw [put_phase, if_neg hx]
    rfl
  · exact ⟨le_rfl, known⟩
  · intro x
    simpa [put_role, Phase.role, setHanded] using
      mem_waiting_put h (by rw [before]; simp) x
  · simp [put_role, Phase.role, setHanded, running]
  · simp only [put_hold, setHanded, put_role, if_true, Phase.role]
    have handed : s.role w = .handed := before
    simpa using fun _ => handed
  · simp [put_role, Phase.role]
  · exact fun ha => .inr ⟨ha, by rw [before]; simp⟩
  · exact h.lined
  · refine ⟨[], fun x => ?_, ?_⟩
    · by_cases hx : x = w
      · simp [HandedTo, put_role, hx, Phase.role]
      · have other : ¬ s.HandedTo x := fun hb => hx (h.one x w (.inr hb) (.inr before))
        rw [HandedTo, put_role, if_neg hx]
        exact iff_of_false (by simp) other
    · rcases order with rfl | rfl
      · exact h.order_waiting
      · exact h.order_handed before

/-! ## 5. One step -/

theorem Sound.absent (h : s.Sound) : s.role s.next = .none := by
  rw [role, h.fresh s.next le_rfl]
  rfl

/-- A work of its own changes nothing else. -/
theorem Sound.fresh' (h : s.Sound) : s.fresh.Sound where
  fresh w hw := h.fresh w (Nat.le_of_succ_le hw)
  queue := h.queue
  running := h.running
  handed := h.handed
  one := h.one
  acting := h.acting
  lined := ⟨h.lined.1, fun w hw => (h.lined.2 w hw).trans (Nat.lt_succ_self _)⟩
  order := h.order

theorem not_held (h : s.hold.held = false) :
    s.hold.running = false ∧ s.hold.acting = false ∧ s.hold.handed = false := by
  grind [Hold.held]

theorem Settled.tryExclusive (h : s.Settled) (polled : Polled) :
    (s.tryExclusive polled).Settled := by
  unfold Stage.tryExclusive
  split
  · exact h
  · rename_i free
    obtain ⟨running, -, handed⟩ := not_held (by simpa using free)
    exact h.fresh'.lasting (Nat.lt_succ_self _) h.absent (fun _ => ⟨running, handed⟩) polled

/-- A waiter queued behind those that wait. -/
theorem Settled.exclusive (h : s.Settled) (polled : Polled) : (s.exclusive polled).Settled := by
  unfold Stage.exclusive
  split
  swap
  · rename_i free
    obtain ⟨running, -, handed⟩ := not_held (by simpa using free)
    exact h.fresh'.lasting (Nat.lt_succ_self _) h.absent (fun _ => ⟨running, handed⟩) polled
  rename_i held
  have notWaiting : s.next ∉ s.hold.waiting := fun hm => by
    have := (h.queue _).mp hm
    simp [h.absent] at this
  refine ⟨h.become s.next ?_ ?_ ?_ ?_ ?_ ?_ ?_ ?_ ?_, fun free => ?_⟩
  · intro x hx
    rw [put_phase, if_neg hx]
    rfl
  · exact ⟨Nat.le_succ _, Nat.lt_succ_self _⟩
  · intro x
    simp only [put_hold, put_role, if_true, Phase.role, List.mem_append, List.mem_singleton]
    grind
  · simp [put_role, Phase.role, h.absent]
  · simp [put_role, Phase.role, h.absent]
  · simp [put_role, Phase.role]
  · exact fun acts => .inr ⟨acts, by simp [h.absent]⟩
  · refine ⟨List.nodup_append.mpr ⟨h.lined.1, List.nodup_singleton _, ?_⟩, ?_⟩
    · rintro a ha b hb rfl
      have := h.lined.2 a ha
      simp only [List.mem_singleton] at hb
      omega
    · intro x hx
      rcases List.mem_append.mp hx with hx | hx
      · exact (h.lined.2 x hx).trans (Nat.lt_succ_self _)
      · rw [List.mem_singleton.mp hx]
        exact Nat.lt_succ_self _
  · obtain ⟨mid, handed, sub⟩ := h.order
    refine ⟨mid, fun x => ?_, ?_⟩
    · by_cases hx : x = s.next
      · subst hx
        rw [handed, HandedTo, HandedTo, h.absent, put_role, if_pos rfl]
        simp [Phase.role]
      · rw [handed, HandedTo, HandedTo, put_role, if_neg hx]
        rfl
    · have grown := sub.append (List.Sublist.refl [s.next])
      rw [List.append_assoc, List.append_assoc] at grown
      exact grown
  · exact absurd held (by simpa [Hold.held] using free)

theorem Settled.act (h : s.Settled) (polled : Polled) : (s.act polled).Settled :=
  h.fresh'.lasting (Nat.lt_succ_self _) h.absent (fun hf => by cases hf) polled

/-- A later poll of a work, whatever it comes to. -/
theorem Settled.poll (h : s.Settled) (w : Nat) (polled : Polled) : (s.poll w polled).Settled := by
  have same : ∀ {p : Phase}, s.phase w ≠ .absent → p.role = s.role w → (s.put w p).Settled :=
    fun known role => ⟨h.toSound.sameRole known role, h.free⟩
  have done : ∀ flag, s.role w = flag.role → (s.release w flag).Settled := by
    intro flag role
    refine h.release (h.known ?_) (.inl role)
    rw [role]
    cases flag <;> simp [Flag.role]
  unfold Stage.poll
  split
  · rename_i given
    exact same (by simp [given]) (by simp [role, given, Phase.role])
  · rename_i taken
    have handed : s.HandedTo w := by simp [HandedTo, role, taken, Phase.role]
    rw [← lasting_put _ w .gone]
    refine (h.unhand handed (.inr rfl)).lasting ?_ ?_ (fun _ => ?_) polled
    · exact h.known (by rw [handed]; simp)
    · simp [put_role, Phase.role]
    · have running : s.hold.running = false := by
        by_contra hr
        obtain ⟨x, hx⟩ := h.running.mp (by simpa using hr)
        have same := h.one x w (.inl hx) (.inr handed)
        rw [same] at hx
        exact absurd (hx.symm.trans handed) (by simp)
      exact ⟨running, rfl⟩
  · rename_i flag working
    have role : s.role w = flag.role := by simp [Stage.role, working, Phase.role]
    cases polled with
    | pending => exact h
    | ready => exact same (by simp [working]) role.symm
    | panics => exact done flag role
  · rename_i flag turns letting
    exact same (by simp [letting]) (by simp [role, letting, Phase.role])
  · rename_i flag turns _ letting
    exact done flag (by simp [role, letting, Phase.role])
  · exact h
  · exact h
  · exact h

theorem Settled.leave (h : s.Settled) (w : Nat) : (s.leave w).Settled := by
  unfold Stage.leave
  split
  · rename_i queued
    have waits : s.role w = .waits := by simp [role, queued, Phase.role]
    refine ⟨h.become w ?_ ?_ ?_ ?_ ?_ ?_ ?_ ?_ ?_, fun free => ?_⟩
    · intro x hx
      rw [put_phase, if_neg hx]
    · exact ⟨le_rfl, h.known (by simp [waits])⟩
    · intro x
      simp [put_role, Phase.role, and_comm]
    · simp [put_role, Phase.role, waits]
    · simp [put_role, Phase.role, waits]
    · simp [put_role, Phase.role]
    · exact fun acts => .inr ⟨acts, by simp [waits]⟩
    · exact h.lined
    · exact h.order_aside (fun x hx => by rw [put_role, if_neg hx]; rfl) (by simp [waits])
        (by simp [put_role, Phase.role]) rfl rfl (by simp)
    · have := h.free (by simpa [Hold.held] using free)
      simp [this]
  · rename_i given
    have handed : s.HandedTo w := by simp [HandedTo, role, given, Phase.role]
    exact (h.unhand handed (.inl rfl)).passOn
  · exact h

theorem Settled.step (h : s.Settled) (e : Event) : (s.step e).Settled := by
  cases e with
  | tryExclusive polled => exact h.tryExclusive polled
  | exclusive polled => exact h.exclusive polled
  | act polled => exact h.act polled
  | poll w polled => exact h.poll w polled
  | leave w => exact h.leave w

theorem start_settled : start.Settled where
  fresh _ _ := rfl
  queue w := by simp [start, role, Phase.role]
  running := by simp [start, Runs, role, Phase.role]
  handed := by simp [start, HandedTo, role, Phase.role]
  one w w' h := by simp [start, Runs, HandedTo, role, Phase.role] at h
  acting h := by cases h
  lined := ⟨List.nodup_nil, by simp [start]⟩
  order := ⟨[], by simp [start, HandedTo, role, Phase.role], List.Sublist.refl _⟩
  free _ := rfl

/-- **Every run leaves the participant settled.** -/
theorem after_settled (events : List Event) : (after events).Settled := by
  suffices ∀ s : Stage, s.Settled → (events.foldl step s).Settled from this start start_settled
  induction events with
  | nil => exact fun s h => h
  | cons e events ih => exact fun s h => ih (s.step e) (h.step e)

/-! ## 6. Who begins to run -/

theorem runs_passOn {x : Nat} (h : s.passOn.Runs x) : s.Runs x := by
  unfold Stage.passOn at h
  split at h
  · exact h
  · split at h
    · exact h
    · rw [Runs, put_role] at h
      split at h
      · cases h
      · exact h

theorem runs_release {x : Nat} (h : (s.release w flag).Runs x) : s.Runs x := by
  have before := runs_passOn h
  rw [Runs, put_role] at before
  split at before
  · cases before
  · exact before

theorem runs_lasting {x : Nat} {polled : Polled} (h : (s.lasting w flag polled).Runs x) :
    s.Runs x ∨ (x = w ∧ flag = .running) := by
  have put : ∀ {p : Phase}, p.role = flag.role → ((s.setFlag flag true).put w p).Runs x →
      s.Runs x ∨ (x = w ∧ flag = .running) := by
    intro p role h
    rw [Runs, put_role] at h
    split at h
    · rename_i here
      rw [role] at h
      cases flag with
      | running => exact .inr ⟨here, rfl⟩
      | acting => cases h
    · exact .inl h
  cases polled with
  | pending => exact put rfl h
  | ready => exact put rfl h
  | panics => exact .inl (runs_release h)

/-- A work that runs after a step did before, or was handed the participant, or nothing held
    it. -/
theorem runs_step (e : Event) {x : Nat} (h : (s.step e).Runs x) :
    s.Runs x ∨ s.HandedTo x ∨ s.hold.held = false := by
  have alone : ∀ {p : Phase} {t : Stage} {w : Nat}, p.role ≠ .runs → (t.put w p).Runs x →
      t.Runs x := by
    intro p t w role h
    rw [Runs, put_role] at h
    split at h
    · exact absurd h role
    · exact h
  cases e with
  | tryExclusive polled =>
    change (s.tryExclusive polled).Runs x at h
    unfold Stage.tryExclusive at h
    split at h
    · exact .inl h
    · rename_i free
      exact .inr (.inr (by simpa using free))
  | exclusive polled =>
    change (s.exclusive polled).Runs x at h
    unfold Stage.exclusive at h
    split at h
    · exact .inl (alone (by simp [Phase.role]) h)
    · rename_i free
      exact .inr (.inr (by simpa using free))
  | act polled =>
    rcases runs_lasting h with h | ⟨-, h⟩
    · exact .inl h
    · cases h
  | poll w polled =>
    change (s.poll w polled).Runs x at h
    unfold Stage.poll at h
    split at h
    · exact .inl (alone (by simp [Phase.role]) h)
    · rename_i taken
      rcases runs_lasting h with h | ⟨rfl, -⟩
      · exact .inl h
      · exact .inr (.inl (by simp [HandedTo, role, taken, Phase.role]))
    · rename_i flag working
      cases polled with
      | pending => exact .inl h
      | ready =>
        rw [Runs, put_role] at h
        split at h
        · rename_i here
          exact .inl (by rw [Runs, role, here, working]; exact h)
        · exact .inl h
      | panics => exact .inl (runs_release h)
    · rename_i flag turns letting
      rw [Runs, put_role] at h
      split at h
      · rename_i here
        exact .inl (by rw [Runs, role, here, letting]; exact h)
      · exact .inl h
    · exact .inl (runs_release h)
    · exact .inl h
    · exact .inl h
    · exact .inl h
  | leave w =>
    change (s.leave w).Runs x at h
    unfold Stage.leave at h
    split at h
    · exact .inl (alone (by simp [Phase.role]) h)
    · have before : ((s.setHanded false).put w .gone).Runs x := runs_passOn h
      exact .inl (alone (by simp [Phase.role]) before)
    · exact .inl h

/-! ## 7. Fairness -/

/-- **One piece of work holds the participant at a time, first come, first served.** -/
structure Fair (s : Stage) : Prop where
  /-- One work that waited, or was begun by `try_exclusive` or `exclusive`, runs at a time. -/
  alone : ∀ w w', s.Runs w → s.Runs w' → w = w'
  /-- From its hand-over until the waiter's start nothing runs, and no step begins another. -/
  handedOver : ∀ w, s.HandedTo w → (∀ w', ¬ s.Runs w') ∧ ∀ e w', (s.step e).Runs w' → w' = w
  /-- The waiters that began did so in the order they queued, before those that still wait. -/
  inOrder : s.lined.Nodup ∧ (s.began ++ s.hold.waiting).Sublist s.lined
  /-- Where nothing holds the participant, no waiter is queued. -/
  free : s.hold.held = false → s.hold.waiting = [] ∧ ∀ w, s.phase w ≠ .queued
  /-- A waiter waits for a work that is there: one that runs, one that was handed the participant,
      or one going on apart. -/
  awaited : s.hold.waiting ≠ [] → ∃ w, s.Runs w ∨ s.HandedTo w ∨ s.role w = .acts

theorem Settled.fair (h : s.Settled) : s.Fair where
  alone w w' hw hw' := h.one w w' (.inl hw) (.inl hw')
  handedOver w hw := by
    have nothing : ∀ w', ¬ s.Runs w' := fun w' hw' => by
      have same := h.one w' w (.inl hw') (.inr hw)
      rw [same] at hw'
      exact absurd (hw'.symm.trans hw) (by simp)
    refine ⟨nothing, fun e w' hw' => ?_⟩
    rcases runs_step e hw' with runs | handed | free
    · exact absurd runs (nothing w')
    · exact h.one w' w (.inr handed) (.inr hw)
    · have := h.handed.mpr ⟨w, hw⟩
      simp [Hold.held, this] at free
  inOrder := ⟨h.lined.1, h.order_waiting⟩
  free free := by
    have none' := h.free free
    refine ⟨none', fun w queued => ?_⟩
    have := (h.queue w).mpr (by simp [role, queued, Phase.role])
    simp [none'] at this
  awaited waiting := by
    by_contra nobody
    push Not at nobody
    have running : s.hold.running = false := by
      by_contra hr
      obtain ⟨x, hx⟩ := h.running.mp (by simpa using hr)
      exact (nobody x).1 hx
    have handed : s.hold.handed = false := by
      by_contra hh
      obtain ⟨x, hx⟩ := h.handed.mp (by simpa using hh)
      exact (nobody x).2.1 hx
    have acting : s.hold.acting = false := by
      by_contra ha
      obtain ⟨x, hx⟩ := h.acting (by simpa using ha)
      exact (nobody x).2.2 hx
    exact waiting (h.free (by simp [Hold.held, running, handed, acting]))

/-- **Over any run of calls, polls, panics and waiters that go away, the hold is fair.** -/
theorem hold_is_fair (events : List Event) : (after events).Fair := (after_settled events).fair

end Stage
end Engine
end ConsensFlow
