/-
  File:      ConsensFlow/Plan.lean
  Subject:   THE PLAN: what a task needs is kept to, in every run.

  * **`plan_has_no_circles`** -- the needs of every state are acyclic, and a request for a plan with
    a circle changes nothing;
  * `Call.MeetsNeeds` -- a call sends no task with a need left to a window;
  * **`needs_respected`** -- then no call ever does. `resume_task`, `reopen_task` and a project's
    Resume do not look at the needs themselves (`resumed_before_its_need`);
  * **`stranded_told_once`** -- then, too, whatever waits for a cancelled task is told of, once.
    Without that, one that was at work when its need went is not (`waits_untold`).
-/
import ConsensFlow.Edits.Calls

namespace ConsensFlow

open Lib Txn Relation

/-! ## 1. No circles -/

section Circles

variable {s s' : Ledger}

/-- The plan asked for by a call, of those that write it. -/
def Op.Plans (s : Ledger) : Op → (Nat × Nat → Prop) → Prop
  | .board (.createTask p r), asks => asks = r.Asks s p
  | .editTask p n _ e, asks => ∃ t ∈ s.tasks.rows, t.project = p ∧ t.number = n ∧ asks = e.Asks s t
  | _, _ => False

/-- A plan has a circle, near or far. -/
def Circular (asks : Nat × Nat → Prop) : Prop := ∃ a, TransGen (fun x y => asks (x, y)) a a

/-- A call that is not refused writes the plan it asks for. -/
theorem Op.Plans.written {op : Op} {asks : Nat × Nat → Prop} (hp : op.Plans s asks)
    (hs : Sound s.board) (h : op.attempt s = .ok s') : ∀ e, e ∈ s'.needs ↔ asks e := by
  unfold Op.Plans at hp
  split at hp
  · subst hp
    obtain ⟨u, h⟩ := snd_ok h
    obtain ⟨r, h⟩ := run_silent.mp h
    exact (createTask_edits (L := .any) h hs.wired fun _ _ _ _ _ _ _ _ => trivial).2
  · obtain ⟨t, ht, hpr, hn, rfl⟩ := hp
    obtain ⟨r, h⟩ := snd_ok h
    exact (editTaskWith_edits (L := .any) Licence.fair_any h hs.wired hs.acyclic).2 t ht hpr hn
  · exact hp.elim

/-- **The plan has no circles**: in no state, and a request that would close one is refused and
    changes nothing. -/
theorem plan_has_no_circles (r : Reachable s) : Graph.Acyclic s.needs ∧
    ∀ (c : Call) (asks : Nat × Nat → Prop), c.op.Plans s asks → Circular asks →
      (∃ e, c.op.attempt (s.at_ c.clock) = .error e) ∧ c.step s = s := by
  refine ⟨r.sound.acyclic, fun c asks hp hc => ?_⟩
  have hs : Sound (s.at_ c.clock).board := r.sound
  cases h : c.op.attempt (s.at_ c.clock) with
  | error e =>
    refine ⟨⟨e, rfl⟩, ?_⟩
    rw [Call.step, h]
  | ok s' =>
    -- what it wrote is what it asked for, and is acyclic
    have hp' : c.op.Plans (s.at_ c.clock) asks := hp
    have hw := hp'.written hs h
    have ha : Graph.Acyclic s'.board.needs :=
      Op.keeps Licence.fair_any rule_acyclic h hs (c.op.granted_any _) hs.acyclic
    obtain ⟨a, hc⟩ := hc
    exact (ha a (TransGen.mono (fun x y k => (hw (x, y)).mpr k) a a hc)).elim

end Circles

/-! ### A request that would close one -/

/-- A project with its chief and a worker. -/
def opening : Call where
  op := .board (.createProject
    { directory := "/work", name := "work", chief := { harness := "claude" }
      staff := [({ harness := "claude", roles := [.worker], tier := .standard }, "worker")]
      gate := false })
  clock := []

/-- A task the chief gives to the workers, that needs the tasks numbered. -/
def taskFor (body : String) (needs : List Nat) : Call where
  op := .board (.createTask 1
    { sender := "chief", pool := some .worker, tier := some .standard, body, needs })
  clock := []

/-- T-2 needs T-1. -/
def twoSteps : List Call := [opening, taskFor "first" [], taskFor "second" [1]]

/-- T-1 is to need T-2. -/
def crossing : Call where
  op := .editTask 1 1 "chief" { needs := some (.set [2]) }
  clock := []

theorem plan_has_no_circles_crossing :
    crossing.step (Ledger.empty.after twoSteps) = Ledger.empty.after twoSteps := by
  obtain ⟨t, ht, hp, hn, hi⟩ : ∃ t ∈ (Ledger.empty.after twoSteps).tasks.rows,
      t.project = 1 ∧ t.number = 1 ∧ t.id = 1 := by decide
  refine ((plan_has_no_circles (reachable_after twoSteps)).2 crossing _ ⟨t, ht, hp, hn, rfl⟩
    ⟨1, .tail (.single (b := 2) ?_) ?_⟩).2
  · refine Or.inr (Or.inl ⟨hi.symm, 2, List.mem_singleton.mpr rfl, ?_⟩)
    rw [hp]
    unfold Ledger.HasNumber
    decide
  · refine Or.inr (Or.inr ⟨hi.symm, 2, ?_, ?_⟩)
    · rw [hi]
      decide
    · rw [hp]
      unfold Ledger.HasNumber
      decide

/-! ## 2. Needs -/

/-- Every task that `t` needs is accepted. -/
def Ledger.NeedsAccepted (s : Ledger) (t : Task) : Prop :=
  ∀ d ∈ s.tasks.rows, (t.id, d.id) ∈ s.needs → d.state = .accepted

instance (s : Ledger) (t : Task) : Decidable (s.NeedsAccepted t) :=
  inferInstanceAs (Decidable (∀ d ∈ s.tasks.rows, (t.id, d.id) ∈ s.needs → d.state = .accepted))

/-- Every task that T-`number` needs is accepted. -/
def Ledger.AllAccepted (s : Ledger) (project number : Nat) : Prop :=
  ∀ t ∈ s.tasks.rows, t.project = project → t.number = number → s.NeedsAccepted t

instance (s : Ledger) (project number : Nat) : Decidable (s.AllAccepted project number) :=
  inferInstanceAs (Decidable (∀ t ∈ s.tasks.rows, t.project = project → t.number = number →
    s.NeedsAccepted t))

/-- A call that moves a task to `queued` while one it needs is not accepted. -/
def Ledger.SendsUnmet (s s' : Ledger) : Prop :=
  ∃ t' ∈ s'.tasks.rows, t'.state = .queued ∧
    (∀ t ∈ s.tasks.rows, t.id = t'.id → t.state ≠ .queued) ∧ ¬ s'.NeedsAccepted t'

instance (s s' : Ledger) : Decidable (s.SendsUnmet s') :=
  inferInstanceAs (Decidable (∃ t' ∈ s'.tasks.rows, t'.state = .queued ∧
    (∀ t ∈ s.tasks.rows, t.id = t'.id → t.state ≠ .queued) ∧ ¬ s'.NeedsAccepted t'))

/-- `assign_task` is called on a task whose needs are all accepted. -/
def Call.AssignsMet (s : Ledger) (c : Call) : Prop :=
  match c.op with
  | .board (.assignTask p n _ _) => s.AllAccepted p n
  | _ => True

instance (s : Ledger) (c : Call) : Decidable (c.AssignsMet s) := by
  unfold Call.AssignsMet
  split <;> infer_instance

/-- A call sends no task with a need left to its window: it is assigned, reopened, resumed where
    its window is there still, or goes on with its project, only once everything it needs is
    accepted. -/
def Call.MeetsNeeds (s : Ledger) (c : Call) : Prop :=
  match c.op with
  | .board (.assignTask p n _ _) => s.AllAccepted p n
  | .board (.reopenTask p n _ _) => s.AllAccepted p n
  | .board (.resumeTask p n _ _) => ∀ t ∈ s.tasks.rows, t.project = p → t.number = n →
      (∃ q ∈ s.participants.rows, t.assignee = some q.id ∧ q.leftAt = none) → s.NeedsAccepted t
  | .board (.setProjectState p .opened) => ∀ t ∈ s.tasks.rows, t.project = p → t.state = .paused →
      t.pausedWithProject = true → s.NeedsAccepted t
  | _ => True

instance (s : Ledger) (c : Call) : Decidable (c.MeetsNeeds s) := by
  unfold Call.MeetsNeeds
  split <;> infer_instance

section Needs

variable {s s' : Ledger}

theorem needsAccepted_iff (hw : Wired s.board) {t : Task} :
    s.NeedsAccepted t ↔ s.board.Met t.id := by
  rw [met_iff hw, List.all_eq_true]
  constructor
  · intro h d hd
    obtain ⟨hd, hn⟩ := mem_needed.mp hd
    exact beq_iff_eq.mpr (h d hd hn)
  · intro h d hd hn
    exact beq_iff_eq.mp (h d (mem_needed.mpr ⟨hd, hn⟩))

/-- What a card needs is accepted on a board with the same plan and everything accepted that
    was. -/
theorem Board.Met.carried {b b' : Board} {t : Nat} (h : b.Met t) (hn : b'.needs = b.needs)
    (ha : ∀ n, b.Is n .accepted → b'.Is n .accepted) : b'.Met t :=
  fun n hm => ha n (h n (hn ▸ hm))

theorem Board.Met.restaff {b b' : Board} {t : Nat} (h : b.Met t) (hr : Restaffed b b') :
    b'.Met t := by
  refine h.carried hr.needs fun n ⟨c, hc, e⟩ => ?_
  exact ⟨c, hr.cards ▸ hc, e⟩

theorem Licence.fair_met : Licence.met.Fair := by
  intro b c w h
  rcases h with h | h | h | h <;> cases h

/-- The calls that meet the needs are those the board's licence asks for. -/
theorem Call.MeetsNeeds.granted {c : Call} (hs : Sound s.board) (h : c.MeetsNeeds s) :
    c.op.Granted .met s := by
  have met : ∀ {t : Task}, s.NeedsAccepted t → s.board.Met t.id := (needsAccepted_iff hs.wired).mp
  unfold Call.MeetsNeeds at h
  cases hc : c.op with
  | board op =>
    rw [hc] at h
    cases op with
    | assignTask p n m l => exact fun t ht hp hn b w hr _ => (met (h t ht hp hn)).restaff hr
    | reopenTask p n b l => exact fun t ht hp hn b w hr _ => (met (h t ht hp hn)).restaff hr
    | resumeTask p n b l =>
      intro t ht hp hn w ha hl _
      obtain ⟨q, hq, e, -⟩ := hs.wired.windows _ (card_mem ht) _ ha
      refine met (h t ht hp hn ⟨q, hq, ?_, ?_⟩)
      · rw [e]
        exact ha
      · cases hk : q.leftAt with
        | none => rfl
        | some k => exact absurd ⟨q, hq, e, by rw [hk]; rfl⟩ hl
    | setProjectState p st =>
      rintro rfl c hcm hp ⟨u, hph⟩ b w hn ha _
      obtain ⟨t, ht, rfl⟩ := mem_cards.mp hcm
      obtain ⟨hst, -, hpw⟩ := phase_paused_iff.mp hph
      exact (met (h t ht hp hst hpw)).carried hn ha
    | createTask p r =>
      intro q _ _ _ _ _ b c hd
      rcases hd with hd | hd | hd | hd <;> cases hd
    | relaunchStalled p n w m q i =>
      intro t _ _ _ w _ hd
      rcases hd with hd | hd | hd | hd <;> cases hd
    | goOnInWindow p n =>
      intro t _ _ _ w _ hd
      rcases hd with hd | hd | hd | hd <;> cases hd
    | _ => trivial
  | _ => trivial

theorem rule_needsMet : Rule .met NeedsMet :=
  ⟨fun e hw k => e.needsMet (fun _ _ _ _ h => h) hw k,
    fun hd k => ⟨fun c hc _ => k.work c hc (by rw [hd.unmet]; exact Set.notMem_empty _),
      fun c hc _ => k.briefed c hc (by rw [hd.unmet]; exact Set.notMem_empty _), k.unbriefed⟩,
    fun h hw k => h.needsMet hw k⟩

/-- In a run of such calls every task at work has everything it needs accepted. -/
theorem Run.needsMet (r : Run (fun s c => c.MeetsNeeds s) s) :
    Sound s.board ∧ NeedsMet .none s.board := by
  refine Run.kept (L := .met) Licence.fair_met rule_needsMet (fun s c hs h => ?_) ?_ r
  · exact Call.MeetsNeeds.granted (s := s.at_ c.clock) hs h
  · constructor <;> simp [Ledger.empty, Ledger.board, Table.empty]

/-- **Needs are respected**: in a run whose calls all meet the needs of what they send, no call
    moves a task to `queued` while one it needs is not accepted. -/
theorem needs_respected (r : Run (fun s c => c.MeetsNeeds s) s) (c : Call) (hc : c.MeetsNeeds s) :
    ¬ s.SendsUnmet (c.step s) := by
  rintro ⟨t, ht, hst, -, hn⟩
  obtain ⟨hs, hm⟩ := (r.step c hc).needsMet
  refine hn ((needsAccepted_iff hs.wired).mpr (hm.work _ (card_mem ht) (Set.notMem_empty _) ?_))
  exact Or.inl (phase_held_iff.mpr (by rw [hst]; rfl))

end Needs

/-! ### A task resumed before its need -/

/-- A task comes to a new session of the worker. -/
def assigned (number : Nat) : Call := ⟨.board (.assignTask 1 number 3 ["one"]), []⟩

/-- A task for the window that has T-`after`. -/
def following (after : Nat) (body : String) : Call :=
  ⟨.board (.createTask 1 { sender := "chief", after := some after, body }), []⟩

def paused (number : Nat) : Call := ⟨.board (.pauseTask 1 number (some "chief") none), []⟩

def resumed (number : Nat) : Call := ⟨.board (.resumeTask 1 number (some "chief") "go on"), []⟩

/-- T-2 waits on the board for T-1's window; both are paused. -/
def bothPaused : List Call :=
  [opening, taskFor "first" [], assigned 1, following 1 "second", paused 2, paused 1]

/-- T-2, which needs T-1, is resumed while T-1 is paused: it goes to their window. -/
theorem resumed_before_its_need : ¬ ∀ (s : Ledger) (c : Call),
    Run (fun s c => c.AssignsMet s) s → c.AssignsMet s → ¬ s.SendsUnmet (c.step s) := by
  intro h
  refine h (Ledger.empty.after bothPaused) (resumed 2) (Run.empty.after ?_) ?_ ?_ <;>
    decide

/-- The paste of a message, begun and found in its window. -/
def pasted (id : Nat) : List Call :=
  [⟨.desk (.beginDelivery id), []⟩, ⟨.desk (.confirmDelivery id none), []⟩]

def recorded (number : Nat) (body : String) : Call := ⟨.board (.recordResult 1 number body), []⟩

def acceptedBy (number : Nat) : Call := ⟨.board (.acceptTask 1 number "chief"), []⟩

/-- T-2 needs T-1, whose result the chief reads and accepts. -/
def needMet : List Call :=
  twoSteps ++ [assigned 1] ++ pasted 1 ++ [recorded 1 "done"] ++ pasted 2 ++ [acceptedBy 1]

set_option maxRecDepth 4096 in
/-- T-2 goes to a window then. -/
theorem needs_respected_assigned :
    (∃ t ∈ ((assigned 2).step (Ledger.empty.after needMet)).tasks.rows,
      t.state = .queued ∧ (t.id, 1) ∈ ((assigned 2).step (Ledger.empty.after needMet)).needs) ∧
    ¬ (Ledger.empty.after needMet).SendsUnmet ((assigned 2).step (Ledger.empty.after needMet)) :=
  ⟨by decide, needs_respected (Run.empty.after (by decide)) (assigned 2) (by decide)⟩

/-! ## 3. Stranded -/

/-- How often the log says that T-`number` is stranded. -/
def Ledger.strandings (s : Ledger) (project number : Nat) : Nat :=
  s.events.rows.countP fun e => e.project == project && e.what == .taskStranded number

/-- Each task on the board or paused that needs a cancelled one is told of, once. -/
def Ledger.StrandedTold (s : Ledger) : Prop :=
  ∀ t ∈ s.tasks.rows, (t.state = .opened ∨ t.state = .paused) → ∀ d ∈ s.tasks.rows,
    (t.id, d.id) ∈ s.needs → d.state = .cancelled → s.strandings t.project t.number = 1

instance (s : Ledger) : Decidable s.StrandedTold :=
  inferInstanceAs (Decidable (∀ t ∈ s.tasks.rows, (t.state = .opened ∨ t.state = .paused) →
    ∀ d ∈ s.tasks.rows, (t.id, d.id) ∈ s.needs → d.state = .cancelled →
      s.strandings t.project t.number = 1))

/-- A task on the board, or paused, waits for the task `t`. -/
def Ledger.Awaited (s : Ledger) (t : Task) : Prop :=
  ∃ w ∈ s.tasks.rows, (w.state = .opened ∨ w.state = .paused) ∧ (w.id, t.id) ∈ s.needs

/-- A coordinator's call that ends the task `t`: a cancel of it, or a decline of a task message of
    its project about the task of its number. -/
def Op.Ends (s : Ledger) (t : Task) : Op → Prop
  | .board (.cancelTask p n _) => t.project = p ∧ t.number = n
  | .board (.declineMessage i _) => ∃ m ∈ s.messages.rows, m.id = i ∧ m.kind = .task ∧
      m.project = t.project ∧ ∃ d ∈ s.tasks.rows, m.task = some d.id ∧ d.number = t.number
  | _ => False

section Stranded

variable {s s' : Ledger}

theorem awaited_iff {t : Task} : s.Awaited t ↔
    ∃ c ∈ s.board.cards, c.phase.waits = true ∧ (c.id, t.id) ∈ s.board.needs := by
  constructor
  · rintro ⟨w, hw, hst, hn⟩
    exact ⟨w.card, card_mem hw, phase_waits_iff.mpr (by simpa using hst), hn⟩
  · rintro ⟨c, hc, hp, hn⟩
    obtain ⟨w, hw, rfl⟩ := mem_cards.mp hc
    exact ⟨w, hw, by simpa using phase_waits_iff.mp hp, hn⟩

/-- A task called off is awaited by none. -/
theorem callOff_unawaited {project number : Nat} {by_ : String} {ending : Ending} {r : CalledOff}
    (h : (callOff project number by_ ending).run s = .ok (r, s')) (hw : Wired s.board) {t : Task}
    (ht : t ∈ s.tasks.rows) (hp : t.project = project) (hn : t.number = number) :
    ¬ s.Awaited t := by
  obtain ⟨p, s1, h1, h⟩ := run_bind_ok.mp h
  obtain ⟨rfl, -⟩ := participantByHandle_ok h1
  obtain ⟨q, s2, h2, h⟩ := run_bind_ok.mp h
  obtain ⟨rfl, hq, hqp, hqn⟩ := taskRow_ok h2
  obtain ⟨u3, s3, h3, h⟩ := run_bind_ok.mp h
  obtain ⟨rfl, -⟩ := requireTaskState_ok h3
  obtain ⟨u4, s4, h4, h⟩ := run_bind_ok.mp h
  have e4 : s = s4 := by
    rcases run_doWhen_ok.mp h4 with ⟨-, h4⟩ | ⟨-, rfl⟩
    · exact requireResultReceived_ok h4
    · rfl
  subst e4
  obtain ⟨u5, s5, h5, -⟩ := run_bind_ok.mp h
  obtain ⟨rfl, hwait⟩ := requireUnawaited_ok h5
  have e : t = q := Table.eq_of_key ht hq
    (hw.numbers _ (card_mem ht) _ (card_mem hq) (hp.trans hqp.symm) (hn.trans hqn.symm))
  subst e
  intro k
  obtain ⟨c, hc, hcw, hcn⟩ := awaited_iff.mp k
  exact waiters_nil hwait hc hcw hcn

/-- A message withdrawn is about the task it was about. -/
theorem withdraw_task {id i : Nat} {reason : String} {u : Unit}
    (h : (withdraw id reason).run s = .ok (u, s')) :
    s'.tasks = s.tasks ∧
      (s'.messages.get? i).map (·.task) = (s.messages.get? i).map (·.task) := by
  simp only [withdraw, setMessage, setMessages, run_write_ok] at h
  subst h
  refine ⟨rfl, ?_⟩
  show ((s.messages.alter _ _).get? i).map _ = _
  rw [Table.get?_alter, Option.map_map]
  congr 1
  funext m
  simp only [Function.comp, Table.altered]
  split <;> rfl

theorem awaited_congr {t : Task} (h : s'.board = s.board) : s'.Awaited t ↔ s.Awaited t := by
  rw [awaited_iff, awaited_iff, h]

/-- The task of a brief declined is awaited by none. -/
theorem declineMessage_unawaited {id : Nat} {by_ : String} {r m : Message}
    (h : (declineMessage id by_).run s = .ok (r, s')) (hw : Wired s.board)
    (hm : m ∈ s.messages.rows) (hid : m.id = id) (hk : m.kind = .task) {t d : Task}
    (ht : t ∈ s.tasks.rows) (hp : m.project = t.project) (hd : d ∈ s.tasks.rows)
    (hmt : m.task = some d.id) (hn : d.number = t.number) : ¬ s.Awaited t := by
  obtain ⟨m', s1, h1, h⟩ := run_bind_ok.mp h
  obtain ⟨rfl, hm', hid', -⟩ := requireMessage_ok h1
  obtain rfl : m = m' := Table.eq_of_key hm hm' (hid.trans hid'.symm)
  obtain ⟨p, s2, h2, h⟩ := run_bind_ok.mp h
  obtain ⟨rfl, -⟩ := participantByHandle_ok h2
  obtain ⟨u3, s3, h3, h⟩ := run_bind_ok.mp h
  obtain ⟨-, rfl⟩ := run_require_ok.mp h3
  obtain ⟨u4, s4, h4, h⟩ := run_bind_ok.mp h
  have b4 : s4.board = s.board := board_of_lift h4
  obtain ⟨t4, m4⟩ := withdraw_task (i := id) h4
  obtain ⟨u5, s5, h5, h⟩ := run_bind_ok.mp h
  have b5 : s5.board = s4.board := board_of_lift h5
  obtain ⟨t5, m5⟩ := @log_ok _ _ _ _ (.other "message.declined" (some id)) ⟨rfl, rfl⟩ h5
  obtain ⟨u6, s6, h6, h⟩ := run_bind_ok.mp h
  have e6 : s5 = s6 := by
    rcases run_doWhen_ok.mp h6 with ⟨k, -⟩ | ⟨-, rfl⟩
    · rw [hk] at k
      cases k
    · rfl
  subst e6
  obtain ⟨task, s7, h7, h⟩ := run_bind_ok.mp h
  simp only [messageTask, run_bind_ok, run_state_ok, run_pure_ok] at h7
  obtain ⟨s0, s8, ⟨rfl, rfl⟩, etask, rfl⟩ := h7
  -- the task it is about is still the one it was
  have e5 : s5.tasks = s.tasks := t5.trans t4
  have etask : task = some d := by
    have hget : s.messages.get? id = some m := hid ▸ Table.get?_key hm
    rw [hget, Option.map_some, ← m5] at m4
    obtain ⟨m2, hm2, em2⟩ := Option.map_eq_some_iff.mp m4
    rw [← etask, hm2, Option.bind_some, em2, hmt, Option.bind_some, e5]
    exact Table.get?_key hd
  obtain ⟨s0, s9, h9, h⟩ := run_bind_ok.mp h
  obtain ⟨rfl, rfl⟩ := run_state_ok.mp h9
  obtain ⟨w, s10, h10, h⟩ := run_bind_ok.mp h
  rw [etask] at h10
  simp only [wordOfDeclined, hk, beq_self_eq_true, if_true] at h10
  obtain ⟨w', h10, -⟩ := run_map_ok.mp h10
  obtain ⟨q, s11, h11, h10⟩ := run_bind_ok.mp h10
  obtain ⟨rfl, -⟩ := participantRow_ok h11
  obtain ⟨off, s12, h12, -⟩ := run_bind_ok.mp h10
  have b : s5.board = s.board := b5.trans b4
  rw [← awaited_congr b]
  exact callOff_unawaited h12 (b ▸ hw) (e5 ▸ ht) hp.symm hn.symm

/-- No coordinator's cancel or decline ends a task that one on the board, or paused, waits for. -/
theorem Op.Ends.unawaited {op : Op} {t : Task} (h : op.attempt s = .ok s') (hs : Sound s.board)
    (ht : t ∈ s.tasks.rows) (he : op.Ends s t) : ¬ s.Awaited t := by
  unfold Op.Ends at he
  split at he
  · obtain ⟨u, h⟩ := snd_ok h
    obtain ⟨r, h⟩ := run_silent.mp h
    obtain ⟨off, s1, h1, -⟩ := run_bind_ok.mp h
    exact callOff_unawaited h1 hs.wired ht he.1 he.2
  · obtain ⟨m, hm, hid, hk, hp, d, hd, hmt, hn⟩ := he
    obtain ⟨u, h⟩ := snd_ok h
    obtain ⟨r, h⟩ := run_silent.mp h
    exact declineMessage_unawaited h hs.wired hm hid hk ht hp hd hmt hn
  · exact he.elim

/-! ### Told once -/

theorem rule_stranded : Rule .met fun d b => NeedsMet d b ∧ Stranded d b :=
  ⟨fun e hw k => ⟨rule_needsMet.edit e hw k.1, e.stranded (fun _ _ _ _ h => h) hw k.1 k.2⟩,
    fun hd k => ⟨rule_needsMet.paid hd k.1, k.2.once,
      fun c hc hp n hn hx _ => k.2.told c hc hp n hn hx (by rw [hd.untold]; exact Set.notMem_empty _),
      k.2.work⟩,
    fun h hw k => ⟨rule_needsMet.removed h hw k.1, h.stranded hw k.2⟩⟩

/-- The log says of a card that it is stranded as often as the board does. -/
theorem strandings_eq (s : Ledger) (project number : Nat) :
    s.strandings project number = s.board.strandings.count (project, number) := by
  unfold Ledger.strandings List.count
  show _ = (s.events.rows.filterMap _).countP _
  rw [List.countP_filterMap]
  refine List.countP_congr fun e _ => ?_
  cases hw : e.what <;> simp [What.stranded, Prod.ext_iff]

theorem Run.stranded (r : Run (fun s c => c.MeetsNeeds s) s) :
    Sound s.board ∧ NeedsMet .none s.board ∧ Stranded .none s.board := by
  refine Run.kept (L := .met) Licence.fair_met rule_stranded (fun s c hs h => ?_) ⟨?_, ?_⟩ r
  · exact Call.MeetsNeeds.granted (s := s.at_ c.clock) hs h
  · constructor <;> simp [Ledger.empty, Ledger.board, Table.empty]
  · constructor <;> simp [Ledger.empty, Ledger.board, Table.empty]

/-- **What waits for a cancelled task is told of, once**, in every state of a run whose calls all
    meet the needs of what they send; and no cancel or decline ends a task that is waited for. -/
theorem stranded_told_once (r : Run (fun s c => c.MeetsNeeds s) s) : s.StrandedTold ∧
    ∀ (c : Call) (t : Task), t ∈ s.tasks.rows → c.op.Ends s t → s.Awaited t →
      (∃ e, c.op.attempt (s.at_ c.clock) = .error e) ∧ c.step s = s := by
  obtain ⟨hs, -, hk⟩ := r.stranded
  refine ⟨fun t ht hst d hd hn hx => ?_, fun c t ht he ha => ?_⟩
  · have told : s.board.ToldOf t.card := by
      refine hk.told _ (card_mem ht) ?_ d.id hn ⟨d.card, card_mem hd, rfl, ?_⟩ (Set.notMem_empty _)
      · exact phase_waits_iff.mpr (by simpa using hst)
      · exact phase_cancelled_iff.mpr hx
    rw [strandings_eq]
    exact List.count_eq_one_of_mem hk.once told
  · cases h : c.op.attempt (s.at_ c.clock) with
    | error e =>
      refine ⟨⟨e, rfl⟩, ?_⟩
      rw [Call.step, h]
    | ok s' =>
      have hs' : Sound (s.at_ c.clock).board := hs
      exact (Op.Ends.unawaited h hs' ht he ha).elim

end Stranded

/-! ### One that was at work when its need went -/

def cancelled (number : Nat) : Call := ⟨.board (.cancelTask 1 number "chief"), []⟩

/-- T-2 was resumed before its need; that need is cancelled while T-2 is at work, and then T-2 is
    paused. -/
def atWorkThen : List Call := bothPaused ++ [resumed 2, cancelled 1, paused 2]

theorem waits_untold : ¬ ∀ s, Reachable s → s.StrandedTold := by
  intro h
  have k := h _ (reachable_after atWorkThen)
  revert k
  decide

/-- T-2 waits for T-1, which is removed with the worker it is at. -/
def needRemoved : List Call :=
  [opening, taskFor "first" [], assigned 1, taskFor "second" [1], ⟨.board (.removeMember 1 "worker"), []⟩]

theorem stranded_told_once_removed : (Ledger.empty.after needRemoved).StrandedTold :=
  (stranded_told_once (Run.empty.after (by decide))).1

end ConsensFlow
