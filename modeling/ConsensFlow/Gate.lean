/-
  File:      ConsensFlow/Gate.lean
  Subject:   THE HUMAN'S GATE: what one agent writes to another while it is on goes to a window
             only as the human passed it on.

  * `Ledger.PassedOn` -- the calls in which the human passed a message on, with the words it had;
  * `Call.Rewrites`, `Call.SendsByHand` -- an edit of the brief a message says, and the human's own
    sending of a paste that held it;
  * **`gate_not_passed`** -- what the gate is for is never pasted but in the words the human passed
    on, where no edit comes after that and no sending by hand before it. An edit can
    (`passed_on_then_edited`).
-/
import ConsensFlow.Pastes

namespace ConsensFlow

open Lib Txn

/-! ## 1. Passed on -/

/-- A call by which the human passes message `id` on. -/
def Call.Approves (c : Call) (id : Nat) : Prop := ∃ by_, c.op = .approveMessage id by_

/-- In the calls made from `s` the human passed message `id` on, held at the gate with `body`. -/
def Ledger.PassedOn (s : Ledger) (calls : List Call) (id : Nat) (body : String) : Prop :=
  ∃ pre c post, calls = pre ++ c :: post ∧ c.Approves id ∧
    (∃ s', c.op.attempt ((s.after pre).at_ c.clock) = .ok s') ∧
    ∃ m ∈ (s.after pre).messages.rows, m.id = id ∧ m.state = .gated ∧ m.body = body

/-- An edit that gives other words to message `id`, which waits and says the brief edited. -/
def Call.Rewrites (s : Ledger) (c : Call) (id : Nat) : Prop :=
  match c.op with
  | .editTask p n _ edit => ∃ words, edit.body = some words ∧
      ∃ t ∈ s.tasks.rows, t.project = p ∧ t.number = n ∧
        ∃ m ∈ s.messages.rows, m.id = id ∧ m.unbegunBrief t.id = true ∧
          ∃ w, renewed (deliveryBody t) (deliveryBody { t with body := words }) m.body = some w ∧
            w ≠ m.body
  | _ => False

/-- The human's own sending of a paste that held message `id`. -/
def Call.SendsByHand (c : Call) (id : Nat) : Prop :=
  ∃ carrier held receipt telling, c.op = .confirmSentByHand carrier held receipt telling ∧
    (id = carrier ∨ id ∈ held)

section Runs

variable {s s' s1 : Ledger} {i : Nat} {b : String}

theorem Ledger.after_append (pre post : List Call) :
    s.after (pre ++ post) = (s.after pre).after post := List.foldl_append

theorem Ledger.PassedOn.more {pre : List Call} (h : s1.PassedOn pre i b) (c : Call) :
    s1.PassedOn (pre ++ [c]) i b := by
  obtain ⟨p, d, q, rfl, hd, ha, hm⟩ := h
  exact ⟨p, d, q ++ [c], by simp, hd, ha, hm⟩

/-- Passed on by the last call, or before it. -/
theorem Ledger.PassedOn.last {pre : List Call} {c : Call} (h : s1.PassedOn (pre ++ [c]) i b) :
    s1.PassedOn pre i b ∨ (c.Approves i ∧
      (∃ s', c.op.attempt ((s1.after pre).at_ c.clock) = .ok s') ∧
      ∃ m ∈ (s1.after pre).messages.rows, m.id = i ∧ m.state = .gated ∧ m.body = b) := by
  obtain ⟨p, d, q, e, hd, ha, hm⟩ := h
  rcases List.eq_nil_or_concat q with rfl | ⟨q', x, rfl⟩
  · obtain ⟨rfl, e'⟩ := List.append_inj' e rfl
    cases e'
    exact Or.inr ⟨hd, ha, hm⟩
  · have e : pre ++ [c] = (p ++ d :: q') ++ [x] := by simpa using e
    obtain ⟨rfl, -⟩ := List.append_inj' e rfl
    exact Or.inl ⟨p, d, q', rfl, hd, ha, hm⟩

/-! ## 2. What a call does to a message held -/

/-- What `replace_brief` does to the mail: the waiting messages that say the brief say the new one. -/
theorem replaceBrief_messages {task : Task} {words : String} {t : Time} {u : Unit}
    (h : (replaceBrief task words t).run s = .ok (u, s')) (ht : task ∈ s.tasks.rows) :
    s'.messages = (s.withMessages
      (fun m => m.unbegunBrief task.id && (renewed (deliveryBody task)
        (deliveryBody { task with body := words }) m.body).isSome)
      fun m => { m with body := (renewed (deliveryBody task)
        (deliveryBody { task with body := words }) m.body).getD m.body }).messages := by
  obtain ⟨row, s1, h1, h⟩ := run_bind_ok.mp h
  obtain ⟨u2, s2, h2, h3⟩ := run_bind_ok.mp h
  obtain ⟨u4, s4, h4, h5⟩ := run_bind_ok.mp (run_liftRewrite _ _ ▸ h1)
  obtain ⟨rfl, hr, er⟩ := taskById_ok h5
  simp only [setTasks, run_liftDesk, run_write_ok] at h4
  subst h4
  obtain rfl := run_write_ok.mp h2
  rw [run_liftRewrite] at h3
  have m3 := log_messages ⟨rfl, rfl⟩ h3
  -- the row read back is the task, with the new words
  obtain ⟨q, hq, e⟩ := Table.mem_alter.mp hr
  have eq : q = task := by
    refine Table.eq_of_key hq ht ?_
    show q.id = task.id
    rw [← er, ← e]
    exact (Table.key_altered _ _ q).symm
  subst eq
  have hd : deliveryBody row = deliveryBody { q with body := words } := by
    rw [← e]
    unfold Table.altered
    rw [if_pos (beq_self_eq_true q.id)]
    rfl
  rw [m3, hd]
  rfl

/-- An edit changes the words of no message but as `Call.Rewrites` tells. -/
theorem editTask_words {p n : Nat} {by_ : String} {edit : TaskEdit} {r : TaskEdited}
    (clock : List Time) (h : (editTaskWith p n by_ edit).run s = .ok (r, s')) {m m' : Message}
    (hm : m ∈ s.messages.rows) (hm' : m' ∈ s'.messages.rows) (e : m'.id = m.id)
    (hs : m.sender.isSome = true)
    (hw : ¬ (⟨.editTask p n by_ edit, clock⟩ : Call).Rewrites s m.id) : m'.body = m.body := by
  obtain ⟨⟨task, moving⟩, s1, h1, h⟩ := run_bind_ok.mp h
  obtain ⟨rfl, ht, hp, hn, -⟩ := editChecks_ok h1
  obtain ⟨t, s2, h2, h⟩ := run_bind_ok.mp h
  have k2 : Desk .none s s2 := now.within h2
  have hm2 : m ∈ s2.messages.rows := by
    rw [now_messages h2]
    exact hm
  -- what is done to the plan leaves the words
  have rest : ∀ {s3 : Ledger}, (∃ m3 ∈ s3.messages.rows, m3.id = m.id ∧ m3.sender = m.sender ∧
      m3.body = m.body) → Kept .none s3 s' → m'.body = m.body := by
    rintro s3 ⟨m3, hm3, e3, es, eb⟩ k
    obtain ⟨m4, hm4, e4, f⟩ := k.later hm3
    have : m4 = m' := Table.eq_of_key hm4 hm' ((e4.trans e3).trans e.symm)
    subst this
    exact (f.words (es ▸ hs) id).trans eb
  simp only at h
  split at h
  · next words hwords =>
    obtain ⟨u3, s3, h3, h⟩ := run_bind_ok.mp h
    rw [run_liftRewrite] at h
    refine rest ?_ ((editPlan p task by_ edit moving t).within h)
    have ht2 : task ∈ s2.tasks.rows := by
      have := now_ok (run_liftDesk now s ▸ h2)
      rw [this]
      exact ht
    rw [replaceBrief_messages h3 ht2]
    refine ⟨_, Table.mem_alter.mpr ⟨m, hm2, rfl⟩, Table.key_altered _ _ m, ?_, ?_⟩
    · unfold Table.altered
      split <;> rfl
    · unfold Table.altered
      split
      · next hq =>
        simp only [Bool.and_eq_true, Option.isSome_iff_exists] at hq
        obtain ⟨hu, w, hren⟩ := hq
        show Option.getD _ _ = _
        rw [hren]
        by_contra hne
        exact hw ⟨words, hwords, task, ht, hp, hn, m, hm, rfl, hu, w, hren, hne⟩
      · rfl
  · rw [run_liftRewrite] at h
    exact rest ⟨m, hm2, rfl, rfl, rfl⟩ ((editPlan p task by_ edit moving t).within h)

/-- A sending by hand writes what it writes as any program does. -/
theorem sentByHand_rest {id : Nat} {held : List Nat} {receipt : Receipt} {telling : Bool}
    {r : Option Message} (h : (confirmSentByHand id held receipt telling).run s = .ok (r, s')) :
    ∃ s0 : Ledger, s0.messages.next = s.messages.next ∧ Kept .none s0 s' := by
  rw [confirmSentByHand, run_inWrite] at h
  obtain ⟨s1, s2, h1, h⟩ := run_bind_ok.mp h
  obtain ⟨rfl, rfl⟩ := run_state_ok.mp h1
  split at h
  · obtain ⟨-, rfl⟩ := run_pure_ok.mp h
    exact ⟨_, rfl, .refl _ _⟩
  · next m hm =>
    obtain ⟨c, s3, h3, h⟩ := run_bind_ok.mp h
    rw [run_tightenIn] at h3
    obtain ⟨t, s4, s5, h4, h5, h6⟩ := sentByHand_ok h3
    obtain ⟨u7, s7, h7, h⟩ := run_bind_ok.mp h
    obtain ⟨-, rfl⟩ := run_pure_ok.mp h
    have k5 : Kept .none _ s5 := ((log m.project (.deliveryBegun id)).within h5).toKept
    have k6 : Kept .none s5 s3 := ((confirmHeld id _ telling).within h6).toKept
    have k7 : Kept .none s3 s7 := ((arrivedAfterAll _).within h7).toKept
    refine ⟨((s4.letGo id).heldAgain id held t).begunByHand id t, ?_, (k5.trans k6).trans k7⟩
    show s4.messages.next = _
    rw [now_messages h4]

/-- What a call does to a message that was there. -/
theorem Call.handles {c : Call} (h : c.op.attempt (s.at_ c.clock) = .ok s') {m' : Message}
    (hm' : m' ∈ s'.messages.rows) (hlt : m'.id < s.messages.next) :
    ∃ m ∈ s.messages.rows, m.id = m'.id ∧ m'.sender = m.sender ∧ (m.sender.isSome = true →
      (¬ c.Approves m.id → ¬ c.SendsByHand m.id → m.Shut → m'.Shut) ∧
      (¬ c.Rewrites s m.id → m'.body = m.body)) := by
  rcases Op.kept h with k | ⟨project, -, rfl⟩
  · obtain ⟨m, hm, e, f⟩ := k.old m' hm' hlt
    refine ⟨m, hm, e, congrArg Stamp.sender f.stamp, fun hs => ⟨fun ha hb => f.shut hs ?_,
      fun hr => ?_⟩⟩
    · cases ho : c.op with
      | approveMessage i by_ =>
        intro k
        exact ha ⟨by_, by rw [ho, (show m.id = i from k)]⟩
      | confirmSentByHand i held r t => exact fun k => hb ⟨i, held, r, t, ho, k⟩
      | _ => exact id
    · by_cases hx : c.op.excuse.rewrites m.id
      · obtain ⟨op, clock⟩ := c
        cases op with
        | editTask p n by_ edit =>
          obtain ⟨r, h⟩ := snd_ok h
          exact editTask_words [] h hm hm' e.symm hs hr
        | _ => exact hx.elim
      · exact f.words hs hx
  · obtain ⟨hm, -⟩ := mem_without hm'
    exact ⟨m', hm, rfl, rfl, fun _ => ⟨fun _ _ k => k, fun _ => rfl⟩⟩

/-- A call whose approval is not refused finds the message at the gate, and no call approves and
    sends by hand, or edits, at once. -/
theorem Call.Approves.held {c : Call} (ha : c.Approves i)
    (h : c.op.attempt (s.at_ c.clock) = .ok s') {m : Message} (hm : m ∈ s.messages.rows)
    (e : m.id = i) : m.state = .gated ∧ ¬ c.Rewrites s i := by
  obtain ⟨op, clock⟩ := c
  obtain ⟨by_, rfl⟩ := ha
  obtain ⟨r, h⟩ := snd_ok h
  obtain ⟨m0, s1, h1, -⟩ := run_bind_ok.mp h
  obtain ⟨hm0, e0, hst, -⟩ := passedOn_ok h1
  have : m0 = m := Table.eq_of_key hm0 hm (e0.trans e.symm)
  exact ⟨this ▸ hst, id⟩

/-! ## 3. What holds of the message along a run -/

/-- No edit rewrites message `i` once the human passed it on in the calls made from `s1`, and
    no sending by hand names it before. -/
def Ledger.Heeds (s1 : Ledger) (i : Nat) (calls : List Call) : Prop :=
  ∀ pre c post, calls = pre ++ c :: post →
    (c.Rewrites (s1.after pre) i → ∀ b, ¬ s1.PassedOn pre i b) ∧
    (c.SendsByHand i → ∃ b, s1.PassedOn pre i b)

/-- What holds of message `i` after the calls `pre` made from `s1`: it is shut, or it says what
    the human passed on; and once passed on it says that for good. -/
structure Ledger.GateKept (s1 : Ledger) (i : Nat) (pre : List Call) (s : Ledger) : Prop where
  old : i < s.messages.next
  spoken : ∀ m ∈ s.messages.rows, m.id = i → m.sender.isSome = true
  held : ∀ m ∈ s.messages.rows, m.id = i → m.Shut ∨ s1.PassedOn pre i m.body
  words : ∀ b, s1.PassedOn pre i b → ∀ m ∈ s.messages.rows, m.id = i → s1.PassedOn pre i m.body

/-- One call that is not refused. -/
theorem Ledger.GateKept.step {pre : List Call} {c : Call}
    (h : s1.GateKept i pre (s1.after pre))
    (ha : c.op.attempt ((s1.after pre).at_ c.clock) = .ok s')
    (hr : c.Rewrites (s1.after pre) i → ∀ b, ¬ s1.PassedOn pre i b)
    (hb : c.SendsByHand i → ∃ b, s1.PassedOn pre i b) : s1.GateKept i (pre ++ [c]) s' := by
  have hids : (s1.after pre).messages.next ≤ s'.messages.next := by
    rcases Op.kept ha with k | ⟨project, -, rfl⟩
    · exact k.ids
    · exact Nat.le_refl _
  -- the message before the call, and what became of it
  have was : ∀ m' ∈ s'.messages.rows, m'.id = i → ∃ m ∈ (s1.after pre).messages.rows, m.id = i ∧
      m'.sender = m.sender ∧ (¬ c.Approves i → ¬ c.SendsByHand i → m.Shut → m'.Shut) ∧
      (¬ c.Rewrites (s1.after pre) i → m'.body = m.body) := by
    intro m' hm' e
    obtain ⟨m, hm, e', es, f⟩ := Call.handles ha hm' (e ▸ h.old)
    have ei : m.id = i := e'.trans e
    obtain ⟨f1, f2⟩ := f (h.spoken m hm ei)
    rw [ei] at f1 f2
    exact ⟨m, hm, ei, es, f1, f2⟩
  -- what is passed on already is so still
  have still : ∀ b, s1.PassedOn pre i b → ∀ m' ∈ s'.messages.rows, m'.id = i →
      s1.PassedOn (pre ++ [c]) i m'.body := by
    intro b hp m' hm' e
    obtain ⟨m, hm, ei, -, -, fw⟩ := was m' hm' e
    rw [fw fun k => hr k b hp]
    exact (h.words b hp m hm ei).more c
  -- what is passed on now says what it said at the gate
  have now' : c.Approves i → ∀ m' ∈ s'.messages.rows, m'.id = i →
      s1.PassedOn (pre ++ [c]) i m'.body := by
    intro hc m' hm' e
    obtain ⟨m, hm, ei, -, -, fw⟩ := was m' hm' e
    obtain ⟨hst, hw⟩ := hc.held ha hm ei
    exact ⟨pre, c, [], rfl, hc, ⟨s', ha⟩, m, hm, ei, hst, (fw hw).symm⟩
  refine ⟨Nat.lt_of_lt_of_le h.old hids, fun m' hm' e => ?_, fun m' hm' e => ?_,
    fun b hp m' hm' e => ?_⟩
  · obtain ⟨m, hm, ei, es, -⟩ := was m' hm' e
    rw [es]
    exact h.spoken m hm ei
  · by_cases hc : c.Approves i
    · exact Or.inr (now' hc m' hm' e)
    · by_cases hk : c.SendsByHand i
      · obtain ⟨b, hp⟩ := hb hk
        exact Or.inr (still b hp m' hm' e)
      · obtain ⟨m, hm, ei, -, fs, -⟩ := was m' hm' e
        rcases h.held m hm ei with k | hp
        · exact Or.inl (fs hc hk k)
        · exact Or.inr (still _ hp m' hm' e)
  · rcases hp.last with hp | ⟨hc, -⟩
    · exact still b hp m' hm' e
    · exact now' hc m' hm' e

/-- A whole run of calls. -/
theorem Ledger.GateKept.after (h : s1.GateKept i [] s1) (calls : List Call)
    (hh : s1.Heeds i calls) : s1.GateKept i calls (s1.after calls) := by
  induction calls using List.reverseRecOn with
  | nil => exact h
  | append_singleton pre c ih =>
    have ih := ih fun p d q e => hh p d (q ++ [c]) (by rw [e]; simp)
    obtain ⟨hr, hb⟩ := hh pre c [] rfl
    rw [Ledger.after_append]
    show s1.GateKept i (pre ++ [c]) (c.step (s1.after pre))
    unfold Call.step
    cases ha : c.op.attempt ((s1.after pre).at_ c.clock) with
    | ok s' => exact ih.step ha hr hb
    | error e =>
      -- a call refused passes nothing on
      have back : ∀ b, s1.PassedOn (pre ++ [c]) i b → s1.PassedOn pre i b := by
        intro b hp
        rcases hp.last with hp | ⟨-, ⟨s', ha'⟩, -⟩
        · exact hp
        · rw [ha] at ha'
          cases ha'
      exact ⟨ih.old, ih.spoken, fun m hm e => (ih.held m hm e).imp id (·.more c),
        fun b hp m hm e => (ih.words b (back b hp) m hm e).more c⟩

/-- What a call writes for the gate is shut. -/
theorem Call.gated_new {c : Call} {m : Message} (hm : m ∈ (c.step s).messages.rows)
    (hn : s.messages.next ≤ m.id) (hg : (c.step s).GateFor m) : m.Shut := by
  have hspoken : m.sender.isSome = true := by
    obtain ⟨a, ha, -⟩ := hg.sender
    rw [ha]
    rfl
  unfold Call.step at hm hg
  cases ha : c.op.attempt (s.at_ c.clock) with
  | error e =>
    rw [ha] at hm
    exact absurd (s.messages.below m hm) (Nat.not_lt_of_le hn)
  | ok s' =>
    rw [ha] at hm hg
    rcases Op.kept ha with k | ⟨project, -, rfl⟩
    · have land := (k.fresh m hm hn).landed
      obtain ⟨op, clock⟩ := c
      cases op with
      | desk op => exact land id id hg
      | board op => exact land id id hg
      | editTask p n by_ edit => exact land id id hg
      | deleteProject p => exact land id id hg
      | approveMessage i by_ =>
        refine land (fun e => ?_) id hg
        obtain ⟨r, ha⟩ := snd_ok ha
        obtain ⟨m0, s1, h1, -⟩ := run_bind_ok.mp ha
        obtain ⟨hm0, e0, -⟩ := passedOn_ok h1
        have := s.messages.below m0 hm0
        exact absurd (show m0.id < s.messages.next from this)
          (Nat.not_lt_of_le (by rw [e0, ← (show m.id = i from e)]; exact hn))
      | confirmSentByHand i held r t =>
        obtain ⟨r, ha⟩ := snd_ok ha
        obtain ⟨s0, e0, k0⟩ := sentByHand_rest ha
        exact (k0.fresh m hm (e0 ▸ hn)).landed id id hg
      | setGate p g =>
        -- it writes no message
        obtain ⟨r, ha⟩ := snd_ok ha
        obtain ⟨q, s1, h1, ha⟩ := run_bind_ok.mp ha
        obtain ⟨rfl, -⟩ := projectRow_ok h1
        obtain ⟨t, s2, h2, ha⟩ := run_bind_ok.mp ha
        have e2 : s2.messages = (s.at_ clock).messages := now_messages h2
        obtain ⟨u3, s3, h3, ha⟩ := run_bind_ok.mp ha
        obtain rfl := run_write_ok.mp h3
        obtain ⟨u4, s4, h4, ha⟩ := run_bind_ok.mp ha
        obtain ⟨rfl, -⟩ := projectRow_ok ha
        have e4 : s4.messages = s2.messages := by
          rcases run_doWhen_ok.mp h4 with ⟨-, h4⟩ | ⟨-, rfl⟩
          · rw [run_liftDesk] at h4
            exact (log_ok h4).2
          · rfl
        rw [e4, e2] at hm
        exact absurd (s.messages.below m hm) (Nat.not_lt_of_le hn)
    · exact absurd (s.messages.below m (mem_without hm).1) (Nat.not_lt_of_le hn)

/-- **The gate is not passed**: what one agent wrote to another while the gate was on is being
    pasted, or delivered, only in the words it had when the human passed it on, in every run
    whose edits and sendings by hand heed that. -/
theorem gate_not_passed {c : Call} {m m' : Message} {calls : List Call}
    (hm : m ∈ (c.step s).messages.rows) (hn : s.messages.next ≤ m.id)
    (hg : (c.step s).GateFor m) (hh : (c.step s).Heeds m.id calls)
    (hm' : m' ∈ ((c.step s).after calls).messages.rows) (e : m'.id = m.id)
    (hs : m'.state = .delivering ∨ m'.state = .delivered) :
    (c.step s).PassedOn calls m.id m'.body := by
  have start : (c.step s).GateKept m.id [] (c.step s) := by
    have one : ∀ x ∈ (c.step s).messages.rows, x.id = m.id → x = m := fun x hx e =>
      Table.eq_of_key hx hm e
    refine ⟨(c.step s).messages.below m hm, fun x hx e => ?_, fun x hx e => ?_, fun b hp => ?_⟩
    · obtain ⟨a, ha, -⟩ := hg.sender
      rw [one x hx e, ha]
      rfl
    · rw [one x hx e]
      exact Or.inl (Call.gated_new hm hn hg)
    · obtain ⟨p, d, q, k, -⟩ := hp
      simp at k
  rcases (start.after calls hh).held m' hm' e with k | k
  · refine absurd k (Message.not_shut ?_ ?_) <;> rcases hs with h | h <;> rw [h] <;> simp
  · exact k

end Runs

/-! ### Passed on, then edited -/

/-- The gate of the project is turned. -/
def gate (on : Bool) : Call := ⟨.setGate 1 on, []⟩

/-- The human passes message `id` on. -/
def approved (id : Nat) : Call := ⟨.approveMessage id "human", []⟩

/-- T-1's brief is edited. -/
def edited (body : String) : Call := ⟨.editTask 1 1 "chief" { body := some body }, []⟩

def begun (id : Nat) : Call := ⟨.desk (.beginDelivery id), []⟩

/-- A task for the workers, in a project whose gate is on. -/
def gateOn : Ledger := Ledger.empty.after [opening, gate true, taskFor "first" []]


instance (s : Ledger) (p : Nat) : Decidable (s.GateOff p) := by
  unfold Ledger.GateOff
  infer_instance

instance (s : Ledger) (p : Nat) : Decidable (s.Human p) := by
  unfold Ledger.Human
  infer_instance

/-- T-1's brief, given to a window of the worker, is held at the gate. -/
theorem gated_brief : ∃ m ∈ ((assigned 1).step gateOn).messages.rows,
    m.id = 1 ∧ gateOn.messages.next ≤ m.id ∧ ((assigned 1).step gateOn).GateFor m := by
  have h : ∃ m ∈ ((assigned 1).step gateOn).messages.rows, m.id = 1 ∧
      gateOn.messages.next ≤ m.id ∧ ¬ ((assigned 1).step gateOn).GateOff m.project ∧
      m.sender = some 2 ∧ 2 ≠ m.recipient ∧ ¬ ((assigned 1).step gateOn).Human 2 ∧
      ¬ ((assigned 1).step gateOn).Human m.recipient := by
    decide
  obtain ⟨m, hm, hi, hn, hg, hs, hne, h2, hr⟩ := h
  exact ⟨m, hm, hi, hn, hg, ⟨2, hs, hne, h2⟩, hr⟩

/-- The brief is edited once the human passed it on: what is pasted is not what the human saw. -/
theorem passed_on_then_edited : ¬ ∀ (s : Ledger) (c : Call) (calls : List Call) (m m' : Message),
    Reachable s → m ∈ (c.step s).messages.rows → s.messages.next ≤ m.id → (c.step s).GateFor m →
      m' ∈ ((c.step s).after calls).messages.rows → m'.id = m.id →
        m'.state = .delivering ∨ m'.state = .delivered →
          (c.step s).PassedOn calls m.id m'.body := by
  intro h
  obtain ⟨m, hm, hi, hn, hg⟩ := gated_brief
  have h1 : ∃ m' ∈ (((assigned 1).step gateOn).after
      [approved 1, edited "other", begun 1]).messages.rows,
      m'.id = 1 ∧ m'.state = .delivering ∧ m'.body = "other" := by
    decide
  obtain ⟨m', hm', hi', hs, hw⟩ := h1
  obtain ⟨pre, c, post, e, ⟨by_, hc⟩, -, x, hx, ex, -, eb⟩ := h gateOn (assigned 1) _ m m'
    (reachable_after _) hm hn hg hm' (hi'.trans hi.symm) (Or.inl hs)
  cases pre with
  | nil =>
    -- what the human passed on was the first brief
    have said : ∀ x ∈ ((assigned 1).step gateOn).messages.rows, x.id = 1 → x.body ≠ "other" := by
      decide
    exact said x hx (ex.trans hi) (eb.trans hw)
  | cons a pre =>
    rw [List.cons_append, List.cons.injEq] at e
    have hmem : c ∈ [edited "other", begun 1] := by
      rw [e.2]
      simp
    rcases List.mem_cons.mp hmem with rfl | hmem
    · cases hc
    · rw [List.mem_singleton.mp hmem] at hc
      cases hc

theorem gate_not_passed_approved :
    ((assigned 1).step gateOn).PassedOn [approved 1, begun 1] 1 "first" := by
  obtain ⟨m, hm, hi, hn, hg⟩ := gated_brief
  have h1 : ∃ m' ∈ (((assigned 1).step gateOn).after [approved 1, begun 1]).messages.rows,
      m'.id = 1 ∧ m'.state = .delivering ∧ m'.body = "first" := by
    decide
  obtain ⟨m', hm', hi', hs, hw⟩ := h1
  have heeds : ((assigned 1).step gateOn).Heeds m.id [approved 1, begun 1] := by
    intro pre c post e
    have hmem : c ∈ [approved 1, begun 1] := by
      rw [e]
      simp
    rcases List.mem_cons.mp hmem with rfl | hmem
    · exact ⟨fun k => k.elim, fun ⟨_, _, _, _, k, _⟩ => by cases k⟩
    · rw [List.mem_singleton.mp hmem]
      exact ⟨fun k => k.elim, fun ⟨_, _, _, _, k, _⟩ => by cases k⟩
  have k := gate_not_passed hm hn hg heeds hm' (hi'.trans hi.symm) (Or.inl hs)
  rw [hi, hw] at k
  exact k

end ConsensFlow
