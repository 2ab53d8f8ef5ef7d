/-
  File:      ConsensFlow/Edits/Calls.lean
  Subject:   EVERY CALL IS A CHAIN OF EDITS, and every run keeps what an edit keeps.

  * `Removed.wired`, … -- the rules of the board hold of what is left when a project goes;
  * `Op.Granted L` -- what a licence asks of a call: of the doors its programs open;
  * **`Op.edited`** -- a call that is not refused makes a chain of edits and owes nothing after it,
    or removes a project;
  * **`Run.kept`** -- the rule by which a fact of the board, kept by each edit, holds in every state
    a run reaches.
-/
import ConsensFlow.Edits.Projects

namespace ConsensFlow

open Lib Txn

/-! ## 1. What is left of the board -/

namespace Removed

variable {project : Nat} {b b' : Board}

theorem mem_cards (h : Removed project b b') {c : Card} :
    c ∈ b'.cards ↔ c ∈ b.cards ∧ c.project ≠ project := by
  rw [h.cards, List.mem_filter, bne_iff_ne]

theorem mem_participants (h : Removed project b b') {p : Participant} :
    p ∈ b'.participants.rows ↔ p ∈ b.participants.rows ∧ p.project ≠ project := by
  rw [h.participants, List.mem_filter, bne_iff_ne]

theorem is_iff (h : Removed project b b') {t : Nat} {ph : Phase} :
    b'.Is t ph ↔ ∃ c ∈ b.cards, c.project ≠ project ∧ c.id = t ∧ c.phase = ph := by
  constructor
  · rintro ⟨c, hc, e⟩
    exact ⟨c, (h.mem_cards.mp hc).1, (h.mem_cards.mp hc).2, e⟩
  · rintro ⟨c, hc, hp, e⟩
    exact ⟨c, h.mem_cards.mpr ⟨hc, hp⟩, e⟩

theorem seated (h : Removed project b b') {w p : Nat} (hp : p ≠ project) (hs : b.Seated w p) :
    b'.Seated w p := by
  obtain ⟨q, hq, e, ep⟩ := hs
  exact ⟨q, h.mem_participants.mpr ⟨hq, ep ▸ hp⟩, e, ep⟩

theorem session (h : Removed project b b') {w : Nat} (hs : b'.Session w) : b.Session w := by
  obtain ⟨q, hq, e⟩ := hs
  exact ⟨q, (h.mem_participants.mp hq).1, e⟩

/-- What a card that stays needs is of its project, and stays too. -/
theorem needs_iff (h : Removed project b b') (hw : Wired b) {c : Card} (hc : c ∈ b.cards)
    (hp : c.project ≠ project) {n : Nat} : (c.id, n) ∈ b'.needs ↔ (c.id, n) ∈ b.needs := by
  refine ⟨fun k => ((h.needs _).mp k).1, fun k => (h.needs _).mpr ⟨k, fun x hx hxp => ?_⟩⟩
  obtain ⟨y, hy, z, hz, ey, ez, eq⟩ := hw.edges _ k
  rw [hw.unique hy hc ey] at eq
  refine ⟨fun e => hp ?_, fun e => hp ?_⟩
  · rw [← hw.unique hx hc e]
    exact hxp
  · rw [eq, hw.unique hz hx (ez.trans e.symm)]
    exact hxp

theorem met_iff (h : Removed project b b') (hw : Wired b) {c : Card} (hc : c ∈ b.cards)
    (hp : c.project ≠ project) : b'.Met c.id ↔ b.Met c.id := by
  refine forall_congr' fun n => ?_
  rw [h.needs_iff hw hc hp]
  refine forall_congr' fun hn => ?_
  rw [h.is_iff]
  obtain ⟨y, hy, z, hz, ey, ez, eq⟩ := hw.edges _ hn
  rw [hw.unique hy hc ey] at eq
  constructor
  · rintro ⟨x, hx, -, e⟩
    exact ⟨x, hx, e⟩
  · rintro ⟨x, hx, e, ph⟩
    refine ⟨x, hx, ?_, e, ph⟩
    rw [hw.unique hx hz (e.trans ez.symm), ← eq]
    exact hp

theorem wired (h : Removed project b b') (hw : Wired b) : Wired b' := by
  have old : ∀ {c}, c ∈ b'.cards → c ∈ b.cards := fun hc => (h.mem_cards.mp hc).1
  refine ⟨?_, fun c hc c' hc' => hw.numbers c (old hc) c' (old hc'), fun e he => ?_,
    fun c hc => ?_, fun p hp => ?_, fun c hc w ha => ?_, fun c hc ho w ha => ?_,
    fun c hc => hw.taken c (old hc), fun c hc => hw.deleted c (old hc), fun e he => ?_,
    fun c hc => hw.pools c (old hc), fun p hp => hw.sessions p (h.mem_participants.mp hp).1,
    fun p hp m hm => ?_, fun c hc => hw.counted c (old hc)⟩
  · rw [h.cards]
    exact hw.ids.sublist (List.filter_sublist.map _)
  · obtain ⟨he, hk⟩ := (h.needs e).mp he
    obtain ⟨x, hx, y, hy, ex, ey, eq⟩ := hw.edges e he
    refine ⟨x, h.mem_cards.mpr ⟨hx, fun k => (hk x hx k).1 ex⟩, y,
      h.mem_cards.mpr ⟨hy, fun k => (hk y hy k).2 ey⟩, ex, ey, eq⟩
  · obtain ⟨hc, hne⟩ := h.mem_cards.mp hc
    obtain ⟨p, hp, e⟩ := hw.projects c hc
    refine ⟨p, ?_, e⟩
    rw [h.projects, List.mem_filter, bne_iff_ne]
    exact ⟨hp, e ▸ hne⟩
  · rw [h.projects, List.mem_filter, bne_iff_ne] at hp
    obtain ⟨q, hq, e, hr⟩ := hw.chiefs p hp.1
    exact ⟨q, h.mem_participants.mpr ⟨hq, e ▸ hp.2⟩, e, hr⟩
  · exact h.seated (h.mem_cards.mp hc).2 (hw.windows c (old hc) w ha)
  · rintro ⟨p, hp, e⟩
    exact hw.here c (old hc) ho w ha ⟨p, (h.mem_participants.mp hp).1, e⟩
  · obtain ⟨he, hk, hp⟩ := h.briefs e he
    obtain ⟨⟨c, hc, ec⟩, p, hpm, ep⟩ := hw.briefs e he
    exact ⟨⟨c, h.mem_cards.mpr ⟨hc, fun k => hk c hc k ec⟩, ec⟩, p,
      h.mem_participants.mpr ⟨hpm, fun k => hp p hpm k ep⟩, ep⟩
  · obtain ⟨hp, hne⟩ := h.mem_participants.mp hp
    exact h.seated hne (hw.members p hp m hm)

theorem acyclic (h : Removed project b b') (ha : Graph.Acyclic b.needs) :
    Graph.Acyclic b'.needs := ha.mono fun e he => ((h.needs e).mp he).1

theorem oneAtWork (h : Removed project b b') (ho : b.OneAtWork) : b'.OneAtWork :=
  fun w hs c hc c' hc' =>
    ho w (h.session hs) c (h.mem_cards.mp hc).1 c' (h.mem_cards.mp hc').1

theorem needsMet (h : Removed project b b') (hw : Wired b) {d : Debt} (hn : NeedsMet d b) :
    NeedsMet d b' := by
  refine ⟨fun c hc hu hp => ?_, fun c hc hu w ha hb => ?_, fun c hc ho w ha hb => ?_⟩
  · obtain ⟨hc, hne⟩ := h.mem_cards.mp hc
    exact (h.met_iff hw hc hne).mpr (hn.work c hc hu hp)
  · obtain ⟨hc, hne⟩ := h.mem_cards.mp hc
    exact (h.met_iff hw hc hne).mpr (hn.briefed c hc hu w ha (h.briefs _ hb).1)
  · exact hn.unbriefed c (h.mem_cards.mp hc).1 ho w ha (h.briefs _ hb).1

theorem stranded (h : Removed project b b') (hw : Wired b) {d : Debt} (hs : Stranded d b) :
    Stranded d b' := by
  refine ⟨?_, fun c hc hp n hn hx ht => ?_, fun c hc hp n hn hx => ?_⟩
  · rw [h.strandings]
    exact hs.once.filter _
  · obtain ⟨hc, hne⟩ := h.mem_cards.mp hc
    obtain ⟨x, hx, -, e⟩ := h.is_iff.mp hx
    have k := hs.told c hc hp n ((h.needs_iff hw hc hne).mp hn) ⟨x, hx, e⟩ ht
    unfold Board.ToldOf
    rw [h.strandings, List.mem_filter, bne_iff_ne]
    exact ⟨k, hne⟩
  · obtain ⟨hc, hne⟩ := h.mem_cards.mp hc
    obtain ⟨x, hx, -, e⟩ := h.is_iff.mp hx
    exact hs.work c hc hp n ((h.needs_iff hw hc hne).mp hn) ⟨x, hx, e⟩

theorem settled (h : Removed project b b') (hw : Wired b) {d : Debt} (hs : Settled d b) :
    Settled d b' := by
  intro p hp c hc ep ho w ha hm
  obtain ⟨hc, hne⟩ := h.mem_cards.mp hc
  obtain ⟨⟨q, hq, e, hk⟩, hb⟩ := hs p hp c hc ep ho w ha ((h.met_iff hw hc hne).mp hm)
  -- what keeps the window busy is of its project, and stays
  obtain ⟨x, hx, hxa, hxk⟩ := Board.busy_iff.mp hb
  refine ⟨⟨q, h.mem_participants.mpr ⟨hq, ?_⟩, e, hk⟩, Board.busy_iff.mpr
    ⟨x, h.mem_cards.mpr ⟨hx, ?_⟩, hxa, hxk⟩⟩
  · obtain ⟨r, hr, er, erp⟩ := hw.windows c hc w ha
    rw [Table.eq_of_key hq hr (e.trans er.symm), erp]
    exact hne
  · rw [hw.same_project hx hc hxa ha]
    exact hne

end Removed

/-! ## 2. Every call -/

/-- What a licence asks of a new task given by name to a session. -/
def Licence.Names (L : Licence) (s : Ledger) (project : Nat) (request : NewTask) : Prop :=
  ∀ p ∈ s.participants.rows, p.project = project → request.after = none →
    request.whom = some p.handle → p.memberId.isSome = true → ∀ b c, L .named b c p.id

/-- What a licence asks of a call: of each door its program may open. -/
def BoardOp.Granted (L : Licence) (s : Ledger) : BoardOp → Prop
  | createTask p r => L.Names s p r
  | assignTask p n _ _ => L.Assigns s p n
  | relaunchStalled p n _ _ _ _ => L.Lets .relaunched s p n
  | goOnInWindow p n => L.Lets .wentOn s p n
  | resumeTask p n _ _ => L.LetsBack s p n
  | reopenTask p n _ _ => L.Reopens s p n
  | setProjectState p state => state = .opened → L.Resumes s.board p
  | _ => True

def Op.Granted (L : Licence) (s : Ledger) : Op → Prop
  | board op => op.Granted L s
  | _ => True

section Calls

variable {L : Licence} {s s' : Ledger}

theorem releaseTask_edits {project number : Nat} {because : String} {r : Task} (hR : L.Fair)
    (h : (releaseTask project number because).run s = .ok (r, s')) (hw : Wired s.board) :
    s.Edited L s' := by
  obtain ⟨d, hd, e, -⟩ := releaseInside_edits (L := L) (d := .none) hR h hw
    (fun x hx => hx.elim) rfl (Set.empty_subset _)
  exact ⟨d, hd, e⟩

/-- A call that may write the board makes a chain of edits. -/
theorem BoardOp.edited (hR : L.Fair) {op : BoardOp} {u : Unit} (h : op.program.run s = .ok (u, s'))
    (hw : Wired s.board) (hg : op.Granted L s) : s.Edited L s' := by
  cases op with
  | createProject r =>
    obtain ⟨r, h⟩ := run_silent.mp h
    exact createProject_edits h
  | renameProject p n =>
    obtain ⟨r, h⟩ := run_silent.mp h
    exact renameProject_edits h
  | setMeeting p o =>
    obtain ⟨r, h⟩ := run_silent.mp h
    exact setMeeting_edits h
  | setProjectState p st =>
    obtain ⟨r, h⟩ := run_silent.mp h
    exact setProjectState_edits h hw hg
  | suspendForRestart =>
    obtain ⟨r, h⟩ := run_silent.mp h
    exact suspendForRestart_edits h
  | switchChief p c =>
    obtain ⟨r, h⟩ := run_silent.mp h
    exact switchChief_edits h
  | addMember p m k =>
    obtain ⟨r, h⟩ := run_silent.mp h
    exact addMember_edits h
  | setRoles p k r =>
    obtain ⟨r, h⟩ := run_silent.mp h
    exact setRoles_edits h
  | editMember p k e r =>
    obtain ⟨r, h⟩ := run_silent.mp h
    exact editMember_edits h
  | removeMember p k =>
    obtain ⟨r, h⟩ := run_silent.mp h
    exact removeMember_edits h hw
  | endSession p k b =>
    obtain ⟨r, h⟩ := run_silent.mp h
    exact endSession_edits h hw
  | markOut p v r =>
    obtain ⟨r, h⟩ := run_silent.mp h
    exact markOut_edits h
  | markBack p b =>
    obtain ⟨r, h⟩ := run_silent.mp h
    exact markBack_edits h
  | createTask p r =>
    obtain ⟨r, h⟩ := run_silent.mp h
    exact (createTask_edits h hw hg).1
  | assignTask p n m l =>
    obtain ⟨r, h⟩ := run_silent.mp h
    exact assignTask_edits h hw hg
  | releaseTask p n b =>
    obtain ⟨r, h⟩ := run_silent.mp h
    exact releaseTask_edits hR h hw
  | pauseTask p n b w =>
    obtain ⟨r, h⟩ := run_silent.mp h
    exact .of_still (pauseTaskAs_edits h hw rfl)
  | pauseWithProject p n b =>
    obtain ⟨r, h⟩ := run_silent.mp h
    exact .of_still (pauseWithProject_edits h hw rfl)
  | holdTask p n v b =>
    obtain ⟨r, h⟩ := run_silent.mp h
    exact .of_still (holdTask_edits h hw rfl)
  | holdForContext p n b =>
    obtain ⟨r, h⟩ := run_silent.mp h
    exact .of_still (holdForContext_edits h hw rfl)
  | clearHold p n b =>
    obtain ⟨r, h⟩ := run_silent.mp h
    exact .of_still (clearHold_edits h hw rfl)
  | relaunchStalled p n w m q i =>
    obtain ⟨r, h⟩ := run_silent.mp h
    exact .of_still (relaunchStalled_edits h hw hg rfl)
  | goOnInWindow p n =>
    obtain ⟨r, h⟩ := run_silent.mp h
    exact .of_still (goOnInWindow_edits h hw hg rfl)
  | workWhileResumed p n =>
    obtain ⟨r, h⟩ := run_silent.mp h
    exact .of_board (workWhileResumed_board h hw)
  | restWhileResumed p n w =>
    obtain ⟨r, h⟩ := run_silent.mp h
    exact .of_board (restWhileResumed_board h hw)
  | resumeTask p n b w =>
    obtain ⟨r, h⟩ := run_silent.mp h
    exact .of_still (resumeTask_edits h hw hg rfl)
  | recordResult p n b =>
    obtain ⟨r, h⟩ := run_silent.mp h
    exact recordCounted_edits hR h hw fun st => by cases st <;> decide
  | recordFinished p n b =>
    obtain ⟨r, h⟩ := run_silent.mp h
    exact recordCounted_edits hR h hw fun st => by cases st <;> decide
  | acceptTask p n b =>
    obtain ⟨r, h⟩ := run_silent.mp h
    exact acceptTask_edits hR h hw
  | acceptFailedTask p n b c =>
    obtain ⟨r, h⟩ := run_silent.mp h
    exact acceptFailedTask_edits hR h hw
  | reopenTask p n b w =>
    obtain ⟨r, h⟩ := run_silent.mp h
    exact reopenTask_edits h hw hg
  | cancelTask p n b =>
    obtain ⟨r, h⟩ := run_silent.mp h
    exact cancelTask_edits hR h hw
  | failTask p n r =>
    obtain ⟨r, h⟩ := run_silent.mp h
    exact failAs_edits hR h hw
  | giveUpTask p n r c =>
    obtain ⟨r, h⟩ := run_silent.mp h
    exact failAs_edits hR h hw
  | deleteTasks p ns =>
    obtain ⟨r, h⟩ := run_silent.mp h
    exact deleteTasks_edits h hw
  | ask p q =>
    obtain ⟨r, h⟩ := run_silent.mp h
    exact ask_edits h hw
  | giveUpDelivery i r =>
    obtain ⟨r, h⟩ := run_silent.mp h
    exact giveUpDelivery_edits hR h hw
  | declineMessage i b =>
    obtain ⟨r, h⟩ := run_silent.mp h
    exact declineMessage_edits hR h hw
  | unmarkPause p n st => exact .of_still (unmarkPause_edits h hw rfl)
  | noteStrandedWaits => exact ⟨.none, Debt.paid_none, noteStrandedWaits_edits h hw⟩

/-- **A call that is not refused makes a chain of edits and owes nothing after it**, or removes a
    project. -/
theorem Op.edited (hR : L.Fair) {op : Op} (h : op.attempt s = .ok s') (hw : Wired s.board)
    (ha : Graph.Acyclic s.board.needs) (hg : op.Granted L s) :
    s.Edited L s' ∨ ∃ project, op = .deleteProject project ∧ Removed project s.board s'.board := by
  cases op with
  | desk op =>
    obtain ⟨u, h⟩ := snd_ok h
    exact Or.inl (.of_board (board_of_desk h))
  | board op =>
    obtain ⟨u, h⟩ := snd_ok h
    exact Or.inl (BoardOp.edited hR h hw hg)
  | approveMessage i b =>
    obtain ⟨m, h⟩ := snd_ok h
    exact Or.inl (.of_board ((ConsensFlow.approveMessage i b).within h).board)
  | confirmSentByHand i k r t =>
    obtain ⟨m, h⟩ := snd_ok h
    exact Or.inl (.of_board ((ConsensFlow.confirmSentByHand i k r t).within h).board)
  | editTask p n b e =>
    obtain ⟨r, h⟩ := snd_ok h
    exact Or.inl (editTaskWith_edits hR h hw ha).1
  | setGate p g =>
    obtain ⟨r, h⟩ := snd_ok h
    exact Or.inl (setGate_edits h)
  | deleteProject p =>
    obtain ⟨r, h⟩ := snd_ok h
    exact Or.inr ⟨p, rfl, deleteProject_removed h⟩

end Calls

/-! ## 3. Every run -/

/-- What a fact of the board must be kept by, to hold in every state. -/
structure Rule (L : Licence) (P : Debt → Board → Prop) : Prop where
  edit : ∀ {d d' b b'}, Edit L d b d' b' → Wired b → P d b → P d' b'
  paid : ∀ {d b}, d.Paid → P d b → P .none b
  removed : ∀ {project b b'}, Removed project b b' → Wired b → P .none b → P .none b'

/-- What every board is. -/
structure Sound (b : Board) : Prop where
  wired : Wired b
  acyclic : Graph.Acyclic b.needs

section Runs

variable {L : Licence} {s s' : Ledger} {P : Debt → Board → Prop}

theorem Edits.rule (hP : Rule L P) {d d' : Debt} {b b' : Board} (h : Edits L d b d' b')
    (hw : Wired b) (k : P d b) : P d' b' :=
  (h.keep (fun e hw k => hP.edit e hw k) hw k).2

/-- A call keeps a rule, where its doors are granted. -/
theorem Op.keeps (hR : L.Fair) (hP : Rule L P) {op : Op} (h : op.attempt s = .ok s')
    (hs : Sound s.board) (hg : op.Granted L s) (k : P .none s.board) : P .none s'.board := by
  rcases Op.edited hR h hs.wired hs.acyclic hg with ⟨d, hd, e⟩ | ⟨project, -, hr⟩
  · exact hP.paid hd (e.rule hP hs.wired k)
  · exact hP.removed hr hs.wired k

theorem rule_acyclic : Rule L fun _ b => Graph.Acyclic b.needs :=
  ⟨fun e hw k => e.acyclic hw k, fun _ k => k, fun h _ k => h.acyclic k⟩

theorem rule_wired : Rule L fun _ b => Wired b :=
  ⟨fun e hw _ => e.wired hw, fun _ k => k, fun h hw _ => h.wired hw⟩

theorem wired_of_nil {b : Board} (hc : b.cards = []) (hn : b.needs = [])
    (hp : b.participants.rows = []) (hj : b.projects.rows = []) (hb : b.briefs = []) :
    Wired b := by
  constructor <;> simp [hc, hn, hp, hj, hb]

theorem sound_empty : Sound Ledger.empty.board :=
  ⟨wired_of_nil rfl rfl rfl rfl rfl, Graph.acyclic_nil⟩

/-- **What each edit keeps, every run keeps.** -/
theorem Run.kept {C : Ledger → Call → Prop} (hR : L.Fair) (hP : Rule L P)
    (hC : ∀ s c, Sound s.board → C s c → c.op.Granted L (s.at_ c.clock))
    (h0 : P .none Ledger.empty.board)
    (r : Run C s) : Sound s.board ∧ P .none s.board := by
  refine Run.invariant (P := fun s => Sound s.board ∧ P .none s.board) ⟨sound_empty, h0⟩ ?_ r
  rintro s c s' ⟨hs, k⟩ hc he
  have hg := hC s c hs hc
  refine ⟨⟨Op.keeps hR rule_wired he hs hg hs.wired, Op.keeps hR rule_acyclic he hs hg hs.acyclic⟩,
    Op.keeps hR hP he hs hg k⟩

/-- A licence that asks nothing. -/
def Licence.any : Licence := fun _ _ _ _ => True

theorem Op.granted_any (op : Op) (s : Ledger) : op.Granted .any s := by
  cases op with
  | board op => cases op <;> simp [Op.Granted, BoardOp.Granted, Licence.any, Licence.Names,
      Licence.Assigns, Licence.Lets, Licence.LetsBack, Licence.Reopens, Licence.Resumes]
  | _ => trivial

theorem Licence.fair_any : Licence.any.Fair := fun _ _ _ => trivial

/-- Every board a run reaches is sound. -/
theorem Run.sound {C : Ledger → Call → Prop} (r : Run C s) : Sound s.board :=
  (Run.kept (L := .any) Licence.fair_any rule_wired (fun _ c _ _ => c.op.granted_any _)
    sound_empty.wired r).1

end Runs

end ConsensFlow
