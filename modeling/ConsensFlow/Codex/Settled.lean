/-
  File:      ConsensFlow/Codex/Settled.lean
  Subject:   THE QUESTIONS OF A PAIR that the board answers (`cf-codex-session`, `broker/pair.rs`).

  * `Fits`, `Stands` -- what stands of a question wherever it is; `Carries` -- what a step leaves of
    one it is not about;
  * `Given` -- what is said of a question, to Codex and to the board;
  * **`questions_settled_once`** -- a question goes one way, to Codex with what the board replied,
    and the board hears once of an answer it gave, as received only where it was written to Codex's
    socket.
-/
import ConsensFlow.Codex.Answered

open Lib.Json

namespace ConsensFlow
namespace Codex
namespace Proxy

/-! ## 1. What stands of a question -/

/-- Whether a frame is of a question. -/
def Queued.of (q : Nat) (frame : Queued) : Bool := frame.from_.question == some q

namespace Pair

variable (p : Pair) (q : Nat)

/-- What of a question went to Codex's socket, or waits for it; what to the TUI's; and what the
    board was told of its answer. -/
def codexOf : List Queued := p.native.all.filter (Queued.of q)

def tuiOf : List Queued := p.tui.all.filter (Queued.of q)

def toldOf : List Told := p.told.filter fun told => told.question == q

/-- Whether the board's answer is written whole to Codex's socket. -/
def AnswerSent : Prop := ∃ frame ∈ p.native.sent, frame.from_ = .answer q

end Pair

/-- What is said of a question: its request was read as it is held; its frames for Codex answer that
    request with the board's answer, or with a refusal the board gave; and what the board is told of
    is the answer it gave. `Gave` is what the board replied. -/
structure Given (wire : Wire) (Gave : Reply → Prop) (p : Pair) (q : Nat) (h : Held) : Prop where
  read : ∃ message, wire.reading h.text = .message message ∧ message.get "id" = some h.request ∧
    Asked.read wire (message.get "params") = some h.asked
  frames : ∀ frame ∈ p.codexOf q,
    (∃ answer, h.claimed = some answer ∧
      frame = ⟨wire.write (h.asked.answered h.request answer), .answer q⟩) ∨
    ∃ reason, h.claimed = none ∧ Gave (.refused reason) ∧
      frame = ⟨wire.write (h.asked.refused h.request reason), .refusal q⟩
  claims : ∀ answer, h.claimed = some answer → Gave (.answered answer)
  tolds : ∀ told ∈ p.toldOf q, h.claimed = some told.answer

/-- What is said of a question stays so while nothing more is. -/
theorem Given.keep {wire : Wire} {Gave : Reply → Prop} {p p' : Pair} {q : Nat} {h h' : Held}
    (given : Given wire Gave p q h) (codex : (p'.codexOf q).Sublist (p.codexOf q))
    (told : p'.toldOf q = p.toldOf q)
    (same : (h'.claimed, h'.text, h'.asked, h'.request) =
      (h.claimed, h.text, h.asked, h.request)) : Given wire Gave p' q h' := by
  simp only [Prod.mk.injEq] at same
  obtain ⟨claimed, text, asked, request⟩ := same
  refine ⟨?_, ?_, ?_, ?_⟩
  · rw [text, asked, request]
    exact given.read
  · rw [claimed, asked, request]
    exact fun frame mem => given.frames frame (codex.mem mem)
  · rw [claimed]
    exact given.claims
  · rw [claimed, told]
    exact given.tolds

/-- What stands of a question wherever it is. -/
structure Fits (wire : Wire) (Gave : Reply → Prop) (p : Pair) (q : Nat) (h : Held) : Prop where
  given : Given wire Gave p q h
  once : (p.codexOf q).length + (p.tuiOf q).length ≤ 1
  asked : ∀ frame ∈ p.tuiOf q, frame = ⟨h.text, .asked q⟩
  toldOnce : (p.toldOf q).length ≤ 1
  received : ∀ told ∈ p.toldOf q, told.received = true → p.AnswerSent q
  begun : h.stage = .asking ∨ h.stage = .giving ∨ h.stage = .telling →
    p.codexOf q = [] ∧ p.tuiOf q = []
  handing : ∀ report, h.stage = .handing report → p.tuiOf q = [] ∧ h.claimed.isSome = true ∧
    (report = some true → p.AnswerSent q)
  untold : h.stage = .asking ∨ h.stage = .giving ∨ (∃ report, h.stage = .handing report) →
    p.toldOf q = []
  unclaimed : h.stage = .asking → h.claimed = none
  claimed : h.stage = .giving ∨ h.stage = .telling → h.claimed.isSome = true
  settled : h.stage = .telling ∨ h.stage = .over →
    (p.toldOf q).length = if h.claimed.isSome then 1 else 0

/-- What a step leaves of a question: no frame of it is new, nothing is told of it, and it is where
    it was. -/
structure Carries (p p' : Pair) (q : Nat) : Prop where
  codex : (p'.codexOf q).Sublist (p.codexOf q)
  tui : (p'.tuiOf q).Sublist (p.tuiOf q)
  told : p'.toldOf q = p.toldOf q
  sent : p.AnswerSent q → p'.AnswerSent q
  stage : (p'.questions[q]?).map
      (fun h => (h.stage, h.claimed, h.text, h.asked, h.request)) =
    (p.questions[q]?).map fun h => (h.stage, h.claimed, h.text, h.asked, h.request)

namespace Carries

variable {p p' p'' : Pair} {q : Nat} {frame : Queued}

theorem refl (p : Pair) (q : Nat) : Carries p p q :=
  ⟨List.Sublist.refl _, List.Sublist.refl _, rfl, id, rfl⟩

theorem trans (h : Carries p p' q) (k : Carries p' p'' q) : Carries p p'' q :=
  ⟨k.codex.trans h.codex, k.tui.trans h.tui, k.told.trans h.told, k.sent ∘ h.sent,
    k.stage.trans h.stage⟩

/-- A step that touches neither the sockets, the questions nor what was told. -/
theorem of_same (native : p'.native = p.native) (tui : p'.tui = p.tui) (told : p'.told = p.told)
    (questions : p'.questions = p.questions) : Carries p p' q := by
  refine ⟨?_, ?_, ?_, ?_, ?_⟩ <;>
    simp only [Pair.codexOf, Pair.tuiOf, Pair.toldOf, Pair.AnswerSent, native, tui, told,
      questions, List.Sublist.refl, imp_self]

theorem abandon_sublist (o : Outbox) : (o.abandon.all).Sublist o.all := by
  unfold Outbox.all Outbox.abandon
  exact List.Sublist.append_left (List.nil_sublist _) _

theorem retire (p : Pair) (q : Nat) : Carries p p.retire q := by
  unfold Pair.retire
  split
  · exact refl p q
  · refine ⟨(abandon_sublist _).filter _, (abandon_sublist _).filter _, rfl, id, ?_⟩
    show ((p.questions.map fun h => { h with raised := h.raised || h.held })[q]?).map _ = _
    rw [List.getElem?_map, Option.map_map]
    rfl

theorem all_refused {o : Outbox} (no : (o.enqueue frame).1 ≠ .queued) :
    (o.enqueue frame).2.all = o.all := by
  rcases Outbox.enqueue_refused no with same | ⟨-, -, e⟩
  · rw [same]
  · rw [e]
    rfl

theorem all_enqueue (o : Outbox) (frame : Queued) :
    ((o.enqueue frame).2.all).Sublist (o.all ++ [frame]) := by
  by_cases taken : (o.enqueue frame).1 = .queued
  · rw [(Outbox.enqueue_queued taken).1]
    unfold Outbox.all
    simp only [List.append_assoc]
    exact List.Sublist.refl _
  · rw [all_refused taken]
    exact List.sublist_append_left _ _

theorem sent_enqueue (o : Outbox) (frame : Queued) : (o.enqueue frame).2.sent = o.sent := by
  by_cases taken : (o.enqueue frame).1 = .queued
  · rw [(Outbox.enqueue_queued taken).1]
  · rcases Outbox.enqueue_refused taken with same | ⟨-, -, e⟩
    · rw [same]
    · rw [e]

/-- What of a question waits for Codex after one more frame. -/
theorem codexOf_enqueue (p : Pair) (frame : Queued) :
    ((p.native.enqueue frame).2.all.filter (Queued.of q)).Sublist
      (p.codexOf q ++ [frame].filter (Queued.of q)) := by
  unfold Pair.codexOf
  rw [← List.filter_append]
  exact (all_enqueue p.native frame).filter _

theorem tuiOf_enqueue (p : Pair) (frame : Queued) :
    ((p.tui.enqueue frame).2.all.filter (Queued.of q)).Sublist
      (p.tuiOf q ++ [frame].filter (Queued.of q)) := by
  unfold Pair.tuiOf
  rw [← List.filter_append]
  exact (all_enqueue p.tui frame).filter _

theorem filter_other (other : frame.from_.question ≠ some q) :
    [frame].filter (Queued.of q) = [] := by
  rw [List.filter_singleton]
  unfold Queued.of
  rw [beq_eq_false_iff_ne.mpr other]
  rfl

theorem answerSent_enqueue (frame : Queued) :
    p.AnswerSent q → ({ p with native := (p.native.enqueue frame).2 } : Pair).AnswerSent q := by
  unfold Pair.AnswerSent
  dsimp only
  rw [sent_enqueue]
  exact id

theorem enqueueCodex (p : Pair) (frame : Queued) (other : frame.from_.question ≠ some q) :
    Carries p { p with native := (p.native.enqueue frame).2 } q := by
  refine ⟨?_, List.Sublist.refl _, rfl, answerSent_enqueue frame, rfl⟩
  have sub := codexOf_enqueue (q := q) p frame
  rwa [filter_other other, List.append_nil] at sub

theorem enqueueTui (p : Pair) (other : frame.from_.question ≠ some q) :
    Carries p { p with tui := (p.tui.enqueue frame).2 } q := by
  refine ⟨List.Sublist.refl _, ?_, rfl, id, rfl⟩
  have sub := tuiOf_enqueue (q := q) p frame
  rwa [filter_other other, List.append_nil] at sub

theorem toCodex (p : Pair) (other : frame.from_.question ≠ some q) :
    Carries p (p.toCodex frame) q := by
  have first := enqueueCodex p frame other
  unfold Pair.toCodex
  dsimp only
  split
  · exact first
  · exact first.trans (retire _ q)

theorem toTui (p : Pair) (other : frame.from_.question ≠ some q) :
    Carries p (p.toTui frame) q := by
  have first := enqueueTui p other
  unfold Pair.toTui
  dsimp only
  split
  · exact first
  · exact first.trans (retire _ q)

/-- A change of another question. -/
theorem change {r : Nat} (p : Pair) (f : Held → Held) (ne : r ≠ q) :
    Carries p (p.change r f) q := by
  refine ⟨List.Sublist.refl _, List.Sublist.refl _, rfl, id, ?_⟩
  show ((p.questions.modify r f)[q]?).map _ = _
  rw [List.getElem?_modify]
  cases p.questions[q]? with
  | none => rfl
  | some h =>
    show some _ = some _
    dsimp only
    rw [if_neg ne]

theorem tell {r : Nat} (p : Pair) (answer : Answer) (received : Bool) (ne : r ≠ q) :
    Carries p (p.tell r answer received) q := by
  refine ⟨List.Sublist.refl _, List.Sublist.refl _, ?_, id, rfl⟩
  unfold Pair.toldOf Pair.tell
  rw [List.filter_append, List.filter_singleton, beq_eq_false_iff_ne.mpr ne]
  exact List.append_nil _

end Carries

/-- A question stands as it is, and one that was not asked has nothing. -/
structure Stands (wire : Wire) (Gave : Reply → Prop) (p : Pair) (q : Nat) : Prop where
  fits : ∀ h, p.questions[q]? = some h → Fits wire Gave p q h
  none_ : p.questions[q]? = none → p.codexOf q = [] ∧ p.tuiOf q = [] ∧ p.toldOf q = []

section Carried

variable {wire : Wire} {Gave : Reply → Prop}

theorem Fits.stands {p : Pair} {q : Nat} {h : Held} (fits : Fits wire Gave p q h)
    (there : p.questions[q]? = some h) : Stands wire Gave p q where
  fits h' same := by
    rw [there] at same
    cases same
    exact fits
  none_ no := by
    rw [there] at no
    cases no

/-- What a step carries on stands. -/
theorem Carries.stands {p p' : Pair} {q : Nat} (c : Carries p p' q) (s : Stands wire Gave p q) :
    Stands wire Gave p' q where
  fits h' there := by
    have stage := c.stage
    rw [there, Option.map_some] at stage
    obtain ⟨h, was, same⟩ := Option.map_eq_some_iff.mp stage.symm
    simp only [Prod.mk.injEq] at same
    obtain ⟨stage, claimed, text, asked, request⟩ := same
    have fits := s.fits h was
    have empty {as bs : List Queued} (sub : as.Sublist bs) (none_ : bs = []) : as = [] :=
      List.eq_nil_of_sublist_nil (none_ ▸ sub)
    refine ⟨?_, ?_, ?_, ?_, ?_, ?_, ?_, ?_, ?_, ?_, ?_⟩
    · refine fits.given.keep c.codex c.told ?_
      rw [claimed, text, asked, request]
    · exact (Nat.add_le_add c.codex.length_le c.tui.length_le).trans fits.once
    · intro frame mem
      rw [← text]
      exact fits.asked frame (c.tui.mem mem)
    · rw [c.told]
      exact fits.toldOnce
    · rw [c.told]
      exact fun told mem received => c.sent (fits.received told mem received)
    · rw [← stage]
      exact fun early => ⟨empty c.codex (fits.begun early).1, empty c.tui (fits.begun early).2⟩
    · rw [← stage, ← claimed]
      intro report handing
      obtain ⟨tui, claims, sent⟩ := fits.handing report handing
      exact ⟨empty c.tui tui, claims, c.sent ∘ sent⟩
    · rw [← stage, c.told]
      exact fits.untold
    · rw [← stage, ← claimed]
      exact fits.unclaimed
    · rw [← stage, ← claimed]
      exact fits.claimed
    · rw [← stage, ← claimed, c.told]
      exact fits.settled
  none_ no := by
    have stage := c.stage
    rw [no, Option.map_none] at stage
    obtain ⟨codex, tui, told⟩ := s.none_ (Option.map_eq_none_iff.mp stage.symm)
    exact ⟨List.eq_nil_of_sublist_nil (codex ▸ c.codex), List.eq_nil_of_sublist_nil (tui ▸ c.tui),
      c.told.trans told⟩

end Carried

section Own

variable {wire : Wire} {Gave : Reply → Prop} {p p' : Pair} {q : Nat} {h : Held}

theorem change_there (there : p.questions[q]? = some h) (f : Held → Held) :
    (p.change q f).questions[q]? = some (f h) := by
  show (p.questions.modify q f)[q]? = _
  rw [List.getElem?_modify_eq, there]
  rfl

theorem toldOf_tell (p : Pair) (q : Nat) (answer : Answer) (received : Bool) :
    (p.tell q answer received).toldOf q = p.toldOf q ++ [⟨q, answer, received⟩] := by
  unfold Pair.toldOf Pair.tell
  rw [List.filter_append, List.filter_singleton, beq_self_eq_true]
  rfl

theorem toCodex_there (there : p.questions[q]? = some h) (frame : Queued) :
    ∃ raised, (p.toCodex frame).questions[q]? = some { h with raised } := by
  unfold Pair.toCodex Pair.retire
  dsimp only
  split
  · exact ⟨h.raised, there⟩
  · split
    · exact ⟨h.raised, there⟩
    · refine ⟨h.raised || h.held, ?_⟩
      rw [List.getElem?_map, show p.questions[q]? = some h from there]
      rfl

theorem toTui_there (there : p.questions[q]? = some h) (frame : Queued) :
    ∃ raised, (p.toTui frame).questions[q]? = some { h with raised } := by
  unfold Pair.toTui Pair.retire
  dsimp only
  split
  · exact ⟨h.raised, there⟩
  · split
    · exact ⟨h.raised, there⟩
    · refine ⟨h.raised || h.held, ?_⟩
      rw [List.getElem?_map, show p.questions[q]? = some h from there]
      rfl

/-- One more frame for Codex. -/
theorem toCodex_own (p : Pair) (frame : Queued) :
    ((p.toCodex frame).codexOf q).Sublist (p.codexOf q ++ [frame].filter (Queued.of q)) ∧
      ((p.toCodex frame).tuiOf q).Sublist (p.tuiOf q) ∧
      (p.toCodex frame).toldOf q = p.toldOf q := by
  have first := Carries.codexOf_enqueue (q := q) p frame
  have next := Carries.retire { p with native := (p.native.enqueue frame).2 } q
  unfold Pair.toCodex
  dsimp only
  split
  · exact ⟨first, List.Sublist.refl _, rfl⟩
  · exact ⟨next.codex.trans first, next.tui, next.told⟩

/-- One more frame for the TUI. -/
theorem toTui_own (p : Pair) (frame : Queued) :
    ((p.toTui frame).tuiOf q).Sublist (p.tuiOf q ++ [frame].filter (Queued.of q)) ∧
      ((p.toTui frame).codexOf q).Sublist (p.codexOf q) ∧
      (p.toTui frame).toldOf q = p.toldOf q := by
  have first := Carries.tuiOf_enqueue (q := q) p frame
  have next := Carries.retire { p with tui := (p.tui.enqueue frame).2 } q
  unfold Pair.toTui
  dsimp only
  split
  · exact ⟨first, List.Sublist.refl _, rfl⟩
  · exact ⟨next.tui.trans first, next.codex, next.told⟩

/-- A question settled with no answer claimed: one frame of it, at most. -/
theorem stands_release (there : p.questions[q]? = some h)
    (read : ∃ message, wire.reading h.text = .message message ∧
      message.get "id" = some h.request ∧ Asked.read wire (message.get "params") = some h.asked)
    (refused : ∀ frame ∈ p.codexOf q, ∃ reason, Gave (.refused reason) ∧
      frame = ⟨wire.write (h.asked.refused h.request reason), .refusal q⟩)
    (unclaimed : h.claimed = none)
    (once : (p.codexOf q).length + (p.tuiOf q).length ≤ 1)
    (asked : ∀ frame ∈ p.tuiOf q, frame = ⟨h.text, .asked q⟩) (told : p.toldOf q = []) :
    Stands wire Gave (p.release q) q := by
  refine Fits.stands (h := { h with held := false, stage := .over }) ?_ (change_there there _)
  have untold : (p.release q).toldOf q = [] := told
  have given : Given wire Gave (p.release q) q { h with held := false, stage := .over } := by
    refine ⟨read, fun frame mem => ?_, fun answer claimed => ?_, ?_⟩
    · obtain ⟨reason, refusal⟩ := refused frame mem
      exact .inr ⟨reason, unclaimed, refusal⟩
    · rw [show h.claimed = some answer from claimed] at unclaimed
      cases unclaimed
    · rw [untold]
      exact fun told mem => absurd mem List.not_mem_nil
  refine ⟨given, once, asked, ?_, ?_, ?_, ?_, ?_, ?_, ?_, ?_⟩
  · rw [untold]
    exact Nat.zero_le 1
  · intro x mem
    rw [untold] at mem
    cases mem
  · rintro (e | e | e) <;> cases e
  · intro report e
    cases e
  · rintro (e | e | ⟨report, e⟩) <;> cases e
  · intro e
    cases e
  · rintro (e | e) <;> cases e
  · intro _
    rw [untold, unclaimed]
    rfl

/-- The board's answer is queued for Codex, or claimed for nothing: given back later. -/
theorem stands_claimed {stage : Stage} {held : Bool} {answer : Answer}
    (there : p.questions[q]? = some { h with held, stage, claimed := some answer })
    (read : ∃ message, wire.reading h.text = .message message ∧
      message.get "id" = some h.request ∧ Asked.read wire (message.get "params") = some h.asked)
    (gave : Gave (.answered answer))
    (answers : ∀ frame ∈ p.codexOf q,
      frame = ⟨wire.write (h.asked.answered h.request answer), .answer q⟩)
    (once : (p.codexOf q).length ≤ 1) (tui : p.tuiOf q = []) (told : p.toldOf q = [])
    (way : stage = .handing none ∨ stage = .giving ∧ p.codexOf q = []) : Stands wire Gave p q := by
  refine Fits.stands ?_ there
  refine ⟨?_, ?_, ?_, ?_, ?_, ?_, ?_, ?_, ?_, ?_, ?_⟩
  · refine ⟨read, fun frame mem => .inl ⟨answer, rfl, answers frame mem⟩, fun x claimed => ?_, ?_⟩
    · rwa [← Option.some.inj claimed]
    · rw [told]
      exact fun told mem => absurd mem List.not_mem_nil
  · rw [tui]
    exact once
  · rw [tui]
    exact fun frame mem => absurd mem List.not_mem_nil
  · rw [told]
    exact Nat.zero_le 1
  · rw [told]
    exact fun x mem => absurd mem List.not_mem_nil
  · rintro (e | e | e)
    all_goals
      rcases way with rfl | ⟨rfl, none_⟩
      · cases e
    · cases e
    · exact ⟨none_, tui⟩
    · cases e
  · intro report e
    rcases way with rfl | ⟨rfl, none_⟩
    · cases e
      exact ⟨tui, rfl, fun no => by cases no⟩
    · cases e
  · exact fun _ => told
  · intro e
    rcases way with rfl | ⟨rfl, -⟩ <;> cases e
  · exact fun _ => rfl
  · rintro (e | e) <;> rcases way with rfl | ⟨rfl, -⟩ <;> cases e

/-- The board is told, once. -/
theorem stands_told (p0 : Pair) (answer : Answer) (received : Bool) {held : Bool} {stage : Stage}
    (late : stage = .telling ∨ stage = .over)
    (there : p.questions[q]? = some { h with held, stage, claimed := some answer })
    (given : Given wire Gave p q { h with held, stage, claimed := some answer })
    (fits : Fits wire Gave p0 q h) (codex : p.codexOf q = p0.codexOf q) (tui : p.tuiOf q = p0.tuiOf q)
    (begun : stage = .telling → p0.codexOf q = [] ∧ p0.tuiOf q = [])
    (told : p.toldOf q = [⟨q, answer, received⟩]) (sent : received = true → p.AnswerSent q) :
    Stands wire Gave p q := by
  refine Fits.stands ?_ there
  refine ⟨given, ?_, ?_, ?_, ?_, ?_, ?_, ?_, ?_, ?_, ?_⟩
  · rw [codex, tui]
    exact fits.once
  · rw [tui]
    exact fits.asked
  · rw [told]
    exact Nat.le_refl 1
  · rw [told]
    intro x mem yes
    rw [List.mem_singleton.mp mem] at yes
    exact sent yes
  · rw [codex, tui]
    rintro (e | e | e)
    · rcases late with rfl | rfl <;> cases e
    · rcases late with rfl | rfl <;> cases e
    · exact begun e
  · intro report e
    rcases late with rfl | rfl <;> cases e
  · rintro (e | e | ⟨report, e⟩) <;> rcases late with rfl | rfl <;> cases e
  · intro e
    rcases late with rfl | rfl <;> cases e
  · exact fun _ => rfl
  · rw [told]
    exact fun _ => rfl

theorem replied_own (s : Stands wire Gave p q) (there : p.questions[q]? = some h)
    (asking : h.stage = .asking) (reply : Option Reply)
    (gave : ∀ said, reply = some said → Gave said) :
    Stands wire Gave (p.replied wire q h reply) q := by
  have fits := s.fits h there
  obtain ⟨codex, tui⟩ := fits.begun (.inl asking)
  have told := fits.untold (.inl asking)
  have unclaimed := fits.unclaimed asking
  have read := fits.given.read
  have nothing : Stands wire Gave (p.release q) q := by
    refine stands_release there read (fun frame mem => ?_) unclaimed fits.once fits.asked told
    rw [codex] at mem
    exact absurd mem List.not_mem_nil
  -- the request goes on to the TUI
  have leaves : Stands wire Gave ((p.toTui ⟨h.text, .asked q⟩).release q) q := by
    obtain ⟨one, none_, same⟩ := toTui_own (q := q) p ⟨h.text, .asked q⟩
    obtain ⟨raised, there'⟩ := toTui_there there ⟨h.text, .asked q⟩
    rw [tui, List.nil_append] at one
    rw [codex] at none_
    have one := one.trans List.filter_sublist
    have none_ := List.eq_nil_of_sublist_nil none_
    refine stands_release there' read (fun frame mem => ?_) unclaimed ?_ (fun frame mem => ?_)
      (same.trans told)
    · rw [none_] at mem
      exact absurd mem List.not_mem_nil
    · rw [none_]
      exact (Nat.zero_add _).le.trans one.length_le
    · exact List.mem_singleton.mp (one.mem mem)
  unfold Pair.replied
  split
  · next answer =>
    split
    · -- too late: the answer is given back
      have own : (p.tell q answer false).toldOf q = [⟨q, answer, false⟩] := by
        rw [toldOf_tell, told, List.nil_append]
      have none_ : (p.tell q answer false).codexOf q = [] := codex
      refine stands_told p answer false (.inl rfl)
        (change_there (p := p.tell q answer false) there _) ⟨read, fun frame mem => ?_, ?_, ?_⟩
        fits rfl rfl (fun _ => ⟨codex, tui⟩) own fun no => by cases no
      · exact absurd (none_ ▸ mem : frame ∈ []) List.not_mem_nil
      · exact fun x claimed => Option.some.inj claimed ▸ gave _ rfl
      · intro t mem
        have here : t ∈ (p.tell q answer false).toldOf q := mem
        rw [own] at here
        rw [List.mem_singleton.mp here]
    · unfold Pair.handOver
      dsimp only
      have one := Carries.codexOf_enqueue (q := q) p
        ⟨wire.write (h.asked.answered h.request answer), .answer q⟩
      rw [codex, List.nil_append] at one
      have one := one.trans List.filter_sublist
      have few := one.length_le
      have answers := fun frame mem => List.mem_singleton.mp (one.mem (a := frame) mem)
      split
      · exact stands_claimed (h := h) (p := Pair.change _ q _) (change_there (by exact there) _) read
          (gave _ rfl) answers few tui told (.inl rfl)
      · next no =>
        have none_ : ({ p with native := (p.native.enqueue
            ⟨wire.write (h.asked.answered h.request answer), .answer q⟩).2 } : Pair).codexOf q =
            [] := by
          unfold Pair.codexOf at codex ⊢
          rwa [Carries.all_refused no]
        refine (Carries.retire _ q).stands ?_
        exact stands_claimed (h := h) (p := Pair.change _ q _) (change_there (by exact there) _) read
          (gave _ rfl) answers few tui told (.inr ⟨rfl, none_⟩)
  · next reason =>
    split
    · exact nothing
    · obtain ⟨one, none_, same⟩ := toCodex_own (q := q) p
        ⟨wire.write (h.asked.refused h.request reason), .refusal q⟩
      obtain ⟨raised, there'⟩ := toCodex_there there
        ⟨wire.write (h.asked.refused h.request reason), .refusal q⟩
      rw [codex, List.nil_append] at one
      rw [tui] at none_
      have none_ := List.eq_nil_of_sublist_nil none_
      have one := one.trans List.filter_sublist
      refine stands_release there' read (fun frame mem => ?_) unclaimed ?_ (fun frame mem => ?_)
        (same.trans told)
      · exact ⟨reason, gave _ rfl, List.mem_singleton.mp (one.mem mem)⟩
      · rw [none_]
        exact one.length_le
      · rw [none_] at mem
        exact absurd mem List.not_mem_nil
  all_goals
    split
    · exact nothing
    · exact leaves

theorem replied_other {r : Nat} (ne : r ≠ q) (h : Held) (reply : Option Reply) :
    Carries p (p.replied wire r h reply) q := by
  have other {o : Origin} (own : o.question = some r) : o.question ≠ some q := by
    rw [own]
    exact fun e => ne (Option.some.inj e)
  unfold Pair.replied
  split
  · split
    · exact (Carries.tell p _ _ ne).trans (.change _ _ ne)
    · next answer _ =>
      have first := Carries.enqueueCodex (q := q) p
        ⟨wire.write (h.asked.answered h.request answer), .answer r⟩ (other rfl)
      unfold Pair.handOver
      dsimp only
      split
      · exact first.trans (.change _ _ ne)
      · exact (first.trans (.change _ _ ne)).trans (.retire _ q)
  · split
    · exact .change _ _ ne
    · exact (Carries.toCodex p (other rfl)).trans (.change _ _ ne)
  all_goals
    split
    · exact .change _ _ ne
    · exact (Carries.toTui p (other rfl)).trans (.change _ _ ne)

/-- The board hears what became of an answer it gave, where it had not heard. -/
theorem tells_own {handed : Bool} {answer : Answer} (s : Stands wire Gave p q)
    (there : p.questions[q]? = some h) (claimed : h.claimed = some answer)
    (untold : p.toldOf q = []) (sure : handed = true → p.AnswerSent q) :
    Stands wire Gave ((p.release q).tell q answer handed) q := by
  have same : ({ h with held := false, stage := .over } : Held) =
      { h with held := false, stage := .over, claimed := some answer } := by
    rw [← claimed]
  have there' := change_there there fun h => { h with held := false, stage := .over }
  rw [same] at there'
  have own : ((p.release q).tell q answer handed).toldOf q = [⟨q, answer, handed⟩] := by
    rw [toldOf_tell, show (p.release q).toldOf q = [] from untold]
    rfl
  have given := (s.fits h there).given
  refine stands_told p answer handed (.inr rfl) there' ⟨given.read, ?_, ?_, fun t mem => ?_⟩
    (s.fits h there) rfl rfl (fun e => by cases e) own sure
  · rw [← claimed]
    exact given.frames
  · rw [← claimed]
    exact given.claims
  · rw [own] at mem
    rw [List.mem_singleton.mp mem]

theorem settle_own {handed : Bool} {report : Option Bool} (s : Stands wire Gave p q)
    (there : p.questions[q]? = some h) (handing : h.stage = .handing report)
    (sure : handed = true → report = some true) : Stands wire Gave (p.settle q h handed) q := by
  have fits := s.fits h there
  unfold Pair.settle
  split
  · next answer claimed =>
    refine tells_own s there claimed (fits.untold (.inr (.inr ⟨report, handing⟩))) fun yes => ?_
    rw [Bool.and_eq_true] at yes
    exact (fits.handing report handing).2.2 (sure yes.1)
  · exact s

theorem settle_other {r : Nat} (ne : r ≠ q) (h : Held) (handed : Bool) :
    Carries p (p.settle r h handed) q := by
  unfold Pair.settle
  split
  · exact (Carries.change p _ ne).trans (.tell _ _ _ ne)
  · exact .refl p q

/-- The board heard: the question is over. -/
theorem hears_own (s : Stands wire Gave p q) (there : p.questions[q]? = some h)
    (telling : h.stage = .telling) : Stands wire Gave (p.release q) q := by
  have fits := s.fits h there
  refine Fits.stands (h := { h with held := false, stage := .over }) ?_ (change_there there _)
  refine ⟨fits.given.keep (List.Sublist.refl _) rfl rfl, fits.once, fits.asked, fits.toldOnce,
    fits.received, ?_, ?_, ?_, ?_, ?_, ?_⟩
  · rintro (e | e | e) <;> cases e
  · intro report e
    cases e
  · rintro (e | e | ⟨report, e⟩) <;> cases e
  · intro e
    cases e
  · rintro (e | e) <;> cases e
  · exact fun _ => fits.settled (.inl telling)

/-- The writer's word: an answer it wrote is on the socket. -/
theorem report_own {written : Bool} (s : Stands wire Gave p q) (sure : written = true → p.AnswerSent q) :
    Stands wire Gave (p.report (some (q, written))) q := by
  cases there : p.questions[q]? with
  | none =>
    have none_ : (p.report (some (q, written))).questions[q]? = none := by
      show (p.questions.modify q _)[q]? = none
      rw [List.getElem?_modify_eq, there]
      rfl
    refine ⟨fun h no => ?_, fun _ => s.none_ there⟩
    rw [none_] at no
    cases no
  | some h =>
    have fits := s.fits h there
    have there' := change_there there fun h =>
      if h.stage = .handing none then { h with stage := .handing (some written) } else h
    by_cases waits : h.stage = .handing none
    · rw [if_pos waits] at there'
      obtain ⟨tui, claimed, -⟩ := fits.handing none waits
      refine Fits.stands ?_ there'
      refine ⟨fits.given.keep (List.Sublist.refl _) rfl rfl, fits.once, fits.asked, fits.toldOnce,
        fits.received, ?_, ?_, ?_, ?_, ?_, ?_⟩
      · rintro (e | e | e) <;> cases e
      · intro report e
        cases e
        exact ⟨tui, claimed, fun e => sure (Option.some.inj e)⟩
      · exact fun _ => fits.untold (.inr (.inr ⟨none, waits⟩))
      · intro e
        cases e
      · rintro (e | e) <;> cases e
      · rintro (e | e) <;> cases e
    · rw [if_neg waits] at there'
      exact Fits.stands ⟨fits.given.keep (List.Sublist.refl _) rfl rfl, fits.once, fits.asked,
        fits.toldOnce, fits.received, fits.begun, fits.handing, fits.untold, fits.unclaimed, fits.claimed, fits.settled⟩ there'

theorem report_stands {told : Option (Nat × Bool)} (s : Stands wire Gave p q)
    (sure : told = some (q, true) → p.AnswerSent q) : Stands wire Gave (p.report told) q := by
  cases told with
  | none => exact s
  | some told =>
    obtain ⟨r, written⟩ := told
    by_cases own : r = q
    · subst own
      exact report_own s fun yes => sure (by rw [yes])
    · exact (Carries.change p _ own).stands s

/-- The broker closed: the question is dropped where it was. -/
theorem dropped_own (s : Stands wire Gave p q) :
    Stands wire Gave { p with questions := p.questions.map fun h => { h with stage := .dropped } } q := by
  cases there : p.questions[q]? with
  | none =>
    have none_ : (p.questions.map fun h => { h with stage := .dropped })[q]? = none := by
      rw [List.getElem?_map, there]
      rfl
    refine ⟨fun h no => ?_, fun _ => s.none_ there⟩
    have no : (p.questions.map fun h => { h with stage := .dropped })[q]? = some h := no
    rw [none_] at no
    cases no
  | some h =>
    have fits := s.fits h there
    have there' : (p.questions.map fun h => { h with stage := .dropped })[q]? =
        some { h with stage := .dropped } := by
      rw [List.getElem?_map, there]
      rfl
    refine Fits.stands (h := { h with stage := .dropped }) ?_ there'
    refine ⟨fits.given.keep (List.Sublist.refl _) rfl rfl, fits.once, fits.asked, fits.toldOnce,
      fits.received, ?_, ?_, ?_, ?_, ?_, ?_⟩
    · rintro (e | e | e) <;> cases e
    · intro report e
      cases e
    · rintro (e | e | ⟨report, e⟩) <;> cases e
    · intro e
      cases e
    · rintro (e | e) <;> cases e
    · rintro (e | e) <;> cases e

/-- A question Codex asks has nothing of it anywhere. -/
theorem pushed (s : Stands wire Gave p q) (x : Held) (asking : x.stage = .asking)
    (unclaimed : x.claimed = none)
    (read : ∃ message, wire.reading x.text = .message message ∧
      message.get "id" = some x.request ∧ Asked.read wire (message.get "params") = some x.asked)
    (heard : List Heard) :
    Stands wire Gave { p with heard, questions := p.questions ++ [x] } q := by
  rcases Nat.lt_trichotomy q p.questions.length with lt | rfl | gt
  · have c : Carries p { p with heard, questions := p.questions ++ [x] } q := by
      refine ⟨List.Sublist.refl _, List.Sublist.refl _, rfl, id, ?_⟩
      show ((p.questions ++ [x])[q]?).map _ = _
      rw [List.getElem?_append_left lt]
    exact c.stands s
  · obtain ⟨codex, tui, told⟩ := s.none_ (List.getElem?_eq_none (Nat.le_refl _))
    have there : (p.questions ++ [x])[p.questions.length]? = some x := by
      rw [List.getElem?_append_right (Nat.le_refl _), Nat.sub_self]
      rfl
    refine Fits.stands (h := x) ?_ there
    refine ⟨⟨read, ?_, ?_, ?_⟩, ?_, ?_, ?_, ?_, fun _ => ⟨codex, tui⟩, ?_, fun _ => told,
      fun _ => unclaimed, ?_, ?_⟩
    · show ∀ frame ∈ p.codexOf _, _
      rw [codex]
      exact fun frame mem => absurd mem List.not_mem_nil
    · intro answer claimed
      rw [unclaimed] at claimed
      cases claimed
    · show ∀ t ∈ p.toldOf _, _
      rw [told]
      exact fun t mem => absurd mem List.not_mem_nil
    · show (p.codexOf _).length + (p.tuiOf _).length ≤ 1
      rw [codex, tui]
      exact Nat.zero_le 1
    · show ∀ frame ∈ p.tuiOf _, _
      rw [tui]
      exact fun frame mem => absurd mem List.not_mem_nil
    · show (p.toldOf _).length ≤ 1
      rw [told]
      exact Nat.zero_le 1
    · show ∀ t ∈ p.toldOf _, _
      rw [told]
      exact fun t mem => absurd mem List.not_mem_nil
    · intro report e
      rw [asking] at e
      cases e
    · rintro (e | e) <;> rw [asking] at e <;> cases e
    · rintro (e | e) <;> rw [asking] at e <;> cases e
  · have c : Carries p { p with heard, questions := p.questions ++ [x] } q := by
      refine ⟨List.Sublist.refl _, List.Sublist.refl _, rfl, id, ?_⟩
      show ((p.questions ++ [x])[q]?).map _ = _
      rw [List.getElem?_eq_none (by rw [List.length_append]; exact gt),
        List.getElem?_eq_none gt.le]
    exact c.stands s

end Own

/-! ## 2. Each question is settled once -/

section Steps

variable {wire : Wire} {Gave : Reply → Prop} {p : Pair} {q : Nat}

theorem pass_carries (p : Pair) (text : String) : Carries p (p.pass text) q := by
  have first : Carries p { p with heard := p.heard ++ [⟨text, none⟩] } q := .of_same rfl rfl rfl rfl
  exact first.trans (.toTui _ fun no => by cases no)

theorem processTui_carries (p : Pair) (text : String) : Carries p (p.processTui wire text) q := by
  unfold Pair.processTui
  split
  · exact .toCodex p fun no => by cases no
  · exact .retire p q
  · next message _ =>
    have first : Carries p { p with
        requests := (p.state.tuiSaid p.client p.requests message).2.1
        state := ((p.state.tuiSaid p.client p.requests message).2.2.unclassified message).2
        unclassified := p.unclassified ++
          ((p.state.tuiSaid p.client p.requests message).2.2.unclassified message).1.toList } q :=
      .of_same rfl rfl rfl rfl
    exact first.trans (.toCodex _ fun no => by cases no)

theorem processAll_carries (p : Pair) (rest : List String) :
    Carries p (p.processAll wire rest) q := by
  induction rest generalizing p with
  | nil => exact .refl p q
  | cons text rest ih =>
    unfold Pair.processAll
    split
    · exact .refl p q
    · exact (processTui_carries p text).trans (ih _)

theorem tuiSaid_carries (p : Pair) (text : String) : Carries p (p.tuiSaid wire text) q := by
  have first : Carries p { p with said := p.said ++ [text] } q := .of_same rfl rfl rfl rfl
  unfold Pair.tuiSaid
  dsimp only
  split
  · exact first.trans (processTui_carries _ text)
  · next waiting _ =>
    split
    · have more : Carries p { p with
          said := p.said ++ [text]
          waiting := some { waiting with bytes := waiting.bytes + text.utf8ByteSize } } q :=
        .of_same rfl rfl rfl rfl
      exact more.trans (.retire _ q)
    · exact .of_same rfl rfl rfl rfl

theorem endQuestionsOf_carries (wire : Wire) (p : Pair) (message : Value) :
    Carries p (p.endQuestionsOf wire message) q := by
  refine ⟨List.Sublist.refl _, List.Sublist.refl _, rfl, id, ?_⟩
  show ((p.questions.map fun h => { h with
    raised := h.raised || (h.held && Pair.ends wire message h) })[q]?).map _ = _
  rw [List.getElem?_map, Option.map_map]
  rfl

theorem holdQuestion_stands (s : Stands wire Gave p q) (id : Value) (params : Option Value)
    (text : String)
    (read : ∃ message, wire.reading text = .message message ∧ message.get "id" = some id ∧
      message.get "params" = params) :
    Stands wire Gave (p.holdQuestion wire id params text) q := by
  unfold Pair.holdQuestion
  split
  · exact (pass_carries p text).stands s
  · next asked asks =>
    obtain ⟨message, said, named, rfl⟩ := read
    exact pushed s _ rfl rfl ⟨message, said, named, asks⟩ _

theorem codexSaid_stands (s : Stands wire Gave p q) (text : String) :
    Stands wire Gave (p.codexSaid wire text) q := by
  unfold Pair.codexSaid
  split
  · exact (pass_carries p text).stands s
  · have first : Carries p { p with heard := p.heard ++ [⟨text, none⟩] } q :=
      .of_same rfl rfl rfl rfl
    exact (first.trans (.retire _ q)).stands s
  · next message said =>
    have first : Carries p { p with
        requests := (p.state.codexSaid p.client p.requests message).1
        state := (p.state.codexSaid p.client p.requests message).2 } q := .of_same rfl rfl rfl rfl
    have ended := (first.trans (endQuestionsOf_carries wire _ message)).stands s
    dsimp only
    split
    · split
      · next id named => exact holdQuestion_stands ended _ _ text ⟨message, said, named, rfl⟩
      · exact (pass_carries _ text).stands ended
    · exact (pass_carries _ text).stands ended

theorem take_sublist (o : Outbox) (ended : Nat → Bool) : ((o.take ended).1.all).Sublist o.all ∧
    (o.take ended).1.sent = o.sent ∧ ∀ q, (o.take ended).2 ≠ some (q, true) := by
  rcases o.take_cases ended with e | ⟨frame, queue, writing, waits, -, e⟩ |
    ⟨frame, queue, r, writing, waits, -, -, e⟩
  · rw [e]
    exact ⟨List.Sublist.refl _, rfl, fun q no => by cases no⟩
  · rw [e]
    refine ⟨?_, rfl, fun q no => by cases no⟩
    unfold Outbox.all
    rw [writing, waits]
    exact List.Sublist.refl _
  · rw [e]
    refine ⟨?_, rfl, fun q no => by cases no⟩
    unfold Outbox.all
    rw [writing, waits]
    exact List.Sublist.append_left (List.sublist_cons_self _ _) _

theorem takesCodex_stands (s : Stands wire Gave p q) :
    Stands wire Gave ({ p with native := (p.native.take p.ended).1 }.report (p.native.take p.ended).2) q := by
  obtain ⟨sub, sent, no⟩ := take_sublist p.native p.ended
  have c : Carries p { p with native := (p.native.take p.ended).1 } q := by
    refine ⟨sub.filter _, List.Sublist.refl _, rfl, ?_, rfl⟩
    unfold Pair.AnswerSent
    dsimp only
    rw [sent]
    exact id
  exact report_stands (c.stands s) fun yes => absurd yes (no q)

theorem wrote_all {o : Outbox} {frame : Queued} (begun : o.writing = some frame) :
    (o.wrote frame).all = o.all := by
  unfold Outbox.all Outbox.wrote
  rw [begun]
  simp only [Option.toList_none, Option.toList_some, List.nil_append, List.append_assoc]

theorem wroteCodex_stands (s : Stands wire Gave p q) (ok : Bool) : Stands wire Gave (p.wroteCodex ok) q := by
  unfold Pair.wroteCodex
  split
  · exact s
  · next frame begun =>
    have order (o : Outbox) : ({ p.report (frame.watch.map fun q => (q, ok)) with native := o } :
        Pair) = ({ p with native := o } : Pair).report (frame.watch.map fun q => (q, ok)) := by
      cases frame.watch <;> rfl
    have same : (p.report (frame.watch.map fun q => (q, ok))).native = p.native := by
      cases frame.watch <;> rfl
    dsimp only
    rw [same]
    split
    · -- the frame is on the socket when its question hears of it
      rw [order]
      have c : Carries p { p with native := p.native.wrote frame } q := by
        refine ⟨?_, List.Sublist.refl _, rfl, ?_, rfl⟩
        · unfold Pair.codexOf
          dsimp only
          rw [wrote_all begun]
        · rintro ⟨f, mem, own⟩
          exact ⟨f, List.mem_append_left _ mem, own⟩
      refine report_stands (c.stands s) fun yes => ?_
      obtain ⟨r, watch, e⟩ := Option.map_eq_some_iff.mp yes
      refine ⟨frame, List.mem_append_right _ (List.mem_singleton_self _), ?_⟩
      unfold Queued.watch at watch
      split at watch
      · next r' own =>
        cases watch
        cases e
        exact own
      · cases watch
    · rw [order]
      have c : Carries p { p with native := p.native.abandon } q :=
        ⟨(Carries.abandon_sublist _).filter _, List.Sublist.refl _, rfl, id, rfl⟩
      refine (Carries.retire _ q).stands (report_stands (c.stands s) fun yes => ?_)
      obtain ⟨r, -, e⟩ := Option.map_eq_some_iff.mp yes
      next no =>
        cases e
        exact absurd rfl no

theorem wroteTui_carries (p : Pair) (ok : Bool) : Carries p (p.wroteTui ok) q := by
  unfold Pair.wroteTui
  split
  · exact .refl p q
  · next frame begun =>
    split
    · refine ⟨List.Sublist.refl _, ?_, rfl, id, rfl⟩
      unfold Pair.tuiOf
      dsimp only
      rw [wrote_all begun]
    · have first : Carries p { p with tui := p.tui.abandon } q :=
        ⟨List.Sublist.refl _, (Carries.abandon_sublist _).filter _, rfl, id, rfl⟩
      exact first.trans (.retire _ q)

theorem Stands.closed (s : Stands wire Gave p q) : Stands wire Gave p.closed q := by
  have first : Carries p { p with state := p.state.close } q := .of_same rfl rfl rfl rfl
  exact dropped_own ((first.trans (.retire _ q)).stands s)

/-- **One step keeps what stands of every question.** -/
theorem Stands.step (s : Stands wire Gave p q) (e : Event)
    (gave : ∀ said, e = .replied q (some said) → Gave said) :
    Stands wire Gave (p.step wire e) q := by
  unfold Pair.step
  cases e with
  | said side text =>
    cases side with
    | tui =>
      dsimp only
      split
      · exact s
      · exact (tuiSaid_carries p text).stands s
    | codex =>
      dsimp only
      split
      · exact s
      · exact codexSaid_stands s text
  | ends side =>
    cases side with
    | tui => exact (Carries.retire p q).stands s
    | codex =>
      dsimp only
      split
      · exact (Carries.retire p q).stands s
      · exact s
  | opened =>
    dsimp only
    split
    · exact s
    · have first : Carries p { p with opened := true, waiting := none } q :=
        .of_same rfl rfl rfl rfl
      exact (first.trans (processAll_carries _ _)).stands s
  | unreachable =>
    dsimp only
    split
    · exact s
    · exact (Carries.retire p q).stands s
  | takes side =>
    cases side with
    | tui =>
      dsimp only
      split
      · exact s
      · have c : Carries p { p with tui := (p.tui.take p.ended).1 } q :=
          ⟨List.Sublist.refl _, (take_sublist p.tui p.ended).1.filter _, rfl, id, rfl⟩
        exact c.stands s
    | codex =>
      dsimp only
      split
      · exact s
      · exact takesCodex_stands s
  | wrote side ok =>
    cases side with
    | tui =>
      dsimp only
      split
      · exact s
      · exact (wroteTui_carries p ok).stands s
    | codex =>
      dsimp only
      split
      · exact s
      · exact wroteCodex_stands s ok
  | replied r reply =>
    dsimp only
    split
    · next h there =>
      split
      · next asking =>
        by_cases own : r = q
        · subst own
          exact replied_own s there asking reply fun said e => gave said (by rw [e])
        · exact (replied_other own h reply).stands s
      · exact s
    · exact s
  | settled r byWriter =>
    dsimp only
    split
    · exact s
    · next h there =>
      by_cases own : r = q
      · subst own
        split
        · next written handing =>
          exact settle_own s there handing fun yes => by rw [yes]
        · next report handing =>
          split
          · exact settle_own s there handing fun no => by cases no
          · exact s
        · exact s
      · split
        · exact (settle_other own h _).stands s
        · split
          · exact (settle_other own h _).stands s
          · exact s
        · exact s
  | gives r =>
    dsimp only
    split
    · exact s
    · next h there =>
      split
      · next answer giving claimed =>
        by_cases own : r = q
        · subst own
          exact tells_own s there claimed ((s.fits h there).untold (.inr (.inl giving)))
            fun no => by cases no
        · exact ((Carries.change p _ own).trans (.tell _ _ _ own)).stands s
      · exact s
  | hears r =>
    dsimp only
    split
    · next h there =>
      split
      · next telling =>
        by_cases own : r = q
        · subst own
          exact hears_own s there telling
        · exact (Carries.change p _ own).stands s
      · exact s
    · exact s
  | elsewhere state =>
    have here : Carries p { p with state } q := .of_same rfl rfl rfl rfl
    exact here.stands s
  | closes => exact s.closed

theorem Stands.run (s : Stands wire Gave p q) (events : List Event)
    (gave : ∀ said, .replied q (some said) ∈ events → Gave said) :
    Stands wire Gave (p.run wire events) q := by
  unfold Pair.run
  induction events generalizing p with
  | nil => exact s
  | cons e events ih =>
    refine ih (s.step e fun said here => gave said ?_) fun said mem => gave said ?_
    · rw [here]
      exact List.mem_cons_self
    · exact List.mem_cons_of_mem _ mem

end Steps

/-- **Whatever the order of the steps, a question Codex asked goes one way at most: to Codex, as the
    board's answer or its refusal, or to the TUI, as it came. What goes to Codex answers that request
    by its id, and gives each of its questions the labels of the answer the board gave, or the
    reason of its refusal. The board hears at most once of the answer it gave, and hears that it was
    received only where that answer was written whole to Codex's socket; once the question is
    settled, it has heard of every answer it gave, and of no other.** -/
theorem questions_settled_once (wire : Wire) (client : ClientId) (state : Selection) (board : Bool)
    (events : List Event) (q : Nat) :
    ∃ p, p = (Pair.start client state board).run wire events ∧
      (p.codexOf q).length + (p.tuiOf q).length ≤ 1 ∧ (p.toldOf q).length ≤ 1 ∧
      (p.AnswerSent q ∨ ∀ told ∈ p.toldOf q, told.received = false) ∧
      ∀ h ∈ p.questions[q]?,
        (∃ message, wire.reading h.text = .message message ∧
          message.get "id" = some h.request ∧
          Asked.read wire (message.get "params") = some h.asked) ∧
        (∀ frame ∈ p.codexOf q, ∃ response, frame.text = wire.write response ∧
          ((∃ answer, frame.from_ = .answer q ∧ h.claimed = some answer ∧
              .replied q (some (.answered answer)) ∈ events ∧
              h.asked.Responds response h.request answer.picks) ∨
            ∃ reason, frame.from_ = .refusal q ∧ h.claimed = none ∧
              .replied q (some (.refused reason)) ∈ events ∧
              h.asked.Responds response h.request fun _ => [reason])) ∧
        (∀ told ∈ p.toldOf q, h.claimed = some told.answer ∧
          .replied q (some (.answered told.answer)) ∈ events) ∧
        (∀ frame ∈ p.tuiOf q, frame.text = h.text) ∧
        (h.stage = .over → (p.toldOf q).length = if h.claimed.isSome then 1 else 0) := by
  have first : Stands wire (fun said => .replied q (some said) ∈ events)
      (Pair.start client state board) q := by
    refine ⟨fun h no => ?_, fun _ => ⟨rfl, rfl, rfl⟩⟩
    cases no
  have s := first.run events fun said mem => mem
  refine ⟨_, rfl, ?_⟩
  cases there : ((Pair.start client state board).run wire events).questions[q]? with
  | none =>
    obtain ⟨codex, tui, told⟩ := s.none_ there
    rw [codex, tui, told]
    refine ⟨Nat.zero_le 1, Nat.zero_le 1, .inr fun t mem => absurd mem List.not_mem_nil, ?_⟩
    exact fun h no => by cases no
  | some h =>
    have fits := s.fits h there
    refine ⟨fits.once, fits.toldOnce, ?_, ?_⟩
    · by_cases sent : ((Pair.start client state board).run wire events).AnswerSent q
      · exact .inl sent
      · refine .inr fun t mem => ?_
        by_contra yes
        exact sent (fits.received t mem (Bool.not_eq_false _ ▸ yes))
    · intro h' same
      cases same
      refine ⟨fits.given.read, fun frame mem => ?_, fun told mem => ?_, fun frame mem => ?_,
        fun done => fits.settled (.inr done)⟩
      · rcases fits.given.frames frame mem with ⟨answer, claimed, rfl⟩ |
          ⟨reason, unclaimed, refused, rfl⟩
        · exact ⟨_, rfl, .inl ⟨answer, rfl, claimed, fits.given.claims answer claimed,
            Asked.answered_responds h.asked h.request answer⟩⟩
        · exact ⟨_, rfl, .inr ⟨reason, rfl, unclaimed, refused,
            Asked.refused_responds h.asked h.request reason⟩⟩
      · have claimed := fits.given.tolds told mem
        exact ⟨claimed, fits.given.claims _ claimed⟩
      · rw [fits.asked frame mem]

end Proxy
end Codex
end ConsensFlow
