/-
  File:      ConsensFlow/Codex/Forwarded.lean
  Subject:   THE FRAMES OF A PAIR (`cf-codex-session`, `broker/pair.rs`), in both directions.

  * `Flows` -- the frames one side said and a socket's queue, and what each call of it leaves;
  * `Passes`, `straight` -- how a frame of the TUI's goes on to Codex, and which of Codex's go on;
  * `Ordered` -- what every step of a pair keeps of the frames;
  * **`frames_in_order`** -- what each side said reaches the other in order, none lost or said twice
    while the pair lasts, and no more than 64 MiB of it waits.
-/
import ConsensFlow.Codex.Pair

open Lib.Json

namespace ConsensFlow
namespace Codex
namespace Proxy

/-! ## 1. What flows -/

/-- The texts of the frames the other side said. -/
def saidTexts (frames : List Queued) : List String :=
  (frames.filter fun f => f.from_ == .said).map Queued.text

/-- The frames one side said and a socket's queue: while the pair lasts all of them are there, in
    order; what is written is a first part of them. -/
structure Flows (R : String → String → Prop) (retired : Bool) (o : Outbox) (done : List String) :
    Prop where
  gone : retired = true → o.Gone
  ahead : retired = false → List.Forall₂ R done (saidTexts o.all)
  sent : ∃ front, front <+: done ∧ List.Forall₂ R front (saidTexts o.sent)
  counts : o.Counts

namespace Flows

variable {R : String → String → Prop} {retired : Bool} {o : Outbox} {done : List String}
  {frame : Queued} {text : String}

theorem saidTexts_append (as bs : List Queued) :
    saidTexts (as ++ bs) = saidTexts as ++ saidTexts bs := by
  unfold saidTexts
  rw [List.filter_append, List.map_append]

theorem saidTexts_said (own : frame.from_ = .said) : saidTexts [frame] = [frame.text] := by
  unfold saidTexts
  rw [List.filter_cons, if_pos (beq_iff_eq.mpr own)]
  rfl

theorem saidTexts_other (other : frame.from_ ≠ .said) : saidTexts [frame] = [] := by
  unfold saidTexts
  rw [List.filter_cons, if_neg (by simpa using other)]
  rfl

theorem start (R : String → String → Prop) : Flows R false {} [] where
  gone h := by cases h
  ahead _ := .nil
  sent := ⟨[], List.prefix_refl _, .nil⟩
  counts := ⟨Nat.zero_le _, fun _ => rfl⟩

/-- The socket is given up with the pair. -/
theorem retire (h : Flows R retired o done) : Flows R true o.abandon done where
  gone _ := o.gone_abandon
  ahead no := by cases no
  sent := h.sent
  counts := ⟨h.counts.room, fun no => by cases no⟩

/-- Nothing of the other side's that came later has to be here, once the pair is over. -/
theorem later (h : Flows R true o done) (more : List String) : Flows R true o (done ++ more) where
  gone := h.gone
  ahead no := by cases no
  sent := by
    obtain ⟨front, here, written⟩ := h.sent
    exact ⟨front, here.trans (List.prefix_append _ _), written⟩
  counts := h.counts

theorem enqueued (h : Flows R retired o done) (taken : (o.enqueue frame).1 = .queued)
    {done' : List String} (more : List.Forall₂ R done' (saidTexts [frame])) :
    Flows R retired (o.enqueue frame).2 (done ++ done') := by
  obtain ⟨e, isOpen, inbox, room⟩ := Outbox.enqueue_queued taken
  have lasts : retired = false := by
    cases retired
    · rfl
    · rw [(h.gone rfl).shut] at isOpen
      cases isOpen
  rw [e]
  refine ⟨fun gone => ?_, fun _ => ?_, ?_, ⟨room, fun _ => ?_⟩⟩
  · rw [lasts] at gone
    cases gone
  · have all : ({ o with unsent := o.unsent + frame.size, queue := o.queue ++ [frame] } :
        Outbox).all = o.all ++ [frame] := by
      unfold Outbox.all
      simp only [List.append_assoc]
    rw [all, saidTexts_append]
    exact List.rel_append (h.ahead lasts) more
  · obtain ⟨front, here, written⟩ := h.sent
    exact ⟨front, here.trans (List.prefix_append _ _), written⟩
  · show o.unsent + frame.size = Outbox.sizes (o.writing.toList ++ (o.queue ++ [frame]))
    rw [← List.append_assoc, Outbox.sizes_append, ← h.counts.exact_ inbox]
    rfl

/-- A message refused: the pair ends. -/
theorem refused (h : Flows R retired o done) (no : (o.enqueue frame).1 ≠ .queued) :
    Flows R retired (o.enqueue frame).2 done := by
  rcases Outbox.enqueue_refused no with same | ⟨room, inbox, e⟩
  · rw [same]
    exact h
  · rw [e]
    refine ⟨fun gone => ?_, h.ahead, h.sent, ⟨room, fun yes => ?_⟩⟩
    · exact ⟨rfl, (h.gone gone).queue, (h.gone gone).writing⟩
    · rw [show o.inbox = true from yes] at inbox
      cases inbox

/-- The writer takes the next message. -/
theorem take (h : Flows R retired o done) (ended : Nat → Bool) :
    Flows R retired (o.take ended).1 done := by
  rcases o.take_cases ended with e | ⟨frame, queue, writing, waits, -, e⟩ |
    ⟨frame, queue, q, writing, waits, own, -, e⟩
  · rw [e]
    exact h
  · rw [e]
    have all : ({ o with queue, writing := some frame } : Outbox).all = o.all := by
      unfold Outbox.all
      rw [writing, waits]
      rfl
    refine ⟨fun gone => ?_, fun lasts => all ▸ h.ahead lasts, h.sent,
      ⟨h.counts.room, fun inbox => ?_⟩⟩
    · have none_ := (h.gone gone).queue
      rw [waits] at none_
      cases none_
    · have same := h.counts.exact_ inbox
      rw [writing, waits] at same
      exact same
  · rw [e]
    refine ⟨fun gone => ?_, fun lasts => ?_, h.sent,
      ⟨(Nat.sub_le _ _).trans h.counts.room, fun inbox => ?_⟩⟩
    · have none_ := (h.gone gone).queue
      rw [waits] at none_
      cases none_
    · -- an answer is nothing the other side said
      have before := h.ahead lasts
      have other : frame.from_ ≠ .said := by
        rw [own]
        exact Origin.noConfusion
      unfold Outbox.all at before ⊢
      rw [writing, waits] at before
      rw [writing]
      rw [Option.toList_none, List.nil_append, saidTexts_append] at before ⊢
      rwa [← List.singleton_append, saidTexts_append, saidTexts_other other,
        List.nil_append] at before
    · have same := h.counts.exact_ inbox
      rw [writing, waits] at same
      show o.unsent - frame.size = Outbox.sizes (o.writing.toList ++ queue)
      rw [same, writing]
      show frame.size + Outbox.sizes queue - frame.size = Outbox.sizes queue
      exact Nat.add_sub_cancel_left _ _

/-- The message begun is written whole. -/
theorem wrote (h : Flows R retired o done) (begun : o.writing = some frame) :
    Flows R retired (o.wrote frame) done := by
  have all : (o.wrote frame).all = o.all := by
    unfold Outbox.all Outbox.wrote
    rw [begun]
    simp
  have lasts : retired = false := by
    cases retired
    · rfl
    · have none_ := (h.gone rfl).writing
      rw [begun] at none_
      cases none_
  refine ⟨fun gone => ?_, fun lasts => all ▸ h.ahead lasts, ?_,
    ⟨(Nat.sub_le _ _).trans h.counts.room, fun inbox => ?_⟩⟩
  · rw [lasts] at gone
    cases gone
  · -- what is written is a first part of all there is
    have ahead := h.ahead lasts
    rw [← all] at ahead
    unfold Outbox.all at ahead
    rw [saidTexts_append] at ahead
    exact ⟨_, List.take_prefix _ _, List.forall₂_take_append _ _ _ ahead⟩
  · have same := h.counts.exact_ inbox
    rw [begun] at same
    show o.unsent - frame.size = Outbox.sizes ([] ++ o.queue)
    rw [same]
    show frame.size + Outbox.sizes o.queue - frame.size = Outbox.sizes o.queue
    exact Nat.add_sub_cancel_left _ _

end Flows

/-! ## 2. Frames in order -/

/-- A frame goes on as it came, but for a start, resume or fork, which may be written anew. -/
def Passes (wire : Wire) (text out : String) : Prop :=
  out = text ∨ ∃ message, wire.reading text = .message message ∧
    methodOf message ∈ [some "thread/start", some "thread/resume", some "thread/fork"] ∧
    ∃ bypass role env, out = wire.write (rewrittenStart message bypass role env)

/-- Of what Codex said, what goes straight on to the TUI: all but the questions held. -/
def straight (heard : List Heard) : List String :=
  (heard.filter fun h => h.question.isNone).map Heard.text

theorem straight_snoc (heard : List Heard) (h : Heard) : straight (heard ++ [h]) =
    straight heard ++ if h.question.isNone then [h.text] else [] := by
  unfold straight
  rw [List.filter_append, List.map_append, List.filter_singleton]
  cases h.question.isNone <;> rfl

/-- A message is written anew only where it opens a thread. -/
theorem rewritten_opens {s : Selection} {message out : Value}
    (h : s.rewritten message = some out) :
    methodOf message ∈ [some "thread/start", some "thread/resume", some "thread/fork"] ∧
      ∃ bypass role env, out = rewrittenStart message bypass role env := by
  unfold Selection.rewritten at h
  dsimp only at h
  split at h
  · next changed =>
    cases h
    refine ⟨?_, _, _, _, rfl⟩
    simp only [isMainStart, Bool.or_eq_true, Bool.and_eq_true, beq_iff_eq, Option.isSome_iff_exists,
      Option.filter_eq_some_iff] at changed
    simp only [List.mem_cons, List.not_mem_nil, or_false]
    rcases changed with (⟨⟨start, -⟩, -⟩ | ⟨role, -, start, -⟩) | ⟨(start | resume) | fork, -⟩
    · exact .inl start
    · exact .inl start
    · exact .inl start
    · exact .inr (.inl resume)
    · exact .inr (.inr fork)
  · cases h

/-- What two states of a pair have in common, where only what is queued is not. -/
structure Fixed (p p' : Pair) : Prop where
  said : p'.said = p.said
  waiting : p'.waiting = p.waiting
  opened : p'.opened = p.opened
  heard : p'.heard = p.heard
  lasts : p'.retired = false → p.retired = false

namespace Fixed

variable {p p' p'' : Pair}

theorem refl (p : Pair) : Fixed p p := ⟨rfl, rfl, rfl, rfl, id⟩

theorem trans (h : Fixed p p') (k : Fixed p' p'') : Fixed p p'' :=
  ⟨k.said.trans h.said, k.waiting.trans h.waiting, k.opened.trans h.opened,
    k.heard.trans h.heard, h.lasts ∘ k.lasts⟩

theorem retire (p : Pair) : Fixed p p.retire := by
  unfold Pair.retire
  split
  · exact refl p
  · exact ⟨rfl, rfl, rfl, rfl, fun no => by cases no⟩

theorem toCodex (p : Pair) (frame : Queued) : Fixed p (p.toCodex frame) := by
  have first : Fixed p { p with native := (p.native.enqueue frame).2 } := ⟨rfl, rfl, rfl, rfl, id⟩
  unfold Pair.toCodex
  dsimp only
  split
  · exact first
  · exact first.trans (retire _)

theorem toTui (p : Pair) (frame : Queued) : Fixed p (p.toTui frame) := by
  have first : Fixed p { p with tui := (p.tui.enqueue frame).2 } := ⟨rfl, rfl, rfl, rfl, id⟩
  unfold Pair.toTui
  dsimp only
  split
  · exact first
  · exact first.trans (retire _)

theorem processTui (wire : Wire) (p : Pair) (text : String) :
    Fixed p (p.processTui wire text) := by
  unfold Pair.processTui
  split
  · exact toCodex _ _
  · exact retire _
  · next message _ =>
    have first : Fixed p { p with
        requests := (p.state.tuiSaid p.client p.requests message).2.1
        state := ((p.state.tuiSaid p.client p.requests message).2.2.unclassified message).2
        unclassified := p.unclassified ++
          ((p.state.tuiSaid p.client p.requests message).2.2.unclassified message).1.toList } :=
      ⟨rfl, rfl, rfl, rfl, id⟩
    exact first.trans (toCodex _ _)

theorem processAll (wire : Wire) (p : Pair) (rest : List String) :
    Fixed p (p.processAll wire rest) := by
  induction rest generalizing p with
  | nil => exact .refl p
  | cons text rest ih =>
    unfold Pair.processAll
    split
    · exact .refl p
    · exact trans (processTui wire p text) (ih _)

end Fixed

/-- Both directions flow: to Codex, what the TUI said of `done`; to the TUI, what Codex said. -/
structure Orderly (wire : Wire) (p : Pair) (done : List String) : Prop where
  codex : Flows (Passes wire) p.retired p.native done
  tui : Flows Eq p.retired p.tui (straight p.heard)

namespace Orderly

variable {wire : Wire} {p : Pair} {done done' : List String} {frame : Queued} {text : String}

theorem retired (p : Pair) : p.retire.retired = true := by
  unfold Pair.retire
  split
  · assumption
  · rfl

/-- A pair that ended owes nothing of what came later. -/
theorem later (h : Orderly wire p done) (ended : p.retired = true) (more : List String) :
    Orderly wire p (done ++ more) := by
  obtain ⟨codex, tui⟩ := h
  refine ⟨?_, tui⟩
  rw [ended] at codex ⊢
  exact codex.later more

theorem retire (h : Orderly wire p done) : Orderly wire p.retire done := by
  unfold Pair.retire
  split
  · exact h
  · exact ⟨h.codex.retire, h.tui.retire⟩

/-- A socket failed: the pair ends. -/
theorem failedCodex {o : Outbox} (codex : Flows (Passes wire) true o done)
    (tui : Flows Eq p.retired p.tui (straight p.heard)) :
    Orderly wire ({ p with native := o } : Pair).retire done := by
  unfold Pair.retire
  split
  · next ended =>
    refine ⟨?_, tui⟩
    show Flows (Passes wire) p.retired o done
    rw [show p.retired = true from ended]
    exact codex
  · exact ⟨codex.retire, tui.retire⟩

theorem failedTui {o : Outbox} (codex : Flows (Passes wire) p.retired p.native done)
    (tui : Flows Eq true o (straight p.heard)) :
    Orderly wire ({ p with tui := o } : Pair).retire done := by
  unfold Pair.retire
  split
  · next ended =>
    refine ⟨codex, ?_⟩
    show Flows Eq p.retired o (straight p.heard)
    rw [show p.retired = true from ended]
    exact tui
  · exact ⟨codex.retire, tui.retire⟩

theorem toCodex (h : Orderly wire p done)
    (more : List.Forall₂ (Passes wire) done' (saidTexts [frame])) :
    Orderly wire (p.toCodex frame) (done ++ done') := by
  unfold Pair.toCodex
  dsimp only
  split
  · next taken => exact ⟨h.codex.enqueued taken more, h.tui⟩
  · next no =>
    have here : Orderly wire { p with native := (p.native.enqueue frame).2 } done :=
      ⟨h.codex.refused no, h.tui⟩
    exact here.retire.later (retired _) done'

/-- What goes on to the TUI, of what Codex said. -/
theorem toTui {before : List String} (codex : Flows (Passes wire) p.retired p.native done)
    (tui : Flows Eq p.retired p.tui before) (e : straight p.heard = before ++ saidTexts [frame]) :
    Orderly wire (p.toTui frame) done := by
  unfold Pair.toTui
  dsimp only
  split
  · next taken =>
    refine ⟨codex, ?_⟩
    show Flows Eq p.retired _ (straight p.heard)
    rw [e]
    exact tui.enqueued taken (List.forall₂_eq_eq_eq ▸ rfl)
  · next no =>
    unfold Pair.retire
    split
    · next ended =>
      refine ⟨codex, ?_⟩
      show Flows Eq p.retired _ (straight p.heard)
      have given := tui.refused no
      rw [show p.retired = true from ended] at given ⊢
      rw [e]
      exact given.later _
    · refine ⟨codex.retire, ?_⟩
      show Flows Eq true _ (straight p.heard)
      rw [e]
      exact (tui.refused no).retire.later _

theorem processTui (h : Orderly wire p done) (text : String) :
    Orderly wire (p.processTui wire text) (done ++ [text]) := by
  have one {out : String} (passes : Passes wire text out) :
      List.Forall₂ (Passes wire) [text] (saidTexts [⟨out, .said⟩]) := by
    rw [Flows.saidTexts_said rfl]
    exact .cons passes .nil
  unfold Pair.processTui
  split
  · exact h.toCodex (one (.inl rfl))
  · exact h.retire.later (retired _) _
  · next message read =>
    have here : Orderly wire { p with
        requests := (p.state.tuiSaid p.client p.requests message).2.1
        state := ((p.state.tuiSaid p.client p.requests message).2.2.unclassified message).2
        unclassified := p.unclassified ++
          ((p.state.tuiSaid p.client p.requests message).2.2.unclassified message).1.toList }
          done := ⟨h.codex, h.tui⟩
    refine here.toCodex (one ?_)
    cases anew : p.state.rewritten message with
    | none =>
      refine .inl ?_
      show ((p.state.rewritten message).map wire.write).getD text = text
      rw [anew]
      rfl
    | some out =>
      obtain ⟨opens, bypass, role, env, rfl⟩ := rewritten_opens anew
      refine .inr ⟨message, read, opens, bypass, role, env, ?_⟩
      show ((p.state.rewritten message).map wire.write).getD text = _
      rw [anew]
      rfl

theorem processAll (h : Orderly wire p done) (rest : List String) :
    Orderly wire (p.processAll wire rest) (done ++ rest) := by
  induction rest generalizing p done with
  | nil =>
    rw [List.append_nil]
    exact h
  | cons text rest ih =>
    unfold Pair.processAll
    split
    · next ended => exact h.later ended _
    · rw [List.append_cons]
      exact ih (h.processTui text)

end Orderly

/-- What went through of what the TUI said: nothing until the connection to Codex's server opens. -/
def Pair.passed (p : Pair) : List String := if p.waiting.isSome then [] else p.said

/-- What every step keeps of the frames. -/
structure Ordered (wire : Wire) (p : Pair) : Prop where
  orderly : Orderly wire p p.passed
  waits : ∀ w, p.waiting = some w → p.retired = false → w.frames = p.said
  opened : p.opened = p.waiting.isNone

namespace Ordered

variable {wire : Wire} {p p' : Pair} {q : Nat} {frame : Queued} {text : String}

theorem of_fixed (h : Ordered wire p) (fixed : Fixed p p') (orderly : Orderly wire p' p.passed) :
    Ordered wire p' where
  orderly := by
    have same : p'.passed = p.passed := by
      unfold Pair.passed
      rw [fixed.waiting, fixed.said]
    rw [same]
    exact orderly
  waits w waiting lasts := by
    rw [fixed.said]
    exact h.waits w (fixed.waiting ▸ waiting) (fixed.lasts lasts)
  opened := by
    rw [fixed.opened, fixed.waiting]
    exact h.opened

/-- A step that changes neither the sockets nor what was said. -/
theorem aside (h : Ordered wire p) (fixed : Fixed p p') (native : p'.native = p.native)
    (tui : p'.tui = p.tui) (retired : p'.retired = p.retired) : Ordered wire p' := by
  refine h.of_fixed fixed ⟨?_, ?_⟩
  · rw [native, retired]
    exact h.orderly.codex
  · rw [tui, retired, fixed.heard]
    exact h.orderly.tui

theorem change (h : Ordered wire p) (q : Nat) (f : Held → Held) : Ordered wire (p.change q f) :=
  h.aside ⟨rfl, rfl, rfl, rfl, id⟩ rfl rfl rfl

theorem tell (h : Ordered wire p) (q : Nat) (answer : Answer) (received : Bool) :
    Ordered wire (p.tell q answer received) :=
  h.aside ⟨rfl, rfl, rfl, rfl, id⟩ rfl rfl rfl

theorem report (h : Ordered wire p) (told : Option (Nat × Bool)) :
    Ordered wire (p.report told) := by
  cases told with
  | none => exact h
  | some told => exact h.change _ _

theorem retire (h : Ordered wire p) : Ordered wire p.retire :=
  h.of_fixed (.retire p) h.orderly.retire

/-- A frame of a question goes to Codex. -/
theorem toCodex (h : Ordered wire p) (other : frame.from_ ≠ .said) :
    Ordered wire (p.toCodex frame) := by
  refine h.of_fixed (.toCodex p frame) ?_
  have more : List.Forall₂ (Passes wire) [] (saidTexts [frame]) := by
    rw [Flows.saidTexts_other other]
    exact .nil
  have sent := h.orderly.toCodex more
  rwa [List.append_nil] at sent

/-- A question's request goes on to the TUI. -/
theorem toTui (h : Ordered wire p) (other : frame.from_ ≠ .said) :
    Ordered wire (p.toTui frame) := by
  refine h.of_fixed (.toTui p frame) (Orderly.toTui h.orderly.codex h.orderly.tui ?_)
  rw [Flows.saidTexts_other other, List.append_nil]

/-- A frame Codex said goes straight on. -/
theorem pass (h : Ordered wire p) (text : String) : Ordered wire (p.pass text) := by
  have fixed := Fixed.toTui { p with heard := p.heard ++ [⟨text, none⟩] } ⟨text, .said⟩
  have orderly : Orderly wire (p.pass text) p.passed := by
    refine Orderly.toTui (p := { p with heard := p.heard ++ [⟨text, none⟩] }) h.orderly.codex
      h.orderly.tui ?_
    rw [straight_snoc, Flows.saidTexts_said rfl]
    rfl
  refine ⟨?_, fun w waiting lasts => ?_, ?_⟩
  · have same : (p.pass text).passed = p.passed := by
      unfold Pair.passed
      rw [show (p.pass text).waiting = p.waiting from fixed.waiting,
        show (p.pass text).said = p.said from fixed.said]
    rw [same]
    exact orderly
  · rw [show (p.pass text).said = p.said from fixed.said]
    exact h.waits w (fixed.waiting ▸ waiting) (fixed.lasts lasts)
  · rw [show (p.pass text).opened = p.opened from fixed.opened,
      show (p.pass text).waiting = p.waiting from fixed.waiting]
    exact h.opened

/-- A frame of Codex's that is no JSON ends the pair. -/
theorem unread (h : Ordered wire p) (text : String) :
    Ordered wire ({ p with heard := p.heard ++ [⟨text, none⟩] } : Pair).retire := by
  unfold Pair.retire
  split
  · next ended =>
    have ended : p.retired = true := ended
    refine ⟨⟨h.orderly.codex, ?_⟩, h.waits, h.opened⟩
    have tui := h.orderly.tui
    show Flows Eq p.retired p.tui (straight (p.heard ++ [⟨text, none⟩]))
    rw [ended] at tui ⊢
    rw [straight_snoc]
    exact tui.later _
  · refine ⟨⟨h.orderly.codex.retire, ?_⟩, fun w waiting no => (by cases no), h.opened⟩
    show Flows Eq true p.tui.abandon (straight (p.heard ++ [⟨text, none⟩]))
    rw [straight_snoc]
    exact h.orderly.tui.retire.later _

theorem holdQuestion (h : Ordered wire p) (id : Value) (params : Option Value) (text : String) :
    Ordered wire (p.holdQuestion wire id params text) := by
  unfold Pair.holdQuestion
  split
  · exact h.pass text
  · refine ⟨⟨h.orderly.codex, ?_⟩, h.waits, h.opened⟩
    show Flows Eq p.retired p.tui (straight (p.heard ++ [⟨text, some p.questions.length⟩]))
    rw [straight_snoc]
    exact (List.append_nil _).symm ▸ h.orderly.tui

theorem codexSaid (h : Ordered wire p) (text : String) : Ordered wire (p.codexSaid wire text) := by
  unfold Pair.codexSaid
  split
  · exact h.pass text
  · exact h.unread text
  · next message _ =>
    have ended : Ordered wire (({ p with
        requests := (p.state.codexSaid p.client p.requests message).1
        state := (p.state.codexSaid p.client p.requests message).2 } : Pair).endQuestionsOf
          wire message) := h.aside ⟨rfl, rfl, rfl, rfl, id⟩ rfl rfl rfl
    dsimp only
    split
    · split
      · exact ended.holdQuestion _ _ text
      · exact ended.pass text
    · exact ended.pass text

theorem tuiSaid (h : Ordered wire p) (text : String) : Ordered wire (p.tuiSaid wire text) := by
  unfold Pair.tuiSaid
  dsimp only
  split
  · next open_ =>
    -- the connection is open: it goes through, after all that did
    have here : Orderly wire { p with said := p.said ++ [text] } p.passed :=
      ⟨h.orderly.codex, h.orderly.tui⟩
    have fixed := Fixed.processTui wire { p with said := p.said ++ [text] } text
    have done := here.processTui text
    have all : (({ p with said := p.said ++ [text] } : Pair).processTui wire text).passed =
        p.passed ++ [text] := by
      unfold Pair.passed
      rw [fixed.waiting, fixed.said, show ({ p with said := p.said ++ [text] } : Pair).waiting =
        none from open_]
      rfl
    refine ⟨all ▸ done, fun w waiting _ => ?_, ?_⟩
    · rw [fixed.waiting, open_] at waiting
      cases waiting
    · rw [fixed.opened, fixed.waiting]
      exact h.opened
  · next waiting held =>
    have held : p.waiting = some waiting := held
    have none_ : p.passed = [] := by
      unfold Pair.passed
      rw [held]
      rfl
    have orderly := h.orderly
    rw [none_] at orderly
    have opened := h.opened
    rw [held] at opened
    split
    · -- more waits than may: the pair ends
      refine ⟨?_, fun w _ lasts => ?_, ?_⟩
      · have given : Orderly wire { p with
            said := p.said ++ [text]
            waiting := some { waiting with bytes := waiting.bytes + text.utf8ByteSize } } [] :=
          ⟨orderly.codex, orderly.tui⟩
        unfold Pair.passed
        rw [(Fixed.retire _).waiting]
        exact given.retire
      · rw [Orderly.retired] at lasts
        cases lasts
      · rw [(Fixed.retire _).opened, (Fixed.retire _).waiting]
        exact opened
    · refine ⟨⟨orderly.codex, orderly.tui⟩, fun w same lasts => ?_, opened⟩
      cases same
      show waiting.frames ++ [text] = p.said ++ [text]
      rw [h.waits waiting held lasts]

theorem nativeOpened (h : Ordered wire p) (lasts : p.retired = false) (still : p.opened = false) :
    Ordered wire (p.nativeOpened wire) := by
  have opened := h.opened
  rw [still] at opened
  obtain ⟨waiting, held⟩ : ∃ waiting, p.waiting = some waiting :=
    Option.isSome_iff_exists.mp (by rw [← Option.not_isNone, ← opened]; rfl)
  have none_ : p.passed = [] := by
    unfold Pair.passed
    rw [held]
    rfl
  have orderly := h.orderly
  rw [none_] at orderly
  have fixed := Fixed.processAll wire { p with opened := true, waiting := none } p.said
  have here : Orderly wire { p with opened := true, waiting := none } [] :=
    ⟨orderly.codex, orderly.tui⟩
  have all := here.processAll p.said
  have e : p.nativeOpened wire =
      ({ p with opened := true, waiting := none } : Pair).processAll wire p.said := by
    unfold Pair.nativeOpened
    rw [held, Option.map_some, Option.getD_some, h.waits waiting held lasts]
  rw [e]
  refine ⟨?_, fun w same _ => ?_, ?_⟩
  · unfold Pair.passed
    rw [fixed.waiting, fixed.said]
    exact all
  · rw [fixed.waiting] at same
    cases same
  · rw [fixed.opened, fixed.waiting]
    rfl

theorem handOver (h : Ordered wire p) (q : Nat) (x : Held) (answer : Answer) :
    Ordered wire (p.handOver wire q x answer) := by
  unfold Pair.handOver
  dsimp only
  have other : saidTexts [⟨wire.write (x.asked.answered x.request answer), .answer q⟩] = [] :=
    Flows.saidTexts_other Origin.noConfusion
  split
  · next taken =>
    have more : List.Forall₂ (Passes wire) [] (saidTexts
        [⟨wire.write (x.asked.answered x.request answer), .answer q⟩]) := by
      rw [other]
      exact .nil
    have sent := h.orderly.codex.enqueued taken more
    rw [List.append_nil] at sent
    have here : Ordered wire { p with native := (p.native.enqueue
        ⟨wire.write (x.asked.answered x.request answer), .answer q⟩).2 } :=
      ⟨⟨sent, h.orderly.tui⟩, h.waits, h.opened⟩
    exact here.change _ _
  · next no =>
    have here : Ordered wire { p with native := (p.native.enqueue
        ⟨wire.write (x.asked.answered x.request answer), .answer q⟩).2 } :=
      ⟨⟨h.orderly.codex.refused no, h.orderly.tui⟩, h.waits, h.opened⟩
    exact (here.change _ _).retire

theorem replied (h : Ordered wire p) (q : Nat) (x : Held) (reply : Option Reply) :
    Ordered wire (p.replied wire q x reply) := by
  unfold Pair.replied
  split
  · split
    · exact (h.tell _ _ _).change _ _
    · exact h.handOver q x _
  · split
    · exact h.change _ _
    · exact (h.toCodex Origin.noConfusion).change _ _
  all_goals
    split
    · exact h.change _ _
    · exact (h.toTui Origin.noConfusion).change _ _

theorem settle (h : Ordered wire p) (q : Nat) (x : Held) (handed : Bool) :
    Ordered wire (p.settle q x handed) := by
  unfold Pair.settle
  split
  · exact (h.change _ _).tell _ _ _
  · exact h

theorem wroteCodex (h : Ordered wire p) (ok : Bool) : Ordered wire (p.wroteCodex ok) := by
  unfold Pair.wroteCodex
  split
  · exact h
  · next frame begun =>
    have told := h.report (frame.watch.map fun q => (q, ok))
    have same : (p.report (frame.watch.map fun q => (q, ok))).native = p.native := by
      cases frame.watch <;> rfl
    dsimp only
    split
    · refine told.of_fixed ⟨rfl, rfl, rfl, rfl, id⟩ ⟨?_, told.orderly.tui⟩
      exact told.orderly.codex.wrote (same ▸ begun)
    · have fixed : Fixed p { p.report (frame.watch.map fun q => (q, ok)) with
          native := (p.report (frame.watch.map fun q => (q, ok))).native.abandon } := by
        cases frame.watch <;> exact ⟨rfl, rfl, rfl, rfl, id⟩
      refine h.of_fixed (fixed.trans (.retire _)) ?_
      refine Orderly.failedCodex ?_ ?_
      · rw [same]
        exact h.orderly.codex.retire
      · cases frame.watch <;> exact h.orderly.tui

theorem wroteTui (h : Ordered wire p) (ok : Bool) : Ordered wire (p.wroteTui ok) := by
  unfold Pair.wroteTui
  split
  · exact h
  · next frame begun =>
    split
    · exact h.of_fixed ⟨rfl, rfl, rfl, rfl, id⟩ ⟨h.orderly.codex, h.orderly.tui.wrote begun⟩
    · have fixed : Fixed p { p with tui := p.tui.abandon } := ⟨rfl, rfl, rfl, rfl, id⟩
      exact h.of_fixed (fixed.trans (.retire _))
        (Orderly.failedTui h.orderly.codex h.orderly.tui.retire)

/-- **One step keeps the frames of both directions in order.** -/
theorem step (h : Ordered wire p) (e : Event) : Ordered wire (p.step wire e) := by
  unfold Pair.step
  cases e with
  | said side text =>
    cases side with
    | tui =>
      dsimp only
      split
      · exact h
      · exact h.tuiSaid text
    | codex =>
      dsimp only
      split
      · exact h
      · exact h.codexSaid text
  | ends side =>
    cases side with
    | tui => exact h.retire
    | codex =>
      dsimp only
      split
      · exact h.retire
      · exact h
  | opened =>
    dsimp only
    split
    · exact h
    · next free =>
      simp only [Bool.or_eq_true, not_or, Bool.not_eq_true] at free
      exact h.nativeOpened free.1 free.2
  | unreachable =>
    dsimp only
    split
    · exact h
    · exact h.retire
  | takes side =>
    cases side with
    | tui =>
      dsimp only
      split
      · exact h
      · exact h.of_fixed ⟨rfl, rfl, rfl, rfl, id⟩ ⟨h.orderly.codex, h.orderly.tui.take _⟩
    | codex =>
      dsimp only
      split
      · exact h
      · have here : Ordered wire { p with native := (p.native.take p.ended).1 } :=
          h.of_fixed ⟨rfl, rfl, rfl, rfl, id⟩ ⟨h.orderly.codex.take _, h.orderly.tui⟩
        exact here.report _
  | wrote side ok =>
    cases side with
    | tui =>
      dsimp only
      split
      · exact h
      · exact h.wroteTui ok
    | codex =>
      dsimp only
      split
      · exact h
      · exact h.wroteCodex ok
  | replied q reply =>
    dsimp only
    split
    · split
      · exact h.replied q _ reply
      · exact h
    · exact h
  | settled q byWriter =>
    dsimp only
    split
    · exact h
    · split
      · exact h.settle q _ _
      · split
        · exact h.settle q _ _
        · exact h
      · exact h
  | gives q =>
    dsimp only
    split
    · exact h
    · split
      · exact (h.change _ _).tell _ _ _
      · exact h
  | hears q =>
    dsimp only
    split
    · split
      · exact h.change _ _
      · exact h
    · exact h
  | elsewhere state => exact h.aside ⟨rfl, rfl, rfl, rfl, id⟩ rfl rfl rfl
  | closes =>
    have here : Ordered wire ({ p with state := p.state.close } : Pair) :=
      h.aside ⟨rfl, rfl, rfl, rfl, id⟩ rfl rfl rfl
    exact here.retire.aside ⟨rfl, rfl, rfl, rfl, id⟩ rfl rfl rfl

theorem run (h : Ordered wire p) (events : List Event) : Ordered wire (p.run wire events) := by
  unfold Pair.run
  induction events generalizing p with
  | nil => exact h
  | cons e events ih => exact ih (h.step e)

theorem start (wire : Wire) (client : ClientId) (state : Selection) (board : Bool) :
    Ordered wire (Pair.start client state board) where
  orderly := ⟨.start _, .start _⟩
  waits w waiting _ := by
    cases waiting
    rfl
  opened := rfl

end Ordered

/-- **What each side said reaches the other in order, whatever comes between: of what the TUI said,
    what is written to Codex's socket is a first part, each frame as it came but for a start, resume
    or fork written anew; of what Codex said, what is written to the TUI's is a first part of all
    but the questions held, as it came. While the pair lasts the rest waits in its sockets' queues;
    before the connection opens all the TUI said waits, in order; the bytes a queue holds are
    counted, and never over 64 MiB.** -/
theorem frames_in_order (wire : Wire) (client : ClientId) (state : Selection) (board : Bool)
    (events : List Event) : ∃ p, p = (Pair.start client state board).run wire events ∧
      (∃ front, front <+: p.said ∧
        List.Forall₂ (Passes wire) front (saidTexts p.native.sent)) ∧
      saidTexts p.tui.sent <+: straight p.heard ∧
      (p.retired = true ∨
        List.Forall₂ (Passes wire) (if p.opened then p.said else []) (saidTexts p.native.all) ∧
        (p.opened = true ∨ ∃ waiting, p.waiting = some waiting ∧ waiting.frames = p.said) ∧
        saidTexts p.tui.all = straight p.heard) ∧
      p.native.Counts ∧ p.tui.Counts := by
  have kept := (Ordered.start wire client state board).run events
  refine ⟨_, rfl, ?_, ?_, ?_, kept.orderly.codex.counts, kept.orderly.tui.counts⟩
  · obtain ⟨front, here, written⟩ := kept.orderly.codex.sent
    refine ⟨front, here.trans ?_, written⟩
    unfold Pair.passed
    split
    · exact List.nil_prefix
    · exact List.prefix_refl _
  · obtain ⟨front, here, written⟩ := kept.orderly.tui.sent
    rw [List.forall₂_eq_eq_eq] at written
    exact written ▸ here
  · cases lasts : ((Pair.start client state board).run wire events).retired with
    | true => exact .inl rfl
    | false =>
      have codex := kept.orderly.codex.ahead lasts
      have tui := kept.orderly.tui.ahead lasts
      rw [List.forall₂_eq_eq_eq] at tui
      unfold Pair.passed at codex
      refine .inr ?_
      rw [kept.opened, ← Option.not_isSome]
      cases waiting : ((Pair.start client state board).run wire events).waiting with
      | none =>
        rw [waiting] at codex
        exact ⟨codex, .inl rfl, tui.symm⟩
      | some w =>
        rw [waiting] at codex
        exact ⟨codex, .inr ⟨w, rfl, kept.waits w waiting lasts⟩, tui.symm⟩

end Proxy
end Codex
end ConsensFlow
