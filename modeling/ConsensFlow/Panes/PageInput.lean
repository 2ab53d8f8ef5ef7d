/-
  File:      ConsensFlow/Panes/PageInput.lean
  Subject:   THE PAGE'S NUMBERED INPUT (`cf-panes`, `input_queue.rs`): the numbers its inputs come
             under, and the tickets it collects their answers with.

  * `Paged`, `paged_step` -- what a step of `InputQueue.lean` can do to the page's part of it;
  * `Channelled`, `channelled_step` -- whose channel a ticket collects from;
  * `Collects`, `collects_step`, **`tickets_collected_once`** -- the page's numbers are spent one by
    one, and a ticket collects the answer to its own input, once, until a new page comes.
-/
import ConsensFlow.Panes.InputQueue

namespace ConsensFlow
namespace Panes
namespace Queued

/-! ## 1. Numbers and tickets -/

/-- The happenings since a new page began. -/
def sinceBegan (h : List Happening) : List Happening :=
  h.foldl (fun since e => match e with
    | .began => []
    | e => since ++ [e]) []

/-- A ticket handed out, and what it is to collect. -/
def Happening.handed : Happening → Option (String × PageInputCompletion)
  | ticketed ticket completion => some (ticket, completion)
  | _ => none

/-- A ticket that collected, and what. -/
def Happening.takenUp : Happening → Option (String × PageInputCompletion)
  | collected ticket completion => some (ticket, completion)
  | _ => none

def handed (h : List Happening) : List (String × PageInputCompletion) :=
  h.filterMap Happening.handed

def takenUp (h : List Happening) : List (String × PageInputCompletion) :=
  h.filterMap Happening.takenUp

/-- The numbers of a pane spent since its count began. -/
def spent (key : PaneKey) (h : List Happening) : List Nat :=
  h.foldl (fun numbers e => match e with
    | .numbered k n => if k = key then numbers ++ [n] else numbers
    | .began => []
    | .forgot k => if k = key then [] else numbers
    | _ => numbers) []

/-! ## 2. What a step does to the page's input -/

/-- A happening that spends no number, and begins no count. -/
def Happening.Unnumbered : Happening → Prop
  | numbered _ _ => False
  | began => False
  | forgot _ => False
  | _ => True

/-- A page's submission under way has its ticket's number, and room for it. -/
def InputQueue.Ready (q : InputQueue) : Prop :=
  ∀ u next human, q.underway = some u → u.page = some (next, human) →
    next = q.nextTicket + 1 ∧ q.completions.length < maxPendingInputTickets

/-- **What a step can do to the page's input.** -/
inductive Paged (q : InputQueue) : InputQueue → List Happening → Prop where
  | aside {q' : InputQueue} {hs : List Happening} (sequences : q'.lastSequences = q.lastSequences)
      (completions : q'.completions = q.completions) (next : q'.nextTicket = q.nextTicket)
      (underway : q'.underway = q.underway ∨ ∀ u, q'.underway = some u → u.page = none)
      (none_handed : handed hs = []) (none_taken : takenUp hs = [])
      (unnumbered : ∀ e ∈ hs, e.Unnumbered) : Paged q q' hs
  | numbered {q' : InputQueue} (key : PaneKey) (n : Nat) (rest : List Happening)
      (follows : n = (q.lastSequences key).getD 0 + 1)
      (sequences : q'.lastSequences = Function.update q.lastSequences key (some n))
      (completions : q'.completions = q.completions) (next : q'.nextTicket = q.nextTicket)
      (ready : q'.Ready) (none_handed : handed rest = []) (none_taken : takenUp rest = [])
      (unnumbered : ∀ e ∈ rest, e.Unnumbered) : Paged q q' (.numbered key n :: rest)
  | handedOut {q' : InputQueue} (u : Underway) (next : Nat) (human : Bool)
      (there : q.underway = some u) (page : u.page = some (next, human))
      (sequences : q'.lastSequences = q.lastSequences)
      (completions : q'.completions =
        (ticket q.nextTicket, { receiver := u.job.response, human := human }) ::
          q.completions.filter fun c => c.1 != ticket q.nextTicket)
      (following : q'.nextTicket = next) (gone : q'.underway = none) :
      Paged q q' [.admitted u.route u.job,
        .ticketed (ticket q.nextTicket) { receiver := u.job.response, human := human }]
  | collected {q' : InputQueue} (ticket : String) (completion : PageInputCompletion)
      (free : q.pageHeld = false) (there : (ticket, completion) ∈ q.completions)
      (sequences : q'.lastSequences = q.lastSequences)
      (completions : q'.completions = q.completions.filter fun c => c.1 != ticket)
      (next : q'.nextTicket = q.nextTicket) (underway : q'.underway = q.underway) :
      Paged q q' [.collected ticket completion]
  | began (free : q.pageHeld = false) :
      Paged q { q with lastSequences := fun _ => none, completions := [] } [.began]
  | forgot (key : PaneKey) :
      Paged q { q with lastSequences := Function.update q.lastSequences key none } [.forgot key]

/-- A step that leaves the page's state be, and no submission under way or the one there was. -/
theorem Paged.same {q : InputQueue} {hs : List Happening} (none_handed : handed hs = [])
    (none_taken : takenUp hs = []) (unnumbered : ∀ e ∈ hs, e.Unnumbered) : Paged q q hs :=
  .aside rfl rfl rfl (.inl rfl) none_handed none_taken unnumbered

theorem paged_enqueuePage {q : InputQueue} (free : q.underway = none) (key : PaneKey)
    (sequence : Nat) (work : Work) (human : Bool) :
    Paged q (q.enqueuePage key sequence work human).1
      (q.enqueuePage key sequence work human).2 := by
  unfold InputQueue.enqueuePage
  split
  · exact .same rfl rfl (by simp [Happening.Unnumbered])
  · rename_i right
    have follows : sequence = (q.lastSequences key).getD 0 + 1 := by
      unfold InputQueue.checkSequence at right
      dsimp only at right
      split at right
      · cases right
      · split at right
        · cases right
        · split at right
          · cases right
          · omega
    dsimp only
    split
    · refine .numbered key sequence _ follows rfl rfl rfl (fun u next human there => ?_) rfl rfl
        (by simp [Happening.Unnumbered])
      rw [show q.underway = some u from there] at free
      cases free
    · rename_i next checked
      have room : next = q.nextTicket + 1 ∧ q.completions.length < maxPendingInputTickets := by
        unfold InputQueue.checkTicket at checked
        dsimp only at checked
        split at checked
        · cases checked
        · split at checked
          · cases checked
          · split at checked
            · cases checked
            · rename_i less _
              cases checked
              exact ⟨rfl, not_le.1 less⟩
      split
      · refine .numbered key sequence _ follows rfl rfl rfl (fun u next human there => ?_) rfl rfl
          (by simp [Happening.Unnumbered])
        rw [show q.underway = some u from there] at free
        cases free
      · rename_i made
        obtain ⟨u, -, -, page, -, -, -, rfl⟩ := reserve_ok made
        refine .numbered key sequence _ follows rfl rfl rfl (fun v n human there mine => ?_) rfl rfl
          (by simp)
        cases there
        rw [page] at mine
        cases mine
        exact room

theorem paged_send {q : InputQueue} {u : Underway} (there : q.underway = some u) :
    Paged q (q.send u).1 (q.send u).2 := by
  unfold InputQueue.send
  dsimp only
  split
  · unfold InputQueue.takeIn
    split
    · refine .aside rfl rfl rfl (.inr fun u absent => by cases absent) rfl rfl ?_
      simp [Happening.Unnumbered]
    · rename_i next human page
      exact .handedOut u next human there page rfl rfl rfl rfl
  · unfold InputQueue.giveBack
    dsimp only
    split
    · refine .aside rfl rfl rfl (.inr fun u absent => by cases absent) rfl rfl ?_
      simp [Happening.Unnumbered]
    · refine .aside rfl rfl rfl (.inr fun u absent => by cases absent) rfl rfl ?_
      simp [Happening.Unnumbered]

theorem paged_openPane (q : InputQueue) (key : PaneKey) (failure : Option String) :
    Paged q (q.openPane key failure).1 (q.openPane key failure).2 := by
  unfold InputQueue.openPane
  split
  · exact .same rfl rfl (by simp [Happening.Unnumbered])
  · split
    · exact .same rfl rfl (by simp [Happening.Unnumbered])
    · exact .aside rfl rfl rfl (.inl rfl) rfl rfl (by simp [Happening.Unnumbered])

/-- What a worker does leaves the page's state be. -/
theorem paged_setRoute (q : InputQueue) (i : Nat) (route : InputRoute) {hs : List Happening}
    (none_handed : handed hs = []) (none_taken : takenUp hs = [])
    (unnumbered : ∀ e ∈ hs, e.Unnumbered) : Paged q (q.setRoute i route) hs :=
  .aside rfl rfl rfl (.inl rfl) none_handed none_taken unnumbered

/-- **A step moves the page's input in one of these ways.** -/
theorem paged_step (q : InputQueue) (e : Event) : Paged q (q.step e).1 (q.step e).2 := by
  have free (h : ¬ q.held = true) : q.underway = none := by
    unfold InputQueue.held at h
    exact Option.not_isSome_iff_eq_none.1 h
  have idle : Paged q q [] := .same rfl rfl (fun _ absent => by cases absent)
  cases e with
  | openPane key failure =>
    unfold InputQueue.step
    dsimp only
    split
    · exact idle
    · exact paged_openPane q key failure
  | retire key =>
    unfold InputQueue.step
    dsimp only
    split
    · exact idle
    · exact .aside rfl rfl rfl (.inl rfl) rfl rfl (by simp)
  | forget key =>
    unfold InputQueue.step
    dsimp only
    split
    · exact idle
    · exact .forgot key
  | submit key work =>
    unfold InputQueue.step
    dsimp only
    split
    · exact idle
    · split
      · exact .same rfl rfl (by simp [Happening.Unnumbered])
      · rename_i made
        obtain ⟨u, -, -, page, -, -, -, rfl⟩ := reserve_ok made
        refine .aside rfl rfl rfl (.inr fun v there => ?_) rfl rfl (by simp)
        cases there
        exact page
  | enqueuePage key sequence work human =>
    unfold InputQueue.step
    dsimp only
    split
    · exact idle
    · rename_i lock
      exact paged_enqueuePage (free lock) key sequence work human
  | send =>
    unfold InputQueue.step
    dsimp only
    split
    · rename_i there
      exact paged_send there
    · exact idle
  | beginPage =>
    unfold InputQueue.step
    dsimp only
    split
    · exact idle
    · rename_i lock
      exact .began (Bool.not_eq_true _ ▸ lock)
  | takePageCompletion ticket =>
    unfold InputQueue.step InputQueue.takePageCompletion
    dsimp only
    split
    · exact idle
    · rename_i lock
      split
      · rename_i c found
        have named : c.1 = ticket := by simpa using List.find?_some found
        have there : (ticket, c.2) ∈ q.completions :=
          named ▸ List.mem_of_find?_eq_some found
        exact .collected ticket c.2 (Bool.not_eq_true _ ▸ lock) there rfl rfl rfl rfl
      · exact .same rfl rfl (by simp [Happening.Unnumbered])
  | take i way =>
    unfold InputQueue.step InputQueue.take
    dsimp only
    split
    · exact paged_setRoute q _ _ rfl rfl (by simp)
    · exact idle
  | finish i way result =>
    unfold InputQueue.step InputQueue.finish
    dsimp only
    split
    · exact paged_setRoute q _ _ rfl rfl (by simp [Happening.Unnumbered])
    · exact idle
  | breakDown i way =>
    unfold InputQueue.step InputQueue.breakDown
    dsimp only
    split
    · exact paged_setRoute q _ _ rfl rfl (by simp)
    · exact idle
  | close => exact .aside rfl rfl rfl (.inl rfl) rfl rfl (by simp [InputQueue.step])
  | drain =>
    unfold InputQueue.step
    dsimp only
    split
    · exact idle
    · exact .aside rfl rfl rfl (.inl rfl) rfl rfl (by simp)

/-! ## 3. Collected once -/

theorem ticket_injective : Function.Injective ticket := fun _ _ same =>
  Nat.repr_injective ((String.append_right_inj _).1 same)

/-- **What holds of the page's input and what was shown of it, in every run.** -/
structure Collects (q : InputQueue) (h : List Happening) : Prop where
  /-- The numbers spent of a pane are 1, 2, … without a gap. -/
  numbers : ∀ key, spent key h = List.range' 1 ((q.lastSequences key).getD 0)
  some_next : 1 ≤ q.nextTicket
  tickets : (handed h).map (·.1) = (List.range' 1 (q.nextTicket - 1)).map ticket
  own : ((handed h).map (·.2.receiver)).Sublist ((admissions h).map (·.2.response))
  given : ∀ x ∈ takenUp h, x ∈ handed h
  apart : ((takenUp h).map (·.1)).Nodup
  unspoken : ∀ x ∈ q.completions, x ∈ handed h ∧ x.1 ∉ (takenUp h).map (·.1)
  /-- What is to be collected is what was handed out since the page began, and not collected. -/
  awaited : ∀ x, x ∈ q.completions ↔
    x ∈ handed (sinceBegan h) ∧ x.1 ∉ (takenUp (sinceBegan h)).map (·.1)
  few : q.completions.length ≤ maxPendingInputTickets
  ready : q.Ready

theorem collects_new : Collects {} [] where
  numbers _ := rfl
  some_next := le_refl _
  tickets := rfl
  own := List.Sublist.refl _
  given _ mem := by cases mem
  apart := List.nodup_nil
  unspoken _ mem := by cases mem
  awaited _ := ⟨fun mem => (by cases mem), fun both => (by cases both.1)⟩
  few := Nat.zero_le _
  ready _ _ _ there := by cases there

theorem handed_append (h hs : List Happening) : handed (h ++ hs) = handed h ++ handed hs :=
  List.filterMap_append

theorem takenUp_append (h hs : List Happening) : takenUp (h ++ hs) = takenUp h ++ takenUp hs :=
  List.filterMap_append

theorem spent_concat (key : PaneKey) (h : List Happening) (e : Happening) :
    spent key (h ++ [e]) = match e with
      | .numbered k n => if k = key then spent key h ++ [n] else spent key h
      | .began => []
      | .forgot k => if k = key then [] else spent key h
      | _ => spent key h := by
  unfold spent
  rw [List.foldl_append]
  rfl

/-- Happenings that number nothing leave the numbers spent, and the page's time, as they were. -/
theorem spent_append {hs : List Happening} (unnumbered : ∀ e ∈ hs, e.Unnumbered) (key : PaneKey)
    (h : List Happening) : spent key (h ++ hs) = spent key h := by
  induction hs using List.reverseRecOn with
  | nil => rw [List.append_nil]
  | append_singleton hs e ih =>
    have before := ih fun e mem => unnumbered e (List.mem_append_left _ mem)
    rw [← List.append_assoc, spent_concat, before]
    have last := unnumbered e (by simp)
    cases e with
    | numbered => exact last.elim
    | began => exact last.elim
    | forgot => exact last.elim
    | _ => rfl

theorem sinceBegan_concat (h : List Happening) (e : Happening) :
    sinceBegan (h ++ [e]) = match e with
      | .began => []
      | e => sinceBegan h ++ [e] := by
  unfold sinceBegan
  rw [List.foldl_append]
  rfl

/-- Happenings among which no page begins come after those since one began. -/
theorem sinceBegan_append {hs : List Happening} (going : Happening.began ∉ hs)
    (h : List Happening) : sinceBegan (h ++ hs) = sinceBegan h ++ hs := by
  induction hs using List.reverseRecOn with
  | nil => rw [List.append_nil, List.append_nil]
  | append_singleton hs e ih =>
    rw [← List.append_assoc, sinceBegan_concat,
      ih fun mem => going (List.mem_append_left _ mem), ← List.append_assoc]
    cases e with
    | began => exact (going (by simp)).elim
    | _ => rfl

theorem not_began {hs : List Happening} (unnumbered : ∀ e ∈ hs, e.Unnumbered) :
    Happening.began ∉ hs := fun mem => unnumbered _ mem

/-- What was handed since the page began was handed. -/
theorem sinceBegan_suffix (h : List Happening) : sinceBegan h <:+ h := by
  induction h using List.reverseRecOn with
  | nil => exact List.suffix_refl _
  | append_singleton h e ih =>
    rw [sinceBegan_concat]
    cases e with
    | began => exact List.nil_suffix
    | _ =>
      obtain ⟨before, whole⟩ := ih
      exact ⟨before, by rw [← List.append_assoc, whole]⟩

section Step

variable {q q' : InputQueue} {h hs : List Happening}

/-- A ticket yet to be handed out was not. -/
theorem Collects.unhanded (collects : Collects q h) :
    ticket q.nextTicket ∉ (handed h).map (·.1) := by
  intro mem
  rw [collects.tickets] at mem
  obtain ⟨n, bounded, same⟩ := List.mem_map.1 mem
  have same : n = q.nextTicket := ticket_injective same
  have bounded := List.mem_range'_1.1 bounded
  have := collects.some_next
  omega

theorem Collects.aside (collects : Collects q h)
    (sequences : q'.lastSequences = q.lastSequences) (completions : q'.completions = q.completions)
    (next : q'.nextTicket = q.nextTicket)
    (underway : q'.underway = q.underway ∨ ∀ u, q'.underway = some u → u.page = none)
    (none_handed : handed hs = []) (none_taken : takenUp hs = [])
    (unnumbered : ∀ e ∈ hs, e.Unnumbered) : Collects q' (h ++ hs) := by
  have hands : handed (h ++ hs) = handed h := by
    rw [handed_append, none_handed, List.append_nil]
  have takes : takenUp (h ++ hs) = takenUp h := by
    rw [takenUp_append, none_taken, List.append_nil]
  have since := sinceBegan_append (not_began unnumbered) h
  refine ⟨?_, ?_, ?_, ?_, ?_, ?_, ?_, ?_, ?_, ?_⟩
  · intro key
    rw [spent_append unnumbered, sequences]
    exact collects.numbers key
  · rw [next]
    exact collects.some_next
  · rw [hands, next]
    exact collects.tickets
  · rw [hands, admissions_append, List.map_append]
    exact collects.own.trans (List.sublist_append_left _ _)
  · rw [hands, takes]
    exact collects.given
  · rw [takes]
    exact collects.apart
  · rw [hands, takes, completions]
    exact collects.unspoken
  · intro x
    rw [completions, since, handed_append, none_handed, takenUp_append, none_taken,
      List.append_nil, List.append_nil]
    exact collects.awaited x
  · rw [completions]
    exact collects.few
  · intro u n human there page
    rcases underway with same | absent
    · rw [next, completions]
      exact collects.ready u n human (same ▸ there) page
    · rw [absent u there] at page
      cases page

/-- A number spent: the one after the last, and the count goes on from it. -/
theorem Collects.numbered (collects : Collects q h) {key : PaneKey} {n : Nat}
    {rest : List Happening} (follows : n = (q.lastSequences key).getD 0 + 1)
    (sequences : q'.lastSequences = Function.update q.lastSequences key (some n))
    (completions : q'.completions = q.completions) (next : q'.nextTicket = q.nextTicket)
    (ready : q'.Ready) (none_handed : handed rest = []) (none_taken : takenUp rest = [])
    (unnumbered : ∀ e ∈ rest, e.Unnumbered) :
    Collects q' (h ++ .numbered key n :: rest) := by
  have hands : handed (h ++ .numbered key n :: rest) = handed h := by
    rw [handed_append]
    show handed h ++ handed rest = _
    rw [none_handed, List.append_nil]
  have takes : takenUp (h ++ .numbered key n :: rest) = takenUp h := by
    rw [takenUp_append]
    show takenUp h ++ takenUp rest = _
    rw [none_taken, List.append_nil]
  have going : Happening.began ∉ Happening.numbered key n :: rest := by
    intro mem
    rcases List.mem_cons.1 mem with one | more
    · cases one
    · exact unnumbered _ more
  refine ⟨?_, ?_, ?_, ?_, ?_, ?_, ?_, ?_, ?_, ready⟩
  · intro other
    rw [List.append_cons, spent_append unnumbered, spent_concat, sequences]
    dsimp only
    by_cases same : key = other
    · rw [if_pos same, ← same, Function.update_self, collects.numbers key, Option.getD_some,
        follows, List.range'_concat, Nat.one_mul, Nat.add_comm 1]
    · rw [if_neg same, Function.update_of_ne (Ne.symm same)]
      exact collects.numbers other
  · rw [next]
    exact collects.some_next
  · rw [hands, next]
    exact collects.tickets
  · rw [hands, admissions_append, List.map_append]
    exact collects.own.trans (List.sublist_append_left _ _)
  · rw [hands, takes]
    exact collects.given
  · rw [takes]
    exact collects.apart
  · rw [hands, takes, completions]
    exact collects.unspoken
  · intro x
    have none_more : handed (Happening.numbered key n :: rest) = [] := none_handed
    have none_up : takenUp (Happening.numbered key n :: rest) = [] := none_taken
    rw [completions, sinceBegan_append going, handed_append, none_more, takenUp_append, none_up,
      List.append_nil, List.append_nil]
    exact collects.awaited x
  · rw [completions]
    exact collects.few

/-- A ticket handed out, for an input the channel took. -/
theorem Collects.handedOut (collects : Collects q h) {u : Underway} {next : Nat} {human : Bool}
    (there : q.underway = some u) (page : u.page = some (next, human))
    (sequences : q'.lastSequences = q.lastSequences)
    (completions : q'.completions =
      (ticket q.nextTicket, { receiver := u.job.response, human := human }) ::
        q.completions.filter fun c => c.1 != ticket q.nextTicket)
    (following : q'.nextTicket = next) (gone : q'.underway = none) :
    Collects q' (h ++ [.admitted u.route u.job,
      .ticketed (ticket q.nextTicket) { receiver := u.job.response, human := human }]) := by
  obtain ⟨following_next, room⟩ := collects.ready u next human there page
  have some_next := collects.some_next
  generalize made : ({ receiver := u.job.response, human := human } : PageInputCompletion) = c
    at completions ⊢
  have receives : c.receiver = u.job.response := by rw [← made]
  have one : handed [.admitted u.route u.job, .ticketed (ticket q.nextTicket) c] =
      [(ticket q.nextTicket, c)] := rfl
  have none_up : takenUp [.admitted u.route u.job, .ticketed (ticket q.nextTicket) c] = [] := rfl
  have unnumbered : ∀ e ∈ [Happening.admitted u.route u.job, .ticketed (ticket q.nextTicket) c],
      e.Unnumbered := by simp [Happening.Unnumbered]
  -- a ticket not handed out yet is no key of what is to be collected, or was
  have fresh := collects.unhanded
  have whole : q.completions.filter (fun c => c.1 != ticket q.nextTicket) = q.completions := by
    refine List.filter_eq_self.2 fun x mem => bne_iff_ne.2 fun same => fresh ?_
    exact same ▸ List.mem_map_of_mem (collects.unspoken x mem).1
  rw [whole] at completions
  have untaken : ticket q.nextTicket ∉ (takenUp h).map (·.1) := by
    intro mem
    obtain ⟨x, taken, same⟩ := List.mem_map.1 mem
    exact fresh (same ▸ List.mem_map_of_mem (collects.given x taken))
  have since : ∀ x, x ∈ takenUp (sinceBegan h) → x ∈ takenUp h := fun x mem =>
    ((sinceBegan_suffix h).sublist.filterMap _).subset mem
  refine ⟨?_, ?_, ?_, ?_, ?_, ?_, ?_, ?_, ?_, ?_⟩
  · intro key
    rw [spent_append unnumbered, sequences]
    exact collects.numbers key
  · omega
  · have count : next - 1 = (q.nextTicket - 1) + 1 := by omega
    have last : 1 + (q.nextTicket - 1) = q.nextTicket := by omega
    rw [handed_append, one, List.map_append, collects.tickets, following, count, List.range'_concat,
      List.map_append, Nat.one_mul, last]
    rfl
  · rw [handed_append, one, List.map_append, admissions_append, List.map_append]
    refine collects.own.append ?_
    show List.Sublist [c.receiver] [u.job.response]
    rw [receives]
  · rw [takenUp_append, none_up, List.append_nil, handed_append]
    exact fun x mem => List.mem_append_left _ (collects.given x mem)
  · rw [takenUp_append, none_up, List.append_nil]
    exact collects.apart
  · rw [completions, takenUp_append, none_up, List.append_nil, handed_append, one]
    intro x mem
    rcases List.mem_cons.1 mem with rfl | old
    · exact ⟨List.mem_append_right _ (List.mem_singleton_self _), untaken⟩
    · exact ⟨List.mem_append_left _ (collects.unspoken x old).1, (collects.unspoken x old).2⟩
  · intro x
    rw [completions, sinceBegan_append (not_began unnumbered), handed_append, one, takenUp_append,
      none_up, List.append_nil, List.mem_cons, List.mem_append, List.mem_singleton,
      collects.awaited x]
    constructor
    · rintro (rfl | ⟨old, still⟩)
      · refine ⟨.inr rfl, fun mem => untaken ?_⟩
        obtain ⟨x, taken, same⟩ := List.mem_map.1 mem
        exact List.mem_map.2 ⟨x, since x taken, same⟩
      · exact ⟨.inl old, still⟩
    · rintro ⟨old | new, still⟩
      · exact .inr ⟨old, still⟩
      · exact .inl new
  · rw [completions, List.length_cons]
    exact room
  · intro v n human there
    rw [gone] at there
    cases there

/-- A ticket collected: no longer to be. -/
theorem Collects.collected (collects : Collects q h) {ticket : String}
    {completion : PageInputCompletion} (free : q.pageHeld = false)
    (there : (ticket, completion) ∈ q.completions)
    (sequences : q'.lastSequences = q.lastSequences)
    (completions : q'.completions = q.completions.filter fun c => c.1 != ticket)
    (next : q'.nextTicket = q.nextTicket) (underway : q'.underway = q.underway) :
    Collects q' (h ++ [.collected ticket completion]) := by
  have unnumbered : ∀ e ∈ [Happening.collected ticket completion], e.Unnumbered := by
    simp [Happening.Unnumbered]
  have none_more : handed [Happening.collected ticket completion] = [] := rfl
  have one : takenUp [Happening.collected ticket completion] = [(ticket, completion)] := rfl
  have hands : handed (h ++ [.collected ticket completion]) = handed h := by
    rw [handed_append, none_more, List.append_nil]
  have left : ∀ x, x ∈ q'.completions ↔ x ∈ q.completions ∧ x.1 ≠ ticket := by
    intro x
    rw [completions, List.mem_filter, bne_iff_ne]
  refine ⟨?_, ?_, ?_, ?_, ?_, ?_, ?_, ?_, ?_, ?_⟩
  · intro key
    rw [spent_append unnumbered, sequences]
    exact collects.numbers key
  · rw [next]
    exact collects.some_next
  · rw [hands, next]
    exact collects.tickets
  · rw [hands, admissions_append, List.map_append]
    exact collects.own.trans (List.sublist_append_left _ _)
  · rw [hands, takenUp_append, one]
    intro x mem
    rcases List.mem_append.1 mem with old | new
    · exact collects.given x old
    · rw [List.mem_singleton.1 new]
      exact (collects.unspoken _ there).1
  · rw [takenUp_append, one, List.map_append, List.nodup_append]
    refine ⟨collects.apart, List.nodup_singleton _, fun x old y new same => ?_⟩
    have new : y = ticket := List.mem_singleton.1 new
    exact (collects.unspoken _ there).2 (new ▸ same ▸ old)
  · rw [hands, takenUp_append, one, List.map_append]
    intro x mem
    obtain ⟨old, other⟩ := (left x).1 mem
    refine ⟨(collects.unspoken x old).1, fun taken => ?_⟩
    rcases List.mem_append.1 taken with before | now
    · exact (collects.unspoken x old).2 before
    · exact other (List.mem_singleton.1 now)
  · intro x
    rw [left, collects.awaited, sinceBegan_append (not_began unnumbered), handed_append, none_more,
      List.append_nil, takenUp_append, one, List.map_append, List.mem_append, not_or, and_assoc]
    exact and_congr_right fun _ => and_congr_right fun _ =>
      not_congr (List.mem_singleton (a := x.1) (b := ticket)).symm
  · rw [completions]
    exact (List.length_filter_le _ _).trans collects.few
  · intro u n human found page
    rw [underway] at found
    have held : q.pageHeld = true := by
      unfold InputQueue.pageHeld
      rw [found, Option.any_some, page]
      rfl
    rw [held] at free
    cases free

/-- A new page: every count begins anew, and nothing is to be collected. -/
theorem Collects.began (collects : Collects q h) (free : q.pageHeld = false) :
    Collects { q with lastSequences := fun _ => none, completions := [] } (h ++ [.began]) := by
  have hands : handed (h ++ [.began]) = handed h := by
    rw [handed_append]
    exact List.append_nil _
  have takes : takenUp (h ++ [.began]) = takenUp h := by
    rw [takenUp_append]
    exact List.append_nil _
  refine ⟨?_, collects.some_next, ?_, ?_, ?_, ?_, ?_, ?_, Nat.zero_le _, ?_⟩
  · intro key
    rw [spent_concat]
    rfl
  · rw [hands]
    exact collects.tickets
  · rw [hands, admissions_append, List.map_append]
    exact collects.own.trans (List.sublist_append_left _ _)
  · rw [hands, takes]
    exact collects.given
  · rw [takes]
    exact collects.apart
  · intro x mem
    cases mem
  · intro x
    rw [sinceBegan_concat]
    exact ⟨fun mem => (by cases mem), fun both => (by cases both.1)⟩
  · intro u n human found page
    have held : q.pageHeld = true := by
      unfold InputQueue.pageHeld
      rw [show q.underway = some u from found, Option.any_some, page]
      rfl
    rw [held] at free
    cases free

/-- A pane forgotten: its count begins anew. -/
theorem Collects.forgot (collects : Collects q h) (key : PaneKey) :
    Collects { q with lastSequences := Function.update q.lastSequences key none }
      (h ++ [.forgot key]) := by
  have hands : handed (h ++ [.forgot key]) = handed h := by
    rw [handed_append]
    exact List.append_nil _
  have takes : takenUp (h ++ [.forgot key]) = takenUp h := by
    rw [takenUp_append]
    exact List.append_nil _
  have going : Happening.began ∉ [Happening.forgot key] := by simp
  refine ⟨?_, collects.some_next, ?_, ?_, ?_, ?_, ?_, ?_, collects.few, collects.ready⟩
  · intro other
    rw [spent_concat]
    dsimp only
    by_cases same : key = other
    · rw [if_pos same, ← same, Function.update_self]
      rfl
    · rw [if_neg same, Function.update_of_ne (Ne.symm same)]
      exact collects.numbers other
  · rw [hands]
    exact collects.tickets
  · rw [hands, admissions_append, List.map_append]
    exact collects.own.trans (List.sublist_append_left _ _)
  · rw [hands, takes]
    exact collects.given
  · rw [takes]
    exact collects.apart
  · rw [hands, takes]
    exact collects.unspoken
  · intro x
    rw [sinceBegan_append going]
    have none_more : handed [Happening.forgot key] = [] := rfl
    have none_up : takenUp [Happening.forgot key] = [] := rfl
    rw [handed_append, none_more, takenUp_append, none_up, List.append_nil, List.append_nil]
    exact collects.awaited x

/-- **Every step keeps it.** -/
theorem collects_step (collects : Collects q h) (paged : Paged q q' hs) :
    Collects q' (h ++ hs) := by
  cases paged with
  | aside sequences completions next underway none_handed none_taken unnumbered =>
    exact collects.aside sequences completions next underway none_handed none_taken unnumbered
  | numbered key n rest follows sequences completions next ready none_handed none_taken
      unnumbered =>
    exact collects.numbered follows sequences completions next ready none_handed none_taken
      unnumbered
  | handedOut u next human there page sequences completions following gone =>
    exact collects.handedOut there page sequences completions following gone
  | collected ticket completion free there sequences completions next underway =>
    exact collects.collected free there sequences completions next underway
  | began free => exact collects.began free
  | forgot key => exact collects.forgot key

end Step

theorem collects_run (events : List Event) : Collects (run events).1 (run events).2 := by
  induction events using List.reverseRecOn with
  | nil => exact collects_new
  | append_singleton events e ih =>
    rw [run_concat]
    exact collects_step ih (paged_step _ e)

/-! ## 4. Each ticket's channel -/

/-- Each ticket is handed out right after an input is admitted, to collect from that one's
    channel. -/
def Channelled (h : List Happening) : Prop :=
  ∀ n ticket completion, h[n]? = some (.ticketed ticket completion) →
    ∃ m route job, n = m + 1 ∧ h[m]? = some (.admitted route job) ∧
      completion.receiver = job.response

theorem Channelled.append {h hs : List Happening} (channelled : Channelled h)
    (more : ∀ n ticket completion, hs[n]? = some (.ticketed ticket completion) →
      ∃ m route job, n = m + 1 ∧ hs[m]? = some (.admitted route job) ∧
        completion.receiver = job.response) : Channelled (h ++ hs) := by
  intro n ticket completion there
  rcases Nat.lt_or_ge n h.length with before | after
  · rw [List.getElem?_append_left before] at there
    obtain ⟨m, route, job, rfl, admitted, own⟩ := channelled n ticket completion there
    refine ⟨m, route, job, rfl, ?_, own⟩
    rw [List.getElem?_append_left (Nat.lt_of_succ_lt before)]
    exact admitted
  · rw [List.getElem?_append_right after] at there
    obtain ⟨m, route, job, same, admitted, own⟩ := more _ ticket completion there
    refine ⟨h.length + m, route, job, by omega, ?_, own⟩
    rw [List.getElem?_append_right (Nat.le_add_right _ _), Nat.add_sub_cancel_left]
    exact admitted

/-- **Every step keeps it**: a ticket comes with the admission of its own input. -/
theorem channelled_step {q q' : InputQueue} {h hs : List Happening} (channelled : Channelled h)
    (paged : Paged q q' hs) : Channelled (h ++ hs) := by
  have aside {hs : List Happening} (none_handed : handed hs = []) : Channelled (h ++ hs) := by
    refine channelled.append fun n ticket completion there => ?_
    have mem : (ticket, completion) ∈ handed hs :=
      List.mem_filterMap.2 ⟨_, List.mem_of_getElem? there, rfl⟩
    rw [none_handed] at mem
    cases mem
  cases paged with
  | aside _ _ _ _ none_handed => exact aside none_handed
  | numbered key n rest _ _ _ _ _ none_handed => exact aside none_handed
  | handedOut u next human =>
    refine channelled.append fun n ticket completion there => ?_
    match n with
    | 0 => cases there
    | 1 =>
      cases there
      exact ⟨0, u.route, u.job, rfl, rfl, rfl⟩
    | n + 2 => cases there
  | collected => exact aside rfl
  | began => exact aside rfl
  | forgot => exact aside rfl

theorem channelled_run (events : List Event) : Channelled (run events).2 := by
  induction events using List.reverseRecOn with
  | nil => exact fun n ticket completion there => by cases there
  | append_singleton events e ih =>
    rw [run_concat]
    exact channelled_step ih (paged_step _ e)

/-- **A page's ticket collects the answer to its own input, once.** In any order of steps: the
    numbers spent of a pane since its count began are 1, 2, … without a gap; the tickets are handed
    out under numbers of their own, each right after an input is admitted and to collect from the
    channel of that one, no two from one admission's; a ticket collects what it was handed out
    with, and once; what a page can still collect is what was handed out since it began and not
    collected, and is bounded. -/
theorem tickets_collected_once (events : List Event) :
    (∀ key, spent key (run events).2 = List.range' 1 (spent key (run events).2).length) ∧
    ((handed (run events).2).map (·.1)).Nodup ∧
    ((handed (run events).2).map (·.2.receiver)).Sublist
      ((admissions (run events).2).map (·.2.response)) ∧
    Channelled (run events).2 ∧
    takenUp (run events).2 ⊆ handed (run events).2 ∧
    ((takenUp (run events).2).map (·.1)).Nodup ∧
    (∀ x, x ∈ (run events).1.completions ↔ x ∈ handed (sinceBegan (run events).2) ∧
      x.1 ∉ (takenUp (sinceBegan (run events).2)).map (·.1)) ∧
    (run events).1.completions.length ≤ maxPendingInputTickets := by
  have collects := collects_run events
  refine ⟨fun key => ?_, ?_, collects.own, channelled_run events, collects.given,
    collects.apart, collects.awaited, collects.few⟩
  · rw [collects.numbers key, List.length_range']
  · rw [collects.tickets]
    exact List.Nodup.map ticket_injective List.nodup_range'

end Queued
end Panes
end ConsensFlow
