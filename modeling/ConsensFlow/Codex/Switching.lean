/-
  File:      ConsensFlow/Codex/Switching.lean
  Subject:   A WINDOW'S SWITCHES, over any run of its TUI connections, of Codex and of the
             deliveries (`cf-codex-session`, `broker/selection.rs` and `pair.rs`).

  * `Event`, `Window.step`, `Run` -- what can happen to a window, and its runs (newest event first);
    a connection that ended says and is told nothing more;
  * `Open`, `Answered`, `Shows` -- what a history says of the latest switch and of the thread shown,
    without the broker's state: who asked, whether Codex answered, and whose thread it is;
  * `Strands` -- a connection ends whose thread the window shows, or may go back to, after another
    connection asked to switch;
  * **`delivered_to_a_live_thread`** -- in every run in which no end strands a thread, a delivery
    goes only to the thread a live connection's switch chose. It can go elsewhere when one does
    (`delivered_after_its_end`).
-/
import ConsensFlow.Codex.Selection

open Lib.Json

namespace ConsensFlow
namespace Codex

/-! ## 1. What can happen to a window -/

inductive Event where
  /-- What a TUI connection said to Codex. -/
  | tui (client : ClientId) (message : Value)
  /-- What Codex said to a TUI connection. -/
  | codex (client : ClientId) (message : Value)
  /-- What Codex said to the broker's own connection. -/
  | control (message : Value)
  /-- A TUI connection ended. -/
  | ended (client : ClientId)
  | ready
  | controlLost
  | closed
  | learned (thread : String) (read : Option Value)
  | delivery (session : String) (controlOpen : Bool)

/-- The broker's state, and what each of its TUI connections has open. -/
structure Window where
  selection : Selection
  requests : ClientId → Requests

namespace Window

def start (freshBypass : Bool) (role : Option String) (shellEnv : List (String × String)) :
    Window where
  selection := Selection.start freshBypass role shellEnv
  requests _ := []

/-- The window with one connection's requests put. -/
def put (w : Window) (client : ClientId) (requests : Requests) (selection : Selection) :
    Window where
  selection := selection
  requests other := if other = client then requests else w.requests other

def step (w : Window) : Event → Window
  | .tui client message =>
    let (_, requests, selection) := w.selection.tuiSaid client (w.requests client) message
    w.put client requests (selection.unclassified message).2
  | .codex client message =>
    let (requests, selection) := w.selection.codexSaid client (w.requests client) message
    w.put client requests selection
  | .control message => { w with selection := w.selection.controlSaid message }
  | .ended client => { w with selection := w.selection.retire client }
  | .ready => { w with selection := w.selection.beReady }
  | .controlLost => { w with selection := w.selection.loseControl }
  | .closed => { w with selection := w.selection.close }
  | .learned thread read => { w with selection := w.selection.learn thread read }
  | .delivery session controlOpen =>
    { w with selection := (w.selection.admitDelivery session controlOpen).2 }

end Window

/-- A connection that ended reads no frame, writes none and does not end again. -/
def Event.Heard (history : List Event) : Event → Prop
  | .tui client _ | .codex client _ | .ended client => ∀ e ∈ history, e ≠ .ended client
  | _ => True

/-- The runs of a window: what happened, newest first, and what it is then. -/
inductive Run : List Event → Window → Prop
  | start (freshBypass : Bool) (role : Option String) (shellEnv : List (String × String)) :
      Run [] (Window.start freshBypass role shellEnv)
  | step {history : List Event} {w : Window} {e : Event} (run : Run history w)
      (heard : e.Heard history) : Run (e :: history) (w.step e)

/-! ## 2. What a history says -/

/-- A request that may switch the main thread was asked. -/
def Event.isSwitch : Event → Bool
  | .tui _ message => Codex.isSwitch message
  | _ => false

/-- Codex answered the connection's request of that id. -/
def Event.answers (client : ClientId) (id : RequestId) : Event → Prop
  | .codex other message => other = client ∧ isResponse message = true ∧
      sameId id (idOf message) = true
  | _ => False

/-- The latest switch was asked by `client` with `request`, after `before`, and Codex has not
    answered it. -/
def Open (history : List Event) (client : ClientId) (request : Value) (before : List Event) :
    Prop :=
  ∃ since, history = since ++ .tui client request :: before ∧ isSwitch request = true ∧
    ∀ e ∈ since, e.isSwitch = false ∧ ¬ e.answers client (idOf request)

/-- The latest switch was asked by `client`, after `before`, and `answer` is Codex's answer. -/
def Answered (history : List Event) (client : ClientId) (before : List Event) (answer : Value) :
    Prop :=
  ∃ later history' request, history = later ++ .codex client answer :: history' ∧
    Open history' client request before ∧
    (Event.codex client answer).answers client (idOf request) ∧ ∀ e ∈ later, e.isSwitch = false

/-- The window shows `thread`, and `client`'s request chose it: the latest switch was answered with
    it, or Codex refused that switch and the window showed it before. -/
inductive Shows : List Event → String → ClientId → Prop
  | named {history before : List Event} {client : ClientId} {answer : Value} {thread : String}
      (answered : Answered history client before answer) (taken : failed answer = false)
      (names : candidate answer = some thread) : Shows history thread client
  | refused {history before : List Event} {asker client : ClientId} {answer : Value}
      {thread : String} (answered : Answered history asker before answer)
      (refused : failed answer = true) (back : Shows before thread client) :
      Shows history thread client

/-- **The latest switch was asked by another connection, which has not ended, and the window went
    back, or will go back if Codex refuses it, to a thread that `client` chose.** -/
def Strands (history : List Event) (client : ClientId) : Prop :=
  ∃ asker before thread, asker ≠ client ∧ (∀ e ∈ history, e ≠ .ended asker) ∧
    Shows before thread client ∧
    ((∃ request, Open history asker request before) ∨
      ∃ answer, Answered history asker before answer ∧ failed answer = true)

/-- No connection's end strands a thread. -/
def Unstranded (history : List Event) : Prop :=
  ∀ later client before, history = later ++ .ended client :: before → ¬ Strands before client

theorem Unstranded.tail {e : Event} {history : List Event} (h : Unstranded (e :: history)) :
    Unstranded history :=
  fun later client before he => h (e :: later) client before (by rw [he]; rfl)

variable {history before : List Event} {client : ClientId} {request answer : Value} {e : Event}

/-! ## 3. One event more -/

theorem Open.cons (h : Open history client request before) (hs : e.isSwitch = false)
    (ha : ¬ e.answers client (idOf request)) : Open (e :: history) client request before := by
  obtain ⟨since, rfl, switch, quiet⟩ := h
  refine ⟨e :: since, rfl, switch, fun x hx => ?_⟩
  rcases List.mem_cons.mp hx with rfl | hx
  · exact ⟨hs, ha⟩
  · exact quiet x hx

theorem Answered.cons (h : Answered history client before answer) (hs : e.isSwitch = false) :
    Answered (e :: history) client before answer := by
  obtain ⟨later, history', request, rfl, opened, answers, quiet⟩ := h
  refine ⟨e :: later, history', request, rfl, opened, answers, fun x hx => ?_⟩
  rcases List.mem_cons.mp hx with rfl | hx
  · exact hs
  · exact quiet x hx

theorem Shows.cons {thread : String} (h : Shows history thread client) (hs : e.isSwitch = false) :
    Shows (e :: history) thread client := by
  cases h with
  | named answered taken names => exact .named (answered.cons hs) taken names
  | refused answered refused back => exact .refused (answered.cons hs) refused back

/-- A list has one first place at which something holds. -/
theorem first_unique {α : Type} {p : α → Prop} {l₁ l₂ r₁ r₂ : List α} {x y : α}
    (h : l₁ ++ x :: r₁ = l₂ ++ y :: r₂) (hx : p x) (hy : p y) (h₁ : ∀ a ∈ l₁, ¬ p a)
    (h₂ : ∀ a ∈ l₂, ¬ p a) : l₁ = l₂ ∧ x = y ∧ r₁ = r₂ := by
  induction l₁ generalizing l₂ with
  | nil =>
    cases l₂ with
    | nil => exact ⟨rfl, List.cons.inj h⟩
    | cons a l₂ =>
      obtain ⟨rfl, -⟩ := List.cons.inj h
      exact absurd hx (h₂ _ List.mem_cons_self)
  | cons a l₁ ih =>
    cases l₂ with
    | nil =>
      obtain ⟨rfl, -⟩ := List.cons.inj h
      exact absurd hy (h₁ _ List.mem_cons_self)
    | cons b l₂ =>
      obtain ⟨rfl, rest⟩ := List.cons.inj h
      obtain ⟨rfl, hxy⟩ := ih rest (fun a h => h₁ a (List.mem_cons_of_mem _ h))
        fun a h => h₂ a (List.mem_cons_of_mem _ h)
      exact ⟨rfl, hxy⟩

/-- And one last place. -/
theorem last_unique {α : Type} {p : α → Prop} {l₁ l₂ r₁ r₂ : List α} {x y : α}
    (h : l₁ ++ x :: r₁ = l₂ ++ y :: r₂) (hx : p x) (hy : p y) (h₁ : ∀ a ∈ r₁, ¬ p a)
    (h₂ : ∀ a ∈ r₂, ¬ p a) : x = y := by
  have back := congrArg List.reverse h
  simp only [List.reverse_append, List.reverse_cons, List.append_assoc, List.singleton_append]
    at back
  exact (first_unique back hx hy (fun a ha => h₁ a (List.mem_reverse.mp ha))
    fun a ha => h₂ a (List.mem_reverse.mp ha)).2.1

variable {client' : ClientId} {before' : List Event}

theorem Open.unique {request' : Value} (h : Open history client request before)
    (h' : Open history client' request' before') :
    client = client' ∧ request = request' ∧ before = before' := by
  obtain ⟨since, rfl, switch, quiet⟩ := h
  obtain ⟨since', he, switch', quiet'⟩ := h'
  obtain ⟨-, hx, rfl⟩ := first_unique (p := fun e => e.isSwitch = true) he switch switch'
    (fun a h => by simp [(quiet a h).1]) fun a h => by simp [(quiet' a h).1]
  cases hx
  exact ⟨rfl, rfl, rfl⟩

/-- An answered switch is asked, its answer after it, and no switch is asked since. -/
theorem Answered.asked (h : Answered history client before answer) :
    ∃ later since request, history = (later ++ .codex client answer :: since) ++
        .tui client request :: before ∧ isSwitch request = true ∧
      (∀ e ∈ later ++ .codex client answer :: since, ¬ e.isSwitch = true) ∧
      (Event.codex client answer).answers client (idOf request) ∧
      ∀ e ∈ since, ¬ e.answers client (idOf request) := by
  obtain ⟨later, _, request, rfl, ⟨since, rfl, switch, quiet⟩, answers, settled⟩ := h
  refine ⟨later, since, request, by simp, switch, fun e hm => ?_, answers,
    fun e he => (quiet e he).2⟩
  rcases List.mem_append.mp hm with hm | hm
  · simp [settled e hm]
  · rcases List.mem_cons.mp hm with rfl | hm
    · simp [Event.isSwitch]
    · simp [(quiet e hm).1]

/-- A history has one latest switch and one first answer to it. -/
theorem Answered.unique {answer' : Value} (h : Answered history client before answer)
    (h' : Answered history client' before' answer') :
    client = client' ∧ before = before' ∧ answer = answer' := by
  obtain ⟨later, since, request, rfl, switch, quiet, answers, unanswered⟩ := h.asked
  obtain ⟨later', since', request', he, switch', quiet', answers', unanswered'⟩ := h'.asked
  obtain ⟨around, hx, rfl⟩ := first_unique (p := fun e => e.isSwitch = true) he switch switch'
    quiet quiet'
  cases hx
  have same := last_unique (p := fun e => e.answers client (idOf request)) around answers answers'
    unanswered unanswered'
  cases same
  exact ⟨rfl, rfl, rfl⟩

/-- The latest switch, answered, is not open. -/
theorem Answered.not_open (h : Answered history client before answer) :
    ¬ Open history client' request before' := by
  rintro ⟨since', he, switch', quiet'⟩
  obtain ⟨later, since, asked, rfl, switch, quiet, answers, -⟩ := h.asked
  obtain ⟨rfl, hx, -⟩ := first_unique (p := fun e => e.isSwitch = true) he switch switch' quiet
    fun e hm => by simp [(quiet' e hm).1]
  cases hx
  exact (quiet' _ (List.mem_append_right _ List.mem_cons_self)).2 answers

/-- **A history shows one thread at most, chosen by one connection.** -/
theorem Shows.unique {thread thread' : String} (h : Shows history thread client)
    (h' : Shows history thread' client') : thread = thread' ∧ client = client' := by
  induction h generalizing thread' client' with
  | named answered taken names =>
    cases h' with
    | named answered' taken' names' =>
      obtain ⟨rfl, rfl, rfl⟩ := answered.unique answered'
      exact ⟨Option.some.inj (names.symm.trans names'), rfl⟩
    | refused answered' refused' _ =>
      obtain ⟨-, -, rfl⟩ := answered.unique answered'
      exact absurd (taken.symm.trans refused') (by decide)
  | refused answered refused _ ih =>
    cases h' with
    | named answered' taken' _ =>
      obtain ⟨-, -, rfl⟩ := answered.unique answered'
      exact absurd (taken'.symm.trans refused) (by decide)
    | refused answered' _ back' =>
      obtain ⟨-, rfl, -⟩ := answered.unique answered'
      exact ih back'

/-! ## 4. The broker's state is what its history says -/

/-- **What a window's state has to do with its history.** -/
structure Kept (history : List Event) (w : Window) : Prop where
  distinct : ∀ client, (w.requests client).Distinct
  /-- No switch remembered is newer than the latest. -/
  older : ∀ client id revision prior priorEmpty mainResume,
    (id, .switch revision prior priorEmpty mainResume) ∈ w.requests client →
      revision ≤ w.selection.revision
  /-- The latest switch, where it is remembered, is open, and goes back to what the window showed
      by a connection that has not ended. -/
  latest : ∀ client id prior priorEmpty mainResume,
    (id, .switch w.selection.revision prior priorEmpty mainResume) ∈ w.requests client →
    w.selection.owner = some client →
      (∀ e ∈ history, e ≠ .ended client) ∧ ∃ request before, Open history client request before ∧
        id = idOf request ∧ ∀ thread, prior = some thread →
          ∃ chooser, Shows before thread chooser ∧ ∀ e ∈ history, e ≠ .ended chooser
  /-- The thread shown is the one the latest switch was answered with, or went back to. -/
  shown : ∀ thread, w.selection.switching = false → w.selection.selected = some thread →
    ∃ asker before answer chooser, w.selection.owner = some asker ∧
      (∀ e ∈ history, e ≠ .ended asker) ∧ Answered history asker before answer ∧
      ((failed answer = false ∧ candidate answer = some thread ∧ chooser = asker) ∨
        (failed answer = true ∧ Shows before thread chooser)) ∧
      ∀ e ∈ history, e ≠ .ended chooser

/-- The thread shown is shown, as the history has it. -/
theorem Kept.shows {w : Window} (h : Kept history w) {thread : String}
    (hs : w.selection.switching = false) (ht : w.selection.selected = some thread) :
    ∃ chooser, Shows history thread chooser ∧ ∀ e ∈ history, e ≠ .ended chooser := by
  obtain ⟨asker, before, answer, chooser, -, -, answered, chose, live⟩ := h.shown thread hs ht
  refine ⟨chooser, ?_, live⟩
  rcases chose with ⟨taken, names, rfl⟩ | ⟨refused, back⟩
  · exact .named answered taken names
  · exact .refused answered refused back

theorem not_ended_cons {chooser : ClientId} (h : ∀ e ∈ history, e ≠ .ended chooser)
    (he : e ≠ .ended chooser) : ∀ x ∈ e :: history, x ≠ .ended chooser :=
  List.forall_mem_cons.mpr ⟨he, h⟩

theorem Kept.start (freshBypass : Bool) (role : Option String) (shellEnv : List (String × String)) :
    Kept [] (Window.start freshBypass role shellEnv) where
  distinct _ := List.Pairwise.nil
  older _ _ _ _ _ _ h := by cases h
  latest _ _ _ _ _ h := by cases h
  shown _ _ h := by cases h

/-- An event that answers nothing open and ends nobody keeps a window whose thread stays. -/
theorem Kept.quiet {w w' : Window} (h : Kept history w)
    (same : Selection.SameThread w.selection w'.selection)
    (requests : ∀ client, (w'.requests client).Distinct ∧
      ∀ id revision prior priorEmpty mainResume,
        (id, Pending.switch revision prior priorEmpty mainResume) ∈ w'.requests client →
        (id, Pending.switch revision prior priorEmpty mainResume) ∈ w.requests client ∧
          ¬ e.answers client id)
    (hs : e.isSwitch = false) (hl : ∀ client, e ≠ .ended client) : Kept (e :: history) w' where
  distinct client := (requests client).1
  older client id revision prior priorEmpty mainResume hm := by
    rw [same.revision]
    exact h.older _ _ _ _ _ _ ((requests client).2 _ _ _ _ _ hm).1
  latest client id prior priorEmpty mainResume hm ho := by
    rw [same.revision] at hm
    rw [same.owner] at ho
    obtain ⟨hm, ha⟩ := (requests client).2 _ _ _ _ _ hm
    obtain ⟨live, request, before, opened, hid, back⟩ := h.latest _ _ _ _ _ hm ho
    refine ⟨not_ended_cons live (hl client), request, before, opened.cons hs (hid ▸ ha), hid,
      fun thread ht => ?_⟩
    obtain ⟨chooser, shows, live⟩ := back thread ht
    exact ⟨chooser, shows, not_ended_cons live (hl chooser)⟩
  shown thread hw ht := by
    rw [same.switching] at hw
    rw [same.selected] at ht
    obtain ⟨asker, before, answer, chooser, owner, asking, answered, chose, live⟩ :=
      h.shown thread hw ht
    exact ⟨asker, before, answer, chooser, same.owner.trans owner,
      not_ended_cons asking (hl asker), answered.cons hs, chose, not_ended_cons live (hl chooser)⟩

/-! ## 5. Each event keeps it -/

variable {w : Window} {message : Value}

/-- What the broker remembers after a message of a TUI's: what it did, a switch just asked, or a
    change of permissions. -/
theorem mem_tuiSaid {s : Selection} {requests : Requests} {entry : RequestId × Pending}
    (h : entry ∈ (s.tuiSaid client requests message).2.1) :
    entry ∈ requests ∨ entry.2 = .permissionChange ∨
      (isSwitch message = true ∧ entry = (idOf message, s.pendingSwitch message)) := by
  rcases Requests.mem_insert_if h with ⟨-, rfl⟩ | h
  · exact .inr (.inl rfl)
  · rcases Requests.mem_insert_if h with ⟨switch, rfl⟩ | h
    · exact .inr (.inr ⟨switch, rfl⟩)
    · exact .inl h

theorem distinct_tuiSaid {s : Selection} {requests : Requests} (h : requests.Distinct) :
    (s.tuiSaid client requests message).2.1.Distinct := by
  exact h.insert_if.insert_if

/-- What a message of a TUI's does to the window's thread: nothing, or it moves to another. -/
theorem tuiSaid_thread (s : Selection) (requests : Requests) :
    Selection.SameThread (if isSwitch message then s.asked client else s)
      (s.tuiSaid client requests message).2.2 := by
  dsimp only [Selection.tuiSaid]
  split
  · split
    · exact Selection.turnAsked_same _
    · exact .refl _
  · split
    · exact Selection.turnAsked_same _
    · exact .refl _

theorem Kept.tui (h : Kept history w) (heard : ∀ e ∈ history, e ≠ .ended client) :
    Kept (.tui client message :: history) (w.step (.tui client message)) := by
  have thread := (@tuiSaid_thread client message w.selection
    (w.requests client)).trans (Selection.unclassified_same _ message)
  have distinct : ∀ other, ((w.step (.tui client message)).requests other).Distinct := by
    intro other
    show Requests.Distinct (if other = client then _ else _)
    split
    · exact distinct_tuiSaid (h.distinct client)
    · exact h.distinct other
  have members : ∀ other id revision prior priorEmpty mainResume,
      (id, Pending.switch revision prior priorEmpty mainResume) ∈
        (w.step (.tui client message)).requests other →
      (id, Pending.switch revision prior priorEmpty mainResume) ∈ w.requests other ∨
      (other = client ∧ isSwitch message = true ∧
        (id, Pending.switch revision prior priorEmpty mainResume) =
          (idOf message, w.selection.pendingSwitch message)) := by
    intro other id revision prior priorEmpty mainResume hm
    change _ ∈ (if other = client then _ else _) at hm
    split at hm
    · rename_i here
      subst here
      rcases mem_tuiSaid hm with hm | hm | hm
      · exact .inl hm
      · cases hm
      · exact .inr ⟨rfl, hm⟩
    · exact .inl hm
  by_cases switch : isSwitch message = true
  · rw [if_pos switch] at thread
    refine ⟨distinct, fun other id revision prior priorEmpty mainResume hm => ?_,
      fun other id prior priorEmpty mainResume hm owner => ?_, fun shown hw => ?_⟩
    · show _ ≤ (w.step (.tui client message)).selection.revision
      rw [show (w.step (.tui client message)).selection.revision = w.selection.revision + 1 from
        thread.revision]
      rcases members _ _ _ _ _ _ hm with hm | ⟨rfl, -, he⟩
      · exact (h.older _ _ _ _ _ _ hm).trans (Nat.le_succ _)
      · cases he
        exact le_rfl
    · have revision : (w.step (.tui client message)).selection.revision =
        w.selection.revision + 1 := thread.revision
      rw [revision] at hm
      rcases members _ _ _ _ _ _ hm with hm | ⟨rfl, -, he⟩
      · exact absurd (h.older _ _ _ _ _ _ hm) (by omega)
      · cases he
        refine ⟨not_ended_cons heard (by simp), message, history, ⟨[], rfl, switch, by simp⟩, rfl,
          fun back hb => ?_⟩
        split at hb
        · cases hb
        · rename_i settled
          obtain ⟨chooser, shows, live⟩ := h.shows (by simpa using settled) hb
          exact ⟨chooser, shows, not_ended_cons live (by simp)⟩
    · have switching : (w.step (.tui client message)).selection.switching = true :=
        thread.switching
      rw [switching] at hw
      cases hw
  · rw [if_neg switch] at thread
    refine h.quiet thread (fun other => ⟨distinct other,
      fun id revision prior priorEmpty mainResume hm => ?_⟩) (by simpa [Event.isSwitch] using switch)
      (by simp)
    rcases members _ _ _ _ _ _ hm with hm | ⟨-, hs, -⟩
    · exact ⟨hm, fun answers => answers⟩
    · exact absurd hs switch

/-- The selection after a message of Codex's is what the answered request makes it. -/
theorem codexSaid_thread (s : Selection) (requests : Requests) :
    Selection.SameThread
      (if isResponse message then s.answered client message (requests.take (idOf message)).1 else s)
      (s.codexSaid client requests message).2 := by
  unfold Selection.codexSaid
  split
  · exact Selection.observe_same _ message
  · exact Selection.observe_same _ message

/-- **An answer changes the window's thread only where it answers the latest switch, asked by the
    window's owner.** -/
theorem answered_cases (s : Selection) (requests : Requests) :
    Selection.SameThread s (s.codexSaid client requests message).2 ∨
    ∃ id prior priorEmpty mainResume,
      (id, Pending.switch s.revision prior priorEmpty mainResume) ∈ requests ∧
      isResponse message = true ∧ sameId id (idOf message) = true ∧ s.owner = some client ∧
      Selection.SameThread (s.switched message prior priorEmpty mainResume)
        (s.codexSaid client requests message).2 := by
  have thread := @codexSaid_thread client message s requests
  by_cases response : isResponse message = true
  swap
  · rw [if_neg response] at thread
    exact .inl thread
  rw [if_pos response] at thread
  rcases Requests.take_cases requests (idOf message) with ⟨he, -⟩ |
    ⟨earlier, ⟨id, pending⟩, others, hr, same, he⟩
  · rw [he] at thread
    exact .inl thread
  rw [he] at thread
  cases pending with
  | permissionChange =>
    refine .inl (Selection.SameThread.trans ?_ thread)
    show Selection.SameThread s (if failed message then s else _)
    split <;> exact ⟨rfl, rfl, rfl, rfl⟩
  | switch revision prior priorEmpty mainResume =>
    by_cases latest : s.owner = some client ∧ revision = s.revision
    · obtain ⟨owner, rfl⟩ := latest
      rw [show s.answered client message (some (.switch s.revision prior priorEmpty mainResume)) =
        s.switched message prior priorEmpty mainResume from if_pos ⟨owner, rfl⟩] at thread
      exact .inr ⟨id, prior, priorEmpty, mainResume,
        hr ▸ List.mem_append_right _ List.mem_cons_self, response, same, owner, thread⟩
    · rw [show s.answered client message (some (.switch revision prior priorEmpty mainResume)) = s
        from if_neg latest] at thread
      exact .inl thread

/-- A message of Codex's takes what it answers from those open, and leaves nothing of its id. -/
theorem requests_codex {other : ClientId} {entry : RequestId × Pending} (h : Kept history w)
    (hm : entry ∈ (w.step (.codex client message)).requests other) :
    entry ∈ w.requests other ∧ ¬ (Event.codex client message).answers other entry.1 := by
  change entry ∈ (if other = client then (w.selection.codexSaid client _ message).1 else _) at hm
  unfold Selection.codexSaid at hm
  split at hm
  · rename_i here
    subst here
    split at hm
    · exact ⟨Requests.mem_take hm,
        fun answers => ((h.distinct other).take.2 _ hm) answers.2.2⟩
    · rename_i request
      exact ⟨hm, fun answers => request answers.2.1⟩
  · rename_i elsewhere
    exact ⟨hm, fun answers => elsewhere answers.1.symm⟩

theorem distinct_codex (h : Kept history w) (other : ClientId) :
    ((w.step (.codex client message)).requests other).Distinct := by
  show Requests.Distinct (if other = client then (w.selection.codexSaid client _ message).1 else _)
  unfold Selection.codexSaid
  split
  · split
    · exact (h.distinct client).take.1
    · exact h.distinct client
  · exact h.distinct other

theorem Kept.codex (h : Kept history w) :
    Kept (.codex client message :: history) (w.step (.codex client message)) := by
  rcases @answered_cases client message w.selection (w.requests client) with
    thread | ⟨id, prior, priorEmpty, mainResume, hm, response, same, owner, thread⟩
  · exact h.quiet thread
      (fun other => ⟨distinct_codex h other, fun _ _ _ _ _ hm => requests_codex h hm⟩) rfl (by simp)
  obtain ⟨live, request, before, opened, rfl, back⟩ := h.latest _ _ _ _ _ hm owner
  have answers : (Event.codex client message).answers client (idOf request) :=
    ⟨rfl, response, same⟩
  have answered : Answered (.codex client message :: history) client before message :=
    ⟨[], history, request, rfl, opened, answers, by simp⟩
  have kept : ∀ s : Selection, s = w.selection.switched message prior priorEmpty mainResume →
      s.owner = w.selection.owner ∧ s.revision = w.selection.revision ∧ s.switching = false ∧
      s.selected = if failed message then prior else candidate message := by
    rintro _ rfl
    unfold Selection.switched
    split
    · exact ⟨rfl, rfl, rfl, rfl⟩
    · exact ⟨rfl, rfl, rfl, rfl⟩
  obtain ⟨keepsOwner, keepsRevision, -, selects⟩ := kept _ rfl
  have ownerAfter : (w.step (.codex client message)).selection.owner = some client :=
    (thread.owner.trans keepsOwner).trans owner
  have revision : (w.step (.codex client message)).selection.revision = w.selection.revision :=
    thread.revision.trans keepsRevision
  refine ⟨distinct_codex h, fun other id' revision' _ _ _ hm' => ?_,
    fun other id' _ _ _ hm' owner' => ?_, fun shown _ ht => ?_⟩
  · rw [revision]
    exact h.older _ _ _ _ _ _ (requests_codex h hm').1
  · -- a second one of the latest revision would be the same request, and its id was taken
    rw [ownerAfter] at owner'
    cases owner'
    rw [revision] at hm'
    obtain ⟨still, unanswered⟩ := requests_codex h hm'
    obtain ⟨-, request', before', opened', rfl, -⟩ := h.latest _ _ _ _ _ still owner
    obtain ⟨-, rfl, -⟩ := opened.unique opened'
    exact absurd answers unanswered
  · have ht : (if failed message then prior else candidate message) = some shown :=
      (selects.symm.trans thread.selected.symm).trans ht
    by_cases refused : failed message = true
    · rw [if_pos refused] at ht
      obtain ⟨chooser, shows, chooserLive⟩ := back shown ht
      exact ⟨client, before, message, chooser, ownerAfter, not_ended_cons live (by simp), answered,
        .inr ⟨refused, shows⟩, not_ended_cons chooserLive (by simp)⟩
    · rw [if_neg refused] at ht
      exact ⟨client, before, message, client, ownerAfter, not_ended_cons live (by simp), answered,
        .inl ⟨by simpa using refused, ht, rfl⟩, not_ended_cons live (by simp)⟩

/-- A connection that ends and strands no thread leaves what live connections chose. -/
theorem Kept.ended (h : Kept history w) (unstranded : ¬ Strands history client) :
    Kept (.ended client :: history) (w.step (.ended client)) := by
  by_cases owns : w.selection.owner = some client
  · have retired : w.selection.retire client =
        { w.selection with
          selected := none, empty := false, owner := none, switching := false
          revision := w.selection.revision + 1 } := if_pos owns
    refine ⟨h.distinct, fun other id revision _ _ _ hm => ?_, fun other id _ _ _ hm owner => ?_,
      fun thread _ ht => ?_⟩
    · show revision ≤ (w.selection.retire client).revision
      rw [retired]
      exact (h.older _ _ _ _ _ _ hm).trans (Nat.le_succ _)
    · change (w.selection.retire client).owner = some other at owner
      rw [retired] at owner
      cases owner
    · change (w.selection.retire client).selected = some thread at ht
      rw [retired] at ht
      cases ht
  · have retired : w.step (.ended client) = w := by
      show { w with selection := w.selection.retire client } = w
      rw [show w.selection.retire client = w.selection from if_neg owns]
    rw [retired]
    refine ⟨h.distinct, h.older, fun other id prior priorEmpty mainResume hm owner => ?_,
      fun thread hw ht => ?_⟩
    · obtain ⟨live, request, before, opened, hid, back⟩ := h.latest _ _ _ _ _ hm owner
      have elsewhere : other ≠ client := by
        rintro rfl
        exact owns owner
      refine ⟨not_ended_cons live (by simpa using elsewhere.symm), request, before,
        opened.cons rfl (fun answers => answers), hid, fun thread ht => ?_⟩
      obtain ⟨chooser, shows, chooserLive⟩ := back thread ht
      refine ⟨chooser, shows, not_ended_cons chooserLive fun he => ?_⟩
      cases he
      exact unstranded ⟨other, before, thread, elsewhere, live, shows, .inl ⟨request, opened⟩⟩
    · obtain ⟨asker, before, answer, chooser, owner, live, answered, chose, chooserLive⟩ :=
        h.shown thread hw ht
      have elsewhere : asker ≠ client := by
        rintro rfl
        exact owns owner
      refine ⟨asker, before, answer, chooser, owner,
        not_ended_cons live (by simpa using elsewhere.symm), answered.cons rfl, chose,
        not_ended_cons chooserLive fun he => ?_⟩
      cases he
      rcases chose with ⟨-, -, rfl⟩ | ⟨refused, back⟩
      · exact elsewhere rfl
      · exact unstranded ⟨asker, before, thread, elsewhere, live, back,
          .inr ⟨answer, answered, refused⟩⟩

/-- An event that leaves the requests and the thread alone keeps the window. -/
theorem Kept.aside (h : Kept history w) {selection : Selection}
    (same : Selection.SameThread w.selection selection) (hs : e.isSwitch = false)
    (ha : ∀ client id, ¬ e.answers client id) (hl : ∀ client, e ≠ .ended client) :
    Kept (e :: history) { w with selection := selection } :=
  h.quiet same (fun other => ⟨h.distinct other, fun _ _ _ _ _ hm => ⟨hm, ha other _⟩⟩) hs hl

theorem Kept.closed (h : Kept history w) : Kept (.closed :: history) (w.step .closed) where
  distinct := h.distinct
  older := h.older
  latest client id prior priorEmpty mainResume hm owner := by
    obtain ⟨live, request, before, opened, hid, back⟩ := h.latest _ _ _ _ _ hm owner
    refine ⟨not_ended_cons live (by simp), request, before, opened.cons rfl fun answers => answers,
      hid, fun thread ht => ?_⟩
    obtain ⟨chooser, shows, live⟩ := back thread ht
    exact ⟨chooser, shows, not_ended_cons live (by simp)⟩
  shown _ _ ht := by cases ht

theorem Kept.step (h : Kept history w) (heard : e.Heard history)
    (unstranded : ∀ client, e = .ended client → ¬ Strands history client) :
    Kept (e :: history) (w.step e) := by
  cases e with
  | tui client message => exact h.tui heard
  | codex client message => exact h.codex
  | control message =>
    exact h.aside (Selection.observe_same _ message) rfl (fun _ _ answers => answers) (by simp)
  | ended client => exact h.ended (unstranded client rfl)
  | ready => exact h.aside ⟨rfl, rfl, rfl, rfl⟩ rfl (fun _ _ answers => answers) (by simp)
  | controlLost => exact h.aside ⟨rfl, rfl, rfl, rfl⟩ rfl (fun _ _ answers => answers) (by simp)
  | closed => exact h.closed
  | learned thread read =>
    exact h.aside (Selection.learn_same _ thread read) rfl (fun _ _ answers => answers) (by simp)
  | delivery session controlOpen =>
    exact h.aside (Selection.admitDelivery_same _ session controlOpen) rfl
      (fun _ _ answers => answers) (by simp)

/-- **Every run in which no end strands a thread keeps the window.** -/
theorem Run.kept (run : Run history w) (unstranded : Unstranded history) : Kept history w := by
  induction run with
  | start freshBypass role shellEnv => exact Kept.start freshBypass role shellEnv
  | @step history w e run heard ih =>
    refine (ih unstranded.tail).step heard fun client he => ?_
    exact unstranded [] client history (by rw [he]; rfl)

/-! ## 6. Where a delivery goes -/

/-- **In every run in which no connection's end strands a thread, a delivery is admitted only for
    the thread the window shows, chosen by a connection that has not ended; and a message of
    Codex's that is not the first answer to the latest switch leaves the thread shown.** -/
theorem delivered_to_a_live_thread (run : Run history w) (unstranded : Unstranded history) :
    (∀ session controlOpen admission,
      (w.selection.admitDelivery session controlOpen).1 = .ok admission →
        admission.thread = session ∧
        ∃ chooser, Shows history session chooser ∧ ∀ e ∈ history, e ≠ .ended chooser) ∧
    (∀ client message,
      (w.step (.codex client message)).selection.sessionId ≠ w.selection.sessionId →
        ∃ request before, Open history client request before ∧
          (Event.codex client message).answers client (idOf request)) ∧
    ∀ message, (w.step (.control message)).selection.sessionId = w.selection.sessionId := by
  have kept := run.kept unstranded
  refine ⟨fun session controlOpen admission h => ?_, fun client message changed => ?_,
    fun message => (Selection.observe_same _ message).sessionId⟩
  · obtain ⟨settled, selected, thread⟩ := Selection.admitDelivery_ok _ h
    exact ⟨thread, kept.shows settled selected⟩
  · rcases @answered_cases client message w.selection
      (w.requests client) with same | ⟨id, prior, _, _, hm, response, same, owner, -⟩
    · exact absurd same.sessionId changed
    · obtain ⟨-, request, before, opened, rfl, -⟩ := kept.latest _ _ _ _ _ hm owner
      exact ⟨request, before, opened, rfl, response, same⟩

/-- A thread Codex named. -/
def someThread : String := "01a09094-938f-7fd1-a2d3-315cf92b4559"

/-- A TUI's main start, as request `id`. -/
def mainStart (id : Rat) : Value :=
  .object [("id", .number id), ("method", .string "thread/start"),
    ("params", .object [("ephemeral", .bool false), ("threadSource", .string "user")])]

/-- Codex's answer to request `id`: the thread, idle. -/
def threadAnswer (id : Rat) : Value :=
  .object [("id", .number id), ("result", .object [("thread", .object
    [("id", .string someThread), ("status", .object [("type", .string "idle")])])])]

/-- Codex refuses request `id`. -/
def refusal (id : Rat) : Value :=
  .object [("id", .number id), ("error", .object [("code", .number (-32600))])]

/-- A connection starts the thread the window shows, and another's picker ends. -/
def pickerEnds : List Event :=
  [.ended ⟨2⟩, .codex ⟨1⟩ (threadAnswer 1), .tui ⟨1⟩ (mainStart 1), .ready]

/-- A second connection asks for a start of its own, which Codex refuses, and the first ends. -/
def orphaned : List Event :=
  [.ended ⟨1⟩, .codex ⟨2⟩ (refusal 1), .tui ⟨2⟩ (mainStart 1), .codex ⟨1⟩ (threadAnswer 1),
    .tui ⟨1⟩ (mainStart 1), .ready]

/-- The window after a history. -/
def Window.after : List Event → Window
  | [] => Window.start false none []
  | e :: history => (Window.after history).step e

/-- What was just asked and answered, with nothing between. -/
theorem answered_next (before : List Event) (switch : isSwitch request = true)
    (answers : (Event.codex client answer).answers client (idOf request)) :
    Answered (.codex client answer :: .tui client request :: before) client before answer :=
  ⟨[], _, request, rfl, ⟨[], rfl, switch, by simp⟩, answers, by simp⟩

theorem mainStart_answered (before : List Event) (client : ClientId) :
    Answered (.codex client (threadAnswer 1) :: .tui client (mainStart 1) :: before) client before
      (threadAnswer 1) :=
  answered_next before (by decide) ⟨rfl, by decide, by decide⟩

theorem mainStart_refused (before : List Event) (client : ClientId) :
    Answered (.codex client (refusal 1) :: .tui client (mainStart 1) :: before) client before
      (refusal 1) :=
  answered_next before (by decide) ⟨rfl, by decide, by decide⟩

theorem threadAnswer_shows (before : List Event) (client : ClientId) :
    Shows (.codex client (threadAnswer 1) :: .tui client (mainStart 1) :: before) someThread
      client :=
  .named (mainStart_answered before client) (by decide) (by decide)

theorem pickerEnds_run : Run pickerEnds (Window.after pickerEnds) :=
  .step (.step (.step (.step (.start false none []) trivial) (by simp [Event.Heard]))
    (by simp [Event.Heard])) (by simp [Event.Heard])

theorem orphaned_run : Run orphaned (Window.after orphaned) :=
  .step (.step (.step (.step (.step (.step (.start false none []) trivial) (by simp [Event.Heard]))
    (by simp [Event.Heard])) (by simp [Event.Heard])) (by simp [Event.Heard]))
    (by simp [Event.Heard])

theorem pickerEnds_unstranded : Unstranded pickerEnds := by
  intro later client before he
  have first : later = [] ∧ client = ⟨2⟩ ∧ before = pickerEnds.tail := by
    cases later with
    | nil =>
      cases he
      exact ⟨rfl, rfl, rfl⟩
    | cons e later => simp [pickerEnds, List.cons_eq_append_iff] at he
  obtain ⟨-, rfl, rfl⟩ := first
  rintro ⟨asker, earlier, thread, -, -, -, ⟨request, opened⟩ | ⟨answer, answered, refused⟩⟩
  · exact (mainStart_answered [.ready] ⟨1⟩).not_open opened
  · obtain ⟨-, -, rfl⟩ := (mainStart_answered [.ready] ⟨1⟩).unique answered
    exact absurd refused (by decide)

/-- A picker's connection ends, and the thread shown can still be delivered to. -/
theorem delivered_after_pickerEnds :
    (((Window.after pickerEnds).selection.admitDelivery someThread true).1 =
      .ok ⟨someThread, 1, true⟩) ∧
    ∃ chooser, Shows pickerEnds someThread chooser ∧ ∀ e ∈ pickerEnds, e ≠ .ended chooser :=
  have admitted : ((Window.after pickerEnds).selection.admitDelivery someThread true).1 =
      .ok ⟨someThread, 1, true⟩ := by decide
  ⟨admitted, ((delivered_to_a_live_thread pickerEnds_run pickerEnds_unstranded).1 _ _ _ admitted).2⟩

/-- **A delivery goes to a thread whose connection has ended**: another connection's switch was
    refused before, and the window took the thread back but not its owner. -/
theorem delivered_after_its_end :
    ¬ ∀ history w, Run history w → ∀ session controlOpen admission,
      (w.selection.admitDelivery session controlOpen).1 = .ok admission →
        ∃ chooser, Shows history session chooser ∧ ∀ e ∈ history, e ≠ .ended chooser := by
  intro claim
  obtain ⟨chooser, shows, live⟩ := claim orphaned _ orphaned_run someThread true
    ⟨someThread, 2, true⟩ (by decide)
  have first : Shows orphaned someThread ⟨1⟩ :=
    (Shows.refused (mainStart_refused _ ⟨2⟩) (by decide)
      (threadAnswer_shows [.ready] ⟨1⟩)).cons rfl
  obtain ⟨-, rfl⟩ := first.unique shows
  exact live _ List.mem_cons_self rfl

end Codex
end ConsensFlow
