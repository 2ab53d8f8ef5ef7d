/-
  File:      ConsensFlow/Words/AnswerNotes.lean
  Subject:   WHAT A PAUSED WINDOW ANSWERED, KEPT (`messages/paused_answers.rs`: `render`, `read`
             and `keep_moved`).

  * `Written`, `restOf`, `toList_render` -- a note the ledger writes, as characters;
  * `divided`, `read_render` -- what is read of it: its reply ends where the words that follow a
    reply first stand;
  * `keepMoved_run` -- what becomes of the rows as the task moves on;
  * **`answer_kept_iff`** -- a note reads back, and moves on with its words, exactly where those words
    first stand where they were put.
-/
import ConsensFlow.Lib.Apart
import ConsensFlow.Telling

namespace ConsensFlow

open Lib Lib.Text

namespace Answered

/-! ## 1. A note as characters -/

/-- A note the ledger writes: a task and a message numbered as they are, a handle as one is made, of
    letters, digits and `-`, and the words of now. -/
structure Written (a : Answered) : Prop where
  number : 0 ≤ a.number ∧ a.number < 2 ^ 63
  tell : 0 ≤ a.tell ∧ a.tell < 2 ^ 63
  handle : '\'' ∉ a.handle.toList
  now : a.then_ ≠ .movedBefore

/-- How a note names its task: paused, or paused before. -/
def stands : Then → String
  | .paused _ => isPausedWords
  | _ => wasPausedWords

/-- The words between a reply and the words the turn ended with. -/
def afterReply : Then → String
  | .paused _ => lastWords
  | _ => endedWith

/-- What a note says after the tell, up to what the window wrote: it wrote the one thing. -/
def opening : Then → String
  | .paused _ => isOverWords
  | .moved => movedOnWords
  | .movedBefore => movedOnBefore

/-- The same, where it wrote other words first. -/
def openingFirst : Then → String
  | .paused _ => isOverAfterAReply
  | _ => movedOnHead ++ movedOnAfterAReply

/-- What a note says after what the window wrote. -/
def closing (number : Int) : Then → String
  | .paused next => tail number next
  | _ => ""

/-- What a note says after the tell. -/
def restOf (a : Answered) : List Char :=
  match a.reply with
  | none => (opening a.then_).toList ++ (a.words.toList ++ (closing a.number a.then_).toList)
  | some reply => (openingFirst a.then_).toList ++ ((reply.toList ++ ((afterReply a.then_).toList ++
      a.words.toList)) ++ (closing a.number a.then_).toList)

/-- A note, as characters. -/
theorem toList_render {a : Answered} (now : a.then_ ≠ .movedBefore) : a.render.toList =
    "T-".toList ++ ((toString a.number).toList ++ ((stands a.then_).toList ++ (a.handle.toList ++
      (turnOnWords.toList ++ ((toString a.tell).toList ++ a.restOf))))) := by
  obtain ⟨number, handle, tell, reply, words, then_⟩ := a
  dsimp only at now ⊢
  unfold render restOf
  cases reply with
  | none =>
    dsimp only
    unfold renderPlain
    cases then_ with
    | movedBefore => exact absurd rfl now
    | paused next =>
      dsimp only [stands, opening, closing]
      simp only [String.toList_append, List.append_assoc]
      rfl
    | moved =>
      dsimp only [stands, opening, closing]
      simp only [String.toList_append, List.append_assoc, String.toList_empty, List.append_nil]
      rfl
  | some reply =>
    dsimp only
    rw [if_neg now]
    unfold renderAfterAReply
    cases then_ with
    | movedBefore => exact absurd rfl now
    | paused next =>
      dsimp only [stands, openingFirst, closing, afterReply]
      simp only [String.toList_append, List.append_assoc]
      rfl
    | moved =>
      dsimp only [stands, openingFirst, closing, afterReply]
      simp only [String.toList_append, List.append_assoc, String.toList_empty, List.append_nil]
      rfl

/-! ## 2. A note read back -/

theorem numberIn_append {n : Int} (fits : 0 ≤ n ∧ n < 2 ^ 63) {c : Char} {more : List Char}
    (next : c.isDigit = false) :
    numberIn ((toString n).toList ++ c :: more) = some (n, c :: more) := by
  have digits : ∀ d ∈ (toString n).toList, d.isDigit = true := by
    obtain ⟨m, rfl⟩ := Int.eq_ofNat_of_zero_le fits.1
    exact fun d one => isDigit_of_repr one
  have no : ¬c.isDigit = true := by
    rw [next]
    exact Bool.false_ne_true
  have in_ : InI64 n := ⟨by have := fits.1; omega, fits.2⟩
  rw [numberIn, List.takeWhile_append_of_pos digits, List.takeWhile_cons_of_neg no, List.append_nil,
    List.dropWhile_append_of_pos digits, List.dropWhile_cons_of_neg no, parseI64_toString in_]
  rfl

def isPaused : Then → Bool
  | .paused _ => true
  | _ => false

/-- Whether a note's task is paused, read from what follows its number. -/
def standing (rest : List Char) : Option (Bool × List Char) :=
  match stripPrefix isPausedWords.toList rest with
  | some rest => some (true, rest)
  | none => (stripPrefix wasPausedWords.toList rest).map fun rest => (false, rest)

theorem standing_stands (then_ : Then) (more : List Char) :
    standing ((stands then_).toList ++ more) = some (isPaused then_, more) := by
  have was : standing (wasPausedWords.toList ++ more) = some (false, more) := by
    have other : stripPrefix isPausedWords.toList (wasPausedWords.toList ++ more) = none := rfl
    rw [standing, other, stripPrefix_append]
    rfl
  have is_ : standing (isPausedWords.toList ++ more) = some (true, more) := by
    rw [standing, stripPrefix_append]
  cases then_ with
  | paused next => exact is_
  | moved => exact was
  | movedBefore => exact was

/-- What the window wrote, read from what follows the tell. -/
def saidIn (number : Int) (handle : String) (tell : Int) (paused : Bool) (rest : List Char) :
    Option Answered :=
  match afterAReply number paused rest with
  | some (reply, words, then_) =>
    some { number, handle, tell, reply := some (String.ofList reply),
           words := String.ofList words, then_ }
  | none => (plainWords number paused rest).map fun (words, then_) =>
    { number, handle, tell, reply := none, words := String.ofList words, then_ }

/-- The rest of a note read, once its number and standing are. -/
def readFrom (body : String) (number : Int) (paused : Bool) (rest : List Char) : Option Answered :=
  (splitOnce turnOnWords.toList rest).bind fun h => (numberIn h.2).bind fun t =>
    (saidIn number (String.ofList h.1) t.1 paused t.2).bind fun said =>
      if said.render == body then some said else none

theorem read_eq (body : String) : read body = (stripPrefix "T-".toList body.toList).bind fun rest =>
    (numberIn rest).bind fun n => (standing n.2).bind fun p => readFrom body n.1 p.1 p.2 := by
  unfold read standing readFrom saidIn
  refine congrArg _ (funext fun rest => congrArg _ (funext fun n => ?_))
  obtain ⟨number, rest⟩ := n
  dsimp only
  cases stripPrefix isPausedWords.toList rest with
  | some rest =>
    show (splitOnce turnOnWords.toList rest).bind _ = (splitOnce turnOnWords.toList rest).bind _
    refine congrArg _ (funext fun h => ?_)
    show (numberIn h.2).bind _ = (numberIn h.2).bind _
    refine congrArg _ (funext fun t => ?_)
    dsimp only
    cases afterAReply number true t.2 <;> rfl
  | none =>
    cases stripPrefix wasPausedWords.toList rest with
    | some rest =>
      show (splitOnce turnOnWords.toList rest).bind _ = (splitOnce turnOnWords.toList rest).bind _
      refine congrArg _ (funext fun h => ?_)
      show (numberIn h.2).bind _ = (numberIn h.2).bind _
      refine congrArg _ (funext fun t => ?_)
      dsimp only
      cases afterAReply number false t.2 <;> rfl
    | none => rfl

theorem stands_begun (then_ : Then) :
    ∃ c more, (stands then_).toList = c :: more ∧ c.isDigit = false := by
  obtain ⟨more, is_⟩ : ∃ more, isPausedWords.toList = ' ' :: more := ⟨_, String.toList_ofList⟩
  obtain ⟨more', was⟩ : ∃ more, wasPausedWords.toList = ',' :: more := ⟨_, String.toList_ofList⟩
  cases then_ with
  | paused next => exact ⟨' ', more, is_, by decide⟩
  | moved => exact ⟨',', more', was, by decide⟩
  | movedBefore => exact ⟨',', more', was, by decide⟩

set_option maxRecDepth 4096 in
theorem movedOnHead_begun : ∃ more, movedOnHead.toList = ')' :: more := ⟨_, String.toList_ofList⟩

set_option maxRecDepth 4096 in
theorem opening_begun (then_ : Then) : ∃ more, (opening then_).toList = ')' :: more := by
  have over_ : ∃ more, isOverWords.toList = ')' :: more := ⟨_, String.toList_ofList⟩
  have before : ∃ more, movedOnBefore.toList = ')' :: more := ⟨_, String.toList_ofList⟩
  obtain ⟨more, begun⟩ := movedOnHead_begun
  cases then_ with
  | paused next => exact over_
  | moved =>
    refine ⟨more ++ movedOnEnded.toList, ?_⟩
    rw [opening, movedOnWords, String.toList_append, begun]
    rfl
  | movedBefore => exact before

theorem openingFirst_begun (then_ : Then) : ∃ more, (openingFirst then_).toList = ')' :: more := by
  have over_ : ∃ more, isOverAfterAReply.toList = ')' :: more := ⟨_, String.toList_ofList⟩
  obtain ⟨more, begun⟩ := movedOnHead_begun
  have moved : ∃ more, (movedOnHead ++ movedOnAfterAReply).toList = ')' :: more := by
    refine ⟨more ++ movedOnAfterAReply.toList, ?_⟩
    rw [String.toList_append, begun]
    rfl
  cases then_ with
  | paused next => exact over_
  | moved => exact moved
  | movedBefore => exact moved

theorem restOf_begun (a : Answered) : ∃ c more, a.restOf = c :: more ∧ c.isDigit = false := by
  unfold restOf
  cases a.reply with
  | none =>
    obtain ⟨more, begun⟩ := opening_begun a.then_
    exact ⟨')', _, by rw [begun]; rfl, by decide⟩
  | some reply =>
    obtain ⟨more, begun⟩ := openingFirst_begun a.then_
    exact ⟨')', _, by rw [begun]; rfl, by decide⟩

/-- What is read of a note is read from what follows the tell. -/
theorem read_parts {a : Answered} (written : Written a) : read a.render =
    (saidIn a.number a.handle a.tell (isPaused a.then_) a.restOf).bind fun said =>
      if said.render == a.render then some said else none := by
  obtain ⟨c, more, begun, other⟩ := stands_begun a.then_
  obtain ⟨d, more', begun', other'⟩ := restOf_begun a
  rw [read_eq, toList_render written.now, stripPrefix_append, Option.bind_some, begun,
    List.cons_append, numberIn_append written.number other, Option.bind_some, ← List.cons_append,
    ← begun, standing_stands, Option.bind_some, readFrom,
    splitOnce_head (c := '\'') rfl written.handle, Option.bind_some, begun',
    numberIn_append written.tell other', Option.bind_some, ← begun', String.ofList_toList]

/-! ## 3. What the window wrote -/

set_option maxRecDepth 4096 in
theorem tail_human (number : Int) : (tail number .human).toList.reverse.take 2 = ['.', 'e'] :=
  (congrArg (fun l => l.reverse.take 2) String.toList_ofList).trans rfl

theorem tail_chief (number : Int) : (tail number .chief).toList.reverse.take 2 = ['.', '"'] := by
  have form : tail number .chief = (toString "\n\nIf that is the result, take it: cf task finish T-" ++
    toString number ++ toString ". To send it on: cf task resume T-" ++ toString number) ++
      toString " \"…\"." := rfl
  have last : (toString " \"…\".").toList = [' ', '"', '…', '"', '.'] := String.toList_ofList
  rw [form, String.toList_append, List.reverse_append, last]
  rfl

theorem pausedTail_append (number : Int) (next : Next) (kept : List Char) :
    pausedTail number (kept ++ (tail number next).toList) = some (kept, .paused next) := by
  have human := stripSuffix_append kept (tail number .human).toList
  have other : stripSuffix (tail number .chief).toList (kept ++ (tail number .human).toList) = none :=
    stripSuffix_apart (tail_chief number) (tail_human number) rfl rfl (by decide) kept
  unfold pausedTail
  cases next with
  | chief =>
    rw [List.findSome?_cons, stripSuffix_append]
    rfl
  | human =>
    rw [List.findSome?_cons, other, List.findSome?_cons, human]
    rfl

/-- The words that follow a tell where the window wrote others first are not those where it did not. -/
theorem opening_other (more : List Char) :
    stripPrefix isOverAfterAReply.toList (isOverWords.toList ++ more) = none ∧
      stripPrefix movedOnAfterAReply.toList (movedOnEnded.toList ++ more) = none := by
  have one : isOverAfterAReply.toList = _ := String.toList_ofList
  have two : isOverWords.toList = _ := String.toList_ofList
  have three : movedOnAfterAReply.toList = _ := String.toList_ofList
  have four : movedOnEnded.toList = _ := String.toList_ofList
  rw [one, two, three, four]
  exact ⟨rfl, rfl⟩

theorem afterAReply_paused (number : Int) (rest : List Char) : afterAReply number true rest =
    (stripPrefix isOverAfterAReply.toList rest).bind fun rest =>
      (pausedTail number rest).bind fun kept =>
        (splitOnce lastWords.toList kept.1).bind fun parts => some (parts.1, parts.2, kept.2) := by
  unfold afterAReply
  rw [if_pos rfl]
  rfl

theorem afterAReply_moved (number : Int) (rest : List Char) : afterAReply number false rest =
    (stripPrefix movedOnHead.toList rest).bind fun rest =>
      (stripPrefix movedOnAfterAReply.toList rest).bind fun rest =>
        (splitOnce endedWith.toList rest).bind fun parts => some (parts.1, parts.2, .moved) := by
  unfold afterAReply
  rw [if_neg Bool.false_ne_true]
  rfl

/-- A note with no reply. -/
theorem saidIn_plain {a : Answered} (written : Written a) (none_ : a.reply = none) :
    saidIn a.number a.handle a.tell (isPaused a.then_) a.restOf = some a := by
  obtain ⟨number, handle, tell, reply, words, then_⟩ := a
  subst none_
  have rest_ : restOf ⟨number, handle, tell, none, words, then_⟩ =
      (opening then_).toList ++ (words.toList ++ (closing number then_).toList) := rfl
  dsimp only
  rw [rest_]
  cases then_ with
  | movedBefore => exact absurd rfl written.now
  | paused next =>
    have other : afterAReply number true (isOverWords.toList ++ (words.toList ++
        (tail number next).toList)) = none := by
      rw [afterAReply_paused, (opening_other _).1, Option.bind_none]
    have here : plainWords number true (isOverWords.toList ++ (words.toList ++
        (tail number next).toList)) = some (words.toList, .paused next) := by
      rw [plainWords, if_pos rfl, stripPrefix_append, Option.bind_some, pausedTail_append]
    rw [isPaused, opening, closing, saidIn, other, here, Option.map_some]
    dsimp only
    rw [String.ofList_toList]
  | moved =>
    have other : afterAReply number false (movedOnWords.toList ++ words.toList) = none := by
      rw [afterAReply_moved, movedOnWords, String.toList_append, List.append_assoc,
        stripPrefix_append, Option.bind_some, (opening_other _).2, Option.bind_none]
    have here : plainWords number false (movedOnWords.toList ++ words.toList) =
        some (words.toList, .moved) := by
      rw [plainWords, if_neg Bool.false_ne_true, stripPrefix_append]
    have closed : closing number .moved = "" := rfl
    have on : isPaused .moved = false := rfl
    rw [on, opening, closed, String.toList_empty, List.append_nil, saidIn, other, here,
      Option.map_some]
    dsimp only
    rw [String.ofList_toList]

/-- A note with a reply: it ends where the words that follow a reply first stand. -/
theorem saidIn_reply {a : Answered} (written : Written a) {reply : String} {first last : List Char}
    (some_ : a.reply = some reply)
    (divided : First (afterReply a.then_).toList
      (reply.toList ++ ((afterReply a.then_).toList ++ a.words.toList)) first last) :
    saidIn a.number a.handle a.tell (isPaused a.then_) a.restOf =
      some { a with reply := some (String.ofList first), words := String.ofList last } := by
  obtain ⟨number, handle, tell, reply', words, then_⟩ := a
  dsimp only at some_ divided ⊢
  subst some_
  have rest_ : restOf ⟨number, handle, tell, some reply, words, then_⟩ =
      (openingFirst then_).toList ++ ((reply.toList ++ ((afterReply then_).toList ++
        words.toList)) ++ (closing number then_).toList) := rfl
  rw [rest_]
  cases then_ with
  | movedBefore => exact absurd rfl written.now
  | paused next =>
    have parts : afterAReply number true (isOverAfterAReply.toList ++ ((reply.toList ++
        (lastWords.toList ++ words.toList)) ++ (tail number next).toList)) =
          some (first, last, .paused next) := by
      have there : splitOnce lastWords.toList (reply.toList ++ (lastWords.toList ++ words.toList)) =
          some (first, last) := splitOnce_iff.2 divided
      rw [afterAReply_paused, stripPrefix_append, Option.bind_some, pausedTail_append,
        Option.bind_some, there, Option.bind_some]
    have closed : closing number (.paused next) = tail number next := rfl
    have on : isPaused (.paused next) = true := rfl
    have opened : openingFirst (.paused next) = isOverAfterAReply := rfl
    have after : afterReply (.paused next) = lastWords := rfl
    rw [on, opened, closed, after, saidIn, parts]
  | moved =>
    have parts : afterAReply number false ((movedOnHead ++ movedOnAfterAReply).toList ++
        (reply.toList ++ (endedWith.toList ++ words.toList))) = some (first, last, .moved) := by
      have there : splitOnce endedWith.toList (reply.toList ++ (endedWith.toList ++ words.toList)) =
          some (first, last) := splitOnce_iff.2 divided
      rw [afterAReply_moved, String.toList_append, List.append_assoc, stripPrefix_append,
        Option.bind_some, stripPrefix_append, Option.bind_some, there, Option.bind_some]
    have closed : closing number .moved = "" := rfl
    have on : isPaused .moved = false := rfl
    have opened : openingFirst .moved = movedOnHead ++ movedOnAfterAReply := rfl
    have after : afterReply .moved = endedWith := rfl
    rw [on, opened, closed, after, String.toList_empty, List.append_nil, saidIn, parts]

/-- The words that follow a reply first stand where they were put. -/
def Plain (a : Answered) : Prop :=
  ∀ reply, a.reply = some reply →
    First (afterReply a.then_).toList
      (reply.toList ++ ((afterReply a.then_).toList ++ a.words.toList)) reply.toList a.words.toList

/-- **A note reads back exactly where the words that follow its reply first stand where they were
    put.** -/
theorem read_render_iff {a : Answered} (written : Written a) :
    read a.render = some a ↔ Plain a := by
  rw [read_parts written]
  cases reply_ : a.reply with
  | none =>
    rw [saidIn_plain written reply_, Option.bind_some, if_pos (beq_iff_eq.2 rfl)]
    refine ⟨fun _ reply some_ => ?_, fun _ => rfl⟩
    rw [reply_] at some_
    cases some_
  | some reply =>
    obtain ⟨first, last, divided⟩ : ∃ first last, First (afterReply a.then_).toList
        (reply.toList ++ ((afterReply a.then_).toList ++ a.words.toList)) first last := by
      cases found : splitOnce (afterReply a.then_).toList
          (reply.toList ++ ((afterReply a.then_).toList ++ a.words.toList)) with
      | none => exact absurd rfl (splitOnce_none.1 found reply.toList a.words.toList)
      | some parts => exact ⟨parts.1, parts.2, splitOnce_iff.1 found⟩
    rw [saidIn_reply written reply_ divided, Option.bind_some]
    constructor
    · intro back reply' some_
      rw [reply_] at some_
      cases some_
      have same := Option.some.inj (Option.ite_none_right_eq_some.1 back).2
      have first_ : String.ofList first = reply :=
        Option.some.inj ((congrArg Answered.reply same).trans reply_)
      have last_ : String.ofList last = a.words := congrArg Answered.words same
      have chars : first = reply.toList ∧ last = a.words.toList := by
        rw [← first_, ← last_, String.toList_ofList, String.toList_ofList]
        exact ⟨rfl, rfl⟩
      rw [chars.1, chars.2] at divided
      exact divided
    · intro plain
      have there := splitOnce_iff.2 divided
      rw [splitOnce_iff.2 (plain reply reply_)] at there
      cases there
      rw [String.ofList_toList, String.ofList_toList, ← reply_]
      exact if_pos (beq_iff_eq.2 rfl)

end Answered

/-! ## 4. The rows of a task that moves on -/

open Txn

/-- A note as one round of the task's moving on leaves it: `said` is what note `id` says. -/
def movedBy (m : Message) (x : Nat × Answered) : Message :=
  match x.2.then_ with
  | .paused _ =>
    if m.id == x.1 && m.ownNote then { m with body := Answered.render { x.2 with then_ := .moved } }
    else m
  | _ => m

/-- One round of the task's moving on. -/
def moveOn (x : Nat × Answered) : DeskM Unit :=
  match x.2.then_ with
  | .paused _ =>
    setNote x.1 fun m => { m with body := Answered.render { x.2 with then_ := .moved } }
  | _ => pure ()

theorem keepMoved_eq (task : Task) : keepMoved task = (do
    let s ← state
    (s.answerNotes task fun m => m.state == .queued).forM moveOn) := rfl

theorem moveOn_run (x : Nat × Answered) (s : Ledger) : ∃ s', (moveOn x).run s = .ok ((), s') ∧
    ∀ n, s'.messages.get? n = (s.messages.get? n).map fun m => movedBy m x := by
  unfold moveOn movedBy
  cases x.2.then_ with
  | paused next =>
    refine ⟨s.withMessages _ _, rfl, fun n => ?_⟩
    show (s.messages.alter _ _).get? n = _
    rw [Table.get?_alter]
    rfl
  | moved => exact ⟨s, rfl, fun n => by cases s.messages.get? n <;> rfl⟩
  | movedBefore => exact ⟨s, rfl, fun n => by cases s.messages.get? n <;> rfl⟩

/-- What the task's moving on makes of the notes given it, one after another. -/
theorem moved_rounds (xs : List (Nat × Answered)) (s : Ledger) : ∃ s',
    (xs.forM moveOn).run s = .ok ((), s') ∧
    ∀ n, s'.messages.get? n = (s.messages.get? n).map fun m => xs.foldl movedBy m := by
  induction xs generalizing s with
  | nil => exact ⟨s, rfl, fun n => by cases s.messages.get? n <;> rfl⟩
  | cons x xs ih =>
    obtain ⟨s1, ran, rows⟩ := moveOn_run x s
    obtain ⟨s2, ran', rows'⟩ := ih s1
    refine ⟨s2, (run_bind_of_ok ran).trans ran', fun n => ?_⟩
    rw [rows', rows, Option.map_map]
    rfl

/-- A row as the task's moving on leaves it. -/
def movedRow (task : Task) (m : Message) : Message :=
  if m.task == some task.id && m.recipient == task.requester && m.ownNote && m.state == .queued then
    match Answered.read m.body with
    | some said => movedBy m (m.id, said)
    | none => m
  else m

theorem movedBy_other {xs : List (Nat × Answered)} {m : Message} (other : ∀ x ∈ xs, m.id ≠ x.1) :
    xs.foldl movedBy m = m := by
  induction xs with
  | nil => rfl
  | cons x xs ih =>
    have here : movedBy m x = m := by
      unfold movedBy
      cases x.2.then_ with
      | paused next =>
        have no : (m.id == x.1) = false := beq_eq_false_iff_ne.2 (other x List.mem_cons_self)
        dsimp only
        rw [no]
        rfl
      | moved => rfl
      | movedBefore => rfl
    rw [List.foldl_cons, here]
    exact ih fun y one => other y (List.mem_cons_of_mem _ one)

/-- What a row is read as saying, where it is a queued note of a window's answer. -/
def noteRead (task : Task) (m : Message) : Option (Nat × Answered) :=
  if m.task == some task.id && m.recipient == task.requester && m.ownNote && m.state == .queued then
    (Answered.read m.body).map fun said => (m.id, said)
  else none

theorem noteRead_id {task : Task} {m : Message} {x : Nat × Answered} (h : noteRead task m = some x) :
    x.1 = m.id := by
  unfold noteRead at h
  split at h
  · obtain ⟨said, -, rfl⟩ := Option.map_eq_some_iff.1 h
    rfl
  · cases h

theorem movedRow_eq (task : Task) (m : Message) :
    movedRow task m = (noteRead task m).elim m (movedBy m) := by
  unfold movedRow noteRead
  split
  · cases Answered.read m.body <;> rfl
  · rfl

theorem movedBy_id (m : Message) (x : Nat × Answered) : (movedBy m x).id = m.id := by
  unfold movedBy
  cases x.2.then_ with
  | paused next => dsimp only; split <;> rfl
  | moved => rfl
  | movedBefore => rfl

/-- A row changes by what it is read as itself, and by no other's. -/
theorem notes_foldl {s : Ledger} (task : Task) {m : Message} (one : m ∈ s.messages.rows) :
    (s.answerNotes task fun m => m.state == .queued).foldl movedBy m = movedRow task m := by
  obtain ⟨before, after, rows⟩ := List.append_of_mem one
  have rising := s.messages.rising
  rw [rows, List.map_append, List.pairwise_append, List.map_cons, List.pairwise_cons] at rising
  obtain ⟨-, ⟨later, -⟩, earlier⟩ := rising
  have others (xs : List Message) (apart_ : ∀ r ∈ xs, m.id ≠ r.id) (m' : Message)
      (same : m'.id = m.id) : (xs.filterMap (noteRead task)).foldl movedBy m' = m' := by
    refine movedBy_other fun x there => ?_
    obtain ⟨r, in_, read_⟩ := List.mem_filterMap.1 there
    rw [noteRead_id read_, same]
    exact apart_ r in_
  have notes : (s.answerNotes task fun m => m.state == .queued) =
      s.messages.rows.filterMap (noteRead task) := rfl
  have ahead := others before fun r in_ =>
    Nat.ne_of_gt (earlier _ (List.mem_map_of_mem in_) _ List.mem_cons_self)
  have behind := others after fun r in_ => Nat.ne_of_lt (later _ (List.mem_map_of_mem in_))
  rw [notes, rows, List.filterMap_append, List.foldl_append, ahead m rfl, movedRow_eq]
  cases read_ : noteRead task m with
  | none =>
    rw [List.filterMap_cons_none read_]
    exact behind m rfl
  | some x =>
    rw [List.filterMap_cons_some read_, List.foldl_cons]
    exact behind _ (movedBy_id m x)

/-- **A task that moves on keeps its rows**, but for the words of the notes it is given. -/
theorem keepMoved_run (task : Task) (s : Ledger) : ∃ s', (keepMoved task).run s = .ok ((), s') ∧
    ∀ m ∈ s.messages.rows, s'.messages.get? m.id = some (movedRow task m) := by
  obtain ⟨s', ran, rows⟩ := moved_rounds (s.answerNotes task fun m => m.state == .queued) s
  have whole : (keepMoved task).run s = .ok ((), s') := by
    rw [keepMoved_eq]
    exact (run_bind_of_ok rfl).trans ran
  refine ⟨s', whole, fun m one => ?_⟩
  have here : s.messages.get? m.id = some m := Table.get?_key one
  rw [rows, here, Option.map_some, notes_foldl task one]

/-! ## 5. An answer kept -/

/-- The row rendered for a paused task becomes the row rendered for one that has moved on, with the
    same reply and the same words, in every ledger. -/
def KeepsMoved (a : Answered) : Prop :=
  ∀ (s : Ledger) (task : Task) (m : Message), m ∈ s.messages.rows → m.task = some task.id →
    m.recipient = task.requester → m.ownNote = true → m.state = .queued → m.body = a.render →
    ∃ s', (keepMoved task).run s = .ok ((), s') ∧
      s'.messages.get? m.id = some { m with body := Answered.render { a with then_ := .moved } }

theorem keepsMoved {a : Answered} {next : Next} (paused : a.then_ = .paused next)
    (back : Answered.read a.render = some a) : KeepsMoved a := by
  intro s task m one about to_ own queued body
  obtain ⟨s', ran, rows⟩ := keepMoved_run task s
  refine ⟨s', ran, (rows m one).trans (congrArg some ?_)⟩
  have note : (m.task == some task.id && m.recipient == task.requester && m.ownNote &&
      m.state == .queued) = true := by
    rw [about, to_, own, queued]
    simp
  have this_ : (m.id == m.id && m.ownNote) = true := by
    rw [own, beq_self_eq_true]
    rfl
  rw [movedRow, if_pos note, body, back]
  dsimp only
  rw [movedBy]
  dsimp only
  rw [paused]
  dsimp only
  rw [if_pos this_]

/-- **What a window answered is kept with its words exactly where the words that follow its reply
    first stand where they were put**: the note reads back, and, of a paused task, its row becomes
    the row of a task that has moved on. -/
theorem answer_kept_iff (a : Answered) (written : Answered.Written a) :
    (Answered.read a.render = some a ∧ (∀ next, a.then_ = .paused next → KeepsMoved a)) ↔
      Answered.Plain a := by
  rw [← Answered.read_render_iff written]
  exact ⟨fun kept => kept.1, fun back => ⟨back, fun next paused => keepsMoved paused back⟩⟩

/-- A window that wrote `reply` first, and then that it was done. -/
def answeredWith (reply : String) : Answered where
  number := 3
  handle := "zeus"
  tell := 7
  reply := some reply
  words := "done"
  then_ := .paused .chief

theorem answeredWith_written (reply : String) : Answered.Written (answeredWith reply) := by
  have three : (0 : Int) ≤ 3 ∧ (3 : Int) < 2 ^ 63 := by decide
  have seven : (0 : Int) ≤ 7 ∧ (7 : Int) < 2 ^ 63 := by decide
  have plain : '\'' ∉ "zeus".toList := by decide
  exact ⟨three, seven, plain, fun h => (by cases h)⟩

theorem answer_kept_noted :
    Answered.read (answeredWith "noted").render = some (answeredWith "noted") ∧
      ∀ next, (answeredWith "noted").then_ = .paused next → KeepsMoved (answeredWith "noted") := by
  refine (answer_kept_iff _ (answeredWith_written "noted")).2 fun reply some_ => ?_
  cases some_
  exact First.of_head (c := '\n') rfl (by decide)

/-- A reply that quotes the words that follow a reply. -/
def quotingReply : String := "It reads:" ++ lastWords ++ "all is well."

theorem answer_quoted_split : Answered.Written (answeredWith quotingReply) ∧
    Answered.read (answeredWith quotingReply).render ≠ some (answeredWith quotingReply) := by
  have written := answeredWith_written quotingReply
  refine ⟨written, fun back => ?_⟩
  have plain := (Answered.read_render_iff written).1 back quotingReply rfl
  have short := plain.least "It reads:".toList
    ("all is well.".toList ++ (lastWords.toList ++ "done".toList)) (by
      unfold quotingReply
      simp only [String.toList_append, List.append_assoc]
      rfl)
  exact absurd short (by decide)

end ConsensFlow
