/-
  File:      ConsensFlow/Bridge/BoundedLines.lean
  Subject:   THE LINES THE BRIDGE READS (`read_bounded_line`): a stream comes in buffers of any
             length, and is cut at its newlines, no line longer than the bound.

  * `BufRead` -- the buffers a reader fills one after the other, none of them empty before the end;
  * `readBoundedLine` -- one call, with the flag it carries to the next;
  * `frames` -- what the stream is, cut at its newlines with nothing of buffers in it;
  * `readBoundedLine_next` -- one call takes the first frame of what is left, in whatever buffers;
  * **`frames_split_alike`** -- so every run of calls reads the frames, and then the end.

  Two lengths of one line are added: neither passes `isize::MAX`, so the sum never saturates.
-/
import ConsensFlow.Lib.Lines

namespace ConsensFlow
namespace Bridge

open Lib.Lines

/-! ## 1. A reader's buffers -/

/-- What a buffered reader will hold, one buffer after the other: an empty one is the end. -/
structure BufRead where
  buffers : List (List UInt8)
  filled : ∀ buffer ∈ buffers, buffer ≠ []

namespace BufRead

/-- The bytes still to be read. -/
def bytes (r : BufRead) : List UInt8 := r.buffers.flatten

/-- What is in the buffer; nothing at the end. -/
def fillBuf (r : BufRead) : List UInt8 := r.buffers.headD []

/-- `n` bytes of the buffer are read; a buffer read to its end is filled anew. -/
def consume (r : BufRead) (n : Nat) : BufRead where
  buffers := match r.buffers with
    | [] => []
    | buffer :: rest => if n < buffer.length then buffer.drop n :: rest else rest
  filled := by
    obtain ⟨buffers, filled⟩ := r
    cases buffers with
    | nil => exact fun buffer h => absurd h List.not_mem_nil
    | cons first rest =>
      intro buffer h
      dsimp only at h
      split at h
      · next hn =>
        rcases List.mem_cons.1 h with rfl | h
        · exact List.ne_nil_of_length_pos (by rw [List.length_drop]; omega)
        · exact filled buffer (List.mem_cons_of_mem _ h)
      · exact filled buffer (List.mem_cons_of_mem _ h)

theorem bytes_fillBuf (r : BufRead) :
    ∃ after, r.bytes = r.fillBuf ++ after ∧ (r.fillBuf = [] → after = []) := by
  obtain ⟨buffers, filled⟩ := r
  cases buffers with
  | nil => exact ⟨[], rfl, fun _ => rfl⟩
  | cons first rest =>
    exact ⟨rest.flatten, rfl, fun h => absurd h (filled first List.mem_cons_self)⟩

theorem bytes_consume {r : BufRead} {n : Nat} (h : n ≤ r.fillBuf.length) :
    (r.consume n).bytes = r.bytes.drop n := by
  obtain ⟨buffers, filled⟩ := r
  cases buffers with
  | nil => simp [bytes, consume]
  | cons first rest =>
    change n ≤ first.length at h
    simp only [bytes, consume, List.flatten_cons, List.drop_append_of_le_length h]
    split
    · rfl
    · next hn =>
      rw [List.drop_of_length_le (Nat.le_of_not_lt hn), List.nil_append]

/-- The whole buffer read, there is one less to come. -/
theorem consume_shorter {r : BufRead} (h : r.fillBuf ≠ []) :
    (r.consume r.fillBuf.length).buffers.length < r.buffers.length := by
  obtain ⟨buffers, filled⟩ := r
  cases buffers with
  | nil => exact absurd rfl h
  | cons first rest => simp [consume, fillBuf]

end BufRead

/-! ## 2. One call -/

inductive BoundedLine where
  | complete (line : List UInt8)
  | overflow
  | unterminated
  | eof
  deriving DecidableEq, Repr

def newline : UInt8 := 10
def carriageReturn : UInt8 := 13

/-- `trim_line_ending`. -/
def trimLineEnding (line : List UInt8) : List UInt8 :=
  let line := if line.getLast? = some newline then line.dropLast else line
  if line.getLast? = some carriageReturn then line.dropLast else line

/-- Where the first newline is. -/
def newlineAt (available : List UInt8) : Option Nat := available.findIdx? (· == newline)

/-- The rest of a line that was too long goes by: what is left after it; none where the end comes
    first. -/
def discardLine (r : BufRead) : Option BufRead :=
  if _ : r.fillBuf = [] then none
  else
    match newlineAt r.fillBuf with
    | some at_ => some (r.consume (at_ + 1))
    | none => discardLine (r.consume r.fillBuf.length)
termination_by r.buffers.length
decreasing_by exact BufRead.consume_shorter (by assumption)

/-- The line is gathered, buffer by buffer: what it is, what is left, and whether its rest is still
    to be discarded. -/
def gatherLine (maxBytes : Nat) (r : BufRead) (line : List UInt8) : BoundedLine × BufRead × Bool :=
  if _ : r.fillBuf = [] then (if line.isEmpty then .eof else .unterminated, r, false)
  else
    match newlineAt r.fillBuf with
    | some at_ =>
      if line.length + at_ > maxBytes then (.overflow, r.consume (at_ + 1), false)
      else (.complete (trimLineEnding (line ++ r.fillBuf.take at_)), r.consume (at_ + 1), false)
    | none =>
      if line.length + r.fillBuf.length > maxBytes then
        (.overflow, r.consume r.fillBuf.length, true)
      else gatherLine maxBytes (r.consume r.fillBuf.length) (line ++ r.fillBuf)
termination_by r.buffers.length
decreasing_by exact BufRead.consume_shorter (by assumption)

/-- `read_bounded_line`: the outcome, the reader after it, and the flag. -/
def readBoundedLine (r : BufRead) (maxBytes : Nat) (discarding : Bool) :
    BoundedLine × BufRead × Bool :=
  if discarding then
    match discardLine r with
    -- the end comes while it discards: the flag stays
    | none => (.eof, ⟨[], fun _ h => absurd h List.not_mem_nil⟩, true)
    | some r => gatherLine maxBytes r []
  else gatherLine maxBytes r []

/-- The outcomes of so many calls, as `start_reader` makes them: the flag goes from one to the
    next. -/
def outcomes (maxBytes : Nat) : Nat → BufRead → Bool → List BoundedLine
  | 0, _, _ => []
  | n + 1, r, discarding =>
    let (outcome, r, discarding) := readBoundedLine r maxBytes discarding
    outcome :: outcomes maxBytes n r discarding

/-! ## 3. The frames of a stream -/

/-- A line with no newline in it, without the return that may end it. -/
def withoutReturn (line : List UInt8) : List UInt8 :=
  if line.getLast? = some carriageReturn then line.dropLast else line

/-- What a line that ends is. -/
def frameOf (maxBytes : Nat) (line : List UInt8) : BoundedLine :=
  if line.length ≤ maxBytes then .complete (withoutReturn line) else .overflow

/-- What is after the last newline. -/
def restOf (maxBytes : Nat) (rest : List UInt8) : List BoundedLine :=
  if rest = [] then [] else if rest.length ≤ maxBytes then [.unterminated] else [.overflow]

/-- **The frames of a stream**, cut at its newlines. -/
def frames (maxBytes : Nat) (stream : List UInt8) : List BoundedLine :=
  let (lines, rest) := split newline stream
  lines.map (frameOf maxBytes) ++ restOf maxBytes rest

/-! ## 4. A call takes the next frame -/

section Next

variable {maxBytes : Nat} {r : BufRead} {line : List UInt8}

/-- The next frame of a stream, and what is left after it. -/
def nextFrame (maxBytes : Nat) (stream : List UInt8) : BoundedLine × List UInt8 :=
  match newlineAt stream with
  | some at_ => (frameOf maxBytes (stream.take at_), stream.drop (at_ + 1))
  | none => ((restOf maxBytes stream).headD .eof, [])

/-- What is left to be read as frames: all of it, or what follows the line being discarded. -/
def left (discarding : Bool) (stream : List UInt8) : List UInt8 :=
  if discarding then
    match newlineAt stream with
    | some at_ => stream.drop (at_ + 1)
    | none => []
  else stream

theorem newlineAt_none {s : List UInt8} : newlineAt s = none ↔ newline ∉ s := by
  simp only [newlineAt, List.findIdx?_eq_none_iff, beq_eq_false_iff_ne]
  exact ⟨fun h hm => h _ hm rfl, fun h x hx e => h (e ▸ hx)⟩

theorem newlineAt_append {s t : List UInt8} (h : newline ∉ s) :
    newlineAt (s ++ t) = (newlineAt t).map (· + s.length) := by
  have none_ : s.findIdx? (· == newline) = none := newlineAt_none.2 h
  simp only [newlineAt, List.findIdx?_append, none_, Option.none_or]

theorem newlineAt_some {s : List UInt8} {at_ : Nat} (h : newlineAt s = some at_) :
    at_ < s.length ∧ newline ∉ s.take at_ ∧ s = s.take at_ ++ newline :: s.drop (at_ + 1) := by
  obtain ⟨lt, here, before⟩ := List.findIdx?_eq_some_iff_getElem.1 h
  refine ⟨lt, fun hm => ?_, ?_⟩
  · obtain ⟨j, hj, e⟩ := List.getElem_of_mem hm
    rw [List.length_take] at hj
    rw [List.getElem_take] at e
    exact before j (by omega) (beq_iff_eq.2 e)
  · rw [← beq_iff_eq.1 here, ← List.drop_eq_getElem_cons lt, List.take_append_drop]

/-- A newline in what comes first is the stream's first. -/
theorem newlineAt_here {s t : List UInt8} {at_ : Nat} (h : newlineAt s = some at_) :
    newlineAt (s ++ t) = some at_ := by
  have here : s.findIdx? (· == newline) = some at_ := h
  simp only [newlineAt, List.findIdx?_append, here, Option.some_or]

theorem trimLineEnding_eq (h : newline ∉ line) : trimLineEnding line = withoutReturn line := by
  have last : line.getLast? ≠ some newline := fun e => h (List.mem_of_getLast? e)
  simp only [trimLineEnding, if_neg last, withoutReturn]

theorem frames_line {s : List UInt8} {at_ : Nat} (h : newlineAt s = some at_) :
    frames maxBytes s =
      frameOf maxBytes (s.take at_) :: frames maxBytes (s.drop (at_ + 1)) := by
  obtain ⟨-, before, whole⟩ := newlineAt_some h
  have cut : split newline s = (s.take at_ :: (split newline (s.drop (at_ + 1))).1,
      (split newline (s.drop (at_ + 1))).2) := by
    conv_lhs => rw [whole]
    exact split_line before
  simp only [frames, cut, List.map_cons, List.cons_append]

theorem frames_rest {s : List UInt8} (h : newlineAt s = none) :
    frames maxBytes s = restOf maxBytes s := by
  simp only [frames, split_of_not_mem (newlineAt_none.1 h), List.map_nil, List.nil_append]

/-- A line being discarded ends at its newline, in whatever buffer that is. -/
theorem discardLine_left (r : BufRead) :
    match discardLine r with
    | some r' => ∃ at_, newlineAt r.bytes = some at_ ∧ r'.bytes = r.bytes.drop (at_ + 1)
    | none => newlineAt r.bytes = none := by
  fun_induction discardLine r with
  | case1 r ended =>
    obtain ⟨after, whole, none_⟩ := r.bytes_fillBuf
    rw [whole, ended, none_ ended]
    rfl
  | case2 r _ at_ here =>
    obtain ⟨after, whole, -⟩ := r.bytes_fillBuf
    refine ⟨at_, by rw [whole, newlineAt_here here], ?_⟩
    exact BufRead.bytes_consume (newlineAt_some here).1
  | case3 r _ none_ ih =>
    obtain ⟨after, whole, -⟩ := r.bytes_fillBuf
    have rest : (r.consume r.fillBuf.length).bytes = after := by
      rw [BufRead.bytes_consume le_rfl, whole, List.drop_left]
    have goes : newlineAt r.bytes = (newlineAt after).map (· + r.fillBuf.length) := by
      rw [whole, newlineAt_append (newlineAt_none.1 none_)]
    rw [rest] at ih
    split
    · next r' found =>
      rw [found] at ih
      obtain ⟨at_, there, bytes⟩ := ih
      refine ⟨at_ + r.fillBuf.length, by rw [goes, there]; rfl, ?_⟩
      rw [bytes, whole, Nat.add_right_comm, Nat.add_comm, List.drop_append]
      simp
    · next found =>
      rw [found] at ih
      rw [goes, ih]
      rfl

/-- What is left of a line found too long is discarded up to its newline. -/
theorem nextFrame_long {s t : List UInt8} (h : newline ∉ s) (long : maxBytes < s.length) :
    nextFrame maxBytes (s ++ t) = (.overflow, left true t) := by
  simp only [nextFrame, newlineAt_append h, left, if_true]
  cases ht : newlineAt t with
  | none =>
    have some_ : s ++ t ≠ [] := fun e => by simp [(List.append_eq_nil_iff.1 e).1] at long
    have over_ : ¬ (s ++ t).length ≤ maxBytes := by rw [List.length_append]; omega
    simp only [Option.map_none, restOf, if_neg some_, if_neg over_, List.headD_cons]
  | some at_ =>
    have lt := (newlineAt_some ht).1
    have over_ : ¬ ((s ++ t).take (at_ + s.length)).length ≤ maxBytes := by
      rw [List.length_take, List.length_append]
      omega
    simp only [Option.map_some, frameOf, if_neg over_, Prod.mk.injEq, true_and]
    rw [Nat.add_right_comm, Nat.add_comm, List.drop_append]
    simp

/-- **A line gathered is the next frame**, whatever was gathered of it before. -/
theorem gatherLine_next (r : BufRead) (line : List UInt8) (h : newline ∉ line)
    (short : line.length ≤ maxBytes) :
    ((gatherLine maxBytes r line).1,
      left (gatherLine maxBytes r line).2.2 (gatherLine maxBytes r line).2.1.bytes) =
      nextFrame maxBytes (line ++ r.bytes) := by
  obtain ⟨after, whole, last⟩ := r.bytes_fillBuf
  fun_induction gatherLine maxBytes r line generalizing after with
  | case1 r line ended =>
    have nothing : r.bytes = [] := by rw [whole, ended, last ended]; rfl
    rw [nothing, List.append_nil, nextFrame, newlineAt_none.2 h]
    simp only [left, Bool.false_eq_true, if_false]
    cases line with
    | nil => rfl
    | cons a line => simp only [restOf, if_neg (List.cons_ne_nil a line), if_pos short]; rfl
  | case2 r line _ at_ here long =>
    obtain ⟨lt, -, -⟩ := newlineAt_some here
    have goes : newlineAt (line ++ r.bytes) = some (at_ + line.length) := by
      rw [newlineAt_append h, whole, newlineAt_here here]
      rfl
    have there : ¬ ((line ++ r.bytes).take (at_ + line.length)).length ≤ maxBytes := by
      rw [List.length_take, List.length_append, whole, List.length_append]
      omega
    rw [nextFrame, goes]
    simp only [frameOf, if_neg there, left, Bool.false_eq_true, if_false]
    rw [BufRead.bytes_consume lt, Nat.add_right_comm, Nat.add_comm, List.drop_append]
    simp
  | case3 r line _ at_ here fits =>
    obtain ⟨lt, before, -⟩ := newlineAt_some here
    have goes : newlineAt (line ++ r.bytes) = some (at_ + line.length) := by
      rw [newlineAt_append h, whole, newlineAt_here here]
      rfl
    have taken : (line ++ r.bytes).take (at_ + line.length) = line ++ r.fillBuf.take at_ := by
      rw [Nat.add_comm, List.take_length_add_append, whole,
        List.take_append_of_le_length (Nat.le_of_lt lt)]
    have within : (line ++ r.fillBuf.take at_).length ≤ maxBytes := by
      rw [List.length_append, List.length_take]
      omega
    have clear : newline ∉ line ++ r.fillBuf.take at_ := fun hm =>
      (List.mem_append.1 hm).elim h before
    rw [nextFrame, goes]
    simp only [taken, frameOf, if_pos within, trimLineEnding_eq clear, left, Bool.false_eq_true,
      if_false]
    rw [BufRead.bytes_consume lt, Nat.add_right_comm, Nat.add_comm, List.drop_append]
    simp
  | case4 r line _ none_ long =>
    have clear : newline ∉ line ++ r.fillBuf := fun hm =>
      (List.mem_append.1 hm).elim h (newlineAt_none.1 none_)
    rw [whole, ← List.append_assoc, nextFrame_long clear (by rw [List.length_append]; omega),
      BufRead.bytes_consume le_rfl, whole, List.drop_left]
  | case5 r line _ none_ fits ih =>
    have clear : newline ∉ line ++ r.fillBuf := fun hm =>
      (List.mem_append.1 hm).elim h (newlineAt_none.1 none_)
    have rest : (r.consume r.fillBuf.length).bytes = after := by
      rw [BufRead.bytes_consume le_rfl, whole, List.drop_left]
    obtain ⟨after', whole', none'⟩ := (r.consume r.fillBuf.length).bytes_fillBuf
    rw [ih clear (by rw [List.length_append]; omega) after' whole' none', rest, whole,
      List.append_assoc]

/-- **A call takes the next frame of what is left**, and leaves what is after it. -/
theorem readBoundedLine_next (r : BufRead) (discarding : Bool) :
    ((readBoundedLine r maxBytes discarding).1,
      left (readBoundedLine r maxBytes discarding).2.2
        (readBoundedLine r maxBytes discarding).2.1.bytes) =
      nextFrame maxBytes (left discarding r.bytes) := by
  have gathered := fun r => gatherLine_next r [] List.not_mem_nil (Nat.zero_le maxBytes)
  cases discarding with
  | false => exact gathered r
  | true =>
    have ends := discardLine_left r
    cases hd : discardLine r with
    | none =>
      rw [hd] at ends
      simp only [readBoundedLine, hd, if_true, left, BufRead.bytes, List.flatten_nil]
      rw [show newlineAt r.buffers.flatten = none from ends]
      rfl
    | some r' =>
      rw [hd] at ends
      obtain ⟨at_, there, bytes⟩ := ends
      simp only [readBoundedLine, hd, if_true]
      rw [gathered, List.nil_append, bytes, left, if_pos rfl, there]

end Next

/-! ## 5. A run of calls -/

/-- The end read over and over adds nothing to what was read before it. -/
theorem take_ended (n : Nat) (s : List BoundedLine) :
    (s ++ List.replicate (n + 1) BoundedLine.eof).take n = (s ++ List.replicate n BoundedLine.eof).take n := by
  simp only [List.take_append, List.take_replicate]
  congr 2
  omega

/-- The frames are the next one, and the frames of what it leaves. -/
theorem frames_next (maxBytes n : Nat) (s : List UInt8) :
    (frames maxBytes s ++ List.replicate (n + 1) BoundedLine.eof).take (n + 1) =
      (nextFrame maxBytes s).1 ::
        (frames maxBytes (nextFrame maxBytes s).2 ++ List.replicate n BoundedLine.eof).take n := by
  cases h : newlineAt s with
  | some at_ =>
    rw [frames_line h, List.cons_append, List.take_succ_cons, take_ended, nextFrame, h]
  | none =>
    have next : nextFrame maxBytes s = ((restOf maxBytes s).headD .eof, []) := by
      rw [nextFrame, h]
    have nothing : frames maxBytes [] = [] := rfl
    rw [frames_rest h, next, nothing, List.nil_append]
    unfold restOf
    split
    · rfl
    · split
      · rw [List.singleton_append, List.take_succ_cons, ← List.nil_append (List.replicate (n + 1) _),
          take_ended]
        rfl
      · rw [List.singleton_append, List.take_succ_cons, ← List.nil_append (List.replicate (n + 1) _),
          take_ended]
        rfl

theorem outcomes_left (maxBytes n : Nat) (r : BufRead) (discarding : Bool) :
    outcomes maxBytes n r discarding =
      (frames maxBytes (left discarding r.bytes) ++ List.replicate n BoundedLine.eof).take n := by
  induction n generalizing r discarding with
  | zero => rfl
  | succ n ih =>
    have next := @readBoundedLine_next maxBytes r discarding
    rw [frames_next, ← next]
    simp only [outcomes, ih]

/-- **Frames are split the same however the bytes arrive**: any number of calls, from the first on,
    gives the frames of the stream in order and then the end, whatever the bound and whatever the
    buffers the stream comes in. -/
theorem frames_split_alike (maxBytes n : Nat) (r : BufRead) :
    outcomes maxBytes n r false =
      (frames maxBytes r.bytes ++ List.replicate n BoundedLine.eof).take n :=
  outcomes_left maxBytes n r false

/-- A line over the bound in three buffers, and the lines around it. -/
example : outcomes 3 5 ⟨[[97, 13, 10, 98], [98, 98], [98, 98, 10], [99, 10, 100]], by decide⟩ false =
    [.complete [97], .overflow, .complete [99], .unterminated, .eof] := by
  rw [outcomes_left]
  decide

end Bridge
end ConsensFlow
