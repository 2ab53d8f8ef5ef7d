/-
  File:      ConsensFlow/Words/BriefFirst.lean
  Subject:   THE FIRST MESSAGE OF A FRESH WINDOW, BEHIND THE BRIEF IT IS GIVEN FIRST
             (`delivery_text.rs`: `brief_first`, `is_paste_of`, `after_brief`).

  * `Sifted` -- some lines of a text, the others taken out for what they are;
  * `afterBriefLines_sifted`, `sifted_of_afterBriefLines` -- the reader passes over a brief's lines
    just where those that are gone may be;
  * `Given` -- a brief as a window is given it ahead of a message, and alone;
  * **`brief_proves_the_message`** -- of every record of a paste behind a brief, the reader takes it
    for the message's; of every record of the brief alone it takes it for no other message's, but
    where the last line left is one a brief may lack.
-/
import ConsensFlow.Words.Pictures

namespace ConsensFlow.Deliveries

open Lib Lib.Text Lib.Lines

/-! ## 1. Lines taken out of a brief -/

/-- Some lines of a text in their order, the others taken out: lines with nothing in them where
    pictures were attached, and so many lines that name a picture. -/
inductive Sifted (handled : Bool) : List (List Char) → List (List Char) → Nat → Prop where
  | nil : Sifted handled [] [] 0
  | kept (line : List Char) {lines left : List (List Char)} {n : Nat}
      (more : Sifted handled lines left n) : Sifted handled (line :: lines) (line :: left) n
  | blank {line : List Char} {lines left : List (List Char)} {n : Nat} (attached : handled = true)
      (white : trim line = []) (more : Sifted handled lines left n) :
      Sifted handled (line :: lines) left n
  | picture {line : List Char} {lines left : List (List Char)} {n : Nat}
      (names : namesAnImage line = true) (more : Sifted handled lines left n) :
      Sifted handled (line :: lines) left (n + 1)

variable {handled : Bool} {lines more left before after : List (List Char)}
  {line last x : List Char} {n attached : Nat}

theorem Sifted.append {n' : Nat} (first : Sifted handled lines left n)
    (second : Sifted handled more after n') :
    Sifted handled (lines ++ more) (left ++ after) (n + n') := by
  induction first with
  | nil => rwa [Nat.zero_add]
  | kept line _ ih => exact .kept line ih
  | blank attached white _ ih => exact .blank attached white ih
  | @picture line lines left n names _ ih =>
    rw [Nat.add_right_comm]
    exact .picture names ih

/-- A line with nothing in it may be gone too. -/
theorem Sifted.lack_blank (before : List (List Char)) (attached : handled = true)
    (white : trim line = []) (h : Sifted handled lines (before ++ line :: after) n) :
    Sifted handled lines (before ++ after) n := by
  generalize whole : before ++ line :: after = left at h
  induction h generalizing before with
  | nil => exact absurd whole (by simp)
  | kept other more ih =>
    cases before with
    | nil =>
      obtain ⟨rfl, rfl⟩ := List.cons.inj whole
      exact .blank attached white more
    | cons first before =>
      obtain ⟨rfl, rest⟩ := List.cons.inj whole
      exact .kept first (ih _ rest)
  | blank attached' white' more ih => exact .blank attached' white' (ih _ whole)
  | picture names more ih => exact .picture names (ih _ whole)

/-- So may one that names a picture, for one more. -/
theorem Sifted.lack_picture (before : List (List Char)) (names : namesAnImage line = true)
    (h : Sifted handled lines (before ++ line :: after) n) :
    Sifted handled lines (before ++ after) (n + 1) := by
  generalize whole : before ++ line :: after = left at h
  induction h generalizing before with
  | nil => exact absurd whole (by simp)
  | kept other more ih =>
    cases before with
    | nil =>
      obtain ⟨rfl, rfl⟩ := List.cons.inj whole
      exact .picture names more
    | cons first before =>
      obtain ⟨rfl, rest⟩ := List.cons.inj whole
      exact .kept first (ih _ rest)
  | blank attached' white' more ih => exact .blank attached' white' (ih _ whole)
  | picture names' more ih => exact .picture names' (ih _ whole)

/-- The lines the reader may find missing. -/
def Lacking (handled : Bool) (line : List Char) : Prop :=
  (handled = true ∧ trim line = []) ∨ namesAnImage line = true

theorem Sifted.mem (h : Sifted handled lines left n) (one : line ∈ left) : line ∈ lines := by
  induction h with
  | nil => exact one
  | kept other more ih =>
    rcases List.mem_cons.1 one with rfl | one
    · exact List.mem_cons_self
    · exact List.mem_cons_of_mem _ (ih one)
  | blank attached white more ih => exact List.mem_cons_of_mem _ (ih one)
  | picture names more ih => exact List.mem_cons_of_mem _ (ih one)

/-! ## 2. The reader's way through them -/

/-- Lines as a reader goes through them, each with its end. -/
def ended (lines : List (List Char)) : List (List Char) := lines.map (· ++ ['\n'])

theorem splitOnce_line (line_ : '\n' ∉ line) (rest : List Char) :
    splitOnce ['\n'] (line ++ '\n' :: rest) = some (line, rest) :=
  splitOnce_head rfl line_

/-- What begins with a line begins with the first of those left, or all of them are read. -/
theorem stripPrefix_joined (line_ : '\n' ∉ line) (clear : ∀ one ∈ left, '\n' ∉ one)
    {rest : List Char} (h : stripPrefix (line ++ ['\n']) (joined '\n' left ++ x) = some rest) :
    (left = [] ∧ stripPrefix (line ++ ['\n']) x = some rest) ∨
      ∃ more, left = line :: more ∧ rest = joined '\n' more ++ x := by
  cases left with
  | nil => exact .inl ⟨rfl, h⟩
  | cons first left =>
    have same := stripPrefix_iff.1 h
    rw [joined_cons, List.append_assoc, List.append_assoc, List.cons_append,
      List.singleton_append] at same
    have cut := splitOnce_line (clear first List.mem_cons_self) (joined '\n' left ++ x)
    have cut' := splitOnce_line line_ rest
    rw [same, cut', Option.some.injEq, Prod.mk.injEq] at cut
    obtain ⟨rfl, rfl⟩ := cut
    exact .inr ⟨left, rfl, rfl⟩

theorem joined_line (line : List Char) (left : List (List Char)) (x : List Char) :
    joined '\n' (line :: left) ++ x = line ++ ['\n'] ++ (joined '\n' left ++ x) := by
  rw [joined_cons, List.append_assoc, List.append_assoc]
  rfl

theorem afterBriefLines_kept (rest : List Char) :
    afterBriefLines handled (ended (line :: lines)) attached (line ++ ['\n'] ++ rest) =
      afterBriefLines handled (ended lines) attached rest := by
  rw [ended, List.map_cons, afterBriefLines, stripPrefix_append]
  rfl

theorem namesAnImage_line (line : List Char) :
    namesAnImage (line ++ ['\n']) = namesAnImage line := by
  rw [namesAnImage_eq, namesAnImage_eq, trim_line]

theorem names_blank (white : trim line = []) : namesAnImage line = false := by
  rw [namesAnImage_eq, white]
  rfl

/-- A line that is not there: it may be missing, or nothing is read. -/
theorem afterBriefLines_gone {rest : List Char} (gone : stripPrefix (line ++ ['\n']) rest = none) :
    afterBriefLines handled (ended (line :: lines)) attached rest =
      if handled = true ∧ trim line = [] then afterBriefLines handled (ended lines) attached rest
      else if 0 < attached ∧ namesAnImage line = true then
        afterBriefLines handled (ended lines) (attached - 1) rest
      else none := by
  have same : (handled && (trim line).isEmpty) = true ↔ handled = true ∧ trim line = [] := by
    rw [Bool.and_eq_true, List.isEmpty_iff]
  rw [ended, List.map_cons, afterBriefLines, gone]
  dsimp only
  rw [trim_line, namesAnImage_line]
  simp only [same]
  rfl

/-- **What is left of a brief is passed over**, where no more pictures are gone than were attached
    and what comes after begins with no line that may be gone. -/
theorem afterBriefLines_sifted (clear : ∀ one ∈ lines, '\n' ∉ one)
    (other : ∀ one, '\n' ∉ one → Lacking handled one → stripPrefix (one ++ ['\n']) x = none)
    (h : Sifted handled lines left n) (enough : n ≤ attached) :
    afterBriefLines handled (ended lines) attached (joined '\n' left ++ x) = some x := by
  induction lines generalizing left n attached with
  | nil =>
    cases h
    rfl
  | cons line lines ih =>
    have line_ := clear line List.mem_cons_self
    have clear' : ∀ one ∈ lines, '\n' ∉ one :=
      fun one here => clear one (List.mem_cons_of_mem _ here)
    -- a line that is gone is there again further on, or is not there
    have gone {m : Nat} (lacks : Lacking handled line) (more : Sifted handled lines left m)
        (again : ∀ {left'}, left = line :: left' →
          ∃ n', Sifted handled lines left' n' ∧ n' ≤ attached)
        (missing : stripPrefix (line ++ ['\n']) (joined '\n' left ++ x) = none →
          afterBriefLines handled (ended (line :: lines)) attached (joined '\n' left ++ x) =
            some x) :
        afterBriefLines handled (ended (line :: lines)) attached (joined '\n' left ++ x) =
          some x := by
      cases there : stripPrefix (line ++ ['\n']) (joined '\n' left ++ x) with
      | none => exact missing there
      | some rest =>
        rcases stripPrefix_joined line_ (fun one here => clear' one (more.mem here)) there with
          ⟨-, begins⟩ | ⟨left', rfl, rfl⟩
        · rw [other line line_ lacks] at begins
          cases begins
        · obtain ⟨n', sifted, enough'⟩ := again rfl
          rw [joined_line, afterBriefLines_kept]
          exact ih clear' sifted enough'
    cases h with
    | @kept _ _ left _ more =>
      rw [joined_line, afterBriefLines_kept]
      exact ih clear' more enough
    | blank attached_ white more =>
      refine gone (.inl ⟨attached_, white⟩) more (fun {left'} again => ?_) fun none_ => ?_
      · subst again
        exact ⟨n, more.lack_blank [] attached_ white, enough⟩
      · rw [afterBriefLines_gone none_, if_pos ⟨attached_, white⟩]
        exact ih clear' more enough
    | @picture _ _ _ n names more =>
      refine gone (.inr names) more (fun {left'} again => ?_) fun none_ => ?_
      · subst again
        exact ⟨n + 1, more.lack_picture [] names, enough⟩
      · have solid : ¬(handled = true ∧ trim line = []) := by
          intro h
          rw [names_blank h.2] at names
          cases names
        rw [afterBriefLines_gone none_, if_neg solid, if_pos ⟨by omega, names⟩]
        exact ih clear' more (by omega)

/-- Where a reader passes over lines that are all gone, there were pictures enough. -/
theorem enough_of_afterBriefLines {rest : List Char} (clear : ∀ one ∈ lines, '\n' ∉ one)
    (other : ∀ one, '\n' ∉ one → Lacking handled one → stripPrefix (one ++ ['\n']) x = none)
    (h : Sifted handled lines [] n)
    (read : afterBriefLines handled (ended lines) attached x = some rest) : n ≤ attached := by
  generalize none_ : ([] : List (List Char)) = left at h
  induction h generalizing attached with
  | nil => exact Nat.zero_le _
  | kept line more ih => cases none_
  | @blank line lines left n attached_ white more ih =>
    have gone := other line (clear line List.mem_cons_self) (.inl ⟨attached_, white⟩)
    rw [afterBriefLines_gone gone, if_pos ⟨attached_, white⟩] at read
    exact ih (fun one here => clear one (List.mem_cons_of_mem _ here)) read none_
  | @picture line lines left n names more ih =>
    have solid : ¬(handled = true ∧ trim line = []) := by
      intro h
      rw [names_blank h.2] at names
      cases names
    have gone := other line (clear line List.mem_cons_self) (.inr names)
    rw [afterBriefLines_gone gone, if_neg solid] at read
    split at read
    · rename_i some_
      have rest := ih (fun one here => clear one (List.mem_cons_of_mem _ here)) read none_
      omega
    · cases read

/-- **What a reader passes over is gone for what it is**: where the last line left is not there as
    the brief has it, and the reader passes over the brief, that line is one that may be gone, and
    pictures enough were attached for it too. -/
theorem sifted_of_afterBriefLines {rest : List Char} (clear : ∀ one ∈ lines, '\n' ∉ one)
    (other : ∀ one, '\n' ∉ one → Lacking handled one → stripPrefix (one ++ ['\n']) x = none)
    (last_ : stripPrefix (last ++ ['\n']) x = none)
    (h : Sifted handled lines (left ++ [last]) n)
    (read : afterBriefLines handled (ended lines) attached (joined '\n' left ++ x) = some rest) :
    ∃ n', Sifted handled lines left n' ∧ n' ≤ attached ∧
      ((handled = true ∧ trim last = [] ∧ n' = n) ∨ (namesAnImage last = true ∧ n' = n + 1)) := by
  induction lines generalizing left n attached with
  | nil =>
    generalize whole : left ++ [last] = all at h
    cases h
    exact absurd whole (by simp)
  | cons line lines ih =>
    have line_ := clear line List.mem_cons_self
    have clear' : ∀ one ∈ lines, '\n' ∉ one :=
      fun one here => clear one (List.mem_cons_of_mem _ here)
    -- a line that is gone is there again further on
    have gone {m m' : Nat} {after : List Char} (lacks : Lacking handled line)
        (more : Sifted handled lines (left ++ [last]) m)
        (again : ∀ {left'}, left = line :: left' → Sifted handled lines (left' ++ [last]) m')
        (there : stripPrefix (line ++ ['\n']) (joined '\n' left ++ x) = some after) :
        ∃ n', Sifted handled (line :: lines) left n' ∧ n' ≤ attached ∧
          ((handled = true ∧ trim last = [] ∧ n' = m') ∨
            (namesAnImage last = true ∧ n' = m' + 1)) := by
      rcases stripPrefix_joined line_
        (fun one here => clear' one (more.mem (List.mem_append_left _ here))) there with
        ⟨-, begins⟩ | ⟨left', rfl, -⟩
      · rw [other line line_ lacks] at begins
        cases begins
      · rw [joined_line, afterBriefLines_kept] at read
        obtain ⟨n', sifted, enough, how⟩ := ih clear' (again rfl) read
        exact ⟨n', .kept _ sifted, enough, how⟩
    generalize whole : left ++ [last] = all at h
    cases h with
    | @kept _ _ all _ more =>
      cases left with
      | nil =>
        -- the last line left, which is not there as the brief has it
        obtain ⟨rfl, rfl⟩ := List.cons.inj whole
        rw [joined_nil, List.nil_append, afterBriefLines_gone last_] at read
        split at read
        · rename_i white
          exact ⟨n, .blank white.1 white.2 more, enough_of_afterBriefLines clear' other more read,
            .inl ⟨white.1, white.2, rfl⟩⟩
        · split at read
          · rename_i names
            have enough := enough_of_afterBriefLines clear' other more read
            exact ⟨n + 1, .picture names.2 more, by omega, .inr ⟨names.2, rfl⟩⟩
          · cases read
      | cons first left =>
        obtain ⟨rfl, rfl⟩ := List.cons.inj whole
        rw [joined_line, afterBriefLines_kept] at read
        obtain ⟨n', sifted, enough, how⟩ := ih clear' more read
        exact ⟨n', .kept _ sifted, enough, how⟩
    | blank attached_ white more =>
      subst whole
      cases there : stripPrefix (line ++ ['\n']) (joined '\n' left ++ x) with
      | none =>
        rw [afterBriefLines_gone there, if_pos ⟨attached_, white⟩] at read
        obtain ⟨n', sifted, enough, how⟩ := ih clear' more read
        exact ⟨n', .blank attached_ white sifted, enough, how⟩
      | some after =>
        refine gone (.inl ⟨attached_, white⟩) more (fun {left'} again => ?_) there
        subst again
        exact more.lack_blank [] attached_ white
    | @picture _ _ _ n names more =>
      subst whole
      cases there : stripPrefix (line ++ ['\n']) (joined '\n' left ++ x) with
      | none =>
        have solid : ¬(handled = true ∧ trim line = []) := by
          intro h
          rw [names_blank h.2] at names
          cases names
        rw [afterBriefLines_gone there, if_neg solid] at read
        split at read
        · rename_i some_
          obtain ⟨n', sifted, enough, how⟩ := ih clear' more read
          refine ⟨n' + 1, .picture names sifted, by omega, how.imp (fun h => ?_) fun h => ?_⟩
          · exact ⟨h.1, h.2.1, by rw [h.2.2]⟩
          · exact ⟨h.1, by rw [h.2]⟩
        · cases read
      | some after =>
        refine gone (.inr names) more (fun {left'} again => ?_) there
        subst again
        exact more.lack_picture [] names

/-! ## 3. A brief as a window is given it -/

namespace MessageView

/-- The kind and the sender of a message are of one line: a kind is one of the ledger's, a sender a
    member's handle. -/
def OneLine (m : MessageView) : Prop :=
  '\n' ∉ m.kind.toList ∧ ∀ sender, m.sender = some sender → '\n' ∉ sender.toList

end MessageView

/-- A paste as a window is given it: a message's marker begins its first line, which is no line that
    is taken out. -/
def Headed (id : Int) (text : List Char) : Prop :=
  ∃ line more, text = line ++ '\n' :: more ∧ '\n' ∉ line ∧ namesAnImage line = false ∧
    trim line ≠ [] ∧ markerOf id <+: line

theorem shown_line {c : Char} (h : shown c = '\n') : c = '\n' := by
  unfold shown at h
  split at h
  · exact h
  · split at h
    · rename_i low
      have all : ∀ n ≤ 0x1F, Char.ofNat (0x2400 + n) ≠ '\n' := by decide
      exact absurd h (all _ low)
    · split at h
      · exact absurd h (by decide)
      · split at h
        · exact absurd h (by decide)
        · exact h

theorem mem_unreturned {c : Char} {cs : List Char} (one : c ∈ unreturned cs) : c ∈ cs := by
  induction cs with
  | nil => exact one
  | cons d cs ih =>
    rw [unreturned] at one
    split at one
    · exact List.mem_cons_of_mem _ (ih one)
    · rcases List.mem_cons.1 one with rfl | one
      · exact List.mem_cons_self
      · exact List.mem_cons_of_mem _ (ih one)

/-- A text of one line is shown in one line. -/
theorem windowText_oneLine {cs : List Char} (line_ : '\n' ∉ cs) : '\n' ∉ windowText cs := by
  intro one
  obtain ⟨c, there, same⟩ := List.mem_map.1 one
  rw [shown_line same] at there
  exact line_ (mem_unreturned there)

theorem shown_shown (c : Char) : shown (shown c) = shown c ∧ shown c ≠ '\r' := by
  by_cases line : c = '\t' ∨ c = '\n'
  · rcases line with rfl | rfl <;> decide
  · by_cases low : c.toNat ≤ 0x1F
    · have all : ∀ n ≤ 0x1F, shown (Char.ofNat (0x2400 + n)) = Char.ofNat (0x2400 + n) ∧
          Char.ofNat (0x2400 + n) ≠ '\r' := by decide
      have one : shown c = Char.ofNat (0x2400 + c.toNat) := by rw [shown, if_neg line, if_pos low]
      rw [one]
      exact all _ low
    · by_cases delete : c.toNat = 0x7F
      · have one : shown c = Char.ofNat 0x2421 := by
          rw [shown, if_neg line, if_neg low, if_pos delete]
        rw [one]
        decide
      · by_cases high : 0x80 ≤ c.toNat ∧ c.toNat ≤ 0x9F
        · have one : shown c = Char.ofNat 0xFFFD := by
            rw [shown, if_neg line, if_neg low, if_neg delete, if_pos high]
          rw [one]
          decide
        · have one : shown c = c := by
            rw [shown, if_neg line, if_neg low, if_neg delete, if_neg high]
          rw [one]
          refine ⟨one, fun same => low ?_⟩
          rw [same]
          decide

/-- What a window is given it shows as it is. -/
theorem shown_windowText (cs : List Char) : Shown (windowText cs) := by
  intro c one
  obtain ⟨d, -, rfl⟩ := List.mem_map.1 one
  exact shown_shown d

/-- The first line of a message's text is its header. -/
theorem MessageView.deliveryTextBeside_line (alphanumeric : Char → Bool) (m : MessageView)
    (carried : List MessageView) (cf : CfWord) (again : Bool) (toldIn : Option Int)
    (oneLine : m.OneLine) : ∃ front more,
      (m.deliveryTextBeside alphanumeric carried cf again toldIn).toList =
        front ++ ']' :: '\n' :: more ∧ '\n' ∉ front ∧ markerOf m.id <+: front := by
  have number (n : Int) : '\n' ∉ (toString n).toList := by
    intro one
    rcases mem_toString one with sign | digit
    · cases sign
    · exact absurd digit (by decide)
  have start : (toString "[ConsensFlow m-").toList = headerStart := rfl
  have dot : (toString " · ").toList = [' ', '·', ' '] := String.toList_ofList
  have taskDot : (toString " · T-").toList = [' ', '·', ' ', 'T', '-'] := String.toList_ofList
  have between_ : (toString " from ").toList = [' ', 'f', 'r', 'o', 'm', ' '] :=
    String.toList_ofList
  have ends : (toString "]\n").toList = [']', '\n'] := String.toList_ofList
  have from_ : '\n' ∉ m.fromOf.toList := by
    unfold MessageView.fromOf
    cases sender : m.sender with
    | none =>
      have name : "ConsensFlow".toList = _ := String.toList_ofList
      dsimp only
      rw [name]
      decide
    | some sender_ =>
      have at_ : (toString "@").toList = ['@'] := String.toList_ofList
      dsimp only
      rw [String.toList_append, at_]
      exact fun one => (List.mem_cons.1 one).elim (fun same => (by cases same))
        (oneLine.2 _ sender)
  have again_ : '\n' ∉ (if again then sentAgain else "").toList := by
    cases again with
    | false => exact List.not_mem_nil
    | true =>
      have words : sentAgain.toList = _ := String.toList_ofList
      rw [if_pos rfl, words]
      decide
  -- `gap` is what stands between the id and the kind
  have line (gap more : List Char) (gap_ : '\n' ∉ ' ' :: gap) : ∃ front more',
      headerStart ++ ((toString m.id).toList ++ (' ' :: (gap ++ (m.kind.toList ++
        ([' ', 'f', 'r', 'o', 'm', ' '] ++ (m.fromOf.toList ++
          ((if again then sentAgain else "").toList ++ (']' :: '\n' :: more)))))))) =
        front ++ ']' :: '\n' :: more' ∧ '\n' ∉ front ∧ markerOf m.id <+: front := by
    have start_ : '\n' ∉ headerStart := by
      rw [headerStart_eq]
      decide
    refine ⟨headerStart ++ ((toString m.id).toList ++ (' ' :: gap ++ (m.kind.toList ++
      ([' ', 'f', 'r', 'o', 'm', ' '] ++ (m.fromOf.toList ++
        (if again then sentAgain else "").toList))))), more, ?_, ?_, ?_⟩
    · simp only [List.append_assoc, List.cons_append]
    · simp only [List.mem_append, not_or]
      exact ⟨start_, number m.id, gap_, oneLine.1, by decide, from_, again_⟩
    · rw [toList_markerOf]
      refine ⟨gap ++ (m.kind.toList ++ ([' ', 'f', 'r', 'o', 'm', ' '] ++ (m.fromOf.toList ++
        (if again then sentAgain else "").toList))), ?_⟩
      simp only [List.append_assoc, List.cons_append, List.nil_append]
  unfold MessageView.deliveryTextBeside MessageView.textOf
  cases m.taskNumber with
  | none =>
    dsimp only
    simp only [String.toList_append, List.append_assoc, dot, ends, between_, start]
    exact line ['·', ' '] _ (by decide)
  | some task =>
    have form : (toString s!" · T-{task}").toList = [' ', '·', ' ', 'T', '-'] ++
        (toString task).toList := by
      rw [← taskDot, ← String.toList_append]
      rfl
    dsimp only
    simp only [String.toList_append, List.append_assoc, dot, ends, between_, start, form]
    have whole := line (['·', ' ', 'T', '-'] ++ ((toString task).toList ++ [' ', '·', ' ']))
    simp only [List.append_assoc] at whole
    refine whole _ fun one => ?_
    rcases List.mem_append.1 (List.mem_cons.1 one |>.resolve_left (by decide)) with one | one
    · exact absurd one (by decide)
    · rcases List.mem_append.1 one with one | one
      · exact number task one
      · exact absurd one (by decide)

theorem toList_briefFirst (alphanumeric : Char → Bool) (brief : MessageView)
    (carried : List MessageView) (cf : CfWord) :
    (brief.briefFirst alphanumeric carried cf).toList =
      (brief.deliveryText alphanumeric carried cf).toList ++ ['\n', '\n'] := by
  have ends : (toString "\n\n").toList = ['\n', '\n'] := String.toList_ofList
  unfold MessageView.briefFirst
  rw [String.toList_append, ends]
  rfl

/-- **A message's paste is headed by its marker.** -/
theorem headed (alphanumeric : Char → Bool) (m : MessageView) (carried : List MessageView)
    (cf : CfWord) (again : Bool) (toldIn : Option Int) (oneLine : m.OneLine) (x : List Char) :
    Headed m.id
      (windowText ((m.deliveryTextBeside alphanumeric carried cf again toldIn).toList ++ x)) := by
  obtain ⟨front, more, form, line_, marker⟩ : ∃ front more,
      (m.deliveryTextBeside alphanumeric carried cf again toldIn).toList =
        front ++ ']' :: '\n' :: more ∧ '\n' ∉ front ∧ markerOf m.id <+: front :=
    m.deliveryTextBeside_line alphanumeric carried cf again toldIn oneLine
  have sees : windowText (front ++ ']' :: '\n' :: more ++ x) =
      (windowText front ++ [']']) ++ '\n' :: windowText (more ++ x) := by
    have next : (']' :: '\n' :: (more ++ x)).head? ≠ some '\n' := fun same => (by cases same)
    have ends : Shown [']', '\n'] := by
      intro c one
      simp only [List.mem_cons, List.not_mem_nil, or_false] at one
      rcases one with rfl | rfl <;> decide
    rw [List.append_assoc, List.cons_append, List.cons_append, windowText_append next,
      List.append_assoc]
    exact congrArg (windowText front ++ ·) (windowText_shown ends (more ++ x))
  have white : White [] := fun c one => absurd one List.not_mem_nil
  refine ⟨windowText front ++ [']'], windowText (more ++ x), by rw [form, sees],
    fun one => ?_, ?_, ?_, ?_⟩
  · rcases List.mem_append.1 one with one | one
    · exact windowText_oneLine line_ one
    · exact absurd (List.mem_singleton.1 one) (by decide)
  · exact names_ends (by decide) ⟨by decide, by decide⟩ (by decide) white _
  · rw [trim_ends (c := ']') (by decide) white (windowText front)]
    exact List.append_ne_nil_of_right_ne_nil _ (List.cons_ne_nil _ _)
  · obtain ⟨rest, rfl⟩ := marker
    rw [windowText_shown (markerOf_shown m.id), List.append_assoc]
    exact ⟨_, rfl⟩

/-! ## 4. What is left of a paste behind a brief -/

theorem unreturned_ended {a : List Char} (no : a.getLast? ≠ some '\r') (b : List Char) :
    unreturned (a ++ b) = unreturned a ++ unreturned b := by
  induction a with
  | nil => rfl
  | cons c a ih =>
    have same : (c = '\r' ∧ (a ++ b).head? = some '\n') ↔ (c = '\r' ∧ a.head? = some '\n') := by
      cases a with
      | nil =>
        constructor
        · rintro ⟨rfl, -⟩
          exact absurd rfl no
        · exact fun h => (by cases h.2)
      | cons d a => exact Iff.rfl
    have no' : a.getLast? ≠ some '\r' := by
      cases a with
      | nil => exact fun h => (by cases h)
      | cons d a => rwa [List.getLast?_cons_cons] at no
    rw [List.cons_append, unreturned, unreturned, ih no']
    by_cases here : c = '\r' ∧ a.head? = some '\n'
    · rw [if_pos here, if_pos (same.2 here)]
    · rw [if_neg here, if_neg fun h => here (same.1 h)]
      rfl

/-- A text a window is given alone, where `brief` is what it is given of it before two lines' ends:
    a carriage return at its end is shown, and not before a line's end. -/
def alone (text brief : List Char) : List Char :=
  if text.getLast? = some '\r' then brief ++ [shown '\r'] else brief

/-- A brief as a window is given it first, and alone. -/
theorem windowText_brief (text : List Char) : ∃ brief,
    windowText (text ++ ['\n', '\n']) = brief ++ ['\n', '\n'] ∧
      windowText text = alone text brief := by
  unfold alone
  split
  · rename_i ends
    obtain ⟨front, rfl⟩ : ∃ front, text = front ++ ['\r'] := by
      rcases List.eq_nil_or_concat text with rfl | ⟨front, c, rfl⟩
      · cases ends
      · rw [List.concat_eq_append, List.getLast?_concat] at ends
        rw [Option.some.inj ends]
        exact ⟨front, List.concat_eq_append⟩
    refine ⟨windowText front, ?_, ?_⟩
    · rw [List.append_assoc, windowText_append fun h => (by cases h)]
      rfl
    · rw [windowText_append fun h => (by cases h)]
      rfl
  · rename_i no
    refine ⟨windowText text, ?_, rfl⟩
    unfold windowText
    rw [unreturned_ended no, List.map_append]
    rfl

theorem linesInclusive_joined {lines : List (List Char)} (clear : ∀ one ∈ lines, '\n' ∉ one) :
    linesInclusive (joined '\n' lines) = ended lines := by
  have line {line : List Char} (line_ : '\n' ∉ line) (more : List Char) :
      linesInclusive (line ++ '\n' :: more) = (line ++ ['\n']) :: linesInclusive more := by
    induction line with
    | nil => rfl
    | cons c line ih =>
      rw [List.mem_cons, not_or] at line_
      rw [List.cons_append, linesInclusive, if_neg (Ne.symm line_.1), ih line_.2]
      rfl
  induction lines with
  | nil => rfl
  | cons first lines ih =>
    rw [joined_cons, line (clear first List.mem_cons_self),
      ih fun one here => clear one (List.mem_cons_of_mem _ here)]
    rfl

theorem brief_clear (brief : List Char) : ∀ line ∈ parted '\n' brief ++ [[]], '\n' ∉ line := by
  intro line one
  rcases List.mem_append.1 one with one | one
  · exact parted_clear '\n' brief line one
  · rw [List.mem_singleton.1 one]
    exact List.not_mem_nil

/-- The lines of a brief given first. -/
theorem linesInclusive_brief (brief : List Char) :
    linesInclusive (brief ++ ['\n', '\n']) = ended (parted '\n' brief ++ [[]]) := by
  have form : brief ++ ['\n', '\n'] = joined '\n' (parted '\n' brief ++ [[]]) := by
    rw [joined_concat, joined_parted, List.append_assoc]
    rfl
  rw [form, linesInclusive_joined (brief_clear brief)]

theorem intercalate_joined (lines : List (List Char)) (last : List Char)
    (more : List (List Char)) : ['\n'].intercalate (lines ++ last :: more) =
      joined '\n' lines ++ ['\n'].intercalate (last :: more) := by
  induction lines with
  | nil => rfl
  | cons line lines ih =>
    rw [List.cons_append, List.intercalate_cons_of_ne_nil (by simp), ih, joined_cons]
    simp only [List.append_assoc, List.cons_append, List.nil_append]

/-- Lines joined by a break begin with the first of them, alone or before a break. -/
theorem intercalate_first (line : List Char) (more : List (List Char)) : ∃ rest,
    ['\n'].intercalate (line :: more) = line ++ rest ∧ (rest = [] ∨ ∃ x, rest = '\n' :: x) := by
  cases more with
  | nil => exact ⟨[], by rw [List.intercalate_singleton, List.append_nil], .inl rfl⟩
  | cons next more =>
    rw [List.intercalate_cons_cons, List.append_assoc]
    exact ⟨_, rfl, .inr ⟨_, rfl⟩⟩

theorem intercalate_parted (cs : List Char) : ['\n'].intercalate (parted '\n' cs) = cs := by
  have whole := joined_parted '\n' cs
  rw [parted, joined_concat, ← List.append_assoc] at whole
  rw [parted, intercalate_joined, List.intercalate_singleton]
  exact List.append_cancel_right whole

theorem keptLines_append (lines more : List (List Char × Fate)) :
    keptLines (lines ++ more) = keptLines lines ++ keptLines more := by
  fun_induction keptLines lines with
  | case1 => rfl
  | case2 line lines ih => rw [List.cons_append, keptLines, ih, List.cons_append]
  | case3 line lines ih => rw [List.cons_append, keptLines, ih]
  | case4 line paths lines ih => rw [List.cons_append, keptLines, ih]

theorem pictureLines_append (lines more : List (List Char × Fate)) :
    pictureLines (lines ++ more) = pictureLines lines + pictureLines more := by
  fun_induction pictureLines lines with
  | case1 => exact (Nat.zero_add _).symm
  | case2 line lines ih => rw [List.cons_append, pictureLines, ih]
  | case3 line lines ih => rw [List.cons_append, pictureLines, ih]
  | case4 line paths lines ih =>
    rw [List.cons_append, pictureLines, ih]
    omega

/-- The lines left are the text's, but for those a reader may find missing. -/
theorem sifted_keptLines {lines : List (List Char × Fate)}
    (pictures : ∀ line paths, (line, Fate.pictures paths) ∈ lines → PictureLine paths line)
    (blank : ∀ line, (line, Fate.blank) ∈ lines → handled = true ∧ White line) :
    Sifted handled (lines.map Prod.fst) (keptLines lines) (pictureLines lines) := by
  fun_induction keptLines lines with
  | case1 => exact .nil
  | case2 line lines ih =>
    exact .kept line (ih (fun l p one => pictures l p (List.mem_cons_of_mem _ one))
      fun l one => blank l (List.mem_cons_of_mem _ one))
  | case3 line lines ih =>
    obtain ⟨handled_, white⟩ := blank line List.mem_cons_self
    exact .blank handled_ (trim_white white)
      (ih (fun l p one => pictures l p (List.mem_cons_of_mem _ one))
        fun l one => blank l (List.mem_cons_of_mem _ one))
  | case4 line paths lines ih =>
    exact .picture (pictures line paths List.mem_cons_self).names
      (ih (fun l p one => pictures l p (List.mem_cons_of_mem _ one))
        fun l one => blank l (List.mem_cons_of_mem _ one))

/-- No more lines are gone for their pictures than there were pictures. -/
theorem pictureLines_le {lines : List (List Char × Fate)}
    (pictures : ∀ line paths, (line, Fate.pictures paths) ∈ lines → PictureLine paths line) :
    pictureLines lines ≤ picturesOf lines := by
  fun_induction pictureLines lines with
  | case1 => exact Nat.le_refl _
  | case2 line lines ih =>
    exact ih fun l p one => pictures l p (List.mem_cons_of_mem _ one)
  | case3 line lines ih =>
    exact ih fun l p one => pictures l p (List.mem_cons_of_mem _ one)
  | case4 line paths lines ih =>
    have some_ := List.length_pos_of_ne_nil (pictures line paths List.mem_cons_self).1
    have rest := ih fun l p one => pictures l p (List.mem_cons_of_mem _ one)
    rw [picturesOf]
    omega

/-! ## 5. What the reader finds behind the brief -/

/-- No line that may be gone begins a text whose first line is not one. -/
theorem no_line {q y : List Char} (line_ : '\n' ∉ q) (ends : y = [] ∨ ∃ more, y = '\n' :: more)
    (stays : ¬Lacking handled q) : ∀ one, '\n' ∉ one → Lacking handled one →
      stripPrefix (one ++ ['\n']) (q ++ y) = none := by
  intro one one_ lacks
  refine stripPrefix_none fun rest same => ?_
  rw [List.append_assoc, List.singleton_append] at same
  rcases ends with rfl | ⟨more, rfl⟩
  · rw [List.append_nil] at same
    rw [same] at line_
    exact line_ (List.mem_append_right _ List.mem_cons_self)
  · have cut := splitOnce_line line_ more
    have cut' := splitOnce_line one_ rest
    rw [same, cut', Option.some.injEq, Prod.mk.injEq] at cut
    rw [cut.1] at lacks
    exact stays lacks

theorem stays_of {handled : Bool} {q : List Char} (names : namesAnImage q = false)
    (solid : trim q ≠ []) : ¬Lacking handled q := by
  rintro (white | image)
  · exact solid white.2
  · rw [names] at image
    cases image

/-- The first line of a headed paste is kept. -/
theorem headed_kept (handled : Bool) {id : Int} {text : List Char} {lines : List (List Char × Fate)}
    (whole : lines.map Prod.fst = parted '\n' text) (headed : Headed id text)
    (pictures : ∀ line paths, (line, Fate.pictures paths) ∈ lines → PictureLine paths line)
    (blank : ∀ line, (line, Fate.blank) ∈ lines → White line) :
    ∃ line more, keptLines lines = line :: more ∧ '\n' ∉ line ∧ ¬Lacking handled line ∧
      markerOf id <+: line := by
  obtain ⟨line, rest, rfl, line_, names, solid, marker⟩ := headed
  rw [parted_append, parted_of_not_mem line_, List.singleton_append] at whole
  cases lines with
  | nil => cases whole
  | cons first lines =>
    obtain ⟨line', fate⟩ := first
    obtain ⟨same, -⟩ := List.cons.inj whole
    dsimp only at same
    subst same
    cases fate with
    | kept => exact ⟨line', _, rfl, line_, stays_of names solid, marker⟩
    | blank => exact absurd (trim_white (blank line' List.mem_cons_self)) solid
    | pictures paths =>
      have image := (pictures line' paths List.mem_cons_self).names
      rw [names] at image
      cases image

theorem isPasteOf_some (record : List Char) (n : Int) (first : List Char) :
    isPasteOf record n (some first) = (contains (markerOf n) record &&
      (startsWith (markerOf n) (pasteIn (trimStart (windowText record))) ||
        (afterBrief (pasteIn (trimStart (windowText record))) (windowText first)
          (attachedIn (trimStart (windowText record)))).any fun rest =>
            startsWith (markerOf n) rest)) := by
  unfold isPasteOf
  cases contains (markerOf n) record <;> rfl

theorem startsWith_iff {p cs : List Char} : startsWith p cs = true ↔ p <+: cs := by
  rw [startsWith, Option.isSome_iff_exists]
  constructor
  · rintro ⟨rest, h⟩
    exact ⟨rest, (stripPrefix_iff.1 h).symm⟩
  · rintro ⟨rest, h⟩
    exact ⟨rest, stripPrefix_iff.2 h.symm⟩

namespace PasteRecord

variable {r : PasteRecord} {paste record : List Char} {id : Int}

/-- A marker in what is left of a paste is in its record. -/
theorem Shows.contains (shows : r.Shows record) {a b : List Char}
    (whole : r.words ++ r.tail = a ++ (markerOf id ++ b)) :
    Lib.Text.contains (markerOf id) record = true := by
  obtain ⟨blank, -, returned⟩ := shows
  have form : blank ++ r.item = (blank ++ (placeholders r.images ++
      ((if r.apart_ then ['\n', '\n'] else []) ++ (r.head ++ a)))) ++ (markerOf id ++ b) := by
    rw [item, whole]
    simp only [List.append_assoc]
  obtain ⟨front', rest', rfl, -, rest⟩ := returned.of_append _ _ form
  obtain ⟨marker', back', rfl, marker, -⟩ := rest.of_append _ _ rfl
  rw [marker.line (markerOf_line id)]
  exact contains_iff.2 ⟨front', back', rfl⟩

theorem Of.begun (of_ : r.Of paste) (headed : Headed id paste) :
    ∃ rest, r.words = markerOf id ++ rest := by
  obtain ⟨line, more, kept, -, -, ⟨rest, rfl⟩⟩ :=
    headed_kept true of_.whole headed of_.pictures of_.blank
  obtain ⟨after, form, -⟩ := intercalate_first (markerOf id ++ rest) more
  exact ⟨rest ++ after, by rw [words, kept, form, List.append_assoc]⟩

/-- What the reader says of a record, from what is left of the paste. -/
theorem Of.isPasteOf (of_ : r.Of paste) (shown_ : Shown paste) (headed : Headed id paste)
    (shows : r.Shows record) (n : Int) {first brief : List Char}
    (first_ : windowText first = brief ++ ['\n', '\n']) :
    Deliveries.isPasteOf record n (some first) = (Lib.Text.contains (markerOf n) record &&
      (startsWith (markerOf n) (r.words ++ r.tail) ||
        (afterBriefLines (0 < r.images.length) (ended (parted '\n' brief ++ [[]]))
          r.images.length (r.words ++ r.tail)).any fun rest => startsWith (markerOf n) rest)) := by
  obtain ⟨rest, begun⟩ := of_.begun headed
  obtain ⟨more, marker⟩ := markerOf_begun id
  obtain ⟨paste_, attached⟩ := of_.reads shown_
    (show r.words = '[' :: 'C' :: (more ++ rest) by rw [begun, marker]; rfl) shows
  rw [isPasteOf_some, paste_, attached, afterBrief, first_, linesInclusive_brief]

/-- Where nothing is attached, no line is gone. -/
theorem Of.blank_handled (of_ : r.Of paste) :
    ∀ line, (line, Fate.blank) ∈ r.lines → decide (0 < r.images.length) = true ∧ White line := by
  intro line one
  refine ⟨decide_eq_true ?_, of_.blank line one⟩
  rcases Nat.eq_zero_or_pos r.images.length with none_ | some_
  · cases (of_.plain (List.length_eq_zero_iff.1 none_)).1 _ one
  · exact some_

/-- **A message behind a brief is found**: of every record of the two, it is the paste's. -/
theorem Of.behind {brief message first : List Char} {briefId : Int}
    (of_ : r.Of (brief ++ '\n' :: '\n' :: message))
    (shown_ : Shown (brief ++ '\n' :: '\n' :: message))
    (headed : Headed briefId (brief ++ '\n' :: '\n' :: message)) (headed' : Headed id message)
    (shows : r.Shows record) (first_ : windowText first = brief ++ ['\n', '\n']) :
    Deliveries.isPasteOf record id (some first) = true := by
  -- the brief's lines, and the message's
  have parts : parted '\n' (brief ++ '\n' :: '\n' :: message) =
      (parted '\n' brief ++ [[]]) ++ parted '\n' message := by
    rw [parted_append, List.append_assoc]
    exact congrArg (parted '\n' brief ++ ·) (parted_append '\n' [] message)
  have whole := of_.whole
  rw [parts] at whole
  obtain ⟨lines, lines', split_, lines_, lines'_⟩ := List.map_eq_append_iff.1 whole
  obtain ⟨line, more, kept, line_, stays, marker⟩ :=
    headed_kept (0 < r.images.length) lines'_ headed'
      (fun l p one => of_.pictures l p (by rw [split_]; exact List.mem_append_right _ one))
      fun l one => of_.blank l (by rw [split_]; exact List.mem_append_right _ one)
  obtain ⟨rest, begins, ends⟩ := intercalate_first line more
  have ends' : (rest ++ r.tail = [] ∨ ∃ x, rest ++ r.tail = '\n' :: x) := by
    rcases ends with rfl | ⟨x, rfl⟩
    · unfold tail
      split
      · exact .inl rfl
      · exact .inr ⟨_, rfl⟩
    · exact .inr ⟨_, rfl⟩
  have left : r.words ++ r.tail = joined '\n' (keptLines lines) ++ (line ++ (rest ++ r.tail)) := by
    rw [words, split_, keptLines_append, kept, intercalate_joined, begins]
    simp only [List.append_assoc]
  have sifted : Sifted (0 < r.images.length) (parted '\n' brief ++ [[]]) (keptLines lines)
      (pictureLines lines) := by
    rw [← lines_]
    exact sifted_keptLines
      (fun l p one => of_.pictures l p (by rw [split_]; exact List.mem_append_left _ one))
      fun l one => of_.blank_handled l (by rw [split_]; exact List.mem_append_left _ one)
  have enough : pictureLines lines ≤ r.images.length := by
    have all := pictureLines_le of_.pictures
    rw [← of_.counted, split_, pictureLines_append] at all
    omega
  have found := afterBriefLines_sifted (brief_clear brief) (no_line line_ ends' stays) sifted enough
  obtain ⟨after, rfl⟩ := marker
  have there : Lib.Text.contains (markerOf id) record = true :=
    shows.contains (a := joined '\n' (keptLines lines)) (b := after ++ (rest ++ r.tail))
      (by rw [left, List.append_assoc])
  rw [of_.isPasteOf shown_ headed shows id first_, there, left, found, Option.any_some,
    startsWith_iff.2 ⟨after ++ (rest ++ r.tail), (List.append_assoc _ _ _).symm⟩, Bool.or_true,
    Bool.and_true]

/-! ## 6. A brief alone -/

/-- The last line left of a brief's paste, as the brief given first has it. -/
def lastLeft (r : PasteRecord) (text : List Char) : List Char :=
  let line := (keptLines r.lines).getLast?.getD []
  if text.getLast? = some '\r' then line.dropLast else line

/-- A record of a brief alone that is read as another message's: no end of the last line left is
    there as the brief given first has it, that line begins with a header of another message and
    ends with the name of an image, and more pictures were attached than lines are gone for them. -/
def Misread (r : PasteRecord) (text : List Char) (id : Int) : Prop :=
  (r.wrapper = none ∨ text.getLast? = some '\r') ∧ pictureLines r.lines < r.images.length ∧
    namesAnImage (r.lastLeft text) = true ∧ ∃ n, InI64 n ∧ n ≠ id ∧ markerOf n <+: r.lastLeft text

/-- The lines of a brief given alone: the last has the carriage return the brief ends with. -/
theorem parted_alone (text brief : List Char) : ∃ init last, parted '\n' brief = init ++ [last] ∧
    parted '\n' (alone text brief) = init ++ [alone text last] := by
  refine ⟨(split '\n' brief).1, (split '\n' brief).2, rfl, ?_⟩
  obtain ⟨whole, lines_, rest_⟩ := joined_split '\n' brief
  unfold alone
  split
  · have cut : split '\n' (brief ++ [shown '\r']) =
        ((split '\n' brief).1, (split '\n' brief).2 ++ [shown '\r']) := by
      conv_lhs => rw [← whole, List.append_assoc]
      refine split_joined lines_ fun one => ?_
      rcases List.mem_append.1 one with one | one
      · exact rest_ one
      · exact absurd one (by decide)
    rw [parted, cut]
  · rfl

/-- A line shown with the carriage return at its end is none that is taken out. -/
theorem returned_stays (handled : Bool) (line : List Char) :
    namesAnImage (line ++ [shown '\r']) = false ∧ trim (line ++ [shown '\r']) ≠ [] ∧
      ¬Lacking handled (line ++ [shown '\r']) := by
  have white : White [] := fun c one => absurd one List.not_mem_nil
  have names : namesAnImage (line ++ [shown '\r']) = false :=
    names_ends (by decide) ⟨by decide, by decide⟩ (by decide) white line
  have solid : trim (line ++ [shown '\r']) ≠ [] := by
    rw [trim_ends (by decide) white]
    exact List.append_ne_nil_of_right_ne_nil _ (List.cons_ne_nil _ _)
  exact ⟨names, solid, stays_of names solid⟩

/-- What is left of a brief alone: some of its lines, and the last, which it has alone. -/
theorem Of.leaves {text brief : List Char} (of_ : r.Of (alone text brief))
    (headed : Headed id (alone text brief)) : ∃ left last,
      keptLines r.lines = left ++ [alone text last] ∧ r.lastLeft text = last ∧
        Sifted true (parted '\n' brief) (left ++ [last]) (pictureLines r.lines) := by
  have sifted (lines : List (List Char × Fate)) (within : ∀ one ∈ lines, one ∈ r.lines) :
      Sifted true (lines.map Prod.fst) (keptLines lines) (pictureLines lines) :=
    sifted_keptLines (fun l p one => of_.pictures l p (within _ one))
      fun l one => ⟨rfl, of_.blank l (within _ one)⟩
  by_cases ends : text.getLast? = some '\r'
  · -- the last line ends with a carriage return shown, and so is kept
    obtain ⟨init, last, lines_, alone_⟩ := parted_alone text brief
    have whole := of_.whole
    rw [alone_] at whole
    obtain ⟨lines, more, split_, init_, more_⟩ := List.map_eq_append_iff.1 whole
    obtain ⟨one, rfl, one_⟩ := List.map_eq_singleton_iff.1 more_
    obtain ⟨line, fate⟩ := one
    dsimp only at one_
    subst one_
    have form : alone text last = last ++ [shown '\r'] := if_pos ends
    have there : (alone text last, fate) ∈ r.lines := by
      rw [split_]
      exact List.mem_append_right _ List.mem_cons_self
    obtain ⟨names, solid, -⟩ := returned_stays true last
    rw [← form] at names solid
    have kept : fate = .kept := by
      cases fate with
      | kept => rfl
      | blank => exact absurd (trim_white (of_.blank _ there)) solid
      | pictures paths =>
        rw [(of_.pictures _ paths there).names] at names
        cases names
    subst kept
    have left_ : keptLines r.lines = keptLines lines ++ [alone text last] := by
      rw [split_, keptLines_append]
      rfl
    refine ⟨keptLines lines, last, left_, ?_, ?_⟩
    · rw [lastLeft, left_, List.getLast?_concat, if_pos ends, form]
      exact List.dropLast_concat
    · have whole' := (sifted lines fun one here => by
        rw [split_]
        exact List.mem_append_left _ here).append (.kept last .nil)
      rw [init_] at whole'
      rw [lines_, split_, pictureLines_append]
      exact whole'
  · have form (line : List Char) : alone text line = line := if_neg ends
    obtain ⟨line, more, kept, -⟩ :=
      headed_kept true of_.whole headed of_.pictures of_.blank
    obtain ⟨left, last, left_⟩ : ∃ left last, keptLines r.lines = left ++ [last] := by
      rcases List.eq_nil_or_concat (keptLines r.lines) with none_ | ⟨left, last, some_⟩
      · rw [kept] at none_
        cases none_
      · exact ⟨left, last, by rw [some_, List.concat_eq_append]⟩
    refine ⟨left, last, by rw [left_, form], ?_, ?_⟩
    · rw [lastLeft, left_, List.getLast?_concat, if_neg ends]
      rfl
    · have whole' := sifted r.lines fun one here => here
      rw [of_.whole, form, left_] at whole'
      exact whole'

theorem afterBriefLines_plain {lines : List (List Char)} {x rest : List Char}
    (read : afterBriefLines false (ended lines) 0 x = some rest) :
    x = joined '\n' lines ++ rest := by
  induction lines generalizing x with
  | nil => exact Option.some.inj read
  | cons line lines ih =>
    cases there : stripPrefix (line ++ ['\n']) x with
    | none =>
      rw [afterBriefLines_gone there, if_neg fun h => (by cases h.1),
        if_neg fun h => (by cases h.1)] at read
      cases read
    | some after =>
      rw [stripPrefix_iff.1 there, afterBriefLines_kept] at read
      rw [stripPrefix_iff.1 there, joined_line, ih read]

/-- **A brief whole is no other message's**: where nothing is attached, its end is not there. -/
theorem Of.whole_alone {text brief rest : List Char} (of_ : r.Of (alone text brief))
    (plain : r.images = []) : afterBriefLines false (ended (parted '\n' brief ++ [[]])) 0
      (r.words ++ r.tail) ≠ some rest := by
  intro read
  have all : keptLines r.lines = r.lines.map Prod.fst := by
    have kept := (of_.plain plain).1
    generalize r.lines = lines at kept
    induction lines with
    | nil => rfl
    | cons one lines ih =>
      obtain ⟨line, fate⟩ := one
      obtain rfl : fate = .kept := kept _ List.mem_cons_self
      rw [keptLines, ih fun x here => kept x (List.mem_cons_of_mem _ here), List.map_cons]
  have words_ : r.words = alone text brief := by
    rw [words, all, of_.whole, intercalate_parted]
  have same := afterBriefLines_plain read
  rw [words_, joined_concat, joined_parted, List.append_assoc, List.append_assoc] at same
  unfold alone at same
  split at same
  · rw [List.append_assoc, List.append_cancel_left_eq] at same
    exact absurd (List.cons.inj same).1 (by decide)
  · rw [List.append_cancel_left_eq] at same
    unfold tail at same
    split at same
    · cases same
    · exact absurd (List.cons.inj (List.cons.inj same).2).1 (by decide)

/-- What stands at a text's start and has not the character after it, is in that text. -/
theorem prefix_apart {p a z : List Char} {c : Char} (h : p <+: a ++ c :: z) (out : c ∉ p) :
    p <+: a := by
  rcases List.prefix_or_prefix_of_prefix h (List.prefix_append a (c :: z)) with here | ⟨more, rfl⟩
  · exact here
  · rw [List.prefix_append_right_inj] at h
    cases more with
    | nil => rw [List.append_nil]
    | cons d more =>
      obtain ⟨rfl, -⟩ := List.cons_prefix_cons.1 h
      exact absurd (List.mem_append_right _ List.mem_cons_self) out

theorem marker_begins {n : Int} {text line x : List Char}
    (ends : x = [] ∨ ∃ more, x = '\n' :: more) (h : markerOf n <+: alone text line ++ x) :
    markerOf n <+: line := by
  have here : markerOf n <+: alone text line := by
    rcases ends with rfl | ⟨more, rfl⟩
    · rwa [List.append_nil] at h
    · exact prefix_apart h (markerOf_line n)
  unfold alone at here
  split at here
  · refine prefix_apart (z := []) here fun one => ?_
    rw [toList_markerOf] at one
    rcases List.mem_append.1 one with one | one
    · rw [headerStart_eq] at one
      exact absurd one (by decide)
    · rcases List.mem_append.1 one with one | one
      · rcases mem_toString one with sign | digit
        · exact absurd sign (by decide)
        · exact absurd digit (by decide)
      · exact absurd one (by decide)
  · exact here

/-- A line that begins with a marker is not blank. -/
theorem marker_solid {n : Int} {line : List Char} (begins : markerOf n <+: line) :
    trim line ≠ [] := by
  obtain ⟨rest, rfl⟩ := begins
  obtain ⟨more, begun⟩ := markerOf_begun n
  have solid (x : List Char) : trimStart ('[' :: x) = '[' :: x :=
    List.dropWhile_cons_of_neg (by decide)
  intro white
  rw [begun, List.cons_append, trim, solid, List.reverse_eq_nil_iff] at white
  exact absurd (List.dropWhile_eq_nil_iff.1 white '[' (List.mem_reverse.2 List.mem_cons_self))
    (by decide)

theorem tail_ends (r : PasteRecord) : r.tail = [] ∨ ∃ more, r.tail = '\n' :: more := by
  unfold tail
  split
  · exact .inl rfl
  · exact .inr ⟨_, rfl⟩

/-- **A wrapped brief is passed over to its end**, and what its wrapper puts there is no paste. -/
theorem Of.wrapped_alone {text brief : List Char} (of_ : r.Of (alone text brief))
    (headed : Headed id (alone text brief))
    (whole : ¬(r.wrapper = none ∨ text.getLast? = some '\r')) : ∃ x,
      afterBriefLines true (ended (parted '\n' brief ++ [[]])) r.images.length
        (r.words ++ r.tail) = some ('<' :: x) := by
  obtain ⟨left, last, left_, -, sifted⟩ := of_.leaves headed
  obtain ⟨wrapped_, ends⟩ := not_or.1 whole
  obtain ⟨⟨attributes, after⟩, wrapper⟩ := Option.ne_none_iff_exists'.1 wrapped_
  obtain ⟨attributes_, after_, -⟩ := of_.wrapped attributes after wrapper
  -- what is after the closing tag on its line
  obtain ⟨space, rest, rfl, line, rest_⟩ : ∃ space rest, after = space ++ rest ∧ '\n' ∉ space ∧
      (rest = [] ∨ ∃ more, rest = '\n' :: more) := by
    obtain ⟨cut, lines_, rest_⟩ := joined_split '\n' after
    cases lines : (split '\n' after).1 with
    | nil =>
      rw [lines, joined_nil, List.nil_append] at cut
      exact ⟨(split '\n' after).2, [], by rw [List.append_nil, cut], rest_, .inl rfl⟩
    | cons line more =>
      rw [lines] at lines_
      rw [lines, joined_cons, List.append_assoc, List.cons_append] at cut
      exact ⟨line, _, cut.symm, lines_ line List.mem_cons_self, .inr ⟨_, rfl⟩⟩
  have white : White space := fun c one => (after_ c (List.mem_append_left _ one)).1
  have closing : closingTag attributes = ('<' :: '/' :: (pastedTag ++ attributes)) ++ ['>'] := by
    unfold closingTag
    simp only [List.append_assoc, List.cons_append]
  have tag : closingTag attributes ++ space =
      ('<' :: '/' :: (pastedTag ++ attributes)) ++ '>' :: space := by
    rw [closing, List.append_assoc]
    rfl
  have line_ : '\n' ∉ closingTag attributes ++ space := by
    intro one
    have tag_ : '\n' ∉ pastedTag := by decide
    rcases List.mem_append.1 one with one | one
    · unfold closingTag at one
      simp only [List.mem_cons, List.mem_append, List.not_mem_nil, or_false] at one
      rcases one with same | same | one | one | same
      · cases same
      · cases same
      · exact tag_ one
      · exact (attributes_.2 _ one).2.2.1 rfl
      · cases same
    · exact line one
  have stays : ¬Lacking true (closingTag attributes ++ space) := by
    rw [tag]
    refine stays_of (names_ends (by decide) ⟨by decide, by decide⟩ (by decide) white _) ?_
    rw [trim_ends (by decide) white]
    exact List.append_ne_nil_of_right_ne_nil _ (List.cons_ne_nil _ _)
  have form : r.words ++ r.tail =
      joined '\n' (left ++ [last]) ++ (closingTag attributes ++ space ++ rest) := by
    have here : alone text last = last := if_neg ends
    rw [words, left_, here, intercalate_joined, List.intercalate_singleton, joined_concat, tail,
      wrapper]
    simp only [List.append_assoc, List.cons_append, List.nil_append]
  have nothing : Sifted true [[]] [] 0 := .blank rfl rfl .nil
  have sifted' := sifted.append nothing
  rw [List.append_nil, Nat.add_zero] at sifted'
  have enough : pictureLines r.lines ≤ r.images.length := by
    rw [of_.counted]
    exact pictureLines_le of_.pictures
  refine ⟨'/' :: (pastedTag ++ (attributes ++ ['>'])) ++ space ++ rest, ?_⟩
  rw [form, afterBriefLines_sifted (brief_clear brief) (no_line line_ rest_ stays) sifted' enough]
  rfl

/-- What is left of a brief whose last line is not there as the brief given first has it: the reader
    passes over the lines before it just where that line may be gone too. -/
theorem Of.bare_alone {text brief : List Char} (of_ : r.Of (alone text brief))
    (headed : Headed id (alone text brief))
    (bare : r.wrapper = none ∨ text.getLast? = some '\r') (n : Int) :
    ((afterBriefLines true (ended (parted '\n' brief ++ [[]])) r.images.length
        (r.words ++ r.tail)).any fun rest => startsWith (markerOf n) rest) = true ↔
      pictureLines r.lines < r.images.length ∧ namesAnImage (r.lastLeft text) = true ∧
        markerOf n <+: r.lastLeft text := by
  obtain ⟨left, last, left_, lastLeft_, sifted⟩ := of_.leaves headed
  have last_ : '\n' ∉ last :=
    parted_clear '\n' brief last (sifted.mem (List.mem_append_right _ List.mem_cons_self))
  have form : r.words ++ r.tail = joined '\n' left ++ (alone text last ++ r.tail) := by
    rw [words, left_, intercalate_joined, List.intercalate_singleton, List.append_assoc]
  -- no line's end stands where the brief given first has one
  have gone : stripPrefix (last ++ ['\n']) (alone text last ++ r.tail) = none := by
    refine stripPrefix_none fun rest same => ?_
    unfold alone at same
    split at same
    · rw [List.append_assoc, List.append_assoc, List.append_cancel_left_eq] at same
      exact absurd (List.cons.inj same).1 (by decide)
    · rename_i ends
      rw [tail, bare.resolve_right ends, List.append_nil] at same
      rw [same] at last_
      exact last_ (List.mem_append_left _ (List.mem_append_right _ List.mem_cons_self))
  have other : ∀ one, '\n' ∉ one → Lacking true one →
      stripPrefix (one ++ ['\n']) (alone text last ++ r.tail) = none := by
    by_cases ends : text.getLast? = some '\r'
    · have here : alone text last = last ++ [shown '\r'] := if_pos ends
      rw [here]
      refine no_line (fun one => ?_) r.tail_ends (returned_stays true last).2.2
      rcases List.mem_append.1 one with one | one
      · exact last_ one
      · exact absurd one (by decide)
    · have here : alone text last = last := if_neg ends
      rw [here, tail, bare.resolve_right ends, List.append_nil]
      intro one _ _
      refine stripPrefix_none fun rest same => last_ ?_
      rw [same]
      exact List.mem_append_left _ (List.mem_append_right _ List.mem_cons_self)
  have nothing : Sifted true [[]] [] 0 := .blank rfl rfl .nil
  have sifted' := sifted.append nothing
  rw [List.append_nil, Nat.add_zero] at sifted'
  rw [lastLeft_, form]
  constructor
  · intro found
    cases read : afterBriefLines true (ended (parted '\n' brief ++ [[]])) r.images.length
        (joined '\n' left ++ (alone text last ++ r.tail)) with
    | none =>
      rw [read] at found
      cases found
    | some rest =>
      obtain ⟨n', lacks, enough, how⟩ :=
        sifted_of_afterBriefLines (brief_clear brief) other gone sifted' read
      have same := afterBriefLines_sifted (brief_clear brief) other lacks enough
      rw [same, Option.any_some, startsWith_iff] at found
      have begins := marker_begins r.tail_ends found
      rcases how with ⟨-, white, -⟩ | ⟨names, count⟩
      · exact absurd white (marker_solid begins)
      · exact ⟨by omega, names, begins⟩
  · rintro ⟨enough, names, begins⟩
    have lacks := sifted'.lack_picture left names
    rw [List.append_nil] at lacks
    rw [afterBriefLines_sifted (brief_clear brief) other lacks enough, Option.any_some,
      startsWith_iff, alone]
    split
    · exact begins.trans (by rw [List.append_assoc]; exact List.prefix_append _ _)
    · exact begins.trans (List.prefix_append _ _)

/-- Of a brief alone, which messages it is read as. -/
theorem Of.read_alone {text brief first : List Char} (of_ : r.Of (alone text brief))
    (shown_ : Shown (alone text brief)) (headed : Headed id (alone text brief)) (id_ : InI64 id)
    (shows : r.Shows record) (first_ : windowText first = brief ++ ['\n', '\n']) {n : Int}
    (n_ : InI64 n) (other : n ≠ id) : Deliveries.isPasteOf record n (some first) = true ↔
      (r.wrapper = none ∨ text.getLast? = some '\r') ∧ pictureLines r.lines < r.images.length ∧
        namesAnImage (r.lastLeft text) = true ∧ markerOf n <+: r.lastLeft text := by
  obtain ⟨begins, begun⟩ := of_.begun headed
  -- the paste's own marker is no other message's
  have own : startsWith (markerOf n) (r.words ++ r.tail) = false := by
    rw [begun, List.append_assoc, Bool.eq_false_iff]
    exact fun same => other (marker_apart n_ id_ same)
  have attached_ (some_ : 0 < r.images.length) : decide (0 < r.images.length) = true :=
    decide_eq_true some_
  rw [of_.isPasteOf shown_ headed shows n first_, own, Bool.false_or, Bool.and_eq_true]
  constructor
  · rintro ⟨-, found⟩
    rcases Nat.eq_zero_or_pos r.images.length with none_ | some_
    · -- nothing is attached
      have plain := List.length_eq_zero_iff.1 none_
      rw [none_] at found
      cases here : afterBriefLines (decide (0 < 0)) (ended (parted '\n' brief ++ [[]])) 0
          (r.words ++ r.tail) with
      | none =>
        rw [here] at found
        cases found
      | some rest => exact absurd here (of_.whole_alone plain)
    · rw [attached_ some_] at found
      by_cases bare : r.wrapper = none ∨ text.getLast? = some '\r'
      · exact ⟨bare, (of_.bare_alone headed bare n).1 found⟩
      · obtain ⟨x, passed⟩ := of_.wrapped_alone headed bare
        obtain ⟨rest, begun⟩ := markerOf_begun n
        rw [passed, Option.any_some, startsWith_iff, begun] at found
        exact absurd (List.cons_prefix_cons.1 found).1 (by decide)
  · rintro ⟨bare, enough, names, marker⟩
    have found := (of_.bare_alone headed bare n).2 ⟨enough, names, marker⟩
    refine ⟨?_, by rwa [attached_ (by omega)]⟩
    obtain ⟨left, last, left_, lastLeft_, -⟩ := of_.leaves headed
    obtain ⟨after, line⟩ := marker
    rw [lastLeft_] at line
    obtain ⟨x, form⟩ : ∃ x, alone text last = last ++ x := by
      unfold alone
      split
      · exact ⟨_, rfl⟩
      · exact ⟨[], (List.append_nil _).symm⟩
    refine shows.contains (a := joined '\n' left) (b := after ++ (x ++ r.tail)) ?_
    rw [words, left_, intercalate_joined, List.intercalate_singleton, form, ← line]
    simp only [List.append_assoc]

/-- **A brief alone is read as another message's just where it is misread.** -/
theorem Of.misread_iff {text brief first : List Char} (of_ : r.Of (alone text brief))
    (shown_ : Shown (alone text brief)) (headed : Headed id (alone text brief)) (id_ : InI64 id)
    (shows : r.Shows record) (first_ : windowText first = brief ++ ['\n', '\n']) :
    (∀ n, InI64 n → n ≠ id → Deliveries.isPasteOf record n (some first) = false) ↔
      ¬r.Misread text id := by
  have read {n : Int} (n_ : InI64 n) (other : n ≠ id) :=
    of_.read_alone shown_ headed id_ shows first_ n_ other
  constructor
  · rintro none_ ⟨bare, enough, names, n, n_, other, marker⟩
    have found := (read n_ other).2 ⟨bare, enough, names, marker⟩
    rw [none_ n n_ other] at found
    cases found
  · intro right n n_ other
    rw [Bool.eq_false_iff, ne_eq, read n_ other]
    rintro ⟨bare, enough, names, marker⟩
    exact right ⟨bare, enough, names, n, n_, other, marker⟩

end PasteRecord

/-- A text behind a brief is found, and the brief alone is misread just where it is: over texts. -/
theorem proves_headed {text text' : List Char} {briefId id : Int} (id_ : InI64 briefId)
    (headed_ : ∀ x, Headed briefId (windowText (text ++ x)))
    (headed' : Headed id (windowText text')) (next : text'.head? ≠ some '\n') :
    (∀ (r : PasteRecord) (record : List Char),
      r.Of (windowText (text ++ ['\n', '\n'] ++ text')) → r.Shows record →
        isPasteOf record id (some (text ++ ['\n', '\n'])) = true) ∧
    ∀ (r : PasteRecord) (record : List Char), r.Of (windowText text) → r.Shows record →
      ((∀ n, InI64 n → n ≠ briefId →
        isPasteOf record n (some (text ++ ['\n', '\n'])) = false) ↔ ¬r.Misread text briefId) := by
  obtain ⟨brief, first_, alone_⟩ := windowText_brief text
  refine ⟨fun r record of_ shows => ?_, fun r record of_ shows => ?_⟩
  · have whole : windowText (text ++ ['\n', '\n'] ++ text') =
        brief ++ '\n' :: '\n' :: windowText text' := by
      rw [windowText_append next, first_, List.append_assoc]
      rfl
    have shown_ := shown_windowText (text ++ ['\n', '\n'] ++ text')
    have front := headed_ (['\n', '\n'] ++ text')
    rw [← List.append_assoc, whole] at front
    rw [whole] at of_ shown_
    exact of_.behind shown_ front headed' shows first_
  · have shown_ := shown_windowText text
    have front := headed_ []
    rw [List.append_nil] at front
    rw [alone_] at of_ shown_ front
    exact of_.misread_iff shown_ front id_ shows first_

/-- **The first message of a fresh window is found behind its brief, and the brief alone is no other
    message's**, but where it is misread: of every record of a paste behind a brief, the reader
    takes it for the message's; of a record of the brief alone it takes it for no other message's
    just where the last line left, in no wrapper, is not one that begins with another message's
    header and ends with the name of an image, while more pictures were attached than lines are
    gone for them. -/
theorem brief_proves_the_message (alphanumeric : Char → Bool) (brief m : MessageView)
    (carried carried' : List MessageView) (cf cf' : CfWord) (again : Bool) (toldIn : Option Int)
    (id_ : InI64 brief.id) (brief_ : brief.OneLine) (m_ : m.OneLine) :
    (∀ (r : PasteRecord) (record : List Char),
      r.Of (windowText ((brief.briefFirst alphanumeric carried cf).toList ++
        (m.deliveryTextBeside alphanumeric carried' cf' again toldIn).toList)) →
      r.Shows record →
        isPasteOf record m.id (some (brief.briefFirst alphanumeric carried cf).toList) = true) ∧
    ∀ (r : PasteRecord) (record : List Char),
      r.Of (windowText (brief.deliveryText alphanumeric carried cf).toList) → r.Shows record →
        ((∀ n, InI64 n → n ≠ brief.id →
            isPasteOf record n (some (brief.briefFirst alphanumeric carried cf).toList) = false) ↔
          ¬r.Misread (brief.deliveryText alphanumeric carried cf).toList brief.id) := by
  have headed_ := headed alphanumeric brief carried cf false none brief_
  have headed' := headed alphanumeric m carried' cf' again toldIn m_ []
  obtain ⟨more, form⟩ := textOf_marker alphanumeric m carried' cf' (if again then sentAgain else "")
    toldIn
  have next : (m.deliveryTextBeside alphanumeric carried' cf' again toldIn).toList.head? ≠
      some '\n' := by
    obtain ⟨rest, begun⟩ := markerOf_begun m.id
    have here : (m.deliveryTextBeside alphanumeric carried' cf' again toldIn).toList =
        markerOf m.id ++ more := form
    rw [here, begun]
    exact fun same => (by cases same)
  rw [List.append_nil] at headed'
  rw [toList_briefFirst]
  exact proves_headed id_ headed_ headed' next

/-! ## 7. A brief read as another message -/

/-- A brief with two pictures on one line, whose last line begins as another message's header does
    and ends with a picture's name. -/
def naming : MessageView where
  id := 5
  sender := none
  kind := "task"
  taskNumber := none
  replyTo := none
  body := "Draw it\n/a.png /b.png\n[ConsensFlow m-42 is on /c.png"
  questions := .null
  urgent := false

def namingText : List Char :=
  "[ConsensFlow m-5 · task from ConsensFlow]\nDraw it\n/a.png /b.png\n[ConsensFlow m-42 is on /c.png".toList

def namingLines (pictures : Fate) : List (List Char × Fate) :=
  [("[ConsensFlow m-5 · task from ConsensFlow]".toList, .kept), ("Draw it".toList, .kept),
    ("/a.png /b.png".toList, pictures), ("[ConsensFlow m-42 is on /c.png".toList, .kept)]

/-- The record of it alone, its two pictures attached. -/
def namingRecord : PasteRecord where
  lines := namingLines (.pictures ["/a.png".toList, "/b.png".toList])
  images := [['1'], ['2']]
  apart_ := false
  wrapper := none

theorem naming_text : (naming.deliveryText Char.isAlphanum [] ⟨"cf"⟩).toList = namingText := by
  decide

theorem naming_given : windowText namingText = namingText := by decide

theorem naming_parted (pictures : Fate) :
    (namingLines pictures).map Prod.fst = parted '\n' namingText := by
  have lines : parted '\n' namingText = ["[ConsensFlow m-5 · task from ConsensFlow]".toList,
      "Draw it".toList, "/a.png /b.png".toList, "[ConsensFlow m-42 is on /c.png".toList] := by
    decide
  rw [lines]
  rfl

theorem naming_pictures (line : List Char) (paths : List (List Char))
    (one : (line, Fate.pictures paths) ∈
      namingLines (.pictures ["/a.png".toList, "/b.png".toList])) : PictureLine paths line := by
  have white : White [] := fun c one => absurd one List.not_mem_nil
  have png : "png".toList = ['p', 'n', 'g'] := String.toList_ofList
  have kind : ['p', 'n', 'g'].map Char.toLower ∈
      ["png", "jpg", "jpeg", "gif", "webp"].map String.toList := by
    rw [List.map_cons, png]
    exact List.mem_cons_self
  simp only [namingLines, List.mem_cons, Prod.mk.injEq, List.not_mem_nil, or_false, reduceCtorEq,
    and_false, false_or, Fate.pictures.injEq] at one
  obtain ⟨rfl, rfl⟩ := one
  refine ⟨List.cons_ne_nil _ _, fun path one => ?_, [], [], white, white, by decide⟩
  simp only [List.mem_cons, List.not_mem_nil, or_false] at one
  rcases one with rfl | rfl
  · exact ⟨['/', 'a'], ['p', 'n', 'g'], kind, .inl (by decide)⟩
  · exact ⟨['/', 'b'], ['p', 'n', 'g'], kind, .inl (by decide)⟩

theorem two_numbers : ∀ digits ∈ [['1'], ['2']], digits ≠ [] ∧ ∀ c ∈ digits, c.isDigit = true := by
  simp

theorem naming_kept (line : List Char) (pictures : Fate) (other : pictures ≠ .blank) :
    (line, Fate.blank) ∉ namingLines pictures := by
  intro one
  simp only [namingLines, List.mem_cons, Prod.mk.injEq, List.not_mem_nil, or_false, reduceCtorEq,
    and_false, false_or] at one
  exact other one.2.symm

/-- The placeholders say that two pictures were attached, one line is gone, and the last line left,
    which the record has and the brief given first has with a line's end, is passed over as a
    second. -/
theorem brief_read_as_another :
    namingRecord.Of (windowText (naming.deliveryText Char.isAlphanum [] ⟨"cf"⟩).toList) ∧
      namingRecord.Shows namingRecord.item ∧ (42 : Int) ≠ naming.id ∧
      isPasteOf namingRecord.item 42 (some (naming.briefFirst Char.isAlphanum [] ⟨"cf"⟩).toList) =
        true := by
  have of_ : namingRecord.Of (windowText namingText) := by
    rw [naming_given]
    exact ⟨naming_parted _, naming_pictures,
      fun line one => absurd one (naming_kept line _ (by simp)),
      .inl fun line one => naming_kept line _ (by simp) one, rfl, two_numbers,
      fun none_ => (by cases none_), fun attributes after some_ => (by cases some_)⟩
  have shows : namingRecord.Shows namingRecord.item :=
    ⟨[], fun c one => absurd one List.not_mem_nil, .refl _⟩
  have headed_ := headed Char.isAlphanum naming [] ⟨"cf"⟩ false none
    ⟨by decide, fun sender same => (by cases same)⟩ []
  have same : (naming.deliveryTextBeside Char.isAlphanum [] ⟨"cf"⟩ false none).toList =
      namingText := naming_text
  have shown_ := shown_windowText namingText
  obtain ⟨brief, first_, alone_⟩ := windowText_brief namingText
  rw [List.append_nil, same, alone_] at headed_
  rw [toList_briefFirst, naming_text]
  refine ⟨of_, shows, by decide, ?_⟩
  rw [alone_] at of_ shown_
  exact (of_.read_alone shown_ headed_ ⟨by decide, by decide⟩ shows first_ ⟨by decide, by decide⟩
    (by decide)).2 ⟨.inl rfl, by decide, by decide, by decide⟩

/-- An answer behind it, and the record of the two. -/
def answering : MessageView where
  id := 12
  sender := some "zeus"
  kind := "answer"
  taskNumber := none
  replyTo := some 11
  body := "Use JSON"
  questions := .null
  urgent := false

def answeringText : List Char := "[ConsensFlow m-12 · answer from @zeus]\nUse JSON".toList

def answeringRecord : PasteRecord where
  lines := namingLines (.pictures ["/a.png".toList, "/b.png".toList]) ++ [([], .kept),
    ("[ConsensFlow m-12 · answer from @zeus]".toList, .kept), ("Use JSON".toList, .kept)]
  images := [['1'], ['2']]
  apart_ := false
  wrapper := none

/-- The record of the brief alone, nothing attached. -/
def wholeRecord : PasteRecord where
  lines := namingLines .kept
  images := []
  apart_ := false
  wrapper := none

theorem answering_of : answeringRecord.Of (windowText
    ((naming.briefFirst Char.isAlphanum [] ⟨"cf"⟩).toList ++
      (answering.deliveryTextBeside Char.isAlphanum [] ⟨"cf"⟩ false none).toList)) := by
  have text : (answering.deliveryTextBeside Char.isAlphanum [] ⟨"cf"⟩ false none).toList =
      answeringText := by decide
  have shown_ : Shown namingText := by
    rw [← naming_given]
    exact shown_windowText _
  have given : windowText ('\n' :: '\n' :: answeringText) = '\n' :: '\n' :: answeringText := by
    decide
  have lines : parted '\n' answeringText =
      ["[ConsensFlow m-12 · answer from @zeus]".toList, "Use JSON".toList] := by decide
  have whole : namingText ++ ['\n', '\n'] ++ answeringText =
      namingText ++ ('\n' :: ([] ++ '\n' :: answeringText)) := by
    rw [List.append_assoc]
    rfl
  have none_ : parted '\n' ([] : List Char) = [[]] := rfl
  have within (one : List Char × Fate) (fate : one.2 ≠ .kept) (h : one ∈ answeringRecord.lines) :
      one ∈ namingLines (.pictures ["/a.png".toList, "/b.png".toList]) := by
    rcases List.mem_append.1 h with h | h
    · exact h
    · simp only [List.mem_cons, List.not_mem_nil, or_false] at h
      rcases h with rfl | rfl | rfl <;> exact absurd rfl fate
  rw [toList_briefFirst, naming_text, text, whole, windowText_shown shown_, List.nil_append, given]
  refine ⟨?_, fun line paths one => naming_pictures line paths (within _ (by simp) one),
    fun line one => absurd (within _ (by simp) one) (naming_kept line _ (by simp)),
    .inl fun line one => naming_kept line _ (by simp) (within _ (by simp) one), rfl,
    two_numbers,
    fun none_ => (by cases none_), fun attributes after some_ => (by cases some_)⟩
  have second : parted '\n' ('\n' :: answeringText) = [] :: parted '\n' answeringText :=
    parted_append '\n' [] answeringText
  rw [parted_append, second, lines, ← naming_parted (.pictures ["/a.png".toList, "/b.png".toList])]
  rfl

theorem brief_proves_the_message_answer :
    isPasteOf answeringRecord.item 12
        (some (naming.briefFirst Char.isAlphanum [] ⟨"cf"⟩).toList) = true ∧
      ∀ n, InI64 n → n ≠ 5 → isPasteOf wholeRecord.item n
        (some (naming.briefFirst Char.isAlphanum [] ⟨"cf"⟩).toList) = false := by
  have nothing : Blank [] := fun c one => absurd one List.not_mem_nil
  have zeus (sender : String) (same : answering.sender = some sender) : '\n' ∉ sender.toList := by
    obtain rfl := Option.some.inj same
    decide
  obtain ⟨behind, alone_⟩ := brief_proves_the_message Char.isAlphanum naming answering [] [] ⟨"cf"⟩
    ⟨"cf"⟩ false none ⟨by decide, by decide⟩ ⟨by decide, fun sender same => (by cases same)⟩
    ⟨by decide, zeus⟩
  refine ⟨behind answeringRecord _ answering_of ⟨[], nothing, .refl _⟩,
    (alone_ wholeRecord _ ?_ ⟨[], nothing, .refl _⟩).2 fun misread => ?_⟩
  · rw [naming_text, naming_given]
    refine ⟨naming_parted _, fun line paths one => ?_,
      fun line one => absurd one (naming_kept line _ (by simp)),
      .inl fun line one => naming_kept line _ (by simp) one, rfl, fun digits one => (by cases one),
      fun _ => ⟨fun one here => ?_, rfl⟩, fun attributes after some_ => (by cases some_)⟩
    · simp [wholeRecord, namingLines] at one
    · simp only [wholeRecord, namingLines, List.mem_cons, List.not_mem_nil, or_false] at here
      rcases here with rfl | rfl | rfl | rfl <;> rfl
  · exact absurd misread.2.1 (Nat.not_lt_zero _)

end ConsensFlow.Deliveries
