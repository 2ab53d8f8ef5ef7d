/-
  File:      ConsensFlow/Panes/Bracketed.lean
  Subject:   A DELIVERED BODY STAYS IN ITS PASTE (`cf-panes`, `arbiter.rs` and `pty.rs`): bodies are
             written by other agents, and none may close its paste and type keys.

  * `low_byte`, `Clean` -- a byte below 0x80 of UTF-8 is a character of its own, so a body with no
    control character has no byte a marker could begin with;
  * `bracketed_starts`, `bracketed_ends` -- a body in brackets holds each marker once;
  * `feed_bracketed` -- any watch that reads it finds one paste, and no key;
  * **`body_stays_in_paste`** -- all of it, for every body.
-/
import ConsensFlow.Panes.Cuts

namespace ConsensFlow
namespace Panes

open Lib.Markers

/-! ## 1. The bytes of a clean text -/

/-- A byte below 0x80 of a character's UTF-8 is all of it. -/
theorem low_byte {c : Char} {b : UInt8} (one : b ∈ String.utf8EncodeChar c) (low : b.toNat < 0x80) :
    c.toNat = b.toNat := by
  unfold String.utf8EncodeChar at one
  dsimp only at one
  have high : ∀ n, 0x80 ≤ n → n < 0x100 → b = UInt8.ofNat n → False := by
    intro n from_ to_ same
    rw [same, UInt8.toNat_ofNat'] at low
    omega
  by_cases one_ : c.val.toNat ≤ 0x7f
  · rw [if_pos one_, List.mem_singleton] at one
    rw [one, UInt8.toNat_ofNat', Nat.mod_eq_of_lt (by omega)]
    rfl
  · rw [if_neg one_] at one
    exfalso
    by_cases two : c.val.toNat ≤ 0x7ff
    · rw [if_pos two, List.mem_cons, List.mem_singleton] at one
      rcases one with one | one <;> exact high _ (by omega) (by omega) one
    · rw [if_neg two] at one
      by_cases three : c.val.toNat ≤ 0xffff
      · rw [if_pos three, List.mem_cons, List.mem_cons, List.mem_singleton] at one
        rcases one with one | one | one <;> exact high _ (by omega) (by omega) one
      · rw [if_neg three, List.mem_cons, List.mem_cons, List.mem_cons, List.mem_singleton] at one
        rcases one with one | one | one | one <;> exact high _ (by omega) (by omega) one

/-- Bytes that are a text's UTF-8 are its characters', one after another. -/
theorem bytes_of_text {s : Bytes} {text : String} (h : String.fromUTF8? ⟨s.toArray⟩ = some text) :
    s = text.toList.flatMap String.utf8EncodeChar := by
  have same : text.toByteArray = ⟨s.toArray⟩ := by
    unfold String.fromUTF8? at h
    by_cases valid : ByteArray.IsValidUTF8 ⟨s.toArray⟩
    · rw [dif_pos valid] at h
      cases h
      rfl
    · rw [dif_neg valid] at h
      cases h
  rw [← String.utf8Encode_toList] at same
  have data := congrArg (fun bytes => bytes.data.toList) same
  dsimp only at data
  rw [List.utf8Encode, List.data_toByteArray] at data
  exact data.symm

/-- A text with no control character but tab and line feed, as bytes. -/
def Clean (s : Bytes) : Prop := ∃ text, String.fromUTF8? ⟨s.toArray⟩ = some text ∧
  ∀ c ∈ text.toList, isControl c = true → c = '\t' ∨ c = '\n'

variable {s body : Bytes}

/-- A clean text has no control byte but tab and line feed. -/
theorem clean_bytes (clean : Clean s) {b : UInt8} (one : b ∈ s) (control : b.toNat < 0x20) :
    b = 0x09 ∨ b = 0x0a := by
  obtain ⟨text, decoded, rule⟩ := clean
  rw [bytes_of_text decoded, List.mem_flatMap] at one
  obtain ⟨c, here, one⟩ := one
  have same := low_byte one (by omega)
  have known := rule c here (by
    rw [isControl, same, decide_eq_true control, Bool.true_or])
  rcases known with rfl | rfl
  · exact Or.inl (UInt8.toNat_inj.1 same.symm)
  · exact Or.inr (UInt8.toNat_inj.1 same.symm)

theorem clean_no_escape (clean : Clean s) : (0x1b : UInt8) ∉ s := by
  intro one
  rcases clean_bytes clean one (by decide) with h | h <;> cases h

theorem clean_no_return (clean : Clean s) : (0x0d : UInt8) ∉ s := by
  intro one
  rcases clean_bytes clean one (by decide) with h | h <;> cases h

/-- What `sanitize` accepts: the body, its line ends folded, where that is a clean text. -/
theorem sanitize_ok : sanitize body = .ok s ↔ s = lineFeeds body ∧ Clean s := by
  unfold sanitize Clean
  dsimp only
  constructor
  · intro h
    cases decoded : String.fromUTF8? ⟨(lineFeeds body).toArray⟩ with
    | none =>
      rw [decoded] at h
      cases h
    | some text =>
      rw [decoded] at h
      dsimp only at h
      cases found : text.toList.find? fun c => isControl c && c != '\t' && c != '\n' with
      | some c =>
        rw [found] at h
        cases h
      | none =>
        rw [found] at h
        cases h
        refine ⟨rfl, text, decoded, fun c one control => ?_⟩
        have not_ := List.find?_eq_none.1 found c one
        rw [control, Bool.true_and, Bool.and_eq_true, bne_iff_ne, bne_iff_ne, not_and_or,
          not_not, not_not] at not_
        exact not_
  · rintro ⟨rfl, text, decoded, rule⟩
    have found : (text.toList.find? fun c => isControl c && c != '\t' && c != '\n') = none := by
      refine List.find?_eq_none.2 fun c one bad => ?_
      rw [Bool.and_eq_true, Bool.and_eq_true, bne_iff_ne, bne_iff_ne] at bad
      rcases rule c one bad.1.1 with tab | feed
      · exact bad.1.2 tab
      · exact bad.2 feed
    rw [decoded]
    dsimp only
    rw [found]

/-- Bytes with no carriage return have no line end to fold. -/
theorem lineFeeds_id (none_ : (0x0d : UInt8) ∉ s) : lineFeeds s = s := by
  induction s with
  | nil => rfl
  | cons b s ih =>
    rw [List.mem_cons, not_or] at none_
    rw [lineFeeds, ih none_.2]
    intro rest here _
    exact none_.1 here.symm

/-! ## 2. The markers of a paste -/

/-- What `write_paste_via` writes before the Enter. -/
def bracketed (s : Bytes) : Bytes := pasteStart ++ s ++ pasteEnd

/-- The escapes of a body in brackets are those of its brackets. -/
theorem bracketed_escape (clean : Clean s) {i : Nat} (here : (bracketed s)[i]? = some 0x1b) :
    i = 0 ∨ i = 6 + s.length := by
  rw [bracketed, List.append_assoc] at here
  rcases Nat.lt_or_ge i 6 with first | later
  · rw [List.getElem?_append_left first, marker_escape (by decide)] at here
    exact Or.inl here
  · rw [List.getElem?_append_right later] at here
    rcases Nat.lt_or_ge (i - pasteStart.length) s.length with inside | last
    · rw [List.getElem?_append_left inside] at here
      exact absurd (List.mem_of_getElem? here) (clean_no_escape clean)
    · rw [List.getElem?_append_right last, marker_escape (by decide)] at here
      have six : pasteStart.length = 6 := rfl
      right
      omega

theorem bracketed_opened (s : Bytes) : pasteStart <+: bracketed s := by
  rw [bracketed, List.append_assoc]
  exact List.prefix_append _ _

theorem bracketed_closed (s : Bytes) : (bracketed s).drop (6 + s.length) = pasteEnd := by
  rw [show 6 + s.length = (pasteStart ++ s).length by rw [List.length_append]; rfl, bracketed,
    List.drop_left]

/-- **A body in brackets opens its paste once**, at its start. -/
theorem bracketed_starts (clean : Clean s) (i : Nat) :
    pasteStart <+: (bracketed s).drop i ↔ i = 0 := by
  constructor
  · intro here
    have escape : (bracketed s)[i]? = some 0x1b := @marker_there _ _ _ here 0 (by decide)
    rcases bracketed_escape clean escape with first | last
    · exact first
    · rw [last, bracketed_closed] at here
      exact absurd here (by decide)
  · rintro rfl
    exact bracketed_opened s

/-- **And closes it once**, at its end. -/
theorem bracketed_ends (clean : Clean s) (i : Nat) :
    pasteEnd <+: (bracketed s).drop i ↔ i = 6 + s.length := by
  constructor
  · intro here
    have escape : (bracketed s)[i]? = some 0x1b := @marker_there _ _ _ here 0 (by decide)
    rcases bracketed_escape clean escape with first | last
    · rw [first, List.drop_zero] at here
      have same := List.prefix_of_prefix_length_le here (bracketed_opened s) (Nat.le_refl 6)
      exact absurd same (by decide)
    · exact last
  · rintro rfl
    rw [bracketed_closed]

/-! ## 3. A watch that reads it -/

/-- What is found after bytes too few to hold a marker: the opening one. -/
theorem next_bracketed {kept : Bytes} (few : kept.length < 6) (opened : Bool) (s : Bytes) :
    next (sought opened) (kept ++ bracketed s) = some (kept.length, pasteStart) := by
  have every : ∀ other ∈ sought opened, other ∈ sought true := by
    cases opened <;> decide
  refine next_eq (sought_six opened) (by decide) (by cases opened <;> decide) ?_ ?_
  · rw [List.drop_left]
    exact bracketed_opened s
  · intro place before other one here
    have six := sought_six opened other one
    -- It would reach the opening marker, whose escape is none of its own.
    have there := @marker_there _ _ _ here (kept.length - place) (by omega)
    have escape : (kept ++ bracketed s)[place + (kept.length - place)]? = some 0x1b := by
      rw [show place + (kept.length - place) = kept.length by omega,
        List.getElem?_append_right (Nat.le_refl _), Nat.sub_self]
      rfl
    have own := (marker_escape (every other one) _).1 (there.symm.trans escape)
    omega

/-- What is found after the opening marker: the closing one. -/
theorem closing_body (clean : Clean s) : closing (s ++ pasteEnd) = some s.length := by
  have found : next (sought true) (s ++ pasteEnd) = some (s.length, pasteEnd) := by
    refine next_eq (sought_six true) (by decide) (by decide) ?_ ?_
    · rw [List.drop_left]
    · intro place before other one here
      have six := sought_six true other one
      have there := @marker_there _ _ _ here 0 (by omega)
      rw [(marker_escape one 0).2 rfl, Nat.add_zero, List.getElem?_append_left before] at there
      exact clean_no_escape clean (List.mem_of_getElem? there)
  rw [next_in] at found
  cases hc : closing (s ++ pasteEnd) with
  | some stop =>
    rw [hc] at found
    cases found
    rfl
  | none =>
    rw [hc] at found
    obtain ⟨start, -, same⟩ := Option.map_eq_some_iff.1 found
    cases same

/-- What a watch finds in one paste, of `characters`, and what it was carrying of another. -/
structure OnePaste (w : PasteWatch) (s : Bytes) (read : PasteWatch × Fed) : Prop where
  ends : read.2.ends = [⟨(bracketed s).length, charactersIn s⟩]
  segments : ∃ restarted, read.2.segments = [.pasted restarted, .pasted (charactersIn s)] ∧
    (w.opened = none → restarted = 0)
  over_ : read.1.opened = none ∧ read.1.carried = []

theorem feedFrom_bracketed {kept : Bytes} (few : kept.length < 6) (clean : Clean s) (fuel : Nat)
    (opened : Option Nat) : ∃ restarted, (opened = none → restarted = 0) ∧
      feedFrom (bracketed s) (kept ++ bracketed s) kept.length (fuel + 3) opened 0 {} =
        (none, [], ⟨[⟨(bracketed s).length, charactersIn s⟩],
          [.pasted restarted, .pasted (charactersIn s)]⟩) := by
  have whole : (kept ++ bracketed s).drop (0 + kept.length + pasteStart.length) = s ++ pasteEnd := by
    rw [Nat.zero_add, List.drop_length_add_append, bracketed, List.append_assoc, List.drop_left]
  have left : (kept ++ bracketed s).drop
      (0 + kept.length + pasteStart.length + s.length + pasteEnd.length) = [] := by
    refine List.drop_eq_nil_of_le ?_
    rw [bracketed, List.length_append, List.length_append, List.length_append]
    omega
  have end_ : 0 + kept.length + pasteStart.length + s.length + pasteEnd.length - kept.length =
      (bracketed s).length := by
    rw [bracketed, List.length_append, List.length_append]
    omega
  have closed := closing_body clean
  rw [closing] at closed
  -- From its opening marker on, the paste is read whatever was open before.
  have rest : ∀ fed, feedFrom (bracketed s) (kept ++ bracketed s) kept.length (fuel + 2) (some 0)
      (0 + kept.length + pasteStart.length) fed =
        (none, [], (fed.pasted (charactersIn s)).ended (bracketed s).length (charactersIn s)) := by
    intro fed
    rw [feedFrom, whole, closed]
    dsimp only
    rw [feedFrom, left, List.take_left, end_, Nat.zero_add, Fed.typed, if_neg (Nat.lt_irrefl _)]
    rfl
  cases opened with
  | none =>
    obtain ⟨start, found, same⟩ := Option.map_eq_some_iff.1 (next_out.symm.trans
      (next_bracketed few false s))
    cases same
    refine ⟨0, fun _ => rfl, ?_⟩
    rw [feedFrom, List.drop_zero, found]
    dsimp only
    rw [rest, Fed.typed, Nat.zero_add, Nat.sub_self, Nat.zero_sub, if_neg (Nat.lt_irrefl 0)]
    rfl
  | some characters =>
    have found := next_in.symm.trans (next_bracketed few true s)
    cases hc : closing (kept ++ bracketed s) with
    | some stop =>
      rw [hc] at found
      cases found
    | none =>
      rw [hc] at found
      obtain ⟨start, opening, same⟩ := Option.map_eq_some_iff.1 found
      cases same
      rw [closing] at hc
      refine ⟨charactersIn ((kept ++ bracketed s).take kept.length), fun none_ => ?_, ?_⟩
      · cases none_
      · rw [feedFrom, List.drop_zero, hc, opening]
        dsimp only
        rw [rest]
        rfl

/-- **Any watch that reads a clean body in brackets finds one paste, and no key.** -/
theorem feed_bracketed {w : PasteWatch} (reached : w.Reached) (clean : Clean s) (now : Nat) :
    OnePaste w s (w.feed (bracketed s) now) := by
  obtain ⟨stream, stands⟩ := reached_stands reached
  obtain ⟨stream', stands⟩ := resumed_stands stands now
  have few : (w.resumed now).carried.length < 6 := by
    rw [stands.carried, carriedAfter, carried_length]
    exact carry_could.2
  have enough : ∃ fuel, ((w.resumed now).carried ++ bracketed s).length + 1 = fuel + 3 := by
    refine ⟨((w.resumed now).carried ++ bracketed s).length - 2, ?_⟩
    have twelve : 12 ≤ ((w.resumed now).carried ++ bracketed s).length := by
      rw [bracketed, List.length_append, List.length_append, List.length_append]
      show 12 ≤ _ + (6 + s.length + 6)
      omega
    omega
  obtain ⟨fuel, enough⟩ := enough
  obtain ⟨restarted, alone, scanned⟩ := feedFrom_bracketed few clean fuel (w.resumed now).opened
  have still : w.opened = none → (w.resumed now).opened = none := by
    intro none_
    unfold PasteWatch.resumed
    cases w.idleSince.any fun since => decide (w.abandonedAfter < now - since) with
    | true => rfl
    | false => exact none_
  rw [PasteWatch.feed, enough]
  dsimp only
  rw [scanned]
  exact ⟨rfl, ⟨restarted, rfl, fun none_ => alone (still none_)⟩, rfl, rfl⟩

/-! ## 4. A delivery -/

/-- A body that may be delivered: clean, taken again as it is, and in its brackets the one paste. -/
structure StaysInPaste (s : Bytes) : Prop where
  clean : Clean s
  again : sanitize s = .ok s
  starts : ∀ i, pasteStart <+: (bracketed s).drop i ↔ i = 0
  ends : ∀ i, pasteEnd <+: (bracketed s).drop i ↔ i = 6 + s.length
  read : ∀ (w : PasteWatch) (now : Nat), w.Reached → OnePaste w s (w.feed (bracketed s) now)

theorem sanitized_stays (h : sanitize body = .ok s) : StaysInPaste s := by
  have clean := (sanitize_ok.1 h).2
  exact ⟨clean, sanitize_ok.2 ⟨(lineFeeds_id (clean_no_return clean)).symm, clean⟩,
    bracketed_starts clean, bracketed_ends clean,
    fun w now reached => feed_bracketed reached clean now⟩

variable {env : Env} {pane : PaneKey}

theorem visitAnyway_sent (f : Nat → PaneInputState → PaneInputState) (t : Trace) :
    (visitAnyway env pane f t).2.sent = t.sent := visit_sent f t

/-- What came of a paste's write: a failure, once the paste is over, or what follows. -/
theorem landed_fail_sent (pasted begun : Bool) (error : PaneError) (t : Trace) :
    ((landed env pane pasted >>= fun _ => failInput env pane error begun) t).2.sent = t.sent := by
  rw [bind_run]
  exact (failInput_sent error begun _).trans (visitAnyway_sent _ t)

theorem failInput_fails (error : PaneError) (begun : Bool) (t : Trace) :
    (failInput env pane error begun t).1 ≠ .ok () := by
  intro ok
  unfold failInput at ok
  cases h : !begun && error.isNotFound with
  | true =>
    rw [h, if_pos rfl] at ok
    cases ok
  | false =>
    rw [h, if_neg Bool.false_ne_true] at ok
    cases ok

/-- A paste and its Enter: what is written is both of them, or the paste. -/
theorem pasteAndEnter_sent (s : Bytes) (t : Trace) :
    (pasteAndEnter env pane s t).2.sent.map Prod.fst <+:
        t.sent.map Prod.fst ++ [bracketed s, [0x0d]] ∧
      ((pasteAndEnter env pane s t).1 = .ok () →
        (pasteAndEnter env pane s t).2.sent.map Prod.fst =
          t.sent.map Prod.fst ++ [bracketed s, [0x0d]]) := by
  unfold pasteAndEnter
  rw [bind_run]
  simp only [put]
  cases env.write t.sent.length with
  | some error =>
    dsimp only
    refine ⟨?_, fun ok => ?_⟩
    · rw [landed_fail_sent, List.map_append]
      exact (List.prefix_append_right_inj _).2 (List.prefix_append [bracketed s] [[0x0d]])
    · rw [bind_run] at ok
      exact absurd ok (failInput_fails error false _)
  | none =>
    dsimp only
    rw [bind_run]
    simp only [put]
    have both : ∀ ended ended' : Option PaneError,
        (t.sent ++ [(bracketed s, ended)] ++ [([0x0d], ended')]).map Prod.fst =
          t.sent.map Prod.fst ++ [bracketed s, [0x0d]] := by
      intro ended ended'
      rw [List.map_append, List.map_append, List.append_assoc]
      rfl
    cases env.write (t.sent ++ [(pasteStart ++ s ++ pasteEnd, none)]).length with
    | some error =>
      dsimp only
      rw [landed_fail_sent]
      exact ⟨(both none (some error)) ▸ List.prefix_rfl, fun _ => both none (some error)⟩
    | none =>
      dsimp only
      unfold landed
      rw [visitAnyway_sent]
      exact ⟨(both none none) ▸ List.prefix_rfl, fun _ => both none none⟩

theorem writePaste_sent (h : sanitize body = .ok s) (readEmpty : Option Nat) :
    (writePaste env pane body readEmpty {}).2.sent.map Prod.fst <+: [bracketed s, [0x0d]] ∧
      ((writePaste env pane body readEmpty {}).1 = .ok () →
        (writePaste env pane body readEmpty {}).2.sent.map Prod.fst = [bracketed s, [0x0d]]) := by
  unfold writePaste
  rw [h]
  dsimp only
  rw [bind_run]
  have none_ := @visit_sent env pane (fun _ state => state.inFlight readEmpty) {}
  cases found : visit env pane (fun _ state => state.inFlight readEmpty) {} with
  | mk answer t =>
    rw [found] at none_
    dsimp only at none_
    cases answer with
    | error e =>
      dsimp only
      rw [none_]
      refine ⟨List.nil_prefix, fun ok => ?_⟩
      cases ok
    | ok state =>
      dsimp only
      rw [bind_run]
      have kept := @validateAdmission_kept pane state t
      cases admitted : validateAdmission pane state t with
      | mk answer t' =>
        rw [admitted] at kept
        dsimp only at kept
        subst kept
        have nothing : t'.sent.map Prod.fst = [] := by
          rw [none_]
          rfl
        cases answer with
        | error e =>
          dsimp only
          rw [nothing]
          refine ⟨List.nil_prefix, fun ok => ?_⟩
          cases ok
        | ok u =>
          dsimp only
          cases state.holds readEmpty with
          | true =>
            rw [if_pos rfl]
            refine ⟨?_, fun ok => ?_⟩
            · show t'.sent.map Prod.fst <+: _
              rw [nothing]
              exact List.nil_prefix
            · cases ok
          | false =>
            rw [if_neg Bool.false_ne_true]
            have went := @pasteAndEnter_sent env pane s t'
            rw [nothing, List.nil_append] at went
            exact went

/-- **A delivered body cannot leave its paste**: of a body that `sanitize` accepts, what is written
    is it in brackets, then Enter, and it stays in its paste; of a body refused, nothing is. -/
theorem body_stays_in_paste (body : Bytes) (readEmpty : Option Nat) (env : Env) (pane : PaneKey) :
    match sanitize body with
    | .error e => (InputWork.paste body readEmpty).run env pane = (.error (.invalidBody e), {})
    | .ok s => StaysInPaste s ∧
        ((InputWork.paste body readEmpty).run env pane).2.sent.map Prod.fst <+:
          [bracketed s, [0x0d]] ∧
        (((InputWork.paste body readEmpty).run env pane).1 = .ok () →
          ((InputWork.paste body readEmpty).run env pane).2.sent.map Prod.fst =
            [bracketed s, [0x0d]]) := by
  cases h : sanitize body with
  | error e =>
    show writePaste env pane body readEmpty {} = _
    rw [writePaste, h]
    rfl
  | ok s => exact ⟨sanitized_stays h, writePaste_sent h readEmpty⟩

end Panes
end ConsensFlow
