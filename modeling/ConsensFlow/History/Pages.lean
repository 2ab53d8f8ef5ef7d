/-
  File:      ConsensFlow/History/Pages.lean
  Subject:   PAGES OF ANY SIZE SHOW THE HISTORY ONCE: whatever room and bound each read has, the reads
             that follow each answer's place end, and show each item wanted once, in order.

  * `rows_goes`, `conversation_goes`, `conversations_goes` -- a read's three loops;
  * `left_start` -- what is left of the place a read begins at is what it comes to;
  * **`readHistory_page`** -- one read, and **`pages`** -- those that follow one another.
-/
import ConsensFlow.History.Items

namespace ConsensFlow
namespace History

open Lib Lib.Lines Lib.Search

variable {a : Asked} {owes : List Copied} {most : Nat} {r r' : Reading} {rest : List Atom} {part : Nat}
  {i : Copied} {met : Met}

/-! ## 1. A conversation gone through -/

/-- A row met is the item at it. -/
theorem meet_spec (h : At a owes most r (.item i :: rest) part) (full : r.full = false)
    (bounded : r.bounded = false) :
    At a owes most (r.meet a i).1 (.item i :: rest) part ∧ (r.meet a i).1.full = false ∧
      ((r.meet a i).1.bounded = true → Stopped a owes most (r.meet a i).1) ∧
      ((r.meet a i).1.bounded = false → (r.meet a i).2.Of i) := by
  unfold Reading.meet
  dsimp only
  generalize hr : (Reading.mk r.entries r.used ⟨r.scanned.conversations, r.scanned.rows + 1, r.scanned.parts,
    r.scanned.bytes, r.scanned.fields + i.fieldBytes⟩ r.resume r.full r.bounded) = r₁
  have there : At a owes most r₁ (.item i :: rest) part := by
    rw [← hr]
    exact h.same rfl rfl
  have full₁ : r₁.full = false := by
    rw [← hr]
    exact full
  have bounded₁ : r₁.bounded = false := by
    rw [← hr]
    exact bounded
  cases hd : i.diff with
  | none =>
    refine ⟨there, full₁, fun stops => ?_, fun _ => of_of hd⟩
    rw [bounded₁] at stops
    cases stops
  | some diff =>
    dsimp only
    have met := may_at there (partCost + octets diff)
    have full₂ := (Reading.may_full a (partCost + octets diff) r₁).trans full₁
    split
    · rename_i stops
      refine ⟨met, full₂, fun _ => stopped_of_may there bounded₁ stops, fun free => ?_⟩
      rw [stops] at free
      cases free
    · rename_i free
      refine ⟨met.same rfl rfl, full₂, fun stops => absurd stops free, fun _ => withDiff_of hd⟩

/-- The part of an item a read begins at. -/
def fromPart (within : Option HistoryKey) (i : Copied) : Nat :=
  ((within.filter fun place => place.row == (i.row : Int)).map HistoryKey.part).getD 0

/-- A read that stopped, or goes on to `rest`. -/
def Goes (a : Asked) (owes : List Copied) (most : Nat) (rest : List Atom) (r : Reading) : Prop :=
  Stopped a owes most r ∨ At a owes most r rest 0 ∧ r.full = false ∧ r.bounded = false

/-- **The rows of a conversation**, one after the other. -/
theorem rows_goes (short : a.Short) {within : Option HistoryKey} {items : List Copied}
    (first : ∀ i, items.head? = some i → fromPart within i = part)
    (others : ∀ i ∈ items.tail, fromPart within i = 0) (none_ : items = [] → part = 0)
    (h : At a owes most r (items.map .item ++ rest) part) (full : r.full = false)
    (bounded : r.bounded = false) : Goes a owes most rest (r.rows a within items) := by
  induction items generalizing r part with
  | nil =>
    unfold Reading.rows
    cases hb : (r.may a (rowCost + rowFields)).bounded with
    | true => exact .inl (stopped_of_may h bounded hb)
    | false =>
      cases none_ rfl
      exact .inr ⟨may_at h _, (Reading.may_full _ _ _).trans full, hb⟩
  | cons i items ih =>
    unfold Reading.rows
    dsimp only
    split
    · rename_i stops
      exact .inl (stopped_of_may h bounded stops)
    · rename_i free
      have there := may_at h (rowCost + rowFields)
      have full := (Reading.may_full a (rowCost + rowFields) r).trans full
      generalize r.may a (rowCost + rowFields) = r₁ at there full free ⊢
      obtain ⟨met_, full₂, stopped, of⟩ := meet_spec there full (Bool.not_eq_true _ ▸ free)
      split
      · rename_i stops
        exact .inl (stopped stops)
      · rename_i free₂
        have bounded₂ : (r₁.meet a i).1.bounded = false := Bool.not_eq_true _ ▸ free₂
        have of := of bounded₂
        have part_ : ((within.filter fun place => place.row == (r₁.meet a i).2.key.row).map
            HistoryKey.part).getD 0 = part := by
          rw [of.key]
          exact first i rfl
        rw [part_]
        have on : ∀ answer, Dealt a owes most (items.map .item ++ rest) answer →
            Goes a owes most rest (if answer.2 = true then answer.1.rows a within items else answer.1) := by
          intro answer dealt
          cases dealt with
          | stopped there => exact .inl there
          | done there full bounded =>
            refine ih (fun j hj => ?_) (fun j hj => ?_) (fun _ => rfl) there full bounded
            · exact others j (List.mem_of_mem_head? (Option.mem_def.2 hj))
            · exact others j (List.mem_of_mem_tail hj)
        cases hn : a.needle with
        | none =>
          refine on _ (showItem_dealt met_ ?_ of full₂ bounded₂)
          unfold Asked.wants
          rw [hn]
          rfl
        | some needle => exact on _ (search_dealt of short hn met_ full₂ bounded₂)

namespace Asked

/-- The place a read began at, where it is in conversation `c`. -/
def within (a : Asked) (c : Conversation) : Option HistoryKey :=
  a.start.filter fun key => key.conversation == (c.id : Int)

/-- The rows of conversation `c` a read goes through. -/
def rowsLeft (a : Asked) (c : Conversation) : List Copied :=
  (a.items c.id).filter fun i => a.ahead (a.bound (a.within c)).1 i.row ||
    ((a.bound (a.within c)).2 && (a.bound (a.within c)).1 == (i.row : Int))

/-- What is left of conversation `c`: not its end, where the read began there. -/
def leftOf (a : Asked) (c : Conversation) : List Atom :=
  (a.rowsLeft c).map .item ++
    if (a.within c).all fun key => a.ahead key.row a.edge then [.ends c.id] else []

/-- A conversation the read did not begin in is gone through whole. -/
theorem rowsLeft_none {c : Conversation} (h : a.within c = none) : a.rowsLeft c = a.items c.id := by
  unfold rowsLeft
  rw [h]
  refine List.filter_eq_self.2 fun i hi => ?_
  obtain ⟨-, first, last⟩ := items_spec hi
  refine Bool.or_eq_true_iff.2 (.inl ?_)
  rw [ahead_iff]
  unfold bound
  dsimp only
  split
  · exact last
  · show (0 : Int) < i.row
    omega

theorem leftOf_none {c : Conversation} (h : a.within c = none) : a.leftOf c = a.atomsOf c := by
  unfold leftOf
  rw [rowsLeft_none h, h]
  rfl

end Asked

/-- **A conversation gone through** to its end. -/
theorem conversation_goes (short : a.Short) {c : Conversation}
    (first : ∀ i, (a.rowsLeft c).head? = some i → fromPart (a.within c) i = part)
    (others : ∀ i ∈ (a.rowsLeft c).tail, fromPart (a.within c) i = 0)
    (none_ : a.rowsLeft c = [] → part = 0)
    (valid : ∀ key, a.start = some key → key.row = a.edge ∨ a.ahead key.row a.edge = true)
    (begun : a.within c ≠ none → r.resume = a.start ∧ (a.start.map HistoryKey.part).getD 0 = part)
    (h : At a owes most r (a.leftOf c ++ rest) part) (full : r.full = false) (bounded : r.bounded = false) :
    Goes a owes most rest (r.conversation a c.id (a.within c)) := by
  unfold Reading.conversation
  dsimp only
  have rows_ : ((a.items c.id).filter fun i => a.ahead (a.bound (a.within c)).1 i.row ||
      ((a.bound (a.within c)).2 && (a.bound (a.within c)).1 == (i.row : Int))) = a.rowsLeft c := rfl
  rw [rows_]
  unfold Asked.leftOf at h
  rw [List.append_assoc] at h
  have goes := rows_goes short first others none_ h full bounded
  cases hw : (a.within c).all fun key => a.ahead key.row a.edge with
  | true =>
    rw [hw] at goes
    rcases goes with stopped | ⟨there, full, bounded⟩
    · rw [if_pos (by
        rw [Bool.or_eq_true]
        exact stopped.short)]
      exact .inl stopped
    · rw [if_neg (by rw [full, bounded]; decide)]
      exact .inr ⟨there.ends rfl rfl, full, bounded⟩
  | false =>
    -- The read began at the conversation's end: nothing is left of it.
    rw [hw] at goes
    obtain ⟨key, hkey, notAhead⟩ : ∃ key, a.within c = some key ∧ a.ahead key.row a.edge = false := by
      cases hk : a.within c with
      | none =>
        rw [hk] at hw
        cases hw
      | some key =>
        rw [hk] at hw
        exact ⟨key, rfl, hw⟩
    obtain ⟨start, conversation⟩ := Option.filter_eq_some_iff.1 hkey
    have edge : key.row = a.edge :=
      (valid key start).resolve_right (by rw [notAhead]; decide)
    have empty : a.rowsLeft c = [] := by
      refine List.filter_eq_nil_iff.2 fun i hi past => ?_
      have before := Asked.ahead_edge hi
      rw [hkey] at past
      have past : (a.ahead key.row i.row || (decide (0 < key.part) && key.row == (i.row : Int))) = true :=
        past
      rw [edge, Asked.ahead_one_way before, Bool.false_or, Bool.and_eq_true, beq_iff_eq] at past
      rw [← past.2, Asked.ahead_self] at before
      cases before
    obtain ⟨resume, part_⟩ := begun (by rw [hkey]; exact Option.some_ne_none _)
    rw [none_ empty, start] at part_
    have part_ : key.part = 0 := part_
    rw [empty] at goes ⊢
    rcases goes with stopped | ⟨there, full, bounded⟩
    · rw [if_pos (by
        rw [Bool.or_eq_true]
        exact stopped.short)]
      exact .inl stopped
    · rw [if_neg (by rw [full, bounded]; decide)]
      refine .inr ⟨there.same rfl ?_, full, bounded⟩
      show some (HistoryKey.mk c.id a.edge 0) = (r.rows a (a.within c) []).resume
      unfold Reading.rows
      rw [Reading.may_resume, resume, start, ← edge, ← beq_iff_eq.1 conversation, ← part_]

/-- What a read must know of conversation `c` where it begins to go through it. -/
structure Begins (a : Asked) (r : Reading) (c : Conversation) (part : Nat) : Prop where
  first : ∀ i, (a.rowsLeft c).head? = some i → fromPart (a.within c) i = part
  others : ∀ i ∈ (a.rowsLeft c).tail, fromPart (a.within c) i = 0
  none_ : a.rowsLeft c = [] → part = 0
  begun : a.within c ≠ none → r.resume = a.start ∧ (a.start.map HistoryKey.part).getD 0 = part

theorem begins_whole {c : Conversation} (h : a.within c = none) : Begins a r c 0 :=
  ⟨fun _ _ => by rw [h]; rfl, fun _ _ => by rw [h]; rfl, fun _ => rfl, fun some_ => absurd h some_⟩

/-- A place a read can begin at: no further than a conversation's end. -/
def Edged (a : Asked) : Prop :=
  ∀ key, a.start = some key → key.row = a.edge ∨ a.ahead key.row a.edge = true

/-- The next conversation, and those after it. -/
theorem conversations_step (short : a.Short) (edged : Edged a) {c : Conversation} {cs : List Conversation}
    {past : Int} (ahead : a.ahead past c.id = true) (begins : Begins a r c part)
    (on : ∀ r₂, At a owes most r₂ rest 0 → r₂.full = false → r₂.bounded = false →
      Goes a owes most [] (r₂.conversations a c.id cs))
    (h : At a owes most r (a.leftOf c ++ rest) part) (full : r.full = false) (bounded : r.bounded = false) :
    Goes a owes most [] (r.conversations a past (c :: cs)) := by
  unfold Reading.conversations
  rw [if_pos ahead]
  dsimp only
  split
  · rename_i stops
    exact .inl (stopped_of_may h bounded stops)
  · rename_i free
    have there := may_at h conversationCost
    have full := (Reading.may_full a conversationCost r).trans full
    have resume := Reading.may_resume a conversationCost r
    generalize r.may a conversationCost = r₁ at there full free resume ⊢
    have goes := conversation_goes (r := { r₁ with scanned.conversations := r₁.scanned.conversations + 1 })
      short begins.first begins.others begins.none_ edged
      (fun some_ => ⟨resume.trans (begins.begun some_).1, (begins.begun some_).2⟩) (there.same rfl rfl) full
      (Bool.not_eq_true _ ▸ free)
    have within : (a.start.filter fun key => key.conversation == (c.id : Int)) = a.within c := rfl
    rw [within]
    generalize Reading.conversation a c.id (a.within c) _ = r₂ at goes ⊢
    rcases goes with stopped | ⟨there, full, bounded⟩
    · rw [if_pos (by
        rw [Bool.or_eq_true]
        exact stopped.short)]
      exact .inl stopped
    · rw [if_neg (by rw [full, bounded]; decide)]
      exact on r₂ there full bounded

/-- **The conversations after the one a read began in**, one after the other. -/
theorem conversations_goes (short : a.Short) (edged : Edged a) {cs : List Conversation} {past : Int}
    (ahead : ∀ c ∈ cs, a.ahead past c.id = true)
    (sorted : cs.Pairwise fun c d => a.ahead c.id d.id = true) (whole : ∀ c ∈ cs, a.within c = none)
    (h : At a owes most r (cs.flatMap a.leftOf) 0) (full : r.full = false) (bounded : r.bounded = false) :
    Goes a owes most [] (r.conversations a past cs) := by
  induction cs generalizing r past with
  | nil =>
    unfold Reading.conversations
    cases hb : (r.may a conversationCost).bounded with
    | true => exact .inl (stopped_of_may h bounded hb)
    | false => exact .inr ⟨may_at h _, (Reading.may_full _ _ _).trans full, hb⟩
  | cons c cs ih =>
    obtain ⟨after, sorted⟩ := List.pairwise_cons.1 sorted
    exact conversations_step short edged (ahead c List.mem_cons_self)
      (begins_whole (whole c List.mem_cons_self))
      (fun r₂ there full bounded => ih after sorted
        (fun d hd => whole d (List.mem_cons_of_mem _ hd)) there full bounded)
      h full bounded

/-- Conversations before the place are not come to. -/
theorem conversations_skip {cs : List Conversation} {past : Int}
    (sorted : cs.Pairwise fun c d => a.ahead c.id d.id = true) (r : Reading) :
    r.conversations a past cs = r.conversations a past (cs.filter fun c => a.ahead past c.id) := by
  induction cs with
  | nil => rfl
  | cons c cs ih =>
    obtain ⟨after, sorted⟩ := List.pairwise_cons.1 sorted
    rw [List.filter_cons]
    split
    · rename_i ahead
      rw [List.filter_eq_self.2 fun d hd => Asked.ahead_trans ahead (after d hd)]
    · rename_i behind
      rw [← ih sorted]
      conv => lhs; unfold Reading.conversations
      rw [if_neg behind]

/-! ## 2. Where a read begins -/

namespace Asked

/-- The conversations a read comes to. -/
def come (a : Asked) : List Conversation := a.conversations.filter fun c => a.ahead a.past c.id

theorem later_trans {p q s : Int × Int} (h : a.later p q = true) (h' : a.later q s = true) :
    a.later p s = true := by
  unfold later at h h' ⊢
  rw [Bool.or_eq_true, Bool.and_eq_true, beq_iff_eq] at h h' ⊢
  rcases h with h | ⟨same, h⟩ <;> rcases h' with h' | ⟨same', h'⟩
  · exact .inl (ahead_trans h h')
  · exact .inl (same' ▸ h)
  · exact .inl (same ▸ h')
  · exact .inr ⟨same.trans same', ahead_trans h h'⟩

/-- What is left is the end of what there is. -/
theorem left_suffix (key : Option HistoryKey) : ∃ before, a.atoms = before ++ a.left key := by
  cases key with
  | none => exact ⟨[], rfl⟩
  | some key =>
    have suffix : a.left (some key) <:+ a.atoms := by
      refine Paging.filter_suffix (atoms_sorted.imp fun {x y} later kept => ?_)
      rw [Bool.or_eq_true, Bool.and_eq_true, decide_eq_true_iff, decide_eq_true_iff] at kept
      rw [Bool.or_eq_true]
      rcases kept with kept | ⟨-, same⟩
      · exact .inl (later_trans kept later)
      · exact .inl (same ▸ later)
    obtain ⟨before, whole⟩ := suffix
    exact ⟨before, whole.symm⟩

/-- A conversation a read begun at `key` comes to: the place's own, or one past it. -/
theorem ahead_past {key : HistoryKey} (start : a.start = some key) {c : Conversation}
    (h : c ∈ a.conversations) : a.ahead a.past c.id = true ↔
      key.conversation = c.id ∨ a.ahead key.conversation c.id = true := by
  have last := conversations_spec h
  have max : maxRow = 2 ^ 63 - 1 := rfl
  have min_ : minRow = -2 ^ 63 := rfl
  rw [ahead_iff, ahead_iff]
  unfold past
  rw [start]
  dsimp only
  split <;> omega

theorem within_some {key : HistoryKey} (start : a.start = some key) {c : Conversation}
    (same : key.conversation = c.id) : a.within c = some key := by
  unfold within
  rw [start, Option.filter_some, if_pos (beq_iff_eq.2 same)]

theorem within_none {c : Conversation}
    (other : ∀ key, a.start = some key → key.conversation ≠ c.id) : a.within c = none := by
  unfold within
  cases hs : a.start with
  | none => rfl
  | some key => rw [Option.filter_some, if_neg (fun same => other key hs (beq_iff_eq.1 same))]

end Asked

/-- A place a read can begin at. -/
structure Starts (a : Asked) : Prop where
  newest : a.start = none → a.newestFirst = true
  place : Place a a.start (a.left a.start) ((a.start.map HistoryKey.part).getD 0)

/-- A place inside an item is not at a conversation's end. -/
theorem Starts.inner (starts : Starts a) {key : HistoryKey} (hs : a.start = some key)
    (some_ : 0 < key.part) : ∃ i, i ∈ a.items i.conversation ∧ key.conversation = i.conversation ∧
      key.row = i.row ∧ ∃ c ∈ a.conversations, c.id = i.conversation := by
  have part : (a.start.map HistoryKey.part).getD 0 = key.part := by
    rw [hs]
    rfl
  obtain ⟨i, more, left, -, place⟩ := starts.place.inside (part ▸ some_)
  obtain ⟨before, whole⟩ := Asked.left_suffix (a := a) a.start
  have mem : .item i ∈ a.atoms := by
    rw [whole, left]
    exact List.mem_append_right _ List.mem_cons_self
  have hi := Asked.item_of_atoms mem
  rw [hs] at place
  obtain ⟨c, hc, ha⟩ := List.mem_flatMap.1 mem
  refine ⟨i, hi, congrArg HistoryKey.conversation (Option.some.inj place),
    congrArg HistoryKey.row (Option.some.inj place), c, hc, ?_⟩
  exact Int.ofNat.inj (Asked.spot_atomsOf ha).symm

/-- The filter a place is, of what there is of one conversation. -/
theorem leftOf_here (starts : Starts a) {key : HistoryKey} (hs : a.start = some key) {c : Conversation}
    (same : key.conversation = c.id) :
    (a.atomsOf c).filter (fun atom => a.later (key.conversation, key.row) (a.spot atom) ||
      (decide (0 < key.part) && decide ((key.conversation, key.row) = a.spot atom))) = a.leftOf c := by
  unfold Asked.atomsOf Asked.leftOf Asked.rowsLeft
  rw [Asked.within_some hs same, List.filter_append, List.filter_map]
  congr 1
  · congr 1
    refine List.filter_congr fun i hi => ?_
    have conversation : (i.conversation : Int) = key.conversation := by
      rw [same, (Asked.items_spec hi).1]
    show (a.later (key.conversation, key.row) (i.conversation, i.row) ||
      (decide (0 < key.part) && decide ((key.conversation, key.row) = ((i.conversation : Int), (i.row : Int))))) =
      (a.ahead key.row i.row || (decide (0 < key.part) && key.row == (i.row : Int)))
    unfold Asked.later
    rw [conversation, Asked.ahead_self, Bool.false_or, beq_self_eq_true, Bool.true_and]
    congr 2
    rw [Bool.eq_iff_iff, decide_eq_true_iff, beq_iff_eq, Prod.mk.injEq]
    exact ⟨And.right, fun row => ⟨rfl, row⟩⟩
  · have notInside : (decide (0 < key.part) &&
        decide ((key.conversation, key.row) = a.spot (.ends c.id))) = false := by
      cases hp : decide (0 < key.part) with
      | false => rfl
      | true =>
        obtain ⟨i, hi, -, row, -⟩ := starts.inner hs (of_decide_eq_true hp)
        have before := Asked.ahead_edge hi
        refine decide_eq_false fun e => ?_
        have edge : key.row = a.edge := congrArg Prod.snd e
        rw [← row, edge, Asked.ahead_self] at before
        cases before
    rw [List.filter_cons, notInside, Bool.or_false, List.filter_nil, Option.all_some]
    unfold Asked.later Asked.spot
    rw [same, Asked.ahead_self, Bool.false_or, beq_self_eq_true, Bool.true_and]

/-- **What is left of the place a read begins at** is what it comes to. -/
theorem left_start (starts : Starts a) : a.left a.start = a.come.flatMap a.leftOf := by
  have each : ∀ (p : Conversation → Bool) (f g : Conversation → List Atom) (cs : List Conversation),
      (∀ c ∈ cs, f c = if p c then g c else []) → cs.flatMap f = (cs.filter p).flatMap g := by
    intro p f g cs
    induction cs with
    | nil => exact fun _ => rfl
    | cons c cs ih =>
      intro h
      rw [List.flatMap_cons, ih fun d hd => h d (List.mem_cons_of_mem _ hd), h c List.mem_cons_self,
        List.filter_cons]
      split <;> rfl
  cases hs : a.start with
  | none =>
    refine each _ _ _ _ fun c hc => ?_
    have ahead : a.ahead a.past c.id = true := by
      rw [Asked.ahead_iff, if_pos (starts.newest hs)]
      unfold Asked.past
      rw [hs]
      exact Asked.conversations_spec hc
    rw [if_pos ahead, Asked.leftOf_none (Asked.within_none fun key h => nomatch hs.symm.trans h)]
  | some key =>
    unfold Asked.left Asked.atoms
    dsimp only
    rw [List.filter_flatMap]
    refine each _ _ _ _ fun c hc => ?_
    split
    · rename_i ahead
      rcases (Asked.ahead_past hs hc).1 ahead with same | past
      · exact leftOf_here starts hs same
      · have other : key.conversation ≠ c.id := by
          intro same
          rw [same, Asked.ahead_self] at past
          cases past
        rw [Asked.leftOf_none (Asked.within_none fun key' h => by
          cases hs.symm.trans h
          exact other)]
        refine List.filter_eq_self.2 fun x hx => ?_
        rw [Bool.or_eq_true]
        refine .inl (Bool.or_eq_true_iff.2 (.inl ?_))
        rw [Asked.spot_atomsOf hx]
        exact past
    · rename_i behind
      have notAhead := fun h => behind ((Asked.ahead_past hs hc).2 h)
      refine List.filter_eq_nil_iff.2 fun x hx kept => ?_
      have spot := Asked.spot_atomsOf hx
      rw [Bool.or_eq_true, Bool.and_eq_true, decide_eq_true_iff, decide_eq_true_iff] at kept
      rcases kept with kept | ⟨-, same⟩
      · unfold Asked.later at kept
        rw [Bool.or_eq_true, Bool.and_eq_true, beq_iff_eq, spot] at kept
        exact notAhead (kept.elim .inr fun h => .inl h.1)
      · exact notAhead (.inl ((congrArg Prod.fst same).trans spot))

theorem come_sorted : a.come.Pairwise fun c d => a.ahead c.id d.id = true :=
  Asked.conversations_sorted.sublist List.filter_sublist

/-- The place is in the first conversation a read comes to, if in any. -/
theorem come_within {c : Conversation} {cs : List Conversation} (hcome : a.come = c :: cs) :
    ∀ d ∈ cs, a.within d = none := by
  intro d hd
  have sorted := come_sorted (a := a)
  rw [hcome] at sorted
  have after := (List.pairwise_cons.1 sorted).1 d hd
  refine Asked.within_none fun key hs same => ?_
  have hc : c ∈ a.come := hcome ▸ List.mem_cons_self
  obtain ⟨hc, ahead⟩ := List.mem_filter.1 hc
  rw [← same] at after
  rcases (Asked.ahead_past hs hc).1 ahead with here | past
  · rw [here, Asked.ahead_self] at after
    cases after
  · rw [Asked.ahead_one_way past] at after
    cases after

/-- The rows a read begins at: from the one it stopped inside, where it did. -/
theorem come_begins (starts : Starts a) {c : Conversation} {cs : List Conversation}
    (hcome : a.come = c :: cs) (begun : r.resume = a.start) :
    Begins a r c ((a.start.map HistoryKey.part).getD 0) := by
  have still : a.within c ≠ none → r.resume = a.start ∧ (a.start.map HistoryKey.part).getD 0 =
      (a.start.map HistoryKey.part).getD 0 := fun _ => ⟨begun, rfl⟩
  cases hs : a.start with
  | none =>
    have none_ : a.within c = none := Asked.within_none fun key h => nomatch hs.symm.trans h
    exact ⟨fun _ _ => by rw [none_]; rfl, fun _ _ => by rw [none_]; rfl, fun _ => rfl,
      fun some_ => absurd none_ some_⟩
  | some key =>
    rw [hs] at still
    show Begins a r c key.part
    rcases Nat.eq_zero_or_pos key.part with whole | some_
    · have zero : ∀ i, fromPart (a.within c) i = 0 := by
        intro i
        unfold fromPart Asked.within
        rw [hs]
        cases hf : ((some key).filter fun key => key.conversation == (c.id : Int)).filter
            fun place => place.row == (i.row : Int) with
        | none => rfl
        | some place =>
          have e := (Option.filter_eq_some_iff.1 (Option.filter_eq_some_iff.1 hf).1).1
          cases e
          exact whole
      exact ⟨fun i _ => (zero i).trans whole.symm, fun i _ => zero i, fun _ => whole, hs ▸ still⟩
    · -- The read stopped inside an item: it is the first left.
      obtain ⟨i, hi, conversation, row, d, hd, id⟩ := starts.inner hs some_
      have here : d ∈ a.come :=
        List.mem_filter.2 ⟨hd, (Asked.ahead_past hs hd).2 (.inl (by rw [conversation, id]))⟩
      have within : a.within d = some key := Asked.within_some hs (by rw [conversation, id])
      rw [hcome] at here
      rcases List.mem_cons.1 here with rfl | later
      · have mem : i ∈ a.rowsLeft d := by
          refine List.mem_filter.2 ⟨id.symm ▸ hi, ?_⟩
          rw [within]
          show (_ || (decide (0 < key.part) && key.row == (i.row : Int))) = true
          rw [decide_eq_true some_, row, beq_self_eq_true]
          exact Bool.or_true _
        have sorted : (a.rowsLeft d).Pairwise fun x y => a.ahead x.row y.row = true :=
          (Asked.items_sorted d.id).sublist List.filter_sublist
        cases hr : a.rowsLeft d with
        | nil =>
          rw [hr] at mem
          cases mem
        | cons x more =>
          rw [hr] at mem sorted
          obtain ⟨after, -⟩ := List.pairwise_cons.1 sorted
          have first : x.row = i.row := by
            rcases List.mem_cons.1 mem with rfl | before
            · rfl
            · have before := after i before
              have hx : x ∈ a.rowsLeft d := hr ▸ List.mem_cons_self
              have past := (List.mem_filter.1 hx).2
              rw [within] at past
              have past : (a.ahead key.row x.row || (decide (0 < key.part) && key.row == (x.row : Int))) =
                  true := past
              rw [row, Asked.ahead_one_way before, Bool.false_or, Bool.and_eq_true, beq_iff_eq] at past
              exact (Int.ofNat.inj past.2).symm
          refine ⟨fun j hj => ?_, fun j hj => ?_, fun none_ => ?_, hs ▸ still⟩
          · rw [hr] at hj
            cases hj
            unfold fromPart
            rw [within, Option.filter_some, if_pos (beq_iff_eq.2 (by rw [row, first]))]
            rfl
          · rw [hr] at hj
            have past := after j hj
            unfold fromPart
            rw [within, Option.filter_some, if_neg (fun same => ?_)]
            · rfl
            · have same : key.row = (j.row : Int) := beq_iff_eq.1 same
              rw [first, ← row, same, Asked.ahead_self] at past
              cases past
          · rw [hr] at none_
            cases none_
      · rw [come_within hcome d later] at within
        cases within

/-- **A read goes through what is left, or stops short of it having moved.** -/
theorem read_goes (short : a.Short) (starts : Starts a) :
    Goes a (a.owed (a.left a.start) ((a.start.map HistoryKey.part).getD 0))
      (weight (a.left a.start) ((a.start.map HistoryKey.part).getD 0)) []
      (a.begin.conversations a a.past a.conversations) := by
  have begun : At a (a.owed (a.left a.start) ((a.start.map HistoryKey.part).getD 0))
      (weight (a.left a.start) ((a.start.map HistoryKey.part).getD 0)) a.begin (a.left a.start)
      ((a.start.map HistoryKey.part).getD 0) := by
    refine ⟨Asked.left_suffix _, starts.place, ⟨[], rfl, .nil⟩, Nat.le_refl _, fun moved => ?_,
      fun none_ => ⟨rfl, none_⟩⟩
    have moved : (a.start != a.start) = true := moved
    rw [bne_self_eq_false] at moved
    cases moved
  have edged : Edged a := starts.place.edge
  rw [conversations_skip Asked.conversations_sorted]
  have come : (a.conversations.filter fun c => a.ahead a.past c.id) = a.come := rfl
  rw [come]
  generalize a.owed (a.left a.start) _ = owes, weight (a.left a.start) _ = most at begun ⊢
  rw [left_start starts] at begun
  have sorted := come_sorted (a := a)
  cases hcome : a.come with
  | nil =>
    rw [hcome] at begun
    unfold Reading.conversations
    cases hb : (a.begin.may a conversationCost).bounded with
    | true => exact .inl (stopped_of_may begun rfl hb)
    | false =>
      have zero : (a.start.map HistoryKey.part).getD 0 = 0 := by
        refine Nat.eq_zero_of_not_pos fun some_ => ?_
        obtain ⟨i, more, none_, -⟩ := begun.place.inside some_
        cases none_
      rw [zero] at begun
      exact .inr ⟨may_at begun _, (Reading.may_full _ _ _).trans rfl, hb⟩
  | cons c cs =>
    rw [hcome, List.flatMap_cons] at begun
    rw [hcome] at sorted
    have hc : c ∈ a.come := hcome ▸ List.mem_cons_self
    exact conversations_step short edged (List.mem_filter.1 hc).2 (come_begins starts hcome rfl)
      (fun r₂ there full bounded => conversations_goes short edged (List.pairwise_cons.1 sorted).1
        (List.pairwise_cons.1 sorted).2 (come_within hcome) there full bounded)
      begun rfl rfl

/-! ## 3. Pages -/

section Pages

variable (out : Outside) (copy : Copy) (participant : Nat) (find : Option Text) (tools : Bool)

/-- What every read from `start` goes by, whatever its room and its bound. -/
def base (start : HistoryFrom) : Asked := (HistoryAsk.mk start find tools 0 0).asked out copy participant

/-- What the reads from `start` owe. -/
def owedFrom (start : HistoryFrom) : List Copied :=
  (base out copy participant find tools start).owed
    ((base out copy participant find tools start).left start.key) ((start.key.map HistoryKey.part).getD 0)

def weightFrom (start : HistoryFrom) : Nat :=
  weight ((base out copy participant find tools start).left start.key)
    ((start.key.map HistoryKey.part).getD 0)

theorem owed_asked (a b : Asked) (same : a.wants = b.wants) (rest : List Atom) (part : Nat) :
    a.owed rest part = b.owed rest part := by
  induction rest generalizing part with
  | nil => rfl
  | cons x rest ih =>
    cases x with
    | ends c => exact ih 0
    | item i => rw [Asked.owed, Asked.owed, same, ih]

variable {out copy participant find tools}

/-- **One read** shows what is owed up to the place it says, and moves. -/
theorem readHistory_page {project : Nat} {handle : String}
    (here : whose copy.ledger project handle = .ok participant)
    (short : (find.map List.length).getD 0 ≤ historyFindMax) (bounds : Nat → Nat × Nat) (n : Nat)
    {start : HistoryFrom} (starts : Starts (base out copy participant find tools start)) :
    ∃ answer, nthRead out copy project handle find tools bounds n start = some answer ∧
      Paging.Page (fun start => Starts (base out copy participant find tools start))
        (owedFrom out copy participant find tools) (weightFrom out copy participant find tools) Shows
        start answer := by
  generalize ha : (HistoryAsk.mk start find tools (bounds n).1 (bounds n).2).asked out copy participant = a
  have startsA : Starts a := by
    subst ha
    exact ⟨starts.newest, starts.place.left, starts.place.inPart, starts.place.inside, starts.place.edge⟩
  have shortA : a.Short := by
    subst ha
    exact asked_short short
  have goes := read_goes shortA startsA
  generalize hr : a.begin.conversations a a.past a.conversations = r at goes
  have answer : nthRead out copy project handle find tools bounds n start =
      some (r.entries, (if r.full || r.bounded then r.resume else none).map start.next) := by
    unfold nthRead readHistory
    rw [here]
    dsimp only [bind, Except.bind]
    rw [if_neg (Nat.not_lt.2 short), ha, hr]
  refine ⟨_, answer, ?_⟩
  have hstart : a.start = start.key := by
    subst ha
    rfl
  have owes : a.owed (a.left start.key) ((start.key.map HistoryKey.part).getD 0) =
      owedFrom out copy participant find tools start := by
    subst ha
    unfold owedFrom
    exact owed_asked _ _ (by rfl) _ _
  have most : weight (a.left start.key) ((start.key.map HistoryKey.part).getD 0) =
      weightFrom out copy participant find tools start := by
    subst ha
    rfl
  rw [hstart, owes, most] at goes
  rcases goes with stopped | ⟨there, full, bounded⟩
  · obtain ⟨shortOf, moved, rest, part, there⟩ := stopped
    rw [if_pos (by
      rw [Bool.or_eq_true]
      exact shortOf)]
    cases hk : r.resume with
    | none =>
      -- Nothing was taken or passed: it did not move.
      obtain ⟨entries, none_⟩ := there.begun hk
      rw [Reading.moved, entries, hk, none_] at moved
      cases moved
    | some key =>
      obtain ⟨taken, left, shown⟩ := there.shown
      have place := there.place
      rw [hk] at place
      have less := there.moved moved
      obtain ⟨hleft, hpart, inside, edge⟩ := place
      have hpart : key.part = part := hpart
      subst hpart
      subst hleft
      have hk' : (start.next key).key = some key := by cases start <;> rfl
      have way : (base out copy participant find tools (start.next key)).left (some key) =
          a.left (some key) := by
        subst ha
        cases start <;> rfl
      have owed : a.owed (a.left (some key)) key.part =
          owedFrom out copy participant find tools (start.next key) := by
        unfold owedFrom
        rw [hk', way]
        subst ha
        exact owed_asked _ _ (by rfl) _ _
      have weighs : weight (a.left (some key)) key.part =
          weightFrom out copy participant find tools (start.next key) := by
        unfold weightFrom
        rw [hk', way]
        rfl
      refine .more shown (owed ▸ left) (weighs ▸ less) ⟨fun none_ => ?_, ?_⟩
      · exact absurd (hk'.symm.trans none_) (Option.some_ne_none key)
      · have begins : (base out copy participant find tools (start.next key)).start = some key := hk'
        rw [begins]
        refine ⟨rfl, rfl, fun some_ => ?_, fun key' h => ?_⟩
        · rw [way]
          exact inside some_
        · have edge := edge key' h
          subst ha
          cases start <;> exact edge
  · rw [if_neg (by rw [full, bounded]; decide)]
    obtain ⟨taken, left, shown⟩ := there.shown
    rw [Asked.owed, List.append_nil] at left
    exact .last (left ▸ shown)

end Pages

/-! ## 4. The history, once -/

/-- A participant's items, oldest first: without the tools' outputs where they are left out. -/
def Copy.history (copy : Copy) (participant : Nat) (tools : Bool) : List Copied :=
  (copy.ledger.conversations.rows.filter fun c => c.participant == participant).flatMap fun c =>
    copy.items.rows.filter fun i => i.conversation == c.id && (tools || i.role != .tool)

/-- Whether a place comes before an item, oldest first. -/
def HistoryKey.precedes (place : HistoryKey) (i : Copied) : Bool :=
  decide (place.conversation < i.conversation) ||
    (place.conversation == (i.conversation : Int) && decide (place.row < i.row))

def itemOf : Atom → Option Copied
  | .item i => some i
  | .ends _ => none

theorem items_cons (i : Copied) (rest : List Atom) :
    (Atom.item i :: rest).filterMap itemOf = i :: rest.filterMap itemOf := rfl

theorem owed_items (a : Asked) (rest : List Atom) :
    a.owed rest 0 = (rest.filterMap itemOf).filter (a.wants 0 ·) := by
  induction rest with
  | nil => rfl
  | cons x rest ih =>
    cases x with
    | ends c => exact ih
    | item i =>
      rw [Asked.owed, ih, items_cons, List.filter_cons]

theorem atoms_items (a : Asked) : a.atoms.filterMap itemOf = a.conversations.flatMap fun c => a.items c.id := by
  unfold Asked.atoms
  rw [List.filterMap_flatMap]
  refine List.flatMap_congr fun c _ => ?_
  unfold Asked.atomsOf
  rw [List.filterMap_append, List.filterMap_map]
  refine Eq.trans (List.append_nil _) ?_
  exact List.filterMap_some

theorem filter_items (keep : Atom → Bool) (rest : List Atom) :
    (rest.filter keep).filterMap itemOf = (rest.filterMap itemOf).filter fun i => keep (.item i) := by
  induction rest with
  | nil => rfl
  | cons x rest ih =>
    cases x with
    | ends c =>
      rw [List.filter_cons]
      split
      · exact ih
      · exact ih
    | item i =>
      rw [List.filter_cons, items_cons, List.filter_cons]
      split
      · rw [items_cons, ih]
      · exact ih

section History

variable {out : Outside} {copy : Copy} {participant : Nat} {find : Option Text} {tools : Bool}

/-- A read from its start wants the items that hold the words asked for. -/
theorem wants_holds (short : (find.map List.length).getD 0 ≤ historyFindMax) (start : HistoryFrom)
    (i : Copied) : (base out copy participant find tools start).wants 0 i = i.holds out find := by
  refine (wants_start (asked_short short) i).trans ?_
  show ((find.filter (!·.isEmpty)).map (folded out)).all _ = _
  unfold Copied.holds
  cases find with
  | none => rfl
  | some find => cases find <;> rfl

theorem items_newest : (base out copy participant find tools .newest).atoms.filterMap itemOf =
    (copy.history participant tools).reverse := by
  rw [atoms_items]
  unfold Copy.history
  rw [List.reverse_flatMap]
  show ((copy.ledger.conversations.rows.reverse).filter _).flatMap _ = _
  rw [List.filter_reverse]
  refine List.flatMap_congr fun c _ => ?_
  exact List.filter_reverse

theorem items_after (place : HistoryKey) :
    (base out copy participant find tools (.after place)).atoms.filterMap itemOf =
      copy.history participant tools := by
  rw [atoms_items]
  rfl

/-- **Pages of any size show the history once**: the reads that begin at the newest, or after a place, and
    follow each answer's place end, whatever room and bound each has, and their entries are the items that
    hold the words asked for, newest first, or those after the place, oldest first. -/
theorem pages {project : Nat} {handle : String}
    (here : whose copy.ledger project handle = .ok participant)
    (short : (find.map List.length).getD 0 ≤ historyFindMax) (bounds : Nat → Nat × Nat) :
    (∃ count entries, follow out copy project handle find tools bounds count .newest = some entries ∧
      List.Forall₂ Shows ((copy.history participant tools).reverse.filter (·.holds out find)) entries) ∧
    ∀ place : HistoryKey, place.part = 0 → place.row ≤ maxRow → ∃ count entries,
      follow out copy project handle find tools bounds count (.after place) = some entries ∧
        List.Forall₂ Shows (((copy.history participant tools).filter place.precedes).filter
          (·.holds out find)) entries := by
  have reads := fun n start (starts : Starts (base out copy participant find tools start)) =>
    readHistory_page here short bounds n starts
  constructor
  · have starts : Starts (base out copy participant find tools .newest) :=
      ⟨fun _ => rfl, rfl, rfl, fun none_ => absurd none_ (Nat.lt_irrefl 0), fun _ h => nomatch h⟩
    obtain ⟨entries, ends, shows⟩ := Paging.follow_shows reads 0 starts (Nat.lt_succ_self _)
    refine ⟨_, entries, ends, ?_⟩
    have owed : owedFrom out copy participant find tools .newest =
        (copy.history participant tools).reverse.filter (·.holds out find) := by
      unfold owedFrom
      rw [show (HistoryFrom.key .newest) = none from rfl]
      show (base out copy participant find tools .newest).owed _ 0 = _
      rw [owed_items, ← @items_newest out copy participant find tools]
      exact List.filter_congr fun i _ => wants_holds short _ i
    exact owed ▸ shows
  · intro place whole inside
    have starts : Starts (base out copy participant find tools (.after place)) := by
      refine ⟨(fun none_ => nomatch none_), rfl, rfl, fun some_ => ?_, fun key hkey => ?_⟩
      · exact absurd (whole ▸ some_) (Nat.lt_irrefl 0)
      · cases hkey
        rcases Int.lt_or_eq_of_le inside with less | last
        · exact .inr (decide_eq_true less)
        · exact .inl last
    obtain ⟨entries, ends, shows⟩ := Paging.follow_shows reads 0 starts (Nat.lt_succ_self _)
    refine ⟨_, entries, ends, ?_⟩
    have owed : owedFrom out copy participant find tools (.after place) =
        ((copy.history participant tools).filter place.precedes).filter (·.holds out find) := by
      have start : ((HistoryFrom.key (.after place)).map HistoryKey.part).getD 0 = 0 := whole
      unfold owedFrom
      rw [start, owed_items]
      show ((List.filter _ _).filterMap itemOf).filter _ = _
      rw [filter_items, items_after]
      have past : ∀ i : Copied, ((base out copy participant find tools (.after place)).later
          (place.conversation, place.row) (i.conversation, i.row) ||
          (decide (0 < place.part) && decide ((place.conversation, place.row) =
            ((i.conversation : Int), (i.row : Int))))) = place.precedes i := by
        intro i
        rw [whole]
        exact Bool.or_false _
      refine Eq.trans (List.filter_congr fun i _ => wants_holds short _ i) ?_
      congr 1
      exact List.filter_congr fun i _ => past i
    exact owed ▸ shows

end History

/-- The entries that show items stand where those do. -/
theorem shows_keys {items : List Copied} {entries : List HistoryRow}
    (shows : List.Forall₂ Shows items entries) :
    entries.map HistoryRow.key = items.map fun i => ⟨i.conversation, i.row, 0⟩ := by
  induction shows with
  | nil => rfl
  | cons show_ _ ih => rw [List.map_cons, List.map_cons, show_.key, ih]

/-- What is outside, of ASCII texts and of items that have no more than one. -/
def plain : Outside where
  lower c := [c.toLower]
  jsonLen item := 51 + octets item.id + octets item.text +
    (match item.role with | .user | .tool => 4 | .custom => 6 | .assistant => 9) +
    if item.complete then 4 else 5
  lower_some _ := List.cons_ne_nil _ _
  lower_short _ := Nat.le_succ 1

def saying (conversation : Nat) (role : ItemRole) (text : String) : Copied :=
  ⟨0, conversation, "item".toList, role, text.toList, true, none, false, 1, none⟩

/-- A member that answered in its first and its third conversation. -/
def answered : Copy where
  ledger := { Ledger.empty with
    projects := Table.empty.insert
      { name := "p", directory := "", state := .opened, gate := false, createdAt := 0, updatedAt := 0 }
    participants := Table.empty.insert
      { project := 1, handle := "chief", role := .chief, createdAt := 0 }
    conversations := ((Table.empty.insert { participant := 1, harness := "claude", startedAt := 0 }).insert
      { participant := 1, harness := "claude", startedAt := 0 }).insert
        { participant := 1, harness := "claude", startedAt := 0 } }
  items := (((Table.empty.insert (saying 1 .user "hello")).insert (saying 1 .tool "wOrld")).insert
    (saying 3 .assistant "Hello")).insert (saying 3 .user "yo hello")
  first := by decide
  itemsLeft := by decide
  conversationsLeft := by decide

/-- One item more, after the others. -/
def laterItem (text : Text) : Copied :=
  ⟨5, 3, "item".toList, .assistant, text, true, none, false, 1, none⟩

/-- The copy with it. -/
def withItem (text : Text) : Copy where
  ledger := answered.ledger
  items := answered.items.insert (laterItem text)
  first := by
    intro i hi
    rcases List.mem_append.1 hi with hi | hi
    · exact answered.first i hi
    · rw [List.mem_singleton.1 hi]
      exact Nat.succ_pos 4
  itemsLeft := (by decide : ((6 : Nat) : Int) ≤ maxRow)
  conversationsLeft := answered.conversationsLeft

/-- A text in two parts, the words asked for on either side of where the second begins. -/
def across : Text := List.replicate 63998 'e' ++ "HELLO".toList

theorem across_held : 1 < (laterItem across).parts.length ∧
    (laterItem across).holds plain (some "hEllo".toList) = true := by
  constructor
  · refine parts_many ?_
    show historyPart < across.length
    rw [across, List.length_append, List.length_replicate]
    decide
  · refine @holds_of_text _ _ _ (folded plain (List.replicate 63998 'e')) [] ?_
    show folded plain across = _
    unfold across folded
    rw [List.flatMap_append]
    rfl

/-- What the copy holds of the words. -/
theorem withItem_history {text : Text}
    (held : (laterItem text).holds plain (some "hEllo".toList) = true) :
    ((withItem text).history 1 true).filter (·.holds plain (some "hEllo".toList)) =
      (answered.history 1 true).filter (·.holds plain (some "hEllo".toList)) ++ [laterItem text] := by
  have all : (withItem text).history 1 true = answered.history 1 true ++ [laterItem text] := rfl
  rw [all, List.filter_append, List.filter_singleton]
  rw [held]
  rfl

theorem pages_across : 1 < (laterItem across).parts.length ∧
    (∃ count entries, follow plain (withItem across) 1 "chief" (some "hEllo".toList) true
      (fun _ => (0, 0)) count .newest = some entries ∧
      entries.map HistoryRow.key = [⟨3, 5, 0⟩, ⟨3, 4, 0⟩, ⟨3, 3, 0⟩, ⟨1, 1, 0⟩]) ∧
    ∃ count entries, follow plain (withItem across) 1 "chief" (some "hEllo".toList) true
      (fun _ => (0, 0)) count (.after ⟨1, 1, 0⟩) = some entries ∧
      entries.map HistoryRow.key = [⟨3, 3, 0⟩, ⟨3, 4, 0⟩, ⟨3, 5, 0⟩] := by
  obtain ⟨parts, held⟩ := across_held
  obtain ⟨⟨count, entries, reads, shows⟩, after⟩ :=
    @pages plain (withItem across) 1 (some "hEllo".toList) true 1 "chief" rfl (by decide)
      fun _ => (0, 0)
  obtain ⟨count', entries', reads', shows'⟩ := after ⟨1, 1, 0⟩ rfl (by decide)
  refine ⟨parts, ⟨count, entries, reads, ?_⟩, count', entries', reads', ?_⟩
  · rw [shows_keys shows, List.filter_reverse, withItem_history held]
    rw [List.reverse_append, List.map_append]
    decide
  · rw [shows_keys shows', List.filter_comm, withItem_history held]
    decide

end History
end ConsensFlow
