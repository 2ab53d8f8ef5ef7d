/-
  File:      ConsensFlow/Words/KeptWords.lean
  Subject:   THE WORDS KEPT, NAMED IN A PAUSE (`messages/pauses.rs`, `named_in` and `with_kept`).

  * `clauseOf`, `said` -- the clauses that name words, and one with the words it names;
  * `toList_withKept` -- the words of a pause with one more named, as characters;
  * `KeptOnce` -- what naming words once, in order, is;
  * **`kept_once_iff`** -- it is so exactly where what the pause says, with the why, has no clause.
-/
import ConsensFlow.Lib.Apart
import ConsensFlow.Notes

namespace ConsensFlow

open Lib.Text

/-! ## 1. The clauses -/

/-- The clause that names words, kept or held for the human. -/
def clauseOf (gone held : Bool) : String :=
  if gone then (if held then heldGoneClause else keptGoneClause)
  else if held then heldClause else keptClause

/-- A clause without its first character. -/
def clauseTail (gone held : Bool) : List Char := (clauseOf gone held).toList.tail

theorem toList_clauseOf (gone held : Bool) :
    (clauseOf gone held).toList = ';' :: clauseTail gone held := by
  cases gone <;> cases held <;> rfl

theorem clauseTail_out (gone held : Bool) : ';' ∉ clauseTail gone held := by
  cases gone <;> cases held <;> decide

/-- Neither clause begins the other. -/
theorem clauseOf_other (gone held : Bool) (more : List Char) :
    stripPrefix (clauseOf gone held).toList ((clauseOf gone !held).toList ++ more) = none := by
  cases gone <;> cases held <;> rfl

/-- A clause and the words it names, where it names any. -/
def said (clause : String) (ids : List Int) : List Char :=
  if ids.isEmpty then [] else clause.toList ++ (mList ids).toList

/-- A why on one line. -/
def oneLine (why : String) : List Char :=
  (" ".intercalate ((lines why.toList).map String.ofList)).toList

/-- What a pause says with a why, said once. -/
def headOf (because why : List Char) : List Char :=
  if contains why because then because else because ++ (": ".toList ++ why)

/-- One more number among some in order. -/
def insertId (ids : List Int) (id : Int) : List Int :=
  if ids.contains id then ids else (ids ++ [id]).insertionSort (· ≤ ·)

/-- A clause and its words, in the words of the source. -/
theorem toList_said (clause : String) (ids : List Int) :
    (if ids.isEmpty then "" else clause ++ mList ids).toList = said clause ids := by
  unfold said
  cases ids.isEmpty with
  | true => rfl
  | false => exact String.toList_append ..

/-- What a pause says with words `id` named, as characters: `h` before the clauses in it, that name
    `kept` and `waiting`. -/
theorem toList_withKept {because why : String} {id : Int} {held gone : Bool} {h r : List Char}
    {kept waiting : List Int}
    (parts : beforeClauses because.toList (clauseOf gone false) (clauseOf gone true) = (h, r))
    (kept_ : namedIn r (clauseOf gone false) = kept)
    (waiting_ : namedIn r (clauseOf gone true) = waiting) :
    (withKept because id why held gone).toList =
      (if kept.isEmpty && waiting.isEmpty then headOf h (oneLine why) else h) ++
        (said (clauseOf gone false) (if held then kept else insertId kept id) ++
          said (clauseOf gone true) (if held then insertId waiting id else waiting)) := by
  have pair : (if gone then (keptGoneClause, heldGoneClause) else (keptClause, heldClause)) =
      (clauseOf gone false, clauseOf gone true) := by
    cases gone <;> rfl
  unfold withKept
  rw [pair]
  dsimp only
  rw [parts]
  dsimp only
  rw [kept_, waiting_]
  have head : (if kept.isEmpty && waiting.isEmpty && !contains (oneLine why) h then
      toString (String.ofList h) ++ toString ": " ++
        toString (" ".intercalate ((lines why.toList).map String.ofList))
      else String.ofList h).toList =
      if kept.isEmpty && waiting.isEmpty then headOf h (oneLine why) else h := by
    unfold headOf
    cases kept.isEmpty && waiting.isEmpty with
    | false => exact String.toList_ofList
    | true =>
      cases contains (oneLine why) h with
      | true => exact String.toList_ofList
      | false =>
        show (String.ofList h ++ ": " ++ _).toList = h ++ (": ".toList ++ oneLine why)
        rw [String.toList_append, String.toList_append, String.toList_ofList, List.append_assoc]
        rfl
  rw [String.toList_append, String.toList_append]
  refine (congrArg₂ _ (congrArg₂ _ head (toList_said _ _)) (toList_said _ _)).trans ?_
  rw [List.append_assoc]
  cases held <;> rfl

/-! ## 2. Words named, read back -/

theorem toList_mList (ids : List Int) : (mList ids).toList = numbered "m-".toList ids := by
  unfold mList numbered
  rw [String.toList_intercalate, List.map_map]
  congr 1
  refine List.map_congr_left fun id _ => ?_
  show ("m-" ++ toString id).toList = _
  rw [String.toList_append]

theorem mList_out (ids : List Int) : ';' ∉ (mList ids).toList := by
  rw [toList_mList]
  exact numbered_out (by decide) (by decide) (by decide) (by decide)

/-- The numbers named read back. -/
theorem mList_ids {ids : List Int} (some_ : ids ≠ []) (in_ : ∀ id ∈ ids, InI64 id) :
    ((splitAll ", ".toList (mList ids).toList).filterMap fun w =>
      (stripPrefix "m-".toList w).bind parseI64) = ids := by
  rw [toList_mList, splitAll_numbered (by decide) some_, List.filterMap_map]
  have each (id : Int) (one : id ∈ ids) :
      (stripPrefix "m-".toList ("m-".toList ++ (toString id).toList)).bind parseI64 = some id :=
    read_numbered (in_ id one)
  exact (List.filterMap_congr each).trans List.filterMap_some

section Clauses

variable {gone held : Bool} {ids kept waiting : List Int} {h cs : List Char}

theorem said_nil (clause : String) : said clause [] = [] := rfl

theorem said_some (some_ : ids ≠ []) :
    said (clauseOf gone held) ids = (clauseOf gone held).toList ++ (mList ids).toList := by
  cases ids with
  | nil => exact absurd rfl some_
  | cons id ids => rfl

/-- One clause is not in what the other names. -/
theorem said_other (gone held : Bool) (ids : List Int) :
    contains (clauseOf gone held).toList (said (clauseOf gone !held) ids) = false := by
  rw [contains_eq_false]
  intro a b here
  by_cases some_ : ids = []
  · rw [some_, said_nil] at here
    have := (List.append_eq_nil_iff.1 (List.append_eq_nil_iff.1 here.symm).2).1
    rw [toList_clauseOf] at this
    cases this
  · rw [said_some some_] at here
    cases a with
    | nil =>
      have begun := clauseOf_other gone held (mList ids).toList
      rw [here, List.nil_append, stripPrefix_append] at begun
      cases begun
    | cons c a =>
      -- it would begin past the only character it begins with
      rw [toList_clauseOf, toList_clauseOf] at here
      have here : clauseTail gone (!held) ++ (mList ids).toList =
          a ++ (';' :: clauseTail gone held ++ b) := (List.cons.inj here).2
      have one : ';' ∈ clauseTail gone (!held) ++ (mList ids).toList := by
        rw [here]
        exact List.mem_append_right _ List.mem_cons_self
      rcases List.mem_append.1 one with one | one
      · exact clauseTail_out gone (!held) one
      · exact mList_out ids one

theorem takeWhile_out {ids : List Int} {after : List Char}
    (next : after = [] ∨ ∃ more, after = ';' :: more) :
    ((mList ids).toList ++ after).takeWhile (· != ';') = (mList ids).toList := by
  have all : ∀ c ∈ (mList ids).toList, (c != ';') = true := by
    intro c one
    refine bne_iff_ne.2 fun same => mList_out ids ?_
    rw [← same]
    exact one
  rw [List.takeWhile_append_of_pos all]
  rcases next with rfl | ⟨more, rfl⟩
  · exact List.append_nil _
  · exact List.append_nil _

/-- The words a clause names, where it is first said. -/
theorem namedIn_first {rest before after : List Char} (some_ : ids ≠ []) (in_ : ∀ id ∈ ids, InI64 id)
    (first : First (clauseOf gone held).toList rest before ((mList ids).toList ++ after))
    (next : after = [] ∨ ∃ more, after = ';' :: more) : namedIn rest (clauseOf gone held) = ids := by
  rw [namedIn, splitOnce_iff.2 first]
  show ((splitAll _ (List.takeWhile _ _)).filterMap _) = ids
  rw [takeWhile_out next, mList_ids some_ in_]

theorem namedIn_none {rest : List Char} (none_ : contains (clauseOf gone held).toList rest = false) :
    namedIn rest (clauseOf gone held) = [] := by
  unfold contains at none_
  rw [Option.isSome_eq_false_iff, Option.isNone_iff_eq_none] at none_
  rw [namedIn, none_]

theorem said_next (gone held : Bool) (ids : List Int) : said (clauseOf gone held) ids = [] ∨
    ∃ more, said (clauseOf gone held) ids = ';' :: more := by
  by_cases some_ : ids = []
  · exact Or.inl (by rw [some_, said_nil])
  · exact Or.inr ⟨_, by rw [said_some some_, toList_clauseOf]; rfl⟩

/-- The words kept, read from the clauses. -/
theorem namedIn_kept (in_ : ∀ id ∈ kept, InI64 id) : namedIn
    (said (clauseOf gone false) kept ++ said (clauseOf gone true) waiting) (clauseOf gone false) =
      kept := by
  by_cases some_ : kept = []
  · rw [some_, said_nil, List.nil_append]
    exact namedIn_none (said_other gone false waiting)
  · have first : First (clauseOf gone false).toList
        (said (clauseOf gone false) kept ++ said (clauseOf gone true) waiting) []
        ((mList kept).toList ++ said (clauseOf gone true) waiting) := by
      refine ⟨?_, fun _ _ _ => Nat.zero_le _⟩
      rw [said_some some_, List.append_assoc, List.nil_append]
    exact namedIn_first some_ in_ first (said_next gone true waiting)

/-- The words held, read from the clauses. -/
theorem namedIn_waiting (in_ : ∀ id ∈ waiting, InI64 id) : namedIn
    (said (clauseOf gone false) kept ++ said (clauseOf gone true) waiting) (clauseOf gone true) =
      waiting := by
  have free := said_other gone true kept
  by_cases some_ : waiting = []
  · rw [some_, said_nil, List.append_nil]
    exact namedIn_none free
  · have first : First (clauseOf gone true).toList
        (said (clauseOf gone false) kept ++ said (clauseOf gone true) waiting)
        (said (clauseOf gone false) kept) ((mList waiting).toList ++ []) := by
      rw [said_some some_, List.append_nil, toList_clauseOf gone true]
      rw [toList_clauseOf] at free
      exact First.of_free (clauseTail_out gone true) free
    exact namedIn_first some_ in_ first (Or.inl rfl)

end Clauses

/-! ## 3. Before the clauses -/

section Before

variable {cs h r : List Char} {a b : String}

/-- Where a clause is first in a text. -/
def clauseAt (cs : List Char) (clause : String) : Option Nat :=
  (splitOnce clause.toList cs).map fun (head, _) => head.length

theorem beforeClauses_eq (cs : List Char) (a b : String) : beforeClauses cs a b =
    match ([a, b].filterMap (clauseAt cs)).min? with
    | none => (cs, [])
    | some n => (cs.take n, cs.drop n) := by
  unfold beforeClauses
  have same : [clauseAt cs a, clauseAt cs b].filterMap id = [a, b].filterMap (clauseAt cs) := by
    cases one : clauseAt cs a <;> cases other : clauseAt cs b <;> simp [one, other]
  rw [← same]
  rfl

/-- Where one of the clauses is, and none before it. -/
theorem beforeClauses_at (whole : cs = h ++ r)
    (one : ∃ clause ∈ [a, b], ∃ m, cs = h ++ (clause.toList ++ m))
    (least : ∀ clause ∈ [a, b], ∀ a' b', cs = a' ++ (clause.toList ++ b') → h.length ≤ a'.length) :
    beforeClauses cs a b = (h, r) := by
  have first : ([a, b].filterMap (clauseAt cs)).min? = some h.length := by
    refine List.min?_eq_some_iff.2 ⟨?_, fun n there => ?_⟩
    · obtain ⟨clause, among, m, here⟩ := one
      have at_ : splitOnce clause.toList cs = some (h, m) :=
        splitOnce_iff.2 ⟨here, least clause among⟩
      exact List.mem_filterMap.2 ⟨clause, among, by rw [clauseAt, at_]; rfl⟩
    · obtain ⟨clause, among, at_⟩ := List.mem_filterMap.1 there
      obtain ⟨⟨a', b'⟩, found, rfl⟩ := Option.map_eq_some_iff.1 at_
      exact least clause among a' b' (splitOnce_iff.1 found).here
  rw [beforeClauses_eq, first]
  show (cs.take h.length, cs.drop h.length) = _
  rw [whole, List.take_left, List.drop_left]

theorem beforeClauses_none (none_ : ∀ clause ∈ [a, b], contains clause.toList cs = false) :
    beforeClauses cs a b = (cs, []) := by
  have nowhere : [a, b].filterMap (clauseAt cs) = [] := by
    refine List.filterMap_eq_nil_iff.2 fun clause among => Option.map_eq_none_iff.2 ?_
    exact splitOnce_none.2 (contains_eq_false.1 (none_ clause among))
  rw [beforeClauses_eq, nowhere]
  rfl

end Before

/-! ## 4. Words named one after another -/

section Named

variable {gone held : Bool} {kept waiting ids : List Int} {id : Int} {h : List Char}

/-- A text without either clause. -/
def Free (gone : Bool) (cs : List Char) : Prop :=
  ∀ held, contains (clauseOf gone held).toList cs = false

theorem Free.mem {clause : String} {cs : List Char} (free : Free gone cs)
    (among : clause ∈ [clauseOf gone false, clauseOf gone true]) :
    contains clause.toList cs = false := by
  rcases List.mem_cons.1 among with rfl | among
  · exact free false
  · rw [List.mem_singleton.1 among]
    exact free true

theorem clause_among {clause : String} (among : clause ∈ [clauseOf gone false, clauseOf gone true]) :
    ∃ held, clause = clauseOf gone held := by
  rcases List.mem_cons.1 among with rfl | among
  · exact ⟨false, rfl⟩
  · exact ⟨true, List.mem_singleton.1 among⟩

/-- The clauses begin where what a pause says ends. -/
theorem beforeClauses_said (free : Free gone h) (some_ : kept ≠ [] ∨ waiting ≠ []) :
    beforeClauses (h ++ (said (clauseOf gone false) kept ++ said (clauseOf gone true) waiting))
      (clauseOf gone false) (clauseOf gone true) =
        (h, said (clauseOf gone false) kept ++ said (clauseOf gone true) waiting) := by
  obtain ⟨held, more, begun⟩ : ∃ held more, said (clauseOf gone false) kept ++
      said (clauseOf gone true) waiting = (clauseOf gone held).toList ++ more := by
    by_cases one : kept = []
    · refine ⟨true, (mList waiting).toList, ?_⟩
      rw [one, said_nil, List.nil_append, said_some (some_.resolve_left fun h => h one)]
    · exact ⟨false, _, by rw [said_some one, List.append_assoc]⟩
  have among : clauseOf gone held ∈ [clauseOf gone false, clauseOf gone true] := by
    cases held
    · exact List.mem_cons_self
    · exact List.mem_cons_of_mem _ List.mem_cons_self
  refine beforeClauses_at rfl ⟨_, among, more, by rw [begun]⟩ fun clause among' a b there => ?_
  obtain ⟨held', rfl⟩ := clause_among among'
  rw [begun, toList_clauseOf, toList_clauseOf] at there
  rcases apart (clauseTail_out gone held') there with inside | later
  · obtain ⟨m, same⟩ := within there inside
    have none_ := free held'
    rw [toList_clauseOf] at none_
    exact absurd same (contains_eq_false.1 none_ a m)
  · exact later

theorem insertId_mem (x : Int) : x ∈ insertId ids id ↔ x ∈ ids ∨ x = id := by
  unfold insertId
  by_cases one : ids.contains id = true
  · rw [if_pos one]
    refine ⟨Or.inl, fun h => h.elim (fun h => h) fun same => ?_⟩
    rw [same]
    exact List.contains_iff_mem.1 one
  · rw [if_neg one, List.mem_insertionSort, List.mem_append, List.mem_singleton]

/-- One more number leaves them in order, each once. -/
theorem insertId_ascends (order : ids.Pairwise (· < ·)) : (insertId ids id).Pairwise (· < ·) := by
  unfold insertId
  by_cases one : ids.contains id = true
  · rw [if_pos one]
    exact order
  · rw [if_neg one]
    have new : id ∉ ids := fun there => one (List.contains_iff_mem.2 there)
    have once : (ids ++ [id]).Nodup := by
      refine List.Nodup.append (order.imp fun h => Int.ne_of_lt h) (List.nodup_singleton id) ?_
      exact fun x here there => new (List.mem_singleton.1 there ▸ here)
    have sorted := List.pairwise_insertionSort (· ≤ ·) (ids ++ [id])
    have apart_ := (List.perm_insertionSort (· ≤ ·) (ids ++ [id])).nodup_iff.2 once
    exact (sorted.and apart_).imp fun h => lt_of_le_of_ne h.1 h.2

/-- Numbers in order are told by which they are. -/
theorem ascends_eq {ids' : List Int} (order : ids.Pairwise (· < ·)) (order' : ids'.Pairwise (· < ·))
    (same : ∀ x, x ∈ ids ↔ x ∈ ids') : ids = ids' := by
  have once := order.imp fun h => Int.ne_of_lt h
  have once' := order'.imp fun h => Int.ne_of_lt h
  refine ((List.perm_ext_iff_of_nodup once once').2 same).eq_of_pairwise ?_ order order'
  exact fun a b _ _ less more => absurd (lt_trans less more) (lt_irrefl a)

end Named

/-- Words named one after another, each kept or held for the human. -/
def keepAll (because why : String) (gone : Bool) (pairs : List (Int × Bool)) : String :=
  pairs.foldl (fun text p => withKept text p.1 why p.2 gone) because

/-- What a pause says, and under each clause the words of `pairs`, in order, each once. -/
def Named (because why : String) (gone : Bool) (pairs : List (Int × Bool)) (text : String) : Prop :=
  ∃ kept waiting : List Int,
    kept.Pairwise (· < ·) ∧ (∀ id, id ∈ kept ↔ (id, false) ∈ pairs) ∧
    waiting.Pairwise (· < ·) ∧ (∀ id, id ∈ waiting ↔ (id, true) ∈ pairs) ∧
    text.toList = headOf because.toList (oneLine why) ++
      (said (clauseOf gone false) kept ++ said (clauseOf gone true) waiting)

/-- The words are named once and in order, whatever order they come in, and however often. -/
structure KeptOnce (because why : String) (gone : Bool) : Prop where
  alike : ∀ ps qs, (∀ p ∈ ps, InI64 p.1) → (∀ p, p ∈ ps ↔ p ∈ qs) →
    keepAll because why gone ps = keepAll because why gone qs
  named : ∀ ps, ps ≠ [] → (∀ p ∈ ps, InI64 p.1) →
    Named because why gone ps (keepAll because why gone ps)

section Once

variable {because why : String} {gone held : Bool} {id : Int} {pairs : List (Int × Bool)}

/-- The first words named. -/
theorem toList_first (free : Free gone because.toList) :
    (withKept because id why held gone).toList =
      headOf because.toList (oneLine why) ++ said (clauseOf gone held) [id] := by
  have none_ : namedIn [] (clauseOf gone false) = [] ∧ namedIn [] (clauseOf gone true) = [] := by
    cases gone <;> exact ⟨rfl, rfl⟩
  rw [toList_withKept (beforeClauses_none fun clause => free.mem) none_.1 none_.2]
  cases held with
  | false =>
    show _ ++ (_ ++ []) = _
    rw [List.append_nil]
    rfl
  | true => rfl

/-- Words named in a text that names some. -/
theorem named_next {text : String} (free : Free gone (headOf because.toList (oneLine why)))
    (some_ : pairs ≠ []) (in_ : ∀ p ∈ pairs, InI64 p.1) (named : Named because why gone pairs text) :
    Named because why gone (pairs ++ [(id, held)]) (withKept text id why held gone) := by
  obtain ⟨kept, waiting, order, mem, order', mem', written⟩ := named
  have any : kept ≠ [] ∨ waiting ≠ [] := by
    obtain ⟨⟨x, held'⟩, one⟩ := List.exists_mem_of_ne_nil pairs some_
    cases held' with
    | false => exact Or.inl (List.ne_nil_of_mem ((mem x).2 one))
    | true => exact Or.inr (List.ne_nil_of_mem ((mem' x).2 one))
  have parts := beforeClauses_said free any
  rw [← written] at parts
  have next : (withKept text id why held gone).toList = _ := toList_withKept parts
    (namedIn_kept fun x one => in_ _ ((mem x).1 one))
    (namedIn_waiting fun x one => in_ _ ((mem' x).1 one))
  have head : ¬(kept.isEmpty && waiting.isEmpty) = true := by
    rw [Bool.and_eq_true, List.isEmpty_iff, List.isEmpty_iff]
    exact fun both => any.elim (fun h => h both.1) fun h => h both.2
  rw [if_neg head] at next
  have pair (x : Int) (b : Bool) : (x, b) ∈ pairs ++ [(id, held)] ↔
      (x, b) ∈ pairs ∨ (x = id ∧ b = held) := by
    rw [List.mem_append, List.mem_singleton, Prod.mk.injEq]
  cases held with
  | false =>
    refine ⟨insertId kept id, waiting, insertId_ascends order, fun x => ?_, order', fun x => ?_, next⟩
    · rw [insertId_mem, pair, mem x]
      simp
    · rw [pair, mem' x]
      simp
  | true =>
    refine ⟨kept, insertId waiting id, order, fun x => ?_, insertId_ascends order', fun x => ?_, next⟩
    · rw [pair, mem x]
      simp
    · rw [insertId_mem, pair, mem' x]
      simp

/-- **Words named one after another are named once, in order.** -/
theorem named_all (free : Free gone because.toList)
    (free' : Free gone (headOf because.toList (oneLine why))) (some_ : pairs ≠ [])
    (in_ : ∀ p ∈ pairs, InI64 p.1) : Named because why gone pairs (keepAll because why gone pairs) := by
  induction pairs using List.reverseRecOn with
  | nil => exact absurd rfl some_
  | append_singleton pairs p ih =>
    obtain ⟨id, held⟩ := p
    rw [keepAll, List.foldl_append]
    show Named _ _ _ _ (withKept (keepAll because why gone pairs) id why held gone)
    by_cases first : pairs = []
    · subst first
      have written : (withKept because id why held gone).toList = _ := toList_first free
      cases held with
      | false =>
        refine ⟨[id], [], List.pairwise_singleton _ _, fun x => ?_, List.Pairwise.nil, fun x => ?_, ?_⟩
        · simp
        · simp
        · rw [said_nil, List.append_nil]
          exact written
      | true =>
        refine ⟨[], [id], List.Pairwise.nil, fun x => ?_, List.pairwise_singleton _ _, fun x => ?_, ?_⟩
        · simp
        · simp
        · rw [said_nil, List.nil_append]
          exact written
    · have in' : ∀ p ∈ pairs, InI64 p.1 := fun p one => in_ p (List.mem_append_left _ one)
      exact named_next free' first in' (ih first in')

/-- The words of the same pairs make one text. -/
theorem named_alike {qs : List (Int × Bool)} {text text' : String}
    (same : ∀ p, p ∈ pairs ↔ p ∈ qs) (named : Named because why gone pairs text)
    (named' : Named because why gone qs text') : text = text' := by
  obtain ⟨kept, waiting, order, mem, order', mem', written⟩ := named
  obtain ⟨kept2, waiting2, order2, mem2, order2', mem2', written2⟩ := named'
  have keeps := ascends_eq order order2 fun x => (mem x).trans ((same _).trans (mem2 x).symm)
  have waits := ascends_eq order' order2' fun x => (mem' x).trans ((same _).trans (mem2' x).symm)
  rw [← String.toList_inj, written, written2, keeps, waits]

theorem kept_once (free : Free gone because.toList)
    (free' : Free gone (headOf because.toList (oneLine why))) : KeptOnce because why gone where
  alike ps qs in_ same := by
    by_cases none_ : ps = []
    · have none' : qs = [] := by
        refine List.eq_nil_iff_forall_not_mem.2 fun p one => ?_
        rw [← same, none_] at one
        cases one
      rw [none_, none']
    · have some_ : qs ≠ [] := by
        obtain ⟨p, one⟩ := List.exists_mem_of_ne_nil ps none_
        exact List.ne_nil_of_mem ((same p).1 one)
      exact named_alike same (named_all free free' none_ in_)
        (named_all free free' some_ fun p one => in_ p ((same p).2 one))
  named ps some_ in_ := named_all free free' some_ in_

/-! ## 5. Where what a pause says has a clause -/

/-- The first clause in a text that has one. -/
theorem first_clause {cs : List Char} (free : ¬Free gone cs) : ∃ held h m,
    cs = h ++ ((clauseOf gone held).toList ++ m) ∧
    ∀ held' a b, cs = a ++ ((clauseOf gone held').toList ++ b) → h.length ≤ a.length := by
  classical
  have some_ : ∃ n, ∃ held a b, cs = a ++ ((clauseOf gone held).toList ++ b) ∧ a.length = n := by
    unfold Free at free
    push Not at free
    obtain ⟨held, there⟩ := free
    obtain ⟨a, b, here⟩ := contains_iff.1 (eq_true_of_ne_false there)
    exact ⟨_, held, a, b, here, rfl⟩
  obtain ⟨held, h, m, here, long⟩ := Nat.find_spec some_
  refine ⟨held, h, m, here, fun held' a b there => ?_⟩
  rw [long]
  exact Nat.find_min' some_ ⟨held', a, b, there, rfl⟩

/-- The words after a clause that the first words named follow are not those of the clauses said
    anew: one of the two is not in them. -/
theorem said_twice {kept waiting : List Int} {m : List Char} {ids : List Int} (some_ : ids ≠ [])
    (named : if held then waiting ≠ [] else kept ≠ []) :
    (clauseOf gone held).toList ++ (m ++ said (clauseOf gone held) ids) ≠
      said (clauseOf gone false) kept ++ said (clauseOf gone true) waiting := by
  intro same
  have again (more : List Char) : contains (clauseOf gone held).toList
      (m ++ ((clauseOf gone held).toList ++ more)) = true := contains_iff.2 ⟨m, more, rfl⟩
  rw [said_some some_] at same
  -- a list of words has no clause
  have list_free (held : Bool) (ids : List Int) :
      contains (clauseOf gone held).toList (mList ids).toList = false := by
    rw [contains_eq_false]
    intro a b here
    refine mList_out ids ?_
    rw [here, toList_clauseOf]
    exact List.mem_append_right _ List.mem_cons_self
  cases held with
  | false =>
    rw [said_some named, List.append_assoc, List.append_cancel_left_eq] at same
    have none_ : contains (clauseOf gone false).toList
        ((mList kept).toList ++ said (clauseOf gone true) waiting) = false := by
      have free := said_other gone false waiting
      rcases said_next gone true waiting with empty | ⟨more, begun⟩
      · rw [empty, List.append_nil]
        exact list_free false kept
      · rw [Bool.not_false, begun, toList_clauseOf] at free
        have list := list_free false kept
        rw [toList_clauseOf] at list ⊢
        rw [begun]
        exact contains_append (clauseTail_out gone false) list free
    rw [← same, again] at none_
    cases none_
  | true =>
    rw [said_some named] at same
    by_cases empty : kept = []
    · rw [empty, said_nil, List.nil_append, List.append_cancel_left_eq] at same
      have none_ := list_free true waiting
      rw [← same, again] at none_
      cases none_
    · rw [said_some empty, List.append_assoc] at same
      have other := clauseOf_other gone false
        (m ++ ((clauseOf gone true).toList ++ (mList ids).toList))
      rw [Bool.not_false, same, stripPrefix_append] at other
      cases other

/-- Where a pause and its why have a clause, the first words named again change the text. -/
theorem first_again (free : Free gone because.toList)
    (clause : ¬Free gone (headOf because.toList (oneLine why))) : ∃ held,
      withKept (withKept because 1 why held gone) 1 why held gone ≠
        withKept because 1 why held gone := by
  obtain ⟨held, h, m, here, least⟩ := first_clause clause
  refine ⟨held, fun same => ?_⟩
  have first : (withKept because 1 why held gone).toList = _ := toList_first free
  have clause_said : said (clauseOf gone held) [1] =
      (clauseOf gone held).toList ++ (mList [1]).toList := said_some (List.cons_ne_nil _ _)
  -- the first clause of the text is still the one in the why
  have parts : beforeClauses (withKept because 1 why held gone).toList (clauseOf gone false)
      (clauseOf gone true) =
        (h, (clauseOf gone held).toList ++ (m ++ said (clauseOf gone held) [1])) := by
    refine beforeClauses_at ?_ ⟨clauseOf gone held, ?_, m ++ said (clauseOf gone held) [1], ?_⟩ ?_
    · rw [first, here, List.append_assoc, List.append_assoc]
    · cases held
      · exact List.mem_cons_self
      · exact List.mem_cons_of_mem _ List.mem_cons_self
    · rw [first, here, List.append_assoc, List.append_assoc]
    · intro c among a b there
      obtain ⟨held', rfl⟩ := clause_among among
      rw [first, clause_said, toList_clauseOf, toList_clauseOf gone held'] at there
      rcases apart (clauseTail_out gone held') there with inside | later
      · obtain ⟨more, in_⟩ := within there inside
        rw [← toList_clauseOf] at in_
        exact least held' a more in_
      · refine Nat.le_trans ?_ later
        rw [here, List.length_append]
        exact Nat.le_add_right _ _
  have second : (withKept (withKept because 1 why held gone) 1 why held gone).toList = _ :=
    toList_withKept parts rfl rfl
  rw [same, first] at second
  generalize namedIn _ (clauseOf gone false) = kept at second
  generalize namedIn _ (clauseOf gone true) = waiting at second
  have other (said_ : headOf because.toList (oneLine why) ++ said (clauseOf gone held) [1] = h ++
      (said (clauseOf gone false) (if held then kept else insertId kept 1) ++
        said (clauseOf gone true) (if held then insertId waiting 1 else waiting))) : False := by
    rw [here, List.append_assoc, List.append_assoc, List.append_cancel_left_eq] at said_
    refine said_twice (List.cons_ne_nil _ _) ?_ said_
    have some_ (ids : List Int) : insertId ids 1 ≠ [] :=
      List.ne_nil_of_mem ((insertId_mem 1).2 (Or.inr rfl))
    cases held
    · exact some_ kept
    · exact some_ waiting
  by_cases none_ : (kept.isEmpty && waiting.isEmpty) = true
  · by_cases there : contains (oneLine why) h = true
    · have alone : headOf h (oneLine why) = h := if_pos there
      rw [if_pos none_, alone] at second
      exact other second
    · -- the why is said again, and what is before it is what the pause said
      have new : ¬contains (oneLine why) because.toList = true := by
        intro there
        have alone : headOf because.toList (oneLine why) = because.toList := if_pos there
        rw [alone] at clause
        exact clause free
      have whole : headOf because.toList (oneLine why) =
          because.toList ++ (": ".toList ++ oneLine why) := if_neg new
      have whole' : headOf h (oneLine why) = h ++ (": ".toList ++ oneLine why) := if_neg there
      rw [Bool.and_eq_true, List.isEmpty_iff, List.isEmpty_iff] at none_
      have said_ : said (clauseOf gone false) (if held then [] else insertId [] 1) ++
          said (clauseOf gone true) (if held then insertId [] 1 else []) =
            said (clauseOf gone held) [1] := by
        cases held
        · exact List.append_nil _
        · rfl
      rw [if_pos (by rw [none_.1, none_.2]; rfl), none_.1, none_.2, said_, whole, whole',
        List.append_cancel_right_eq, List.append_cancel_right_eq] at second
      rw [whole, second, List.append_cancel_left_eq, toList_clauseOf] at here
      exact absurd (List.cons.inj here).1 (by decide)
  · rw [if_neg none_] at second
    exact other second

theorem not_kept_once (free : Free gone because.toList)
    (clause : ¬Free gone (headOf because.toList (oneLine why))) : ¬KeptOnce because why gone := by
  intro once
  obtain ⟨held, differ⟩ := first_again free clause
  have same := once.alike [(1, held), (1, held)] [(1, held)] (fun p one => ?_) fun p => ?_
  · exact differ same
  · have same : p = (1, held) := by simpa using one
    have fits : InI64 1 := ⟨by decide, by decide⟩
    rw [same]
    exact fits
  · simp

/-- **The words are named once and in order exactly where what the pause says, with the why, has
    neither clause.** -/
theorem kept_once_iff (because why : String) (gone : Bool) (free : Free gone because.toList) :
    KeptOnce because why gone ↔ Free gone (headOf because.toList (oneLine why)) :=
  ⟨fun once => Classical.not_not.1 fun clause => not_kept_once free clause once, kept_once free⟩

/-- A window closed as unfit for work: the words told it are named once, in order. -/
theorem kept_once_unfit : KeptOnce "@zeus's window closed" "unfit for work" false :=
  (kept_once_iff _ _ _ (fun held => by cases held <;> decide)).2
    fun held => by cases held <;> decide

/-- A why that quotes a clause: words named again change the text. -/
theorem kept_once_quoted : Free false "@zeus's window closed".toList ∧
    ¬KeptOnce "@zeus's window closed" "it read; the words told its window wait for the resume: m-9"
      false := by
  have free : Free false "@zeus's window closed".toList := fun held => by cases held <;> decide
  refine ⟨free, not_kept_once free fun none_ => ?_⟩
  exact absurd (none_ false) (by decide)

end Once

end ConsensFlow
