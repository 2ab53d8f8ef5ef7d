/-
  File:      ConsensFlow/Harness/Ancestry.lean
  Subject:   LATE ANCESTORS IN CLAUDE'S TREE OF RECORDS (`cf-harness`, `claude/record/ancestry.rs`).

  Claude can write a turn's user record after the answer it started. Whether a user record is such
  a late ancestor is decided from the records read so far, and a record read later could decide it
  otherwise: so every uuid a decision looks up is watched, and a record that claims a watched uuid
  has the transcript read again.

  * `Ancestry.place`, `lookup`, `isLate` -- as the source has them, none where it would panic;
  * `Later` -- what reading on leaves of a tree: its places, and who claims each watched uuid;
  * `Rises` -- what a late ancestor is, by the tree alone;
  * **`Ancestry.decisions_stand`** -- of any run of records and decisions that is not to be read
    again, every decision is the one that all its records, read at once, give;
  * **`Ancestry.isLate_iff`** -- a decision is true exactly of a late ancestor.
-/
import ConsensFlow.Lib.Json

namespace ConsensFlow
namespace Harness

open Lib.Json

/-! ## 1. The tree -/

/-- A record's place in the conversation's tree. -/
structure Place where
  uuid : String
  /-- Its parent's uuid, when the record names one as text. -/
  parentUuid : Option String
  /-- The record is of the session read. -/
  own : Bool
  /-- The record is of the main conversation, not a sidechain. -/
  main : Bool
  /-- The record is an attachment, or the companion of a turn. -/
  attachment : Bool
  deriving DecidableEq, Repr

/-- Every record read: its place, who claims each uuid, and which uuids a decision looked up. -/
structure Ancestry where
  places : List Place
  /-- Each uuid's place, or none for a uuid two records claim. -/
  parents : String → Option (Option Nat)
  watched : List String

/-- Why a record is not taken. -/
inductive Halt where
  /-- The transcript is to be read again. -/
  | reread
  | panicked
  deriving DecidableEq, Repr

/-- `kind`: a record's `type`, when it is text. -/
def kind (value : Value) : Option String := (value.get "type").bind Value.asStr

/-- Whether a field is `true`, or `false`, and nothing else. -/
def isFlag (flag : Bool) : Option Value → Bool
  | some (.bool given) => given == flag
  | _ => false

/-- A text that says something. -/
def nonEmpty (text : Option String) : Option String := text.filter fun text => !text.isEmpty

namespace Place

/-- The place of a record with a uuid. -/
def of (record : Value) (session uuid : String) : Place where
  uuid := uuid
  parentUuid := (record.get "parentUuid").bind Value.asStr
  own := (record.get "sessionId").bind Value.asStr == some session
  main := isFlag false (record.get "isSidechain")
  attachment := kind record == some "attachment" || isFlag true (record.get "turnCompanion")

end Place

namespace Ancestry

def default : Ancestry := ⟨[], fun _ => none, []⟩

/-- The uuid a record claims. -/
def claims (record : Value) : Option String := nonEmpty ((record.get "uuid").bind Value.asStr)

/-- The tree with one more place; a uuid claimed already is nobody's. -/
def grown (a : Ancestry) (place : Place) : Ancestry where
  places := a.places ++ [place]
  parents := Function.update a.parents place.uuid
    (some (if (a.parents place.uuid).isSome then none else some a.places.length))
  watched := a.watched

/-- A record's place, when it has a uuid as text. Fails, to have the transcript read again, where a
    decision already looked its uuid up. -/
def place (a : Ancestry) (record : Value) (session : String) :
    Except Halt (Ancestry × Option Nat) :=
  match claims record with
  | none => .ok (a, none)
  | some uuid =>
    if a.watched.contains uuid then .error .reread
    else .ok (a.grown (.of record session uuid), some a.places.length)

/-- The tree with a uuid watched. -/
def watch (a : Ancestry) (uuid : String) : Ancestry :=
  { a with watched := if a.watched.contains uuid then a.watched else uuid :: a.watched }

/-- The place of the record that alone claims a uuid. -/
def claimant (a : Ancestry) (uuid : Option String) : Option Nat :=
  (nonEmpty uuid).bind fun uuid => (a.parents uuid).join

/-- `lookup`: the place of the record that claims `uuid`, and the uuid watched. -/
def lookup (a : Ancestry) (uuid : Option String) : Ancestry × Option Nat :=
  match nonEmpty uuid with
  | none => (a, none)
  | some uuid => (a.watch uuid, (a.parents uuid).join)

/-- From a record up to `user`, by parents, each met once. -/
def climb (user : Option Nat) (candidate : String) :
    Nat → Ancestry → List Nat → Option Nat → Option (Ancestry × Bool)
  | _, a, _, none => some (a, false)
  | 0, _, _, some _ => none
  | fuel + 1, a, seen, some at_ =>
    if seen.contains at_ then some (a, false)
    else match a.places[at_]? with
      | none => none
      | some place =>
        if !place.own || !place.main then some (a, false)
        else if some at_ = user then some (a, true)
        else if place.uuid != candidate && !place.attachment then some (a, false)
        else
          let looked := a.lookup place.parentUuid
          climb user candidate fuel looked.1 (at_ :: seen) looked.2

/-- `is_late`: whether `user` is an ancestor of the answer `candidate`, which the record `end_` ends
    the turn of. -/
def isLate (a : Ancestry) (user : Option Nat) (end_ : Option String) (candidate : String) :
    Option (Ancestry × Bool) :=
  let looked := a.lookup end_
  match looked.2 with
  | none => some (looked.1, false)
  | some at_ =>
    match looked.1.places[at_]? with
    | none => none
    | some place =>
      if !place.own || !place.main || place.parentUuid != some candidate then
        some (looked.1, false)
      else
        let found := looked.1.lookup (some candidate)
        climb user candidate (found.1.places.length + 1) found.1 [] found.2

end Ancestry

/-! ## 2. Runs -/

/-- A question put to the tree: whether `user` is a late ancestor of `candidate`. -/
structure Decision where
  user : Option Nat
  end_ : Option String
  candidate : String
  deriving DecidableEq, Repr

/-- A record read, or a decision taken. -/
inductive Step where
  | read (record : Value)
  | decide (decision : Decision)

namespace Step

def record : Step → Option Value
  | read record => some record
  | decide _ => none

def decision : Step → Option Decision
  | read _ => none
  | decide decision => some decision

end Step

namespace Ancestry

/-- A decision by its question. -/
def decided (a : Ancestry) (d : Decision) : Option (Ancestry × Bool) :=
  a.isLate d.user d.end_ d.candidate

/-- The tree, and the answers so far, after one more step. -/
def step (session : String) (done : Ancestry × List Bool) :
    Step → Except Halt (Ancestry × List Bool)
  | .read record => (done.1.place record session).map fun placed => (placed.1, done.2)
  | .decide d =>
    match done.1.decided d with
    | none => .error .panicked
    | some (a, answer) => .ok (a, done.2 ++ [answer])

/-- A transcript of a session read from its start, with the decisions taken on the way. -/
def run (session : String) (steps : List Step) : Except Halt (Ancestry × List Bool) :=
  steps.foldlM (step session) (default, [])

/-- The tree of all the records of a session, read at once. -/
def whole (session : String) (records : List Value) : Except Halt (Ancestry × List Bool) :=
  run session (records.map .read)

/-! ## 3. What reading on leaves -/

/-- A tree has the places of an earlier one, and the same claims to what the earlier one watched. -/
structure Agrees (a b : Ancestry) : Prop where
  places : a.places <+: b.places
  claims : ∀ uuid ∈ a.watched, b.parents uuid = a.parents uuid

/-- What a record read, or a decision taken, leaves of a tree. -/
structure Later (a b : Ancestry) : Prop extends Agrees a b where
  watched : ∀ uuid ∈ a.watched, uuid ∈ b.watched

/-- What a decision leaves of a tree: all of it, and more of its uuids watched. -/
structure Looked (a b : Ancestry) : Prop where
  places : b.places = a.places
  parents : b.parents = a.parents
  watched : ∀ uuid ∈ a.watched, uuid ∈ b.watched

section Later

variable {a b c : Ancestry} {user : Option Nat} {candidate : String}

theorem Later.agrees (h : Later a b) (k : Agrees b c) : Agrees a c :=
  ⟨h.places.trans k.places,
    fun uuid watched => (k.claims uuid (h.watched uuid watched)).trans (h.claims uuid watched)⟩

theorem Looked.refl (a : Ancestry) : Looked a a := ⟨rfl, rfl, fun _ h => h⟩

theorem Looked.trans (h : Looked a b) (k : Looked b c) : Looked a c :=
  ⟨k.places.trans h.places, k.parents.trans h.parents,
    fun uuid watched => k.watched uuid (h.watched uuid watched)⟩

theorem Looked.later (h : Looked a b) : Later a b :=
  ⟨⟨h.places ▸ List.prefix_refl _, fun _ _ => by rw [h.parents]⟩, h.watched⟩

theorem Agrees.at_ (h : Agrees a b) {at_ : Nat} {place : Place}
    (found : a.places[at_]? = some place) : b.places[at_]? = some place := by
  obtain ⟨more, same⟩ := h.places
  obtain ⟨below, -⟩ := List.getElem?_eq_some_iff.1 found
  rw [← same, List.getElem?_append_left below, found]

theorem mem_watch (a : Ancestry) (uuid : String) : uuid ∈ (a.watch uuid).watched := by
  unfold watch
  dsimp only
  split
  · next known => exact List.contains_iff_mem.1 known
  · exact List.mem_cons_self

theorem watch_looked (a : Ancestry) (uuid : String) : Looked a (a.watch uuid) := by
  refine ⟨rfl, rfl, fun other known => ?_⟩
  unfold watch
  dsimp only
  split
  · exact known
  · exact List.mem_cons_of_mem _ known

theorem lookup_looked (a : Ancestry) (uuid : Option String) : Looked a (a.lookup uuid).1 := by
  unfold lookup
  cases nonEmpty uuid with
  | none => exact Looked.refl a
  | some uuid => exact watch_looked a uuid

theorem lookup_places (a : Ancestry) (uuid : Option String) :
    (a.lookup uuid).1.places = a.places := (lookup_looked a uuid).places

theorem lookup_parents (a : Ancestry) (uuid : Option String) :
    (a.lookup uuid).1.parents = a.parents := (lookup_looked a uuid).parents

theorem lookup_found (a : Ancestry) (uuid : Option String) :
    (a.lookup uuid).2 = a.claimant uuid := by
  unfold lookup claimant
  cases nonEmpty uuid <;> rfl

/-- Looking up anything more changes nothing of what a tree agrees with. -/
theorem Agrees.looked (h : Agrees a b) (uuid : Option String) : Agrees a (b.lookup uuid).1 := by
  refine ⟨?_, fun known watched => ?_⟩
  · rw [lookup_places]
    exact h.places
  · rw [lookup_parents]
    exact h.claims known watched

/-- What was looked up is found again in every tree that agrees. -/
theorem lookup_stands {uuid : Option String} (h : Agrees (a.lookup uuid).1 b) :
    (b.lookup uuid).2 = (a.lookup uuid).2 := by
  rw [lookup_found, lookup_found]
  unfold claimant
  have same : ∀ text, nonEmpty uuid = some text → b.parents text = a.parents text := by
    intro text is_
    have watched : text ∈ (a.lookup uuid).1.watched := by
      unfold lookup
      rw [is_]
      exact mem_watch a text
    rw [h.claims text watched, lookup_parents]
  cases is_ : nonEmpty uuid with
  | none => rfl
  | some text =>
    rw [Option.bind_some, Option.bind_some, same text is_]

theorem climb_none (fuel : Nat) (a : Ancestry) (seen : List Nat) :
    climb user candidate fuel a seen none = some (a, false) := by
  cases fuel <;> rfl

/-- One step of the climb. -/
theorem climb_some (fuel : Nat) (a : Ancestry) (seen : List Nat) (at_ : Nat) :
    climb user candidate (fuel + 1) a seen (some at_) =
      if seen.contains at_ then some (a, false)
      else a.places[at_]?.bind fun place =>
        if !place.own || !place.main then some (a, false)
        else if some at_ = user then some (a, true)
        else if place.uuid != candidate && !place.attachment then some (a, false)
        else climb user candidate fuel (a.lookup place.parentUuid).1 (at_ :: seen)
          (a.lookup place.parentUuid).2 := by
  rw [climb]
  cases a.places[at_]? <;> rfl

theorem climb_looked {fuel : Nat} {seen : List Nat} {record : Option Nat} {answer : Bool}
    (h : climb user candidate fuel a seen record = some (b, answer)) : Looked a b := by
  induction fuel generalizing a seen record with
  | zero =>
    cases record with
    | none =>
      obtain ⟨rfl, -⟩ := Prod.mk.inj (Option.some.inj h)
      exact Looked.refl a
    | some at_ => cases h
  | succ fuel ih =>
    cases record with
    | none =>
      obtain ⟨rfl, -⟩ := Prod.mk.inj (Option.some.inj h)
      exact Looked.refl a
    | some at_ =>
      have stops {answer' : Bool} (k : some (a, answer') = some (b, answer)) : Looked a b := by
        obtain ⟨rfl, -⟩ := Prod.mk.inj (Option.some.inj k)
        exact Looked.refl a
      rw [climb_some] at h
      split at h
      · exact stops h
      · obtain ⟨place, -, h⟩ := Option.bind_eq_some_iff.1 h
        split_ifs at h
        · exact stops h
        · exact stops h
        · exact stops h
        · exact (lookup_looked a place.parentUuid).trans (ih h)

/-- **A climb goes the same way in every tree that agrees with what it left.** -/
theorem climb_stands {fuel more : Nat} {seen : List Nat} {record : Option Nat} {answer : Bool}
    (h : climb user candidate fuel a seen record = some (b, answer)) (k : Agrees b c)
    (enough : fuel ≤ more) : ∃ c', climb user candidate more c seen record = some (c', answer) := by
  induction fuel generalizing a c more seen record with
  | zero =>
    cases record with
    | none =>
      obtain ⟨-, rfl⟩ := Prod.mk.inj (Option.some.inj h)
      exact ⟨c, climb_none more c seen⟩
    | some at_ => cases h
  | succ fuel ih =>
    cases record with
    | none =>
      obtain ⟨-, rfl⟩ := Prod.mk.inj (Option.some.inj h)
      exact ⟨c, climb_none more c seen⟩
    | some at_ =>
      obtain ⟨more, rfl⟩ : ∃ n, more = n + 1 := ⟨more - 1, by omega⟩
      have later := (climb_looked h).later
      rw [climb_some] at h ⊢
      by_cases met : seen.contains at_ = true
      · rw [if_pos met] at h ⊢
        obtain ⟨-, rfl⟩ := Prod.mk.inj (Option.some.inj h)
        exact ⟨c, rfl⟩
      rw [if_neg met] at h ⊢
      obtain ⟨place, found, h⟩ := Option.bind_eq_some_iff.1 h
      rw [(later.agrees k).at_ found, Option.bind_some]
      split_ifs at h ⊢
      · obtain ⟨-, rfl⟩ := Prod.mk.inj (Option.some.inj h)
        exact ⟨c, rfl⟩
      · obtain ⟨-, rfl⟩ := Prod.mk.inj (Option.some.inj h)
        exact ⟨c, rfl⟩
      · obtain ⟨-, rfl⟩ := Prod.mk.inj (Option.some.inj h)
        exact ⟨c, rfl⟩
      · -- The parent was looked up on the way, so it is found again.
        have parent := lookup_stands ((climb_looked h).later.agrees k)
        rw [parent]
        exact ih h (k.looked place.parentUuid) (by omega)

/-- One decision. -/
theorem isLate_eq (a : Ancestry) (user : Option Nat) (end_ : Option String) (candidate : String) :
    a.isLate user end_ candidate =
      match (a.lookup end_).2 with
      | none => some ((a.lookup end_).1, false)
      | some at_ => (a.lookup end_).1.places[at_]?.bind fun place =>
        if !place.own || !place.main || place.parentUuid != some candidate then
          some ((a.lookup end_).1, false)
        else climb user candidate (a.places.length + 1)
          ((a.lookup end_).1.lookup (some candidate)).1 []
          ((a.lookup end_).1.lookup (some candidate)).2 := by
  rw [isLate]
  cases (a.lookup end_).2 with
  | none => rfl
  | some at_ =>
    simp only [lookup_places]
    cases a.places[at_]? <;> rfl

theorem decided_looked {d : Decision} {answer : Bool} (h : a.decided d = some (b, answer)) :
    Looked a b := by
  have looked := lookup_looked a d.end_
  rw [decided, isLate_eq] at h
  cases found : (a.lookup d.end_).2 with
  | none =>
    rw [found] at h
    obtain ⟨rfl, -⟩ := Prod.mk.inj (Option.some.inj h)
    exact looked
  | some at_ =>
    rw [found] at h
    obtain ⟨place, -, h⟩ := Option.bind_eq_some_iff.1 h
    split at h
    · obtain ⟨rfl, -⟩ := Prod.mk.inj (Option.some.inj h)
      exact looked
    · exact looked.trans ((lookup_looked _ _).trans (climb_looked h))

/-- **A decision taken once is taken so again in every tree that agrees with what it left.** -/
theorem decided_stands {d : Decision} {answer : Bool} (h : a.decided d = some (b, answer))
    (k : Agrees b c) : ∃ c', c.decided d = some (c', answer) := by
  have later := (decided_looked h).later
  have longer : a.places.length ≤ c.places.length := (later.agrees k).places.length_le
  rw [decided, isLate_eq] at h ⊢
  cases found : (a.lookup d.end_).2 with
  | none =>
    rw [found] at h
    obtain ⟨rfl, rfl⟩ := Prod.mk.inj (Option.some.inj h)
    rw [lookup_stands k, found]
    exact ⟨_, rfl⟩
  | some at_ =>
    rw [found] at h
    obtain ⟨place, here, h⟩ := Option.bind_eq_some_iff.1 h
    by_cases other : (!place.own || !place.main || place.parentUuid != some d.candidate) = true
    · rw [if_pos other] at h
      obtain ⟨rfl, rfl⟩ := Prod.mk.inj (Option.some.inj h)
      rw [lookup_stands k, found]
      dsimp only
      rw [(k.looked d.end_).at_ here, Option.bind_some, if_pos other]
      exact ⟨_, rfl⟩
    · rw [if_neg other] at h
      have first := ((lookup_looked _ (some d.candidate)).trans (climb_looked h)).later
      rw [lookup_stands (first.agrees k), found]
      dsimp only
      rw [((first.agrees k).looked d.end_).at_ here, Option.bind_some, if_neg other]
      have second : ((c.lookup d.end_).1.lookup (some d.candidate)).2 = _ :=
        lookup_stands ((climb_looked h).later.agrees (k.looked d.end_))
      rw [second]
      exact climb_stands h ((k.looked d.end_).looked (some d.candidate)) (by omega)

end Later

/-! ## 4. What a tree holds -/

/-- The one of some places that has a uuid. -/
structure Alone (places : List Place) (uuid : String) (at_ : Nat) : Prop where
  here : ∃ place, places[at_]? = some place ∧ place.uuid = uuid
  only : ∀ other place, places[other]? = some place → place.uuid = uuid → other = at_

/-- A tree says who alone claims each uuid of its places. -/
structure Valid (a : Ancestry) : Prop where
  named : ∀ place ∈ a.places, place.uuid.isEmpty = false
  known : ∀ uuid, (a.parents uuid).isSome = true ↔ ∃ place ∈ a.places, place.uuid = uuid
  alone : ∀ uuid at_, a.parents uuid = some (some at_) ↔ Alone a.places uuid at_

section Valid

variable {a b : Ancestry}

theorem valid_default : Valid default := by
  refine ⟨fun place none_ => absurd none_ List.not_mem_nil, fun uuid => ?_, fun uuid at_ => ?_⟩
  · exact ⟨fun none_ => absurd none_ Bool.false_ne_true, fun ⟨_, none_, _⟩ =>
      absurd none_ List.not_mem_nil⟩
  · refine ⟨fun none_ => (by cases none_), ?_⟩
    rintro ⟨⟨place, none_, -⟩, -⟩
    cases none_

theorem getElem?_grown {places : List Place} {place found : Place} {at_ : Nat} :
    (places ++ [place])[at_]? = some found ↔
      places[at_]? = some found ∨ (at_ = places.length ∧ found = place) := by
  rcases Nat.lt_trichotomy at_ places.length with less | rfl | more
  · rw [List.getElem?_append_left less]
    exact ⟨.inl, fun h => h.resolve_right fun last => by omega⟩
  · rw [List.getElem?_concat_length, List.getElem?_eq_none (Nat.le_refl _)]
    exact ⟨fun h => .inr ⟨rfl, (Option.some.inj h).symm⟩, fun h => by
      rcases h with h | ⟨-, rfl⟩
      · cases h
      · rfl⟩
  · rw [List.getElem?_eq_none (by rw [List.length_append, List.length_singleton]; omega),
      List.getElem?_eq_none (by omega)]
    exact ⟨fun h => (by cases h), fun h => by
      rcases h with h | ⟨rfl, -⟩
      · exact h
      · omega⟩

theorem Alone.grown {places : List Place} {place : Place} {uuid : String} {at_ : Nat}
    (other : place.uuid ≠ uuid) : Alone (places ++ [place]) uuid at_ ↔ Alone places uuid at_ := by
  have found (i : Nat) (p : Place) (is_ : p.uuid = uuid) :
      (places ++ [place])[i]? = some p ↔ places[i]? = some p := by
    rw [getElem?_grown]
    exact ⟨fun h => h.resolve_right fun last => other (last.2 ▸ is_), .inl⟩
  constructor
  · rintro ⟨⟨p, here, is_⟩, only⟩
    exact ⟨⟨p, (found _ p is_).1 here, is_⟩,
      fun i q there same => only i q ((found i q same).2 there) same⟩
  · rintro ⟨⟨p, here, is_⟩, only⟩
    exact ⟨⟨p, (found _ p is_).2 here, is_⟩,
      fun i q there same => only i q ((found i q same).1 there) same⟩

/-- One more place, of a uuid nobody claims, or of one that is nobody's from then on. -/
theorem Valid.grown (h : Valid a) {place : Place} (named : place.uuid.isEmpty = false) :
    Valid (a.grown place) := by
  refine ⟨fun p in_ => ?_, fun uuid => ?_, fun uuid at_ => ?_⟩
  · rcases List.mem_append.1 in_ with in_ | in_
    · exact h.named p in_
    · rw [List.mem_singleton.1 in_]
      exact named
  · show (Function.update a.parents place.uuid _ uuid).isSome = true ↔ ∃ p ∈ a.places ++ [place], _
    by_cases same : uuid = place.uuid
    · rw [same, Function.update_self]
      exact ⟨fun _ => ⟨place, List.mem_append_right _ List.mem_cons_self, rfl⟩, fun _ => rfl⟩
    · rw [Function.update_of_ne same, h.known uuid]
      constructor
      · rintro ⟨p, in_, is_⟩
        exact ⟨p, List.mem_append_left _ in_, is_⟩
      · rintro ⟨p, in_, is_⟩
        rcases List.mem_append.1 in_ with in_ | in_
        · exact ⟨p, in_, is_⟩
        · rw [List.mem_singleton.1 in_] at is_
          exact absurd is_.symm same
  · show Function.update a.parents place.uuid _ uuid = _ ↔ Alone (a.places ++ [place]) uuid at_
    by_cases same : uuid = place.uuid
    · rw [same, Function.update_self]
      by_cases claimed : (a.parents place.uuid).isSome = true
      · -- Two records claim it.
        rw [if_pos claimed]
        refine ⟨fun none_ => (by cases none_), fun alone => ?_⟩
        obtain ⟨p, in_, is_⟩ := (h.known _).1 claimed
        obtain ⟨i, below, found⟩ := List.getElem_of_mem in_
        have first := alone.only i p (getElem?_grown.2 (.inl (by
          rw [List.getElem?_eq_getElem below, found]))) is_
        have second := alone.only a.places.length place (getElem?_grown.2 (.inr ⟨rfl, rfl⟩)) rfl
        omega
      · rw [if_neg claimed]
        constructor
        · intro last
          obtain rfl := Option.some.inj (Option.some.inj last)
          refine ⟨⟨place, getElem?_grown.2 (.inr ⟨rfl, rfl⟩), rfl⟩, fun i p there is_ => ?_⟩
          rcases getElem?_grown.1 there with there | ⟨last, -⟩
          · exact absurd ((h.known _).2 ⟨p, List.mem_of_getElem? there, is_⟩) claimed
          · exact last
        · intro alone
          rw [alone.only a.places.length place (getElem?_grown.2 (.inr ⟨rfl, rfl⟩)) rfl]
    · rw [Function.update_of_ne same, h.alone, Alone.grown fun is_ => same is_.symm]

/-- What only looks up leaves a tree valid. -/
theorem Valid.same (h : Valid a) (places : b.places = a.places) (parents : b.parents = a.parents) :
    Valid b := by
  refine ⟨?_, ?_, ?_⟩
  · rw [places]
    exact h.named
  · rw [places, parents]
    exact h.known
  · rw [places, parents]
    exact h.alone

theorem Valid.lookup (h : Valid a) (uuid : Option String) : Valid (a.lookup uuid).1 :=
  h.same (lookup_places a uuid) (lookup_parents a uuid)

/-- Who claims a uuid is the one place that has it. -/
theorem Valid.claimant (h : Valid a) {uuid : Option String} {at_ : Nat} :
    a.claimant uuid = some at_ ↔ ∃ text, uuid = some text ∧ Alone a.places text at_ := by
  unfold Ancestry.claimant nonEmpty
  cases uuid with
  | none =>
    refine ⟨fun none_ => (by cases none_), ?_⟩
    rintro ⟨text, none_, -⟩
    cases none_
  | some text =>
    by_cases blank : text.isEmpty = true
    · rw [Option.filter_some, if_neg (by rw [blank]; exact Bool.false_ne_true)]
      refine ⟨fun none_ => (by cases none_), ?_⟩
      rintro ⟨text', same, ⟨p, here, is_⟩, -⟩
      obtain rfl := Option.some.inj same
      have named := h.named p (List.mem_of_getElem? here)
      rw [is_, blank] at named
      cases named
    · rw [Option.filter_some, if_pos (by rw [Bool.eq_false_iff.2 blank]; rfl), Option.bind_some,
        Option.join_eq_some_iff, h.alone]
      exact ⟨fun alone => ⟨text, rfl, alone⟩, fun ⟨_, same, alone⟩ => Option.some.inj same ▸ alone⟩

theorem Valid.below (h : Valid a) {uuid : Option String} {at_ : Nat}
    (found : a.claimant uuid = some at_) : at_ < a.places.length := by
  obtain ⟨text, -, ⟨place, here, -⟩, -⟩ := h.claimant.1 found
  exact (List.getElem?_eq_some_iff.1 here).1

end Valid

/-! ## 5. No decision panics -/

section Settles

variable {a : Ancestry} {user : Option Nat} {candidate : String}

/-- A climb ends: it meets no place twice. -/
theorem climb_settles {fuel : Nat} {seen : List Nat} {record : Option Nat} (h : Valid a)
    (apart : seen.Nodup) (known : ∀ at_ ∈ seen, at_ < a.places.length)
    (found : ∀ at_, record = some at_ → at_ < a.places.length)
    (enough : a.places.length + 1 ≤ fuel + seen.length) :
    ∃ b answer, climb user candidate fuel a seen record = some (b, answer) := by
  induction fuel generalizing a seen record with
  | zero =>
    have within : seen ⊆ List.range a.places.length :=
      fun at_ in_ => List.mem_range.2 (known at_ in_)
    have few := (apart.subperm within).length_le
    rw [List.length_range] at few
    omega
  | succ fuel ih =>
    cases record with
    | none => exact ⟨a, false, rfl⟩
    | some at_ =>
      have below := found at_ rfl
      rw [climb_some]
      by_cases met : seen.contains at_ = true
      · rw [if_pos met]
        exact ⟨a, false, rfl⟩
      rw [if_neg met, List.getElem?_eq_getElem below, Option.bind_some]
      split_ifs
      · exact ⟨a, false, rfl⟩
      · exact ⟨a, true, rfl⟩
      · exact ⟨a, false, rfl⟩
      · refine ih (h.lookup _) (apart.cons fun in_ => met (List.contains_iff_mem.2 in_)) ?_ ?_ ?_
        · rw [lookup_places]
          intro i in_
          rcases List.mem_cons.1 in_ with rfl | in_
          · exact below
          · exact known i in_
        · rw [lookup_places, lookup_found]
          exact fun i is_ => h.below is_
        · rw [lookup_places, List.length_cons]
          omega

theorem decided_settles (h : Valid a) (d : Decision) :
    ∃ b answer, a.decided d = some (b, answer) := by
  rw [decided, isLate_eq]
  cases found : (a.lookup d.end_).2 with
  | none => exact ⟨_, _, rfl⟩
  | some at_ =>
    rw [lookup_found] at found
    dsimp only
    rw [lookup_places, List.getElem?_eq_getElem (h.below found), Option.bind_some]
    split
    · exact ⟨_, _, rfl⟩
    · have valid := h.lookup d.end_
      refine climb_settles (valid.lookup _) List.nodup_nil
        (fun i none_ => absurd none_ List.not_mem_nil) ?_ ?_
      · rw [lookup_places, lookup_found]
        exact fun i is_ => valid.below is_
      · rw [lookup_places, lookup_places]
        exact Nat.le_refl _

end Settles

/-! ## 6. Every run -/

/-- The places of a session's records, in the order they were read. -/
def placesOf (session : String) (records : List Value) : List Place :=
  records.filterMap fun record => (claims record).map (Place.of record session)

/-- What holds of a tree after some steps: its places are those of the records read, and each
    decision taken is taken so again in every tree that agrees. -/
structure Reads (session : String) (steps : List Step) (a : Ancestry) (answers : List Bool) :
    Prop where
  valid : Valid a
  places : a.places = placesOf session (steps.filterMap Step.record)
  stand : List.Forall₂ (fun d answer => ∀ b, Agrees a b → ∃ b', b.decided d = some (b', answer))
    (steps.filterMap Step.decision) answers

section Runs

variable {session : String} {steps : List Step} {a b : Ancestry} {answers : List Bool}

theorem claims_nonEmpty {record : Value} {uuid : String} (h : claims record = some uuid) :
    uuid.isEmpty = false := by
  have says_ := (Option.filter_eq_some_iff.1 h).2
  rw [Bool.not_eq_true'] at says_
  exact says_

theorem grown_later {place : Place} (unwatched : place.uuid ∉ a.watched) :
    Later a (a.grown place) := by
  refine ⟨⟨List.prefix_append _ _, fun uuid watched => ?_⟩, fun _ watched => watched⟩
  exact Function.update_of_ne (fun (is_ : uuid = place.uuid) => unwatched (is_ ▸ watched)) _ _

/-- A record read. -/
theorem Reads.read (h : Reads session steps a answers) (record : Value) :
    (claims record).any a.watched.contains = true ∧
        step session (a, answers) (.read record) = .error .reread ∨
      ∃ b, step session (a, answers) (.read record) = .ok (b, answers) ∧
        Reads session (steps ++ [.read record]) b answers ∧ b.watched = a.watched := by
  have records : (steps ++ [Step.read record]).filterMap Step.record =
      steps.filterMap Step.record ++ [record] := by
    rw [List.filterMap_append]
    rfl
  have decisions : (steps ++ [Step.read record]).filterMap Step.decision =
      steps.filterMap Step.decision := by
    rw [List.filterMap_append]
    exact List.append_nil _
  have places : placesOf session (steps.filterMap Step.record ++ [record]) =
      a.places ++ ((claims record).map (Place.of record session)).toList := by
    rw [placesOf, List.filterMap_append, h.places, placesOf]
    congr 1
  rw [step, place]
  cases uuid : claims record with
  | none =>
    refine .inr ⟨a, rfl, ⟨h.valid, ?_, decisions ▸ h.stand⟩, rfl⟩
    rw [records, places, uuid]
    exact (List.append_nil _).symm
  | some uuid_ =>
    dsimp only
    by_cases watched : a.watched.contains uuid_ = true
    · rw [if_pos watched]
      exact .inl ⟨watched, rfl⟩
    · rw [if_neg watched]
      have later : Later a (a.grown (.of record session uuid_)) :=
        grown_later fun in_ => watched (List.contains_iff_mem.2 in_)
      refine .inr ⟨_, rfl, ⟨h.valid.grown (claims_nonEmpty uuid), ?_, ?_⟩, rfl⟩
      · rw [records, places, uuid]
        rfl
      · rw [decisions]
        exact h.stand.imp fun d answer stands c agrees => stands c (later.agrees agrees)

/-- A decision taken. -/
theorem Reads.decide (h : Reads session steps a answers) (d : Decision) :
    ∃ b answer, step session (a, answers) (.decide d) = .ok (b, answers ++ [answer]) ∧
      Reads session (steps ++ [.decide d]) b (answers ++ [answer]) := by
  obtain ⟨b, answer, is_⟩ := decided_settles h.valid d
  have looked := decided_looked is_
  refine ⟨b, answer, by rw [step, is_], ⟨h.valid.same looked.places looked.parents, ?_, ?_⟩⟩
  · rw [looked.places, h.places, List.filterMap_append]
    exact congrArg (placesOf session) (List.append_nil _).symm
  · rw [List.filterMap_append]
    refine List.rel_append (h.stand.imp fun e given stands c agrees =>
      stands c (looked.later.agrees agrees)) ?_
    exact .cons (fun c agrees => decided_stands is_ agrees) .nil

/-- Two trees of the same places say the same of every uuid. -/
theorem Valid.agrees (h : Valid a) (k : Valid b) (places : b.places = a.places) : Agrees a b := by
  refine ⟨places ▸ List.prefix_refl _, fun uuid _ => ?_⟩
  have known : (b.parents uuid).isSome = true ↔ (a.parents uuid).isSome = true := by
    rw [h.known, k.known, places]
  have alone (i : Nat) : b.parents uuid = some (some i) ↔ a.parents uuid = some (some i) := by
    rw [h.alone, k.alone, places]
  cases ha : a.parents uuid with
  | none =>
    rw [ha] at known
    exact Option.not_isSome_iff_eq_none.1 fun is_ => absurd (known.1 is_) Bool.false_ne_true
  | some found =>
    cases found with
    | some i => exact (alone i).2 ha
    | none =>
      rw [ha] at known alone
      obtain ⟨found, hb⟩ := Option.isSome_iff_exists.1 (known.2 rfl)
      cases found with
      | none => exact hb
      | some i => cases (alone i).1 hb

/-- After any steps the transcript is to be read again, or the tree is what was read. -/
theorem run_reads (session : String) (steps : List Step) :
    run session steps = .error .reread ∨
      ∃ a answers, run session steps = .ok (a, answers) ∧ Reads session steps a answers := by
  induction steps using List.reverseRecOn with
  | nil => exact .inr ⟨default, [], rfl, ⟨valid_default, rfl, .nil⟩⟩
  | append_singleton steps last ih =>
    have more : run session (steps ++ [last]) =
        (run session steps).bind fun done => step session done last := by
      unfold run
      rw [List.foldlM_append]
      cases steps.foldlM (step session) (default, []) with
      | error halt => rfl
      | ok done =>
        show (step session done last >>= pure) = _
        rw [bind_pure]
        rfl
    rcases ih with again | ⟨a, answers, read, reads⟩
    · rw [more, again]
      exact .inl rfl
    · rw [more, read]
      show step session (a, answers) last = _ ∨ ∃ b given, step session (a, answers) last = _ ∧ _
      cases last with
      | read record =>
        rcases reads.read record with ⟨-, again⟩ | ⟨b, is_, reads, -⟩
        · exact .inl again
        · exact .inr ⟨b, answers, is_, reads⟩
      | decide d =>
        obtain ⟨b, answer, is_, reads⟩ := reads.decide d
        exact .inr ⟨b, answers ++ [answer], is_, reads⟩

/-- Records read with no decision between them are read once. -/
theorem whole_reads (session : String) (records : List Value) :
    ∃ w, whole session records = .ok (w, []) ∧ Reads session (records.map .read) w [] ∧
      w.watched = [] := by
  induction records using List.reverseRecOn with
  | nil => exact ⟨default, rfl, ⟨valid_default, rfl, .nil⟩, rfl⟩
  | append_singleton records record ih =>
    obtain ⟨w, read, reads, unwatched⟩ := ih
    have more : whole session (records ++ [record]) = step session (w, []) (.read record) := by
      unfold whole run at read ⊢
      rw [List.map_append, List.foldlM_append, read]
      show (step session (w, []) (.read record) >>= pure) = _
      rw [bind_pure]
    rcases reads.read record with ⟨watched, -⟩ | ⟨b, is_, reads', same⟩
    · rw [unwatched] at watched
      cases uuid : claims record with
      | none =>
        rw [uuid] at watched
        cases watched
      | some uuid_ =>
        rw [uuid] at watched
        cases watched
    · refine ⟨b, more.trans is_, ?_, same.trans unwatched⟩
      rw [List.map_append]
      exact reads'

end Runs

/-- **A decision taken stands**: a transcript read from its start, with decisions taken anywhere on
    the way, is to be read again, or every decision is the one that the tree of all its records,
    read at once, gives. Read at once, they are never to be read again. -/
theorem decisions_stand (session : String) (steps : List Step) :
    run session steps = .error .reread ∨
      ∃ a answers w, run session steps = .ok (a, answers) ∧
        whole session (steps.filterMap Step.record) = .ok (w, []) ∧
        List.Forall₂ (fun d answer => ∃ w', w.decided d = some (w', answer))
          (steps.filterMap Step.decision) answers := by
  rcases run_reads session steps with again | ⟨a, answers, read, reads⟩
  · exact .inl again
  · obtain ⟨w, atOnce, all, -⟩ := whole_reads session (steps.filterMap Step.record)
    have records : ((steps.filterMap Step.record).map Step.read).filterMap Step.record =
        steps.filterMap Step.record := by
      rw [List.filterMap_map]
      exact List.filterMap_some
    have places : w.places = a.places := by
      rw [all.places, reads.places, records]
    exact .inr ⟨a, answers, w, read, atOnce,
      reads.stand.imp fun d answer stands => stands w (reads.valid.agrees all.valid places)⟩

/-! ## 7. What a late ancestor is -/

/-- From a record up to `user`, by parents that are each the one to claim their uuid, all of this
    session's main conversation: the answer `candidate`, and attachments between. -/
inductive Rises (places : List Place) (user : Option Nat) (candidate : String) : Nat → Prop where
  | here {at_ : Nat} {place : Place} (found : places[at_]? = some place) (own : place.own = true)
      (main : place.main = true) (is_ : user = some at_) : Rises places user candidate at_
  | up {at_ next : Nat} {place : Place} {uuid : String} (found : places[at_]? = some place)
      (own : place.own = true) (main : place.main = true)
      (between : place.uuid = candidate ∨ place.attachment = true)
      (parent : place.parentUuid = some uuid) (alone : Alone places uuid next)
      (rest : Rises places user candidate next) : Rises places user candidate at_

/-- A late ancestor: the record that ends the turn is the answer's child, and the answer rises to
    `user`. -/
def LateAncestor (places : List Place) (d : Decision) : Prop :=
  ∃ uuid end_ place at_, d.end_ = some uuid ∧ Alone places uuid end_ ∧ places[end_]? = some place ∧
    place.own = true ∧ place.main = true ∧ place.parentUuid = some d.candidate ∧
    Alone places d.candidate at_ ∧ Rises places d.user d.candidate at_

/-- A rise, with how many records it passes before `user`. -/
inductive Counted (places : List Place) (user : Option Nat) (candidate : String) :
    Nat → Nat → Prop where
  | here {at_ : Nat} {place : Place} (found : places[at_]? = some place) (own : place.own = true)
      (main : place.main = true) (is_ : user = some at_) : Counted places user candidate 0 at_
  | up {count at_ next : Nat} {place : Place} {uuid : String} (found : places[at_]? = some place)
      (own : place.own = true) (main : place.main = true) (other : user ≠ some at_)
      (between : place.uuid = candidate ∨ place.attachment = true)
      (parent : place.parentUuid = some uuid) (alone : Alone places uuid next)
      (rest : Counted places user candidate count next) :
      Counted places user candidate (count + 1) at_

section Rises

variable {a b : Ancestry} {places : List Place} {user : Option Nat} {candidate : String}

theorem Rises.counted {at_ : Nat} (h : Rises places user candidate at_) :
    ∃ count, Counted places user candidate count at_ := by
  induction h with
  | here found own main is_ => exact ⟨0, .here found own main is_⟩
  | @up at_ next place uuid found own main between parent alone rest ih =>
    by_cases is_ : user = some at_
    · exact ⟨0, .here found own main is_⟩
    · obtain ⟨count, counted⟩ := ih
      exact ⟨count + 1, .up found own main is_ between parent alone counted⟩

theorem Alone.unique {uuid : String} {i j : Nat} (h : Alone places uuid i)
    (k : Alone places uuid j) : i = j := by
  obtain ⟨place, here, is_⟩ := h.here
  exact k.only i place here is_

/-- There is one way up, so one count. -/
theorem Counted.unique {n m at_ : Nat} (h : Counted places user candidate n at_)
    (k : Counted places user candidate m at_) : n = m := by
  induction h generalizing m with
  | here found own main is_ =>
    cases k with
    | here => rfl
    | up _ _ _ other => exact absurd is_ other
  | up found own main other between parent alone rest ih =>
    cases k with
    | here _ _ _ is_ => exact absurd is_ other
    | up found' _ _ _ _ parent' alone' rest' =>
      obtain rfl := Option.some.inj (found.symm.trans found')
      obtain rfl := Option.some.inj (parent.symm.trans parent')
      obtain rfl := alone.unique alone'
      rw [ih rest']

/-- A climb that answers yes rose. -/
theorem climb_rises {fuel : Nat} {seen : List Nat} {record : Option Nat} (valid : Valid a)
    (h : climb user candidate fuel a seen record = some (b, true)) :
    ∃ at_, record = some at_ ∧ Rises a.places user candidate at_ := by
  induction fuel generalizing a seen record with
  | zero => cases record <;> cases h
  | succ fuel ih =>
    cases record with
    | none => cases h
    | some at_ =>
      refine ⟨at_, rfl, ?_⟩
      rw [climb_some] at h
      split at h
      · cases h
      obtain ⟨place, found, h⟩ := Option.bind_eq_some_iff.1 h
      split_ifs at h with beside is_ ends
      · cases h
      · rw [Bool.or_eq_true, Bool.not_eq_true', Bool.not_eq_true', not_or, Bool.not_eq_false,
          Bool.not_eq_false] at beside
        exact .here found beside.1 beside.2 is_.symm
      · cases h
      · rw [Bool.or_eq_true, Bool.not_eq_true', Bool.not_eq_true', not_or, Bool.not_eq_false,
          Bool.not_eq_false] at beside
        rw [Bool.and_eq_true, bne_iff_ne, Bool.not_eq_true', not_and_or, not_not,
          Bool.not_eq_false] at ends
        obtain ⟨next, parent, rest⟩ := ih (valid.lookup place.parentUuid) h
        rw [lookup_found, valid.claimant] at parent
        obtain ⟨uuid, parent, alone⟩ := parent
        rw [lookup_places] at rest
        exact .up found beside.1 beside.2 ends parent alone rest

/-- A climb along a rise answers yes: what it has met is further from `user` than where it is. -/
theorem climb_counted {fuel count : Nat} {seen : List Nat} {at_ : Nat} {answer : Bool}
    (valid : Valid a) (rises : Counted a.places user candidate count at_)
    (further : ∀ met ∈ seen, ∃ more > count, Counted a.places user candidate more met)
    (h : climb user candidate fuel a seen (some at_) = some (b, answer)) : answer = true := by
  induction fuel generalizing a seen at_ count with
  | zero => cases h
  | succ fuel ih =>
    have fresh : ¬seen.contains at_ = true := by
      intro met
      obtain ⟨more, later, counted⟩ := further at_ (List.contains_iff_mem.1 met)
      rw [counted.unique rises] at later
      exact Nat.lt_irrefl _ later
    have here : ¬(!true || !true) = true := Bool.false_ne_true
    rw [climb_some, if_neg fresh] at h
    have step := rises
    cases rises with
    | @here at_ place found own main is_ =>
      rw [found, Option.bind_some, own, main, if_neg here, if_pos is_.symm] at h
      exact (Prod.mk.inj (Option.some.inj h)).2.symm
    | @up count at_ next place uuid found own main other between parent alone rest =>
      have passed : ¬(place.uuid != candidate && !place.attachment) = true := by
        rw [Bool.and_eq_true, bne_iff_ne, Bool.not_eq_true', not_and_or, not_not, Bool.not_eq_false]
        exact between
      rw [found, Option.bind_some, own, main, if_neg here,
        if_neg fun is_ => other is_.symm, if_neg passed, lookup_found,
        valid.claimant.2 ⟨uuid, parent, alone⟩] at h
      have same := lookup_places a place.parentUuid
      refine ih (valid.lookup place.parentUuid) (same ▸ rest) ?_ h
      rw [same]
      intro met in_
      rcases List.mem_cons.1 in_ with rfl | in_
      · exact ⟨count + 1, Nat.lt_succ_self _, step⟩
      · obtain ⟨more, later, counted⟩ := further met in_
        exact ⟨more, by omega, counted⟩

/-- A decision is of late ancestors. -/
theorem decided_iff (valid : Valid a) (d : Decision) :
    (∃ b, a.decided d = some (b, true)) ↔ LateAncestor a.places d := by
  have places := lookup_places a d.end_
  have looked := valid.lookup d.end_
  rw [decided, isLate_eq]
  constructor
  · rintro ⟨b, h⟩
    cases found : (a.lookup d.end_).2 with
    | none =>
      rw [found] at h
      cases h
    | some at_ =>
      rw [found] at h
      obtain ⟨place, here, h⟩ := Option.bind_eq_some_iff.1 h
      rw [places] at here
      rw [lookup_found, valid.claimant] at found
      obtain ⟨uuid, is_, alone⟩ := found
      split_ifs at h with other
      · cases h
      · rw [Bool.or_eq_true, Bool.or_eq_true, Bool.not_eq_true', Bool.not_eq_true', bne_iff_ne,
          not_or, not_or, Bool.not_eq_false, Bool.not_eq_false, not_not] at other
        obtain ⟨first, parent, rises⟩ := climb_rises (looked.lookup _) h
        rw [lookup_found, looked.claimant, places] at parent
        obtain ⟨candidate, same, parent⟩ := parent
        obtain rfl := Option.some.inj same
        rw [lookup_places, places] at rises
        exact ⟨uuid, at_, place, first, is_, alone, here, other.1.1, other.1.2, other.2, parent,
          rises⟩
  · rintro ⟨uuid, at_, place, first, is_, alone, here, own, main, parent, candidate, rises⟩
    obtain ⟨b, answer, settled⟩ := decided_settles valid d
    rw [decided, isLate_eq] at settled
    refine ⟨b, ?_⟩
    rw [settled]
    rw [lookup_found, valid.claimant.2 ⟨uuid, is_, alone⟩] at settled
    dsimp only at settled
    rw [places, here, Option.bind_some, own, main, parent, if_neg (by simp), lookup_found,
      looked.claimant.2 ⟨_, rfl, places ▸ candidate⟩] at settled
    obtain ⟨count, counted⟩ := rises.counted
    have same : ((a.lookup d.end_).1.lookup (some d.candidate)).1.places = a.places := by
      rw [lookup_places, places]
    have yes : answer = true := climb_counted (looked.lookup _) (same ▸ counted)
      (fun met none_ => absurd none_ List.not_mem_nil) settled
    rw [yes]

end Rises

/-- **A decision is true exactly of a late ancestor** among the records read: what it looks up as
    it goes, and what it watches, make no difference. -/
theorem isLate_iff (session : String) (records : List Value) :
    ∃ w, whole session records = .ok (w, []) ∧ ∀ d : Decision,
      (∃ w', w.isLate d.user d.end_ d.candidate = some (w', true)) ↔
        LateAncestor (placesOf session records) d := by
  obtain ⟨w, read, reads, -⟩ := whole_reads session records
  refine ⟨w, read, fun d => ?_⟩
  have places : w.places = placesOf session records := by
    rw [reads.places, List.filterMap_map]
    exact congrArg (placesOf session) List.filterMap_some
  rw [← places]
  exact decided_iff reads.valid d

end Ancestry
end Harness
end ConsensFlow
