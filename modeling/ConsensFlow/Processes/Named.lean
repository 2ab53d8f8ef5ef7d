/-
  File:      ConsensFlow/Processes/Named.lean
  Subject:   NO PROCESS IS NAMED TWICE (`cf-panes`, `background.rs`): the turn's work and the work
             detached from it walk up one tree through different processes.

  * `FromAShell`, `LostStarter` -- the two walks, however long, and `descendsFromAShell_iff`,
    `lostItsStarter_iff`: what the bounded ones of the source find;
  * `ShellOfAJob` -- a shell that a job carried over the mark started after it: the one process that
    ends both walks;
  * **`named_once_iff`** -- of any window, and any tree it is looked at with, no process is named twice
    but where there is such a shell; and there one is (`job_named_twice`).
-/
import ConsensFlow.Processes.Baseline

namespace ConsensFlow
namespace Processes

open Lib.Climb

variable {members started : List Member} {ours : List ProcessKey} {key : ProcessKey} {m : Member}

/-! ## 1. The walks -/

theorem byKey_some (distinct : (members.map Member.key).Nodup) :
    byKey members key = some m ↔ m ∈ members ∧ m.key = key := by
  unfold byKey
  constructor
  · intro found
    have same := List.find?_some found
    exact ⟨List.mem_of_find?_eq_some found, by simpa using same⟩
  · rintro ⟨there, rfl⟩
    cases found : members.find? fun x => x.key == m.key with
    | none =>
      have none_ := List.find?_eq_none.1 found m there
      simp at none_
    | some x =>
      have same := List.find?_some found
      have there' := List.mem_of_find?_eq_some found
      rw [List.inj_on_of_nodup_map distinct there' there (by simpa using same)]

/-- The walk up, through what `started` has, ends at a shell with a parent it does not have. -/
inductive FromAShell (started : List Member) : Member → Prop where
  | shell {m : Member} {parent : ProcessKey} (starter : m.parent = some parent)
    (old : ∀ x ∈ started, x.key ≠ parent) (runs : runsAShell m = true) : FromAShell started m
  | up {m parent : Member} (starter : m.parent = some parent.key) (there : parent ∈ started)
    (h : FromAShell started parent) : FromAShell started m

/-- The walk up, through what `started` has and is none of the harness's, ends at a process with no
    parent. -/
inductive LostStarter (started : List Member) (ours : List ProcessKey) : Member → Prop where
  | gone {m : Member} (not_ : m.key ∉ ours) (none_ : m.parent = none) : LostStarter started ours m
  | up {m parent : Member} (not_ : m.key ∉ ours) (starter : m.parent = some parent.key)
    (there : parent ∈ started) (h : LostStarter started ours parent) : LostStarter started ours m

section Walks

variable (distinct : (started.map Member.key).Nodup)

include distinct

theorem starter_some {parent : Member} : m.parent.bind (byKey started) = some parent ↔
    m.parent = some parent.key ∧ parent ∈ started := by
  rw [Option.bind_eq_some_iff]
  constructor
  · rintro ⟨key, starter, found⟩
    obtain ⟨there, rfl⟩ := (byKey_some distinct).1 found
    exact ⟨starter, there⟩
  · rintro ⟨starter, there⟩
    exact ⟨_, starter, (byKey_some distinct).2 ⟨there, rfl⟩⟩

theorem byKey_none : byKey started key = none ↔ ∀ x ∈ started, x.key ≠ key := by
  constructor
  · intro none_ x there same
    rw [(byKey_some distinct).2 ⟨there, same⟩] at none_
    cases none_
  · intro not_
    cases found : byKey started key with
    | none => rfl
    | some x =>
      obtain ⟨there, same⟩ := (byKey_some distinct).1 found
      exact absurd same (not_ x there)

/-- The bounded walk of the source finds a shell where there is one. -/
theorem descendsFromAShell_iff (there : m ∈ started) :
    descendsFromAShell m started = true ↔ FromAShell started m := by
  have up : ∀ {a b : Member}, shellLook started a = .inr b ↔ a.parent = some b.key ∧ b ∈ started := by
    intro a b
    rw [← starter_some distinct]
    unfold shellLook
    cases a.parent.bind (byKey started) with
    | none => exact iff_of_false (fun h => by cases h) (fun h => by cases h)
    | some parent =>
      constructor
      · rintro ⟨⟩
        rfl
      · rintro ⟨⟩
        rfl
  have ends : ∀ {a : Member}, shellLook started a = .inl true ↔ ∃ parent, a.parent = some parent ∧
      (∀ x ∈ started, x.key ≠ parent) ∧ runsAShell a = true := by
    intro a
    unfold shellLook
    cases starter : a.parent with
    | none =>
      refine iff_of_false (fun h => ?_) ?_
      · cases h
      · rintro ⟨parent, ⟨⟩, -⟩
    | some key =>
      rw [Option.bind_some]
      cases found : byKey started key with
      | none =>
        have old := (byKey_none distinct).1 found
        constructor
        · intro h
          exact ⟨key, rfl, old, by simpa using h⟩
        · rintro ⟨parent, -, -, runs⟩
          show Sum.inl _ = _
          rw [runs]
          rfl
      | some x =>
        obtain ⟨inside, rfl⟩ := (byKey_some distinct).1 found
        refine iff_of_false (fun h => ?_) ?_
        · cases h
        · rintro ⟨parent, ⟨⟩, old, -⟩
          exact absurd rfl (old x inside)
  unfold descendsFromAShell
  rw [@climb_iff _ _ m started (fun a _ b goes => (up.1 goes).2) there _ (Nat.le_succ _)]
  constructor
  · intro h
    induction h with
    | ends here =>
      obtain ⟨parent, starter, old, runs⟩ := ends.1 here
      exact .shell starter old runs
    | up goes _ ih =>
      obtain ⟨starter, inside⟩ := up.1 goes
      exact .up starter inside (ih inside)
  · intro h
    clear there
    induction h with
    | shell starter old runs => exact .ends (ends.2 ⟨_, starter, old, runs⟩)
    | up starter inside _ ih => exact .up (up.2 ⟨starter, inside⟩) ih

/-- The bounded walk of the source finds that a starter has gone where it has. -/
theorem lostItsStarter_iff (there : m ∈ started) :
    lostItsStarter m started ours = true ↔ LostStarter started ours m := by
  have up : ∀ {a b : Member}, starterLook started ours a = .inr b ↔
      a.key ∉ ours ∧ a.parent = some b.key ∧ b ∈ started := by
    intro a b
    rw [← starter_some distinct]
    unfold starterLook
    by_cases mine : a.key ∈ ours
    · rw [if_pos (List.contains_iff_mem.2 mine)]
      exact iff_of_false (fun h => by cases h) (fun h => h.1 mine)
    · rw [if_neg (fun h => mine (List.contains_iff_mem.1 h))]
      cases a.parent with
      | none => exact iff_of_false (fun h => by cases h) (fun h => by cases h.2)
      | some key =>
        rw [Option.bind_some]
        dsimp only
        cases byKey started key with
        | none => exact iff_of_false (fun h => by cases h) (fun h => by cases h.2)
        | some x =>
          constructor
          · rintro ⟨⟩
            exact ⟨mine, rfl⟩
          · rintro ⟨-, ⟨⟩⟩
            rfl
  have ends : ∀ {a : Member}, starterLook started ours a = .inl true ↔
      a.key ∉ ours ∧ a.parent = none := by
    intro a
    unfold starterLook
    by_cases mine : a.key ∈ ours
    · rw [if_pos (List.contains_iff_mem.2 mine)]
      exact iff_of_false (fun h => by cases h) (fun h => h.1 mine)
    · rw [if_neg (fun h => mine (List.contains_iff_mem.1 h))]
      cases a.parent with
      | none => exact iff_of_true rfl ⟨mine, rfl⟩
      | some key =>
        dsimp only
        cases byKey started key with
        | none => exact iff_of_false (fun h => by cases h) (fun h => by cases h.2)
        | some x => exact iff_of_false (fun h => by cases h) (fun h => by cases h.2)
  unfold lostItsStarter
  rw [@climb_iff _ _ m started (fun a _ b goes => (up.1 goes).2.2) there _ (Nat.le_succ _)]
  constructor
  · intro h
    induction h with
    | ends here =>
      obtain ⟨not_, none_⟩ := ends.1 here
      exact .gone not_ none_
    | up goes _ ih =>
      obtain ⟨not_, starter, inside⟩ := up.1 goes
      exact .up not_ starter inside (ih inside)
  · intro h
    clear there
    induction h with
    | gone not_ none_ => exact .ends (ends.2 ⟨not_, none_⟩)
    | up not_ starter inside _ ih => exact .up (up.2 ⟨not_, starter, inside⟩) ih

end Walks

/-! ## 2. The two selections -/

theorem mem_sorted : m ∈ sorted members ↔ m ∈ members := List.mem_mergeSort

theorem sorted_keys (distinct : (members.map Member.key).Nodup) :
    ((sorted members).map Member.key).Nodup :=
  ((List.mergeSort_perm members _).map Member.key).nodup_iff.2 distinct

theorem distinct_filter (distinct : (members.map Member.key).Nodup) (p : Member → Bool) :
    ((members.filter p).map Member.key).Nodup :=
  (List.filter_sublist.map Member.key).nodup distinct

/-- The members a selection of their keys has. -/
theorem mem_picked (distinct : (started.map Member.key).Nodup) {p : Member → Bool} :
    m ∈ started.filter (fun m => ((started.filter p).map Member.key).contains m.key) ↔
      m ∈ started ∧ p m = true := by
  rw [List.mem_filter, List.contains_iff_mem]
  constructor
  · rintro ⟨there, one⟩
    obtain ⟨x, hx, same⟩ := List.mem_map.1 one
    obtain ⟨there', yes⟩ := List.mem_filter.1 hx
    cases List.inj_on_of_nodup_map distinct there' there same
    exact ⟨there, yes⟩
  · rintro ⟨there, yes⟩
    exact ⟨there, List.mem_map_of_mem (List.mem_filter.2 ⟨there, yes⟩)⟩

/-- What a tree has that began after the mark. -/
def begun (before : List ProcessKey) (members : List Member) : List Member :=
  members.filter fun m => !before.contains m.key

/-- What a tree has that began after the mark, and the work carried over it. -/
def Baseline.left (b : Baseline) (before : List ProcessKey) (members : List Member) : List Member :=
  members.filter fun m => !(before.contains m.key && !b.carried.contains m.key)

theorem mem_begun {before : List ProcessKey} :
    m ∈ begun before members ↔ m ∈ members ∧ m.key ∉ before := by
  unfold begun
  rw [List.mem_filter]
  simp

theorem Baseline.mem_left {b : Baseline} {before : List ProcessKey} :
    m ∈ b.left before members ↔ m ∈ members ∧ (m.key ∈ before → m.key ∈ b.carried) := by
  unfold left
  rw [List.mem_filter]
  simp only [Bool.not_eq_true', Bool.and_eq_false_imp, List.contains_iff_mem, Bool.not_eq_false']

variable {windows : Bool} {b : Baseline} {seen : Own} {before : List ProcessKey}

/-- The harness's own, at a look. -/
def Baseline.itsOwn (windows : Bool) (b : Baseline) (seen : Own) (members : List Member) :
    List ProcessKey := (b.protected_ windows seen members).1

theorem mem_turnWork (marked : b.before = some before)
    (distinct : (members.map Member.key).Nodup) :
    m ∈ (b.turnWork windows seen members).1 ↔ m ∈ begun before members ∧
      m.key ∉ b.itsOwn windows seen members ∧ FromAShell (begun before members) m := by
  have distinct' : ((begun before members).map Member.key).Nodup := distinct_filter distinct _
  have work : (b.turnWork windows seen members).1 = sorted ((begun before members).filter fun m =>
      (turns (begun before members) (b.itsOwn windows seen members)).contains m.key) := by
    unfold Baseline.turnWork
    rw [marked]
    rfl
  rw [work, mem_sorted]
  unfold turns
  rw [mem_picked distinct', Bool.and_eq_true]
  constructor
  · rintro ⟨there, not_, chain⟩
    exact ⟨there, by simpa using not_, (descendsFromAShell_iff distinct' there).1 chain⟩
  · rintro ⟨there, not_, chain⟩
    exact ⟨there, by simpa using not_, (descendsFromAShell_iff distinct' there).2 chain⟩

theorem mem_detached (marked : b.before = some before)
    (distinct : (members.map Member.key).Nodup) :
    m ∈ (b.detached windows seen members).1 ↔ m ∈ b.left before members ∧
      LostStarter (b.left before members) (b.itsOwn windows seen members) m := by
  have distinct' : ((b.left before members).map Member.key).Nodup := distinct_filter distinct _
  have jobs : (b.detached windows seen members).1 = sorted ((b.left before members).filter fun m =>
      (detached (b.left before members) (b.itsOwn windows seen members)).contains m.key) := by
    unfold Baseline.detached
    rw [marked]
    rfl
  rw [jobs, mem_sorted]
  unfold detached
  rw [mem_picked distinct']
  constructor
  · rintro ⟨there, lost⟩
    exact ⟨there, (lostItsStarter_iff distinct' there).1 lost⟩
  · rintro ⟨there, lost⟩
    exact ⟨there, (lostItsStarter_iff distinct' there).2 lost⟩

/-! ## 3. Where they meet -/

/-- A shell of the tree that began after the mark, none of the harness's, started by a job that was
    carried over the mark and has lost its starter still. -/
structure ShellOfAJob (windows : Bool) (b : Baseline) (seen : Own) (before : List ProcessKey)
    (members : List Member) (shell job : Member) : Prop where
  there : shell ∈ members
  new : shell.key ∉ before
  runs : runsAShell shell = true
  not_ours : shell.key ∉ b.itsOwn windows seen members
  starter : shell.parent = some job.key
  job_there : job ∈ members
  carried : job.key ∈ b.carried
  lost : LostStarter (b.left before members) (b.itsOwn windows seen members) job

/-- **The two walks from one process end with such a shell.** -/
theorem FromAShell.meets (distinct : (members.map Member.key).Nodup)
    (chain : FromAShell (begun before members) m) (there : m ∈ begun before members)
    (lost : LostStarter (b.left before members) (b.itsOwn windows seen members) m) :
    ∃ shell job, ShellOfAJob windows b seen before members shell job := by
  induction chain with
  | @shell shell parent starter old runs =>
    obtain ⟨inside, new⟩ := mem_begun.1 there
    cases lost with
    | gone _ none_ =>
      rw [none_] at starter
      cases starter
    | @up _ job not_ starter' job_there lost =>
      cases starter.symm.trans starter'
      obtain ⟨job_inside, kept⟩ := Baseline.mem_left.1 job_there
      have past : job.key ∈ before := by
        by_contra new_
        exact old job (mem_begun.2 ⟨job_inside, new_⟩) rfl
      exact ⟨shell, job, inside, new, runs, not_, starter, job_inside, kept past, lost⟩
  | @up m parent starter there' _ ih =>
    refine ih there' ?_
    cases lost with
    | gone _ none_ =>
      rw [none_] at starter
      cases starter
    | @up _ parent' _ starter' there'' lost =>
      have same : parent.key = parent'.key := by
        rw [starter] at starter'
        exact Option.some.inj starter'
      have inside := (mem_begun.1 there').1
      have inside' := (Baseline.mem_left.1 there'').1
      rw [List.inj_on_of_nodup_map distinct inside inside' same]
      exact lost

/-- Such a shell is the turn's work, and detached work. -/
theorem ShellOfAJob.twice {shell job : Member} (marked : b.before = some before)
    (distinct : (members.map Member.key).Nodup) (past : b.carried ⊆ before)
    (h : ShellOfAJob windows b seen before members shell job) :
    shell ∈ (b.turnWork windows seen members).1 ∧ shell ∈ (b.detached windows seen members).1 := by
  have begun_ : shell ∈ begun before members := mem_begun.2 ⟨h.there, h.new⟩
  have left_ : shell ∈ b.left before members :=
    Baseline.mem_left.2 ⟨h.there, fun old => absurd old h.new⟩
  have job_left : job ∈ b.left before members :=
    Baseline.mem_left.2 ⟨h.job_there, fun _ => h.carried⟩
  constructor
  · refine (mem_turnWork marked distinct).2 ⟨begun_, h.not_ours, .shell h.starter ?_ h.runs⟩
    intro x there same
    have new := (mem_begun.1 there).2
    rw [same] at new
    exact new (past h.carried)
  · exact (mem_detached marked distinct).2 ⟨left_, .up h.not_ours h.starter job_left h.lost⟩

/-! ## 4. What a look keeps -/

theorem rootLook_root {roots : List ProcessKey} (root : m.key ∈ roots) :
    rootLook roots members m = .inl true := if_pos (List.contains_iff_mem.2 root)

theorem rootLook_climb {roots : List ProcessKey} (not_ : m.key ∉ roots) :
    rootLook roots members m = match m.parent.bind (byKey members) with
      | some parent => .inr parent
      | none => .inl false := if_neg fun h => not_ (List.contains_iff_mem.1 h)

theorem rootLook_up (distinct : (members.map Member.key).Nodup) {roots : List ProcessKey}
    {parent : Member} (goes : rootLook roots members m = .inr parent) : parent ∈ members := by
  by_cases root : m.key ∈ roots
  · rw [rootLook_root root] at goes
    cases goes
  · rw [rootLook_climb root] at goes
    cases found : m.parent.bind (byKey members) with
    | none =>
      rw [found] at goes
      cases goes
    | some parent =>
      rw [found] at goes
      cases goes
      exact ((starter_some distinct).1 found).2

/-- What is in `roots`, or descends from one: the walk up from it meets one. -/
theorem mem_descendingFrom (distinct : (members.map Member.key).Nodup) {roots : List ProcessKey}
    (there : m ∈ members) :
    m.key ∈ descendingFrom roots members ↔ Climbs (rootLook roots members) true m := by
  unfold descendingFrom
  by_cases none_ : roots.isEmpty = true
  · rw [if_pos none_, List.isEmpty_iff.1 none_]
    refine iff_of_false List.not_mem_nil fun h => ?_
    clear there
    induction h with
    | @ends a here =>
      rw [rootLook_climb List.not_mem_nil] at here
      cases found : a.parent.bind (byKey members) with
      | none =>
        rw [found] at here
        cases here
      | some parent =>
        rw [found] at here
        cases here
    | up _ _ ih => exact ih
  · rw [if_neg none_, ← climb_iff (fun _ _ _ goes => rootLook_up distinct goes) there (Nat.le_succ _)]
    constructor
    · intro one
      obtain ⟨x, hx, same⟩ := List.mem_map.1 one
      obtain ⟨inside, yes⟩ := List.mem_filter.1 hx
      rw [← List.inj_on_of_nodup_map distinct inside there same]
      exact yes
    · intro yes
      exact List.mem_map_of_mem (List.mem_filter.2 ⟨there, yes⟩)

/-- **What a look found the harness's, the next finds its own**: what was seen runs still, and is seen
    on. -/
theorem itsOwn_grows (distinct : (members.map Member.key).Nodup) (there : m ∈ members)
    (h : m.key ∈ b.itsOwn windows seen members) :
    m.key ∈ b.itsOwn windows (b.protected_ windows seen members).2 members := by
  have seenOn : ∀ x ∈ members, x.key ∈ seen →
      x.key ∈ (b.protected_ windows seen members).2 := by
    intro x inside old
    have found : x.key ∈ b.itsOwn windows seen members :=
      List.mem_append_right _ ((mem_descendingFrom distinct inside).2 (.ends (rootLook_root old)))
    refine List.mem_map_of_mem (List.mem_filter.2 ⟨inside, ?_⟩)
    rw [Bool.and_eq_true, Bool.or_eq_true]
    exact ⟨List.contains_iff_mem.2 found, Or.inl (List.contains_iff_mem.2 old)⟩
  rcases List.mem_append.1 h with told | descends
  · exact List.mem_append_left _ told
  · refine List.mem_append_right _ ((mem_descendingFrom distinct there).2 ?_)
    have walk := (mem_descendingFrom distinct there).1 descends
    clear h descends
    -- The same walk, or a shorter one: it meets what was seen, which is seen on.
    induction walk with
    | @ends a here =>
      by_cases old : a.key ∈ seen
      · exact .ends (rootLook_root (seenOn a there old))
      · rw [rootLook_climb old] at here
        cases found : a.parent.bind (byKey members) with
        | none =>
          rw [found] at here
          cases here
        | some parent =>
          rw [found] at here
          cases here
    | @up a c goes _ ih =>
      by_cases old : a.key ∈ seen
      · exact .ends (rootLook_root (seenOn a there old))
      · by_cases new : a.key ∈ (b.protected_ windows seen members).2
        · exact .ends (rootLook_root new)
        · have inside := rootLook_up distinct goes
          rw [rootLook_climb old, ← rootLook_climb new] at goes
          exact .up goes (ih inside)

theorem LostStarter.fewer {ours' : List ProcessKey}
    (more : ∀ x ∈ started, x.key ∈ ours' → x.key ∈ ours) (there : m ∈ started)
    (h : LostStarter started ours m) : LostStarter started ours' m := by
  induction h with
  | gone not_ none_ => exact .gone (fun one => not_ (more _ there one)) none_
  | up not_ starter inside _ ih =>
    exact .up (fun one => not_ (more _ there one)) starter inside (ih inside)

/-! ## 5. Windows -/

/-- **No process is named twice**: the turn's work and the detached work have none in common, and what
    is named has each process once, oldest first, and as many as it says. -/
structure NamesOnce (windows : Bool) (b : Baseline) (seen : Own) (members : List Member) : Prop where
  disjoint : ∀ m ∈ (b.turnWork windows seen members).1, ∀ m' ∈ (b.detached windows seen members).1,
    m.key ≠ m'.key
  named : ∀ (E : Type) (proved : List Member → Except E (Option (List ProcessKey)))
    (named : List Member), (b.named windows seen members proved).1 = .ok named →
      (named.map Member.key).Nodup ∧ named.Pairwise (fun m m' => m.key.before m'.key = true) ∧
        (listed named).total = (named.map Member.key).toFinset.card

theorem sorted_ordered (members : List Member) :
    (sorted members).Pairwise fun m m' => m.key.before m'.key = true := by
  refine List.pairwise_mergeSort (fun a c e first second => ?_) (fun a c => ?_) members
  · unfold ProcessKey.before at first second ⊢
    rw [decide_eq_true_iff] at first second ⊢
    omega
  · unfold ProcessKey.before
    rw [Bool.or_eq_true, decide_eq_true_iff, decide_eq_true_iff]
    omega

theorem turnWork_sorted : ∃ work, (b.turnWork windows seen members).1 = sorted work ∧
    work.Sublist members := by
  unfold Baseline.turnWork
  cases b.before with
  | none => exact ⟨[], List.mergeSort_nil.symm, List.nil_sublist _⟩
  | some before => exact ⟨_, rfl, List.filter_sublist.trans List.filter_sublist⟩

theorem detached_sorted : ∃ jobs, (b.detached windows seen members).1 = sorted jobs ∧
    jobs.Sublist members := by
  unfold Baseline.detached
  cases b.before with
  | none => exact ⟨[], List.mergeSort_nil.symm, List.nil_sublist _⟩
  | some before => exact ⟨_, rfl, List.filter_sublist.trans List.filter_sublist⟩

/-- What a look leaves of the harness's own, where a turn was marked. -/
theorem turnWork_seen (marked : b.before = some before) :
    (b.turnWork windows seen members).2 = (b.protected_ windows seen members).2 := by
  unfold Baseline.turnWork
  rw [marked]

/-- What is both, at a look and at the next, is for such a shell. -/
theorem shell_of_both (marked : b.before = some before) (distinct : (members.map Member.key).Nodup)
    {m' : Member} (same : m.key = m'.key) (work : m ∈ (b.turnWork windows seen members).1)
    (job : m' ∈ (b.detached windows seen members).1 ∨
      m' ∈ (b.detached windows (b.protected_ windows seen members).2 members).1) :
    ∃ shell job, ShellOfAJob windows b seen before members shell job := by
  obtain ⟨there, not_, chain⟩ := (mem_turnWork marked distinct).1 work
  have lost : m' ∈ b.left before members ∧
      LostStarter (b.left before members) (b.itsOwn windows seen members) m' := by
    rcases job with job | job
    · exact (mem_detached marked distinct).1 job
    · obtain ⟨left_, lost⟩ := (mem_detached marked distinct).1 job
      refine ⟨left_, lost.fewer (fun x inside old => ?_) left_⟩
      exact itsOwn_grows distinct (Baseline.mem_left.1 inside).1 old
  cases List.inj_on_of_nodup_map distinct (mem_begun.1 there).1 (Baseline.mem_left.1 lost.1).1 same
  exact chain.meets distinct there lost.2

theorem names_once (distinct : (members.map Member.key).Nodup)
    (apart : ∀ m ∈ (b.turnWork windows seen members).1, ∀ m', m.key = m'.key →
      m' ∉ (b.detached windows (b.turnWork windows seen members).2 members).1)
    {E : Type} {proved : List Member → Except E (Option (List ProcessKey))} {named : List Member}
    (h : (b.named windows seen members proved).1 = .ok named) :
    (named.map Member.key).Nodup ∧ named.Pairwise fun m m' => m.key.before m'.key = true := by
  obtain ⟨work, work_, inside⟩ := @turnWork_sorted members windows b seen
  obtain ⟨jobs, jobs_, inside'⟩ :=
    @detached_sorted members windows b (b.turnWork windows seen members).2
  have work_once : ((sorted work).map Member.key).Nodup :=
    sorted_keys ((inside.map Member.key).nodup distinct)
  have jobs_once : ((sorted jobs).map Member.key).Nodup :=
    sorted_keys ((inside'.map Member.key).nodup distinct)
  rw [work_, jobs_] at apart
  unfold Baseline.named at h
  dsimp only at h
  rw [work_, jobs_] at h
  split at h
  · cases h
    exact ⟨work_once, sorted_ordered work⟩
  · split at h
    · cases h
    · cases h
      refine ⟨sorted_keys ?_, sorted_ordered _⟩
      rw [List.map_append]
      refine List.nodup_append.2 ⟨work_once, distinct_filter jobs_once _, ?_⟩
      rintro key one _ other rfl
      obtain ⟨m, hm, rfl⟩ := List.mem_map.1 one
      obtain ⟨m', hm', same⟩ := List.mem_map.1 other
      exact apart m hm m' same.symm (List.mem_filter.1 hm').1

theorem listed_total {named : List Member} (once : (named.map Member.key).Nodup) :
    (listed named).total = (named.map Member.key).toFinset.card := by
  rw [List.toFinset_card_of_nodup once, List.length_map]
  exact List.length_mergeSort named

/-- What is carried over a mark was there at the mark. -/
def Baseline.Sound (b : Baseline) : Prop := ∀ before, b.before = some before → b.carried ⊆ before

theorem mark_sound (kept : Option Kept) (harness : Option String) :
    (b.mark windows seen members kept harness).1.Sound := by
  intro before marked
  obtain ⟨jobs, jobs_, inside⟩ := @detached_sorted members windows b seen
  have now : members.map Member.key = before := Option.some.inj marked
  intro key one
  have one : key ∈ (b.detached windows seen members).1.map Member.key := one
  rw [jobs_] at one
  obtain ⟨m, hm, rfl⟩ := List.mem_map.1 one
  rw [← now]
  exact List.mem_map_of_mem (inside.subset (mem_sorted.1 hm))

theorem rest_sound (h : b.Sound) (keep : List Nat) : (b.rest members keep).1.Sound := by
  unfold Baseline.rest
  split
  · exact h
  · exact h

theorem Watched.sound {w : Window} (h : Watched windows w) :
    ∀ b ∈ w.current :: w.earlier, b.Sound := by
  induction h with
  | opened =>
    intro b one
    rw [List.mem_singleton.1 one]
    intro before marked
    cases marked
  | @step w _ op _ ih =>
    cases op with
    | mark tree kept harness =>
      intro b one
      rcases List.mem_cons.1 one with rfl | one
      · exact mark_sound kept harness
      · exact ih b one
    | rest tree keep =>
      intro b one
      rcases List.mem_cons.1 one with rfl | one
      · exact rest_sound (ih _ List.mem_cons_self) keep
      · exact ih b one
    | look b' tree look => exact ih

variable {w : Window}

/-- **No process is named twice**, of any window and any tree, but where a shell was started by a job
    carried over the mark: that is the turn's work, and detached work. -/
theorem named_once_iff (h : Watched windows w) (one : b ∈ w.current :: w.earlier)
    (tree : ProcessTree) : NamesOnce windows b w.seen tree.members ↔
      ¬ ∃ before shell job, b.before = some before ∧
        ShellOfAJob windows b w.seen before tree.members shell job := by
  constructor
  · rintro once ⟨before, shell, job, marked, h'⟩
    obtain ⟨work, detached⟩ := h'.twice marked tree.distinct (h.sound b one before marked)
    exact once.disjoint shell work shell detached rfl
  · intro none_
    cases marked : b.before with
    | none =>
      have no_work : ∀ seen, b.turnWork windows seen tree.members = ([], seen) := by
        intro seen
        unfold Baseline.turnWork
        rw [marked]
      refine ⟨fun m hm => ?_, fun E proved named h => ?_⟩
      · rw [no_work] at hm
        exact absurd hm List.not_mem_nil
      · have apart := names_once tree.distinct (fun m hm => ?_) h
        · exact ⟨apart.1, apart.2, listed_total apart.1⟩
        · rw [no_work] at hm
          exact absurd hm List.not_mem_nil
    | some before =>
      refine ⟨fun m hm m' hm' same => ?_, fun E proved named h => ?_⟩
      · obtain ⟨shell, job, both⟩ := shell_of_both marked tree.distinct same hm (Or.inl hm')
        exact none_ ⟨before, shell, job, marked, both⟩
      · have apart := names_once tree.distinct (fun m hm m' same hm' => ?_) h
        · exact ⟨apart.1, apart.2, listed_total apart.1⟩
        · rw [turnWork_seen marked] at hm'
          obtain ⟨shell, job, both⟩ := shell_of_both marked tree.distinct same hm (Or.inr hm')
          exact none_ ⟨before, shell, job, marked, both⟩

/-! ### A job that is named twice -/

/-- A job detached in an earlier turn, and a shell it starts. -/
def watcher : Member :=
  { key := ⟨20, 2⟩, command := "make watch", program := "make", exe := "/usr/bin/make", group := none,
    parent := none }

def recipe : Member :=
  { key := ⟨30, 3⟩, command := "/bin/sh -c cc main.c", program := "sh", exe := "/bin/sh",
    group := none, parent := some ⟨20, 2⟩ }

def jobAlone : ProcessTree := ⟨[watcher], by decide⟩

def jobAndShell : ProcessTree := ⟨[watcher, recipe], by decide⟩

/-- A window whose first turn began before the job did. -/
def begunWindow : Window := Window.step false {} (.mark ⟨[], List.nodup_nil⟩ none none)

/-- The window at its next turn, which the job is carried into. -/
def markedWindow : Window := begunWindow.step false (.mark jobAlone none none)

theorem markedWindow_watched : Watched false markedWindow :=
  .step (.step .opened (.mark ⟨[], List.nodup_nil⟩ none none) trivial) (.mark jobAlone none none)
    trivial

theorem watcher_carried : watcher.key ∈ markedWindow.current.carried := by
  have marked : begunWindow.current.before = some [] := rfl
  have left_ : watcher ∈ begunWindow.current.left [] jobAlone.members :=
    Baseline.mem_left.2 ⟨List.mem_singleton_self _, fun old => absurd old List.not_mem_nil⟩
  refine List.mem_map_of_mem ((mem_detached marked jobAlone.distinct).2 ⟨left_, .gone ?_ rfl⟩)
  show watcher.key ∉ ([] : List ProcessKey)
  exact List.not_mem_nil

/-- A shell the harness starts in this turn, beside the job. -/
def check : Member :=
  { key := ⟨31, 4⟩, command := "/bin/sh -c make test", program := "sh", exe := "/bin/sh",
    group := none, parent := some ⟨10, 1⟩ }

def jobAndCheck : ProcessTree := ⟨[watcher, check], by decide⟩

/-- The job is named as detached work, the shell as the turn's, and neither twice. -/
theorem named_once_marked :
    check ∈ (markedWindow.current.turnWork false markedWindow.seen jobAndCheck.members).1 ∧
    watcher ∈ (markedWindow.current.detached false markedWindow.seen jobAndCheck.members).1 ∧
    NamesOnce false markedWindow.current markedWindow.seen jobAndCheck.members := by
  have marked : markedWindow.current.before = some [watcher.key] := rfl
  have none_ : markedWindow.current.itsOwn false markedWindow.seen jobAndCheck.members = [] := rfl
  refine ⟨(mem_turnWork marked jobAndCheck.distinct).2 ⟨by decide, ?_, ?_⟩,
    (mem_detached marked jobAndCheck.distinct).2 ⟨?_, .gone ?_ rfl⟩,
    (named_once_iff markedWindow_watched List.mem_cons_self jobAndCheck).2 ?_⟩
  · rw [none_]
    exact List.not_mem_nil
  · exact .shell rfl (by decide) (by decide)
  · exact Baseline.mem_left.2 ⟨List.mem_cons_self, fun _ => watcher_carried⟩
  · rw [none_]
    exact List.not_mem_nil
  · -- no process of the tree was started by another of it
    rintro ⟨before, shell, job, -, h⟩
    have apart : ∀ m ∈ jobAndCheck.members, ∀ m' ∈ jobAndCheck.members,
        m.parent ≠ some m'.key := by decide
    exact apart shell h.there job h.job_there h.starter

/-- The shell of the job is the turn's work, and detached work with the job. -/
theorem job_named_twice : ¬ ∀ (windows : Bool) (w : Window) (b : Baseline) (tree : ProcessTree),
    Watched windows w → b ∈ w.current :: w.earlier → NamesOnce windows b w.seen tree.members := by
  intro h
  have once := h false markedWindow markedWindow.current jobAndShell markedWindow_watched
    List.mem_cons_self
  have marked : markedWindow.current.before = some [watcher.key] := rfl
  have shell : ShellOfAJob false markedWindow.current markedWindow.seen [watcher.key]
      jobAndShell.members recipe watcher := by
    have own_ : markedWindow.current.itsOwn false markedWindow.seen jobAndShell.members = [] := rfl
    refine ⟨List.mem_cons_of_mem _ (List.mem_singleton_self _), by decide, by decide, ?_, rfl,
      List.mem_cons_self, watcher_carried, .gone ?_ rfl⟩
    · rw [own_]
      exact List.not_mem_nil
    · rw [own_]
      exact List.not_mem_nil
  have past := markedWindow_watched.sound _ List.mem_cons_self _ marked
  obtain ⟨work, detached⟩ := shell.twice marked jobAndShell.distinct past
  exact once.disjoint recipe work recipe detached rfl

end Processes
end ConsensFlow
