/-
  File:      ConsensFlow/Harness/Jobs.lean
  Subject:   CLAUDE CODE'S BACKGROUND JOBS (`cf-harness`, `claude/record/jobs.rs`): what its record
             started, and what its notifications say of their ends.

  * `field`, `head` -- a notification's head, read line by line; `Written` -- a notification as
    Claude Code writes it;
  * `Job`, `Jobs` -- the jobs started, in order, and what each record's word does to them;
  * **`head_of_written`** -- the head read is the one written, whatever a command's words make of
    the summary, the event, the body and what trails;
  * **`running_since`** -- a job runs as it was last started, exactly where no word since ends it.
-/
import ConsensFlow.Lib.Apart
import ConsensFlow.Lib.Lines
import ConsensFlow.Words.DeliveryText

open Lib.Text

namespace ConsensFlow
namespace Claude

abbrev Text := List Char

/-! ## 1. A notification's head -/

/-- `NOTIFICATION`, and the line that closes it. -/
def opens : Text := "<task-notification>".toList
def closes : Text := "</task-notification>".toList

/-- `FIELDS`, in the order Claude Code writes them. -/
def fields : List Text :=
  ["task-id", "tool-use-id", "task-type", "output-file", "status", "summary", "event"].map
    String.toList

/-- `TASK_ID`, `STATUS`, `EVENT`: their places. -/
def taskIdAt : Nat := 0
def statusAt : Nat := 4
def eventAt : Nat := 6

/-- The marker of a shell a summary found still running, before its id. -/
def live : Text := "__orphan_summary_live__:".toList

/-- `OVER`. -/
def statusesOver : List Text := ["completed", "failed", "killed", "stopped"].map String.toList

inductive End where
  | expired
  | stopped
  | closed
  deriving DecidableEq, Repr

/-- `ENDS`. -/
def ends : List (Text × End) :=
  [("[Monitor expired after ".toList, .expired), ("[Monitor timed out".toList, .expired),
    ("[Monitor stopped".toList, .stopped), ("[WebSocket closed: ".toList, .closed)]

/-- What the head of a notification says, each value trimmed. -/
structure Head where
  ids : List Text := []
  status : Option Text := none
  event : Option Text := none
  closesAfterEvent : Bool := false
  deriving DecidableEq, Repr

/-- The place of the field a line is, and its value. -/
def field (line : Text) : Option (Nat × Text) := do
  let line ← stripPrefix ['<'] line
  let (tag, rest) ← splitOnce ['>'] line
  let place ← fields.findIdx? (· == tag)
  let rest ← stripSuffix ['>'] rest
  let rest ← stripSuffix tag rest
  let value ← stripSuffix ['<', '/'] rest
  return (place, Deliveries.trim value)

/-- A field read. -/
def Head.with_ (head : Head) (place : Nat) (value : Text) : Head :=
  if place == taskIdAt then if value.isEmpty then head else { head with ids := head.ids ++ [value] }
  else if place == statusAt then { head with status := some value }
  else if place == eventAt then { head with event := some value }
  else head

/-- The head's lines, after a field at a place. -/
def headFrom (at_ : Option Nat) (head : Head) : List Text → Head
  | [] => head
  | line :: lines =>
    match field line with
    | none =>
      { head with closesAfterEvent := at_ == some eventAt && line == closes &&
          lines.all fun after => (Deliveries.trim after).isEmpty }
    | some (place, value) =>
      if at_.any fun at_ => place < at_ || place == at_ && place != taskIdAt then head
      else headFrom (some place) (head.with_ place value) lines

def head (text : Text) : Head :=
  match stripPrefix opens text with
  | none => {}
  | some rest =>
    match Lib.Lines.parted '\n' rest with
    | [] :: lines => headFrom none {} lines
    | _ => {}

def isNotice (text : Text) : Bool := !(head text).ids.isEmpty

def beginsNoTurn (text : Text) : Bool := (head text).status == some "killed".toList

/-! ## 2. A notification written -/

/-- A notification as Claude Code writes it: each field that is not empty on a line of its own, then
    the body, the line that closes it, and what trails it. -/
structure Written where
  taskIds : List Text
  toolUseId : Text
  taskType : Text
  outputFile : Text
  status : Text
  summary : Text
  event : Text
  body : Text
  trailing : Text

/-- A field on a line of its own. -/
def fieldLine (tag value : Text) : Text :=
  ['<'] ++ tag ++ ['>'] ++ value ++ ['<', '/'] ++ tag ++ ['>']

/-- The fields written of some, the empty ones left out. -/
def fieldLines (named : List (Nat × Text)) : List Text :=
  (named.filter fun x => !x.2.isEmpty).map fun x => fieldLine (fields.getD x.1 []) x.2

namespace Written

variable (w : Written)

/-- The fields up to the status. -/
def upToStatus : List (Nat × Text) :=
  w.taskIds.map (taskIdAt, ·) ++
    [(1, w.toolUseId), (2, w.taskType), (3, w.outputFile), (statusAt, w.status)]

def text : Text :=
  opens ++ (fieldLines (w.upToStatus ++ [(5, w.summary), (eventAt, w.event)])).flatMap
    ('\n' :: ·) ++ w.body ++ ['\n'] ++ closes ++ w.trailing

end Written

/-! ## 3. The jobs -/

inductive State where
  | running
  | ended
  | retired
  deriving DecidableEq, Repr

inductive Source where
  | command
  | socket
  | server
  deriving DecidableEq, Repr

/-- A monitor, as the call that armed it says. -/
structure Watch where
  description : Text
  called : Option Int
  source : Source
  deriving DecidableEq, Repr

structure Notice where
  end_ : End
  at_ : Option Text
  deriving DecidableEq, Repr

structure Job where
  id : Text
  state : State
  watch : Option Watch
  notice : Option Notice
  since : Option Int
  limitMs : Option Int
  deriving DecidableEq, Repr

/-- `i64::saturating_sub`. -/
def saturatingSub (a b : Int) : Int := max (-2 ^ 63) (min (2 ^ 63 - 1) (a - b))

/-- The jobs started, each once, in the order they started. -/
structure Jobs where
  started : List Job := []

/-- The first that meets a condition, changed. -/
def changeFirst (p : Job → Bool) (f : Job → Job) : List Job → List Job
  | [] => []
  | job :: jobs => if p job then f job :: jobs else job :: changeFirst p f jobs

/-- A job as the record of its start says it. -/
def fresh (id : Text) (watch : Option Watch) (at_ limitMs : Option Int) : Job where
  id := id
  state := .running
  watch := watch
  notice := none
  since := at_.map fun at_ => saturatingSub at_ (limitMs.getD 0)
  limitMs := limitMs

namespace Jobs

variable (jobs : Jobs)

/-- `started`. -/
def start (id : Text) (watch : Option Watch) (at_ limitMs : Option Int) : Jobs :=
  let job := fresh id watch at_ limitMs
  if jobs.started.any (·.id == id) then
    { started := changeFirst (·.id == id) (fun _ => job) jobs.started }
  else { started := jobs.started ++ [job] }

/-- The end a notice's words say. -/
def endOf (head : Head) : Option End :=
  (head.event.filter fun _ => head.status.isNone && head.closesAfterEvent).bind fun event =>
    (ends.find? fun x => Deliveries.startsWith x.1 event).map Prod.snd

/-- `noticed`. -/
def noticed (head : Head) (at_ : Option Text) : Jobs :=
  match head.ids with
  | [id] =>
    match endOf head with
    | none => jobs
    | some end_ =>
      { started := changeFirst
          (fun job => job.id == id && job.state == .running && job.watch.isSome)
          (fun job => { job with notice := job.notice.or (some ⟨end_, at_⟩) }) jobs.started }
  | _ => jobs

/-- `ended_by`. -/
def endedBy (text : Text) (at_ : Option Text) : Jobs :=
  let head := head text
  if !head.status.any statusesOver.contains then jobs.noticed head at_
  else
    let alive := head.ids.filterMap (stripPrefix live)
    { started := jobs.started.map fun job =>
        if head.ids.contains job.id && !alive.contains job.id then { job with state := .ended }
        else job }

/-- `stopped`. -/
def stopped (id : Text) : Jobs :=
  { started := changeFirst (·.id == id) (fun job => { job with state := .ended }) jobs.started }

/-- `retire`. -/
def retire : Jobs :=
  { started := jobs.started.map fun job =>
      if job.state == .running then { job with state := .retired } else job }

def count (state : State) : Nat := (jobs.started.filter fun job => job.state == state).length

/-- `running`, `retired`, `noticed_count`. -/
def runningCount : Nat := jobs.count .running
def retiredCount : Nat := jobs.count .retired
def noticedCount : Nat :=
  (jobs.started.filter fun job => job.state == .running && job.notice.isSome).length

/-- `commands`: those that run and watch nothing. -/
def commands : List Job := jobs.started.filter fun job => job.state == .running && job.watch.isNone

/-- `monitors`: those that run and watch something. -/
def monitors : List Job := jobs.started.filter fun job => job.state == .running && job.watch.isSome

end Jobs

/-- A record's word on the jobs. -/
inductive Word where
  | starts (id : Text) (watch : Option Watch) (at_ limitMs : Option Int)
  | notified (text : Text) (at_ : Option Text)
  | stopped (id : Text)
  | relaunched

namespace Jobs

def step (jobs : Jobs) : Word → Jobs
  | .starts id watch at_ limitMs => jobs.start id watch at_ limitMs
  | .notified text at_ => jobs.endedBy text at_
  | .stopped id => jobs.stopped id
  | .relaunched => jobs.retire

def run (words : List Word) : Jobs := words.foldl step {}

end Jobs

/-! ## 4. The head read is the head written -/

theorem fields_known : ∀ place : Fin 7, '>' ∉ fields.getD place [] ∧
    fields.findIdx? (· == fields.getD place []) = some place.val := by decide

/-- A field written is read. -/
theorem field_fieldLine {place : Nat} (known : place < 7) (value : Text) :
    field (fieldLine (fields.getD place []) value) = some (place, Deliveries.trim value) := by
  obtain ⟨apart_, found⟩ := fields_known ⟨place, known⟩
  dsimp only at apart_ found
  generalize fields.getD place [] = tag at apart_ found
  have opened : fieldLine tag value =
      ['<'] ++ (tag ++ (['>'] ++ (value ++ ['<', '/'] ++ tag ++ ['>']))) := by
    unfold fieldLine
    simp only [List.append_assoc]
  have cut : splitOnce ['>'] (tag ++ (['>'] ++ (value ++ ['<', '/'] ++ tag ++ ['>']))) =
      some (tag, value ++ ['<', '/'] ++ tag ++ ['>']) := splitOnce_head rfl apart_
  rw [opened]
  unfold field
  rw [stripPrefix_append]
  dsimp only [Option.bind_eq_bind, Option.bind_some]
  rw [cut]
  dsimp only [Option.bind_some]
  rw [found]
  dsimp only [Option.bind_some]
  rw [stripSuffix_append]
  dsimp only [Option.bind_some]
  rw [stripSuffix_append]
  dsimp only [Option.bind_some]
  rw [stripSuffix_append]
  rfl

/-- A line that begins as the summary's is the summary's, or no field. -/
theorem field_summary {rest : Text} {place : Nat} {value : Text}
    (read : field ("<summary>".toList ++ rest) = some (place, value)) : place = 5 := by
  have opened : "<summary>".toList ++ rest = ['<'] ++ ("summary".toList ++ (['>'] ++ rest)) := rfl
  have cut : splitOnce ['>'] ("summary".toList ++ (['>'] ++ rest)) =
      some ("summary".toList, rest) := splitOnce_head rfl (by decide)
  have found : fields.findIdx? (· == "summary".toList) = some 5 := by decide
  rw [opened] at read
  unfold field at read
  rw [stripPrefix_append] at read
  dsimp only [Option.bind_eq_bind, Option.bind_some] at read
  rw [cut] at read
  dsimp only [Option.bind_some] at read
  rw [found] at read
  dsimp only [Option.bind_some] at read
  obtain ⟨_, _, read⟩ := Option.bind_eq_some_iff.mp read
  obtain ⟨_, _, read⟩ := Option.bind_eq_some_iff.mp read
  obtain ⟨_, _, read⟩ := Option.bind_eq_some_iff.mp read
  cases read
  rfl

/-- What a head says that ends jobs: their ids, and how they went. -/
def Head.Same (h h' : Head) : Prop := h'.ids = h.ids ∧ h'.status = h.status

theorem Head.same_with {place : Nat} (past : 5 ≤ place) (h : Head) (value : Text) :
    h.Same (h.with_ place value) := by
  unfold Head.with_ Head.Same
  rw [if_neg (by simp only [taskIdAt, beq_iff_eq]; omega),
    if_neg (by simp only [statusAt, beq_iff_eq]; omega)]
  split <;> exact ⟨rfl, rfl⟩

/-- Past the status no line says a job's id or a status. -/
theorem headFrom_past {p : Nat} (past : 5 ≤ p) (h : Head) (lines : List Text) :
    h.Same (headFrom (some p) h lines) := by
  induction lines generalizing p h with
  | nil => exact ⟨rfl, rfl⟩
  | cons line lines ih =>
    unfold headFrom
    split
    · exact ⟨rfl, rfl⟩
    · next place value _ =>
      split
      · exact ⟨rfl, rfl⟩
      · next goes =>
        have further : 5 ≤ place := by
          simp only [Option.any_some, Bool.or_eq_true, decide_eq_true_eq, not_or] at goes
          omega
        obtain ⟨ids, status⟩ := ih further (h.with_ place value)
        obtain ⟨ids', status'⟩ := Head.same_with further h value
        exact ⟨ids.trans ids', status.trans status'⟩

/-- Nor does the summary's line, nor any after it, whatever is in them. -/
theorem headFrom_summary (at_ : Option Nat) (h : Head) (rest : Text) (lines : List Text) :
    h.Same (headFrom at_ h (("<summary>".toList ++ rest) :: lines)) := by
  unfold headFrom
  split
  · exact ⟨rfl, rfl⟩
  · next place value read =>
    have here := field_summary read
    subst here
    split
    · exact ⟨rfl, rfl⟩
    · obtain ⟨ids, status⟩ := headFrom_past (Nat.le_refl 5) (h.with_ 5 value) lines
      obtain ⟨ids', status'⟩ := Head.same_with (Nat.le_refl 5) h value
      exact ⟨ids.trans ids', status.trans status'⟩

/-- What fields written in order make of a head. -/
def Head.reading (h : Head) (named : List (Nat × Text)) : Head :=
  named.foldl (fun h x => if x.2.isEmpty then h else h.with_ x.1 (Deliveries.trim x.2)) h

/-- One field may follow another. -/
def MayFollow (a b : Nat) : Prop := a < b ∨ a = b ∧ a = taskIdAt

/-- Fields written in order are read. -/
theorem headFrom_fieldLines {named : List (Nat × Text)} (known : ∀ x ∈ named, x.1 < 7)
    (ordered : named.Pairwise fun a b => MayFollow a.1 b.1) (at_ : Option Nat)
    (after : ∀ a, at_ = some a → ∀ x ∈ named, MayFollow a x.1) (h : Head) (rest : List Text) :
    ∃ at', headFrom at_ h (fieldLines named ++ rest) = headFrom at' (h.reading named) rest := by
  induction named generalizing at_ h with
  | nil => exact ⟨at_, rfl⟩
  | cons x named ih =>
    obtain ⟨first, ordered⟩ := List.pairwise_cons.mp ordered
    have known' := fun y here => known y (List.mem_cons_of_mem x here)
    by_cases empty : x.2.isEmpty
    · have skipped : fieldLines (x :: named) = fieldLines named := by
        unfold fieldLines
        rw [List.filter_cons, if_neg (by simp [empty])]
      have same : h.reading (x :: named) = h.reading named := by
        unfold Head.reading
        rw [List.foldl_cons, if_pos empty]
      rw [skipped, same]
      exact ih known' ordered at_ (fun a here y mem =>
        after a here y (List.mem_cons_of_mem x mem)) h
    · have written : fieldLines (x :: named) =
          fieldLine (fields.getD x.1 []) x.2 :: fieldLines named := by
        unfold fieldLines
        rw [List.filter_cons, if_pos (by simp [empty])]
        rfl
      have same : h.reading (x :: named) = (h.with_ x.1 (Deliveries.trim x.2)).reading named := by
        unfold Head.reading
        rw [List.foldl_cons, if_neg empty]
      have goes : ¬ (at_.any fun a => x.1 < a || x.1 == a && x.1 != taskIdAt) = true := by
        cases here : at_ with
        | none => simp
        | some a =>
          have may := after a here x List.mem_cons_self
          unfold MayFollow taskIdAt at may
          simp only [Option.any_some, Bool.or_eq_true, decide_eq_true_eq, Bool.and_eq_true,
            beq_iff_eq, bne_iff_ne, taskIdAt]
          omega
      rw [written, same, List.cons_append, headFrom,
        field_fieldLine (known x List.mem_cons_self) x.2]
      dsimp only
      rw [if_neg goes]
      refine ih known' ordered (some x.1) (fun a here y mem => ?_) _
      cases here
      exact first y mem

/-- Lines written one behind the other are cut apart again. -/
theorem parted_flatMap {line : Text} (clear : '\n' ∉ line) {lines : List Text}
    (clears : ∀ one ∈ lines, '\n' ∉ one) :
    Lib.Lines.parted '\n' (line ++ lines.flatMap ('\n' :: ·)) = line :: lines := by
  induction lines generalizing line with
  | nil => rw [List.flatMap_nil, List.append_nil, Lib.Lines.parted_of_not_mem clear]
  | cons next lines ih =>
    rw [List.flatMap_cons, List.cons_append, Lib.Lines.parted_append,
      Lib.Lines.parted_of_not_mem clear,
      ih (clears next List.mem_cons_self) fun one here => clears one (List.mem_cons_of_mem _ here)]
    rfl

theorem trim_nil : Deliveries.trim [] = [] := rfl

theorem Head.reading_append (h : Head) (named more : List (Nat × Text)) :
    h.reading (named ++ more) = (h.reading named).reading more := List.foldl_append

theorem Head.with_taskId (h : Head) (value : Text) : h.with_ taskIdAt value =
    if value.isEmpty then h else { h with ids := h.ids ++ [value] } := rfl

theorem Head.reading_ids (h : Head) (ids : List Text) :
    h.reading (ids.map (taskIdAt, ·)) =
      { h with ids := h.ids ++ (ids.map Deliveries.trim).filter (!·.isEmpty) } := by
  induction ids generalizing h with
  | nil =>
    rw [List.map_nil, List.map_nil, List.filter_nil, List.append_nil]
    rfl
  | cons id ids ih =>
    have one : h.reading ((id :: ids).map (taskIdAt, ·)) =
        (if id.isEmpty then h else h.with_ taskIdAt (Deliveries.trim id)).reading
          (ids.map (taskIdAt, ·)) := rfl
    rw [one, ih, List.map_cons, List.filter_cons]
    split
    · next empty =>
      rw [List.isEmpty_iff.mp empty, trim_nil]
      rfl
    · rw [Head.with_taskId]
      by_cases blank : (Deliveries.trim id).isEmpty
      · rw [if_pos blank, if_neg (by simp [blank])]
      · rw [if_neg blank, if_pos (by simp [blank]), List.append_assoc]
        rfl

namespace Written

variable (w : Written)

/-- The fields up to the status are each on a line. -/
def OnLines : Prop := ∀ x ∈ w.upToStatus, '\n' ∉ x.2

theorem upToStatus_ordered : w.upToStatus.Pairwise fun a b => MayFollow a.1 b.1 := by
  unfold upToStatus
  refine List.pairwise_append.mpr ⟨?_, ?_, fun x mem y mem' => ?_⟩
  · exact List.pairwise_map.mpr (List.pairwise_of_forall fun _ _ => .inr ⟨rfl, rfl⟩)
  · simp [MayFollow, statusAt]
  · obtain ⟨id, _, rfl⟩ := List.mem_map.mp mem
    have later : taskIdAt < y.1 := by
      fin_cases mem' <;> simp [taskIdAt, statusAt]
    exact .inl later

theorem upToStatus_known : ∀ x ∈ w.upToStatus, x.1 < 7 := by
  intro x mem
  rcases List.mem_append.mp mem with mem | mem
  · obtain ⟨id, _, rfl⟩ := List.mem_map.mp mem
    show taskIdAt < 7
    decide
  · fin_cases mem <;> simp [statusAt]

/-- What a head is made of the fields up to the status. -/
theorem reading_upToStatus : (({} : Head).reading w.upToStatus).ids =
      (w.taskIds.map Deliveries.trim).filter (!·.isEmpty) ∧
    (({} : Head).reading w.upToStatus).status =
      if w.status.isEmpty then none else some (Deliveries.trim w.status) := by
  unfold upToStatus
  rw [Head.reading_append, Head.reading_ids, List.nil_append]
  generalize (w.taskIds.map Deliveries.trim).filter (!·.isEmpty) = ids
  have others (h : Head) : h.reading [(1, w.toolUseId), (2, w.taskType), (3, w.outputFile),
      (statusAt, w.status)] =
        if w.status.isEmpty then h else { h with status := some (Deliveries.trim w.status) } := by
    have same (place : Nat) (few : place = 1 ∨ place = 2 ∨ place = 3) (value : Text) :
        (if value.isEmpty then h else h.with_ place (Deliveries.trim value)) = h := by
      rcases few with rfl | rfl | rfl <;> exact ite_self h
    unfold Head.reading
    simp only [List.foldl_cons, List.foldl_nil]
    rw [same 1 (.inl rfl), same 2 (.inr (.inl rfl)), same 3 (.inr (.inr rfl))]
    rfl
  rw [others]
  split <;> exact ⟨rfl, rfl⟩

theorem fieldLine_summary (value : Text) : fieldLine (fields.getD 5 []) value =
    "<summary>".toList ++ (value ++ "</summary>".toList) := by
  unfold fieldLine
  simp only [List.append_assoc]
  rfl

/-- Its text, line by line: behind the fields up to the status, one that begins as the summary's. -/
theorem text_lines (summary : w.summary ≠ []) : ∃ first others,
    (∀ one ∈ others, '\n' ∉ one) ∧ '\n' ∉ first ∧ w.text = opens ++
      ([] ++ (fieldLines w.upToStatus ++ ("<summary>".toList ++ first) :: others).flatMap
        ('\n' :: ·)) := by
  have fields_ : fieldLines (w.upToStatus ++ [(5, w.summary), (eventAt, w.event)]) =
      fieldLines w.upToStatus ++ ("<summary>".toList ++ (w.summary ++ "</summary>".toList)) ::
        fieldLines [(eventAt, w.event)] := by
    unfold fieldLines
    rw [List.filter_append, List.map_append, List.filter_cons, if_pos (by simp [summary]),
      List.map_cons, fieldLine_summary]
  obtain ⟨first, others, parts, whole⟩ := Lib.Lines.parted_flat '\n' (w.summary ++
    "</summary>".toList ++ ((fieldLines [(eventAt, w.event)]).flatMap ('\n' :: ·) ++ w.body ++
      ['\n'] ++ closes ++ w.trailing))
  have clear := Lib.Lines.parted_clear '\n' (w.summary ++ "</summary>".toList ++
    ((fieldLines [(eventAt, w.event)]).flatMap ('\n' :: ·) ++ w.body ++ ['\n'] ++ closes ++
      w.trailing))
  rw [parts] at clear
  refine ⟨first, others, fun one mem => clear one (List.mem_cons_of_mem _ mem),
    clear first List.mem_cons_self, ?_⟩
  unfold text
  rw [fields_]
  simp only [List.flatMap_append, List.flatMap_cons, List.append_assoc, List.cons_append,
    List.nil_append] at whole ⊢
  rw [whole]

theorem fieldLine_clear {place : Nat} {value : Text} (known : place < 7) (clear : '\n' ∉ value) :
    '\n' ∉ fieldLine (fields.getD place []) value := by
  have tag : ∀ place : Fin 7, '\n' ∉ fields.getD place [] := by decide
  have here := tag ⟨place, known⟩
  unfold fieldLine
  simp only [List.mem_append, not_or]
  exact ⟨⟨⟨⟨⟨⟨by decide, here⟩, by decide⟩, clear⟩, by decide⟩, here⟩, by decide⟩

theorem fieldLines_clear (lines : w.OnLines) : ∀ one ∈ fieldLines w.upToStatus, '\n' ∉ one := by
  intro one mem
  unfold fieldLines at mem
  obtain ⟨x, there, rfl⟩ := List.mem_map.mp mem
  have listed := (List.mem_filter.mp there).1
  exact fieldLine_clear (w.upToStatus_known x listed) (lines x listed)

end Written

/-- **The head of a notification is read as it was written**, whatever the summary, the event, the
    body and what trails it say: no words of a command end a job, or say how it went. -/
theorem head_of_written (w : Written) (lines : w.OnLines) (summary : w.summary ≠ []) :
    (head w.text).ids = (w.taskIds.map Deliveries.trim).filter (!·.isEmpty) ∧
    (head w.text).status = if w.status.isEmpty then none else some (Deliveries.trim w.status) := by
  obtain ⟨first, others, clear, clear', text⟩ := w.text_lines summary
  have cut : Lib.Lines.parted '\n' ([] ++ (fieldLines w.upToStatus ++
      ("<summary>".toList ++ first) :: others).flatMap ('\n' :: ·)) =
        [] :: (fieldLines w.upToStatus ++ ("<summary>".toList ++ first) :: others) := by
    refine parted_flatMap List.not_mem_nil fun one mem => ?_
    rcases List.mem_append.mp mem with mem | mem
    · exact w.fieldLines_clear lines one mem
    · rcases List.mem_cons.mp mem with rfl | mem
      · rw [List.mem_append, not_or]
        exact ⟨by decide, clear'⟩
      · exact clear one mem
  obtain ⟨at_, read⟩ := headFrom_fieldLines w.upToStatus_known w.upToStatus_ordered none
    (fun _ none_ => by cases none_) {} (("<summary>".toList ++ first) :: others)
  have whole : head w.text =
      headFrom none {} (fieldLines w.upToStatus ++ ("<summary>".toList ++ first) :: others) := by
    unfold head
    rw [text, stripPrefix_append]
    dsimp only
    rw [cut]
  obtain ⟨ids, status⟩ := headFrom_summary at_ (({} : Head).reading w.upToStatus) first others
  obtain ⟨ids', status'⟩ := w.reading_upToStatus
  rw [whole, read]
  exact ⟨ids.trans ids', status.trans status'⟩

/-- A notice of a command that waits, whose words look like the ends of others. -/
def waiting : Written where
  taskIds := [" b7 ".toList]
  toolUseId := []
  taskType := []
  outputFile := "/tmp/b7.output".toList
  status := []
  summary := "waits\n<status>failed</status>".toList
  event := "y\n<task-id>b8</task-id>".toList
  body := "\n<status>completed</status>".toList
  trailing := "\n<task-id>b9</task-id>".toList

theorem head_of_written_waiting :
    (head waiting.text).ids = ["b7".toList] ∧ (head waiting.text).status = none := by
  obtain ⟨ids, status⟩ := head_of_written waiting (by unfold Written.OnLines; decide) (by decide)
  exact ⟨ids.trans (by decide), status.trans (by decide)⟩

/-! ## 5. What each word does to each job -/

/-- A notification says that a job is over. -/
def saysOver (text : Text) (id : Text) : Bool :=
  (head text).status.any statusesOver.contains && (head text).ids.contains id &&
    !((head text).ids.filterMap (stripPrefix live)).contains id

namespace Word

/-- A word ends what is known of a job's run: it is over, or starts anew. -/
def settles (id : Text) : Word → Bool
  | starts started _ _ _ => started == id
  | notified text _ => saysOver text id
  | stopped gone => gone == id
  | relaunched => true

/-- The notice a word is of a monitor's end. -/
def noticeOf (id : Text) : Word → Option Notice
  | notified text at_ =>
    if (head text).status.any statusesOver.contains then none
    else if (head text).ids = [id] then (Jobs.endOf (head text)).map fun end_ => ⟨end_, at_⟩
    else none
  | _ => none

end Word

/-- A job that goes on running, after a word: a monitor keeps the first notice of its end. -/
def Job.heard (job : Job) (word : Word) : Job :=
  { job with notice := job.notice.or (if job.watch.isSome then word.noticeOf job.id else none) }

/-- The jobs are each there once. -/
def Jobs.Once (jobs : Jobs) : Prop := (jobs.started.map Job.id).Nodup

/-- A job that runs. -/
def Jobs.Runs (jobs : Jobs) (job : Job) : Prop := job ∈ jobs.started ∧ job.state = .running

/-- With one job at most that meets the condition, that one is changed, and no other. -/
theorem changeFirst_eq_map {p : Job → Bool} {f : Job → Job} {l : List Job}
    (one : l.Pairwise fun a b => ¬ (p a = true ∧ p b = true)) :
    changeFirst p f l = l.map fun job => if p job then f job else job := by
  induction l with
  | nil => rfl
  | cons job l ih =>
    obtain ⟨first, rest⟩ := List.pairwise_cons.mp one
    unfold changeFirst
    rw [List.map_cons]
    split
    · next here =>
      have same : l.map (fun job => if p job then f job else job) = l := by
        refine (List.map_congr_left fun other mem => ?_).trans (List.map_id l)
        exact if_neg fun too => first other mem ⟨here, too⟩
      rw [same]
    · rw [ih rest]

theorem Jobs.Once.pairwise {jobs : Jobs} (once : jobs.Once) (id : Text) {p : Job → Bool}
    (named : ∀ job, p job = true → job.id = id) :
    jobs.started.Pairwise fun a b => ¬ (p a = true ∧ p b = true) := by
  refine (List.pairwise_map.mp once).imp fun differ both => ?_
  exact differ ((named _ both.1).trans (named _ both.2).symm)

/-- What a word that starts none makes of a job. -/
def Word.change (word : Word) (job : Job) : Job :=
  match word with
  | .starts _ _ _ _ => job
  | .notified text _ =>
    if saysOver text job.id then { job with state := .ended }
    else if job.state == .running then job.heard word
    else job
  | .stopped id => if job.id == id then { job with state := .ended } else job
  | .relaunched => if job.state == .running then { job with state := .retired } else job

theorem Word.change_id (word : Word) (job : Job) : (word.change job).id = job.id := by
  unfold Word.change
  split
  · rfl
  · split
    · rfl
    · split <;> rfl
  · split <;> rfl
  · split <;> rfl

variable {jobs : Jobs}

/-- A word that is no notice for a job leaves it as it is. -/
theorem heard_silent {word : Word} {job : Job}
    (silent : job.watch.isSome = true → word.noticeOf job.id = none) : job.heard word = job := by
  unfold Job.heard
  split
  · next watches => rw [silent watches, Option.or_none]
  · rw [Option.or_none]

theorem change_silent {text : Text} {at_ : Option Text} {job : Job}
    (goes : saysOver text job.id = false)
    (silent : job.watch.isSome = true → (Word.notified text at_).noticeOf job.id = none) :
    (Word.notified text at_).change job = job := by
  unfold Word.change
  dsimp only
  rw [goes, if_neg Bool.false_ne_true, heard_silent silent, ite_self]

theorem noticed_map (once : jobs.Once) {text : Text} {at_ : Option Text}
    (goes : ¬ (head text).status.any statusesOver.contains = true) :
    (jobs.noticed (head text) at_).started = jobs.started.map (Word.notified text at_).change := by
  have runs (job : Job) : saysOver text job.id = false := by
    unfold saysOver
    rw [Bool.eq_false_iff.mpr goes, Bool.false_and, Bool.false_and]
  have all_silent (silent : ∀ job : Job, (Word.notified text at_).noticeOf job.id = none) :
      jobs.started = jobs.started.map (Word.notified text at_).change :=
    (List.map_id _).symm.trans (List.map_congr_left fun job _ =>
      (change_silent (runs job) fun _ => silent job).symm)
  unfold Jobs.noticed
  split
  · next id only =>
    split
    · next none_ =>
      refine all_silent fun job => ?_
      unfold Word.noticeOf
      dsimp only
      rw [if_neg goes, none_, Option.map_none, ite_self]
    · next end_ some_ =>
      rw [changeFirst_eq_map (once.pairwise id fun job named => by
        simp only [Bool.and_eq_true, beq_iff_eq] at named
        exact named.1.1)]
      refine List.map_congr_left fun job _ => ?_
      by_cases its : job.id = id ∧ job.watch.isSome
      · obtain ⟨rfl, watches⟩ := its
        have notice : (Word.notified text at_).noticeOf job.id = some ⟨end_, at_⟩ := by
          unfold Word.noticeOf
          dsimp only
          rw [if_neg goes, if_pos only, some_]
          rfl
        unfold Word.change
        dsimp only
        rw [runs job, if_neg Bool.false_ne_true]
        unfold Job.heard
        rw [if_pos watches, notice, watches, beq_self_eq_true, Bool.true_and, Bool.and_true]
      · rw [change_silent (runs job) fun watches => ?_, if_neg]
        · simp only [Bool.and_eq_true, beq_iff_eq]
          exact fun here => its ⟨here.1.1, here.2⟩
        · unfold Word.noticeOf
          dsimp only
          rw [if_neg goes, only, if_neg]
          exact fun same => its ⟨(List.cons.inj same).1.symm, watches⟩
  · next several =>
    refine all_silent fun job => ?_
    unfold Word.noticeOf
    dsimp only
    rw [if_neg goes, if_neg (several job.id)]

theorem endedBy_map (once : jobs.Once) (text : Text) (at_ : Option Text) :
    (jobs.endedBy text at_).started = jobs.started.map (Word.notified text at_).change := by
  unfold Jobs.endedBy
  dsimp only
  split
  · next goes =>
    exact noticed_map once (by simpa using goes)
  · next over_ =>
    have is_over : (head text).status.any statusesOver.contains = true := by simpa using over_
    refine List.map_congr_left fun job _ => ?_
    have silent : (Word.notified text at_).noticeOf job.id = none := by
      unfold Word.noticeOf
      dsimp only
      rw [if_pos is_over]
    have same : saysOver text job.id = ((head text).ids.contains job.id &&
        !((head text).ids.filterMap (stripPrefix live)).contains job.id) := by
      unfold saysOver
      rw [is_over, Bool.true_and]
    unfold Word.change
    dsimp only
    rw [same, heard_silent fun _ => silent, ite_self]

theorem stopped_map (once : jobs.Once) (id : Text) :
    (jobs.stopped id).started = jobs.started.map (Word.stopped id).change := by
  unfold Jobs.stopped
  dsimp only
  rw [changeFirst_eq_map (once.pairwise id fun job named => eq_of_beq named)]
  rfl

/-- A word that starts none changes each job by itself. -/
theorem step_map (once : jobs.Once) (word : Word)
    (starts : ∀ id watch at_ limitMs, word ≠ .starts id watch at_ limitMs) :
    (jobs.step word).started = jobs.started.map word.change := by
  cases word with
  | starts id watch at_ limitMs => exact absurd rfl (starts id watch at_ limitMs)
  | notified text at_ => exact endedBy_map once text at_
  | stopped id => exact stopped_map once id
  | relaunched => rfl

/-- A job started, again or not. -/
theorem start_started (once : jobs.Once) (id : Text) (watch : Option Watch)
    (at_ limitMs : Option Int) :
    (jobs.start id watch at_ limitMs).started =
      if jobs.started.any (·.id == id) then
        jobs.started.map fun job => if job.id == id then fresh id watch at_ limitMs else job
      else jobs.started ++ [fresh id watch at_ limitMs] := by
  unfold Jobs.start
  dsimp only
  split
  · exact changeFirst_eq_map (once.pairwise id fun job named => eq_of_beq named)
  · rfl

/-- The jobs stay there once, in the order they were first started. -/
theorem step_once (once : jobs.Once) (word : Word) : (jobs.step word).Once := by
  by_cases starts : ∃ id watch at_ limitMs, word = .starts id watch at_ limitMs
  · obtain ⟨id, watch, at_, limitMs, rfl⟩ := starts
    unfold Jobs.Once Jobs.step
    dsimp only
    rw [start_started once]
    split
    · rw [List.map_map]
      have same : (Job.id ∘ fun job => if (job.id == id) = true then fresh id watch at_ limitMs
          else job) = Job.id := by
        funext job
        by_cases its : job.id = id
        · simp [its, fresh]
        · simp [its]
      rw [same]
      exact once
    · next new =>
      rw [List.map_append]
      refine List.nodup_append.mpr ⟨once, List.nodup_singleton _, fun a mem b mem' => ?_⟩
      obtain ⟨job, there, rfl⟩ := List.mem_map.mp mem
      rw [List.map_singleton, List.mem_singleton] at mem'
      rintro rfl
      refine new (List.any_eq_true.mpr ⟨job, there, ?_⟩)
      rw [mem']
      exact beq_self_eq_true id
  · unfold Jobs.Once
    rw [step_map once word fun id watch at_ limitMs same => starts ⟨id, watch, at_, limitMs, same⟩,
      List.map_map]
    have same : Job.id ∘ word.change = Job.id := funext fun job => word.change_id job
    rw [same]
    exact once

theorem mem_start (once : jobs.Once) (id : Text) (watch : Option Watch) (at_ limitMs : Option Int)
    (job : Job) : job ∈ (jobs.start id watch at_ limitMs).started ↔
      job = fresh id watch at_ limitMs ∨ job ∈ jobs.started ∧ job.id ≠ id := by
  rw [start_started once]
  split
  · next known =>
    rw [List.mem_map]
    constructor
    · rintro ⟨old, there, rfl⟩
      by_cases its : old.id = id
      · exact .inl (if_pos (beq_iff_eq.mpr its))
      · rw [if_neg fun same => its (beq_iff_eq.mp same)]
        exact .inr ⟨there, its⟩
    · rintro (rfl | ⟨there, its⟩)
      · obtain ⟨old, there, its⟩ := List.any_eq_true.mp known
        exact ⟨old, there, if_pos its⟩
      · exact ⟨job, there, if_neg fun same => its (beq_iff_eq.mp same)⟩
  · next new =>
    rw [List.mem_append, List.mem_singleton, or_comm]
    refine or_congr_right ⟨fun there => ⟨there, fun its => new ?_⟩, And.left⟩
    exact List.any_eq_true.mpr ⟨job, there, beq_iff_eq.mpr its⟩

/-- A job that runs, and of which a word is not the end, hears it. -/
theorem change_heard {word : Word} {job : Job}
    (starts : ∀ id watch at_ limitMs, word ≠ .starts id watch at_ limitMs)
    (ran : job.state = .running) (goes : word.settles job.id = false) :
    word.change job = job.heard word := by
  cases word with
  | starts id watch at_ limitMs => exact absurd rfl (starts id watch at_ limitMs)
  | notified text at_ =>
    have goes_on : saysOver text job.id = false := goes
    unfold Word.change
    dsimp only
    rw [goes_on, if_neg Bool.false_ne_true, if_pos (beq_iff_eq.mpr ran)]
  | stopped id =>
    have other : (id == job.id) = false := goes
    rw [heard_silent fun _ => rfl]
    exact if_neg fun same => ne_of_beq_false other (beq_iff_eq.mp same).symm
  | relaunched => cases goes

/-- A job that runs after a word ran before it, and the word is not its end. -/
theorem change_running {word : Word} (job : Job)
    (starts : ∀ id watch at_ limitMs, word ≠ .starts id watch at_ limitMs) :
    (word.change job).state = .running ↔ job.state = .running ∧ word.settles job.id = false := by
  refine ⟨fun runs => ?_, fun both => ?_⟩
  · unfold Word.change at runs
    cases word with
    | starts id watch at_ limitMs => exact absurd rfl (starts id watch at_ limitMs)
    | notified text at_ =>
      dsimp only at runs
      split at runs
      · cases runs
      · next goes =>
        split at runs
        · next ran => exact ⟨beq_iff_eq.mp ran, Bool.eq_false_iff.mpr goes⟩
        · next idle => exact absurd (beq_iff_eq.mpr runs) idle
    | stopped id =>
      dsimp only at runs
      split at runs
      · cases runs
      · next other =>
        exact ⟨runs, beq_false_of_ne fun same => other (beq_iff_eq.mpr same.symm)⟩
    | relaunched =>
      dsimp only at runs
      split at runs
      · cases runs
      · next idle => exact absurd (beq_iff_eq.mpr runs) idle
  · rw [change_heard starts both.1 both.2]
    exact both.1

/-- A job that runs after a word was started by it, or ran, and the word is not its end. -/
theorem runs_step (once : jobs.Once) (word : Word) (job : Job) :
    (jobs.step word).Runs job ↔
      (∃ id watch at_ limitMs, word = .starts id watch at_ limitMs ∧
        job = fresh id watch at_ limitMs) ∨
      ∃ old, jobs.Runs old ∧ word.settles old.id = false ∧ job = old.heard word := by
  by_cases starts : ∃ id watch at_ limitMs, word = .starts id watch at_ limitMs
  · obtain ⟨id, watch, at_, limitMs, rfl⟩ := starts
    have kept (old : Job) : old.heard (.starts id watch at_ limitMs) = old :=
      heard_silent fun _ => rfl
    unfold Jobs.Runs Jobs.step
    dsimp only
    rw [mem_start once]
    constructor
    · rintro ⟨rfl | ⟨there, its⟩, runs⟩
      · exact .inl ⟨id, watch, at_, limitMs, rfl, rfl⟩
      · exact .inr ⟨job, ⟨there, runs⟩, beq_false_of_ne fun same => its same.symm, (kept job).symm⟩
    · rintro (⟨_, _, _, _, same, rfl⟩ | ⟨old, ⟨there, runs⟩, other, rfl⟩)
      · cases same
        exact ⟨.inl rfl, rfl⟩
      · rw [kept]
        exact ⟨.inr ⟨there, fun same => ne_of_beq_false other same.symm⟩, runs⟩
  · have none_ : ∀ id watch at_ limitMs, word ≠ .starts id watch at_ limitMs :=
      fun id watch at_ limitMs same => starts ⟨id, watch, at_, limitMs, same⟩
    unfold Jobs.Runs
    rw [step_map once word none_, List.mem_map]
    constructor
    · rintro ⟨⟨old, there, rfl⟩, runs⟩
      obtain ⟨ran, goes⟩ := (change_running old none_).mp runs
      exact .inr ⟨old, ⟨there, ran⟩, goes, change_heard none_ ran goes⟩
    · rintro (⟨id, watch, at_, limitMs, same, _⟩ | ⟨old, ⟨there, ran⟩, goes, rfl⟩)
      · exact absurd same (none_ id watch at_ limitMs)
      · have heard := change_heard none_ ran goes
        rw [← heard]
        exact ⟨⟨old, there, rfl⟩, (change_running old none_).mpr ⟨ran, goes⟩⟩

/-- The first notice of a monitor's end that words are. -/
def noticeIn (id : Text) (watch : Option Watch) (words : List Word) : Option Notice :=
  if watch.isSome then words.findSome? (Word.noticeOf id) else none

theorem noticeIn_concat (id : Text) (watch : Option Watch) (words : List Word) (word : Word) :
    noticeIn id watch (words ++ [word]) =
      (noticeIn id watch words).or (if watch.isSome then word.noticeOf id else none) := by
  unfold noticeIn
  split
  · rw [List.findSome?_append, List.findSome?_singleton]
  · rfl

/-- A job as it was last started, none of the words since its end, with the first notice of them. -/
def Since (words : List Word) (job : Job) : Prop :=
  ∃ before id watch at_ limitMs after, words = before ++ .starts id watch at_ limitMs :: after ∧
    (∀ word ∈ after, word.settles id = false) ∧
    job = { fresh id watch at_ limitMs with notice := noticeIn id watch after }

theorem since_append (words : List Word) (word : Word) (job : Job) :
    Since (words ++ [word]) job ↔
      (∃ id watch at_ limitMs, word = .starts id watch at_ limitMs ∧
        job = fresh id watch at_ limitMs) ∨
      ∃ old, Since words old ∧ word.settles old.id = false ∧ job = old.heard word := by
  constructor
  · rintro ⟨before, id, watch, at_, limitMs, after, whole, goes, rfl⟩
    rcases List.eq_nil_or_concat after with rfl | ⟨after, last, rfl⟩
    · obtain ⟨_, last⟩ := List.append_inj' whole rfl
      refine .inl ⟨id, watch, at_, limitMs, (List.cons.inj last).1, ?_⟩
      have none_ : noticeIn id watch [] = none := ite_self none
      rw [none_]
      rfl
    · rw [List.concat_eq_append] at goes ⊢
      rw [List.concat_eq_append, ← List.cons_append, ← List.append_assoc] at whole
      obtain ⟨rfl, last⟩ := List.append_inj' whole rfl
      cases last
      refine .inr ⟨{ fresh id watch at_ limitMs with notice := noticeIn id watch after },
        ⟨before, id, watch, at_, limitMs, after, rfl, fun other mem =>
          goes other (List.mem_append_left _ mem), rfl⟩,
        goes word (List.mem_append_right _ (List.mem_singleton_self _)), ?_⟩
      rw [noticeIn_concat]
      rfl
  · rintro (⟨id, watch, at_, limitMs, rfl, rfl⟩ |
      ⟨old, ⟨before, id, watch, at_, limitMs, after, rfl, goes, rfl⟩, last, rfl⟩)
    · refine ⟨words, id, watch, at_, limitMs, [], rfl, fun _ mem => absurd mem List.not_mem_nil, ?_⟩
      have none_ : noticeIn id watch [] = none := ite_self none
      rw [none_]
      rfl
    · refine ⟨before, id, watch, at_, limitMs, after ++ [word], by simp, fun other mem => ?_, ?_⟩
      · rcases List.mem_append.mp mem with mem | mem
        · exact goes other mem
        · rw [List.mem_singleton.mp mem]
          exact last
      · rw [noticeIn_concat]
        rfl

/-- **A job runs as it was last started, exactly where no word since ends it**: no notification
    but one that says it is over, no other job's stop, nothing else ends it; and each job is there
    once. -/
theorem running_since (words : List Word) :
    (Jobs.run words).Once ∧ ∀ job, (Jobs.run words).Runs job ↔ Since words job := by
  induction words using List.reverseRecOn with
  | nil =>
    refine ⟨List.nodup_nil, fun job => ⟨fun runs => ?_, fun since => ?_⟩⟩
    · cases runs.1
    · obtain ⟨before, _, _, _, _, after, empty, _⟩ := since
      exact absurd empty.symm (by simp)
  | append_singleton words word ih =>
    obtain ⟨once, runs⟩ := ih
    have stepped : Jobs.run (words ++ [word]) = (Jobs.run words).step word := by
      unfold Jobs.run
      rw [List.foldl_append]
      rfl
    rw [stepped]
    refine ⟨step_once once word, fun job => ?_⟩
    rw [runs_step once, since_append]
    simp only [runs]

end Claude
end ConsensFlow
