/-
  File:      ConsensFlow/Panes/OutputFlow.lean
  Subject:   A PANE'S OUTPUT AND ITS ACKNOWLEDGEMENTS (`cf-panes`, `pty.rs`): what `stream_output`
             reads of a terminal it sends on in numbered chunks, within a backlog of bytes that
             nobody has acknowledged.

  A run is any order of steps of the reader and of those who acknowledge and close: each takes the
  flow's lock once. Where the flow keeps the reader waiting, its step does nothing.

  * `OutputFlow` -- the flow, call by call; `Host`, `Event`, `step` -- the reader beside it;
  * `Kept`, `kept_step` -- what each step keeps;
  * **`output_flows`** -- the chunks go in order and none twice, what is not acknowledged never
    passes the backlog, and a reader that waits is let go by the last chunk's acknowledgement;
  * `closed_issues_none` -- once closed, whatever follows, nothing more is issued.
-/
import ConsensFlow.Panes.Input

namespace ConsensFlow
namespace Panes
namespace Flow

/-! ## 1. The flow -/

/-- How many bytes may go unacknowledged: some (`InvalidBacklog` refuses none). -/
structure Backlog where
  bytes : Nat
  some_ : 0 < bytes

/-- `OutputFlowState`: each chunk not acknowledged is its number and how many bytes it has. -/
structure OutputFlow where
  nextSeq : Nat := 1
  unacked : List (Nat × Nat) := []
  unackedBytes : Nat := 0
  closed : Bool := false
  deriving DecidableEq, Repr

namespace OutputFlow

variable (flow : OutputFlow)

/-- `read_allowance` waits. -/
def waits (backlog : Backlog) : Bool :=
  !flow.closed && decide (backlog.bytes ≤ flow.unackedBytes)

/-- `read_allowance`, where it waits no more. -/
def readAllowance (backlog : Backlog) : Option Nat :=
  if flow.closed then none else some (backlog.bytes - flow.unackedBytes)

/-- `record`. -/
def record (byteCount : Nat) : Option (Nat × OutputFlow) :=
  if flow.closed then none
  else some (flow.nextSeq, { flow with
    nextSeq := flow.nextSeq + 1
    unacked := flow.unacked ++ [(flow.nextSeq, byteCount)]
    unackedBytes := flow.unackedBytes + byteCount })

/-- The front of the queue, popped as far as a number. -/
def popped (seq : Nat) : List (Nat × Nat) → Nat → List (Nat × Nat) × Nat
  | [], bytes => ([], bytes)
  | (pendingSeq, byteCount) :: unacked, bytes =>
    if pendingSeq > seq then ((pendingSeq, byteCount) :: unacked, bytes)
    else popped seq unacked (bytes - byteCount)

/-- `acknowledge`: refused with the highest number issued. -/
def acknowledge (seq : Nat) : Except Nat OutputFlow :=
  let highestIssued := flow.nextSeq - 1
  if seq > highestIssued then .error highestIssued
  else
    let left := popped seq flow.unacked flow.unackedBytes
    .ok { flow with unacked := left.1, unackedBytes := left.2 }

/-- `acknowledge_all`. -/
def acknowledgeAll : OutputFlow := { flow with unacked := [], unackedBytes := 0 }

/-- `close`. -/
def close : OutputFlow := { flow with closed := true }

end OutputFlow

/-! ## 2. The reader -/

/-- `PaneOutput`, of one pane. -/
structure Chunk where
  seq : Nat
  bytes : Bytes
  deriving DecidableEq, Repr

/-- `MAX_CHUNK_BYTES`. -/
def maxChunkBytes : Nat := 8 * 1024

/-- Where `stream_output` is. -/
inductive Phase where
  | asks
  | reads (allowance : Nat)
  | records (bytes : Bytes)
  | sends (chunk : Chunk)
  | discards
  | ended

/-- The flow and its reader; and, said of a run, all that was read to be sent, issued and sent,
    and the highest number acknowledged. -/
structure Host where
  flow : OutputFlow := {}
  phase : Phase := .asks
  read : Bytes := []
  issued : List Chunk := []
  sent : List Chunk := []
  acked : Nat := 0

inductive Event where
  /-- The reader asks what it may read. -/
  | asks
  /-- The terminal gives bytes. -/
  | gives (bytes : Bytes)
  /-- The output has ended for good. -/
  | ends
  /-- The reader records what it read. -/
  | records
  /-- It sends the chunk, to a receiver there is or one dropped. -/
  | sends (there : Bool)
  /-- `ack`. -/
  | acks (seq : Nat)
  /-- `ack_all`. -/
  | acksAll
  /-- `close_output`. -/
  | closes

/-- What one step does. -/
def step (backlog : Backlog) (s : Host) : Event → Host
  | .asks =>
    match s.phase with
    | .asks =>
      if s.flow.waits backlog then s
      else
        match s.flow.readAllowance backlog with
        | some allowance => { s with phase := .reads allowance }
        | none => { s with phase := .discards }
    | _ => s
  | .gives bytes =>
    match s.phase with
    | .reads allowance =>
      -- A read gives a byte at least, and no more than there is room for.
      if 0 < bytes.length ∧ bytes.length ≤ min allowance maxChunkBytes then
        { s with phase := .records bytes, read := s.read ++ bytes }
      else s
    | _ => s
  | .ends =>
    match s.phase with
    | .reads _ => { s with phase := .discards }
    | .discards => { s with phase := .ended, flow := s.flow.close }
    | _ => s
  | .records =>
    match s.phase with
    | .records bytes =>
      match s.flow.record bytes.length with
      | some (seq, flow) =>
        { s with flow := flow, phase := .sends ⟨seq, bytes⟩, issued := s.issued ++ [⟨seq, bytes⟩] }
      | none => { s with phase := .discards }
    | _ => s
  | .sends there =>
    match s.phase with
    | .sends chunk =>
      if there then { s with phase := .asks, sent := s.sent ++ [chunk] }
      else { s with phase := .discards }
    | _ => s
  | .acks seq =>
    match s.flow.acknowledge seq with
    | .ok flow => { s with flow := flow, acked := max s.acked seq }
    | .error _ => s
  | .acksAll => { s with flow := s.flow.acknowledgeAll, acked := s.issued.length }
  | .closes => { s with flow := s.flow.close }

def run (backlog : Backlog) (events : List Event) : Host := events.foldl (step backlog) {}

/-! ## 3. What each step keeps -/

/-- What a flow counts of chunks not acknowledged. -/
def countsOf (chunks : List Chunk) : List (Nat × Nat) :=
  chunks.map fun chunk => (chunk.seq, chunk.bytes.length)

/-- The bytes of chunks, together. -/
def bytesOf (chunks : List Chunk) : Bytes := chunks.flatMap Chunk.bytes

/-- Chunks numbered one after the other. -/
def NumberedFrom (first : Nat) (chunks : List Chunk) : Prop :=
  chunks.map Chunk.seq = List.range' first chunks.length

/-- What a reader may still record, under the allowance it asked for. -/
def Phase.room : Phase → Nat
  | .reads allowance => allowance
  | .records bytes => bytes.length
  | _ => 0

/-- Where the reader is agrees with what it read, issued and sent. -/
def Phase.Agrees (phase : Phase) (read : Bytes) (issued sent : List Chunk) : Prop :=
  match phase with
  | .asks | .reads _ => issued = sent ∧ read = bytesOf issued
  | .records bytes => issued = sent ∧ read = bytesOf issued ++ bytes
  | .sends chunk => issued = sent ++ [chunk] ∧ read = bytesOf issued
  | .discards | .ended => sent <+: issued ∧ bytesOf issued <+: read

structure Kept (backlog : Backlog) (s : Host) : Prop where
  numbered : NumberedFrom 1 s.issued
  next : s.flow.nextSeq = s.issued.length + 1
  acked : s.acked ≤ s.issued.length
  unacked : s.flow.unacked = countsOf (s.issued.drop s.acked)
  bytes : s.flow.unackedBytes = (bytesOf (s.issued.drop s.acked)).length
  within : s.flow.unackedBytes + s.phase.room ≤ backlog.bytes
  agrees : s.phase.Agrees s.read s.issued s.sent

@[simp] theorem bytesOf_nil : bytesOf [] = [] := rfl

theorem bytesOf_cons (chunk : Chunk) (chunks : List Chunk) :
    bytesOf (chunk :: chunks) = chunk.bytes ++ bytesOf chunks := rfl

theorem bytesOf_append (chunks more : List Chunk) :
    bytesOf (chunks ++ more) = bytesOf chunks ++ bytesOf more := List.flatMap_append

theorem bytesOf_begins {chunks more : List Chunk} (part : chunks <+: more) :
    bytesOf chunks <+: bytesOf more := by
  obtain ⟨rest, rfl⟩ := part
  rw [bytesOf_append]
  exact List.prefix_append _ _

theorem NumberedFrom.tail {first : Nat} {chunk : Chunk} {chunks : List Chunk}
    (numbered : NumberedFrom first (chunk :: chunks)) :
    chunk.seq = first ∧ NumberedFrom (first + 1) chunks := by
  unfold NumberedFrom at numbered ⊢
  rw [List.map_cons, List.length_cons, List.range'_succ] at numbered
  exact List.cons.inj numbered

theorem NumberedFrom.snoc {first : Nat} {chunks : List Chunk} (numbered : NumberedFrom first chunks)
    (bytes : Bytes) : NumberedFrom first (chunks ++ [⟨first + chunks.length, bytes⟩]) := by
  unfold NumberedFrom at numbered ⊢
  rw [List.map_append, numbered, List.length_append, List.length_singleton, List.range'_1_concat]
  rfl

/-- What is left of the queue, popped as far as a number, is what is past it, its bytes counted. -/
theorem popped_numbered {first : Nat} {chunks : List Chunk} (numbered : NumberedFrom first chunks)
    (seq : Nat) : OutputFlow.popped seq (countsOf chunks) (bytesOf chunks).length =
      (countsOf (chunks.drop (seq + 1 - first)),
        (bytesOf (chunks.drop (seq + 1 - first))).length) := by
  induction chunks generalizing first with
  | nil => simp [countsOf, OutputFlow.popped]
  | cons chunk chunks ih =>
    obtain ⟨here, numbered⟩ := numbered.tail
    have front : countsOf (chunk :: chunks) =
      (chunk.seq, chunk.bytes.length) :: countsOf chunks := rfl
    rw [front, OutputFlow.popped]
    by_cases past : chunk.seq > seq
    · have none_ : seq + 1 - first = 0 := by omega
      rw [if_pos past, none_, List.drop_zero, front]
    · have one : seq + 1 - first = (seq + 1 - (first + 1)) + 1 := by omega
      have less : (bytesOf (chunk :: chunks)).length - chunk.bytes.length =
          (bytesOf chunks).length := by
        rw [bytesOf_cons, List.length_append]
        omega
      rw [if_neg past, less, ih numbered, one, List.drop_succ_cons]

theorem NumberedFrom.drop {first : Nat} {chunks : List Chunk} (numbered : NumberedFrom first chunks)
    (n : Nat) : NumberedFrom (first + n) (chunks.drop n) := by
  unfold NumberedFrom at numbered ⊢
  rw [List.map_drop, numbered, List.length_drop, List.drop_range']
  simp

section Steps

variable {backlog : Backlog} {s : Host}

theorem kept_asks (kept : Kept backlog s) : Kept backlog (step backlog s .asks) := by
  unfold step
  dsimp only
  split
  · next asks =>
    have agrees := kept.agrees
    rw [asks] at agrees
    split
    · exact kept
    · next goes =>
      unfold OutputFlow.readAllowance
      by_cases closed : s.flow.closed
      · rw [if_pos closed]
        have within := kept.within
        obtain ⟨same, read⟩ := agrees
        exact { kept with
          within := Nat.le_trans (Nat.add_le_add_left (Nat.zero_le _) _) within
          agrees := ⟨same ▸ List.prefix_refl _, read ▸ List.prefix_refl _⟩ }
      · rw [if_neg closed]
        have less : s.flow.unackedBytes ≤ backlog.bytes := by
          have within := kept.within
          omega
        exact { kept with
          within := Nat.le_of_eq (Nat.add_sub_of_le less)
          agrees := agrees }
  · exact kept

theorem kept_gives (kept : Kept backlog s) (bytes : Bytes) :
    Kept backlog (step backlog s (.gives bytes)) := by
  unfold step
  dsimp only
  split
  · next allowance reads =>
    split
    · next fits =>
      have within := kept.within
      obtain ⟨same, read⟩ := by
        have agrees := kept.agrees
        rw [reads] at agrees
        exact agrees
      rw [reads] at within
      have room : bytes.length ≤ allowance := Nat.le_trans fits.2 (Nat.min_le_left _ _)
      exact { kept with
        within := Nat.le_trans (Nat.add_le_add_left room _) within
        agrees := ⟨same, congrArg (· ++ bytes) read⟩ }
    · exact kept
  · exact kept

theorem kept_ends (kept : Kept backlog s) : Kept backlog (step backlog s .ends) := by
  have less : s.flow.unackedBytes ≤ backlog.bytes :=
    Nat.le_trans (Nat.le_add_right _ _) kept.within
  have agrees := kept.agrees
  unfold step
  dsimp only
  split
  · next reads =>
    rw [reads] at agrees
    obtain ⟨same, read⟩ := agrees
    exact { kept with
      within := less
      agrees := ⟨same ▸ List.prefix_refl _, read ▸ List.prefix_refl _⟩ }
  · next discards =>
    rw [discards] at agrees
    exact { numbered := kept.numbered, next := kept.next, acked := kept.acked
            unacked := kept.unacked, bytes := kept.bytes, within := less, agrees := agrees }
  · exact kept

theorem kept_records (kept : Kept backlog s) : Kept backlog (step backlog s .records) := by
  unfold step
  dsimp only
  split
  · next bytes records =>
    have within := kept.within
    have agrees := kept.agrees
    rw [records] at within agrees
    obtain ⟨same, read⟩ := agrees
    unfold OutputFlow.record
    by_cases closed : s.flow.closed
    · rw [if_pos closed]
      have begun : bytesOf s.issued <+: s.read := by
        rw [read]
        exact List.prefix_append _ _
      exact { kept with
        within := Nat.le_trans (Nat.le_add_right _ _) within
        agrees := ⟨same ▸ List.prefix_refl _, begun⟩ }
    · rw [if_neg closed]
      have next : s.flow.nextSeq = 1 + s.issued.length := by
        rw [kept.next, Nat.add_comm]
      have left : (s.issued ++ [Chunk.mk s.flow.nextSeq bytes]).drop s.acked =
          s.issued.drop s.acked ++ [Chunk.mk s.flow.nextSeq bytes] :=
        List.drop_append_of_le_length kept.acked
      refine ⟨?_, ?_, ?_, ?_, ?_, ?_, ?_⟩
      · dsimp only
        rw [next]
        exact kept.numbered.snoc bytes
      · dsimp only
        rw [kept.next, List.length_append, List.length_singleton]
      · dsimp only
        rw [List.length_append]
        exact Nat.le_add_right_of_le kept.acked
      · dsimp only
        rw [left, kept.unacked]
        unfold countsOf
        rw [List.map_append]
        rfl
      · dsimp only
        rw [left, bytesOf_append, List.length_append, kept.bytes]
        simp [bytesOf]
      · exact within
      · refine ⟨?_, ?_⟩
        · dsimp only
          rw [same]
        · dsimp only
          rw [read, bytesOf_append]
          simp [bytesOf]
  · exact kept

theorem kept_sends (kept : Kept backlog s) (there : Bool) :
    Kept backlog (step backlog s (.sends there)) := by
  unfold step
  dsimp only
  split
  · next chunk sends =>
    have within := kept.within
    have agrees := kept.agrees
    rw [sends] at within agrees
    obtain ⟨one, read⟩ := agrees
    split
    · exact { kept with within := within, agrees := ⟨one, read⟩ }
    · have part : s.sent <+: s.issued := by
        rw [one]
        exact List.prefix_append _ _
      exact { kept with within := within, agrees := ⟨part, read ▸ List.prefix_refl _⟩ }
  · exact kept

/-- A number issued is acknowledged with all before it; what was acknowledged stays so. -/
theorem step_acks (kept : Kept backlog s) {seq : Nat} (issued : seq ≤ s.issued.length) :
    step backlog s (.acks seq) = { s with
      flow := { s.flow with
        unacked := countsOf (s.issued.drop (max s.acked seq))
        unackedBytes := (bytesOf (s.issued.drop (max s.acked seq))).length }
      acked := max s.acked seq } := by
  have past : ¬ seq > s.flow.nextSeq - 1 := by
    rw [kept.next]
    omega
  have left := popped_numbered (kept.numbered.drop s.acked) seq
  have beyond : s.acked + (seq + 1 - (1 + s.acked)) = max s.acked seq := by omega
  rw [List.drop_drop, beyond, ← kept.unacked, ← kept.bytes] at left
  unfold step OutputFlow.acknowledge
  dsimp only
  rw [if_neg past, left]

theorem kept_acks (kept : Kept backlog s) (seq : Nat) :
    Kept backlog (step backlog s (.acks seq)) := by
  by_cases issued : seq ≤ s.issued.length
  · rw [step_acks kept issued]
    have fewer : (bytesOf (s.issued.drop (max s.acked seq))).length ≤ s.flow.unackedBytes := by
      have beyond : max s.acked seq = s.acked + (seq - s.acked) := by omega
      have whole := List.take_append_drop (seq - s.acked) (s.issued.drop s.acked)
      rw [kept.bytes, beyond, ← List.drop_drop]
      conv_rhs => rw [← whole, bytesOf_append, List.length_append]
      exact Nat.le_add_left _ _
    have within := Nat.le_trans (Nat.add_le_add_right fewer _) kept.within
    exact ⟨kept.numbered, kept.next, Nat.max_le.mpr ⟨kept.acked, issued⟩, rfl, rfl, within,
      kept.agrees⟩
  · have future : seq > s.flow.nextSeq - 1 := by
      rw [kept.next]
      omega
    unfold step OutputFlow.acknowledge
    dsimp only
    rw [if_pos future]
    exact kept

theorem kept_acksAll (kept : Kept backlog s) : Kept backlog (step backlog s .acksAll) := by
  have none_ : s.issued.drop s.issued.length = [] := List.drop_length
  have within := kept.within
  refine ⟨kept.numbered, kept.next, Nat.le_refl _, ?_, ?_, ?_, kept.agrees⟩
  · unfold step
    dsimp only
    rw [none_]
    rfl
  · unfold step
    dsimp only
    rw [none_]
    rfl
  · unfold step OutputFlow.acknowledgeAll
    dsimp only
    omega

/-- **Each step keeps it.** -/
theorem kept_step (kept : Kept backlog s) (event : Event) :
    Kept backlog (step backlog s event) := by
  cases event with
  | asks => exact kept_asks kept
  | gives bytes => exact kept_gives kept bytes
  | ends => exact kept_ends kept
  | records => exact kept_records kept
  | sends there => exact kept_sends kept there
  | acks seq => exact kept_acks kept seq
  | acksAll => exact kept_acksAll kept
  | closes =>
    exact ⟨kept.numbered, kept.next, kept.acked, kept.unacked, kept.bytes, kept.within, kept.agrees⟩

end Steps

theorem kept_run (backlog : Backlog) (events : List Event) : Kept backlog (run backlog events) := by
  unfold run
  induction events using List.reverseRecOn with
  | nil =>
    refine ⟨rfl, rfl, Nat.le_refl _, rfl, rfl, ?_, rfl, rfl⟩
    exact Nat.zero_le _
  | append_singleton events event ih =>
    rw [List.foldl_append]
    exact kept_step ih event

/-! ## 4. Whole runs -/

/-- The reader waits for an acknowledgement. -/
def Host.Waiting (backlog : Backlog) (s : Host) : Prop :=
  s.phase = .asks ∧ s.flow.waits backlog = true

/-- What a pane's output is at any time. -/
structure Flows (backlog : Backlog) (s : Host) : Prop where
  /-- The chunks sent are numbered from one, each number once. -/
  in_order : NumberedFrom 1 s.sent
  /-- Together they are how the output began, nothing left out. -/
  output : bytesOf s.sent <+: s.read
  /-- The flow counts the bytes past the highest number acknowledged, and no others. -/
  counted : s.flow.unackedBytes = (bytesOf (s.issued.drop s.acked)).length
  /-- They never pass the backlog. -/
  within : s.flow.unackedBytes ≤ backlog.bytes
  /-- A reader that waits has sent all it read, and the last chunk's acknowledgement lets it read
      as much as at the start. -/
  goes_on : s.Waiting backlog → bytesOf s.sent = s.read ∧ s.acked < s.sent.length ∧
    (step backlog (step backlog s (.acks s.sent.length)) .asks).phase = .reads backlog.bytes

theorem Kept.sent_part {backlog : Backlog} {s : Host} (kept : Kept backlog s) :
    s.sent <+: s.issued ∧ bytesOf s.issued <+: s.read := by
  have agrees := kept.agrees
  cases phase : s.phase with
  | asks =>
    rw [phase] at agrees
    obtain ⟨same, read⟩ := agrees
    exact ⟨same ▸ List.prefix_refl _, read ▸ List.prefix_refl _⟩
  | reads allowance =>
    rw [phase] at agrees
    obtain ⟨same, read⟩ := agrees
    exact ⟨same ▸ List.prefix_refl _, read ▸ List.prefix_refl _⟩
  | records bytes =>
    rw [phase] at agrees
    obtain ⟨same, read⟩ := agrees
    exact ⟨same ▸ List.prefix_refl _, read ▸ List.prefix_append _ _⟩
  | sends chunk =>
    rw [phase] at agrees
    obtain ⟨one, read⟩ := agrees
    exact ⟨one ▸ List.prefix_append _ _, read ▸ List.prefix_refl _⟩
  | discards =>
    rw [phase] at agrees
    exact agrees
  | ended =>
    rw [phase] at agrees
    exact agrees

theorem NumberedFrom.part {first : Nat} {chunks more : List Chunk}
    (numbered : NumberedFrom first more) (part : chunks <+: more) :
    NumberedFrom first chunks := by
  obtain ⟨rest, rfl⟩ := part
  unfold NumberedFrom at numbered ⊢
  rw [List.map_append, List.length_append, ← List.range'_append_1] at numbered
  exact (List.append_inj numbered (by simp)).1

/-- The last chunk's acknowledgement leaves none unacknowledged. -/
theorem goes_on_of_kept {backlog : Backlog} {s : Host} (kept : Kept backlog s)
    (waiting : s.Waiting backlog) : bytesOf s.sent = s.read ∧ s.acked < s.sent.length ∧
    (step backlog (step backlog s (.acks s.sent.length)) .asks).phase = .reads backlog.bytes := by
  obtain ⟨asks, waits⟩ := waiting
  have agrees := kept.agrees
  rw [asks] at agrees
  obtain ⟨same, read⟩ := agrees
  unfold OutputFlow.waits at waits
  rw [Bool.and_eq_true, Bool.not_eq_true', decide_eq_true_eq] at waits
  obtain ⟨open_, full⟩ := waits
  have some_left : s.acked < s.issued.length := by
    by_contra all
    rw [kept.bytes, List.drop_of_length_le (Nat.le_of_not_lt all)] at full
    exact absurd full (Nat.not_le_of_lt backlog.some_)
  refine ⟨same ▸ read.symm, same ▸ some_left, ?_⟩
  have last : max s.acked s.sent.length = s.issued.length := by
    rw [← same]
    exact Nat.max_eq_right kept.acked
  rw [step_acks kept (Nat.le_of_eq (congrArg List.length same.symm)), last, List.drop_length]
  unfold step OutputFlow.waits OutputFlow.readAllowance
  dsimp only [bytesOf_nil, List.length_nil]
  rw [asks, open_]
  simp [Nat.ne_of_gt backlog.some_]

/-- **A pane's output goes in order, within its backlog, and is never stuck.** -/
theorem output_flows (backlog : Backlog) (events : List Event) :
    Flows backlog (run backlog events) := by
  have kept := kept_run backlog events
  obtain ⟨sent, read⟩ := kept.sent_part
  exact {
    in_order := kept.numbered.part sent
    output := (bytesOf_begins sent).trans read
    counted := kept.bytes
    within := Nat.le_trans (Nat.le_add_right _ _) kept.within
    goes_on := goes_on_of_kept kept }

/-- Four bytes fill a backlog of four, and the reader waits. -/
example : (run ⟨4, by decide⟩ [.asks, .gives [104, 105, 13, 10], .records, .sends true, .asks]
    ).flow.waits ⟨4, by decide⟩ = true := by decide

/-- A step of a flow closed issues nothing, and leaves it closed. -/
theorem closed_step (backlog : Backlog) {s : Host} (closed : s.flow.closed = true)
    (event : Event) : (step backlog s event).issued = s.issued ∧
      (step backlog s event).flow.closed = true := by
  cases event with
  | asks =>
    unfold step
    dsimp only
    split
    · split
      · exact ⟨rfl, closed⟩
      · split <;> exact ⟨rfl, closed⟩
    · exact ⟨rfl, closed⟩
  | gives bytes =>
    unfold step
    dsimp only
    split
    · split <;> exact ⟨rfl, closed⟩
    · exact ⟨rfl, closed⟩
  | ends =>
    unfold step
    dsimp only
    split
    · exact ⟨rfl, closed⟩
    · exact ⟨rfl, rfl⟩
    · exact ⟨rfl, closed⟩
  | sends there =>
    unfold step
    dsimp only
    split
    · split <;> exact ⟨rfl, closed⟩
    · exact ⟨rfl, closed⟩
  | records =>
    have refused (n : Nat) : s.flow.record n = none := if_pos closed
    unfold step
    dsimp only
    split
    · rw [refused]
      exact ⟨rfl, closed⟩
    · exact ⟨rfl, closed⟩
  | acks seq =>
    unfold step OutputFlow.acknowledge
    dsimp only
    by_cases future : seq > s.flow.nextSeq - 1
    · rw [if_pos future]
      exact ⟨rfl, closed⟩
    · rw [if_neg future]
      exact ⟨rfl, closed⟩
  | acksAll => exact ⟨rfl, closed⟩
  | closes => exact ⟨rfl, rfl⟩

/-- Once closed, whatever follows, nothing more is issued. -/
theorem closed_issues_none (backlog : Backlog) {s : Host} (closed : s.flow.closed = true)
    (events : List Event) : (events.foldl (step backlog) s).issued = s.issued := by
  induction events generalizing s with
  | nil => rfl
  | cons event events ih =>
    obtain ⟨issued, closed⟩ := closed_step backlog closed event
    rw [List.foldl_cons, ih closed, issued]

end Flow
end Panes
end ConsensFlow
