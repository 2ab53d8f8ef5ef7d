/-
  File:      ConsensFlow/History/PartByPart.lean
  Subject:   A LONG ITEM READ PART BY PART is the whole text, however often its copy was rewritten.

  * `rowAt_writeParts` -- what is kept of an item's parts after they are written;
  * `upsertItem_spec` -- what an upsert does to the items;
  * `Kept` -- every item has its head, and its parts and no others; **`reached_kept`**: in any run;
  * `part_at` -- a part of a text is the characters from where it begins;
  * **`long_item_read`** -- the parts read one after the other are the text, a part read from any
    character is what is left of it, and each part's tail is its end.
-/
import ConsensFlow.History.CopyRows
import ConsensFlow.History.Pages

namespace ConsensFlow
namespace History

open Lib Lib.Rows Lib.Lines Lib.Search CopyRows

/-! ## 1. The parts written -/

/-- A part's row holds the end of its text. -/
def Tailed (p : PartRow) : Prop := p.tail = tailOf p.text

theorem writePart_keeps (piece : Text × Nat) (old : PartRow) :
    PartRow.key (if old.text ≠ piece.1 then { old with tail := tailOf piece.1, text := piece.1 } else old) =
      PartRow.key old := by
  split
  · simp only [PartRow.key]
  · rfl

theorem rowAt_writePart {item : Nat} {parts : List PartRow} (tailed : ∀ p ∈ parts, Tailed p)
    (piece : Text × Nat) (k : Nat × Nat) : rowAt PartRow.key k (writePart item parts piece) =
      if (item, piece.2) = k then some ⟨item, piece.2, tailOf piece.1, piece.1⟩
      else rowAt PartRow.key k parts := by
  have at_ : rowAt PartRow.key k (writePart item parts piece) = _ :=
    rowAt_upsert (writePart_keeps piece) _ parts k
  rw [at_]
  refine if_ctx_congr Iff.rfl (fun same => ?_) fun _ => rfl
  have same : (item, piece.2) = k := same
  cases found : rowAt PartRow.key k parts with
  | none => rfl
  | some old =>
    obtain ⟨mem, key⟩ := rowAt_mem found
    have key : (old.item, old.part) = (item, piece.2) := key.trans same.symm
    obtain ⟨hitem, hpart⟩ := Prod.mk.inj key
    rw [Option.elim_some]
    split
    · rw [hitem, hpart]
    · -- The same text: its row stays, and holds its end.
      rename_i still
      have text : old.text = piece.1 := not_not.1 still
      have tail : old.tail = tailOf piece.1 := text ▸ tailed old mem
      rw [← hitem, ← hpart, ← tail, ← text]

theorem tailed_writePart {item : Nat} {parts : List PartRow} (tailed : ∀ p ∈ parts, Tailed p)
    (piece : Text × Nat) : ∀ p ∈ writePart item parts piece, Tailed p := by
  intro p hp
  unfold Tailed
  rcases mem_upsert hp with rfl | ⟨old, hold, -, rfl⟩ | ⟨hp, -⟩
  · dsimp only
  · split
    · dsimp only
    · exact tailed old hold
  · exact tailed p hp

theorem item_writePart {item : Nat} {parts : List PartRow} {piece : Text × Nat} {p : PartRow}
    (hp : p ∈ writePart item parts piece) : p.item = item ∨ p ∈ parts := by
  rcases mem_upsert hp with rfl | ⟨old, -, key, rfl⟩ | ⟨hp, -⟩
  · exact .inl rfl
  · refine .inl ?_
    have kept := congrArg Prod.fst (writePart_keeps piece old)
    exact kept.trans (congrArg Prod.fst key)
  · exact .inr hp

/-- Parts written from the `first`th on. -/
theorem rowAt_written {item : Nat} (pieces : List Text) (first : Nat) {parts : List PartRow}
    (tailed : ∀ p ∈ parts, Tailed p) (k : Nat × Nat) :
    rowAt PartRow.key k ((pieces.zipIdx first).foldl (writePart item) parts) =
      if k.1 = item ∧ first ≤ k.2 ∧ k.2 < first + pieces.length then
        (pieces[k.2 - first]?).map fun text => ⟨item, k.2, tailOf text, text⟩
      else rowAt PartRow.key k parts := by
  obtain ⟨at_, n⟩ := k
  induction pieces generalizing first parts with
  | nil =>
    rw [List.zipIdx_nil, List.foldl_nil, if_neg]
    rintro ⟨-, low, high⟩
    exact absurd (Nat.lt_of_le_of_lt low high) (Nat.lt_irrefl _)
  | cons piece pieces ih =>
    rw [List.zipIdx_cons, List.foldl_cons, ih (first + 1) (tailed_writePart tailed _),
      rowAt_writePart tailed]
    dsimp only
    rw [List.length_cons]
    by_cases here : at_ = item
    · subst here
      rcases Nat.lt_trichotomy n first with before | rfl | after
      · rw [if_neg fun h => by omega, if_neg fun h => absurd (Prod.mk.inj h).2 (by omega),
          if_neg fun h => by omega]
      · rw [if_neg fun h => by omega, if_pos rfl, if_pos ⟨rfl, by omega, by omega⟩, Nat.sub_self]
        rfl
      · have next : n - first = n - (first + 1) + 1 := by omega
        rw [next, List.getElem?_cons_succ]
        refine if_ctx_congr ⟨fun h => ⟨rfl, by omega, by omega⟩, fun h => ⟨rfl, by omega, by omega⟩⟩
          (fun _ => rfl) fun _ => ?_
        rw [if_neg]
        exact fun h => absurd (Prod.mk.inj h).2 (by omega)
    · rw [if_neg fun h => here h.1, if_neg fun h => here (Prod.mk.inj h).1.symm,
        if_neg fun h => here h.1]

/-- **What is kept of the parts after an item's are written**: its parts and no others, and what was kept
    of any other item. -/
theorem rowAt_writeParts {item : Nat} (pieces : List Text) {parts : List PartRow}
    (tailed : ∀ p ∈ parts, Tailed p) (row n : Nat) :
    rowAt PartRow.key (row, n) (writeParts item pieces parts) =
      if row = item then (pieces[n]?).map fun text => ⟨item, n, tailOf text, text⟩
      else rowAt PartRow.key (row, n) parts := by
  have stays : rowAt PartRow.key (row, n) (writeParts item pieces parts) =
      if !(row = item && pieces.length ≤ n) then _ else none :=
    @rowAt_filter _ _ _ PartRow.key _ (fun k => !(k.1 = item && pieces.length ≤ k.2)) (fun _ => rfl) _ _
  rw [stays, rowAt_written pieces 0 tailed]
  dsimp only
  rw [Nat.zero_add, Nat.sub_zero]
  by_cases here : row = item
  · by_cases within : n < pieces.length
    · rw [decide_eq_false (Nat.not_le.2 within), Bool.and_false, Bool.not_false, if_pos rfl,
        if_pos ⟨here, Nat.zero_le _, within⟩, if_pos here]
    · have past := Nat.le_of_not_lt within
      rw [decide_eq_true past, decide_eq_true here, Bool.and_true, Bool.not_true,
        if_neg Bool.false_ne_true, if_pos here, List.getElem?_eq_none past]
      rfl
  · rw [decide_eq_false here, Bool.false_and, Bool.not_false, if_pos rfl, if_neg fun h => here h.1,
      if_neg here]

theorem writeParts_mem {item : Nat} {pieces : List Text} {parts : List PartRow} {p : PartRow}
    (hp : p ∈ writeParts item pieces parts) : p.item = item ∨ p ∈ parts := by
  have any : ∀ (numbered : List (Text × Nat)) (parts : List PartRow),
      p ∈ numbered.foldl (writePart item) parts → p.item = item ∨ p ∈ parts := by
    intro numbered
    induction numbered with
    | nil => exact fun _ h => .inr h
    | cons piece numbered ih =>
      intro parts h
      rcases ih _ h with h | h
      · exact .inl h
      · exact item_writePart h
  exact any _ _ (List.mem_filter.1 hp).1

theorem writeParts_tailed {item : Nat} {pieces : List Text} {parts : List PartRow}
    (tailed : ∀ p ∈ parts, Tailed p) : ∀ p ∈ writeParts item pieces parts, Tailed p := by
  have any : ∀ (numbered : List (Text × Nat)) (parts : List PartRow), (∀ p ∈ parts, Tailed p) →
      ∀ p ∈ numbered.foldl (writePart item) parts, Tailed p := by
    intro numbered
    induction numbered with
    | nil => exact fun _ h => h
    | cons piece numbered ih => exact fun parts h => ih _ (tailed_writePart h piece)
  exact fun p hp => any _ _ tailed p (List.mem_filter.1 hp).1

theorem writeParts_keys {item : Nat} {pieces : List Text} {parts : List PartRow}
    (apart : (parts.map PartRow.key).Nodup) : ((writeParts item pieces parts).map PartRow.key).Nodup := by
  have any : ∀ (numbered : List (Text × Nat)) (parts : List PartRow), (parts.map PartRow.key).Nodup →
      ((numbered.foldl (writePart item) parts).map PartRow.key).Nodup := by
    intro numbered
    induction numbered with
    | nil => exact fun _ h => h
    | cons piece numbered ih => exact fun parts h => ih _ (keys_upsert (writePart_keeps piece) h)
  exact keys_filter (any _ _ apart) _

/-! ## 2. The items -/

theorem lt_nextRow {t : CopyRows} {i : ItemRow} (hi : i ∈ t.transcript) : i.row < t.nextRow := by
  have any : ∀ rows : List Nat, i.row ∈ rows → i.row ≤ rows.foldr max 0 := by
    intro rows
    induction rows with
    | nil => exact fun h => absurd h List.not_mem_nil
    | cons row rows ih =>
      intro h
      rw [List.foldr_cons]
      rcases List.mem_cons.1 h with rfl | h
      · exact Nat.le_max_left _ _
      · exact (ih h).trans (Nat.le_max_right _ _)
  exact Nat.lt_succ_of_le (any _ (List.mem_map_of_mem hi))

/-- What an upsert does: a row of its own, or the row of the same id, is the item's now; the others stay. -/
structure Upserted (before : List ItemRow) (row : ItemRow) (after : List ItemRow) : Prop where
  mem : row ∈ after
  others : ∀ i ∈ after, i = row ∨ i ∈ before ∧ i.row ≠ row.row
  stays : ∀ i ∈ before, ∃ j ∈ after, j.row = i.row
  rows : (after.map ItemRow.row).Nodup
  places : (after.map ItemRow.place).Nodup
  from_ : (∀ i ∈ before, i.row ≠ row.row) ∨
    ∃ old ∈ before, old.row = row.row ∧ old.conversation = row.conversation

theorem upsertItem_spec {t : CopyRows} (rows : (t.transcript.map ItemRow.row).Nodup)
    (places : (t.transcript.map ItemRow.place).Nodup) {new row : ItemRow} {after : List ItemRow}
    (h : t.upsertItem new = some (row, after)) : Upserted t.transcript row after := by
  unfold CopyRows.upsertItem CopyRows.known at h
  cases hk : rowAt ItemRow.place (new.conversation, new.id) t.transcript with
  | none =>
    rw [hk] at h
    obtain ⟨rfl, rfl⟩ := Prod.mk.inj (Option.some.inj h)
    have fresh : ∀ i ∈ t.transcript, i.row ≠ t.nextRow := fun i hi => Nat.ne_of_lt (lt_nextRow hi)
    refine ⟨List.mem_append_right _ (List.mem_singleton_self _), fun i hi => ?_,
      fun i hi => ⟨i, List.mem_append_left _ hi, rfl⟩, ?_, ?_, .inl fresh⟩
    · rcases List.mem_append.1 hi with hi | hi
      · exact .inr ⟨hi, fresh i hi⟩
      · exact .inl (List.mem_singleton.1 hi)
    · rw [List.map_append, List.map_singleton, List.nodup_append]
      refine ⟨rows, List.nodup_singleton _, fun a ha b hb => ?_⟩
      obtain ⟨i, hi, rfl⟩ := List.mem_map.1 ha
      rw [List.mem_singleton.1 hb]
      exact fresh i hi
    · rw [List.map_append, List.map_singleton, List.nodup_append]
      refine ⟨places, List.nodup_singleton _, fun a ha b hb => ?_⟩
      obtain ⟨i, hi, rfl⟩ := List.mem_map.1 ha
      rw [List.mem_singleton.1 hb]
      exact rowAt_eq_none.1 hk i hi
  | some old =>
    rw [hk] at h
    obtain ⟨hold, place⟩ := rowAt_mem hk
    dsimp only at h
    split at h
    · obtain ⟨rfl, rfl⟩ := Prod.mk.inj (Option.some.inj h)
      have same : ∀ i ∈ t.transcript, i.row = old.row → i.place = old.place := fun i hi e => by
        rw [List.inj_on_of_nodup_map rows hi hold e]
      have only : ∀ i ∈ t.transcript, i.place = (new.conversation, new.id) → i.row = old.row :=
        fun i hi e => by rw [List.inj_on_of_nodup_map places hi hold (e.trans place.symm)]
      refine ⟨List.mem_map.2 ⟨old, hold, if_pos place⟩, fun i hi => ?_, fun i hi => ?_, ?_, ?_,
        .inr ⟨old, hold, rfl, congrArg Prod.fst place⟩⟩
      · obtain ⟨j, hj, rfl⟩ := List.mem_map.1 hi
        split
        · exact .inl rfl
        · rename_i other
          exact .inr ⟨hj, fun e => other ((same j hj e).trans place)⟩
      · refine ⟨_, List.mem_map_of_mem hi, ?_⟩
        split
        · rename_i this
          exact (only i hi this).symm
        · rfl
      · rw [List.map_map]
        refine (List.map_congr_left fun i hi => ?_) ▸ rows
        rw [Function.comp_apply]
        split
        · rename_i this
          exact only i hi this
        · rfl
      · rw [List.map_map]
        refine (List.map_congr_left fun i hi => ?_) ▸ places
        rw [Function.comp_apply]
        split
        · rename_i this
          exact this
        · rfl
    · cases h

/-! ## 3. What the tables hold of every item -/

/-- Every item has its head and the parts `pieces` says of it, each with its tail; no head and no part is of
    an item that is not there. -/
structure CopyRows.Kept (t : CopyRows) (pieces : ItemRow → List Text) : Prop where
  rows : (t.transcript.map ItemRow.row).Nodup
  places : (t.transcript.map ItemRow.place).Nodup
  heads : (t.heads.map HeadRow.item).Nodup
  keys : (t.parts.map PartRow.key).Nodup
  tailed : ∀ p ∈ t.parts, Tailed p
  head : ∀ i ∈ t.transcript, ∃ head, rowAt HeadRow.item i.row t.heads = some head ∧
    head.conversation = i.conversation ∧ head.parts = (pieces i).length
  part : ∀ i ∈ t.transcript, ∀ n, rowAt PartRow.key (i.row, n) t.parts =
    (pieces i)[n]?.map fun text => i.partRow n text
  headed : ∀ head ∈ t.heads, ∃ i ∈ t.transcript, i.row = head.item
  owned : ∀ p ∈ t.parts, ∃ i ∈ t.transcript, i.row = p.item

theorem CopyRows.Kept.congr {t : CopyRows} {pieces pieces' : ItemRow → List Text} (kept : t.Kept pieces)
    (same : ∀ i ∈ t.transcript, pieces i = pieces' i) : t.Kept pieces' :=
  { kept with
    head := fun i hi => same i hi ▸ kept.head i hi
    part := fun i hi => same i hi ▸ kept.part i hi }

theorem copyItem_kept {t t' : CopyRows} (kept : t.Kept ItemRow.parts) {new : ItemRow}
    (h : t.copyItem new = some t') : t'.Kept ItemRow.parts ∧ t'.ledger = t.ledger := by
  obtain ⟨⟨row, after⟩, hu, rfl⟩ := Option.map_eq_some_iff.1 h
  have up := upsertItem_spec kept.rows kept.places hu
  have headAt : ∀ k, rowAt HeadRow.item k (writeHead (row.head row.parts.length) t.heads) = _ :=
    @rowAt_upsert _ _ _ HeadRow.item (HeadRow.rewritten (row.head row.parts.length)) (fun _ => rfl)
      (row.head row.parts.length) t.heads
  have headKeys : ((writeHead (row.head row.parts.length) t.heads).map HeadRow.item).Nodup :=
    @keys_upsert _ _ _ _ (HeadRow.rewritten (row.head row.parts.length)) (fun _ => rfl) _ _ kept.heads
  refine ⟨⟨up.rows, up.places, headKeys, writeParts_keys kept.keys,
    writeParts_tailed kept.tailed, fun i hi => ?_, fun i hi n => ?_, fun head hh => ?_, fun p hp => ?_⟩, rfl⟩
  · rcases up.others i hi with rfl | ⟨hi, other⟩
    · rw [headAt, if_pos (show (i.head i.parts.length).item = i.row from rfl)]
      refine ⟨_, rfl, ?_⟩
      cases found : rowAt HeadRow.item i.row t.heads with
      | none => exact ⟨rfl, rfl⟩
      | some old =>
        refine ⟨?_, rfl⟩
        -- The head of the row it had, of the conversation it is of.
        obtain ⟨hmem, hitem⟩ := rowAt_mem found
        rcases up.from_ with fresh | ⟨was, hwas, hrow, conv⟩
        · obtain ⟨j, hj, e⟩ := kept.headed old hmem
          exact absurd (e.trans hitem) (fresh j hj)
        · obtain ⟨head, hh, hconv, -⟩ := kept.head was hwas
          rw [hrow, found] at hh
          cases hh
          exact hconv.trans conv
    · rw [headAt, if_neg fun e => other e.symm]
      exact kept.head i hi
  · have written := @rowAt_writeParts row.row row.parts _ kept.tailed i.row n
    rw [written]
    rcases up.others i hi with rfl | ⟨hi, other⟩
    · rw [if_pos rfl]
      rfl
    · rw [if_neg other]
      exact kept.part i hi n
  · rcases mem_upsert hh with rfl | ⟨old, hold, same, rfl⟩ | ⟨hh, -⟩
    · exact ⟨row, up.mem, rfl⟩
    · exact ⟨row, up.mem, same.symm⟩
    · obtain ⟨i, hi, e⟩ := kept.headed head hh
      obtain ⟨j, hj, e'⟩ := up.stays i hi
      exact ⟨j, hj, e'.trans e⟩
  · rcases writeParts_mem hp with e | hp
    · exact ⟨row, up.mem, e.symm⟩
    · obtain ⟨i, hi, e⟩ := kept.owned p hp
      obtain ⟨j, hj, e'⟩ := up.stays i hi
      exact ⟨j, hj, e'.trans e⟩

theorem items_kept {conversation : Nat} {start : Int} (marked : List (Given × Bool)) (index : Nat)
    {c : Copying} (kept : c.rows.Kept ItemRow.parts) :
    (Copying.items conversation start marked index c).rows.Kept ItemRow.parts := by
  induction marked generalizing index c with
  | nil => exact kept
  | cons given marked ih =>
    obtain ⟨given, misplaced⟩ := given
    rw [Copying.items]
    refine ih _ ?_
    split
    · exact kept
    · unfold Copying.item
      split
      · exact kept
      · dsimp only
        split
        · exact kept
        · rename_i h
          exact (copyItem_kept kept h).1

theorem copyTranscript_kept {t t' : CopyRows} (kept : t.Kept ItemRow.parts) {conversation written : Nat}
    {items : List Given} {start : Int} (h : t.copyTranscript conversation items start = .ok (t', written)) :
    t'.Kept ItemRow.parts := by
  unfold CopyRows.copyTranscript okOr at h
  cases hc : t.ledger.conversations.get? conversation with
  | none =>
    rw [hc] at h
    cases h
  | some c =>
    rw [hc] at h
    cases h
    exact items_kept _ _ kept

/-- What goes with the conversations that went: their items, with their heads and parts. -/
theorem under_kept {t : CopyRows} (kept : t.Kept ItemRow.parts) (ledger : Ledger) :
    (t.under ledger).Kept ItemRow.parts := by
  have same : ∀ i ∈ t.transcript, ∀ head ∈ t.heads, head.item = i.row →
      head.conversation = i.conversation := by
    intro i hi head hh e
    obtain ⟨found, hf, conv, -⟩ := kept.head i hi
    rw [← e, rowAt_of_mem kept.heads hh] at hf
    cases hf
    exact conv
  refine ⟨keys_filter kept.rows _, keys_filter kept.places _, keys_filter kept.heads _,
    keys_filter kept.keys _, fun p hp => kept.tailed p (List.mem_filter.1 hp).1, fun i hi => ?_,
    fun i hi n => ?_, fun head hh => ?_, fun p hp => ?_⟩
  · obtain ⟨hi, there⟩ := List.mem_filter.1 hi
    obtain ⟨head, hh, conv, count⟩ := kept.head i hi
    obtain ⟨hmem, hitem⟩ := rowAt_mem hh
    refine ⟨head, ?_, conv, count⟩
    rw [← hitem]
    refine rowAt_of_mem (keys_filter kept.heads _) (List.mem_filter.2 ⟨hmem, ?_⟩)
    rw [conv]
    exact there
  · obtain ⟨hi, there⟩ := List.mem_filter.1 hi
    obtain ⟨head, hh, conv, -⟩ := kept.head i hi
    obtain ⟨hmem, hitem⟩ := rowAt_mem hh
    have live : (t.under ledger).heads.any (fun head => head.item = i.row) = true := by
      refine List.any_eq_true.2 ⟨head, List.mem_filter.2 ⟨hmem, ?_⟩, decide_eq_true hitem⟩
      rw [conv]
      exact there
    have stays : rowAt PartRow.key (i.row, n) (t.under ledger).parts = if _ then _ else none :=
      @rowAt_filter _ _ _ PartRow.key _ (fun k => (t.under ledger).heads.any fun head => head.item = k.1)
        (fun _ => rfl) t.parts (i.row, n)
    rw [stays, if_pos live]
    exact kept.part i hi n
  · obtain ⟨hh, there⟩ := List.mem_filter.1 hh
    obtain ⟨i, hi, e⟩ := kept.headed head hh
    refine ⟨i, List.mem_filter.2 ⟨hi, ?_⟩, e⟩
    rw [← same i hi head hh e.symm]
    exact there
  · obtain ⟨hp, live⟩ := List.mem_filter.1 hp
    obtain ⟨head, hh, e⟩ := List.any_eq_true.1 live
    obtain ⟨hh, there⟩ := List.mem_filter.1 hh
    obtain ⟨i, hi, e'⟩ := kept.owned p hp
    refine ⟨i, List.mem_filter.2 ⟨hi, ?_⟩, e'⟩
    rw [← same i hi head hh ((of_decide_eq_true e).trans e'.symm)]
    exact there

/-! ## 4. The migration -/

theorem partRows_item {i : ItemRow} {p : PartRow}
    (hp : p ∈ i.parts.zipIdx.map fun piece => i.partRow piece.2 piece.1) : p.item = i.row := by
  obtain ⟨piece, -, rfl⟩ := List.mem_map.1 hp
  rfl

theorem partRows_keys (i : ItemRow) :
    ((i.parts.zipIdx.map fun piece => i.partRow piece.2 piece.1).map PartRow.key).Nodup := by
  have keys : (i.parts.zipIdx.map fun piece => i.partRow piece.2 piece.1).map PartRow.key =
      (i.parts.zipIdx.map Prod.snd).map fun n => (i.row, n) := by
    rw [List.map_map, List.map_map]
    rfl
  rw [keys, List.zipIdx_map_snd]
  exact (List.nodup_range' _).map fun _ _ e => (Prod.mk.inj e).2

theorem rowAt_partRows (i : ItemRow) (n : Nat) :
    rowAt PartRow.key (i.row, n) (i.parts.zipIdx.map fun piece => i.partRow piece.2 piece.1) =
      i.parts[n]?.map fun text => i.partRow n text := by
  cases hn : i.parts[n]? with
  | none =>
    refine rowAt_eq_none.2 fun p hp e => ?_
    obtain ⟨⟨text, m⟩, hm, rfl⟩ := List.mem_map.1 hp
    have same : m = n := congrArg Prod.snd e
    rw [List.mk_mem_zipIdx_iff_getElem?, same, hn] at hm
    cases hm
  | some text =>
    exact rowAt_of_mem (partRows_keys i)
      (List.mem_map.2 ⟨(text, n), List.mk_mem_zipIdx_iff_getElem?.2 hn, rfl⟩)

theorem splitItem_kept {t : CopyRows} {pieces : ItemRow → List Text} (kept : t.Kept pieces) {i : ItemRow}
    (hi : i ∈ t.transcript) (none_ : pieces i = []) :
    (splitItem t i).Kept fun j => if j = i then i.parts else pieces j := by
  have same : ∀ j ∈ t.transcript, j.row = i.row → j = i := fun j hj e =>
    List.inj_on_of_nodup_map kept.rows hj hi e
  have absent : ∀ p ∈ t.parts, p.item ≠ i.row := by
    intro p hp e
    have found := rowAt_of_mem kept.keys hp
    have key : PartRow.key p = (i.row, p.part) := Prod.ext e rfl
    rw [key, kept.part i hi, none_] at found
    cases found
  have keyed : ∀ head : HeadRow,
      HeadRow.item (if head.item = i.row then { head with parts := i.parts.length } else head) = head.item :=
    fun head => by split <;> rfl
  refine ⟨kept.rows, kept.places, ?_, ?_, fun p hp => ?_, fun j hj => ?_, fun j hj n => ?_, fun head hh => ?_,
    fun p hp => ?_⟩
  · have same : (t.heads.map _).map HeadRow.item = t.heads.map HeadRow.item :=
      List.map_map.trans (List.map_congr_left fun head _ => keyed head)
    exact same ▸ kept.heads
  · rw [splitItem, List.map_append, List.nodup_append]
    refine ⟨kept.keys, partRows_keys i, fun a ha b hb e => ?_⟩
    obtain ⟨p, hp, rfl⟩ := List.mem_map.1 ha
    obtain ⟨q, hq, rfl⟩ := List.mem_map.1 hb
    exact absent p hp ((congrArg Prod.fst e).trans (partRows_item hq))
  · rcases List.mem_append.1 hp with hp | hp
    · exact kept.tailed p hp
    · obtain ⟨piece, -, rfl⟩ := List.mem_map.1 hp
      unfold Tailed ItemRow.partRow
      dsimp only
  · obtain ⟨head, hh, conv, count⟩ := kept.head j hj
    obtain ⟨-, hitem⟩ := rowAt_mem hh
    have at_ : rowAt HeadRow.item j.row (splitItem t i).heads = _ := rowAt_map keyed t.heads
    rw [at_, hh, Option.map_some]
    refine ⟨_, rfl, ?_⟩
    by_cases this : j = i
    · rw [this] at hitem conv ⊢
      rw [if_pos hitem, if_pos rfl]
      exact ⟨conv, rfl⟩
    · rw [if_neg fun e => this (same j hj (hitem.symm.trans e)), if_neg this]
      exact ⟨conv, count⟩
  · rw [splitItem, rowAt_append, kept.part j hj]
    by_cases this : j = i
    · rw [this, none_, if_pos rfl]
      exact rowAt_partRows i n
    · have other : rowAt PartRow.key (j.row, n) (i.parts.zipIdx.map fun piece => i.partRow piece.2 piece.1) =
          none := rowAt_eq_none.2 fun p hp e =>
        this (same j hj ((congrArg Prod.fst e).symm.trans (partRows_item hp)))
      rw [other, if_neg this]
      exact Option.or_none
  · obtain ⟨was, hwas, rfl⟩ := List.mem_map.1 hh
    obtain ⟨j, hj, e⟩ := kept.headed was hwas
    exact ⟨j, hj, e.trans (keyed was).symm⟩
  · rcases List.mem_append.1 hp with hp | hp
    · exact kept.owned p hp
    · exact ⟨i, hi, (partRows_item hp).symm⟩

theorem split_transcript (long : List ItemRow) (t : CopyRows) :
    (long.foldl splitItem t).transcript = t.transcript := by
  induction long generalizing t with
  | nil => rfl
  | cons i long ih => exact ih (splitItem t i)

theorem split_kept (long : List ItemRow) {t : CopyRows} {pieces : ItemRow → List Text}
    (kept : t.Kept pieces) (there : ∀ i ∈ long, i ∈ t.transcript ∧ pieces i = []) (once : long.Nodup) :
    (long.foldl splitItem t).Kept fun i => if i ∈ long then i.parts else pieces i := by
  induction long generalizing t pieces with
  | nil =>
    have same : (fun i => if i ∈ [] then ItemRow.parts i else pieces i) = pieces := by
      funext i
      rw [if_neg List.not_mem_nil]
    rw [same]
    exact kept
  | cons i long ih =>
    obtain ⟨out, once⟩ := List.nodup_cons.1 once
    obtain ⟨hi, none_⟩ := there i List.mem_cons_self
    have step := ih (splitItem_kept kept hi none_) (fun j hj => by
      obtain ⟨hj', none_⟩ := there j (List.mem_cons_of_mem _ hj)
      have other : j ≠ i := fun e => out (e ▸ hj)
      exact ⟨hj', (if_neg other).trans none_⟩) once
    have same : (fun j => if j ∈ long then ItemRow.parts j else if j = i then i.parts else pieces j) =
        fun j => if j ∈ i :: long then ItemRow.parts j else pieces j := by
      funext j
      by_cases here : j = i
      · rw [here, if_neg out, if_pos rfl, if_pos List.mem_cons_self]
      · rw [if_neg here]
        refine if_ctx_congr ⟨List.mem_cons_of_mem _, fun h => ?_⟩ (fun _ => rfl) fun _ => rfl
        exact (List.mem_cons.1 h).resolve_left here
    rw [List.foldl_cons, ← same]
    exact step

theorem headCopied_kept (ledger : Ledger) {old : List ItemRow} (apart : Apart old) :
    (headCopied ⟨ledger, old, [], []⟩).Kept fun _ => [] := by
  have rows : (old.map fun i => { i with at_ := i.at_.bind canonicalTime }).map ItemRow.row =
      old.map ItemRow.row := List.map_map
  have places : (old.map fun i => { i with at_ := i.at_.bind canonicalTime }).map ItemRow.place =
      old.map ItemRow.place := List.map_map
  have heads : (headCopied ⟨ledger, old, [], []⟩).heads.map HeadRow.item = _ :=
    List.map_map.trans rows
  refine ⟨rows ▸ apart.1, places ▸ apart.2, heads ▸ apart.1, List.nodup_nil,
    fun _ h => absurd h List.not_mem_nil, fun i hi => ⟨i.head 0, ?_, rfl, rfl⟩, fun _ _ _ => rfl,
    fun head hh => ?_, fun _ h => absurd h List.not_mem_nil⟩
  · exact @rowAt_of_mem _ _ _ HeadRow.item _ (heads ▸ apart.1) _ (List.mem_map_of_mem hi)
  · obtain ⟨i, hi, rfl⟩ := List.mem_map.1 hh
    exact ⟨i, hi, rfl⟩

theorem length_le_octets (text : Text) : text.length ≤ octets text := by
  induction text with
  | nil => exact Nat.le_refl _
  | cons c text ih =>
    have one := Char.utf8Size_pos c
    have all : octets (c :: text) = c.utf8Size + octets text := rfl
    rw [all, List.length_cons]
    omega

/-- A text of no more characters than a part is in one piece at the most. -/
theorem chunks_one {n : Nat} {text : Text} (h : text.length ≤ n) : (chunks n text).length < 2 := by
  unfold chunks
  cases text with
  | nil => exact Nat.zero_lt_two
  | cons c text =>
    have none_ : text.drop (n - 1) = [] := List.drop_of_length_le (by rw [List.length_cons] at h; omega)
    rw [List.length_cons, List.replicate_succ, pieces, none_]
    cases text <;> exact Nat.one_lt_two

/-- What the migration leaves alone is kept in no parts. -/
theorem parts_short {i : ItemRow}
    (h : ¬(decide (historyPart < octets i.text) || decide (idInRow < octets i.id)) = true) :
    i.parts = [] := by
  rw [Bool.or_eq_true, decide_eq_true_iff, decide_eq_true_iff, not_or] at h
  have few : (chunks historyPart i.text).length < 2 :=
    chunks_one ((length_le_octets _).trans (Nat.le_of_not_lt h.1))
  rw [ItemRow.parts, partsOf, decide_eq_false h.2, if_pos few, if_neg Bool.false_ne_true]

theorem migrated_kept (ledger : Ledger) {old : List ItemRow} (apart : Apart old) :
    (splitCopied (headCopied ⟨ledger, old, [], []⟩)).Kept ItemRow.parts := by
  have kept := headCopied_kept ledger apart
  have once := (List.Nodup.of_map _ kept.rows).filter fun i : ItemRow =>
    decide (historyPart < octets i.text) || decide (idInRow < octets i.id)
  refine (split_kept _ kept (fun i hi => ⟨(List.mem_filter.1 hi).1, rfl⟩) once).congr fun i hi => ?_
  rw [split_transcript] at hi
  split
  · rfl
  · rename_i short
    exact (parts_short fun long => short (List.mem_filter.2 ⟨hi, long⟩)).symm

/-- **In any run every item has its head, and its parts and no others.** -/
theorem reached_kept {t : CopyRows} (reached : Reached t) : t.Kept ItemRow.parts := by
  induction reached with
  | migrated ledger apart => exact migrated_kept ledger apart
  | copied _ h ih => exact copyTranscript_kept ih h
  | elsewhere _ ledger ih => exact under_kept ih ledger

/-! ## 5. A part of a text -/

/-- An item's row as the copy shows it. -/
def ItemRow.copied (i : ItemRow) (revision : Int) : Copied :=
  ⟨i.row, i.conversation, i.id, i.role, i.text, i.complete, i.at_, i.compaction, revision, i.detail⟩

theorem row_parts_spec {i : ItemRow} (some_ : i.parts ≠ []) : i.parts.flatten = i.text ∧
    (∀ part ∈ i.parts.dropLast, part.length = historyPart) ∧
      ∀ part ∈ i.parts, part.length ≤ historyPart := @parts_spec (i.copied 0) some_

/-- What is left of the text after `n` parts of it. -/
theorem parts_drop {i : ItemRow} (some_ : i.parts ≠ []) (n : Nat) :
    (i.parts.drop n).flatten = i.text.drop (n * historyPart) := by
  obtain ⟨whole, full, short⟩ := row_parts_spec some_
  rw [← whole]
  exact flatten_drop full short n

/-- **A part is the characters from where it begins**, as many as a part holds. -/
theorem part_at {i : ItemRow} {n : Nat} {text : Text} (h : i.parts[n]? = some text) :
    text = (i.text.drop (n * historyPart)).take historyPart := by
  have some_ : i.parts ≠ [] := fun none_ => by rw [none_] at h; cases h
  obtain ⟨-, full, short⟩ := row_parts_spec some_
  have left := parts_drop some_ n
  obtain ⟨within, hn⟩ := List.getElem?_eq_some_iff.1 h
  rw [List.drop_eq_getElem_cons within, List.flatten_cons, hn] at left
  rw [← left]
  by_cases next : i.parts.drop (n + 1) = []
  · rw [next, List.flatten_nil, List.append_nil]
    exact (List.take_of_length_le (short text (List.mem_of_getElem? h))).symm
  · exact (List.take_left' (full_of_next full h next)).symm

/-- What is left from a character of the part it is in. -/
theorem chars_part (text : Text) (start : Nat) :
    chars ((text.drop (start / historyPart * historyPart)).take historyPart)
        (start - start / historyPart * historyPart) historyPart =
      (text.drop start).take ((start / historyPart + 1) * historyPart - start) := by
  have below : start / historyPart * historyPart ≤ start := Nat.div_mul_le_self start historyPart
  have next : (start / historyPart + 1) * historyPart = start / historyPart * historyPart + historyPart :=
    Nat.succ_mul _ _
  have from_ : start / historyPart * historyPart + (start - start / historyPart * historyPart) = start := by
    omega
  have count : historyPart - (start - start / historyPart * historyPart) =
      (start / historyPart + 1) * historyPart - start := by omega
  rw [chars, List.drop_take, List.take_take, List.drop_drop, Nat.min_eq_right (Nat.sub_le _ _), from_, count]

/-- The parts hold all of the text. -/
theorem parts_cover {i : ItemRow} (some_ : i.parts ≠ []) :
    i.text.length ≤ i.parts.length * historyPart := by
  have left := parts_drop some_ i.parts.length
  rw [List.drop_length, List.flatten_nil] at left
  exact List.drop_eq_nil_iff.1 left.symm

/-- Every part but the last is full. -/
theorem parts_full {i : ItemRow} (some_ : i.parts ≠ []) :
    (i.parts.length - 1) * historyPart ≤ i.text.length := by
  obtain ⟨whole, full, -⟩ := row_parts_spec some_
  have front : i.parts.dropLast.flatten.length = (i.parts.length - 1) * historyPart := by
    rw [List.length_flatten, List.map_congr_left full, List.map_const', List.sum_replicate,
      List.length_dropLast, smul_eq_mul]
  rw [← front, ← whole]
  conv_rhs => rw [← List.dropLast_append_getLast some_, List.flatten_append, List.length_append]
  exact Nat.le_add_right _ _

/-- A text kept in no parts is no longer than one. -/
theorem short_of_none {i : ItemRow} (none_ : i.parts = []) : i.text.length ≤ historyPart := by
  unfold ItemRow.parts partsOf at none_
  dsimp only at none_
  split at none_
  · rename_i few
    exact chunks_few few
  · rename_i many
    rw [none_] at many
    exact absurd Nat.zero_lt_two many

/-! ## 6. Read part by part -/

section Read

variable {t : CopyRows} {i : ItemRow} {project participant : Nat} {handle : String}

/-- What is the participant's. -/
structure Owns (t : CopyRows) (i : ItemRow) (project participant : Nat) (handle : String) : Prop where
  who : whose t.ledger project handle = .ok participant
  conversation : (t.ledger.conversations.get? i.conversation).any fun c => c.participant == participant

theorem partHead_own (kept : t.Kept ItemRow.parts) (hi : i ∈ t.transcript)
    (owns : Owns t i project participant handle) : ∃ head,
    t.partHead participant i.conversation i.row = some head ∧ head.parts = i.parts.length := by
  obtain ⟨head, hh, conv, count⟩ := kept.head i hi
  refine ⟨head, ?_, count⟩
  rw [CopyRows.partHead, hh, Option.filter_some, conv, beq_self_eq_true, owns.conversation]
  rfl

/-- A read of an item kept in parts: of the part `start` is in, from `start`. -/
theorem readHistoryPart_parts (kept : t.Kept ItemRow.parts) (hi : i ∈ t.transcript)
    (owns : Owns t i project participant handle) {n : Nat} {text : Text} (h : i.parts[n]? = some text)
    {start : Nat} (part : min (start / historyPart) (i.parts.length - 1) = n) : ∃ revision,
    readHistoryPart t project handle i.conversation i.row start =
      .ok ⟨chars text (start - n * historyPart) historyPart, start,
        if n + 1 < i.parts.length then some ((n + 1) * historyPart) else none, revision⟩ := by
  obtain ⟨head, found, count⟩ := partHead_own kept hi owns
  obtain ⟨within, -⟩ := List.getElem?_eq_some_iff.1 h
  refine ⟨head.revision, ?_⟩
  unfold readHistoryPart
  rw [owns.who]
  dsimp only [bind, Except.bind]
  rw [found]
  dsimp only [okOr]
  rw [count, if_pos (Nat.zero_lt_of_lt within), part, kept.part i hi, h]
  rfl

/-- A read of an item kept in none: the rest of its text. -/
theorem readHistoryPart_whole (kept : t.Kept ItemRow.parts) (hi : i ∈ t.transcript)
    (owns : Owns t i project participant handle) (none_ : i.parts = []) (start : Nat) : ∃ revision,
    readHistoryPart t project handle i.conversation i.row start =
      .ok ⟨i.text.drop start, start, none, revision⟩ := by
  obtain ⟨head, found, count⟩ := partHead_own kept hi owns
  have short := short_of_none none_
  have all : chars i.text start historyPart = i.text.drop start :=
    List.take_of_length_le (by rw [List.length_drop]; omega)
  refine ⟨head.revision, ?_⟩
  unfold readHistoryPart
  rw [owns.who]
  dsimp only [bind, Except.bind]
  rw [found]
  dsimp only [okOr]
  rw [count, none_, List.length_nil, if_neg (Nat.lt_irrefl 0), rowAt_of_mem kept.rows hi]
  dsimp only
  rw [all, List.length_drop, if_neg (by omega)]

theorem textFrom_parts (kept : t.Kept ItemRow.parts) (hi : i ∈ t.transcript)
    (owns : Owns t i project participant handle) {fuel n : Nat} (within : n < i.parts.length)
    (enough : i.parts.length - n ≤ fuel) :
    textFrom t project handle i.conversation i.row fuel (n * historyPart) =
      some (i.text.drop (n * historyPart)) := by
  induction fuel generalizing n with
  | zero => omega
  | succ fuel ih =>
    have some_ : i.parts ≠ [] := fun none_ => by rw [none_] at within; cases within
    have h : i.parts[n]? = some i.parts[n] := List.getElem?_eq_getElem within
    have here : min (n * historyPart / historyPart) (i.parts.length - 1) = n := by
      rw [Nat.mul_div_cancel n (by decide)]
      omega
    obtain ⟨revision, read⟩ := readHistoryPart_parts kept hi owns h here
    have text : chars i.parts[n] (n * historyPart - n * historyPart) historyPart = i.parts[n] := by
      obtain ⟨-, -, short⟩ := row_parts_spec some_
      rw [Nat.sub_self, chars, List.drop_zero]
      exact List.take_of_length_le (short _ (List.getElem_mem within))
    rw [textFrom, read]
    dsimp only
    rw [text, ← parts_drop some_, List.drop_eq_getElem_cons within, List.flatten_cons]
    by_cases more : n + 1 < i.parts.length
    · rw [if_pos more]
      dsimp only
      rw [ih more (by omega), Option.map_some, parts_drop some_]
    · rw [if_neg more, List.drop_of_length_le (Nat.le_of_not_lt more), List.flatten_nil, List.append_nil]

/-- **A long item read part by part is the whole text**, whatever its copy held before; a read from any
    character within it is the characters from there to the end of its part; and each part's tail is its
    last 2,000 characters. -/
theorem long_item_read (reached : Reached t) (hi : i ∈ t.transcript)
    (owns : Owns t i project participant handle) :
    (∀ fuel, i.parts.length < fuel →
      textFrom t project handle i.conversation i.row fuel 0 = some i.text) ∧
    (∀ start < i.text.length, ∃ next revision,
      readHistoryPart t project handle i.conversation i.row start =
        .ok ⟨(i.text.drop start).take ((start / historyPart + 1) * historyPart - start), start, next,
          revision⟩) ∧
    ∀ p ∈ t.parts, p.item = i.row → i.parts[p.part]? = some p.text ∧ p.tail = lastOf partTail p.text := by
  have kept := reached_kept reached
  refine ⟨fun fuel enough => ?_, fun start within => ?_, fun p hp this => ⟨?_, kept.tailed p hp⟩⟩
  · cases hp : i.parts with
    | nil =>
      obtain ⟨revision, read⟩ := readHistoryPart_whole kept hi owns hp 0
      obtain ⟨fuel, rfl⟩ : ∃ n, fuel = n + 1 := ⟨fuel - 1, by omega⟩
      rw [textFrom, read]
      rfl
    | cons part parts =>
      have first := @textFrom_parts _ _ _ _ _ kept hi owns fuel 0 (by rw [hp]; exact Nat.succ_pos _)
        (by omega)
      rw [Nat.zero_mul] at first
      exact first
  · by_cases none_ : i.parts = []
    · obtain ⟨revision, read⟩ := readHistoryPart_whole kept hi owns none_ start
      have short := short_of_none none_
      refine ⟨none, revision, read.trans ?_⟩
      rw [List.take_of_length_le]
      rw [List.length_drop, Nat.succ_mul]
      omega
    · have cover := parts_cover none_
      have index : start / historyPart < i.parts.length :=
        Nat.div_lt_of_lt_mul (by rw [Nat.mul_comm]; omega)
      have h : i.parts[start / historyPart]? = some i.parts[start / historyPart] :=
        List.getElem?_eq_getElem index
      obtain ⟨revision, read⟩ := @readHistoryPart_parts _ _ _ _ _ kept hi owns _ _ h start (by omega)
      have text := chars_part i.text start
      rw [← part_at h] at text
      rw [text] at read
      exact ⟨_, revision, read⟩
  · have found := rowAt_of_mem kept.keys hp
    have key : PartRow.key p = (i.row, p.part) := Prod.ext this rfl
    rw [key, kept.part i hi] at found
    obtain ⟨text, ht, e⟩ := Option.map_eq_some_iff.1 found
    rw [ht, ← e]
    rfl

end Read

/-- A copy with no item yet. -/
def uncopied : CopyRows := splitCopied (headCopied ⟨answered.ledger, [], [], []⟩)

/-- One item, of words that begin with `first`. -/
def wordsOf (first : Char) (rest : Text) : List Given :=
  [⟨some "item".toList, some "assistant", some (first :: rest), true, none, false, none, false⟩]

/-- Its row. -/
def rowOf (first : Char) (rest : Text) : ItemRow :=
  ⟨1, 3, "item".toList, 0, .assistant, first :: rest, true, none, false, none, false⟩

/-- An item is copied, and rewritten with words that begin otherwise. -/
theorem copied_rewritten (old rest : Text) : ∃ t t',
    uncopied.copyTranscript 3 (wordsOf 'o' old) 0 = .ok (t, 1) ∧
    t.copyTranscript 3 (wordsOf 'n' rest) 0 = .ok (t', 1) ∧
    t'.ledger = answered.ledger ∧ t'.transcript = [rowOf 'n' rest] :=
  ⟨_, _, rfl, rfl, rfl, rfl⟩

/-- A part and four characters more. -/
def longRest : Text := List.replicate 63999 'e' ++ "tail".toList

theorem long_item_read_rewritten : ∃ t t',
    uncopied.copyTranscript 3 (wordsOf 'o' (List.replicate 130000 'o')) 0 = .ok (t, 1) ∧
    t.copyTranscript 3 (wordsOf 'n' longRest) 0 = .ok (t', 1) ∧
    (rowOf 'n' longRest).parts.length = 2 ∧
    textFrom t' 1 "chief" 3 1 3 0 = some ('n' :: longRest) ∧
    (∃ next revision,
      readHistoryPart t' 1 "chief" 3 1 64001 = .ok ⟨"ail".toList, 64001, next, revision⟩) ∧
    ∀ p ∈ t'.parts, p.item = 1 → p.tail = lastOf partTail p.text := by
  obtain ⟨t, t', first, second, ledger, transcript⟩ :=
    copied_rewritten (List.replicate 130000 'o') longRest
  refine ⟨t, t', first, second, ?_⟩
  have once : Reached uncopied := .migrated answered.ledger ⟨List.nodup_nil, List.nodup_nil⟩
  have inside : rowOf 'n' longRest ∈ t'.transcript := by
    rw [transcript]
    exact List.mem_cons_self
  have owns : Owns t' (rowOf 'n' longRest) 1 1 "chief" := by
    constructor
    · rw [ledger]
      rfl
    · rw [ledger]
      decide
  have long : (rowOf 'n' longRest).text.length = 64004 := by
    show ('n' :: longRest).length = 64004
    rw [List.length_cons, longRest, List.length_append, List.length_replicate]
    rfl
  have parts : (rowOf 'n' longRest).parts.length = 2 := by
    have some_ : (rowOf 'n' longRest).parts ≠ [] := by
      intro none_
      have short := short_of_none none_
      rw [long] at short
      exact absurd short (by decide)
    have cover := parts_cover some_
    have full := parts_full some_
    rw [show historyPart = 64000 from rfl] at cover full
    omega
  obtain ⟨all, piece, tails⟩ := long_item_read (.copied (.copied once first) second) inside owns
  refine ⟨parts, all 3 (by rw [parts]; decide), ?_, fun p hp this => (tails p hp this).2⟩
  obtain ⟨next, revision, read⟩ := piece 64001 (by rw [long]; decide)
  have left : ('n' :: longRest).drop 64001 = "ail".toList := by
    rw [List.drop_succ_cons, longRest, List.drop_append, List.length_replicate, List.drop_of_length_le]
    · rfl
    · rw [List.length_replicate]
      decide
  have whole : (rowOf 'n' longRest).text.drop 64001 = "ail".toList := left
  have short : "ail".toList.take ((64001 / historyPart + 1) * historyPart - 64001) = "ail".toList :=
    List.take_of_length_le (by decide)
  rw [whole, short] at read
  exact ⟨next, revision, read⟩
end History
end ConsensFlow
