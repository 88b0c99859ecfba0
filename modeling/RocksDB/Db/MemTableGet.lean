import RocksDB.Db.MemTable
import RocksDB.Db.PointLookup

/-!
# db/memtable.cc: a memtable lookup reads the newest visible version

`MemTable::Get(LookupKey(k, s))` seeks the point table to the lookup key and runs `SaveValue`
from there.  The lookup key is `k` with the tag of `s` and `kValueTypeForSeek`, the largest point
type, so in the internal order it lies right before the versions of `k` at or below `s`, newest
first: the versions of `k` above `s` sort before it, and after the last visible version comes
the entry of another user key, where `SaveValue` stops with nothing changed.

* `Write.entry`, `Write.Fits`   the buffer `MemTable::Add` fills for a write, and what a write
                                needs to be read back from it: a point type, a sequence number at
                                most `kMaxSequenceNumber`, key and value shorter than `2^32` bytes;
* `MemTable.addWrites`          the memtable after `Add` of each write in turn;
* `GetResult.answer`            what the outputs of a lookup say, as a `LookupResult`;
* `Saver.Scanning`              the saver while it gathers merge operands.

`table_addWrites` and `pairwise_table_addWrites` say what the point table is, `Seek_addWrites`
where the seek lands, and `runWhile_SaveValue` what `SaveValue` makes of the visible versions,
read against `lookupSpec` one version at a time.

`MemTable::IsEmpty` is `first_seqno_ == 0`, and `Add` records the first sequence number it is
given: a memtable whose only write has sequence number 0 answers every lookup as empty.
-/

namespace RocksDB

/-- the entry `MemTable::Add` writes for `w` -/
def Write.entry (w : Write) : List UInt8 :=
  MemTable.EncodeEntry w.sequence w.type w.user_key w.value

/-- a write `MemTable::Add` stores so that it reads back -/
structure Write.Fits (w : Write) : Prop where
  point : IsValueType w.type = true
  sequence_le : w.sequence ≤ kMaxSequenceNumber
  key_lt : w.user_key.length + 8 < 2 ^ 32
  value_lt : w.value.length < 2 ^ 32

theorem Write.Fits.ne_rangeDeletion {w : Write} (hw : w.Fits) : w.type ≠ .kTypeRangeDeletion := by
  intro h
  have hp := hw.point
  rw [h] at hp
  exact absurd hp (by decide)

/-- the tag of a point type lies at or below that of the seek type -/
theorem Write.Fits.type_le_seek {w : Write} (hw : w.Fits) : w.type.toUInt8.toNat ≤ 7 :=
  toUInt8_le_kValueTypeForSeek hw.point

/-- what the outputs of a lookup say: a final value found with `OK` is that value, found with
`NotFound` a deletion, found with another status a merge that failed; without a final value,
`MergeInProgress` hands the operands over, and any other status leaves the key absent -/
def GetResult.answer (r : GetResult) : LookupResult :=
  if r.found then
    if r.status = .OK then .found r.value
    else if r.status = .NotFound then .deleted
    else .mergeFailed
  else if r.status = .MergeInProgress then .merging r.merge_context.newestFirst
  else .absent

@[simp] theorem Saver.merge_context_finish (sv : Saver) :
    sv.finish.merge_context = sv.merge_context := rfl

namespace MemTable

/-- `Add` of each write, in order -/
def addWrites (mem : MemTable) (writes : List Write) : MemTable :=
  writes.foldl (fun m w => m.Add w.sequence w.type w.user_key w.value) mem

/-! ## The point table -/

section Table

variable {w w' : Write}

theorem entryOrder_entry (hw : w.Fits) :
    entryOrder w.entry = toLex (w.user_key.map UInt8.toNat,
      OrderDual.toDual (w.sequence * 256 + w.type.toUInt8.toNat)) :=
  entryOrder_EncodeEntry hw.sequence_le hw.key_lt hw.value_lt

/-- two writes of different sequence numbers sort apart -/
theorem entryOrder_ne (hw : w.Fits) (hw' : w'.Fits) (h : w.sequence ≠ w'.sequence) :
    entryOrder w.entry ≠ entryOrder w'.entry := by
  rw [entryOrder_entry hw, entryOrder_entry hw']
  intro heq
  have htag := congrArg (fun x => OrderDual.ofDual (ofLex x).2) heq
  have h1 := hw.type_le_seek
  have h2 := hw'.type_le_seek
  simp only [ofLex_toLex, OrderDual.ofDual_toDual] at htag
  omega

/-- versions of one user key sort by sequence number, the newest first -/
theorem entryOrder_lt_of_sequence_lt (hw : w.Fits) (hw' : w'.Fits) (hk : w.user_key = w'.user_key)
    (h : w'.sequence < w.sequence) : entryOrder w.entry < entryOrder w'.entry := by
  rw [entryOrder_entry hw, entryOrder_entry hw', hk, Prod.Lex.toLex_lt_toLex]
  have h1 := hw.type_le_seek
  have h2 := hw'.type_le_seek
  right
  exact ⟨rfl, OrderDual.toDual_lt_toDual.mpr (by omega)⟩

variable {writes : List Write}

theorem table_addWrites (mem : MemTable) (hfits : ∀ w ∈ writes, w.Fits) :
    (mem.addWrites writes).table_ =
      (writes.map Write.entry).foldl (fun t x => t.insertByKey entryOrder x) mem.table_ := by
  induction writes generalizing mem with
  | nil => rfl
  | cons w ws ih =>
    have hw := hfits w List.mem_cons_self
    simp only [addWrites, List.foldl_cons, List.map_cons] at ih ⊢
    rw [ih _ fun w' hw' => hfits w' (List.mem_cons_of_mem w hw'), table_Add,
      if_neg hw.ne_rangeDeletion, SkipListRep.Insert_eq]
    rfl

@[simp] theorem moptions_addWrites (mem : MemTable) :
    (mem.addWrites writes).moptions_ = mem.moptions_ := by
  induction writes generalizing mem with
  | nil => rfl
  | cons w ws ih => simp [addWrites, List.foldl_cons] at ih ⊢; rw [ih]; simp

/-- once a write of a positive sequence number is in, the memtable is not empty -/
theorem first_seqno_addWrites (mem : MemTable) (hpos : ∀ w ∈ writes, 0 < w.sequence)
    (h : mem.first_seqno_ ≠ 0 ∨ writes ≠ []) : (mem.addWrites writes).first_seqno_ ≠ 0 := by
  induction writes generalizing mem with
  | nil => simpa [addWrites] using h
  | cons w ws ih =>
    refine ih _ (fun w' hw' => hpos w' (List.mem_cons_of_mem w hw')) (.inl ?_)
    rw [first_seqno_Add]
    split
    · exact (hpos w List.mem_cons_self).ne'
    · assumption

theorem perm_table_addWrites (mem : MemTable) (hnil : mem.table_ = [])
    (hfits : ∀ w ∈ writes, w.Fits) :
    (mem.addWrites writes).table_.Perm (writes.map Write.entry) := by
  rw [table_addWrites mem hfits, hnil]
  refine (List.perm_foldl_insertByKey _ _).trans ?_
  simp

section Sorted

variable (hfits : ∀ w ∈ writes, w.Fits) (hseq : writes.Pairwise fun a b => a.sequence < b.sequence)
include hfits hseq

/-- the point table after the writes is sorted strictly by the internal order -/
theorem pairwise_table_addWrites (mem : MemTable) (hnil : mem.table_ = []) :
    (mem.addWrites writes).table_.Pairwise fun a b => entryOrder a < entryOrder b := by
  rw [table_addWrites mem hfits, hnil]
  refine List.pairwise_foldl_insertByKey List.Pairwise.nil ?_ (by simp)
  rw [List.pairwise_map]
  exact hseq.imp_of_mem fun ha hb hab =>
    entryOrder_ne (hfits _ ha) (hfits _ hb) (Nat.ne_of_lt hab)

end Sorted

end Table

/-! ## The seek -/

section Seek

variable {k : List UInt8} {s : Nat}

/-- the lookup key sorts as `k` at `s` with the seek type -/
theorem entryOrder_memtable_key (hk : k.length + 8 < 2 ^ 32) (hs : s ≤ kMaxSequenceNumber) :
    entryOrder (LookupKey.new k s).memtable_key =
      toLex (k.map UInt8.toNat, OrderDual.toDual (s * 256 + 7)) := by
  have hlen : (AppendInternalKey [] ⟨k, s, kValueTypeForSeek⟩).length = k.length + 8 := by
    simp [AppendInternalKey]
  have hkey : (LookupKey.new k s).memtable_key =
      putLengthPrefixedSlice [] (AppendInternalKey [] ⟨k, s, kValueTypeForSeek⟩) ++ [] := by
    rw [putLengthPrefixedSlice_eq, hlen]
    simp [LookupKey.memtable_key, LookupKey.new]
  rw [entryOrder, hkey, getLengthPrefixedSlicePtr_put _ _ (by omega)]
  exact InternalKeyComparator.order_AppendInternalKey _ hs

/-- an entry lies at or after the lookup key with the lookup's user key exactly when it is a
version of `k` at or below `s` -/
theorem visible_iff {w : Write} (hw : w.Fits) (hk : k.length + 8 < 2 ^ 32)
    (hs : s ≤ kMaxSequenceNumber) :
    (entryOrder (LookupKey.new k s).memtable_key ≤ entryOrder w.entry ∧
        (ofLex (entryOrder w.entry)).1 = k.map UInt8.toNat) ↔
      (w.user_key = k ∧ w.sequence ≤ s) := by
  have hinj : w.user_key.map UInt8.toNat = k.map UInt8.toNat ↔ w.user_key = k :=
    (List.map_injective_iff.mpr fun _ _ h => UInt8.toNat_inj.mp h).eq_iff
  have ht := hw.type_le_seek
  rw [entryOrder_memtable_key hk hs, entryOrder_entry hw, ofLex_toLex, hinj]
  constructor
  · rintro ⟨hle, rfl⟩
    rw [Prod.Lex.toLex_le_toLex] at hle
    rcases hle with hlt | ⟨-, hle⟩
    · exact absurd hlt (lt_irrefl _)
    · exact ⟨rfl, by rw [OrderDual.toDual_le_toDual] at hle; omega⟩
  · rintro ⟨rfl, hle⟩
    refine ⟨Prod.Lex.toLex_le_toLex.mpr (.inr ⟨rfl, ?_⟩), rfl⟩
    rw [OrderDual.toDual_le_toDual]
    omega

variable {writes : List Write} (hfits : ∀ w ∈ writes, w.Fits)
  (hseq : writes.Pairwise fun a b => a.sequence < b.sequence)
include hfits hseq

/-- the visible versions of `k`, newest first, sort strictly -/
theorem pairwise_visibleVersions :
    ((visibleVersions writes k s).map Write.entry).Pairwise
      fun a b => entryOrder a < entryOrder b := by
  rw [visibleVersions, List.pairwise_map, List.pairwise_reverse]
  refine (hseq.filter _).imp_of_mem fun ha hb hab => ?_
  obtain ⟨ha, hka, -⟩ := by simpa using ha
  obtain ⟨hb, hkb, -⟩ := by simpa using hb
  exact entryOrder_lt_of_sequence_lt (hfits _ hb) (hfits _ ha) (hkb.trans hka.symm) hab

/-- **Where the seek lands.**  From the lookup key on, the point table holds the visible versions
of `k`, newest first, and then only entries of other user keys -/
theorem Seek_addWrites (mem : MemTable) (hnil : mem.table_ = []) (hk : k.length + 8 < 2 ^ 32)
    (hs : s ≤ kMaxSequenceNumber) :
    ∃ rest, SkipListRep.Seek (mem.addWrites writes).table_ (LookupKey.new k s).memtable_key =
        (visibleVersions writes k s).map Write.entry ++ rest ∧
      ∀ x ∈ rest, ∃ w ∈ writes, x = w.entry ∧ w.user_key ≠ k := by
  have hT := pairwise_table_addWrites hfits hseq mem hnil
  have hperm := perm_table_addWrites mem hnil hfits
  have hF := hT.filter fun y => decide (entryOrder (LookupKey.new k s).memtable_key ≤ entryOrder y)
  have hge : ∀ x ∈ (mem.addWrites writes).table_.filter
      (fun y => decide (entryOrder (LookupKey.new k s).memtable_key ≤ entryOrder y)),
      toLex (k.map UInt8.toNat, OrderDual.toDual (s * 256 + 7)) ≤ entryOrder x := by
    intro x hx
    rw [← entryOrder_memtable_key hk hs]
    simpa using (List.mem_filter.mp hx).2
  have hsplit := List.filter_fst_append_filter_not entryOrder hF hge
  rw [SkipListRep.Seek_eq, List.seekByKey_eq_filter hT, ← hsplit]
  refine ⟨_, congrArg (· ++ _) ?_, fun x hx => ?_⟩
  · -- both sides hold the visible versions, sorted strictly
    refine @List.eq_of_perm_of_pairwise_lt _ _ _ entryOrder _ _ ?_ (hF.filter _)
      (pairwise_visibleVersions hfits hseq)
    rw [List.filter_filter]
    refine ((hperm.filter _).trans ?_)
    rw [List.filter_map, visibleVersions, List.map_reverse]
    refine List.Perm.trans (List.Perm.of_eq ?_) (List.reverse_perm _).symm
    congr 1
    refine List.filter_congr fun w hw => ?_
    rw [Function.comp_apply, ← Bool.decide_and, decide_eq_decide]
    exact and_comm.trans (visible_iff (hfits w hw) hk hs)
  · -- past the visible versions, every entry is of another user key
    obtain ⟨hxF, hxa⟩ := List.mem_filter.mp hx
    obtain ⟨w, hw, rfl⟩ := List.mem_map.mp (hperm.subset (List.mem_filter.mp hxF).1)
    refine ⟨w, hw, rfl, fun hwk => ?_⟩
    rw [entryOrder_entry (hfits w hw), hwk] at hxa
    simp at hxa

end Seek

end MemTable

/-! ## What `SaveValue` makes of the visible versions -/

/-- the saver of a lookup of `k` while it gathers merge operands: no final value yet, status `OK`,
no range deletion, and a merge in progress exactly when it holds operands -/
structure Saver.Scanning (op : MergeOperator) (k : List UInt8) (sv : Saver) : Prop where
  user_key : sv.key.user_key = k
  not_found : sv.found_final_value = false
  merge_operator : sv.merge_operator = some op
  no_range_del : ∀ x, sv.range_del_agg x = false
  status : sv.status = .OK
  merging : sv.merge_in_progress = true ↔ sv.merge_context.newestFirst ≠ []

theorem ValueType.point_cases {t : ValueType} (hp : IsValueType t = true) (hm : t ≠ .kTypeMerge) :
    t = .kTypeValue ∨ t = .kTypeDeletion ∨ t = .kTypeSingleDeletion := by
  revert hp hm
  cases t <;> decide

/-- the value a base version hands to a merge: its value for a put, nothing for a deletion -/
theorem SaveValue.onType_base {t : ValueType}
    (ht : t = .kTypeValue ∨ t = .kTypeDeletion ∨ t = .kTypeSingleDeletion) (sv : Saver)
    (v : List UInt8) :
    SaveValue.onType sv (some t) v = (false, { (if sv.merge_in_progress then
        let (operands, merge_context) := sv.merge_context.GetOperands
        let (status, value) := TimedFullMerge sv.merge_operator sv.key.user_key
          (if t = .kTypeValue then some v else none) operands sv.value
        { sv with status, value, merge_context }
      else if t = .kTypeValue then { sv with status := .OK, value := v }
      else { sv with status := .NotFound }) with found_final_value := true }) := by
  rcases ht with rfl | rfl | rfl <;> simp [SaveValue.onType]

theorem SaveValue.onType_base_fst {t : ValueType}
    (ht : t = .kTypeValue ∨ t = .kTypeDeletion ∨ t = .kTypeSingleDeletion) (sv : Saver)
    (v : List UInt8) : (SaveValue.onType sv (some t) v).1 = false := by
  rw [SaveValue.onType_base ht]

section Scan

variable {op : MergeOperator} {k : List UInt8} {sv : Saver}

theorem Saver.Scanning.setSeq (h : sv.Scanning op k) (n : Nat) :
    ({ sv with seq := n } : Saver).Scanning op k :=
  ⟨h.user_key, h.not_found, h.merge_operator, h.no_range_del, h.status, h.merging⟩

/-- `SaveValue` on a version of the lookup's key records its sequence number and acts on its type -/
theorem SaveValue_entry (h : sv.Scanning op k) {w : Write} (hw : w.Fits) (hk : w.user_key = k) :
    SaveValue sv w.entry = SaveValue.onType { sv with seq := w.sequence } (some w.type) w.value := by
  rw [Write.entry, MemTable.SaveValue_EncodeEntry sv hw.sequence_le hw.key_lt hw.value_lt,
    if_pos (hk.trans h.user_key.symm), h.no_range_del]
  simp

/-- a merge operand joins the operands and the scan goes on -/
theorem SaveValue.onType_merge (h : sv.Scanning op k) (v : List UInt8) :
    SaveValue.onType sv (some .kTypeMerge) v =
      (true, { sv with merge_in_progress := true, merge_context := sv.merge_context.PushOperand v }) := by
  simp [SaveValue.onType, h.merge_operator]

theorem Saver.Scanning.push (h : sv.Scanning op k) (v : List UInt8) :
    ({ sv with merge_in_progress := true, merge_context := sv.merge_context.PushOperand v } :
      Saver).Scanning op k :=
  ⟨h.user_key, h.not_found, h.merge_operator, h.no_range_del, h.status, by simp⟩

/-- at a base version the scan stops with the answer of `readBase` -/
theorem answer_onType_base (h : sv.Scanning op k) {w : Write} (hw : w.Fits)
    (hm : w.type ≠ .kTypeMerge) :
    (SaveValue.onType sv (some w.type) w.value).2.finish.answer =
        readBase op k sv.merge_context.newestFirst w ∧
      (SaveValue.onType sv (some w.type) w.value).2.merge_context.newestFirst =
        sv.merge_context.newestFirst := by
  rw [SaveValue.onType_base (ValueType.point_cases hw.point hm)]
  by_cases hmip : sv.merge_in_progress = true
  · -- operands are held: the base is merged under them
    have hne : sv.merge_context.newestFirst ≠ [] := h.merging.mp hmip
    have hrev : sv.merge_context.newestFirst.reverse ≠ [] := by simpa using hne
    simp only [hmip, if_true, MergeContext.GetOperands_fst, h.merge_operator, h.user_key,
      TimedFullMerge_of_ne_nil op k _ hrev, MergeContext.newestFirst_GetOperands_snd, and_true]
    simp only [readBase, if_neg hne, fullMerge]
    rcases op.FullMergeV2 k (if w.type = .kTypeValue then some w.value else none)
      sv.merge_context.newestFirst.reverse with _ | merged <;>
      simp [Saver.finish, GetResult.answer, Status.Corruption, Status.OK, Status.NotFound]
  · -- no operand: the base itself answers
    have hnil : sv.merge_context.newestFirst = [] := by
      by_contra hne
      exact hmip (h.merging.mpr hne)
    simp only [hmip, Bool.false_eq_true, if_false, hnil]
    by_cases hv : w.type = .kTypeValue <;>
      simp [hv, hnil, readBase, Saver.finish, GetResult.answer, Status.OK, Status.NotFound]

@[simp] theorem SaveValue.key_onType (sv : Saver) (type : Option ValueType) (v : List UInt8) :
    (SaveValue.onType sv type v).2.key = sv.key := by
  unfold SaveValue.onType
  repeat' split
  all_goals rfl

@[simp] theorem key_SaveValue (sv : Saver) (entry : List UInt8) :
    (SaveValue sv entry).2.key = sv.key := by
  unfold SaveValue
  split
  · rfl
  · dsimp only
    split_ifs <;> simp

/-- the entry of another user key ends the scan with nothing changed -/
theorem SaveValue_entry_of_ne (sv : Saver) {w : Write} (hw : w.Fits)
    (hk : w.user_key ≠ sv.key.user_key) : SaveValue sv w.entry = (false, sv) := by
  rw [Write.entry, MemTable.SaveValue_EncodeEntry sv hw.sequence_le hw.key_lt hw.value_lt,
    if_neg hk]

/-- **The scan over the visible versions.**  Read newest first, the versions of `k` give the
answer of `lookupSpec` on the operands the saver holds, and leave the operands newest first -/
theorem runWhile_SaveValue (vs : List Write) (h : sv.Scanning op k)
    (hvs : ∀ w ∈ vs, w.Fits ∧ w.user_key = k) :
    ((vs.map Write.entry).runWhile SaveValue sv).finish.answer =
        lookupSpec op k sv.merge_context.newestFirst vs ∧
      ((vs.map Write.entry).runWhile SaveValue sv).merge_context.newestFirst =
        sv.merge_context.newestFirst ++ mergeOperands vs := by
  induction vs generalizing sv with
  | nil =>
    refine ⟨?_, by simp⟩
    rw [List.map_nil, List.runWhile_nil, lookupSpec_nil]
    by_cases hnil : sv.merge_context.newestFirst = []
    · have hmip : sv.merge_in_progress = false := by simpa [hnil] using h.merging
      simp [Saver.finish, GetResult.answer, h.not_found, hmip, h.status, hnil, Status.OK,
        Status.MergeInProgress]
    · have hmip := h.merging.mpr hnil
      simp [Saver.finish, GetResult.answer, h.not_found, hmip, hnil]
  | cons w rest ih =>
    obtain ⟨hw, hk⟩ := hvs w List.mem_cons_self
    have hrest := fun w' hw' => hvs w' (List.mem_cons_of_mem w hw')
    rw [List.map_cons]
    by_cases hm : w.type = .kTypeMerge
    · -- a merge operand: the scan goes on with it held
      have hstep : SaveValue sv w.entry = (true, { { sv with seq := w.sequence } with
          merge_in_progress := true, merge_context := sv.merge_context.PushOperand w.value }) := by
        rw [SaveValue_entry h hw hk, hm, SaveValue.onType_merge (h.setSeq _)]
      obtain ⟨ih1, ih2⟩ := ih ((h.setSeq w.sequence).push w.value) hrest
      rw [List.runWhile_cons_of_continue _ hstep, lookupSpec_cons_of_merge op k _ hm,
        mergeOperands_cons_of_merge hm]
      exact ⟨ih1.trans (by simp), ih2.trans (by simp)⟩
    · -- the base: the scan stops there
      have ht := ValueType.point_cases hw.point hm
      have hstop : SaveValue sv w.entry = (false,
          (SaveValue.onType { sv with seq := w.sequence } (some w.type) w.value).2) := by
        rw [SaveValue_entry h hw hk]
        exact Prod.ext (SaveValue.onType_base_fst ht _ _) rfl
      obtain ⟨ha, hn⟩ := answer_onType_base (h.setSeq w.sequence) hw hm
      rw [List.runWhile_cons_of_stop _ hstop, lookupSpec_cons_of_ne_merge op k _ hm,
        mergeOperands_cons_of_ne_merge hm, List.append_nil]
      exact ⟨ha, hn⟩

end Scan


/-! ## The lookup -/

/-- **A memtable lookup reads the newest visible version.**  After `Add` of writes of increasing
positive sequence numbers into a fresh memtable, `Get(LookupKey(k, s))` answers what the versions
of `k` at or below `s`, newest first, say: a put's value or a deletion where no merge operand is
newer, else the full merge of the newer operands onto it, or the operands still waiting where no
put or deletion lies below them; the operands it hands over are those, newest first -/
theorem memtable_get_newest_visible (op : MergeOperator) (latest_seq : Nat) {writes : List Write}
    (hfits : ∀ w ∈ writes, w.Fits) (hpos : ∀ w ∈ writes, 0 < w.sequence)
    (hseq : writes.Pairwise fun a b => a.sequence < b.sequence)
    (k : List UInt8) (s : Nat) (hk : k.length + 8 < 2 ^ 32) (hs : s ≤ kMaxSequenceNumber)
    (value : List UInt8) (seq : Nat) :
    (let mem := (MemTable.new ⟨some op⟩ latest_seq).addWrites writes
     let r := mem.Get (LookupKey.new k s) value .OK .empty (fun _ => false) seq
     r.answer = lookupSpec op k [] (visibleVersions writes k s) ∧
       r.merge_context.newestFirst = mergeOperands (visibleVersions writes k s)) := by
  intro mem r
  by_cases hnil : writes = []
  · subst hnil
    simp [r, mem, MemTable.addWrites, MemTable.Get, MemTable.IsEmpty, MemTable.new, visibleVersions,
      lookupSpec_nil, GetResult.answer, Status.OK, Status.MergeInProgress]
  -- the memtable holds a write, so the lookup runs `SaveValue` from the seek on
  have hempty := MemTable.first_seqno_addWrites (MemTable.new ⟨some op⟩ latest_seq) hpos (.inr hnil)
  obtain ⟨rest, hseek, hrest⟩ :=
    MemTable.Seek_addWrites hfits hseq (MemTable.new ⟨some op⟩ latest_seq) rfl hk hs
  let saver : Saver :=
    { status := .OK, key := LookupKey.new k s, found_final_value := false,
      merge_in_progress := false, value, seq := kMaxSequenceNumber,
      merge_operator := some op, merge_context := .empty, range_del_agg := fun _ => false }
  have hscan : saver.Scanning op k :=
    ⟨LookupKey.user_key_new k s, rfl, rfl, fun _ => rfl, rfl, by simp [saver]⟩
  -- past the visible versions comes another user key, where the scan stops
  have hcut : ((visibleVersions writes k s).map Write.entry ++ rest).runWhile SaveValue saver =
      ((visibleVersions writes k s).map Write.entry).runWhile SaveValue saver := by
    cases rest with
    | nil => rw [List.append_nil]
    | cons x rest' =>
      obtain ⟨w, hw, rfl, hwk⟩ := hrest x List.mem_cons_self
      refine List.runWhile_append_of_stop (fun sv => sv.key = LookupKey.new k s)
        (fun sv e hsv => by simpa using hsv) (fun sv hsv => ?_) _ _ rfl
      exact SaveValue_entry_of_ne sv (hfits w hw) (by rw [hsv, LookupKey.user_key_new]; exact hwk)
  have hne : ((MemTable.new ⟨some op⟩ latest_seq).addWrites writes).IsEmpty = false := by
    simpa [MemTable.IsEmpty] using hempty
  have hget : r = (((visibleVersions writes k s).map Write.entry).runWhile SaveValue saver).finish := by
    simp only [r, mem, MemTable.Get, hne, Bool.false_eq_true, if_false, SkipListRep.Get, hseek]
    rw [← hcut]
    simp [saver, MemTable.new]
  have hvis : ∀ w ∈ visibleVersions writes k s, w.Fits ∧ w.user_key = k := by
    intro w hw
    simp only [visibleVersions, List.mem_reverse, List.mem_filter, decide_eq_true_eq] at hw
    exact ⟨hfits w hw.1, hw.2.1⟩
  rw [hget]
  simpa [saver] using runWhile_SaveValue (visibleVersions writes k s) hscan hvis

/-- the run over one put and one merge operand above it: the merge of the two -/
theorem memtable_get_newest_visible_merge :
    (∀ w ∈ [(⟨1, .kTypeValue, [1], [5]⟩ : Write), ⟨2, .kTypeMerge, [1], [6]⟩], w.Fits) ∧
    (∀ w ∈ [(⟨1, .kTypeValue, [1], [5]⟩ : Write), ⟨2, .kTypeMerge, [1], [6]⟩], 0 < w.sequence) ∧
    [(⟨1, .kTypeValue, [1], [5]⟩ : Write), ⟨2, .kTypeMerge, [1], [6]⟩].Pairwise
      (fun a b => a.sequence < b.sequence) ∧
    (let mem := (MemTable.new ⟨some CreateStringAppendOperator⟩ 0).addWrites
       [⟨1, .kTypeValue, [1], [5]⟩, ⟨2, .kTypeMerge, [1], [6]⟩]
     let r := mem.Get (LookupKey.new [1] 2) [] .OK .empty (fun _ => false) 0
     r.answer = lookupSpec CreateStringAppendOperator [1] []
         (visibleVersions [⟨1, .kTypeValue, [1], [5]⟩, ⟨2, .kTypeMerge, [1], [6]⟩] [1] 2) ∧
       r.merge_context.newestFirst = mergeOperands
         (visibleVersions [⟨1, .kTypeValue, [1], [5]⟩, ⟨2, .kTypeMerge, [1], [6]⟩] [1] 2)) := by
  have hfits : ∀ w ∈ [(⟨1, .kTypeValue, [1], [5]⟩ : Write), ⟨2, .kTypeMerge, [1], [6]⟩],
      w.Fits := by
    intro w hw
    simp only [List.mem_cons, List.not_mem_nil, or_false] at hw
    rcases hw with rfl | rfl <;> exact ⟨rfl, by decide, by decide, by decide⟩
  have hpos : ∀ w ∈ [(⟨1, .kTypeValue, [1], [5]⟩ : Write), ⟨2, .kTypeMerge, [1], [6]⟩],
      0 < w.sequence := by decide
  have hseq : [(⟨1, .kTypeValue, [1], [5]⟩ : Write), ⟨2, .kTypeMerge, [1], [6]⟩].Pairwise
      (fun a b => a.sequence < b.sequence) := by decide
  exact ⟨hfits, hpos, hseq, memtable_get_newest_visible CreateStringAppendOperator 0 hfits hpos hseq
    [1] 2 (by decide) (by decide) [] 0⟩

/-- `IsEmpty` reads `first_seqno_ == 0`: a memtable whose only write has sequence number 0 misses
the put it holds -/
theorem memtable_get_misses_sequence_zero :
    (((MemTable.new ⟨some CreateStringAppendOperator⟩ 0).addWrites
        [⟨0, .kTypeValue, [1], [5]⟩]).Get (LookupKey.new [1] 0) [] .OK .empty
        (fun _ => false) 0).answer = .absent ∧
      lookupSpec CreateStringAppendOperator [1] [] (visibleVersions [⟨0, .kTypeValue, [1], [5]⟩] [1] 0)
        = .found [5] := by
  decide

end RocksDB
