import RocksDB.Db.InternalKey
import RocksDB.Db.MergeHelper
import RocksDB.Lib.Sorted
import RocksDB.Lib.Lists

/-!
# db/memtable.cc, memtable/skiplistrep.cc: the memtable, its inserts and its point lookup

* `MemTable.EncodeEntry`   the buffer `MemTable::Add` fills: the length-prefixed internal key,
                           then the length-prefixed value;
* `MemTable.KeyComparator` the internal key comparator on two length-prefixed keys;
* `SkipListRep`            the skip list as the list of its level-0 nodes: `Insert` places a key
                           before the first node not below it, `Seek` is `FindGreaterOrEqual`,
                           `Get` runs a callback from the seek until it answers false;
* `SaveValue`              the callback of `MemTable::Get`, on a `Saver`;
* `MemTable.Add`, `MemTable.Get`  the non-concurrent insert and the point lookup.

Beside the definitions stand the lemmas that read an encoded entry back:
`getLengthPrefixedSlicePtr_EncodeEntry` (its internal key), `entryOrder_EncodeEntry` (where the
comparator sorts it) and `SaveValue_EncodeEntry` (what the callback does with it); and the bridges
`SkipListRep.Insert_eq` and `SkipListRep.Seek_eq` to the sorted lists of `Lib.Sorted`.
-/

namespace RocksDB

/-- `ImmutableMemTableOptions`, as far as a lookup reads it -/
structure MemTableOptions where
  merge_operator : Option MergeOperator

/-- a memtable: its two skip lists, as their level-0 node lists, and its counters -/
structure MemTable where
  moptions_ : MemTableOptions
  table_ : List (List UInt8)
  range_del_table_ : List (List UInt8)
  is_range_del_table_empty_ : Bool
  data_size_ : Nat
  num_entries_ : Nat
  num_deletes_ : Nat
  first_seqno_ : Nat
  earliest_seqno_ : Nat

namespace MemTable

/-- `MemTable::MemTable(..., latest_seq, ...)` -/
def new (moptions : MemTableOptions) (latest_seq : Nat) : MemTable where
  moptions_ := moptions
  table_ := []
  range_del_table_ := []
  is_range_del_table_empty_ := true
  data_size_ := 0
  num_entries_ := 0
  num_deletes_ := 0
  first_seqno_ := 0
  earliest_seqno_ := latest_seq

/-- `MemTable::IsEmpty` -/
def IsEmpty (mem : MemTable) : Bool := mem.first_seqno_ = 0

/-- `MemTable::KeyComparator::operator()` on two length-prefixed internal keys, with the internal
key comparator over `BytewiseComparator` -/
def KeyComparator (prefix_len_key1 prefix_len_key2 : List UInt8) : Ordering :=
  InternalKeyComparator.bytewise.Compare (getLengthPrefixedSlicePtr prefix_len_key1)
    (getLengthPrefixedSlicePtr prefix_len_key2)

/-- the order `KeyComparator` sorts by -/
def entryOrder (prefix_len_key : List UInt8) : Lex (List ℕ × ℕᵒᵈ) :=
  InternalKeyComparator.order (getLengthPrefixedSlicePtr prefix_len_key)

theorem KeyComparator_eq_lt (a b : List UInt8) : KeyComparator a b = .lt ↔ entryOrder a < entryOrder b :=
  InternalKeyComparator.Compare_eq_lt _ _

/-- the entry `MemTable::Add` writes: `key_size + 8` as a varint32, the first `key_size` bytes of
the key, the packed tag, `val_size` as a varint32 and the first `val_size` bytes of the value,
with both sizes cast to `uint32_t` -/
def EncodeEntry (s : Nat) (type : ValueType) (key value : List UInt8) : List UInt8 :=
  let key_size := UInt32.ofNat key.length
  let val_size := UInt32.ofNat value.length
  let internal_key_size := key_size + 8
  encodeVarint32 internal_key_size ++ key.take key_size.toNat ++
    encodeFixed64 (PackSequenceAndType s type) ++ encodeVarint32 val_size ++
    value.take val_size.toNat

end MemTable

/-! ## The skip list -/

namespace SkipListRep

/-- `InlineSkipList::Insert`: the key goes right before the first node that is not less than it -/
def Insert (key : List UInt8) : List (List UInt8) → List (List UInt8)
  | [] => [key]
  | n :: rest =>
    if MemTable.KeyComparator n key = .lt then n :: Insert key rest else key :: n :: rest

/-- `InlineSkipList::Iterator::Seek`: the nodes from `FindGreaterOrEqual(target)` on -/
def Seek (table : List (List UInt8)) (target : List UInt8) : List (List UInt8) :=
  table.dropWhile fun n => MemTable.KeyComparator n target = .lt

/-- `SkipListRep::Get`: from the seek to the lookup's memtable key, the callback on each node
until it answers false -/
def Get {σ : Type} (table : List (List UInt8)) (k : LookupKey) (callback_args : σ)
    (callback_func : σ → List UInt8 → Bool × σ) : σ :=
  (Seek table k.memtable_key).runWhile callback_func callback_args

theorem Insert_eq (key : List UInt8) (table : List (List UInt8)) :
    Insert key table = table.insertByKey MemTable.entryOrder key := by
  induction table with
  | nil => rfl
  | cons n rest ih => simp only [Insert, List.insertByKey, MemTable.KeyComparator_eq_lt, ih]

theorem Seek_eq (table : List (List UInt8)) (target : List UInt8) :
    Seek table target = table.seekByKey MemTable.entryOrder (MemTable.entryOrder target) := by
  simp only [Seek, List.seekByKey, MemTable.KeyComparator_eq_lt]

end SkipListRep

/-! ## The lookup callback -/

/-- `Saver`: what `SaveValue` reads and writes; `range_del_agg` is the aggregator's
`ShouldDelete` on an internal key -/
structure Saver where
  status : Status
  key : LookupKey
  found_final_value : Bool
  merge_in_progress : Bool
  value : List UInt8
  seq : Nat
  merge_operator : Option MergeOperator
  merge_context : MergeContext
  range_del_agg : List UInt8 → Bool

/-- the `switch (type)` of `SaveValue`, on an entry of the lookup's user key: a value or a
deletion ends the scan (merged with the operands gathered so far), a merge operand is gathered
and the scan goes on, and a type no point entry has is passed over -/
def SaveValue.onType (s : Saver) (type : Option ValueType) (v : List UInt8) : Bool × Saver :=
  match type with
  | some .kTypeValue =>
    let s := if s.merge_in_progress then
        let (operands, merge_context) := s.merge_context.GetOperands
        let (status, value) :=
          TimedFullMerge s.merge_operator s.key.user_key (some v) operands s.value
        { s with status, value, merge_context }
      else { s with status := .OK, value := v }
    (false, { s with found_final_value := true })
  | some .kTypeDeletion | some .kTypeSingleDeletion | some .kTypeRangeDeletion =>
    let s := if s.merge_in_progress then
        let (operands, merge_context) := s.merge_context.GetOperands
        let (status, value) := TimedFullMerge s.merge_operator s.key.user_key none operands s.value
        { s with status, value, merge_context }
      else { s with status := .NotFound }
    (false, { s with found_final_value := true })
  | some .kTypeMerge =>
    match s.merge_operator with
    | none =>
      -- stop with the error, so that no later entry overwrites it
      (false, { s with status := .InvalidArgument "merge_operator is not properly initialized.",
                       found_final_value := true })
    | some _ =>
      (true, { s with merge_in_progress := true, merge_context := s.merge_context.PushOperand v })
  | _ => (true, s)

/-- `SaveValue`: an entry of another user key ends the scan with nothing changed; otherwise the
entry's sequence number is recorded, a value or merge the aggregator covers counts as a range
deletion, and `SaveValue.onType` acts on the type -/
def SaveValue (s : Saver) (entry : List UInt8) : Bool × Saver :=
  match getVarint32Ptr entry with
  | none => (false, s)
  | some (key_length, key_ptr) =>
    let key_length := key_length.toNat
    if BytewiseComparator.Equal (key_ptr.take (key_length - 8)) s.key.user_key then
      let tag := decodeFixed64 (key_ptr.drop (key_length - 8))
      let unpacked := UnPackSequenceAndType tag
      let s := { s with seq := unpacked.1 }
      let type := ValueType.ofUInt8 unpacked.2
      let type :=
        if (type = some .kTypeValue ∨ type = some .kTypeMerge) ∧
            s.range_del_agg (key_ptr.take key_length) = true then some .kTypeRangeDeletion
        else type
      SaveValue.onType s type (getLengthPrefixedSlicePtr (key_ptr.drop key_length))
    else (false, s)

/-! ## Insert and lookup -/

/-- what `MemTable::Get` writes back: whether a final value was found, the value, the status,
the merge context and the sequence number of the last entry of the key it read -/
structure GetResult where
  found : Bool
  value : List UInt8
  status : Status
  merge_context : MergeContext
  seq : Nat

/-- the end of `MemTable::Get`: the saver's outputs, the status turned to `MergeInProgress`
where operands were gathered and no final value found -/
def Saver.finish (saver : Saver) : GetResult where
  found := saver.found_final_value
  value := saver.value
  status := if !saver.found_final_value && saver.merge_in_progress then .MergeInProgress
    else saver.status
  merge_context := saver.merge_context
  seq := saver.seq

namespace MemTable

/-- `MemTable::Add` without `allow_concurrent`: the entry goes into the range deletion table for
a range deletion and into the point table otherwise; the first sequence number, and the earliest
one where it was not set, are recorded on the first insert -/
def Add (mem : MemTable) (s : Nat) (type : ValueType) (key value : List UInt8) : MemTable :=
  let key_size := UInt32.ofNat key.length
  let val_size := UInt32.ofNat value.length
  let internal_key_size := key_size + 8
  let encoded_len : UInt32 := UInt32.ofNat (varintLength internal_key_size.toUInt64 +
    internal_key_size.toNat + varintLength val_size.toUInt64 + val_size.toNat)
  let buf := EncodeEntry s type key value
  let mem := if type = .kTypeRangeDeletion then
      { mem with range_del_table_ := SkipListRep.Insert buf mem.range_del_table_ }
    else { mem with table_ := SkipListRep.Insert buf mem.table_ }
  let mem := { mem with
    num_entries_ := mem.num_entries_ + 1
    data_size_ := mem.data_size_ + encoded_len.toNat
    num_deletes_ := if type = .kTypeDeletion then mem.num_deletes_ + 1 else mem.num_deletes_ }
  let mem := if mem.first_seqno_ = 0 then
      { mem with
        first_seqno_ := s
        earliest_seqno_ := if mem.earliest_seqno_ = kMaxSequenceNumber then s
          else mem.earliest_seqno_ }
    else mem
  if mem.is_range_del_table_empty_ ∧ type = .kTypeRangeDeletion then
    { mem with is_range_del_table_empty_ := false }
  else mem

section AddFields

variable (mem : MemTable) (s : Nat) (type : ValueType) (key value : List UInt8)

@[simp] theorem moptions_Add : (mem.Add s type key value).moptions_ = mem.moptions_ := by
  simp only [Add]; split_ifs <;> rfl

theorem table_Add : (mem.Add s type key value).table_ =
    if type = .kTypeRangeDeletion then mem.table_
    else SkipListRep.Insert (EncodeEntry s type key value) mem.table_ := by
  simp only [Add]; split_ifs <;> rfl

theorem first_seqno_Add : (mem.Add s type key value).first_seqno_ =
    if mem.first_seqno_ = 0 then s else mem.first_seqno_ := by
  simp only [Add]; split_ifs <;> rfl

@[simp] theorem num_entries_Add : (mem.Add s type key value).num_entries_ = mem.num_entries_ + 1 := by
  simp only [Add]; split_ifs <;> rfl

end AddFields

/-- `MemTable::Get`, without a prefix bloom filter: an empty memtable answers at once; otherwise
`SaveValue` runs over the point table from the lookup key on -/
def Get (mem : MemTable) (key : LookupKey) (value : List UInt8) (s : Status)
    (merge_context : MergeContext) (range_del_agg : List UInt8 → Bool) (seq : Nat) : GetResult :=
  if mem.IsEmpty then ⟨false, value, s, merge_context, seq⟩
  else
    let saver : Saver :=
      { status := s, key, found_final_value := false,
        merge_in_progress := s.IsMergeInProgress, value, seq := kMaxSequenceNumber,
        merge_operator := mem.moptions_.merge_operator, merge_context, range_del_agg }
    (SkipListRep.Get mem.table_ key saver SaveValue).finish

/-! ## Reading an entry back -/

section Entry

variable {s : Nat} {type : ValueType} {key value : List UInt8}

theorem EncodeEntry_eq (hk : key.length + 8 < 2 ^ 32) (hv : value.length < 2 ^ 32) :
    EncodeEntry s type key value =
      putLengthPrefixedSlice [] (AppendInternalKey [] ⟨key, s, type⟩) ++
        putLengthPrefixedSlice [] value := by
  have hsize : UInt32.ofNat key.length + 8 =
      UInt32.ofNat (AppendInternalKey [] ⟨key, s, type⟩).length := by
    apply UInt32.toNat_inj.mp
    simp [AppendInternalKey, UInt32.toNat_add]
  have hkey : key.take (UInt32.ofNat key.length).toNat = key :=
    List.take_of_length_le (by simp; omega)
  have hval : value.take (UInt32.ofNat value.length).toNat = value :=
    List.take_of_length_le (by simp; omega)
  simp only [EncodeEntry, hsize, hkey, hval, putLengthPrefixedSlice_eq, AppendInternalKey,
    List.nil_append, List.append_assoc]

/-- the internal key of an entry, as the comparator and `SaveValue` read it -/
theorem getLengthPrefixedSlicePtr_EncodeEntry (hk : key.length + 8 < 2 ^ 32)
    (hv : value.length < 2 ^ 32) :
    getLengthPrefixedSlicePtr (EncodeEntry s type key value) =
      AppendInternalKey [] ⟨key, s, type⟩ := by
  rw [EncodeEntry_eq hk hv]
  exact getLengthPrefixedSlicePtr_put _ _ (by simpa [AppendInternalKey] using hk)

/-- an entry sorts by its user key, then by its sequence number and type decreasing -/
theorem entryOrder_EncodeEntry (hs : s ≤ kMaxSequenceNumber) (hk : key.length + 8 < 2 ^ 32)
    (hv : value.length < 2 ^ 32) :
    entryOrder (EncodeEntry s type key value) =
      toLex (key.map UInt8.toNat, OrderDual.toDual (s * 256 + type.toUInt8.toNat)) := by
  rw [entryOrder, getLengthPrefixedSlicePtr_EncodeEntry hk hv]
  exact InternalKeyComparator.order_AppendInternalKey ⟨key, s, type⟩ hs

/-- the length prefix `SaveValue` reads, and the internal key and value after it -/
theorem getVarint32Ptr_EncodeEntry (hk : key.length + 8 < 2 ^ 32) (hv : value.length < 2 ^ 32) :
    getVarint32Ptr (EncodeEntry s type key value) =
      some (UInt32.ofNat (key.length + 8),
        AppendInternalKey [] ⟨key, s, type⟩ ++ putLengthPrefixedSlice [] value) := by
  have hget := getVarint32_encodeVarint32 (UInt32.ofNat (AppendInternalKey [] ⟨key, s, type⟩).length)
    (AppendInternalKey [] ⟨key, s, type⟩ ++ putLengthPrefixedSlice [] value)
  rw [getVarint32] at hget
  rw [EncodeEntry_eq hk hv, putLengthPrefixedSlice_eq, List.nil_append, List.append_assoc, hget]
  simp [AppendInternalKey]

/-- **What `SaveValue` does with an entry.**  Of another user key it stops with nothing changed;
of the lookup's user key it records the sequence number and acts on the type, a range deletion
where the aggregator covers a value or merge -/
theorem SaveValue_EncodeEntry (saver : Saver) (hs : s ≤ kMaxSequenceNumber)
    (hk : key.length + 8 < 2 ^ 32) (hv : value.length < 2 ^ 32) :
    SaveValue saver (EncodeEntry s type key value) =
      if key = saver.key.user_key then
        SaveValue.onType { saver with seq := s }
          (if (type = .kTypeValue ∨ type = .kTypeMerge) ∧
              saver.range_del_agg (AppendInternalKey [] ⟨key, s, type⟩) = true then
            some .kTypeRangeDeletion
          else some type) value
      else (false, saver) := by
  have hlen : (UInt32.ofNat (key.length + 8)).toNat = key.length + 8 := by
    rw [UInt32.toNat_ofNat']; exact Nat.mod_eq_of_lt hk
  have hikey : AppendInternalKey [] ⟨key, s, type⟩ =
      key ++ encodeFixed64 (PackSequenceAndType s type) := by
    simp [AppendInternalKey]
  have hvalue : getLengthPrefixedSlicePtr (putLengthPrefixedSlice [] value) = value := by
    simpa using getLengthPrefixedSlicePtr_put value [] hv
  have hint : (AppendInternalKey [] ⟨key, s, type⟩ ++ putLengthPrefixedSlice [] value).take
      (key.length + 8) = AppendInternalKey [] ⟨key, s, type⟩ := by
    rw [List.take_left']; simp [AppendInternalKey]
  have hrest : (AppendInternalKey [] ⟨key, s, type⟩ ++ putLengthPrefixedSlice [] value).drop
      (key.length + 8) = putLengthPrefixedSlice [] value := by
    rw [List.drop_left']; simp [AppendInternalKey]
  have hukey : (AppendInternalKey [] ⟨key, s, type⟩ ++ putLengthPrefixedSlice [] value).take
      (key.length + 8 - 8) = key := by
    simp [hikey]
  have htag : decodeFixed64 ((AppendInternalKey [] ⟨key, s, type⟩ ++
      putLengthPrefixedSlice [] value).drop (key.length + 8 - 8)) = PackSequenceAndType s type := by
    simp [hikey, decodeFixed64_encodeFixed64]
  rw [SaveValue, getVarint32Ptr_EncodeEntry hk hv]
  simp only [hlen, hint, hrest, hukey, htag, hvalue, UnPackSequenceAndType_Pack hs,
    ValueType.ofUInt8_toUInt8, BytewiseComparator.Equal, beq_iff_eq, Option.some.injEq]

end Entry

end MemTable

end RocksDB
