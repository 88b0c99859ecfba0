import RocksDB.Db.WriteBatch
import RocksDB.Db.MergeHelper
import RocksDB.Db.PointLookup
import RocksDB.Lib.Sorted

/-!
# utilities/write_batch_with_index: reading a key back from an indexed batch

A `WriteBatchWithIndex` keeps a `WriteBatch` and a skip list of index entries, one per record
(with `overwrite_key` the last one per key), ordered by column family, key and offset.

* `GetEntryFromDataOffset`   the record at an offset read back with `ReadRecordFromWriteBatch`;
* `seek`, `seekToLast`, `Valid`  the `WBWIIteratorImpl` of a column family over the skip list, a
                             position being `none` where the skip list iterator is `nullptr`;
* `forwardLoop`, `scanBack`  the two loops of `GetFromBatch`: forward past the entries of the
                             key, then back over them, newest first, gathering merge operands
                             down to a `Put` or a `Delete`;
* `GetFromBatch`             the result, with the full merge of the operands onto the entry
                             value, which a `Delete` leaves empty, and `GetFromBatchAndDB`.
-/

namespace RocksDB

/-- `WriteType` -/
inductive WriteType where
  | kPutRecord | kMergeRecord | kDeleteRecord | kSingleDeleteRecord | kDeleteRangeRecord
  | kLogDataRecord | kXIDRecord
  deriving DecidableEq, Repr

/-- `WriteEntry` -/
structure WriteEntry where
  type : WriteType
  key : List UInt8
  value : List UInt8
  deriving DecidableEq, Repr

/-- the `WriteType` of a record tag, `none` for the tags the `switch` rejects -/
def WriteType.ofTag (tag : UInt8) : Option WriteType :=
  match ValueType.ofUInt8 tag with
  | some .kTypeColumnFamilyValue | some .kTypeValue => some .kPutRecord
  | some .kTypeColumnFamilyDeletion | some .kTypeDeletion => some .kDeleteRecord
  | some .kTypeColumnFamilySingleDeletion | some .kTypeSingleDeletion => some .kSingleDeleteRecord
  | some .kTypeColumnFamilyRangeDeletion | some .kTypeRangeDeletion => some .kDeleteRangeRecord
  | some .kTypeColumnFamilyMerge | some .kTypeMerge => some .kMergeRecord
  | some .kTypeLogData => some .kLogDataRecord
  | some .kTypeBeginPrepareXID | some .kTypeEndPrepareXID | some .kTypeCommitXID
  | some .kTypeRollbackXID => some .kXIDRecord
  | _ => none

/-- `ReadableWriteBatch::GetEntryFromDataOffset`.  The source does not look at the status of
`ReadRecordFromWriteBatch`, leaving the out-parameters undefined where a record does not read;
the model answers that status there. -/
def GetEntryFromDataOffset (b : WriteBatch) (data_offset : Nat) : Except Status WriteEntry :=
  if data_offset = b.GetDataSize then .error Status.NotFound
  else if data_offset > b.GetDataSize then
    .error (Status.InvalidArgument "data offset exceed write batch size")
  else
    match readRecordFromWriteBatch (b.rep.drop data_offset) ⟨[], [], [], []⟩ with
    | .error e => .error e
    | .ok (tag, _, slots, _) =>
      match WriteType.ofTag tag with
      | some type => .ok ⟨type, slots.key, slots.value⟩
      | none => .error (Status.Corruption "unknown WriteBatch tag")

/-- `WriteBatchIndexEntry`: where the record starts, its column family, and its key, the slice
`ReadKeyFromWriteBatchEntry` finds in the record -/
structure WriteBatchIndexEntry where
  offset : Nat
  column_family : UInt32
  key : List UInt8
  deriving DecidableEq, Repr

/-- the order `WriteBatchEntryComparator` puts entries in over `BytewiseComparator`: column
family, key, offset -/
def WriteBatchIndexEntry.order (e : WriteBatchIndexEntry) : Lex (ℕ × Lex (List ℕ × ℕ)) :=
  toLex (e.column_family.toNat, toLex (e.key.map UInt8.toNat, e.offset))

/-- `WriteBatchWithIndex::Rep` -/
structure WriteBatchWithIndex where
  write_batch : WriteBatch
  skip_list : List WriteBatchIndexEntry
  overwrite_key : Bool
  last_entry_offset : Nat

/-- the parts of a `ColumnFamilyHandle` the lookups read -/
structure ColumnFamilyHandle where
  id : UInt32
  merge_operator : Option MergeOperator

/-- `WriteBatchWithIndexInternal::Result` -/
inductive WriteBatchWithIndexInternal.Result where
  | kFound | kDeleted | kNotFound | kMergeInProgress | kError
  deriving DecidableEq, Repr

namespace WriteBatchWithIndex

def new (overwrite_key : Bool) (max_bytes : Nat) : WriteBatchWithIndex :=
  ⟨WriteBatch.new max_bytes, [], overwrite_key, 0⟩

/-! ## The iterator of a column family -/

/-- `WBWIIteratorImpl::Seek`: the first entry not below the search entry `(key, cf)`, whose
offset is 0 -/
def seek (wbwi : WriteBatchWithIndex) (column_family_id : UInt32) (key : List UInt8) :
    Option Nat :=
  let i := wbwi.skip_list.findIdx fun e =>
    decide (toLex (column_family_id.toNat, toLex (key.map UInt8.toNat, 0)) ≤ e.order)
  if i < wbwi.skip_list.length then some i else none

/-- `WBWIIteratorImpl::SeekToLast`: the entry before the first of column family
`column_family_id_ + 1` (in 32 bits), which the search entry `kFlagMin` precedes, or the last
entry where there is none -/
def seekToLast (wbwi : WriteBatchWithIndex) (column_family_id : UInt32) : Option Nat :=
  let i := wbwi.skip_list.findIdx fun e => decide ((column_family_id + 1).toNat ≤ e.column_family.toNat)
  if i < wbwi.skip_list.length then (if i = 0 then none else some (i - 1))
  else if wbwi.skip_list.length = 0 then none else some (wbwi.skip_list.length - 1)

/-- `WBWIIteratorImpl::Valid`: an entry of the column family -/
def Valid (wbwi : WriteBatchWithIndex) (column_family_id : UInt32) : Option Nat → Bool
  | some i => (wbwi.skip_list[i]?.map fun e => e.column_family == column_family_id).getD false
  | none => false

/-- `Prev` from a valid position -/
def prev : Option Nat → Option Nat
  | some (i + 1) => some i
  | _ => none

/-- the first loop of `GetFromBatch`: `Next` while the entry is of the column family and has the
key, over the entries from position `i` on (`Entry()` asserts that the record reads; the model
stops where it does not) -/
def forwardLoop (wbwi : WriteBatchWithIndex) (column_family_id : UInt32) (key : List UInt8) :
    Nat → List WriteBatchIndexEntry → Option Nat
  | _, [] => none
  | i, e :: rest =>
    if e.column_family = column_family_id then
      match GetEntryFromDataOffset wbwi.write_batch e.offset with
      | .ok entry => if entry.key = key then forwardLoop wbwi column_family_id key (i + 1) rest
        else some i
      | .error _ => some i
    else some i

/-- what the backward loop of `GetFromBatch` keeps -/
structure ScanState where
  result : WriteBatchWithIndexInternal.Result
  merge_context : MergeContext
  entry_value : List UInt8
  s : Status

/-- one pass of the backward loop at position `i`, and whether it goes on with `Prev` -/
def scanStep (wbwi : WriteBatchWithIndex) (column_family_id : UInt32) (key : List UInt8)
    (overwrite_key : Bool) (st : ScanState) (i : Nat) : ScanState × Bool :=
  match wbwi.skip_list[i]? with
  | none => (st, false)
  | some e =>
    if e.column_family ≠ column_family_id then (st, false)
    else match GetEntryFromDataOffset wbwi.write_batch e.offset with
      | .error _ => (st, false)
      | .ok entry =>
        -- "Unexpected error or we've reached a different next key"
        if entry.key ≠ key then (st, false)
        else
          let st : ScanState := match entry.type with
            | .kPutRecord => { st with result := .kFound, entry_value := entry.value }
            | .kMergeRecord =>
              { st with result := .kMergeInProgress,
                        merge_context := st.merge_context.PushOperand entry.value }
            | .kDeleteRecord | .kSingleDeleteRecord => { st with result := .kDeleted }
            | .kLogDataRecord | .kXIDRecord => st
            -- `ToString(entry.type)` of `kDeleteRangeRecord`, the one type left
            | .kDeleteRangeRecord =>
              { st with result := .kError,
                        s := Status.Corruption "Unexpected entry in WriteBatchWithIndex:: 4" }
          if st.result = .kFound ∨ st.result = .kDeleted ∨ st.result = .kError then (st, false)
          else if st.result = .kMergeInProgress ∧ overwrite_key = true then (st, false)
          else (st, true)

/-- the backward loop of `GetFromBatch` from position `i` down -/
def scanBack (wbwi : WriteBatchWithIndex) (column_family_id : UInt32) (key : List UInt8)
    (overwrite_key : Bool) : Nat → ScanState → ScanState
  | 0, st => (wbwi.scanStep column_family_id key overwrite_key st 0).1
  | i + 1, st =>
    let r := wbwi.scanStep column_family_id key overwrite_key st (i + 1)
    if r.2 then scanBack wbwi column_family_id key overwrite_key i r.1 else r.1

/-- `WriteBatchWithIndexInternal::GetFromBatch`: the result, the merge context, the string
`value` points to, and `*s` -/
def GetFromBatch (batch : WriteBatchWithIndex) (column_family : Option ColumnFamilyHandle)
    (key : List UInt8) (merge_context : MergeContext) (value : List UInt8)
    (overwrite_key : Bool) : WriteBatchWithIndexInternal.Result × MergeContext × List UInt8 × Status :=
  let cf_id := (column_family.map (·.id)).getD 0
  let pos := match batch.seek cf_id key with
    | some i => batch.forwardLoop cf_id key i (batch.skip_list.drop i)
    | none => none
  -- "Read past end of results.  Reposition on last result."
  let start := if batch.Valid cf_id pos then prev pos else batch.seekToLast cf_id
  let st0 : ScanState := ⟨.kNotFound, merge_context, [], Status.OK⟩
  let st := match start with
    | some i => batch.scanBack cf_id key overwrite_key i st0
    | none => st0
  if st.s.ok ∧ (st.result = .kFound ∨ st.result = .kDeleted) then
    if st.merge_context.GetNumOperands > 0 then
      match column_family with
      | none => (.kError, st.merge_context, value, Status.InvalidArgument "Must provide a column_family")
      | some cfh =>
        match cfh.merge_operator with
        | some merge_operator =>
          -- the merge reads `&entry_value`, the empty slice where the base is a deletion
          let operands := st.merge_context.GetOperands
          let r := TimedFullMerge (some merge_operator) key (some st.entry_value) operands.1 value
          (if r.1.ok then .kFound else .kError, operands.2, r.2, r.1)
        | none =>
          (.kError, st.merge_context, value,
            Status.InvalidArgument "Options::merge_operator must be set")
    else if st.result = .kFound then (st.result, st.merge_context, st.entry_value, st.s)
    else (st.result, st.merge_context, value, st.s)
  else (st.result, st.merge_context, value, st.s)

/-- `WriteBatchWithIndex::GetFromBatchAndDB`, with what `db->Get` answers: its status and the
value it leaves in `*value` -/
def GetFromBatchAndDB (batch : WriteBatchWithIndex) (column_family : ColumnFamilyHandle)
    (key : List UInt8) (db_get : Status × List UInt8) (value : List UInt8) :
    Status × List UInt8 :=
  let r := batch.GetFromBatch (some column_family) key MergeContext.empty [] batch.overwrite_key
  match r.1 with
  | .kFound => (r.2.2.2, r.2.2.1)
  | .kDeleted => (Status.NotFound, value)
  | .kError => (r.2.2.2, value)
  | result =>
    if result = .kMergeInProgress ∧ batch.overwrite_key = true then (Status.MergeInProgress, value)
    else
      -- "Did not find key in batch OR could not resolve Merges.  Try DB."
      let (s, value) := db_get
      if (s.ok || s.IsNotFound) && result = .kMergeInProgress then
        let merge_data := if s.ok then some value else none
        match column_family.merge_operator with
        | some merge_operator =>
          TimedFullMerge (some merge_operator) key merge_data r.2.1.GetOperands.1 value
        | none => (Status.InvalidArgument "Options::merge_operator must be set", value)
      else (s, value)

/-! ## Writing -/

/-- `UpdateExistingEntryWithCfId`: with `overwrite_key`, the entry of the key points to the last
record instead; `none` where there is no such entry -/
def UpdateExistingEntryWithCfId (wbwi : WriteBatchWithIndex) (column_family_id : UInt32)
    (key : List UInt8) : Option WriteBatchWithIndex :=
  if !wbwi.overwrite_key then none
  else
    match wbwi.seek column_family_id key with
    | none => none
    | some i =>
      match wbwi.skip_list[i]? with
      | none => none
      | some e =>
        if e.column_family ≠ column_family_id then none
        else match GetEntryFromDataOffset wbwi.write_batch e.offset with
          | .ok entry =>
            if entry.key = key then
              let updated := { e with offset := wbwi.last_entry_offset }
              some { wbwi with skip_list := wbwi.skip_list.set i updated }
            else none
          | .error _ => none

/-- `AddNewEntry`: an entry for the record at `last_entry_offset`, into the skip list -/
def AddNewEntry (wbwi : WriteBatchWithIndex) (column_family_id : UInt32) (key : List UInt8) :
    WriteBatchWithIndex :=
  let index_entry : WriteBatchIndexEntry := ⟨wbwi.last_entry_offset, column_family_id, key⟩
  { wbwi with skip_list := wbwi.skip_list.insertByKey WriteBatchIndexEntry.order index_entry }

def AddOrUpdateIndex (wbwi : WriteBatchWithIndex) (column_family_id : UInt32)
    (key : List UInt8) : WriteBatchWithIndex :=
  (wbwi.UpdateExistingEntryWithCfId column_family_id key).getD
    (wbwi.AddNewEntry column_family_id key)

/-- the body the writers share: `SetLastEntryOffset`, the write to the batch, and the index
entry of `key` where it succeeds -/
def writeIndexed (wbwi : WriteBatchWithIndex) (column_family_id : UInt32) (key : List UInt8)
    (write : WriteBatch → WriteBatch × Status) : WriteBatchWithIndex × Status :=
  let wbwi := { wbwi with last_entry_offset := wbwi.write_batch.GetDataSize }
  let r := write wbwi.write_batch
  let wbwi := { wbwi with write_batch := r.1 }
  if r.2.ok then (wbwi.AddOrUpdateIndex column_family_id key, r.2) else (wbwi, r.2)

def Put (wbwi : WriteBatchWithIndex) (column_family_id : UInt32) (key value : List UInt8) :
    WriteBatchWithIndex × Status :=
  wbwi.writeIndexed column_family_id key (WriteBatchInternal.Put · column_family_id key value)

def Delete (wbwi : WriteBatchWithIndex) (column_family_id : UInt32) (key : List UInt8) :
    WriteBatchWithIndex × Status :=
  wbwi.writeIndexed column_family_id key (WriteBatchInternal.Delete · column_family_id key)

def SingleDelete (wbwi : WriteBatchWithIndex) (column_family_id : UInt32) (key : List UInt8) :
    WriteBatchWithIndex × Status :=
  wbwi.writeIndexed column_family_id key (WriteBatchInternal.SingleDelete · column_family_id key)

def DeleteRange (wbwi : WriteBatchWithIndex) (column_family_id : UInt32)
    (begin_key end_key : List UInt8) : WriteBatchWithIndex × Status :=
  wbwi.writeIndexed column_family_id begin_key
    (WriteBatchInternal.DeleteRange · column_family_id begin_key end_key)

def Merge (wbwi : WriteBatchWithIndex) (column_family_id : UInt32) (key value : List UInt8) :
    WriteBatchWithIndex × Status :=
  wbwi.writeIndexed column_family_id key (WriteBatchInternal.Merge · column_family_id key value)

/-- a `Delete` of key `[1]` and then a `Merge` of `[120]` (`"x"`), read back with the string
append operator of the repository: `GetFromBatch` merges onto the empty entry value, `",x"`, where
a lookup of the same versions merges onto no existing value, `"x"` -/
theorem GetFromBatch_merge_over_delete :
    ((((new false 0).Delete 0 [1]).1.Merge 0 [1] [120]).1.GetFromBatch
        (some ⟨0, some CreateStringAppendOperator⟩) [1] MergeContext.empty [] false).1 =
        .kFound ∧
      ((((new false 0).Delete 0 [1]).1.Merge 0 [1] [120]).1.GetFromBatch
        (some ⟨0, some CreateStringAppendOperator⟩) [1] MergeContext.empty [] false).2.2.1 =
        [44, 120] ∧
      lookupSpec CreateStringAppendOperator [1] []
        [⟨2, .kTypeMerge, [1], [120]⟩, ⟨1, .kTypeDeletion, [1], []⟩] = .found [120] :=
  ⟨by decide, by decide, rfl⟩

end WriteBatchWithIndex

end RocksDB
