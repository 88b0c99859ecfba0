import RocksDB.Db.Dbformat
import RocksDB.Util.Status

/-!
# db/write_batch.cc: the batch format, its writers and `WriteBatch::Iterate`

`rep_` is a fixed64 sequence number, a fixed32 count and the records:

```
kTypeValue varstring varstring                 kTypeColumnFamilyValue varint32 varstring varstring
kTypeDeletion varstring                        kTypeColumnFamilyDeletion varint32 varstring
kTypeSingleDeletion varstring                  kTypeColumnFamilySingleDeletion varint32 varstring
kTypeRangeDeletion varstring varstring         kTypeColumnFamilyRangeDeletion varint32 ...
kTypeMerge varstring varstring                 kTypeColumnFamilyMerge varint32 varstring varstring
kTypeLogData varstring      kTypeBeginPrepareXID      kTypeEndPrepareXID varstring      ...
```

* `addRecord`             the body that `WriteBatchInternal::Put`, `Delete`, `SingleDelete`,
                          `DeleteRange` and `Merge` share: count plus one, the plain tag (column
                          family 0) or the column-family tag and id, the slices, the content
                          flag, and `LocalSavePoint::commit`;
* `readRecordFromWriteBatch`   the fallthrough `switch` of `ReadRecordFromWriteBatch`; the slots
                          a record does not set keep what the previous record left in them;
* `Handler`               the callbacks of `WriteBatch::Handler` over a handler state `σ`;
* `WriteBatch.Iterate`    the loop of `WriteBatch::Iterate` and its final count check.

`Count()` is the fixed32 at offset 8 read as an `int`: an `Int32`, and `SetCount(b, Count(b) + 1)`
adds in 32 bits.  Assertions are not modelled (release build).
-/

namespace RocksDB

/-! ## the batch -/

/-- `ContentFlags` -/
def DEFERRED : UInt32 := (1 : UInt32) <<< 0
def HAS_PUT : UInt32 := (1 : UInt32) <<< 1
def HAS_DELETE : UInt32 := (1 : UInt32) <<< 2
def HAS_SINGLE_DELETE : UInt32 := (1 : UInt32) <<< 3
def HAS_MERGE : UInt32 := (1 : UInt32) <<< 4
def HAS_BEGIN_PREPARE : UInt32 := (1 : UInt32) <<< 5
def HAS_END_PREPARE : UInt32 := (1 : UInt32) <<< 6
def HAS_COMMIT : UInt32 := (1 : UInt32) <<< 7
def HAS_ROLLBACK : UInt32 := (1 : UInt32) <<< 8
def HAS_DELETE_RANGE : UInt32 := (1 : UInt32) <<< 9

structure SavePoint where
  size : Nat
  count : Int32
  content_flags : UInt32
  deriving DecidableEq, Repr

@[ext] structure WriteBatch where
  save_points : List SavePoint
  wal_term_point : SavePoint
  content_flags : UInt32
  max_bytes : Nat
  rep : List UInt8
  deriving DecidableEq, Repr

def kHeader : Nat := 12

/-- `WriteBatch(reserved_bytes, max_bytes)`: `rep_.resize(kHeader)` fills the header with zeros;
`reserved_bytes` only reserves capacity -/
def WriteBatch.new (max_bytes : Nat) : WriteBatch :=
  ⟨[], ⟨0, 0, 0⟩, 0, max_bytes, List.replicate kHeader 0⟩

namespace WriteBatchInternal

def Count (b : WriteBatch) : Int32 := (decodeFixed32 (b.rep.drop 8)).toInt32

def SetCount (b : WriteBatch) (n : Int32) : WriteBatch :=
  { b with rep := b.rep.take 8 ++ encodeFixed32 n.toUInt32 ++ b.rep.drop 12 }

end WriteBatchInternal

def WriteBatch.Count (b : WriteBatch) : Int32 := WriteBatchInternal.Count b
def WriteBatch.GetDataSize (b : WriteBatch) : Nat := b.rep.length

/-- `LocalSavePoint::commit()`: past `max_bytes_` the record just written is undone -/
def localSavePointCommit (save : SavePoint) (b : WriteBatch) : WriteBatch × Status :=
  if b.max_bytes ≠ 0 ∧ b.rep.length > b.max_bytes then
    ({ WriteBatchInternal.SetCount { b with rep := b.rep.take save.size } save.count with
        content_flags := save.content_flags }, Status.MemoryLimit)
  else (b, Status.OK)

/-- the body of `WriteBatchInternal::Put/Delete/SingleDelete/DeleteRange/Merge` -/
def addRecord (b : WriteBatch) (column_family_id : UInt32) (plainTag cfTag : ValueType)
    (slices : List (List UInt8)) (flag : UInt32) : WriteBatch × Status :=
  let save : SavePoint := ⟨b.GetDataSize, b.Count, b.content_flags⟩
  let b := WriteBatchInternal.SetCount b (WriteBatchInternal.Count b + 1)
  let rep := if column_family_id = 0 then b.rep ++ [plainTag.toUInt8]
    else putVarint32 (b.rep ++ [cfTag.toUInt8]) column_family_id
  localSavePointCommit save
    { b with rep := slices.foldl putLengthPrefixedSlice rep, content_flags := b.content_flags ||| flag }

namespace WriteBatchInternal

def Put (b : WriteBatch) (column_family_id : UInt32) (key value : List UInt8) :
    WriteBatch × Status :=
  addRecord b column_family_id .kTypeValue .kTypeColumnFamilyValue [key, value] HAS_PUT

def Delete (b : WriteBatch) (column_family_id : UInt32) (key : List UInt8) :
    WriteBatch × Status :=
  addRecord b column_family_id .kTypeDeletion .kTypeColumnFamilyDeletion [key] HAS_DELETE

def SingleDelete (b : WriteBatch) (column_family_id : UInt32) (key : List UInt8) :
    WriteBatch × Status :=
  addRecord b column_family_id .kTypeSingleDeletion .kTypeColumnFamilySingleDeletion [key]
    HAS_SINGLE_DELETE

def DeleteRange (b : WriteBatch) (column_family_id : UInt32) (begin_key end_key : List UInt8) :
    WriteBatch × Status :=
  addRecord b column_family_id .kTypeRangeDeletion .kTypeColumnFamilyRangeDeletion
    [begin_key, end_key] HAS_DELETE_RANGE

def Merge (b : WriteBatch) (column_family_id : UInt32) (key value : List UInt8) :
    WriteBatch × Status :=
  addRecord b column_family_id .kTypeMerge .kTypeColumnFamilyMerge [key, value] HAS_MERGE

end WriteBatchInternal

/-- `WriteBatch::PutLogData`: a blob record, not counted and with no content flag -/
def WriteBatch.PutLogData (b : WriteBatch) (blob : List UInt8) : WriteBatch × Status :=
  let save : SavePoint := ⟨b.GetDataSize, b.Count, b.content_flags⟩
  localSavePointCommit save
    { b with rep := putLengthPrefixedSlice (b.rep ++ [ValueType.kTypeLogData.toUInt8]) blob }

/-! ## reading records -/

/-- the out-parameters `key`, `value`, `blob`, `xid` of `ReadRecordFromWriteBatch` -/
structure RecordSlots where
  key : List UInt8
  value : List UInt8
  blob : List UInt8
  xid : List UInt8
  deriving DecidableEq, Repr

/-- one length-prefixed slice, or the record's corruption -/
def getSliceOr (msg : String) (input : List UInt8) : Except Status (List UInt8 × List UInt8) :=
  match getLengthPrefixedSlice input with
  | some r => .ok r
  | none => .error (Status.Corruption msg)

/-- the column-family id of a `kTypeColumnFamily...` record, or the record's corruption -/
def getCFOr (msg : String) (input : List UInt8) : Except Status (UInt32 × List UInt8) :=
  match getVarint32 input with
  | some r => .ok r
  | none => .error (Status.Corruption msg)

/-- `GetLengthPrefixedSlice(input, key)` and, for two-slice records, `(input, value)` -/
def readKey (msg : String) (tag : UInt8) (cf : UInt32) (slots : RecordSlots) (input : List UInt8) :
    Except Status (UInt8 × UInt32 × RecordSlots × List UInt8) :=
  match getSliceOr msg input with
  | .ok (key, rest) => .ok (tag, cf, { slots with key := key }, rest)
  | .error e => .error e

def readKeyValue (msg : String) (tag : UInt8) (cf : UInt32) (slots : RecordSlots)
    (input : List UInt8) : Except Status (UInt8 × UInt32 × RecordSlots × List UInt8) :=
  match getSliceOr msg input with
  | .ok (key, rest) =>
    match getSliceOr msg rest with
    | .ok (value, rest) => .ok (tag, cf, { slots with key := key, value := value }, rest)
    | .error e => .error e
  | .error e => .error e

/-- the column-family variant of a record: read the id, then fall through -/
def withCF (msg : String) (input : List UInt8)
    (k : UInt32 → List UInt8 → Except Status (UInt8 × UInt32 × RecordSlots × List UInt8)) :
    Except Status (UInt8 × UInt32 × RecordSlots × List UInt8) :=
  match getCFOr msg input with
  | .ok (cf, rest) => k cf rest
  | .error e => .error e

/-- `ReadRecordFromWriteBatch`: the tag byte, then its fields; `column_family` is 0 unless the
tag carries one -/
def readRecordFromWriteBatch (input : List UInt8) (slots : RecordSlots) :
    Except Status (UInt8 × UInt32 × RecordSlots × List UInt8) :=
  match input with
  | [] => .error (Status.Corruption "unknown WriteBatch tag")
  | tag :: input =>
    match ValueType.ofUInt8 tag with
    | some .kTypeColumnFamilyValue =>
      withCF "bad WriteBatch Put" input (readKeyValue "bad WriteBatch Put" tag · slots)
    | some .kTypeValue => readKeyValue "bad WriteBatch Put" tag 0 slots input
    | some .kTypeColumnFamilyDeletion | some .kTypeColumnFamilySingleDeletion =>
      withCF "bad WriteBatch Delete" input (readKey "bad WriteBatch Delete" tag · slots)
    | some .kTypeDeletion | some .kTypeSingleDeletion =>
      readKey "bad WriteBatch Delete" tag 0 slots input
    | some .kTypeColumnFamilyRangeDeletion =>
      withCF "bad WriteBatch DeleteRange" input (readKeyValue "bad WriteBatch DeleteRange" tag · slots)
    | some .kTypeRangeDeletion => readKeyValue "bad WriteBatch DeleteRange" tag 0 slots input
    | some .kTypeColumnFamilyMerge =>
      withCF "bad WriteBatch Merge" input (readKeyValue "bad WriteBatch Merge" tag · slots)
    | some .kTypeMerge => readKeyValue "bad WriteBatch Merge" tag 0 slots input
    | some .kTypeLogData =>
      match getSliceOr "bad WriteBatch Blob" input with
      | .ok (blob, rest) => .ok (tag, 0, { slots with blob := blob }, rest)
      | .error e => .error e
    | some .kTypeNoop | some .kTypeBeginPrepareXID => .ok (tag, 0, slots, input)
    | some .kTypeEndPrepareXID =>
      match getSliceOr "bad EndPrepare XID" input with
      | .ok (xid, rest) => .ok (tag, 0, { slots with xid := xid }, rest)
      | .error e => .error e
    | some .kTypeCommitXID =>
      match getSliceOr "bad Commit XID" input with
      | .ok (xid, rest) => .ok (tag, 0, { slots with xid := xid }, rest)
      | .error e => .error e
    | some .kTypeRollbackXID =>
      match getSliceOr "bad Rollback XID" input with
      | .ok (xid, rest) => .ok (tag, 0, { slots with xid := xid }, rest)
      | .error e => .error e
    | _ => .error (Status.Corruption "unknown WriteBatch tag")

theorem getSliceOr_suffix {msg : String} {input v rest : List UInt8}
    (h : getSliceOr msg input = .ok (v, rest)) : rest.length < input.length := by
  rw [getSliceOr] at h
  split at h
  · cases h; exact getLengthPrefixedSlice_suffix ‹_›
  · cases h

theorem getCFOr_suffix {msg : String} {input rest : List UInt8} {cf : UInt32}
    (h : getCFOr msg input = .ok (cf, rest)) : rest.length < input.length := by
  rw [getCFOr] at h
  split at h
  · cases h; exact getVarint32_suffix ‹_›
  · cases h

theorem readKey_suffix {msg : String} {tag tag' : UInt8} {cf cf' : UInt32}
    {slots slots' : RecordSlots} {input rest : List UInt8}
    (h : readKey msg tag cf slots input = .ok (tag', cf', slots', rest)) :
    rest.length < input.length := by
  rw [readKey] at h
  split at h
  · cases h; exact getSliceOr_suffix ‹_›
  · cases h

theorem readKeyValue_suffix {msg : String} {tag tag' : UInt8} {cf cf' : UInt32}
    {slots slots' : RecordSlots} {input rest : List UInt8}
    (h : readKeyValue msg tag cf slots input = .ok (tag', cf', slots', rest)) :
    rest.length < input.length := by
  rw [readKeyValue] at h
  split at h
  · rename_i key r1 h1
    split at h
    · cases h
      have := getSliceOr_suffix h1
      have := getSliceOr_suffix ‹_›
      omega
    · cases h
  · cases h

theorem withCF_suffix {msg : String} {input rest : List UInt8} {tag : UInt8} {cf : UInt32}
    {slots : RecordSlots}
    {k : UInt32 → List UInt8 → Except Status (UInt8 × UInt32 × RecordSlots × List UInt8)}
    (hk : ∀ c i r t c' s', k c i = .ok (t, c', s', r) → r.length < i.length)
    (h : withCF msg input k = .ok (tag, cf, slots, rest)) : rest.length < input.length := by
  rw [withCF] at h
  split at h
  · have := getCFOr_suffix ‹_›
    have := hk _ _ _ _ _ _ h
    omega
  · cases h

/-- every record is read from a proper suffix: the loop of `Iterate` makes progress -/
theorem readRecordFromWriteBatch_suffix {input rest : List UInt8} {slots slots' : RecordSlots}
    {tag : UInt8} {cf : UInt32}
    (h : readRecordFromWriteBatch input slots = .ok (tag, cf, slots', rest)) :
    rest.length < input.length := by
  cases input with
  | nil => simp [readRecordFromWriteBatch] at h
  | cons t input =>
    have hkv := fun msg c i r t' c' s' (hh : readKeyValue msg t c slots i = .ok (t', c', s', r)) =>
      readKeyValue_suffix hh
    have hk := fun msg c i r t' c' s' (hh : readKey msg t c slots i = .ok (t', c', s', r)) =>
      readKey_suffix hh
    -- the tag byte is always consumed; the fields after it are a suffix
    suffices rest.length ≤ input.length by simp only [List.length_cons]; omega
    rw [readRecordFromWriteBatch] at h
    split at h <;> first
      | exact Nat.le_of_lt (withCF_suffix (hkv _) h)
      | exact Nat.le_of_lt (withCF_suffix (hk _) h)
      | exact Nat.le_of_lt (readKeyValue_suffix h)
      | exact Nat.le_of_lt (readKey_suffix h)
      | (cases h; exact Nat.le_refl _)
      | (split at h
         · cases h; exact Nat.le_of_lt (getSliceOr_suffix ‹_›)
         · cases h)
      | cases h

/-! ## iterating -/

/-- the callbacks of `WriteBatch::Handler`; those whose status `Iterate` ignores return only the
new handler state -/
structure Handler (σ : Type) where
  PutCF : σ → UInt32 → List UInt8 → List UInt8 → σ × Status
  DeleteCF : σ → UInt32 → List UInt8 → σ × Status
  SingleDeleteCF : σ → UInt32 → List UInt8 → σ × Status
  DeleteRangeCF : σ → UInt32 → List UInt8 → List UInt8 → σ × Status
  MergeCF : σ → UInt32 → List UInt8 → List UInt8 → σ × Status
  LogData : σ → List UInt8 → σ
  MarkBeginPrepare : σ → σ
  MarkEndPrepare : σ → List UInt8 → σ
  MarkCommit : σ → List UInt8 → σ
  MarkRollback : σ → List UInt8 → σ
  Continue : σ → Bool

section
variable {σ : Type}

/-- the `switch (tag)` in the loop of `Iterate`: the callback of the record, the loop status
after it, and whether `found++` runs -/
def dispatch (h : Handler σ) (st : σ) (s : Status) (tag : UInt8) (cf : UInt32)
    (slots : RecordSlots) : Except Status (σ × Status × Bool) :=
  match ValueType.ofUInt8 tag with
  | some .kTypeColumnFamilyValue | some .kTypeValue =>
    let r := h.PutCF st cf slots.key slots.value
    .ok (r.1, r.2, true)
  | some .kTypeColumnFamilyDeletion | some .kTypeDeletion =>
    let r := h.DeleteCF st cf slots.key
    .ok (r.1, r.2, true)
  | some .kTypeColumnFamilySingleDeletion | some .kTypeSingleDeletion =>
    let r := h.SingleDeleteCF st cf slots.key
    .ok (r.1, r.2, true)
  | some .kTypeColumnFamilyRangeDeletion | some .kTypeRangeDeletion =>
    let r := h.DeleteRangeCF st cf slots.key slots.value
    .ok (r.1, r.2, true)
  | some .kTypeColumnFamilyMerge | some .kTypeMerge =>
    let r := h.MergeCF st cf slots.key slots.value
    .ok (r.1, r.2, true)
  | some .kTypeLogData => .ok (h.LogData st slots.blob, s, false)
  | some .kTypeBeginPrepareXID => .ok (h.MarkBeginPrepare st, s, false)
  | some .kTypeEndPrepareXID => .ok (h.MarkEndPrepare st slots.xid, s, false)
  | some .kTypeCommitXID => .ok (h.MarkCommit st slots.xid, s, false)
  | some .kTypeRollbackXID => .ok (h.MarkRollback st slots.xid, s, false)
  | some .kTypeNoop => .ok (st, s, false)
  | _ => .error (Status.Corruption "unknown WriteBatch tag")

/-- `while (s.ok() && !input.empty() && handler->Continue())`.  An early `return s` (a bad
record, an unknown tag) leaves the loop with a status that is not OK, which the check after
the loop returns unchanged. -/
def iterateLoop (h : Handler σ) (input : List UInt8) (st : σ) (s : Status) (found : Int32)
    (slots : RecordSlots) : σ × Status × Int32 :=
  if s.ok ∧ input ≠ [] ∧ h.Continue st then
    match hr : readRecordFromWriteBatch input slots with
    | .error e => (st, e, found)
    | .ok (tag, cf, slots', rest) =>
      have : rest.length < input.length := readRecordFromWriteBatch_suffix hr
      match dispatch h st s tag cf slots' with
      | .error e => (st, e, found)
      | .ok (st', s', counted) =>
        iterateLoop h rest st' s' (if counted then found + 1 else found) slots'
  else (st, s, found)
termination_by input.length

/-- `WriteBatch::Iterate` -/
def WriteBatch.Iterate (b : WriteBatch) (h : Handler σ) (st : σ) : σ × Status :=
  if b.rep.length < kHeader then (st, Status.Corruption "malformed WriteBatch (too small)")
  else
    let r := iterateLoop h (b.rep.drop kHeader) st Status.OK 0 ⟨[], [], [], []⟩
    if !r.2.1.ok then (r.1, r.2.1)
    else if r.2.2 ≠ WriteBatchInternal.Count b then
      (r.1, Status.Corruption "WriteBatch has wrong count")
    else (r.1, Status.OK)

end

/-! ## save points -/

/-- `WriteBatch::Clear`: the header alone, no content flag, no save point, and the WAL
termination point cleared -/
def WriteBatch.Clear (b : WriteBatch) : WriteBatch :=
  { b with
    rep := List.replicate kHeader 0, content_flags := 0, save_points := [],
    wal_term_point := ⟨0, 0, 0⟩ }

/-- `WriteBatch::SetSavePoint`: the size, count and content flags of the batch pushed -/
def WriteBatch.SetSavePoint (b : WriteBatch) : WriteBatch :=
  { b with save_points := ⟨b.GetDataSize, b.Count, b.content_flags⟩ :: b.save_points }

/-- `WriteBatch::RollbackToSavePoint`: the innermost save point popped and `rep_` cut back to its
size, with its count and content flags; nothing to cut where the size is the same, and
everything (`Clear`) where it is 0 -/
def WriteBatch.RollbackToSavePoint (b : WriteBatch) : WriteBatch × Status :=
  match b.save_points with
  | [] => (b, Status.NotFound)
  | savepoint :: rest =>
    let b := { b with save_points := rest }
    if savepoint.size = b.rep.length then (b, Status.OK)
    else if savepoint.size = 0 then (b.Clear, Status.OK)
    else
      ({ WriteBatchInternal.SetCount { b with rep := b.rep.take savepoint.size } savepoint.count with
          content_flags := savepoint.content_flags }, Status.OK)

/-- `WriteBatch::PopSavePoint` -/
def WriteBatch.PopSavePoint (b : WriteBatch) : WriteBatch × Status :=
  match b.save_points with
  | [] => (b, Status.NotFound)
  | _ :: rest => ({ b with save_points := rest }, Status.OK)

end RocksDB
