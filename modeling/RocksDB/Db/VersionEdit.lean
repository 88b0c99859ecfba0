import RocksDB.Db.InternalKey
import RocksDB.Lib.Sorted
import RocksDB.Lib.Reader
import RocksDB.Util.Status

/-!
# db/version_edit.h, db/version_edit.cc: a version edit and its manifest record

A record is a sequence of tagged fields, each tag a varint32:

```
kComparator varstring        kLogNumber varint64        kPrevLogNumber varint64
kNextFileNumber varint64     kLastSequence varint64     kMaxColumnFamily varint32
kDeletedFile level number    kColumnFamily varint32     kColumnFamilyAdd varstring
kColumnFamilyDrop
kNewFile2 level number file_size smallest largest smallest_seqno largest_seqno
kNewFile3 level number path_id file_size smallest largest smallest_seqno largest_seqno
kNewFile4 level number file_size smallest largest smallest_seqno largest_seqno
          { custom_tag varstring } kTerminate
```

* `FileDescriptor`, `InternalKey`, `FileMetaData`   as far as a record carries them: the file
                      number and path id packed in one `uint64_t`, a key as its encoding;
* `DeletedFileSet`    the `std::set` of (level, file number), as its elements in increasing order;
* `VersionEdit.EncodeTo`    the fields that are set, the deleted files in order, then the new files
                      (`EncodeNewFile` picks the format), then the column family fields;
* `VersionEdit.DecodeFrom`  `Clear`, then `decodeLoop`: a tag, then `decodeRecord` on its fields,
                      until the input runs out or a field is bad; the message of a bad field is
                      returned as `Corruption("VersionEdit", msg)`.

The readers of `decodeRecord` are `Reader`s (`Lib.Reader`); each leaves at most its input, which is
what ends `decodeLoop` and `decodeCustomFields`.  `max_level_`, which `GetLevel` raises and nothing
here reads, is left out.
-/

namespace RocksDB

/-! ## Files -/

/-- `kFileNumberMask` -/
def kFileNumberMask : UInt64 := 0x3FFFFFFFFFFFFFFF

/-- `PackFileNumberAndPathId` -/
def PackFileNumberAndPathId (number path_id : UInt64) : UInt64 :=
  number ||| (path_id * (kFileNumberMask + 1))

/-- `FileDescriptor`, without its table reader -/
structure FileDescriptor where
  packed_number_and_path_id : UInt64
  file_size : UInt64
  deriving DecidableEq, Repr

namespace FileDescriptor

/-- `FileDescriptor(number, path_id, file_size)` -/
def new (number : UInt64) (path_id : UInt32) (file_size : UInt64) : FileDescriptor :=
  ⟨PackFileNumberAndPathId number path_id.toUInt64, file_size⟩

def GetNumber (fd : FileDescriptor) : UInt64 := fd.packed_number_and_path_id &&& kFileNumberMask

def GetPathId (fd : FileDescriptor) : UInt32 :=
  (fd.packed_number_and_path_id / (kFileNumberMask + 1)).toUInt32

def GetFileSize (fd : FileDescriptor) : UInt64 := fd.file_size

end FileDescriptor

/-- `InternalKey`: its encoding `rep_` -/
structure InternalKey where
  rep_ : List UInt8
  deriving DecidableEq, Repr

namespace InternalKey

/-- `InternalKey::Valid`: the encoding parses -/
def Valid (k : InternalKey) : Bool := (ParseInternalKey k.rep_).isSome

def Encode (k : InternalKey) : List UInt8 := k.rep_

def DecodeFrom (s : List UInt8) : InternalKey := ⟨s⟩

end InternalKey

/-- `FileMetaData`, as far as a manifest record carries it -/
structure FileMetaData where
  fd : FileDescriptor
  smallest : InternalKey
  largest : InternalKey
  smallest_seqno : UInt64
  largest_seqno : UInt64
  marked_for_compaction : Bool
  deriving DecidableEq, Repr

/-- `FileMetaData()` -/
def FileMetaData.new : FileMetaData :=
  ⟨FileDescriptor.new 0 0 0, ⟨[]⟩, ⟨[]⟩, UInt64.ofNat kMaxSequenceNumber, 0, false⟩

/-! ## Deleted files -/

/-- the order of `std::pair<int, uint64_t>` -/
def deletedFileKey (p : Int32 × UInt64) : Lex (ℤ × ℕ) := toLex (p.1.toInt, p.2.toNat)

theorem deletedFileKey_injective : Function.Injective deletedFileKey := by
  rintro ⟨l₁, n₁⟩ ⟨l₂, n₂⟩ h
  have h' : (l₁.toInt, n₁.toNat) = (l₂.toInt, n₂.toNat) := toLex.injective h
  simp only [Prod.mk.injEq] at h'
  rw [Int32.toInt_inj.mp h'.1, UInt64.toNat_inj.mp h'.2]

/-- `DeletedFileSet`: a `std::set` of (level, file number), as its elements in increasing order -/
structure DeletedFileSet where
  toList : List (Int32 × UInt64)
  sorted : toList.Pairwise fun a b => deletedFileKey a < deletedFileKey b

namespace DeletedFileSet

def empty : DeletedFileSet := ⟨[], List.Pairwise.nil⟩

/-- `std::set::insert`: a pair already there is not added again -/
def insert (s : DeletedFileSet) (p : Int32 × UInt64) : DeletedFileSet :=
  if h : p ∈ s.toList then s
  else
    ⟨s.toList.insertByKey deletedFileKey p,
      List.pairwise_insertByKey s.sorted fun _ hy hyp => h (deletedFileKey_injective hyp ▸ hy)⟩

end DeletedFileSet

/-! ## The edit -/

/-- `VersionEdit`, without `max_level_` -/
structure VersionEdit where
  comparator_ : List UInt8
  log_number_ : UInt64
  prev_log_number_ : UInt64
  next_file_number_ : UInt64
  last_sequence_ : UInt64
  max_column_family_ : UInt32
  has_comparator_ : Bool
  has_log_number_ : Bool
  has_prev_log_number_ : Bool
  has_next_file_number_ : Bool
  has_last_sequence_ : Bool
  has_max_column_family_ : Bool
  deleted_files_ : DeletedFileSet
  new_files_ : List (Int32 × FileMetaData)
  column_family_ : UInt32
  is_column_family_add_ : Bool
  is_column_family_drop_ : Bool
  column_family_name_ : List UInt8

namespace VersionEdit

/-- `Tag`: the record tags -/
inductive Tag where
  | kComparator | kLogNumber | kNextFileNumber | kLastSequence | kCompactPointer | kDeletedFile
  | kNewFile | kPrevLogNumber | kNewFile2 | kNewFile3 | kNewFile4 | kColumnFamily
  | kColumnFamilyAdd | kColumnFamilyDrop | kMaxColumnFamily
  deriving DecidableEq, Repr

namespace Tag

def toUInt32 : Tag → UInt32
  | kComparator => 1
  | kLogNumber => 2
  | kNextFileNumber => 3
  | kLastSequence => 4
  | kCompactPointer => 5
  | kDeletedFile => 6
  | kNewFile => 7
  | kPrevLogNumber => 9
  | kNewFile2 => 100
  | kNewFile3 => 102
  | kNewFile4 => 103
  | kColumnFamily => 200
  | kColumnFamilyAdd => 201
  | kColumnFamilyDrop => 202
  | kMaxColumnFamily => 203

/-- the `case` of `switch (tag)` a value falls in, if any -/
def ofUInt32 (v : UInt32) : Option Tag :=
  match v with
  | 1 => some kComparator
  | 2 => some kLogNumber
  | 3 => some kNextFileNumber
  | 4 => some kLastSequence
  | 5 => some kCompactPointer
  | 6 => some kDeletedFile
  | 7 => some kNewFile
  | 9 => some kPrevLogNumber
  | 100 => some kNewFile2
  | 102 => some kNewFile3
  | 103 => some kNewFile4
  | 200 => some kColumnFamily
  | 201 => some kColumnFamilyAdd
  | 202 => some kColumnFamilyDrop
  | 203 => some kMaxColumnFamily
  | _ => none

@[simp] theorem ofUInt32_toUInt32 (t : Tag) : ofUInt32 t.toUInt32 = some t := by
  cases t <;> rfl

end Tag

/-- `CustomTag`: the tags of the custom fields of a `kNewFile4` record -/
inductive CustomTag where
  | kTerminate | kNeedCompaction | kPathId
  deriving DecidableEq, Repr

namespace CustomTag

def toUInt32 : CustomTag → UInt32
  | kTerminate => 1
  | kNeedCompaction => 2
  | kPathId => 65

def ofUInt32 (v : UInt32) : Option CustomTag :=
  match v with
  | 1 => some kTerminate
  | 2 => some kNeedCompaction
  | 65 => some kPathId
  | _ => none

@[simp] theorem ofUInt32_toUInt32 (t : CustomTag) : ofUInt32 t.toUInt32 = some t := by
  cases t <;> rfl

end CustomTag

/-- `kCustomTagNonSafeIgnoreMask`: a custom field with this bit may not be skipped -/
def kCustomTagNonSafeIgnoreMask : UInt32 := (1 : UInt32) <<< 6

/-- `VersionEdit::Clear` -/
def Clear : VersionEdit where
  comparator_ := []
  log_number_ := 0
  prev_log_number_ := 0
  next_file_number_ := 0
  last_sequence_ := 0
  max_column_family_ := 0
  has_comparator_ := false
  has_log_number_ := false
  has_prev_log_number_ := false
  has_next_file_number_ := false
  has_last_sequence_ := false
  has_max_column_family_ := false
  deleted_files_ := DeletedFileSet.empty
  new_files_ := []
  column_family_ := 0
  is_column_family_add_ := false
  is_column_family_drop_ := false
  column_family_name_ := []

/-! ### The setters -/

section Setters

variable (e : VersionEdit)

def SetComparatorName (name : List UInt8) : VersionEdit :=
  { e with has_comparator_ := true, comparator_ := name }

def SetLogNumber (num : UInt64) : VersionEdit := { e with has_log_number_ := true, log_number_ := num }

def SetPrevLogNumber (num : UInt64) : VersionEdit :=
  { e with has_prev_log_number_ := true, prev_log_number_ := num }

def SetNextFile (num : UInt64) : VersionEdit :=
  { e with has_next_file_number_ := true, next_file_number_ := num }

def SetLastSequence (seq : UInt64) : VersionEdit :=
  { e with has_last_sequence_ := true, last_sequence_ := seq }

def SetMaxColumnFamily (max_column_family : UInt32) : VersionEdit :=
  { e with has_max_column_family_ := true, max_column_family_ := max_column_family }

/-- `AddFile(level, f)` -/
def AddFile (level : Int32) (f : FileMetaData) : VersionEdit :=
  { e with new_files_ := e.new_files_ ++ [(level, f)] }

def DeleteFile (level : Int32) (file : UInt64) : VersionEdit :=
  { e with deleted_files_ := e.deleted_files_.insert (level, file) }

def SetColumnFamily (column_family_id : UInt32) : VersionEdit :=
  { e with column_family_ := column_family_id }

def AddColumnFamily (name : List UInt8) : VersionEdit :=
  { e with is_column_family_add_ := true, column_family_name_ := name }

def DropColumnFamily : VersionEdit := { e with is_column_family_drop_ := true }

end Setters

/-! ### Encoding -/

/-- the record of one new file: `kNewFile4` with custom fields where the file is marked for
compaction, else `kNewFile2` on path 0 and `kNewFile3` with its path id otherwise -/
def EncodeNewFile (dst : List UInt8) (level : Int32) (f : FileMetaData) : List UInt8 :=
  let has_customized_fields := f.marked_for_compaction
  let dst :=
    if f.marked_for_compaction then putVarint32 dst Tag.kNewFile4.toUInt32
    else if f.fd.GetPathId = 0 then putVarint32 dst Tag.kNewFile2.toUInt32
    else putVarint32 dst Tag.kNewFile3.toUInt32
  let dst := putVarint64 (putVarint32 dst level.toUInt32) f.fd.GetNumber
  let dst := if f.fd.GetPathId ≠ 0 ∧ !has_customized_fields then putVarint32 dst f.fd.GetPathId
    else dst
  let dst := putVarint64 dst f.fd.GetFileSize
  let dst := putLengthPrefixedSlice dst f.smallest.Encode
  let dst := putLengthPrefixedSlice dst f.largest.Encode
  let dst := putVarint64 (putVarint64 dst f.smallest_seqno) f.largest_seqno
  if has_customized_fields then
    let dst := if f.fd.GetPathId ≠ 0 then
        putLengthPrefixedSlice (putVarint32 dst CustomTag.kPathId.toUInt32) [f.fd.GetPathId.toUInt8]
      else dst
    let dst := if f.marked_for_compaction then
        putLengthPrefixedSlice (putVarint32 dst CustomTag.kNeedCompaction.toUInt32) [1]
      else dst
    putVarint32 dst CustomTag.kTerminate.toUInt32
  else dst

/-- the loop over `new_files_`: `false` at the first file whose keys are not valid -/
def EncodeNewFiles : List (Int32 × FileMetaData) → List UInt8 → Bool × List UInt8
  | [], dst => (true, dst)
  | (level, f) :: rest, dst =>
    if !f.smallest.Valid || !f.largest.Valid then (false, dst)
    else EncodeNewFiles rest (EncodeNewFile dst level f)

/-- `VersionEdit::EncodeTo` -/
def EncodeTo (e : VersionEdit) (dst : List UInt8) : Bool × List UInt8 :=
  let dst := if e.has_comparator_ then
      putLengthPrefixedSlice (putVarint32 dst Tag.kComparator.toUInt32) e.comparator_
    else dst
  let dst := if e.has_log_number_ then
      putVarint64 (putVarint32 dst Tag.kLogNumber.toUInt32) e.log_number_
    else dst
  let dst := if e.has_prev_log_number_ then
      putVarint64 (putVarint32 dst Tag.kPrevLogNumber.toUInt32) e.prev_log_number_
    else dst
  let dst := if e.has_next_file_number_ then
      putVarint64 (putVarint32 dst Tag.kNextFileNumber.toUInt32) e.next_file_number_
    else dst
  let dst := if e.has_last_sequence_ then
      putVarint64 (putVarint32 dst Tag.kLastSequence.toUInt32) e.last_sequence_
    else dst
  let dst := if e.has_max_column_family_ then
      putVarint32 (putVarint32 dst Tag.kMaxColumnFamily.toUInt32) e.max_column_family_
    else dst
  let dst := e.deleted_files_.toList.foldl (fun dst deleted =>
    putVarint64 (putVarint32 (putVarint32 dst Tag.kDeletedFile.toUInt32) deleted.1.toUInt32)
      deleted.2) dst
  match EncodeNewFiles e.new_files_ dst with
  | (false, dst) => (false, dst)
  | (true, dst) =>
    -- 0 is default and does not need to be explicitly written
    let dst := if e.column_family_ ≠ 0 then
        putVarint32 (putVarint32 dst Tag.kColumnFamily.toUInt32) e.column_family_
      else dst
    let dst := if e.is_column_family_add_ then
        putLengthPrefixedSlice (putVarint32 dst Tag.kColumnFamilyAdd.toUInt32) e.column_family_name_
      else dst
    let dst := if e.is_column_family_drop_ then putVarint32 dst Tag.kColumnFamilyDrop.toUInt32
      else dst
    (true, dst)

/-! ### Decoding -/

/-- `GetLevel`: a varint32 taken as an `int` -/
def GetLevel : Reader UInt8 Int32 := do
  let v ← (getVarint32 : Reader UInt8 UInt32)
  pure v.toInt32

/-- `GetInternalKey`: a length-prefixed slice that is a valid internal key -/
def GetInternalKey : Reader UInt8 InternalKey := do
  let str ← (getLengthPrefixedSlice : Reader UInt8 (List UInt8))
  let dst := InternalKey.DecodeFrom str
  if dst.Valid then pure dst else failure

/-- the level, file number, path id (a varint32 read only where `with_path_id`) and file size
that open a new-file record -/
def readFileHead (with_path_id : Bool) : Reader UInt8 (Int32 × UInt64 × UInt32 × UInt64) := do
  let level ← GetLevel
  let number ← (getVarint64 : Reader UInt8 UInt64)
  let path_id ← (if with_path_id then getVarint32 else pure 0 : Reader UInt8 UInt32)
  let file_size ← (getVarint64 : Reader UInt8 UInt64)
  pure (level, number, path_id, file_size)

/-- the smallest and largest keys of a new-file record -/
def readFileKeys : Reader UInt8 (InternalKey × InternalKey) := do
  let smallest ← GetInternalKey
  let largest ← GetInternalKey
  pure (smallest, largest)

/-- the smallest and largest sequence numbers of a new-file record -/
def readFileSeqnos : Reader UInt8 (UInt64 × UInt64) := do
  let smallest_seqno ← (getVarint64 : Reader UInt8 UInt64)
  let largest_seqno ← (getVarint64 : Reader UInt8 UInt64)
  pure (smallest_seqno, largest_seqno)

/-- the fields of a `kNewFile` record: no sequence numbers -/
def readNewFile : Reader UInt8 ((Int32 × UInt64 × UInt32 × UInt64) × InternalKey × InternalKey) := do
  let head ← readFileHead false
  let keys ← readFileKeys
  pure (head, keys)

/-- the fields of a `kNewFile2` (`with_path_id = false`) or `kNewFile3` record, and the fields of
a `kNewFile4` record before its custom fields -/
def readNewFileFields (with_path_id : Bool) :
    Reader UInt8 ((Int32 × UInt64 × UInt32 × UInt64) × (InternalKey × InternalKey) ×
      (UInt64 × UInt64)) := do
  let head ← readFileHead with_path_id
  let keys ← readFileKeys
  let seqnos ← readFileSeqnos
  pure (head, keys, seqnos)

/-- the fields of a `kDeletedFile` record -/
def readDeletedFile : Reader UInt8 (Int32 × UInt64) := do
  let level ← GetLevel
  let number ← (getVarint64 : Reader UInt8 UInt64)
  pure (level, number)

/-- the fields of a `kCompactPointer` record -/
def readCompactPointer : Reader UInt8 (Int32 × InternalKey) := do
  let level ← GetLevel
  let key ← GetInternalKey
  pure (level, key)

section Shrinks

open Reader

theorem getVarint64_shrinks : Shrinks (getVarint64 : Reader UInt8 UInt64) :=
  fun _ _ _ h => (getVarint64_suffix h).le

theorem getVarint32_shrinks : Shrinks (getVarint32 : Reader UInt8 UInt32) :=
  fun _ _ _ h => (getVarint32_suffix h).le

theorem getLengthPrefixedSlice_shrinks :
    Shrinks (getLengthPrefixedSlice : Reader UInt8 (List UInt8)) :=
  fun _ _ _ h => (getLengthPrefixedSlice_suffix h).le

theorem GetLevel_shrinks : Shrinks GetLevel :=
  .bind getVarint32_shrinks fun _ => .pure _

theorem GetInternalKey_shrinks : Shrinks GetInternalKey :=
  .bind getLengthPrefixedSlice_shrinks fun _ => .ite (.pure _) .failure

theorem readFileHead_shrinks (with_path_id : Bool) : Shrinks (readFileHead with_path_id) :=
  .bind GetLevel_shrinks fun _ => .bind getVarint64_shrinks fun _ =>
    .bind (.ite getVarint32_shrinks (.pure _)) fun _ => .bind getVarint64_shrinks fun _ => .pure _

theorem readFileKeys_shrinks : Shrinks readFileKeys :=
  .bind GetInternalKey_shrinks fun _ => .bind GetInternalKey_shrinks fun _ => .pure _

theorem readFileSeqnos_shrinks : Shrinks readFileSeqnos :=
  .bind getVarint64_shrinks fun _ => .bind getVarint64_shrinks fun _ => .pure _

theorem readNewFile_shrinks : Shrinks readNewFile :=
  .bind (readFileHead_shrinks false) fun _ => .bind readFileKeys_shrinks fun _ => .pure _

theorem readNewFileFields_shrinks (with_path_id : Bool) :
    Shrinks (readNewFileFields with_path_id) :=
  .bind (readFileHead_shrinks with_path_id) fun _ => .bind readFileKeys_shrinks fun _ =>
    .bind readFileSeqnos_shrinks fun _ => .pure _

theorem readDeletedFile_shrinks : Shrinks readDeletedFile :=
  .bind GetLevel_shrinks fun _ => .bind getVarint64_shrinks fun _ => .pure _

theorem readCompactPointer_shrinks : Shrinks readCompactPointer :=
  .bind GetLevel_shrinks fun _ => .bind GetInternalKey_shrinks fun _ => .pure _

end Shrinks

/-- the custom fields of a `kNewFile4` record, up to `kTerminate`: the path id and the
need-compaction mark they set, and the input after the terminator -/
def decodeCustomFields (path_id : UInt32) (marked : Bool) (input : List UInt8) :
    Except String (UInt32 × Bool × List UInt8) :=
  match h₁ : getVarint32 input with
  | none => .error "new-file4 custom field"
  | some (custom_tag, rest) =>
    if custom_tag = CustomTag.kTerminate.toUInt32 then .ok (path_id, marked, rest)
    else
      match h₂ : getLengthPrefixedSlice rest with
      | none => .error "new-file4 custom field lenth prefixed slice error"
      | some (field, rest) =>
        have : rest.length < input.length :=
          (getLengthPrefixedSlice_suffix h₂).trans (getVarint32_suffix h₁)
        match CustomTag.ofUInt32 custom_tag with
        | some .kPathId =>
          match field with
          | [b] =>
            -- `path_id = field[0]`: a byte above 3, read as a signed or an unsigned `char`,
            -- is above 3
            if b.toUInt32 > 3 then .error "path_id wrong vaue"
            else decodeCustomFields b.toUInt32 marked rest
          | _ => .error "path_id field wrong size"
        | some .kNeedCompaction =>
          match field with
          | [b] => decodeCustomFields path_id (b = 1) rest
          | _ => .error "need_compaction field wrong size"
        | _ =>
          -- should not proceed if it cannot understand a field that may not be skipped
          if custom_tag &&& kCustomTagNonSafeIgnoreMask ≠ 0 then
            .error "new-file4 custom field not supported"
          else decodeCustomFields path_id marked rest
termination_by input.length

/-- `DecodeNewFile4From`: the new file is pushed only once its custom fields are read -/
def DecodeNewFile4From (e : VersionEdit) (input : List UInt8) :
    Except String (VersionEdit × List UInt8) :=
  match readNewFileFields false input with
  | none => .error "new-file4 entry"
  | some (((level, number, _, file_size), (smallest, largest), (smallest_seqno, largest_seqno)),
      rest) =>
    match decodeCustomFields 0 false rest with
    | .error msg => .error msg
    | .ok (path_id, marked, rest) =>
      let f : FileMetaData :=
        { FileMetaData.new with
          fd := FileDescriptor.new number path_id file_size, smallest, largest, smallest_seqno,
          largest_seqno, marked_for_compaction := marked }
      .ok ({ e with new_files_ := e.new_files_ ++ [(level, f)] }, rest)

/-- "if (read(&input, ...)) { ... } else { msg = ...; }": what a reader reads sets the edit and
the scratch file -/
def readOr {α : Type} (msg : String) (r : Reader UInt8 α) (input : List UInt8)
    (set : α → VersionEdit × FileMetaData) :
    Except String (VersionEdit × FileMetaData × List UInt8) :=
  match r input with
  | some (a, rest) => .ok ((set a).1, (set a).2, rest)
  | none => .error msg

/-- one case of "switch (tag)" in `DecodeFrom`; `f` is the scratch `FileMetaData` that the
`kNewFile`, `kNewFile2` and `kNewFile3` cases fill and push, kept from record to record -/
def decodeRecord (e : VersionEdit) (f : FileMetaData) (tag : UInt32) (input : List UInt8) :
    Except String (VersionEdit × FileMetaData × List UInt8) :=
  match Tag.ofUInt32 tag with
  | some .kComparator =>
    readOr "comparator name" getLengthPrefixedSlice input fun str =>
      ({ e with comparator_ := str, has_comparator_ := true }, f)
  | some .kLogNumber =>
    readOr "log number" getVarint64 input fun n =>
      ({ e with log_number_ := n, has_log_number_ := true }, f)
  | some .kPrevLogNumber =>
    readOr "previous log number" getVarint64 input fun n =>
      ({ e with prev_log_number_ := n, has_prev_log_number_ := true }, f)
  | some .kNextFileNumber =>
    readOr "next file number" getVarint64 input fun n =>
      ({ e with next_file_number_ := n, has_next_file_number_ := true }, f)
  | some .kLastSequence =>
    readOr "last sequence number" getVarint64 input fun n =>
      ({ e with last_sequence_ := n, has_last_sequence_ := true }, f)
  | some .kMaxColumnFamily =>
    readOr "max column family" getVarint32 input fun n =>
      ({ e with max_column_family_ := n, has_max_column_family_ := true }, f)
  | some .kCompactPointer =>
    -- compact pointers are no longer used, but a manifest may still hold them
    readOr "compaction pointer" readCompactPointer input fun _ => (e, f)
  | some .kDeletedFile =>
    readOr "deleted file" readDeletedFile input fun deleted =>
      ({ e with deleted_files_ := e.deleted_files_.insert deleted }, f)
  | some .kNewFile =>
    readOr "new-file entry" readNewFile input fun ((level, number, _, file_size), (smallest, largest)) =>
      let f := { f with fd := FileDescriptor.new number 0 file_size, smallest, largest }
      ({ e with new_files_ := e.new_files_ ++ [(level, f)] }, f)
  | some .kNewFile2 =>
    readOr "new-file2 entry" (readNewFileFields false) input
      fun ((level, number, _, file_size), (smallest, largest), (smallest_seqno, largest_seqno)) =>
        let f := { f with
          fd := FileDescriptor.new number 0 file_size, smallest, largest, smallest_seqno,
          largest_seqno }
        ({ e with new_files_ := e.new_files_ ++ [(level, f)] }, f)
  | some .kNewFile3 =>
    readOr "new-file3 entry" (readNewFileFields true) input
      fun ((level, number, path_id, file_size), (smallest, largest),
          (smallest_seqno, largest_seqno)) =>
        let f := { f with
          fd := FileDescriptor.new number path_id file_size, smallest, largest, smallest_seqno,
          largest_seqno }
        ({ e with new_files_ := e.new_files_ ++ [(level, f)] }, f)
  | some .kNewFile4 =>
    match DecodeNewFile4From e input with
    | .ok (e, rest) => .ok (e, f, rest)
    | .error msg => .error msg
  | some .kColumnFamily =>
    readOr "set column family id" getVarint32 input fun cf => ({ e with column_family_ := cf }, f)
  | some .kColumnFamilyAdd =>
    readOr "column family add" getLengthPrefixedSlice input fun str =>
      ({ e with is_column_family_add_ := true, column_family_name_ := str }, f)
  | some .kColumnFamilyDrop => .ok ({ e with is_column_family_drop_ := true }, f, input)
  | none => .error "unknown tag"

theorem decodeCustomFields_suffix {path_id : UInt32} {marked : Bool} {input : List UInt8}
    {r : UInt32 × Bool × List UInt8} (h : decodeCustomFields path_id marked input = .ok r) :
    r.2.2.length ≤ input.length := by
  fun_induction decodeCustomFields path_id marked input
  case case2 h₁ =>
    -- the terminator: what follows it
    cases h
    exact (getVarint32_suffix h₁).le
  case case5 hlt ih | case7 hlt ih | case10 hlt _ _ _ ih =>
    -- a field read: the loop goes on past it
    exact (ih h).trans hlt.le
  -- every other branch is an error
  all_goals cases h

theorem readOr_suffix {α : Type} {msg : String} {r : Reader UInt8 α} {input : List UInt8}
    {set : α → VersionEdit × FileMetaData} {res : VersionEdit × FileMetaData × List UInt8}
    (hr : Reader.Shrinks r) (h : readOr msg r input set = .ok res) :
    res.2.2.length ≤ input.length := by
  unfold readOr at h
  split at h
  next a rest hra =>
    cases h
    exact hr _ _ _ hra
  next => cases h

theorem DecodeNewFile4From_suffix {e : VersionEdit} {input : List UInt8}
    {res : VersionEdit × List UInt8} (h : DecodeNewFile4From e input = .ok res) :
    res.2.length ≤ input.length := by
  unfold DecodeNewFile4From at h
  split at h
  next => cases h
  next rest hfields =>
    split at h
    next => cases h
    next hcustom =>
      cases h
      exact (decodeCustomFields_suffix hcustom).trans (readNewFileFields_shrinks false _ _ _ hfields)

/-- a record leaves at most its input -/
theorem decodeRecord_suffix {e : VersionEdit} {f : FileMetaData} {tag : UInt32}
    {input : List UInt8} {res : VersionEdit × FileMetaData × List UInt8}
    (h : decodeRecord e f tag input = .ok res) : res.2.2.length ≤ input.length := by
  unfold decodeRecord at h
  split at h
  next => exact readOr_suffix getLengthPrefixedSlice_shrinks h
  next => exact readOr_suffix getVarint64_shrinks h
  next => exact readOr_suffix getVarint64_shrinks h
  next => exact readOr_suffix getVarint64_shrinks h
  next => exact readOr_suffix getVarint64_shrinks h
  next => exact readOr_suffix getVarint32_shrinks h
  next => exact readOr_suffix readCompactPointer_shrinks h
  next => exact readOr_suffix readDeletedFile_shrinks h
  next => exact readOr_suffix readNewFile_shrinks h
  next => exact readOr_suffix (readNewFileFields_shrinks false) h
  next => exact readOr_suffix (readNewFileFields_shrinks true) h
  next =>
    split at h
    next h4 =>
      cases h
      exact DecodeNewFile4From_suffix h4
    next => cases h
  next => exact readOr_suffix getVarint32_shrinks h
  next => exact readOr_suffix getLengthPrefixedSlice_shrinks h
  next =>
    cases h
    exact le_rfl
  next => cases h

/-- the loop of `DecodeFrom`: a tag and its record, until the input runs out or a record is bad;
the message that stops it, if any -/
def decodeLoop (e : VersionEdit) (f : FileMetaData) (input : List UInt8) :
    VersionEdit × Option String :=
  match h₁ : getVarint32 input with
  | none => (e, if input.isEmpty then none else some "invalid tag")
  | some (tag, rest) =>
    match h₂ : decodeRecord e f tag rest with
    | .error msg => (e, some msg)
    | .ok (e, f, rest') =>
      have : rest'.length < input.length :=
        (decodeRecord_suffix h₂).trans_lt (getVarint32_suffix h₁)
      decodeLoop e f rest'
termination_by input.length

/-- `VersionEdit::DecodeFrom`: the edit read from a fresh one, and its status -/
def DecodeFrom (src : List UInt8) : VersionEdit × Status :=
  match decodeLoop Clear FileMetaData.new src with
  | (e, none) => (e, Status.OK)
  | (e, some msg) => (e, Status.Corruption ("VersionEdit: " ++ msg))

end VersionEdit

end RocksDB
