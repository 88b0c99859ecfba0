import RocksDB.Db.VersionEdit
import RocksDB.Lib.Lists

/-!
# Reading back a manifest record

`EncodeTo` writes an edit as a list of `Record`s, each a tag and its fields; `DecodeFrom` reads
each one back with the setter it stands for.

* `FileDescriptor.new_GetNumber_GetPathId`   a descriptor is rebuilt from its number, path id and
                              size, whatever its packed word (so the number is at most
                              `kFileNumberMask` and the path id at most 3);
* `EncodeTo_eq`               `EncodeTo` is the concatenation of `records e`, and succeeds, where
                              the keys of the new files are valid;
* `decodeLoop_encode`         one record read back: its setter applied; the scratch file of
                              `DecodeFrom` is never marked for compaction, which is what the
                              `kNewFile2` and `kNewFile3` records rely on;
* `decodeLoop_flatMap`        a list of records read back: all the setters, in order, and no message;
* `applyAll_records`          the setters of `records e` applied to a cleared edit give
                              `recorded e`: every field `EncodeTo` writes, the others cleared.

Every length-prefixed field has to be shorter than `2^32` bytes (`Fits`): `PutLengthPrefixedSlice`
writes the length as a `uint32_t`.
-/

namespace RocksDB

namespace FileDescriptor

theorem toNat_GetPathId (fd : FileDescriptor) :
    fd.GetPathId.toNat = fd.packed_number_and_path_id.toNat / 2 ^ 62 := by
  have hp := fd.packed_number_and_path_id.toNat_lt
  have hunit : (kFileNumberMask + 1).toNat = 2 ^ 62 := by decide
  rw [GetPathId, UInt64.toNat_toUInt32, UInt64.toNat_div, hunit]
  omega

theorem GetPathId_le (fd : FileDescriptor) : fd.GetPathId.toNat ≤ 3 := by
  have hp := fd.packed_number_and_path_id.toNat_lt
  rw [toNat_GetPathId]
  omega

/-- the packed word is the number in its low 62 bits and the path id above them -/
theorem new_GetNumber_GetPathId (fd : FileDescriptor) :
    new fd.GetNumber fd.GetPathId fd.GetFileSize = fd := by
  obtain ⟨p, file_size⟩ := fd
  have hp := p.toNat_lt
  have hmask : kFileNumberMask.toNat = 2 ^ 62 - 1 := by decide
  have hunit : (kFileNumberMask + 1).toNat = 2 ^ 62 := by decide
  have hpath : (GetPathId ⟨p, file_size⟩).toUInt64.toNat = p.toNat / 2 ^ 62 := by
    rw [UInt32.toNat_toUInt64, toNat_GetPathId]
  have hhigh : p.toNat / 2 ^ 62 * 2 ^ 62 < 2 ^ 64 := by omega
  simp only [new, GetNumber, GetFileSize, PackFileNumberAndPathId, mk.injEq, and_true]
  apply UInt64.toNat_inj.mp
  rw [UInt64.toNat_or, UInt64.toNat_and, UInt64.toNat_mul, hpath, hunit, hmask,
    Nat.and_two_pow_sub_one_eq_mod, Nat.mod_eq_of_lt hhigh, Nat.lor_comm, ← Nat.shiftLeft_eq,
    ← Nat.shiftLeft_add_eq_or_of_lt (Nat.mod_lt _ (by norm_num)), Nat.shiftLeft_eq,
    Nat.div_add_mod']

end FileDescriptor

@[simp] theorem InternalKey.DecodeFrom_rep (k : InternalKey) : InternalKey.DecodeFrom k.rep_ = k :=
  rfl

namespace VersionEdit

/-! ## Records -/

/-- one record of a manifest entry -/
inductive Record where
  | comparator (name : List UInt8)
  | logNumber (num : UInt64)
  | prevLogNumber (num : UInt64)
  | nextFileNumber (num : UInt64)
  | lastSequence (seq : UInt64)
  | maxColumnFamily (max_column_family : UInt32)
  | deletedFile (level : Int32) (number : UInt64)
  | newFile (level : Int32) (f : FileMetaData)
  | columnFamily (column_family_id : UInt32)
  | columnFamilyAdd (name : List UInt8)
  | columnFamilyDrop

namespace Record

/-- the bytes `EncodeTo` writes for the record -/
def encode : Record → List UInt8
  | comparator name => putLengthPrefixedSlice (putVarint32 [] Tag.kComparator.toUInt32) name
  | logNumber num => putVarint64 (putVarint32 [] Tag.kLogNumber.toUInt32) num
  | prevLogNumber num => putVarint64 (putVarint32 [] Tag.kPrevLogNumber.toUInt32) num
  | nextFileNumber num => putVarint64 (putVarint32 [] Tag.kNextFileNumber.toUInt32) num
  | lastSequence seq => putVarint64 (putVarint32 [] Tag.kLastSequence.toUInt32) seq
  | maxColumnFamily n => putVarint32 (putVarint32 [] Tag.kMaxColumnFamily.toUInt32) n
  | deletedFile level number =>
    putVarint64 (putVarint32 (putVarint32 [] Tag.kDeletedFile.toUInt32) level.toUInt32) number
  | newFile level f => EncodeNewFile [] level f
  | columnFamily cf => putVarint32 (putVarint32 [] Tag.kColumnFamily.toUInt32) cf
  | columnFamilyAdd name =>
    putLengthPrefixedSlice (putVarint32 [] Tag.kColumnFamilyAdd.toUInt32) name
  | columnFamilyDrop => putVarint32 [] Tag.kColumnFamilyDrop.toUInt32

/-- the setter the record stands for -/
def apply : Record → VersionEdit → VersionEdit
  | comparator name, e => e.SetComparatorName name
  | logNumber num, e => e.SetLogNumber num
  | prevLogNumber num, e => e.SetPrevLogNumber num
  | nextFileNumber num, e => e.SetNextFile num
  | lastSequence seq, e => e.SetLastSequence seq
  | maxColumnFamily n, e => e.SetMaxColumnFamily n
  | deletedFile level number, e => e.DeleteFile level number
  | newFile level f, e => e.AddFile level f
  | columnFamily cf, e => e.SetColumnFamily cf
  | columnFamilyAdd name, e => e.AddColumnFamily name
  | columnFamilyDrop, e => e.DropColumnFamily

/-- what the scratch file of `DecodeFrom` holds after the record: a `kNewFile2` or `kNewFile3`
record leaves its file there -/
def scratch : Record → FileMetaData → FileMetaData
  | newFile _ file, f => if file.marked_for_compaction then f else file
  | _, f => f

/-- the record can be read back: its length-prefixed fields are shorter than `2^32` bytes and the
keys of a new file are valid -/
def Fits : Record → Prop
  | comparator name => name.length < 2 ^ 32
  | newFile _ f =>
    f.smallest.Valid = true ∧ f.largest.Valid = true ∧
      f.smallest.rep_.length < 2 ^ 32 ∧ f.largest.rep_.length < 2 ^ 32
  | columnFamilyAdd name => name.length < 2 ^ 32
  | _ => True

end Record

/-- the setters of `rs`, in order -/
def applyAll (rs : List Record) (e : VersionEdit) : VersionEdit :=
  rs.foldl (fun e r => r.apply e) e

/-- the record list of `r` where `b`, empty otherwise -/
def optRecord (b : Bool) (r : Record) : List Record := if b then [r] else []

/-- the records `EncodeTo` writes, in order -/
def records (e : VersionEdit) : List Record :=
  optRecord e.has_comparator_ (.comparator e.comparator_) ++
  optRecord e.has_log_number_ (.logNumber e.log_number_) ++
  optRecord e.has_prev_log_number_ (.prevLogNumber e.prev_log_number_) ++
  optRecord e.has_next_file_number_ (.nextFileNumber e.next_file_number_) ++
  optRecord e.has_last_sequence_ (.lastSequence e.last_sequence_) ++
  optRecord e.has_max_column_family_ (.maxColumnFamily e.max_column_family_) ++
  e.deleted_files_.toList.map (fun d => .deletedFile d.1 d.2) ++
  e.new_files_.map (fun p => .newFile p.1 p.2) ++
  optRecord (e.column_family_ ≠ 0) (.columnFamily e.column_family_) ++
  optRecord e.is_column_family_add_ (.columnFamilyAdd e.column_family_name_) ++
  optRecord e.is_column_family_drop_ .columnFamilyDrop

/-- the length-prefixed fields of the edit that `EncodeTo` writes are shorter than `2^32` bytes -/
def Fits (e : VersionEdit) : Prop :=
  (e.has_comparator_ = true → e.comparator_.length < 2 ^ 32) ∧
  (e.is_column_family_add_ = true → e.column_family_name_.length < 2 ^ 32) ∧
  ∀ p ∈ e.new_files_, p.2.smallest.rep_.length < 2 ^ 32 ∧ p.2.largest.rep_.length < 2 ^ 32

instance (e : VersionEdit) : Decidable e.Fits :=
  inferInstanceAs (Decidable ((e.has_comparator_ = true → e.comparator_.length < 2 ^ 32) ∧
    (e.is_column_family_add_ = true → e.column_family_name_.length < 2 ^ 32) ∧
    ∀ p ∈ e.new_files_, p.2.smallest.rep_.length < 2 ^ 32 ∧ p.2.largest.rep_.length < 2 ^ 32))

/-- what a manifest record keeps of the edit: every field that `EncodeTo` writes; a value whose
`has_` flag is off, and the name of a column family that is not added, are cleared -/
def recorded (e : VersionEdit) : VersionEdit :=
  { e with
    comparator_ := if e.has_comparator_ then e.comparator_ else []
    log_number_ := if e.has_log_number_ then e.log_number_ else 0
    prev_log_number_ := if e.has_prev_log_number_ then e.prev_log_number_ else 0
    next_file_number_ := if e.has_next_file_number_ then e.next_file_number_ else 0
    last_sequence_ := if e.has_last_sequence_ then e.last_sequence_ else 0
    max_column_family_ := if e.has_max_column_family_ then e.max_column_family_ else 0
    column_family_name_ := if e.is_column_family_add_ then e.column_family_name_ else [] }

/-! ## Encoding -/

/-- the fields of a new-file record after its tag: level, number, path id where `with_path_id`,
size, smallest and largest keys, smallest and largest sequence numbers -/
def encodeFileFields (with_path_id : Bool) (level : Int32) (f : FileMetaData) : List UInt8 :=
  encodeVarint32 level.toUInt32 ++ (encodeVarint64 f.fd.GetNumber ++
    ((if with_path_id then encodeVarint32 f.fd.GetPathId else []) ++
    (encodeVarint64 f.fd.GetFileSize ++
    (encodeVarint32 (UInt32.ofNat f.smallest.rep_.length) ++ (f.smallest.rep_ ++
    (encodeVarint32 (UInt32.ofNat f.largest.rep_.length) ++ (f.largest.rep_ ++
    (encodeVarint64 f.smallest_seqno ++ encodeVarint64 f.largest_seqno))))))))

/-- the custom fields of a `kNewFile4` record: the path id where it is not 0, the compaction mark,
the terminator -/
def encodeCustomFields (f : FileMetaData) : List UInt8 :=
  (if f.fd.GetPathId = 0 then []
    else encodeVarint32 CustomTag.kPathId.toUInt32 ++
      (encodeVarint32 (UInt32.ofNat [f.fd.GetPathId.toUInt8].length) ++ [f.fd.GetPathId.toUInt8])) ++
  (encodeVarint32 CustomTag.kNeedCompaction.toUInt32 ++
    (encodeVarint32 (UInt32.ofNat [(1 : UInt8)].length) ++ ([1] ++
      encodeVarint32 CustomTag.kTerminate.toUInt32)))

/-- the three formats of a new file -/
theorem EncodeNewFile_eq (dst : List UInt8) (level : Int32) (f : FileMetaData) :
    EncodeNewFile dst level f = dst ++
      if f.marked_for_compaction then
        encodeVarint32 Tag.kNewFile4.toUInt32 ++
          (encodeFileFields false level f ++ encodeCustomFields f)
      else if f.fd.GetPathId = 0 then
        encodeVarint32 Tag.kNewFile2.toUInt32 ++ encodeFileFields false level f
      else encodeVarint32 Tag.kNewFile3.toUInt32 ++ encodeFileFields true level f := by
  unfold EncodeNewFile
  by_cases hm : f.marked_for_compaction <;> by_cases hp : f.fd.GetPathId = 0 <;>
    simp [hm, hp, encodeFileFields, encodeCustomFields, putVarint32, putVarint64,
      putLengthPrefixedSlice_eq, InternalKey.Encode]

theorem flatMap_optRecord (b : Bool) (r : Record) :
    (optRecord b r).flatMap Record.encode = if b then r.encode else [] := by
  cases b <;> simp [optRecord]

theorem EncodeNewFiles_eq (l : List (Int32 × FileMetaData))
    (hvalid : ∀ p ∈ l, p.2.smallest.Valid = true ∧ p.2.largest.Valid = true) (dst : List UInt8) :
    EncodeNewFiles l dst = (true, dst ++ (l.map fun p => Record.newFile p.1 p.2).flatMap Record.encode) := by
  induction l generalizing dst with
  | nil => simp [EncodeNewFiles]
  | cons p l ih =>
    obtain ⟨hs, hl⟩ := hvalid p List.mem_cons_self
    rw [EncodeNewFiles, if_neg (by simp [hs, hl]), ih (fun q hq => hvalid q (List.mem_cons_of_mem _ hq)),
      EncodeNewFile_eq]
    simp [Record.encode, EncodeNewFile_eq]

/-- `EncodeTo` writes the records of the edit, and succeeds where the keys of the new files are
valid -/
theorem EncodeTo_eq (e : VersionEdit)
    (hvalid : ∀ p ∈ e.new_files_, p.2.smallest.Valid = true ∧ p.2.largest.Valid = true)
    (dst : List UInt8) :
    e.EncodeTo dst = (true, dst ++ (records e).flatMap Record.encode) := by
  -- without unfolding the `let`s, each conditional write is `dst ++ if c then .. else []`
  simp -zeta only [EncodeTo, putVarint32, putVarint64, putLengthPrefixedSlice_eq,
    List.append_assoc, List.ite_append_left, List.foldl_append_eq_append_flatMap,
    EncodeNewFiles_eq _ hvalid]
  -- the column family id is written where it is not 0, a test `simp` turns around
  by_cases hcf : e.column_family_ = 0 <;>
    simp [hcf, records, flatMap_optRecord, Record.encode, EncodeNewFile_eq, putVarint32,
      putVarint64, putLengthPrefixedSlice_eq, List.flatMap_map]

/-! ## Reading the fields back -/

theorem GetLevel_encode (level : Int32) (rest : List UInt8) :
    GetLevel (encodeVarint32 level.toUInt32 ++ rest) = some (level, rest) := by
  rw [GetLevel, Reader.bind_some (getVarint32_encodeVarint32 _ _), Reader.pure_apply,
    Int32.toInt32_toUInt32]

theorem GetInternalKey_encode {k : InternalKey} (hk : k.Valid = true)
    (hlen : k.rep_.length < 2 ^ 32) (rest : List UInt8) :
    GetInternalKey (encodeVarint32 (UInt32.ofNat k.rep_.length) ++ (k.rep_ ++ rest)) =
      some (k, rest) := by
  rw [GetInternalKey, Reader.bind_some (getLengthPrefixedSlice_encode hlen rest)]
  simp [hk]

theorem readFileHead_encode (with_path_id : Bool) (level : Int32) (number : UInt64)
    (path_id : UInt32) (file_size : UInt64) (rest : List UInt8) :
    readFileHead with_path_id (encodeVarint32 level.toUInt32 ++ (encodeVarint64 number ++
      ((if with_path_id then encodeVarint32 path_id else []) ++ (encodeVarint64 file_size ++ rest)))) =
      some ((level, number, if with_path_id then path_id else 0, file_size), rest) := by
  rw [readFileHead, Reader.bind_some (GetLevel_encode _ _),
    Reader.bind_some (getVarint64_encodeVarint64 _ _)]
  cases with_path_id
  · simp only [Bool.false_eq_true, if_false, List.nil_append]
    rw [Reader.bind_some (Reader.pure_apply _ _), Reader.bind_some (getVarint64_encodeVarint64 _ _),
      Reader.pure_apply]
  · simp only [if_true]
    rw [Reader.bind_some (getVarint32_encodeVarint32 _ _),
      Reader.bind_some (getVarint64_encodeVarint64 _ _), Reader.pure_apply]

theorem readFileKeys_encode {smallest largest : InternalKey} (hs : smallest.Valid = true)
    (hl : largest.Valid = true) (hsl : smallest.rep_.length < 2 ^ 32)
    (hll : largest.rep_.length < 2 ^ 32) (rest : List UInt8) :
    readFileKeys (encodeVarint32 (UInt32.ofNat smallest.rep_.length) ++ (smallest.rep_ ++
      (encodeVarint32 (UInt32.ofNat largest.rep_.length) ++ (largest.rep_ ++ rest)))) =
      some ((smallest, largest), rest) := by
  rw [readFileKeys, Reader.bind_some (GetInternalKey_encode hs hsl _),
    Reader.bind_some (GetInternalKey_encode hl hll _), Reader.pure_apply]

theorem readFileSeqnos_encode (smallest_seqno largest_seqno : UInt64) (rest : List UInt8) :
    readFileSeqnos (encodeVarint64 smallest_seqno ++ (encodeVarint64 largest_seqno ++ rest)) =
      some ((smallest_seqno, largest_seqno), rest) := by
  rw [readFileSeqnos, Reader.bind_some (getVarint64_encodeVarint64 _ _),
    Reader.bind_some (getVarint64_encodeVarint64 _ _), Reader.pure_apply]

theorem readNewFileFields_encode (with_path_id : Bool) {level : Int32} {f : FileMetaData}
    (hf : (Record.newFile level f).Fits) (rest : List UInt8) :
    readNewFileFields with_path_id (encodeFileFields with_path_id level f ++ rest) =
      some (((level, f.fd.GetNumber, if with_path_id then f.fd.GetPathId else 0, f.fd.GetFileSize),
        (f.smallest, f.largest), (f.smallest_seqno, f.largest_seqno)), rest) := by
  obtain ⟨hs, hl, hsl, hll⟩ := hf
  simp only [encodeFileFields, List.append_assoc]
  rw [readNewFileFields, Reader.bind_some (readFileHead_encode _ _ _ _ _ _),
    Reader.bind_some (readFileKeys_encode hs hl hsl hll _),
    Reader.bind_some (readFileSeqnos_encode _ _ _), Reader.pure_apply]

theorem readDeletedFile_encode (level : Int32) (number : UInt64) (rest : List UInt8) :
    readDeletedFile (encodeVarint32 level.toUInt32 ++ (encodeVarint64 number ++ rest)) =
      some ((level, number), rest) := by
  rw [readDeletedFile, Reader.bind_some (GetLevel_encode _ _),
    Reader.bind_some (getVarint64_encodeVarint64 _ _), Reader.pure_apply]

/-! ## The custom fields of `kNewFile4` -/

theorem decodeCustomFields_kTerminate (path_id : UInt32) (marked : Bool) (rest : List UInt8) :
    decodeCustomFields path_id marked (encodeVarint32 CustomTag.kTerminate.toUInt32 ++ rest) =
      .ok (path_id, marked, rest) := by
  rw [decodeCustomFields]
  split
  next h₁ => rw [getVarint32_encodeVarint32] at h₁; cases h₁
  next tag rest' h₁ =>
    rw [getVarint32_encodeVarint32] at h₁
    cases h₁
    rw [if_pos rfl]

theorem decodeCustomFields_kPathId {b : UInt8} (hb : b.toUInt32 ≤ 3) (path_id : UInt32)
    (marked : Bool) (rest : List UInt8) :
    decodeCustomFields path_id marked (encodeVarint32 CustomTag.kPathId.toUInt32 ++
      (encodeVarint32 (UInt32.ofNat [b].length) ++ ([b] ++ rest))) =
      decodeCustomFields b.toUInt32 marked rest := by
  rw [decodeCustomFields]
  split
  next h₁ => rw [getVarint32_encodeVarint32] at h₁; cases h₁
  next tag rest' h₁ =>
    rw [getVarint32_encodeVarint32] at h₁
    cases h₁
    rw [if_neg (by decide)]
    split
    next h₂ => rw [getLengthPrefixedSlice_encode (by simp)] at h₂; cases h₂
    next field rest'' h₂ =>
      rw [getLengthPrefixedSlice_encode (by simp)] at h₂
      cases h₂
      simp [hb]

theorem decodeCustomFields_kNeedCompaction (b : UInt8) (path_id : UInt32) (marked : Bool)
    (rest : List UInt8) :
    decodeCustomFields path_id marked (encodeVarint32 CustomTag.kNeedCompaction.toUInt32 ++
      (encodeVarint32 (UInt32.ofNat [b].length) ++ ([b] ++ rest))) =
      decodeCustomFields path_id (b = 1) rest := by
  rw [decodeCustomFields]
  split
  next h₁ => rw [getVarint32_encodeVarint32] at h₁; cases h₁
  next tag rest' h₁ =>
    rw [getVarint32_encodeVarint32] at h₁
    cases h₁
    rw [if_neg (by decide)]
    split
    next h₂ => rw [getLengthPrefixedSlice_encode (by simp)] at h₂; cases h₂
    next field rest'' h₂ =>
      rw [getLengthPrefixedSlice_encode (by simp)] at h₂
      cases h₂
      simp

theorem GetPathId_toUInt8_toUInt32 (fd : FileDescriptor) :
    fd.GetPathId.toUInt8.toUInt32 = fd.GetPathId := by
  have h := fd.GetPathId_le
  apply UInt32.toNat_inj.mp
  rw [UInt8.toNat_toUInt32, UInt32.toNat_toUInt8]
  omega

/-- the custom fields written for a file give back its path id and the mark -/
theorem decodeCustomFields_encode (f : FileMetaData) (rest : List UInt8) :
    decodeCustomFields 0 false (encodeCustomFields f ++ rest) = .ok (f.fd.GetPathId, true, rest) := by
  by_cases hp : f.fd.GetPathId = 0
  · simp only [encodeCustomFields, hp, if_true, List.nil_append, List.append_assoc]
    rw [decodeCustomFields_kNeedCompaction, decodeCustomFields_kTerminate]
    rfl
  · have hb : f.fd.GetPathId.toUInt8.toUInt32 ≤ 3 := by
      rw [GetPathId_toUInt8_toUInt32, UInt32.le_iff_toNat_le]
      exact f.fd.GetPathId_le
    simp only [encodeCustomFields, hp, if_false, List.append_assoc]
    rw [decodeCustomFields_kPathId hb, decodeCustomFields_kNeedCompaction,
      decodeCustomFields_kTerminate, GetPathId_toUInt8_toUInt32]
    rfl

/-! ## One record -/

theorem DecodeNewFile4From_encode {level : Int32} {f : FileMetaData}
    (hf : (Record.newFile level f).Fits) (hm : f.marked_for_compaction = true) (e : VersionEdit)
    (rest : List UInt8) :
    DecodeNewFile4From e (encodeFileFields false level f ++ (encodeCustomFields f ++ rest)) =
      .ok (e.AddFile level f, rest) := by
  rw [DecodeNewFile4From, readNewFileFields_encode false hf]
  simp only [decodeCustomFields_encode, FileDescriptor.new_GetNumber_GetPathId, AddFile]
  cases f
  cases hm
  rfl

/-- what `readOr` does when the reader succeeds -/
theorem readOr_of_some {α : Type} {msg : String} {r : Reader UInt8 α} {input rest : List UInt8}
    {a : α} (set : α → VersionEdit × FileMetaData) (h : r input = some (a, rest)) :
    readOr msg r input set = .ok ((set a).1, (set a).2, rest) := by
  rw [readOr, h]

/-- a `kNewFile2` or `kNewFile3` record fills the scratch file; where that file was not marked
for compaction, it is the file of the record -/
theorem scratch_update {f file : FileMetaData} (hf : f.marked_for_compaction = false)
    (hm : file.marked_for_compaction = false) :
    ({ f with
        fd := file.fd, smallest := file.smallest, largest := file.largest,
        smallest_seqno := file.smallest_seqno, largest_seqno := file.largest_seqno } : FileMetaData) =
      file := by
  cases f
  cases file
  simp_all

theorem decodeRecord_kNewFile2 {level : Int32} {file : FileMetaData}
    (hr : (Record.newFile level file).Fits) (hp : file.fd.GetPathId = 0)
    (hm : file.marked_for_compaction = false) (e : VersionEdit) {f : FileMetaData}
    (hf : f.marked_for_compaction = false) (rest : List UInt8) :
    decodeRecord e f Tag.kNewFile2.toUInt32 (encodeFileFields false level file ++ rest) =
      .ok (e.AddFile level file, file, rest) := by
  have hfd : FileDescriptor.new file.fd.GetNumber 0 file.fd.GetFileSize = file.fd := by
    rw [← hp, FileDescriptor.new_GetNumber_GetPathId]
  rw [decodeRecord, Tag.ofUInt32_toUInt32]
  simp only [readOr_of_some _ (readNewFileFields_encode false hr rest), hfd,
    scratch_update hf hm, AddFile]

theorem decodeRecord_kNewFile3 {level : Int32} {file : FileMetaData}
    (hr : (Record.newFile level file).Fits) (hm : file.marked_for_compaction = false)
    (e : VersionEdit) {f : FileMetaData} (hf : f.marked_for_compaction = false)
    (rest : List UInt8) :
    decodeRecord e f Tag.kNewFile3.toUInt32 (encodeFileFields true level file ++ rest) =
      .ok (e.AddFile level file, file, rest) := by
  rw [decodeRecord, Tag.ofUInt32_toUInt32]
  simp only [readOr_of_some _ (readNewFileFields_encode true hr rest), if_true,
    FileDescriptor.new_GetNumber_GetPathId, scratch_update hf hm, AddFile]

theorem decodeRecord_kNewFile4 {level : Int32} {file : FileMetaData}
    (hr : (Record.newFile level file).Fits) (hm : file.marked_for_compaction = true)
    (e : VersionEdit) (f : FileMetaData) (rest : List UInt8) :
    decodeRecord e f Tag.kNewFile4.toUInt32
      (encodeFileFields false level file ++ (encodeCustomFields file ++ rest)) =
      .ok (e.AddFile level file, f, rest) := by
  rw [decodeRecord, Tag.ofUInt32_toUInt32]
  simp only [DecodeNewFile4From_encode hr hm]

/-! ## The loop -/

theorem decodeLoop_nil (e : VersionEdit) (f : FileMetaData) : decodeLoop e f [] = (e, none) := by
  rw [decodeLoop]
  split
  next => rfl
  next tag rest h₁ => exact absurd (getVarint32_suffix h₁) (Nat.not_lt_zero _)

/-- a tag whose record is read: the loop goes on after it -/
theorem decodeLoop_tag {e e' : VersionEdit} {f f' : FileMetaData} {tag : UInt32}
    {input rest : List UInt8} (h : decodeRecord e f tag input = .ok (e', f', rest)) :
    decodeLoop e f (encodeVarint32 tag ++ input) = decodeLoop e' f' rest := by
  rw [decodeLoop]
  split
  next h₁ => rw [getVarint32_encodeVarint32] at h₁; cases h₁
  next tag' input' h₁ =>
    rw [getVarint32_encodeVarint32] at h₁
    cases h₁
    split
    next h₂ => rw [h] at h₂; cases h₂
    next h₂ =>
      rw [h] at h₂
      cases h₂
      rfl

theorem marked_scratch {f : FileMetaData} (hf : f.marked_for_compaction = false) (r : Record) :
    (r.scratch f).marked_for_compaction = false := by
  cases r with
  | newFile level file =>
    simp only [Record.scratch]
    split
    · exact hf
    · simp_all
  | _ => exact hf

/-- one record read back: its setter, the scratch file left never marked for compaction -/
theorem decodeLoop_encode (r : Record) (hr : r.Fits) (e : VersionEdit) {f : FileMetaData}
    (hf : f.marked_for_compaction = false) (rest : List UInt8) :
    decodeLoop e f (r.encode ++ rest) = decodeLoop (r.apply e) (r.scratch f) rest := by
  cases r with
  | newFile level file =>
    simp only [Record.encode, EncodeNewFile_eq, List.nil_append, Record.scratch, Record.apply]
    cases hm : file.marked_for_compaction
    · simp only [Bool.false_eq_true, if_false]
      by_cases hp : file.fd.GetPathId = 0
      · simp only [hp, if_true, List.append_assoc]
        exact decodeLoop_tag (decodeRecord_kNewFile2 hr hp hm e hf rest)
      · simp only [hp, if_false, List.append_assoc]
        exact decodeLoop_tag (decodeRecord_kNewFile3 hr hm e hf rest)
    · simp only [if_true, List.append_assoc]
      exact decodeLoop_tag (decodeRecord_kNewFile4 hr hm e f rest)
  | comparator name | columnFamilyAdd name =>
    simp only [Record.encode, putLengthPrefixedSlice_eq, putVarint32, List.nil_append,
      List.append_assoc]
    refine decodeLoop_tag ?_
    rw [decodeRecord, Tag.ofUInt32_toUInt32]
    exact readOr_of_some _ (getLengthPrefixedSlice_encode hr rest)
  | deletedFile level number =>
    simp only [Record.encode, putVarint32, putVarint64, List.nil_append, List.append_assoc]
    refine decodeLoop_tag ?_
    rw [decodeRecord, Tag.ofUInt32_toUInt32]
    exact readOr_of_some _ (readDeletedFile_encode level number rest)
  | columnFamilyDrop =>
    simp only [Record.encode, putVarint32, List.nil_append]
    refine decodeLoop_tag ?_
    rw [decodeRecord, Tag.ofUInt32_toUInt32]
    rfl
  | logNumber n | prevLogNumber n | nextFileNumber n | lastSequence n =>
    simp only [Record.encode, putVarint32, putVarint64, List.nil_append, List.append_assoc]
    refine decodeLoop_tag ?_
    rw [decodeRecord, Tag.ofUInt32_toUInt32]
    exact readOr_of_some _ (getVarint64_encodeVarint64 n rest)
  | maxColumnFamily n | columnFamily n =>
    simp only [Record.encode, putVarint32, List.nil_append, List.append_assoc]
    refine decodeLoop_tag ?_
    rw [decodeRecord, Tag.ofUInt32_toUInt32]
    exact readOr_of_some _ (getVarint32_encodeVarint32 n rest)

/-- the records read back one after the other, with no message -/
theorem decodeLoop_flatMap (rs : List Record) (hrs : ∀ r ∈ rs, r.Fits) (e : VersionEdit)
    {f : FileMetaData} (hf : f.marked_for_compaction = false) :
    decodeLoop e f (rs.flatMap Record.encode) = (applyAll rs e, none) := by
  induction rs generalizing e f with
  | nil => exact decodeLoop_nil e f
  | cons r rs ih =>
    rw [List.flatMap_cons, decodeLoop_encode r (hrs r List.mem_cons_self) e hf,
      ih (fun r' hr' => hrs r' (List.mem_cons_of_mem _ hr')) _ (marked_scratch hf r)]
    rfl

/-! ## The setters of the records -/

theorem DeletedFileSet.insert_of_forall_lt {s : DeletedFileSet} {p : Int32 × UInt64}
    (h : ∀ q ∈ s.toList, deletedFileKey q < deletedFileKey p) :
    (s.insert p).toList = s.toList ++ [p] := by
  have hp : p ∉ s.toList := fun hmem => lt_irrefl _ (h p hmem)
  rw [DeletedFileSet.insert, dif_neg hp]
  exact List.insertByKey_of_forall_lt h

/-- inserting elements above all the set holds, in increasing order, appends them -/
theorem DeletedFileSet.toList_foldl_insert (l : List (Int32 × UInt64)) (s : DeletedFileSet)
    (hl : (s.toList ++ l).Pairwise fun a b => deletedFileKey a < deletedFileKey b) :
    (l.foldl DeletedFileSet.insert s).toList = s.toList ++ l := by
  induction l generalizing s with
  | nil => simp
  | cons p l ih =>
    have hlt : ∀ q ∈ s.toList, deletedFileKey q < deletedFileKey p :=
      fun q hq => (List.pairwise_append.mp hl).2.2 q hq p List.mem_cons_self
    have hs' : (s.insert p).toList = s.toList ++ [p] := DeletedFileSet.insert_of_forall_lt hlt
    rw [List.foldl_cons, ih (s.insert p) (by rwa [hs', List.append_assoc]), hs',
      List.append_assoc, List.singleton_append]

attribute [ext] DeletedFileSet VersionEdit

/-- a set is rebuilt by inserting its elements, in order, into the empty set -/
theorem DeletedFileSet.foldl_insert_empty (s : DeletedFileSet) :
    s.toList.foldl DeletedFileSet.insert DeletedFileSet.empty = s :=
  DeletedFileSet.ext (DeletedFileSet.toList_foldl_insert s.toList .empty s.sorted)

theorem applyAll_append (rs rs' : List Record) (e : VersionEdit) :
    applyAll (rs ++ rs') e = applyAll rs' (applyAll rs e) :=
  List.foldl_append

theorem applyAll_optRecord (b : Bool) (r : Record) (e : VersionEdit) :
    applyAll (optRecord b r) e = if b then r.apply e else e := by
  cases b <;> rfl

theorem applyAll_deletedFiles (l : List (Int32 × UInt64)) (e : VersionEdit) :
    applyAll (l.map fun d => .deletedFile d.1 d.2) e =
      { e with deleted_files_ := l.foldl DeletedFileSet.insert e.deleted_files_ } := by
  induction l generalizing e with
  | nil => rfl
  | cons d l ih => exact ih (e.DeleteFile d.1 d.2)

theorem applyAll_newFiles (l : List (Int32 × FileMetaData)) (e : VersionEdit) :
    applyAll (l.map fun p => .newFile p.1 p.2) e = { e with new_files_ := e.new_files_ ++ l } := by
  induction l generalizing e with
  | nil => simp [applyAll]
  | cons p l ih =>
    simp only [List.map_cons, applyAll, List.foldl_cons] at ih ⊢
    rw [ih]
    simp [Record.apply, AddFile]

/-- the setters of the records of `e`, from a cleared edit, give back what the records keep -/
theorem applyAll_records (e : VersionEdit) : applyAll (records e) Clear = recorded e := by
  simp only [records, applyAll_append, applyAll_optRecord, applyAll_deletedFiles,
    applyAll_newFiles]
  -- each field is set by one record at most: push it through the conditional setters
  apply VersionEdit.ext
  all_goals simp [apply_ite comparator_, apply_ite log_number_, apply_ite prev_log_number_,
    apply_ite next_file_number_, apply_ite last_sequence_, apply_ite max_column_family_,
    apply_ite has_comparator_, apply_ite has_log_number_, apply_ite has_prev_log_number_,
    apply_ite has_next_file_number_, apply_ite has_last_sequence_,
    apply_ite has_max_column_family_, apply_ite deleted_files_, apply_ite new_files_,
    apply_ite column_family_, apply_ite is_column_family_add_, apply_ite is_column_family_drop_,
    apply_ite column_family_name_, Record.apply, SetComparatorName, SetLogNumber,
    SetPrevLogNumber, SetNextFile, SetLastSequence, SetMaxColumnFamily, SetColumnFamily,
    AddColumnFamily, DropColumnFamily, Clear, recorded, DeletedFileSet.foldl_insert_empty,
    ite_eq_right_iff, @eq_comm UInt32 0]

/-! ## The round trip -/

theorem records_fits {e : VersionEdit}
    (hvalid : ∀ p ∈ e.new_files_, p.2.smallest.Valid = true ∧ p.2.largest.Valid = true)
    (hfits : e.Fits) : ∀ r ∈ records e, r.Fits := by
  obtain ⟨hcomparator, hadd, hsizes⟩ := hfits
  intro r hr
  cases r with
  | comparator name =>
    simp [records, optRecord] at hr
    obtain ⟨hhas, rfl⟩ := hr
    exact hcomparator hhas
  | columnFamilyAdd name =>
    simp [records, optRecord] at hr
    obtain ⟨hhas, rfl⟩ := hr
    exact hadd hhas
  | newFile level f =>
    simp [records, optRecord] at hr
    exact ⟨(hvalid _ hr).1, (hvalid _ hr).2, (hsizes _ hr).1, (hsizes _ hr).2⟩
  | _ => trivial

theorem manifest_record_round_trip (e : VersionEdit)
    (hvalid : ∀ p ∈ e.new_files_, p.2.smallest.Valid = true ∧ p.2.largest.Valid = true)
    (hfits : e.Fits) :
    (e.EncodeTo []).1 = true ∧ DecodeFrom (e.EncodeTo []).2 = (e.recorded, Status.OK) := by
  rw [EncodeTo_eq e hvalid, List.nil_append]
  refine ⟨rfl, ?_⟩
  rw [DecodeFrom, decodeLoop_flatMap _ (records_fits hvalid hfits) Clear rfl, applyAll_records]

theorem manifest_record_round_trip_file4 :
    let f : FileMetaData :=
      { FileMetaData.new with
        fd := FileDescriptor.new 9 2 100, smallest := ⟨[97, 1, 0, 0, 0, 0, 0, 0, 0]⟩,
        largest := ⟨[98, 1, 0, 0, 0, 0, 0, 0, 0]⟩, marked_for_compaction := true }
    let e : VersionEdit := ((Clear.SetComparatorName [98]).SetLogNumber 7).AddFile 1 f
    ((∀ p ∈ e.new_files_, p.2.smallest.Valid = true ∧ p.2.largest.Valid = true) ∧ e.Fits) ∧
      (e.EncodeTo []).1 = true ∧ DecodeFrom (e.EncodeTo []).2 = (e.recorded, Status.OK) :=
  ⟨⟨by decide, by decide⟩, manifest_record_round_trip _ (by decide) (by decide)⟩

/-- a tag no case of "switch (tag)" knows stops the loop -/
theorem decodeLoop_unknown_tag {tag : UInt32} (h : Tag.ofUInt32 tag = none) (e : VersionEdit)
    (f : FileMetaData) (rest : List UInt8) :
    decodeLoop e f (encodeVarint32 tag ++ rest) = (e, some "unknown tag") := by
  rw [decodeLoop]
  split
  next h₁ => rw [getVarint32_encodeVarint32] at h₁; cases h₁
  next tag' input' h₁ =>
    rw [getVarint32_encodeVarint32] at h₁
    cases h₁
    split
    next msg h₂ =>
      rw [decodeRecord, h] at h₂
      cases h₂
      rfl
    next h₂ => rw [decodeRecord, h] at h₂; cases h₂

/-- a loop stopped by a message is a corruption -/
theorem DecodeFrom_of_decodeLoop {src : List UInt8} {e : VersionEdit} {msg : String}
    (h : decodeLoop Clear FileMetaData.new src = (e, some msg)) :
    DecodeFrom src = (e, Status.Corruption ("VersionEdit: " ++ msg)) := by
  rw [DecodeFrom, h]

/-- a comparator name of `2^32` bytes: its length is written as 0, the name is read back empty,
and its first byte is taken for a tag -/
theorem manifest_record_long_comparator :
    let e : VersionEdit := Clear.SetComparatorName (List.replicate (2 ^ 32) 0)
    (e.EncodeTo []).1 = true ∧
      DecodeFrom (e.EncodeTo []).2 =
        (Clear.SetComparatorName [], Status.Corruption "VersionEdit: unknown tag") := by
  intro e
  have hrecords : records e = [.comparator (List.replicate (2 ^ 32) 0)] := by
    simp only [e, records, optRecord, SetComparatorName, Clear, DeletedFileSet.empty, List.map_nil,
      if_true, Bool.false_eq_true, if_false, List.append_nil, ne_eq, not_true_eq_false,
      decide_false]
  have hvalid : ∀ p ∈ e.new_files_, p.2.smallest.Valid = true ∧ p.2.largest.Valid = true := by
    intro p hp
    simp only [e, SetComparatorName, Clear, List.not_mem_nil] at hp
  have hlen : UInt32.ofNat (List.replicate (2 ^ 32) (0 : UInt8)).length = 0 := by
    rw [List.length_replicate]
    decide
  have hname : decodeRecord Clear FileMetaData.new Tag.kComparator.toUInt32
      (encodeVarint32 0 ++ List.replicate (2 ^ 32) 0) =
      .ok (Clear.SetComparatorName [], FileMetaData.new, List.replicate (2 ^ 32) 0) := by
    rw [decodeRecord, Tag.ofUInt32_toUInt32]
    exact readOr_of_some _ (getLengthPrefixedSlice_encode (by norm_num : ([] : List UInt8).length < 2 ^ 32) _)
  have hzeros : List.replicate (2 ^ 32) (0 : UInt8) =
      encodeVarint32 0 ++ List.replicate (2 ^ 32 - 1) 0 := by
    have h : ∀ n, List.replicate (n + 1) (0 : UInt8) = encodeVarint32 0 ++ List.replicate n 0 :=
      fun n => rfl
    rw [← h, Nat.sub_add_cancel Nat.one_le_two_pow]
  have hloop : decodeLoop Clear FileMetaData.new
      (encodeVarint32 Tag.kComparator.toUInt32 ++ (encodeVarint32 0 ++ List.replicate (2 ^ 32) 0)) =
      (Clear.SetComparatorName [], some "unknown tag") := by
    rw [decodeLoop_tag hname, hzeros, decodeLoop_unknown_tag rfl]
  have henc : e.EncodeTo [] = (true, encodeVarint32 Tag.kComparator.toUInt32 ++
      (encodeVarint32 0 ++ List.replicate (2 ^ 32) 0)) := by
    rw [EncodeTo_eq e hvalid [], hrecords, List.flatMap_cons, List.flatMap_nil, List.append_nil,
      List.nil_append, Record.encode, putLengthPrefixedSlice_eq, putVarint32, List.nil_append, hlen]
  rw [henc]
  exact ⟨rfl, DecodeFrom_of_decodeLoop hloop⟩

end VersionEdit

end RocksDB
