import RocksDB.Db.LogWriter
import RocksDB.Util.Status

/-!
# db/log_reader.cc: reading the write-ahead log back

The reader holds one block in `buffer_` and takes physical records off its front.
`ReadPhysicalRecord` refills the buffer a block at a time through `ReadMore`, which drops what is
left of the old block: a trailer.  It parses the header, checks the length, the zero type, the
checksum and the initial offset, and returns the record's type, or one of the special values
`kEof`, `kBadRecord`, ... that follow the types.  `ReadRecord` joins fragments into a record and
decides, by the recovery mode, which faults end the read and which are reported and skipped.

* `Reader.ReadMore`            the next block, or why there is none;
* `Reader.ReadPhysicalRecord`  at most two blocks are read before it returns
                               (`ReadPhysicalRecord_decreasing`);
* `Reader.ReadRecordLoop`      the `while (true)` of `ReadRecord`.  It runs once for each
                               physical record, so `ReadRecord` gives it one turn for each byte
                               left, and one more; `none` is a loop that does not end.

The file is the list of its bytes after the position indicator; reads and skips do not fail, so
`read_error_` is never set and is left out.  `reporter_` is the list `reports` of the
`Corruption(bytes, status)` calls it receives.  `char` is signed: a type byte from 128 up is
sign-extended to `unsigned int` (`typeOf`).
-/

set_option linter.unusedVariables false

namespace RocksDB

namespace log

/-- `WALRecoveryMode` (include/rocksdb/options.h) -/
inductive WALRecoveryMode where
  | kTolerateCorruptedTailRecords
  | kAbsoluteConsistency
  | kPointInTimeRecovery
  | kSkipAnyCorruptedRecords
  deriving DecidableEq, Repr

/-! ## The special values after the record types -/

def kEof : Nat := kMaxRecordType + 1

/-- an invalid physical record: a bad CRC, a zero-length record, or one before `initial_offset_` -/
def kBadRecord : Nat := kMaxRecordType + 2

/-- no valid header could be read -/
def kBadHeader : Nat := kMaxRecordType + 3

/-- a record from a previous user of the log -/
def kOldRecord : Nat := kMaxRecordType + 4

def kBadRecordLen : Nat := kMaxRecordType + 5

def kBadRecordChecksum : Nat := kMaxRecordType + 6

/-- `static_cast<unsigned int>` of a `char` -/
def typeOf (c : UInt8) : Nat := if c.toNat < 128 then c.toNat else c.toNat + (2 ^ 32 - 2 ^ 8)

structure Reader where
  file_ : List UInt8
  checksum_ : Bool
  buffer_ : List UInt8
  /-- the last read returned less than a block -/
  eof_ : Bool
  /-- where in its block the EOF was found -/
  eof_offset_ : Nat
  last_record_offset_ : Nat
  end_of_buffer_offset_ : Nat
  initial_offset_ : Nat
  log_number_ : UInt64
  recycled_ : Bool
  reports : List (Nat × Status)
  deriving DecidableEq, Repr

/-- what `ReadPhysicalRecord` returns, with what it leaves in `*result` and `*drop_size` -/
structure Physical where
  record_type : Nat
  result : List UInt8
  drop_size : Nat
  reader : Reader

namespace Reader

/-- `Reader(info_log, file, reporter, checksum, initial_offset, log_num)` -/
def new (file : List UInt8) (checksum : Bool) (initial_offset : Nat) (log_num : UInt64) : Reader where
  file_ := file
  checksum_ := checksum
  buffer_ := []
  eof_ := false
  eof_offset_ := 0
  last_record_offset_ := 0
  end_of_buffer_offset_ := 0
  initial_offset_ := initial_offset
  log_number_ := log_num
  recycled_ := false
  reports := []

/-- `ReportDrop(bytes, reason)`: the offset test is in `uint64_t` -/
def ReportDrop (r : Reader) (bytes : Nat) (reason : Status) : Reader :=
  if UInt64.ofNat r.initial_offset_ ≤
      UInt64.ofNat r.end_of_buffer_offset_ - UInt64.ofNat r.buffer_.length - UInt64.ofNat bytes then
    { r with reports := r.reports ++ [(bytes, reason)] }
  else r

def ReportCorruption (r : Reader) (bytes : Nat) (reason : String) : Reader :=
  r.ReportDrop bytes (Status.Corruption reason)

/-- `SkipToInitialBlock()`, which succeeds: the skip does not fail -/
def SkipToInitialBlock (r : Reader) : Reader :=
  let initial_offset_in_block := r.initial_offset_ % kBlockSize
  let block_start_location := r.initial_offset_ - initial_offset_in_block
  -- Don't search a block if we'd be in the trailer
  let block_start_location :=
    if initial_offset_in_block > kBlockSize - 6 then block_start_location + kBlockSize
    else block_start_location
  let r := { r with end_of_buffer_offset_ := block_start_location }
  if block_start_location > 0 then { r with file_ := r.file_.drop block_start_location } else r

/-- `ReadMore(drop_size, error)`: `.ok` with the reader when it returns true, `.error` with the
reader, `*drop_size` and `*error` when it returns false -/
def ReadMore (r : Reader) (drop_size : Nat) : Except (Reader × Nat × Nat) Reader :=
  if !r.eof_ then
    -- Last read was a full read, so this is a trailer to skip
    let buffer := r.file_.take kBlockSize
    let r := { r with
      buffer_ := buffer
      file_ := r.file_.drop kBlockSize
      end_of_buffer_offset_ := r.end_of_buffer_offset_ + buffer.length }
    if buffer.length < kBlockSize then .ok { r with eof_ := true, eof_offset_ := buffer.length }
    else .ok r
  -- a truncated header at the end of the file is not an error unless asked: report EOF
  else if r.buffer_.length ≠ 0 then .error ({ r with buffer_ := [] }, r.buffer_.length, kBadHeader)
  else .error ({ r with buffer_ := [] }, drop_size, kEof)

/-- what each read of `ReadPhysicalRecord`'s loop brings closer: the end of the file -/
def readMeasure (r : Reader) : Nat := if r.eof_ then 0 else r.file_.length + 1

theorem kBlockSize_pos : 0 < kBlockSize := by decide

/-- a read ends the file, or takes a whole block of it -/
theorem ReadMore_decreasing {r r' : Reader} {drop_size : Nat} (h : r.ReadMore drop_size = .ok r') :
    r'.readMeasure < r.readMeasure := by
  unfold ReadMore at h
  by_cases he : r.eof_ = true
  · rw [if_neg (by simp [he])] at h
    split at h <;> simp at h
  · have hne : r.eof_ = false := by simpa using he
    rw [if_pos (by simp [hne])] at h
    dsimp only at h
    split at h
    · simp only [Except.ok.injEq] at h
      subst h
      simp [readMeasure, hne]
    · rename_i hfull
      simp only [Except.ok.injEq] at h
      subst h
      rw [List.length_take] at hfull
      have hb := kBlockSize_pos
      simp only [readMeasure, hne, List.length_drop, Bool.false_eq_true, if_false]
      omega

/-- the checks of `ReadPhysicalRecord` once `header_size` header bytes are in `buffer_`: the
length, the zero type, the CRC and the initial offset, then the record -/
def checkRecord (r : Reader) (type length header_size drop_size : Nat) : Physical :=
  let header := r.buffer_
  if header_size + length > r.buffer_.length then
    let drop_size := r.buffer_.length
    let r := { r with buffer_ := [] }
    if !r.eof_ then ⟨kBadRecordLen, [], drop_size, r⟩
    -- the writer died in the middle of the record: report no corruption unless asked
    else if drop_size ≠ 0 then ⟨kBadHeader, [], drop_size, r⟩
    else ⟨kEof, [], drop_size, r⟩
  else if type = RecordType.kZeroType.toNat ∧ length = 0 then
    -- a region mmap writing preallocated: skipped without reporting a drop
    ⟨kBadRecord, [], drop_size, { r with buffer_ := [] }⟩
  else if r.checksum_ && crc32c.Unmask (decodeFixed32 header) !=
      crc32c.Value ((header.drop 6).take (length + header_size - 6)) 0 then
    -- Drop the rest of the buffer since "length" itself may have been corrupted
    ⟨kBadRecordChecksum, [], r.buffer_.length, { r with buffer_ := [] }⟩
  else
    let r := { r with buffer_ := r.buffer_.drop (header_size + length) }
    -- Skip physical record that started before initial_offset_
    if r.end_of_buffer_offset_ - r.buffer_.length - header_size - length < r.initial_offset_ then
      ⟨kBadRecord, [], drop_size, r⟩
    else ⟨type, (header.drop header_size).take length, drop_size, r⟩

/-- `ReadPhysicalRecord(result, drop_size)` -/
def ReadPhysicalRecord (r : Reader) (drop_size : Nat) : Physical :=
  -- We need at least the minimum header size
  if r.buffer_.length < kHeaderSize then
    match h : r.ReadMore drop_size with
    | .ok r' => r'.ReadPhysicalRecord drop_size
    | .error (r', drop_size', error) => ⟨error, [], drop_size', r'⟩
  else
    let header := r.buffer_
    let a := (header.getD 4 0).toNat
    let b := (header.getD 5 0).toNat
    let type := typeOf (header.getD 6 0)
    let length := a ||| (b <<< 8)
    if RecordType.kRecyclableFullType.toNat ≤ type ∧ type ≤ RecordType.kRecyclableLastType.toNat then
      let r₁ := if r.end_of_buffer_offset_ - r.buffer_.length = 0 then { r with recycled_ := true }
        else r
      -- We need enough for the larger header
      if r₁.buffer_.length < kRecyclableHeaderSize then
        match h : r₁.ReadMore drop_size with
        | .ok r' => r'.ReadPhysicalRecord drop_size
        | .error (r', drop_size', error) => ⟨error, [], drop_size', r'⟩
      else if (decodeFixed32 (header.drop 7)).toNat ≠ r₁.log_number_.toNat then
        ⟨kOldRecord, [], drop_size, r₁⟩
      else r₁.checkRecord type length kRecyclableHeaderSize drop_size
    else r.checkRecord type length kHeaderSize drop_size
termination_by r.readMeasure
decreasing_by
  · exact ReadMore_decreasing h
  · have hr₁ : r₁.readMeasure = r.readMeasure := by
      simp only [r₁]
      split <;> rfl
    exact hr₁ ▸ ReadMore_decreasing h

/-- the `while (true)` loop of `ReadRecord`: the fragment so far is in `scratch`, and the record
in it started at `prospective_record_offset` -/
def ReadRecordLoop (wal_recovery_mode : WALRecoveryMode) :
    Nat → Reader → Bool → Nat → List UInt8 → Option (Bool × List UInt8 × Reader)
  | 0, _, _, _, _ => none
  | fuel + 1, r, in_fragmented_record, prospective_record_offset, scratch =>
    let physical_record_offset := r.end_of_buffer_offset_ - r.buffer_.length
    let p := r.ReadPhysicalRecord 0
    let record_type := p.record_type
    let fragment := p.result
    let drop_size := p.drop_size
    let r := p.reader
    if record_type = RecordType.kFullType.toNat ∨
        record_type = RecordType.kRecyclableFullType.toNat then
      -- an empty kFirstType at the tail of a block, which earlier writers could emit
      let r := if in_fragmented_record ∧ scratch ≠ [] then
          r.ReportCorruption scratch.length "partial record without end(1)"
        else r
      some (true, fragment, { r with last_record_offset_ := physical_record_offset })
    else if record_type = RecordType.kFirstType.toNat ∨
        record_type = RecordType.kRecyclableFirstType.toNat then
      let r := if in_fragmented_record ∧ scratch ≠ [] then
          r.ReportCorruption scratch.length "partial record without end(2)"
        else r
      ReadRecordLoop wal_recovery_mode fuel r true physical_record_offset fragment
    else if record_type = RecordType.kMiddleType.toNat ∨
        record_type = RecordType.kRecyclableMiddleType.toNat then
      if !in_fragmented_record then
        ReadRecordLoop wal_recovery_mode fuel
          (r.ReportCorruption fragment.length "missing start of fragmented record(1)")
          in_fragmented_record prospective_record_offset scratch
      else
        ReadRecordLoop wal_recovery_mode fuel r in_fragmented_record prospective_record_offset
          (scratch ++ fragment)
    else if record_type = RecordType.kLastType.toNat ∨
        record_type = RecordType.kRecyclableLastType.toNat then
      if !in_fragmented_record then
        ReadRecordLoop wal_recovery_mode fuel
          (r.ReportCorruption fragment.length "missing start of fragmented record(2)")
          in_fragmented_record prospective_record_offset scratch
      else some (true, scratch ++ fragment, { r with last_record_offset_ := prospective_record_offset })
    else if record_type = kBadHeader ∨ record_type = kEof then
      -- `kBadHeader` falls through to `kEof`
      let r := if record_type = kBadHeader ∧ wal_recovery_mode = .kAbsoluteConsistency then
          r.ReportCorruption drop_size "truncated header"
        else r
      -- a writer that died before the next physical record: the record is ignored
      let r := if in_fragmented_record ∧ wal_recovery_mode = .kAbsoluteConsistency then
          r.ReportCorruption scratch.length "error reading trailing data"
        else r
      some (false, [], r)
    else if record_type = kOldRecord ∧ wal_recovery_mode ≠ .kSkipAnyCorruptedRecords then
      -- Treat a record from a previous instance of the log as EOF.
      let r := if in_fragmented_record ∧ wal_recovery_mode = .kAbsoluteConsistency then
          r.ReportCorruption scratch.length "error reading trailing data"
        else r
      some (false, [], r)
    else if record_type = kOldRecord ∨ record_type = kBadRecord then
      -- `kOldRecord` falls through to `kBadRecord` when corrupted records are skipped
      if in_fragmented_record then
        ReadRecordLoop wal_recovery_mode fuel
          (r.ReportCorruption scratch.length "error in middle of record") false
          prospective_record_offset []
      else
        ReadRecordLoop wal_recovery_mode fuel r in_fragmented_record prospective_record_offset scratch
    else if record_type = kBadRecordLen ∨ record_type = kBadRecordChecksum then
      if r.recycled_ ∧ wal_recovery_mode = .kTolerateCorruptedTailRecords then some (false, [], r)
      else
        let r := r.ReportCorruption drop_size
          (if record_type = kBadRecordLen then "bad record length" else "checksum mismatch")
        if in_fragmented_record then
          ReadRecordLoop wal_recovery_mode fuel
            (r.ReportCorruption scratch.length "error in middle of record") false
            prospective_record_offset []
        else
          ReadRecordLoop wal_recovery_mode fuel r in_fragmented_record prospective_record_offset
            scratch
    else
      let r := r.ReportCorruption
        (fragment.length + if in_fragmented_record then scratch.length else 0)
        ("unknown record type " ++ toString record_type)
      ReadRecordLoop wal_recovery_mode fuel r false prospective_record_offset []

/-- `ReadRecord(record, scratch, wal_recovery_mode)`: whether a record was read, the record, and
the reader after; `none` when it does not return -/
def ReadRecord (r : Reader) (wal_recovery_mode : WALRecoveryMode) :
    Option (Bool × List UInt8 × Reader) :=
  let r := if r.last_record_offset_ < r.initial_offset_ then r.SkipToInitialBlock else r
  ReadRecordLoop wal_recovery_mode (r.buffer_.length + r.file_.length + 1) r false 0 []

/-- `UnmarkEOF()`: look at the file again, first reading the rest of the block the EOF cut
(`consumed_bytes + buffer_.size() + remaining == kBlockSize`) -/
def UnmarkEOF (r : Reader) : Reader :=
  let r := { r with eof_ := false }
  if r.eof_offset_ = 0 then r
  else
    let remaining := kBlockSize - r.eof_offset_
    let read_buffer := r.file_.take remaining
    let added := read_buffer.length
    let r := { r with
      file_ := r.file_.drop remaining
      end_of_buffer_offset_ := r.end_of_buffer_offset_ + added
      buffer_ := r.buffer_ ++ read_buffer }
    if added < remaining then { r with eof_ := true, eof_offset_ := r.eof_offset_ + added }
    else { r with eof_offset_ := 0 }

/-- the loop `while (reader.ReadRecord(&record, &scratch))` with which a log's consumer reads it
(`Repairer::ConvertLogToTable`, db/repair.cc): the records in order, and the reader once
`ReadRecord` returns false; `none` when a call does not return or `fuel` calls are not enough -/
def ReadAll (r : Reader) (wal_recovery_mode : WALRecoveryMode) :
    Nat → Option (List (List UInt8) × Reader)
  | 0 => none
  | fuel + 1 =>
    match r.ReadRecord wal_recovery_mode with
    | none => none
    | some (false, _, r) => some ([], r)
    | some (true, record, r) =>
      (r.ReadAll wal_recovery_mode fuel).map fun (records, r) => (record :: records, r)

end Reader

end log

end RocksDB
