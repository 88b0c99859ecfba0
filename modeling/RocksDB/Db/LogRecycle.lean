import RocksDB.Db.LogRoundTrip

/-!
# Recycled logs whose number does not fit in 32 bits

A recyclable header holds the low 32 bits of the log number (`EncodeFixed32(buf + 7,
static_cast<uint32_t>(log_number_))`), while the reader compares them with its whole 64-bit
`log_number_` (`log_num != log_number_`).  From log number `2^32` on the two never agree, and the
first record of a recycled log reads as `kOldRecord`, a record of a previous user of the file:

* `recycled_log_reads_nothing`    in every mode but `kSkipAnyCorruptedRecords` the first
                                  `ReadRecord` returns false, as at the end of a log, and reports
                                  nothing;
* `recycled_log_skip_mode_spins`  with `kSkipAnyCorruptedRecords`, `kOldRecord` falls through to
                                  `kBadRecord`, which goes back to the loop with the record still
                                  in the buffer: the loop of `ReadRecord` does not end, whatever
                                  number of turns it is given.
-/

namespace RocksDB

namespace log

open Writer

/-! ## A header of another log -/

/-- a recyclable header whose log number is not the reader's: `kOldRecord`, with the record left
in the buffer -/
theorem ReadPhysicalRecord_old_record {r : Reader} {t : RecordType}
    (ht : RecordType.kRecyclableFullType.toNat ≤ t.toNat) {log_number : UInt64}
    {payload extra : List UInt8} (hbuf : r.buffer_ = header log_number t payload ++ payload ++ extra)
    (hn : payload.length < 2 ^ 16) (hne : log_number.toNat % 2 ^ 32 ≠ r.log_number_.toNat)
    (drop_size : Nat) :
    r.ReadPhysicalRecord drop_size = ⟨kOldRecord, [], drop_size,
      if r.end_of_buffer_offset_ - r.buffer_.length = 0 then { r with recycled_ := true } else r⟩ := by
  have hlen : (header log_number t payload ++ payload).length =
      kRecyclableHeaderSize + payload.length := by
    have hrec : ¬ t.toNat < RecordType.kRecyclableFullType.toNat := by omega
    rw [List.length_append, length_header, headerSizeOf, if_neg hrec]
  have hblen : kRecyclableHeaderSize ≤ r.buffer_.length := by
    rw [hbuf, List.length_append, hlen]
    omega
  have hge : ¬ r.buffer_.length < kHeaderSize := by
    simp only [kHeaderSize, kRecyclableHeaderSize] at hblen ⊢
    omega
  have hlast : t.toNat ≤ RecordType.kRecyclableLastType.toNat := by cases t <;> decide
  obtain ⟨h4, h5, h6⟩ := header_bytes log_number t payload (payload ++ extra)
  simp only [← List.append_assoc, ← hbuf] at h4 h5 h6
  have hold : (decodeFixed32 (r.buffer_.drop 7)).toNat ≠ r.log_number_.toNat := by
    rw [hbuf, List.append_assoc, decodeFixed32_logNumber _ ht, UInt64.toNat_toUInt32]
    exact hne
  -- whether the record starts the file only decides `recycled_`
  obtain ⟨b, hb⟩ : ∃ b, (if r.end_of_buffer_offset_ - r.buffer_.length = 0 then
      { r with recycled_ := true } else r) = { r with recycled_ := b } := by
    split
    · exact ⟨true, rfl⟩
    · exact ⟨r.recycled_, rfl⟩
  rw [Reader.ReadPhysicalRecord, if_neg hge]
  simp only [h4, h5, h6, length_bytes_decode _ hn, typeOf_toNat]
  rw [if_pos ⟨ht, hlast⟩, hb]
  dsimp only
  rw [if_neg (by omega), if_pos hold]

/-- a reader at the start of a log that begins with a recyclable header of another log number
reads the first block and finds `kOldRecord`, and finds it again at every later call -/
theorem ReadPhysicalRecord_new_old_record {W : List UInt8} {log_number : UInt64} (checksum : Bool)
    {t : RecordType} (ht : RecordType.kRecyclableFullType.toNat ≤ t.toNat) {ptr rest : List UInt8}
    (hW : W = header log_number t ptr ++ ptr ++ rest)
    (hfit : kRecyclableHeaderSize + ptr.length ≤ kBlockSize)
    (hne : log_number.toNat % 2 ^ 32 ≠ log_number.toNat) :
    ∃ r, (Reader.new W checksum 0 log_number).ReadPhysicalRecord 0 = ⟨kOldRecord, [], 0, r⟩ ∧
      r.ReadPhysicalRecord 0 = ⟨kOldRecord, [], 0, r⟩ ∧ r.reports = [] := by
  have hrec : ¬ t.toNat < RecordType.kRecyclableFullType.toNat := by omega
  have hlen : (header log_number t ptr ++ ptr).length = kRecyclableHeaderSize + ptr.length := by
    rw [List.length_append, length_header, headerSizeOf, if_neg hrec]
  have hr := readerAt_new W checksum log_number
  rw [show gap 0 = 0 by decide] at hr
  obtain ⟨r₁, hm, hr₁⟩ := hr.readMore rfl
    (by rw [hW, List.length_append, hlen]; simp only [kRecyclableHeaderSize]; omega) 0
  have hbuf : r₁.buffer_ = header log_number t ptr ++ ptr ++
      rest.take (kBlockSize - (kRecyclableHeaderSize + ptr.length)) := by
    rw [hr₁.buffer, Nat.zero_add, List.drop_zero, hW, List.take_append,
      List.take_of_length_le (by rw [hlen]; omega), hlen]
  have hoff : r₁.end_of_buffer_offset_ - r₁.buffer_.length = 0 := by
    rw [hr₁.offset]
    omega
  have hn : ptr.length < 2 ^ 16 := by
    simp only [kBlockSize, kRecyclableHeaderSize] at hfit
    omega
  have hne₁ : log_number.toNat % 2 ^ 32 ≠ r₁.log_number_.toNat := by
    rw [hr₁.log_number]
    exact hne
  have h₁ := ReadPhysicalRecord_old_record ht hbuf hn hne₁ 0
  rw [if_pos hoff] at h₁
  refine ⟨{ r₁ with recycled_ := true }, ?_, ?_, hr₁.reports⟩
  · rw [ReadPhysicalRecord_of_ReadMore (by show 0 < kHeaderSize; decide) hm, h₁]
  · rw [ReadPhysicalRecord_old_record (r := { r₁ with recycled_ := true }) ht hbuf hn hne₁ 0,
      if_pos hoff]

/-- the first fragment of a recycled log, at its start: a recyclable header and a payload that
fit in the first block -/
theorem recycled_log_first_header (log_number : UInt64) (record : List UInt8)
    (records : List (List UInt8)) :
    ∃ t ptr rest, RecordType.kRecyclableFullType.toNat ≤ t.toNat ∧
      kRecyclableHeaderSize + ptr.length ≤ kBlockSize ∧
      ((record :: records).foldl AddRecord (new log_number true)).dest_ =
        header log_number t ptr ++ ptr ++ rest := by
  obtain ⟨s, hs⟩ := dest_foldl_AddRecord records ((new log_number true).AddRecord record)
  obtain ⟨s₁, hs₁⟩ := dest_addRecordLoop_first (new log_number true) record true
  set fragment_length := min record.length
    (kBlockSize - (new log_number true).switchBlock.block_offset_ - (new log_number true).headerSize)
    with hfragment_length
  refine ⟨fragmentType true true (record.length = fragment_length), record.take fragment_length,
    s₁ ++ s, ?_, ?_, ?_⟩
  · exact Nat.le_of_not_lt fun h => nomatch (toNat_fragmentType_lt _ _ _).mp h
  · rw [List.length_take, hfragment_length, switchBlock_new]
    simp only [new, headerSize, if_true, kBlockSize, kRecyclableHeaderSize]
    omega
  · rw [List.foldl_cons, hs, AddRecord, hs₁, switchBlock_new, dest_EmitPhysicalRecord]
    simp only [new, List.nil_append, List.append_assoc]

/-! ## What `ReadRecord` makes of it -/

section Loop

variable {r r' : Reader} {drop_size : Nat} (prospective_record_offset : Nat) (scratch : List UInt8)

/-- `kOldRecord` is the end of the log, but when corrupted records are skipped -/
theorem ReadRecordLoop_old_record {wal_recovery_mode : WALRecoveryMode}
    (hmode : wal_recovery_mode ≠ .kSkipAnyCorruptedRecords)
    (h : r.ReadPhysicalRecord 0 = ⟨kOldRecord, [], drop_size, r'⟩) (fuel : Nat) :
    r.ReadRecordLoop wal_recovery_mode (fuel + 1) false prospective_record_offset scratch =
      some (false, [], r') := by
  rw [Reader.ReadRecordLoop, h]
  cases wal_recovery_mode
  · rfl
  · rfl
  · rfl
  · exact absurd rfl hmode

/-- when corrupted records are skipped, `kOldRecord` is skipped as a `kBadRecord` -/
theorem ReadRecordLoop_old_record_skip (h : r.ReadPhysicalRecord 0 = ⟨kOldRecord, [], drop_size, r'⟩)
    (fuel : Nat) :
    r.ReadRecordLoop .kSkipAnyCorruptedRecords (fuel + 1) false prospective_record_offset scratch =
      r'.ReadRecordLoop .kSkipAnyCorruptedRecords fuel false prospective_record_offset scratch := by
  rw [Reader.ReadRecordLoop, h]
  rfl

/-- a reader that finds `kOldRecord` and stays where it is runs out of every number of turns -/
theorem ReadRecordLoop_spins (h : r.ReadPhysicalRecord 0 = ⟨kOldRecord, [], 0, r⟩) (fuel : Nat) :
    r.ReadRecordLoop .kSkipAnyCorruptedRecords fuel false prospective_record_offset scratch = none := by
  induction fuel with
  | zero => rfl
  | succ fuel ih => rw [ReadRecordLoop_old_record_skip prospective_record_offset scratch h, ih]

end Loop

theorem mod_two_pow_32_ne {log_number : UInt64} (hnum : 2 ^ 32 ≤ log_number.toNat) :
    log_number.toNat % 2 ^ 32 ≠ log_number.toNat := by
  have := Nat.mod_lt log_number.toNat (show 0 < 2 ^ 32 by decide)
  omega

theorem recycled_log_reads_nothing (log_number : UInt64) (checksum : Bool)
    (wal_recovery_mode : WALRecoveryMode) (hmode : wal_recovery_mode ≠ .kSkipAnyCorruptedRecords)
    (hnum : 2 ^ 32 ≤ log_number.toNat) (record : List UInt8) (records : List (List UInt8)) :
    ∃ r, (Reader.new ((record :: records).foldl AddRecord (new log_number true)).dest_ checksum 0
        log_number).ReadRecord wal_recovery_mode = some (false, [], r) ∧ r.reports = [] := by
  obtain ⟨t, ptr, rest, ht, hfit, hW⟩ := recycled_log_first_header log_number record records
  obtain ⟨r, h₁, -, hrep⟩ := ReadPhysicalRecord_new_old_record checksum ht hW hfit
    (mod_two_pow_32_ne hnum)
  refine ⟨r, ?_, hrep⟩
  rw [ReadRecord_of_initial wal_recovery_mode rfl]
  exact ReadRecordLoop_old_record 0 [] hmode h₁ _

theorem recycled_log_number_two_pow_32 :
    WALRecoveryMode.kTolerateCorruptedTailRecords ≠ .kSkipAnyCorruptedRecords ∧
      2 ^ 32 ≤ (4294967296 : UInt64).toNat ∧
      ∃ r, (Reader.new ([[1, 2, 3]].foldl AddRecord (new 4294967296 true)).dest_ true 0
          4294967296).ReadRecord .kTolerateCorruptedTailRecords = some (false, [], r) ∧
        r.reports = [] :=
  ⟨by decide, by decide,
    recycled_log_reads_nothing 4294967296 true _ (by decide) (by decide) [1, 2, 3] []⟩

theorem recycled_log_skip_mode_spins (log_number : UInt64) (checksum : Bool)
    (hnum : 2 ^ 32 ≤ log_number.toNat) (record : List UInt8) (records : List (List UInt8))
    (fuel : Nat) :
    (Reader.new ((record :: records).foldl AddRecord (new log_number true)).dest_ checksum 0
        log_number).ReadRecordLoop .kSkipAnyCorruptedRecords fuel false 0 [] = none := by
  obtain ⟨t, ptr, rest, ht, hfit, hW⟩ := recycled_log_first_header log_number record records
  obtain ⟨r, h₁, h₂, -⟩ := ReadPhysicalRecord_new_old_record checksum ht hW hfit
    (mod_two_pow_32_ne hnum)
  cases fuel with
  | zero => rfl
  | succ fuel => rw [ReadRecordLoop_old_record_skip 0 [] h₁, ReadRecordLoop_spins 0 [] h₂]

theorem recycled_log_spins_two_pow_32 :
    2 ^ 32 ≤ (4294967296 : UInt64).toNat ∧
      (Reader.new ([[1, 2, 3]].foldl AddRecord (new 4294967296 true)).dest_ true 0
          4294967296).ReadRecordLoop .kSkipAnyCorruptedRecords 1000 false 0 [] = none :=
  ⟨by decide, recycled_log_skip_mode_spins 4294967296 true (by decide) [1, 2, 3] [] 1000⟩

end log

end RocksDB
