import RocksDB.Db.LogReader

/-!
# The write-ahead log reads back what was written

`log_round_trip`: records written with `Writer::AddRecord` into an empty file are read back by
`Reader::ReadRecord` one by one, then `ReadRecord` returns false, and nothing is reported.

The proof follows the writer's loop.  `ReaderAt W log_number reports room pos r` says where the
reader stands in the file `W`: it has taken the physical records before `pos` and holds the next
`room` bytes in its buffer, the rest of the block (`gap pos` of them between `ReadRecord` calls,
a whole block right after `ReadMore`).  Each turn of the writer's loop writes a block switch, a
header and a payload; `ReadPhysicalRecord` reads them back (`ReadPhysicalRecord_header`,
`ReadPhysicalRecord_block_start`, `ReadPhysicalRecord_short_trailer`) or, for a trailer of 7 to 10
zeros that a recyclable header does not fit in, skips them as a zero-length record first.
-/

namespace RocksDB

namespace log

open Writer

/-! ## Reading a header back -/

theorem length_bytes_decode (n : Nat) (h : n < 2 ^ 16) :
    (UInt8.ofNat (n &&& 0xff)).toNat ||| ((UInt8.ofNat (n >>> 8)).toNat <<< 8) = n := by
  have hlo : n &&& 0xff = n % 2 ^ 8 := Nat.and_two_pow_sub_one_eq_mod n 8
  have hhi : n >>> 8 = n / 2 ^ 8 := Nat.shiftRight_eq_div_pow n 8
  have hlt : n / 2 ^ 8 < 2 ^ 8 := by omega
  rw [UInt8.toNat_ofNat', UInt8.toNat_ofNat', hlo, hhi, Nat.mod_mod, Nat.mod_eq_of_lt hlt,
    RocksDB.or_shiftLeft_eq_add _ (Nat.mod_lt _ (by decide))]
  omega

theorem typeOf_toNat (t : RecordType) : typeOf (UInt8.ofNat t.toNat) = t.toNat := by
  cases t <;> rfl

theorem header_bytes (log_number : UInt64) (t : RecordType) (payload x : List UInt8) :
    (header log_number t payload ++ x).getD 4 0 = UInt8.ofNat (payload.length &&& 0xff) ∧
      (header log_number t payload ++ x).getD 5 0 = UInt8.ofNat (payload.length >>> 8) ∧
      (header log_number t payload ++ x).getD 6 0 = UInt8.ofNat t.toNat := by
  unfold header
  simp [List.getD_eq_getElem?_getD, List.getElem?_append_right]

/-- the CRC field of the header -/
theorem decodeFixed32_header (log_number : UInt64) (t : RecordType) (payload x : List UInt8) :
    decodeFixed32 (header log_number t payload ++ x) =
      crc32c.Mask (crc32c.Value (UInt8.ofNat t.toNat :: (logNumberBytes log_number t ++ payload)) 0) := by
  unfold header
  simp only [List.append_assoc, decodeFixed32_encodeFixed32]

/-- what the reader checks the CRC against: the type byte, the log number bytes, the payload -/
theorem checked_header (log_number : UInt64) (t : RecordType) (payload x : List UInt8) :
    ((header log_number t payload ++ payload ++ x).drop 6).take
        (payload.length + headerSizeOf t - 6) =
      UInt8.ofNat t.toNat :: (logNumberBytes log_number t ++ payload) := by
  have hlen : headerSizeOf t - 6 = (logNumberBytes log_number t).length + 1 := by
    unfold logNumberBytes headerSizeOf
    split <;> simp [kHeaderSize, kRecyclableHeaderSize]
  unfold header
  simp only [List.append_assoc]
  rw [List.drop_append, List.drop_eq_nil_of_le (by simp), length_encodeFixed32]
  have hrest : UInt8.ofNat t.toNat :: (logNumberBytes log_number t ++ (payload ++ x)) =
      (UInt8.ofNat t.toNat :: (logNumberBytes log_number t ++ payload)) ++ x := by simp
  simp only [List.nil_append, List.cons_append, List.drop_succ_cons, List.drop_zero, Nat.reduceSub]
  rw [hrest, List.take_left' (by simp; omega)]

/-- the log number field of a recyclable header -/
theorem decodeFixed32_logNumber (log_number : UInt64) {t : RecordType}
    (ht : RecordType.kRecyclableFullType.toNat ≤ t.toNat) (payload x : List UInt8) :
    decodeFixed32 ((header log_number t payload ++ x).drop 7) = log_number.toUInt32 := by
  have hrec : ¬ t.toNat < RecordType.kRecyclableFullType.toNat := by omega
  unfold header logNumberBytes
  simp only [hrec, if_false, List.append_assoc]
  rw [List.drop_append, List.drop_eq_nil_of_le (by simp), length_encodeFixed32]
  simp only [List.nil_append, List.cons_append, List.drop_succ_cons, List.drop_zero, Nat.reduceSub]
  exact decodeFixed32_encodeFixed32 _ _

/-- a header the writer wrote passes every check of `ReadPhysicalRecord` -/
theorem checkRecord_header {r : Reader} {t : RecordType} (ht : t ≠ .kZeroType)
    {payload extra : List UInt8} (hbuf : r.buffer_ = header r.log_number_ t payload ++ payload ++ extra)
    (hinit : r.initial_offset_ = 0) (drop_size : Nat) :
    r.checkRecord t.toNat payload.length (headerSizeOf t) drop_size =
      ⟨t.toNat, payload, drop_size, { r with buffer_ := extra }⟩ := by
  have hlen : (header r.log_number_ t payload ++ payload).length = headerSizeOf t + payload.length := by
    rw [List.length_append, length_header]
  have hzero : ¬ (t.toNat = RecordType.kZeroType.toNat ∧ payload.length = 0) := by
    rintro ⟨h, -⟩
    cases t <;> simp_all [RecordType.toNat]
  have hcrc : crc32c.Unmask (decodeFixed32 r.buffer_) =
      crc32c.Value ((r.buffer_.drop 6).take (payload.length + headerSizeOf t - 6)) 0 := by
    rw [hbuf, checked_header, List.append_assoc, decodeFixed32_header, crc32c.Unmask_Mask]
  have hdrop : r.buffer_.drop (headerSizeOf t + payload.length) = extra := by
    rw [hbuf, List.drop_left' hlen]
  unfold Reader.checkRecord
  rw [if_neg (by rw [hbuf, List.length_append, hlen]; omega), if_neg hzero, hcrc]
  simp only [bne_self_eq_false, Bool.and_false, Bool.false_eq_true, if_false, hdrop, hinit,
    Nat.not_lt_zero]
  have hhead : (header r.log_number_ t payload).drop (headerSizeOf t) = [] :=
    List.drop_eq_nil_of_le (by rw [length_header])
  rw [hbuf, List.append_assoc, List.drop_append_of_le_length (by rw [length_header]), hhead,
    List.nil_append, List.take_left' rfl]

/-! ## Where the reader stands -/

/-- the bytes left in the block at `pos`: none at a block boundary -/
def gap (pos : Nat) : Nat := (kBlockSize - pos % kBlockSize) % kBlockSize

theorem gap_add {pos k : Nat} (hk : 0 < k) (h : pos % kBlockSize + k ≤ kBlockSize) :
    gap (pos + k) = kBlockSize - pos % kBlockSize - k := by
  unfold gap
  simp only [kBlockSize] at *
  omega

structure ReaderAt (W : List UInt8) (log_number : UInt64) (reports : List (Nat × Status))
    (room pos : Nat) (r : Reader) : Prop where
  buffer : r.buffer_ = (W.drop pos).take room
  file : r.file_ = (W.drop pos).drop room
  eof : r.eof_ = true → r.file_ = []
  offset : r.end_of_buffer_offset_ = pos + r.buffer_.length
  initial : r.initial_offset_ = 0
  log_number : r.log_number_ = log_number
  reports : r.reports = reports

namespace ReaderAt

variable {W : List UInt8} {log_number : UInt64} {reports : List (Nat × Status)} {room pos : Nat}
  {r : Reader}

/-- taking `k` bytes off the front of the buffer moves the reader `k` bytes on -/
theorem consume (h : ReaderAt W log_number reports room pos r) {k : Nat} (hk : k ≤ r.buffer_.length)
    (hroom : k ≤ room) :
    ReaderAt W log_number reports (room - k) (pos + k) { r with buffer_ := r.buffer_.drop k } where
  buffer := by rw [h.buffer, List.drop_take, List.drop_drop]
  file := by rw [h.file, List.drop_drop, List.drop_drop, Nat.add_assoc, Nat.add_sub_cancel' hroom]
  eof := h.eof
  offset := by
    simp only [List.length_drop]
    rw [h.offset]
    omega
  initial := h.initial
  log_number := h.log_number
  reports := h.reports

theorem recycled (h : ReaderAt W log_number reports room pos r) (b : Bool) :
    ReaderAt W log_number reports room pos { r with recycled_ := b } where
  buffer := h.buffer
  file := h.file
  eof := h.eof
  offset := h.offset
  initial := h.initial
  log_number := h.log_number
  reports := h.reports

theorem last_record_offset (h : ReaderAt W log_number reports room pos r) (n : Nat) :
    ReaderAt W log_number reports room pos { r with last_record_offset_ := n } where
  buffer := h.buffer
  file := h.file
  eof := h.eof
  offset := h.offset
  initial := h.initial
  log_number := h.log_number
  reports := h.reports

/-- the buffer and the file hold the rest of the log -/
theorem length_buffer_add_length_file (h : ReaderAt W log_number reports room pos r) :
    r.buffer_.length + r.file_.length = W.length - pos := by
  rw [h.buffer, h.file, ← List.length_append, List.take_append_drop, List.length_drop]

end ReaderAt

section Reading

variable {W : List UInt8} {log_number : UInt64} {reports : List (Nat × Status)}

theorem kHeaderSize_le_headerSizeOf (t : RecordType) : kHeaderSize ≤ headerSizeOf t := by
  unfold headerSizeOf
  split <;> decide

theorem ReadPhysicalRecord_header {room pos : Nat} {r : Reader}
    (hr : ReaderAt W log_number reports room pos r) (hroom : room = kBlockSize - pos % kBlockSize)
    {t : RecordType} (ht : t ≠ .kZeroType) {payload rest : List UInt8}
    (hW : W.drop pos = header log_number t payload ++ payload ++ rest)
    (hfit : pos % kBlockSize + (headerSizeOf t + payload.length) ≤ kBlockSize)
    (hnum : RecordType.kRecyclableFullType.toNat ≤ t.toNat → log_number.toNat < 2 ^ 32) :
    ∃ r', r.ReadPhysicalRecord 0 = ⟨t.toNat, payload, 0, r'⟩ ∧
      ReaderAt W log_number reports (gap (pos + (headerSizeOf t + payload.length)))
        (pos + (headerSizeOf t + payload.length)) r' := by
  have hlen : ∀ ln, (header ln t payload ++ payload).length = headerSizeOf t + payload.length := by
    intro ln
    rw [List.length_append, length_header]
  have h7 := kHeaderSize_le_headerSizeOf t
  have hbuf : r.buffer_ = header r.log_number_ t payload ++ payload ++
      rest.take (room - (headerSizeOf t + payload.length)) := by
    rw [hr.buffer, hW, hr.log_number, List.take_append, List.take_of_length_le (by rw [hlen]; omega),
      hlen]
  have hblen : headerSizeOf t + payload.length ≤ r.buffer_.length := by
    rw [hbuf, List.length_append, hlen]
    omega
  have hn : payload.length < 2 ^ 16 := by
    simp only [kBlockSize] at hfit
    omega
  have hge : ¬ r.buffer_.length < kHeaderSize := by omega
  have hpos : 0 < headerSizeOf t + payload.length := by
    have : 0 < kHeaderSize := by decide
    omega
  -- the reader after the record: the header and payload taken off the buffer
  have hnext := hr.consume hblen (by omega)
  rw [gap_add hpos hfit, ← hroom]
  obtain ⟨h4, h5, h6⟩ := header_bytes r.log_number_ t payload
    (payload ++ rest.take (room - (headerSizeOf t + payload.length)))
  simp only [← List.append_assoc, ← hbuf] at h4 h5 h6
  rw [Reader.ReadPhysicalRecord, if_neg hge]
  simp only [h4, h5, h6, length_bytes_decode _ hn, typeOf_toNat]
  have hdrop : r.buffer_.drop (headerSizeOf t + payload.length) =
      rest.take (room - (headerSizeOf t + payload.length)) := by
    rw [hbuf, List.drop_left' (hlen _)]
  rw [hdrop] at hnext
  by_cases hrec : t.toNat < RecordType.kRecyclableFullType.toNat
  · -- a legacy header
    have hhs : headerSizeOf t = kHeaderSize := by simp [headerSizeOf, hrec]
    rw [if_neg (by omega), ← hhs, checkRecord_header ht hbuf hr.initial 0]
    exact ⟨_, rfl, hnext⟩
  · -- a recyclable header: the log number is checked first
    have hhs : headerSizeOf t = kRecyclableHeaderSize := by simp [headerSizeOf, hrec]
    have hlast : t.toNat ≤ RecordType.kRecyclableLastType.toNat := by cases t <;> decide
    have hln : (decodeFixed32 (r.buffer_.drop 7)).toNat = r.log_number_.toNat := by
      rw [hbuf, List.append_assoc, decodeFixed32_logNumber _ (by omega), UInt64.toNat_toUInt32,
        Nat.mod_eq_of_lt (hr.log_number ▸ hnum (by omega))]
    obtain ⟨b, hb⟩ : ∃ b, (if r.end_of_buffer_offset_ - r.buffer_.length = 0 then
        { r with recycled_ := true } else r) = { r with recycled_ := b } := by
      split
      · exact ⟨true, rfl⟩
      · exact ⟨r.recycled_, rfl⟩
    rw [if_pos ⟨by omega, hlast⟩, hb]
    dsimp only
    rw [if_neg (by omega), if_neg (not_not.mpr hln), ← hhs,
      checkRecord_header (r := { r with recycled_ := b }) ht hbuf hr.initial 0]
    exact ⟨_, rfl, hnext.recycled b⟩

/-- with the buffer's `room` bytes all there and more file after them, `ReadMore` reads the next
block -/
theorem ReaderAt.readMore {room pos : Nat} {r : Reader}
    (hr : ReaderAt W log_number reports room pos r) (hfull : r.buffer_.length = room)
    (hmore : pos + room < W.length) (drop_size : Nat) :
    ∃ r', r.ReadMore drop_size = .ok r' ∧ ReaderAt W log_number reports kBlockSize (pos + room) r' := by
  have hfile : r.file_ = W.drop (pos + room) := by rw [hr.file, List.drop_drop]
  have hne : r.eof_ = false := by
    cases he : r.eof_
    · rfl
    · have := hr.eof he
      rw [hfile, List.drop_eq_nil_iff] at this
      omega
  unfold Reader.ReadMore
  rw [if_pos (by simp [hne])]
  dsimp only
  split
  · rename_i hshort
    refine ⟨_, rfl, ⟨by rw [hfile], by rw [hfile, List.drop_drop], fun _ => ?_, ?_, hr.initial,
      hr.log_number, hr.reports⟩⟩
    · rw [List.length_take] at hshort
      exact List.drop_eq_nil_of_le (by omega)
    · simp only [hr.offset, hfull]
  · refine ⟨_, rfl, ⟨by rw [hfile], by rw [hfile, List.drop_drop], fun he => ?_, ?_, hr.initial,
      hr.log_number, hr.reports⟩⟩
    · rw [hne] at he
      cases he
    · simp only [hr.offset, hfull]

/-- `ReadPhysicalRecord` with less than a header in the buffer reads on -/
theorem ReadPhysicalRecord_of_ReadMore {r r' : Reader} {drop_size : Nat}
    (h : r.buffer_.length < kHeaderSize) (hm : r.ReadMore drop_size = .ok r') :
    r.ReadPhysicalRecord drop_size = r'.ReadPhysicalRecord drop_size := by
  rw [Reader.ReadPhysicalRecord, if_pos h]
  split <;> simp_all

/-- at the end of a block, or in a trailer too short for a header, `ReadPhysicalRecord` reads the
next block and the record the writer put at its start -/
theorem ReadPhysicalRecord_block_start {room pos : Nat} {r : Reader}
    (hr : ReaderAt W log_number reports room pos r) (hfull : r.buffer_.length = room)
    (hshort : room < kHeaderSize) (hblock : (pos + room) % kBlockSize = 0)
    {t : RecordType} (ht : t ≠ .kZeroType) {payload rest : List UInt8}
    (hW : W.drop (pos + room) = header log_number t payload ++ payload ++ rest)
    (hfit : headerSizeOf t + payload.length ≤ kBlockSize)
    (hnum : RecordType.kRecyclableFullType.toNat ≤ t.toNat → log_number.toNat < 2 ^ 32) :
    ∃ r', r.ReadPhysicalRecord 0 = ⟨t.toNat, payload, 0, r'⟩ ∧
      ReaderAt W log_number reports (gap (pos + room + (headerSizeOf t + payload.length)))
        (pos + room + (headerSizeOf t + payload.length)) r' := by
  have hmore : pos + room < W.length := by
    have h7 := kHeaderSize_le_headerSizeOf t
    have hlen := congrArg List.length hW
    simp only [List.length_drop, List.length_append, length_header] at hlen
    have : 0 < kHeaderSize := by decide
    omega
  obtain ⟨r', hm, hr'⟩ := hr.readMore hfull hmore 0
  rw [ReadPhysicalRecord_of_ReadMore (by omega) hm]
  exact ReadPhysicalRecord_header hr' (by rw [hblock, Nat.sub_zero]) ht hW (by omega) hnum

/-- a trailer of zeros long enough to hold a legacy header reads as a zero-length record of
type zero, which is skipped with the buffer -/
theorem ReadPhysicalRecord_zeros {room : Nat} {r : Reader} (hzeros : r.buffer_ = List.replicate room 0)
    (hroom : kHeaderSize ≤ room) (drop_size : Nat) :
    r.ReadPhysicalRecord drop_size = ⟨kBadRecord, [], drop_size, { r with buffer_ := [] }⟩ := by
  have hbytes : ∀ i < room, r.buffer_.getD i 0 = 0 := by
    intro i hi
    simp [hzeros, List.getD_eq_getElem?_getD, hi]
  rw [Reader.ReadPhysicalRecord, if_neg (by simp [hzeros]; omega)]
  simp only [kHeaderSize] at hroom
  simp only [hbytes 4 (by omega), hbytes 5 (by omega), hbytes 6 (by omega)]
  unfold Reader.checkRecord
  simp [typeOf, RecordType.toNat, kHeaderSize, hzeros]
  omega

/-- the reader takes the next physical record the writer wrote: in the same block, or in the next
one when the writer's switch left a trailer too short for a legacy header -/
theorem ReadPhysicalRecord_EmitPhysicalRecord {w : Writer} (hal : Aligned w)
    (htrailer : kBlockSize - w.block_offset_ < w.headerSize →
      kBlockSize - w.block_offset_ < kHeaderSize)
    {r : Reader} (hr : ReaderAt W w.log_number_ reports (gap w.dest_.length) w.dest_.length r)
    {t : RecordType} (ht : t ≠ .kZeroType) {ptr rest : List UInt8}
    (hfit : w.switchBlock.block_offset_ + (headerSizeOf t + ptr.length) ≤ kBlockSize)
    (hW : W = (w.switchBlock.EmitPhysicalRecord t ptr).dest_ ++ rest)
    (hnum : RecordType.kRecyclableFullType.toNat ≤ t.toNat → w.log_number_.toNat < 2 ^ 32) :
    ∃ r', r.ReadPhysicalRecord 0 = ⟨t.toNat, ptr, 0, r'⟩ ∧
      ReaderAt W w.log_number_ reports (gap (w.switchBlock.EmitPhysicalRecord t ptr).dest_.length)
        (w.switchBlock.EmitPhysicalRecord t ptr).dest_.length r' := by
  -- the switch's trailer of `z` zeros, then the header and the payload
  set z := if kBlockSize - w.block_offset_ < w.headerSize then kBlockSize - w.block_offset_ else 0
    with hz
  have hdest : (w.switchBlock.EmitPhysicalRecord t ptr).dest_ =
      w.dest_ ++ (List.replicate z 0 ++ (header w.log_number_ t ptr ++ ptr)) := by
    rw [dest_EmitPhysicalRecord, dest_switchBlock, log_number_switchBlock]
    simp only [List.append_assoc]
    rfl
  have hlen : (w.switchBlock.EmitPhysicalRecord t ptr).dest_.length =
      w.dest_.length + z + (headerSizeOf t + ptr.length) := by
    rw [hdest]
    simp only [List.length_append, List.length_replicate, length_header]
    omega
  have hWd : W.drop w.dest_.length =
      List.replicate z 0 ++ (header w.log_number_ t ptr ++ ptr ++ rest) := by
    rw [hW, hdest]
    simp only [List.append_assoc, List.drop_left]
  have hbo := block_offset_switchBlock w
  have hmod := hal.mod
  have hle := hal.le
  have h7 := kHeaderSize_le_headerSizeOf t
  have hhs := w.kHeaderSize_le_headerSize
  rw [hlen]
  by_cases hg : gap w.dest_.length < kHeaderSize
  · -- the record starts the next block, after `gap` bytes that are the trailer
    unfold gap at hg
    have hzg : z = gap w.dest_.length := by
      unfold gap
      by_cases hc : kBlockSize - w.block_offset_ < w.headerSize
      · have hshort := htrailer hc
        rw [hz, if_pos hc]
        simp only [kBlockSize, kHeaderSize] at hc hshort hmod hle ⊢
        omega
      · rw [hz, if_neg hc]
        simp only [kBlockSize, kHeaderSize] at hc hmod hle hhs hg ⊢
        omega
    have hblock : (w.dest_.length + gap w.dest_.length) % kBlockSize = 0 := by
      unfold gap
      simp only [kBlockSize]
      omega
    have hfull : r.buffer_.length = gap w.dest_.length := by
      rw [hr.buffer, List.length_take, hWd, List.length_append, List.length_replicate, ← hzg]
      omega
    have hW' : W.drop (w.dest_.length + gap w.dest_.length) =
        header w.log_number_ t ptr ++ ptr ++ rest := by
      rw [← List.drop_drop, hWd, ← hzg, List.drop_left' (List.length_replicate ..)]
    obtain ⟨r', hread, hr'⟩ := ReadPhysicalRecord_block_start hr hfull hg hblock ht hW'
      (by omega) hnum
    exact ⟨r', hread, by rwa [hzg]⟩
  · -- the header follows in the same block: there was no switch
    unfold gap at hg
    have hc : ¬ kBlockSize - w.block_offset_ < w.headerSize := by
      intro hc
      have hshort := htrailer hc
      simp only [kBlockSize, kHeaderSize] at hc hshort hmod hle hg
      omega
    have hz0 : z = 0 := by rw [hz, if_neg hc]
    have hroom : gap w.dest_.length = kBlockSize - w.dest_.length % kBlockSize := by
      unfold gap
      simp only [kBlockSize, kHeaderSize] at hg ⊢
      omega
    have hW' : W.drop w.dest_.length = header w.log_number_ t ptr ++ ptr ++ rest := by
      rw [hWd, hz0, List.replicate_zero, List.nil_append]
    have hfit' : w.dest_.length % kBlockSize + (headerSizeOf t + ptr.length) ≤ kBlockSize := by
      rw [hbo, if_neg hc] at hfit
      simp only [kBlockSize, kHeaderSize] at hc hmod hle hhs hg hfit ⊢
      omega
    obtain ⟨r', hread, hr'⟩ := ReadPhysicalRecord_header hr hroom ht hW' hfit' hnum
    exact ⟨r', hread, by rwa [hz0, Nat.add_zero]⟩

end Reading

/-! ## One turn of `ReadRecord`'s loop -/

section Loop

variable (wal_recovery_mode : WALRecoveryMode) (fuel : Nat) {r r' : Reader} {prospective_record_offset : Nat}
  {scratch fragment : List UInt8}

/-- a fragment the writer wrote: a `kFullType` or `kLastType` one ends the record, a `kFirstType`
or `kMiddleType` one is added to it -/
theorem ReadRecordLoop_fragment (recycle_log_files «begin» «end» : Bool)
    (h : r.ReadPhysicalRecord 0 =
      ⟨(fragmentType recycle_log_files «begin» «end»).toNat, fragment, 0, r'⟩)
    (hscratch : «begin» = true → scratch = []) :
    r.ReadRecordLoop wal_recovery_mode (fuel + 1) (!«begin») prospective_record_offset scratch =
      if «end» then
        some (true, scratch ++ fragment, { r' with last_record_offset_ :=
          if «begin» then r.end_of_buffer_offset_ - r.buffer_.length else prospective_record_offset })
      else
        r'.ReadRecordLoop wal_recovery_mode fuel true
          (if «begin» then r.end_of_buffer_offset_ - r.buffer_.length else prospective_record_offset)
          (scratch ++ fragment) := by
  rw [Reader.ReadRecordLoop, h]
  cases «begin»
  · cases recycle_log_files <;> cases «end» <;> rfl
  · rw [hscratch rfl]
    cases recycle_log_files <;> cases «end» <;> rfl

/-- a zero-length record outside a fragmented record is skipped -/
theorem ReadRecordLoop_bad_record {drop_size : Nat}
    (h : r.ReadPhysicalRecord 0 = ⟨kBadRecord, [], drop_size, r'⟩) :
    r.ReadRecordLoop wal_recovery_mode (fuel + 1) false prospective_record_offset scratch =
      r'.ReadRecordLoop wal_recovery_mode fuel false prospective_record_offset scratch := by
  rw [Reader.ReadRecordLoop, h]
  rfl

end Loop

/-! ## A record read back -/

section Record

variable {W : List UInt8} {reports : List (Nat × Status)} (wal_recovery_mode : WALRecoveryMode)

/-- a trailer of 7 to 10 zeros, which only a recyclable header does not fit in, reads as a
zero-length record of type zero and is skipped -/
theorem ReadRecordLoop_trailer {w : Writer} (hal : Aligned w)
    (hlong : kHeaderSize ≤ kBlockSize - w.block_offset_)
    (hswitch : kBlockSize - w.block_offset_ < w.headerSize)
    {r : Reader} (hr : ReaderAt W w.log_number_ reports (gap w.dest_.length) w.dest_.length r)
    {rest : List UInt8} (hW : W = w.switchBlock.dest_ ++ rest)
    (fuel prospective_record_offset : Nat) (scratch : List UInt8) :
    ∃ r₀, r.ReadRecordLoop wal_recovery_mode (fuel + 1) false prospective_record_offset scratch =
        r₀.ReadRecordLoop wal_recovery_mode fuel false prospective_record_offset scratch ∧
      ReaderAt W w.log_number_ reports (gap w.switchBlock.dest_.length) w.switchBlock.dest_.length r₀ := by
  have hmod := hal.mod
  have hle := hal.le
  have hhs := w.headerSize_le
  have hdest : w.switchBlock.dest_ = w.dest_ ++ List.replicate (kBlockSize - w.block_offset_) 0 := by
    rw [dest_switchBlock, if_pos hswitch]
  have hgap : gap w.dest_.length = kBlockSize - w.block_offset_ := by
    unfold gap
    simp only [kBlockSize, kHeaderSize, kRecyclableHeaderSize] at hlong hswitch hhs hmod hle ⊢
    omega
  have hzeros : r.buffer_ = List.replicate (kBlockSize - w.block_offset_) 0 := by
    rw [hr.buffer, hgap, hW, hdest, List.append_assoc, List.drop_left,
      List.take_left' (List.length_replicate ..)]
  have hc := hr.consume (k := kBlockSize - w.block_offset_)
    (by rw [hzeros, List.length_replicate]) (by rw [hgap])
  have hnil : r.buffer_.drop (kBlockSize - w.block_offset_) = [] := by
    rw [hzeros, List.drop_eq_nil_iff, List.length_replicate]
  have hpos : w.switchBlock.dest_.length = w.dest_.length + (kBlockSize - w.block_offset_) := by
    rw [hdest, List.length_append, List.length_replicate]
  have hgap0 : gap (w.dest_.length + (kBlockSize - w.block_offset_)) = 0 := by
    unfold gap
    simp only [kBlockSize, kHeaderSize, kRecyclableHeaderSize] at hlong hswitch hhs hmod hle ⊢
    omega
  rw [hnil, hgap, Nat.sub_self] at hc
  refine ⟨_, ReadRecordLoop_bad_record wal_recovery_mode fuel
    (ReadPhysicalRecord_zeros hzeros hlong 0), ?_⟩
  rwa [hpos, hgap0]

/-- a fragment the writer emitted, read back: the reader adds it to `scratch` and reads on, or
returns the record if it was the last -/
theorem ReadRecordLoop_EmitPhysicalRecord {w : Writer} (hal : Aligned w)
    (htrailer : kBlockSize - w.block_offset_ < w.headerSize →
      kBlockSize - w.block_offset_ < kHeaderSize)
    (hnum : w.recycle_log_files_ = true → w.log_number_.toNat < 2 ^ 32)
    {r : Reader} (hr : ReaderAt W w.log_number_ reports (gap w.dest_.length) w.dest_.length r)
    {«begin» : Bool} {scratch : List UInt8} (hscratch : «begin» = true → scratch = [])
    («end» : Bool) {ptr rest : List UInt8} {w₂ : Writer}
    (hw₂ : w₂ = w.switchBlock.EmitPhysicalRecord (fragmentType w.recycle_log_files_ «begin» «end») ptr)
    (hfit : ptr.length ≤ kBlockSize - w.switchBlock.block_offset_ - w.headerSize)
    (hW : W = w₂.dest_ ++ rest) {fuel : Nat} (hfuel : W.length - w.dest_.length < fuel)
    (prospective_record_offset : Nat) :
    ∃ r' fuel' prospective_record_offset', W.length - w₂.dest_.length < fuel' ∧
      ReaderAt W w.log_number_ reports (gap w₂.dest_.length) w₂.dest_.length r' ∧
      r.ReadRecordLoop wal_recovery_mode fuel (!«begin») prospective_record_offset scratch =
        if «end» then some (true, scratch ++ ptr, r')
        else r'.ReadRecordLoop wal_recovery_mode fuel' true prospective_record_offset' (scratch ++ ptr) := by
  have hroom := w.headerSize_le_switchBlock
  have hts := headerSizeOf_fragmentType w rfl «begin» «end»
  have hnum' : RecordType.kRecyclableFullType.toNat ≤
      (fragmentType w.recycle_log_files_ «begin» «end»).toNat → w.log_number_.toNat < 2 ^ 32 := by
    intro h
    apply hnum
    by_contra hrc
    have := (toNat_fragmentType_lt w.recycle_log_files_ «begin» «end»).mpr (by simpa using hrc)
    omega
  subst hw₂
  obtain ⟨r', hread, hr'⟩ := ReadPhysicalRecord_EmitPhysicalRecord hal htrailer hr
    (fragmentType_ne_kZeroType _ _ _) (by omega) hW hnum'
  -- the record takes a header at least, so a turn of the reader is left for each further byte
  have hgrow : w.dest_.length + kHeaderSize ≤
      (w.switchBlock.EmitPhysicalRecord (fragmentType w.recycle_log_files_ «begin» «end») ptr).dest_.length := by
    have h7 := kHeaderSize_le_headerSizeOf (fragmentType w.recycle_log_files_ «begin» «end»)
    rw [dest_EmitPhysicalRecord, dest_switchBlock]
    simp only [List.length_append, List.length_replicate, length_header]
    omega
  have hend : (w.switchBlock.EmitPhysicalRecord (fragmentType w.recycle_log_files_ «begin» «end») ptr).dest_.length
      ≤ W.length := by
    rw [hW, List.length_append]
    omega
  have h7 : 0 < kHeaderSize := by decide
  obtain ⟨fuel', rfl⟩ : ∃ f, fuel = f + 1 := ⟨fuel - 1, by omega⟩
  rw [ReadRecordLoop_fragment wal_recovery_mode fuel' _ _ _ hread hscratch]
  cases «end»
  · exact ⟨r', fuel', _, by omega, hr', rfl⟩
  · exact ⟨_, fuel', 0, by omega, hr'.last_record_offset _, rfl⟩

/-- one turn of the writer's loop, read back: a trailer the reader skips, if the writer's switch
left one that holds a legacy header, then the fragment -/
theorem ReadRecordLoop_turn {w : Writer} (hal : Aligned w) {«begin» : Bool}
    (hbegin : «begin» = false → w.block_offset_ = kBlockSize)
    (hnum : w.recycle_log_files_ = true → w.log_number_.toNat < 2 ^ 32)
    {r : Reader} (hr : ReaderAt W w.log_number_ reports (gap w.dest_.length) w.dest_.length r)
    {scratch : List UInt8} (hscratch : «begin» = true → scratch = [])
    («end» : Bool) {ptr rest : List UInt8} (w₂ : Writer)
    (hw₂ : w₂ = w.switchBlock.EmitPhysicalRecord (fragmentType w.recycle_log_files_ «begin» «end») ptr)
    (hfit : ptr.length ≤ kBlockSize - w.switchBlock.block_offset_ - w.headerSize)
    (hW : W = w₂.dest_ ++ rest) {fuel : Nat} (hfuel : W.length - w.dest_.length < fuel)
    (prospective_record_offset : Nat) :
    ∃ r' fuel' prospective_record_offset', W.length - w₂.dest_.length < fuel' ∧
      ReaderAt W w.log_number_ reports (gap w₂.dest_.length) w₂.dest_.length r' ∧
      r.ReadRecordLoop wal_recovery_mode fuel (!«begin») prospective_record_offset scratch =
        if «end» then some (true, scratch ++ ptr, r')
        else r'.ReadRecordLoop wal_recovery_mode fuel' true prospective_record_offset' (scratch ++ ptr) := by
  have hroom := w.headerSize_le_switchBlock
  by_cases hlong : kHeaderSize ≤ kBlockSize - w.block_offset_ ∧
      kBlockSize - w.block_offset_ < w.headerSize
  · -- a fragment after the first follows a full block, so this is a record's first fragment
    have hb : «begin» = true := by
      cases «begin»
      · have hfull := hbegin rfl
        rw [hfull, Nat.sub_self] at hlong
        exact absurd hlong.1 (by decide)
      · rfl
    subst hb
    have hW₁ : W = w.switchBlock.dest_ ++ (header w.log_number_
        (fragmentType w.recycle_log_files_ true «end») ptr ++ ptr ++ rest) := by
      rw [hW, hw₂, dest_EmitPhysicalRecord, log_number_switchBlock]
      simp only [List.append_assoc]
    have hpos : w.dest_.length < w.switchBlock.dest_.length := by
      rw [dest_switchBlock, if_pos hlong.2, List.length_append, List.length_replicate]
      simp only [kHeaderSize] at hlong
      omega
    have hlen : w.switchBlock.dest_.length + kHeaderSize ≤ W.length := by
      have h7 := kHeaderSize_le_headerSizeOf (fragmentType w.recycle_log_files_ true «end»)
      rw [hW₁]
      simp only [List.length_append, length_header]
      omega
    obtain ⟨fuel₀, rfl⟩ : ∃ f, fuel = f + 1 := ⟨fuel - 1, by omega⟩
    have hfuel₀ : W.length - w.switchBlock.dest_.length < fuel₀ := by
      simp only [kHeaderSize] at hlen
      omega
    obtain ⟨r₀, hloop, hr₀⟩ := ReadRecordLoop_trailer wal_recovery_mode hal hlong.1 hlong.2 hr hW₁
      fuel₀ prospective_record_offset scratch
    rw [← log_number_switchBlock] at hr₀
    -- the writer after the switch has room for the header: no second trailer
    have hnext := ReadRecordLoop_EmitPhysicalRecord wal_recovery_mode hal.aligned_switchBlock
      (by rw [headerSize_switchBlock]; omega) (by rwa [recycle_switchBlock, log_number_switchBlock])
      hr₀ hscratch «end» (by rw [switchBlock_switchBlock, recycle_switchBlock]; exact hw₂)
      (by rwa [switchBlock_switchBlock, headerSize_switchBlock]) hW hfuel₀ prospective_record_offset
    rw [log_number_switchBlock] at hnext
    rw [Bool.not_true, hloop]
    exact hnext
  · -- no trailer, or one shorter than any header: the fragment is read at once
    have htrailer : kBlockSize - w.block_offset_ < w.headerSize →
        kBlockSize - w.block_offset_ < kHeaderSize := fun h => by
      by_contra hge
      exact hlong ⟨by omega, h⟩
    exact ReadRecordLoop_EmitPhysicalRecord wal_recovery_mode hal htrailer hnum hr hscratch «end» hw₂
      hfit hW hfuel prospective_record_offset

/-- the fragments `addRecordLoop` writes are read back by `ReadRecordLoop` as one record: the
induction follows the writer's loop, one turn of it for each fragment -/
theorem ReadRecordLoop_addRecordLoop (w : Writer) (left : List UInt8) («begin» : Bool) :
    Aligned w → («begin» = false → w.block_offset_ = kBlockSize) →
    (w.recycle_log_files_ = true → w.log_number_.toNat < 2 ^ 32) →
    ∀ {rest : List UInt8}, W = (w.addRecordLoop left «begin»).dest_ ++ rest →
    ∀ (r : Reader) (fuel prospective_record_offset : Nat) (scratch : List UInt8),
    («begin» = true → scratch = []) →
    ReaderAt W w.log_number_ reports (gap w.dest_.length) w.dest_.length r →
    W.length - w.dest_.length < fuel →
    ∃ r', r.ReadRecordLoop wal_recovery_mode fuel (!«begin») prospective_record_offset scratch =
        some (true, scratch ++ left, r') ∧
      ReaderAt W w.log_number_ reports (gap (w.addRecordLoop left «begin»).dest_.length)
        (w.addRecordLoop left «begin»).dest_.length r' := by
  fun_induction w.addRecordLoop left «begin» with
  | case1 w left «begin» w₁ avail fragment_length w₂ hmore =>
    rename_i ih
    intro hal hbegin hnum rest hW r fuel prospective_record_offset scratch hscratch hr hfuel
    have hfit : (left.take fragment_length).length ≤
        kBlockSize - w.switchBlock.block_offset_ - w.headerSize :=
      (List.length_take_le _ _).trans (Nat.min_le_right _ _)
    have hln : w₂.log_number_ = w.log_number_ := by
      simp only [w₂, w₁, log_number_EmitPhysicalRecord, log_number_switchBlock]
    obtain ⟨s, hs⟩ := dest_addRecordLoop w₂ (left.drop fragment_length) false
    obtain ⟨r', fuel', prospective_record_offset', hfuel', hr', hloop⟩ :=
      ReadRecordLoop_turn wal_recovery_mode hal hbegin hnum hr hscratch _ w₂ rfl hfit
        (by rw [hW, hs, List.append_assoc]) hfuel prospective_record_offset
    rw [← hln] at hr'
    obtain ⟨r'', hloop', hr''⟩ := ih (hal.fragment rfl _ _ hfit) (fun _ => block_offset_of_lt «begin» hmore)
      (by simpa [w₂, w₁] using hnum) hW r' fuel' prospective_record_offset' (scratch ++ left.take fragment_length)
      (fun h => absurd h Bool.false_ne_true) hr' hfuel'
    refine ⟨r'', ?_, by rwa [hln] at hr''⟩
    rw [Bool.not_false] at hloop'
    rw [hloop, if_neg (by simp only [decide_eq_true_eq]; omega), hloop', List.append_assoc,
      List.take_append_drop]
  | case2 w left «begin» w₁ avail fragment_length w₂ =>
    rename_i hdone
    intro hal hbegin hnum rest hW r fuel prospective_record_offset scratch hscratch hr hfuel
    have hfit : (left.take fragment_length).length ≤
        kBlockSize - w.switchBlock.block_offset_ - w.headerSize :=
      (List.length_take_le _ _).trans (Nat.min_le_right _ _)
    have hall : fragment_length = left.length := by
      have := Nat.min_le_left left.length avail
      omega
    obtain ⟨r', _, _, -, hr', hloop⟩ :=
      ReadRecordLoop_turn wal_recovery_mode hal hbegin hnum hr hscratch _ w₂ rfl hfit hW hfuel
        prospective_record_offset
    refine ⟨r', ?_, hr'⟩
    rw [hloop, if_pos (by simp only [decide_eq_true_eq]; omega), List.take_of_length_le (by omega)]

end Record

/-! ## The end of the log -/

section End

variable {W : List UInt8} {log_number : UInt64} {reports : List (Nat × Status)}
  (wal_recovery_mode : WALRecoveryMode)

theorem ReadPhysicalRecord_of_ReadMore_error {r r' : Reader} {drop_size drop_size' error : Nat}
    (h : r.buffer_.length < kHeaderSize) (hm : r.ReadMore drop_size = .error (r', drop_size', error)) :
    r.ReadPhysicalRecord drop_size = ⟨error, [], drop_size', r'⟩ := by
  rw [Reader.ReadPhysicalRecord, if_pos h]
  split <;> simp_all

/-- with the buffer and the file empty, `ReadPhysicalRecord` finds the end of the file, now or
after one more read, and reports nothing -/
theorem ReadPhysicalRecord_eof {r : Reader} (hbuf : r.buffer_ = []) (hfile : r.file_ = [])
    (drop_size : Nat) :
    ∃ r', r.ReadPhysicalRecord drop_size = ⟨kEof, [], drop_size, r'⟩ ∧ r'.reports = r.reports := by
  have hshort : ∀ r₁ : Reader, r₁.buffer_ = [] → r₁.buffer_.length < kHeaderSize := by
    intro r₁ hb
    rw [hb]
    decide
  have herror : ∀ r₁ : Reader, r₁.buffer_ = [] → r₁.eof_ = true →
      r₁.ReadMore drop_size = .error ({ r₁ with buffer_ := [] }, drop_size, kEof) := by
    intro r₁ hb he
    simp [Reader.ReadMore, hb, he]
  cases he : r.eof_
  · -- the last read was a full block: one more read finds nothing and sets `eof_`
    have hm : r.ReadMore drop_size = .ok { r with buffer_ := [], eof_ := true, eof_offset_ := 0 } := by
      simp [Reader.ReadMore, he, hfile, kBlockSize]
    rw [ReadPhysicalRecord_of_ReadMore (hshort r hbuf) hm,
      ReadPhysicalRecord_of_ReadMore_error (hshort _ rfl) (herror _ rfl rfl)]
    exact ⟨_, rfl, rfl⟩
  · rw [ReadPhysicalRecord_of_ReadMore_error (hshort r hbuf) (herror r hbuf he)]
    exact ⟨_, rfl, rfl⟩

theorem ReadRecordLoop_eof {r r' : Reader} {drop_size : Nat}
    (h : r.ReadPhysicalRecord 0 = ⟨kEof, [], drop_size, r'⟩) (fuel prospective_record_offset : Nat)
    (scratch : List UInt8) :
    r.ReadRecordLoop wal_recovery_mode (fuel + 1) false prospective_record_offset scratch =
      some (false, [], r') := by
  rw [Reader.ReadRecordLoop, h]
  rfl

/-- from offset zero `ReadRecord` never skips to an initial block, and its loop has a turn for
each byte left, and one more -/
theorem ReadRecord_of_initial {r : Reader} (h : r.initial_offset_ = 0) :
    r.ReadRecord wal_recovery_mode =
      r.ReadRecordLoop wal_recovery_mode (r.buffer_.length + r.file_.length + 1) false 0 [] := by
  simp only [Reader.ReadRecord, h, Nat.not_lt_zero, if_false]

/-- at the end of the log `ReadRecord` returns false and reports nothing -/
theorem ReadRecord_end {room : Nat} {r : Reader} (hr : ReaderAt W log_number reports room W.length r) :
    ∃ r', r.ReadRecord wal_recovery_mode = some (false, [], r') ∧ r'.reports = reports := by
  have hbuf : r.buffer_ = [] := by rw [hr.buffer, List.drop_length, List.take_nil]
  have hfile : r.file_ = [] := by rw [hr.file, List.drop_length, List.drop_nil]
  obtain ⟨r', hread, hrep⟩ := ReadPhysicalRecord_eof hbuf hfile 0
  refine ⟨r', ?_, by rw [hrep, hr.reports]⟩
  rw [ReadRecord_of_initial wal_recovery_mode hr.initial]
  exact ReadRecordLoop_eof wal_recovery_mode hread _ _ _

end End

/-! ## The log read back -/

section Log

variable {W : List UInt8} {reports : List (Nat × Status)} (wal_recovery_mode : WALRecoveryMode)

/-- a record `AddRecord` wrote is what the next `ReadRecord` returns -/
theorem ReadRecord_AddRecord {w : Writer} (hal : Aligned w)
    (hnum : w.recycle_log_files_ = true → w.log_number_.toNat < 2 ^ 32)
    {record rest : List UInt8} (hW : W = (w.AddRecord record).dest_ ++ rest)
    {r : Reader} (hr : ReaderAt W w.log_number_ reports (gap w.dest_.length) w.dest_.length r) :
    ∃ r', r.ReadRecord wal_recovery_mode = some (true, record, r') ∧
      ReaderAt W w.log_number_ reports (gap (w.AddRecord record).dest_.length)
        (w.AddRecord record).dest_.length r' := by
  have hfuel : W.length - w.dest_.length < r.buffer_.length + r.file_.length + 1 := by
    rw [hr.length_buffer_add_length_file]
    omega
  obtain ⟨r', hloop, hr'⟩ := ReadRecordLoop_addRecordLoop wal_recovery_mode w record true hal
    nofun hnum hW r _ 0 [] (fun _ => rfl) hr hfuel
  rw [Bool.not_true, List.nil_append] at hloop
  exact ⟨r', by rw [ReadRecord_of_initial wal_recovery_mode hr.initial, hloop], hr'⟩

/-- the records a run of `AddRecord` calls wrote after `w` are read back in order from where `w`
ended, and then the end of the log -/
theorem ReadAll_foldl_AddRecord (records : List (List UInt8)) :
    ∀ (w : Writer) (r : Reader), Aligned w →
    (w.recycle_log_files_ = true → w.log_number_.toNat < 2 ^ 32) →
    W = (records.foldl AddRecord w).dest_ →
    ReaderAt W w.log_number_ reports (gap w.dest_.length) w.dest_.length r →
    ∃ r', r.ReadAll wal_recovery_mode (records.length + 1) = some (records, r') ∧
      r'.reports = reports := by
  induction records with
  | nil =>
    intro w r _ _ hW hr
    rw [List.foldl_nil] at hW
    subst hW
    obtain ⟨r', hread, hrep⟩ := ReadRecord_end wal_recovery_mode hr
    exact ⟨r', by rw [List.length_nil, Reader.ReadAll, hread], hrep⟩
  | cons record records ih =>
    intro w r hal hnum hW hr
    rw [List.foldl_cons] at hW
    obtain ⟨s, hs⟩ := dest_foldl_AddRecord records (w.AddRecord record)
    obtain ⟨r₁, hread, hr₁⟩ := ReadRecord_AddRecord wal_recovery_mode hal hnum (hW.trans hs) hr
    have hln : (w.AddRecord record).log_number_ = w.log_number_ := log_number_addRecordLoop _ _ _
    rw [← hln] at hr₁
    obtain ⟨r', hall, hrep⟩ := ih (w.AddRecord record) r₁ (hal.addRecordLoop _ _)
      (by rwa [AddRecord, recycle_addRecordLoop, log_number_addRecordLoop]) hW hr₁
    refine ⟨r', ?_, hrep⟩
    rw [List.length_cons, Reader.ReadAll, hread]
    simp only [hall, Option.map_some]

/-- a reader created at offset zero stands at the start of the log -/
theorem readerAt_new (W : List UInt8) (checksum : Bool) (log_number : UInt64) :
    ReaderAt W log_number [] (gap 0) 0 (Reader.new W checksum 0 log_number) where
  buffer := rfl
  file := rfl
  eof := fun h => absurd h Bool.false_ne_true
  offset := rfl
  initial := rfl
  log_number := rfl
  reports := rfl

theorem log_round_trip (log_number : UInt64) (recycle_log_files checksum : Bool)
    (records : List (List UInt8)) (hnum : recycle_log_files = true → log_number.toNat < 2 ^ 32) :
    ∃ r, (Reader.new (records.foldl Writer.AddRecord (Writer.new log_number recycle_log_files)).dest_
        checksum 0 log_number).ReadAll wal_recovery_mode (records.length + 1) = some (records, r) ∧
      r.reports = [] :=
  ReadAll_foldl_AddRecord wal_recovery_mode records _ _ (aligned_new _ _) hnum rfl
    (readerAt_new _ _ _)

theorem log_round_trip_fragmented :
    (true = true → (7 : UInt64).toNat < 2 ^ 32) ∧
      ∃ r, (Reader.new ([List.replicate 40000 1, [], [2, 3]].foldl Writer.AddRecord
          (Writer.new 7 true)).dest_ true 0 7).ReadAll .kAbsoluteConsistency 4 =
        some ([List.replicate 40000 1, [], [2, 3]], r) ∧ r.reports = [] :=
  ⟨by decide, log_round_trip .kAbsoluteConsistency 7 true true _ (by decide)⟩

end Log

end log

end RocksDB
