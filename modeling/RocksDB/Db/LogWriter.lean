import RocksDB.Util.Crc32c

/-!
# db/log_format.h, db/log_writer.cc: the physical records of the write-ahead log

A log file is a run of 32 KiB blocks.  `Writer::AddRecord` cuts a record into fragments that each
fit in what is left of the current block after a header, and writes each as a physical record:
`kFullType` for a record in one piece, else `kFirstType`, `kMiddleType`, ..., `kLastType`.  A block
with less room left than a header gets a trailer of zeros and the writer moves to the next block.

The header is the masked CRC-32C (4 bytes), the length (2 bytes) and the type (1 byte); with
`recycle_log_files` the types are the recyclable ones and the header also holds the low 32 bits of
the log number (4 more bytes), which the CRC covers, so that a reader can tell the records of this
log from those a recycled file still holds.

* `crc32c.Mask`, `crc32c.Unmask`   util/crc32c.h; `Unmask_Mask`: unmasking gives the CRC back;
* `Writer.EmitPhysicalRecord`      one physical record: header, then payload;
* `Writer.addRecordLoop`           the `do ... while` loop of `AddRecord`; it ends because every
                                  turn writes a byte of the record or fills its block exactly.

The file `dest_` is the list of the bytes appended to it; `Append` and `Flush` do not fail here, so
`AddRecord` always returns OK and is modelled by the writer it leaves.  Addresses of buffers are
`0` where the CRC code asks for one: `ExtendImpl_eq_bitwiseExtend` shows the CRC does not depend
on them.
-/

namespace RocksDB

namespace crc32c

/-! ## Masked CRCs -/

def kMaskDelta : UInt32 := 0xa282ead8

/-- `Mask(crc)`: rotate right by 15 bits and add a constant -/
def Mask (crc : UInt32) : UInt32 := ((crc >>> 15) ||| (crc <<< 17)) + kMaskDelta

/-- `Unmask(masked_crc)` -/
def Unmask (masked_crc : UInt32) : UInt32 :=
  let rot := masked_crc - kMaskDelta
  (rot >>> 17) ||| (rot <<< 15)

theorem rotate_right_left (x : UInt32) :
    (((x >>> 15) ||| (x <<< 17)) >>> 17) ||| (((x >>> 15) ||| (x <<< 17)) <<< 15) = x := by
  apply UInt32.toBitVec_inj.mp
  simp only [UInt32.toBitVec_or, UInt32.toBitVec_shiftRight, UInt32.toBitVec_shiftLeft]
  ext i hi
  simp only [BitVec.getElem_or]
  -- bit `i` comes back from bit `i + 17 - 32`, or from bit `i - 15`, whichever is in range
  by_cases h : i < 15
  · have hout : 32 ≤ 15 + (17 + i) := by omega
    simp [h, BitVec.getLsbD_of_ge _ _ hout, show 17 + i < 32 by omega]
  · have hback : 15 + (i - 15) = i := by omega
    have hout : 32 ≤ 15 + (17 + i) := by omega
    simp [h, hback, BitVec.getLsbD_of_ge _ _ hout, show ¬ 17 + i < 32 by omega,
      show i - 15 < 17 by omega, BitVec.getLsbD_eq_getElem hi]

@[simp] theorem Unmask_Mask (crc : UInt32) : Unmask (Mask crc) = crc := by
  simp only [Unmask, Mask, add_sub_cancel_right]
  exact rotate_right_left crc

/-- `Extend` continues across a split of its buffer, wherever the parts lie -/
theorem Extend_Extend (crc : UInt32) (a b : List UInt8) (pa pb pab : Nat) :
    Extend (Extend crc a pa) b pb = Extend crc (a ++ b) pab := by
  simp only [Extend, ExtendImpl_eq_bitwiseExtend, bitwiseExtend_append]

end crc32c

namespace log

/-! ## log_format.h -/

inductive RecordType where
  | kZeroType
  | kFullType
  | kFirstType
  | kMiddleType
  | kLastType
  | kRecyclableFullType
  | kRecyclableFirstType
  | kRecyclableMiddleType
  | kRecyclableLastType
  deriving DecidableEq, Repr

/-- the value of the enumerator, which is the type byte of the header -/
def RecordType.toNat : RecordType → Nat
  | .kZeroType => 0
  | .kFullType => 1
  | .kFirstType => 2
  | .kMiddleType => 3
  | .kLastType => 4
  | .kRecyclableFullType => 5
  | .kRecyclableFirstType => 6
  | .kRecyclableMiddleType => 7
  | .kRecyclableLastType => 8

def kMaxRecordType : Nat := RecordType.kRecyclableLastType.toNat

def kBlockSize : Nat := 32768

/-- checksum (4 bytes), length (2 bytes), type (1 byte) -/
def kHeaderSize : Nat := 4 + 2 + 1

/-- checksum (4 bytes), type (1 byte), log number (4 bytes), length (2 bytes) -/
def kRecyclableHeaderSize : Nat := 4 + 1 + 4 + 2

/-! ## The writer -/

structure Writer where
  dest_ : List UInt8
  block_offset_ : Nat
  log_number_ : UInt64
  recycle_log_files_ : Bool
  deriving DecidableEq, Repr

namespace Writer

/-- `Writer(dest, log_number, recycle_log_files)` on an empty file -/
def new (log_number : UInt64) (recycle_log_files : Bool) : Writer :=
  ⟨[], 0, log_number, recycle_log_files⟩

/-- `type_crc_[t]`, which the constructor fills for every type -/
def type_crc_ (t : RecordType) : UInt32 := crc32c.Value [UInt8.ofNat t.toNat] 0

/-- `header_size` of `AddRecord` -/
def headerSize (w : Writer) : Nat :=
  if w.recycle_log_files_ then kRecyclableHeaderSize else kHeaderSize

/-- `EmitPhysicalRecord(t, ptr, n)`: the header, then the `n` bytes of `ptr` -/
def EmitPhysicalRecord (w : Writer) (t : RecordType) (ptr : List UInt8) : Writer :=
  let n := ptr.length
  -- `buf[4]`, `buf[5]`, `buf[6]`: the length in two bytes, then the type
  let lengthType := [UInt8.ofNat (n &&& 0xff), UInt8.ofNat (n >>> 8), UInt8.ofNat t.toNat]
  if t.toNat < RecordType.kRecyclableFullType.toNat then
    -- Legacy record format: the CRC covers the type and the payload
    let crc := crc32c.Mask (crc32c.Extend (type_crc_ t) ptr 0)
    { w with
      dest_ := w.dest_ ++ (encodeFixed32 crc ++ lengthType) ++ ptr
      block_offset_ := w.block_offset_ + kHeaderSize + n }
  else
    -- Recyclable record format: `buf + 7` holds the low 32 bits of the log number
    let logNumber := encodeFixed32 w.log_number_.toUInt32
    let crc := crc32c.Mask (crc32c.Extend (crc32c.Extend (type_crc_ t) logNumber 0) ptr 0)
    { w with
      dest_ := w.dest_ ++ (encodeFixed32 crc ++ lengthType ++ logNumber) ++ ptr
      block_offset_ := w.block_offset_ + kRecyclableHeaderSize + n }

/-- the `type` `AddRecord` gives a fragment: whether it is the record's first and its last -/
def fragmentType (recycle_log_files «begin» «end» : Bool) : RecordType :=
  if «begin» && «end» then
    if recycle_log_files then .kRecyclableFullType else .kFullType
  else if «begin» then
    if recycle_log_files then .kRecyclableFirstType else .kFirstType
  else if «end» then
    if recycle_log_files then .kRecyclableLastType else .kLastType
  else
    if recycle_log_files then .kRecyclableMiddleType else .kMiddleType

/-- a block switch, as `AddRecord` makes it when less than a header is left: the trailer gets
zeros (none if the block is full) -/
def switchBlock (w : Writer) : Writer :=
  if kBlockSize - w.block_offset_ < w.headerSize then
    { w with dest_ := w.dest_ ++ List.replicate (kBlockSize - w.block_offset_) 0, block_offset_ := 0 }
  else w

@[simp] theorem headerSize_switchBlock (w : Writer) : w.switchBlock.headerSize = w.headerSize := by
  unfold switchBlock
  split <;> rfl

@[simp] theorem recycle_switchBlock (w : Writer) :
    w.switchBlock.recycle_log_files_ = w.recycle_log_files_ := by
  unfold switchBlock
  split <;> rfl

@[simp] theorem headerSize_EmitPhysicalRecord (w : Writer) (t : RecordType) (ptr : List UInt8) :
    (w.EmitPhysicalRecord t ptr).headerSize = w.headerSize := by
  unfold EmitPhysicalRecord
  split <;> rfl

theorem headerSize_pos (w : Writer) : 0 < w.headerSize := by
  unfold headerSize
  split <;> decide

theorem headerSize_le (w : Writer) : w.headerSize ≤ kRecyclableHeaderSize := by
  unfold headerSize
  split <;> decide

/-- after a switch the block has room for a header -/
theorem headerSize_le_switchBlock (w : Writer) :
    w.switchBlock.block_offset_ + w.headerSize ≤ kBlockSize := by
  have hh := w.headerSize_le
  have hpos := w.headerSize_pos
  unfold switchBlock
  split
  · simp only [kBlockSize, kRecyclableHeaderSize] at hh ⊢
    omega
  · omega

theorem kHeaderSize_le_headerSize (w : Writer) : kHeaderSize ≤ w.headerSize := by
  unfold headerSize
  split <;> decide

/-- a block switch leaves room for a header, so a second one does nothing -/
@[simp] theorem switchBlock_switchBlock (w : Writer) : w.switchBlock.switchBlock = w.switchBlock := by
  have hroom := w.headerSize_le_switchBlock
  rw [switchBlock.eq_1 w.switchBlock, headerSize_switchBlock, if_neg (by omega)]

theorem fragmentType_ne_kZeroType (recycle_log_files «begin» «end» : Bool) :
    fragmentType recycle_log_files «begin» «end» ≠ .kZeroType := by
  cases recycle_log_files <;> cases «begin» <;> cases «end» <;> decide

theorem toNat_fragmentType_lt (recycle_log_files «begin» «end» : Bool) :
    (fragmentType recycle_log_files «begin» «end»).toNat < RecordType.kRecyclableFullType.toNat ↔
      recycle_log_files = false := by
  cases recycle_log_files <;> cases «begin» <;> cases «end» <;> decide

/-- a fragment of `AddRecord` takes a header of the writer's size and its payload -/
theorem block_offset_EmitPhysicalRecord (w : Writer) {recycle_log_files : Bool}
    (hr : recycle_log_files = w.recycle_log_files_) («begin» «end» : Bool) (ptr : List UInt8) :
    (w.EmitPhysicalRecord (fragmentType recycle_log_files «begin» «end») ptr).block_offset_ =
      w.block_offset_ + w.headerSize + ptr.length := by
  subst hr
  unfold EmitPhysicalRecord headerSize
  cases w.recycle_log_files_ <;> cases «begin» <;> cases «end» <;> rfl

/-- the turns of `AddRecord`'s loop get fewer: a turn that leaves bytes to write fills its block,
so it writes one of them, or else the block had room for a header only, before any switch -/
theorem addRecordLoop_decreasing (w : Writer) (left : List UInt8) («begin» : Bool)
    (h : min left.length (kBlockSize - w.switchBlock.block_offset_ - w.headerSize) < left.length) :
    let fragment_length := min left.length (kBlockSize - w.switchBlock.block_offset_ - w.headerSize)
    let w₂ := w.switchBlock.EmitPhysicalRecord
      (fragmentType w.recycle_log_files_ «begin» (left.length = fragment_length))
      (left.take fragment_length)
    2 * (left.drop fragment_length).length +
        (if w₂.block_offset_ + w₂.headerSize = kBlockSize then 1 else 0) <
      2 * left.length + if w.block_offset_ + w.headerSize = kBlockSize then 1 else 0 := by
  intro fragment_length w₂
  have hroom := w.headerSize_le_switchBlock
  have hpos := w.headerSize_pos
  have hle := w.headerSize_le
  have hfull : w.switchBlock.block_offset_ + w.headerSize + fragment_length = kBlockSize := by
    omega
  have hw₂ : w₂.block_offset_ = kBlockSize := by
    simp only [w₂, block_offset_EmitPhysicalRecord _ (recycle_switchBlock w).symm,
      headerSize_switchBlock, List.length_take]
    omega
  rw [hw₂, headerSize_EmitPhysicalRecord, headerSize_switchBlock, List.length_drop,
    if_neg (by omega)]
  by_cases hz : fragment_length = 0
  · have hsame : w.switchBlock = w := by
      unfold switchBlock at hfull ⊢
      by_cases hsw : kBlockSize - w.block_offset_ < w.headerSize
      · rw [if_pos hsw] at hfull
        simp only [kBlockSize, kRecyclableHeaderSize] at *
        omega
      · rw [if_neg hsw]
    rw [hsame] at hfull
    rw [if_pos (by omega)]
    omega
  · omega

/-- the `do ... while` loop of `AddRecord`, with the bytes `left` still to write and `begin` until
the first fragment is out -/
def addRecordLoop (w : Writer) (left : List UInt8) («begin» : Bool) : Writer :=
  let w₁ := w.switchBlock
  let avail := kBlockSize - w₁.block_offset_ - w.headerSize
  let fragment_length := min left.length avail
  let w₂ := w₁.EmitPhysicalRecord
    (fragmentType w.recycle_log_files_ «begin» (left.length = fragment_length))
    (left.take fragment_length)
  if fragment_length < left.length then addRecordLoop w₂ (left.drop fragment_length) false
  else w₂
termination_by 2 * left.length + if w.block_offset_ + w.headerSize = kBlockSize then 1 else 0
decreasing_by exact addRecordLoop_decreasing w left «begin» (by assumption)

/-- `AddRecord(slice)` -/
def AddRecord (w : Writer) (slice : List UInt8) : Writer := addRecordLoop w slice true

end Writer

/-! ## What the writer writes -/

/-- the bytes `buf + 7` of a recyclable header, the low 32 bits of the log number; none in a
legacy header -/
def logNumberBytes (log_number : UInt64) (t : RecordType) : List UInt8 :=
  if t.toNat < RecordType.kRecyclableFullType.toNat then [] else encodeFixed32 log_number.toUInt32

/-- the header of a physical record: the masked CRC of the type byte, the log number bytes and the
payload; the length in two bytes; the type; the log number bytes -/
def header (log_number : UInt64) (t : RecordType) (payload : List UInt8) : List UInt8 :=
  encodeFixed32
      (crc32c.Mask (crc32c.Value (UInt8.ofNat t.toNat :: (logNumberBytes log_number t ++ payload)) 0)) ++
    [UInt8.ofNat (payload.length &&& 0xff), UInt8.ofNat (payload.length >>> 8), UInt8.ofNat t.toNat] ++
    logNumberBytes log_number t

/-- the header size of a type: `kRecyclableHeaderSize` from `kRecyclableFullType` on -/
def headerSizeOf (t : RecordType) : Nat :=
  if t.toNat < RecordType.kRecyclableFullType.toNat then kHeaderSize else kRecyclableHeaderSize

theorem length_header (log_number : UInt64) (t : RecordType) (payload : List UInt8) :
    (header log_number t payload).length = headerSizeOf t := by
  unfold header headerSizeOf logNumberBytes
  split <;> simp [kHeaderSize, kRecyclableHeaderSize]

theorem headerSizeOf_fragmentType (w : Writer) {recycle_log_files : Bool}
    (hr : recycle_log_files = w.recycle_log_files_) («begin» «end» : Bool) :
    headerSizeOf (Writer.fragmentType recycle_log_files «begin» «end») = w.headerSize := by
  subst hr
  unfold headerSizeOf Writer.headerSize
  cases w.recycle_log_files_ <;> cases «begin» <;> cases «end» <;> rfl

namespace Writer

/-- `EmitPhysicalRecord` appends the header and the payload -/
theorem dest_EmitPhysicalRecord (w : Writer) (t : RecordType) (ptr : List UInt8) :
    (w.EmitPhysicalRecord t ptr).dest_ = w.dest_ ++ header w.log_number_ t ptr ++ ptr := by
  unfold EmitPhysicalRecord header logNumberBytes type_crc_ crc32c.Value
  by_cases ht : t.toNat < RecordType.kRecyclableFullType.toNat
  · simp only [ht, if_true, crc32c.Extend_Extend _ _ _ _ _ 0, List.nil_append, List.append_assoc,
      List.cons_append]
  · simp only [ht, if_false, crc32c.Extend_Extend _ _ _ _ _ 0, List.nil_append, List.append_assoc,
      List.cons_append]

theorem dest_switchBlock (w : Writer) :
    w.switchBlock.dest_ = w.dest_ ++
      List.replicate (if kBlockSize - w.block_offset_ < w.headerSize then kBlockSize - w.block_offset_
        else 0) 0 := by
  unfold switchBlock
  split <;> simp

theorem block_offset_switchBlock (w : Writer) :
    w.switchBlock.block_offset_ =
      if kBlockSize - w.block_offset_ < w.headerSize then 0 else w.block_offset_ := by
  unfold switchBlock
  split <;> rfl

@[simp] theorem log_number_switchBlock (w : Writer) :
    w.switchBlock.log_number_ = w.log_number_ := by
  unfold switchBlock
  split <;> rfl

@[simp] theorem log_number_EmitPhysicalRecord (w : Writer) (t : RecordType) (ptr : List UInt8) :
    (w.EmitPhysicalRecord t ptr).log_number_ = w.log_number_ := by
  unfold EmitPhysicalRecord
  split <;> rfl

@[simp] theorem recycle_EmitPhysicalRecord (w : Writer) (t : RecordType) (ptr : List UInt8) :
    (w.EmitPhysicalRecord t ptr).recycle_log_files_ = w.recycle_log_files_ := by
  unfold EmitPhysicalRecord
  split <;> rfl

/-- the writer's block offset is where its file ends in the current block (a full block, at its
end, is the offset `kBlockSize`) -/
structure Aligned (w : Writer) : Prop where
  le : w.block_offset_ ≤ kBlockSize
  mod : w.dest_.length % kBlockSize = w.block_offset_ % kBlockSize

theorem aligned_new (log_number : UInt64) (recycle_log_files : Bool) :
    Aligned (new log_number recycle_log_files) :=
  ⟨Nat.zero_le _, rfl⟩

/-- after the switch the file ends inside a block with room for a header -/
theorem Aligned.switchBlock {w : Writer} (h : Aligned w) :
    w.switchBlock.dest_.length % kBlockSize = w.switchBlock.block_offset_ := by
  have hroom := w.headerSize_le_switchBlock
  have hpos := w.headerSize_pos
  have hmod := h.mod
  have hle := h.le
  rw [dest_switchBlock, block_offset_switchBlock, List.length_append, List.length_replicate]
  rw [block_offset_switchBlock] at hroom
  by_cases hs : kBlockSize - w.block_offset_ < w.headerSize
  · simp only [hs, if_true] at hroom ⊢
    simp only [kBlockSize] at *
    omega
  · simp only [hs, if_false] at hroom ⊢
    simp only [kBlockSize] at *
    omega

theorem Aligned.EmitPhysicalRecord {w : Writer} (h : w.dest_.length % kBlockSize = w.block_offset_)
    {t : RecordType} {ptr : List UInt8}
    (hfit : w.block_offset_ + (headerSizeOf t + ptr.length) ≤ kBlockSize) :
    Aligned (w.EmitPhysicalRecord t ptr) := by
  have hoff : (w.EmitPhysicalRecord t ptr).block_offset_ =
      w.block_offset_ + (headerSizeOf t + ptr.length) := by
    unfold Writer.EmitPhysicalRecord headerSizeOf
    by_cases ht : t.toNat < RecordType.kRecyclableFullType.toNat
    · simp only [ht, if_true]
      omega
    · simp only [ht, if_false]
      omega
  refine ⟨by omega, ?_⟩
  rw [hoff, dest_EmitPhysicalRecord, List.length_append, List.length_append, length_header]
  simp only [kBlockSize] at *
  omega

theorem Aligned.aligned_switchBlock {w : Writer} (h : Aligned w) : Aligned w.switchBlock := by
  have hroom := w.headerSize_le_switchBlock
  have hpos := w.headerSize_pos
  refine ⟨by omega, ?_⟩
  rw [h.switchBlock, Nat.mod_eq_of_lt (by omega)]

/-- a turn of the loop that leaves bytes to write ends its block -/
theorem block_offset_of_lt {w : Writer} {left : List UInt8} («begin» : Bool)
    (h : min left.length (kBlockSize - w.switchBlock.block_offset_ - w.headerSize) < left.length) :
    (w.switchBlock.EmitPhysicalRecord
      (fragmentType w.recycle_log_files_ «begin»
        (left.length = min left.length (kBlockSize - w.switchBlock.block_offset_ - w.headerSize)))
      (left.take (min left.length (kBlockSize - w.switchBlock.block_offset_ - w.headerSize)))
      ).block_offset_ = kBlockSize := by
  have hroom := w.headerSize_le_switchBlock
  rw [block_offset_EmitPhysicalRecord _ (recycle_switchBlock w).symm, headerSize_switchBlock,
    List.length_take]
  omega

theorem dest_switchBlock_EmitPhysicalRecord (w : Writer) (t : RecordType) (ptr : List UInt8) :
    ∃ s, (w.switchBlock.EmitPhysicalRecord t ptr).dest_ = w.dest_ ++ s :=
  ⟨_, by rw [dest_EmitPhysicalRecord, dest_switchBlock, List.append_assoc, List.append_assoc]⟩

/-- the file of the loop's writer starts with the file it was given -/
theorem dest_addRecordLoop (w : Writer) (left : List UInt8) («begin» : Bool) :
    ∃ s, (w.addRecordLoop left «begin»).dest_ = w.dest_ ++ s := by
  fun_induction w.addRecordLoop left «begin» with
  | case1 w left «begin» w₁ avail fragment_length w₂ hmore ih =>
    obtain ⟨s, hs⟩ := ih
    obtain ⟨s₂, hs₂⟩ := dest_switchBlock_EmitPhysicalRecord w
      (fragmentType w.recycle_log_files_ «begin» (left.length = fragment_length))
      (left.take fragment_length)
    exact ⟨s₂ ++ s, by rw [hs, hs₂, List.append_assoc]⟩
  | case2 w left «begin» w₁ avail fragment_length w₂ hdone =>
    exact dest_switchBlock_EmitPhysicalRecord w _ _

/-- a fragment that fits in the block after the switch keeps the writer aligned -/
theorem Aligned.fragment {w : Writer} (h : Aligned w) {recycle_log_files : Bool}
    (hr : recycle_log_files = w.recycle_log_files_) («begin» «end» : Bool) {ptr : List UInt8}
    (hfit : ptr.length ≤ kBlockSize - w.switchBlock.block_offset_ - w.headerSize) :
    Aligned (w.switchBlock.EmitPhysicalRecord (fragmentType recycle_log_files «begin» «end») ptr) := by
  have hroom := w.headerSize_le_switchBlock
  refine Aligned.EmitPhysicalRecord h.switchBlock ?_
  rw [headerSizeOf_fragmentType w hr]
  omega

/-- every turn of the loop writes a fragment no longer than the room left in the block -/
theorem Aligned.addRecordLoop {w : Writer} (h : Aligned w) (left : List UInt8) («begin» : Bool) :
    Aligned (w.addRecordLoop left «begin») := by
  fun_induction w.addRecordLoop left «begin» with
  | case1 w left «begin» w₁ avail fragment_length w₂ hmore ih =>
    exact ih (h.fragment rfl _ _ ((List.length_take_le _ _).trans (Nat.min_le_right _ _)))
  | case2 w left «begin» w₁ avail fragment_length w₂ hdone =>
    exact h.fragment rfl _ _ ((List.length_take_le _ _).trans (Nat.min_le_right _ _))

/-- the loop's first turn: its fragment is the first thing written after the switch -/
theorem dest_addRecordLoop_first (w : Writer) (left : List UInt8) («begin» : Bool) :
    ∃ s, (w.addRecordLoop left «begin»).dest_ =
      (w.switchBlock.EmitPhysicalRecord
        (fragmentType w.recycle_log_files_ «begin»
          (left.length = min left.length (kBlockSize - w.switchBlock.block_offset_ - w.headerSize)))
        (left.take (min left.length (kBlockSize - w.switchBlock.block_offset_ - w.headerSize)))).dest_ ++ s := by
  rw [addRecordLoop]
  split
  · exact dest_addRecordLoop _ _ _
  · exact ⟨[], (List.append_nil _).symm⟩

/-- a new log starts with a block that has room for a header -/
@[simp] theorem switchBlock_new (log_number : UInt64) (recycle_log_files : Bool) :
    (new log_number recycle_log_files).switchBlock = new log_number recycle_log_files := by
  have hroom : ¬ kBlockSize - (new log_number recycle_log_files).block_offset_ <
      (new log_number recycle_log_files).headerSize := by
    have hle := (new log_number recycle_log_files).headerSize_le
    simp only [new, kBlockSize, kRecyclableHeaderSize] at hle ⊢
    omega
  rw [switchBlock, if_neg hroom]

/-- the log a run of `AddRecord` calls leaves starts with the log it was given -/
theorem dest_foldl_AddRecord (records : List (List UInt8)) (w : Writer) :
    ∃ s, (records.foldl AddRecord w).dest_ = w.dest_ ++ s := by
  induction records generalizing w with
  | nil => exact ⟨[], by rw [List.foldl_nil, List.append_nil]⟩
  | cons record records ih =>
    obtain ⟨s₁, h₁⟩ := dest_addRecordLoop w record true
    obtain ⟨s₂, h₂⟩ := ih (w.AddRecord record)
    exact ⟨s₁ ++ s₂, by rw [List.foldl_cons, h₂, AddRecord, h₁, List.append_assoc]⟩

@[simp] theorem log_number_addRecordLoop (w : Writer) (left : List UInt8) («begin» : Bool) :
    (w.addRecordLoop left «begin»).log_number_ = w.log_number_ := by
  fun_induction w.addRecordLoop left «begin» with
  | case1 w left «begin» w₁ avail fragment_length w₂ hmore ih => simp only [ih, w₂, w₁,
      log_number_EmitPhysicalRecord, log_number_switchBlock]
  | case2 w left «begin» w₁ avail fragment_length w₂ hdone => simp only [w₂, w₁,
      log_number_EmitPhysicalRecord, log_number_switchBlock]

@[simp] theorem recycle_addRecordLoop (w : Writer) (left : List UInt8) («begin» : Bool) :
    (w.addRecordLoop left «begin»).recycle_log_files_ = w.recycle_log_files_ := by
  fun_induction w.addRecordLoop left «begin» with
  | case1 w left «begin» w₁ avail fragment_length w₂ hmore ih => simp only [ih, w₂, w₁,
      recycle_EmitPhysicalRecord, recycle_switchBlock]
  | case2 w left «begin» w₁ avail fragment_length w₂ hdone => simp only [w₂, w₁,
      recycle_EmitPhysicalRecord, recycle_switchBlock]

end Writer

end log

end RocksDB
