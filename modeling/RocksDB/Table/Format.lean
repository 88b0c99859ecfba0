import RocksDB.Util.Coding
import RocksDB.Util.Status

/-!
# table/format.h, table/format.cc: block handles and the table footer

* `BlockHandle.EncodeTo`, `BlockHandle.DecodeFrom`   the offset and the size as two varint64s;
* `Footer.EncodeTo`       the legacy layout (two handles padded to 40 bytes, the magic number as
                          two fixed32 halves: 48 bytes) for a legacy magic number, the new one
                          otherwise (the checksum type byte, the handles padded to 41 bytes, the
                          version and the magic number: 53 bytes);
* `Footer.DecodeFrom`     the magic number from the last eight bytes, which decides the layout;
                          the footer is then read from that many bytes before the end.

`Footer.DecodeFrom_EncodeTo` reads back what `EncodeTo` wrote, after any bytes: the handles, the
version and the checksum type, with a legacy magic number turned into its new counterpart.  The
handles take at most 40 bytes (`Footer.length_handles_le`), so the padding never cuts them, and the
varints stop at their own last byte whatever follows (`getVarint64_encodeVarint64`).
-/

namespace RocksDB

/-- `kMagicNumberLengthByte` -/
def kMagicNumberLengthByte : Nat := 8

/-- `std::string::resize(n)`: cut to `n` bytes, or filled up with zeros -/
def resize (s : List UInt8) (n : Nat) : List UInt8 := s.take n ++ List.replicate (n - s.length) 0

/-- `PutVarint64Varint64` -/
def putVarint64Varint64 (dst : List UInt8) (v1 v2 : UInt64) : List UInt8 :=
  dst ++ (encodeVarint64 v1 ++ encodeVarint64 v2)

/-! ## Block handles -/

structure BlockHandle where
  offset_ : UInt64
  size_ : UInt64
  deriving DecidableEq, Repr

namespace BlockHandle

/-- `BlockHandle()`: both fields `~0` -/
def new : BlockHandle := ⟨~~~0, ~~~0⟩

/-- `kMaxEncodedLength`: two varint64s of at most ten bytes -/
def kMaxEncodedLength : Nat := 10 + 10

def EncodeTo (h : BlockHandle) (dst : List UInt8) : List UInt8 :=
  putVarint64Varint64 dst h.offset_ h.size_

/-- `DecodeFrom(Slice* input)`: both varints or `Corruption`, with the handle reset to `0, 0`; the
input is left past what was read -/
def DecodeFrom (h : BlockHandle) (input : List UInt8) : BlockHandle × Status × List UInt8 :=
  match getVarint64 input with
  | some (offset, input) =>
    match getVarint64 input with
    | some (size, input) => ({ h with offset_ := offset, size_ := size }, Status.OK, input)
    | none => (⟨0, 0⟩, Status.Corruption "bad block handle", input)
  | none => (⟨0, 0⟩, Status.Corruption "bad block handle", input)

end BlockHandle

/-! ## The footer -/

/-- `ChecksumType` is a `char` enum -/
def kNoChecksum : UInt8 := 0
def kCRC32c : UInt8 := 1
def kxxHash : UInt8 := 2

def kBlockBasedTableMagicNumber : UInt64 := 0x88e241b785f4cff7
def kLegacyBlockBasedTableMagicNumber : UInt64 := 0xdb4775248b80fb57
def kPlainTableMagicNumber : UInt64 := 0x8242229663bf9564
def kLegacyPlainTableMagicNumber : UInt64 := 0x4f3418eb7a8f13b8

def IsLegacyFooterFormat (magic_number : UInt64) : Bool :=
  magic_number == kLegacyBlockBasedTableMagicNumber || magic_number == kLegacyPlainTableMagicNumber

/-- `UpconvertLegacyFooterFormat`: `assert(false); return 0;` for a magic number that is not
legacy -/
def UpconvertLegacyFooterFormat (magic_number : UInt64) : UInt64 :=
  if magic_number == kLegacyBlockBasedTableMagicNumber then kBlockBasedTableMagicNumber
  else if magic_number == kLegacyPlainTableMagicNumber then kPlainTableMagicNumber
  else 0

structure Footer where
  version_ : UInt32
  checksum_ : UInt8
  metaindex_handle_ : BlockHandle
  index_handle_ : BlockHandle
  table_magic_number_ : UInt64
  deriving DecidableEq, Repr

namespace Footer

/-- `kVersion0EncodedLength` -/
def kVersion0EncodedLength : Nat := 2 * BlockHandle.kMaxEncodedLength + 8
/-- `kNewVersionsEncodedLength` -/
def kNewVersionsEncodedLength : Nat := 1 + 2 * BlockHandle.kMaxEncodedLength + 4 + 8

/-- `kInvalidTableMagicNumber` -/
def kInvalidTableMagicNumber : UInt64 := 0

/-- `Footer(table_magic_number, version)`: checksum `kCRC32c`, handles as `BlockHandle()` -/
def new (table_magic_number : UInt64) (version : UInt32) : Footer :=
  ⟨version, kCRC32c, BlockHandle.new, BlockHandle.new, table_magic_number⟩

/-- `Footer::EncodeTo` -/
def EncodeTo (f : Footer) (dst : List UInt8) : List UInt8 :=
  let magic := f.table_magic_number_
  if IsLegacyFooterFormat magic then
    let original_size := dst.length
    let dst := f.index_handle_.EncodeTo (f.metaindex_handle_.EncodeTo dst)
    let dst := resize dst (original_size + 2 * BlockHandle.kMaxEncodedLength)
    let dst := putFixed32 dst (magic &&& 0xffffffff).toUInt32
    putFixed32 dst (magic >>> 32).toUInt32
  else
    let original_size := dst.length
    let dst := dst ++ [f.checksum_]
    let dst := f.index_handle_.EncodeTo (f.metaindex_handle_.EncodeTo dst)
    let dst := resize dst (original_size + kNewVersionsEncodedLength - 12)
    let dst := putFixed32 dst f.version_
    let dst := putFixed32 dst (magic &&& 0xffffffff).toUInt32
    putFixed32 dst (magic >>> 32).toUInt32

/-- the two handles of `DecodeFrom`; after both the input is the empty slice at the end of the
footer -/
def decodeHandles (f : Footer) (input : List UInt8) : Footer × Status × List UInt8 :=
  let (metaindex_handle, result, input) := f.metaindex_handle_.DecodeFrom input
  let f := { f with metaindex_handle_ := metaindex_handle }
  if result.ok then
    let (index_handle, result, input) := f.index_handle_.DecodeFrom input
    let f := { f with index_handle_ := index_handle }
    if result.ok then (f, result, []) else (f, result, input)
  else (f, result, input)

/-- `Footer::DecodeFrom`, on a footer whose magic number is not set -/
def DecodeFrom (f : Footer) (input : List UInt8) : Footer × Status × List UInt8 :=
  let magic_ptr := input.drop (input.length - kMagicNumberLengthByte)
  let magic_lo := decodeFixed32 magic_ptr
  let magic_hi := decodeFixed32 (magic_ptr.drop 4)
  let magic := (magic_hi.toUInt64 <<< 32) ||| magic_lo.toUInt64
  let legacy := IsLegacyFooterFormat magic
  let magic := if legacy then UpconvertLegacyFooterFormat magic else magic
  let f := { f with table_magic_number_ := magic }
  if legacy then
    decodeHandles { f with version_ := 0, checksum_ := kCRC32c }
      (input.drop (input.length - kVersion0EncodedLength))
  else
    let f := { f with version_ := decodeFixed32 (input.drop (input.length - 12)) }
    if input.length < kNewVersionsEncodedLength then
      (f, Status.Corruption "input is too short to be an sstable", input)
    else
      let input := input.drop (input.length - kNewVersionsEncodedLength)
      match getVarint32 input with
      | none => (f, Status.Corruption "bad checksum type", input)
      | some (chksum, input) => decodeHandles { f with checksum_ := UInt8.ofNat chksum.toNat } input

end Footer

/-! ## Reading back -/

theorem resize_of_le {s : List UInt8} {n : Nat} (h : s.length ≤ n) :
    resize s n = s ++ List.replicate (n - s.length) 0 := by
  rw [resize, List.take_of_length_le h]

theorem length_encodeVarint64_le (v : UInt64) : (encodeVarint64 v).length ≤ 10 := by
  rw [length_encodeVarint64, varintLength]
  exact ByteCode.base128Length_le (by norm_num) (lt_of_lt_of_le v.toNat_lt (by norm_num))

/-- the last `n` bytes of a list that ends with `n` bytes -/
theorem drop_length_sub_append {l r : List UInt8} {n : Nat} (h : r.length = n) :
    (l ++ r).drop ((l ++ r).length - n) = r := by
  rw [List.length_append, h, Nat.add_sub_cancel, List.drop_left]

/-- the two halves `EncodeTo` writes make the magic number again -/
theorem magic_halves (m : UInt64) :
    ((m >>> 32).toUInt32.toUInt64 <<< 32) ||| (m &&& 0xffffffff).toUInt32.toUInt64 = m := by
  apply UInt64.toNat_inj.mp
  have hm : m.toNat < 2 ^ 64 := m.toNat_lt
  have hlow : (m.toNat &&& UInt64.toNat 4294967295) % 2 ^ 32 = m.toNat % 2 ^ 32 := by
    rw [show UInt64.toNat 4294967295 = 2 ^ 32 - 1 from rfl, Nat.and_two_pow_sub_one_eq_mod,
      Nat.mod_mod]
  have hhigh : (m.toNat >>> (UInt64.toNat 32 % 64) % 2 ^ 32) <<< (UInt64.toNat 32 % 64) % 2 ^ 64 =
      (m.toNat / 2 ^ 32) <<< 32 := by
    rw [show UInt64.toNat 32 % 64 = 32 from rfl, Nat.shiftRight_eq_div_pow,
      Nat.mod_eq_of_lt (a := m.toNat / 2 ^ 32) (by omega), Nat.mod_eq_of_lt]
    rw [Nat.shiftLeft_eq]
    omega
  simp only [UInt64.toNat_or, UInt64.toNat_shiftLeft, UInt32.toNat_toUInt64, UInt64.toNat_toUInt32,
    UInt64.toNat_shiftRight, UInt64.toNat_and, hlow, hhigh]
  -- the high half shifted above the low one adds to it
  rw [Nat.lor_comm, or_shiftLeft_eq_add _ (Nat.mod_lt _ (by norm_num))]
  omega

namespace BlockHandle

/-- the bytes `EncodeTo` appends -/
def encode (h : BlockHandle) : List UInt8 := encodeVarint64 h.offset_ ++ encodeVarint64 h.size_

theorem EncodeTo_eq (h : BlockHandle) (dst : List UInt8) : h.EncodeTo dst = dst ++ h.encode := rfl

theorem length_encode_le (h : BlockHandle) : h.encode.length ≤ kMaxEncodedLength := by
  have h1 := length_encodeVarint64_le h.offset_
  have h2 := length_encodeVarint64_le h.size_
  rw [encode, List.length_append, kMaxEncodedLength]
  omega

/-- a handle is read back from its encoding, whatever follows, and the input is left after it -/
theorem DecodeFrom_encode (h h0 : BlockHandle) (t : List UInt8) :
    h0.DecodeFrom (h.encode ++ t) = (h, Status.OK, t) := by
  rw [DecodeFrom, encode, List.append_assoc, getVarint64_encodeVarint64]
  dsimp only
  rw [getVarint64_encodeVarint64]

end BlockHandle

namespace Footer

/-- the handle bytes with their padding: 40 bytes -/
def handlesPadded (f : Footer) : List UInt8 :=
  f.metaindex_handle_.encode ++ f.index_handle_.encode ++
    List.replicate (2 * BlockHandle.kMaxEncodedLength -
      (f.metaindex_handle_.encode ++ f.index_handle_.encode).length) 0

/-- the magic number's two fixed32 halves, low first -/
def magicBytes (magic : UInt64) : List UInt8 :=
  encodeFixed32 (magic &&& 0xffffffff).toUInt32 ++ encodeFixed32 (magic >>> 32).toUInt32

theorem length_handles_le (f : Footer) :
    (f.metaindex_handle_.encode ++ f.index_handle_.encode).length ≤
      2 * BlockHandle.kMaxEncodedLength := by
  have h1 := f.metaindex_handle_.length_encode_le
  have h2 := f.index_handle_.length_encode_le
  rw [List.length_append]
  omega

theorem EncodeTo_legacy {f : Footer} (h : IsLegacyFooterFormat f.table_magic_number_ = true) :
    f.EncodeTo [] = f.handlesPadded ++ magicBytes f.table_magic_number_ := by
  rw [EncodeTo, if_pos h]
  simp only [BlockHandle.EncodeTo_eq, List.nil_append, List.length_nil, Nat.zero_add,
    resize_of_le f.length_handles_le, putFixed32, handlesPadded, magicBytes, List.append_assoc]

theorem EncodeTo_new {f : Footer} (h : IsLegacyFooterFormat f.table_magic_number_ = false) :
    f.EncodeTo [] =
      f.checksum_ :: f.handlesPadded ++ (encodeFixed32 f.version_ ++ magicBytes f.table_magic_number_) := by
  have hle : ([f.checksum_] ++ f.metaindex_handle_.encode ++ f.index_handle_.encode).length ≤
      kNewVersionsEncodedLength - 12 := by
    have := f.length_handles_le
    simp only [List.length_append, List.length_singleton, kNewVersionsEncodedLength] at this ⊢
    omega
  rw [EncodeTo, if_neg (by simp [h])]
  dsimp only
  rw [BlockHandle.EncodeTo_eq, BlockHandle.EncodeTo_eq, List.nil_append, List.length_nil,
    Nat.zero_add, resize_of_le hle]
  simp only [putFixed32, handlesPadded, magicBytes, List.append_assoc, List.cons_append,
    List.nil_append, List.length_append, List.length_cons]
  -- the padding: 41 bytes less the checksum byte and the handles is 40 less the handles
  have hpad : kNewVersionsEncodedLength - 12 -
      (f.metaindex_handle_.encode.length + f.index_handle_.encode.length + 1) =
      2 * BlockHandle.kMaxEncodedLength -
        (f.metaindex_handle_.encode.length + f.index_handle_.encode.length) := by
    simp only [kNewVersionsEncodedLength, BlockHandle.kMaxEncodedLength]
    omega
  rw [hpad]

theorem length_handlesPadded (f : Footer) :
    f.handlesPadded.length = 2 * BlockHandle.kMaxEncodedLength := by
  have := f.length_handles_le
  rw [handlesPadded, List.length_append, List.length_replicate]
  omega

@[simp] theorem length_magicBytes (m : UInt64) : (magicBytes m).length = 8 := by
  simp [magicBytes]

/-- the magic number read from the last eight bytes of what ends with its halves -/
theorem magic_of_magicBytes (pre : List UInt8) (m : UInt64) :
    let magic_ptr := (pre ++ magicBytes m).drop ((pre ++ magicBytes m).length - kMagicNumberLengthByte)
    ((decodeFixed32 (magic_ptr.drop 4)).toUInt64 <<< 32) ||| (decodeFixed32 magic_ptr).toUInt64 = m := by
  intro magic_ptr
  have hptr : magic_ptr = magicBytes m := drop_length_sub_append (length_magicBytes m)
  have hlo : decodeFixed32 magic_ptr = (m &&& 0xffffffff).toUInt32 := by
    rw [hptr, magicBytes, decodeFixed32_encodeFixed32]
  have hhi : decodeFixed32 (magic_ptr.drop 4) = (m >>> 32).toUInt32 := by
    rw [hptr, magicBytes, List.drop_left' (length_encodeFixed32 _), ← List.append_nil (encodeFixed32 _),
      decodeFixed32_encodeFixed32]
  rw [hlo, hhi, magic_halves]

/-- both handles read from their padded bytes; the input is then the empty slice at the end -/
theorem decodeHandles_handlesPadded (f g : Footer) (t : List UInt8) :
    g.decodeHandles (f.handlesPadded ++ t) =
      ({ g with metaindex_handle_ := f.metaindex_handle_, index_handle_ := f.index_handle_ },
        Status.OK, []) := by
  rw [decodeHandles, handlesPadded, List.append_assoc, List.append_assoc,
    BlockHandle.DecodeFrom_encode]
  dsimp only
  rw [if_pos Status.ok_OK, BlockHandle.DecodeFrom_encode]
  simp

/-- a byte below 128 is a whole varint32 -/
theorem getVarint32_cons_small {b : UInt8} (h : b.toNat < 128) (rest : List UInt8) :
    getVarint32 (b :: rest) = some (UInt32.ofNat b.toNat, rest) := by
  rw [getVarint32, getVarint32Ptr, if_pos (by rw [and_128_of_lt _ b.toNat_lt]; omega)]

/-- **The footer is read back**, after any bytes: the handles, the version and the checksum type
as written, and the magic number, turned into its new counterpart where it is a legacy one -/
theorem DecodeFrom_EncodeTo (f : Footer) (p : List UInt8) (hchecksum : f.checksum_.toNat < 128)
    (hlegacy : IsLegacyFooterFormat f.table_magic_number_ = true →
      f.version_ = 0 ∧ f.checksum_ = kCRC32c) :
    (new kInvalidTableMagicNumber 0).DecodeFrom (p ++ f.EncodeTo []) =
      ({ f with table_magic_number_ :=
          if IsLegacyFooterFormat f.table_magic_number_ then
            UpconvertLegacyFooterFormat f.table_magic_number_
          else f.table_magic_number_ }, Status.OK, []) := by
  have hpad := f.length_handlesPadded
  cases hl : IsLegacyFooterFormat f.table_magic_number_
  · -- the new layout: the checksum type, the padded handles, the version, the magic number
    have hmagic := magic_of_magicBytes (p ++ f.checksum_ :: f.handlesPadded ++
      encodeFixed32 f.version_) f.table_magic_number_
    have hshape : p ++ f.EncodeTo [] = p ++ f.checksum_ :: f.handlesPadded ++
        encodeFixed32 f.version_ ++ magicBytes f.table_magic_number_ := by
      rw [EncodeTo_new hl]; simp
    have hfooter : (p ++ f.checksum_ :: f.handlesPadded ++ encodeFixed32 f.version_ ++
        magicBytes f.table_magic_number_).drop ((p ++ f.checksum_ :: f.handlesPadded ++
          encodeFixed32 f.version_ ++ magicBytes f.table_magic_number_).length -
            kNewVersionsEncodedLength) =
        f.checksum_ :: (f.handlesPadded ++ (encodeFixed32 f.version_ ++
          magicBytes f.table_magic_number_)) := by
      have hassoc : p ++ f.checksum_ :: f.handlesPadded ++ encodeFixed32 f.version_ ++
          magicBytes f.table_magic_number_ = p ++ f.checksum_ :: (f.handlesPadded ++
            (encodeFixed32 f.version_ ++ magicBytes f.table_magic_number_)) := by simp
      rw [hassoc]
      apply drop_length_sub_append
      simp [hpad, kNewVersionsEncodedLength, BlockHandle.kMaxEncodedLength]
    have hversion : decodeFixed32 ((p ++ f.checksum_ :: f.handlesPadded ++ encodeFixed32 f.version_ ++
        magicBytes f.table_magic_number_).drop ((p ++ f.checksum_ :: f.handlesPadded ++
          encodeFixed32 f.version_ ++ magicBytes f.table_magic_number_).length - 12)) =
        f.version_ := by
      have hassoc : p ++ f.checksum_ :: f.handlesPadded ++ encodeFixed32 f.version_ ++
          magicBytes f.table_magic_number_ = (p ++ f.checksum_ :: f.handlesPadded) ++
            (encodeFixed32 f.version_ ++ magicBytes f.table_magic_number_) := by simp
      rw [hassoc, drop_length_sub_append (by simp), decodeFixed32_encodeFixed32]
    have hlong : ¬ (p ++ f.checksum_ :: f.handlesPadded ++ encodeFixed32 f.version_ ++
        magicBytes f.table_magic_number_).length < kNewVersionsEncodedLength := by
      simp [hpad, kNewVersionsEncodedLength, BlockHandle.kMaxEncodedLength]
    rw [hshape, DecodeFrom]
    dsimp only
    rw [hmagic, hl]
    rw [if_neg hlong, hfooter, hversion, getVarint32_cons_small hchecksum]
    dsimp only
    rw [decodeHandles_handlesPadded]
    simp
  · -- the legacy layout: the padded handles and the magic number
    obtain ⟨hv, hc⟩ := hlegacy hl
    have hmagic := magic_of_magicBytes (p ++ f.handlesPadded) f.table_magic_number_
    have hshape : p ++ f.EncodeTo [] = p ++ f.handlesPadded ++ magicBytes f.table_magic_number_ := by
      rw [EncodeTo_legacy hl]; simp
    have hfooter : (p ++ f.handlesPadded ++ magicBytes f.table_magic_number_).drop
        ((p ++ f.handlesPadded ++ magicBytes f.table_magic_number_).length - kVersion0EncodedLength) =
        f.handlesPadded ++ magicBytes f.table_magic_number_ := by
      rw [List.append_assoc]
      apply drop_length_sub_append
      simp [hpad, kVersion0EncodedLength]
    rw [hshape, DecodeFrom]
    dsimp only
    rw [hmagic, hl]
    simp only [if_true]
    rw [hfooter, decodeHandles_handlesPadded]
    simp [hv, hc]

end Footer

/-- **Table footer round trip.**  For any two block handles, magic number, version (0 for a legacy
magic number) and checksum type below 128 (`kCRC32c` for a legacy magic number), a fresh
`Footer().DecodeFrom` on any bytes followed by `EncodeTo` returns OK with the same handles, version
and checksum type and the magic number, a legacy one turned into its new counterpart, and leaves the
empty slice at the end; and `BlockHandle::DecodeFrom` on a handle's encoding followed by `t`
restores the handle and leaves `t`. -/
theorem footer_round_trip (f : Footer) (p : List UInt8) (hchecksum : f.checksum_.toNat < 128)
    (hlegacy : IsLegacyFooterFormat f.table_magic_number_ = true →
      f.version_ = 0 ∧ f.checksum_ = kCRC32c)
    (h h0 : BlockHandle) (t : List UInt8) :
    (Footer.new Footer.kInvalidTableMagicNumber 0).DecodeFrom (p ++ f.EncodeTo []) =
        ({ f with table_magic_number_ :=
            if IsLegacyFooterFormat f.table_magic_number_ then
              UpconvertLegacyFooterFormat f.table_magic_number_
            else f.table_magic_number_ }, Status.OK, []) ∧
      h0.DecodeFrom (h.EncodeTo [] ++ t) = (h, Status.OK, t) := by
  refine ⟨Footer.DecodeFrom_EncodeTo f p hchecksum hlegacy, ?_⟩
  rw [BlockHandle.EncodeTo_eq, List.nil_append, BlockHandle.DecodeFrom_encode]

theorem footer_round_trip_block_based :
    let f : Footer := ⟨2, kxxHash, ⟨0, 4096⟩, ⟨4096, 300⟩, kBlockBasedTableMagicNumber⟩
    (f.checksum_.toNat < 128 ∧
      (IsLegacyFooterFormat f.table_magic_number_ = true →
        f.version_ = 0 ∧ f.checksum_ = kCRC32c)) ∧
      (Footer.new Footer.kInvalidTableMagicNumber 0).DecodeFrom ([7, 7] ++ f.EncodeTo []) =
          ({ f with table_magic_number_ :=
              if IsLegacyFooterFormat f.table_magic_number_ then
                UpconvertLegacyFooterFormat f.table_magic_number_
              else f.table_magic_number_ }, Status.OK, []) ∧
        BlockHandle.new.DecodeFrom ((⟨1, 2⟩ : BlockHandle).EncodeTo [] ++ [9]) =
          (⟨1, 2⟩, Status.OK, [9]) :=
  ⟨⟨by decide, by decide⟩, footer_round_trip _ [7, 7] (by decide) (by decide) ⟨1, 2⟩ _ [9]⟩

end RocksDB
