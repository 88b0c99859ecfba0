import RocksDB.Util.Coding

/-!
# db/dbformat.h, db/dbformat.cc: value types and sequence numbers

* `ValueType`              the tag of a record, with its byte (`ValueType.toUInt8`) and the
                           decoding of a byte back (`ValueType.ofUInt8`, `none` for a byte that
                           names no type);
* sequence numbers         natural numbers; `kMaxSequenceNumber = 2^56 - 1`;
* `PackSequenceAndType`    `(seq << 8) | t` in 64 bits, and `UnPackSequenceAndType`.
-/

namespace RocksDB

inductive ValueType where
  | kTypeDeletion | kTypeValue | kTypeMerge | kTypeLogData | kTypeColumnFamilyDeletion
  | kTypeColumnFamilyValue | kTypeColumnFamilyMerge | kTypeSingleDeletion
  | kTypeColumnFamilySingleDeletion | kTypeBeginPrepareXID | kTypeEndPrepareXID
  | kTypeCommitXID | kTypeRollbackXID | kTypeNoop | kTypeColumnFamilyRangeDeletion
  | kTypeRangeDeletion | kMaxValue
  deriving DecidableEq, Repr

namespace ValueType

/-- the byte of each enumerator, as `enum ValueType : unsigned char` lists them -/
def toUInt8 : ValueType → UInt8
  | kTypeDeletion => 0x0
  | kTypeValue => 0x1
  | kTypeMerge => 0x2
  | kTypeLogData => 0x3
  | kTypeColumnFamilyDeletion => 0x4
  | kTypeColumnFamilyValue => 0x5
  | kTypeColumnFamilyMerge => 0x6
  | kTypeSingleDeletion => 0x7
  | kTypeColumnFamilySingleDeletion => 0x8
  | kTypeBeginPrepareXID => 0x9
  | kTypeEndPrepareXID => 0xA
  | kTypeCommitXID => 0xB
  | kTypeRollbackXID => 0xC
  | kTypeNoop => 0xD
  | kTypeColumnFamilyRangeDeletion => 0xE
  | kTypeRangeDeletion => 0xF
  | kMaxValue => 0x7F

/-- the enumerator a byte names, as a `switch` on a tag byte sees it -/
def ofUInt8 (b : UInt8) : Option ValueType :=
  match b.toNat with
  | 0x0 => some kTypeDeletion
  | 0x1 => some kTypeValue
  | 0x2 => some kTypeMerge
  | 0x3 => some kTypeLogData
  | 0x4 => some kTypeColumnFamilyDeletion
  | 0x5 => some kTypeColumnFamilyValue
  | 0x6 => some kTypeColumnFamilyMerge
  | 0x7 => some kTypeSingleDeletion
  | 0x8 => some kTypeColumnFamilySingleDeletion
  | 0x9 => some kTypeBeginPrepareXID
  | 0xA => some kTypeEndPrepareXID
  | 0xB => some kTypeCommitXID
  | 0xC => some kTypeRollbackXID
  | 0xD => some kTypeNoop
  | 0xE => some kTypeColumnFamilyRangeDeletion
  | 0xF => some kTypeRangeDeletion
  | 0x7F => some kMaxValue
  | _ => none

@[simp] theorem ofUInt8_toUInt8 (t : ValueType) : ofUInt8 t.toUInt8 = some t := by
  cases t <;> rfl

theorem toUInt8_injective : Function.Injective toUInt8 := by
  intro a b h
  have := congrArg ofUInt8 h
  simpa using this

end ValueType

/-- `IsValueType`: the types a table or a memtable stores as a point entry -/
def IsValueType (t : ValueType) : Bool :=
  t = .kTypeDeletion || t = .kTypeValue || t = .kTypeMerge || t = .kTypeSingleDeletion

/-- `IsExtendedValueType`: a point type or a range deletion -/
def IsExtendedValueType (t : ValueType) : Bool :=
  IsValueType t || t = .kTypeRangeDeletion

/-- `kValueTypeForSeek`: the largest of the point types, so a seek key sorts before every entry
of its sequence number -/
def kValueTypeForSeek : ValueType := .kTypeSingleDeletion
def kValueTypeForSeekForPrev : ValueType := .kTypeDeletion

theorem toUInt8_le_kValueTypeForSeek {t : ValueType} (h : IsValueType t = true) :
    t.toUInt8.toNat ≤ kValueTypeForSeek.toUInt8.toNat := by
  cases t <;> revert h <;> decide

def kMaxSequenceNumber : Nat := 2 ^ 56 - 1

/-- `PackSequenceAndType`: `(seq << 8) | t` in `uint64_t` -/
def PackSequenceAndType (seq : Nat) (t : ValueType) : UInt64 :=
  UInt64.ofNat ((seq <<< 8) ||| t.toUInt8.toNat)

/-- `UnPackSequenceAndType`: the sequence number and the type byte of a packed tag -/
def UnPackSequenceAndType (packed : UInt64) : Nat × UInt8 :=
  (packed.toNat >>> 8, UInt8.ofNat (packed.toNat &&& 0xff))

theorem toNat_toUInt8_lt (t : ValueType) : t.toUInt8.toNat < 256 := t.toUInt8.toNat_lt

/-- below `kMaxSequenceNumber` packing is exact: the tag is `seq * 256 + t` -/
theorem PackSequenceAndType_toNat {seq : Nat} (h : seq ≤ kMaxSequenceNumber)
    (t : ValueType) : (PackSequenceAndType seq t).toNat = seq * 256 + t.toUInt8.toNat := by
  have ht : t.toUInt8.toNat < 2 ^ 8 := toNat_toUInt8_lt t
  have hor : (seq <<< 8) ||| t.toUInt8.toNat = seq * 256 + t.toUInt8.toNat := by
    rw [Nat.lor_comm, or_shiftLeft_eq_add seq ht]
    ring
  have hs : seq < 2 ^ 56 := by unfold kMaxSequenceNumber at h; omega
  rw [PackSequenceAndType, UInt64.toNat_ofNat', hor, Nat.mod_eq_of_lt (by omega)]

theorem UnPackSequenceAndType_Pack {seq : Nat} (h : seq ≤ kMaxSequenceNumber)
    (t : ValueType) : UnPackSequenceAndType (PackSequenceAndType seq t) = (seq, t.toUInt8) := by
  have ht : t.toUInt8.toNat < 2 ^ 8 := toNat_toUInt8_lt t
  have hand : (seq * 256 + t.toUInt8.toNat) &&& 0xff = t.toUInt8.toNat := by
    rw [show (0xff : Nat) = 2 ^ 8 - 1 from rfl, Nat.and_two_pow_sub_one_eq_mod]
    omega
  rw [UnPackSequenceAndType, PackSequenceAndType_toNat h, Nat.shiftRight_eq_div_pow, hand,
    UInt8.ofNat_toNat]
  congr 1
  omega

end RocksDB
