import RocksDB.Db.Dbformat
import RocksDB.Util.Slice
import RocksDB.Lib.Compare

/-!
# db/dbformat.h, db/dbformat.cc: internal keys, their order, and lookup keys

* `ParsedInternalKey`, `AppendInternalKey`   a user key followed by the 8-byte footer
                                             `PackSequenceAndType(sequence, type)`;
* `ExtractUserKey`, `ParseInternalKey`       all but the footer; the three fields back, for a
                                             point type or a range deletion;
* `InternalKeyComparator`                    over a user comparator: `Compare` on encoded keys
                                             (the user keys, then the footers decreasing) and
                                             `CompareParsed` on parsed ones (the user keys, then
                                             the sequence numbers and the types decreasing);
* `LookupKey`                                the length-prefixed internal key of a user key at
                                             a snapshot, with type `kValueTypeForSeek`.

`Compare_AppendInternalKey` says the two comparisons agree on encoded keys whose sequence number
is at most `kMaxSequenceNumber`, because packing `(sequence, type)` into the footer keeps their
lexicographic order (`Nat.compare_mul_add`).  `CompareParsed_eq_then` writes the parsed
comparison as `Ordering.then` of its three stages, from which it is a lawful total order wherever
the user comparator is one.

`InternalKeyComparator.order` is the order the comparator over `BytewiseComparator` implements, in
`Lex (List ℕ × ℕᵒᵈ)`: `Compare_eq_lt` reads "less" as that order, and `order_AppendInternalKey`
computes it on an encoded key.
-/

namespace RocksDB

/-- `ParsedInternalKey` -/
structure ParsedInternalKey where
  user_key : List UInt8
  sequence : Nat
  type : ValueType
  deriving DecidableEq, Repr

/-- `AppendInternalKey` -/
def AppendInternalKey (result : List UInt8) (key : ParsedInternalKey) : List UInt8 :=
  result ++ key.user_key ++ encodeFixed64 (PackSequenceAndType key.sequence key.type)

/-- `ExtractUserKey` -/
def ExtractUserKey (internal_key : List UInt8) : List UInt8 :=
  internal_key.take (internal_key.length - 8)

/-- `ParseInternalKey`: the footer's low byte is the type and the rest the sequence number; only
a point type or a range deletion parses -/
def ParseInternalKey (internal_key : List UInt8) : Option ParsedInternalKey :=
  let n := internal_key.length
  if n < 8 then none
  else
    let num := (decodeFixed64 (internal_key.drop (n - 8))).toNat
    match ValueType.ofUInt8 (UInt8.ofNat (num &&& 0xff)) with
    | some type =>
      if IsExtendedValueType type then some ⟨internal_key.take (n - 8), num >>> 8, type⟩ else none
    | none => none

/-- `InternalKeyComparator`, over the user comparator it is built with -/
structure InternalKeyComparator where
  user_comparator_ : List UInt8 → List UInt8 → Ordering

namespace InternalKeyComparator

/-- `Compare(const Slice&, const Slice&)` on two encoded internal keys -/
def Compare (icmp : InternalKeyComparator) (akey bkey : List UInt8) : Ordering :=
  let r := icmp.user_comparator_ (ExtractUserKey akey) (ExtractUserKey bkey)
  if r = .eq then
    let anum := decodeFixed64 (akey.drop (akey.length - 8))
    let bnum := decodeFixed64 (bkey.drop (bkey.length - 8))
    if anum > bnum then .lt else if anum < bnum then .gt else .eq
  else r

/-- `Compare(const ParsedInternalKey&, const ParsedInternalKey&)` -/
def CompareParsed (icmp : InternalKeyComparator) (a b : ParsedInternalKey) : Ordering :=
  let r := icmp.user_comparator_ a.user_key b.user_key
  if r = .eq then
    if a.sequence > b.sequence then .lt
    else if a.sequence < b.sequence then .gt
    else if a.type.toUInt8 > b.type.toUInt8 then .lt
    else if a.type.toUInt8 < b.type.toUInt8 then .gt
    else .eq
  else r

/-- the comparator over `BytewiseComparator` -/
def bytewise : InternalKeyComparator := ⟨BytewiseComparator.Compare⟩

end InternalKeyComparator

/-- `LookupKey`: the array `klength varint32 | userkey | tag uint64`, with the length prefix and
the internal key it starts apart -/
structure LookupKey where
  klength : List UInt8
  internal_key : List UInt8

/-- `LookupKey::LookupKey(user_key, s)` -/
def LookupKey.new (user_key : List UInt8) (s : Nat) : LookupKey where
  klength := encodeVarint32 (UInt32.ofNat (user_key.length + 8))
  internal_key := AppendInternalKey [] ⟨user_key, s, kValueTypeForSeek⟩

namespace LookupKey

/-- `memtable_key()` -/
def memtable_key (k : LookupKey) : List UInt8 := k.klength ++ k.internal_key

/-- `user_key()` -/
def user_key (k : LookupKey) : List UInt8 := k.internal_key.take (k.internal_key.length - 8)

end LookupKey

/-! ## The order of internal keys -/

namespace InternalKeyComparator

/-- what `Compare` sorts an internal key by: its user key's byte values increasing, then its
footer decreasing -/
def order (internal_key : List UInt8) : Lex (List ℕ × ℕᵒᵈ) :=
  toLex ((ExtractUserKey internal_key).map UInt8.toNat,
    OrderDual.toDual (decodeFixed64 (internal_key.drop (internal_key.length - 8))).toNat)

theorem Compare_eq_lt (akey bkey : List UInt8) :
    bytewise.Compare akey bkey = .lt ↔ order akey < order bkey := by
  unfold Compare order bytewise BytewiseComparator.Compare
  rw [Prod.Lex.toLex_lt_toLex, OrderDual.toDual_lt_toDual]
  by_cases hr : Slice.compare (ExtractUserKey akey) (ExtractUserKey bkey) = .eq
  · -- equal user keys: the footers decide, the larger first
    rw [if_pos hr, (Slice.compare_eq_eq _ _).mp hr]
    simp only [lt_irrefl, false_or, true_and, gt_iff_lt]
    split_ifs with h1 h2
    · simpa using UInt64.lt_iff_toNat_lt.mp h1
    · simpa [UInt64.lt_iff_toNat_lt] using h1
    · simpa [UInt64.lt_iff_toNat_lt] using h1
  · rw [if_neg hr, Slice.compare_eq_lt]
    have hne : (ExtractUserKey akey).map UInt8.toNat ≠ (ExtractUserKey bkey).map UInt8.toNat :=
      fun h => hr ((Slice.compare_eq_eq _ _).mpr
        (List.map_injective_iff.mpr (fun _ _ h' => UInt8.toNat_inj.mp h') h))
    simp [hne]

/-- an encoded key sorts by its user key, then by its sequence number and type decreasing -/
theorem order_AppendInternalKey (key : ParsedInternalKey) (h : key.sequence ≤ kMaxSequenceNumber) :
    order (AppendInternalKey [] key) =
      toLex (key.user_key.map UInt8.toNat,
        OrderDual.toDual (key.sequence * 256 + key.type.toUInt8.toNat)) := by
  have henc : AppendInternalKey [] key =
      key.user_key ++ encodeFixed64 (PackSequenceAndType key.sequence key.type) := by
    simp [AppendInternalKey]
  have hlen : (key.user_key ++ encodeFixed64 (PackSequenceAndType key.sequence key.type)).length
      - 8 = key.user_key.length := by simp
  rw [order, henc, ExtractUserKey, hlen, List.take_left, List.drop_left,
    ← List.append_nil (encodeFixed64 _), decodeFixed64_encodeFixed64, PackSequenceAndType_toNat h]

end InternalKeyComparator

theorem LookupKey.user_key_new (user_key : List UInt8) (s : Nat) :
    (LookupKey.new user_key s).user_key = user_key := by
  simp [LookupKey.new, LookupKey.user_key, AppendInternalKey]

/-! ## Encoded and parsed keys -/

theorem ExtractUserKey_AppendInternalKey (key : ParsedInternalKey) :
    ExtractUserKey (AppendInternalKey [] key) = key.user_key := by
  simp [ExtractUserKey, AppendInternalKey]

/-- the footer of an encoded key, read back -/
theorem decodeFixed64_footer (key : ParsedInternalKey) :
    decodeFixed64 ((AppendInternalKey [] key).drop ((AppendInternalKey [] key).length - 8)) =
      PackSequenceAndType key.sequence key.type := by
  have hlen : (AppendInternalKey [] key).length - 8 = key.user_key.length := by
    simp [AppendInternalKey]
  rw [hlen, AppendInternalKey, List.nil_append, List.drop_left,
    ← List.append_nil (encodeFixed64 _), decodeFixed64_encodeFixed64]

/-- parsing an encoded key gives its fields back, for a point type or a range deletion -/
theorem ParseInternalKey_AppendInternalKey (key : ParsedInternalKey)
    (h : key.sequence ≤ kMaxSequenceNumber) (ht : IsExtendedValueType key.type = true) :
    ParseInternalKey (AppendInternalKey [] key) = some key := by
  have hunpack := UnPackSequenceAndType_Pack h key.type
  simp only [UnPackSequenceAndType, Prod.mk.injEq] at hunpack
  obtain ⟨hseq, htype⟩ := hunpack
  have hlen : (AppendInternalKey [] key).length - 8 = key.user_key.length := by
    simp [AppendInternalKey]
  have huser : (AppendInternalKey [] key).take key.user_key.length = key.user_key := by
    simp [AppendInternalKey]
  have hshort : ¬(AppendInternalKey [] key).length < 8 := by
    simp [AppendInternalKey]
  rw [ParseInternalKey, if_neg hshort]
  simp only [decodeFixed64_footer]
  simp only [hlen, huser, hseq, htype, ValueType.ofUInt8_toUInt8, ht, if_true]

namespace InternalKeyComparator

variable (icmp : InternalKeyComparator)

/-- the parsed comparison in three stages: the user keys, then the sequence numbers decreasing,
then the types decreasing -/
theorem CompareParsed_eq_then (a b : ParsedInternalKey) :
    icmp.CompareParsed a b = (icmp.user_comparator_ a.user_key b.user_key).then
      ((compare b.sequence a.sequence).then
        (compare b.type.toUInt8.toNat a.type.toUInt8.toNat)) := by
  simp only [CompareParsed, gt_iff_lt, UInt8.lt_iff_toNat_lt, Nat.ite_lt_lt_then, Ordering.then_eq,
    Ordering.ite_eq_then]

/-- **Encoded keys compare as their fields.**  Below `kMaxSequenceNumber` the footer packs
`(sequence, type)` without loss, so comparing footers decreasing is comparing the sequence
numbers and then the types decreasing. -/
theorem Compare_AppendInternalKey {a b : ParsedInternalKey} (ha : a.sequence ≤ kMaxSequenceNumber)
    (hb : b.sequence ≤ kMaxSequenceNumber) :
    icmp.Compare (AppendInternalKey [] a) (AppendInternalKey [] b) = icmp.CompareParsed a b := by
  have hfooter : compare (b.sequence * 256 + b.type.toUInt8.toNat)
      (a.sequence * 256 + a.type.toUInt8.toNat) =
      (compare b.sequence a.sequence).then (compare b.type.toUInt8.toNat a.type.toUInt8.toNat) :=
    Nat.compare_mul_add (toNat_toUInt8_lt _) (toNat_toUInt8_lt _)
  rw [CompareParsed_eq_then, Compare, ExtractUserKey_AppendInternalKey,
    ExtractUserKey_AppendInternalKey, decodeFixed64_footer, decodeFixed64_footer]
  simp only [gt_iff_lt, UInt64.lt_iff_toNat_lt, PackSequenceAndType_toNat ha,
    PackSequenceAndType_toNat hb, Nat.ite_lt_lt_then, Ordering.then_eq, hfooter,
    Ordering.ite_eq_then]

/-- the encoded comparison in two stages: the user keys, then the footers decreasing -/
theorem Compare_eq_then (a b : List UInt8) :
    icmp.Compare a b = (icmp.user_comparator_ (ExtractUserKey a) (ExtractUserKey b)).then
      (compare (decodeFixed64 (b.drop (b.length - 8))).toNat
        (decodeFixed64 (a.drop (a.length - 8))).toNat) := by
  simp only [Compare, gt_iff_lt, UInt64.lt_iff_toNat_lt, Nat.ite_lt_lt_then, Ordering.ite_eq_then,
    Ordering.then_eq]

/-- on any byte strings, not only encoded keys, `Compare` is a total preorder where the user
comparator is one: it orders by the user key, then by the footer decreasing -/
theorem transCmp_Compare [Std.TransCmp icmp.user_comparator_] : Std.TransCmp icmp.Compare := by
  have hkey := Std.TransCmp.comap icmp.user_comparator_ ExtractUserKey
  have hfooter : Std.TransCmp fun a b : List UInt8 =>
      compare (decodeFixed64 (b.drop (b.length - 8))).toNat
        (decodeFixed64 (a.drop (a.length - 8))).toNat :=
    @Std.TransCmp.opposite _ _
      (Std.TransCmp.comap compare fun a : List UInt8 => (decodeFixed64 (a.drop (a.length - 8))).toNat)
  have heq : icmp.Compare = compareLex (fun a b => icmp.user_comparator_ (ExtractUserKey a)
      (ExtractUserKey b)) (fun a b => compare (decodeFixed64 (b.drop (b.length - 8))).toNat
        (decodeFixed64 (a.drop (a.length - 8))).toNat) := by
    funext a b
    exact Compare_eq_then icmp a b
  rw [heq]
  infer_instance

/-- the parsed comparison as `compareLex` of its stages -/
theorem CompareParsed_eq_compareLex :
    icmp.CompareParsed = compareLex (fun a b => icmp.user_comparator_ a.user_key b.user_key)
      (compareLex (fun a b => compare b.sequence a.sequence)
        (fun a b => compare b.type.toUInt8.toNat a.type.toUInt8.toNat)) := by
  funext a b
  exact CompareParsed_eq_then icmp a b

theorem transCmp_CompareParsed [Std.TransCmp icmp.user_comparator_] :
    Std.TransCmp icmp.CompareParsed := by
  have hkey := Std.TransCmp.comap icmp.user_comparator_ ParsedInternalKey.user_key
  -- the sequence numbers and the types compare the other way round
  have hseq : Std.TransCmp fun a b : ParsedInternalKey => compare b.sequence a.sequence :=
    @Std.TransCmp.opposite _ _ (Std.TransCmp.comap compare ParsedInternalKey.sequence)
  have htype : Std.TransCmp fun a b : ParsedInternalKey =>
      compare b.type.toUInt8.toNat a.type.toUInt8.toNat :=
    @Std.TransCmp.opposite _ _
      (Std.TransCmp.comap compare fun a : ParsedInternalKey => a.type.toUInt8.toNat)
  rw [CompareParsed_eq_compareLex]
  infer_instance

theorem lawfulEqCmp_CompareParsed [Std.LawfulEqCmp icmp.user_comparator_] :
    Std.LawfulEqCmp icmp.CompareParsed where
  compare_self := by
    simp [CompareParsed_eq_then, Std.ReflCmp.compare_self]
  eq_of_compare {a b} h := by
    rw [CompareParsed_eq_then, Ordering.then_eq_eq, Ordering.then_eq_eq] at h
    obtain ⟨hkey, hseq, htype⟩ := h
    have hkey' : a.user_key = b.user_key := Std.LawfulEqCmp.eq_of_compare hkey
    have hseq' : a.sequence = b.sequence := (Nat.compare_eq_eq.mp hseq).symm
    have htype' : a.type = b.type :=
      ValueType.toUInt8_injective (UInt8.toNat_inj.mp (Nat.compare_eq_eq.mp htype).symm)
    cases a
    cases b
    simp_all

end InternalKeyComparator

/-- the internal keys whose sequence number fits the footer -/
def ValidInternalKey : Type := {key : ParsedInternalKey // key.sequence ≤ kMaxSequenceNumber}

/-- **The internal key comparator is a total order consistent with the encoding.**  Over any user
comparator that is a lawful total order: comparing encoded keys is comparing the parsed keys, that
is the user keys ascending, then the sequence numbers descending, then the types descending; on
the encodings of valid keys it is a lawful total order; and parsing an encoded key of a point type
or a range deletion gives the key back. -/
theorem internal_key_comparator_consistent (ucmp : List UInt8 → List UInt8 → Ordering)
    [Std.TransCmp ucmp] [Std.LawfulEqCmp ucmp] (a b : ParsedInternalKey)
    (ha : a.sequence ≤ kMaxSequenceNumber) (hb : b.sequence ≤ kMaxSequenceNumber)
    (hta : IsExtendedValueType a.type = true) :
    let icmp : InternalKeyComparator := ⟨ucmp⟩
    icmp.Compare (AppendInternalKey [] a) (AppendInternalKey [] b) = icmp.CompareParsed a b ∧
    icmp.CompareParsed a b = (ucmp a.user_key b.user_key).then
      ((compare b.sequence a.sequence).then (compare b.type.toUInt8.toNat a.type.toUInt8.toNat)) ∧
    Std.TransCmp (fun x y : ValidInternalKey =>
      icmp.Compare (AppendInternalKey [] x.1) (AppendInternalKey [] y.1)) ∧
    Std.LawfulEqCmp (fun x y : ValidInternalKey =>
      icmp.Compare (AppendInternalKey [] x.1) (AppendInternalKey [] y.1)) ∧
    ParseInternalKey (AppendInternalKey [] a) = some a := by
  intro icmp
  -- on valid keys the encoded comparison is the parsed one, read through the key
  have hvalid : (fun x y : ValidInternalKey =>
      icmp.Compare (AppendInternalKey [] x.1) (AppendInternalKey [] y.1)) =
      fun x y => icmp.CompareParsed x.1 y.1 := by
    funext x y
    exact icmp.Compare_AppendInternalKey x.2 y.2
  have htrans := icmp.transCmp_CompareParsed
  have hlawful := icmp.lawfulEqCmp_CompareParsed
  refine ⟨icmp.Compare_AppendInternalKey ha hb, icmp.CompareParsed_eq_then a b, ?_, ?_,
    ParseInternalKey_AppendInternalKey a ha hta⟩
  · rw [hvalid]
    exact Std.TransCmp.comap icmp.CompareParsed Subtype.val
  · rw [hvalid]
    exact Std.LawfulEqCmp.comap icmp.CompareParsed Subtype.val_injective

/-- the comparator over `BytewiseComparator`, at the keys `(a, 5, Value)` and `(a, 3, Merge)` -/
theorem internal_key_comparator_consistent_bytewise :
    let a : ParsedInternalKey := ⟨[97], 5, .kTypeValue⟩
    let b : ParsedInternalKey := ⟨[97], 3, .kTypeMerge⟩
    (a.sequence ≤ kMaxSequenceNumber ∧ b.sequence ≤ kMaxSequenceNumber ∧
      IsExtendedValueType a.type = true) ∧
    InternalKeyComparator.bytewise.Compare (AppendInternalKey [] a) (AppendInternalKey [] b) =
        InternalKeyComparator.bytewise.CompareParsed a b ∧
      InternalKeyComparator.bytewise.CompareParsed a b =
        (BytewiseComparator.Compare a.user_key b.user_key).then
          ((compare b.sequence a.sequence).then
            (compare b.type.toUInt8.toNat a.type.toUInt8.toNat)) ∧
      Std.TransCmp (fun x y : ValidInternalKey => InternalKeyComparator.bytewise.Compare
        (AppendInternalKey [] x.1) (AppendInternalKey [] y.1)) ∧
      Std.LawfulEqCmp (fun x y : ValidInternalKey => InternalKeyComparator.bytewise.Compare
        (AppendInternalKey [] x.1) (AppendInternalKey [] y.1)) ∧
      ParseInternalKey (AppendInternalKey [] a) = some a :=
  ⟨⟨by decide, by decide, by decide⟩,
    internal_key_comparator_consistent BytewiseComparator.Compare _ _ (by decide) (by decide)
      (by decide)⟩

end RocksDB
