import RocksDB.Db.LevelOverlap
import RocksDB.Lib.Lists

/-!
# db/version_set.cc: the file of a level a key falls in, and whether a range meets a level

* `findFileLoop`, `FindFile`    the binary search of `FindFileInRange` for the first file whose
                                largest internal key is not below a key, in the `uint32_t`
                                arithmetic of the code;
* `AfterFile`, `BeforeFile`     a user key above a file's largest user key, below its smallest;
* `SomeFileOverlapsRange`       a linear scan of the files with those two tests, or, on a sorted
                                level, `FindFile` at the seek key `SetMaxPossibleForUserKey` of the
                                range's start and one `BeforeFile` test at the file it finds.

On a level sorted by the internal key comparator the largest keys increase, so the files whose
largest key is below the search key form a prefix and the binary search ends at its end
(`FindFile_eq_findIdx`).  The seek key of a user key `u` is `(u, kMaxSequenceNumber,
kValueTypeForSeek)`; a largest key at `u` sorts before it exactly when its footer is above the seek
key's, which a valid key does only as `(u, kMaxSequenceNumber, kTypeRangeDeletion)`.  Where no file
ends so, the search stops at the first file not `AfterFile` the range's start, and the one test
there decides what the linear scan decides (`List.any_not_and_not_eq_findIdx`), because the file
starts increase (`SomeFileOverlapsRange_sorted`).  A file that does end so is passed over by the
search although it meets the range (`some_file_overlaps_misses_range_tombstone`).
-/

namespace RocksDB

/-- `InternalKey::SetMaxPossibleForUserKey`: the internal key `(user_key, kMaxSequenceNumber,
kValueTypeForSeek)` appended to `rep_` -/
def InternalKey.SetMaxPossibleForUserKey (k : InternalKey) (user_key : List UInt8) : InternalKey :=
  ⟨AppendInternalKey k.rep_ ⟨user_key, kMaxSequenceNumber, kValueTypeForSeek⟩⟩

/-- the footer of an encoded internal key: its last eight bytes read as a fixed64 -/
def footer (internal_key : List UInt8) : UInt64 :=
  decodeFixed64 (internal_key.drop (internal_key.length - 8))

namespace FileMetaData

/-- the file's largest key does not sort before the seek key of its own user key: its footer is
at most `PackSequenceAndType(kMaxSequenceNumber, kValueTypeForSeek)` -/
def LargestNotBeforeSeek (f : FileMetaData) : Bool :=
  footer f.largest.rep_ ≤ PackSequenceAndType kMaxSequenceNumber kValueTypeForSeek

end FileMetaData

section Search

variable (icmp : InternalKeyComparator) (file_level : List FileMetaData) (key : List UInt8)

/-- the loop `while (left < right)` of `FindFileInRange`, with `mid = (left + right) / 2` in
`uint32_t`; the fuel `right - left` is what the loop needs, each pass narrowing the range -/
def findFileLoop : Nat → Nat → Nat → Nat
  | 0, _, right => right
  | fuel + 1, left, right =>
    if left < right then
      let mid := (left + right) % 2 ^ 32 / 2
      if icmp.Compare (file_level.getD mid default).largest.rep_ key = .lt then
        findFileLoop fuel (mid + 1) right
      else findFileLoop fuel left mid
    else right

/-- `FindFileInRange` -/
def FindFileInRange (left right : Nat) : Nat :=
  findFileLoop icmp file_level key (right - left) left right

/-- `FindFile`: the whole level, `num_files` cast to `uint32_t` -/
def FindFile : Nat :=
  FindFileInRange icmp file_level key 0 (file_level.length % 2 ^ 32)

end Search

section Overlap

variable (ucmp : List UInt8 → List UInt8 → Ordering)

/-- `AfterFile`: a `nullptr` user key comes before all keys, so never after a file -/
def AfterFile (user_key : Option (List UInt8)) (f : FileMetaData) : Bool :=
  match user_key with
  | some k => ucmp k f.file_limit == .gt
  | none => false

/-- `BeforeFile`: a `nullptr` user key comes after all keys, so never before a file -/
def BeforeFile (user_key : Option (List UInt8)) (f : FileMetaData) : Bool :=
  match user_key with
  | some k => ucmp k f.file_start == .lt
  | none => false

/-- `SomeFileOverlapsRange`: every file against the range, or, on a level of disjoint sorted
files, the one file `FindFile` finds for the range's start -/
def SomeFileOverlapsRange (icmp : InternalKeyComparator) (disjoint_sorted_files : Bool)
    (file_level : List FileMetaData) (smallest_user_key largest_user_key : Option (List UInt8)) :
    Bool :=
  let ucmp := icmp.user_comparator_
  if !disjoint_sorted_files then
    file_level.any fun f =>
      !(AfterFile ucmp smallest_user_key f || BeforeFile ucmp largest_user_key f)
  else
    let index := match smallest_user_key with
      | some k => FindFile icmp file_level (InternalKey.SetMaxPossibleForUserKey ⟨[]⟩ k).Encode
      | none => 0
    if index ≥ file_level.length then false
    else !BeforeFile ucmp largest_user_key (file_level.getD index default)

end Overlap

/-! ## The binary search -/

/-- `r` splits the level at `key`: the files before it have their largest key below `key`, those
from it on do not -/
structure SplitsAt (icmp : InternalKeyComparator) (file_level : List FileMetaData)
    (key : List UInt8) (r : Nat) : Prop where
  le_length : r ≤ file_level.length
  below : ∀ i < r, icmp.Compare (file_level.getD i default).largest.rep_ key = .lt
  not_below : ∀ i, r ≤ i → i < file_level.length →
    icmp.Compare (file_level.getD i default).largest.rep_ key ≠ .lt

section SearchSpec

variable {icmp : InternalKeyComparator} {file_level : List FileMetaData} {key : List UInt8}

/-- the split is the first file whose largest key is not below `key`, or the end -/
theorem SplitsAt.eq_findIdx {r : Nat} (h : SplitsAt icmp file_level key r) :
    r = file_level.findIdx fun f => icmp.Compare f.largest.rep_ key != .lt := by
  rcases Nat.lt_or_eq_of_le h.le_length with hr | hr
  · refine ((List.findIdx_eq hr).mpr ⟨?_, fun j hj => ?_⟩).symm
    · have := h.not_below r le_rfl hr
      rw [List.getD_eq_getElem _ _ hr] at this
      simpa using this
    · have := h.below j hj
      rw [List.getD_eq_getElem _ _ (by omega)] at this
      simpa using this
  · rw [hr]
    refine (List.findIdx_eq_length.mpr fun f hf => ?_).symm
    obtain ⟨i, hi, rfl⟩ := List.getElem_of_mem hf
    have := h.below i (by omega)
    rw [List.getD_eq_getElem _ _ hi] at this
    simpa using this

variable (hlen : file_level.length < 2 ^ 31)
  (hmono : ∀ i j, i ≤ j → j < file_level.length →
    icmp.Compare (file_level.getD j default).largest.rep_ key = .lt →
    icmp.Compare (file_level.getD i default).largest.rep_ key = .lt)
include hlen hmono

/-- the loop keeps the files below `left` below `key` and those from `right` on not, and ends
with the two bounds met -/
theorem findFileLoop_spec (fuel : Nat) :
    ∀ left right, left ≤ right → right ≤ file_level.length → right - left ≤ fuel →
      (∀ i < left, icmp.Compare (file_level.getD i default).largest.rep_ key = .lt) →
      (∀ i, right ≤ i → i < file_level.length →
        icmp.Compare (file_level.getD i default).largest.rep_ key ≠ .lt) →
      SplitsAt icmp file_level key (findFileLoop icmp file_level key fuel left right) := by
  induction fuel with
  | zero =>
    intro left right hlr hrn hfuel hlo hhi
    obtain rfl : left = right := by omega
    exact ⟨hrn, hlo, hhi⟩
  | succ fuel ih =>
    intro left right hlr hrn hfuel hlo hhi
    rw [findFileLoop]
    by_cases hlt : left < right
    · -- below `2^31` files `left + right` does not wrap
      have hmid : (left + right) % 2 ^ 32 / 2 = (left + right) / 2 := by
        rw [Nat.mod_eq_of_lt (by omega)]
      simp only [if_pos hlt, hmid]
      split_ifs with hb
      · -- file `mid` is below `key`, and so is every file before it
        refine ih _ right (by omega) hrn (by omega) (fun i hi => ?_) hhi
        exact if hil : i < left then hlo i hil else hmono i _ (by omega) (by omega) hb
      · -- file `mid` is not, and neither is any file after it
        refine ih left _ (by omega) (by omega) (by omega) hlo (fun i hi hin hbi => ?_)
        exact hb (hmono _ i hi hin hbi)
    · rw [if_neg hlt]
      obtain rfl : left = right := by omega
      exact ⟨hrn, hlo, hhi⟩

omit hmono in
theorem FindFile_eq (key : List UInt8) :
    FindFile icmp file_level key = findFileLoop icmp file_level key file_level.length 0
      file_level.length := by
  rw [FindFile, FindFileInRange, Nat.mod_eq_of_lt (by omega), Nat.sub_zero]

/-- `FindFile` ends at the first file whose largest key is not below `key` -/
theorem FindFile_eq_findIdx :
    FindFile icmp file_level key =
      file_level.findIdx fun f => icmp.Compare f.largest.rep_ key != .lt := by
  rw [FindFile_eq hlen]
  exact (findFileLoop_spec hlen hmono _ 0 _ (Nat.zero_le _) le_rfl (by omega)
    (fun i hi => absurd hi (Nat.not_lt_zero i)) fun i hi hin => absurd hin (by omega)).eq_findIdx

end SearchSpec

/-- on a sorted level the largest keys increase -/
theorem LevelSorted.largest_lt_largest {icmp : InternalKeyComparator}
    [Std.TransCmp icmp.user_comparator_] {file_level : List FileMetaData}
    (h : LevelSorted icmp file_level) :
    file_level.Pairwise fun f g => icmp.Compare f.largest.rep_ g.largest.rep_ = .lt := by
  have := icmp.transCmp_Compare
  exact h.disjoint.imp_of_mem fun _ hg hfg =>
    Std.TransCmp.lt_of_lt_of_isLE hfg (Ordering.isLE_iff_ne_gt.mpr (h.ordered _ hg))

/-- on a sorted level, a file whose largest key is below `key` has every earlier one so -/
theorem LevelSorted.below_mono {icmp : InternalKeyComparator} [Std.TransCmp icmp.user_comparator_]
    {file_level : List FileMetaData} (h : LevelSorted icmp file_level) (key : List UInt8) :
    ∀ i j, i ≤ j → j < file_level.length →
      icmp.Compare (file_level.getD j default).largest.rep_ key = .lt →
      icmp.Compare (file_level.getD i default).largest.rep_ key = .lt := by
  have := icmp.transCmp_Compare
  intro i j hij hj hbj
  rcases Nat.lt_or_eq_of_le hij with hlt | rfl
  · have hij' := List.pairwise_iff_getElem.mp h.largest_lt_largest i j (by omega) hj hlt
    rw [List.getD_eq_getElem file_level default hj] at hbj
    rw [List.getD_eq_getElem file_level default (show i < file_level.length by omega)]
    exact Std.TransCmp.lt_trans hij' hbj
  · exact hbj

/-! ## The seek key -/

section Seek

variable {icmp : InternalKeyComparator} {file_level : List FileMetaData}

theorem ExtractUserKey_seek (k : List UInt8) :
    ExtractUserKey (InternalKey.SetMaxPossibleForUserKey ⟨[]⟩ k).Encode = k :=
  ExtractUserKey_AppendInternalKey _

theorem footer_seek (k : List UInt8) :
    footer (InternalKey.SetMaxPossibleForUserKey ⟨[]⟩ k).Encode =
      PackSequenceAndType kMaxSequenceNumber kValueTypeForSeek :=
  decodeFixed64_footer _

/-- at a file whose largest key does not sort before the seek key, comparing the largest key with
the seek key of `k` is comparing the largest user key with `k` -/
theorem Compare_seek_eq_lt_iff {f : FileMetaData} (hf : f.LargestNotBeforeSeek = true)
    (k : List UInt8) :
    icmp.Compare f.largest.rep_ (InternalKey.SetMaxPossibleForUserKey ⟨[]⟩ k).Encode = .lt ↔
      icmp.user_comparator_ f.file_limit k = .lt := by
  have hle : (footer f.largest.rep_).toNat ≤
      (footer (InternalKey.SetMaxPossibleForUserKey ⟨[]⟩ k).Encode).toNat := by
    rw [footer_seek, ← UInt64.le_iff_toNat_le]
    simpa [FileMetaData.LargestNotBeforeSeek] using hf
  -- at equal user keys the footers compare the other way round, and the seek key's is not smaller
  have hfooter : compare (footer (InternalKey.SetMaxPossibleForUserKey ⟨[]⟩ k).Encode).toNat
      (footer f.largest.rep_).toNat ≠ .lt := by
    rw [Ne, Nat.compare_eq_lt]
    omega
  rw [icmp.Compare_eq_then, ExtractUserKey_seek, Ordering.then_eq_lt]
  exact ⟨fun h => h.resolve_right fun h' => hfooter h'.2, Or.inl⟩

variable [Std.TransCmp icmp.user_comparator_] (hsorted : LevelSorted icmp file_level)
  (hlen : file_level.length < 2 ^ 31)
include hsorted hlen

/-- where no largest key sorts before the seek key of its user key, `FindFile` at the seek key of
`k` ends at the first file that `k` is not after -/
theorem FindFile_seek (hseek : ∀ f ∈ file_level, f.LargestNotBeforeSeek = true)
    (k : List UInt8) :
    FindFile icmp file_level (InternalKey.SetMaxPossibleForUserKey ⟨[]⟩ k).Encode =
      file_level.findIdx fun f => !AfterFile icmp.user_comparator_ (some k) f := by
  rw [FindFile_eq_findIdx hlen (hsorted.below_mono _)]
  apply List.findIdx_congr
  intro f hf
  -- `k` is after the file exactly when the file's largest user key is below `k`
  have hafter : (icmp.user_comparator_ k f.file_limit = .gt) ↔
      icmp.user_comparator_ f.file_limit k = .lt := Std.OrientedCmp.gt_iff_lt
  rw [Bool.eq_iff_iff]
  simp only [AfterFile, bne_iff_ne, ne_eq, Bool.not_eq_true', beq_eq_false_iff_ne,
    Compare_seek_eq_lt_iff (hseek f hf), hafter]

omit hlen in
/-- on a sorted level, a user key below one file's smallest user key is below every later one's -/
theorem before_mono (user_key : Option (List UInt8)) :
    file_level.Pairwise fun f g => BeforeFile icmp.user_comparator_ user_key f = true →
      BeforeFile icmp.user_comparator_ user_key g = true := by
  cases user_key with
  | none => exact List.pairwise_of_forall fun _ _ h => by simp [BeforeFile] at h
  | some k =>
    refine hsorted.user.start_le_start.imp fun hfg hb => ?_
    simp only [BeforeFile, beq_iff_eq] at hb ⊢
    exact Std.TransCmp.lt_of_lt_of_isLE hb (Ordering.isLE_iff_ne_gt.mpr hfg)

/-- **The binary search agrees with the scan** on a sorted level where no largest key sorts
before the seek key of its user key -/
theorem SomeFileOverlapsRange_sorted (hseek : ∀ f ∈ file_level, f.LargestNotBeforeSeek = true)
    (smallest_user_key largest_user_key : Option (List UInt8)) :
    SomeFileOverlapsRange icmp true file_level smallest_user_key largest_user_key =
      SomeFileOverlapsRange icmp false file_level smallest_user_key largest_user_key := by
  -- the file the search takes is the first the range's start is not after
  have hindex : (match smallest_user_key with
      | some k => FindFile icmp file_level (InternalKey.SetMaxPossibleForUserKey ⟨[]⟩ k).Encode
      | none => 0) =
      file_level.findIdx fun f => !AfterFile icmp.user_comparator_ smallest_user_key f := by
    cases smallest_user_key with
    | some k => exact FindFile_seek hsorted hlen hseek k
    | none => cases file_level <;> simp [AfterFile, List.findIdx_cons]
  have hscan := List.any_not_and_not_eq_findIdx (a := AfterFile icmp.user_comparator_ smallest_user_key)
    (before_mono hsorted largest_user_key)
  simp only [SomeFileOverlapsRange, Bool.not_true, Bool.not_false, Bool.false_eq_true, if_false,
    if_true, Bool.not_or]
  rw [hindex, hscan]
  split_ifs with h1 h2 h2
  · omega
  · rfl
  · rw [List.getD_eq_getElem _ _ h2]
  · omega

end Seek

/-- **`FindFile` and the level overlap test.**  On a level of fewer than `2^31` files sorted and
disjoint under the internal key comparator, over a user comparator that is a total preorder,
`FindFile` returns the first index whose largest key is not below the search key, the number of
files if there is none; and where no file's largest key sorts before the seek key of its own user
key, `SomeFileOverlapsRange` gives the same answer by binary search as by the linear scan. -/
theorem find_file_agrees_with_scan (icmp : InternalKeyComparator)
    [Std.TransCmp icmp.user_comparator_] {file_level : List FileMetaData}
    (hsorted : LevelSorted icmp file_level) (hlen : file_level.length < 2 ^ 31) (key : List UInt8)
    (smallest_user_key largest_user_key : Option (List UInt8)) :
    FindFile icmp file_level key =
        file_level.findIdx (fun f => icmp.Compare f.largest.rep_ key != .lt) ∧
      ((∀ f ∈ file_level, f.LargestNotBeforeSeek = true) →
        SomeFileOverlapsRange icmp true file_level smallest_user_key largest_user_key =
          SomeFileOverlapsRange icmp false file_level smallest_user_key largest_user_key) :=
  ⟨FindFile_eq_findIdx hlen (hsorted.below_mono key),
    fun hseek => SomeFileOverlapsRange_sorted hsorted hlen hseek _ _⟩

theorem find_file_agrees_with_scan_two_files :
    let f1 : FileMetaData := { FileMetaData.new with
      smallest := ⟨AppendInternalKey [] ⟨[1], 5, .kTypeValue⟩⟩
      largest := ⟨AppendInternalKey [] ⟨[2], 4, .kTypeValue⟩⟩ }
    let f2 : FileMetaData := { FileMetaData.new with
      smallest := ⟨AppendInternalKey [] ⟨[3], 3, .kTypeValue⟩⟩
      largest := ⟨AppendInternalKey [] ⟨[4], 2, .kTypeValue⟩⟩ }
    let key := AppendInternalKey [] ⟨[3], 9, .kTypeValue⟩
    (LevelSorted InternalKeyComparator.bytewise [f1, f2] ∧ [f1, f2].length < 2 ^ 31) ∧
      FindFile InternalKeyComparator.bytewise [f1, f2] key =
          [f1, f2].findIdx (fun f => InternalKeyComparator.bytewise.Compare f.largest.rep_ key != .lt) ∧
        ((∀ f ∈ [f1, f2], f.LargestNotBeforeSeek = true) →
          SomeFileOverlapsRange InternalKeyComparator.bytewise true [f1, f2] (some [2]) (some [3]) =
            SomeFileOverlapsRange InternalKeyComparator.bytewise false [f1, f2] (some [2])
              (some [3])) :=
  ⟨⟨⟨by decide, by decide⟩, by decide⟩,
    @find_file_agrees_with_scan InternalKeyComparator.bytewise
      (inferInstanceAs (Std.TransCmp BytewiseComparator.Compare)) _ ⟨by decide, by decide⟩
      (by decide) _ _ _⟩

/-- a level whose one file ends with the range tombstone sentinel `([1], kMaxSequenceNumber,
kTypeRangeDeletion)` that compaction writes: the scan finds that the range `[[1], [1]]` meets the
file, the binary search passes over it -/
theorem some_file_overlaps_misses_range_tombstone :
    let f : FileMetaData := { FileMetaData.new with
      smallest := ⟨AppendInternalKey [] ⟨[0], 1, .kTypeValue⟩⟩
      largest := ⟨AppendInternalKey [] ⟨[1], kMaxSequenceNumber, .kTypeRangeDeletion⟩⟩ }
    LevelSorted InternalKeyComparator.bytewise [f] ∧
      SomeFileOverlapsRange InternalKeyComparator.bytewise false [f] (some [1]) (some [1]) = true ∧
      SomeFileOverlapsRange InternalKeyComparator.bytewise true [f] (some [1]) (some [1]) = false :=
  ⟨⟨by decide, by decide⟩, by decide, by decide⟩

end RocksDB
