import RocksDB.Db.VersionStorageInfo
import RocksDB.Lib.Lists

/-!
# db/version_set.cc: what the level queries return

What the queries of `VersionStorageInfo` are for, by the user keys of the files' ranges:

* `FileMetaData.Overlaps b e`   the range meets `[b, e]`;  `FileMetaData.Within b e`  it lies
                                inside;
* `LevelSorted`                 a level above 0: each file's smallest internal key at most its
                                largest, each file's largest below the next one's smallest; by
                                user keys (`UserSorted`) neighbours may share a boundary key;
* `CleanRun l r`                files `l` to `r` lie within `[b, e]` and share no boundary key
                                with the files next to them;
* `ClosedCover lo hi`           `[lo, hi]` holds `[b, e]` and every level-0 file range it meets.

On a sorted level the files the binary search moves past are a prefix and those it moves before a
suffix (`UserSorted.exists_search_split`), so it finds a file in between or shows there is none
(`binarySearchLoop_spec`); the outward loops reach the ends of the files that overlap
(`ExtendFileRangeOverlappingInterval_eq`), and the shrinking loops the ends of the longest clean
run (`shrinkLeft_spec`, `shrinkRight_spec`).  On level 0 each restart of the scan lowers the number
of file starts below the range and file limits above it, so `2 * n + 1` passes are enough, and the
range it ends with is the least closed cover (`scanLevel_expand`).
-/

namespace RocksDB

namespace FileMetaData

variable (ucmp : List UInt8 → List UInt8 → Ordering) (b e : List UInt8)

/-- the file's range `[file_start, file_limit]` meets `[b, e]`: it neither ends before `b` nor
starts after `e` -/
def Overlaps (f : FileMetaData) : Bool := ucmp f.file_limit b != .lt && ucmp f.file_start e != .gt

/-- the file's range lies within `[b, e]` -/
def Within (f : FileMetaData) : Bool := ucmp f.file_start b != .lt && ucmp f.file_limit e != .gt

variable {ucmp b e}

/-- a file within `[b, e]` whose range is in order overlaps it -/
theorem Within.overlaps [Std.TransCmp ucmp] {f : FileMetaData}
    (hf : ucmp f.file_start f.file_limit ≠ .gt) (h : f.Within ucmp b e = true) :
    f.Overlaps ucmp b e = true := by
  simp only [Within, Overlaps, Bool.and_eq_true, bne_iff_ne, ne_eq] at h ⊢
  obtain ⟨hb, he⟩ := h
  refine ⟨fun hlt => hb ?_, fun hgt => he ?_⟩
  · -- `file_limit < b` with `file_start ≤ file_limit`
    exact Std.TransCmp.lt_of_isLE_of_lt (Ordering.isLE_iff_ne_gt.mpr hf) hlt
  · exact Std.TransCmp.gt_of_isGE_of_gt (Ordering.isGE_iff_ne_lt.mpr
      (fun h => hf (Std.OrientedCmp.gt_iff_lt.mpr h))) hgt

end FileMetaData

namespace InternalKeyComparator

/-- comparing internal keys at most compares their user keys at most -/
theorem user_ne_gt_of_Compare_ne_gt {icmp : InternalKeyComparator} {a b : List UInt8}
    (h : icmp.Compare a b ≠ .gt) : icmp.user_comparator_ (ExtractUserKey a) (ExtractUserKey b) ≠ .gt := by
  intro hgt
  exact h (by simp [Compare, hgt])

end InternalKeyComparator

/-! ## Sorted levels -/

/-- the files of a level above 0 under the internal key comparator: each file's smallest key at
most its largest, each file's largest below the smallest of every later file -/
structure LevelSorted (icmp : InternalKeyComparator) (files : List FileMetaData) : Prop where
  ordered : ∀ f ∈ files, icmp.Compare f.smallest.rep_ f.largest.rep_ ≠ .gt
  disjoint : files.Pairwise fun f g => icmp.Compare f.largest.rep_ g.smallest.rep_ = .lt

/-- the same by user keys, where a file may end with the user key the next one starts with -/
structure UserSorted (ucmp : List UInt8 → List UInt8 → Ordering) (files : List FileMetaData) :
    Prop where
  start_le_limit : ∀ f ∈ files, ucmp f.file_start f.file_limit ≠ .gt
  limit_le_start : files.Pairwise fun f g => ucmp f.file_limit g.file_start ≠ .gt

theorem LevelSorted.user {icmp : InternalKeyComparator} {files : List FileMetaData}
    (h : LevelSorted icmp files) : UserSorted icmp.user_comparator_ files where
  start_le_limit f hf := InternalKeyComparator.user_ne_gt_of_Compare_ne_gt (h.ordered f hf)
  limit_le_start := h.disjoint.imp fun hfg =>
    InternalKeyComparator.user_ne_gt_of_Compare_ne_gt (by rw [hfg]; decide)

namespace UserSorted

variable {ucmp : List UInt8 → List UInt8 → Ordering} [Std.TransCmp ucmp] {files : List FileMetaData}
  (h : UserSorted ucmp files)
include h

theorem limit_le_limit : files.Pairwise fun f g => ucmp f.file_limit g.file_limit ≠ .gt :=
  h.limit_le_start.imp_of_mem fun _ hg hfg => Std.TransCmp.le_trans hfg (h.start_le_limit _ hg)

theorem start_le_start : files.Pairwise fun f g => ucmp f.file_start g.file_start ≠ .gt :=
  h.limit_le_start.imp_of_mem fun hf _ hfg => Std.TransCmp.le_trans (h.start_le_limit _ hf) hfg

/-- the files the binary search moves `min` past come before any it does not -/
theorem pairwise_searchBefore (b : List UInt8) (w : Bool) :
    files.Pairwise fun f g => VersionStorageInfo.searchBefore ucmp b w g = true →
      VersionStorageInfo.searchBefore ucmp b w f = true := by
  have key : ∀ {x y : List UInt8}, ucmp x y ≠ .gt → (ucmp y b == .lt) = true →
      (ucmp x b == .lt) = true := fun hxy hy => by
    rw [beq_iff_eq] at hy ⊢
    exact Std.TransCmp.lt_of_isLE_of_lt (Ordering.isLE_iff_ne_gt.mpr hxy) hy
  cases w
  · exact h.limit_le_limit.imp fun hfg hg => by simpa using key hfg (by simpa using hg)
  · exact h.start_le_start.imp fun hfg hg => by simpa using key hfg (by simpa using hg)

/-- the files the binary search moves `max` before come after any it does not -/
theorem pairwise_searchAfter (e : List UInt8) (w : Bool) :
    files.Pairwise fun f g => (!VersionStorageInfo.searchAfter ucmp e w g) = true →
      (!VersionStorageInfo.searchAfter ucmp e w f) = true := by
  have key : ∀ {x y : List UInt8}, ucmp x y ≠ .gt → ucmp e y ≠ .lt → ucmp e x ≠ .lt :=
    fun hxy hy hx => hy (Std.TransCmp.lt_of_lt_of_isLE hx (Ordering.isLE_iff_ne_gt.mpr hxy))
  cases w
  · exact h.start_le_start.imp fun hfg hg => by simpa using key hfg (by simpa using hg)
  · exact h.limit_le_limit.imp fun hfg hg => by simpa using key hfg (by simpa using hg)

/-- on a sorted level the files the binary search moves `min` past are those below some `s`, and
those it moves `max` before those from some `t` on -/
theorem exists_search_split (b e : List UInt8) (w : Bool) :
    ∃ s t, t ≤ files.length ∧ ∀ i x, files[i]? = some x →
      (VersionStorageInfo.searchBefore ucmp b w x = true ↔ i < s) ∧
      (VersionStorageInfo.searchAfter ucmp e w x = true ↔ t ≤ i) := by
  obtain ⟨s, -, hs⟩ := List.exists_prefix_of_pairwise (h.pairwise_searchBefore b w)
  obtain ⟨t, ht, hts⟩ := List.exists_prefix_of_pairwise (h.pairwise_searchAfter e w)
  refine ⟨s, t, ht, fun i x hx => ⟨hs i x hx, ?_⟩⟩
  have := hts i x hx
  cases hx' : VersionStorageInfo.searchAfter ucmp e w x <;> simp_all

end UserSorted

/-- files `l` to `r` lie within `[b, e]`; the first does not start with the user key the previous
file ends with, nor the last end with the one the next file starts with -/
structure CleanRun (ucmp : List UInt8 → List UInt8 → Ordering) (files : List FileMetaData)
    (b e : List UInt8) (l r : Nat) : Prop where
  le : l ≤ r
  lt_length : r < files.length
  within : ∀ k, l ≤ k → k ≤ r → (files.getD k default).Within ucmp b e = true
  clean_left : l = 0 ∨
    ucmp (files.getD l default).file_start (files.getD (l - 1) default).file_limit ≠ .eq
  clean_right : r + 1 = files.length ∨
    ucmp (files.getD r default).file_limit (files.getD (r + 1) default).file_start ≠ .eq

/-! ## The binary search -/

namespace VersionStorageInfo

section Search

variable {ucmp : List UInt8 → List UInt8 → Ordering} {files : List FileMetaData}
  {b e : List UInt8} {w : Bool} {s t : Nat}
  (hsplit : ∀ i x, files[i]? = some x →
    (searchBefore ucmp b w x = true ↔ i < s) ∧ (searchAfter ucmp e w x = true ↔ t ≤ i))
include hsplit

/-- the loop keeps every file below `min` among those it moves past and every file above `max`
among those it moves before; it ends at a file in between, or with none in between -/
theorem binarySearchLoop_spec {fuel : Nat} {min max : Int} (h0 : 0 ≤ min) (hmin : min ≤ s)
    (hmax : t ≤ max + 1) (hn : max < files.length) (hle : min ≤ max + 1)
    (hfuel : max + 1 - min < fuel) :
    (binarySearchLoop ucmp files b e w fuel min max = none ∧ t ≤ s) ∨
      ∃ mid : Nat, binarySearchLoop ucmp files b e w fuel min max = some (mid : Int) ∧
        s ≤ mid ∧ mid < t ∧ mid < files.length := by
  induction fuel generalizing min max with
  | zero => omega
  | succ fuel ih =>
    rw [binarySearchLoop]
    by_cases hlt : min ≤ max
    · -- the file at `mid` decides which half is left
      have hmid : ((min + max) / 2).toNat < files.length := by omega
      obtain ⟨hb, ha⟩ := hsplit _ _ (List.getElem?_eq_some_getD default hmid)
      dsimp only
      rw [if_pos hlt]
      split_ifs with hbefore hafter
      · exact ih (by omega) (by have := hb.mp hbefore; omega) hmax hn (by omega) (by omega)
      · exact ih h0 hmin (by have := ha.mp hafter; omega) (by omega) (by omega) (by omega)
      · refine .inr ⟨((min + max) / 2).toNat, by rw [Int.toNat_of_nonneg (by omega)], ?_, ?_, hmid⟩
        · exact Nat.le_of_not_lt fun h => hbefore (hb.mpr h)
        · exact Nat.lt_of_not_le fun h => hafter (ha.mpr h)
    · rw [if_neg hlt]
      exact .inl ⟨rfl, by omega⟩

end Search

/-! ## Extending from a file in the range -/

section Extend

variable {ucmp : List UInt8 → List UInt8 → Ordering} {files : List FileMetaData}

/-- from index `i`, the backward loop ends at the first file that does not end before `b`, where
those that do are the files below `s` -/
theorem extendBackward_eq {b : List UInt8} {s : Nat}
    (hbefore : ∀ i x, files[i]? = some x → (ucmp x.file_limit b = .lt ↔ i < s))
    {i : Nat} (hi : i < files.length) (start_index : Int) :
    extendBackward ucmp files b i start_index = if s ≤ i then (s : Int) else start_index := by
  induction i generalizing start_index with
  | zero =>
    have h0 := hbefore 0 _ (List.getElem?_eq_some_getD default hi)
    rw [extendBackward]
    by_cases hs : s ≤ 0
    · rw [if_pos (by rw [bne_iff_ne, ne_eq, h0]; omega), if_pos hs]
      omega
    · rw [if_neg (by rw [bne_iff_ne, ne_eq, h0]; omega), if_neg hs]
  | succ i ih =>
    have hi' := hbefore (i + 1) _ (List.getElem?_eq_some_getD default hi)
    rw [extendBackward]
    by_cases hs : s ≤ i + 1
    · rw [if_pos (by rw [bne_iff_ne, ne_eq, hi']; omega), if_pos hs, ih (by omega)]
      split_ifs <;> omega
    · rw [if_neg (by rw [bne_iff_ne, ne_eq, hi']; omega), if_neg hs]

/-- from index `i`, the forward loop ends at the last file that does not start after `e`, where
those that do are the files from `t` on -/
theorem extendForward_eq {e : List UInt8} {t : Nat}
    (hafter : ∀ i x, files[i]? = some x → (ucmp x.file_start e = .gt ↔ t ≤ i))
    (ht : t ≤ files.length) {fuel i : Nat} (hfuel : files.length - i ≤ fuel) (end_index : Int) :
    extendForward ucmp files e fuel i end_index = if i < t then (t : Int) - 1 else end_index := by
  induction fuel generalizing i end_index with
  | zero => rw [extendForward, if_neg (by omega)]
  | succ fuel ih =>
    rw [extendForward]
    by_cases hit : i < t
    · have hi := hafter i _ (List.getElem?_eq_some_getD default (by omega))
      rw [if_pos ⟨by omega, by rw [bne_iff_ne, ne_eq, hi]; omega⟩, ih (by omega), if_pos hit]
      split_ifs <;> omega
    · rw [if_neg hit]
      split_ifs with hcont
      · have hi := hafter i _ (List.getElem?_eq_some_getD default hcont.1)
        exact absurd hcont.2 (by rw [bne_iff_ne, ne_eq, hi]; omega)
      · rfl

end Extend

/-! ## Overlapping files -/

section Splits

variable {ucmp : List UInt8 → List UInt8 → Ordering} [Std.OrientedCmp ucmp]
  {files : List FileMetaData} {b e : List UInt8} {s t : Nat}

/-- without `within_interval`, the split read as the tests of the code: the files ending before
`b` are those below `s`, those starting after `e` those from `t` on, and those that overlap
`[b, e]` those in between -/
theorem overlap_split
    (hsplit : ∀ i x, files[i]? = some x →
      (searchBefore ucmp b false x = true ↔ i < s) ∧ (searchAfter ucmp e false x = true ↔ t ≤ i))
    {i : Nat} {x : FileMetaData} (hx : files[i]? = some x) :
    (ucmp x.file_limit b = .lt ↔ i < s) ∧ (ucmp x.file_start e = .gt ↔ t ≤ i) ∧
      (x.Overlaps ucmp b e = true ↔ s ≤ i ∧ i < t) := by
  obtain ⟨hb, ha⟩ := hsplit i x hx
  simp only [searchBefore_false, searchAfter_false, beq_iff_eq] at hb ha
  have ha' : ucmp x.file_start e = .gt ↔ t ≤ i := Std.OrientedCmp.gt_iff_lt.trans ha
  refine ⟨hb, ha', ?_⟩
  simp only [FileMetaData.Overlaps, Bool.and_eq_true, bne_iff_ne, ne_eq, hb, ha']
  omega

/-- with `within_interval`, the split read as the tests of the code: the files starting before
`b` are those below `s`, those ending after `e` those from `t` on, and those within `[b, e]` those
in between -/
theorem within_split
    (hsplit : ∀ i x, files[i]? = some x →
      (searchBefore ucmp b true x = true ↔ i < s) ∧ (searchAfter ucmp e true x = true ↔ t ≤ i))
    {i : Nat} {x : FileMetaData} (hx : files[i]? = some x) :
    (ucmp x.file_start b = .lt ↔ i < s) ∧ (ucmp x.file_limit e = .gt ↔ t ≤ i) ∧
      (x.Within ucmp b e = true ↔ s ≤ i ∧ i < t) := by
  obtain ⟨hb, ha⟩ := hsplit i x hx
  simp only [searchBefore_true, searchAfter_true, beq_iff_eq] at hb ha
  have ha' : ucmp x.file_limit e = .gt ↔ t ≤ i := Std.OrientedCmp.gt_iff_lt.trans ha
  refine ⟨hb, ha', ?_⟩
  simp only [FileMetaData.Within, Bool.and_eq_true, bne_iff_ne, ne_eq, hb, ha']
  omega

end Splits

/-! ## Clean runs -/

section Shrink

variable (ucmp : List UInt8 → List UInt8 → Ordering) (files : List FileMetaData)

/-- a file the left shrinking loop passes over: it starts before `b`, or with the user key the
previous file ends with -/
def SkipLeft (b : List UInt8) (k : Nat) : Prop :=
  ucmp (files.getD k default).file_start b = .lt ∨
    (0 < k ∧ ucmp (files.getD k default).file_start (files.getD (k - 1) default).file_limit = .eq)

/-- a file the right shrinking loop passes over: it ends after `e`, or with the user key the next
file starts with -/
def SkipRight (e : List UInt8) (k : Nat) : Prop :=
  ucmp (files.getD k default).file_limit e = .gt ∨
    (k + 1 < files.length ∧
      ucmp (files.getD k default).file_limit (files.getD (k + 1) default).file_start = .eq)

variable {ucmp files}

/-- the left shrinking loop passes over the files from `left` that it skips and stops at the
first it does not, or past `right` -/
theorem shrinkLeft_spec {b : List UInt8} {right : Int} {fuel : Nat} {left : Int} (h0 : 0 ≤ left)
    (hle : left ≤ right + 1) (hfuel : right + 1 - left < fuel) :
    ∃ l : Nat, shrinkLeft ucmp files b right fuel left = l ∧ left ≤ l ∧ l ≤ right + 1 ∧
      (∀ k : Nat, left ≤ k → k < l → SkipLeft ucmp files b k) ∧
      ((l : Int) ≤ right → ¬ SkipLeft ucmp files b l) := by
  induction fuel generalizing left with
  | zero => omega
  | succ fuel ih =>
    obtain ⟨k, rfl⟩ : ∃ k : Nat, left = k := ⟨left.toNat, by omega⟩
    rw [shrinkLeft]
    by_cases hlr : (k : Int) ≤ right
    · rw [if_pos hlr]
      dsimp only
      have hprev : ((k : Int) - 1).toNat = k - 1 := by omega
      rw [Int.toNat_natCast, hprev]
      -- past a skipped file, the rest of the loop from the next one
      have hcont : SkipLeft ucmp files b k → ∃ l : Nat,
          shrinkLeft ucmp files b right fuel (k + 1) = l ∧ (k : Int) ≤ l ∧ (l : Int) ≤ right + 1 ∧
          (∀ j : Nat, (k : Int) ≤ j → j < l → SkipLeft ucmp files b j) ∧
          ((l : Int) ≤ right → ¬ SkipLeft ucmp files b l) := by
        intro hk
        obtain ⟨l, hl, hkl, hlr', hall, hend⟩ := @ih ((k : Int) + 1) (by omega) (by omega) (by omega)
        refine ⟨l, hl, by omega, hlr', fun j hkj hjl => ?_, hend⟩
        rcases Nat.lt_or_ge k j with hkj' | hjk
        · exact hall j (by omega) hjl
        · obtain rfl : j = k := by omega
          exact hk
      split_ifs with h1 h2
      · exact hcont (.inl (by simpa using h1))
      · exact hcont (.inr ⟨by omega, by simpa using h2.2⟩)
      · refine ⟨k, rfl, le_rfl, by omega, fun j hkj hjk => by omega, fun _ hskip => ?_⟩
        rcases hskip with h | ⟨hk, h⟩
        · exact h1 (by simpa using h)
        · exact h2 ⟨by omega, by simpa using h⟩
    · rw [if_neg hlr]
      exact ⟨k, rfl, le_rfl, by omega, fun j hkj hjk => by omega, fun h => absurd h hlr⟩

/-- the right shrinking loop passes over the files down from `right` that it skips and stops at
the first it does not, or before `left` -/
theorem shrinkRight_spec {e : List UInt8} {left : Int} {fuel : Nat} {right : Int} (h0 : 0 ≤ left)
    (hle : left ≤ right + 1) (hfuel : right + 1 - left < fuel) :
    ∃ r : Int, shrinkRight ucmp files e left fuel right = r ∧ left - 1 ≤ r ∧ r ≤ right ∧
      (∀ k : Nat, r < k → k ≤ right → SkipRight ucmp files e k) ∧
      (left ≤ r → ¬ SkipRight ucmp files e r.toNat) := by
  induction fuel generalizing right with
  | zero => omega
  | succ fuel ih =>
    rw [shrinkRight]
    by_cases hlr : left ≤ right
    · obtain ⟨k, rfl⟩ : ∃ k : Nat, right = k := ⟨right.toNat, by omega⟩
      rw [if_pos hlr]
      dsimp only
      have hnext : ((k : Int) + 1).toNat = k + 1 := by omega
      rw [Int.toNat_natCast, hnext]
      -- past a skipped file, the rest of the loop from the one before
      have hcont : SkipRight ucmp files e k → ∃ r : Int,
          shrinkRight ucmp files e left fuel (k - 1) = r ∧ left - 1 ≤ r ∧ r ≤ k ∧
          (∀ j : Nat, r < j → (j : Int) ≤ k → SkipRight ucmp files e j) ∧
          (left ≤ r → ¬ SkipRight ucmp files e r.toNat) := by
        intro hk
        obtain ⟨r, hr, hlr', hrk, hall, hend⟩ := @ih ((k : Int) - 1) (by omega) (by omega)
        refine ⟨r, hr, hlr', by omega, fun j hrj hjk => ?_, hend⟩
        rcases Nat.lt_or_ge j k with hjk' | hkj
        · exact hall j hrj (by omega)
        · obtain rfl : j = k := by omega
          exact hk
      split_ifs with h1 h2
      · exact hcont (.inl (by simpa using h1))
      · exact hcont (.inr ⟨by omega, by simpa using h2.2⟩)
      · refine ⟨k, rfl, by omega, le_rfl, fun j hkj hjk => by omega, fun _ hskip => ?_⟩
        rw [Int.toNat_natCast] at hskip
        rcases hskip with h | ⟨hk, h⟩
        · exact h1 (by simpa using h)
        · exact h2 ⟨by omega, by simpa using h⟩
    · rw [if_neg hlr]
      exact ⟨right, rfl, by omega, le_rfl, fun j hrj hjr => by omega, fun h => absurd h hlr⟩

section Runs

variable {ucmp : List UInt8 → List UInt8 → Ordering} {files : List FileMetaData}
  {b e : List UInt8} {l r : Nat}

/-- the ends of a clean run are files the shrinking loops stop at -/
theorem CleanRun.not_skip (h : CleanRun ucmp files b e l r) :
    ¬ SkipLeft ucmp files b l ∧ ¬ SkipRight ucmp files e r := by
  obtain ⟨hlr, hrn, hin, hleft, hright⟩ := h
  have hl := hin l le_rfl hlr
  have hr := hin r hlr le_rfl
  simp only [FileMetaData.Within, Bool.and_eq_true, bne_iff_ne, ne_eq] at hl hr
  refine ⟨?_, ?_⟩
  · rintro (h | ⟨hpos, h⟩)
    · exact hl.1 h
    · rcases hleft with h0 | hne
      · omega
      · exact hne h
  · rintro (h | ⟨hnext, h⟩)
    · exact hr.2 h
    · rcases hright with hlast | hne
      · omega
      · exact hne h

/-- where the left loop stops at `L` and the right loop at `R`, both past the files within
`[b, e]` that they skip, files `L` to `R` are the longest clean run, or there is none where `R`
is below `L` -/
theorem cleanRun_of_shrink {sw tw so eo : Nat}
    (hwithin : ∀ i x, files[i]? = some x → (ucmp x.file_start b = .lt ↔ i < sw) ∧
      (ucmp x.file_limit e = .gt ↔ tw ≤ i) ∧ (x.Within ucmp b e = true ↔ sw ≤ i ∧ i < tw))
    (hrun : ∀ l r, CleanRun ucmp files b e l r → so ≤ l ∧ r < eo) (hto : eo ≤ files.length)
    {L : Nat} {R : Int} (hLR : (L : Int) - 1 ≤ R) (hRto : R ≤ (eo : Int) - 1)
    (hskipL : ∀ k : Nat, so ≤ k → k < L → SkipLeft ucmp files b k)
    (hstopL : (L : Int) ≤ (eo : Int) - 1 → ¬ SkipLeft ucmp files b L)
    (hskipR : ∀ k : Nat, R < k → (k : Int) ≤ (eo : Int) - 1 → SkipRight ucmp files e k)
    (hstopR : (L : Int) ≤ R → ¬ SkipRight ucmp files e R.toNat) :
    (∃ l r, CleanRun ucmp files b e l r ∧ (∀ l' r', CleanRun ucmp files b e l' r' → l ≤ l' ∧ r' ≤ r) ∧
        (L : Int) = l ∧ R = r) ∨
      ((∀ l r, ¬ CleanRun ucmp files b e l r) ∧ R + 1 - L ≤ 0) := by
  -- a clean run starts at or after `L` and ends at or before `R`
  have hbound : ∀ l' r', CleanRun ucmp files b e l' r' → L ≤ l' ∧ (r' : Int) ≤ R := by
    intro l' r' h
    obtain ⟨hso, hto'⟩ := hrun l' r' h
    obtain ⟨hnl, hnr⟩ := CleanRun.not_skip h
    refine ⟨Nat.le_of_not_lt fun hlt => hnl (hskipL l' hso hlt), ?_⟩
    exact not_lt.mp fun hlt => hnr (hskipR r' hlt (by omega))
  by_cases hne : (L : Int) ≤ R
  · -- files `L` to `R` are within `[b, e]`: `L` starts at or after `b`, `R` ends at or before `e`
    obtain ⟨r, rfl⟩ : ∃ r : Nat, R = r := ⟨R.toNat, by omega⟩
    rw [Int.toNat_natCast] at hstopR
    have hrn : r < files.length := by omega
    have hLn : L < files.length := by omega
    have hL := hstopL (by omega)
    have hR := hstopR hne
    have hLsw : sw ≤ L := Nat.le_of_not_lt fun hlt =>
      hL (.inl ((hwithin L _ (List.getElem?_eq_some_getD default hLn)).1.mpr hlt))
    have hrtw : r < tw := Nat.lt_of_not_le fun hle =>
      hR (.inl ((hwithin r _ (List.getElem?_eq_some_getD default hrn)).2.1.mpr hle))
    refine .inl ⟨L, r, ⟨by omega, hrn, fun k hk1 hk2 => ?_, ?_, ?_⟩,
      fun l' r' h => ?_, rfl, rfl⟩
    · exact (hwithin k _ (List.getElem?_eq_some_getD default (by omega))).2.2.mpr ⟨by omega, by omega⟩
    · by_cases h0 : L = 0
      · exact .inl h0
      · exact .inr fun heq => hL (.inr ⟨by omega, heq⟩)
    · by_cases hlast : r + 1 = files.length
      · exact .inl hlast
      · exact .inr fun heq => hR (.inr ⟨by omega, heq⟩)
    · have := hbound l' r' h
      omega
  · refine .inr ⟨fun l' r' h => ?_, by omega⟩
    have := hbound l' r' h
    have := h.le
    omega

end Runs

end Shrink

variable (vs : VersionStorageInfo)

/-- from a file that overlaps `[b, e]`, the outward loops end at the first and the last file that
do -/
theorem ExtendFileRangeOverlappingInterval_eq [Std.OrientedCmp vs.user_comparator_]
    {level : Nat} {b e : List UInt8} {s t : Nat}
    (hsplit : ∀ i x, (vs.LevelFiles level)[i]? = some x →
      (searchBefore vs.user_comparator_ b false x = true ↔ i < s) ∧
      (searchAfter vs.user_comparator_ e false x = true ↔ t ≤ i))
    (ht : t ≤ (vs.LevelFiles level).length) {mid : Nat} (hs : s ≤ mid) (hmt : mid < t) :
    vs.ExtendFileRangeOverlappingInterval level b e mid = ((s : Int), (t : Int) - 1) := by
  have hbefore := fun i x (hx : (vs.LevelFiles level)[i]? = some x) => (overlap_split hsplit hx).1
  have hafter := fun i x (hx : (vs.LevelFiles level)[i]? = some x) => (overlap_split hsplit hx).2.1
  rw [ExtendFileRangeOverlappingInterval, extendBackward_eq hbefore (by omega), if_pos hs,
    extendForward_eq hafter ht (by omega)]
  -- the forward loop starts past `mid`, which may already be the last file that overlaps
  split_ifs with hnext
  · rfl
  · exact Prod.ext rfl (by dsimp only; omega)

/-- the search on a split level ends at a file between the two parts, or finds none where there is
none in between; a hint is such a file -/
theorem searchMid_spec {level : Nat} {b e : List UInt8} {w : Bool} {s t : Nat}
    (hsplit : ∀ i x, (vs.LevelFiles level)[i]? = some x →
      (searchBefore vs.user_comparator_ b w x = true ↔ i < s) ∧
      (searchAfter vs.user_comparator_ e w x = true ↔ t ≤ i))
    (ht : t ≤ (vs.LevelFiles level).length) {hint_index : Int}
    (hhint : hint_index = -1 ∨
      ∃ j : Nat, hint_index = j ∧ s ≤ j ∧ j < t ∧ j < (vs.LevelFiles level).length) :
    (vs.searchMid level b e hint_index w = none ∧ t ≤ s) ∨
      ∃ mid : Nat, vs.searchMid level b e hint_index w = some (mid : Int) ∧
        s ≤ mid ∧ mid < t ∧ mid < (vs.LevelFiles level).length := by
  rcases hhint with rfl | ⟨j, rfl, hj⟩
  · rw [searchMid, if_neg (by simp)]
    exact binarySearchLoop_spec hsplit le_rfl (by omega) (by omega) (by omega) (by omega)
      (by omega)
  · exact .inr ⟨j, by rw [searchMid, if_pos (by omega)], hj⟩

/-- **The binary-search path.**  Without `within_interval`, on a sorted level, with a hint that is
`-1` or names a file that overlaps `[b, e]`: the files that overlap are appended, in order, and
`*file_index` names one of them, or is left where there is none -/
theorem GetOverlappingInputsRangeBinarySearch_overlap [Std.TransCmp vs.user_comparator_]
    {level : Nat} (hsorted : UserSorted vs.user_comparator_ (vs.LevelFiles level))
    (b e : List UInt8) (inputs : List FileMetaData) {hint_index : Int}
    (hhint : hint_index = -1 ∨ ∃ j : Nat, hint_index = j ∧ ∃ f, (vs.LevelFiles level)[j]? = some f ∧
      f.Overlaps vs.user_comparator_ b e = true)
    (file_index : Option Int) :
    let out := vs.GetOverlappingInputsRangeBinarySearch level b e inputs hint_index file_index false
    out.1 = inputs ++ (vs.LevelFiles level).filter (FileMetaData.Overlaps vs.user_comparator_ b e) ∧
      (out.2 = file_index ∧
          (vs.LevelFiles level).filter (FileMetaData.Overlaps vs.user_comparator_ b e) = [] ∨
        ∃ j : Nat, out.2 = file_index.map (fun _ => (j : Int)) ∧
          ∃ f, (vs.LevelFiles level)[j]? = some f ∧ f.Overlaps vs.user_comparator_ b e = true) := by
  intro out
  obtain ⟨s, t, ht, hsplit⟩ := hsorted.exists_search_split b e false
  have hwindow := fun i x (hx : (vs.LevelFiles level)[i]? = some x) => (overlap_split hsplit hx).2.2
  have hfilter := List.filter_eq_take_drop_of_window hwindow
  -- a hint names a file between the two parts
  have hhint' : hint_index = -1 ∨
      ∃ j : Nat, hint_index = j ∧ s ≤ j ∧ j < t ∧ j < (vs.LevelFiles level).length := by
    rcases hhint with h | ⟨j, rfl, f, hf, hov⟩
    · exact .inl h
    · have hj := (hwindow j f hf).mp hov
      exact .inr ⟨j, rfl, hj.1, hj.2, (List.getElem?_eq_some_iff.mp hf).1⟩
  rcases vs.searchMid_spec hsplit ht hhint' with ⟨hnone, hts⟩ | ⟨mid, hmid, hsm, hmt, hmn⟩
  · have hout : out = (inputs, file_index) := by
      simp only [out, GetOverlappingInputsRangeBinarySearch, hnone]
    rw [hout, hfilter, Nat.sub_eq_zero_of_le hts, List.take_zero, List.append_nil]
    exact ⟨rfl, .inl ⟨rfl, rfl⟩⟩
  · have hout : out = (inputs ++ ((vs.LevelFiles level).drop s).take (t - s),
        file_index.map fun _ => (mid : Int)) := by
      simp only [out, GetOverlappingInputsRangeBinarySearch, hmid, Bool.false_eq_true, if_false,
        Int.toNat_natCast, vs.ExtendFileRangeOverlappingInterval_eq hsplit ht hsm hmt]
      congr 3
      omega
    have hf := List.getElem?_eq_some_getD default hmn
    rw [hout, hfilter]
    exact ⟨rfl, .inr ⟨mid, rfl, _, hf, (hwindow mid _ hf).mpr ⟨hsm, hmt⟩⟩⟩

/-- **The clean inputs within an interval.**  With `within_interval`, on a sorted level, with a
hint that is `-1` or names a file within `[b, e]`: the longest clean run is appended, or nothing
where there is none -/
theorem GetOverlappingInputsRangeBinarySearch_within [Std.TransCmp vs.user_comparator_]
    {level : Nat} (hsorted : UserSorted vs.user_comparator_ (vs.LevelFiles level))
    (b e : List UInt8) (inputs : List FileMetaData) {hint_index : Int}
    (hhint : hint_index = -1 ∨ ∃ j : Nat, hint_index = j ∧ ∃ f, (vs.LevelFiles level)[j]? = some f ∧
      f.Within vs.user_comparator_ b e = true)
    (file_index : Option Int) :
    let out := vs.GetOverlappingInputsRangeBinarySearch level b e inputs hint_index file_index true
    (∃ l r, CleanRun vs.user_comparator_ (vs.LevelFiles level) b e l r ∧
        (∀ l' r', CleanRun vs.user_comparator_ (vs.LevelFiles level) b e l' r' → l ≤ l' ∧ r' ≤ r) ∧
        out.1 = inputs ++ ((vs.LevelFiles level).drop l).take (r + 1 - l)) ∨
      ((∀ l r, ¬ CleanRun vs.user_comparator_ (vs.LevelFiles level) b e l r) ∧ out.1 = inputs) := by
  intro out
  obtain ⟨sw, tw, htw, hsplitw⟩ := hsorted.exists_search_split b e true
  obtain ⟨so, eo, hto, hsplito⟩ := hsorted.exists_search_split b e false
  have hwithin := fun i x (hx : (vs.LevelFiles level)[i]? = some x) => within_split hsplitw hx
  have hoverlap := fun i x (hx : (vs.LevelFiles level)[i]? = some x) => overlap_split hsplito hx
  -- a file within `[b, e]` overlaps it
  have hov : ∀ i, i < (vs.LevelFiles level).length →
      ((vs.LevelFiles level).getD i default).Within vs.user_comparator_ b e = true → so ≤ i ∧ i < eo :=
    fun i hi hin => by
      have hf := List.getElem?_eq_some_getD default hi
      exact (hoverlap i _ hf).2.2.mp
        (FileMetaData.Within.overlaps (hsorted.start_le_limit _ (List.mem_of_getElem? hf)) hin)
  have hrun : ∀ l r, CleanRun vs.user_comparator_ (vs.LevelFiles level) b e l r → so ≤ l ∧ r < eo :=
    fun l r h => ⟨(hov l (by have := h.lt_length; have := h.le; omega) (h.within l le_rfl h.le)).1,
      (hov r h.lt_length (h.within r h.le le_rfl)).2⟩
  have hhint' : hint_index = -1 ∨
      ∃ j : Nat, hint_index = j ∧ sw ≤ j ∧ j < tw ∧ j < (vs.LevelFiles level).length := by
    rcases hhint with h | ⟨j, rfl, f, hf, hin⟩
    · exact .inl h
    · have hj := (hwithin j f hf).2.2.mp hin
      exact .inr ⟨j, rfl, hj.1, hj.2, (List.getElem?_eq_some_iff.mp hf).1⟩
  rcases vs.searchMid_spec hsplitw htw hhint' with ⟨hnone, hts⟩ | ⟨mid, hmid, hsm, hmt, hmn⟩
  · -- no file lies within `[b, e]`, so no clean run does
    refine .inr ⟨fun l r h => ?_, by simp only [out, GetOverlappingInputsRangeBinarySearch, hnone]⟩
    have hl := (hwithin l _ (List.getElem?_eq_some_getD default
      (by have := h.lt_length; have := h.le; omega))).2.2.mp (h.within l le_rfl h.le)
    omega
  · -- from `mid`, the files that overlap `[b, e]` are `so` to `to - 1`, then shrunk
    obtain ⟨hsom, hmto⟩ := hov mid hmn ((hwithin mid _ (List.getElem?_eq_some_getD default hmn)).2.2.mpr
      ⟨hsm, hmt⟩)
    obtain ⟨L, hL, hsoL, hLto, hskipL, hstopL⟩ :=
      @shrinkLeft_spec vs.user_comparator_ (vs.LevelFiles level) b ((eo : Int) - 1)
        ((vs.LevelFiles level).length + 1) so (by omega) (by omega) (by omega)
    obtain ⟨R, hR, hLR, hRto, hskipR, hstopR⟩ :=
      @shrinkRight_spec vs.user_comparator_ (vs.LevelFiles level) e L
        ((vs.LevelFiles level).length + 1) ((eo : Int) - 1) (by omega) (by omega) (by omega)
    have hext : vs.ExtendFileRangeWithinInterval level b e mid = ((L : Int), R) := by
      rw [ExtendFileRangeWithinInterval, vs.ExtendFileRangeOverlappingInterval_eq hsplito hto hsom hmto]
      dsimp only
      rw [hL, hR]
    have hout : out.1 = inputs ++ ((vs.LevelFiles level).drop L).take (R + 1 - L).toNat := by
      simp only [out, GetOverlappingInputsRangeBinarySearch, hmid, if_true, Int.toNat_natCast, hext]
    rcases cleanRun_of_shrink (fun i x hx => hwithin i x hx) hrun hto hLR hRto
        (fun k hk1 hk2 => hskipL k (by omega) (by omega)) hstopL hskipR hstopR with
      ⟨l, r, hrun', hmax, hl, hr⟩ | ⟨hnone, hle⟩
    · refine .inl ⟨l, r, hrun', hmax, ?_⟩
      rw [hout]
      congr 3 <;> omega
    · refine .inr ⟨hnone, ?_⟩
      rw [hout, show (R + 1 - L).toNat = 0 by omega, List.take_zero, List.append_nil]

end VersionStorageInfo

end RocksDB
