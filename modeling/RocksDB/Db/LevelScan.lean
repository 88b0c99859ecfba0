import RocksDB.Db.LevelOverlap

/-!
# db/version_set.cc: the scan of a level, and what the level queries leave

`GetOverlappingInputs` scans the level where it does not search it: on level 0, or where `begin`
or `end` is `nullptr`.

* `scanPass_cons_of_not_overlaps`, `scanPass_cons_of_overlaps`  one step of a pass: a file that
                        does not overlap the range is passed over, one that does is taken, or on
                        level 0 with `expand_range` widens the range;
* `scanPass_filter`     a pass that does not expand takes the files that overlap `[b, e]`, in order;
* `scanPass_expand`     a pass over `[lo, hi]` on level 0 with `expand_range` ends with the files
                        that overlap it, each inside it, or restarts with the range widened to a
                        file that overlaps it and sticks out;
* `ClosedCover lo hi`   `[lo, hi]` holds `[b, e]` and every level-0 file range that meets it;
* `scanLevel_expand`    the scan ends with the files that meet the least closed cover: a restart
                        stays inside every closed cover and lowers `restartMeasure`, the number of
                        file starts below the range and file limits above it, so `2 * n + 1` passes
                        are enough;
* `level_overlap_queries`  what `GetOverlappingInputs` and `GetCleanInputsWithinInterval` leave in
                        `*inputs` and `*file_index`.  On a level at or beyond
                        `num_non_empty_levels_`, which holds no files, that is what they held on
                        entry (`level_overlap_keeps_stale_inputs`).
-/

namespace RocksDB

namespace FileMetaData

variable {ucmp : List UInt8 → List UInt8 → Ordering} [Std.TransCmp ucmp] {b e c d : List UInt8}
  {f : FileMetaData}

/-- a range that meets `[b, e]` meets every range holding `[b, e]` -/
theorem Overlaps.mono (hc : ucmp c b ≠ .gt) (hd : ucmp e d ≠ .gt)
    (h : f.Overlaps ucmp b e = true) : f.Overlaps ucmp c d = true := by
  simp only [Overlaps, Bool.and_eq_true, bne_iff_ne, ne_eq] at h ⊢
  obtain ⟨hb, he⟩ := h
  refine ⟨fun hlt => hb ?_, fun hgt => he ?_⟩
  · -- `file_limit < c ≤ b`
    exact Std.TransCmp.lt_of_lt_of_isLE hlt (Ordering.isLE_iff_ne_gt.mpr hc)
  · -- `e ≤ d < file_start`
    exact Std.OrientedCmp.gt_iff_lt.mpr (Std.TransCmp.lt_of_isLE_of_lt
      (Ordering.isLE_iff_ne_gt.mpr hd) (Std.OrientedCmp.gt_iff_lt.mp hgt))

end FileMetaData

/-- `[lo, hi]` holds `[b, e]`, and every level-0 file whose range meets it lies inside it -/
structure ClosedCover (ucmp : List UInt8 → List UInt8 → Ordering) (files : List FileMetaData)
    (b e lo hi : List UInt8) : Prop where
  lo_le : ucmp lo b ≠ .gt
  le_hi : ucmp e hi ≠ .gt
  closed : ∀ f ∈ files, f.Overlaps ucmp lo hi = true →
    ucmp lo f.file_start ≠ .gt ∧ ucmp f.file_limit hi ≠ .gt

/-- the files starting below `lo` and those ending above `hi`: each restart of the level-0 scan
leaves fewer -/
def restartMeasure (ucmp : List UInt8 → List UInt8 → Ordering) (files : List FileMetaData)
    (lo hi : List UInt8) : Nat :=
  files.countP (fun f => ucmp f.file_start lo == .lt) +
    files.countP (fun f => ucmp f.file_limit hi == .gt)

section Measure

variable {ucmp : List UInt8 → List UInt8 → Ordering} [Std.TransCmp ucmp]
  {files : List FileMetaData} {lo hi : List UInt8} {f : FileMetaData}

omit [Std.TransCmp ucmp] in
theorem restartMeasure_le : restartMeasure ucmp files lo hi ≤ 2 * files.length := by
  have h1 := List.countP_le_length (p := fun f => ucmp f.file_start lo == .lt) (l := files)
  have h2 := List.countP_le_length (p := fun f => ucmp f.file_limit hi == .gt) (l := files)
  unfold restartMeasure
  omega

/-- widening the range down to a file that starts below it leaves fewer files starting below -/
theorem restartMeasure_lt_of_start (hf : f ∈ files) (hlt : ucmp f.file_start lo = .lt) :
    restartMeasure ucmp files f.file_start hi < restartMeasure ucmp files lo hi := by
  have hfewer : files.countP (fun g => ucmp g.file_start f.file_start == .lt) <
      files.countP (fun g => ucmp g.file_start lo == .lt) :=
    List.countP_lt_countP_of_mem
      (fun g _ hg => by simpa using Std.TransCmp.lt_trans (by simpa using hg) hlt) hf
      (by simpa using hlt) (by simp [Std.ReflCmp.compare_self])
  unfold restartMeasure
  omega

/-- widening the range up to a file that ends above it leaves fewer files ending above -/
theorem restartMeasure_lt_of_limit (hf : f ∈ files) (hgt : ucmp f.file_limit hi = .gt) :
    restartMeasure ucmp files lo f.file_limit < restartMeasure ucmp files lo hi := by
  have hfewer : files.countP (fun g => ucmp g.file_limit f.file_limit == .gt) <
      files.countP (fun g => ucmp g.file_limit hi == .gt) :=
    List.countP_lt_countP_of_mem
      (fun g _ hg => by simpa using Std.TransCmp.gt_trans (by simpa using hg) hgt) hf
      (by simpa using hgt) (by simp [Std.ReflCmp.compare_self])
  unfold restartMeasure
  omega

end Measure

namespace VersionStorageInfo

/-! ## One pass of the scan -/

section Pass

variable {ucmp : List UInt8 → List UInt8 → Ordering} {level : Nat} {expand_range : Bool}
  {lo hi : List UInt8} {f : FileMetaData} {fs : List FileMetaData} {i : Nat}
  {inputs : List FileMetaData} {file_index : Option Int}

/-- a file that does not overlap the range is passed over -/
theorem scanPass_cons_of_not_overlaps (h : f.Overlaps ucmp lo hi = false) :
    scanPass ucmp level expand_range (some lo) (some hi) (f :: fs) i inputs file_index =
      scanPass ucmp level expand_range (some lo) (some hi) fs (i + 1) inputs file_index := by
  simp only [FileMetaData.Overlaps, Bool.and_eq_false_iff, bne_eq_false_iff_eq] at h
  rw [scanPass]
  simp only [Option.any_some]
  by_cases hb : ucmp f.file_limit lo = .lt
  · rw [if_pos (by simpa using hb)]
  · rw [if_neg (by simpa using hb), if_pos (by simpa using h.resolve_left hb)]

/-- a file that overlaps the range is taken, and on level 0 with `expand_range` widens it where
it sticks out -/
theorem scanPass_cons_of_overlaps (h : f.Overlaps ucmp lo hi = true) :
    scanPass ucmp level expand_range (some lo) (some hi) (f :: fs) i inputs file_index =
      if level = 0 ∧ expand_range = true then
        if ucmp f.file_start lo = .lt then .restart (some f.file_start) (some hi)
        else if ucmp f.file_limit hi = .gt then .restart (some lo) (some f.file_limit)
        else scanPass ucmp level expand_range (some lo) (some hi) fs (i + 1) (inputs ++ [f])
          file_index
      else scanPass ucmp level expand_range (some lo) (some hi) fs (i + 1) (inputs ++ [f])
        (file_index.map fun _ => i) := by
  simp only [FileMetaData.Overlaps, Bool.and_eq_true, bne_iff_ne, ne_eq] at h
  rw [scanPass]
  simp only [Option.any_some, beq_iff_eq]
  rw [if_neg h.1, if_neg h.2]

/-- a pass that does not expand takes the files that overlap `[b, e]`, in order -/
theorem scanPass_filter (hno : ¬(level = 0 ∧ expand_range = true)) (b e : List UInt8)
    (fs : List FileMetaData) (i : Nat) (inputs : List FileMetaData) (file_index : Option Int) :
    ∃ fi, scanPass ucmp level expand_range (some b) (some e) fs i inputs file_index =
      .done (inputs ++ fs.filter (FileMetaData.Overlaps ucmp b e)) fi := by
  induction fs generalizing i inputs file_index with
  | nil => exact ⟨file_index, by simp [scanPass]⟩
  | cons f fs ih =>
    cases hov : f.Overlaps ucmp b e
    · rw [scanPass_cons_of_not_overlaps hov, List.filter_cons_of_neg (by simp [hov])]
      exact ih (i + 1) inputs file_index
    · rw [scanPass_cons_of_overlaps hov, if_neg hno, List.filter_cons_of_pos hov]
      obtain ⟨fi, h⟩ := ih (i + 1) (inputs ++ [f]) (file_index.map fun _ => i)
      exact ⟨fi, by rw [h, List.append_assoc, List.singleton_append]⟩

/-- a pass on level 0 with `expand_range` ends with the files that overlap `[lo, hi]`, each
inside it, or restarts with the range widened to a file that overlaps it and starts below it,
or else ends above it -/
theorem scanPass_expand (lo hi : List UInt8) (fs : List FileMetaData) (i : Nat)
    (inputs : List FileMetaData) (file_index : Option Int) :
    (scanPass ucmp 0 true (some lo) (some hi) fs i inputs file_index =
        .done (inputs ++ fs.filter (FileMetaData.Overlaps ucmp lo hi)) file_index ∧
      ∀ f ∈ fs, f.Overlaps ucmp lo hi = true →
        ucmp f.file_start lo ≠ .lt ∧ ucmp f.file_limit hi ≠ .gt) ∨
    ∃ f ∈ fs, f.Overlaps ucmp lo hi = true ∧
      (ucmp f.file_start lo = .lt ∧ scanPass ucmp 0 true (some lo) (some hi) fs i inputs
          file_index = .restart (some f.file_start) (some hi) ∨
        ucmp f.file_start lo ≠ .lt ∧ ucmp f.file_limit hi = .gt ∧
          scanPass ucmp 0 true (some lo) (some hi) fs i inputs file_index =
            .restart (some lo) (some f.file_limit)) := by
  induction fs generalizing i inputs with
  | nil => exact .inl ⟨by simp [scanPass], by simp⟩
  | cons f fs ih =>
    cases hov : f.Overlaps ucmp lo hi
    · -- `f` is passed over: the rest of the pass decides
      rw [scanPass_cons_of_not_overlaps hov, List.filter_cons_of_neg (by simp [hov])]
      rcases ih (i + 1) inputs with ⟨hdone, hin⟩ | ⟨g, hg, hgov, hrest⟩
      · refine .inl ⟨hdone, fun g hg hgov => ?_⟩
        rcases List.mem_cons.mp hg with rfl | hg
        · simp [hov] at hgov
        · exact hin g hg hgov
      · exact .inr ⟨g, List.mem_cons_of_mem f hg, hgov, hrest⟩
    · rw [scanPass_cons_of_overlaps hov, if_pos ⟨rfl, rfl⟩]
      split_ifs with hlo hhi
      · exact .inr ⟨f, List.mem_cons_self, hov, .inl ⟨hlo, rfl⟩⟩
      · exact .inr ⟨f, List.mem_cons_self, hov, .inr ⟨hlo, hhi, rfl⟩⟩
      · -- `f` lies inside `[lo, hi]` and is taken
        rw [List.filter_cons_of_pos hov]
        rcases ih (i + 1) (inputs ++ [f]) with ⟨hdone, hin⟩ | ⟨g, hg, hgov, hrest⟩
        · refine .inl ⟨by rw [hdone, List.append_assoc, List.singleton_append],
            fun g hg hgov => ?_⟩
          rcases List.mem_cons.mp hg with rfl | hg
          · exact ⟨hlo, hhi⟩
          · exact hin g hg hgov
        · exact .inr ⟨g, List.mem_cons_of_mem f hg, hgov, hrest⟩

end Pass

/-! ## The scan -/

section Scan

variable {ucmp : List UInt8 → List UInt8 → Ordering} {files : List FileMetaData}

/-- a scan that does not expand takes, in its first pass, the files that overlap `[b, e]` -/
theorem scanLevel_filter {level : Nat} {expand_range : Bool}
    (hno : ¬(level = 0 ∧ expand_range = true)) (b e : List UInt8) (file_index : Option Int)
    {fuel : Nat} (hfuel : 0 < fuel) :
    (scanLevel ucmp files level expand_range file_index fuel (some b) (some e)).1 =
      files.filter (FileMetaData.Overlaps ucmp b e) := by
  obtain ⟨fuel, rfl⟩ : ∃ n, fuel = n + 1 := ⟨fuel - 1, by omega⟩
  obtain ⟨fi, h⟩ := scanPass_filter hno b e files 0 [] file_index
  rw [scanLevel, h]
  rfl

variable [Std.TransCmp ucmp]

/-- the level-0 scan from a range `[lo, hi]` that holds `[b, e]` and lies inside every closed
cover ends with the files that meet the least closed cover; each restart lowers the measure -/
theorem scanLevel_expand (b e : List UInt8) (file_index : Option Int) {fuel : Nat}
    {lo hi : List UInt8} (hlo : ucmp lo b ≠ .gt) (hhi : ucmp e hi ≠ .gt)
    (hleast : ∀ c d, ClosedCover ucmp files b e c d → ucmp c lo ≠ .gt ∧ ucmp hi d ≠ .gt)
    (hfuel : restartMeasure ucmp files lo hi < fuel) :
    ∃ lo' hi', ClosedCover ucmp files b e lo' hi' ∧
      (∀ c d, ClosedCover ucmp files b e c d → ucmp c lo' ≠ .gt ∧ ucmp hi' d ≠ .gt) ∧
      scanLevel ucmp files 0 true file_index fuel (some lo) (some hi) =
        (files.filter (FileMetaData.Overlaps ucmp lo' hi'), file_index) := by
  induction fuel generalizing lo hi with
  | zero => omega
  | succ fuel ih =>
    rw [scanLevel]
    rcases scanPass_expand lo hi files 0 [] file_index with
      ⟨hdone, hin⟩ | ⟨f, hf, hov, ⟨hlt, hrestart⟩ | ⟨-, hgt, hrestart⟩⟩
    · -- every file that meets `[lo, hi]` lies inside it: it is the least closed cover
      refine ⟨lo, hi, ⟨hlo, hhi, fun g hg hgov => ?_⟩, hleast, by rw [hdone]; rfl⟩
      obtain ⟨hstart, hlimit⟩ := hin g hg hgov
      exact ⟨fun h => hstart (Std.OrientedCmp.gt_iff_lt.mp h), hlimit⟩
    · -- widened down to `f`, which every closed cover holds since `f` meets `[lo, hi]`
      rw [hrestart]
      refine ih (Std.TransCmp.le_trans (by rw [hlt]; decide) hlo) hhi (fun c d hcd => ?_)
        (by have := (restartMeasure_lt_of_start hf hlt :
          restartMeasure ucmp files f.file_start hi < _); omega)
      obtain ⟨hc, hd⟩ := hleast c d hcd
      exact ⟨(hcd.closed f hf (FileMetaData.Overlaps.mono hc hd hov)).1, hd⟩
    · -- widened up to `f`
      rw [hrestart]
      refine ih hlo (Std.TransCmp.le_trans hhi (by rw [Std.OrientedCmp.lt_of_gt hgt]; decide))
        (fun c d hcd => ?_)
        (by have := (restartMeasure_lt_of_limit hf hgt :
          restartMeasure ucmp files lo f.file_limit < _); omega)
      obtain ⟨hc, hd⟩ := hleast c d hcd
      exact ⟨hc, (hcd.closed f hf (FileMetaData.Overlaps.mono hc hd hov)).2⟩

end Scan

end VersionStorageInfo

/-! ## The queries -/

/-- the levels below `i` at or beyond `numNonEmptyLevels files_ i` hold no files -/
theorem getD_of_numNonEmptyLevels_le {files_ : List (List FileMetaData)} {i level : Nat}
    (h : numNonEmptyLevels files_ i ≤ level) (hlt : level < i) : files_.getD level [] = [] := by
  induction i with
  | zero => omega
  | succ i ih =>
    rw [numNonEmptyLevels] at h
    split_ifs at h with hne
    · omega
    · rcases Nat.lt_or_ge level i with hli | hli
      · exact ih h hli
      · obtain rfl : level = i := by omega
        exact List.eq_nil_of_length_eq_zero (not_not.mp hne)

namespace VersionStorageInfo

variable (vs : VersionStorageInfo)

/-- a level at or beyond `num_non_empty_levels_` holds no files -/
theorem LevelFiles_of_le {level : Nat} (h : vs.num_non_empty_levels_ ≤ level) :
    vs.LevelFiles level = [] := by
  rw [vs.num_non_empty_levels_eq, UpdateNumNonEmptyLevels] at h
  rcases Nat.lt_or_ge level vs.files_.length with hlt | hge
  · exact getD_of_numNonEmptyLevels_le h hlt
  · exact List.getD_eq_default _ _ hge

section Queries

variable {level : Nat} (begin end_ : InternalKey) (inputs : List FileMetaData) (hint_index : Int)
  (file_index : Option Int)

theorem GetOverlappingInputs_of_le (h : vs.num_non_empty_levels_ ≤ level) (expand_range : Bool) :
    vs.GetOverlappingInputs level (some begin) (some end_) inputs hint_index file_index
      expand_range = (inputs, file_index) := by
  rw [GetOverlappingInputs, if_pos h]

theorem GetCleanInputsWithinInterval_of_le (h : vs.num_non_empty_levels_ ≤ level) :
    vs.GetCleanInputsWithinInterval level (some begin) (some end_) inputs hint_index file_index =
      (inputs, file_index) := by
  rw [GetCleanInputsWithinInterval, if_pos h]

/-- above level 0 with both ends given, the binary search from a cleared `*inputs` and
`*file_index` at `-1` -/
theorem GetOverlappingInputs_of_pos (h : level < vs.num_non_empty_levels_) (hlevel : 0 < level)
    (expand_range : Bool) :
    vs.GetOverlappingInputs level (some begin) (some end_) inputs hint_index file_index
      expand_range =
      vs.GetOverlappingInputsRangeBinarySearch level begin.user_key end_.user_key [] hint_index
        (file_index.map fun _ => -1) false := by
  rw [GetOverlappingInputs, if_neg (by omega)]
  dsimp only
  rw [if_pos hlevel]

/-- on level 0, the scan from a cleared `*inputs` and `*file_index` at `-1` -/
theorem GetOverlappingInputs_zero (h : 0 < vs.num_non_empty_levels_) (expand_range : Bool) :
    vs.GetOverlappingInputs 0 (some begin) (some end_) inputs hint_index file_index
      expand_range =
      scanLevel vs.user_comparator_ (vs.LevelFiles 0) 0 expand_range (file_index.map fun _ => -1)
        (2 * (vs.LevelFiles 0).length + 1) (some begin.user_key) (some end_.user_key) := by
  rw [GetOverlappingInputs, if_neg (by omega)]
  rfl

theorem GetCleanInputsWithinInterval_of_pos (h : level < vs.num_non_empty_levels_)
    (hlevel : 0 < level) :
    vs.GetCleanInputsWithinInterval level (some begin) (some end_) inputs hint_index file_index =
      vs.GetOverlappingInputsRangeBinarySearch level begin.user_key end_.user_key [] hint_index
        (file_index.map fun _ => -1) true := by
  rw [GetCleanInputsWithinInterval, if_neg (by omega)]
  dsimp only
  rw [if_pos hlevel]

end Queries

end VersionStorageInfo

open VersionStorageInfo in
/-- **The level queries.**  Over a user comparator that is a total preorder, for the user keys
`b`, `e` of `begin` and `end`:

* above level 0, on a level of sorted, disjoint files, with a hint that is `-1` or names a file
  that overlaps `[b, e]`: `GetOverlappingInputs` leaves in `*inputs` the files that overlap
  `[b, e]`, in level order, the same as the scan of the level finds, and in `*file_index` one of
  them, or `-1` where there is none;
* on level 0 with `expand_range`: the files that meet the least range that holds `[b, e]` and
  every level-0 file range it meets;
* `GetCleanInputsWithinInterval`, with a hint that is `-1` or names a file within `[b, e]`: the
  longest run of files within `[b, e]` that shares no boundary key with the files next to it, or
  none where there is no such run;

on a level below `num_non_empty_levels_`.  On a level at or beyond it, which holds no files, both
leave `*inputs` and `*file_index` as they were on entry. -/
theorem level_overlap_queries (vs : VersionStorageInfo) [Std.TransCmp vs.user_comparator_]
    {level : Nat} (hlevel : 0 < level)
    (hsorted : LevelSorted vs.internal_comparator_ (vs.LevelFiles level))
    (begin end_ : InternalKey) (inputs : List FileMetaData) (file_index : Option Int)
    {hint_index : Int}
    (hhint : hint_index = -1 ∨ ∃ j : Nat, hint_index = j ∧ ∃ f, (vs.LevelFiles level)[j]? = some f ∧
      f.Overlaps vs.user_comparator_ begin.user_key end_.user_key = true)
    (expand_range : Bool) :
    let ucmp := vs.user_comparator_
    let b := begin.user_key
    let e := end_.user_key
    let files := vs.LevelFiles level
    (let out := vs.GetOverlappingInputs level (some begin) (some end_) inputs hint_index file_index
        expand_range
      if level < vs.num_non_empty_levels_ then
        out.1 = files.filter (FileMetaData.Overlaps ucmp b e) ∧
        (scanLevel ucmp files level expand_range (file_index.map fun _ => -1)
          (2 * files.length + 1) (some b) (some e)).1 = out.1 ∧
        (out.2 = file_index.map (fun _ => -1) ∧ out.1 = [] ∨
          ∃ j : Nat, out.2 = file_index.map (fun _ => (j : Int)) ∧
            ∃ f, files[j]? = some f ∧ f.Overlaps ucmp b e = true)
      else files = [] ∧ out = (inputs, file_index)) ∧
    (let out := vs.GetOverlappingInputs 0 (some begin) (some end_) inputs hint_index file_index true
      if 0 < vs.num_non_empty_levels_ then
        ∃ lo hi, ClosedCover ucmp (vs.LevelFiles 0) b e lo hi ∧
          (∀ c d, ClosedCover ucmp (vs.LevelFiles 0) b e c d → ucmp c lo ≠ .gt ∧ ucmp hi d ≠ .gt) ∧
          out.1 = (vs.LevelFiles 0).filter (FileMetaData.Overlaps ucmp lo hi)
      else vs.LevelFiles 0 = [] ∧ out = (inputs, file_index)) ∧
    (∀ hint : Int, (hint = -1 ∨ ∃ j : Nat, hint = j ∧ ∃ f, files[j]? = some f ∧
        f.Within ucmp b e = true) →
      let out := vs.GetCleanInputsWithinInterval level (some begin) (some end_) inputs hint file_index
      if level < vs.num_non_empty_levels_ then
        (∃ l r, CleanRun ucmp files b e l r ∧
            (∀ l' r', CleanRun ucmp files b e l' r' → l ≤ l' ∧ r' ≤ r) ∧
            out.1 = (files.drop l).take (r + 1 - l)) ∨
          ((∀ l r, ¬ CleanRun ucmp files b e l r) ∧ out.1 = [])
      else files = [] ∧ out = (inputs, file_index)) := by
  intro ucmp b e files
  have huser : UserSorted ucmp files := hsorted.user
  refine ⟨?_, ?_, fun hint hhint' => ?_⟩
  · -- above level 0: the binary search
    intro out
    split_ifs with hlt
    · have hout : out = _ := vs.GetOverlappingInputs_of_pos begin end_ inputs hint_index file_index
        hlt hlevel expand_range
      obtain ⟨h1, h2⟩ := vs.GetOverlappingInputsRangeBinarySearch_overlap huser b e [] hhint
        (file_index.map fun _ => -1)
      rw [List.nil_append] at h1
      rw [hout, h1, scanLevel_filter (by omega) b e _ (by omega)]
      refine ⟨rfl, rfl, ?_⟩
      rcases h2 with ⟨h2, hnil⟩ | ⟨j, hj, hf⟩
      · exact .inl ⟨h2, hnil⟩
      · exact .inr ⟨j, by rw [hj, Option.map_map]; rfl, hf⟩
    · exact ⟨vs.LevelFiles_of_le (not_lt.mp hlt),
        vs.GetOverlappingInputs_of_le begin end_ inputs hint_index file_index (not_lt.mp hlt) _⟩
  · -- level 0: the scan from `[b, e]`, which every closed cover holds
    intro out
    split_ifs with hpos
    · have hrefl : ∀ x, ucmp x x ≠ .gt := fun x => by
        rw [@Std.ReflCmp.compare_self _ ucmp _ x]
        decide
      have hmeasure : restartMeasure ucmp (vs.LevelFiles 0) b e < 2 * (vs.LevelFiles 0).length + 1 := by
        have := @restartMeasure_le ucmp (vs.LevelFiles 0) b e
        omega
      obtain ⟨lo, hi, hcov, hleast, hscan⟩ := scanLevel_expand b e (file_index.map fun _ => -1)
        (hrefl b) (hrefl e) (fun c d hcd => ⟨hcd.lo_le, hcd.le_hi⟩) hmeasure
      refine ⟨lo, hi, hcov, hleast, ?_⟩
      rw [show out = _ from vs.GetOverlappingInputs_zero begin end_ inputs hint_index file_index
        hpos true, hscan]
    · exact ⟨vs.LevelFiles_of_le (not_lt.mp hpos),
        vs.GetOverlappingInputs_of_le begin end_ inputs hint_index file_index (not_lt.mp hpos) _⟩
  · -- the clean run, from the binary search within the interval
    intro out
    split_ifs with hlt
    · have hout : out = _ := vs.GetCleanInputsWithinInterval_of_pos begin end_ inputs hint
        file_index hlt hlevel
      rw [hout]
      rcases vs.GetOverlappingInputsRangeBinarySearch_within huser b e [] hhint'
          (file_index.map fun _ => -1) with ⟨l, r, hrun, hmax, h⟩ | ⟨hnone, h⟩
      · exact .inl ⟨l, r, hrun, hmax, by rw [h, List.nil_append]⟩
      · exact .inr ⟨hnone, h⟩
    · exact ⟨vs.LevelFiles_of_le (not_lt.mp hlt),
        vs.GetCleanInputsWithinInterval_of_le begin end_ inputs hint file_index (not_lt.mp hlt)⟩

/-- two sorted files `[2, 3]`, `[4, 6]` on level 1 and one file `[1, 5]` on level 0, queried
with `[3, 4]` -/
theorem level_overlap_queries_two_levels :
    let key : UInt8 → InternalKey := fun c => ⟨[c, 0, 0, 0, 0, 0, 0, 0, 0]⟩
    let file : UInt8 → UInt8 → FileMetaData := fun a z =>
      { FileMetaData.new with smallest := key a, largest := key z }
    let vs : VersionStorageInfo :=
      ⟨InternalKeyComparator.bytewise, [[file 1 5], [file 2 3, file 4 6]], 2, by decide⟩
    let ucmp := vs.user_comparator_
    let b := (key 3).user_key
    let e := (key 4).user_key
    let files := vs.LevelFiles 1
    (0 < 1 ∧ LevelSorted vs.internal_comparator_ files ∧
      ((-1 : Int) = -1 ∨ ∃ j : Nat, (-1 : Int) = j ∧ ∃ f, files[j]? = some f ∧
        f.Overlaps ucmp b e = true)) ∧
    (let out := vs.GetOverlappingInputs 1 (some (key 3)) (some (key 4)) [] (-1) (some 0) true
      if 1 < vs.num_non_empty_levels_ then
        out.1 = files.filter (FileMetaData.Overlaps ucmp b e) ∧
        (VersionStorageInfo.scanLevel ucmp files 1 true ((some 0).map fun _ => -1)
          (2 * files.length + 1) (some b) (some e)).1 = out.1 ∧
        (out.2 = (some 0).map (fun _ => -1) ∧ out.1 = [] ∨
          ∃ j : Nat, out.2 = (some 0).map (fun _ => (j : Int)) ∧
            ∃ f, files[j]? = some f ∧ f.Overlaps ucmp b e = true)
      else files = [] ∧ out = ([], some 0)) ∧
    (let out := vs.GetOverlappingInputs 0 (some (key 3)) (some (key 4)) [] (-1) (some 0) true
      if 0 < vs.num_non_empty_levels_ then
        ∃ lo hi, ClosedCover ucmp (vs.LevelFiles 0) b e lo hi ∧
          (∀ c d, ClosedCover ucmp (vs.LevelFiles 0) b e c d → ucmp c lo ≠ .gt ∧ ucmp hi d ≠ .gt) ∧
          out.1 = (vs.LevelFiles 0).filter (FileMetaData.Overlaps ucmp lo hi)
      else vs.LevelFiles 0 = [] ∧ out = ([], some 0)) ∧
    (∀ hint : Int, (hint = -1 ∨ ∃ j : Nat, hint = j ∧ ∃ f, files[j]? = some f ∧
        f.Within ucmp b e = true) →
      let out := vs.GetCleanInputsWithinInterval 1 (some (key 3)) (some (key 4)) [] hint (some 0)
      if 1 < vs.num_non_empty_levels_ then
        (∃ l r, CleanRun ucmp files b e l r ∧
            (∀ l' r', CleanRun ucmp files b e l' r' → l ≤ l' ∧ r' ≤ r) ∧
            out.1 = (files.drop l).take (r + 1 - l)) ∨
          ((∀ l r, ¬ CleanRun ucmp files b e l r) ∧ out.1 = [])
      else files = [] ∧ out = ([], some 0)) := by
  intro key file vs ucmp b e files
  have hsorted : LevelSorted vs.internal_comparator_ files := ⟨by decide, by decide⟩
  exact ⟨⟨by decide, hsorted, .inl rfl⟩,
    @level_overlap_queries vs (inferInstanceAs (Std.TransCmp BytewiseComparator.Compare)) 1
      (by decide) hsorted (key 3) (key 4) [] (some 0) (-1) (.inl rfl) true⟩

/-- on level 1 of a version whose files are all on level 0, `GetOverlappingInputs` leaves in
`*inputs` the file it held on entry, and `*file_index` as it was, though level 1 holds no file -/
theorem level_overlap_keeps_stale_inputs :
    let key : UInt8 → InternalKey := fun c => ⟨[c, 0, 0, 0, 0, 0, 0, 0, 0]⟩
    let f : FileMetaData := { FileMetaData.new with smallest := key 1, largest := key 5 }
    let vs : VersionStorageInfo := ⟨InternalKeyComparator.bytewise, [[f]], 1, by decide⟩
    LevelSorted vs.internal_comparator_ (vs.LevelFiles 1) ∧
      vs.GetOverlappingInputs 1 (some (key 3)) (some (key 4)) [f] (-1) (some 7) true =
        ([f], some 7) ∧
      (vs.LevelFiles 1).filter
        (FileMetaData.Overlaps vs.user_comparator_ (key 3).user_key (key 4).user_key) = [] := by
  intro key f vs
  exact ⟨⟨by decide, by decide⟩, by decide, by decide⟩

end RocksDB
