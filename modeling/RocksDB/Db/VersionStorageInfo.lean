import RocksDB.Db.VersionEdit

/-!
# db/version_set.cc: the files of a level that a key range selects

`VersionStorageInfo` keeps the files of each level, each with the internal keys of its range.  A
compaction picks its inputs by the user keys of those ranges:

* `GetOverlappingInputs level begin end`  the files whose range meets `[begin, end]`: above
                level 0 with both ends given, by `GetOverlappingInputsRangeBinarySearch`; otherwise
                by a scan of the level (`scanPass`, `scanLevel`) which, on level 0 with
                `expand_range`, widens the range to each file it takes that sticks out of it, and
                starts over;
* `GetOverlappingInputsRangeBinarySearch`  a binary search for one file in the range
                (`binarySearchLoop`), or the hint, then `ExtendFileRangeOverlappingInterval` outward
                from it; with `within_interval`, `ExtendFileRangeWithinInterval`, which then shrinks
                both ends past the files that stick out of the range or share a boundary key with
                their neighbour (`shrinkLeft`, `shrinkRight`);
* `GetCleanInputsWithinInterval`  the binary search with `within_interval`.

Both queries return at once on a level at or beyond `num_non_empty_levels_`, leaving `*inputs` and
`*file_index` as they were; otherwise they clear `*inputs` and set `*file_index` to `-1` first.

The `while` and `for` loops of the code are recursions over an explicit fuel, or over the index
(`extendBackward`) or the files (`scanPass`).  The fuel given here is enough: `LevelOverlap` shows
each query's result, the loops ending before it runs out.
-/

namespace RocksDB

/-- `InternalKey::user_key()` -/
def InternalKey.user_key (k : InternalKey) : List UInt8 := ExtractUserKey k.rep_

namespace FileMetaData

instance : Inhabited FileMetaData := ⟨FileMetaData.new⟩

/-- `ExtractUserKey(f->smallest_key)` -/
def file_start (f : FileMetaData) : List UInt8 := f.smallest.user_key

/-- `ExtractUserKey(f->largest_key)` -/
def file_limit (f : FileMetaData) : List UInt8 := f.largest.user_key

end FileMetaData

/-- the loop of `UpdateNumNonEmptyLevels()` over the levels below `i`, from the top down: one more
than the first level with files, `0` where there is none -/
def numNonEmptyLevels (files_ : List (List FileMetaData)) : Nat → Nat
  | 0 => 0
  | i + 1 => if (files_.getD i []).length ≠ 0 then i + 1 else numNonEmptyLevels files_ i

/-- `UpdateNumNonEmptyLevels()` -/
def UpdateNumNonEmptyLevels (files_ : List (List FileMetaData)) : Nat :=
  numNonEmptyLevels files_ files_.length

/-- `VersionStorageInfo`, as far as the level queries read it: the comparator, the files of each
level (`files_`, whose keys `level_files_brief_` holds too), and `num_non_empty_levels_` as
`UpdateNumNonEmptyLevels()` leaves it -/
structure VersionStorageInfo where
  internal_comparator_ : InternalKeyComparator
  files_ : List (List FileMetaData)
  num_non_empty_levels_ : Nat
  num_non_empty_levels_eq : num_non_empty_levels_ = UpdateNumNonEmptyLevels files_

namespace VersionStorageInfo

/-- `user_comparator_`: the user comparator of `internal_comparator_` -/
def user_comparator_ (vs : VersionStorageInfo) : List UInt8 → List UInt8 → Ordering :=
  vs.internal_comparator_.user_comparator_

/-- `files_[level]`, the files `level_files_brief_[level]` holds the keys of -/
def LevelFiles (vs : VersionStorageInfo) (level : Nat) : List FileMetaData :=
  vs.files_.getD level []

/-! ## The loops -/

section Loops

variable (ucmp : List UInt8 → List UInt8 → Ordering) (files : List FileMetaData)

/-- the test that moves `min` past `mid`: the file ends before `user_begin`, or, within the
interval, starts before it -/
def searchBefore (user_begin : List UInt8) (within_interval : Bool) (f : FileMetaData) : Bool :=
  (!within_interval && ucmp f.file_limit user_begin == .lt) ||
    (within_interval && ucmp f.file_start user_begin == .lt)

/-- the test that moves `max` before `mid`: the file starts after `user_end`, or, within the
interval, ends after it -/
def searchAfter (user_end : List UInt8) (within_interval : Bool) (f : FileMetaData) : Bool :=
  (!within_interval && ucmp user_end f.file_start == .lt) ||
    (within_interval && ucmp user_end f.file_limit == .lt)

@[simp] theorem searchBefore_false (user_begin : List UInt8) (f : FileMetaData) :
    searchBefore ucmp user_begin false f = (ucmp f.file_limit user_begin == .lt) := by
  simp [searchBefore]

@[simp] theorem searchBefore_true (user_begin : List UInt8) (f : FileMetaData) :
    searchBefore ucmp user_begin true f = (ucmp f.file_start user_begin == .lt) := by
  simp [searchBefore]

@[simp] theorem searchAfter_false (user_end : List UInt8) (f : FileMetaData) :
    searchAfter ucmp user_end false f = (ucmp user_end f.file_start == .lt) := by
  simp [searchAfter]

@[simp] theorem searchAfter_true (user_end : List UInt8) (f : FileMetaData) :
    searchAfter ucmp user_end true f = (ucmp user_end f.file_limit == .lt) := by
  simp [searchAfter]

/-- the loop `while (!foundOverlap && min <= max)` of `GetOverlappingInputsRangeBinarySearch`:
the `mid` where it finds a file, `none` where `min` passes `max` -/
def binarySearchLoop (user_begin user_end : List UInt8) (within_interval : Bool) :
    Nat → Int → Int → Option Int
  | 0, _, _ => none
  | fuel + 1, min, max =>
    if min ≤ max then
      let mid := (min + max) / 2
      let f := files.getD mid.toNat default
      if searchBefore ucmp user_begin within_interval f then
        binarySearchLoop user_begin user_end within_interval fuel (mid + 1) max
      else if searchAfter ucmp user_end within_interval f then
        binarySearchLoop user_begin user_end within_interval fuel min (mid - 1)
      else some mid
    else none

/-- the backward loop of `ExtendFileRangeOverlappingInterval`, from index `i` down to `0`:
`start_index` lowered to each file that ends at or after `user_begin`, until one does not -/
def extendBackward (user_begin : List UInt8) : Nat → Int → Int
  | 0, start_index =>
    if ucmp (files.getD 0 default).file_limit user_begin != .lt then 0 else start_index
  | i + 1, start_index =>
    if ucmp (files.getD (i + 1) default).file_limit user_begin != .lt then
      extendBackward user_begin i (i + 1)
    else start_index

/-- the forward loop of `ExtendFileRangeOverlappingInterval`, from index `i` up to the last file:
`end_index` raised to each file that starts at or before `user_end`, until one does not -/
def extendForward (user_end : List UInt8) : Nat → Nat → Int → Int
  | 0, _, end_index => end_index
  | fuel + 1, i, end_index =>
    if i < files.length ∧ ucmp (files.getD i default).file_start user_end != .gt then
      extendForward user_end fuel (i + 1) i
    else end_index

/-- the loop "shrink from left to right" of `ExtendFileRangeWithinInterval` -/
def shrinkLeft (user_begin : List UInt8) (right : Int) : Nat → Int → Int
  | 0, left => left
  | fuel + 1, left =>
    if left ≤ right then
      let first_key_in_range := (files.getD left.toNat default).file_start
      if ucmp first_key_in_range user_begin == .lt then
        shrinkLeft user_begin right fuel (left + 1)
      -- the first user key in range is the previous file's last key
      else if 0 < left ∧
          ucmp first_key_in_range (files.getD (left - 1).toNat default).file_limit == .eq then
        shrinkLeft user_begin right fuel (left + 1)
      else left
    else left

/-- the loop "shrink from right to left" of `ExtendFileRangeWithinInterval` -/
def shrinkRight (user_end : List UInt8) (left : Int) : Nat → Int → Int
  | 0, right => right
  | fuel + 1, right =>
    if left ≤ right then
      let last_key_in_range := (files.getD right.toNat default).file_limit
      if ucmp last_key_in_range user_end == .gt then
        shrinkRight user_end left fuel (right - 1)
      -- the last user key in range is the next file's first key
      else if right < (files.length : Int) - 1 ∧
          ucmp last_key_in_range (files.getD (right + 1).toNat default).file_start == .eq then
        shrinkRight user_end left fuel (right - 1)
      else right
    else right

/-- how a pass of the scan of `GetOverlappingInputs` ends: at the end of the level, with
`*inputs` and `*file_index`, or where a level-0 file widens the range to `user_begin`, `user_end` -/
inductive ScanEnd
  | done (inputs : List FileMetaData) (file_index : Option Int)
  | restart (user_begin user_end : Option (List UInt8))

/-- one pass of the `for` loop of `GetOverlappingInputs`, over the files from index `i`, with the
ends of the range `none` where `begin` or `end` is `nullptr` -/
def scanPass (level : Nat) (expand_range : Bool) (user_begin user_end : Option (List UInt8)) :
    List FileMetaData → Nat → List FileMetaData → Option Int → ScanEnd
  | [], _, inputs, file_index => .done inputs file_index
  | f :: fs, i, inputs, file_index =>
    let file_start := f.file_start
    let file_limit := f.file_limit
    -- "f" is completely before specified range; skip it
    if user_begin.any (ucmp file_limit · == .lt) then
      scanPass level expand_range user_begin user_end fs (i + 1) inputs file_index
    -- "f" is completely after specified range; skip it
    else if user_end.any (ucmp file_start · == .gt) then
      scanPass level expand_range user_begin user_end fs (i + 1) inputs file_index
    else if level = 0 ∧ expand_range then
      -- a level-0 file that sticks out of the range widens it, and the search restarts
      if user_begin.any (ucmp file_start · == .lt) then .restart (some file_start) user_end
      else if user_end.any (ucmp file_limit · == .gt) then .restart user_begin (some file_limit)
      else scanPass level expand_range user_begin user_end fs (i + 1) (inputs ++ [f]) file_index
    else
      scanPass level expand_range user_begin user_end fs (i + 1) (inputs ++ [f])
        (file_index.map fun _ => i)

/-- the scan of `GetOverlappingInputs`: passes over the level from index `0`, a restart clearing
`*inputs` -/
def scanLevel (level : Nat) (expand_range : Bool) (file_index : Option Int) :
    Nat → Option (List UInt8) → Option (List UInt8) → List FileMetaData × Option Int
  | 0, _, _ => ([], file_index)
  | fuel + 1, user_begin, user_end =>
    match scanPass ucmp level expand_range user_begin user_end files 0 [] file_index with
    | .done inputs file_index => (inputs, file_index)
    | .restart user_begin user_end => scanLevel level expand_range file_index fuel user_begin user_end

end Loops

/-! ## The queries -/

variable (vs : VersionStorageInfo)

/-- `ExtendFileRangeOverlappingInterval(level, user_begin, user_end, mid_index, ...)`:
`(*start_index, *end_index)` -/
def ExtendFileRangeOverlappingInterval (level : Nat) (user_begin user_end : List UInt8)
    (mid_index : Nat) : Int × Int :=
  let files := vs.LevelFiles level
  (extendBackward vs.user_comparator_ files user_begin mid_index (mid_index + 1),
    extendForward vs.user_comparator_ files user_end files.length (mid_index + 1) mid_index)

/-- `ExtendFileRangeWithinInterval(level, user_begin, user_end, mid_index, ...)`:
`(*start_index, *end_index)` -/
def ExtendFileRangeWithinInterval (level : Nat) (user_begin user_end : List UInt8)
    (mid_index : Nat) : Int × Int :=
  let files := vs.LevelFiles level
  let range := vs.ExtendFileRangeOverlappingInterval level user_begin user_end mid_index
  let left := shrinkLeft vs.user_comparator_ files user_begin range.2 (files.length + 1) range.1
  let right := shrinkRight vs.user_comparator_ files user_end left (files.length + 1) range.2
  (left, right)

/-- the `mid` of `GetOverlappingInputsRangeBinarySearch` where `foundOverlap` is set: the hint,
which names a file in the range and skips the binary search, or where the binary search finds
one; `none` where it finds none -/
def searchMid (level : Nat) (user_begin user_end : List UInt8) (hint_index : Int)
    (within_interval : Bool) : Option Int :=
  let files := vs.LevelFiles level
  if hint_index ≠ -1 then some hint_index
  else binarySearchLoop vs.user_comparator_ files user_begin user_end within_interval
    (files.length + 1) 0 (files.length - 1)

/-- `GetOverlappingInputsRangeBinarySearch(level, user_begin, user_end, inputs, hint_index,
file_index, within_interval)`: `*inputs` and `*file_index` after the call, `file_index` being
`none` for `nullptr` -/
def GetOverlappingInputsRangeBinarySearch (level : Nat) (user_begin user_end : List UInt8)
    (inputs : List FileMetaData) (hint_index : Int) (file_index : Option Int)
    (within_interval : Bool) : List FileMetaData × Option Int :=
  match vs.searchMid level user_begin user_end hint_index within_interval with
  -- if there were no overlapping files, return immediately
  | none => (inputs, file_index)
  | some mid =>
    let range := if within_interval then
        vs.ExtendFileRangeWithinInterval level user_begin user_end mid.toNat
      else vs.ExtendFileRangeOverlappingInterval level user_begin user_end mid.toNat
    -- the files from `start_index` to `end_index`
    (inputs ++ ((vs.LevelFiles level).drop range.1.toNat).take (range.2 + 1 - range.1).toNat,
      file_index.map fun _ => mid)

/-- `GetOverlappingInputs(level, begin, end, inputs, hint_index, file_index, expand_range)`, with
`begin`, `end` `none` for `nullptr` -/
def GetOverlappingInputs (level : Nat) (begin end_ : Option InternalKey)
    (inputs : List FileMetaData) (hint_index : Int) (file_index : Option Int)
    (expand_range : Bool) : List FileMetaData × Option Int :=
  if vs.num_non_empty_levels_ ≤ level then
    -- this level is empty, no overlapping inputs
    (inputs, file_index)
  else
    let files := vs.LevelFiles level
    let file_index := file_index.map fun _ => -1
    match begin, end_ with
    | some begin, some end_ =>
      if 0 < level then
        vs.GetOverlappingInputsRangeBinarySearch level begin.user_key end_.user_key [] hint_index
          file_index false
      else
        scanLevel vs.user_comparator_ files level expand_range file_index
          (2 * files.length + 1) (some begin.user_key) (some end_.user_key)
    | begin, end_ =>
      scanLevel vs.user_comparator_ files level expand_range file_index (2 * files.length + 1)
        (begin.map InternalKey.user_key) (end_.map InternalKey.user_key)

/-- `GetCleanInputsWithinInterval(level, begin, end, inputs, hint_index, file_index)` -/
def GetCleanInputsWithinInterval (level : Nat) (begin end_ : Option InternalKey)
    (inputs : List FileMetaData) (hint_index : Int) (file_index : Option Int) :
    List FileMetaData × Option Int :=
  if vs.num_non_empty_levels_ ≤ level then
    -- this level is empty, no inputs within range
    (inputs, file_index)
  else
    let file_index := file_index.map fun _ => -1
    match begin, end_ with
    | some begin, some end_ =>
      if 0 < level then
        vs.GetOverlappingInputsRangeBinarySearch level begin.user_key end_.user_key [] hint_index
          file_index true
      else ([], file_index)
    | _, _ => ([], file_index)

end VersionStorageInfo

end RocksDB
