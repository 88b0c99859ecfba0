import RocksDB.Db.VersionStorageInfo
import RocksDB.Lib.SortedMerge
import RocksDB.Lib.Lists

/-!
# db/version_builder.cc: the files of a version after a run of edits

`VersionBuilder::Rep` collects, level by level, the file numbers a run of edits deletes and the
files it adds, over a base version; `SaveTo` then writes each level of the new version.

* `NewestFirstBySeqNo`, `BySmallestKey`, `FileComparator`   the order of level 0 (greater largest,
                then smallest sequence number first) and of the other levels (smaller smallest
                internal key first), each broken by the file number;
* `LevelState`  `deleted_files`, the `unordered_set` of deleted numbers, and `added_files`, the
                `unordered_map` of added files, each filed under its own number (`AddedFiles`);
* `Apply`       the edit's deletions (`deleteFile`: the number marked, an added file of that
                number dropped), then its additions (`addFile`: the number unmarked, the file
                filed);
* `SaveTo`      per level, the added files sorted, then merged into the base files at the
                places `upper_bound` finds (`saveLevel`), `MaybeAddFile` leaving out each file
                whose number is marked.

`applyEdit` is what an edit means for the file sets of the levels: on each level the deleted
numbers removed, then the added files appended.  Where no number is added twice at a level, nor
added at a level whose base holds it, the builder stands for those sets throughout (`LevelHolds`,
kept by `deleteFile` and `addFile`), and `SaveTo` writes each of them sorted, each file once
(`save_to_level_sets`).

`CheckConsistency` and `CheckConsistencyForDeletes` run only in debug builds or under
`force_consistency_checks`, where they abort; `UnrefFile` and `RemoveCurrentStats` keep reference
counts and statistics.  None of them is modelled.
-/

namespace RocksDB

/-- `VersionStorageInfo::num_levels()`: one list of files per level -/
def VersionStorageInfo.num_levels (vs : VersionStorageInfo) : Nat := vs.files_.length

/-- `NewestFirstBySeqNo` -/
def NewestFirstBySeqNo (a b : FileMetaData) : Bool :=
  if a.largest_seqno ≠ b.largest_seqno then a.largest_seqno > b.largest_seqno
  else if a.smallest_seqno ≠ b.smallest_seqno then a.smallest_seqno > b.smallest_seqno
  -- Break ties by file number
  else a.fd.GetNumber > b.fd.GetNumber

/-- `BySmallestKey` -/
def BySmallestKey (a b : FileMetaData) (cmp : InternalKeyComparator) : Bool :=
  let r := cmp.Compare a.smallest.Encode b.smallest.Encode
  if r ≠ .eq then r == .lt
  -- Break ties by file number
  else a.fd.GetNumber < b.fd.GetNumber

namespace VersionBuilder

/-- `FileComparator::SortMethod` -/
inductive SortMethod where
  | kLevel0
  | kLevelNon0
  deriving DecidableEq, Repr

/-- `FileComparator`; `internal_comparator` is read by `kLevelNon0` only -/
structure FileComparator where
  sort_method : SortMethod
  internal_comparator : InternalKeyComparator

/-- `FileComparator::operator()` -/
def FileComparator.call (c : FileComparator) (f1 f2 : FileMetaData) : Bool :=
  match c.sort_method with
  | .kLevel0 => NewestFirstBySeqNo f1 f2
  | .kLevelNon0 => BySmallestKey f1 f2 c.internal_comparator

/-- `added_files`, the `unordered_map` from file number to file: `Apply` files each file under its
own number, so the map is its files, no number twice -/
structure AddedFiles where
  files : List FileMetaData
  nodup : (files.map fun f => f.fd.GetNumber).Nodup

namespace AddedFiles

def empty : AddedFiles := ⟨[], List.nodup_nil⟩

/-- `find(number)` -/
def find (m : AddedFiles) (number : UInt64) : Option FileMetaData :=
  m.files.find? fun f => f.fd.GetNumber == number

/-- `erase(number)` -/
def erase (m : AddedFiles) (number : UInt64) : AddedFiles :=
  ⟨m.files.filter fun f => f.fd.GetNumber != number,
    (List.filter_sublist.map _).nodup m.nodup⟩

theorem files_erase (m : AddedFiles) (number : UInt64) :
    (m.erase number).files = m.files.filter fun f => f.fd.GetNumber != number := rfl

/-- `added_files[f->fd.GetNumber()] = f`: `f` in place of a file of its number -/
def set (m : AddedFiles) (f : FileMetaData) : AddedFiles :=
  ⟨(m.erase f.fd.GetNumber).files ++ [f], by
    rw [List.map_append, List.nodup_append]
    refine ⟨(m.erase f.fd.GetNumber).nodup, List.nodup_singleton _, fun a ha b hb => ?_⟩
    obtain ⟨g, hg, rfl⟩ := List.mem_map.mp ha
    rw [List.mem_singleton.mp hb]
    simpa using (List.mem_filter.mp hg).2⟩

theorem files_set (m : AddedFiles) (f : FileMetaData) :
    (m.set f).files = (m.files.filter fun g => g.fd.GetNumber != f.fd.GetNumber) ++ [f] := rfl

/-- a number that `find` misses has no file -/
theorem filter_eq_of_find_eq_none {m : AddedFiles} {number : UInt64} (h : m.find number = none) :
    (m.files.filter fun f => f.fd.GetNumber != number) = m.files :=
  List.filter_eq_self.mpr fun f hf => by simpa using List.find?_eq_none.mp h f hf

end AddedFiles

/-- `LevelState` -/
structure LevelState where
  deleted_files : Finset UInt64
  added_files : AddedFiles

namespace LevelState

def empty : LevelState := ⟨∅, .empty⟩

/-- what `Apply` does at the level of one deleted file -/
def deleteFile (s : LevelState) (number : UInt64) : LevelState where
  deleted_files := insert number s.deleted_files
  added_files :=
    match s.added_files.find number with
    | some _ => s.added_files.erase number
    | none => s.added_files

/-- what `Apply` does at the level of one new file -/
def addFile (s : LevelState) (f : FileMetaData) : LevelState where
  deleted_files := s.deleted_files.erase f.fd.GetNumber
  added_files := s.added_files.set f

/-- `MaybeAddFile(vstorage, level, f)`: `vstorage->AddFile` appends `f` to the level, unless its
number is deleted -/
def MaybeAddFile (s : LevelState) (files : List FileMetaData) (f : FileMetaData) :
    List FileMetaData :=
  if f.fd.GetNumber ∈ s.deleted_files then files else files ++ [f]

end LevelState

end VersionBuilder

/-- `VersionBuilder::Rep` over `base_vstorage_`; `env_options_`, `info_log_` and `table_cache_`
are not read by `Apply` and `SaveTo` -/
structure VersionBuilder where
  base_vstorage_ : VersionStorageInfo
  levels_ : List VersionBuilder.LevelState
  level_zero_cmp_ : VersionBuilder.FileComparator
  level_nonzero_cmp_ : VersionBuilder.FileComparator

namespace VersionBuilder

/-- `Rep(env_options, info_log, table_cache, base_vstorage)` -/
def new (base_vstorage : VersionStorageInfo) : VersionBuilder where
  base_vstorage_ := base_vstorage
  levels_ := List.replicate base_vstorage.num_levels .empty
  -- the code leaves `level_zero_cmp_.internal_comparator` unset, and nothing reads it
  level_zero_cmp_ := ⟨.kLevel0, base_vstorage.internal_comparator_⟩
  level_nonzero_cmp_ := ⟨.kLevelNon0, base_vstorage.internal_comparator_⟩

variable (b : VersionBuilder)

/-- `levels_[level]` changed by `f`, at the `int` level of an edit: a level outside
`[0, num_levels)` is out of bounds -/
def modifyLevel (level : Int32) (f : LevelState → LevelState) : Option VersionBuilder :=
  if 0 ≤ level.toInt ∧ level.toInt.toNat < b.levels_.length then
    some { b with levels_ := b.levels_.modify level.toInt.toNat f }
  else none

def deleteFile (del_file : Int32 × UInt64) : Option VersionBuilder :=
  b.modifyLevel del_file.1 (·.deleteFile del_file.2)

def addFile (new_file : Int32 × FileMetaData) : Option VersionBuilder :=
  b.modifyLevel new_file.1 (·.addFile new_file.2)

/-- `Apply(edit)`: the deleted files in the order of their set, then the new files -/
def Apply (edit : VersionEdit) : Option VersionBuilder := do
  let b ← edit.deleted_files_.toList.foldlM deleteFile b
  edit.new_files_.foldlM addFile b

/-- `(level == 0) ? level_zero_cmp_ : level_nonzero_cmp_` -/
def levelCmp (level : Nat) : FileComparator :=
  if level = 0 then b.level_zero_cmp_ else b.level_nonzero_cmp_

/-- the loop of `SaveTo` over the sorted added files of a level, `base_iter` walking its base
files: before each added file the base files `upper_bound` puts before it, then the file; the
base files left over last -/
def saveLevel (cmp : FileComparator) (s : LevelState) :
    List FileMetaData → List FileMetaData → List FileMetaData → List FileMetaData
  | base_iter, [], files => base_iter.foldl s.MaybeAddFile files
  | base_iter, added :: rest, files =>
    let bpos := SortedMerge.upperBound cmp.call added base_iter
    let files := (base_iter.take bpos).foldl s.MaybeAddFile files
    saveLevel cmp s (base_iter.drop bpos) rest (s.MaybeAddFile files added)

/-- `SaveTo(vstorage)` into a version with no files yet: the files of each level; `std::sort` of
the added files is insertion sort by "not after" -/
def SaveTo : List (List FileMetaData) :=
  (List.range b.base_vstorage_.num_levels).map fun level =>
    let cmp := b.levelCmp level
    let s := b.levels_.getD level .empty
    -- Sort added files for the level.
    let added_files := s.added_files.files.insertionSort fun f1 f2 => cmp.call f2 f1 = false
    saveLevel cmp s (b.base_vstorage_.LevelFiles level) added_files []

/-! ## The file sets a run of edits describes -/

/-- the level sets with the files of one number removed from one level -/
def deleteFromLevels (levels : List (List FileMetaData)) (del_file : Int32 × UInt64) :
    List (List FileMetaData) :=
  levels.modify del_file.1.toInt.toNat fun files => files.filter fun f => f.fd.GetNumber != del_file.2

/-- the level sets with one file appended to one level -/
def addToLevels (levels : List (List FileMetaData)) (new_file : Int32 × FileMetaData) :
    List (List FileMetaData) :=
  levels.modify new_file.1.toInt.toNat (· ++ [new_file.2])

/-- the level sets after an edit: its deletions, then its additions -/
def applyEdit (levels : List (List FileMetaData)) (edit : VersionEdit) : List (List FileMetaData) :=
  edit.new_files_.foldl addToLevels (edit.deleted_files_.toList.foldl deleteFromLevels levels)

/-- an edit's level names one of the `n` levels of the version -/
def LevelOk (n : Nat) (level : Int32) : Prop := 0 ≤ level.toInt ∧ level.toInt.toNat < n

instance (n : Nat) (level : Int32) : Decidable (LevelOk n level) :=
  inferInstanceAs (Decidable (_ ∧ _))

/-- every level an edit names is one of the `n` levels of the version -/
def NamesLevels (n : Nat) (edit : VersionEdit) : Prop :=
  (∀ p ∈ edit.deleted_files_.toList, LevelOk n p.1) ∧ ∀ p ∈ edit.new_files_, LevelOk n p.1

-- by the two lists: the instance search would rather go through every `Int32 × UInt64`
instance (n : Nat) (edit : VersionEdit) : Decidable (NamesLevels n edit) :=
  @instDecidableAnd _ _ (List.decidableBAll _ _) (List.decidableBAll _ _)

/-- the files a list of new files adds at `level` -/
def addedAt (level : Nat) (new_files : List (Int32 × FileMetaData)) : List FileMetaData :=
  (new_files.filter fun p => p.1.toInt.toNat == level).map Prod.snd

/-! ## The two orders -/

section Orders

open SortedMerge

/-- the key `NewestFirstBySeqNo` orders by, the greater first -/
def newestFirstKey (f : FileMetaData) : (Lex (ℕ × Lex (ℕ × ℕ)))ᵒᵈ :=
  OrderDual.toDual
    (toLex (f.largest_seqno.toNat, toLex (f.smallest_seqno.toNat, f.fd.GetNumber.toNat)))

theorem NewestFirstBySeqNo_eq (a b : FileMetaData) :
    NewestFirstBySeqNo a b = decide (newestFirstKey a < newestFirstKey b) := by
  unfold NewestFirstBySeqNo newestFirstKey
  simp only [OrderDual.toDual_lt_toDual, Prod.Lex.toLex_lt_toLex, ne_eq, gt_iff_lt,
    UInt64.lt_iff_toNat_lt, ← UInt64.toNat_inj]
  split_ifs <;> simp_all <;> omega

/-- `BySmallestKey` as one three-way comparison: the smallest keys, then the file numbers -/
theorem BySmallestKey_eq (icmp : InternalKeyComparator) (a b : FileMetaData) :
    BySmallestKey a b icmp =
      (compareLex (fun f g : FileMetaData => icmp.Compare f.smallest.Encode g.smallest.Encode)
        (compareOn fun f : FileMetaData => f.fd.GetNumber.toNat) a b == .lt) := by
  unfold BySmallestKey compareLex compareOn
  cases hr : icmp.Compare a.smallest.Encode b.smallest.Encode
  · simp [hr, Ordering.then]
  · -- the smallest keys tie: the file numbers decide
    have hc : (compare a.fd.GetNumber.toNat b.fd.GetNumber.toNat == .lt) =
        decide (a.fd.GetNumber.toNat < b.fd.GetNumber.toNat) := by
      rw [Bool.eq_iff_iff, beq_iff_eq, decide_eq_true_iff, Nat.compare_eq_lt]
    simp [hr, Ordering.then, hc, UInt64.lt_iff_toNat_lt]
  · simp [hr, Ordering.then]

theorem sortOrder_NewestFirstBySeqNo : SortOrder NewestFirstBySeqNo fun f => f.fd.GetNumber := by
  rw [show NewestFirstBySeqNo = fun a b => decide (newestFirstKey a < newestFirstKey b) from
    funext₂ NewestFirstBySeqNo_eq]
  refine SortOrder.of_key newestFirstKey fun a b h => ?_
  simp only [newestFirstKey, OrderDual.toDual_inj, toLex_inj, Prod.mk.injEq] at h
  exact UInt64.toNat_inj.mp h.2.2

theorem sortOrder_BySmallestKey (icmp : InternalKeyComparator)
    [Std.TransCmp icmp.user_comparator_] :
    SortOrder (fun a b => BySmallestKey a b icmp) fun f => f.fd.GetNumber := by
  have := icmp.transCmp_Compare
  have := Std.TransCmp.comap icmp.Compare fun f : FileMetaData => f.smallest.Encode
  rw [show (fun a b => BySmallestKey a b icmp) = _ from funext₂ (BySmallestKey_eq icmp)]
  refine SortOrder.of_transCmp fun a b h => ?_
  simp only [compareLex, compareOn, Ordering.then_eq_eq, compare_eq_iff_eq] at h
  exact UInt64.toNat_inj.mp h.2

/-- both orders of `FileComparator` are strict weak orders that tell file numbers apart -/
theorem FileComparator.sortOrder (c : FileComparator)
    [Std.TransCmp c.internal_comparator.user_comparator_] :
    SortOrder c.call fun f => f.fd.GetNumber := by
  rcases c with ⟨_ | _, icmp⟩
  · exact sortOrder_NewestFirstBySeqNo
  · exact sortOrder_BySmallestKey icmp

theorem sortOrder_levelCmp (base : VersionStorageInfo)
    [Std.TransCmp base.internal_comparator_.user_comparator_] (level : Nat) :
    SortOrder ((new base).levelCmp level).call fun f => f.fd.GetNumber := by
  -- both comparators of a new builder carry the base version's comparator
  have hcmp : Std.TransCmp base.internal_comparator_.user_comparator_ := inferInstance
  unfold levelCmp
  split
  · exact @FileComparator.sortOrder _ hcmp
  · exact @FileComparator.sortOrder _ hcmp

end Orders

/-! ## The loops of `Apply` and `SaveTo` at one level -/

namespace LevelState

theorem foldl_MaybeAddFile (s : LevelState) (xs files : List FileMetaData) :
    xs.foldl s.MaybeAddFile files =
      files ++ xs.filter fun f => f.fd.GetNumber ∉ s.deleted_files := by
  induction xs generalizing files with
  | nil => simp
  | cons x xs ih =>
    rw [List.foldl_cons, ih, MaybeAddFile, List.filter_cons]
    by_cases hx : x.fd.GetNumber ∈ s.deleted_files <;> simp [hx]

theorem added_deleteFile (s : LevelState) (number : UInt64) :
    (s.deleteFile number).added_files.files =
      s.added_files.files.filter fun f => f.fd.GetNumber != number := by
  cases h : s.added_files.find number with
  | some _ => simp only [deleteFile, h, AddedFiles.files_erase]
  | none =>
    simp only [deleteFile, h]
    exact (AddedFiles.filter_eq_of_find_eq_none h).symm

end LevelState

/-- the loop of `SaveTo` is the merge by `upper_bound`, without the deleted files -/
theorem saveLevel_eq (cmp : FileComparator) (s : LevelState) (base added files : List FileMetaData) :
    saveLevel cmp s base added files =
      files ++ (SortedMerge.mergeByUpperBound cmp.call base added).filter
        fun f => f.fd.GetNumber ∉ s.deleted_files := by
  induction added generalizing base files with
  | nil => rw [saveLevel, s.foldl_MaybeAddFile, SortedMerge.mergeByUpperBound]
  | cons a added ih =>
    rw [saveLevel, ih, s.foldl_MaybeAddFile, SortedMerge.mergeByUpperBound,
      LevelState.MaybeAddFile]
    by_cases ha : a.fd.GetNumber ∈ s.deleted_files <;> simp [ha, List.filter_append]

/-- the files `SaveTo` writes at a level of the version -/
theorem getD_SaveTo (b : VersionBuilder) {level : Nat} (h : level < b.base_vstorage_.num_levels) :
    b.SaveTo.getD level [] = saveLevel (b.levelCmp level) (b.levels_.getD level .empty)
      (b.base_vstorage_.LevelFiles level)
      ((b.levels_.getD level .empty).added_files.files.insertionSort
        fun f1 f2 => (b.levelCmp level).call f2 f1 = false) [] := by
  rw [SaveTo, List.getD_eq_getElem?_getD, List.getElem?_map, List.getElem?_range h]
  rfl

/-! ## The builder stands for the level sets -/

/-- a level of the builder stands for the file set `files` over the level's base files, with the
files `pending` still to be added there: the base files not deleted and the added files make up
the set, no added file is marked deleted, and no number repeats among the base files, the added
files and the pending ones -/
structure LevelHolds (base_files : List FileMetaData) (s : LevelState)
    (files pending : List FileMetaData) : Prop where
  perm : files.Perm
    (base_files.filter (fun f => f.fd.GetNumber ∉ s.deleted_files) ++ s.added_files.files)
  disjoint : ∀ f ∈ s.added_files.files, f.fd.GetNumber ∉ s.deleted_files
  fresh : ((base_files ++ s.added_files.files ++ pending).map fun f => f.fd.GetNumber).Nodup

namespace LevelHolds

variable {base_files files pending : List FileMetaData} {s : LevelState}

theorem empty (h : ((base_files ++ pending).map fun f => f.fd.GetNumber).Nodup) :
    LevelHolds base_files .empty base_files pending where
  perm := by simp [LevelState.empty, AddedFiles.empty]
  disjoint := by simp [LevelState.empty, AddedFiles.empty]
  fresh := by simpa [LevelState.empty, AddedFiles.empty] using h

/-- a deleted number leaves the set, whether a base file or an added file has it -/
theorem deleteFile (h : LevelHolds base_files s files pending) (number : UInt64) :
    LevelHolds base_files (s.deleteFile number)
      (files.filter fun f => f.fd.GetNumber != number) pending where
  perm := by
    rw [LevelState.added_deleteFile]
    refine (h.perm.filter _).trans ?_
    rw [List.filter_append, List.filter_filter]
    refine List.Perm.append_right _ (List.Perm.of_eq (List.filter_congr fun f _ => ?_))
    by_cases hf : f.fd.GetNumber = number <;> simp [LevelState.deleteFile, hf]
  disjoint f hf := by
    rw [LevelState.added_deleteFile] at hf
    obtain ⟨hf, hne⟩ := List.mem_filter.mp hf
    simp only [LevelState.deleteFile, Finset.mem_insert, not_or]
    exact ⟨by simpa using hne, h.disjoint f hf⟩
  fresh := by
    rw [LevelState.added_deleteFile]
    exact ((((List.Sublist.refl _).append List.filter_sublist).append
      (List.Sublist.refl _)).map _).nodup h.fresh

/-- an added file joins the set: its number is in neither the base nor the added files, so
unmarking it brings back no base file -/
theorem addFile {f : FileMetaData} (h : LevelHolds base_files s files (f :: pending)) :
    LevelHolds base_files (s.addFile f) (files ++ [f]) pending := by
  have hfresh := h.fresh
  rw [List.map_append, List.map_cons, List.nodup_append] at hfresh
  have hnew : ∀ g ∈ base_files ++ s.added_files.files, g.fd.GetNumber ≠ f.fd.GetNumber :=
    fun g hg => hfresh.2.2 _ (List.mem_map_of_mem hg) _ List.mem_cons_self
  have hadded : (s.addFile f).added_files.files = s.added_files.files ++ [f] := by
    rw [LevelState.addFile, AddedFiles.files_set, List.filter_eq_self.mpr fun g hg => by
      simpa using hnew g (List.mem_append_right _ hg)]
  have hbase : (base_files.filter fun g => g.fd.GetNumber ∉ (s.addFile f).deleted_files) =
      base_files.filter fun g => g.fd.GetNumber ∉ s.deleted_files :=
    List.filter_congr fun g hg => by
      simp [LevelState.addFile, Finset.mem_erase, hnew g (List.mem_append_left _ hg)]
  refine ⟨?_, fun g hg => ?_, ?_⟩
  · rw [hadded, hbase, ← List.append_assoc]
    exact h.perm.append_right [f]
  · rw [hadded] at hg
    simp only [LevelState.addFile, Finset.mem_erase, not_and]
    rcases List.mem_append.mp hg with hg | hg
    · exact fun _ => h.disjoint g hg
    · rw [List.mem_singleton.mp hg]
      exact fun hne => absurd rfl hne
  · rw [hadded]
    simpa using h.fresh

variable {cmp : FileComparator}

/-- with nothing pending, `SaveTo`'s loop writes the set: sorted, each file once -/
theorem save (h : LevelHolds base_files s files [])
    (o : SortedMerge.SortOrder cmp.call fun f => f.fd.GetNumber)
    (hsorted : base_files.Pairwise fun f1 f2 => cmp.call f1 f2 = true) :
    let out := saveLevel cmp s base_files
      (s.added_files.files.insertionSort fun f1 f2 => cmp.call f2 f1 = false) []
    out.Perm files ∧ out.Pairwise (fun f1 f2 => cmp.call f1 f2 = true) ∧
      (files.map fun f => f.fd.GetNumber).Nodup := by
  intro out
  set sorted := s.added_files.files.insertionSort fun f1 f2 => cmp.call f2 f1 = false
  have hsort : sorted.Perm s.added_files.files := List.perm_insertionSort _ _
  have hnodup : ((base_files ++ s.added_files.files).map fun f => f.fd.GetNumber).Nodup := by
    simpa using h.fresh
  have hnodup' : ((base_files ++ sorted).map fun f => f.fd.GetNumber).Nodup :=
    ((hsort.append_left base_files).map _).nodup_iff.mpr hnodup
  have hout : out = (SortedMerge.mergeByUpperBound cmp.call base_files sorted).filter
      fun f => f.fd.GetNumber ∉ s.deleted_files := by
    simp only [out]
    rw [saveLevel_eq, List.nil_append]
  have hmerge := @SortedMerge.mergeByUpperBound_perm _ cmp.call base_files sorted
  refine ⟨?_, ?_, ?_⟩
  · -- the merge holds the base and the added files; the deleted go, and no added file is one
    have hkept : (sorted.filter fun f => f.fd.GetNumber ∉ s.deleted_files) = sorted :=
      List.filter_eq_self.mpr fun f hf => by simpa using h.disjoint f (hsort.subset hf)
    rw [hout]
    refine ((hmerge.filter _).trans ?_).trans h.perm.symm
    rw [List.filter_append, hkept]
    exact hsort.append_left _
  · rw [hout]
    exact (SortedMerge.pairwise_mergeByUpperBound o base_files sorted hsorted
      (o.pairwise_insertionSort_lt _ s.added_files.nodup) hnodup').filter _
  · exact (h.perm.map _).nodup_iff.mpr
      (((List.filter_sublist.append (List.Sublist.refl _)).map _).nodup hnodup)

end LevelHolds

theorem addedAt_cons (level : Nat) (p : Int32 × FileMetaData) (ps : List (Int32 × FileMetaData)) :
    addedAt level (p :: ps) =
      if p.1.toInt.toNat = level then p.2 :: addedAt level ps else addedAt level ps := by
  unfold addedAt
  rw [List.filter_cons]
  by_cases h : p.1.toInt.toNat = level
  · rw [if_pos (beq_iff_eq.mpr h), if_pos h, List.map_cons]
  · rw [if_neg (mt beq_iff_eq.mp h), if_neg h]

theorem modifyLevel_eq {level : Int32} (h : LevelOk b.levels_.length level)
    (f : LevelState → LevelState) :
    b.modifyLevel level f = some { b with levels_ := b.levels_.modify level.toInt.toNat f } := by
  rw [modifyLevel]
  exact if_pos h

/-- the builder stands for the level sets `levels` over `base`, with the new files `pending` still
to be added: each level of it as `LevelHolds` says -/
structure Holds (base : VersionStorageInfo) (b : VersionBuilder) (levels : List (List FileMetaData))
    (pending : List (Int32 × FileMetaData)) : Prop where
  base_eq : b.base_vstorage_ = base
  levelCmp_eq : b.levelCmp = (new base).levelCmp
  length_levels : b.levels_.length = base.num_levels
  length_sets : levels.length = base.num_levels
  level : ∀ level < base.num_levels, LevelHolds (base.LevelFiles level)
    (b.levels_.getD level .empty) (levels.getD level []) (addedAt level pending)

namespace Holds

variable {base : VersionStorageInfo} {b : VersionBuilder} {levels : List (List FileMetaData)}
  {pending : List (Int32 × FileMetaData)}

theorem deleteFile (h : Holds base b levels pending) {del_file : Int32 × UInt64}
    (hl : LevelOk base.num_levels del_file.1) :
    ∃ b', b.deleteFile del_file = some b' ∧
      Holds base b' (deleteFromLevels levels del_file) pending := by
  refine ⟨_, modifyLevel_eq b (h.length_levels ▸ hl) _, h.base_eq, h.levelCmp_eq,
    by simp [h.length_levels], by simp [deleteFromLevels, h.length_sets], fun level hlevel => ?_⟩
  -- the level of the deleted file changes; every other stays as it was
  by_cases hi : del_file.1.toInt.toNat = level
  · subst hi
    rw [deleteFromLevels, List.getD_modify_self _ _ (by rw [h.length_levels]; exact hl.2),
      List.getD_modify_self _ _ (by rw [h.length_sets]; exact hl.2)]
    exact (h.level _ hlevel).deleteFile del_file.2
  · rw [deleteFromLevels, List.getD_modify_ne _ _ hi, List.getD_modify_ne _ _ hi]
    exact h.level level hlevel

theorem addFile {new_file : Int32 × FileMetaData} (h : Holds base b levels (new_file :: pending))
    (hl : LevelOk base.num_levels new_file.1) :
    ∃ b', b.addFile new_file = some b' ∧ Holds base b' (addToLevels levels new_file) pending := by
  refine ⟨_, modifyLevel_eq b (h.length_levels ▸ hl) _, h.base_eq, h.levelCmp_eq,
    by simp [h.length_levels], by simp [addToLevels, h.length_sets], fun level hlevel => ?_⟩
  have hlevel' := h.level level hlevel
  rw [addedAt_cons] at hlevel'
  -- the level of the new file takes it from its pending files; every other stays as it was
  by_cases hi : new_file.1.toInt.toNat = level
  · subst hi
    rw [if_pos rfl] at hlevel'
    rw [addToLevels, List.getD_modify_self _ _ (by rw [h.length_levels]; exact hl.2),
      List.getD_modify_self _ _ (by rw [h.length_sets]; exact hl.2)]
    exact hlevel'.addFile
  · rw [if_neg hi] at hlevel'
    rw [addToLevels, List.getD_modify_ne _ _ hi, List.getD_modify_ne _ _ hi]
    exact hlevel'

theorem deleteFiles (dels : List (Int32 × UInt64))
    (hl : ∀ p ∈ dels, LevelOk base.num_levels p.1) (h : Holds base b levels pending) :
    ∃ b', dels.foldlM VersionBuilder.deleteFile b = some b' ∧
      Holds base b' (dels.foldl deleteFromLevels levels) pending := by
  induction dels generalizing b levels with
  | nil => exact ⟨b, rfl, h⟩
  | cons p dels ih =>
    obtain ⟨b₁, hb₁, h₁⟩ := h.deleteFile (hl p List.mem_cons_self)
    obtain ⟨b₂, hb₂, h₂⟩ := ih (fun q hq => hl q (List.mem_cons_of_mem _ hq)) h₁
    exact ⟨b₂, by simpa [List.foldlM_cons, hb₁] using hb₂, h₂⟩

theorem addFiles (news : List (Int32 × FileMetaData))
    (hl : ∀ p ∈ news, LevelOk base.num_levels p.1) (h : Holds base b levels (news ++ pending)) :
    ∃ b', news.foldlM VersionBuilder.addFile b = some b' ∧
      Holds base b' (news.foldl addToLevels levels) pending := by
  induction news generalizing b levels with
  | nil => exact ⟨b, rfl, h⟩
  | cons p news ih =>
    obtain ⟨b₁, hb₁, h₁⟩ := h.addFile (hl p List.mem_cons_self)
    obtain ⟨b₂, hb₂, h₂⟩ := ih (fun q hq => hl q (List.mem_cons_of_mem _ hq)) h₁
    exact ⟨b₂, by simpa [List.foldlM_cons, hb₁] using hb₂, h₂⟩

/-- one edit: its deletions, then its additions, each keeping the builder on the level sets -/
theorem Apply {edit : VersionEdit} (h : Holds base b levels (edit.new_files_ ++ pending))
    (he : NamesLevels base.num_levels edit) :
    ∃ b', b.Apply edit = some b' ∧ Holds base b' (applyEdit levels edit) pending := by
  obtain ⟨b₁, hb₁, h₁⟩ := h.deleteFiles edit.deleted_files_.toList he.1
  obtain ⟨b₂, hb₂, h₂⟩ := h₁.addFiles edit.new_files_ he.2
  exact ⟨b₂, by simpa [VersionBuilder.Apply, hb₁] using hb₂, h₂⟩

/-- a run of edits, by induction on the run: every `Apply` succeeds and keeps the builder on the
level sets -/
theorem run (edits : List VersionEdit) (he : ∀ e ∈ edits, NamesLevels base.num_levels e)
    (h : Holds base b levels (edits.flatMap (·.new_files_))) :
    ∃ b', edits.foldlM VersionBuilder.Apply b = some b' ∧
      Holds base b' (edits.foldl applyEdit levels) [] := by
  induction edits generalizing b levels with
  | nil => exact ⟨b, rfl, h⟩
  | cons e edits ih =>
    rw [List.flatMap_cons] at h
    obtain ⟨b₁, hb₁, h₁⟩ := h.Apply (he e List.mem_cons_self)
    obtain ⟨b₂, hb₂, h₂⟩ := ih (fun e' he' => he e' (List.mem_cons_of_mem _ he')) h₁
    exact ⟨b₂, by simpa [List.foldlM_cons, hb₁] using hb₂, h₂⟩

/-- with nothing pending, `SaveTo` writes each level's set: sorted by the level's order, each
file once -/
theorem SaveTo (h : Holds base b levels []) [Std.TransCmp base.internal_comparator_.user_comparator_]
    (hsorted : ∀ level < base.num_levels, (base.LevelFiles level).Pairwise
      fun f1 f2 => ((new base).levelCmp level).call f1 f2 = true)
    (level : Nat) (hlevel : level < base.num_levels) :
    (b.SaveTo.getD level []).Perm (levels.getD level []) ∧
      (b.SaveTo.getD level []).Pairwise
        (fun f1 f2 => ((new base).levelCmp level).call f1 f2 = true) ∧
      ((levels.getD level []).map fun f => f.fd.GetNumber).Nodup := by
  rw [getD_SaveTo _ (by rw [h.base_eq]; exact hlevel), h.base_eq, h.levelCmp_eq]
  exact (h.level level hlevel).save (sortOrder_levelCmp base level) (hsorted level hlevel)

end Holds

/-- a new builder stands for the base version's level sets, with all the new files of a run
pending, where no number repeats at a level among its base files and the files the run adds -/
theorem holds_new (base : VersionStorageInfo) (pending : List (Int32 × FileMetaData))
    (hfresh : ∀ level < base.num_levels,
      ((base.LevelFiles level ++ addedAt level pending).map fun f => f.fd.GetNumber).Nodup) :
    Holds base (new base) base.files_ pending where
  base_eq := rfl
  levelCmp_eq := rfl
  length_levels := by simp [new]
  length_sets := rfl
  level level hlevel := by
    have hempty : (new base).levels_.getD level .empty = .empty := by
      simp [new, List.getD_eq_getElem?_getD, hlevel]
    rw [hempty]
    exact LevelHolds.empty (hfresh level hlevel)

/-- **`VersionBuilder` writes the level sets of a run of edits.**  From a base version whose
levels are sorted by their orders, and a run of edits that name only levels of the version and
never add at a level a file number that its base files or an earlier addition there already have,
`Apply` takes every edit, and `SaveTo` writes at each level exactly the files that the edits'
deletions, then additions, leave of the base level: sorted newest first on level 0 and by smallest
key above, each file once -/
theorem save_to_level_sets (base : VersionStorageInfo)
    [Std.TransCmp base.internal_comparator_.user_comparator_] (edits : List VersionEdit)
    (hlevels : ∀ e ∈ edits, NamesLevels base.num_levels e)
    (hsorted : ∀ level < base.num_levels, (base.LevelFiles level).Pairwise
      fun f1 f2 => ((new base).levelCmp level).call f1 f2 = true)
    (hfresh : ∀ level < base.num_levels,
      ((base.LevelFiles level ++ addedAt level (edits.flatMap (·.new_files_))).map
        fun f => f.fd.GetNumber).Nodup) :
    ∃ b, edits.foldlM Apply (new base) = some b ∧ ∀ level < base.num_levels,
      (b.SaveTo.getD level []).Perm ((edits.foldl applyEdit base.files_).getD level []) ∧
      (b.SaveTo.getD level []).Pairwise
        (fun f1 f2 => ((new base).levelCmp level).call f1 f2 = true) ∧
      (((edits.foldl applyEdit base.files_).getD level []).map fun f => f.fd.GetNumber).Nodup := by
  obtain ⟨b, hrun, hb⟩ := (holds_new base _ hfresh).run edits hlevels
  exact ⟨b, hrun, hb.SaveTo hsorted⟩

/-- an edit that replaces the level-0 file 3 by file 4 and adds file 2 after file 1 on level 1:
the builder takes it and writes each level's files in its order -/
theorem save_to_level_sets_replaces_file :
    let f3 : FileMetaData := { FileMetaData.new with
      fd := FileDescriptor.new 3 0 0, smallest_seqno := 3, largest_seqno := 3 }
    let f4 : FileMetaData := { FileMetaData.new with
      fd := FileDescriptor.new 4 0 0, smallest_seqno := 4, largest_seqno := 4 }
    let g1 : FileMetaData := { FileMetaData.new with
      fd := FileDescriptor.new 1 0 0, smallest := ⟨AppendInternalKey [] ⟨[1], 1, .kTypeValue⟩⟩ }
    let g2 : FileMetaData := { FileMetaData.new with
      fd := FileDescriptor.new 2 0 0, smallest := ⟨AppendInternalKey [] ⟨[2], 2, .kTypeValue⟩⟩ }
    let base : VersionStorageInfo := ⟨InternalKeyComparator.bytewise, [[f3], [g1]], _, rfl⟩
    let edits := [((VersionEdit.Clear.DeleteFile 0 3).AddFile 0 f4).AddFile 1 g2]
    ((∀ e ∈ edits, NamesLevels base.num_levels e) ∧
      (∀ level < base.num_levels, (base.LevelFiles level).Pairwise
        fun f1 f2 => ((new base).levelCmp level).call f1 f2 = true) ∧
      (∀ level < base.num_levels,
        ((base.LevelFiles level ++ addedAt level (edits.flatMap (·.new_files_))).map
          fun f => f.fd.GetNumber).Nodup)) ∧
      edits.foldl applyEdit base.files_ = [[f4], [g1, g2]] ∧
      ∃ b, edits.foldlM Apply (new base) = some b ∧ ∀ level < base.num_levels,
        (b.SaveTo.getD level []).Perm ((edits.foldl applyEdit base.files_).getD level []) ∧
        (b.SaveTo.getD level []).Pairwise
          (fun f1 f2 => ((new base).levelCmp level).call f1 f2 = true) ∧
        (((edits.foldl applyEdit base.files_).getD level []).map fun f => f.fd.GetNumber).Nodup :=
  ⟨⟨by decide, by decide, by decide⟩, by decide,
    @save_to_level_sets _ (inferInstanceAs (Std.TransCmp BytewiseComparator.Compare)) _
      (by decide) (by decide) (by decide)⟩

/-- **A number deleted and added back in one edit keeps the level's base file.**  `Apply` inserts
the number into the level's deleted files, then takes it out again with the new file, so
`MaybeAddFile` passes the base file of that number as well: `SaveTo` writes the level's base files
and the new file, where the edit's level set has the base files without that number and the new
file -/
theorem readded_keeps_base_file (base : VersionStorageInfo) (level : Int32)
    (hl : LevelOk base.num_levels level) (f : FileMetaData) :
    ∃ b, (new base).Apply ((VersionEdit.Clear.DeleteFile level f.fd.GetNumber).AddFile level f) =
        some b ∧
      (b.SaveTo.getD level.toInt.toNat []).Perm (base.LevelFiles level.toInt.toNat ++ [f]) := by
  have hdel : ((VersionEdit.Clear.DeleteFile level f.fd.GetNumber).AddFile level f).deleted_files_.toList
      = [(level, f.fd.GetNumber)] := rfl
  have hnew : ((VersionEdit.Clear.DeleteFile level f.fd.GetNumber).AddFile level f).new_files_
      = [(level, f)] := rfl
  have hlen : LevelOk (new base).levels_.length level := by simpa [new] using hl
  refine ⟨{ new base with
    levels_ := ((new base).levels_.modify level.toInt.toNat (·.deleteFile f.fd.GetNumber)).modify
      level.toInt.toNat (·.addFile f) }, ?_, ?_⟩
  · have hlen' : LevelOk ((new base).levels_.modify level.toInt.toNat
        (·.deleteFile f.fd.GetNumber)).length level := by rwa [List.length_modify]
    have hadd := modifyLevel_eq { new base with
      levels_ := (new base).levels_.modify level.toInt.toNat (·.deleteFile f.fd.GetNumber) }
      hlen' (·.addFile f)
    simp only [Apply, hdel, hnew, List.foldlM_cons, List.foldlM_nil, deleteFile, addFile,
      modifyLevel_eq _ hlen, hadd, Option.bind_eq_bind, Option.bind_some, Option.pure_def]
  · have hs : (((new base).levels_.modify level.toInt.toNat (·.deleteFile f.fd.GetNumber)).modify
        level.toInt.toNat (·.addFile f)).getD level.toInt.toNat .empty =
        (LevelState.empty.deleteFile f.fd.GetNumber).addFile f := by
      rw [List.getD_modify_self _ _ (by simpa using hlen.2),
        List.getD_modify_self _ _ (by simpa [new] using hl.2)]
      simp [new, List.getD_eq_getElem?_getD]
    -- the number is off the deleted files again, and the new file is the one added file
    have hdeleted : ((LevelState.empty.deleteFile f.fd.GetNumber).addFile f).deleted_files = ∅ := by
      simp [LevelState.addFile, LevelState.deleteFile, LevelState.empty]
    have hadded : ((LevelState.empty.deleteFile f.fd.GetNumber).addFile f).added_files.files = [f] :=
      rfl
    rw [getD_SaveTo]
    · simp only [hs, saveLevel_eq, hdeleted, hadded, Finset.notMem_empty, not_false_eq_true,
        decide_true, List.filter_true, List.nil_append]
      exact SortedMerge.mergeByUpperBound_perm _ _
    · exact hl.2

/-- a level-0 file deleted and added back in one edit: the edit leaves the level as it was, and
`SaveTo` writes the file twice -/
theorem readded_file_saved_twice :
    let f : FileMetaData := { FileMetaData.new with fd := FileDescriptor.new 7 0 0 }
    let base : VersionStorageInfo := ⟨InternalKeyComparator.bytewise, [[f]], _, rfl⟩
    let edit := (VersionEdit.Clear.DeleteFile 0 f.fd.GetNumber).AddFile 0 f
    LevelOk base.num_levels 0 ∧ applyEdit base.files_ edit = [[f]] ∧
      ∃ b, (new base).Apply edit = some b ∧ (b.SaveTo.getD 0 []).Perm [f, f] :=
  ⟨by decide, by decide, readded_keeps_base_file _ 0 (by decide) _⟩

end VersionBuilder

end RocksDB
