import RocksDB.Lib.SeqIter

/-!
# The two-level iterator: the concatenation of the blocks an index names

`TwoLevelIterator` (table/two_level_iterator.cc) walks an index: its first-level iterator runs
over index entries `(key_i, handle_i)`, and for the entry it stands on `NewSecondaryIterator`
opens a second-level iterator over the block `B_i` that `handle_i` names.  Every move ends by
skipping empty blocks, forward or backward, so the iterator stands on an entry of some block or
is not valid.

The iterators below it are `SeqIter`s; the state function `NewSecondaryIterator` gives the
entries of the block a handle names.  No prefix check is made and no upper bound is set, so
`PrefixMayMatch` and `KeyReachedUpperBound` never stop a move, and every status is OK (no
iterator is ever `Incomplete`).

Why the iterator walks `B_1 ++ ... ++ B_m` (`entries`): the index keys bound the blocks,
`last(B_i) ≤ key_i < first(B_{i+1})` (`Layered`), so the first index key not below a target
names the only block where the target can fall between two entries.  The skip loops are read as
moves of one position in the concatenation (`SkipEmptyDataBlocksForward_at`,
`SkipEmptyDataBlocksBackward_at`), and every move is one of those after a move inside a block.

* `TwoLevelIterator.globalPos`   the position in `entries` the iterator stands on;
* `TwoLevelIterator.Inv`         the second-level iterator runs over the block of
                                 `data_block_handle_`, and stands on an entry only inside the
                                 block of the index entry the first level stands on.
-/

namespace RocksDB

/-- the iterator's fields: `second_level_iter_` is `none` for nullptr, and `data_block_handle_`
is `none` while it holds the empty string it starts with -/
structure TwoLevelIterator (κ H V : Type*) where
  first_level_iter_ : SeqIter κ H
  second_level_iter_ : Option (SeqIter κ V)
  data_block_handle_ : Option H

namespace TwoLevelIterator

open SeqIter (below before)

variable {κ H V : Type*}

/-- `NewTwoLevelIterator(state, first_level_iter)` -/
def new (first_level_iter : SeqIter κ H) : TwoLevelIterator κ H V :=
  ⟨first_level_iter, none, none⟩

variable (it : TwoLevelIterator κ H V)

def Valid : Bool := it.second_level_iter_.any SeqIter.Valid

/-- the entry under the iterator: its `key()` and `value()` -/
def current : Option (κ × V) := it.second_level_iter_.bind SeqIter.current

def SetSecondLevelIterator (iter : Option (SeqIter κ V)) : TwoLevelIterator κ H V :=
  { it with second_level_iter_ := iter }

section Moves

variable [DecidableEq H] (NewSecondaryIterator : H → List (κ × V))

def InitDataBlock : TwoLevelIterator κ H V :=
  match it.first_level_iter_.current with
  | none => it.SetSecondLevelIterator none
  | some (_, handle) =>
    if it.second_level_iter_.isSome ∧ some handle = it.data_block_handle_ then
      -- second_level_iter is already constructed with this iterator
      it
    else
      { it with data_block_handle_ := some handle }.SetSecondLevelIterator
        (some (SeqIter.new (NewSecondaryIterator handle)))

/-- the index entries the first-level iterator has still to pass going forward -/
def aheadCount : Nat :=
  match it.first_level_iter_.pos with
  | none => 0
  | some i => it.first_level_iter_.items.length - i

/-- the index entries the first-level iterator has still to pass going backward -/
def behindCount : Nat :=
  match it.first_level_iter_.pos with
  | none => 0
  | some i => i + 1

@[simp] theorem InitDataBlock_first_level_iter_ :
    (it.InitDataBlock NewSecondaryIterator).first_level_iter_ = it.first_level_iter_ := by
  unfold InitDataBlock SetSecondLevelIterator
  split
  · rfl
  · split <;> rfl

omit [DecidableEq H] in
theorem aheadCount_Next (hv : it.first_level_iter_.Valid = true) :
    aheadCount { it with first_level_iter_ := it.first_level_iter_.Next } < it.aheadCount := by
  obtain ⟨i, hi⟩ := Option.isSome_iff_exists.mp hv
  have hlt := it.first_level_iter_.pos_lt i hi
  by_cases h : i + 1 < it.first_level_iter_.items.length
  · simp only [aheadCount, SeqIter.Next, hi, Option.bind_some, if_pos h]
    omega
  · simp only [aheadCount, SeqIter.Next, hi, Option.bind_some, if_neg h]
    omega

omit [DecidableEq H] in
theorem behindCount_Prev (hv : it.first_level_iter_.Valid = true) :
    behindCount { it with first_level_iter_ := it.first_level_iter_.Prev } < it.behindCount := by
  obtain ⟨i, hi⟩ := Option.isSome_iff_exists.mp hv
  by_cases h : i = 0
  · simp only [behindCount, SeqIter.Prev, hi, Option.bind_some, if_pos h]
    omega
  · simp only [behindCount, SeqIter.Prev, hi, Option.bind_some, if_neg h]
    omega

def SkipEmptyDataBlocksForward (it : TwoLevelIterator κ H V) : TwoLevelIterator κ H V :=
  if it.Valid then it
  else if !it.first_level_iter_.Valid then it.SetSecondLevelIterator none
  else
    -- move to the next block
    let it' := { it with first_level_iter_ := it.first_level_iter_.Next }.InitDataBlock
      NewSecondaryIterator
    SkipEmptyDataBlocksForward
      { it' with second_level_iter_ := it'.second_level_iter_.map SeqIter.SeekToFirst }
termination_by it.aheadCount
decreasing_by
  rename_i hv
  simpa [aheadCount] using aheadCount_Next it (by simpa using hv)

def SkipEmptyDataBlocksBackward (it : TwoLevelIterator κ H V) : TwoLevelIterator κ H V :=
  if it.Valid then it
  else if !it.first_level_iter_.Valid then it.SetSecondLevelIterator none
  else
    let it' := { it with first_level_iter_ := it.first_level_iter_.Prev }.InitDataBlock
      NewSecondaryIterator
    SkipEmptyDataBlocksBackward
      { it' with second_level_iter_ := it'.second_level_iter_.map SeqIter.SeekToLast }
termination_by it.behindCount
decreasing_by
  rename_i hv
  simpa [behindCount] using behindCount_Prev it (by simpa using hv)

def SeekToFirst : TwoLevelIterator κ H V :=
  let it := { it with first_level_iter_ := it.first_level_iter_.SeekToFirst }.InitDataBlock
    NewSecondaryIterator
  let it := { it with second_level_iter_ := it.second_level_iter_.map SeqIter.SeekToFirst }
  it.SkipEmptyDataBlocksForward NewSecondaryIterator

def SeekToLast : TwoLevelIterator κ H V :=
  let it := { it with first_level_iter_ := it.first_level_iter_.SeekToLast }.InitDataBlock
    NewSecondaryIterator
  let it := { it with second_level_iter_ := it.second_level_iter_.map SeqIter.SeekToLast }
  it.SkipEmptyDataBlocksBackward NewSecondaryIterator

def Next : TwoLevelIterator κ H V :=
  { it with second_level_iter_ := it.second_level_iter_.map SeqIter.Next }.SkipEmptyDataBlocksForward
    NewSecondaryIterator

def Prev : TwoLevelIterator κ H V :=
  { it with second_level_iter_ := it.second_level_iter_.map SeqIter.Prev }.SkipEmptyDataBlocksBackward
    NewSecondaryIterator

variable [LinearOrder κ]

def Seek (target : κ) : TwoLevelIterator κ H V :=
  let it := { it with first_level_iter_ := it.first_level_iter_.Seek target }.InitDataBlock
    NewSecondaryIterator
  let it := { it with second_level_iter_ := it.second_level_iter_.map (SeqIter.Seek · target) }
  it.SkipEmptyDataBlocksForward NewSecondaryIterator

/-- `SeekForPrev` seeks the first level with `Seek`: the block of the first index key not below
the target is the last one that can hold an entry not above it -/
def SeekForPrev (target : κ) : TwoLevelIterator κ H V :=
  let it := { it with first_level_iter_ := it.first_level_iter_.Seek target }.InitDataBlock
    NewSecondaryIterator
  let it := { it with second_level_iter_ := it.second_level_iter_.map (SeqIter.SeekForPrev · target) }
  if it.Valid then it
  else
    let it :=
      if it.first_level_iter_.Valid then it
      else
        let it := { it with first_level_iter_ := it.first_level_iter_.SeekToLast }.InitDataBlock
          NewSecondaryIterator
        { it with second_level_iter_ := it.second_level_iter_.map (SeqIter.SeekForPrev · target) }
    it.SkipEmptyDataBlocksBackward NewSecondaryIterator

/-- the moves of the interface, one by one -/
def move : SeqIter.Move κ → TwoLevelIterator κ H V
  | .SeekToFirst => it.SeekToFirst NewSecondaryIterator
  | .SeekToLast => it.SeekToLast NewSecondaryIterator
  | .Seek target => it.Seek NewSecondaryIterator target
  | .SeekForPrev target => it.SeekForPrev NewSecondaryIterator target
  | .Next => it.Next NewSecondaryIterator
  | .Prev => it.Prev NewSecondaryIterator

def run (ms : List (SeqIter.Move κ)) : TwoLevelIterator κ H V :=
  ms.foldl (fun st m => st.move NewSecondaryIterator m) it

end Moves

/-! ## The concatenation of the blocks -/

section Concatenation

variable (NewSecondaryIterator : H → List (κ × V)) (index : List (κ × H))

/-- the entries of the blocks the index entries name, one block after another:
`B_1 ++ ... ++ B_m` -/
def entries : List (κ × V) := index.flatMap fun e => NewSecondaryIterator e.2

/-- the block of the `i`-th index entry, empty past the end of the index -/
def blockAt (i : Nat) : List (κ × V) := (index[i]?.map fun e => NewSecondaryIterator e.2).getD []

/-- where the block of the `i`-th index entry starts in `entries` -/
def offset (i : Nat) : Nat := (entries NewSecondaryIterator (index.take i)).length

variable {NewSecondaryIterator index}

@[simp] theorem entries_append (l l' : List (κ × H)) :
    entries NewSecondaryIterator (l ++ l') =
      entries NewSecondaryIterator l ++ entries NewSecondaryIterator l' :=
  List.flatMap_append

@[simp] theorem offset_zero : offset NewSecondaryIterator index 0 = 0 := rfl

theorem offset_succ (i : Nat) :
    offset NewSecondaryIterator index (i + 1) =
      offset NewSecondaryIterator index i + (blockAt NewSecondaryIterator index i).length := by
  unfold offset blockAt
  rw [List.take_add_one, entries_append, List.length_append]
  cases index[i]? <;> simp [entries]

theorem offset_length :
    offset NewSecondaryIterator index index.length = (entries NewSecondaryIterator index).length := by
  rw [offset, List.take_length]

theorem offset_mono {i i' : Nat} (h : i ≤ i') :
    offset NewSecondaryIterator index i ≤ offset NewSecondaryIterator index i' := by
  induction h with
  | refl => exact Nat.le_refl _
  | step _ ih => exact Nat.le_trans ih (by rw [offset_succ]; omega)

theorem offset_le (i : Nat) :
    offset NewSecondaryIterator index i ≤ (entries NewSecondaryIterator index).length := by
  have h := congrArg (fun l => (entries NewSecondaryIterator l).length) (List.take_append_drop i index)
  simp only [entries_append, List.length_append] at h
  unfold offset
  omega

/-- the entries around the block of the `i`-th index entry -/
theorem entries_eq_split {i : Nat} (hi : i < index.length) :
    entries NewSecondaryIterator index = entries NewSecondaryIterator (index.take i) ++
      blockAt NewSecondaryIterator index i ++ entries NewSecondaryIterator (index.drop (i + 1)) := by
  have h : index = index.take i ++ index[i] :: index.drop (i + 1) := by simp
  conv_lhs => rw [h]
  simp only [entries, List.flatMap_append, List.flatMap_cons, blockAt, List.getElem?_eq_getElem hi,
    Option.map_some, Option.getD_some, List.append_assoc]

theorem mem_entries_of_mem_blockAt {i : Nat} {x : κ × V}
    (hx : x ∈ blockAt NewSecondaryIterator index i) : x ∈ entries NewSecondaryIterator index := by
  unfold blockAt at hx
  cases he : index[i]? with
  | none => simp [he] at hx
  | some e =>
    rw [he] at hx
    exact List.mem_flatMap.mpr ⟨e, List.mem_of_getElem? he, hx⟩

/-- the `j`-th entry of the block of the `i`-th index entry is the entry at `offset i + j` -/
theorem entries_getElem? {i j : Nat} (hj : j < (blockAt NewSecondaryIterator index i).length) :
    (entries NewSecondaryIterator index)[offset NewSecondaryIterator index i + j]? =
      (blockAt NewSecondaryIterator index i)[j]? := by
  have hi : i < index.length := by
    by_contra h
    simp [blockAt, h] at hj
  rw [entries_eq_split hi, List.append_assoc, List.getElem?_append_right (by rw [offset]; omega),
    List.getElem?_append_left (by rw [offset]; omega)]
  simp [offset]

end Concatenation

/-! ## Where the iterator stands -/

section Positions

variable (NewSecondaryIterator : H → List (κ × V))

/-- the second-level iterator runs over the block `data_block_handle_` names -/
def HandleOk (it : TwoLevelIterator κ H V) : Prop :=
  ∀ s ∈ it.second_level_iter_, ∃ h, it.data_block_handle_ = some h ∧ s.items = NewSecondaryIterator h

/-- the first level stands on the `i`-th index entry, and the second level runs over that
entry's block and stands at `p` in it -/
structure InBlock (it : TwoLevelIterator κ H V) (i : Nat) (p : Option Nat) : Prop where
  first : it.first_level_iter_.pos = some i
  handle : it.data_block_handle_ = it.first_level_iter_.items[i]?.map Prod.snd
  second : ∃ s, it.second_level_iter_ = some s ∧
    s.items = blockAt NewSecondaryIterator it.first_level_iter_.items i ∧ s.pos = p

/-- where a move leaves the iterator: on the entry at position `g` of `entries`, or not valid -/
def Lands (it : TwoLevelIterator κ H V) : Option Nat → Prop
  | none => it.Valid = false ∧ it.HandleOk NewSecondaryIterator
  | some g => ∃ i j, it.InBlock NewSecondaryIterator i (some j) ∧
      offset NewSecondaryIterator it.first_level_iter_.items i + j = g

/-- the position in `entries` the iterator stands on -/
def globalPos (it : TwoLevelIterator κ H V) : Option Nat :=
  match it.first_level_iter_.pos, it.second_level_iter_ with
  | some i, some s => s.pos.map (offset NewSecondaryIterator it.first_level_iter_.items i + ·)
  | _, _ => none

variable {NewSecondaryIterator} {it : TwoLevelIterator κ H V} {i : Nat} {p : Option Nat}

theorem InBlock.lt_length (h : it.InBlock NewSecondaryIterator i p) :
    i < it.first_level_iter_.items.length :=
  it.first_level_iter_.pos_lt i h.first

theorem InBlock.valid_eq (h : it.InBlock NewSecondaryIterator i p) : it.Valid = p.isSome := by
  obtain ⟨s, hs, -, hp⟩ := h.second
  simp [Valid, hs, SeqIter.Valid, hp]

theorem InBlock.handleOk (h : it.InBlock NewSecondaryIterator i p) : it.HandleOk NewSecondaryIterator := by
  obtain ⟨s, hs, hitems, -⟩ := h.second
  intro s' hs'
  rw [hs, Option.mem_def, Option.some.injEq] at hs'
  subst hs'
  refine ⟨_, by rw [h.handle, List.getElem?_eq_getElem h.lt_length]; rfl, ?_⟩
  rw [hitems, blockAt, List.getElem?_eq_getElem h.lt_length]
  rfl

theorem Lands.handleOk {g : Option Nat} (h : it.Lands NewSecondaryIterator g) :
    it.HandleOk NewSecondaryIterator := by
  cases g with
  | none => exact h.2
  | some g => obtain ⟨i, j, hb, -⟩ := h; exact hb.handleOk

theorem Lands.globalPos {g : Option Nat} (h : it.Lands NewSecondaryIterator g) :
    it.globalPos NewSecondaryIterator = g := by
  cases g with
  | none =>
    -- not valid: either level may be off, or the second level not on an entry
    have hv := h.1
    unfold TwoLevelIterator.globalPos
    split <;> simp_all [Valid, SeqIter.Valid]
  | some g =>
    obtain ⟨i, j, hb, rfl⟩ := h
    obtain ⟨s, hs, -, hp⟩ := hb.second
    simp [TwoLevelIterator.globalPos, hb.first, hs, hp]

/-- the entry under the iterator is the entry of `entries` at its position -/
theorem Lands.current {g : Option Nat} (h : it.Lands NewSecondaryIterator g) :
    it.current = g.bind fun g => (entries NewSecondaryIterator it.first_level_iter_.items)[g]? := by
  cases g with
  | none =>
    have hv := h.1
    cases hs : it.second_level_iter_ <;> simp_all [TwoLevelIterator.current, Valid, SeqIter.Valid,
      SeqIter.current]
  | some g =>
    obtain ⟨i, j, hb, rfl⟩ := h
    obtain ⟨s, hs, hitems, hp⟩ := hb.second
    have hj : j < (blockAt NewSecondaryIterator it.first_level_iter_.items i).length :=
      hitems ▸ s.pos_lt j hp
    simp [TwoLevelIterator.current, SeqIter.current, hs, hp, entries_getElem? hj, hitems]

theorem Lands.valid {g : Option Nat} (h : it.Lands NewSecondaryIterator g) : it.Valid = g.isSome := by
  cases g with
  | none => exact h.1
  | some g => obtain ⟨i, j, hb, -⟩ := h; exact hb.valid_eq

variable [DecidableEq H]

theorem InitDataBlock_none (hi : it.first_level_iter_.pos = none) :
    (it.InitDataBlock NewSecondaryIterator).second_level_iter_ = none := by
  simp [InitDataBlock, SeqIter.current, hi, SetSecondLevelIterator]

/-- on the `i`-th index entry, `InitDataBlock` leaves a second-level iterator over its block,
a new one or the one already there; `f` then positions it without changing its entries -/
theorem InitDataBlock_inBlock (hok : it.HandleOk NewSecondaryIterator)
    (hi : it.first_level_iter_.pos = some i) (f : SeqIter κ V → SeqIter κ V)
    (hf : ∀ s, (f s).items = s.items) :
    ∃ s, s.items = blockAt NewSecondaryIterator it.first_level_iter_.items i ∧
      InBlock NewSecondaryIterator
        { it.InitDataBlock NewSecondaryIterator with
          second_level_iter_ := (it.InitDataBlock NewSecondaryIterator).second_level_iter_.map f }
        i (f s).pos := by
  have hlt := it.first_level_iter_.pos_lt i hi
  have hcur : it.first_level_iter_.current = some it.first_level_iter_.items[i] := by
    simp [SeqIter.current, hi, hlt]
  have hblock : blockAt NewSecondaryIterator it.first_level_iter_.items i =
      NewSecondaryIterator it.first_level_iter_.items[i].2 := by
    simp [blockAt, hlt]
  unfold InitDataBlock
  rw [hcur]
  dsimp only
  split
  · -- the iterator already open runs over this entry's block
    rename_i hreuse
    obtain ⟨s, hs⟩ := Option.isSome_iff_exists.mp hreuse.1
    obtain ⟨h, hh, hitems⟩ := hok s hs
    have hh' : h = it.first_level_iter_.items[i].2 := by
      rw [hh] at hreuse
      exact (Option.some.inj hreuse.2).symm
    refine ⟨s, by rw [hitems, hh', hblock], hi, ?_, f s, by simp [hs], ?_, rfl⟩
    · simp [hh, hh', hlt]
    · rw [hf, hitems, hh', hblock]
  · -- a new iterator over this entry's block
    simp only [SetSecondLevelIterator]
    refine ⟨SeqIter.new (NewSecondaryIterator it.first_level_iter_.items[i].2), by rw [hblock]; rfl,
      hi, by simp [hlt], _, rfl, ?_, rfl⟩
    rw [hf, hblock]
    rfl

/-- the opening of every move to another block: the first level set to `first`, then
`InitDataBlock`, then the second level, if there is one, moved by `f` -/
def reposition (NewSecondaryIterator : H → List (κ × V)) (it : TwoLevelIterator κ H V)
    (first : SeqIter κ H) (f : SeqIter κ V → SeqIter κ V) : TwoLevelIterator κ H V :=
  let it' := { it with first_level_iter_ := first }.InitDataBlock NewSecondaryIterator
  { it' with second_level_iter_ := it'.second_level_iter_.map f }

@[simp] theorem reposition_first_level_iter_ (first : SeqIter κ H) (f : SeqIter κ V → SeqIter κ V) :
    (it.reposition NewSecondaryIterator first f).first_level_iter_ = first := by
  simp [reposition]

/-- off the index, `reposition` leaves no second level -/
theorem reposition_second_level_iter_ {first : SeqIter κ H} (hi : first.pos = none)
    (f : SeqIter κ V → SeqIter κ V) :
    (it.reposition NewSecondaryIterator first f).second_level_iter_ = none := by
  have h : ({ it with first_level_iter_ := first }.InitDataBlock NewSecondaryIterator
    ).second_level_iter_ = none := InitDataBlock_none hi
  simp [reposition, h]

theorem reposition_off {first : SeqIter κ H} (hi : first.pos = none) (f : SeqIter κ V → SeqIter κ V) :
    (it.reposition NewSecondaryIterator first f).Valid = false := by
  simp [Valid, reposition_second_level_iter_ hi f]

/-- on the `i`-th index entry, `reposition` opens its block, positioned by `f` -/
theorem reposition_inBlock (hok : it.HandleOk NewSecondaryIterator) {first : SeqIter κ H}
    (hi : first.pos = some i) (f : SeqIter κ V → SeqIter κ V) (hf : ∀ s, (f s).items = s.items) :
    ∃ s, s.items = blockAt NewSecondaryIterator first.items i ∧
      (it.reposition NewSecondaryIterator first f).InBlock NewSecondaryIterator i (f s).pos :=
  have hok' : HandleOk NewSecondaryIterator { it with first_level_iter_ := first } := hok
  InitDataBlock_inBlock hok' hi f hf

/-- off the last index entry, a not valid iterator drops its second level and stays -/
theorem SkipEmptyDataBlocksForward_off (hv : it.Valid = false)
    (h2 : it.first_level_iter_.pos = none) :
    (it.SkipEmptyDataBlocksForward NewSecondaryIterator).Lands NewSecondaryIterator none := by
  rw [SkipEmptyDataBlocksForward, if_neg (by simp [hv]), if_pos (by simp [SeqIter.Valid, h2])]
  exact ⟨rfl, fun s hs => by simp [SetSecondLevelIterator] at hs⟩

/-- before the first index entry, a not valid iterator drops its second level and stays -/
theorem SkipEmptyDataBlocksBackward_off (hv : it.Valid = false)
    (h2 : it.first_level_iter_.pos = none) :
    (it.SkipEmptyDataBlocksBackward NewSecondaryIterator).Lands NewSecondaryIterator none := by
  rw [SkipEmptyDataBlocksBackward, if_neg (by simp [hv]), if_pos (by simp [SeqIter.Valid, h2])]
  exact ⟨rfl, fun s hs => by simp [SetSecondLevelIterator] at hs⟩

omit [DecidableEq H] in
/-- a valid iterator in the `i`-th block stands at `offset i + j`, inside the concatenation -/
theorem InBlock.lands (h : it.InBlock NewSecondaryIterator i (some j)) :
    offset NewSecondaryIterator it.first_level_iter_.items i + j <
      (entries NewSecondaryIterator it.first_level_iter_.items).length ∧
    it.Lands NewSecondaryIterator (some (offset NewSecondaryIterator it.first_level_iter_.items i + j)) := by
  obtain ⟨s, -, hitems, hp⟩ := h.second
  have hj := hitems ▸ s.pos_lt j hp
  have : offset NewSecondaryIterator it.first_level_iter_.items (i + 1) ≤
      (entries NewSecondaryIterator it.first_level_iter_.items).length := offset_le (i + 1)
  rw [offset_succ] at this
  exact ⟨by omega, i, j, h, rfl⟩

/-- **The forward skip.**  From the `i`-th block at `p` (`none`: past its last entry), the loop
stands on the entry at `offset i + p`, which is the first entry of the next non-empty block when
`p` is past the end, or is not valid past the last block -/
theorem SkipEmptyDataBlocksForward_at (h : it.InBlock NewSecondaryIterator i p) :
    (it.SkipEmptyDataBlocksForward NewSecondaryIterator).Lands NewSecondaryIterator
      (below (offset NewSecondaryIterator it.first_level_iter_.items i +
          p.getD (blockAt NewSecondaryIterator it.first_level_iter_.items i).length)
        (entries NewSecondaryIterator it.first_level_iter_.items).length) := by
  revert i p
  fun_induction SkipEmptyDataBlocksForward NewSecondaryIterator it with
  | case1 it hv =>
    -- valid: the loop does not run
    intro i p h
    obtain ⟨s, hs, -, hp⟩ := h.second
    obtain ⟨j, rfl⟩ : ∃ j, p = some j := by
      rw [← hp]
      simpa [Valid, hs, SeqIter.Valid, Option.isSome_iff_exists] using hv
    obtain ⟨hlt, hl⟩ := h.lands
    rw [Option.getD_some, below, if_pos hlt]
    exact hl
  | case2 it hv hf =>
    intro i p h
    simp [SeqIter.Valid, h.first] at hf
  | case3 it hv hf it' =>
    rename_i ih
    intro i p h
    obtain ⟨s, hs, -, hp⟩ := h.second
    have hp' : p = none := by
      rw [← hp]
      simpa [Valid, hs, SeqIter.Valid] using hv
    subst hp'
    have hsucc : offset NewSecondaryIterator it.first_level_iter_.items (i + 1) =
        offset NewSecondaryIterator it.first_level_iter_.items i +
          (blockAt NewSecondaryIterator it.first_level_iter_.items i).length := offset_succ i
    by_cases hnext : i + 1 < it.first_level_iter_.items.length
    · -- on to the block of the next index entry
      have hpos : it.first_level_iter_.Next.pos = some (i + 1) := by
        simp [SeqIter.Next, h.first, hnext]
      obtain ⟨s', hs', hb⟩ := reposition_inBlock h.handleOk hpos SeqIter.SeekToFirst fun _ => rfl
      simp only [SeqIter.items_Next] at hs'
      -- the first entry of the next block, or past its end when it is empty: offset (i + 1)
      have e1 : it'.first_level_iter_ = it.first_level_iter_.Next :=
        InitDataBlock_first_level_iter_ _ _
      have e2 : s'.SeekToFirst.pos.getD
          (blockAt NewSecondaryIterator it.first_level_iter_.items (i + 1)).length = 0 :=
        hs' ▸ s'.getD_SeekToFirst
      have key := ih hb
      simp only [e1, SeqIter.items_Next] at key ⊢
      rw [Option.getD_none, ← hsucc]
      rwa [e2, Nat.add_zero] at key
    · -- past the last index entry: the loop ends with nullptr
      have hpos : it.first_level_iter_.Next.pos = none := by
        simp [SeqIter.Next, h.first, hnext]
      have hoff : offset NewSecondaryIterator it.first_level_iter_.items (i + 1) =
          (entries NewSecondaryIterator it.first_level_iter_.items).length := by
        rw [show i + 1 = it.first_level_iter_.items.length by have := h.lt_length; omega,
          offset_length]
      have hnone : it'.second_level_iter_ = none := InitDataBlock_none hpos
      rw [Option.getD_none, ← hsucc, hoff, below, if_neg (Nat.lt_irrefl _)]
      exact SkipEmptyDataBlocksForward_off (by simp [it', Valid, hnone]) (by simp [it', hpos])

/-- **The backward skip.**  From the `i`-th block at `p` (`none`: before its first entry), the
loop stands on the entry at `offset i + p`, on the last entry of the nearest earlier non-empty
block when `p` is before the start, or is not valid before the first block -/
theorem SkipEmptyDataBlocksBackward_at (h : it.InBlock NewSecondaryIterator i p) :
    (it.SkipEmptyDataBlocksBackward NewSecondaryIterator).Lands NewSecondaryIterator
      (p.elim (before (offset NewSecondaryIterator it.first_level_iter_.items i))
        fun j => some (offset NewSecondaryIterator it.first_level_iter_.items i + j)) := by
  revert i p
  fun_induction SkipEmptyDataBlocksBackward NewSecondaryIterator it with
  | case1 it hv =>
    -- valid: the loop does not run
    intro i p h
    obtain ⟨s, hs, -, hp⟩ := h.second
    obtain ⟨j, rfl⟩ : ∃ j, p = some j := by
      rw [← hp]
      simpa [Valid, hs, SeqIter.Valid, Option.isSome_iff_exists] using hv
    exact h.lands.2
  | case2 it hv hf =>
    intro i p h
    simp [SeqIter.Valid, h.first] at hf
  | case3 it hv hf it' =>
    rename_i ih
    intro i p h
    obtain ⟨s, hs, -, hp⟩ := h.second
    have hp' : p = none := by
      rw [← hp]
      simpa [Valid, hs, SeqIter.Valid] using hv
    subst hp'
    rw [Option.elim_none]
    cases i with
    | zero =>
      -- before the first index entry: the loop ends with nullptr
      have hpos : it.first_level_iter_.Prev.pos = none := by
        simp [SeqIter.Prev, h.first]
      have hnone : it'.second_level_iter_ = none := InitDataBlock_none hpos
      exact SkipEmptyDataBlocksBackward_off (by simp [it', Valid, hnone]) (by simp [it', hpos])
    | succ i =>
      -- back to the block of the previous index entry
      have hpos : it.first_level_iter_.Prev.pos = some i := by
        simp [SeqIter.Prev, h.first]
      obtain ⟨s', hs', hb⟩ := reposition_inBlock h.handleOk hpos SeqIter.SeekToLast fun _ => rfl
      simp only [SeqIter.items_Prev] at hs'
      -- the last entry of the previous block, or before its start when it is empty
      have e1 : it'.first_level_iter_ = it.first_level_iter_.Prev :=
        InitDataBlock_first_level_iter_ _ _
      have hsucc : offset NewSecondaryIterator it.first_level_iter_.items (i + 1) =
          offset NewSecondaryIterator it.first_level_iter_.items i +
            (blockAt NewSecondaryIterator it.first_level_iter_.items i).length := offset_succ i
      have e2 : s'.SeekToLast.pos.elim (before (offset NewSecondaryIterator it.first_level_iter_.items i))
          (fun j => some (offset NewSecondaryIterator it.first_level_iter_.items i + j)) =
          before (offset NewSecondaryIterator it.first_level_iter_.items (i + 1)) := by
        rw [hsucc, ← hs']
        exact s'.elim_SeekToLast _
      have key := ih hb
      simp only [e1, SeqIter.items_Prev] at key ⊢
      rwa [e2] at key

omit [DecidableEq H] in
/-- a move inside the block keeps the iterator on the same index entry and block -/
theorem InBlock.map (h : it.InBlock NewSecondaryIterator i p) (f : SeqIter κ V → SeqIter κ V)
    (hf : ∀ s, (f s).items = s.items) :
    ∃ s, s.items = blockAt NewSecondaryIterator it.first_level_iter_.items i ∧ s.pos = p ∧
      InBlock NewSecondaryIterator { it with second_level_iter_ := it.second_level_iter_.map f } i
        (f s).pos := by
  obtain ⟨s, hs, hitems, hp⟩ := h.second
  exact ⟨s, hitems, hp, h.first, h.handle, f s, by simp [hs], by rw [hf, hitems], rfl⟩

end Positions

/-! ## The moves, read in the concatenation -/

section Moves

variable [DecidableEq H] {NewSecondaryIterator : H → List (κ × V)} {it : TwoLevelIterator κ H V}

/-- `Next` moves one entry on in the concatenation, off its end after the last -/
theorem Next_lands {g : Nat} (h : it.Lands NewSecondaryIterator (some g)) :
    (it.Next NewSecondaryIterator).Lands NewSecondaryIterator
      (below (g + 1) (entries NewSecondaryIterator it.first_level_iter_.items).length) := by
  obtain ⟨i, j, hb, rfl⟩ := h
  obtain ⟨s, hitems, hp, hb'⟩ := hb.map SeqIter.Next fun _ => rfl
  have key := SkipEmptyDataBlocksForward_at hb'
  have e : s.Next.pos.getD (blockAt NewSecondaryIterator it.first_level_iter_.items i).length =
      j + 1 := hitems ▸ s.getD_Next hp
  rwa [e, ← Nat.add_assoc] at key

/-- `Prev` moves one entry back in the concatenation, off its start before the first -/
theorem Prev_lands {g : Nat} (h : it.Lands NewSecondaryIterator (some g)) :
    (it.Prev NewSecondaryIterator).Lands NewSecondaryIterator (before g) := by
  obtain ⟨i, j, hb, rfl⟩ := h
  obtain ⟨s, -, hp, hb'⟩ := hb.map SeqIter.Prev fun _ => rfl
  have key := SkipEmptyDataBlocksBackward_at hb'
  rwa [s.elim_Prev hp] at key

theorem SeekToFirst_eq :
    it.SeekToFirst NewSecondaryIterator =
      (it.reposition NewSecondaryIterator it.first_level_iter_.SeekToFirst SeqIter.SeekToFirst
        ).SkipEmptyDataBlocksForward NewSecondaryIterator := rfl

/-- `SeekToFirst` stands on the first entry of the concatenation -/
theorem SeekToFirst_lands (hok : it.HandleOk NewSecondaryIterator) :
    (it.SeekToFirst NewSecondaryIterator).Lands NewSecondaryIterator
      (below 0 (entries NewSecondaryIterator it.first_level_iter_.items).length) := by
  rw [SeekToFirst_eq]
  by_cases hm : 0 < it.first_level_iter_.items.length
  · -- the block of the first index entry
    have hpos : it.first_level_iter_.SeekToFirst.pos = some 0 := by
      simp [SeqIter.SeekToFirst, hm]
    obtain ⟨s, hs, hb⟩ := reposition_inBlock hok hpos SeqIter.SeekToFirst fun _ => rfl
    simp only [SeqIter.items_SeekToFirst] at hs
    have key := SkipEmptyDataBlocksForward_at hb
    simp only [reposition_first_level_iter_, SeqIter.items_SeekToFirst] at key
    rwa [← hs, s.getD_SeekToFirst, offset_zero] at key
  · -- an empty index: nothing to stand on
    have hpos : it.first_level_iter_.SeekToFirst.pos = none := by
      simp [SeqIter.SeekToFirst, hm]
    have he : it.first_level_iter_.items = [] := List.eq_nil_of_length_eq_zero (by omega)
    rw [he]
    exact SkipEmptyDataBlocksForward_off (reposition_off hpos _) (by simp [hpos])

theorem SeekToLast_eq :
    it.SeekToLast NewSecondaryIterator =
      (it.reposition NewSecondaryIterator it.first_level_iter_.SeekToLast SeqIter.SeekToLast
        ).SkipEmptyDataBlocksBackward NewSecondaryIterator := rfl

/-- the last index entry's block, its iterator placed by `f` where `SeekToLast` would place it,
then the backward skip: the iterator stands on the last entry of the concatenation -/
theorem lastBlock_lands (hok : it.HandleOk NewSecondaryIterator) (f : SeqIter κ V → SeqIter κ V)
    (hf : ∀ s, (f s).items = s.items)
    (hlast : ∀ s : SeqIter κ V, s.items = blockAt NewSecondaryIterator it.first_level_iter_.items
      (it.first_level_iter_.items.length - 1) → (f s).pos = s.SeekToLast.pos) :
    ((it.reposition NewSecondaryIterator it.first_level_iter_.SeekToLast f
      ).SkipEmptyDataBlocksBackward NewSecondaryIterator).Lands NewSecondaryIterator
      (before (entries NewSecondaryIterator it.first_level_iter_.items).length) := by
  by_cases hm : 0 < it.first_level_iter_.items.length
  · -- the block of the last index entry
    have hpos : it.first_level_iter_.SeekToLast.pos = some (it.first_level_iter_.items.length - 1) := by
      simp [SeqIter.SeekToLast, hm]
    obtain ⟨s, hs, hb⟩ := reposition_inBlock hok hpos f hf
    simp only [SeqIter.items_SeekToLast] at hs
    have key := SkipEmptyDataBlocksBackward_at hb
    simp only [reposition_first_level_iter_, SeqIter.items_SeekToLast] at key
    rwa [hlast s hs, s.elim_SeekToLast, hs, ← offset_succ, Nat.sub_add_cancel hm,
      offset_length] at key
  · -- an empty index: nothing to stand on
    have hpos : it.first_level_iter_.SeekToLast.pos = none := by
      simp [SeqIter.SeekToLast, hm]
    have he : it.first_level_iter_.items = [] := List.eq_nil_of_length_eq_zero (by omega)
    rw [he]
    exact SkipEmptyDataBlocksBackward_off (reposition_off hpos f) (by simp [hpos])

/-- `SeekToLast` stands on the last entry of the concatenation -/
theorem SeekToLast_lands (hok : it.HandleOk NewSecondaryIterator) :
    (it.SeekToLast NewSecondaryIterator).Lands NewSecondaryIterator
      (before (entries NewSecondaryIterator it.first_level_iter_.items).length) := by
  rw [SeekToLast_eq]
  exact lastBlock_lands hok SeqIter.SeekToLast (fun _ => rfl) fun _ _ => rfl

end Moves

/-! ## An index whose keys bound its blocks -/

section Layered

variable [LinearOrder κ] (NewSecondaryIterator : H → List (κ × V))

/-- the layout the iterator relies on: index keys `key_1 < ... < key_m`, each block sorted, and
`last(B_i) ≤ key_i < first(B_{i+1})` -/
structure Layered (index : List (κ × H)) : Prop where
  keys_lt : index.Pairwise fun e e' => e.1 < e'.1
  sorted : ∀ e ∈ index, (NewSecondaryIterator e.2).Pairwise fun x y => x.1 ≤ y.1
  last_le : ∀ e ∈ index, ∀ x ∈ (NewSecondaryIterator e.2).getLast?, x.1 ≤ e.1
  lt_first : index.IsChain fun e e' => ∀ x ∈ (NewSecondaryIterator e'.2).head?, e.1 < x.1

variable {NewSecondaryIterator} {index : List (κ × H)}

theorem Layered.tail {e : κ × H} (h : Layered NewSecondaryIterator (e :: index)) :
    Layered NewSecondaryIterator index := by
  refine ⟨h.keys_lt.of_cons, fun e' he => h.sorted e' (List.mem_cons_of_mem e he),
    fun e' he => h.last_le e' (List.mem_cons_of_mem e he), ?_⟩
  cases index with
  | nil => exact List.IsChain.nil
  | cons b l => exact (List.isChain_cons_cons.mp h.lt_first).2

/-- every entry of a block lies at or below its index key -/
theorem Layered.le_key (h : Layered NewSecondaryIterator index) {e : κ × H} (he : e ∈ index)
    {x : κ × V} (hx : x ∈ NewSecondaryIterator e.2) : x.1 ≤ e.1 := by
  obtain ⟨y, hy⟩ := Option.isSome_iff_exists.mp (List.getLast?_isSome.mpr (List.ne_nil_of_mem hx))
  exact le_trans ((h.sorted e he).le_getLast hy hx) (h.last_le e he y hy)

/-- every index key lies below every entry of every later block -/
theorem Layered.lt_later (h : Layered NewSecondaryIterator index) :
    index.Pairwise fun e e' => ∀ x ∈ NewSecondaryIterator e'.2, e.1 < x.1 := by
  induction index with
  | nil => exact .nil
  | cons a l ih =>
    refine List.pairwise_cons.mpr ⟨?_, ih h.tail⟩
    cases l with
    | nil => simp
    | cons b l =>
      -- `a` is below the first entry of `b`'s block, and below `b`'s key
      intro e' he' x hx
      rcases List.mem_cons.mp he' with rfl | he'
      · obtain ⟨y, hy⟩ := Option.isSome_iff_exists.mp
          (List.isSome_head?.mpr (List.ne_nil_of_mem hx))
        have hay : a.1 < y.1 := (List.isChain_cons_cons.mp h.lt_first).1 y hy
        exact lt_of_lt_of_le hay ((h.sorted e' (by simp)).head_le hy hx)
      · have hab : a.1 < b.1 := List.rel_of_pairwise_cons h.keys_lt List.mem_cons_self
        have hbx : b.1 < x.1 := List.rel_of_pairwise_cons (ih h.tail) he' x hx
        exact lt_trans hab hbx

/-- an entry before the block of the `i`-th index entry lies at or below an earlier key -/
theorem Layered.le_of_mem_take (h : Layered NewSecondaryIterator index) {i : Nat} {x : κ × V}
    (hx : x ∈ entries NewSecondaryIterator (index.take i)) : ∃ e ∈ index.take i, x.1 ≤ e.1 := by
  obtain ⟨e, he, hxe⟩ := List.mem_flatMap.mp hx
  exact ⟨e, he, h.le_key (List.mem_of_mem_take he) hxe⟩

/-- an entry after the block of the `i`-th index entry lies above its key -/
theorem Layered.lt_of_mem_drop (h : Layered NewSecondaryIterator index) {i : Nat}
    (hi : i < index.length) {x : κ × V}
    (hx : x ∈ entries NewSecondaryIterator (index.drop (i + 1))) : index[i].1 < x.1 := by
  have hsplit : index = index.take i ++ index[i] :: index.drop (i + 1) := by simp
  have hp := h.lt_later
  rw [hsplit, List.pairwise_append, List.pairwise_cons] at hp
  obtain ⟨e, he, hxe⟩ := List.mem_flatMap.mp hx
  exact hp.2.1.1 e he x hxe

variable {target : κ}

/-- where no index key reaches the target, every entry is below it -/
theorem Layered.lt_of_findIdx?_none (h : Layered NewSecondaryIterator index)
    (hi : index.findIdx? (fun e => target ≤ e.1) = none) {x : κ × V}
    (hx : x ∈ entries NewSecondaryIterator index) : x.1 < target := by
  obtain ⟨e, he, hxe⟩ := List.mem_flatMap.mp hx
  have he' : ¬ target ≤ e.1 := by simpa using List.findIdx?_eq_none_iff.mp hi e he
  exact lt_of_le_of_lt (h.le_key he hxe) (lt_of_not_ge he')

/-- around the block of the first index key not below the target: every entry before it is
below the target, every entry after it above -/
theorem Layered.around_findIdx? (h : Layered NewSecondaryIterator index) {i : Nat}
    (hi : index.findIdx? (fun e => target ≤ e.1) = some i) :
    (∀ x ∈ entries NewSecondaryIterator (index.take i), x.1 < target) ∧
      ∀ x ∈ entries NewSecondaryIterator (index.drop (i + 1)), target < x.1 := by
  obtain ⟨hlt, hit, -⟩ := List.findIdx?_eq_some_iff_getElem.mp hi
  have hfind := (List.findIdx?_eq_some_iff_findIdx_eq.mp hi).2
  constructor
  · intro x hx
    obtain ⟨e, he, hxe⟩ := h.le_of_mem_take hx
    rw [← hfind] at he
    have he' : ¬ target ≤ e.1 := by simpa using List.of_mem_take_findIdx he
    exact lt_of_le_of_lt hxe (lt_of_not_ge he')
  · intro x hx
    exact lt_of_le_of_lt (by simpa using hit) (h.lt_of_mem_drop hlt hx)

end Layered

/-! ## The seeks -/

section Seeks

variable [DecidableEq H] [LinearOrder κ] {NewSecondaryIterator : H → List (κ × V)}
  {it : TwoLevelIterator κ H V}

theorem Seek_eq (target : κ) :
    it.Seek NewSecondaryIterator target =
      (it.reposition NewSecondaryIterator (it.first_level_iter_.Seek target) (SeqIter.Seek · target)
        ).SkipEmptyDataBlocksForward NewSecondaryIterator := rfl

/-- `Seek(target)` stands on the first entry of the concatenation not below `target` -/
theorem Seek_lands (hl : Layered NewSecondaryIterator it.first_level_iter_.items)
    (hok : it.HandleOk NewSecondaryIterator) (target : κ) :
    (it.Seek NewSecondaryIterator target).Lands NewSecondaryIterator
      ((entries NewSecondaryIterator it.first_level_iter_.items).findIdx? fun x => target ≤ x.1) := by
  rw [Seek_eq]
  cases hi : it.first_level_iter_.items.findIdx? (fun e => target ≤ e.1) with
  | none =>
    -- every index key is below the target, and so is every entry
    have hall : ∀ x ∈ entries NewSecondaryIterator it.first_level_iter_.items,
        decide (target ≤ x.1) = false := fun x hx => by
      simpa using hl.lt_of_findIdx?_none hi hx
    have hpos : (it.first_level_iter_.Seek target).pos = none := hi
    rw [List.findIdx?_eq_none_iff.mpr hall]
    exact SkipEmptyDataBlocksForward_off (reposition_off hpos _) (by rw [reposition_first_level_iter_]; exact hpos)
  | some i =>
    -- the block of the first index key not below the target, or the next non-empty one
    have hlt := (List.findIdx?_eq_some_iff_findIdx_eq.mp hi).1
    obtain ⟨hA, hC⟩ := hl.around_findIdx? hi
    have hpos : (it.first_level_iter_.Seek target).pos = some i := hi
    obtain ⟨s, hs, hb⟩ := reposition_inBlock hok hpos (SeqIter.Seek · target) fun _ => rfl
    simp only [SeqIter.items_Seek] at hs
    have key := SkipEmptyDataBlocksForward_at hb
    simp only [reposition_first_level_iter_, SeqIter.items_Seek] at key
    rw [entries_eq_split hlt, List.findIdx?_around (p := fun x : κ × V => decide (target ≤ x.1))
      (fun x hx => by simpa using hA x hx) (fun x hx => by simpa using le_of_lt (hC x hx)),
      ← entries_eq_split hlt]
    have e : (s.Seek target).pos =
        (blockAt NewSecondaryIterator it.first_level_iter_.items i).findIdx? fun x => target ≤ x.1 := by
      rw [← hs]
      rfl
    rwa [e] at key

theorem SeekForPrev_eq (target : κ) :
    it.SeekForPrev NewSecondaryIterator target =
      (let st := it.reposition NewSecondaryIterator (it.first_level_iter_.Seek target)
        (SeqIter.SeekForPrev · target)
       if st.Valid then st
       else (if st.first_level_iter_.Valid then st
         else st.reposition NewSecondaryIterator st.first_level_iter_.SeekToLast
           (SeqIter.SeekForPrev · target)).SkipEmptyDataBlocksBackward NewSecondaryIterator) := rfl

/-- `SeekForPrev(target)` stands on the last entry of the concatenation not above `target` -/
theorem SeekForPrev_lands (hl : Layered NewSecondaryIterator it.first_level_iter_.items)
    (hok : it.HandleOk NewSecondaryIterator) (target : κ) :
    (it.SeekForPrev NewSecondaryIterator target).Lands NewSecondaryIterator
      ((entries NewSecondaryIterator it.first_level_iter_.items).findLastIdx? fun x => x.1 ≤ target) := by
  rw [SeekForPrev_eq]
  dsimp only
  cases hi : it.first_level_iter_.items.findIdx? (fun e => target ≤ e.1) with
  | some i =>
    -- the block of the first index key not below the target: its last entry not above the
    -- target, or the last entry of the nearest earlier non-empty block
    have hlt := (List.findIdx?_eq_some_iff_findIdx_eq.mp hi).1
    obtain ⟨hA, hC⟩ := hl.around_findIdx? hi
    have hpos : (it.first_level_iter_.Seek target).pos = some i := hi
    obtain ⟨s, hs, hb⟩ := reposition_inBlock hok hpos (SeqIter.SeekForPrev · target) fun _ => rfl
    simp only [SeqIter.items_Seek] at hs
    rw [entries_eq_split hlt, List.findLastIdx?_around (p := fun x : κ × V => decide (x.1 ≤ target))
      (fun x hx => by simpa using le_of_lt (hA x hx)) (fun x hx => by simpa using hC x hx)]
    have e : (s.SeekForPrev target).pos =
        (blockAt NewSecondaryIterator it.first_level_iter_.items i).findLastIdx? fun x => x.1 ≤ target := by
      rw [← hs]
      rfl
    rw [← e]
    split
    · -- an entry of this block is not above the target
      rename_i hv
      rw [hb.valid_eq] at hv
      obtain ⟨j, hj⟩ := Option.isSome_iff_exists.mp hv
      rw [hj] at hb
      rw [hj, Option.elim_some]
      have key := hb.lands.2
      simp only [reposition_first_level_iter_, SeqIter.items_Seek] at key
      exact key
    · -- none is: the backward skip from before this block's first entry
      rename_i hv
      rw [hb.valid_eq] at hv
      have hj : (s.SeekForPrev target).pos = none := by simpa using hv
      rw [if_pos (by simp [SeqIter.Valid, hpos])]
      have key := SkipEmptyDataBlocksBackward_at hb
      simp only [reposition_first_level_iter_, SeqIter.items_Seek] at key
      rwa [hj] at key ⊢
  | none =>
    -- every index key is below the target, and so is every entry: the last entry
    have hall : ∀ x ∈ entries NewSecondaryIterator it.first_level_iter_.items,
        decide (x.1 ≤ target) = true := fun x hx => by
      simpa using le_of_lt (hl.lt_of_findIdx?_none hi hx)
    have hpos : (it.first_level_iter_.Seek target).pos = none := hi
    have hnone : (it.reposition NewSecondaryIterator (it.first_level_iter_.Seek target)
        (SeqIter.SeekForPrev · target)).second_level_iter_ = none :=
      reposition_second_level_iter_ hpos _
    rw [List.findLastIdx?_of_forall hall, ← SeqIter.before_eq]
    rw [if_neg (by simp [Valid, hnone]), if_neg (by simp [SeqIter.Valid, hpos])]
    -- no index key reaches the target: `SeekToLast` on the first level, from a state with no
    -- second level
    have hok' : HandleOk NewSecondaryIterator
        (it.reposition NewSecondaryIterator (it.first_level_iter_.Seek target)
          (SeqIter.SeekForPrev · target)) := by
      intro s hs
      simp [hnone] at hs
    have key := lastBlock_lands hok' (SeqIter.SeekForPrev · target) (fun _ => rfl) fun s hs =>
      s.pos_SeekForPrev_of_forall fun x hx => by
        simp only [reposition_first_level_iter_, SeqIter.items_Seek] at hs
        rw [hs] at hx
        exact of_decide_eq_true (hall x (mem_entries_of_mem_blockAt hx))
    simp only [reposition_first_level_iter_, SeqIter.items_Seek] at key ⊢
    exact key

end Seeks

/-! ## Runs: the iterator over the concatenation -/

section Runs

variable [DecidableEq H] [LinearOrder κ] {NewSecondaryIterator : H → List (κ × V)}
  {it : TwoLevelIterator κ H V}

open SeqIter (Move)

omit [LinearOrder κ] in
theorem SkipEmptyDataBlocksForward_items :
    (it.SkipEmptyDataBlocksForward NewSecondaryIterator).first_level_iter_.items =
      it.first_level_iter_.items := by
  fun_induction SkipEmptyDataBlocksForward NewSecondaryIterator it with
  | case1 it hv => rfl
  | case2 it hv hf => rfl
  | case3 it hv hf it' ih => rw [ih]; simp [it']

omit [LinearOrder κ] in
theorem SkipEmptyDataBlocksBackward_items :
    (it.SkipEmptyDataBlocksBackward NewSecondaryIterator).first_level_iter_.items =
      it.first_level_iter_.items := by
  fun_induction SkipEmptyDataBlocksBackward NewSecondaryIterator it with
  | case1 it hv => rfl
  | case2 it hv hf => rfl
  | case3 it hv hf it' ih => rw [ih]; simp [it']

/-- no move changes the index -/
@[simp] theorem items_move (m : Move κ) :
    (it.move NewSecondaryIterator m).first_level_iter_.items = it.first_level_iter_.items := by
  cases m with
  | SeekToFirst => simp [move, SeekToFirst_eq, SkipEmptyDataBlocksForward_items]
  | SeekToLast => simp [move, SeekToLast_eq, SkipEmptyDataBlocksBackward_items]
  | Seek target => simp [move, Seek_eq, SkipEmptyDataBlocksForward_items]
  | SeekForPrev target =>
    rw [move, SeekForPrev_eq]
    dsimp only
    split
    · simp
    · rw [SkipEmptyDataBlocksBackward_items]
      split <;> simp
  | Next => simp [move, Next, SkipEmptyDataBlocksForward_items]
  | Prev => simp [move, Prev, SkipEmptyDataBlocksBackward_items]

@[simp] theorem items_run (ms : List (Move κ)) :
    (it.run NewSecondaryIterator ms).first_level_iter_.items = it.first_level_iter_.items := by
  induction ms generalizing it with
  | nil => rfl
  | cons m ms ih =>
    have key : ((it.move NewSecondaryIterator m).run NewSecondaryIterator ms).first_level_iter_.items =
        (it.move NewSecondaryIterator m).first_level_iter_.items := ih
    exact key.trans (items_move m)

variable {g : Option Nat}

/-- **One move.**  Every move of the interface lands where the same move lands in the
concatenation -/
theorem Lands.move (hl : Layered NewSecondaryIterator it.first_level_iter_.items)
    (h : it.Lands NewSecondaryIterator g) (m : Move κ) (hm : m.Allowed g) :
    (it.move NewSecondaryIterator m).Lands NewSecondaryIterator
      (m.pos (entries NewSecondaryIterator it.first_level_iter_.items) g) := by
  cases m with
  | SeekToFirst => exact SeekToFirst_lands h.handleOk
  | SeekToLast => exact SeekToLast_lands h.handleOk
  | Seek target => exact Seek_lands hl h.handleOk target
  | SeekForPrev target => exact SeekForPrev_lands hl h.handleOk target
  | Next =>
    -- the interface moves only a valid iterator
    obtain ⟨g, rfl⟩ := Option.isSome_iff_exists.mp hm
    exact Next_lands h
  | Prev =>
    obtain ⟨g, rfl⟩ := Option.isSome_iff_exists.mp hm
    exact Prev_lands h

/-- **A run of moves**, by induction on it from `Lands.move` -/
theorem Lands.run (hl : Layered NewSecondaryIterator it.first_level_iter_.items)
    (h : it.Lands NewSecondaryIterator g) {ms : List (Move κ)}
    (hms : Move.Allows (entries NewSecondaryIterator it.first_level_iter_.items) g ms) :
    (it.run NewSecondaryIterator ms).Lands NewSecondaryIterator
      (Move.runPos (entries NewSecondaryIterator it.first_level_iter_.items) g ms) := by
  induction ms generalizing it g with
  | nil => exact h
  | cons m ms ih =>
    -- the index is the same after the move, and so is the concatenation
    have e : (it.move NewSecondaryIterator m).first_level_iter_.items = it.first_level_iter_.items :=
      items_move m
    have hl' : Layered NewSecondaryIterator (it.move NewSecondaryIterator m).first_level_iter_.items := by
      rw [e]
      exact hl
    have key := ih hl' (h.move hl m hms.1) (by rw [e]; exact hms.2)
    rw [e] at key
    exact key

omit [DecidableEq H] [LinearOrder κ] in
/-- a new iterator stands on no entry, whatever its first level stands on -/
theorem new_lands (first : SeqIter κ H) :
    (new first : TwoLevelIterator κ H V).Lands NewSecondaryIterator none :=
  ⟨rfl, fun s hs => by simp [new] at hs⟩

/-- after a run the interface allows, a new iterator stands on the entry of the concatenation
that the run reaches -/
theorem current_run {first : SeqIter κ H} (hl : Layered NewSecondaryIterator first.items)
    {ms : List (Move κ)} (hms : Move.Allows (entries NewSecondaryIterator first.items) none ms) :
    ((new first).run NewSecondaryIterator ms).current =
      (Move.runPos (entries NewSecondaryIterator first.items) none ms).bind
        ((entries NewSecondaryIterator first.items)[·]?) := by
  have h0 : (new first : TwoLevelIterator κ H V).Lands NewSecondaryIterator none := new_lands first
  have h := h0.run hl hms
  rw [h.current, items_run]
  rfl

/-- **The two-level iterator is the concatenation of its blocks.**  Over an index whose keys
bound its blocks, after every run of moves the interface allows, the iterator is valid and
stands on an entry exactly when a `SeqIter` over `B_1 ++ ... ++ B_m` does, and on the same
entry; `SeekToFirst` and then `Next` yield the concatenation, and `SeekToLast` and then `Prev`
yield it reversed -/
theorem concatenation_of_blocks (first : SeqIter κ H) (hl : Layered NewSecondaryIterator first.items) :
    (∀ ms : List (Move κ), Move.Allows (entries NewSecondaryIterator first.items) none ms →
      ((new first).run NewSecondaryIterator ms).Valid =
          ((SeqIter.new (entries NewSecondaryIterator first.items)).run ms).Valid ∧
        ((new first).run NewSecondaryIterator ms).current =
          ((SeqIter.new (entries NewSecondaryIterator first.items)).run ms).current) ∧
    (∀ k ≤ (entries NewSecondaryIterator first.items).length,
      ((new first).run NewSecondaryIterator (.SeekToFirst :: List.replicate k .Next)).current =
        (entries NewSecondaryIterator first.items)[k]?) ∧
    ∀ k ≤ (entries NewSecondaryIterator first.items).length,
      ((new first).run NewSecondaryIterator (.SeekToLast :: List.replicate k .Prev)).current =
        (entries NewSecondaryIterator first.items).reverse[k]? := by
  refine ⟨fun ms hms => ⟨?_, ?_⟩, fun k hk => ?_, fun k hk => ?_⟩
  · -- valid exactly when the run reaches an entry, on both sides
    have h0 : (new first : TwoLevelIterator κ H V).Lands NewSecondaryIterator none := new_lands first
    have h := h0.run hl hms
    rw [h.valid, SeqIter.Valid, SeqIter.pos_run]
    rfl
  · rw [current_run hl hms, SeqIter.current, SeqIter.pos_run, SeqIter.items_run]
    rfl
  · -- the forward scan reaches the `k`-th entry
    obtain ⟨hpos, hall⟩ := Move.runPos_SeekToFirst_Next hk none
    rw [current_run hl hall, hpos, SeqIter.bind_below]
  · -- the backward scan reaches the `k`-th entry from the end
    obtain ⟨hpos, hall⟩ := Move.runPos_SeekToLast_Prev hk none
    rw [current_run hl hall, hpos, SeqIter.bind_before_sub]

/-- three blocks, the middle one empty, under the index keys 2, 5, 9: two moves `Next` after
`SeekToFirst`, and two moves `Prev` after `SeekToLast`, pass over the empty block -/
theorem concatenation_of_blocks_skips_empty :
    let blocks := fun h : Nat =>
      ([[(1, 10), (2, 20)], [], [(6, 60), (9, 90)]] : List (List (Nat × Nat))).getD h []
    let first := SeqIter.new [(2, 0), (5, 1), (9, 2)]
    Layered blocks first.items ∧
      ((new first).run blocks (.SeekToFirst :: List.replicate 2 .Next)).current = some (6, 60) ∧
      ((new first).run blocks (.SeekToLast :: List.replicate 2 .Prev)).current = some (2, 20) := by
  intro blocks first
  have hl : Layered blocks first.items := ⟨by decide, by decide, by decide, by decide⟩
  refine ⟨hl, ?_, ?_⟩
  · rw [(concatenation_of_blocks first hl).2.1 2 (by decide)]
    rfl
  · rw [(concatenation_of_blocks first hl).2.2 2 (by decide)]
    rfl

end Runs

end TwoLevelIterator

end RocksDB
