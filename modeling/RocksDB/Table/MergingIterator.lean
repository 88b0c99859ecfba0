import RocksDB.Lib.SortedUnion
import RocksDB.Util.Heap

/-!
# table/merging_iterator.cc: the merge of sorted children

`MergingIterator` merges child iterators into one.  Going forward, `minHeap_` holds the valid
children with the least key on top; going backward, `maxHeap_` holds them with the greatest key
on top; `current_` is the child on top.  A change of direction first moves every child but
`current_` across the current key: the blocks of `Next()` under `direction_ != kForward`
(`switchForward`) and of `Prev()` under `direction_ != kReverse` (`switchReverse`).

The children are `SeqIter`s, and a pointer to a child is its place in `children_`.  The heaps are
the `BinaryHeap`s of `util/heap.h` over those places, under `MinIteratorComparator` and
`MaxIteratorComparator` of `table/iter_heap.h`, which compare the keys the children stand on at
the time of each comparison.  Where the source asserts, the model returns `none`: `Valid()` before
`Next()` and `Prev()`, and `current_ == CurrentForward()` (`CurrentReverse()`) before the heap is
put right.  `AddIterator`, `status()` and the pinning of keys are not modelled.
-/

namespace RocksDB

open SeqIter

/-- `enum Direction` -/
inductive Direction
  | kForward
  | kReverse
deriving DecidableEq, Repr

/-- `MergingIterator` over `SeqIter` children; `current_` and the heaps hold places in
`children_` -/
structure MergingIterator (κ β : Type*) where
  children_ : List (SeqIter κ β)
  current_ : Option Nat
  direction_ : Direction
  minHeap_ : BinaryHeap Nat
  prefix_seek_mode_ : Bool
  maxHeap_ : Option (BinaryHeap Nat)

namespace MergingIterator

variable {κ β : Type*}

/-- `key()` of the child at `i`, in `WithBot κ`: the comparators only compare valid children -/
def keyOf (children_ : List (SeqIter κ β)) (i : Nat) : WithBot κ :=
  (children_[i]?.bind SeqIter.current).map Prod.fst

/-- `Valid()` of the child at `i` -/
def validAt (children_ : List (SeqIter κ β)) (i : Nat) : Bool := children_[i]?.any SeqIter.Valid

/-- the loops `for (auto &child : children_) { move(child); if (child.Valid()) push(&child); }`,
from the children at the places `is` on; each push compares the children as they stand then -/
def pushChildren (cmp : List (SeqIter κ β) → Nat → Nat → Bool)
    (move : Nat → SeqIter κ β → SeqIter κ β) :
    List Nat → List (SeqIter κ β) → BinaryHeap Nat →
      Option (List (SeqIter κ β) × BinaryHeap Nat)
  | [], children_, heap => some (children_, heap)
  | i :: is, children_, heap =>
    let children_ := children_.modify i (move i)
    if validAt children_ i then
      (heap.push (cmp children_) i).bind fun heap => pushChildren cmp move is children_ heap
    else pushChildren cmp move is children_ heap

section Plain

variable (it : MergingIterator κ β)

def Valid : Bool := it.current_.isSome

/-- `key()` and `value()`: the entry `current_` stands on -/
def current : Option (κ × β) := it.current_.bind fun i => it.children_[i]?.bind SeqIter.current

def ClearHeaps : MergingIterator κ β :=
  { it with minHeap_ := it.minHeap_.clear, maxHeap_ := it.maxHeap_.map BinaryHeap.clear }

def InitMaxHeap : MergingIterator κ β :=
  if it.maxHeap_.isNone then { it with maxHeap_ := some BinaryHeap.new } else it

def CurrentForward : Option Nat := if !it.minHeap_.empty then it.minHeap_.top else none

/-- `CurrentReverse()`; each call follows an `InitMaxHeap()`, so `maxHeap_` is there -/
def CurrentReverse : Option Nat := it.maxHeap_.bind fun h => if !h.empty then h.top else none

end Plain

section Model

variable [LinearOrder κ] (it : MergingIterator κ β)

/-- `MinIteratorComparator`: a greater key is "less", so that the least key is on top -/
def MinIteratorComparator (children_ : List (SeqIter κ β)) (a b : Nat) : Bool :=
  compare (keyOf children_ a) (keyOf children_ b) == .gt

/-- `MaxIteratorComparator`: the greatest key is on top -/
def MaxIteratorComparator (children_ : List (SeqIter κ β)) (a b : Nat) : Bool :=
  compare (keyOf children_ a) (keyOf children_ b) == .lt

/-- the loop over all children that pushes on `minHeap_` -/
def forEachMin (move : Nat → SeqIter κ β → SeqIter κ β) : Option (MergingIterator κ β) :=
  (pushChildren MinIteratorComparator move (List.range it.children_.length) it.children_
    it.minHeap_).map fun r => { it with children_ := r.1, minHeap_ := r.2 }

/-- the loop over all children that pushes on `maxHeap_` -/
def forEachMax (move : Nat → SeqIter κ β → SeqIter κ β) : Option (MergingIterator κ β) :=
  it.maxHeap_.bind fun h =>
    (pushChildren MaxIteratorComparator move (List.range it.children_.length) it.children_ h).map
      fun r => { it with children_ := r.1, maxHeap_ := some r.2 }

/-- `MergingIterator(comparator, children, n, is_arena_mode, prefix_seek_mode)` -/
def new (children : List (SeqIter κ β)) (prefix_seek_mode : Bool) :
    Option (MergingIterator κ β) :=
  let it : MergingIterator κ β :=
    ⟨children, none, .kForward, BinaryHeap.new, prefix_seek_mode, none⟩
  (it.forEachMin fun _ child => child).map fun it => { it with current_ := it.CurrentForward }

/-- `SeekToFirst()` and `Seek(target)`: every child moved, then pushed on `minHeap_` -/
def seekForward (move : SeqIter κ β → SeqIter κ β) : Option (MergingIterator κ β) :=
  (it.ClearHeaps.forEachMin fun _ child => move child).map fun it =>
    { it with direction_ := .kForward, current_ := it.CurrentForward }

/-- `SeekToLast()` and `SeekForPrev(target)`: every child moved, then pushed on `maxHeap_` -/
def seekReverse (move : SeqIter κ β → SeqIter κ β) : Option (MergingIterator κ β) :=
  (it.ClearHeaps.InitMaxHeap.forEachMax fun _ child => move child).map fun it =>
    { it with direction_ := .kReverse, current_ := it.CurrentReverse }

def SeekToFirst : Option (MergingIterator κ β) := it.seekForward SeqIter.SeekToFirst

def SeekToLast : Option (MergingIterator κ β) := it.seekReverse SeqIter.SeekToLast

def Seek (target : κ) : Option (MergingIterator κ β) := it.seekForward (SeqIter.Seek · target)

def SeekForPrev (target : κ) : Option (MergingIterator κ β) :=
  it.seekReverse (SeqIter.SeekForPrev · target)

/-- the body of the loop of `Next()` under `direction_ != kForward`: a child but `current_`
sought to `key`, and moved on where it stands on `key` -/
def seekPastKey (key : κ) (current_ : Option Nat) (i : Nat) (child : SeqIter κ β) :
    SeqIter κ β :=
  if some i ≠ current_ then
    let child := child.Seek key
    if child.Valid && child.current.any (fun e => compare key e.1 == .eq) then child.Next
    else child
  else child

/-- the body of the loop of `Prev()` under `direction_ != kReverse`: a child but `current_` moved
to its last entry below `key` -/
def seekBeforeKey (prefix_seek_mode_ : Bool) (key : κ) (current_ : Option Nat) (i : Nat)
    (child : SeqIter κ β) : SeqIter κ β :=
  if some i ≠ current_ then
    if !prefix_seek_mode_ then
      let child := child.Seek key
      if child.Valid then child.Prev else child.SeekToLast
    else
      let child := child.SeekForPrev key
      if child.Valid && child.current.any (fun e => compare key e.1 == .eq) then child.Prev
      else child
  else child

/-- the block of `Next()` under `direction_ != kForward`: the loop of `seekPastKey`, pushing every
valid child on `minHeap_` -/
def switchForward (key : κ) : Option (MergingIterator κ β) :=
  (it.ClearHeaps.forEachMin (seekPastKey key it.current_)).map fun it =>
    { it with direction_ := .kForward }

/-- the block of `Prev()` under `direction_ != kReverse`: the loop of `seekBeforeKey`, pushing
every valid child on `maxHeap_` -/
def switchReverse (key : κ) : Option (MergingIterator κ β) :=
  (it.ClearHeaps.InitMaxHeap.forEachMax (seekBeforeKey it.prefix_seek_mode_ key it.current_)).map
    fun it' =>
      let it' := { it' with direction_ := .kReverse }
      if !it.prefix_seek_mode_ then { it' with current_ := it'.CurrentReverse } else it'

/-- the rest of `Next()`: `current_->Next()`, then `replace_top` or `pop` -/
def stepForward : Option (MergingIterator κ β) :=
  if it.current_ ≠ it.CurrentForward then none
  else it.current_.bind fun i =>
    let children_ := it.children_.modify i SeqIter.Next
    (if validAt children_ i then it.minHeap_.replace_top (MinIteratorComparator children_) i
      else it.minHeap_.pop (MinIteratorComparator children_)).map fun minHeap_ =>
      let it := { it with children_ := children_, minHeap_ := minHeap_ }
      { it with current_ := it.CurrentForward }

/-- the rest of `Prev()`: `current_->Prev()`, then `replace_top` or `pop` -/
def stepReverse : Option (MergingIterator κ β) :=
  if it.current_ ≠ it.CurrentReverse then none
  else it.current_.bind fun i => it.maxHeap_.bind fun maxHeap_ =>
    let children_ := it.children_.modify i SeqIter.Prev
    (if validAt children_ i then maxHeap_.replace_top (MaxIteratorComparator children_) i
      else maxHeap_.pop (MaxIteratorComparator children_)).map fun maxHeap_ =>
      let it := { it with children_ := children_, maxHeap_ := some maxHeap_ }
      { it with current_ := it.CurrentReverse }

def Next : Option (MergingIterator κ β) :=
  it.current.bind fun e =>
    (if it.direction_ ≠ .kForward then it.switchForward e.1 else some it).bind stepForward

def Prev : Option (MergingIterator κ β) :=
  it.current.bind fun e =>
    (if it.direction_ ≠ .kReverse then it.switchReverse e.1 else some it).bind stepReverse

def move : Move κ → Option (MergingIterator κ β)
  | .SeekToFirst => it.SeekToFirst
  | .SeekToLast => it.SeekToLast
  | .Seek target => it.Seek target
  | .SeekForPrev target => it.SeekForPrev target
  | .Next => it.Next
  | .Prev => it.Prev

def run : MergingIterator κ β → List (Move κ) → Option (MergingIterator κ β)
  | it, [] => some it
  | it, m :: ms => (it.move m).bind fun it => run it ms

end Model

variable (it : MergingIterator κ β)

/-! ## The children, the heaps and the loops

What the loops and the heap updates do, whatever the comparison: the loop over the children
(`pushChildren_spec`) and the step of the top child (`moveTop_spec`). -/

/-- the places of the valid children: what the loops leave on the heap -/
def validIdx (cs : List (SeqIter κ β)) : List Nat := (List.range cs.length).filter (validAt cs)

/-- the entry the child at `t` stands on -/
def entryAt (cs : List (SeqIter κ β)) (t : Nat) : Option (κ × β) := cs[t]?.bind SeqIter.current

section Basics

variable {ls : List (List (κ × β))} {cs : List (SeqIter κ β)}

theorem getElem?_modify_ne {i j : Nat} (f : SeqIter κ β → SeqIter κ β) (h : i ≠ j) :
    (cs.modify i f)[j]? = cs[j]? := by
  simp [h]

theorem keyOf_modify_ne {i j : Nat} (f : SeqIter κ β → SeqIter κ β) (h : i ≠ j) :
    keyOf (cs.modify i f) j = keyOf cs j := by
  rw [keyOf, getElem?_modify_ne f h, keyOf]

theorem validAt_modify_ne {i j : Nat} (f : SeqIter κ β → SeqIter κ β) (h : i ≠ j) :
    validAt (cs.modify i f) j = validAt cs j := by
  rw [validAt, getElem?_modify_ne f h, validAt]

theorem keyOf_eq (cs : List (SeqIter κ β)) (t : Nat) :
    keyOf cs t = (entryAt cs t).map Prod.fst := rfl

theorem validAt_iff_entryAt {t : Nat} : validAt cs t = true ↔ ∃ e, entryAt cs t = some e := by
  unfold validAt entryAt
  cases cs[t]? with
  | none => simp
  | some c => simp [← SeqIter.isSome_current, Option.isSome_iff_exists]

theorem mem_validIdx {t : Nat} : t ∈ validIdx cs ↔ validAt cs t = true := by
  unfold validIdx
  rw [List.mem_filter, List.mem_range]
  constructor
  · exact fun h => h.2
  · intro h
    refine ⟨?_, h⟩
    by_contra ht
    simp [validAt, List.getElem?_eq_none (Nat.le_of_not_lt ht)] at h

theorem nodup_validIdx (cs : List (SeqIter κ β)) : (validIdx cs).Nodup :=
  List.nodup_range.filter _

/-- the entry a child stands on is one of its own, at its position -/
theorem exists_of_entryAt {t : Nat} {e : κ × β} (h : entryAt cs t = some e) :
    ∃ c i, cs[t]? = some c ∧ c.pos = some i ∧ c.items[i]? = some e := by
  obtain ⟨c, hc, hce⟩ := Option.bind_eq_some_iff.mp h
  obtain ⟨i, hi, he⟩ := c.current_eq_some hce
  exact ⟨c, i, hc, hi, he⟩

/-- the children hold the sequences `ls`, place by place -/
theorem items_getElem (hls : cs.map SeqIter.items = ls) {t : Nat} {c : SeqIter κ β}
    (hc : cs[t]? = some c) : ∃ ht : t < ls.length, ls[t] = c.items := by
  have h := congrArg (·[t]?) hls
  simp only [List.getElem?_map, hc, Option.map_some] at h
  obtain ⟨ht, hl⟩ := List.getElem?_eq_some_iff.mp h.symm
  exact ⟨ht, hl⟩

end Basics

section State

@[simp] theorem children_ClearHeaps : it.ClearHeaps.children_ = it.children_ := rfl
@[simp] theorem current_ClearHeaps : it.ClearHeaps.current_ = it.current_ := rfl
@[simp] theorem direction_ClearHeaps : it.ClearHeaps.direction_ = it.direction_ := rfl
@[simp] theorem prefix_seek_mode_ClearHeaps :
    it.ClearHeaps.prefix_seek_mode_ = it.prefix_seek_mode_ := rfl
@[simp] theorem data_minHeap_ClearHeaps : it.ClearHeaps.minHeap_.data_ = [] := rfl

@[simp] theorem children_InitMaxHeap : it.InitMaxHeap.children_ = it.children_ := by
  unfold InitMaxHeap
  split <;> rfl

@[simp] theorem current_InitMaxHeap : it.InitMaxHeap.current_ = it.current_ := by
  unfold InitMaxHeap
  split <;> rfl

@[simp] theorem prefix_seek_mode_InitMaxHeap :
    it.InitMaxHeap.prefix_seek_mode_ = it.prefix_seek_mode_ := by
  unfold InitMaxHeap
  split <;> rfl

/-- after `ClearHeaps()` and `InitMaxHeap()`, `maxHeap_` is there and empty -/
theorem maxHeap_InitMaxHeap_ClearHeaps :
    ∃ h, it.ClearHeaps.InitMaxHeap.maxHeap_ = some h ∧ h.data_ = [] := by
  unfold InitMaxHeap ClearHeaps
  cases hm : it.maxHeap_ with
  | none => exact ⟨_, rfl, rfl⟩
  | some h => exact ⟨h.clear, rfl, rfl⟩

theorem map_items_modify {cs : List (SeqIter κ β)} {t : Nat} {f : SeqIter κ β → SeqIter κ β}
    (hf : ∀ c, (f c).items = c.items) :
    (cs.modify t f).map SeqIter.items = cs.map SeqIter.items := by
  refine List.ext_getElem? fun j => ?_
  simp only [List.getElem?_map, List.getElem?_modify]
  cases cs[j]? with
  | none => rfl
  | some c => by_cases htj : t = j <;> simp [htj, hf]

theorem map_items_mapIdx {cs : List (SeqIter κ β)} {f : Nat → SeqIter κ β → SeqIter κ β}
    (hf : ∀ j c, cs[j]? = some c → (f j c).items = c.items) :
    (cs.mapIdx f).map SeqIter.items = cs.map SeqIter.items := by
  refine List.ext_getElem? fun j => ?_
  rw [List.getElem?_map, List.getElem?_mapIdx, List.getElem?_map]
  cases hc : cs[j]? with
  | none => rfl
  | some c => simp [hf j c hc]

/-- a loop whose body leaves the child at `t` alone leaves its entry -/
theorem entryAt_mapIdx_of_fix {cs : List (SeqIter κ β)} {f : Nat → SeqIter κ β → SeqIter κ β}
    {t : Nat} (hf : ∀ c, f t c = c) : entryAt (cs.mapIdx f) t = entryAt cs t := by
  unfold entryAt
  rw [List.getElem?_mapIdx]
  cases cs[t]? <;> simp [hf]

theorem CurrentForward_eq : it.CurrentForward = it.minHeap_.top := by
  unfold CurrentForward BinaryHeap.empty BinaryHeap.top
  cases hd : it.minHeap_.data_ <;> rfl

theorem CurrentReverse_eq : it.CurrentReverse = it.maxHeap_.bind BinaryHeap.top := by
  unfold CurrentReverse
  congr 1
  funext h
  unfold BinaryHeap.empty BinaryHeap.top
  cases h.data_ <;> rfl

end State

theorem current_eq_bind : it.current = it.current_.bind (entryAt it.children_) := rfl

theorem length_children_le {ls : List (List (κ × β))} {it : MergingIterator κ β} (hitems : it.children_.map SeqIter.items = ls)
    (hN : ls.length ≤ kMaxSizet) : it.children_.length ≤ kMaxSizet := by
  rw [← List.length_map (f := SeqIter.items), hitems]
  exact hN

section Loops

variable {cmp : List (SeqIter κ β) → Nat → Nat → Bool}
  [∀ cs, IsStrictWeakOrder Nat (fun a b => cmp cs a b = true)]
  {move : Nat → SeqIter κ β → SeqIter κ β}

/-- **The loop**: it moves each child at a place of `is` once and pushes the valid ones, and the
heap it leaves is a heap under the comparison of the children as they end up.  Induction on
`is`: a push keeps the invariant under the comparison of the moment, and moving a child not yet
on the heap does not change how the heap's elements compare. -/
theorem pushChildren_spec
    (hcmp : ∀ cs i f a b, a ≠ i → b ≠ i → cmp (cs.modify i f) a b = cmp cs a b) :
    ∀ (is : List Nat) (cs : List (SeqIter κ β)) (heap : BinaryHeap Nat), is.Nodup →
      (∀ a ∈ heap.data_, a ∉ is) → BinaryHeap.Inv (cmp cs) heap →
      heap.data_.length + is.length ≤ kMaxSizet →
      ∃ cs' heap', pushChildren cmp move is cs heap = some (cs', heap') ∧
        (∀ j, cs'[j]? = if j ∈ is then cs[j]?.map (move j) else cs[j]?) ∧
        BinaryHeap.Inv (cmp cs') heap' ∧ heap'.data_.Perm (heap.data_ ++ is.filter (validAt cs'))
  | [], cs, heap, _, _, hi, _ => ⟨cs, heap, rfl, fun j => by simp, hi, by simp⟩
  | i :: is, cs, heap, hnd, hout, hi, hs => by
    obtain ⟨hni, hnd⟩ := List.nodup_cons.mp hnd
    have hne : ∀ a ∈ heap.data_, a ≠ i := fun a ha h => hout a ha (h ▸ List.mem_cons_self)
    -- moving the child at `i`, not on the heap, keeps the heap a heap
    have hi₁ : BinaryHeap.Inv (cmp (cs.modify i (move i))) heap :=
      hi.congr _ fun a ha b hb => (hcmp cs i (move i) a b (hne a ha) (hne b hb)).symm
    -- what the rest of the loop leaves at each place, and at `i`
    have hchildren : ∀ cs' : List (SeqIter κ β),
        (∀ j, cs'[j]? = if j ∈ is then (cs.modify i (move i))[j]?.map (move j)
          else (cs.modify i (move i))[j]?) →
        ∀ j, cs'[j]? = if j ∈ i :: is then cs[j]?.map (move j) else cs[j]? := by
      intro cs' hcs' j
      rw [hcs' j]
      by_cases hji : j = i
      · subst hji
        simp [hni]
      · have hij : i ≠ j := Ne.symm hji
        simp [getElem?_modify_ne _ hij, hji]
    have hvalid : ∀ cs' : List (SeqIter κ β),
        (∀ j, cs'[j]? = if j ∈ is then (cs.modify i (move i))[j]?.map (move j)
          else (cs.modify i (move i))[j]?) →
        validAt cs' i = validAt (cs.modify i (move i)) i := by
      intro cs' hcs'
      rw [validAt, hcs' i, if_neg hni, validAt]
    simp only [pushChildren]
    by_cases hv : validAt (cs.modify i (move i)) i = true
    · -- the child is valid: pushed, then the rest of the loop
      rw [if_pos hv]
      obtain ⟨heap₁, hpush, hi₂, hperm₁⟩ := hi₁.push _ (by simp at hs; omega) i
      have hout₁ : ∀ a ∈ heap₁.data_, a ∉ is := by
        intro a ha
        rcases List.mem_append.mp (hperm₁.mem_iff.mp ha) with ha | ha
        · exact fun h => hout a ha (List.mem_cons_of_mem i h)
        · rw [List.mem_singleton.mp ha]
          exact hni
      obtain ⟨cs', heap', hrun, hcs', hi', hperm'⟩ :=
        pushChildren_spec hcmp is _ heap₁ hnd hout₁ hi₂
          (by rw [hperm₁.length_eq]; simp at hs ⊢; omega)
      refine ⟨cs', heap', by rw [hpush, Option.bind_some, hrun], hchildren cs' hcs', hi', ?_⟩
      rw [List.filter_cons_of_pos (by rw [hvalid cs' hcs']; exact hv)]
      calc heap'.data_.Perm (heap₁.data_ ++ is.filter (validAt cs')) := hperm'
        _ |>.Perm (heap.data_ ++ [i] ++ is.filter (validAt cs')) := hperm₁.append_right _
        _ = heap.data_ ++ i :: is.filter (validAt cs') := by simp
    · -- the child is not valid: the rest of the loop
      rw [if_neg hv]
      obtain ⟨cs', heap', hrun, hcs', hi', hperm'⟩ :=
        pushChildren_spec hcmp is _ heap hnd (fun a ha h => hout a ha (List.mem_cons_of_mem i h))
          hi₁ (by simp at hs ⊢; omega)
      refine ⟨cs', heap', hrun, hchildren cs' hcs', hi', ?_⟩
      rw [List.filter_cons_of_neg (by rw [hvalid cs' hcs']; exact hv)]
      exact hperm'

variable (move) in
/-- the loop over all children from an empty heap: each child moved, and a heap of the valid
ones -/
theorem pushChildren_range
    (hcmp : ∀ cs i f a b, a ≠ i → b ≠ i → cmp (cs.modify i f) a b = cmp cs a b)
    (cs : List (SeqIter κ β)) {heap : BinaryHeap Nat} (hd : heap.data_ = [])
    (hn : cs.length ≤ kMaxSizet) :
    ∃ heap', pushChildren cmp move (List.range cs.length) cs heap = some (cs.mapIdx move, heap') ∧
      BinaryHeap.Inv (cmp (cs.mapIdx move)) heap' ∧
      heap'.data_.Perm (validIdx (cs.mapIdx move)) := by
  obtain ⟨cs', heap', hrun, hcs', hi', hperm'⟩ := pushChildren_spec hcmp (List.range cs.length) cs
    heap List.nodup_range (by simp [hd]) (BinaryHeap.inv_of_nil _ hd) (by simp [hd, hn])
  have hmap : cs' = cs.mapIdx move := by
    refine List.ext_getElem? fun j => ?_
    rw [hcs' j, List.getElem?_mapIdx]
    by_cases hj : j < cs.length
    · rw [if_pos (List.mem_range.mpr hj)]
    · rw [if_neg (fun h => hj (List.mem_range.mp h)), List.getElem?_eq_none (Nat.le_of_not_lt hj),
        Option.map_none]
  subst hmap
  refine ⟨heap', hrun, hi', ?_⟩
  rw [hd, List.nil_append] at hperm'
  rw [validIdx, List.length_mapIdx]
  exact hperm'

end Loops

/-! ## One step of the top child

`Next()` and `Prev()` move the child on top and then put the heap right with `replace_top` or
`pop`.  The move changes the comparison at the top only, the root's place, and both operations
sift down from the root, so the heap is again a heap under the comparison after the move. -/

section Top

variable {cmp : List (SeqIter κ β) → Nat → Nat → Bool}
  [∀ cs, IsStrictWeakOrder Nat (fun a b => cmp cs a b = true)]

theorem validIdx_modify {cs : List (SeqIter κ β)} {t : Nat} {f : SeqIter κ β → SeqIter κ β}
    (h : validAt (cs.modify t f) t = validAt cs t) : validIdx (cs.modify t f) = validIdx cs := by
  unfold validIdx
  rw [List.length_modify]
  refine List.filter_congr fun j _ => ?_
  by_cases hjt : j = t
  · rw [hjt, h]
  · exact validAt_modify_ne f (Ne.symm hjt)

/-- **The top child moved**: while it is valid it stays on the heap (`replace_top`), and else it
leaves it (`pop`); the heap is then a heap of the valid children under the comparison after the
move -/
theorem moveTop_spec
    (hcmp : ∀ cs i f a b, a ≠ i → b ≠ i → cmp (cs.modify i f) a b = cmp cs a b)
    {cs : List (SeqIter κ β)} {h : BinaryHeap Nat} (hi : BinaryHeap.Inv (cmp cs) h)
    (hperm : h.data_.Perm (validIdx cs)) {t : Nat} (ht : h.top = some t)
    (f : SeqIter κ β → SeqIter κ β) :
    ∃ h', (if validAt (cs.modify t f) t then h.replace_top (cmp (cs.modify t f)) t
        else h.pop (cmp (cs.modify t f))) = some h' ∧
      BinaryHeap.Inv (cmp (cs.modify t f)) h' ∧ h'.data_.Perm (validIdx (cs.modify t f)) := by
  obtain ⟨tl, hd⟩ := List.head?_eq_some_iff.mp ht
  have hnd : (t :: tl).Nodup := hd ▸ hperm.nodup_iff.mpr (nodup_validIdx cs)
  have hnt : t ∉ tl := (List.nodup_cons.mp hnd).1
  have htv : validAt cs t = true := mem_validIdx.mp (hperm.mem_iff.mp (hd ▸ List.mem_cons_self))
  -- off the root the heap holds other children, whose comparison the move leaves as it was
  have hoff : ∀ k (hk : k < h.data_.length), 0 < k → h.data_[k] ≠ t := by
    intro k hk hk0 hkt
    have hmem : h.data_[k] ∈ tl := by
      simp only [hd, List.getElem_cons, Nat.ne_of_gt hk0, dite_false]
      exact List.getElem_mem _
    exact hnt (hkt ▸ hmem)
  have hagree : ∀ i j (hi : i < h.data_.length) (hj : j < h.data_.length), 0 < i → 0 < j →
      cmp cs h.data_[i] h.data_[j] = cmp (cs.modify t f) h.data_[i] h.data_[j] :=
    fun i j hi hj hi0 hj0 => (hcmp cs t f _ _ (hoff i hi hi0) (hoff j hj hj0)).symm
  have o := hi.ordered.off_root hagree
  have hc := hi.cache.cmp_congr _ hagree
  have hne : h.data_ ≠ [] := by simp [hd]
  by_cases hv : validAt (cs.modify t f) t = true
  · -- still valid: its place stays, at the root
    rw [if_pos hv]
    obtain ⟨h', hr, hi', hp⟩ := BinaryHeap.replace_top_spec _ o hc hi.size_le hne t
    have hset : h.data_.set BinaryHeap.get_root t = h.data_ := by
      rw [hd]
      rfl
    rw [hset] at hp
    refine ⟨h', hr, hi', ?_⟩
    rw [validIdx_modify (hv.trans htv.symm)]
    exact hp.trans hperm
  · -- no longer valid: its place leaves the heap
    rw [if_neg hv]
    obtain ⟨h', hr, hi', hp⟩ := BinaryHeap.pop_spec _ o hc hi.size_le hne
    refine ⟨h', hr, hi', hp.trans ?_⟩
    rw [hd, List.tail_cons]
    refine (List.perm_ext_iff_of_nodup (List.nodup_cons.mp hnd).2 (nodup_validIdx _)).mpr
      fun a => ?_
    rw [mem_validIdx]
    by_cases hat : a = t
    · subst hat
      simp [hnt, hv]
    · rw [validAt_modify_ne f (Ne.symm hat), ← mem_validIdx, ← hperm.mem_iff, hd]
      simp [hat]

end Top

variable [LinearOrder κ]

/-! ## The comparators

Both compare keys, so both are strict weak orders on the places, and a move of one child leaves
the comparison of the others as it was. -/

section Comparators

variable {cs : List (SeqIter κ β)}

theorem MinIteratorComparator_eq (cs : List (SeqIter κ β)) (a b : Nat) :
    MinIteratorComparator cs a b = decide (keyOf cs b < keyOf cs a) := by
  rw [MinIteratorComparator, Bool.eq_iff_iff, beq_iff_eq, compare_gt_iff_gt, decide_eq_true_iff]

theorem MaxIteratorComparator_eq (cs : List (SeqIter κ β)) (a b : Nat) :
    MaxIteratorComparator cs a b = decide (keyOf cs a < keyOf cs b) := by
  rw [MaxIteratorComparator, Bool.eq_iff_iff, beq_iff_eq, compare_lt_iff_lt, decide_eq_true_iff]

instance (cs : List (SeqIter κ β)) :
    IsStrictWeakOrder Nat (fun a b => MinIteratorComparator cs a b = true) := by
  simp only [MinIteratorComparator_eq]
  exact HeapOrder.isStrictWeakOrder_keyGt (keyOf cs)

instance (cs : List (SeqIter κ β)) :
    IsStrictWeakOrder Nat (fun a b => MaxIteratorComparator cs a b = true) := by
  simp only [MaxIteratorComparator_eq]
  exact HeapOrder.isStrictWeakOrder_keyLt (keyOf cs)

theorem MinIteratorComparator_modify {i a b : Nat} (f : SeqIter κ β → SeqIter κ β) (ha : a ≠ i)
    (hb : b ≠ i) : MinIteratorComparator (cs.modify i f) a b = MinIteratorComparator cs a b := by
  rw [MinIteratorComparator, keyOf_modify_ne f ha.symm, keyOf_modify_ne f hb.symm,
    MinIteratorComparator]

theorem MaxIteratorComparator_modify {i a b : Nat} (f : SeqIter κ β → SeqIter κ β) (ha : a ≠ i)
    (hb : b ≠ i) : MaxIteratorComparator (cs.modify i f) a b = MaxIteratorComparator cs a b := by
  rw [MaxIteratorComparator, keyOf_modify_ne f ha.symm, keyOf_modify_ne f hb.symm,
    MaxIteratorComparator]

end Comparators

theorem forEachMin_spec (move : Nat → SeqIter κ β → SeqIter κ β) (hd : it.minHeap_.data_ = [])
    (hn : it.children_.length ≤ kMaxSizet) :
    ∃ h', it.forEachMin move = some { it with children_ := it.children_.mapIdx move, minHeap_ := h' } ∧
      BinaryHeap.Inv (MinIteratorComparator (it.children_.mapIdx move)) h' ∧
      h'.data_.Perm (validIdx (it.children_.mapIdx move)) := by
  obtain ⟨h', hrun, hi', hp'⟩ := pushChildren_range move
    (fun _ _ f _ _ ha hb => MinIteratorComparator_modify f ha hb) it.children_ hd hn
  exact ⟨h', by rw [forEachMin, hrun, Option.map_some], hi', hp'⟩

theorem forEachMax_spec (move : Nat → SeqIter κ β → SeqIter κ β) {h : BinaryHeap Nat}
    (hm : it.maxHeap_ = some h) (hd : h.data_ = []) (hn : it.children_.length ≤ kMaxSizet) :
    ∃ h', it.forEachMax move =
        some { it with children_ := it.children_.mapIdx move, maxHeap_ := some h' } ∧
      BinaryHeap.Inv (MaxIteratorComparator (it.children_.mapIdx move)) h' ∧
      h'.data_.Perm (validIdx (it.children_.mapIdx move)) := by
  obtain ⟨h', hrun, hi', hp'⟩ := pushChildren_range move
    (fun _ _ f _ _ ha hb => MaxIteratorComparator_modify f ha hb) it.children_ hd hn
  exact ⟨h', by rw [forEachMax, hm, Option.bind_some, hrun, Option.map_some], hi', hp'⟩

section Bodies

theorem seekPastKey_self (key : κ) (t : Nat) (c : SeqIter κ β) : seekPastKey key (some t) t c = c := by
  simp [seekPastKey]

theorem seekBeforeKey_self (b : Bool) (key : κ) (t : Nat) (c : SeqIter κ β) :
    seekBeforeKey b key (some t) t c = c := by
  simp [seekBeforeKey]

theorem items_seekPastKey (key : κ) (cur : Option Nat) (i : Nat) (c : SeqIter κ β) :
    (seekPastKey key cur i c).items = c.items := by
  unfold seekPastKey
  split
  · dsimp only
    split <;> rfl
  · rfl

theorem items_seekBeforeKey (b : Bool) (key : κ) (cur : Option Nat) (i : Nat) (c : SeqIter κ β) :
    (seekBeforeKey b key cur i c).items = c.items := by
  unfold seekBeforeKey
  split
  · split
    · dsimp only
      split <;> rfl
    · dsimp only
      split <;> rfl
  · rfl

end Bodies

/-! ## Where the children stand

`M` is the sorted union of the children's entries.  Going forward from the `n`-th entry of `M`,
each child stands on its first entry of rank `n` or more (`AtForward`); going backward to the
`n`-th, on its last entry of rank below `n` (`AtReverse`).  The heap of the valid children then
has on top the child standing on the entry of `M` where the merge stands. -/

section Places

open SortedUnion

variable {ls : List (List (κ × β))} {M : List (κ × β)} {cs : List (SeqIter κ β)}

/-- going forward from the `n`-th entry of `M`: each child on its first entry of rank `n` or
more -/
def AtForward (M : List (κ × β)) (cs : List (SeqIter κ β)) (n : Nat) : Prop :=
  ∀ (j : Nat) (c : SeqIter κ β), cs[j]? = some c → c.pos = c.items.findIdx? fun e => decide (n ≤ rank M e)

/-- going backward to the `n`-th entry of `M`: each child on its last entry of rank below `n` -/
def AtReverse (M : List (κ × β)) (cs : List (SeqIter κ β)) (n : Nat) : Prop :=
  ∀ (j : Nat) (c : SeqIter κ β), cs[j]? = some c →
    c.pos = c.items.findLastIdx? fun e => decide (rank M e < n)

theorem AtForward.pos_eq {n : Nat} (hpos : AtForward M cs n) {j : Nat} {c : SeqIter κ β}
    (hc : cs[j]? = some c) : c.pos = c.items.findIdx? fun e => decide (n ≤ rank M e) := by
  unfold AtForward at hpos
  exact hpos j c hc

theorem AtReverse.pos_eq {n : Nat} (hpos : AtReverse M cs n) {j : Nat} {c : SeqIter κ β}
    (hc : cs[j]? = some c) : c.pos = c.items.findLastIdx? fun e => decide (rank M e < n) := by
  unfold AtReverse at hpos
  exact hpos j c hc

/-- a child standing on an entry going forward from `n` stands on one of rank `n` or more -/
theorem AtForward.le_rank {n : Nat} (hpos : AtForward M cs n) {t : Nat} {e : κ × β}
    (he : entryAt cs t = some e) : n ≤ rank M e ∧ ∃ c, cs[t]? = some c ∧ e ∈ c.items := by
  obtain ⟨c, i, hc, hi, hce⟩ := exists_of_entryAt he
  rw [hpos.pos_eq hc] at hi
  obtain ⟨hlt, hp, -⟩ := List.findIdx?_eq_some_iff_getElem.mp hi
  obtain rfl : c.items[i] = e := by simpa [List.getElem?_eq_getElem hlt] using hce
  exact ⟨by simpa using hp, c, hc, List.getElem_mem hlt⟩

/-- a child standing on an entry going backward to `n` stands on one of rank below `n` -/
theorem AtReverse.rank_lt {n : Nat} (hpos : AtReverse M cs n) {t : Nat} {e : κ × β}
    (he : entryAt cs t = some e) : rank M e < n ∧ ∃ c, cs[t]? = some c ∧ e ∈ c.items := by
  obtain ⟨c, i, hc, hi, hce⟩ := exists_of_entryAt he
  rw [hpos.pos_eq hc] at hi
  obtain ⟨hlt, hp⟩ := List.findLastIdx?_getElem hi
  obtain rfl : c.items[i] = e := by simpa [List.getElem?_eq_getElem hlt] using hce
  exact ⟨by simpa using hp, c, hc, List.getElem_mem hlt⟩

variable (hu : SortedUnion ls M) (hls : cs.map SeqIter.items = ls)
include hu hls

theorem mem_of_entryAt {t : Nat} {e : κ × β} (he : entryAt cs t = some e) : e ∈ M := by
  obtain ⟨c, i, hc, -, hce⟩ := exists_of_entryAt he
  obtain ⟨ht, hl⟩ := items_getElem hls hc
  exact hu.mem (hl ▸ List.getElem_mem ht) (List.mem_of_getElem? hce)

/-- one child only stands on an entry of `M`: no key is in two children -/
theorem entryAt_unique {g t t' : Nat} (hg : g < M.length) (h : entryAt cs t = some M[g])
    (h' : entryAt cs t' = some M[g]) : t = t' := by
  obtain ⟨c, i, hc, -, hce⟩ := exists_of_entryAt h
  obtain ⟨c', i', hc', -, hce'⟩ := exists_of_entryAt h'
  obtain ⟨ht, hl⟩ := items_getElem hls hc
  obtain ⟨ht', hl'⟩ := items_getElem hls hc'
  by_contra hne
  exact hu.key_ne ht ht' hne (hl ▸ List.mem_of_getElem? hce) (hl' ▸ List.mem_of_getElem? hce') rfl

/-- the child holding the `g`-th entry of `M` at place `j`: its entry has rank `g` -/
theorem exists_holder_place {g : Nat} (hg : g < M.length) :
    ∃ (j : Nat) (c : SeqIter κ β), cs[j]? = some c ∧
      ∃ i, ∃ hi : i < c.items.length, c.items[i] = M[g] := by
  obtain ⟨j, hj, hmem⟩ := hu.exists_holder hg
  have hjc : j < cs.length := by rw [← List.length_map (f := SeqIter.items), hls]; exact hj
  obtain ⟨_, hl⟩ := items_getElem hls (List.getElem?_eq_getElem hjc)
  rw [hl] at hmem
  obtain ⟨i, hi, hx⟩ := List.getElem_of_mem hmem
  exact ⟨j, cs[j], List.getElem?_eq_getElem hjc, i, hi, hx⟩

/-- rank of the `i`-th entry of the child at `j` -/
theorem rank_increasing_at {j : Nat} {c : SeqIter κ β} (hc : cs[j]? = some c) :
    c.items.Pairwise fun a b => rank M a < rank M b := by
  obtain ⟨hj, hl⟩ := items_getElem hls hc
  exact hu.rank_increasing (hl ▸ List.getElem_mem hj)

/-- going forward from the `g`-th entry of `M`, the child holding it stands on it -/
theorem AtForward.exists_entryAt {g : Nat} (hpos : AtForward M cs g) (hg : g < M.length) :
    ∃ t, entryAt cs t = some M[g] := by
  obtain ⟨j, c, hc, i, hi, hx⟩ := exists_holder_place hu hls hg
  have hr : rank M c.items[i] = g := by rw [hx, rank_getElem hu.union_sorted hg]
  have hp : c.pos = some i := by
    rw [hpos.pos_eq hc, ← hr]
    exact List.findIdx?_le_apply (rank_increasing_at hu hls hc) hi
  refine ⟨j, ?_⟩
  simp [entryAt, hc, SeqIter.current, hp, List.getElem?_eq_getElem hi, hx]

/-- going backward to the `g + 1`-th entry of `M`, the child holding the `g`-th stands on it -/
theorem AtReverse.exists_entryAt {g : Nat} (hpos : AtReverse M cs (g + 1)) (hg : g < M.length) :
    ∃ t, entryAt cs t = some M[g] := by
  obtain ⟨j, c, hc, i, hi, hx⟩ := exists_holder_place hu hls hg
  have hr : rank M c.items[i] = g := by rw [hx, rank_getElem hu.union_sorted hg]
  have hp : c.pos = some i := by
    rw [hpos.pos_eq hc, ← hr]
    exact List.findLastIdx?_lt_succ_apply (rank_increasing_at hu hls hc) hi
  refine ⟨j, ?_⟩
  simp [entryAt, hc, SeqIter.current, hp, List.getElem?_eq_getElem hi, hx]

/-- **The top going forward**: the heap of the valid children under `MinIteratorComparator` has
on top the child on the `g`-th entry of `M`, the least entry a child stands on -/
theorem AtForward.top {g : Nat} (hpos : AtForward M cs g) (hg : g < M.length)
    {h : BinaryHeap Nat} (hi : BinaryHeap.Inv (MinIteratorComparator cs) h)
    (hperm : h.data_.Perm (validIdx cs)) :
    ∃ t, h.top = some t ∧ entryAt cs t = some M[g] := by
  obtain ⟨j, hj⟩ := hpos.exists_entryAt hu hls hg
  have hjmem : j ∈ h.data_ := hperm.mem_iff.mpr (mem_validIdx.mpr (validAt_iff_entryAt.mpr ⟨_, hj⟩))
  obtain ⟨t, tl, hd⟩ := List.exists_cons_of_ne_nil (List.ne_nil_of_mem hjmem)
  have ht : h.top = some t := by simp [BinaryHeap.top, hd]
  obtain ⟨e, he⟩ := validAt_iff_entryAt.mp
    (mem_validIdx.mp (hperm.mem_iff.mp (hd ▸ List.mem_cons_self)))
  -- the top is not above the holder: its key is at most the `g`-th, and its rank at least `g`
  have hmax := hi.top_max _ ht j hjmem
  rw [MinIteratorComparator_eq, keyOf_eq, keyOf_eq, hj, he, Option.map_some, Option.map_some,
    WithBot.some_eq_coe, WithBot.some_eq_coe, decide_eq_false_iff_not, WithBot.coe_lt_coe] at hmax
  have hle : e.1 ≤ M[g].1 := not_lt.mp hmax
  have heM := mem_of_entryAt hu hls he
  have hrank : rank M e ≤ g := by
    rw [← rank_getElem hu.union_sorted hg]
    exact (rank_le_rank_iff hu.union_sorted heM (List.getElem_mem hg)).mpr hle
  have hge := (hpos.le_rank he).1
  have heq : e = M[g] :=
    eq_of_rank_eq hu.union_sorted heM (List.getElem_mem hg) (by rw [rank_getElem hu.union_sorted hg]; omega)
  exact ⟨t, ht, heq ▸ he⟩

/-- **The top going backward**: the heap of the valid children under `MaxIteratorComparator` has
on top the child on the `g`-th entry of `M`, the greatest entry a child stands on -/
theorem AtReverse.top {g : Nat} (hpos : AtReverse M cs (g + 1)) (hg : g < M.length)
    {h : BinaryHeap Nat} (hi : BinaryHeap.Inv (MaxIteratorComparator cs) h)
    (hperm : h.data_.Perm (validIdx cs)) :
    ∃ t, h.top = some t ∧ entryAt cs t = some M[g] := by
  obtain ⟨j, hj⟩ := hpos.exists_entryAt hu hls hg
  have hjmem : j ∈ h.data_ := hperm.mem_iff.mpr (mem_validIdx.mpr (validAt_iff_entryAt.mpr ⟨_, hj⟩))
  obtain ⟨t, tl, hd⟩ := List.exists_cons_of_ne_nil (List.ne_nil_of_mem hjmem)
  have ht : h.top = some t := by simp [BinaryHeap.top, hd]
  obtain ⟨e, he⟩ := validAt_iff_entryAt.mp
    (mem_validIdx.mp (hperm.mem_iff.mp (hd ▸ List.mem_cons_self)))
  -- the top is not below the holder: its key is at least the `g`-th, and its rank at most `g`
  have hmax := hi.top_max _ ht j hjmem
  rw [MaxIteratorComparator_eq, keyOf_eq, keyOf_eq, hj, he, Option.map_some, Option.map_some,
    WithBot.some_eq_coe, WithBot.some_eq_coe, decide_eq_false_iff_not, WithBot.coe_lt_coe] at hmax
  have hle : M[g].1 ≤ e.1 := not_lt.mp hmax
  have heM := mem_of_entryAt hu hls he
  have hrank : g ≤ rank M e := by
    rw [← rank_getElem hu.union_sorted hg]
    exact (rank_le_rank_iff hu.union_sorted (List.getElem_mem hg) heM).mpr hle
  have hlt := (hpos.rank_lt he).1
  have heq : e = M[g] :=
    eq_of_rank_eq hu.union_sorted heM (List.getElem_mem hg) (by rw [rank_getElem hu.union_sorted hg]; omega)
  exact ⟨t, ht, heq ▸ he⟩

/-- past the last entry of `M` going forward no child is valid -/
theorem AtForward.validIdx_eq_nil (hpos : AtForward M cs M.length) : validIdx cs = [] := by
  refine List.eq_nil_iff_forall_not_mem.mpr fun t ht => ?_
  obtain ⟨e, he⟩ := validAt_iff_entryAt.mp (mem_validIdx.mp ht)
  have := (hpos.le_rank he).1
  have := (exists_rank hu.union_sorted (mem_of_entryAt hu hls he)).1
  omega

omit hu hls in
/-- before the first entry of `M` going backward no child is valid -/
theorem AtReverse.validIdx_eq_nil (hpos : AtReverse M cs 0) : validIdx cs = [] := by
  refine List.eq_nil_iff_forall_not_mem.mpr fun t ht => ?_
  obtain ⟨e, he⟩ := validAt_iff_entryAt.mp (mem_validIdx.mp ht)
  exact Nat.not_lt_zero _ (hpos.rank_lt he).1

theorem mem_of_items {j : Nat} {c : SeqIter κ β} (hc : cs[j]? = some c) {e : κ × β}
    (he : e ∈ c.items) : e ∈ M := by
  obtain ⟨hj, hl⟩ := items_getElem hls hc
  exact hu.mem (List.getElem_mem hj) (hl ▸ he)

/-- the children but the one on the `g`-th entry of `M` have no entry of rank `g` -/
theorem rank_ne_of_entryAt {g t j : Nat} (hg : g < M.length) (ht : entryAt cs t = some M[g])
    (hjt : j ≠ t) {c : SeqIter κ β} (hc : cs[j]? = some c) : ∀ e ∈ c.items, rank M e ≠ g := by
  obtain ⟨ct, i, hct, -, hce⟩ := exists_of_entryAt ht
  obtain ⟨htl, hlt⟩ := items_getElem hls hct
  obtain ⟨hjl, hlj⟩ := items_getElem hls hc
  have key := hu.rank_ne hg htl hjl (Ne.symm hjt) (hlt ▸ List.mem_of_getElem? hce)
  rwa [hlj] at key

/-! Where one move leaves one child, as a threshold on ranks. -/

section Child

variable {g j : Nat} {c : SeqIter κ β} (hc : cs[j]? = some c)
include hc

omit hls hc in
theorem rank_of_holder (hg : g < M.length) {i : Nat} (hlt : i < c.items.length)
    (hci : c.items[i]? = some M[g]) : rank M c.items[i] = g := by
  rw [show c.items[i] = M[g] by simpa [List.getElem?_eq_getElem hlt] using hci,
    rank_getElem hu.union_sorted hg]

/-- the child on the `g`-th entry stands where both directions put it at `g` -/
theorem pos_holder (hg : g < M.length) {i : Nat} (hi : c.pos = some i)
    (hci : c.items[i]? = some M[g]) :
    (c.items.findIdx? fun e => decide (g ≤ rank M e)) = some i ∧
      (c.items.findLastIdx? fun e => decide (rank M e < g + 1)) = some i := by
  have hlt := c.pos_lt i hi
  rw [← rank_of_holder hu hg hlt hci]
  exact ⟨List.findIdx?_le_apply (rank_increasing_at hu hls hc) hlt,
    List.findLastIdx?_lt_succ_apply (rank_increasing_at hu hls hc) hlt⟩

/-- the child on the `g`-th entry, moved on: its first entry of rank above `g` -/
theorem pos_Next_holder (hg : g < M.length) {i : Nat} (hi : c.pos = some i)
    (hci : c.items[i]? = some M[g]) :
    c.Next.pos = c.items.findIdx? fun e => decide (g + 1 ≤ rank M e) := by
  have hlt := c.pos_lt i hi
  rw [c.pos_Next_of hi, ← rank_of_holder hu hg hlt hci]
  exact (List.findIdx?_succ_le_apply (rank_increasing_at hu hls hc) hlt).symm

/-- the child on the `g`-th entry, moved back: its last entry of rank below `g` -/
theorem pos_Prev_holder (hg : g < M.length) {i : Nat} (hi : c.pos = some i)
    (hci : c.items[i]? = some M[g]) :
    c.Prev.pos = c.items.findLastIdx? fun e => decide (rank M e < g) := by
  have hlt := c.pos_lt i hi
  rw [c.pos_Prev_of hi, ← rank_of_holder hu hg hlt hci]
  exact (List.findLastIdx?_lt_apply (rank_increasing_at hu hls hc) hlt).symm

omit hu hls hc in
theorem pos_SeekToFirst_rank :
    c.SeekToFirst.pos = c.items.findIdx? fun e => decide (0 ≤ rank M e) :=
  (List.findIdx?_of_forall fun _ _ => by simp).symm

theorem pos_SeekToLast_rank :
    c.SeekToLast.pos = c.items.findLastIdx? fun e => decide (rank M e < M.length) :=
  (List.findLastIdx?_of_forall fun _ he =>
    decide_eq_true (exists_rank hu.union_sorted (mem_of_items hu hls hc he)).1).symm

theorem pos_Seek_rank (t : κ) :
    (c.Seek t).pos =
      c.items.findIdx? fun e => decide (M.findIdx (fun m => decide (t ≤ m.1)) ≤ rank M e) :=
  List.findIdx?_congr_mem fun _ he => decide_le_key hu.union_sorted t (mem_of_items hu hls hc he)

theorem pos_SeekForPrev_rank (t : κ) :
    (c.SeekForPrev t).pos =
      c.items.findLastIdx? fun e => decide (rank M e < M.findIdx (fun m => decide (t < m.1))) :=
  List.findLastIdx?_congr_mem fun _ he =>
    decide_key_le hu.union_sorted t (mem_of_items hu hls hc he)

/-- seeking the key of the `g`-th entry: the first entry of rank `g` or more -/
theorem pos_Seek_key (hg : g < M.length) :
    (c.Seek M[g].1).pos = c.items.findIdx? fun e => decide (g ≤ rank M e) := by
  rw [pos_Seek_rank hu hls hc]
  -- the first entry of `M` not below the key of its `g`-th is the `g`-th
  have hfind : M.findIdx (fun m => decide (M[g].1 ≤ m.1)) = g := rank_getElem hu.union_sorted hg
  rw [hfind]

/-- **Next's switch, on a child but `current_`**: sought to the current key, it stands on its
first entry of rank `g` or more, and as no entry of its own has that key it is not moved on -/
theorem seekPastKey_other (hg : g < M.length) {t : Nat} (ht : entryAt cs t = some M[g])
    (hjt : j ≠ t) :
    (seekPastKey M[g].1 (some t) j c).pos = c.items.findIdx? fun e => decide (g ≤ rank M e) := by
  have hne := rank_ne_of_entryAt hu hls hg ht hjt hc
  -- the entry it lands on, if any, has another key
  have hnot : ((c.Seek M[g].1).Valid &&
      (c.Seek M[g].1).current.any (fun e => compare M[g].1 e.1 == .eq)) = false := by
    cases hcur : (c.Seek M[g].1).current with
    | none => simp
    | some e =>
      obtain ⟨i, -, he⟩ := (c.Seek M[g].1).current_eq_some hcur
      have hmem : e ∈ c.items := List.mem_of_getElem? he
      have hkey : M[g].1 ≠ e.1 := fun heq => hne e hmem (by
        rw [show rank M e = rank M M[g] by simp only [rank, heq], rank_getElem hu.union_sorted hg])
      simp [hkey]
  have hsome : some j ≠ some t := fun h => hjt (Option.some.inj h)
  simp only [seekPastKey, hsome, ne_eq, not_false_eq_true, if_true, hnot, Bool.false_eq_true,
    if_false]
  exact pos_Seek_key hu hls hc hg

/-- **Prev's switch, on a child but `current_`**: sought to the current key and moved back one,
or to its last entry where none is at or above the key, it stands on its last entry of rank
below `g`, which is its last of rank at most `g` -/
theorem seekBeforeKey_other (hg : g < M.length) {t : Nat} (ht : entryAt cs t = some M[g])
    (hjt : j ≠ t) :
    (seekBeforeKey false M[g].1 (some t) j c).pos =
      c.items.findLastIdx? fun e => decide (rank M e < g + 1) := by
  have hsome : some j ≠ some t := fun h => hjt (Option.some.inj h)
  have hinc := rank_increasing_at hu hls hc
  rw [List.findLastIdx?_lt_skip (rank_ne_of_entryAt hu hls hg ht hjt hc),
    List.findLastIdx?_lt_eq hinc]
  have hseek := pos_Seek_key hu hls hc hg
  rw [List.findIdx?_eq_below] at hseek
  have hF : c.items.findIdx (fun e => decide (g ≤ rank M e)) ≤ c.items.length :=
    List.findIdx_le_length
  simp only [seekBeforeKey, hsome, ne_eq, not_false_eq_true, if_true, Bool.not_false]
  by_cases hv : (c.Seek M[g].1).Valid = true
  · -- it stands on its first entry at or above the key: one back
    rw [if_pos hv]
    obtain ⟨i, hi⟩ := (SeqIter.valid_iff _).mp hv
    rw [(c.Seek M[g].1).pos_Prev_of hi]
    rw [hseek, SeqIter.below] at hi
    split at hi
    · cases hi
      rfl
    · cases hi
  · -- none is at or above the key: the last entry
    rw [if_neg hv, SeqIter.pos_SeekToLast, SeqIter.items_Seek]
    have hnone : (c.Seek M[g].1).pos = none := by
      simpa [SeqIter.Valid] using hv
    rw [hseek, SeqIter.below] at hnone
    split at hnone
    · cases hnone
    · congr 1
      omega

end Child

end Places

theorem stepForward_eq {t : Nat} (ht : it.current_ = some t) (htop : it.minHeap_.top = some t) :
    it.stepForward =
      (if validAt (it.children_.modify t SeqIter.Next) t then
          it.minHeap_.replace_top (MinIteratorComparator (it.children_.modify t SeqIter.Next)) t
        else it.minHeap_.pop (MinIteratorComparator (it.children_.modify t SeqIter.Next))).map
        fun h' => { it with children_ := it.children_.modify t SeqIter.Next, minHeap_ := h',
                            current_ := h'.top } := by
  rw [stepForward, CurrentForward_eq, ht, htop, if_neg (not_not_intro rfl), Option.bind_some]
  simp only [CurrentForward_eq]

theorem stepReverse_eq {t : Nat} {h : BinaryHeap Nat} (ht : it.current_ = some t)
    (hm : it.maxHeap_ = some h) (htop : h.top = some t) :
    it.stepReverse =
      (if validAt (it.children_.modify t SeqIter.Prev) t then
          h.replace_top (MaxIteratorComparator (it.children_.modify t SeqIter.Prev)) t
        else h.pop (MaxIteratorComparator (it.children_.modify t SeqIter.Prev))).map
        fun h' => { it with children_ := it.children_.modify t SeqIter.Prev, maxHeap_ := some h',
                            current_ := h'.top } := by
  simp only [stepReverse, CurrentReverse_eq, hm, Option.bind_some, ht, htop, ne_eq,
    not_true_eq_false, if_false]

/-! ## Going forward and going backward

`Forward ls M it n`: the merge goes forward from the `n`-th entry of `M`, the sorted union of the
children's entries `ls`.  `Reverse ls M it n`: it goes backward to the `n`-th, standing on the
`n - 1`-th.  Each move keeps one of the two. -/

/-- **Going forward from the `n`-th entry of `M`**: every child on its first entry of rank `n`
or more, `minHeap_` a heap of the valid children, and `current_` on its top -/
structure Forward (ls : List (List (κ × β))) (M : List (κ × β)) (it : MergingIterator κ β)
    (n : Nat) : Prop where
  items : it.children_.map SeqIter.items = ls
  le_length : n ≤ M.length
  direction : it.direction_ = .kForward
  pos : AtForward M it.children_ n
  heap : BinaryHeap.Inv (MinIteratorComparator it.children_) it.minHeap_
  perm : it.minHeap_.data_.Perm (validIdx it.children_)
  top : it.current_ = it.minHeap_.top

/-- **Going backward to the `n`-th entry of `M`**: every child on its last entry of rank below
`n`, `maxHeap_` a heap of the valid children, and `current_` on its top -/
structure Reverse (ls : List (List (κ × β))) (M : List (κ × β)) (it : MergingIterator κ β)
    (n : Nat) : Prop where
  items : it.children_.map SeqIter.items = ls
  le_length : n ≤ M.length
  direction : it.direction_ = .kReverse
  pos : AtReverse M it.children_ n
  heap : ∃ h, it.maxHeap_ = some h ∧ BinaryHeap.Inv (MaxIteratorComparator it.children_) h ∧
    h.data_.Perm (validIdx it.children_) ∧ it.current_ = h.top

section Directions

open SortedUnion

variable {ls : List (List (κ × β))} {M : List (κ × β)} {it : MergingIterator κ β}
  (hu : SortedUnion ls M)
include hu

/-- going forward from the `n`-th entry, `current_` is the child on it -/
theorem Forward.on {n : Nat} (h : Forward ls M it n) (hn : n < M.length) :
    ∃ t, it.current_ = some t ∧ it.minHeap_.top = some t ∧ entryAt it.children_ t = some M[n] := by
  obtain ⟨t, ht, he⟩ := h.pos.top hu h.items hn h.heap h.perm
  exact ⟨t, h.top.trans ht, ht, he⟩

/-- going forward from past the last entry, `current_` is no child -/
theorem Forward.off (h : Forward ls M it M.length) : it.current_ = none := by
  have hd : it.minHeap_.data_ = [] := (h.pos.validIdx_eq_nil hu h.items ▸ h.perm).eq_nil
  rw [h.top, BinaryHeap.top, hd, List.head?_nil]

/-- going backward to the `g + 1`-th entry, `current_` is the child on the `g`-th -/
theorem Reverse.on {g : Nat} (h : Reverse ls M it (g + 1)) (hg : g < M.length) :
    ∃ t H, it.current_ = some t ∧ it.maxHeap_ = some H ∧ H.top = some t ∧
      entryAt it.children_ t = some M[g] := by
  obtain ⟨H, hm, hi, hp, htop⟩ := h.heap
  obtain ⟨t, ht, he⟩ := h.pos.top hu h.items hg hi hp
  exact ⟨t, H, htop.trans ht, hm, ht, he⟩

omit hu in
/-- going backward to the first entry, `current_` is no child -/
theorem Reverse.off (h : Reverse ls M it 0) : it.current_ = none := by
  obtain ⟨H, -, -, hp, htop⟩ := h.heap
  have hd : H.data_ = [] := (h.pos.validIdx_eq_nil ▸ hp).eq_nil
  rw [htop, BinaryHeap.top, hd, List.head?_nil]

/-- going forward from the `n`-th entry, the merge stands on it, or on none past the end -/
theorem Forward.current {n : Nat} (h : Forward ls M it n) : it.current = M[n]? := by
  rw [current_eq_bind]
  by_cases hn : n < M.length
  · obtain ⟨t, ht, -, he⟩ := h.on hu hn
    rw [ht, Option.bind_some, he, List.getElem?_eq_getElem hn]
  · have hnM : n = M.length := by
      have := h.le_length
      omega
    subst hnM
    rw [h.off hu, Option.bind_none, List.getElem?_eq_none (Nat.le_refl _)]

/-- going backward to the `n`-th entry, the merge stands on the one before, or on none -/
theorem Reverse.current {n : Nat} (h : Reverse ls M it n) :
    it.current = (before n).bind (M[·]?) := by
  rw [current_eq_bind]
  cases n with
  | zero =>
    rw [h.off]
    rfl
  | succ g =>
    have hg : g < M.length := h.le_length
    obtain ⟨t, -, ht, -, -, he⟩ := h.on hu hg
    rw [ht, Option.bind_some, he]
    simp [before, List.getElem?_eq_getElem hg]

theorem Forward.valid {n : Nat} (h : Forward ls M it n) : it.Valid = decide (n < M.length) := by
  by_cases hn : n < M.length
  · obtain ⟨t, ht, -, -⟩ := h.on hu hn
    simp [Valid, ht, hn]
  · have hnM : n = M.length := by
      have := h.le_length
      omega
    subst hnM
    simp [Valid, h.off hu]

theorem Reverse.valid {n : Nat} (h : Reverse ls M it n) : it.Valid = decide (0 < n) := by
  cases n with
  | zero => simp [Valid, h.off]
  | succ g =>
    obtain ⟨t, -, ht, -, -, -⟩ := h.on hu h.le_length
    simp [Valid, ht]

/-- **`Next()` going forward**: the top child moves on, and the merge goes forward from the next
entry -/
theorem Forward.stepForward {n : Nat} (h : Forward ls M it n) (hn : n < M.length) :
    ∃ it', it.stepForward = some it' ∧ Forward ls M it' (n + 1) ∧
      it'.prefix_seek_mode_ = it.prefix_seek_mode_ := by
  obtain ⟨t, hcur, htop, hent⟩ := h.on hu hn
  obtain ⟨c, i, hc, hi, hci⟩ := exists_of_entryAt hent
  obtain ⟨h', hstep, hi', hp'⟩ := moveTop_spec
    (fun _ _ f _ _ ha hb => MinIteratorComparator_modify f ha hb) h.heap h.perm htop SeqIter.Next
  let it' : MergingIterator κ β :=
    { it with children_ := it.children_.modify t SeqIter.Next, minHeap_ := h', current_ := h'.top }
  refine ⟨it', ?_, ⟨?_, by omega, h.direction, ?_, hi', hp', rfl⟩, rfl⟩
  · rw [stepForward_eq _ hcur htop, hstep, Option.map_some]
  · exact (map_items_modify (f := SeqIter.Next) fun _ => rfl).trans h.items
  · -- the top child moves past the `n`-th entry; the others already stand past it
    intro j c' hc'
    by_cases hjt : j = t
    · subst hjt
      rw [List.getElem?_modify, hc] at hc'
      obtain rfl : c.Next = c' := by simpa using hc'
      rw [SeqIter.items_Next, pos_Next_holder hu h.items hc hn hi hci]
    · rw [getElem?_modify_ne _ (Ne.symm hjt)] at hc'
      rw [h.pos.pos_eq hc']
      exact List.findIdx?_le_skip (rank_ne_of_entryAt hu h.items hn hent hjt hc')

/-- **`Prev()` going backward**: the top child moves back, and the merge goes backward to the
entry it stood on -/
theorem Reverse.stepReverse {g : Nat} (h : Reverse ls M it (g + 1)) :
    ∃ it', it.stepReverse = some it' ∧ Reverse ls M it' g ∧
      it'.prefix_seek_mode_ = it.prefix_seek_mode_ := by
  obtain ⟨H, hm, hi, hp, -⟩ := h.heap
  have hg : g < M.length := h.le_length
  obtain ⟨t, H', hcur, hm', htop, hent⟩ := h.on hu hg
  obtain rfl : H' = H := Option.some.inj (hm'.symm.trans hm)
  obtain ⟨c, i, hc, hpi, hci⟩ := exists_of_entryAt hent
  obtain ⟨h', hstep, hi', hp'⟩ := moveTop_spec
    (fun _ _ f _ _ ha hb => MaxIteratorComparator_modify f ha hb) hi hp htop SeqIter.Prev
  let cs' := it.children_.modify t SeqIter.Prev
  let it' : MergingIterator κ β := { it with children_ := cs', maxHeap_ := some h', current_ := h'.top }
  refine ⟨it', ?_, ⟨?_, by omega, h.direction, ?_, h', rfl, hi', hp', rfl⟩, rfl⟩
  · rw [stepReverse_eq _ hcur hm htop, hstep, Option.map_some]
  · exact (map_items_modify (f := SeqIter.Prev) fun _ => rfl).trans h.items
  · -- the top child moves before the `g`-th entry; the others already stand before it
    intro j c' hc'
    by_cases hjt : j = t
    · subst hjt
      rw [List.getElem?_modify, hc] at hc'
      obtain rfl : c.Prev = c' := by simpa using hc'
      rw [SeqIter.items_Prev, pos_Prev_holder hu h.items hc hg hpi hci]
    · rw [getElem?_modify_ne _ (Ne.symm hjt)] at hc'
      rw [h.pos.pos_eq hc']
      exact List.findLastIdx?_lt_skip (rank_ne_of_entryAt hu h.items hg hent hjt hc')

/-- **`Next()` after going backward**: the block moves every child but `current_` to its first
entry past the current one, and the merge goes forward from the entry it stands on, with
`current_` on top of `minHeap_` as the source asserts -/
theorem Reverse.switchForward {g : Nat} (h : Reverse ls M it (g + 1)) (hg : g < M.length)
    (hN : ls.length ≤ kMaxSizet) :
    ∃ it', it.switchForward M[g].1 = some it' ∧ Forward ls M it' g ∧
      it'.prefix_seek_mode_ = it.prefix_seek_mode_ := by
  obtain ⟨t, -, hcur, -, -, hent⟩ := h.on hu hg
  obtain ⟨h', hfe, hi', hp'⟩ := forEachMin_spec it.ClearHeaps (seekPastKey M[g].1 it.current_) rfl
    (length_children_le h.items hN)
  let cs' := it.children_.mapIdx (seekPastKey M[g].1 it.current_)
  have hitems : cs'.map SeqIter.items = ls :=
    (map_items_mapIdx fun j c _ => items_seekPastKey _ _ j c).trans h.items
  have hpos : AtForward M cs' g := by
    intro j c' hc'
    rw [List.getElem?_mapIdx] at hc'
    obtain ⟨c, hc, rfl⟩ := Option.map_eq_some_iff.mp hc'
    rw [items_seekPastKey, hcur]
    by_cases hjt : j = t
    · -- the current child stays on the `g`-th entry
      subst hjt
      obtain ⟨c₀, i, hc₀, hpi, hci⟩ := exists_of_entryAt hent
      obtain rfl : c₀ = c := Option.some.inj (hc₀.symm.trans hc)
      rw [seekPastKey_self, hpi, (pos_holder hu h.items hc₀ hg hpi hci).1]
    · exact seekPastKey_other hu h.items hc hg hent hjt
  -- the top of the new heap is the child on the `g`-th entry: `current_`
  have hent' : entryAt cs' t = some M[g] := by
    rw [entryAt_mapIdx_of_fix fun c => by rw [hcur]; exact seekPastKey_self _ _ c]
    exact hent
  obtain ⟨t', htop', hent''⟩ := hpos.top hu hitems hg hi' hp'
  have htt : t' = t := entryAt_unique hu hitems hg hent'' hent'
  let it' : MergingIterator κ β :=
    { it.ClearHeaps with children_ := cs', minHeap_ := h', direction_ := .kForward }
  refine ⟨it', ?_, ⟨hitems, by omega, rfl, hpos, hi', hp', ?_⟩, rfl⟩
  · rw [MergingIterator.switchForward, hfe]
    rfl
  · show it.current_ = h'.top
    rw [hcur, htop', htt]

/-- **`Prev()` after going forward**: the block moves every child but `current_` to its last entry
before the current one, and the merge goes backward to the entry after the one it stands on -/
theorem Forward.switchReverse {g : Nat} (h : Forward ls M it g) (hg : g < M.length)
    (hpre : it.prefix_seek_mode_ = false) (hN : ls.length ≤ kMaxSizet) :
    ∃ it', it.switchReverse M[g].1 = some it' ∧ Reverse ls M it' (g + 1) ∧
      it'.prefix_seek_mode_ = it.prefix_seek_mode_ := by
  obtain ⟨t, hcur, -, hent⟩ := h.on hu hg
  obtain ⟨H, hm, hd⟩ := maxHeap_InitMaxHeap_ClearHeaps it
  obtain ⟨h', hfe, hi', hp'⟩ := forEachMax_spec it.ClearHeaps.InitMaxHeap
    (seekBeforeKey it.prefix_seek_mode_ M[g].1 it.current_) hm hd
    (by rw [children_InitMaxHeap]; exact length_children_le h.items hN)
  rw [children_InitMaxHeap, children_ClearHeaps] at hfe hi' hp'
  let cs' := it.children_.mapIdx (seekBeforeKey it.prefix_seek_mode_ M[g].1 it.current_)
  have hitems : cs'.map SeqIter.items = ls :=
    (map_items_mapIdx fun j c _ => items_seekBeforeKey _ _ _ j c).trans h.items
  have hpos : AtReverse M cs' (g + 1) := by
    intro j c' hc'
    rw [List.getElem?_mapIdx] at hc'
    obtain ⟨c, hc, rfl⟩ := Option.map_eq_some_iff.mp hc'
    rw [items_seekBeforeKey, hpre, hcur]
    by_cases hjt : j = t
    · -- the current child stays on the `g`-th entry
      subst hjt
      obtain ⟨c₀, i, hc₀, hpi, hci⟩ := exists_of_entryAt hent
      obtain rfl : c₀ = c := Option.some.inj (hc₀.symm.trans hc)
      rw [seekBeforeKey_self, hpi, (pos_holder hu h.items hc₀ hg hpi hci).2]
    · exact seekBeforeKey_other hu h.items hc hg hent hjt
  let src := it.ClearHeaps.InitMaxHeap
  let it' : MergingIterator κ β :=
    { src with children_ := cs', maxHeap_ := some h', direction_ := .kReverse, current_ := h'.top }
  refine ⟨it', ?_, ⟨hitems, by omega, rfl, hpos, h', rfl, hi', hp', rfl⟩, by simp [it', src]⟩
  rw [MergingIterator.switchReverse, hfe, Option.map_some]
  dsimp only
  rw [if_pos (by simp [hpre])]
  simp only [CurrentReverse_eq, Option.bind_some]
  rfl

end Directions

/-! ## The seeks -/

section Seeks

open SortedUnion

variable {ls : List (List (κ × β))} {M : List (κ × β)} {it : MergingIterator κ β}

/-- **A seek forward**, from wherever the merge stands: every child moved to its first entry of
rank `n` or more, and the merge goes forward from the `n`-th entry -/
theorem seekForward_forward (hitems : it.children_.map SeqIter.items = ls)
    (hN : ls.length ≤ kMaxSizet) {n : Nat} (hn : n ≤ M.length) (move : SeqIter κ β → SeqIter κ β)
    (hmove : ∀ (j : Nat) (c : SeqIter κ β), it.children_[j]? = some c → (move c).items = c.items ∧
      (move c).pos = c.items.findIdx? fun e => decide (n ≤ rank M e)) :
    ∃ it', it.seekForward move = some it' ∧ Forward ls M it' n ∧
      it'.prefix_seek_mode_ = it.prefix_seek_mode_ := by
  obtain ⟨h', hfe, hi', hp'⟩ := forEachMin_spec it.ClearHeaps (fun _ c => move c) rfl
    (length_children_le hitems hN)
  let cs' := it.children_.mapIdx fun _ c => move c
  have hitems' : cs'.map SeqIter.items = ls :=
    (map_items_mapIdx fun j c hc => (hmove j c hc).1).trans hitems
  have hpos : AtForward M cs' n := by
    intro j c' hc'
    rw [List.getElem?_mapIdx] at hc'
    obtain ⟨c, hc, rfl⟩ := Option.map_eq_some_iff.mp hc'
    rw [(hmove j c hc).1]
    exact (hmove j c hc).2
  let src := it.ClearHeaps
  let it' : MergingIterator κ β :=
    { src with children_ := cs', minHeap_ := h', direction_ := .kForward, current_ := h'.top }
  refine ⟨it', ?_, ⟨hitems', hn, rfl, hpos, hi', hp', rfl⟩, rfl⟩
  rw [seekForward, hfe, Option.map_some, CurrentForward_eq]
  rfl

/-- **A seek backward**, from wherever the merge stands: every child moved to its last entry of
rank below `n`, and the merge goes backward to the `n`-th entry -/
theorem seekReverse_reverse (hitems : it.children_.map SeqIter.items = ls)
    (hN : ls.length ≤ kMaxSizet) {n : Nat} (hn : n ≤ M.length) (move : SeqIter κ β → SeqIter κ β)
    (hmove : ∀ (j : Nat) (c : SeqIter κ β), it.children_[j]? = some c → (move c).items = c.items ∧
      (move c).pos = c.items.findLastIdx? fun e => decide (rank M e < n)) :
    ∃ it', it.seekReverse move = some it' ∧ Reverse ls M it' n ∧
      it'.prefix_seek_mode_ = it.prefix_seek_mode_ := by
  obtain ⟨H, hm, hd⟩ := maxHeap_InitMaxHeap_ClearHeaps it
  obtain ⟨h', hfe, hi', hp'⟩ := forEachMax_spec it.ClearHeaps.InitMaxHeap (fun _ c => move c) hm hd
    (by rw [children_InitMaxHeap]; exact length_children_le hitems hN)
  rw [children_InitMaxHeap, children_ClearHeaps] at hfe hi' hp'
  let cs' := it.children_.mapIdx fun _ c => move c
  have hitems' : cs'.map SeqIter.items = ls :=
    (map_items_mapIdx fun j c hc => (hmove j c hc).1).trans hitems
  have hpos : AtReverse M cs' n := by
    intro j c' hc'
    rw [List.getElem?_mapIdx] at hc'
    obtain ⟨c, hc, rfl⟩ := Option.map_eq_some_iff.mp hc'
    rw [(hmove j c hc).1]
    exact (hmove j c hc).2
  let src := it.ClearHeaps.InitMaxHeap
  let it' : MergingIterator κ β :=
    { src with children_ := cs', maxHeap_ := some h', direction_ := .kReverse, current_ := h'.top }
  refine ⟨it', ?_, ⟨hitems', hn, rfl, hpos, h', rfl, hi', hp', rfl⟩, by simp [it', src]⟩
  rw [seekReverse, hfe, Option.map_some]
  simp only [CurrentReverse_eq, Option.bind_some]
  rfl

end Seeks

theorem new_spec (children : List (SeqIter κ β)) (hN : children.length ≤ kMaxSizet) (b : Bool) :
    ∃ it, new children b = some it ∧ it.children_ = children ∧ it.prefix_seek_mode_ = b := by
  obtain ⟨h', hfe, -, -⟩ := forEachMin_spec
    (⟨children, none, .kForward, BinaryHeap.new, b, none⟩ : MergingIterator κ β)
    (fun _ child => child) rfl hN
  refine ⟨_, by rw [new, hfe, Option.map_some], ?_, rfl⟩
  refine List.ext_getElem? fun j => ?_
  show (children.mapIdx fun _ child => child)[j]? = children[j]?
  rw [List.getElem?_mapIdx]
  cases children[j]? <;> rfl

/-! ## Runs -/

/-- **The merge stands where a `SeqIter` over `M` stands at `p`**: going forward from the `n`-th
entry where `p` is `below n`, or backward to the `n`-th where `p` is `before n`; with
`prefix_seek_mode_` off -/
def Lands (ls : List (List (κ × β))) (M : List (κ × β)) (it : MergingIterator κ β)
    (p : Option Nat) : Prop :=
  it.prefix_seek_mode_ = false ∧
    ((∃ n, p = below n M.length ∧ Forward ls M it n) ∨
      (∃ n, p = before n ∧ Reverse ls M it n))

section Runs

open SortedUnion

variable {ls : List (List (κ × β))} {M : List (κ × β)} {it : MergingIterator κ β}

theorem Lands.items {p : Option Nat} (h : Lands ls M it p) :
    it.children_.map SeqIter.items = ls := by
  obtain ⟨-, ⟨n, -, hf⟩ | ⟨n, -, hr⟩⟩ := h
  · exact hf.items
  · exact hr.items

variable (hu : SortedUnion ls M)
include hu

/-- where the merge lands, it stands on the entry a `SeqIter` over `M` stands on -/
theorem Lands.current {p : Option Nat} (h : Lands ls M it p) : it.current = p.bind (M[·]?) := by
  obtain ⟨-, ⟨n, rfl, hf⟩ | ⟨n, rfl, hr⟩⟩ := h
  · rw [hf.current hu, bind_below]
  · exact hr.current hu

theorem Lands.valid {p : Option Nat} (h : Lands ls M it p) : it.Valid = p.isSome := by
  obtain ⟨-, ⟨n, rfl, hf⟩ | ⟨n, rfl, hr⟩⟩ := h
  · rw [hf.valid hu, below]
    split <;> simp_all
  · rw [hr.valid hu, before]
    split <;> simp_all [Nat.pos_iff_ne_zero]

/-- **The seeks land** from wherever the merge stood, where the same seek of a `SeqIter` over
`M` lands -/
theorem seek_lands (hN : ls.length ≤ kMaxSizet) (hitems : it.children_.map SeqIter.items = ls)
    (hpre : it.prefix_seek_mode_ = false) {m : Move κ} (hm : m.Allowed none) (p : Option Nat) :
    ∃ it', it.move m = some it' ∧ Lands ls M it' (m.pos M p) := by
  cases m with
  | SeekToFirst =>
    obtain ⟨it', h, hf, hpre'⟩ := seekForward_forward hitems hN (Nat.zero_le M.length)
      SeqIter.SeekToFirst fun _ _ hc => ⟨rfl, pos_SeekToFirst_rank⟩
    exact ⟨it', h, hpre'.trans hpre, Or.inl ⟨0, rfl, hf⟩⟩
  | SeekToLast =>
    obtain ⟨it', h, hr, hpre'⟩ := seekReverse_reverse hitems hN (Nat.le_refl M.length)
      SeqIter.SeekToLast fun _ _ hc => ⟨rfl, pos_SeekToLast_rank hu hitems hc⟩
    exact ⟨it', h, hpre'.trans hpre, Or.inr ⟨M.length, rfl, hr⟩⟩
  | Seek target =>
    obtain ⟨it', h, hf, hpre'⟩ := seekForward_forward hitems hN List.findIdx_le_length
      (SeqIter.Seek · target) fun _ _ hc => ⟨rfl, pos_Seek_rank hu hitems hc target⟩
    exact ⟨it', h, hpre'.trans hpre, Or.inl ⟨_, List.findIdx?_eq_below M, hf⟩⟩
  | SeekForPrev target =>
    obtain ⟨it', h, hr, hpre'⟩ := seekReverse_reverse hitems hN List.findIdx_le_length
      (SeqIter.SeekForPrev · target) fun _ _ hc => ⟨rfl, pos_SeekForPrev_rank hu hitems hc target⟩
    exact ⟨it', h, hpre'.trans hpre, Or.inr ⟨_, findLastIdx?_key_le hu.union_sorted target, hr⟩⟩
  | Next => exact absurd hm (by simp [Move.Allowed])
  | Prev => exact absurd hm (by simp [Move.Allowed])

/-- **`Next()`** on the `g`-th entry, going either way: the merge goes forward from the next -/
theorem Lands.Next (hN : ls.length ≤ kMaxSizet) {g : Nat} (h : Lands ls M it (some g)) :
    ∃ it', it.Next = some it' ∧ Lands ls M it' (below (g + 1) M.length) := by
  obtain ⟨hpre, ⟨n, hp, hf⟩ | ⟨n, hp, hr⟩⟩ := h
  · -- going forward: the top child moves on
    obtain ⟨rfl, hg⟩ := below_eq_some hp.symm
    have hcur : it.current = some M[n] := by rw [hf.current hu, List.getElem?_eq_getElem hg]
    obtain ⟨it', hs, hf', hpre'⟩ := hf.stepForward hu hg
    refine ⟨it', ?_, hpre'.trans hpre, Or.inl ⟨n + 1, rfl, hf'⟩⟩
    rw [MergingIterator.Next, hcur, Option.bind_some, if_neg (fun hne => hne hf.direction),
      Option.bind_some, hs]
  · -- going backward: the direction turns first
    obtain rfl := before_eq_some hp.symm
    have hg : g < M.length := hr.le_length
    have hcur : it.current = some M[g] := by
      rw [hr.current hu]
      simp [before, List.getElem?_eq_getElem hg]
    obtain ⟨it₁, hs₁, hf₁, hpre₁⟩ := hr.switchForward hu hg hN
    obtain ⟨it', hs, hf', hpre'⟩ := hf₁.stepForward hu hg
    refine ⟨it', ?_, hpre'.trans (hpre₁.trans hpre), Or.inl ⟨g + 1, rfl, hf'⟩⟩
    rw [MergingIterator.Next, hcur, Option.bind_some, if_pos (by rw [hr.direction]; decide), hs₁,
      Option.bind_some, hs]

/-- **`Prev()`** on the `g`-th entry, going either way: the merge goes backward to it -/
theorem Lands.Prev (hN : ls.length ≤ kMaxSizet) {g : Nat} (h : Lands ls M it (some g)) :
    ∃ it', it.Prev = some it' ∧ Lands ls M it' (before g) := by
  obtain ⟨hpre, ⟨n, hp, hf⟩ | ⟨n, hp, hr⟩⟩ := h
  · -- going forward: the direction turns first
    obtain ⟨rfl, hg⟩ := below_eq_some hp.symm
    have hcur : it.current = some M[n] := by rw [hf.current hu, List.getElem?_eq_getElem hg]
    obtain ⟨it₁, hs₁, hr₁, hpre₁⟩ := hf.switchReverse hu hg hpre hN
    obtain ⟨it', hs, hr', hpre'⟩ := hr₁.stepReverse hu
    refine ⟨it', ?_, hpre'.trans (hpre₁.trans hpre), Or.inr ⟨n, rfl, hr'⟩⟩
    rw [MergingIterator.Prev, hcur, Option.bind_some, if_pos (by rw [hf.direction]; decide), hs₁,
      Option.bind_some, hs]
  · -- going backward: the top child moves back
    obtain rfl := before_eq_some hp.symm
    have hg : g < M.length := hr.le_length
    have hcur : it.current = some M[g] := by
      rw [hr.current hu]
      simp [before, List.getElem?_eq_getElem hg]
    obtain ⟨it', hs, hr', hpre'⟩ := hr.stepReverse hu
    refine ⟨it', ?_, hpre'.trans hpre, Or.inr ⟨g, rfl, hr'⟩⟩
    rw [MergingIterator.Prev, hcur, Option.bind_some, if_neg (fun hne => hne hr.direction),
      Option.bind_some, hs]

/-- **One move** the interface allows keeps the merge where a `SeqIter` over `M` is -/
theorem Lands.move (hN : ls.length ≤ kMaxSizet) {p : Option Nat} (h : Lands ls M it p)
    {m : Move κ} (hm : m.Allowed p) : ∃ it', it.move m = some it' ∧ Lands ls M it' (m.pos M p) := by
  cases m with
  | Next =>
    obtain ⟨g, rfl⟩ := Option.isSome_iff_exists.mp hm
    exact h.Next hu hN
  | Prev =>
    obtain ⟨g, rfl⟩ := Option.isSome_iff_exists.mp hm
    exact h.Prev hu hN
  | _ => exact seek_lands hu hN h.items h.1 (by trivial) p

/-- **A run** of allowed moves, by induction on the run with `Lands.move` at each move -/
theorem Lands.run (hN : ls.length ≤ kMaxSizet) :
    ∀ (ms : List (Move κ)) {it : MergingIterator κ β} {p : Option Nat}, Lands ls M it p →
      Move.Allows M p ms → ∃ it', it.run ms = some it' ∧ Lands ls M it' (Move.runPos M p ms)
  | [], it, _, h, _ => ⟨it, rfl, h⟩
  | m :: ms, _, _, h, hall => by
    obtain ⟨it₁, h₁, hl₁⟩ := h.move hu hN hall.1
    obtain ⟨it₂, h₂, hl₂⟩ := Lands.run hN ms hl₁ hall.2
    exact ⟨it₂, by rw [MergingIterator.run, h₁, Option.bind_some, h₂], hl₂⟩

/-- from a merge standing anywhere, a run that starts with a seek lands where a `SeqIter` over
`M` lands -/
theorem run_lands (hN : ls.length ≤ kMaxSizet) (hitems : it.children_.map SeqIter.items = ls)
    (hpre : it.prefix_seek_mode_ = false) {m : Move κ} {ms : List (Move κ)}
    (hall : Move.Allows M none (m :: ms)) :
    ∃ it', it.run (m :: ms) = some it' ∧ Lands ls M it' (Move.runPos M none (m :: ms)) := by
  obtain ⟨it₁, h₁, hl₁⟩ := seek_lands hu hN hitems hpre hall.1 none
  obtain ⟨it₂, h₂, hl₂⟩ := hl₁.run hu hN ms hall.2
  exact ⟨it₂, by rw [MergingIterator.run, h₁, Option.bind_some, h₂], hl₂⟩

end Runs

/-- **MergingIterator is the sorted merge of its children.**  For children whose keys strictly
increase, no key in two of them, with `M` their entries in key order, the merging iterator built
over them with `prefix_seek_mode` off yields, over every run of moves that starts with a seek and
moves `Next` and `Prev` on a valid iterator only, what a `SeqIter` over `M` yields: valid at the
same moments, on the same entries; each `Next` and `Prev` moves one entry of `M`, through every
change of direction.  So `SeekToFirst` and `k` moves `Next` reach the `k`-th entry of `M`,
`SeekToLast` and `k` moves `Prev` the `k`-th from the end, `Seek(t)` the first entry not below `t`
and `SeekForPrev(t)` the last entry not above `t`.  `int n` bounds the number of children. -/
theorem sorted_merge_of_children (children : List (SeqIter κ β)) (M : List (κ × β))
    (hu : SortedUnion (children.map SeqIter.items) M) (hn : children.length < 2 ^ 31) :
    ∃ it, new children false = some it ∧
      (∀ m ms, Move.Allows M none (m :: ms) → ∃ it', it.run (m :: ms) = some it' ∧
        it'.Valid = ((SeqIter.new M).run (m :: ms)).Valid ∧
        it'.current = ((SeqIter.new M).run (m :: ms)).current) ∧
      (∀ k ≤ M.length, ∃ it', it.run (.SeekToFirst :: List.replicate k .Next) = some it' ∧
        it'.current = M[k]?) ∧
      (∀ k ≤ M.length, ∃ it', it.run (.SeekToLast :: List.replicate k .Prev) = some it' ∧
        it'.current = M.reverse[k]?) ∧
      (∀ t, ∃ it', it.run [.Seek t] = some it' ∧
        it'.current = (M.findIdx? fun e => decide (t ≤ e.1)).bind (M[·]?)) ∧
      (∀ t, ∃ it', it.run [.SeekForPrev t] = some it' ∧
        it'.current = (M.findLastIdx? fun e => decide (e.1 ≤ t)).bind (M[·]?)) := by
  have hN : (children.map SeqIter.items).length ≤ kMaxSizet := by
    rw [List.length_map, kMaxSizet]
    omega
  obtain ⟨it, hnew, hch, hpre⟩ := new_spec children (by simpa using hN) false
  have hitems : it.children_.map SeqIter.items = children.map SeqIter.items := by rw [hch]
  have key := fun (m : Move κ) (ms : List (Move κ)) (hall : Move.Allows M none (m :: ms)) =>
    run_lands hu hN hitems hpre hall
  refine ⟨it, hnew, fun m ms hall => ?_, fun k hk => ?_, fun k hk => ?_, fun t => ?_, fun t => ?_⟩
  · -- every run: valid exactly when the `SeqIter` is, on the same entry
    obtain ⟨it', hrun, hl⟩ := key m ms hall
    refine ⟨it', hrun, ?_, ?_⟩
    · rw [hl.valid hu, SeqIter.Valid, SeqIter.pos_run]
      rfl
    · rw [hl.current hu, SeqIter.current, SeqIter.pos_run, SeqIter.items_run]
      rfl
  · -- the forward scan reaches the `k`-th entry
    obtain ⟨hpos, hall⟩ := Move.runPos_SeekToFirst_Next hk none
    obtain ⟨it', hrun, hl⟩ := key _ _ hall
    exact ⟨it', hrun, by rw [hl.current hu, hpos, SeqIter.bind_below]⟩
  · -- the backward scan reaches the `k`-th entry from the end
    obtain ⟨hpos, hall⟩ := Move.runPos_SeekToLast_Prev hk none
    obtain ⟨it', hrun, hl⟩ := key _ _ hall
    exact ⟨it', hrun, by rw [hl.current hu, hpos, SeqIter.bind_before_sub]⟩
  · obtain ⟨it', hrun, hl⟩ := key (.Seek t) [] ⟨trivial, trivial⟩
    exact ⟨it', hrun, hl.current hu⟩
  · obtain ⟨it', hrun, hl⟩ := key (.SeekForPrev t) [] ⟨trivial, trivial⟩
    exact ⟨it', hrun, hl.current hu⟩

/-- two children, with keys `1, 4` and `2, 3`: `SeekToFirst` and two moves `Next` stand on the
key `3`, taken from the second child after the first -/
theorem sorted_merge_of_children_interleaves :
    let children : List (SeqIter Nat Nat) :=
      [SeqIter.new [(1, 10), (4, 40)], SeqIter.new [(2, 20), (3, 30)]]
    let M : List (Nat × Nat) := [(1, 10), (2, 20), (3, 30), (4, 40)]
    SortedUnion (children.map SeqIter.items) M ∧ children.length < 2 ^ 31 ∧
      ∃ it, new children false = some it ∧
        ∃ it', it.run (.SeekToFirst :: List.replicate 2 .Next) = some it' ∧
          it'.current = some (3, 30) := by
  intro children M
  have hu : SortedUnion (children.map SeqIter.items) M :=
    ⟨by decide, by decide, by decide, by decide⟩
  have hn : children.length < 2 ^ 31 := by decide
  obtain ⟨it, hnew, -, hscan, -⟩ := sorted_merge_of_children children M hu hn
  obtain ⟨it', hrun, hcur⟩ := hscan 2 (by decide)
  exact ⟨hu, hn, it, hnew, it', hrun, hcur⟩

end MergingIterator

end RocksDB
