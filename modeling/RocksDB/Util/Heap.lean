import RocksDB.Lib.HeapOrder

/-!
# util/heap.h: the binary heap of the merging iterators

`BinaryHeap<T, Compare>` is the max-heap of the merging iterators: `data_` is the array of a
binary tree, `cmp_` the "less than" of `Compare`, and `root_cmp_cache_` remembers which child of
the root the last `downheap` that stopped at the root compared with, so that the next
`downheap` from the root skips the comparison of the two children.

* `upheapLoop`, `downheapLoop`  the `while` loops of `upheap` and `downheap`, with the hole
                               at `index` and the value `v` out of the array; `downheapLoop`
                               runs on fuel, as its `while (1)` has no bound of its own;
* `push`, `pop`, `replace_top`, `clear`, `top`  the interface, `Option` where the source
                               asserts `!empty()`;
* `HeapOp`, `run`              a run of the interface from a heap;
* `PQStep`, `PQRuns`           the max-priority queue the heap stands for, on multisets.

`Inv` is what every reachable heap keeps: heap order, the cache naming the greater child of the
root, and a `size_t` size.  `Inv.apply` shows one operation keeps it and does what `PQStep`
asks; `Inv.run` carries both along a run.  `downheap_reset` is the point of the cache: a heap
that keeps `Inv` sifts down the same way with the cache as without it.

The comparison is an argument of each operation rather than a field.
-/

namespace RocksDB

/-- `port::kMaxSizet`, the largest `size_t` -/
def kMaxSizet : Nat := 2 ^ 64 - 1

/-- `BinaryHeap<T, Compare>` without `cmp_` -/
structure BinaryHeap (α : Type u) where
  data_ : List α
  root_cmp_cache_ : Nat
deriving DecidableEq, Repr

namespace BinaryHeap

open HeapOrder

variable {α : Type u}

def get_root : Nat := 0

def get_parent (index : Nat) : Nat := (index - 1) / 2

def get_left (index : Nat) : Nat := 2 * index + 1

def get_right (index : Nat) : Nat := 2 * index + 2

/-- `BinaryHeap()` -/
def new : BinaryHeap α := ⟨[], kMaxSizet⟩

def empty (h : BinaryHeap α) : Bool := h.data_.isEmpty

/-- `top()`, `none` where the source asserts `!empty()` -/
def top (h : BinaryHeap α) : Option α := h.data_.head?

def reset_root_cmp_cache (h : BinaryHeap α) : BinaryHeap α :=
  { h with root_cmp_cache_ := kMaxSizet }

variable (cmp : α → α → Bool)

/-- the loop of `upheap`: while the parent of the hole is below `v`, it moves down into the
hole.  The array and the hole's last place; `parent < index < size` at every read. -/
def upheapLoop (v : α) (data_ : List α) (index : Nat) : List α × Nat :=
  if _hidx : index > get_root then
    let parent := get_parent index
    if !cmp (data_.getD parent v) v then (data_, index)
    else upheapLoop v (data_.set index (data_.getD parent v)) parent
  else (data_, index)
termination_by index
decreasing_by simp only [get_parent, get_root] at *; omega

/-- `upheap(index)`: `none` when `index` is not a place of the array -/
def upheap (h : BinaryHeap α) (index : Nat) : Option (BinaryHeap α) :=
  h.data_[index]?.map fun v =>
    let r := upheapLoop cmp v h.data_ index
    ({ data_ := r.1.set r.2 v, root_cmp_cache_ := h.root_cmp_cache_ } : BinaryHeap α)
      |>.reset_root_cmp_cache

/-- the child of `index` that `downheap` picks without the cache: the right child when it is a
place of the array and the left child is below it, else the left child -/
def greaterChild (data_ : List α) (index : Nat) : Nat :=
  let left_child := get_left index
  let right_child := left_child + 1
  match data_[left_child]?, data_[right_child]? with
  | some l, some r => if cmp l r then right_child else left_child
  | _, _ => left_child

/-- `picked_child` of one round of `downheap`'s loop: the cached child at the root -/
def pickedChild (root_cmp_cache_ : Nat) (data_ : List α) (index : Nat) : Nat :=
  if index = 0 ∧ root_cmp_cache_ < data_.length then root_cmp_cache_
  else greaterChild cmp data_ index

/-- the loop of `downheap`: while `v` is below the picked child of the hole, that child moves up
into the hole.  The array, the hole's last place and the last `picked_child`; `none` when the
fuel runs out.  Reads are at children of `index`, inside the array. -/
def downheapLoop (root_cmp_cache_ : Nat) (v : α) :
    Nat → List α → Nat → Nat → Option (List α × Nat × Nat)
  | 0, _, _, _ => none
  | fuel + 1, data_, index, picked_child =>
    if get_left index ≥ data_.length then some (data_, index, picked_child)
    else
      let picked_child := pickedChild cmp root_cmp_cache_ data_ index
      if !cmp v (data_.getD picked_child v) then some (data_, index, picked_child)
      else
        downheapLoop root_cmp_cache_ v fuel (data_.set index (data_.getD picked_child v))
          picked_child picked_child

/-- `downheap(index)`: the cache is kept when the hole never left the root, and reset else -/
def downheap (h : BinaryHeap α) (index : Nat) : Option (BinaryHeap α) :=
  h.data_[index]?.bind fun v =>
    (downheapLoop cmp h.root_cmp_cache_ v (h.data_.length + 1) h.data_ index kMaxSizet).map
      fun r => { data_ := r.1.set r.2.1 v,
                 root_cmp_cache_ := if r.2.1 = 0 then r.2.2 else kMaxSizet }

/-- `push(value)`: `upheap(data_.size() - 1)` after the `push_back` -/
def push (h : BinaryHeap α) (value : α) : Option (BinaryHeap α) :=
  let h := { h with data_ := h.data_ ++ [value] }
  upheap cmp h (h.data_.length - 1)

/-- `replace_top(value)` -/
def replace_top (h : BinaryHeap α) (value : α) : Option (BinaryHeap α) :=
  if h.empty then none
  else downheap cmp { h with data_ := h.data_.set get_root value } get_root

/-- `pop()`: the last element moves to the root, and the heap is sifted from there -/
def pop (h : BinaryHeap α) : Option (BinaryHeap α) :=
  match h.data_.getLast? with
  | none => none
  | some back =>
    let h := { h with data_ := (h.data_.set get_root back).dropLast }
    if !h.empty then downheap cmp h get_root else some h.reset_root_cmp_cache

/-- `clear()` -/
def clear (h : BinaryHeap α) : BinaryHeap α :=
  ({ h with data_ := [] } : BinaryHeap α).reset_root_cmp_cache

/-- the calls a user of the heap makes -/
inductive HeapOp (α : Type u)
  | push (value : α)
  | pop
  | replace_top (value : α)
  | clear
deriving DecidableEq, Repr

def HeapOp.apply : HeapOp α → BinaryHeap α → Option (BinaryHeap α)
  | .push x, h => h.push cmp x
  | .pop, h => h.pop cmp
  | .replace_top x, h => h.replace_top cmp x
  | .clear, h => some h.clear

def run (h : BinaryHeap α) : List (HeapOp α) → Option (BinaryHeap α)
  | [] => some h
  | op :: ops => (op.apply cmp h).bind fun h => run h ops

/-- `push` needs room in a `size_t`; `pop` and `replace_top` assert `!empty()` -/
def HeapOp.Allowed (n : Nat) : HeapOp α → Prop
  | .push _ => n < kMaxSizet
  | .pop => 0 < n
  | .replace_top _ => 0 < n
  | .clear => True

/-- the size after an operation on a heap of `n` elements -/
def HeapOp.size (n : Nat) : HeapOp α → Nat
  | .push _ => n + 1
  | .pop => n - 1
  | .replace_top _ => n
  | .clear => 0

/-- each operation of a run from a heap of `n` elements is allowed where it comes -/
def HeapOp.Fits : Nat → List (HeapOp α) → Prop
  | _, [] => True
  | n, op :: ops => op.Allowed n ∧ Fits (op.size n) ops

/-! ## The priority queue the heap stands for -/

/-- **The max-priority queue**, on multisets: `pop` takes a maximum away and `replace_top` puts
a value in a maximum's place, where a maximum is below no other element -/
inductive PQStep (lt : α → α → Bool) : Multiset α → HeapOp α → Multiset α → Prop
  | push (m : Multiset α) (x : α) : PQStep lt m (.push x) (x ::ₘ m)
  | pop (t : α) (m : Multiset α) : (∀ y ∈ m, lt t y = false) → PQStep lt (t ::ₘ m) .pop m
  | replace_top (t : α) (m : Multiset α) (x : α) : (∀ y ∈ m, lt t y = false) →
      PQStep lt (t ::ₘ m) (.replace_top x) (x ::ₘ m)
  | clear (m : Multiset α) : PQStep lt m .clear 0

inductive PQRuns (lt : α → α → Bool) : Multiset α → List (HeapOp α) → Multiset α → Prop
  | nil (m : Multiset α) : PQRuns lt m [] m
  | cons {m m' m'' : Multiset α} {op : HeapOp α} {ops : List (HeapOp α)} :
      PQStep lt m op m' → PQRuns lt m' ops m'' → PQRuns lt m (op :: ops) m''

/-! ## The picked child -/

theorem greaterChild_eq_of_lt {data_ : List α} {index : Nat}
    (hr : get_left index + 1 < data_.length) :
    greaterChild cmp data_ index =
      if cmp data_[get_left index] data_[get_left index + 1] then get_left index + 1
      else get_left index := by
  simp only [greaterChild, List.getElem?_eq_getElem hr,
    List.getElem?_eq_getElem (show get_left index < data_.length by omega)]

theorem greaterChild_eq_of_le {data_ : List α} {index : Nat}
    (hr : data_.length ≤ get_left index + 1) :
    greaterChild cmp data_ index = get_left index := by
  have hr' : data_[get_left index + 1]? = none := List.getElem?_eq_none hr
  simp only [greaterChild, hr']
  split <;> simp_all

/-- the greater child is one of the two children -/
theorem greaterChild_child (data_ : List α) (index : Nat) :
    0 < greaterChild cmp data_ index ∧ (greaterChild cmp data_ index - 1) / 2 = index := by
  by_cases hr : get_left index + 1 < data_.length
  · rw [greaterChild_eq_of_lt cmp hr]
    split <;> simp only [get_left] <;> omega
  · rw [greaterChild_eq_of_le cmp (by omega)]
    simp only [get_left]
    omega

theorem greaterChild_lt {data_ : List α} {index : Nat} (hl : get_left index < data_.length) :
    greaterChild cmp data_ index < data_.length := by
  by_cases hr : get_left index + 1 < data_.length
  · rw [greaterChild_eq_of_lt cmp hr]
    split <;> omega
  · rwa [greaterChild_eq_of_le cmp (by omega)]

/-- `greaterChild` reads the two children only -/
theorem greaterChild_congr {d d' : List α} {index : Nat}
    (hl : d'[get_left index]? = d[get_left index]?)
    (hr : d'[get_left index + 1]? = d[get_left index + 1]?) :
    greaterChild cmp d' index = greaterChild cmp d index := by
  simp only [greaterChild, hl, hr]

theorem greaterChild_set_root (d : List α) (x : α) :
    greaterChild cmp (d.set get_root x) get_root = greaterChild cmp d get_root :=
  greaterChild_congr cmp (by simp [get_left, get_root]) (by simp [get_left, get_root])

/-- at the root, `greaterChild` compares the root's two children only -/
theorem greaterChild_cmp_congr {cmp' : α → α → Bool} {d : List α}
    (hc : ∀ i j (hi : i < d.length) (hj : j < d.length), 0 < i → 0 < j →
      cmp d[i] d[j] = cmp' d[i] d[j]) :
    greaterChild cmp' d get_root = greaterChild cmp d get_root := by
  by_cases hr : get_left get_root + 1 < d.length
  · rw [greaterChild_eq_of_lt cmp hr, greaterChild_eq_of_lt cmp' hr,
      hc _ _ (by omega) hr (by simp [get_left, get_root]) (by simp [get_left, get_root])]
  · rw [greaterChild_eq_of_le cmp (by omega), greaterChild_eq_of_le cmp' (by omega)]

section Order

variable [IsStrictWeakOrder α (fun a b => cmp a b = true)]

/-- **The greater child** is above neither child of `index` -/
theorem greaterChild_greatest {data_ : List α} {index : Nat}
    (hp : greaterChild cmp data_ index < data_.length) :
    ∀ c (hc : c < data_.length), 0 < c → (c - 1) / 2 = index →
      cmp data_[greaterChild cmp data_ index] data_[c] = false := by
  intro c hc hc0 hpc
  have hlr : c = get_left index ∨ c = get_left index + 1 := by
    simp only [get_left]
    omega
  by_cases hr : get_left index + 1 < data_.length
  · simp only [greaterChild_eq_of_lt cmp hr]
    -- the right child is picked when the left one is below it
    split
    · rename_i hlt
      rcases hlr with rfl | rfl
      · exact asymm cmp hlt
      · exact irrefl cmp _
    · rename_i hlt
      rcases hlr with rfl | rfl
      · exact irrefl cmp _
      · simpa using hlt
  · simp only [greaterChild_eq_of_le cmp (Nat.le_of_not_lt hr)]
    rcases hlr with rfl | rfl
    · exact irrefl cmp _
    · exact absurd hc hr

end Order

/-- the cache, when it is a place of the array, is the child of the root that `downheap` would
pick without it -/
def CacheOk (root_cmp_cache_ : Nat) (data_ : List α) : Prop :=
  root_cmp_cache_ < data_.length → root_cmp_cache_ = greaterChild cmp data_ get_root

theorem cacheOk_kMaxSizet {data_ : List α} (hs : data_.length ≤ kMaxSizet) :
    CacheOk cmp kMaxSizet data_ := by
  intro h
  omega

theorem CacheOk.set_root {c : Nat} {data_ : List α} (h : CacheOk cmp c data_) (x : α) :
    CacheOk cmp c (data_.set get_root x) := by
  intro hc
  rw [greaterChild_set_root]
  exact h (by simpa using hc)

/-- the last element moved to the root and dropped from the end: the root's children are the
same, or the cache is past the end -/
theorem CacheOk.pop {c : Nat} {data_ : List α} (h : CacheOk cmp c data_) (x : α) :
    CacheOk cmp c (data_.set get_root x).dropLast := by
  intro hc
  simp only [List.length_dropLast, List.length_set] at hc
  have hc' := h (by omega)
  by_cases h2 : get_left get_root + 1 < data_.length - 1
  · -- both children are still in the array
    rw [hc']
    refine (greaterChild_congr cmp ?_ ?_).symm <;>
      simp only [get_left, get_root] at h2 ⊢ <;>
      simp [List.getElem?_dropLast] <;> omega
  · -- only the left child is left: the cache, below the size, is that child
    have hpos := (greaterChild_child cmp data_ get_root).1
    rw [greaterChild_eq_of_le cmp (by simp only [List.length_dropLast, List.length_set]; omega)]
    simp only [get_left, get_root] at *
    omega

theorem CacheOk.cmp_congr {cmp' : α → α → Bool} {c : Nat} {d : List α} (h : CacheOk cmp c d)
    (hc : ∀ i j (hi : i < d.length) (hj : j < d.length), 0 < i → 0 < j →
      cmp d[i] d[j] = cmp' d[i] d[j]) :
    CacheOk cmp' c d := fun hlt => (h hlt).trans (greaterChild_cmp_congr cmp hc).symm

theorem pickedChild_eq {c : Nat} {data_ : List α} {index : Nat}
    (h : index = 0 → CacheOk cmp c data_) :
    pickedChild cmp c data_ index = greaterChild cmp data_ index := by
  unfold pickedChild
  split
  · rename_i hc
    obtain ⟨rfl, hlt⟩ := hc
    exact h rfl hlt
  · rfl

/-! ## downheap -/

/-- the loop sees the cache only at the root, where a sound cache names the child it would
pick anyway -/
theorem downheapLoop_cache {c₁ c₂ : Nat} {v : α} : ∀ fuel data_ index picked_child,
    (index = 0 → CacheOk cmp c₁ data_) → (index = 0 → CacheOk cmp c₂ data_) →
    downheapLoop cmp c₁ v fuel data_ index picked_child =
      downheapLoop cmp c₂ v fuel data_ index picked_child
  | 0, _, _, _, _, _ => rfl
  | fuel + 1, data_, index, picked_child, h₁, h₂ => by
    -- the next round is at a child, away from the root
    have hne : greaterChild cmp data_ index ≠ 0 := (greaterChild_child cmp data_ index).1.ne'
    simp only [downheapLoop, pickedChild_eq cmp h₁, pickedChild_eq cmp h₂]
    rw [downheapLoop_cache fuel _ (greaterChild cmp data_ index) _ (fun h0 => absurd h0 hne)
      (fun h0 => absurd h0 hne)]

/-- what `downheapLoop` hands back from the hole at `index` with `v` waiting: the filled array
is a heap and a permutation of the one it started from, and when the hole never moved nothing
did, and the last `picked_child` is the one it started with or the greater child -/
structure DownOut (data_ : List α) (index picked_child : Nat) (v : α)
    (r : List α × Nat × Nat) : Prop where
  ordered : Ordered cmp (r.1.set r.2.1 v)
  perm : (r.1.set r.2.1 v).Perm (data_.set index v)
  length : r.1.length = data_.length
  index_le : index ≤ r.2.1
  stay : r.2.1 = index → r.1 = data_ ∧
    (r.2.2 = picked_child ∨ r.2.2 = greaterChild cmp data_ index)

section Order

variable [IsStrictWeakOrder α (fun a b => cmp a b = true)]

/-- **The loop of `downheap`**: from a sift-down state with fuel above the distance to the end
of the array, it ends, with a heap.  Induction on the fuel; each round is `SiftDown.move`. -/
theorem downheapLoop_spec {c : Nat} {v : α} : ∀ fuel data_ index picked_child,
    data_.length - index < fuel → SiftDown cmp data_ index v →
    (index = 0 → CacheOk cmp c data_) →
    ∃ r, downheapLoop cmp c v fuel data_ index picked_child = some r ∧
      DownOut cmp data_ index picked_child v r
  | 0, _, _, _, hf, _, _ => absurd hf (Nat.not_lt_zero _)
  | fuel + 1, data_, index, picked_child, hf, o, hc => by
    simp only [downheapLoop, pickedChild_eq cmp hc]
    by_cases hl : get_left index ≥ data_.length
    · -- no child: the hole is filled where it is
      rw [if_pos hl]
      refine ⟨_, rfl, o.fill ?_, List.Perm.refl _, rfl, Nat.le_refl _, fun _ => ⟨rfl, Or.inl rfl⟩⟩
      intro c hc hc0 hpc
      simp only [get_left] at hl
      omega
    · rw [if_neg hl]
      have hp := greaterChild_lt cmp (Nat.lt_of_not_le hl)
      have ⟨hp0, hpi⟩ := greaterChild_child cmp data_ index
      have hg := greaterChild_greatest cmp hp
      rw [List.getD_eq_getElem?_getD, List.getElem?_eq_getElem hp, Option.getD_some]
      by_cases hb : cmp v data_[greaterChild cmp data_ index] = true
      · -- `v` below the greater child: the child moves up into the hole
        rw [if_neg (by simp [hb])]
        have hfuel : (data_.set index data_[greaterChild cmp data_ index]).length -
            greaterChild cmp data_ index < fuel := by
          simp only [List.length_set]
          omega
        obtain ⟨r, hr, out⟩ := downheapLoop_spec fuel _ _ (greaterChild cmp data_ index) hfuel
          (o.move hp hp0 hpi hg hb) (fun h0 => absurd h0 hp0.ne')
        refine ⟨r, hr, out.ordered, ?_, ?_, ?_, ?_⟩
        · exact out.perm.trans (perm_set_move o.lt_len hp (by omega) v)
        · rw [out.length, List.length_set]
        · have := out.index_le
          omega
        · intro h
          have := out.index_le
          omega
      · -- `v` not below the greater child, so below no child
        rw [if_pos (by simpa using hb)]
        refine ⟨_, rfl, o.fill ?_, List.Perm.refl _, rfl, Nat.le_refl _,
          fun _ => ⟨rfl, Or.inr rfl⟩⟩
        intro c hc hc0 hpc
        exact not_lt_trans cmp (by simpa using hb) (hg c hc hc0 hpc)

end Order

/-! ## upheap -/

/-- what `upheapLoop` hands back from the hole at `index` with `v` waiting: the filled array is a
heap and a permutation of the one it started from -/
structure UpOut (data_ : List α) (index : Nat) (v : α) (r : List α × Nat) : Prop where
  ordered : Ordered cmp (r.1.set r.2 v)
  perm : (r.1.set r.2 v).Perm (data_.set index v)
  length : r.1.length = data_.length

/-- **The loop of `upheap`**, by strong induction on the hole's place; each round is
`SiftUp.move` -/
theorem upheapLoop_spec [IsStrictWeakOrder α (fun a b => cmp a b = true)] {v : α}
    (data_ : List α) (index : Nat) (o : SiftUp cmp data_ index v) :
    UpOut cmp data_ index v (upheapLoop cmp v data_ index) := by
  induction index using Nat.strongRecOn generalizing data_ with
  | _ index ih =>
    rw [upheapLoop]
    by_cases h0 : index > get_root
    · rw [dif_pos h0]
      have h0 : 0 < index := h0
      have hq : get_parent index < data_.length := by
        have := o.lt_len
        simp only [get_parent]
        omega
      simp only [List.getD_eq_getElem?_getD, List.getElem?_eq_getElem hq, Option.getD_some]
      by_cases hb : cmp data_[get_parent index] v = true
      · -- the parent is below `v`: it moves down into the hole
        rw [if_neg (by simp [hb])]
        have out : UpOut cmp (data_.set index data_[get_parent index]) (get_parent index) v
            (upheapLoop cmp v (data_.set index data_[get_parent index]) (get_parent index)) :=
          ih (get_parent index) (by simp only [get_parent]; omega) _ (o.move o.lt_len h0 hb)
        refine ⟨out.ordered, out.perm.trans (perm_set_move o.lt_len hq ?_ v), ?_⟩
        · simp only [get_parent]
          omega
        · rw [out.length, List.length_set]
      · rw [if_pos (by simpa using hb)]
        exact ⟨o.fill (fun _ _ => by simpa [get_parent] using hb), List.Perm.refl _, rfl⟩
    · rw [dif_neg h0]
      exact ⟨o.fill (fun _ h => absurd h h0), List.Perm.refl _, rfl⟩

/-! ## The interface -/

/-- what every heap a run reaches keeps -/
structure Inv (h : BinaryHeap α) : Prop where
  ordered : Ordered cmp h.data_
  cache : CacheOk cmp h.root_cmp_cache_ h.data_
  size_le : h.data_.length ≤ kMaxSizet

/-- an empty heap keeps the invariant, whatever its cache -/
theorem inv_of_nil {h : BinaryHeap α} (hd : h.data_ = []) : Inv cmp h := by
  refine ⟨?_, fun hc => ?_, ?_⟩ <;> simp only [hd] at *
  · exact ordered_nil cmp
  · exact absurd hc (Nat.not_lt_zero _)
  · exact Nat.zero_le _

theorem inv_new : Inv cmp (new : BinaryHeap α) := inv_of_nil cmp rfl

/-- the invariant under a comparison that agrees with this one on the heap's elements -/
theorem Inv.congr {cmp' : α → α → Bool} {h : BinaryHeap α} (hi : Inv cmp h)
    (hc : ∀ a ∈ h.data_, ∀ b ∈ h.data_, cmp a b = cmp' a b) : Inv cmp' h :=
  ⟨hi.ordered.congr fun _ _ _ _ => hc _ (List.getElem_mem _) _ (List.getElem_mem _),
    hi.cache.cmp_congr cmp fun _ _ _ _ _ _ => hc _ (List.getElem_mem _) _ (List.getElem_mem _),
    hi.size_le⟩

section Order

variable [IsStrictWeakOrder α (fun a b => cmp a b = true)]

/-- `downheap` from the root of an array ordered off the root, with a sound cache: a heap with a
sound cache, holding the same elements -/
theorem downheap_spec {h : BinaryHeap α} (o : OrderedOff cmp h.data_ get_root)
    (hne : h.data_ ≠ []) (hc : CacheOk cmp h.root_cmp_cache_ h.data_)
    (hs : h.data_.length ≤ kMaxSizet) :
    ∃ h', h.downheap cmp get_root = some h' ∧ Inv cmp h' ∧ h'.data_.Perm h.data_ := by
  have hlen : 0 < h.data_.length := List.length_pos_of_ne_nil hne
  obtain ⟨r, hr, out⟩ := downheapLoop_spec cmp (h.data_.length + 1) h.data_ 0 kMaxSizet
    (by omega) (o.siftDown hlen h.data_[0]) (fun _ => hc)
  simp only [downheap, get_root, List.getElem?_eq_getElem hlen, Option.bind_some, hr,
    Option.map_some]
  have hlen' : (r.1.set r.2.1 h.data_[0]).length ≤ kMaxSizet := by
    rw [List.length_set, out.length]
    exact hs
  refine ⟨_, rfl, ⟨out.ordered, ?_, hlen'⟩, ?_⟩
  · -- the cache survives only when the hole stayed at the root, where nothing moved
    split
    · rename_i hr0
      obtain ⟨hd, hpc⟩ := out.stay hr0
      rcases hpc with hpc | hpc
      · rw [hpc]
        exact cacheOk_kMaxSizet cmp hlen'
      · intro _
        rw [hpc, hd, hr0]
        exact (greaterChild_set_root cmp h.data_ _).symm
    · exact cacheOk_kMaxSizet cmp hlen'
  · exact out.perm.trans (by rw [List.set_getElem_self])

theorem Inv.push {h : BinaryHeap α} (hi : Inv cmp h) (hs : h.data_.length < kMaxSizet) (x : α) :
    ∃ h', h.push cmp x = some h' ∧ Inv cmp h' ∧ h'.data_.Perm (h.data_ ++ [x]) := by
  have out := upheapLoop_spec cmp _ _ (hi.ordered.siftUp x)
  simp only [BinaryHeap.push, upheap, List.length_append, List.length_singleton, Nat.add_sub_cancel,
    List.getElem?_concat_length, Option.map_some]
  have hlen : ((upheapLoop cmp x (h.data_ ++ [x]) h.data_.length).1.set
      (upheapLoop cmp x (h.data_ ++ [x]) h.data_.length).2 x).length ≤ kMaxSizet := by
    rw [List.length_set, out.length, List.length_append, List.length_singleton]
    omega
  refine ⟨_, rfl, ⟨out.ordered, cacheOk_kMaxSizet cmp hlen, hlen⟩, ?_⟩
  exact out.perm.trans (by rw [List.set_append_right _ _ (Nat.le_refl _)]; simp)

/-- `replace_top` needs the heap order off the root only: the root's element is replaced -/
theorem replace_top_spec {h : BinaryHeap α} (o : OrderedOff cmp h.data_ get_root)
    (hc : CacheOk cmp h.root_cmp_cache_ h.data_) (hs : h.data_.length ≤ kMaxSizet)
    (hne : h.data_ ≠ []) (x : α) :
    ∃ h', h.replace_top cmp x = some h' ∧ Inv cmp h' ∧ h'.data_.Perm (h.data_.set get_root x) := by
  have hne' : h.data_.isEmpty = false := List.isEmpty_eq_false_iff.mpr hne
  simp only [BinaryHeap.replace_top, empty, hne', Bool.false_eq_true, if_false]
  exact downheap_spec cmp (o.set x) (by simpa [get_root] using hne)
    (hc.set_root cmp x) (by simpa using hs)

theorem Inv.replace_top {h : BinaryHeap α} (hi : Inv cmp h) (hne : h.data_ ≠ []) (x : α) :
    ∃ h', h.replace_top cmp x = some h' ∧ Inv cmp h' ∧ h'.data_.Perm (h.data_.set get_root x) :=
  replace_top_spec cmp (hi.ordered.off _) hi.cache hi.size_le hne x

/-- the last element in the root's place, and the last place dropped: the array without its
root -/
theorem perm_pop {d : List α} (hne : d ≠ []) :
    (d.set get_root (d.getLast hne)).dropLast.Perm d.tail := by
  obtain ⟨t, tl, rfl⟩ := List.exists_cons_of_ne_nil hne
  cases tl with
  | nil => simp [get_root]
  | cons a l =>
    have hsplit := List.dropLast_append_getLast (List.cons_ne_nil a l)
    simp only [get_root, List.set_cons_zero, List.getLast_cons (List.cons_ne_nil a l),
      List.dropLast_cons_cons, List.tail_cons]
    calc (a :: l).getLast _ :: (a :: l).dropLast
        _ |>.Perm ((a :: l).dropLast ++ [(a :: l).getLast _]) :=
          (List.perm_append_singleton _ _).symm
        _ = a :: l := hsplit

/-- `pop` needs the heap order off the root only: the root's element is dropped -/
theorem pop_spec {h : BinaryHeap α} (o : OrderedOff cmp h.data_ get_root)
    (hc : CacheOk cmp h.root_cmp_cache_ h.data_) (hs : h.data_.length ≤ kMaxSizet)
    (hne : h.data_ ≠ []) :
    ∃ h', h.pop cmp = some h' ∧ Inv cmp h' ∧ h'.data_.Perm h.data_.tail := by
  have hperm := perm_pop hne
  simp only [BinaryHeap.pop, List.getLast?_eq_some_getLast hne, empty]
  by_cases he : ((h.data_.set get_root (h.data_.getLast hne)).dropLast).isEmpty
  · -- one element: the heap is left empty
    simp only [he, Bool.not_true, Bool.false_eq_true, if_false, reset_root_cmp_cache]
    exact ⟨_, rfl, inv_of_nil cmp (List.isEmpty_iff.mp he), hperm⟩
  · simp only [he, Bool.not_false, if_true]
    obtain ⟨h', hd, hi', hp⟩ := downheap_spec cmp (h := { h with
        data_ := (h.data_.set get_root (h.data_.getLast hne)).dropLast })
      (o.set _).dropLast (by simpa using he) (hc.pop cmp _)
      (by simp only [List.length_dropLast, List.length_set]; omega)
    exact ⟨h', hd, hi', hp.trans hperm⟩

theorem Inv.pop {h : BinaryHeap α} (hi : Inv cmp h) (hne : h.data_ ≠ []) :
    ∃ h', h.pop cmp = some h' ∧ Inv cmp h' ∧ h'.data_.Perm h.data_.tail :=
  pop_spec cmp (hi.ordered.off _) hi.cache hi.size_le hne

/-- `top()` of a heap is above no element -/
theorem Inv.top_max {h : BinaryHeap α} (hi : Inv cmp h) {t : α} (ht : h.top = some t) :
    ∀ y ∈ h.data_, cmp t y = false := by
  obtain ⟨tl, hd⟩ : ∃ tl, h.data_ = t :: tl := List.head?_eq_some_iff.mp ht
  rw [hd]
  exact (hd ▸ hi.ordered).root_max_mem cmp

/-- a heap with elements is its top and the rest, and the top is above none of the rest -/
theorem Inv.split_top {h : BinaryHeap α} (hi : Inv cmp h) (hne : h.data_ ≠ []) :
    ∃ t tl, h.data_ = t :: tl ∧ ∀ y ∈ (tl : Multiset α), cmp t y = false := by
  obtain ⟨t, tl, hd⟩ := List.exists_cons_of_ne_nil hne
  have hmax := (hd ▸ hi.ordered).root_max_mem cmp
  exact ⟨t, tl, hd, fun y hy => hmax y (List.mem_cons_of_mem _ (Multiset.mem_coe.mp hy))⟩

/-- **One operation** keeps the invariant and does what the priority queue does -/
theorem Inv.apply {h : BinaryHeap α} (hi : Inv cmp h) {op : HeapOp α}
    (ha : op.Allowed h.data_.length) :
    ∃ h', op.apply cmp h = some h' ∧ Inv cmp h' ∧ h'.data_.length = op.size h.data_.length ∧
      PQStep cmp (h.data_ : Multiset α) op (h'.data_ : Multiset α) := by
  cases op with
  | push x =>
    obtain ⟨h', hp, hi', hperm⟩ := hi.push cmp ha x
    refine ⟨h', hp, hi', by simp [hperm.length_eq, HeapOp.size], ?_⟩
    rw [Multiset.coe_eq_coe.mpr (hperm.trans (List.perm_append_singleton x _)),
      ← Multiset.cons_coe]
    exact PQStep.push _ x
  | pop =>
    have hne : h.data_ ≠ [] := List.ne_nil_of_length_pos ha
    obtain ⟨h', hp, hi', hperm⟩ := hi.pop cmp hne
    obtain ⟨t, tl, hd, hmax⟩ := hi.split_top cmp hne
    refine ⟨h', hp, hi', by simp [hperm.length_eq, HeapOp.size], ?_⟩
    have hperm' : h'.data_.Perm tl := by simpa [hd] using hperm
    rw [Multiset.coe_eq_coe.mpr hperm', hd, ← Multiset.cons_coe]
    exact PQStep.pop t _ hmax
  | replace_top x =>
    have hne : h.data_ ≠ [] := List.ne_nil_of_length_pos ha
    obtain ⟨h', hp, hi', hperm⟩ := hi.replace_top cmp hne x
    obtain ⟨t, tl, hd, hmax⟩ := hi.split_top cmp hne
    refine ⟨h', hp, hi', by simp [hperm.length_eq, HeapOp.size], ?_⟩
    have hperm' : h'.data_.Perm (x :: tl) := by simpa [hd, get_root] using hperm
    rw [Multiset.coe_eq_coe.mpr hperm', hd, ← Multiset.cons_coe, ← Multiset.cons_coe]
    exact PQStep.replace_top t _ x hmax
  | clear =>
    exact ⟨h.clear, rfl, inv_of_nil cmp rfl, rfl, PQStep.clear _⟩

/-- **A run** of allowed operations keeps the invariant and is a run of the priority queue;
induction on the run, each operation by `Inv.apply` -/
theorem Inv.run {h : BinaryHeap α} (hi : Inv cmp h) {ops : List (HeapOp α)}
    (hf : HeapOp.Fits h.data_.length ops) :
    ∃ h', h.run cmp ops = some h' ∧ Inv cmp h' ∧
      PQRuns cmp (h.data_ : Multiset α) ops (h'.data_ : Multiset α) := by
  induction ops generalizing h with
  | nil => exact ⟨h, rfl, hi, PQRuns.nil _⟩
  | cons op ops ih =>
    obtain ⟨h₁, happ, hi₁, hlen, hstep⟩ := hi.apply cmp hf.1
    obtain ⟨h₂, hrun, hi₂, hruns⟩ := ih hi₁ (hlen ▸ hf.2)
    exact ⟨h₂, by simp [BinaryHeap.run, happ, hrun], hi₂, PQRuns.cons hstep hruns⟩

end Order


/-! ## The cache -/

/-- **The cache changes no decision**: with a sound cache, `downheap` from the root gives what it
gives with the cache reset, array and cache alike -/
theorem downheap_reset {h : BinaryHeap α} (hc : CacheOk cmp h.root_cmp_cache_ h.data_)
    (hs : h.data_.length ≤ kMaxSizet) :
    h.downheap cmp get_root = h.reset_root_cmp_cache.downheap cmp get_root := by
  unfold downheap reset_root_cmp_cache
  congr 1
  funext v
  rw [downheapLoop_cache cmp _ _ _ _ (fun _ => hc) (fun _ => cacheOk_kMaxSizet cmp hs)]

theorem Inv.replace_top_reset {h : BinaryHeap α} (hi : Inv cmp h) (x : α) :
    h.replace_top cmp x = h.reset_root_cmp_cache.replace_top cmp x := by
  unfold BinaryHeap.replace_top
  by_cases he : h.empty
  · simp [empty, reset_root_cmp_cache] at he ⊢
    simp [he]
  · have he' : h.reset_root_cmp_cache.empty = false := by simpa [empty, reset_root_cmp_cache] using he
    rw [if_neg he, if_neg (by simp [he'])]
    exact downheap_reset cmp (hi.cache.set_root cmp x) (by simpa using hi.size_le)

theorem Inv.pop_reset {h : BinaryHeap α} (hi : Inv cmp h) :
    h.pop cmp = h.reset_root_cmp_cache.pop cmp := by
  unfold BinaryHeap.pop
  simp only [reset_root_cmp_cache]
  split
  · rfl
  · rename_i back _
    simp only [empty]
    by_cases he : (h.data_.set get_root back).dropLast.isEmpty
    · simp [he]
    · simp only [he, Bool.not_false, if_true]
      exact downheap_reset cmp (h := ⟨_, h.root_cmp_cache_⟩) (hi.cache.pop cmp back)
        (by simp only [List.length_dropLast, List.length_set]; have := hi.size_le; omega)

/-! ## The priority queue -/

section Order

variable [IsStrictWeakOrder α (fun a b => cmp a b = true)]

/-- **BinaryHeap is a max-priority queue.**  For a strict weak order `cmp` and a run of `push`,
`pop`, `replace_top` and `clear` that keeps to the source's preconditions, the heap the run
reaches holds what a run of the priority queue holds, in heap order, with a sound cache and a
maximum on top; and from it `replace_top` and `pop` do with the cache what they do without. -/
theorem heap_priority_queue (ops : List (HeapOp α)) (hfit : HeapOp.Fits 0 ops) :
    ∃ h, (new : BinaryHeap α).run cmp ops = some h ∧
      PQRuns cmp 0 ops (h.data_ : Multiset α) ∧
      Ordered cmp h.data_ ∧ CacheOk cmp h.root_cmp_cache_ h.data_ ∧
      (∀ t, h.top = some t → ∀ y ∈ h.data_, cmp t y = false) ∧
      (∀ x, h.replace_top cmp x = h.reset_root_cmp_cache.replace_top cmp x) ∧
      h.pop cmp = h.reset_root_cmp_cache.pop cmp := by
  obtain ⟨h, hrun, hi, hruns⟩ := (inv_new cmp).run cmp hfit
  exact ⟨h, hrun, hruns, hi.ordered, hi.cache, fun _ ht => hi.top_max cmp ht,
    hi.replace_top_reset cmp, hi.pop_reset cmp⟩

end Order

/-- five pushes, a `pop` and a `replace_top` on numbers: the top is the largest element -/
theorem heap_priority_queue_top_is_max :
    let ops : List (HeapOp Nat) :=
      [.push 3, .push 1, .push 4, .push 1, .push 5, .pop, .replace_top 2]
    HeapOp.Fits 0 ops ∧ ∃ h, (new : BinaryHeap Nat).run (fun a b => decide (a < b)) ops = some h ∧
      ∀ t, h.top = some t → ∀ y ∈ h.data_, y ≤ t := by
  intro ops
  have hfit : HeapOp.Fits 0 ops := by
    simp [ops, HeapOp.Fits, HeapOp.Allowed, HeapOp.size, kMaxSizet]
  obtain ⟨h, hrun, -, -, -, htop, -, -⟩ :=
    heap_priority_queue (fun a b : Nat => decide (a < b)) ops hfit
  exact ⟨hfit, h, hrun, fun t ht y hy => by simpa using htop t ht y hy⟩

end BinaryHeap

end RocksDB
