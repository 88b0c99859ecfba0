import Mathlib

/-!
# Heap order on an array laid out as a binary tree

An array `d` is a binary tree: node `i` has the children `2 i + 1` and `2 i + 2`, and the parent
`(i - 1) / 2`.  For a comparison `lt : α → α → Bool` read as "less than", `Ordered lt d` says
that no child is above its parent.

* `Ordered.root_max`   over a strict weak order the root is above no element: a max-heap's top
                       is a maximum;
* `not_lt_trans`       "not below" is transitive over a strict weak order, which is what lets
                       a sift step compare an element with one child only;
* `perm_set_swap`      two places of an array exchanged: the move every sift step makes;
* `SiftUp`, `SiftDown` what a sift with a hole at `i` and a value `v` waiting for a place keeps:
                       the edges off the hole ordered (`OrderedOff`), the hole's parent not below
                       the hole's children, and `v` on the side the direction of the sift needs.
                       `move` is one step of the hole, `fill` the exit.
-/

namespace HeapOrder

variable {α : Type*}

section Swap

/-- a value written over a place is that value and the array without the place -/
theorem perm_set {l : List α} {i : Nat} (hi : i < l.length) (x : α) :
    (l.set i x).Perm (x :: l.eraseIdx i) := by
  rw [List.set_eq_take_append_cons_drop, if_pos hi, List.eraseIdx_eq_take_drop_succ]
  exact List.perm_middle

/-- the value at `j` moved to the front, the front value written at `j` -/
theorem perm_cons_set {l : List α} {j : Nat} (hj : j < l.length) (a : α) :
    (l[j] :: l.set j a).Perm (a :: l) := by
  have h1 := perm_set hj a
  have h2 := perm_set hj l[j]
  rw [List.set_getElem_self] at h2
  calc l[j] :: l.set j a
      _ |>.Perm (l[j] :: a :: l.eraseIdx j) := h1.cons _
      _ |>.Perm (a :: l[j] :: l.eraseIdx j) := List.Perm.swap _ _ _
      _ |>.Perm (a :: l) := (h2.symm).cons _

/-- **Two places exchanged**: a permutation of the array -/
theorem perm_set_swap (l : List α) {i j : Nat} (hi : i < l.length) (hj : j < l.length) :
    ((l.set i l[j]).set j l[i]).Perm l := by
  induction l generalizing i j with
  | nil => simp at hi
  | cons a l ih =>
    cases i with
    | zero =>
      cases j with
      | zero => simp
      | succ j =>
        simp only [List.set_cons_zero, List.getElem_cons_succ, List.set_cons_succ,
          List.getElem_cons_zero]
        exact perm_cons_set (by simpa using hj) a
    | succ i =>
      cases j with
      | zero =>
        simp only [List.set_cons_succ, List.getElem_cons_zero, List.set_cons_zero,
          List.getElem_cons_succ]
        exact perm_cons_set (by simpa using hi) a
      | succ j =>
        simp only [List.set_cons_succ, List.getElem_cons_succ]
        exact (ih (by simpa using hi) (by simpa using hj)).cons a

/-- the hole at `i` takes the value at `p`, and `v` goes to `p`: the array with `v` at `i`,
permuted -/
theorem perm_set_move {d : List α} {i p : Nat} (hi : i < d.length) (hp : p < d.length)
    (hne : i ≠ p) (v : α) : ((d.set i d[p]).set p v).Perm (d.set i v) := by
  have h := perm_set_swap (d.set i v) (i := i) (j := p) (by simpa using hi) (by simpa using hp)
  rwa [List.getElem_set_ne hne, List.getElem_set_self, List.set_set] at h

end Swap

variable (lt : α → α → Bool)

/-- no element of the array is above its parent -/
def Ordered (d : List α) : Prop :=
  ∀ i (hi : i < d.length), 0 < i → lt d[(i - 1) / 2] d[i] = false

theorem ordered_nil : Ordered lt ([] : List α) := fun _ hi => absurd hi (Nat.not_lt_zero _)

section StrictWeak

variable [IsStrictWeakOrder α (fun a b => lt a b = true)] {a b c : α}

theorem irrefl (a : α) : lt a a = false := by
  have := Std.Irrefl.irrefl (r := fun a b => lt a b = true) a
  simpa using this

theorem asymm (h : lt a b = true) : lt b a = false := by
  cases hba : lt b a with
  | false => rfl
  | true =>
    have := IsTrans.trans (r := fun a b => lt a b = true) _ _ _ h hba
    rw [irrefl lt a] at this
    cases this

/-- **"Not below" is transitive** over a strict weak order -/
theorem not_lt_trans (hab : lt a b = false) (hbc : lt b c = false) : lt a c = false := by
  cases hac : lt a c with
  | false => rfl
  | true =>
    cases hba : lt b a with
    | true =>
      -- `b < a < c`
      have := IsTrans.trans (r := fun a b => lt a b = true) _ _ _ hba hac
      rw [hbc] at this
      cases this
    | false =>
      cases hcb : lt c b with
      | true =>
        -- `a < c < b`
        have := IsTrans.trans (r := fun a b => lt a b = true) _ _ _ hac hcb
        rw [hab] at this
        cases this
      | false =>
        -- `a`, `b` and `b`, `c` incomparable, so `a`, `c` too
        have := (@IsStrictWeakOrder.incomp_trans α (fun a b => lt a b = true) _ a b c
          ⟨by simp [hab], by simp [hba]⟩ ⟨by simp [hbc], by simp [hcb]⟩).1
        simp [hac] at this

/-- the `<` of a linear order, as a `Bool` comparison, is a strict weak order -/
instance decideLt.isStrictWeakOrder {β : Type*} [LinearOrder β] :
    IsStrictWeakOrder β (fun a b => decide (a < b) = true) := by
  simp only [decide_eq_true_eq]
  exact isStrictWeakOrder_of_isOrderConnected

/-- comparing by a key in a linear order, less first: a strict weak order -/
theorem isStrictWeakOrder_keyLt {ι β : Type*} [LinearOrder β] (f : ι → β) :
    IsStrictWeakOrder ι (fun a b => decide (f a < f b) = true) := by
  simp only [decide_eq_true_eq]
  refine { irrefl := fun a => lt_irrefl (f a), trans := fun _ _ _ hab hbc => lt_trans hab hbc,
           incomp_trans := fun _ _ _ hab hbc => ?_ }
  simp only [not_lt] at *
  exact ⟨le_trans hbc.1 hab.1, le_trans hab.2 hbc.2⟩

/-- comparing by a key in a linear order, greater first: a strict weak order -/
theorem isStrictWeakOrder_keyGt {ι β : Type*} [LinearOrder β] (f : ι → β) :
    IsStrictWeakOrder ι (fun a b => decide (f b < f a) = true) := by
  simp only [decide_eq_true_eq]
  refine { irrefl := fun a => lt_irrefl (f a), trans := fun _ _ _ hab hbc => lt_trans hbc hab,
           incomp_trans := fun _ _ _ hab hbc => ?_ }
  simp only [not_lt] at *
  exact ⟨le_trans hab.1 hbc.1, le_trans hbc.2 hab.2⟩

/-- **The root is a maximum** of a heap-ordered array: by strong induction along the path from
each place up to the root -/
theorem Ordered.root_max {d : List α} (h : Ordered lt d) (h0 : 0 < d.length) :
    ∀ j (hj : j < d.length), lt d[0] d[j] = false := by
  intro j
  induction j using Nat.strongRecOn with
  | _ j ih =>
    intro hj
    rcases Nat.eq_zero_or_pos j with rfl | hpos
    · exact irrefl lt _
    · exact not_lt_trans lt (ih ((j - 1) / 2) (by omega) (by omega)) (h j hj hpos)

/-- the root is above no member of a heap-ordered array -/
theorem Ordered.root_max_mem {t : α} {l : List α} (h : Ordered lt (t :: l)) :
    ∀ y ∈ t :: l, lt t y = false := by
  intro y hy
  obtain ⟨j, hj, rfl⟩ := List.mem_iff_getElem.mp hy
  exact Ordered.root_max lt h (by simp) j hj

end StrictWeak

section Hole

/-- ordered on every edge that does not touch place `i`, the hole of a sift -/
def OrderedOff (d : List α) (i : Nat) : Prop :=
  ∀ c (hc : c < d.length), 0 < c → c ≠ i → (c - 1) / 2 ≠ i → lt d[(c - 1) / 2] d[c] = false

/-- what a sift-up keeps: the edges off the hole are ordered, and neither the hole's parent nor
the value `v` waiting for a place is below a child of the hole -/
structure SiftUp (d : List α) (i : Nat) (v : α) : Prop where
  lt_len : i < d.length
  off : OrderedOff lt d i
  grand : ∀ c (hc : c < d.length), 0 < i → 0 < c → (c - 1) / 2 = i →
    lt d[(i - 1) / 2] d[c] = false
  below : ∀ c (hc : c < d.length), 0 < c → (c - 1) / 2 = i → lt v d[c] = false

/-- what a sift-down keeps: the edges off the hole are ordered, and the hole's parent is below
neither a child of the hole nor the value `v` waiting for a place -/
structure SiftDown (d : List α) (i : Nat) (v : α) : Prop where
  lt_len : i < d.length
  off : OrderedOff lt d i
  grand : ∀ c (hc : c < d.length), 0 < i → 0 < c → (c - 1) / 2 = i →
    lt d[(i - 1) / 2] d[c] = false
  above : ∀ (_ : i < d.length), 0 < i → lt d[(i - 1) / 2] v = false

variable {lt}

theorem Ordered.off {d : List α} (h : Ordered lt d) (i : Nat) : OrderedOff lt d i :=
  fun c hc hc0 _ _ => h c hc hc0

/-! A comparison that reads state outside the array (the keys the merging iterator's children
stand on) changes between operations.  Heap order under one comparison is heap order under
another that agrees with it on the array's elements; where they agree off the root only, the
edges off the root stay ordered. -/

theorem Ordered.congr {lt' : α → α → Bool} {d : List α} (h : Ordered lt d)
    (hc : ∀ i j (hi : i < d.length) (hj : j < d.length), lt d[i] d[j] = lt' d[i] d[j]) :
    Ordered lt' d :=
  fun c hc' hc0 => (hc _ _ (by omega) hc').symm.trans (h c hc' hc0)

theorem Ordered.off_root {lt' : α → α → Bool} {d : List α} (h : Ordered lt d)
    (hc : ∀ i j (hi : i < d.length) (hj : j < d.length), 0 < i → 0 < j →
      lt d[i] d[j] = lt' d[i] d[j]) :
    OrderedOff lt' d 0 :=
  fun c hc' hc0 _ hp0 => (hc _ _ (by omega) hc' (Nat.pos_of_ne_zero hp0) hc0).symm.trans (h c hc' hc0)

/-- writing into the hole keeps the edges off it -/
theorem OrderedOff.set {d : List α} {i : Nat} (h : OrderedOff lt d i) (x : α) :
    OrderedOff lt (d.set i x) i := by
  intro c hc hc0 hci hpi
  simp only [List.length_set] at hc
  rw [List.getElem_set_ne (Ne.symm hci), List.getElem_set_ne (Ne.symm hpi)]
  exact h c hc hc0 hci hpi

/-- the last place dropped: its edge goes with it -/
theorem OrderedOff.dropLast {d : List α} {i : Nat} (h : OrderedOff lt d i) :
    OrderedOff lt d.dropLast i := by
  intro c hc hc0 hci hpi
  simp only [List.length_dropLast] at hc
  rw [List.getElem_dropLast, List.getElem_dropLast]
  exact h c (by omega) hc0 hci hpi

/-- **The hole filled**: `v` not below the parent of the hole and not above its children -/
theorem OrderedOff.fill {d : List α} {i : Nat} {v : α} (h : OrderedOff lt d i)
    (hi : i < d.length) (hup : 0 < i → lt d[(i - 1) / 2] v = false)
    (hdown : ∀ c (hc : c < d.length), 0 < c → (c - 1) / 2 = i → lt v d[c] = false) :
    Ordered lt (d.set i v) := by
  intro c hc hc0
  simp only [List.length_set] at hc
  -- an edge into the hole, out of it, or off it
  by_cases hci : c = i
  · subst hci
    rw [List.getElem_set_self, List.getElem_set_ne (by omega)]
    exact hup hc0
  · rw [List.getElem_set_ne (Ne.symm hci)]
    by_cases hpi : (c - 1) / 2 = i
    · simp only [List.getElem_set, hpi, if_true]
      exact hdown c hc hc0 hpi
    · rw [List.getElem_set_ne (Ne.symm hpi)]
      exact h c hc hc0 hci hpi

/-- a sift-up begins with the new value in a new last place -/
theorem Ordered.siftUp {d : List α} (h : Ordered lt d) (x : α) :
    SiftUp lt (d ++ [x]) d.length x where
  lt_len := by simp
  off := by
    intro c hc hc0 hci _
    simp only [List.length_append, List.length_singleton] at hc
    rw [List.getElem_append_left (by omega), List.getElem_append_left (by omega)]
    exact h c (by omega) hc0
  grand := by
    intro c hc _ _ hpc
    simp only [List.length_append, List.length_singleton] at hc
    omega
  below := by
    intro c hc _ hpc
    simp only [List.length_append, List.length_singleton] at hc
    omega

/-- a sift-down begins at the root -/
theorem OrderedOff.siftDown {d : List α} (h : OrderedOff lt d 0) (h0 : 0 < d.length) (v : α) :
    SiftDown lt d 0 v where
  lt_len := h0
  off := h
  grand := by intros; omega
  above := by intros; omega

/-- the fill at the end of a sift-up -/
theorem SiftUp.fill {d : List α} {i : Nat} {v : α} (o : SiftUp lt d i v)
    (hstop : ∀ (hi : i < d.length), 0 < i → lt d[(i - 1) / 2] v = false) :
    Ordered lt (d.set i v) :=
  o.off.fill o.lt_len (hstop o.lt_len) o.below

/-- the fill at the end of a sift-down -/
theorem SiftDown.fill {d : List α} {i : Nat} {v : α} (o : SiftDown lt d i v)
    (hstop : ∀ c (hc : c < d.length), 0 < c → (c - 1) / 2 = i → lt v d[c] = false) :
    Ordered lt (d.set i v) :=
  o.off.fill o.lt_len (o.above o.lt_len) hstop

end Hole

section Move

variable {lt} [IsStrictWeakOrder α (fun a b => lt a b = true)]

/-- **One step up**: the parent of the hole is below `v`, so it moves down into the hole -/
theorem SiftUp.move {d : List α} {i : Nat} {v : α} (o : SiftUp lt d i v) (hi : i < d.length)
    (hi0 : 0 < i) (hb : lt d[(i - 1) / 2] v = true) :
    SiftUp lt (d.set i d[(i - 1) / 2]) ((i - 1) / 2) v := by
  -- the edge from the hole's parent up to its own parent is off the hole
  have hq_up : ∀ (hq0 : 0 < (i - 1) / 2), lt d[((i - 1) / 2 - 1) / 2] d[(i - 1) / 2] = false :=
    fun hq0 => o.off _ (by omega) hq0 (by omega) (by omega)
  -- the parent's other children are not above it
  have hq_c : ∀ c (hc : c < d.length), 0 < c → (c - 1) / 2 = (i - 1) / 2 → c ≠ i →
      lt d[(i - 1) / 2] d[c] = false := by
    intro c hc hc0 hpc hci
    have h := o.off c hc hc0 hci (by omega)
    simpa only [hpc] using h
  refine ⟨by simp only [List.length_set]; omega, ?_, ?_, ?_⟩
  · intro c hc hc0 _ hpq
    simp only [List.length_set] at hc
    have hci : c ≠ i := by rintro rfl; exact hpq rfl
    rw [List.getElem_set_ne (Ne.symm hci)]
    by_cases hpi : (c - 1) / 2 = i
    · simp only [List.getElem_set, hpi, if_true]
      exact o.grand c hc hi0 hc0 hpi
    · rw [List.getElem_set_ne (Ne.symm hpi)]
      exact o.off c hc hc0 hci hpi
  · intro c hc hq0 hc0 hpc
    simp only [List.length_set] at hc
    rw [List.getElem_set_ne (by omega : i ≠ ((i - 1) / 2 - 1) / 2)]
    by_cases hci : c = i
    · subst hci
      rw [List.getElem_set_self]
      exact hq_up hq0
    · rw [List.getElem_set_ne (Ne.symm hci)]
      exact not_lt_trans lt (hq_up hq0) (hq_c c hc hc0 hpc hci)
  · intro c hc hc0 hpc
    simp only [List.length_set] at hc
    by_cases hci : c = i
    · subst hci
      rw [List.getElem_set_self]
      exact asymm lt hb
    · rw [List.getElem_set_ne (Ne.symm hci)]
      exact not_lt_trans lt (asymm lt hb) (hq_c c hc hc0 hpc hci)

/-- **One step down**: `v` is below the greatest child `p` of the hole, which moves up into it -/
theorem SiftDown.move {d : List α} {i p : Nat} {v : α} (o : SiftDown lt d i v)
    (hp : p < d.length) (hp0 : 0 < p) (hpi : (p - 1) / 2 = i)
    (hgreat : ∀ c (hc : c < d.length), 0 < c → (c - 1) / 2 = i → lt d[p] d[c] = false)
    (hvp : lt v d[p] = true) : SiftDown lt (d.set i d[p]) p v := by
  -- `d'[(p - 1) / 2]` is the hole, which now holds `d[p]`
  have hnew : ∀ (h : (p - 1) / 2 < (d.set i d[p]).length), (d.set i d[p])[(p - 1) / 2] = d[p] := by
    intro h
    simp only [List.getElem_set, hpi, if_true]
  refine ⟨by simpa using hp, ?_, ?_, ?_⟩
  · intro c hc hc0 _ hpp
    simp only [List.length_set] at hc
    by_cases hci : c = i
    · -- the edge into the hole now ends at `d[p]`
      subst hci
      rw [List.getElem_set_self, List.getElem_set_ne (by omega)]
      exact o.grand p hp hc0 hp0 hpi
    · rw [List.getElem_set_ne (Ne.symm hci)]
      by_cases hpc : (c - 1) / 2 = i
      · simp only [List.getElem_set, hpc, if_true]
        exact hgreat c hc hc0 hpc
      · rw [List.getElem_set_ne (Ne.symm hpc)]
        exact o.off c hc hc0 hci hpc
  · intro c hc _ hc0 hpc
    simp only [List.length_set] at hc
    rw [hnew, List.getElem_set_ne (by omega : i ≠ c)]
    have h := o.off c hc hc0 (by omega) (by omega)
    simpa only [hpc] using h
  · intro _ _
    rw [hnew]
    exact asymm lt hvp

end Move

end HeapOrder
