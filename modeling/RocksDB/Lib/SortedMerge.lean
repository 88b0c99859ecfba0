import Mathlib

/-!
# Sorting and merging by a comparator

What a container kept sorted by `std::sort` and `std::upper_bound` relies on, over any type:

* `upperBoundLoop`, `upperBound`   `std::upper_bound` as the library writes it: halve `count`,
                                   and step past the middle element when `comp(value, middle)`
                                   fails;
* `SortOrder lt id`                a `Bool` comparator that is a strict weak order, and total on
                                   elements of different ids: a comparator that breaks its ties
                                   on a unique id;
* `mergeByUpperBound`              the loop that walks a sorted list with an iterator and puts
                                   each element of a second sorted list after the elements
                                   `upper_bound` passes over.

On a range where `comp value` holds from some point on, the binary search ends at that point
(`upperBound_eq_findIdx`).  Under a `SortOrder`, insertion sort sorts strictly where the ids
differ (`pairwise_insertionSort_lt`), and a sorted list merged with a sorted list is a sorted permutation of
the two (`mergeByUpperBound_perm`, `pairwise_mergeByUpperBound`).
-/

namespace SortedMerge

variable {α ι : Type*}

/-! ## The binary search -/

section UpperBound

variable (comp : α → α → Bool) (value : α) (l : List α)

/-- the loop of `std::upper_bound(first, first + count, value, comp)`, its positions as offsets
into `l`; each pass shrinks `count`, so `count` passes are fuel enough -/
def upperBoundLoop : Nat → Nat → Nat → Nat
  | 0, first, _ => first
  | fuel + 1, first, count =>
    if count = 0 then first
    else
      let step := count / 2
      if !comp value (l.getD (first + step) value) then
        upperBoundLoop fuel (first + step + 1) (count - (step + 1))
      else upperBoundLoop fuel first step

/-- `std::upper_bound(l.begin(), l.end(), value, comp)` -/
def upperBound : Nat := upperBoundLoop comp value l l.length 0 l.length

variable {comp value l}

/-- at `count = 0` the loop's invariant pins `first` to the first place where `comp value` holds -/
theorem eq_findIdx_of_split (first : Nat) (hle : first ≤ l.length)
    (hlo : ∀ i (h : i < l.length), i < first → comp value l[i] = false)
    (hhi : ∀ i (h : i < l.length), first ≤ i → comp value l[i] = true) :
    first = l.findIdx (comp value) := by
  rcases Nat.lt_or_eq_of_le hle with hin | heq
  · exact ((List.findIdx_eq hin).mpr
      ⟨hhi first hin le_rfl, fun j hj => hlo j (Nat.lt_trans hj hin) hj⟩).symm
  · -- past the end: `comp value` fails everywhere
    have hall : l.findIdx (comp value) = l.length := List.findIdx_eq_length.mpr fun x hx => by
      obtain ⟨i, hi, rfl⟩ := List.getElem_of_mem hx
      exact hlo i hi (by omega)
    omega

/-- the loop keeps `comp value` failing below `first` and holding from `first + count` on; when
`count` reaches zero, `first` is the first place where it holds -/
theorem upperBoundLoop_eq_findIdx
    (hpart : l.Pairwise fun a b => comp value a = true → comp value b = true)
    (fuel first count : Nat) (hfuel : count ≤ fuel) (hle : first + count ≤ l.length)
    (hlo : ∀ i (h : i < l.length), i < first → comp value l[i] = false)
    (hhi : ∀ i (h : i < l.length), first + count ≤ i → comp value l[i] = true) :
    upperBoundLoop comp value l fuel first count = l.findIdx (comp value) := by
  induction fuel generalizing first count with
  | zero =>
    obtain rfl : count = 0 := by omega
    exact eq_findIdx_of_split first hle hlo hhi
  | succ fuel ih =>
    rw [upperBoundLoop]
    by_cases h0 : count = 0
    · rw [if_pos h0]
      subst h0
      exact eq_findIdx_of_split first hle hlo hhi
    rw [if_neg h0]
    have hmid : first + count / 2 < l.length := by omega
    dsimp only
    rw [List.getD_eq_getElem _ _ hmid]
    cases hc : comp value l[first + count / 2]
    · -- `comp value` fails at the middle, so at every place up to it
      simp only [Bool.not_false, ↓reduceIte]
      refine ih (first + count / 2 + 1) (count - (count / 2 + 1)) (by omega) (by omega)
        (fun i hi hlt => ?_) (fun i hi hge => hhi i hi (by omega))
      by_cases hif : i < first
      · exact hlo i hi hif
      · rcases Nat.lt_or_eq_of_le (show i ≤ first + count / 2 by omega) with hlt' | heq
        · cases hci : comp value l[i]
          · rfl
          · exact absurd (List.pairwise_iff_getElem.mp hpart i _ hi hmid hlt' hci) (by simp [hc])
        · simp only [heq, hc]
    · -- `comp value` holds at the middle, so at every place from it on
      simp only [Bool.not_true, Bool.false_eq_true, ↓reduceIte]
      refine ih first (count / 2) (by omega) (by omega) hlo (fun i hi hge => ?_)
      rcases Nat.lt_or_eq_of_le hge with hlt' | heq
      · exact List.pairwise_iff_getElem.mp hpart _ i hmid hi hlt' hc
      · simp only [← heq, hc]

/-- on a range where `comp value` holds from some point on, `upper_bound` ends at that point -/
theorem upperBound_eq_findIdx
    (hpart : l.Pairwise fun a b => comp value a = true → comp value b = true) :
    upperBound comp value l = l.findIdx (comp value) :=
  upperBoundLoop_eq_findIdx hpart l.length 0 l.length le_rfl (by omega)
    (fun i _ h => absurd h (Nat.not_lt_zero i)) fun i h hi => absurd h (by omega)

end UpperBound

/-! ## The two sides of the first place a predicate holds -/

section Split

variable {p : α → Bool} {l : List α} {x : α}

theorem eq_false_of_mem_take_findIdx (hx : x ∈ l.take (l.findIdx p)) : p x = false := by
  obtain ⟨i, hi, rfl⟩ := List.getElem_of_mem hx
  rw [List.getElem_take]
  exact List.not_of_lt_findIdx (by simpa using hi)

theorem eq_true_of_mem_drop_findIdx (hpart : l.Pairwise fun a b => p a = true → p b = true)
    (hx : x ∈ l.drop (l.findIdx p)) : p x = true := by
  obtain ⟨i, hi, rfl⟩ := List.getElem_of_mem hx
  rw [List.getElem_drop]
  have hk : l.findIdx p < l.length := by rw [List.length_drop] at hi; omega
  have hfirst : p l[l.findIdx p] = true := List.findIdx_getElem (w := hk)
  rcases Nat.eq_zero_or_pos i with rfl | hpos
  · simpa using hfirst
  · exact List.pairwise_iff_getElem.mp hpart _ _ hk _ (by omega) hfirst

end Split

/-! ## Comparators with a tie break on an id -/

/-- `lt` is a strict weak order, and total on elements whose ids differ -/
structure SortOrder (lt : α → α → Bool) (id : α → ι) : Prop where
  irrefl : ∀ a, lt a a = false
  trans : ∀ a b c, lt a b = true → lt b c = true → lt a c = true
  connex : ∀ a b c, lt a c = true → lt a b = true ∨ lt b c = true
  total : ∀ a b, id a ≠ id b → lt a b = true ∨ lt b a = true

namespace SortOrder

variable {lt : α → α → Bool} {id : α → ι}

/-- the `<` of a three-way comparator whose `.eq` means the same id -/
theorem of_transCmp {cmp : α → α → Ordering} [Std.TransCmp cmp]
    (hid : ∀ a b, cmp a b = .eq → id a = id b) : SortOrder (fun a b => cmp a b == .lt) id where
  irrefl a := by
    have h : cmp a a = (cmp a a).swap := Std.OrientedCmp.eq_swap
    cases hc : cmp a a <;> simp_all
  trans a b c hab hbc := by
    simp only [beq_iff_eq] at hab hbc ⊢
    exact Std.TransCmp.lt_trans hab hbc
  connex a b c hac := by
    simp only [beq_iff_eq] at hac ⊢
    by_cases hab : cmp a b = .lt
    · exact .inl hab
    · -- `b` is at most `a`, which is below `c`
      have hba : (cmp b a).isLE = true := by
        rw [@Std.OrientedCmp.eq_swap _ cmp _ b a]
        cases hc : cmp a b <;> simp_all
      exact .inr (Std.TransCmp.lt_of_isLE_of_lt hba hac)
  total a b hne := by
    simp only [beq_iff_eq]
    have h : cmp a b = (cmp b a).swap := Std.OrientedCmp.eq_swap
    cases hc : cmp a b
    · exact .inl rfl
    · exact absurd (hid a b hc) hne
    · right
      rw [hc] at h
      cases hc' : cmp b a <;> simp_all

/-- the `<` of a key in a linear order that tells the ids apart -/
theorem of_key {β : Type*} [LinearOrder β] (k : α → β) (hk : ∀ a b, k a = k b → id a = id b) :
    SortOrder (fun a b => decide (k a < k b)) id where
  irrefl a := by simp
  trans a b c hab hbc := by
    simp only [decide_eq_true_eq] at hab hbc ⊢
    exact lt_trans hab hbc
  connex a b c hac := by
    simp only [decide_eq_true_eq] at hac ⊢
    rcases lt_or_ge (k a) (k b) with h | h
    · exact .inl h
    · exact .inr (lt_of_le_of_lt h hac)
  total a b hne := by
    simp only [decide_eq_true_eq]
    exact lt_or_gt_of_ne fun h => hne (hk a b h)

variable (o : SortOrder lt id)
include o

theorem asymm {a b : α} (hab : lt a b = true) : lt b a = false := by
  cases hba : lt b a
  · rfl
  · simpa [o.irrefl] using o.trans _ _ _ hab hba

theorem lt_of_not_lt {a b : α} (hne : id a ≠ id b) (hba : lt b a = false) : lt a b = true :=
  (o.total a b hne).resolve_right (by simp [hba])

/-- `std::sort` by `lt`, as insertion sort by "not after": strictly sorted where the ids
differ -/
theorem pairwise_insertionSort_lt (l : List α) (hid : (l.map id).Nodup) :
    (l.insertionSort fun a b => lt b a = false).Pairwise fun a b => lt a b = true := by
  have htotal : Std.Total fun a b : α => lt b a = false := ⟨fun a b => by
    by_cases hab : lt a b = true
    · exact .inl (o.asymm hab)
    · exact .inr (by simpa using hab)⟩
  have htrans : IsTrans α fun a b => lt b a = false := ⟨fun a b c hab hbc => by
    cases hca : lt c a
    · rfl
    · rcases o.connex c b a hca with h | h <;> simp_all⟩
  have hle := List.pairwise_insertionSort (fun a b : α => lt b a = false) l
  have hne : (l.insertionSort fun a b => lt b a = false).Pairwise fun a b => id a ≠ id b :=
    List.pairwise_map.mp ((List.perm_insertionSort _ l).map id |>.nodup_iff.mpr hid)
  exact (hle.and hne).imp fun ⟨hab, hne⟩ => o.lt_of_not_lt hne hab

end SortOrder

/-! ## The merge -/

/-- the loop that walks `base` with an iterator and, for each element of `added` in turn, passes
the elements of `base` that `upper_bound` puts before it, then the element itself; the rest of
`base` last -/
def mergeByUpperBound (lt : α → α → Bool) : List α → List α → List α
  | base, [] => base
  | base, a :: added =>
    base.take (upperBound lt a base) ++ a :: mergeByUpperBound lt (base.drop (upperBound lt a base)) added

section Merge

variable {lt : α → α → Bool}

theorem mergeByUpperBound_perm (base added : List α) :
    (mergeByUpperBound lt base added).Perm (base ++ added) := by
  induction added generalizing base with
  | nil => simp [mergeByUpperBound]
  | cons a added ih =>
    rw [mergeByUpperBound]
    set k := upperBound lt a base
    calc (base.take k ++ a :: mergeByUpperBound lt (base.drop k) added).Perm
          (a :: (base.take k ++ mergeByUpperBound lt (base.drop k) added)) := List.perm_middle
      List.Perm _ (a :: (base.take k ++ (base.drop k ++ added))) := ((ih _).append_left _).cons a
      _ = a :: (base ++ added) := by rw [← List.append_assoc, List.take_append_drop]
      List.Perm _ (base ++ a :: added) := List.perm_middle.symm

variable {id : α → ι} (o : SortOrder lt id)
include o

/-- a sorted list merged with a sorted list, no id twice among them, is sorted -/
theorem pairwise_mergeByUpperBound (base added : List α)
    (hb : base.Pairwise fun a b => lt a b = true) (ha : added.Pairwise fun a b => lt a b = true)
    (hid : ((base ++ added).map id).Nodup) :
    (mergeByUpperBound lt base added).Pairwise fun a b => lt a b = true := by
  induction added generalizing base with
  | nil => simpa [mergeByUpperBound] using hb
  | cons a added ih =>
    rw [mergeByUpperBound]
    obtain ⟨haa, has⟩ := List.pairwise_cons.mp ha
    -- `upper_bound` splits `base` where `lt a` starts to hold
    have hpart : base.Pairwise fun x y => lt a x = true → lt a y = true :=
      hb.imp fun hxy hax => o.trans _ _ _ hax hxy
    rw [upperBound_eq_findIdx hpart]
    set k := base.findIdx (lt a)
    have hsplit := hb
    rw [← List.take_append_drop k base, List.pairwise_append] at hsplit
    obtain ⟨htake, hdrop, hcross⟩ := hsplit
    have hid' : ((base.drop k ++ added).map id).Nodup := by
      refine List.Nodup.sublist ?_ hid
      exact List.Sublist.map _ (((List.drop_sublist k base).append (List.sublist_cons_self a added)))
    have hrest := ih (base.drop k) hdrop has hid'
    have hperm := @mergeByUpperBound_perm _ lt (base.drop k) added
    -- the elements `upper_bound` passes are below `a`
    have hbelow : ∀ x ∈ base.take k, lt x a = true := fun x hx =>
      o.lt_of_not_lt (fun he => by
          have := (List.nodup_append.mp (by simpa using hid)).2.2 (id x)
            (List.mem_map_of_mem ((List.take_sublist k base).subset hx)) (id a)
            (List.mem_map_of_mem List.mem_cons_self)
          exact this he)
        (eq_false_of_mem_take_findIdx hx)
    -- and `a` is below everything after it
    have habove : ∀ y ∈ mergeByUpperBound lt (base.drop k) added, lt a y = true := fun y hy => by
      rcases List.mem_append.mp (hperm.subset hy) with hy | hy
      · exact eq_true_of_mem_drop_findIdx hpart hy
      · exact haa y hy
    refine List.pairwise_append.mpr ⟨htake, List.pairwise_cons.mpr ⟨habove, hrest⟩, ?_⟩
    intro x hx y hy
    rcases List.mem_cons.mp hy with rfl | hy
    · exact hbelow x hx
    · rcases List.mem_append.mp (hperm.subset hy) with hy | hy
      · exact hcross x hx y hy
      · exact o.trans _ _ _ (hbelow x hx) (haa y hy)

end Merge

end SortedMerge
