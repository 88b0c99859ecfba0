import Mathlib

/-!
# Ranges laid end to end

`consecutiveRanges ls n` is the list of ranges `[start, start + length)`, as pairs
`(start, length)`, of the lengths `ls` laid one after another from `n`:

* `isChain_consecutiveRanges`   each range starts where the one before it ends;
* `countP_consecutiveRanges`    over nonnegative lengths, every point of `[n, n + ls.sum)` lies in
                                exactly one range, and no other point lies in any.
-/

namespace List

variable {α : Type*}

/-- the ranges `(start, length)` of the lengths `ls` laid end to end from `n` -/
def consecutiveRanges [Add α] : List α → α → List (α × α)
  | [], _ => []
  | l :: ls, n => (n, l) :: consecutiveRanges ls (n + l)

section Add

variable [Add α]

@[simp] theorem consecutiveRanges_nil (n : α) : consecutiveRanges [] n = [] := rfl

@[simp] theorem consecutiveRanges_cons (l : α) (ls : List α) (n : α) :
    consecutiveRanges (l :: ls) n = (n, l) :: consecutiveRanges ls (n + l) := rfl

@[simp] theorem map_snd_consecutiveRanges (ls : List α) (n : α) :
    (consecutiveRanges ls n).map Prod.snd = ls := by
  induction ls generalizing n with
  | nil => rfl
  | cons l ls ih => simp [ih]

theorem isChain_consecutiveRanges (ls : List α) (n : α) :
    (consecutiveRanges ls n).IsChain fun r r' => r.1 + r.2 = r'.1 := by
  induction ls generalizing n with
  | nil => exact .nil
  | cons l ls ih =>
    cases ls with
    | nil => exact .singleton _
    | cons l' ls => exact isChain_cons_cons.mpr ⟨rfl, ih (n + l)⟩

end Add

section Ordered

variable [AddCommMonoid α] [LinearOrder α] [IsOrderedAddMonoid α]

/-- over nonnegative lengths exactly one range holds each point of `[n, n + ls.sum)`, and none
holds any other point -/
theorem countP_consecutiveRanges (ls : List α) (hls : ∀ l ∈ ls, 0 ≤ l) (n m : α) :
    (consecutiveRanges ls n).countP (fun r => decide (r.1 ≤ m ∧ m < r.1 + r.2)) =
      if n ≤ m ∧ m < n + ls.sum then 1 else 0 := by
  induction ls generalizing n with
  | nil => simp
  | cons l ls ih =>
    have hl : 0 ≤ l := hls l mem_cons_self
    have hrest_nonneg : ∀ x ∈ ls, 0 ≤ x := fun x hx => hls x (mem_cons_of_mem l hx)
    have hs : 0 ≤ ls.sum := sum_nonneg hrest_nonneg
    rw [consecutiveRanges_cons, countP_cons, ih hrest_nonneg (n + l), sum_cons, ← add_assoc]
    simp only [decide_eq_true_eq]
    -- the point lies in the first range, in one of the others, or in none
    by_cases hfirst : n ≤ m ∧ m < n + l
    · have hrest : ¬ (n + l ≤ m ∧ m < n + l + ls.sum) := fun h => absurd hfirst.2 (not_lt.mpr h.1)
      have hall : n ≤ m ∧ m < n + l + ls.sum :=
        ⟨hfirst.1, lt_of_lt_of_le hfirst.2 (le_add_of_nonneg_right hs)⟩
      rw [if_neg hrest, if_pos hfirst, if_pos hall, zero_add]
    · by_cases hrest : n + l ≤ m ∧ m < n + l + ls.sum
      · have hall : n ≤ m ∧ m < n + l + ls.sum :=
          ⟨le_trans (le_add_of_nonneg_right hl) hrest.1, hrest.2⟩
        rw [if_pos hrest, if_neg hfirst, if_pos hall]
      · have hall : ¬ (n ≤ m ∧ m < n + l + ls.sum) := by
          rintro ⟨h1, h2⟩
          by_cases h : m < n + l
          · exact hfirst ⟨h1, h⟩
          · exact hrest ⟨not_lt.mp h, h2⟩
        rw [if_neg hrest, if_neg hfirst, if_neg hall]

end Ordered

end List
