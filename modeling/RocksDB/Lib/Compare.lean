import Mathlib

/-!
# Comparators pulled back along a map

A three-way comparator `cmp : β → β → Ordering` read through a map `f : α → β`:
`fun a b => cmp (f a) (f b)`.  It is oriented and transitive where `cmp` is, and lawful (equal
only on equal arguments) where `cmp` is and `f` is injective.  With core's instances for
`compareLex` and `TransCmp.opposite` these build the lexicographic orders on records.

Three facts about comparisons written out go with them: `Ordering.ite_eq_then` reads "`r` unless
it is `eq`" as `Ordering.then`, `Nat.ite_lt_lt_then` reads the chain of tests `b < a`, `a < b`
as `compare b a` followed by the rest, and `Nat.compare_mul_add` says that packing a pair `(a, b)`
with `b < m` as `a * m + b` keeps its lexicographic comparison.
-/

namespace Std

variable {α β : Type*} (cmp : β → β → Ordering) (f : α → β)

theorem TransCmp.comap [TransCmp cmp] : TransCmp fun a b => cmp (f a) (f b) where
  eq_swap := OrientedCmp.eq_swap
  isLE_trans hab hbc := TransCmp.isLE_trans hab hbc

theorem LawfulEqCmp.comap [LawfulEqCmp cmp] {f : α → β} (hf : Function.Injective f) :
    LawfulEqCmp fun a b => cmp (f a) (f b) where
  compare_self := ReflCmp.compare_self
  eq_of_compare h := hf (LawfulEqCmp.eq_of_compare h)

end Std

theorem Ordering.ite_eq_then (r o : Ordering) : (if r = .eq then o else r) = r.then o := by
  cases r <;> rfl

namespace Nat

theorem ite_lt_lt_then (a b : ℕ) (o : Ordering) :
    (if b < a then Ordering.lt else if a < b then .gt else o) = (compare b a).then o := by
  split_ifs with h1 h2
  · rw [Nat.compare_eq_lt.mpr h1]; rfl
  · rw [Nat.compare_eq_gt.mpr h2]; rfl
  · rw [Nat.compare_eq_eq.mpr (by omega)]; rfl

theorem compare_mul_add {a b c d m : ℕ} (hb : b < m) (hd : d < m) :
    compare (a * m + b) (c * m + d) = (compare a c).then (compare b d) := by
  rcases Nat.lt_trichotomy a c with h | rfl | h
  · -- the high parts decide: `a * m + b < (a + 1) * m ≤ c * m`
    have hle : (a + 1) * m ≤ c * m := Nat.mul_le_mul_right m h
    rw [Nat.compare_eq_lt.mpr h, Nat.compare_eq_lt.mpr (by rw [Nat.add_mul] at hle; omega)]
    rfl
  · rw [Nat.compare_eq_eq.mpr rfl, Ordering.eq_then]
    rcases Nat.lt_trichotomy b d with h | rfl | h
    · rw [Nat.compare_eq_lt.mpr h, Nat.compare_eq_lt.mpr (by omega)]
    · rw [Nat.compare_eq_eq.mpr rfl, Nat.compare_eq_eq.mpr rfl]
    · rw [Nat.compare_eq_gt.mpr h, Nat.compare_eq_gt.mpr (by omega)]
  · have hle : (c + 1) * m ≤ a * m := Nat.mul_le_mul_right m h
    rw [Nat.compare_eq_gt.mpr h, Nat.compare_eq_gt.mpr (by rw [Nat.add_mul] at hle; omega)]
    rfl

end Nat
