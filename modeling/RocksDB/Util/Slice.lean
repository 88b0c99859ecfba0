import Mathlib

/-!
# include/rocksdb/slice.h, util/comparator.cc: the order of byte strings

* `memcmp a b n`        the sign of the first of the `n` leading bytes in which `a` and `b` differ,
                        the bytes compared as `unsigned char`;
* `Slice.compare`       `memcmp` over the shorter length, then the shorter slice first;
* `BytewiseComparator`  `Compare` is `Slice::compare`, `Equal` is `==`.

A comparison result `int r` is an `Ordering`: `.lt` for `r < 0`, `.eq` for `r == 0`, `.gt` for
`r > 0`.  `Slice.compare_eq_lt` and `Slice.compare_eq_eq` read `Slice.compare` as the
lexicographic order on the byte values, so that the order facts come from Mathlib's order on
`List ℕ`; `Slice.compare_eq_compare` reads it as core's lexicographic `compare` on byte lists,
whose comparator laws (`Std.TransCmp`, `Std.LawfulEqCmp`) `BytewiseComparator.Compare` then has.
-/

namespace RocksDB

/-- `memcmp(a, b, n)` -/
def memcmp : List UInt8 → List UInt8 → Nat → Ordering
  | a :: as, b :: bs, n + 1 => if a < b then .lt else if b < a then .gt else memcmp as bs n
  | _, _, _ => .eq

/-- `Slice::compare` -/
def Slice.compare (a b : List UInt8) : Ordering :=
  let min_len := if a.length < b.length then a.length else b.length
  let r := memcmp a b min_len
  if r = .eq then
    if a.length < b.length then .lt else if a.length > b.length then .gt else .eq
  else r

/-- `BytewiseComparatorImpl::Compare` -/
def BytewiseComparator.Compare (a b : List UInt8) : Ordering := Slice.compare a b

/-- `BytewiseComparatorImpl::Equal` -/
def BytewiseComparator.Equal (a b : List UInt8) : Bool := a == b

namespace Slice

theorem compare_nil_cons (b : UInt8) (bs : List UInt8) : Slice.compare [] (b :: bs) = .lt := by
  simp [Slice.compare, memcmp]

theorem compare_cons_nil (a : UInt8) (as : List UInt8) : Slice.compare (a :: as) [] = .gt := by
  simp [Slice.compare, memcmp]

theorem eq_of_not_lt_of_not_lt {a b : UInt8} (hab : ¬a < b) (hba : ¬b < a) : a = b :=
  UInt8.toNat_inj.mp (by simp only [UInt8.lt_iff_toNat_lt] at hab hba; omega)

/-- the first bytes decide, else the rest: the recursion `memcmp` and the length test make -/
theorem compare_cons_cons (a b : UInt8) (as bs : List UInt8) :
    Slice.compare (a :: as) (b :: bs) =
      if a < b then .lt else if b < a then .gt else Slice.compare as bs := by
  by_cases hab : a < b
  · by_cases hl : as.length < bs.length <;> simp [Slice.compare, memcmp, hab, hl]
  · by_cases hba : b < a
    · by_cases hl : as.length < bs.length <;> simp [Slice.compare, memcmp, hab, hba, hl]
    · obtain rfl := eq_of_not_lt_of_not_lt hab hba
      by_cases hl : as.length < bs.length <;> simp [Slice.compare, memcmp, hl]

/-- `Slice::compare` answers "less" exactly where the byte values are lexicographically
smaller -/
theorem compare_eq_lt (a b : List UInt8) :
    Slice.compare a b = .lt ↔ a.map UInt8.toNat < b.map UInt8.toNat := by
  induction a generalizing b with
  | nil =>
    cases b with
    | nil => simp [Slice.compare, memcmp]
    | cons b bs => simp [compare_nil_cons, List.nil_lt_cons]
  | cons a as ih =>
    cases b with
    | nil => simp [compare_cons_nil]
    | cons b bs =>
      rw [compare_cons_cons, List.map_cons, List.map_cons, List.cons_lt_cons_iff, ← ih bs]
      by_cases hab : a < b
      · simp [hab, UInt8.lt_iff_toNat_lt.mp hab]
      · by_cases hba : b < a
        · have h1 : ¬a.toNat < b.toNat := fun h => hab (UInt8.lt_iff_toNat_lt.mpr h)
          have h2 : a.toNat ≠ b.toNat := fun h => by
            rw [UInt8.lt_iff_toNat_lt, h] at hba; exact lt_irrefl _ hba
          simp [hab, hba, h1, h2]
        · obtain rfl := eq_of_not_lt_of_not_lt hab hba
          simp

/-- `Slice::compare` answers "equal" exactly on equal slices -/
theorem compare_eq_eq (a b : List UInt8) : Slice.compare a b = .eq ↔ a = b := by
  induction a generalizing b with
  | nil =>
    cases b with
    | nil => simp [Slice.compare, memcmp]
    | cons b bs => simp [compare_nil_cons]
  | cons a as ih =>
    cases b with
    | nil => simp [compare_cons_nil]
    | cons b bs =>
      rw [compare_cons_cons, List.cons.injEq, ← ih bs]
      by_cases hab : a < b
      · have hne : a ≠ b := fun h => by subst h; exact UInt8.lt_irrefl a hab
        simp [hab, hne]
      · by_cases hba : b < a
        · have hne : a ≠ b := fun h => by subst h; exact UInt8.lt_irrefl a hba
          simp [hab, hba, hne]
        · obtain rfl := eq_of_not_lt_of_not_lt hab hba
          simp

/-- `Slice::compare` is the lexicographic comparison of the bytes -/
theorem compare_eq_compare (a b : List UInt8) : Slice.compare a b = Ord.compare a b := by
  induction a generalizing b with
  | nil => cases b <;> simp [Slice.compare, memcmp]
  | cons a as ih =>
    cases b with
    | nil => simp [compare_cons_nil]
    | cons b bs =>
      rw [compare_cons_cons, List.compare_cons_cons, ih bs]
      by_cases hab : a < b
      · simp [hab, Std.compare_eq_lt.mpr hab]
      · by_cases hba : b < a
        · simp [hab, hba, Std.compare_eq_gt.mpr hba]
        · obtain rfl := eq_of_not_lt_of_not_lt hab hba
          simp [hab]

end Slice

theorem BytewiseComparator.Compare_eq :
    BytewiseComparator.Compare = (Ord.compare : List UInt8 → List UInt8 → Ordering) := by
  funext a b
  exact Slice.compare_eq_compare a b

instance : Std.TransCmp BytewiseComparator.Compare :=
  BytewiseComparator.Compare_eq ▸ inferInstance

instance : Std.LawfulEqCmp BytewiseComparator.Compare :=
  BytewiseComparator.Compare_eq ▸ inferInstance

end RocksDB
