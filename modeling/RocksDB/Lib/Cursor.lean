import Mathlib

/-!
# A position in a list

A doubly linked list with a pointer into it is a list read in two parts around a position `n`:
`l.take n`, the entries up to the pointer, and `l.drop n`, those after it.  What the list
operations do to the two parts:

* `take_erase_of_mem_take`, `drop_erase_of_mem_take`          erasing an entry before the
                                                               position moves the position back;
* `take_erase_of_not_mem_take`, `drop_erase_of_not_mem_take`  erasing one after it keeps it;
* `insertIdx_eq_take_append_drop`, `take_insertIdx_succ`,
  `drop_insertIdx_succ`                                        inserting at the position and
                                                               moving past the new entry.

Where an entry lies is read off its index by `List.mem_take_iff_idxOf_lt`.
-/

namespace List

variable {α : Type*} {l : List α} {a : α} {n : Nat}

section Erase

variable [DecidableEq α]

variable (hn : n ≤ l.length)
include hn

theorem take_erase_of_mem_take (h : a ∈ l.take n) :
    (l.erase a).take (n - 1) = (l.take n).erase a := by
  conv_lhs => rw [← take_append_drop n l]
  rw [erase_append_left _ h, take_left' (by rw [length_erase_of_mem h, length_take_of_le hn])]

theorem drop_erase_of_mem_take (h : a ∈ l.take n) : (l.erase a).drop (n - 1) = l.drop n := by
  conv_lhs => rw [← take_append_drop n l]
  rw [erase_append_left _ h, drop_left' (by rw [length_erase_of_mem h, length_take_of_le hn])]

theorem take_erase_of_not_mem_take (h : a ∉ l.take n) : (l.erase a).take n = l.take n := by
  conv_lhs => rw [← take_append_drop n l]
  rw [erase_append_right _ h, take_left' (length_take_of_le hn)]

theorem drop_erase_of_not_mem_take (h : a ∉ l.take n) :
    (l.erase a).drop n = (l.drop n).erase a := by
  conv_lhs => rw [← take_append_drop n l]
  rw [erase_append_right _ h, drop_left' (length_take_of_le hn)]

end Erase

theorem insertIdx_eq_take_append_drop (l : List α) (a : α) {n : Nat} (hn : n ≤ l.length) :
    l.insertIdx n a = l.take n ++ a :: l.drop n := by
  induction l generalizing n with
  | nil =>
    rw [Nat.le_zero.mp hn]
    rfl
  | cons b l ih =>
    cases n with
    | zero => rfl
    | succ n =>
      rw [insertIdx_succ_cons, ih (by simpa using hn)]
      rfl

theorem take_insertIdx_succ (hn : n ≤ l.length) :
    (l.insertIdx n a).take (n + 1) = l.take n ++ [a] := by
  rw [insertIdx_eq_take_append_drop l a hn, ← singleton_append, ← append_assoc,
    take_left' (by rw [length_append, length_take_of_le hn, length_singleton])]

theorem drop_insertIdx_succ (hn : n ≤ l.length) : (l.insertIdx n a).drop (n + 1) = l.drop n := by
  rw [insertIdx_eq_take_append_drop l a hn, ← singleton_append, ← append_assoc,
    drop_left' (by rw [length_append, length_take_of_le hn, length_singleton])]

end List
