import Mathlib

/-!
# Iterators over a sequence of keyed entries

`SeqIter κ β` is an iterator in the manner of LevelDB's `Iterator` over a fixed sequence of
entries `(key, value)`: it stands on one entry, or on none (it is not valid).  Its moves are
the ones the interface promises for a sequence sorted by key:

* `SeekToFirst`, `SeekToLast`   the first and the last entry;
* `Next`, `Prev`                one entry on or back, falling off either end;
* `Seek t`                      the first entry whose key is not below `t`;
* `SeekForPrev t`               the last entry whose key is not above `t`.

The position carries its bound (`pos_lt`), so an iterator can only stand on an entry it has.
`List.findLastIdx?` is the mirror image of `List.findIdx?` that `SeekForPrev` needs; its
lemmas are the ones of `findIdx?` that the iterator proofs use.
-/

namespace List

variable {α : Type*} (p : α → Bool)

/-- the index of the last entry of a list that satisfies `p` -/
def findLastIdx? : List α → Option Nat
  | [] => none
  | a :: l => ((findLastIdx? l).map (· + 1)).or (if p a then some 0 else none)

variable {p}

@[simp] theorem findLastIdx?_nil : findLastIdx? p ([] : List α) = none := rfl

theorem findLastIdx?_cons (a : α) (l : List α) :
    findLastIdx? p (a :: l) = ((findLastIdx? p l).map (· + 1)).or (if p a then some 0 else none) :=
  rfl

theorem findLastIdx?_append (xs ys : List α) :
    findLastIdx? p (xs ++ ys) = ((findLastIdx? p ys).map (· + xs.length)).or (findLastIdx? p xs) := by
  induction xs with
  | nil => simp
  | cons a xs ih =>
    rw [List.cons_append, findLastIdx?_cons, ih, Option.map_or, Option.map_map, findLastIdx?_cons,
      Option.or_assoc, List.length_cons]
    congr 2

theorem findLastIdx?_lt {l : List α} {i : Nat} (h : findLastIdx? p l = some i) : i < l.length := by
  induction l generalizing i with
  | nil => cases h
  | cons a l ih =>
    rw [findLastIdx?_cons] at h
    cases hl : findLastIdx? p l with
    | none =>
      rw [hl] at h
      by_cases ha : p a <;> simp_all
      omega
    | some j =>
      rw [hl] at h
      cases h
      simp [ih hl]

/-- the entry `findLastIdx?` finds satisfies `p` -/
theorem findLastIdx?_getElem {l : List α} {i : Nat} (h : findLastIdx? p l = some i) :
    ∃ hi : i < l.length, p l[i] = true := by
  induction l generalizing i with
  | nil => cases h
  | cons a l ih =>
    rw [findLastIdx?_cons] at h
    cases hl : findLastIdx? p l with
    | none =>
      rw [hl] at h
      by_cases ha : p a
      · simp only [ha, if_true, Option.map_none, Option.none_or, Option.some.injEq] at h
        subst h
        exact ⟨by simp, by simpa using ha⟩
      · simp [ha] at h
    | some j =>
      rw [hl] at h
      cases h
      obtain ⟨hj, hp⟩ := ih hl
      exact ⟨by simp; omega, by simpa using hp⟩

theorem findLastIdx?_eq_none (h : ∀ x ∈ l, p x = false) : findLastIdx? p l = none := by
  induction l with
  | nil => rfl
  | cons a l ih =>
    rw [findLastIdx?_cons, ih fun x hx => h x (List.mem_cons_of_mem a hx), h a List.mem_cons_self]
    rfl

/-- when every entry satisfies `p`, the last one is the last entry -/
theorem findLastIdx?_of_forall (h : ∀ x ∈ l, p x = true) :
    findLastIdx? p l = if 0 < l.length then some (l.length - 1) else none := by
  induction l with
  | nil => rfl
  | cons a l ih =>
    rw [findLastIdx?_cons, ih fun x hx => h x (List.mem_cons_of_mem a hx), h a List.mem_cons_self]
    cases l <;> simp

/-- when every entry satisfies `p`, the first one is the first entry -/
theorem findIdx?_of_forall (h : ∀ x ∈ l, p x = true) :
    findIdx? p l = if 0 < l.length then some 0 else none := by
  cases l with
  | nil => rfl
  | cons a l => simp [List.findIdx?_cons, h a List.mem_cons_self]

/-- no entry before the first one satisfying `p` satisfies it -/
theorem of_mem_take_findIdx {l : List α} {x : α} (hx : x ∈ l.take (l.findIdx p)) : p x = false := by
  obtain ⟨j, hj, rfl⟩ := List.mem_take_iff_getElem.mp hx
  exact List.not_of_lt_findIdx (by omega)

section Sorted

variable {κ : Type*} [Preorder κ] {key : α → κ} {l : List α} {x y : α}

/-- in a list sorted by `key`, no entry is below the first -/
theorem Pairwise.head_le (h : l.Pairwise fun a b => key a ≤ key b) (hy : y ∈ l.head?)
    (hx : x ∈ l) : key y ≤ key x := by
  cases l with
  | nil => cases hy
  | cons a l =>
    obtain rfl : a = y := Option.some.inj hy
    rcases List.mem_cons.mp hx with rfl | hx
    · exact le_rfl
    · exact List.rel_of_pairwise_cons h hx

/-- in a list sorted by `key`, no entry is above the last -/
theorem Pairwise.le_getLast (h : l.Pairwise fun a b => key a ≤ key b) (hy : y ∈ l.getLast?)
    (hx : x ∈ l) : key x ≤ key y := by
  obtain ⟨l', rfl⟩ := List.getLast?_eq_some_iff.mp hy
  rcases List.mem_append.mp hx with hx | hx
  · exact (List.pairwise_append.mp h).2.2 x hx y (List.mem_singleton_self y)
  · rw [List.mem_singleton.mp hx]

end Sorted

end List

namespace SeqIter

/-- `g` when it is a position of a sequence of `n` entries, else none -/
def below (g n : Nat) : Option Nat := if g < n then some g else none

/-- the position before `g`, none before the first -/
def before (g : Nat) : Option Nat := if g = 0 then none else some (g - 1)

theorem below_eq_some {g n k : Nat} (h : below g n = some k) : g = k ∧ k < n := by
  unfold below at h
  split at h
  · cases h
    exact ⟨rfl, by assumption⟩
  · cases h

theorem before_eq_some {g k : Nat} (h : before g = some k) : g = k + 1 := by
  unfold before at h
  split at h
  · cases h
  · cases h
    omega

end SeqIter

open SeqIter in
/-- the first entry of `A ++ B ++ C` satisfying `p`, where no entry of `A` does and every entry
of `C` does: in `B`, or the first of `C` -/
theorem List.findIdx?_around {α : Type*} {p : α → Bool} {A B C : List α}
    (hA : ∀ x ∈ A, p x = false) (hC : ∀ x ∈ C, p x = true) :
    (A ++ B ++ C).findIdx? p = below (A.length + (B.findIdx? p).getD B.length) (A ++ B ++ C).length := by
  rw [List.findIdx?_append, List.findIdx?_append, List.findIdx?_eq_none_iff.mpr hA,
    List.findIdx?_of_forall hC]
  simp only [Option.none_or, List.length_append, below]
  cases hB : B.findIdx? p with
  | some j =>
    have hj := (List.findIdx?_eq_some_iff_findIdx_eq.mp hB).1
    simp only [Option.map_some, Option.some_or, Option.getD_some]
    rw [if_pos (by omega)]
    congr 1
    omega
  | none =>
    simp only [Option.map_none, Option.none_or, Option.getD_none]
    split <;> split <;> simp_all

open SeqIter in
/-- the last entry of `A ++ B ++ C` satisfying `p`, where every entry of `A` does and no entry
of `C` does: in `B`, or the last of `A` -/
theorem List.findLastIdx?_around {α : Type*} {p : α → Bool} {A B C : List α}
    (hA : ∀ x ∈ A, p x = true) (hC : ∀ x ∈ C, p x = false) :
    (A ++ B ++ C).findLastIdx? p =
      (B.findLastIdx? p).elim (before A.length) fun j => some (A.length + j) := by
  rw [List.findLastIdx?_append, List.findLastIdx?_append, List.findLastIdx?_eq_none hC,
    List.findLastIdx?_of_forall hA]
  simp only [Option.map_none, Option.none_or, before]
  cases hB : B.findLastIdx? p with
  | some j => simp [Nat.add_comm]
  | none =>
    simp only [Option.map_none, Option.none_or, Option.elim_none]
    by_cases h0 : A.length = 0
    · simp [h0]
    · rw [if_pos (Nat.pos_of_ne_zero h0), if_neg h0]

/-- an iterator over `items`, standing on the entry at `pos`, or on none when `pos` is `none` -/
structure SeqIter (κ β : Type*) where
  items : List (κ × β)
  pos : Option Nat
  pos_lt : ∀ i ∈ pos, i < items.length

namespace SeqIter

variable {κ β : Type*} (it : SeqIter κ β)

/-- an iterator over `items` that stands on no entry yet -/
def new (items : List (κ × β)) : SeqIter κ β := ⟨items, none, by simp⟩

def Valid : Bool := it.pos.isSome

/-- the entry the iterator stands on: its `key()` and `value()` -/
def current : Option (κ × β) := it.pos.bind (it.items[·]?)

def SeekToFirst : SeqIter κ β where
  items := it.items
  pos := if 0 < it.items.length then some 0 else none
  pos_lt := by split <;> simp_all

def SeekToLast : SeqIter κ β where
  items := it.items
  pos := if 0 < it.items.length then some (it.items.length - 1) else none
  pos_lt := by
    split
    · simp only [Option.mem_def, Option.some.injEq, forall_eq']
      omega
    · simp

def Next : SeqIter κ β where
  items := it.items
  pos := it.pos.bind fun i => if i + 1 < it.items.length then some (i + 1) else none
  pos_lt := by
    intro j hj
    simp only [Option.mem_def, Option.bind_eq_some_iff] at hj
    obtain ⟨i, -, hi⟩ := hj
    split at hi <;> simp_all

def Prev : SeqIter κ β where
  items := it.items
  pos := it.pos.bind fun i => if i = 0 then none else some (i - 1)
  pos_lt := by
    intro j hj
    simp only [Option.mem_def, Option.bind_eq_some_iff] at hj
    obtain ⟨i, hi, hj⟩ := hj
    have := it.pos_lt i hi
    split at hj <;> simp_all
    omega

@[simp] theorem items_SeekToFirst : it.SeekToFirst.items = it.items := rfl

@[simp] theorem items_SeekToLast : it.SeekToLast.items = it.items := rfl

@[simp] theorem items_Next : it.Next.items = it.items := rfl

@[simp] theorem items_Prev : it.Prev.items = it.items := rfl

theorem valid_iff : it.Valid = true ↔ ∃ i, it.pos = some i := Option.isSome_iff_exists

/-- a valid iterator stands on an entry -/
theorem isSome_current : it.current.isSome = it.Valid := by
  unfold current Valid
  cases hp : it.pos with
  | none => rfl
  | some i => simp [List.getElem?_eq_getElem (it.pos_lt i hp)]

theorem current_eq_some {e : κ × β} (h : it.current = some e) :
    ∃ i, it.pos = some i ∧ it.items[i]? = some e :=
  Option.bind_eq_some_iff.mp h

/-! Where a move leaves the iterator, read as a position: `none` going forward stands for the end
of the entries, and going backward for the position before the first. -/

theorem before_eq (n : Nat) : before n = if 0 < n then some (n - 1) else none := by
  unfold before
  split <;> split <;> first | rfl | omega

theorem getD_SeekToFirst : it.SeekToFirst.pos.getD it.items.length = 0 := by
  simp only [SeekToFirst]
  split <;> simp_all

theorem getD_Next {j : Nat} (h : it.pos = some j) : it.Next.pos.getD it.items.length = j + 1 := by
  have := it.pos_lt j h
  simp only [Next, h, Option.bind_some]
  split <;> simp_all
  omega

theorem pos_Next_of {j : Nat} (h : it.pos = some j) :
    it.Next.pos = below (j + 1) it.items.length := by
  simp only [Next, h, Option.bind_some, below]

theorem pos_Prev_of {j : Nat} (h : it.pos = some j) : it.Prev.pos = before j := by
  simp only [Prev, h, Option.bind_some, before]

theorem pos_SeekToLast : it.SeekToLast.pos = before it.items.length := by
  rw [before_eq]
  rfl

theorem elim_SeekToLast (n : Nat) :
    it.SeekToLast.pos.elim (before n) (fun j => some (n + j)) = before (n + it.items.length) := by
  simp only [SeekToLast, before]
  split
  · simp only [Option.elim_some]
    rw [if_neg (by omega)]
    congr 1
    omega
  · simp_all

theorem elim_Prev {j : Nat} (h : it.pos = some j) (n : Nat) :
    it.Prev.pos.elim (before n) (fun j => some (n + j)) = before (n + j) := by
  simp only [Prev, h, Option.bind_some, before]
  split
  · simp_all
  · simp only [Option.elim_some]
    rw [if_neg (by omega)]
    congr 1
    omega

variable [LinearOrder κ]

def Seek (target : κ) : SeqIter κ β where
  items := it.items
  pos := it.items.findIdx? fun e => target ≤ e.1
  pos_lt := fun _ h => (List.findIdx?_eq_some_iff_findIdx_eq.mp h).1

def SeekForPrev (target : κ) : SeqIter κ β where
  items := it.items
  pos := it.items.findLastIdx? fun e => e.1 ≤ target
  pos_lt := fun _ h => List.findLastIdx?_lt h

@[simp] theorem items_Seek (target : κ) : (it.Seek target).items = it.items := rfl

@[simp] theorem items_SeekForPrev (target : κ) : (it.SeekForPrev target).items = it.items := rfl

/-- over entries none of which is above the target, `SeekForPrev` lands on the last entry -/
theorem pos_SeekForPrev_of_forall {target : κ} (h : ∀ x ∈ it.items, x.1 ≤ target) :
    (it.SeekForPrev target).pos = it.SeekToLast.pos :=
  List.findLastIdx?_of_forall fun x hx => decide_eq_true (h x hx)

end SeqIter

/-! ## Runs of moves

`Move.pos l m p` is where the move `m` leaves an iterator over the entries `l` that stands at
`p`: the meaning of the interface, stated on positions.  `SeqIter` moves that way
(`SeqIter.pos_move`), and another iterator that lands where `Move.pos` says after every move
yields what a `SeqIter` over `l` yields. -/

namespace SeqIter

/-- the moves of the iterator interface -/
inductive Move (κ : Type*) where
  | SeekToFirst
  | SeekToLast
  | Seek (target : κ)
  | SeekForPrev (target : κ)
  | Next
  | Prev
deriving DecidableEq, Repr

namespace Move

variable {κ β : Type*}

/-- `m` may be made on an iterator at `p`: the interface asks for a valid iterator before `Next`
and `Prev` -/
def Allowed : Move κ → Option Nat → Prop
  | Next, p => p.isSome
  | Prev, p => p.isSome
  | _, _ => True

variable [LinearOrder κ] (l : List (κ × β))

/-- where `m` leaves an iterator over the entries `l` that stands at `p` -/
def pos : Move κ → Option Nat → Option Nat
  | SeekToFirst, _ => below 0 l.length
  | SeekToLast, _ => before l.length
  | Seek target, _ => l.findIdx? fun e => target ≤ e.1
  | SeekForPrev target, _ => l.findLastIdx? fun e => e.1 ≤ target
  | Next, p => p.bind fun g => below (g + 1) l.length
  | Prev, p => p.bind before

/-- where a run of moves leaves it -/
def runPos (p : Option Nat) (ms : List (Move κ)) : Option Nat := ms.foldl (fun p m => m.pos l p) p

/-- every `Next` and `Prev` of the run is made on a valid iterator -/
def Allows : Option Nat → List (Move κ) → Prop
  | _, [] => True
  | p, m :: ms => m.Allowed p ∧ Allows (m.pos l p) ms

variable {l}

/-- a forward scan: `k` moves `Next` from the `j`-th entry reach the `j + k`-th, or the end -/
theorem runPos_Next {j k : Nat} (h : j + k ≤ l.length) :
    runPos l (below j l.length) (List.replicate k Next) = below (j + k) l.length ∧
      Allows l (below j l.length) (List.replicate k Next) := by
  induction k generalizing j with
  | zero => exact ⟨rfl, trivial⟩
  | succ k ih =>
    -- the `j`-th entry is there, and `Next` moves to the `j + 1`-th
    have hj : below j l.length = some j := if_pos (by omega)
    have key := ih (j := j + 1) (by omega)
    rw [Nat.add_right_comm] at key
    refine ⟨?_, ?_, ?_⟩
    · rw [List.replicate_succ, runPos, List.foldl_cons, ← runPos, hj]
      exact key.1
    · simp [Allowed, hj]
    · rw [hj]
      exact key.2

/-- a backward scan: `k` moves `Prev` from before the `n`-th entry reach before the `n - k`-th -/
theorem runPos_Prev {n k : Nat} (h : k ≤ n) :
    runPos l (before n) (List.replicate k Prev) = before (n - k) ∧
      Allows l (before n) (List.replicate k Prev) := by
  induction k generalizing n with
  | zero => exact ⟨rfl, trivial⟩
  | succ k ih =>
    -- the `n - 1`-th entry is there, and `Prev` moves before it
    have hn : before n = some (n - 1) := if_neg (by omega)
    have key := ih (n := n - 1) (by omega)
    rw [Nat.sub_sub, Nat.add_comm 1 k] at key
    refine ⟨?_, ?_, ?_⟩
    · rw [List.replicate_succ, runPos, List.foldl_cons, ← runPos, hn]
      exact key.1
    · simp [Allowed, hn]
    · rw [hn]
      exact key.2

/-- `SeekToFirst` and then `k` moves `Next`: the `k`-th entry -/
theorem runPos_SeekToFirst_Next {k : Nat} (h : k ≤ l.length) (p : Option Nat) :
    runPos l p (SeekToFirst :: List.replicate k Next) = below k l.length ∧
      Allows l p (SeekToFirst :: List.replicate k Next) := by
  have key := runPos_Next (l := l) (j := 0) (k := k) (by omega)
  rw [Nat.zero_add] at key
  exact ⟨key.1, trivial, key.2⟩

/-- `SeekToLast` and then `k` moves `Prev`: the `k`-th entry from the end -/
theorem runPos_SeekToLast_Prev {k : Nat} (h : k ≤ l.length) (p : Option Nat) :
    runPos l p (SeekToLast :: List.replicate k Prev) = before (l.length - k) ∧
      Allows l p (SeekToLast :: List.replicate k Prev) :=
  have key := runPos_Prev (l := l) (n := l.length) h
  ⟨key.1, trivial, key.2⟩

end Move

/-- the entry at `below k n` of a list of `n` entries is its `k`-th -/
theorem bind_below {α : Type*} (l : List α) (k : Nat) :
    (below k l.length).bind (l[·]?) = l[k]? := by
  unfold below
  split
  · rfl
  · rename_i h
    rw [Option.bind_none, List.getElem?_eq_none (by omega)]

/-- the entry before the `n - k`-th of a list of `n` entries is its `k`-th from the end -/
theorem bind_before_sub {α : Type*} (l : List α) (k : Nat) :
    (before (l.length - k)).bind (l[·]?) = l.reverse[k]? := by
  unfold before
  split
  · rename_i h
    rw [Option.bind_none, List.getElem?_eq_none (by simp; omega)]
  · rename_i h
    rw [Option.bind_some, List.getElem?_reverse (i := k) (by omega)]
    congr 1
    omega

variable {κ β : Type*} [LinearOrder κ] (it : SeqIter κ β)

def move : Move κ → SeqIter κ β
  | .SeekToFirst => it.SeekToFirst
  | .SeekToLast => it.SeekToLast
  | .Seek target => it.Seek target
  | .SeekForPrev target => it.SeekForPrev target
  | .Next => it.Next
  | .Prev => it.Prev

def run (ms : List (Move κ)) : SeqIter κ β := ms.foldl move it

@[simp] theorem items_move (m : Move κ) : (it.move m).items = it.items := by
  cases m <;> rfl

/-- a `SeqIter` moves where `Move.pos` says -/
theorem pos_move (m : Move κ) : (it.move m).pos = m.pos it.items it.pos := by
  cases m with
  | SeekToLast => exact (before_eq _).symm
  | _ => rfl

/-- and so runs where `Move.runPos` says -/
theorem pos_run (ms : List (Move κ)) : (it.run ms).pos = Move.runPos it.items it.pos ms := by
  induction ms generalizing it with
  | nil => rfl
  | cons m ms ih =>
    have key := ih (it.move m)
    rw [items_move, pos_move] at key
    exact key

@[simp] theorem items_run (ms : List (Move κ)) : (it.run ms).items = it.items := by
  induction ms generalizing it with
  | nil => rfl
  | cons m ms ih => exact (ih (it.move m)).trans (items_move it m)

end SeqIter
