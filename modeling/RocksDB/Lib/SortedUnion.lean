import RocksDB.Lib.SeqIter

/-!
# Places in a sorted union

Sequences sorted by key, no key in two of them, and `M` their union in key order.  A merge of the
sequences that stands on the `n`-th entry of `M` has, going forward, each sequence on the first
of its entries at or after that one, and going backward each on the last of its entries before
the `n + 1`-th.  `rank M e`, the place of the key of `e` among the entries of `M`, turns both into
thresholds: forward from `n`, a sequence stands on its first entry of rank `n` or more, and
backward to `n` on its last entry of rank below `n`.

Ranks strictly increase along each sequence (`SortedUnion.rank_increasing`), so where a move of
one sequence leaves it is a lemma on `findIdx?` and `findLastIdx?` of a threshold along a strictly
increasing function (the `Threshold` section), and a seek of a sequence is a threshold on ranks
(`decide_le_key`, `decide_key_le`).
-/

namespace List

variable {α : Type*} {p q : α → Bool} {l : List α}

theorem findIdx?_congr_mem (h : ∀ x ∈ l, p x = q x) : l.findIdx? p = l.findIdx? q := by
  induction l with
  | nil => rfl
  | cons a l ih =>
    rw [findIdx?_cons, findIdx?_cons, h a mem_cons_self,
      ih fun x hx => h x (mem_cons_of_mem a hx)]

theorem findLastIdx?_congr_mem (h : ∀ x ∈ l, p x = q x) :
    l.findLastIdx? p = l.findLastIdx? q := by
  induction l with
  | nil => rfl
  | cons a l ih =>
    rw [findLastIdx?_cons, findLastIdx?_cons, h a mem_cons_self,
      ih fun x hx => h x (mem_cons_of_mem a hx)]

theorem findIdx?_eq_below (l : List α) :
    l.findIdx? p = SeqIter.below (l.findIdx p) l.length := by
  unfold SeqIter.below
  split
  · rename_i h
    exact findIdx?_eq_some_iff_findIdx_eq.mpr ⟨h, rfl⟩
  · rename_i h
    have : l.findIdx p ≤ l.length := findIdx_le_length
    exact findIdx?_eq_none_iff_findIdx_eq.mpr (by omega)

/-- along a list where `p`, once it holds, keeps holding, the last entry where `p` fails is the
one before the first where it holds -/
theorem findLastIdx?_not (h : l.Pairwise fun a b => p a = true → p b = true) :
    l.findLastIdx? (fun x => !p x) = SeqIter.before (l.findIdx p) := by
  induction l with
  | nil => rfl
  | cons a l ih =>
    rw [findLastIdx?_cons, ih h.of_cons, findIdx_cons]
    cases ha : p a with
    | true =>
      -- every later entry holds `p` too, so none fails it
      have hl : l.findIdx p = 0 := by
        cases l with
        | nil => rfl
        | cons b l =>
          have hb : p b = true := rel_of_pairwise_cons h mem_cons_self ha
          simp [findIdx_cons, hb]
      simp [hl, SeqIter.before]
    | false =>
      simp only [Bool.not_false, if_true, cond_false, SeqIter.before, Nat.add_one_ne_zero,
        if_false, Nat.add_sub_cancel]
      split
      · rename_i h0
        simp [h0]
      · simp only [Option.map_some, Option.some_or]
        congr 1
        omega

section Threshold

/-! ## Thresholds along a strictly increasing function -/

variable {f : α → Nat}

/-- the first entry at or above the value at the `i`-th is the `i`-th -/
theorem findIdx_le_apply (hl : l.Pairwise fun a b => f a < f b) {i : Nat} (hi : i < l.length) :
    l.findIdx (fun x => decide (f l[i] ≤ f x)) = i := by
  rw [findIdx_eq hi]
  refine ⟨by simp, fun j hj => ?_⟩
  have hji : f l[j] < f l[i] := pairwise_iff_getElem.mp hl j i (by omega) hi hj
  simpa using hji

/-- the first entry above the value at the `i`-th is the next one -/
theorem findIdx_succ_le_apply (hl : l.Pairwise fun a b => f a < f b) {i : Nat}
    (hi : i < l.length) : l.findIdx (fun x => decide (f l[i] + 1 ≤ f x)) = i + 1 := by
  -- no entry up to the `i`-th is above it
  have hle : ∀ j (hj : j < l.length), j ≤ i → f l[j] ≤ f l[i] := by
    intro j hj hji
    rcases Nat.lt_or_eq_of_le hji with hji | rfl
    · exact Nat.le_of_lt (pairwise_iff_getElem.mp hl j i hj hi hji)
    · exact Nat.le_refl _
  by_cases hi' : i + 1 < l.length
  · rw [findIdx_eq hi']
    have hnext : f l[i] < f l[i + 1] := pairwise_iff_getElem.mp hl i (i + 1) hi hi' (by omega)
    refine ⟨by simp only [decide_eq_true_eq]; omega, fun j hj => ?_⟩
    have := hle j (by omega) (by omega)
    simp only [decide_eq_false_iff_not]
    omega
  · have hlen : i + 1 = l.length := by omega
    rw [hlen, findIdx_eq_length]
    intro x hx
    obtain ⟨j, hj, rfl⟩ := getElem_of_mem hx
    have := hle j hj (by omega)
    simp only [decide_eq_false_iff_not]
    omega

theorem findIdx?_le_apply (hl : l.Pairwise fun a b => f a < f b) {i : Nat} (hi : i < l.length) :
    l.findIdx? (fun x => decide (f l[i] ≤ f x)) = some i := by
  rw [findIdx?_eq_below, findIdx_le_apply hl hi]
  exact if_pos hi

theorem findIdx?_succ_le_apply (hl : l.Pairwise fun a b => f a < f b) {i : Nat}
    (hi : i < l.length) :
    l.findIdx? (fun x => decide (f l[i] + 1 ≤ f x)) = SeqIter.below (i + 1) l.length := by
  rw [findIdx?_eq_below, findIdx_succ_le_apply hl hi]

/-- the last entry below a threshold is the one before the first at or above it -/
theorem findLastIdx?_lt_eq (hl : l.Pairwise fun a b => f a < f b) (n : Nat) :
    l.findLastIdx? (fun x => decide (f x < n)) =
      SeqIter.before (l.findIdx fun x => decide (n ≤ f x)) := by
  have hmono : l.Pairwise fun a b => decide (n ≤ f a) = true → decide (n ≤ f b) = true :=
    hl.imp fun hab ha => by simp only [decide_eq_true_eq] at ha ⊢; omega
  rw [← findLastIdx?_not hmono]
  congr 1
  funext x
  simp only [← Nat.not_le, decide_not]

theorem findLastIdx?_lt_apply (hl : l.Pairwise fun a b => f a < f b) {i : Nat}
    (hi : i < l.length) :
    l.findLastIdx? (fun x => decide (f x < f l[i])) = SeqIter.before i := by
  rw [findLastIdx?_lt_eq hl, findIdx_le_apply hl hi]

theorem findLastIdx?_lt_succ_apply (hl : l.Pairwise fun a b => f a < f b) {i : Nat}
    (hi : i < l.length) :
    l.findLastIdx? (fun x => decide (f x < f l[i] + 1)) = some i := by
  rw [findLastIdx?_lt_eq hl, findIdx_succ_le_apply hl hi]
  rfl

variable {n : Nat}

/-- a threshold no entry sits at can move past it -/
theorem findIdx?_le_skip (h : ∀ x ∈ l, f x ≠ n) :
    l.findIdx? (fun x => decide (n ≤ f x)) = l.findIdx? (fun x => decide (n + 1 ≤ f x)) :=
  findIdx?_congr_mem fun x hx => by
    have := h x hx
    simp only [decide_eq_decide]
    omega

theorem findLastIdx?_lt_skip (h : ∀ x ∈ l, f x ≠ n) :
    l.findLastIdx? (fun x => decide (f x < n + 1)) = l.findLastIdx? (fun x => decide (f x < n)) :=
  findLastIdx?_congr_mem fun x hx => by
    have := h x hx
    simp only [decide_eq_decide]
    omega

end Threshold

end List

/-- `M` is the union of the sequences `ls` in key order: the keys of each sequence strictly
increase, no key is in two of them, and `M` holds exactly their entries, its keys strictly
increasing -/
structure SortedUnion {κ β : Type*} [LinearOrder κ] (ls : List (List (κ × β)))
    (M : List (κ × β)) : Prop where
  sorted : ∀ l ∈ ls, l.Pairwise fun a b => a.1 < b.1
  disjoint : ls.Pairwise fun l l' => ∀ x ∈ l, ∀ y ∈ l', x.1 ≠ y.1
  union_sorted : M.Pairwise fun a b => a.1 < b.1
  perm : M.Perm ls.flatten

namespace SortedUnion

open List

variable {κ β : Type*} [LinearOrder κ]

/-- the place the key of `e` takes among the entries `M`: the first of them not below it -/
def rank (M : List (κ × β)) (e : κ × β) : Nat := M.findIdx fun m => decide (e.1 ≤ m.1)

section Ranks

variable {M : List (κ × β)} (hM : M.Pairwise fun a b => a.1 < b.1)
include hM

/-- in a list with strictly increasing keys, keys compare as places do -/
theorem key_le_key_iff {i j : Nat} (hi : i < M.length) (hj : j < M.length) :
    M[i].1 ≤ M[j].1 ↔ i ≤ j := by
  constructor
  · intro h
    by_contra hji
    have hlt : M[j].1 < M[i].1 := pairwise_iff_getElem.mp hM j i hj hi (by omega)
    exact absurd h (not_le.mpr hlt)
  · intro h
    rcases Nat.lt_or_eq_of_le h with h | rfl
    · exact le_of_lt (pairwise_iff_getElem.mp hM i j hi hj h)
    · exact le_refl _

theorem rank_getElem {i : Nat} (hi : i < M.length) : rank M M[i] = i := by
  rw [rank, findIdx_eq hi]
  refine ⟨by simp, fun j hj => ?_⟩
  have := (key_le_key_iff hM hi (by omega : j < M.length)).not.mpr (by omega)
  simpa using this

theorem exists_rank {e : κ × β} (he : e ∈ M) : ∃ h : rank M e < M.length, M[rank M e] = e := by
  obtain ⟨i, hi, rfl⟩ := getElem_of_mem he
  rw [rank_getElem hM hi]
  exact ⟨hi, rfl⟩

theorem rank_le_rank_iff {e e' : κ × β} (he : e ∈ M) (he' : e' ∈ M) :
    rank M e ≤ rank M e' ↔ e.1 ≤ e'.1 := by
  obtain ⟨h, hx⟩ := exists_rank hM he
  obtain ⟨h', hx'⟩ := exists_rank hM he'
  rw [← key_le_key_iff hM h h', hx, hx']

/-- two entries of `M` at one rank are one entry -/
theorem eq_of_rank_eq {e e' : κ × β} (he : e ∈ M) (he' : e' ∈ M) (h : rank M e = rank M e') :
    e = e' := by
  obtain ⟨h₁, hx⟩ := exists_rank hM he
  obtain ⟨h₂, hx'⟩ := exists_rank hM he'
  rw [← hx, ← hx']
  simp only [h]

/-- a condition on keys that, once it holds, holds of every greater key, holds of an entry of `M`
exactly from the first entry of `M` where it holds -/
theorem decide_mono_key {c : κ → Bool} (hc : ∀ a b, a ≤ b → c a = true → c b = true)
    {e : κ × β} (he : e ∈ M) :
    c e.1 = decide (M.findIdx (fun m => c m.1) ≤ rank M e) := by
  obtain ⟨h, hx⟩ := exists_rank hM he
  cases hce : c e.1 with
  | true =>
    -- a place before the first where `c` holds does not hold `c`
    refine (decide_eq_true (Nat.le_of_not_lt fun hlt => ?_)).symm
    have := not_of_lt_findIdx hlt
    rw [hx, hce] at this
    cases this
  | false =>
    refine (decide_eq_false fun hle => ?_).symm
    have hf : M.findIdx (fun m => c m.1) < M.length := by omega
    have hfc : c M[M.findIdx (fun m => c m.1)].1 = true := findIdx_getElem (w := hf)
    have hkey := (key_le_key_iff hM hf h).mpr hle
    rw [hx] at hkey
    rw [hc _ _ hkey hfc] at hce
    cases hce

/-- `Seek(t)` as a threshold on ranks -/
theorem decide_le_key (t : κ) {e : κ × β} (he : e ∈ M) :
    decide (t ≤ e.1) = decide (M.findIdx (fun m => decide (t ≤ m.1)) ≤ rank M e) :=
  decide_mono_key hM (c := fun k => decide (t ≤ k))
    (fun _ _ hab ha => by simp only [decide_eq_true_eq] at ha ⊢; exact le_trans ha hab) he

/-- `SeekForPrev(t)` as a threshold on ranks -/
theorem decide_key_le (t : κ) {e : κ × β} (he : e ∈ M) :
    decide (e.1 ≤ t) = decide (rank M e < M.findIdx (fun m => decide (t < m.1))) := by
  have key := decide_mono_key hM (c := fun k => decide (t < k))
    (fun _ _ hab ha => by simp only [decide_eq_true_eq] at ha ⊢; exact lt_of_lt_of_le ha hab) he
  rw [Bool.eq_iff_iff, decide_eq_true_iff, decide_eq_true_iff, ← not_lt, ← Nat.not_le,
    ← decide_eq_true_iff (p := t < e.1), key, decide_eq_true_iff]

/-- in `M` itself, the last entry not above `t` is the one before the first entry above `t` -/
theorem findLastIdx?_key_le (t : κ) :
    M.findLastIdx? (fun m => decide (m.1 ≤ t)) =
      SeqIter.before (M.findIdx fun m => decide (t < m.1)) := by
  have hmono : M.Pairwise fun a b => decide (t < a.1) = true → decide (t < b.1) = true :=
    hM.imp fun hab ha => by
      simp only [decide_eq_true_eq] at ha ⊢
      exact lt_trans ha hab
  rw [← findLastIdx?_not hmono]
  congr 1
  funext m
  simp only [← not_lt, decide_not]

end Ranks

section Union

variable {ls : List (List (κ × β))} {M : List (κ × β)} (hu : SortedUnion ls M)
include hu

theorem mem {l : List (κ × β)} (hl : l ∈ ls) {e : κ × β} (he : e ∈ l) : e ∈ M :=
  hu.perm.mem_iff.mpr (mem_flatten.mpr ⟨l, hl, he⟩)

/-- ranks strictly increase along each sequence -/
theorem rank_increasing {l : List (κ × β)} (hl : l ∈ ls) :
    l.Pairwise fun a b => rank M a < rank M b := by
  refine (hu.sorted l hl).imp_of_mem fun ha hb hab => ?_
  have := (rank_le_rank_iff hu.union_sorted (hu.mem hl hb) (hu.mem hl ha)).not.mpr (not_le.mpr hab)
  omega

/-- every entry of the union comes from one of the sequences -/
theorem exists_holder {g : Nat} (hg : g < M.length) : ∃ j, ∃ hj : j < ls.length, M[g] ∈ ls[j] := by
  obtain ⟨l, hl, hx⟩ := mem_flatten.mp (hu.perm.mem_iff.mp (getElem_mem hg))
  obtain ⟨j, hj, rfl⟩ := getElem_of_mem hl
  exact ⟨j, hj, hx⟩

/-- entries of two different sequences have different keys -/
theorem key_ne {j j' : Nat} (hj : j < ls.length) (hj' : j' < ls.length) (hne : j ≠ j')
    {x y : κ × β} (hx : x ∈ ls[j]) (hy : y ∈ ls[j']) : x.1 ≠ y.1 := by
  rcases Nat.lt_or_gt_of_ne hne with h | h
  · exact pairwise_iff_getElem.mp hu.disjoint j j' hj hj' h x hx y hy
  · exact (pairwise_iff_getElem.mp hu.disjoint j' j hj' hj h y hy x hx).symm

/-- a sequence other than the one holding the `g`-th entry of the union has no entry of rank `g` -/
theorem rank_ne {g : Nat} (hg : g < M.length) {j j' : Nat} (hj : j < ls.length)
    (hj' : j' < ls.length) (hne : j ≠ j') (hx : M[g] ∈ ls[j]) :
    ∀ y ∈ ls[j'], rank M y ≠ g := by
  intro y hy hr
  have hyM := hu.mem (getElem_mem hj') hy
  have hyg : y = M[g] :=
    eq_of_rank_eq hu.union_sorted hyM (getElem_mem hg) (by rw [hr, rank_getElem hu.union_sorted hg])
  exact hu.key_ne hj hj' hne hx hy (by rw [hyg])

end Union

end SortedUnion
