import Mathlib

/-!
# Lists kept sorted by a key

A skip list holds its elements as a list sorted strictly by a key.  It inserts an element before
the first one whose key is not below its own, and seeks to the first element whose key is not
below a target:

* `insertByKey key x l`, `seekByKey key t l`;
* `perm_insertByKey`, `pairwise_insertByKey`: an insertion adds `x` and keeps the order, where
  no key equals that of `x`; `insertByKey_of_forall_lt`: above every key it appends; the
  `_foldl_` forms say the same of a run of insertions;
* `seekByKey_eq_filter`: on a sorted list the seek is the filter of the keys not below `t`;
* `filter_append_filter_not`: a property that holds on a prefix of a list splits it there;
* `eq_of_perm_of_pairwise_lt`: two lists sorted strictly by one key, with the same elements, are
  equal;
* `filter_fst_append_filter_not`: where the key is a lexicographic pair and every element lies at
  or above `toLex (a, d)`, the elements whose first component is `a` come first.
-/

namespace List

variable {α κ : Type*} [LinearOrder κ] (key : α → κ)

/-- `x` before the first element whose key is not below `key x` -/
def insertByKey (x : α) : List α → List α
  | [] => [x]
  | y :: l => if key y < key x then y :: insertByKey x l else x :: y :: l

/-- the elements from the first one whose key is not below `t` -/
def seekByKey (t : κ) (l : List α) : List α := l.dropWhile fun y => key y < t

variable {key}

theorem perm_insertByKey (x : α) (l : List α) : insertByKey key x l ~ x :: l := by
  induction l with
  | nil => rfl
  | cons y l ih =>
    unfold insertByKey
    split
    · exact (ih.cons y).trans (Perm.swap x y l)
    · rfl

theorem mem_insertByKey {x y : α} {l : List α} : y ∈ insertByKey key x l ↔ y = x ∨ y ∈ l := by
  rw [(perm_insertByKey x l).mem_iff, mem_cons]

theorem pairwise_insertByKey {x : α} {l : List α} (hl : l.Pairwise fun a b => key a < key b)
    (hx : ∀ y ∈ l, key y ≠ key x) : (insertByKey key x l).Pairwise fun a b => key a < key b := by
  induction l with
  | nil => simp [insertByKey]
  | cons y l ih =>
    obtain ⟨hy, hl⟩ := pairwise_cons.mp hl
    unfold insertByKey
    split
    · rename_i hyx
      refine pairwise_cons.mpr ⟨fun z hz => ?_, ih hl fun z hz => hx z (mem_cons_of_mem y hz)⟩
      rcases mem_insertByKey.mp hz with rfl | hz
      · exact hyx
      · exact hy z hz
    · rename_i hyx
      -- `x` goes first: its key is below that of `y`, so below every later one
      have hxy : key x < key y := lt_of_le_of_ne (not_lt.mp hyx) (hx y mem_cons_self).symm
      refine pairwise_cons.mpr ⟨fun z hz => ?_, pairwise_cons.mpr ⟨hy, hl⟩⟩
      rcases mem_cons.mp hz with rfl | hz
      · exact hxy
      · exact hxy.trans (hy z hz)

/-- an element above every key of the list goes last -/
theorem insertByKey_of_forall_lt {x : α} {l : List α} (h : ∀ y ∈ l, key y < key x) :
    insertByKey key x l = l ++ [x] := by
  induction l with
  | nil => rfl
  | cons y l ih =>
    rw [insertByKey, if_pos (h y mem_cons_self), ih fun z hz => h z (mem_cons_of_mem y hz),
      cons_append]

/-- inserting the elements of `l` one by one puts them in front of `t`, up to order -/
theorem perm_foldl_insertByKey (l t : List α) :
    l.foldl (fun t x => insertByKey key x t) t ~ l.reverse ++ t := by
  induction l generalizing t with
  | nil => rfl
  | cons x l ih =>
    rw [foldl_cons, reverse_cons, append_assoc, singleton_append]
    exact (ih _).trans (Perm.append_left _ (perm_insertByKey x t))

theorem pairwise_foldl_insertByKey {l t : List α} (ht : t.Pairwise fun a b => key a < key b)
    (hl : l.Pairwise fun a b => key a ≠ key b) (hlt : ∀ y ∈ t, ∀ x ∈ l, key y ≠ key x) :
    (l.foldl (fun t x => insertByKey key x t) t).Pairwise fun a b => key a < key b := by
  induction l generalizing t with
  | nil => exact ht
  | cons x l ih =>
    obtain ⟨hx, hl⟩ := pairwise_cons.mp hl
    refine ih (pairwise_insertByKey ht fun y hy => hlt y hy x mem_cons_self) hl fun y hy z hz => ?_
    rcases mem_insertByKey.mp hy with rfl | hy
    · exact hx z hz
    · exact hlt y hy z (mem_cons_of_mem x hz)

theorem seekByKey_eq_filter {t : κ} {l : List α} (hl : l.Pairwise fun a b => key a < key b) :
    seekByKey key t l = l.filter fun y => t ≤ key y := by
  induction l with
  | nil => rfl
  | cons y l ih =>
    obtain ⟨hy, hl⟩ := pairwise_cons.mp hl
    unfold seekByKey at ih ⊢
    by_cases hyt : key y < t
    · rw [dropWhile_cons_of_pos (by simpa using hyt), ih hl,
        filter_cons_of_neg (by simpa using hyt)]
    · -- the seek stops at `y`, and every later key is above `key y`
      rw [dropWhile_cons_of_neg (by simpa using hyt), filter_cons_of_pos (by simpa using hyt),
        filter_eq_self.mpr fun z hz => by simpa using (not_lt.mp hyt).trans (hy z hz).le]

/-- where `P` holds of an element whenever it holds of a later one, the elements with `P` come
first -/
theorem filter_append_filter_not {P : α → Bool} {l : List α}
    (h : l.Pairwise fun a b => P b = true → P a = true) :
    l.filter P ++ l.filter (fun a => !P a) = l := by
  induction l with
  | nil => rfl
  | cons y l ih =>
    obtain ⟨hy, hl⟩ := pairwise_cons.mp h
    cases hP : P y
    · -- `P` fails at `y`, so on all of the rest
      have hnone : l.filter P = [] := filter_eq_nil_iff.mpr fun z hz hz' => by
        simpa [hP] using hy z hz hz'
      have hall : l.filter (fun a => !P a) = l := filter_eq_self.mpr fun z hz => by
        cases hPz : P z
        · rfl
        · simpa [hP] using hy z hz hPz
      simp [hP, hnone, hall]
    · simp [hP, ih hl]

theorem eq_of_perm_of_pairwise_lt {l₁ l₂ : List α} (hp : l₁ ~ l₂)
    (h₁ : l₁.Pairwise fun a b => key a < key b) (h₂ : l₂.Pairwise fun a b => key a < key b) :
    l₁ = l₂ :=
  hp.eq_of_pairwise (fun _ _ _ _ hab hba => absurd (hab.trans hba) (lt_irrefl _)) h₁ h₂

section Lex

variable {β γ : Type*} [LinearOrder β] [LinearOrder γ]

/-- at or above `toLex (a, d)`, an element below one whose first component is `a` has first
component `a` too -/
theorem fst_eq_of_toLex_le_of_lt {a : β} {d : γ} {x y : β ×ₗ γ} (hx : toLex (a, d) ≤ x)
    (hxy : x < y) (hy : (ofLex y).1 = a) : (ofLex x).1 = a := by
  have hax : a ≤ (ofLex x).1 := by
    rcases Prod.Lex.le_iff.mp hx with h | ⟨h, -⟩
    · exact h.le
    · exact h.le
  have hxa : (ofLex x).1 ≤ a := by
    rcases Prod.Lex.lt_iff.mp hxy with h | ⟨h, -⟩
    · exact hy ▸ h.le
    · exact hy ▸ h.le
  exact le_antisymm hxa hax

theorem filter_fst_append_filter_not [DecidableEq β] (key : α → β ×ₗ γ) {a : β} {d : γ}
    {l : List α} (hl : l.Pairwise fun x y => key x < key y) (hge : ∀ x ∈ l, toLex (a, d) ≤ key x) :
    l.filter (fun x => decide ((ofLex (key x)).1 = a)) ++
      l.filter (fun x => !decide ((ofLex (key x)).1 = a)) = l := by
  refine filter_append_filter_not (hl.imp_of_mem fun hx _ hxy hy => ?_)
  simpa using fst_eq_of_toLex_le_of_lt (hge _ hx) hxy (by simpa using hy)

end Lex

end List
