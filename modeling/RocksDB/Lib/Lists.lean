import Mathlib

/-!
# Lists: removal by swap-with-last

* `List.swapRemove l i`   removes the element at index `i` the way a vector does it cheaply:
                          the last element is moved into slot `i`, then the last slot is
                          dropped (`*it = back(); pop_back();`).

The order of the remaining elements changes, so the results are stated up to permutation:
`swapRemove_perm` relates it to `eraseIdx`, and `swapRemove_idxOf_perm` to `erase` at the
first occurrence of an element.  Membership and duplicate-freeness then follow from the
corresponding facts about `erase`.

# Pointwise folds

A loop over the entries of a map whose body touches only the entry of its own key:
`view_foldl_of_mem` and `view_foldl_of_forall_ne` say what the whole loop does at one key, and
`view_foldl_congr` that two loops whose bodies agree on what is viewed end in equal views.

# Loops that a callback ends

`runWhile f s l` is an iterator loop `for (...; it.Valid() && f(s, it.key()); it.Next())`: the
callback answers whether to go on, and the state it leaves.  `runWhile_append_of_stop` cuts the
list at an element where the callback stops without a change.

# Writers

An encoder that appends to its output buffer: a field written only where a condition holds
(`ite_append_left`, `ite_append_right`), and a loop that writes each element of a list (`foldl_append_eq_append_flatMap`).

# Layouts

Lists laid end to end, with the offset where each starts kept beside (`layoutStarts`): reading
back the slice between two consecutive offsets gives the list laid there (`take_drop_flatten`,
`map_range_slices`).

# Searches over a prefix

A predicate that fails on the first `j` elements and holds at the `j`-th makes `find?` return the
`j`-th (`find?_eq_getElem?_of_first`); one that holds exactly on the first `J` makes `filter` keep
them (`filter_eq_take_of_prefix`), and one that holds exactly from `s` below `t` keeps that window
(`filter_eq_take_drop_of_window`).  Over a list sorted so that a predicate holds of an element
whenever it holds of a later one, it holds on a prefix (`exists_prefix_of_pairwise`).  A predicate
implied by another and holding where that one fails counts more (`countP_lt_countP_of_mem`).
-/

namespace List

variable {α : Type*}

/-- Removes the element at index `i` by moving the last element into its place; an index past
the end drops the last element. -/
def swapRemove (l : List α) (i : Nat) : List α :=
  match l.getLast? with
  | none => l
  | some last => if i + 1 < l.length then (l.set i last).dropLast else l.dropLast

theorem swapRemove_concat (L : List α) (b : α) (i : Nat) :
    (L ++ [b]).swapRemove i = if i < L.length then L.set i b else L := by
  simp only [swapRemove, getLast?_concat, length_append, length_singleton]
  split
  · rw [if_pos (by omega), set_append, if_pos (by omega), dropLast_concat]
  · rw [if_neg (by omega), dropLast_concat]

theorem swapRemove_perm (l : List α) {i : Nat} (hi : i < l.length) :
    l.swapRemove i ~ l.eraseIdx i := by
  obtain rfl | ⟨L, b, rfl⟩ := l.eq_nil_or_concat
  · simp at hi
  rw [concat_eq_append, swapRemove_concat]
  split
  · rename_i h
    -- the last element now sits at `i`: `take i L ++ b :: drop (i+1) L`
    rw [eraseIdx_append_of_lt_length h, set_eq_take_append_cons_drop, if_pos h,
      eraseIdx_eq_take_drop_succ]
    exact perm_middle.trans (perm_append_singleton _ _).symm
  · have : i = L.length := by simp at hi; omega
    subst this
    simp [eraseIdx_eq_take_drop_succ]

/-- a list of length one whose head is `a` is `[a]` -/
theorem length_eq_one_and_head?_iff {l : List α} {a : α} :
    (l.length = 1 ∧ l.head? = some a) ↔ l = [a] := by
  constructor
  · rintro ⟨hl, hh⟩
    obtain ⟨b, rfl⟩ := length_eq_one_iff.mp hl
    simpa using hh
  · rintro rfl
    simp

section Erase

variable [BEq α] [LawfulBEq α] {l : List α} {a : α}

theorem swapRemove_idxOf_perm (h : a ∈ l) : l.swapRemove (l.idxOf a) ~ l.erase a := by
  rw [← eraseIdx_idxOf_eq_erase]
  exact swapRemove_perm l (idxOf_lt_length_iff.mpr h)

theorem Nodup.swapRemove_idxOf (hl : l.Nodup) (h : a ∈ l) : (l.swapRemove (l.idxOf a)).Nodup :=
  (swapRemove_idxOf_perm h).nodup_iff.mpr (hl.erase a)

theorem Nodup.mem_swapRemove_idxOf (hl : l.Nodup) (h : a ∈ l) {x : α} :
    x ∈ l.swapRemove (l.idxOf a) ↔ x ∈ l ∧ x ≠ a := by
  rw [(swapRemove_idxOf_perm h).mem_iff, hl.mem_erase_iff, and_comm]

end Erase

section PointwiseFold

variable {σ κ ν : Type*} [DecidableEq κ] (view : σ → κ → ν) (key : α → κ) (g : α → ν → ν)
  (step : σ → α → σ)

/-- a fold whose step changes the view at its element's key only leaves the view at a key of no
element as it was -/
theorem view_foldl_of_forall_ne
    (hstep : ∀ s a x, view (step s a) x = if key a = x then g a (view s x) else view s x)
    {l : List α} {x : κ} (hx : ∀ a ∈ l, key a ≠ x) (s : σ) :
    view (l.foldl step s) x = view s x := by
  induction l generalizing s with
  | nil => rfl
  | cons b l ih =>
    rw [List.foldl_cons, ih (fun a ha => hx a (List.mem_cons_of_mem _ ha)), hstep,
      if_neg (hx b List.mem_cons_self)]

/-- the same fold changes the view at the key of an element once, by that element, when the keys
of the list are distinct -/
theorem view_foldl_of_mem
    (hstep : ∀ s a x, view (step s a) x = if key a = x then g a (view s x) else view s x)
    {l : List α} (hl : (l.map key).Nodup) {a : α} (ha : a ∈ l) (s : σ) :
    view (l.foldl step s) (key a) = g a (view s (key a)) := by
  induction l generalizing s with
  | nil => simp at ha
  | cons b l ih =>
    rw [List.map_cons, List.nodup_cons] at hl
    rw [List.foldl_cons]
    rcases List.mem_cons.mp ha with rfl | ha
    · -- `a` heads the list: no later element has its key
      rw [view_foldl_of_forall_ne view key g step hstep
        (fun c hc h => hl.1 (by rw [← h]; exact List.mem_map_of_mem hc)), hstep, if_pos rfl]
    · have hne : key b ≠ key a := fun h => hl.1 (by rw [h]; exact List.mem_map_of_mem ha)
      rw [ih hl.2 ha, hstep, if_neg hne]

end PointwiseFold

section ViewCongr

variable {σ τ ν : Type*} (view : σ → ν) (view' : τ → ν) (f : σ → α → σ) (f' : τ → α → τ)

/-- two folds whose steps agree on the view from states of equal view end in states of equal
view -/
theorem view_foldl_congr (hstep : ∀ s s' a, view s = view' s' → view (f s a) = view' (f' s' a))
    (l : List α) {s : σ} {s' : τ} (h : view s = view' s') :
    view (l.foldl f s) = view' (l.foldl f' s') := by
  induction l generalizing s s' with
  | nil => exact h
  | cons a l ih => exact ih (hstep s s' a h)

end ViewCongr

section RunWhile

variable {σ : Type*} {f : σ → α → Bool × σ}

/-- the loop over `l` from state `s`, until `f` answers `false` -/
def runWhile (f : σ → α → Bool × σ) : σ → List α → σ
  | s, [] => s
  | s, a :: l => if (f s a).1 then runWhile f (f s a).2 l else (f s a).2

@[simp] theorem runWhile_nil (s : σ) : runWhile f s [] = s := rfl

theorem runWhile_cons_of_continue {s s' : σ} {a : α} (l : List α) (h : f s a = (true, s')) :
    runWhile f s (a :: l) = runWhile f s' l := by
  simp [runWhile, h]

theorem runWhile_cons_of_stop {s s' : σ} {a : α} (l : List α) (h : f s a = (false, s')) :
    runWhile f s (a :: l) = s' := by
  simp [runWhile, h]

/-- an element where the callback stops and changes nothing, from every state the loop can reach
(those with `P`), ends the loop -/
theorem runWhile_append_of_stop (P : σ → Prop) (hP : ∀ s a, P s → P (f s a).2) {x : α}
    (hx : ∀ s, P s → f s x = (false, s)) (l₁ l₂ : List α) {s : σ} (hs : P s) :
    runWhile f s (l₁ ++ x :: l₂) = runWhile f s l₁ := by
  induction l₁ generalizing s with
  | nil => exact runWhile_cons_of_stop l₂ (hx s hs)
  | cons a l ih =>
    rw [List.cons_append]
    rcases hf : f s a with ⟨b, s'⟩
    have hs' : P s' := by simpa [hf] using hP s a hs
    cases b
    · rw [runWhile_cons_of_stop _ hf, runWhile_cons_of_stop _ hf]
    · rw [runWhile_cons_of_continue _ hf, runWhile_cons_of_continue _ hf, ih hs']

end RunWhile

section Writers

theorem ite_append_left (c : Prop) [Decidable c] (l x : List α) :
    (if c then l ++ x else l) = l ++ if c then x else [] := by
  split <;> simp

theorem ite_append_right (c : Prop) [Decidable c] (l x : List α) :
    (if c then l else l ++ x) = l ++ if c then [] else x := by
  split <;> simp

theorem foldl_append_eq_append_flatMap {β : Type*} (g : β → List α) (l : List β) (acc : List α) :
    l.foldl (fun acc x => acc ++ g x) acc = acc ++ l.flatMap g := by
  induction l generalizing acc with
  | nil => simp
  | cons x l ih => rw [List.foldl_cons, ih, List.flatMap_cons, List.append_assoc]

end Writers

section Layouts

theorem modify_append_right (l₁ l₂ : List α) (f : α → α) (i : Nat) :
    (l₁ ++ l₂).modify (l₁.length + i) f = l₁ ++ l₂.modify i f := by
  induction l₁ with
  | nil => simp
  | cons a l₁ ih => rw [cons_append, length_cons, Nat.add_right_comm, modify_succ_cons, ih]; rfl

theorem getD_modify_self {l : List α} {i : Nat} (f : α → α) (d : α) (h : i < l.length) :
    (l.modify i f).getD i d = f (l.getD i d) := by
  rw [getD_eq_getElem?_getD, getElem?_modify, getD_eq_getElem?_getD, getElem?_eq_getElem h]
  simp

theorem getD_modify_ne {l : List α} {i j : Nat} (f : α → α) (d : α) (h : i ≠ j) :
    (l.modify i f).getD j d = l.getD j d := by
  rw [getD_eq_getElem?_getD, getElem?_modify, getD_eq_getElem?_getD]
  simp [h]

/-- the offsets at which the lists of `ls` start when they are laid end to end from `n` -/
def layoutStarts : List (List α) → Nat → List Nat
  | [], _ => []
  | l :: ls, n => n :: layoutStarts ls (n + l.length)

@[simp] theorem length_layoutStarts (ls : List (List α)) (n : Nat) :
    (layoutStarts ls n).length = ls.length := by
  induction ls generalizing n with
  | nil => rfl
  | cons l ls ih => simp [layoutStarts, ih]

theorem layoutStarts_append_singleton (ls : List (List α)) (l : List α) (n : Nat) :
    layoutStarts (ls ++ [l]) n = layoutStarts ls n ++ [n + ls.flatten.length] := by
  induction ls generalizing n with
  | nil => simp [layoutStarts]
  | cons l' ls ih =>
    rw [cons_append, layoutStarts, layoutStarts, ih, flatten_cons, length_append, Nat.add_assoc,
      cons_append]

/-- the `i`-th offset, the end of the layout counting as offset `ls.length` -/
theorem getD_layoutStarts (ls : List (List α)) (n : Nat) {i : Nat} (hi : i ≤ ls.length) :
    (layoutStarts ls n ++ [n + ls.flatten.length]).getD i 0 = n + (ls.take i).flatten.length := by
  induction ls generalizing n i with
  | nil =>
    rw [length_nil, Nat.le_zero] at hi
    subst hi
    simp [layoutStarts]
  | cons l ls ih =>
    cases i with
    | zero => simp [layoutStarts]
    | succ i =>
      rw [layoutStarts, cons_append, getD_cons_succ, flatten_cons, length_append,
        ← Nat.add_assoc, ih _ (by simpa using hi), take_succ_cons, flatten_cons, length_append,
        Nat.add_assoc]

/-- the slice at the `i`-th offset, as long as the `i`-th list, is that list -/
theorem take_drop_flatten (ls : List (List α)) {i : Nat} (hi : i < ls.length) (rest : List α) :
    ((ls.flatten ++ rest).drop (ls.take i).flatten.length).take ls[i].length = ls[i] := by
  have hsplit : ls.flatten = (ls.take i).flatten ++ (ls[i] ++ (ls.drop (i + 1)).flatten) := by
    rw [← flatten_cons, getElem_cons_drop hi, ← flatten_append, take_append_drop]
  rw [hsplit, append_assoc, drop_left, append_assoc, take_left]

/-- cutting the layout at consecutive offsets, the end included, gives back the lists -/
theorem map_range_slices (ls : List (List α)) :
    (range ls.length).map (fun i =>
      (ls.flatten.drop ((layoutStarts ls 0 ++ [ls.flatten.length]).getD i 0)).take
        ((layoutStarts ls 0 ++ [ls.flatten.length]).getD (i + 1) 0 -
          (layoutStarts ls 0 ++ [ls.flatten.length]).getD i 0)) = ls := by
  apply ext_getElem (by simp)
  intro i hi _
  have hi' : i < ls.length := by simpa using hi
  have hstart : (layoutStarts ls 0 ++ [ls.flatten.length]).getD i 0 = (ls.take i).flatten.length := by
    simpa using getD_layoutStarts ls 0 (Nat.le_of_lt hi')
  have hend : (layoutStarts ls 0 ++ [ls.flatten.length]).getD (i + 1) 0 =
      (ls.take (i + 1)).flatten.length := by
    simpa using getD_layoutStarts ls 0 (i := i + 1) (by omega)
  have hlen : (ls.take (i + 1)).flatten.length - (ls.take i).flatten.length = ls[i].length := by
    rw [take_add_one, getElem?_eq_getElem hi', Option.toList_some, flatten_append, length_append,
      flatten_singleton]
    omega
  rw [getElem_map, getElem_range, hstart, hend, hlen, ← append_nil ls.flatten,
    take_drop_flatten ls hi']

end Layouts

section Searches

theorem getElem?_eq_some_getD {l : List α} {i : Nat} (d : α) (h : i < l.length) :
    l[i]? = some (l.getD i d) := by
  rw [getD_eq_getElem l d h, getElem?_eq_getElem h]

theorem find?_eq_getElem?_of_first {l : List α} {p : α → Bool} {j : Nat}
    (hbefore : ∀ t < j, ∀ x, l[t]? = some x → p x = false)
    (hat : ∀ x, l[j]? = some x → p x = true) : l.find? p = l[j]? := by
  induction l generalizing j with
  | nil => rfl
  | cons a l ih =>
    cases j with
    | zero => rw [find?_cons_of_pos (hat a rfl), getElem?_cons_zero]
    | succ j =>
      rw [find?_cons_of_neg (by rw [hbefore 0 (by omega) a rfl]; decide), getElem?_cons_succ]
      exact ih (fun t ht x hx => hbefore (t + 1) (by omega) x hx) hat

theorem filter_eq_take_of_prefix {l : List α} {q : α → Bool} {J : Nat}
    (h : ∀ t x, l[t]? = some x → (q x = true ↔ t < J)) : l.filter q = l.take J := by
  induction l generalizing J with
  | nil => simp
  | cons a l ih =>
    cases J with
    | zero =>
      have ha : q a = false := by simpa using (h 0 a rfl)
      rw [filter_cons_of_neg (by rw [ha]; decide), take_zero,
        ih (J := 0) fun t x hx => by simpa using h (t + 1) x hx]
      simp
    | succ J =>
      have ha : q a = true := (h 0 a rfl).mpr (by omega)
      rw [filter_cons_of_pos ha, take_succ_cons,
        ih (J := J) fun t x hx => by simpa using h (t + 1) x hx]

/-- a predicate that holds of an element whenever it holds of a later one holds on a prefix -/
theorem exists_prefix_of_pairwise {l : List α} {p : α → Bool}
    (h : l.Pairwise fun a b => p b = true → p a = true) :
    ∃ J ≤ l.length, ∀ t x, l[t]? = some x → (p x = true ↔ t < J) := by
  induction l with
  | nil => exact ⟨0, le_rfl, fun t x hx => by simp at hx⟩
  | cons a l ih =>
    obtain ⟨ha, hl⟩ := pairwise_cons.mp h
    obtain ⟨J, hJ, hpre⟩ := ih hl
    cases hp : p a
    · -- `p` fails at the head, so everywhere
      refine ⟨0, Nat.zero_le _, fun t x hx => ?_⟩
      cases t with
      | zero => simp_all
      | succ t =>
        have hx' : x ∈ l := mem_of_getElem? (by simpa using hx)
        have hpx : p x = false := by
          cases hpx : p x
          · rfl
          · simpa [hp] using ha x hx' hpx
        simp [hpx]
    · refine ⟨J + 1, by simpa using hJ, fun t x hx => ?_⟩
      cases t with
      | zero => simp_all
      | succ t => rw [hpre t x (by simpa using hx)]; omega

/-- a predicate that holds exactly at the indices from `s` below `t` keeps the elements there -/
theorem filter_eq_take_drop_of_window {l : List α} {q : α → Bool} {s t : Nat}
    (h : ∀ i x, l[i]? = some x → (q x = true ↔ s ≤ i ∧ i < t)) :
    l.filter q = (l.drop s).take (t - s) := by
  have hbefore : (l.take s).filter q = [] := filter_eq_nil_iff.mpr fun x hx hqx => by
    obtain ⟨i, hi⟩ := mem_iff_getElem?.mp hx
    rw [getElem?_take] at hi
    split_ifs at hi with his
    have := (h i x hi).mp hqx
    omega
  conv_lhs => rw [← take_append_drop s l]
  rw [filter_append, hbefore, nil_append]
  exact filter_eq_take_of_prefix fun i x hx => by
    rw [getElem?_drop] at hx
    rw [h _ x hx]
    omega

/-- where `p` implies `q`, and some element has `q` but not `p`, fewer elements have `p` -/
theorem countP_lt_countP_of_mem {l : List α} {p q : α → Bool}
    (h : ∀ x ∈ l, p x = true → q x = true) {a : α} (ha : a ∈ l) (hq : q a = true)
    (hp : p a = false) : l.countP p < l.countP q := by
  induction l with
  | nil => simp at ha
  | cons x l ih =>
    have hrest : ∀ y ∈ l, p y = true → q y = true := fun y hy => h y (mem_cons_of_mem x hy)
    rw [countP_cons, countP_cons]
    rcases mem_cons.mp ha with rfl | ha
    · have hle := countP_mono_left hrest
      simp only [hq, hp, if_true, Bool.false_eq_true, if_false]
      omega
    · have hlt := ih hrest ha
      by_cases hpx : p x = true
      · rw [if_pos hpx, if_pos (h x mem_cons_self hpx)]
        omega
      · rw [if_neg hpx]
        split <;> omega

theorem findIdx_congr {l : List α} {p q : α → Bool} (h : ∀ x ∈ l, p x = q x) :
    l.findIdx p = l.findIdx q := by
  induction l with
  | nil => rfl
  | cons a l ih => simp only [findIdx_cons, h a mem_cons_self, ih fun x hx => h x (mem_cons_of_mem a hx)]

/-- whether some element has neither `a` nor `b` is decided by the first element without `a`,
when `b` passes from each element to every later one -/
theorem any_not_and_not_eq_findIdx {l : List α} {a b : α → Bool}
    (hb : l.Pairwise fun x y => b x = true → b y = true) :
    l.any (fun x => !a x && !b x) =
      if h : l.findIdx (fun x => !a x) < l.length then !b l[l.findIdx (fun x => !a x)] else false := by
  split
  · rename_i h
    have hfirst : (!a l[l.findIdx (fun x => !a x)]) = true := findIdx_getElem (p := fun x => !a x)
    apply Bool.eq_iff_iff.mpr
    constructor
    · intro hany
      obtain ⟨x, hx, hxab⟩ := any_eq_true.mp hany
      obtain ⟨j, hj, rfl⟩ := getElem_of_mem hx
      simp only [Bool.and_eq_true, Bool.not_eq_true'] at hxab
      -- the witness lies at or past the first element without `a`, where `b` fails too
      have hij : l.findIdx (fun x => !a x) ≤ j := by
        by_contra hlt
        have := not_of_lt_findIdx (Nat.lt_of_not_le hlt)
        simp [hxab.1] at this
      rcases Nat.lt_or_eq_of_le hij with hlt | heq
      · cases hbi : b l[l.findIdx (fun x => !a x)]
        · rfl
        · have := pairwise_iff_getElem.mp hb _ j h hj hlt hbi
          simp [hxab.2] at this
      · simp only [heq, hxab.2, Bool.not_false]
    · intro hnb
      exact any_eq_true.mpr ⟨_, getElem_mem h, by simp_all⟩
  · rename_i h
    -- every element has `a`
    have hall := findIdx_eq_length.mp (Nat.le_antisymm findIdx_le_length (Nat.le_of_not_lt h))
    apply Bool.eq_false_iff.mpr
    intro hany
    obtain ⟨x, hx, hxab⟩ := any_eq_true.mp hany
    have := hall x hx
    simp_all

end Searches

end List
