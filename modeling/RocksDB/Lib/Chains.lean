import Mathlib.Data.List.Perm.Basic
import Mathlib.Data.List.Nodup

/-!
# Finite maps, and the buckets of chains that store them

A finite map is kept as a list of elements with distinct keys (`key : α → κ`), up to the
order of the list.

* `MapOp`               its operations: `insert`, `erase`, `lookup`;
* `MapOp.run`           the map a history of them leaves;
* `MapOp.latest k ops`  the element most recently inserted under `k` and not erased since,
                        which the map answers with (`find_run`).

A separately chained hash table stores such a map in buckets: the `i`-th bucket is a chain
holding the elements whose key `idx` sends to `i` (`Placed`).

* `find_bucket`         a key looked up in its own bucket is looked up in the whole table;
* `flatten_set_perm`    a bucket changed for one key changes the whole table the same way;
* `flatten_rehash_perm` `rehash` (every element of every chain pushed on the front of its
                        bucket in a new table) keeps every element, once.
-/

namespace Chains

variable {α κ : Type*} [DecidableEq κ] (key : α → κ)

/-- the element stored under `k` -/
def find (k : κ) (m : List α) : Option α := m.find? fun a => key a = k

/-- the operations on a finite map -/
inductive MapOp (α κ : Type*) where
  | insert (a : α)
  | erase (k : κ)
  | lookup (k : κ)

namespace MapOp

/-- the key an operation is about -/
def keyOf : MapOp α κ → κ
  | insert a => key a
  | erase k => k
  | lookup k => k

/-- the map after one operation: an insert replaces what was stored under its key -/
def step (m : List α) : MapOp α κ → List α
  | insert a => m.filter (fun b => key b ≠ key a) ++ [a]
  | erase k => m.filter (fun b => key b ≠ k)
  | lookup _ => m

/-- the map a history leaves, from `m` -/
def run (m : List α) (ops : List (MapOp α κ)) : List α := ops.foldl (step key) m

/-- what is stored under `k` after one operation, `o` before it -/
def sees (k : κ) (o : Option α) : MapOp α κ → Option α
  | insert a => if key a = k then some a else o
  | erase k' => if k' = k then none else o
  | lookup _ => o

/-- the element most recently inserted under `k` and not erased since -/
def latest (k : κ) (ops : List (MapOp α κ)) : Option α := ops.foldl (sees key k) none

variable {key}

theorem find_filter_ne {m : List α} {k k' : κ} (h : k' ≠ k) :
    find key k (m.filter fun b => key b ≠ k') = find key k m := by
  unfold find
  rw [List.find?_filter]
  congr 1
  funext b
  by_cases hb : key b = k
  · simp [hb, Ne.symm h]
  · simp [hb]

theorem find_filter_self {m : List α} {k : κ} :
    find key k (m.filter fun b => key b ≠ k) = none := by
  unfold find
  rw [List.find?_filter, List.find?_eq_none]
  intro b _
  simp

/-- one operation, read at one key -/
theorem find_step (m : List α) (k : κ) (op : MapOp α κ) :
    find key k (step key m op) = sees key k (find key k m) op := by
  cases op with
  | insert a =>
    simp only [step, sees]
    rw [find, List.find?_append]
    by_cases ha : key a = k
    · subst ha
      rw [← find, find_filter_self]
      simp
    · rw [← find, find_filter_ne ha]
      simp [find, ha]
  | erase k' =>
    simp only [step, sees]
    by_cases hk : k' = k
    · subst hk
      rw [find_filter_self, if_pos rfl]
    · rw [find_filter_ne hk, if_neg hk]
  | lookup _ => rfl

/-- **The map answers with the latest insert.**  A history read at one key, by induction on the
history from `find_step` -/
theorem find_run (m : List α) (k : κ) (ops : List (MapOp α κ)) :
    find key k (run key m ops) = ops.foldl (sees key k) (find key k m) := by
  induction ops generalizing m with
  | nil => rfl
  | cons op ops ih =>
    rw [run, List.foldl_cons, ← run, ih, find_step]
    rfl

theorem find_run_nil (k : κ) (ops : List (MapOp α κ)) :
    find key k (run key [] ops) = latest key k ops :=
  find_run [] k ops

/-- one operation keeps the keys distinct -/
theorem nodup_step {m : List α} (h : (m.map key).Nodup) (op : MapOp α κ) :
    ((step key m op).map key).Nodup := by
  have hf : ∀ k, ((m.filter fun b => key b ≠ k).map key).Nodup := fun k =>
    h.sublist (List.filter_sublist.map key)
  cases op with
  | insert a =>
    rw [step, List.map_append, List.nodup_append]
    refine ⟨hf (key a), List.nodup_singleton _, ?_⟩
    intro x hx y hy
    obtain ⟨b, hb, rfl⟩ := List.mem_map.mp hx
    rw [List.map_singleton, List.mem_singleton] at hy
    subst hy
    simpa using (List.mem_filter.mp hb).2
  | erase k => exact hf k
  | lookup _ => exact h

theorem nodup_run {m : List α} (h : (m.map key).Nodup) (ops : List (MapOp α κ)) :
    ((run key m ops).map key).Nodup := by
  induction ops generalizing m with
  | nil => exact h
  | cons op ops ih => exact ih (nodup_step h op)

/-- inserting elements under keys not yet stored appends them -/
theorem run_insert_fresh {m l : List α} (h : ((m ++ l).map key).Nodup) :
    run key m (l.map insert) = m ++ l := by
  induction l generalizing m with
  | nil => simp [run]
  | cons a l ih =>
    -- no element of `m` has the key of `a`
    have hm : m.filter (fun b => key b ≠ key a) = m := List.filter_eq_self.mpr fun b hb => by
      have hnd := List.nodup_middle.mp (by simpa using h)
      rw [List.nodup_cons] at hnd
      simp only [ne_eq, decide_eq_true_eq]
      intro hba
      exact hnd.1 (hba ▸ List.mem_append_left _ (List.mem_map_of_mem hb))
    have hrest := ih (m := m ++ [a]) (by simpa using h)
    rw [List.map_cons, run, List.foldl_cons, ← run, step, hm, hrest, List.append_assoc,
      List.singleton_append]

/-- the same map kept in another order goes on the same way -/
theorem step_perm {m m' : List α} (h : m.Perm m') (op : MapOp α κ) :
    (step key m op).Perm (step key m' op) := by
  cases op with
  | insert a => exact (h.filter _).append_right [a]
  | erase k => exact h.filter _
  | lookup _ => exact h

theorem run_perm {m m' : List α} (h : m.Perm m') (ops : List (MapOp α κ)) :
    (run key m ops).Perm (run key m' ops) := by
  induction ops generalizing m m' with
  | nil => exact h
  | cons op ops ih => exact ih (step_perm h op)

end MapOp

/-! ## Looking up a map kept in another order -/

variable {key}

/-- with distinct keys, the element stored under `k` is the one of the map with key `k` -/
theorem find_eq_some_iff {m : List α} (h : (m.map key).Nodup) {k : κ} {a : α} :
    find key k m = some a ↔ a ∈ m ∧ key a = k := by
  constructor
  · intro hf
    exact ⟨List.mem_of_find?_eq_some hf, by simpa using List.find?_some hf⟩
  · rintro ⟨ha, rfl⟩
    cases hf : find key (key a) m with
    | none =>
      rw [find, List.find?_eq_none] at hf
      exact absurd (by simp) (hf a ha)
    | some b =>
      have hb := List.find?_some hf
      simp only [decide_eq_true_eq] at hb
      rw [List.inj_on_of_nodup_map h (List.mem_of_find?_eq_some hf) ha hb]

/-- where nothing is stored under `k`, no element has the key `k` -/
theorem filter_of_find_eq_none {m : List α} {k : κ} (h : find key k m = none) :
    m.filter (fun a => key a ≠ k) = m :=
  List.filter_eq_self.mpr fun a ha => by
    rw [find, List.find?_eq_none] at h
    simpa using h a ha

/-- the same map kept in another order answers the same -/
theorem find_perm {m m' : List α} (hp : m.Perm m') (h : (m.map key).Nodup) (k : κ) :
    find key k m = find key k m' := by
  have h' : (m'.map key).Nodup := (hp.map key).nodup_iff.mp h
  apply Option.ext
  intro a
  rw [find_eq_some_iff h, find_eq_some_iff h', hp.mem_iff]

/-! ## Buckets -/

variable (key) in
/-- every element of the `i`-th bucket has a key that `idx` sends to `i` -/
def Placed (idx : κ → Nat) (bs : List (List α)) : Prop :=
  ∀ i, ∀ a ∈ bs.getD i [], idx (key a) = i

variable {idx : κ → Nat} {bs : List (List α)} {i : Nat}

theorem flatten_eq_split (hi : i < bs.length) :
    bs.flatten = (bs.take i).flatten ++ bs[i] ++ (bs.drop (i + 1)).flatten := by
  have h : bs = bs.take i ++ bs[i] :: bs.drop (i + 1) := by simp
  conv_lhs => rw [h]
  rw [List.flatten_append, List.flatten_cons, List.append_assoc]

theorem flatten_set (hi : i < bs.length) (c : List α) :
    (bs.set i c).flatten = (bs.take i).flatten ++ c ++ (bs.drop (i + 1)).flatten := by
  rw [List.set_eq_take_append_cons_drop, if_pos hi]
  simp

omit [DecidableEq κ] in
theorem length_flatten_set (hi : i < bs.length) (c : List α) :
    (bs.set i c).flatten.length + bs[i].length = bs.flatten.length + c.length := by
  rw [flatten_set hi, flatten_eq_split hi]
  simp only [List.length_append]
  omega

omit [DecidableEq κ] in
theorem getD_sublist_flatten (bs : List (List α)) (i : Nat) : (bs.getD i []).Sublist bs.flatten := by
  rw [List.getD_eq_getElem?_getD]
  cases h : bs[i]? with
  | none => exact List.nil_sublist _
  | some c => exact List.sublist_flatten_of_mem (List.mem_of_getElem? h)

namespace Placed

variable (hp : Placed key idx bs)
include hp

omit [DecidableEq κ] in
theorem of_mem {j : Nat} {a : α} (ha : a ∈ bs.getD j []) : idx (key a) = j := hp j a ha

omit [DecidableEq κ] in
/-- the elements before the `i`-th bucket belong to earlier buckets -/
theorem lt_of_mem_take {a : α} (ha : a ∈ (bs.take i).flatten) : idx (key a) < i := by
  obtain ⟨c, hc, hac⟩ := List.mem_flatten.mp ha
  obtain ⟨j, hj⟩ := List.mem_iff_getElem?.mp hc
  have hji : j < i := by
    by_contra hn
    rw [List.getElem?_take, if_neg hn] at hj
    cases hj
  rw [List.getElem?_take, if_pos hji] at hj
  rw [hp.of_mem (j := j) (by simp [List.getD_eq_getElem?_getD, hj, hac])]
  exact hji

omit [DecidableEq κ] in
/-- the elements after the `i`-th bucket belong to later buckets -/
theorem lt_of_mem_drop {a : α} (ha : a ∈ (bs.drop (i + 1)).flatten) : i < idx (key a) := by
  obtain ⟨c, hc, hac⟩ := List.mem_flatten.mp ha
  obtain ⟨j, hj⟩ := List.mem_iff_getElem?.mp hc
  rw [List.getElem?_drop] at hj
  rw [hp.of_mem (j := i + 1 + j) (by simp [List.getD_eq_getElem?_getD, hj, hac])]
  omega

/-- a key is looked up in its own bucket -/
theorem find_bucket (k : κ) : find key k (bs.getD (idx k) []) = find key k bs.flatten := by
  by_cases hi : idx k < bs.length
  · -- no other bucket holds the key
    have hA : find key k (bs.take (idx k)).flatten = none := by
      rw [find, List.find?_eq_none]
      intro a ha hak
      have := hp.lt_of_mem_take ha
      simp only [decide_eq_true_eq] at hak
      rw [hak] at this
      exact Nat.lt_irrefl _ this
    have hC : find key k (bs.drop (idx k + 1)).flatten = none := by
      rw [find, List.find?_eq_none]
      intro a ha hak
      have := hp.lt_of_mem_drop ha
      simp only [decide_eq_true_eq] at hak
      rw [hak] at this
      exact Nat.lt_irrefl _ this
    unfold find at hA hC ⊢
    rw [flatten_eq_split hi, List.find?_append, List.find?_append, hA, hC,
      List.getD_eq_getElem?_getD, List.getElem?_eq_getElem hi]
    simp
  · -- past the last bucket: no element at all has the key
    rw [List.getD_eq_getElem?_getD, List.getElem?_eq_none (by omega), Option.getD_none]
    symm
    unfold find
    rw [List.find?_nil, List.find?_eq_none]
    intro a ha hak
    obtain ⟨c, hc, hac⟩ := List.mem_flatten.mp ha
    obtain ⟨j, hj⟩ := List.mem_iff_getElem?.mp hc
    have hjl : j < bs.length := (List.getElem?_eq_some_iff.mp hj).1
    have := hp.of_mem (j := j) (a := a) (by simp [List.getD_eq_getElem?_getD, hj, hac])
    simp only [decide_eq_true_eq] at hak
    rw [hak] at this
    omega

/-- **One bucket changed for one key.**  When the new chain holds what the old one held under
other keys and `e` besides, the whole table does too -/
theorem flatten_set_perm {k : κ} (hi : idx k < bs.length) {c e : List α}
    (hc : c.Perm ((bs.getD (idx k) []).filter (fun a => key a ≠ k) ++ e)) :
    (bs.set (idx k) c).flatten.Perm (bs.flatten.filter (fun a => key a ≠ k) ++ e) := by
  -- the buckets before and after hold no element with the key
  have hA : (bs.take (idx k)).flatten.filter (fun a => key a ≠ k) = (bs.take (idx k)).flatten :=
    List.filter_eq_self.mpr fun a ha => by
      have := hp.lt_of_mem_take ha
      simp only [ne_eq, decide_eq_true_eq]
      rintro rfl
      exact Nat.lt_irrefl _ this
  have hC : (bs.drop (idx k + 1)).flatten.filter (fun a => key a ≠ k) =
      (bs.drop (idx k + 1)).flatten :=
    List.filter_eq_self.mpr fun a ha => by
      have := hp.lt_of_mem_drop ha
      simp only [ne_eq, decide_eq_true_eq]
      rintro rfl
      exact Nat.lt_irrefl _ this
  rw [List.getD_eq_getElem?_getD, List.getElem?_eq_getElem hi, Option.getD_some] at hc
  rw [flatten_set hi, flatten_eq_split hi, List.filter_append, List.filter_append, hA, hC]
  calc (bs.take (idx k)).flatten ++ c ++ (bs.drop (idx k + 1)).flatten
      _ |>.Perm ((bs.take (idx k)).flatten ++ (bs[idx k].filter (fun a => key a ≠ k) ++ e) ++
          (bs.drop (idx k + 1)).flatten) := (hc.append_left _).append_right _
      _ |>.Perm ((bs.take (idx k)).flatten ++ bs[idx k].filter (fun a => key a ≠ k) ++
          (bs.drop (idx k + 1)).flatten ++ e) := by
        simp only [List.append_assoc]
        exact List.Perm.append_left _ (List.Perm.append_left _ List.perm_append_comm)

end Placed

omit [DecidableEq κ] in
/-- a chain placed in its own bucket keeps the table placed -/
theorem Placed.set (hp : Placed key idx bs) {c : List α} (hc : ∀ a ∈ c, idx (key a) = i) :
    Placed key idx (bs.set i c) := by
  intro j a ha
  rw [List.getD_eq_getElem?_getD, List.getElem?_set] at ha
  split at ha
  · rename_i hij
    subst hij
    split at ha
    · exact hc a ha
    · simp at ha
  · exact hp j a (by rwa [List.getD_eq_getElem?_getD])

omit [DecidableEq κ] in
theorem placed_replicate (n : Nat) : Placed key idx (List.replicate n ([] : List α)) := by
  intro j a ha
  rw [List.getD_eq_getElem?_getD, List.getElem?_replicate] at ha
  split at ha <;> simp at ha

/-! ## The chain of one bucket, at the position of a key -/

section Chain

variable {ch : List α} {k : κ}

/-- the elements before the first one with key `k` have other keys -/
theorem key_ne_of_mem_take {a : α} (ha : a ∈ ch.take (ch.findIdx fun b => key b = k)) : key a ≠ k := by
  obtain ⟨j, hj, rfl⟩ := List.mem_take_iff_getElem.mp ha
  have := @List.not_of_lt_findIdx _ (fun b => decide (key b = k)) ch j (by omega)
  simpa using this

/-- with distinct keys, the elements after the one with key `k` have other keys -/
theorem key_ne_of_mem_drop (h : (ch.map key).Nodup) (hj : ch.findIdx (fun b => key b = k) < ch.length)
    {a : α} (ha : a ∈ ch.drop (ch.findIdx (fun b => key b = k) + 1)) : key a ≠ k := by
  intro hak
  have hk : key ch[ch.findIdx (fun b => key b = k)] = k := by
    simpa using List.findIdx_getElem (w := hj)
  have hsplit := List.drop_eq_getElem_cons hj
  have hnd := (List.take_append_drop (ch.findIdx fun b => key b = k) ch).symm ▸ h
  rw [hsplit, List.map_append, List.map_cons, List.nodup_append, List.nodup_cons] at hnd
  exact hnd.2.1.1 (List.mem_map.mpr ⟨a, ha, hak.trans hk.symm⟩)

/-- the chain with the element for key `k` replaced by `a` -/
theorem set_findIdx_perm (h : (ch.map key).Nodup) (hj : ch.findIdx (fun b => key b = k) < ch.length)
    (a : α) :
    (ch.set (ch.findIdx fun b => key b = k) a).Perm (ch.filter (fun b => key b ≠ k) ++ [a]) := by
  have hk : key ch[ch.findIdx (fun b => key b = k)] = k := by
    simpa using List.findIdx_getElem (w := hj)
  -- `ch` is the elements before, the one with the key, and the elements after
  have hsplit : ch = ch.take (ch.findIdx fun b => key b = k) ++ ch[ch.findIdx (fun b => key b = k)] ::
      ch.drop (ch.findIdx (fun b => key b = k) + 1) := by
    simp
  have hfilter : ch.filter (fun b => key b ≠ k) =
      ch.take (ch.findIdx fun b => key b = k) ++ ch.drop (ch.findIdx (fun b => key b = k) + 1) := by
    conv_lhs => rw [hsplit]
    rw [List.filter_append, List.filter_cons_of_neg (by simpa using hk),
      List.filter_eq_self.mpr fun b hb => by simpa using key_ne_of_mem_take hb,
      List.filter_eq_self.mpr fun b hb => by simpa using key_ne_of_mem_drop h hj hb]
  rw [List.set_eq_take_append_cons_drop, if_pos hj, hfilter, List.append_assoc]
  exact List.Perm.append_left _ (List.perm_append_singleton _ _).symm

/-- the chain without the element for key `k` -/
theorem eraseIdx_findIdx (h : (ch.map key).Nodup) (hj : ch.findIdx (fun b => key b = k) < ch.length) :
    ch.eraseIdx (ch.findIdx fun b => key b = k) = ch.filter (fun b => key b ≠ k) := by
  have hk : key ch[ch.findIdx (fun b => key b = k)] = k := by
    simpa using List.findIdx_getElem (w := hj)
  conv_rhs => rw [← List.take_append_drop (ch.findIdx fun b => key b = k) ch,
    List.drop_eq_getElem_cons hj]
  rw [List.eraseIdx_eq_take_drop_succ, List.filter_append, List.filter_cons_of_neg (by simpa using hk),
    List.filter_eq_self.mpr fun b hb => by simpa using key_ne_of_mem_take hb,
    List.filter_eq_self.mpr fun b hb => by simpa using key_ne_of_mem_drop h hj hb]

/-- a chain with no element for key `k` is all of its elements with other keys -/
theorem filter_of_findIdx_eq_length (hj : ch.findIdx (fun b => key b = k) = ch.length) :
    ch.filter (fun b => key b ≠ k) = ch :=
  List.filter_eq_self.mpr fun b hb => by
    have : b ∈ ch.take (ch.findIdx fun b => key b = k) := by rw [hj, List.take_length]; exact hb
    simpa using key_ne_of_mem_take this

end Chain

/-! ## Rehashing -/

variable (key) in
/-- every element of every chain of `bs`, in order, pushed on the front of its bucket in `nl` -/
def rehash (idx : κ → Nat) (nl bs : List (List α)) : List (List α) :=
  bs.foldl (fun nl c => c.foldl (fun nl a => nl.modify (idx (key a)) (a :: ·)) nl) nl

omit [DecidableEq κ] in
theorem flatten_modify_cons {nl : List (List α)} {a : α} (hi : i < nl.length) :
    (nl.modify i (a :: ·)).flatten.Perm (a :: nl.flatten) := by
  rw [List.modify_eq_set_getElem?, List.getElem?_eq_getElem hi]
  simp only [Option.map_eq_map, Option.map_some, Option.getD_some]
  rw [flatten_set hi, flatten_eq_split hi, List.append_assoc, List.cons_append, List.append_assoc]
  exact List.perm_middle

omit [DecidableEq κ] in
theorem Placed.modify_cons {nl : List (List α)} (hp : Placed key idx nl) (a : α) :
    Placed key idx (nl.modify (idx (key a)) (a :: ·)) := by
  rw [List.modify_eq_set_getElem?]
  cases h : nl[idx (key a)]? with
  | none => exact hp
  | some c =>
    refine hp.set fun b hb => ?_
    rcases List.mem_cons.mp hb with rfl | hb
    · rfl
    · exact hp.of_mem (by simp [List.getD_eq_getElem?_getD, h, hb])

variable (key) in
/-- one chain's elements, in order, each pushed on the front of its bucket -/
def pushChain (idx : κ → Nat) (nl : List (List α)) (c : List α) : List (List α) :=
  c.foldl (fun nl a => nl.modify (idx (key a)) (a :: ·)) nl

omit [DecidableEq κ] in
theorem rehash_cons (nl : List (List α)) (c : List α) (bs : List (List α)) :
    rehash key idx nl (c :: bs) = rehash key idx (pushChain key idx nl c) bs := rfl

omit [DecidableEq κ] in
theorem length_pushChain (nl : List (List α)) (c : List α) :
    (pushChain key idx nl c).length = nl.length := by
  induction c generalizing nl with
  | nil => rfl
  | cons a c ih => rw [pushChain, List.foldl_cons, ← pushChain, ih, List.length_modify]

omit [DecidableEq κ] in
theorem length_rehash (nl bs : List (List α)) : (rehash key idx nl bs).length = nl.length := by
  induction bs generalizing nl with
  | nil => rfl
  | cons c bs ih => rw [rehash_cons, ih, length_pushChain]

omit [DecidableEq κ] in
/-- pushing a chain keeps each of its elements once, when each has a bucket -/
theorem flatten_pushChain_perm {nl : List (List α)} {c : List α}
    (h : ∀ a ∈ c, idx (key a) < nl.length) :
    (pushChain key idx nl c).flatten.Perm (c ++ nl.flatten) := by
  induction c generalizing nl with
  | nil => exact List.Perm.rfl
  | cons a c ih =>
    have hlen := List.length_modify (a :: ·) nl (idx (key a))
    have hrest : (pushChain key idx (nl.modify (idx (key a)) (a :: ·)) c).flatten.Perm
        (c ++ (nl.modify (idx (key a)) (a :: ·)).flatten) :=
      ih fun b hb => hlen ▸ h b (List.mem_cons_of_mem a hb)
    rw [pushChain, List.foldl_cons, ← pushChain]
    exact hrest.trans (((flatten_modify_cons (h a List.mem_cons_self)).append_left c).trans
      List.perm_middle)

omit [DecidableEq κ] in
/-- **Rehashing keeps every element once**, when every element has a bucket in the new table -/
theorem flatten_rehash_perm {nl : List (List α)} (h : ∀ a ∈ bs.flatten, idx (key a) < nl.length) :
    (rehash key idx nl bs).flatten.Perm (bs.flatten ++ nl.flatten) := by
  induction bs generalizing nl with
  | nil => exact List.Perm.rfl
  | cons c bs ih =>
    -- the first chain, then the rest into the table it leaves
    have hc : (pushChain key idx nl c).flatten.Perm (c ++ nl.flatten) :=
      flatten_pushChain_perm fun a ha => h a (List.mem_flatten.mpr ⟨c, List.mem_cons_self, ha⟩)
    have hlen : (pushChain key idx nl c).length = nl.length := length_pushChain nl c
    have hrest : (rehash key idx (pushChain key idx nl c) bs).flatten.Perm
        (bs.flatten ++ (pushChain key idx nl c).flatten) :=
      ih fun a ha => hlen ▸ h a (by rw [List.flatten_cons]; exact List.mem_append_right c ha)
    rw [rehash_cons, List.flatten_cons, List.append_assoc]
    refine hrest.trans ((hc.append_left _).trans ?_)
    rw [← List.append_assoc, ← List.append_assoc]
    exact List.perm_append_comm.append_right _

omit [DecidableEq κ] in
theorem Placed.pushChain {nl : List (List α)} (hp : Placed key idx nl) (c : List α) :
    Placed key idx (Chains.pushChain key idx nl c) := by
  induction c generalizing nl with
  | nil => exact hp
  | cons a c ih => exact ih (hp.modify_cons a)

omit [DecidableEq κ] in
/-- rehashing into a placed table leaves it placed -/
theorem Placed.rehash {nl : List (List α)} (hp : Placed key idx nl) (bs : List (List α)) :
    Placed key idx (Chains.rehash key idx nl bs) := by
  induction bs generalizing nl with
  | nil => exact hp
  | cons c bs ih => exact ih (hp.pushChain c)

end Chains
