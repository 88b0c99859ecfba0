import RocksDB.Cache.LRUCache
import RocksDB.Lib.Cursor

/-!
# The LRU list of a shard and its two pools

`lru_` runs from the oldest entry (`lru_.next`) to the newest (`lru_.prev`); `lru_low_pri_` cuts
it into the low-priority pool, up to and including the entry it points at, and the
high-priority pool after it.  What the list keeps between two calls:

* `Pools`    the entries are distinct, `lru_low_pri_` is within the list, the entries of the
             high-priority pool and those alone have the bit `InHighPriPool`, and
             `high_pri_pool_usage_` is the charge of that pool;
* `LRUList`  and `lru_usage_` is the charge of the whole list.

`LRU_Remove` and `LRU_Insert` keep `LRUList` (`LRUList.LRU_Remove`, `LRUList.LRU_Insert`), and
`MaintainPoolSize` keeps `Pools` and brings the high-priority pool within its capacity, in as
many turns as the pool has entries (`Pools.maintainLoop`).  Beside the bit `InHighPriPool` they
leave the handles as they are (`mem_maintainLoop`, `getD_map_LRU_Insert`).
-/

namespace RocksDB

namespace LRUCacheShard

variable {V : Type*} {s : LRUCacheShard V} {e : Nat}

structure Pools (s : LRUCacheShard V) : Prop where
  nodup : s.lru.Nodup
  low_pri_le : s.lru_low_pri_ ≤ s.lru.length
  low_pool : ∀ x ∈ s.lru.take s.lru_low_pri_, s.InHighPriPool x = false
  high_pool : ∀ x ∈ s.lru.drop s.lru_low_pri_, s.InHighPriPool x = true
  high_pri_pool_usage : s.high_pri_pool_usage_ = ((s.lru.drop s.lru_low_pri_).map s.chargeOf).sum

structure LRUList (s : LRUCacheShard V) : Prop extends s.Pools where
  lru_usage : s.lru_usage_ = (s.lru.map s.chargeOf).sum

/-! ## `LRU_Remove` -/

/-- unlinking an entry of the low-priority pool moves `lru_low_pri_` back by one -/
theorem LRUList.LRU_Remove_of_low (h : s.LRUList) (ht : e ∈ s.lru.take s.lru_low_pri_) :
    (s.LRU_Remove e).LRUList := by
  have hn := h.low_pri_le
  have he : e ∈ s.lru := List.mem_of_mem_take ht
  have hidx : s.lru.idxOf e < s.lru_low_pri_ := (List.mem_take_iff_idxOf_lt he).mp ht
  have hsum := List.sum_map_erase s.chargeOf he
  have hflag := h.low_pool e ht
  constructor
  · constructor
    · exact h.nodup.erase e
    · simp only [LRU_Remove, if_pos hidx]
      rw [List.length_erase_of_mem he]
      omega
    · simp only [LRU_Remove, if_pos hidx, InHighPriPool_mk]
      rw [List.take_erase_of_mem_take hn ht]
      exact fun x hx => h.low_pool x (List.mem_of_mem_erase hx)
    · simp only [LRU_Remove, if_pos hidx, InHighPriPool_mk]
      rw [List.drop_erase_of_mem_take hn ht]
      exact h.high_pool
    · simp only [LRU_Remove, if_pos hidx, hflag, chargeOf_mk]
      rw [List.drop_erase_of_mem_take hn ht]
      exact h.high_pri_pool_usage
  · simp only [LRU_Remove, chargeOf_mk]
    rw [h.lru_usage]
    omega

/-- unlinking an entry of the high-priority pool takes its charge off that pool -/
theorem LRUList.LRU_Remove_of_high (h : s.LRUList) (he : e ∈ s.lru)
    (ht : e ∉ s.lru.take s.lru_low_pri_) : (s.LRU_Remove e).LRUList := by
  have hn := h.low_pri_le
  have hidx : ¬ s.lru.idxOf e < s.lru_low_pri_ := mt (List.mem_take_iff_idxOf_lt he).mpr ht
  have hd : e ∈ s.lru.drop s.lru_low_pri_ := by
    rw [← List.take_append_drop s.lru_low_pri_ s.lru, List.mem_append] at he
    exact he.resolve_left ht
  have hsum := List.sum_map_erase s.chargeOf he
  have hsumd := List.sum_map_erase s.chargeOf hd
  have hflag := h.high_pool e hd
  constructor
  · constructor
    · exact h.nodup.erase e
    · simp only [LRU_Remove, if_neg hidx]
      rw [List.length_erase_of_mem he]
      have : s.lru_low_pri_ < s.lru.length := by
        by_contra hc
        rw [List.drop_of_length_le (by omega)] at hd
        exact List.not_mem_nil hd
      omega
    · simp only [LRU_Remove, if_neg hidx, InHighPriPool_mk]
      rw [List.take_erase_of_not_mem_take hn ht]
      exact h.low_pool
    · simp only [LRU_Remove, if_neg hidx, InHighPriPool_mk]
      rw [List.drop_erase_of_not_mem_take hn ht]
      exact fun x hx => h.high_pool x (List.mem_of_mem_erase hx)
    · simp only [LRU_Remove, if_neg hidx, hflag, if_true, chargeOf_mk]
      rw [List.drop_erase_of_not_mem_take hn ht, h.high_pri_pool_usage]
      omega
  · simp only [LRU_Remove, chargeOf_mk]
    rw [h.lru_usage]
    omega

theorem LRUList.LRU_Remove (h : s.LRUList) (he : e ∈ s.lru) : (s.LRU_Remove e).LRUList := by
  by_cases ht : e ∈ s.lru.take s.lru_low_pri_
  · exact h.LRU_Remove_of_low ht
  · exact h.LRU_Remove_of_high he ht

/-! ## `MaintainPoolSize` -/

section Maintain

variable (s) (fuel : Nat)

/-- the handles with the bit `InHighPriPool` cleared: what is left of them but their pool -/
theorem mem_maintainLoop (x : Nat) :
    ((s.maintainLoop fuel).mem x).map (fun d => { d with in_high_pri_pool := false }) =
      (s.mem x).map (fun d => { d with in_high_pri_pool := false }) := by
  induction fuel generalizing s with
  | zero => rfl
  | succ fuel ih =>
    rw [maintainLoop]
    split_ifs
    · rw [ih]
      dsimp only
      rw [mem_modify]
      split_ifs with hx
      · rw [hx, Option.map_map]
        rfl
      · rfl
    · rfl

/-- `MaintainPoolSize` changes the handles, `lru_low_pri_` and `high_pri_pool_usage_` alone -/
theorem maintainLoop_eq : s.maintainLoop fuel = { s with
    mem := (s.maintainLoop fuel).mem
    lru_low_pri_ := (s.maintainLoop fuel).lru_low_pri_
    high_pri_pool_usage_ := (s.maintainLoop fuel).high_pri_pool_usage_ } := by
  induction fuel generalizing s with
  | zero => rfl
  | succ fuel ih =>
    rw [maintainLoop]
    split_ifs
    · exact ih _
    · rfl

variable {fuel s}

/-- a field of the handles that `maintainLoop` does not write -/
theorem getD_map_maintainLoop {α : Type*} {g : HandleData V → α} (dflt : α)
    (hg : ∀ d, g { d with in_high_pri_pool := false } = g d) (x : Nat) :
    (((s.maintainLoop fuel).mem x).map g).getD dflt = ((s.mem x).map g).getD dflt := by
  have h := congrArg (fun o => (o.map g).getD dflt) (mem_maintainLoop s fuel x)
  simpa only [Option.map_map, Function.comp_def, hg] using h

@[simp] theorem chargeOf_maintainLoop : (s.maintainLoop fuel).chargeOf = s.chargeOf :=
  funext (getD_map_maintainLoop 0 fun _ => rfl)
@[simp] theorem refsOf_maintainLoop : (s.maintainLoop fuel).refsOf = s.refsOf :=
  funext (getD_map_maintainLoop 0 fun _ => rfl)
@[simp] theorem InCache_maintainLoop : (s.maintainLoop fuel).InCache = s.InCache :=
  funext (getD_map_maintainLoop false fun _ => rfl)
@[simp] theorem keyOf_maintainLoop : (s.maintainLoop fuel).keyOf = s.keyOf :=
  funext (getD_map_maintainLoop [] fun _ => rfl)
@[simp] theorem hashOf_maintainLoop : (s.maintainLoop fuel).hashOf = s.hashOf :=
  funext (getD_map_maintainLoop 0 fun _ => rfl)
@[simp] theorem isSome_mem_maintainLoop (x : Nat) :
    ((s.maintainLoop fuel).mem x).isSome = (s.mem x).isSome := by
  simpa only [Option.isSome_map] using congrArg Option.isSome (mem_maintainLoop s fuel x)

/-- **One turn** of `MaintainPoolSize`: the oldest entry of the high-priority pool moves to the
low-priority one -/
theorem Pools.maintain_turn (h : s.Pools) (hlt : s.lru_low_pri_ < s.lru.length) :
    ({ s.modify (s.lru.getD s.lru_low_pri_ 0) (fun d => { d with in_high_pri_pool := false }) with
        lru_low_pri_ := s.lru_low_pri_ + 1
        high_pri_pool_usage_ :=
          s.high_pri_pool_usage_ - s.chargeOf (s.lru.getD s.lru_low_pri_ 0) } :
      LRUCacheShard V).Pools := by
  dsimp only
  rw [List.getD_eq_getElem _ _ hlt]
  set y := s.lru[s.lru_low_pri_]
  -- the pool after the pointer starts with `y`, the one before it ends with `y`
  have hdrop : s.lru.drop s.lru_low_pri_ = y :: s.lru.drop (s.lru_low_pri_ + 1) :=
    List.drop_eq_getElem_cons hlt
  have htake : s.lru.take (s.lru_low_pri_ + 1) = s.lru.take s.lru_low_pri_ ++ [y] := by
    rw [List.take_add_one, List.getElem?_eq_getElem hlt, Option.toList_some]
  have hsplit := List.take_append_drop s.lru_low_pri_ s.lru
  rw [hdrop] at hsplit
  have hnd := h.nodup
  rw [← hsplit, List.nodup_append, List.nodup_cons] at hnd
  have hy_take : y ∉ s.lru.take s.lru_low_pri_ := fun hy => hnd.2.2 y hy y (by simp) rfl
  have hy_drop : y ∉ s.lru.drop (s.lru_low_pri_ + 1) := hnd.2.1.1
  have hu := h.high_pri_pool_usage
  rw [hdrop, List.map_cons, List.sum_cons] at hu
  constructor
  · exact h.nodup
  · simp only [lru_modify]
    omega
  · intro x hx
    simp only [lru_modify] at hx
    rw [htake, List.mem_append, List.mem_singleton] at hx
    rcases hx with hx | rfl
    · rw [InHighPriPool_mk, InHighPriPool_modify_of_ne (ne_of_mem_of_not_mem hx hy_take)]
      exact h.low_pool x hx
    · rw [InHighPriPool_mk, InHighPriPool_modify_self, Bool.false_and]
  · intro x hx
    simp only [lru_modify] at hx
    rw [InHighPriPool_mk, InHighPriPool_modify_of_ne (ne_of_mem_of_not_mem hx hy_drop)]
    exact h.high_pool x (hdrop ▸ List.mem_cons_of_mem y hx)
  · simp only [lru_modify, chargeOf_mk, chargeOf_modify_pool]
    omega

/-- **`MaintainPoolSize`** keeps the pools and brings the high-priority pool within its
capacity, given turns enough for every entry after the pointer -/
theorem Pools.maintainLoop (h : s.Pools) (hcap : 0 ≤ s.high_pri_pool_capacity_)
    (hfuel : s.lru.length - s.lru_low_pri_ ≤ fuel) :
    (s.maintainLoop fuel).Pools ∧
      ((s.maintainLoop fuel).high_pri_pool_usage_ : ℚ) ≤ s.high_pri_pool_capacity_ := by
  induction fuel generalizing s with
  | zero =>
    -- no entry after the pointer: the pool is empty
    have hL : s.lru.length ≤ s.lru_low_pri_ := by omega
    refine ⟨h, ?_⟩
    rw [LRUCacheShard.maintainLoop, h.high_pri_pool_usage, List.drop_of_length_le hL]
    simpa using hcap
  | succ fuel ih =>
    rw [LRUCacheShard.maintainLoop]
    split_ifs with hgt
    · -- over capacity, so the pool is not empty
      have hlt : s.lru_low_pri_ < s.lru.length := by
        by_contra hc
        rw [h.high_pri_pool_usage, List.drop_of_length_le (by omega)] at hgt
        simp only [List.map_nil, List.sum_nil, Nat.cast_zero, gt_iff_lt] at hgt
        exact absurd hcap (not_le.mpr hgt)
      exact ih (h.maintain_turn hlt) hcap (by simp only [lru_modify]; omega)
    · exact ⟨h, not_lt.mp hgt⟩

theorem LRUList.MaintainPoolSize (h : s.LRUList) (hcap : 0 ≤ s.high_pri_pool_capacity_) :
    s.MaintainPoolSize.LRUList ∧
      (s.MaintainPoolSize.high_pri_pool_usage_ : ℚ) ≤ s.high_pri_pool_capacity_ := by
  obtain ⟨hp, hle⟩ := h.toPools.maintainLoop hcap le_rfl
  refine ⟨⟨hp, ?_⟩, hle⟩
  rw [LRUCacheShard.MaintainPoolSize, maintainLoop_eq]
  simpa using h.lru_usage

end Maintain

/-! ## `LRU_Insert` -/

section Insert

variable (s) (e)

/-- a field of the handles that `LRU_Insert` does not write -/
theorem getD_map_LRU_Insert {α : Type*} {g : HandleData V → α} (dflt : α)
    (hg : ∀ d b, g { d with in_high_pri_pool := b } = g d) (x : Nat) :
    (((s.LRU_Insert e).mem x).map g).getD dflt = ((s.mem x).map g).getD dflt := by
  unfold LRU_Insert MaintainPoolSize
  split_ifs
  · dsimp only
    rw [getD_map_maintainLoop dflt (fun d => hg d false)]
    exact getD_map_modify g dflt (fun d => hg d true) x
  · exact getD_map_modify g dflt (fun d => hg d false) x

@[simp] theorem chargeOf_LRU_Insert : (s.LRU_Insert e).chargeOf = s.chargeOf :=
  funext (getD_map_LRU_Insert s e 0 fun _ _ => rfl)
@[simp] theorem refsOf_LRU_Insert : (s.LRU_Insert e).refsOf = s.refsOf :=
  funext (getD_map_LRU_Insert s e 0 fun _ _ => rfl)
@[simp] theorem InCache_LRU_Insert : (s.LRU_Insert e).InCache = s.InCache :=
  funext (getD_map_LRU_Insert s e false fun _ _ => rfl)
@[simp] theorem keyOf_LRU_Insert : (s.LRU_Insert e).keyOf = s.keyOf :=
  funext (getD_map_LRU_Insert s e [] fun _ _ => rfl)
@[simp] theorem hashOf_LRU_Insert : (s.LRU_Insert e).hashOf = s.hashOf :=
  funext (getD_map_LRU_Insert s e 0 fun _ _ => rfl)
@[simp] theorem isSome_mem_LRU_Insert (x : Nat) :
    ((s.LRU_Insert e).mem x).isSome = (s.mem x).isSome := by
  have h := getD_map_LRU_Insert s e (g := fun _ => true) false (fun _ _ => rfl) x
  cases h1 : (s.LRU_Insert e).mem x <;> cases h2 : s.mem x <;> simp_all

variable {s e}

/-- `LRU_Insert` into the high-priority pool: the entry appended, before `MaintainPoolSize` -/
theorem Pools.append_high (h : s.LRUList) (he : e ∉ s.lru) (hlive : (s.mem e).isSome) :
    ({ s.modify e (fun d => { d with in_high_pri_pool := true }) with
        lru := s.lru ++ [e]
        high_pri_pool_usage_ := s.high_pri_pool_usage_ + s.chargeOf e } :
      LRUCacheShard V).Pools := by
  have hn := h.low_pri_le
  constructor
  · exact (List.perm_append_singleton e s.lru).nodup_iff.mpr
      (List.nodup_cons.mpr ⟨he, h.nodup⟩)
  · simp only [lru_low_pri_modify, List.length_append, List.length_singleton]
    omega
  · intro x hx
    simp only [lru_low_pri_modify, List.take_append_of_le_length hn] at hx
    rw [InHighPriPool_mk,
      InHighPriPool_modify_of_ne (ne_of_mem_of_not_mem (List.mem_of_mem_take hx) he)]
    exact h.low_pool x hx
  · intro x hx
    simp only [lru_low_pri_modify, List.drop_append_of_le_length hn, List.mem_append,
      List.mem_singleton] at hx
    rcases hx with hx | rfl
    · rw [InHighPriPool_mk,
        InHighPriPool_modify_of_ne (ne_of_mem_of_not_mem (List.mem_of_mem_drop hx) he)]
      exact h.high_pool x hx
    · rw [InHighPriPool_mk, InHighPriPool_modify_self, hlive, Bool.true_and]
  · simp only [lru_low_pri_modify, chargeOf_mk, chargeOf_modify_pool,
      List.drop_append_of_le_length hn, List.map_append, List.sum_append, List.map_singleton,
      List.sum_singleton]
    rw [h.high_pri_pool_usage]

/-- `LRU_Insert` into the low-priority pool: the entry right after `lru_low_pri_`, which then
points at it -/
theorem LRUList.insert_low (h : s.LRUList) (he : e ∉ s.lru) :
    ({ s.modify e (fun d => { d with in_high_pri_pool := false }) with
        lru := s.lru.insertIdx s.lru_low_pri_ e
        lru_low_pri_ := s.lru_low_pri_ + 1
        lru_usage_ := s.lru_usage_ + s.chargeOf e } : LRUCacheShard V).LRUList := by
  have hn := h.low_pri_le
  have hperm := List.perm_insertIdx e s.lru hn
  constructor
  · constructor
    · exact hperm.nodup_iff.mpr (List.nodup_cons.mpr ⟨he, h.nodup⟩)
    · simp only [List.length_insertIdx_of_le_length hn]
      omega
    · intro x hx
      simp only [List.take_insertIdx_succ hn, List.mem_append, List.mem_singleton] at hx
      rcases hx with hx | rfl
      · rw [InHighPriPool_mk,
          InHighPriPool_modify_of_ne (ne_of_mem_of_not_mem (List.mem_of_mem_take hx) he)]
        exact h.low_pool x hx
      · rw [InHighPriPool_mk, InHighPriPool_modify_self, Bool.false_and]
    · intro x hx
      simp only [List.drop_insertIdx_succ hn] at hx
      rw [InHighPriPool_mk,
        InHighPriPool_modify_of_ne (ne_of_mem_of_not_mem (List.mem_of_mem_drop hx) he)]
      exact h.high_pool x hx
    · simp only [high_pri_pool_usage_modify, chargeOf_mk, chargeOf_modify_pool,
        List.drop_insertIdx_succ hn]
      exact h.high_pri_pool_usage
  · simp only [chargeOf_mk, chargeOf_modify_pool]
    rw [(hperm.map s.chargeOf).sum_eq, List.map_cons, List.sum_cons, h.lru_usage]
    omega

/-- **`LRU_Insert`** of a handle off the list keeps the list, with the handle on it -/
theorem LRUList.LRU_Insert (h : s.LRUList) (hcap : 0 ≤ s.high_pri_pool_capacity_)
    (he : e ∉ s.lru) (hlive : (s.mem e).isSome) :
    (s.LRU_Insert e).LRUList ∧ (s.LRU_Insert e).lru.Perm (e :: s.lru) := by
  unfold LRUCacheShard.LRU_Insert
  split_ifs
  · -- appended, then the pool brought within its capacity
    have h₁ := Pools.append_high h he hlive
    obtain ⟨⟨hnd, hle, hlow, hhigh, husage⟩, -⟩ :=
      h₁.maintainLoop (by simpa using hcap) le_rfl
    -- the pools are those `MaintainPoolSize` leaves; `lru_usage_` is written after it
    refine ⟨⟨⟨hnd, hle, hlow, hhigh, husage⟩, ?_⟩, ?_⟩
    · rw [LRUCacheShard.MaintainPoolSize, maintainLoop_eq]
      simp only [chargeOf_mk, chargeOf_maintainLoop, chargeOf_modify_pool, List.map_append,
        List.sum_append, List.map_singleton, List.sum_singleton, lru_usage_modify]
      rw [h.lru_usage]
    · rw [LRUCacheShard.MaintainPoolSize, maintainLoop_eq]
      exact List.perm_append_singleton e s.lru
  · exact ⟨h.insert_low he, List.perm_insertIdx e s.lru h.low_pri_le⟩

end Insert

end LRUCacheShard

end RocksDB
