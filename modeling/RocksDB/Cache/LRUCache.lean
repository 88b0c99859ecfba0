import RocksDB.Cache.LRUHandleTable
import RocksDB.Util.Status

/-!
# cache/lru_cache.cc: a shard of the LRU cache

`LRUCacheShard` keeps its entries as `LRUHandle`s on the heap.  The handle table finds an entry
by key and hash; an entry in the cache that no client references also sits on the LRU list, a
circular list through `lru_` whose oldest entry (`lru_.next`) is evicted first.  The newest part of
the list is the high-priority pool; `lru_low_pri_` points at the newest entry before it.

* `HandleData`          the fields of an `LRUHandle` beside its links: key, hash, value, charge,
                        `refs` and the three bits of `flags`;
* `LRUCacheShard`       the shard: its usages and capacities, the LRU list as the addresses of its
                        entries from the oldest, `lru_low_pri_` as the number of entries up to the
                        one it points at, the table (`LRUHandleTable` over addresses), and the
                        heap `mem`, the handles at their addresses;
* `LRU_Remove`, `LRU_Insert`, `MaintainPoolSize`, `Unref`, `EvictFromLRU`, `Free`   the private
                        members;
* `Insert`, `Lookup`, `Ref`, `Release`, `Erase`, `SetCapacity`, `SetStrictCapacityLimit`,
  `SetHighPriorityPoolRatio`, `EraseUnRefEntries`, `GetUsage`, `GetPinnedUsage`   the interface.

`new char[]` hands out the addresses in order (`next`), each apart from every live handle, and
`Free` records the handle whose deleter it calls (`deleted`).  Sizes and counts are `Nat`: the
charges of the live handles sum to less than `2^64`, and no handle has `2^32` references.
`high_pri_pool_ratio_` is a `double` that `NewLRUCache` keeps in `[0, 1]`; it is a rational here,
and `capacity_ * high_pri_pool_ratio_` is exact.  The bit `InHighPriPool` of a new handle is
whatever `new char[]` left; `LRU_Insert` writes it before anything reads it, and it is `false`
here.  The mutex, and `ApplyToAllCacheEntries`, are not modelled.
-/

namespace RocksDB

/-- `Cache::Priority` (include/rocksdb/cache.h) -/
inductive Priority where
  | HIGH
  | LOW
  deriving DecidableEq, Repr

/-- an `LRUHandle` but for its links `next_hash`, `next` and `prev` -/
structure HandleData (V : Type*) where
  key : List UInt8
  hash : UInt32
  value : V
  charge : Nat
  refs : Nat
  /-- `flags & 1` -/
  in_cache : Bool
  /-- `flags & 2` -/
  is_high_pri : Bool
  /-- `flags & 4` -/
  in_high_pri_pool : Bool

structure LRUCacheShard (V : Type*) where
  capacity_ : Nat
  usage_ : Nat
  lru_usage_ : Nat
  high_pri_pool_usage_ : Nat
  strict_capacity_limit_ : Bool
  high_pri_pool_ratio_ : ℚ
  high_pri_pool_capacity_ : ℚ
  /-- the LRU list from `lru_.next`, the oldest entry, to `lru_.prev`, the newest -/
  lru : List Nat
  /-- the entries of `lru` up to the one `lru_low_pri_` points at; `0` for `&lru_` -/
  lru_low_pri_ : Nat
  table_ : LRUHandleTable Nat
  /-- the handle at each address, `none` where none is allocated -/
  mem : Nat → Option (HandleData V)
  /-- the address `new char[]` returns next -/
  next : Nat
  /-- the handles whose deleter `Free` called, in order -/
  deleted : List Nat

namespace LRUCacheShard

variable {V : Type*} (s : LRUCacheShard V)

/-! ## The fields of a handle -/

/-- the handle at `e` changed by `f` -/
def modify (e : Nat) (f : HandleData V → HandleData V) : LRUCacheShard V :=
  { s with mem := Function.update s.mem e ((s.mem e).map f) }

def chargeOf (e : Nat) : Nat := ((s.mem e).map HandleData.charge).getD 0

def refsOf (e : Nat) : Nat := ((s.mem e).map HandleData.refs).getD 0

def InCache (e : Nat) : Bool := ((s.mem e).map HandleData.in_cache).getD false

def IsHighPri (e : Nat) : Bool := ((s.mem e).map HandleData.is_high_pri).getD false

def InHighPriPool (e : Nat) : Bool := ((s.mem e).map HandleData.in_high_pri_pool).getD false

def keyOf (e : Nat) : List UInt8 := ((s.mem e).map HandleData.key).getD []

def hashOf (e : Nat) : UInt32 := ((s.mem e).map HandleData.hash).getD 0

section Fields

/-! A shard built field by field around the heap of `s` reads its handles as `s` does. -/

variable (c u lu hu lp n : Nat) (st : Bool) (r hc : ℚ) (l dl : List Nat) (t : LRUHandleTable Nat)

@[simp] theorem chargeOf_mk : (mk c u lu hu st r hc l lp t s.mem n dl).chargeOf = s.chargeOf := rfl
@[simp] theorem refsOf_mk : (mk c u lu hu st r hc l lp t s.mem n dl).refsOf = s.refsOf := rfl
@[simp] theorem InCache_mk : (mk c u lu hu st r hc l lp t s.mem n dl).InCache = s.InCache := rfl
@[simp] theorem InHighPriPool_mk :
    (mk c u lu hu st r hc l lp t s.mem n dl).InHighPriPool = s.InHighPriPool := rfl
@[simp] theorem keyOf_mk : (mk c u lu hu st r hc l lp t s.mem n dl).keyOf = s.keyOf := rfl
@[simp] theorem hashOf_mk : (mk c u lu hu st r hc l lp t s.mem n dl).hashOf = s.hashOf := rfl

end Fields

section Modify

variable {s} {x : Nat} {f : HandleData V → HandleData V}

@[simp] theorem capacity_modify : (s.modify x f).capacity_ = s.capacity_ := rfl
@[simp] theorem usage_modify : (s.modify x f).usage_ = s.usage_ := rfl
@[simp] theorem lru_usage_modify : (s.modify x f).lru_usage_ = s.lru_usage_ := rfl
@[simp] theorem high_pri_pool_usage_modify :
    (s.modify x f).high_pri_pool_usage_ = s.high_pri_pool_usage_ := rfl
@[simp] theorem strict_capacity_limit_modify :
    (s.modify x f).strict_capacity_limit_ = s.strict_capacity_limit_ := rfl
@[simp] theorem high_pri_pool_ratio_modify :
    (s.modify x f).high_pri_pool_ratio_ = s.high_pri_pool_ratio_ := rfl
@[simp] theorem high_pri_pool_capacity_modify :
    (s.modify x f).high_pri_pool_capacity_ = s.high_pri_pool_capacity_ := rfl
@[simp] theorem lru_modify : (s.modify x f).lru = s.lru := rfl
@[simp] theorem lru_low_pri_modify : (s.modify x f).lru_low_pri_ = s.lru_low_pri_ := rfl
@[simp] theorem table_modify : (s.modify x f).table_ = s.table_ := rfl
@[simp] theorem next_modify : (s.modify x f).next = s.next := rfl
@[simp] theorem deleted_modify : (s.modify x f).deleted = s.deleted := rfl

theorem mem_modify (e : Nat) :
    (s.modify x f).mem e = if e = x then (s.mem x).map f else s.mem e := by
  simp only [modify, Function.update_apply]

@[simp] theorem isSome_mem_modify (e : Nat) : ((s.modify x f).mem e).isSome = (s.mem e).isSome := by
  rw [mem_modify]
  split_ifs with h
  · rw [h, Option.isSome_map]
  · rfl

/-- a field of the handles that `f` keeps reads the same after `modify` -/
theorem getD_map_modify {α : Type*} (g : HandleData V → α) (dflt : α)
    (hf : ∀ d, g (f d) = g d) (e : Nat) :
    (((s.modify x f).mem e).map g).getD dflt = ((s.mem e).map g).getD dflt := by
  rw [mem_modify]
  split_ifs with h
  · subst h
    cases s.mem e <;> simp [hf]
  · rfl

@[simp] theorem chargeOf_modify (hf : ∀ d, (f d).charge = d.charge) :
    (s.modify x f).chargeOf = s.chargeOf := funext (getD_map_modify _ _ hf)
@[simp] theorem refsOf_modify (hf : ∀ d, (f d).refs = d.refs) :
    (s.modify x f).refsOf = s.refsOf := funext (getD_map_modify _ _ hf)
@[simp] theorem InCache_modify (hf : ∀ d, (f d).in_cache = d.in_cache) :
    (s.modify x f).InCache = s.InCache := funext (getD_map_modify _ _ hf)
@[simp] theorem InHighPriPool_modify (hf : ∀ d, (f d).in_high_pri_pool = d.in_high_pri_pool) :
    (s.modify x f).InHighPriPool = s.InHighPriPool := funext (getD_map_modify _ _ hf)
@[simp] theorem keyOf_modify (hf : ∀ d, (f d).key = d.key) :
    (s.modify x f).keyOf = s.keyOf := funext (getD_map_modify _ _ hf)
@[simp] theorem hashOf_modify (hf : ∀ d, (f d).hash = d.hash) :
    (s.modify x f).hashOf = s.hashOf := funext (getD_map_modify _ _ hf)

theorem modify_of_ne {α : Type*} (g : HandleData V → α) (dflt : α) {e : Nat} (h : e ≠ x) :
    (((s.modify x f).mem e).map g).getD dflt = ((s.mem e).map g).getD dflt := by
  rw [mem_modify, if_neg h]

theorem modify_self {α : Type*} (g : HandleData V → α) (dflt : α) {d : HandleData V}
    (hx : s.mem x = some d) : (((s.modify x f).mem x).map g).getD dflt = g (f d) := by
  rw [mem_modify, if_pos rfl, hx]
  rfl

theorem InHighPriPool_modify_of_ne {e : Nat} (h : e ≠ x) :
    (s.modify x f).InHighPriPool e = s.InHighPriPool e :=
  modify_of_ne _ _ h

/-- the bit `InHighPriPool` written: the charges read as before -/
@[simp] theorem chargeOf_modify_pool (b : Bool) :
    (s.modify x fun d => { d with in_high_pri_pool := b }).chargeOf = s.chargeOf :=
  chargeOf_modify fun _ => rfl

/-- the bit `InHighPriPool` written: it reads so where a handle is -/
theorem InHighPriPool_modify_self (b : Bool) :
    (s.modify x fun d => { d with in_high_pri_pool := b }).InHighPriPool x =
      (b && (s.mem x).isSome) := by
  cases hx : s.mem x with
  | none => simp [InHighPriPool, modify, hx]
  | some d => rw [InHighPriPool, modify_self _ _ hx]; simp

end Modify

/-- `Unref(e)`: one reference fewer, and whether it was the last -/
def Unref (e : Nat) : LRUCacheShard V × Bool :=
  let s := s.modify e fun d => { d with refs := d.refs - 1 }
  (s, s.refsOf e == 0)

/-- `e->Free()`: the deleter called, the memory given back -/
def Free (e : Nat) : LRUCacheShard V :=
  { s with mem := Function.update s.mem e none, deleted := s.deleted ++ [e] }

/-- the loop over `last_reference_list` after the mutex is released -/
def FreeAll (es : List Nat) : LRUCacheShard V := es.foldl Free s

/-! ## The LRU list -/

/-- `LRU_Remove(e)` -/
def LRU_Remove (e : Nat) : LRUCacheShard V :=
  { s with
    lru := s.lru.erase e
    -- the pointer steps back when it is `e`, and counts one entry fewer when `e` is before it
    lru_low_pri_ := if s.lru.idxOf e < s.lru_low_pri_ then s.lru_low_pri_ - 1 else s.lru_low_pri_
    lru_usage_ := s.lru_usage_ - s.chargeOf e
    high_pri_pool_usage_ :=
      if s.InHighPriPool e then s.high_pri_pool_usage_ - s.chargeOf e else s.high_pri_pool_usage_ }

/-- the `while` loop of `MaintainPoolSize`, for at most `fuel` turns -/
def maintainLoop : Nat → LRUCacheShard V → LRUCacheShard V
  | 0, s => s
  | fuel + 1, s =>
    if (s.high_pri_pool_usage_ : ℚ) > s.high_pri_pool_capacity_ then
      -- Overflow last entry in high-pri pool to low-pri pool.
      let e := s.lru.getD s.lru_low_pri_ 0
      maintainLoop fuel
        { s.modify e (fun d => { d with in_high_pri_pool := false }) with
          lru_low_pri_ := s.lru_low_pri_ + 1
          high_pri_pool_usage_ := s.high_pri_pool_usage_ - s.chargeOf e }
    else s

/-- `MaintainPoolSize()`: each turn moves `lru_low_pri_` one entry on, so the entries after it
are turns enough -/
def MaintainPoolSize : LRUCacheShard V := maintainLoop (s.lru.length - s.lru_low_pri_) s

/-- `LRU_Insert(e)` -/
def LRU_Insert (e : Nat) : LRUCacheShard V :=
  let s' :=
    if s.high_pri_pool_ratio_ > 0 ∧ s.IsHighPri e then
      -- Inset "e" to head of LRU list.
      ({ s.modify e (fun d => { d with in_high_pri_pool := true }) with
        lru := s.lru ++ [e]
        high_pri_pool_usage_ := s.high_pri_pool_usage_ + s.chargeOf e }).MaintainPoolSize
    else
      -- Insert "e" to the head of low-pri pool.
      { s.modify e (fun d => { d with in_high_pri_pool := false }) with
        lru := s.lru.insertIdx s.lru_low_pri_ e
        lru_low_pri_ := s.lru_low_pri_ + 1 }
  { s' with lru_usage_ := s'.lru_usage_ + s.chargeOf e }

/-! ## Eviction -/

/-- an entry out of the cache: out of the table, `InCache` cleared, the cache's reference
dropped, its charge off the usage (the entry is freed later) -/
def dropFromCache (e : Nat) : LRUCacheShard V :=
  let s := { s with table_ := (s.table_.Remove (s.keyOf e) (s.hashOf e)).1 }
  let s := (s.modify e fun d => { d with in_cache := false }).Unref e |>.1
  { s with usage_ := s.usage_ - s.chargeOf e }

/-- the loops of `EvictFromLRU` and `EraseUnRefEntries`: while `cond` holds and the list is not
empty, its oldest entry out of the list and the cache, for at most `fuel` turns -/
def evictLoop (cond : LRUCacheShard V → Bool) :
    Nat → LRUCacheShard V → List Nat → LRUCacheShard V × List Nat
  | 0, s, deleted => (s, deleted)
  | fuel + 1, s, deleted =>
    match s.lru with
    | old :: _ =>
      if cond s then evictLoop cond fuel ((s.LRU_Remove old).dropFromCache old) (deleted ++ [old])
      else (s, deleted)
    | [] => (s, deleted)

/-- `EvictFromLRU(charge, deleted)`: every turn takes an entry off the list -/
def EvictFromLRU (charge : Nat) : LRUCacheShard V × List Nat :=
  evictLoop (fun s => decide (s.usage_ + charge > s.capacity_)) s.lru.length s []

/-! ## The interface -/

def Lookup (key : List UInt8) (hash : UInt32) : LRUCacheShard V × Option Nat :=
  match s.table_.Lookup key hash with
  | some h =>
    let e := h.value
    let s := if s.refsOf e = 1 then s.LRU_Remove e else s
    (s.modify e fun d => { d with refs := d.refs + 1 }, some e)
  | none => (s, none)

def Ref (e : Nat) : LRUCacheShard V × Bool :=
  let s := if s.InCache e ∧ s.refsOf e = 1 then s.LRU_Remove e else s
  (s.modify e fun d => { d with refs := d.refs + 1 }, true)

/-- the part of `Release` under the mutex, and whether the reference was the last -/
def releaseLocked (e : Nat) (force_erase : Bool) : LRUCacheShard V × Bool :=
  let (s, last_reference) := s.Unref e
  let s := if last_reference then { s with usage_ := s.usage_ - s.chargeOf e } else s
  if s.refsOf e = 1 ∧ s.InCache e then
    -- The item is still in cache, and nobody else holds a reference to it
    if s.usage_ > s.capacity_ ∨ force_erase then (s.dropFromCache e, true)
    -- put the item on the list to be potentially freed
    else (s.LRU_Insert e, last_reference)
  else (s, last_reference)

def Release (handle : Option Nat) (force_erase : Bool) : LRUCacheShard V × Bool :=
  match handle with
  | none => (s, false)
  | some e =>
    let (s, last_reference) := s.releaseLocked e force_erase
    (if last_reference then s.Free e else s, last_reference)

/-- the part of `Insert` under the mutex, once `EvictFromLRU` made room and the entry is to go
into the table: `none` where the table's `Resize` does not end -/
def insertLocked (e : Nat) (handle : Bool) (last_reference_list : List Nat) :
    Option (LRUCacheShard V × List Nat) :=
  (s.table_.Insert ⟨s.keyOf e, s.hashOf e, e⟩).map fun (table_, old) =>
    let s := { s with table_ := table_, usage_ := s.usage_ + s.chargeOf e }
    let (s, last_reference_list) :=
      match old with
      | some h =>
        let old := h.value
        let (s, last) := (s.modify old fun d => { d with in_cache := false }).Unref old
        if last then
          -- old is on LRU because it's in cache and its reference count was just 1
          (({ s with usage_ := s.usage_ - s.chargeOf old }).LRU_Remove old,
            last_reference_list ++ [old])
        else (s, last_reference_list)
      | none => (s, last_reference_list)
    (if handle then s else s.LRU_Insert e, last_reference_list)

/-- `Insert(key, hash, value, charge, deleter, handle, priority)`, with `handle` whether a
handle is asked for: the status and the handle returned; `none` where the table's `Resize` does
not end -/
def Insert (key : List UInt8) (hash : UInt32) (value : V) (charge : Nat) (handle : Bool)
    (priority : Priority) : Option (LRUCacheShard V × Status × Option Nat) :=
  -- the handle, allocated outside of the mutex: one reference from the cache, one for the
  -- returned handle
  let e := s.next
  let s := { s with
    mem := Function.update s.mem e (some
      { key, hash, value, charge
        refs := if handle then 2 else 1
        in_cache := true
        is_high_pri := priority == Priority.HIGH
        in_high_pri_pool := false })
    next := s.next + 1 }
  let (s, last_reference_list) := s.EvictFromLRU charge
  if s.usage_ - s.lru_usage_ + charge > s.capacity_ ∧ (s.strict_capacity_limit_ ∨ !handle) then
    if !handle then
      -- as if the entry was inserted into cache and got evicted immediately
      some (s.FreeAll (last_reference_list ++ [e]), Status.OK, none)
    else
      -- `delete[]`, without the deleter
      some (({ s with mem := Function.update s.mem e none }).FreeAll last_reference_list,
        ⟨.kIncomplete, .kNone, "Insert failed due to LRU cache being full."⟩, none)
  else
    (s.insertLocked e handle last_reference_list).map fun (s, last_reference_list) =>
      (s.FreeAll last_reference_list, Status.OK, if handle then some e else none)

def Erase (key : List UInt8) (hash : UInt32) : LRUCacheShard V :=
  let (table_, removed) := s.table_.Remove key hash
  let s := { s with table_ := table_ }
  match removed with
  | some h =>
    let e := h.value
    let (s, last_reference) := s.Unref e
    let s := if last_reference then { s with usage_ := s.usage_ - s.chargeOf e } else s
    let s := if last_reference ∧ s.InCache e then s.LRU_Remove e else s
    let s := s.modify e fun d => { d with in_cache := false }
    if last_reference then s.Free e else s
  | none => s

def SetCapacity (capacity : Nat) : LRUCacheShard V :=
  let s := { s with
    capacity_ := capacity
    high_pri_pool_capacity_ := capacity * s.high_pri_pool_ratio_ }
  let (s, last_reference_list) := s.EvictFromLRU 0
  s.FreeAll last_reference_list

def SetStrictCapacityLimit (strict_capacity_limit : Bool) : LRUCacheShard V :=
  { s with strict_capacity_limit_ := strict_capacity_limit }

def SetHighPriorityPoolRatio (high_pri_pool_ratio : ℚ) : LRUCacheShard V :=
  ({ s with
    high_pri_pool_ratio_ := high_pri_pool_ratio
    high_pri_pool_capacity_ := s.capacity_ * high_pri_pool_ratio }).MaintainPoolSize

def EraseUnRefEntries : LRUCacheShard V :=
  let (s, last_reference_list) := evictLoop (fun _ => true) s.lru.length s []
  s.FreeAll last_reference_list

def GetUsage : Nat := s.usage_

def GetPinnedUsage : Nat := s.usage_ - s.lru_usage_

/-- `LRUCacheShard()`, then the calls `LRUCache(capacity, num_shard_bits, strict_capacity_limit,
high_pri_pool_ratio)` makes on each shard, with the shard's part of the capacity -/
def new (capacity : Nat) (strict_capacity_limit : Bool) (high_pri_pool_ratio : ℚ) :
    Option (LRUCacheShard V) :=
  LRUHandleTable.new.map fun table_ =>
    let s : LRUCacheShard V :=
      { capacity_ := 0, usage_ := 0, lru_usage_ := 0, high_pri_pool_usage_ := 0
        strict_capacity_limit_ := false, high_pri_pool_ratio_ := 0, high_pri_pool_capacity_ := 0
        lru := [], lru_low_pri_ := 0, table_, mem := fun _ => none, next := 0, deleted := [] }
    ((s.SetCapacity capacity).SetStrictCapacityLimit strict_capacity_limit).SetHighPriorityPoolRatio
      high_pri_pool_ratio

end LRUCacheShard

end RocksDB
