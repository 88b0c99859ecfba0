import RocksDB.Lib.Chains
import Mathlib

/-!
# cache/lru_cache.cc: the handle table of a cache shard

`LRUHandleTable` is a separately chained hash table: `length_` buckets (`list_`), each a chain
of handles linked through `next_hash`, here the list of its handles in that order.  A handle is
told apart by its key and hash (`LRUHandle.keyHash`); `FindPointer` gives the place of the one
with a key and hash, or the trailing slot of the chain of its bucket `hash & (length_ - 1)`.

* `Insert h`           puts `h` in the place of the handle with its key and hash and returns
                       that one, or puts it in the trailing slot, counts it, and calls `Resize`
                       once `elems_` exceeds `length_`;
* `Remove key hash`    unlinks the handle with the key and hash and returns it;
* `Resize`             picks the least power of two from 16 up that is not below
                       `elems_ * 1.5` (`growLength`) and pushes every handle of every old chain
                       on the front of the chain of its new bucket (`Chains.rehash`).

The doubling in `Resize` is made in `uint32_t`: from `2^31` it wraps to `0`, and the loop never
ends (`growLength_none`).  `growLength` runs the loop for at most 32 rounds, and
`growLength_eq_of_le` and `growLength_none` show that no more rounds change its outcome, so that
`Resize` returning `none` is the loop that does not end.

The table stores a finite map (`RocksDB.Lib.Chains`): `Inv` is what every reachable table keeps,
and its handles are the map a history of operations leaves, up to order (`run_refines`), as long
as the table never holds more than `2^31` handles.
-/

namespace RocksDB

/-- the fields of a handle the table reads: `key()` and `hash`; `value` stands for the rest of
the handle, which the table only carries -/
structure LRUHandle (V : Type*) where
  key : List UInt8
  hash : UInt32
  value : V
deriving DecidableEq, Repr

/-- what the table tells handles apart by -/
def LRUHandle.keyHash {V : Type*} (h : LRUHandle V) : List UInt8 × UInt32 := (h.key, h.hash)

/-- `length_` buckets in `list_`, `elems_` handles counted -/
structure LRUHandleTable (V : Type*) where
  length_ : UInt32
  elems_ : UInt32
  list_ : List (List (LRUHandle V))

namespace LRUHandleTable

open Chains (MapOp)

variable {V : Type*} (t : LRUHandleTable V)

/-- `hash & (length_ - 1)` -/
def bucket (length_ hash : UInt32) : Nat := (hash &&& (length_ - 1)).toNat

/-- `FindPointer(key, hash)`: the bucket of `hash`, and in its chain the place of the first
handle with this key and hash, or the chain's length (the trailing slot) when there is none -/
def FindPointer (key : List UInt8) (hash : UInt32) : Nat × Nat :=
  let b := bucket t.length_ hash
  (b, (t.list_.getD b []).findIdx fun h => h.hash == hash && key == h.key)

def Lookup (key : List UInt8) (hash : UInt32) : Option (LRUHandle V) :=
  let (b, j) := t.FindPointer key hash
  (t.list_.getD b [])[j]?

/-- `while (new_length < elems_ * 1.5) new_length *= 2`, for at most `fuel` rounds: the
comparison is made in `double`, where both sides are exact, and `new_length` is a `uint32_t` -/
def growLength : Nat → UInt32 → UInt32 → Option UInt32
  | 0, _, _ => none
  | fuel + 1, new_length, elems_ =>
    if 2 * new_length.toNat < 3 * elems_.toNat then growLength fuel (new_length * 2) elems_
    else some new_length

/-- `Resize()`: `none` when the loop that picks the new length does not end -/
def Resize : Option (LRUHandleTable V) :=
  (growLength 32 16 t.elems_).map fun new_length =>
    { t with
      -- for every old bucket, every handle of its chain onto the front of its new chain
      list_ := Chains.rehash LRUHandle.keyHash (fun k => bucket new_length k.2)
        (List.replicate new_length.toNat []) t.list_
      length_ := new_length }

/-- `Insert(h)`: the new table and the handle `h` displaces; `none` when `Resize` does not end -/
def Insert (h : LRUHandle V) : Option (LRUHandleTable V × Option (LRUHandle V)) :=
  let (b, j) := t.FindPointer h.key h.hash
  let chain := t.list_.getD b []
  match chain[j]? with
  | some old =>
    -- `h` takes the place of `old`, in front of what followed it
    some ({ t with list_ := t.list_.set b (chain.set j h) }, some old)
  | none =>
    -- `h` goes in the trailing slot
    let t := { t with list_ := t.list_.set b (chain ++ [h]), elems_ := t.elems_ + 1 }
    if t.elems_ > t.length_ then t.Resize.map (·, none) else some (t, none)

/-- `Remove(key, hash)`: the new table and the handle unlinked -/
def Remove (key : List UInt8) (hash : UInt32) : LRUHandleTable V × Option (LRUHandle V) :=
  let (b, j) := t.FindPointer key hash
  let chain := t.list_.getD b []
  match chain[j]? with
  | some result => ({ t with list_ := t.list_.set b (chain.eraseIdx j), elems_ := t.elems_ - 1 },
      some result)
  | none => (t, none)

/-- `LRUHandleTable()`: no buckets, then `Resize()` -/
def new : Option (LRUHandleTable V) := (⟨0, 0, []⟩ : LRUHandleTable V).Resize

/-- one operation on the table and the handle it returns -/
def apply : MapOp (LRUHandle V) (List UInt8 × UInt32) →
    Option (LRUHandleTable V × Option (LRUHandle V))
  | .insert h => t.Insert h
  | .erase (key, hash) => some (t.Remove key hash)
  | .lookup (key, hash) => some (t, t.Lookup key hash)

/-- the table a history of operations leaves; `none` when one of them does not return -/
def run : LRUHandleTable V → List (MapOp (LRUHandle V) (List UInt8 × UInt32)) →
    Option (LRUHandleTable V)
  | t, [] => some t
  | t, op :: ops => (t.apply op).bind fun r => run r.1 ops

/-- the handles of all chains -/
def contents : List (LRUHandle V) := t.list_.flatten

/-! ## The new length -/

section GrowLength

/-- a `uint32_t` power of two doubled: the next power, or `0` past `2^31` -/
theorem toNat_mul_two {n : UInt32} {j : Nat} (hn : n.toNat = 2 ^ j % 2 ^ 32) :
    (n * 2).toNat = 2 ^ (j + 1) % 2 ^ 32 := by
  rw [UInt32.toNat_mul, hn, Nat.pow_succ, Nat.mod_mul_mod]
  rfl

theorem two_pow_mod_le (j : Nat) : 2 ^ j % 2 ^ 32 ≤ 2 ^ 31 := by
  by_cases hj : j ≤ 31
  · rw [Nat.mod_eq_of_lt (Nat.pow_lt_pow_right (by omega) (by omega))]
    exact Nat.pow_le_pow_right (by omega) hj
  · rw [Nat.mod_eq_zero_of_dvd (Nat.pow_dvd_pow 2 (by omega))]
    omega

/-- whatever the loop ends with is a power of two from `2^j` to `2^31`, not below
`elems_ * 1.5` -/
theorem growLength_pow {fuel j : Nat} {n e p : UInt32} (h : growLength fuel n e = some p)
    (hn : n.toNat = 2 ^ j % 2 ^ 32) (hj : 32 ≤ j → 0 < e.toNat) :
    (∃ i, j ≤ i ∧ i ≤ 31 ∧ p.toNat = 2 ^ i) ∧ 3 * e.toNat ≤ 2 * p.toNat := by
  induction fuel generalizing j n with
  | zero => cases h
  | succ fuel ih =>
    rw [growLength] at h
    split at h
    · -- one more doubling
      rename_i hlt
      obtain ⟨⟨i, hi, hi31, hp⟩, he⟩ := ih h (toNat_mul_two hn) fun _ => by omega
      exact ⟨⟨i, by omega, hi31, hp⟩, he⟩
    · -- the loop ends on `n`, which is not `0` as `0 < elems_ * 1.5`
      rename_i hge
      cases h
      have hj31 : j ≤ 31 := by
        by_contra hj'
        rw [hn, Nat.mod_eq_zero_of_dvd (Nat.pow_dvd_pow 2 (by omega))] at hge
        have := hj (by omega)
        omega
      rw [Nat.mod_eq_of_lt (Nat.pow_lt_pow_right (by omega) (by omega))] at hn
      exact ⟨⟨j, Nat.le_refl j, hj31, hn⟩, by omega⟩

/-- the loop ends within `32 - j` rounds from `2^j` when `elems_ * 1.5` is at most `2^31` -/
theorem growLength_isSome {fuel j : Nat} {n e : UInt32} (hn : n.toNat = 2 ^ j) (hj : j ≤ 31)
    (hf : 32 ≤ fuel + j) (he : 3 * e.toNat ≤ 2 ^ 32) : (growLength fuel n e).isSome := by
  induction fuel generalizing j n with
  | zero => omega
  | succ fuel ih =>
    rw [growLength]
    split
    · -- the doubled length is still a power of two below `2^32`
      rename_i hlt
      have hj' : j + 1 ≤ 31 := by
        by_contra hj'
        have : 2 ^ j = 2 ^ 31 := by rw [show j = 31 by omega]
        omega
      have hn' : (n * 2).toNat = 2 ^ (j + 1) := by
        rw [toNat_mul_two (j := j) (by rw [hn, Nat.mod_eq_of_lt (Nat.pow_lt_pow_right (by omega)
          (by omega))]), Nat.mod_eq_of_lt (Nat.pow_lt_pow_right (by omega) (by omega))]
      exact ih hn' hj' (by omega)
    · rfl

/-- **The loop never ends** when `elems_ * 1.5` is above `2^32`: the length doubles past
`2^31` to `0` and stays below it -/
theorem growLength_none {e : UInt32} (he : 2 ^ 32 < 3 * e.toNat) :
    ∀ fuel, growLength fuel 16 e = none := by
  -- from any `2^j`, read modulo `2^32`
  suffices h : ∀ fuel j (n : UInt32), n.toNat = 2 ^ j % 2 ^ 32 → growLength fuel n e = none from
    fun fuel => h fuel 4 16 rfl
  intro fuel
  induction fuel with
  | zero => intro _ _ _; rfl
  | succ fuel ih =>
    intro j n hn
    have hlt : 2 * n.toNat < 3 * e.toNat := by
      have := two_pow_mod_le j
      omega
    rw [growLength, if_pos hlt]
    exact ih (j + 1) (n * 2) (toNat_mul_two hn)

/-- more rounds do not change an outcome -/
theorem growLength_eq_of_le {fuel fuel' : Nat} {n e p : UInt32} (h : growLength fuel n e = some p)
    (hle : fuel ≤ fuel') : growLength fuel' n e = some p := by
  induction fuel generalizing fuel' n with
  | zero => cases h
  | succ fuel ih =>
    obtain ⟨fuel', rfl⟩ : ∃ f, fuel' = f + 1 := ⟨fuel' - 1, by omega⟩
    rw [growLength] at h ⊢
    split
    · rename_i hlt
      rw [if_pos hlt] at h
      exact ih h (by omega)
    · rename_i hge
      rwa [if_neg hge] at h

end GrowLength

/-! ## Buckets of a power-of-two table -/

section Buckets

/-- a power of two from 16 to `2^31` -/
def PowLength (length_ : UInt32) : Prop := ∃ j, 4 ≤ j ∧ j ≤ 31 ∧ length_.toNat = 2 ^ j

/-- `hash & (length_ - 1)` is a bucket of the table -/
theorem bucket_lt {length_ : UInt32} (h : PowLength length_) (hash : UInt32) :
    bucket length_ hash < length_.toNat := by
  obtain ⟨j, -, -, hj⟩ := h
  have hpos : 1 ≤ 2 ^ j := Nat.one_le_two_pow
  have hsub : (length_ - 1).toNat = 2 ^ j - 1 := by
    rw [UInt32.toNat_sub_of_le _ _ (UInt32.le_iff_toNat_le.mpr (by rw [UInt32.toNat_one]; omega)),
      hj, UInt32.toNat_one]
  rw [bucket, UInt32.toNat_and, hsub, hj]
  exact Nat.and_lt_two_pow _ (by omega)

/-- `FindPointer`'s test: the handle's hash and key are the ones looked for -/
theorem findPred_eq (key : List UInt8) (hash : UInt32) :
    (fun h : LRUHandle V => h.hash == hash && key == h.key) =
      fun h => decide (h.keyHash = (key, hash)) := by
  funext h
  by_cases h2 : h.key = key
  · by_cases h1 : h.hash = hash <;> simp [LRUHandle.keyHash, h1, h2]
  · have h2' : key ≠ h.key := Ne.symm h2
    simp [LRUHandle.keyHash, h2, h2']

theorem FindPointer_eq (key : List UInt8) (hash : UInt32) :
    t.FindPointer key hash = (bucket t.length_ hash,
      (t.list_.getD (bucket t.length_ hash) []).findIdx fun h => decide (h.keyHash = (key, hash))) := by
  rw [FindPointer, findPred_eq]

end Buckets

/-! ## What every table keeps -/

/-- the table's shape: a power-of-two number of buckets, every handle in the bucket of its hash,
one handle per key and hash, all of them counted -/
structure Sound (t : LRUHandleTable V) : Prop where
  length_pow : PowLength t.length_
  list_length : t.list_.length = t.length_.toNat
  placed : Chains.Placed LRUHandle.keyHash (fun k => bucket t.length_ k.2) t.list_
  nodup : (t.contents.map LRUHandle.keyHash).Nodup
  elems : t.elems_.toNat = t.contents.length

/-- and no more handles than buckets, which `Insert` keeps by calling `Resize` -/
structure Inv (t : LRUHandleTable V) : Prop extends Sound t where
  elems_le : t.elems_.toNat ≤ t.length_.toNat

variable {t}

theorem Sound.bucket_lt (hs : Sound t) (hash : UInt32) : bucket t.length_ hash < t.list_.length :=
  hs.list_length ▸ LRUHandleTable.bucket_lt hs.length_pow hash

/-- a chain has one handle per key and hash -/
theorem Sound.chain_nodup (hs : Sound t) (b : Nat) :
    ((t.list_.getD b []).map LRUHandle.keyHash).Nodup :=
  hs.nodup.sublist ((Chains.getD_sublist_flatten t.list_ b).map _)

/-- the place `FindPointer` gives holds the handle with the key and hash of the whole table -/
theorem Sound.getElem?_findIdx (hs : Sound t) (k : List UInt8 × UInt32) :
    (t.list_.getD (bucket t.length_ k.2) [])[(t.list_.getD (bucket t.length_ k.2) []).findIdx
      fun h => decide (h.keyHash = k)]? = Chains.find LRUHandle.keyHash k t.contents := by
  rw [← List.find?_eq_getElem?_findIdx]
  exact hs.placed.find_bucket k

/-- `Lookup` finds the handle with the key and hash among all handles -/
theorem Sound.Lookup_eq (hs : Sound t) (key : List UInt8) (hash : UInt32) :
    t.Lookup key hash = Chains.find LRUHandle.keyHash (key, hash) t.contents := by
  rw [Lookup, FindPointer_eq]
  exact hs.getElem?_findIdx (key, hash)

/-- **One chain changed for one key.**  A chain that holds what the old one held under other
keys and the handles `e` with the key leaves the table sound, holding what it held under other
keys and `e` -/
theorem Sound.setChain (hs : Sound t) {k : List UInt8 × UInt32} {b : Nat}
    (hbk : bucket t.length_ k.2 = b) {c e : List (LRUHandle V)} {n : UInt32}
    (hc : c.Perm ((t.list_.getD b []).filter (fun a => a.keyHash ≠ k) ++ e))
    (he : ∀ a ∈ e, a.keyHash = k)
    (hnd : ((t.contents.filter (fun a => a.keyHash ≠ k) ++ e).map LRUHandle.keyHash).Nodup)
    (hn : n.toNat + (t.list_.getD b []).length = t.elems_.toNat + c.length) :
    Sound { t with list_ := t.list_.set b c, elems_ := n } ∧
      (t.list_.set b c).flatten.Perm (t.contents.filter (fun a => a.keyHash ≠ k) ++ e) := by
  subst hbk
  have hb := hs.bucket_lt k.2
  have hperm := hs.placed.flatten_set_perm hb hc
  refine ⟨⟨hs.length_pow, by simp [hs.list_length], ?_, ?_, ?_⟩, hperm⟩
  · -- the chain holds handles of its own bucket only
    refine hs.placed.set fun a ha => ?_
    rcases List.mem_append.mp (hc.mem_iff.mp ha) with ha | ha
    · exact hs.placed.of_mem (List.mem_of_mem_filter ha)
    · simp [he a ha]
  · exact (hperm.map _).nodup_iff.mpr hnd
  · -- the count follows the chain's length
    have hlen := Chains.length_flatten_set hb c
    rw [List.getD_eq_getElem?_getD, List.getElem?_eq_getElem hb, Option.getD_some] at hn
    have := hs.elems
    unfold contents at this
    show n.toNat = (t.list_.set (bucket t.length_ k.2) c).flatten.length
    omega

/-- `Resize` keeps every handle once, and is sound when `elems_ * 1.5` is at most `2^31` -/
theorem Resize_perm {t t' : LRUHandleTable V} (h : t.Resize = some t') :
    t'.contents.Perm t.contents ∧ PowLength t'.length_ ∧
      3 * t.elems_.toNat ≤ 2 * t'.length_.toNat := by
  obtain ⟨p, hp, rfl⟩ := Option.map_eq_some_iff.mp h
  obtain ⟨⟨i, hi, hi31, hpi⟩, he⟩ := growLength_pow (j := 4) hp rfl (by omega)
  have hpow : PowLength p := ⟨i, hi, hi31, hpi⟩
  refine ⟨?_, hpow, he⟩
  have hbucket : ∀ a ∈ t.list_.flatten,
      bucket p a.keyHash.2 < (List.replicate p.toNat ([] : List (LRUHandle V))).length :=
    fun a _ => by rw [List.length_replicate]; exact bucket_lt hpow a.hash
  have hperm : (Chains.rehash LRUHandle.keyHash (fun k => bucket p k.2) (List.replicate p.toNat [])
      t.list_).flatten.Perm (t.list_.flatten ++ (List.replicate p.toNat []).flatten) :=
    Chains.flatten_rehash_perm hbucket
  rw [List.flatten_replicate_nil, List.append_nil] at hperm
  exact hperm

theorem Sound.resize (hs : Sound t) (he : 3 * t.elems_.toNat ≤ 2 ^ 32) :
    ∃ t', t.Resize = some t' ∧ Inv t' ∧ t'.contents.Perm t.contents := by
  obtain ⟨p, hp⟩ := Option.isSome_iff_exists.mp
    (@growLength_isSome 32 4 16 _ rfl (by omega) (by omega) he)
  have hr : t.Resize = some { t with
      list_ := Chains.rehash LRUHandle.keyHash (fun k => bucket p k.2) (List.replicate p.toNat [])
        t.list_
      length_ := p } := by
    rw [Resize, hp]
    rfl
  obtain ⟨hperm, hpow, hle⟩ := Resize_perm hr
  refine ⟨_, hr, ⟨⟨hpow, ?_, ?_, (hperm.map _).nodup_iff.mpr hs.nodup, ?_⟩, ?_⟩, hperm⟩
  · simp [Chains.length_rehash]
  · exact (Chains.placed_replicate _).rehash _
  · rw [hperm.length_eq]
    exact hs.elems
  · -- `elems_ * 1.5` is not above the new length
    dsimp only at hle ⊢
    omega

theorem PowLength.le_of_lt {n : UInt32} (h : PowLength n) (hlt : n.toNat < 2 ^ 31) :
    n.toNat ≤ 2 ^ 30 := by
  obtain ⟨j, -, -, hj⟩ := h
  rw [hj] at hlt ⊢
  have : j < 31 := (Nat.pow_lt_pow_iff_right (by omega)).mp hlt
  exact Nat.pow_le_pow_right (by omega) (by omega)

/-! ## The operations, branch by branch -/

section Branches

variable (hs : Sound t) {h old : LRUHandle V}
include hs

/-- the chain of the bucket of `h` -/
theorem Sound.getElem?_findIdx_handle :
    (t.list_.getD (bucket t.length_ h.hash) [])[(t.list_.getD (bucket t.length_ h.hash) []).findIdx
      fun a => decide (a.keyHash = h.keyHash)]? = Chains.find LRUHandle.keyHash h.keyHash t.contents :=
  hs.getElem?_findIdx h.keyHash

/-- where a handle with `h`'s key and hash is stored, `Insert` puts `h` in its place -/
theorem Sound.Insert_of_find_some (hf : Chains.find LRUHandle.keyHash h.keyHash t.contents = some old) :
    t.Insert h = some ({ t with
        list_ := t.list_.set (bucket t.length_ h.hash)
          ((t.list_.getD (bucket t.length_ h.hash) []).set
            ((t.list_.getD (bucket t.length_ h.hash) []).findIdx
              fun a => decide (a.keyHash = h.keyHash)) h) }, some old) := by
  have hc := hs.getElem?_findIdx_handle (h := h)
  rw [hf] at hc
  rw [Insert, FindPointer_eq]
  dsimp only
  rw [show (h.key, h.hash) = h.keyHash from rfl, hc]

/-- where none is, `Insert` puts `h` in the trailing slot, counts it and may `Resize` -/
theorem Sound.Insert_of_find_none (hf : Chains.find LRUHandle.keyHash h.keyHash t.contents = none) :
    t.Insert h =
      let t' := { t with
        list_ := t.list_.set (bucket t.length_ h.hash) (t.list_.getD (bucket t.length_ h.hash) [] ++ [h])
        elems_ := t.elems_ + 1 }
      if t'.elems_ > t'.length_ then t'.Resize.map (·, none) else some (t', none) := by
  have hc := hs.getElem?_findIdx_handle (h := h)
  rw [hf] at hc
  rw [Insert, FindPointer_eq]
  dsimp only
  rw [show (h.key, h.hash) = h.keyHash from rfl, hc]

theorem Sound.Remove_of_find_some {key : List UInt8} {hash : UInt32}
    (hf : Chains.find LRUHandle.keyHash (key, hash) t.contents = some old) :
    t.Remove key hash = ({ t with
      list_ := t.list_.set (bucket t.length_ hash) ((t.list_.getD (bucket t.length_ hash) []).eraseIdx
        ((t.list_.getD (bucket t.length_ hash) []).findIdx fun a => decide (a.keyHash = (key, hash))))
      elems_ := t.elems_ - 1 }, some old) := by
  have hc := hs.getElem?_findIdx (key, hash)
  rw [hf] at hc
  rw [Remove, FindPointer_eq]
  dsimp only at hc ⊢
  rw [hc]

theorem Sound.Remove_of_find_none {key : List UInt8} {hash : UInt32}
    (hf : Chains.find LRUHandle.keyHash (key, hash) t.contents = none) :
    t.Remove key hash = (t, none) := by
  have hc := hs.getElem?_findIdx (key, hash)
  rw [hf] at hc
  rw [Remove, FindPointer_eq]
  dsimp only at hc ⊢
  rw [hc]

end Branches

/-! ## Each operation keeps the table and answers from the map -/

/-- the place `FindPointer` gives is inside the chain exactly when something is stored there -/
theorem findIdx_lt_of_getElem? {ch : List (LRUHandle V)} {p : LRUHandle V → Bool} {a : LRUHandle V}
    (h : ch[ch.findIdx p]? = some a) : ch.findIdx p < ch.length :=
  (List.getElem?_eq_some_iff.mp h).1

theorem findIdx_eq_length_of_getElem? {ch : List (LRUHandle V)} {p : LRUHandle V → Bool}
    (h : ch[ch.findIdx p]? = none) : ch.findIdx p = ch.length :=
  Nat.le_antisymm List.findIdx_le_length (List.getElem?_eq_none_iff.mp h)

/-- **`Insert`** returns the handle stored under the new handle's key and hash and leaves the map
with the new handle in its place; it returns at all when that map holds no more than `2^31`
handles -/
theorem Inv.insert (hi : Inv t) (h : LRUHandle V)
    (hfit : (MapOp.step LRUHandle.keyHash t.contents (.insert h)).length ≤ 2 ^ 31) :
    ∃ t', t.Insert h = some (t', Chains.find LRUHandle.keyHash h.keyHash t.contents) ∧ Inv t' ∧
      t'.contents.Perm (MapOp.step LRUHandle.keyHash t.contents (.insert h)) := by
  have hs := hi.toSound
  have hc := hs.getElem?_findIdx_handle (h := h)
  have hnd := MapOp.nodup_step hs.nodup (.insert h)
  cases hf : Chains.find LRUHandle.keyHash h.keyHash t.contents with
  | some old =>
    -- `h` in the place of `old`: as many handles as before
    rw [hf] at hc
    have hj := findIdx_lt_of_getElem? hc
    obtain ⟨hs', hp⟩ := hs.setChain (k := h.keyHash) (b := bucket t.length_ h.hash) (n := t.elems_) rfl
      (Chains.set_findIdx_perm (hs.chain_nodup _) hj h) (by simp) hnd (by rw [List.length_set])
    exact ⟨_, hs.Insert_of_find_some hf, ⟨hs', hi.elems_le⟩, hp⟩
  | none =>
    -- `h` in the trailing slot: one handle more
    rw [hf] at hc
    have hj := findIdx_eq_length_of_getElem? hc
    have hle := hi.elems_le
    have hlen : t.length_.toNat ≤ 2 ^ 31 := by
      obtain ⟨j, -, hj31, hj⟩ := hs.length_pow
      rw [hj]
      exact Nat.pow_le_pow_right (by omega) hj31
    have he1 : (t.elems_ + 1).toNat = t.elems_.toNat + 1 := by
      rw [UInt32.toNat_add, UInt32.toNat_one, Nat.mod_eq_of_lt (by omega)]
    obtain ⟨hs', hp⟩ := hs.setChain (k := h.keyHash) (b := bucket t.length_ h.hash) (n := t.elems_ + 1)
      (c := t.list_.getD (bucket t.length_ h.hash) [] ++ [h]) (e := [h]) rfl
      (by rw [Chains.filter_of_findIdx_eq_length hj]) (by simp) hnd
      (by rw [he1, List.length_append, List.length_singleton]; omega)
    -- the map it leaves is the old one and `h`
    rw [Chains.filter_of_find_eq_none hf] at hp
    have hm : MapOp.step LRUHandle.keyHash t.contents (.insert h) = t.contents ++ [h] := by
      rw [MapOp.step, Chains.filter_of_find_eq_none hf]
    have helems := hs.elems
    rw [hm, List.length_append, List.length_singleton] at hfit
    rw [hs.Insert_of_find_none hf, hm]
    dsimp only
    by_cases hgt : t.elems_ + 1 > t.length_
    · -- `elems_` past `length_`: `Resize`, with `elems_ * 1.5` at most `2^31`
      rw [if_pos hgt]
      rw [gt_iff_lt, UInt32.lt_iff_toNat_lt, he1] at hgt
      have h30 := hs.length_pow.le_of_lt (by omega)
      obtain ⟨t', hr, hi', hp'⟩ := hs'.resize (by dsimp only; rw [he1]; omega)
      exact ⟨t', by rw [hr]; rfl, hi', hp'.trans hp⟩
    · -- still no more handles than buckets
      rw [if_neg hgt]
      rw [gt_iff_lt, UInt32.lt_iff_toNat_lt, he1] at hgt
      exact ⟨_, rfl, ⟨hs', by dsimp only; rw [he1]; omega⟩, hp⟩

/-- **`Remove`** returns the handle stored under the key and hash and leaves the map without it -/
theorem Inv.remove (hi : Inv t) (key : List UInt8) (hash : UInt32) :
    ∃ t', t.Remove key hash = (t', Chains.find LRUHandle.keyHash (key, hash) t.contents) ∧ Inv t' ∧
      t'.contents.Perm (MapOp.step LRUHandle.keyHash t.contents (.erase (key, hash))) := by
  have hs := hi.toSound
  have hc := hs.getElem?_findIdx (key, hash)
  dsimp only at hc
  cases hf : Chains.find LRUHandle.keyHash (key, hash) t.contents with
  | some old =>
    -- `old` unlinked: one handle fewer
    rw [hf] at hc
    have hj := findIdx_lt_of_getElem? hc
    have hpos : 1 ≤ t.elems_.toNat := by
      have := List.length_pos_of_mem (List.mem_of_find?_eq_some hf)
      have := hs.elems
      omega
    have he1 : (t.elems_ - 1).toNat = t.elems_.toNat - 1 := by
      rw [UInt32.toNat_sub_of_le _ _ (UInt32.le_iff_toNat_le.mpr (by rw [UInt32.toNat_one]; omega)),
        UInt32.toNat_one]
    obtain ⟨hs', hp⟩ := hs.setChain (k := (key, hash)) (b := bucket t.length_ hash)
      (n := t.elems_ - 1) (e := []) (c := (t.list_.getD (bucket t.length_ hash) []).eraseIdx
        ((t.list_.getD (bucket t.length_ hash) []).findIdx fun a => decide (a.keyHash = (key, hash))))
      rfl
      (by rw [Chains.eraseIdx_findIdx (hs.chain_nodup _) hj, List.append_nil]) (by simp)
      (by rw [List.append_nil]; exact MapOp.nodup_step hs.nodup (.erase (key, hash)))
      (by rw [he1, List.length_eraseIdx, if_pos hj]; omega)
    rw [List.append_nil] at hp
    have hle := hi.elems_le
    exact ⟨_, hs.Remove_of_find_some hf, ⟨hs', by dsimp only; rw [he1]; omega⟩, hp⟩
  | none =>
    -- nothing to unlink
    refine ⟨t, hs.Remove_of_find_none hf, hi, ?_⟩
    rw [MapOp.step, Chains.filter_of_find_eq_none hf]

/-- **One operation** keeps the table and answers from the map its handles are -/
theorem Inv.apply (hi : Inv t) (op : MapOp (LRUHandle V) (List UInt8 × UInt32))
    (hfit : (MapOp.step LRUHandle.keyHash t.contents op).length ≤ 2 ^ 31) :
    ∃ t', t.apply op = some (t', Chains.find LRUHandle.keyHash (MapOp.keyOf LRUHandle.keyHash op)
        t.contents) ∧
      Inv t' ∧ t'.contents.Perm (MapOp.step LRUHandle.keyHash t.contents op) := by
  cases op with
  | insert h => exact hi.insert h hfit
  | erase k =>
    obtain ⟨key, hash⟩ := k
    obtain ⟨t', hr, hi', hp⟩ := hi.remove key hash
    exact ⟨t', by rw [LRUHandleTable.apply, hr]; rfl, hi', hp⟩
  | lookup k =>
    obtain ⟨key, hash⟩ := k
    exact ⟨t, by rw [LRUHandleTable.apply, hi.Lookup_eq]; rfl, hi, List.Perm.rfl⟩

theorem run_cons (op : MapOp (LRUHandle V) (List UInt8 × UInt32)) (ops : List (MapOp (LRUHandle V)
    (List UInt8 × UInt32))) : t.run (op :: ops) = (t.apply op).bind fun r => r.1.run ops := rfl

/-- **A run of operations**, by induction on it from `Inv.apply`: it returns, keeps the table and
leaves the map the operations leave, as long as no map along it holds more than `2^31` handles -/
theorem Inv.run (hi : Inv t) {ops : List (MapOp (LRUHandle V) (List UInt8 × UInt32))}
    (hfit : ∀ n ≤ ops.length,
      (MapOp.run LRUHandle.keyHash t.contents (ops.take n)).length ≤ 2 ^ 31) :
    ∃ t', t.run ops = some t' ∧ Inv t' ∧
      t'.contents.Perm (MapOp.run LRUHandle.keyHash t.contents ops) := by
  induction ops generalizing t with
  | nil => exact ⟨t, rfl, hi, List.Perm.rfl⟩
  | cons op ops ih =>
    -- the first operation, then the rest from the table it leaves
    obtain ⟨t₁, hr₁, hi₁, hp₁⟩ := hi.apply op (hfit 1 (by simp))
    have hfit₁ : ∀ n ≤ ops.length,
        (MapOp.run LRUHandle.keyHash t₁.contents (ops.take n)).length ≤ 2 ^ 31 := fun n hn => by
      rw [(MapOp.run_perm hp₁ _).length_eq]
      exact hfit (n + 1) (by simp; omega)
    obtain ⟨t', hr, hi', hp'⟩ := ih hi₁ hfit₁
    exact ⟨t', by rw [run_cons, hr₁]; exact hr, hi', hp'.trans (MapOp.run_perm hp₁ ops)⟩

theorem run_append (l l' : List (MapOp (LRUHandle V) (List UInt8 × UInt32))) :
    t.run (l ++ l') = (t.run l).bind fun t => t.run l' := by
  induction l generalizing t with
  | nil => rfl
  | cons op l ih =>
    rw [List.cons_append, run_cons, run_cons, Option.bind_assoc]
    congr 1
    funext r
    exact ih

/-! ## From the constructor on -/

theorem new_eq : (new : Option (LRUHandleTable V)) = some ⟨16, 0, List.replicate 16 []⟩ := rfl

theorem contents_replicate (n : UInt32) (k : Nat) :
    (⟨n, 0, List.replicate k []⟩ : LRUHandleTable V).contents = [] :=
  List.flatten_replicate_nil

theorem inv_new_table : Inv (⟨16, 0, List.replicate 16 []⟩ : LRUHandleTable V) :=
  ⟨⟨⟨4, Nat.le_refl 4, by omega, rfl⟩, List.length_replicate, Chains.placed_replicate _,
    by rw [contents_replicate]; exact List.nodup_nil, by rw [contents_replicate]; rfl⟩,
    show (0 : UInt32).toNat ≤ (16 : UInt32).toNat by decide⟩

/-- **The handle table is a finite map**, while it never holds more than `2^31` handles: after any
history of `Insert`, `Remove` and `Lookup` from the constructor on, whose maps never hold more
than `2^31` handles, the table has a power of two from 16 to `2^31` of buckets and counts one
handle per key and hash it stores, and the next operation returns the handle most recently
inserted under its key and hash and not removed since (for `Insert`, the one it displaces).
`Resize` keeps every handle once. -/
theorem handle_table_finite_map (ops : List (MapOp (LRUHandle V) (List UInt8 × UInt32)))
    (op : MapOp (LRUHandle V) (List UInt8 × UInt32))
    (hfit : ∀ n ≤ ops.length + 1,
      (MapOp.run LRUHandle.keyHash [] ((ops ++ [op]).take n)).length ≤ 2 ^ 31) :
    (∃ t, (new.bind fun t => t.run ops) = some t ∧
      (∃ j, 4 ≤ j ∧ j ≤ 31 ∧ t.length_.toNat = 2 ^ j) ∧
      t.elems_.toNat = (t.contents.map LRUHandle.keyHash).dedup.length ∧
      ∃ t', t.apply op =
        some (t', MapOp.latest LRUHandle.keyHash (MapOp.keyOf LRUHandle.keyHash op) ops)) ∧
    ∀ t t' : LRUHandleTable V, t.Resize = some t' → t'.contents.Perm t.contents := by
  refine ⟨?_, fun t t' h => (Resize_perm h).1⟩
  -- the history, from the table the constructor builds
  have hfit₀ : ∀ n ≤ ops.length, (MapOp.run LRUHandle.keyHash
      (⟨16, 0, List.replicate 16 []⟩ : LRUHandleTable V).contents (ops.take n)).length ≤ 2 ^ 31 :=
    fun n hn => by
      have e : (ops ++ [op]).take n = ops.take n := List.take_append_of_le_length hn
      rw [contents_replicate, ← e]
      exact hfit n (by omega)
  obtain ⟨t, hr, hi, hp⟩ := inv_new_table.run hfit₀
  rw [contents_replicate] at hp
  -- then the next operation
  have hstep : (MapOp.step LRUHandle.keyHash t.contents op).length ≤ 2 ^ 31 := by
    rw [(MapOp.step_perm hp op).length_eq]
    have := hfit (ops.length + 1) (Nat.le_refl _)
    rwa [List.take_of_length_le (by simp), MapOp.run, List.foldl_append] at this
  obtain ⟨t', hr', -, -⟩ := hi.apply op hstep
  refine ⟨t, by rw [new_eq]; exact hr, hi.length_pow, ?_, t', ?_⟩
  · rw [hi.nodup.dedup, List.length_map, hi.elems]
  · rw [hr', Chains.find_perm hp hi.nodup, MapOp.find_run_nil]

/-- a handle inserted twice under one key and hash, with another of the same bucket between:
the table answers with the second -/
theorem handle_table_finite_map_reinsert :
    (∀ n ≤ 3 + 1, (MapOp.run LRUHandle.keyHash []
      (([.insert ⟨[1], 7, 10⟩, .insert ⟨[2], 7, 30⟩, .insert ⟨[1], 7, 20⟩, .lookup ([1], 7)] :
        List (MapOp (LRUHandle Nat) (List UInt8 × UInt32))).take n)).length ≤ 2 ^ 31) ∧
    ∃ t t', (new.bind fun t => t.run [.insert ⟨[1], 7, 10⟩, .insert ⟨[2], 7, 30⟩,
        .insert ⟨[1], 7, 20⟩]) = some t ∧
      t.apply (.lookup ([1], 7)) = some (t', some ⟨[1], 7, 20⟩) := by
  have hfit : ∀ n ≤ 3 + 1, (MapOp.run LRUHandle.keyHash []
      (([.insert ⟨[1], 7, 10⟩, .insert ⟨[2], 7, 30⟩, .insert ⟨[1], 7, 20⟩] ++ [.lookup ([1], 7)] :
        List (MapOp (LRUHandle Nat) (List UInt8 × UInt32))).take n)).length ≤ 2 ^ 31 := by
    decide
  obtain ⟨⟨t, hr, -, -, t', ht'⟩, -⟩ := handle_table_finite_map
    [.insert ⟨[1], 7, 10⟩, .insert ⟨[2], 7, 30⟩, .insert ⟨[1], 7, 20⟩] (.lookup ([1], 7)) hfit
  exact ⟨hfit, t, t', hr, ht'.trans rfl⟩

/-! ## Past `2^31` handles -/

/-- a new key and hash inserted into a table that holds `2^31` handles: `elems_` passes
`length_`, which is then `2^31`, and the loop of `Resize` does not end -/
theorem Inv.Insert_of_full (hi : Inv t) (hfull : t.contents.length = 2 ^ 31) {h : LRUHandle V}
    (hf : Chains.find LRUHandle.keyHash h.keyHash t.contents = none) : t.Insert h = none := by
  have hs := hi.toSound
  have he : t.elems_.toNat = 2 ^ 31 := hs.elems.trans hfull
  have hl : t.length_.toNat = 2 ^ 31 := by
    obtain ⟨j, -, hj31, hj⟩ := hs.length_pow
    have := Nat.pow_le_pow_right (show 0 < 2 by omega) hj31
    have := hi.elems_le
    omega
  have he1 : (t.elems_ + 1).toNat = 2 ^ 31 + 1 := by
    rw [UInt32.toNat_add, he, UInt32.toNat_one, Nat.mod_eq_of_lt (by omega)]
  have hg : growLength 32 16 (t.elems_ + 1) = none := growLength_none (by rw [he1]; omega) 32
  rw [hs.Insert_of_find_none hf]
  dsimp only
  rw [if_pos (by rw [gt_iff_lt, UInt32.lt_iff_toNat_lt, he1, hl]; omega)]
  unfold Resize
  dsimp only
  rw [hg]
  rfl

/-- the handles with the empty key and the hashes `0, ..., n - 1` -/
theorem keyHash_range_nodup {n : Nat} (hn : n ≤ 2 ^ 32) :
    (((List.range n).map fun k => (⟨[], UInt32.ofNat k, ()⟩ : LRUHandle Unit)).map
      LRUHandle.keyHash).Nodup := by
  rw [List.map_map]
  refine List.nodup_range.map_on fun x hx y hy hxy => ?_
  have := congrArg (fun k : List UInt8 × UInt32 => k.2.toNat) hxy
  simp only [Function.comp, LRUHandle.keyHash, UInt32.toNat_ofNat'] at this
  rw [List.mem_range] at hx hy
  rwa [Nat.mod_eq_of_lt (by omega), Nat.mod_eq_of_lt (by omega)] at this

/-- the handles with hashes `0, ..., n - 1` inserted into a new table: it holds them all, as long
as they are no more than `2^31` -/
theorem run_range_inserts {n : Nat} (hn : n ≤ 2 ^ 31) :
    ∃ t, (⟨16, 0, List.replicate 16 []⟩ : LRUHandleTable Unit).run
        ((List.range n).map fun k => .insert ⟨[], UInt32.ofNat k, ()⟩) = some t ∧ Inv t ∧
      t.contents.Perm ((List.range n).map fun k => ⟨[], UInt32.ofNat k, ()⟩) := by
  -- the inserts, as the handles they insert
  have hops : ∀ m, ((List.range m).map fun k =>
      (.insert ⟨[], UInt32.ofNat k, ()⟩ : MapOp (LRUHandle Unit) (List UInt8 × UInt32))) =
        ((List.range m).map fun k => (⟨[], UInt32.ofNat k, ()⟩ : LRUHandle Unit)).map .insert :=
    fun m => by rw [List.map_map]; rfl
  -- the map after the first `m` inserts holds the first `m` handles
  have hmap : ∀ m ≤ n, MapOp.run LRUHandle.keyHash []
      (((List.range n).map fun k => .insert ⟨[], UInt32.ofNat k, ()⟩).take m) =
        (List.range m).map fun k => (⟨[], UInt32.ofNat k, ()⟩ : LRUHandle Unit) := fun m hm => by
    rw [← List.map_take, List.take_range, Nat.min_eq_left hm, hops,
      MapOp.run_insert_fresh (by rw [List.nil_append]; exact keyHash_range_nodup (by omega)),
      List.nil_append]
  obtain ⟨t, hr, hi, hp⟩ := inv_new_table.run fun m hm => by
    rw [List.length_map, List.length_range] at hm
    rw [contents_replicate, hmap m hm, List.length_map, List.length_range]
    omega
  rw [contents_replicate, ← List.take_length (l := (List.range n).map fun k =>
    (.insert ⟨[], UInt32.ofNat k, ()⟩ : MapOp (LRUHandle Unit) (List UInt8 × UInt32))),
    hmap _ (by simp)] at hp
  exact ⟨t, hr, hi, by simpa using hp⟩

/-- **The table does not survive `2^31 + 1` handles**: inserting handles with `2^31 + 1` different
hashes one after another into a new table does not return, as no number of rounds ends the loop
of `Resize` for `2^31 + 1` handles -/
theorem handle_table_resize_overflow :
    ((new : Option (LRUHandleTable Unit)).bind fun t =>
      t.run ((List.range (2 ^ 31 + 1)).map fun n => .insert ⟨[], UInt32.ofNat n, ()⟩)) = none ∧
    ∀ fuel, growLength fuel 16 (2 ^ 31 + 1) = none := by
  refine ⟨?_, growLength_none (by decide)⟩
  -- the first `2^31` handles all fit
  obtain ⟨t, hr, hi, hp⟩ := run_range_inserts (Nat.le_refl (2 ^ 31))
  have hfull : t.contents.length = 2 ^ 31 := by rw [hp.length_eq, List.length_map, List.length_range]
  -- then the handle with hash `2^31`, which no handle stored has
  have hf : Chains.find LRUHandle.keyHash ([], UInt32.ofNat (2 ^ 31)) t.contents = none := by
    rw [Chains.find_perm hp hi.nodup, Chains.find, List.find?_eq_none]
    intro a ha hka
    obtain ⟨k, hk, rfl⟩ := List.mem_map.mp ha
    have := congrArg (fun k : List UInt8 × UInt32 => k.2.toNat) (of_decide_eq_true hka)
    simp only [LRUHandle.keyHash, UInt32.toNat_ofNat'] at this
    rw [List.mem_range] at hk
    rw [Nat.mod_eq_of_lt (by omega)] at this
    omega
  rw [List.range_succ, List.map_append, new_eq, Option.bind_some, run_append, hr, Option.bind_some,
    List.map_singleton, run_cons, LRUHandleTable.apply,
    hi.Insert_of_full (h := ⟨[], UInt32.ofNat (2 ^ 31), ()⟩) hfull hf]
  rfl

end LRUHandleTable

end RocksDB
