import RocksDB.Transactions.LockMgr

/-!
# utilities/transactions/transaction_base.cc: the keys a transaction tracks

A transaction records, per column family and key, the earliest sequence number it validated the
key at, how often it read (`GetForUpdate`) and wrote the key, and whether it asked for an
exclusive lock (`TransactionKeyMapInfo`).  The same record is kept since the last save point
in the save point's `new_keys_`.  The two counts are `uint32_t`, and `num_reads++` wraps to 0
after `2^32` reads.

* `TransactionKeyMap`        `unordered_map<uint32_t, unordered_map<string, TransactionKeyMapInfo>>`
                             as an association list of association lists (`AList`), read through
                             `find`; `toList` is the iteration of the two nested loops;
* `TransactionKeyMap.TrackKey` the static `TrackKey(key_map, ...)`;
* `numReads`, `numWrites`    the counts of a key as numbers, 0 where it is not tracked; one
                             `TrackKey` adds one modulo `2^32` (`numReads_TrackKey`), proved
                             once for either counter (`countOf_TrackKey`).

Every loop of the source over a key map changes the record of the key it visits and no other;
`view_foldl_toList` says once what such a loop does to every record.
-/

namespace RocksDB

/-- `TransactionKeyMapInfo` -/
structure TransactionKeyMapInfo where
  seq : Nat
  num_writes : UInt32
  num_reads : UInt32
  exclusive : Bool
  deriving DecidableEq, Repr

/-- `TransactionKeyMapInfo(seq_no)`: no read, no write, not exclusive -/
def TransactionKeyMapInfo.new (seq_no : Nat) : TransactionKeyMapInfo := ⟨seq_no, 0, 0, false⟩

/-- the body of the static `TrackKey` on the record of the key: a new record at `seq` where there
is none, else the old one moved back to the earlier sequence number; then one more read or write,
and exclusive once asked so -/
def TransactionKeyMapInfo.track (o : Option TransactionKeyMapInfo) (seq : Nat)
    (read_only exclusive : Bool) : TransactionKeyMapInfo :=
  let info := match o with
    | none => TransactionKeyMapInfo.new seq
    | some info => if seq < info.seq then { info with seq := seq } else info
  let info := if read_only then { info with num_reads := info.num_reads + 1 }
    else { info with num_writes := info.num_writes + 1 }
  { info with exclusive := info.exclusive || exclusive }

namespace TransactionKeyMapInfo

variable (o : Option TransactionKeyMapInfo) (seq : Nat) (read_only exclusive : Bool)

@[simp] theorem track_exclusive :
    (track o seq read_only exclusive).exclusive = ((o.map (·.exclusive)).getD false || exclusive) := by
  cases o with
  | none => cases read_only <;> rfl
  | some info => by_cases hs : seq < info.seq <;> cases read_only <;> simp [track, hs]

@[simp] theorem track_num_reads :
    (track o seq read_only exclusive).num_reads =
      (o.map (·.num_reads)).getD 0 + if read_only then 1 else 0 := by
  cases o with
  | none => cases read_only <;> rfl
  | some info => by_cases hs : seq < info.seq <;> cases read_only <;> simp [track, hs]

@[simp] theorem track_num_writes :
    (track o seq read_only exclusive).num_writes =
      (o.map (·.num_writes)).getD 0 + if read_only then 0 else 1 := by
  cases o with
  | none => cases read_only <;> rfl
  | some info => by_cases hs : seq < info.seq <;> cases read_only <;> simp [track, hs]

@[simp] theorem track_seq :
    (track o seq read_only exclusive).seq = min ((o.map (·.seq)).getD seq) seq := by
  cases o with
  | none => cases read_only <;> simp [track, new]
  | some info =>
    by_cases hs : seq < info.seq
    · cases read_only <;> simp [track, hs, Nat.min_eq_right (Nat.le_of_lt hs)]
    · cases read_only <;> simp [track, hs, Nat.min_eq_left (Nat.le_of_not_lt hs)]

end TransactionKeyMapInfo

/-- `TransactionKeyMapInfoMap`: the tracked keys of one column family -/
abbrev TransactionKeyMapInfoMap := AList fun _ : List UInt8 => TransactionKeyMapInfo

/-- `TransactionKeyMap`: the tracked keys of every column family -/
abbrev TransactionKeyMap := AList fun _ : UInt32 => TransactionKeyMapInfoMap

namespace TransactionKeyMap

/-- the record of a key, where there is one -/
def find (key_map : TransactionKeyMap) (cf : UInt32) (key : List UInt8) :
    Option TransactionKeyMapInfo :=
  (key_map.lookup cf).bind fun keys => keys.lookup key

/-- `(*key_map)[cf]` read: the keys of a column family, none where it has no entry -/
def cfKeys (key_map : TransactionKeyMap) (cf : UInt32) : TransactionKeyMapInfoMap :=
  (key_map.lookup cf).getD ∅

/-- `(*key_map)[cf]` as an lvalue: an empty entry for the column family where it has none -/
def ensureCf (key_map : TransactionKeyMap) (cf : UInt32) : TransactionKeyMap :=
  if cf ∈ key_map then key_map else key_map.insert cf ∅

/-- the record of a key replaced or inserted -/
def setKey (key_map : TransactionKeyMap) (cf : UInt32) (key : List UInt8)
    (info : TransactionKeyMapInfo) : TransactionKeyMap :=
  key_map.insert cf ((key_map.cfKeys cf).insert key info)

/-- `(*key_map)[cf].erase(key)` -/
def eraseKey (key_map : TransactionKeyMap) (cf : UInt32) (key : List UInt8) :
    TransactionKeyMap :=
  key_map.insert cf ((key_map.cfKeys cf).erase key)

/-- the static `TransactionBaseImpl::TrackKey(key_map, cfh_id, key, seq, read_only, exclusive)` -/
def TrackKey (key_map : TransactionKeyMap) (cfh_id : UInt32) (key : List UInt8) (seq : Nat)
    (read_only exclusive : Bool) : TransactionKeyMap :=
  key_map.setKey cfh_id key (.track (key_map.find cfh_id key) seq read_only exclusive)

/-- the records in the order of the loops `for (cf, keys : key_map) for (key, info : keys)` -/
def toList (key_map : TransactionKeyMap) : List (UInt32 × List UInt8 × TransactionKeyMapInfo) :=
  key_map.entries.flatMap fun e => e.2.entries.map fun k => (e.1, k.1, k.2)

/-- the map as `TransactionLockMgr::UnLock` reads it: the column families with their keys -/
def keyMap (key_map : TransactionKeyMap) : KeyMap :=
  key_map.entries.map fun e => (e.1, e.2.keys)

/-- the reads of a key the map counts, as a number -/
def numReads (key_map : TransactionKeyMap) (cf : UInt32) (key : List UInt8) : Nat :=
  ((key_map.find cf key).map (·.num_reads.toNat)).getD 0

/-- the writes of a key the map counts, as a number -/
def numWrites (key_map : TransactionKeyMap) (cf : UInt32) (key : List UInt8) : Nat :=
  ((key_map.find cf key).map (·.num_writes.toNat)).getD 0

theorem find_setKey (m : TransactionKeyMap) (cf key info c k) :
    (m.setKey cf key info).find c k = if c = cf ∧ k = key then some info else m.find c k := by
  by_cases hc : c = cf
  · subst hc
    by_cases hk : k = key
    · subst hk; simp [find, setKey, AList.lookup_insert]
    · simp [find, setKey, AList.lookup_insert, AList.lookup_insert_ne hk, hk, cfKeys]
      cases m.lookup c <;> simp
  · simp [find, setKey, AList.lookup_insert_ne hc, hc]

/-- the record of a key set twice is the second -/
theorem setKey_setKey (m : TransactionKeyMap) (cf key info info') :
    (m.setKey cf key info).setKey cf key info' = m.setKey cf key info' := by
  simp [setKey, cfKeys, AList.lookup_insert, AList.insert_insert]

theorem find_eraseKey (m : TransactionKeyMap) (cf key c k) :
    (m.eraseKey cf key).find c k = if c = cf ∧ k = key then none else m.find c k := by
  by_cases hc : c = cf
  · subst hc
    by_cases hk : k = key
    · subst hk; simp [find, eraseKey, AList.lookup_insert, AList.lookup_erase]
    · simp [find, eraseKey, AList.lookup_insert, AList.lookup_erase_ne hk, hk, cfKeys]
      cases m.lookup c <;> simp
  · simp [find, eraseKey, AList.lookup_insert_ne hc, hc]

@[simp] theorem find_ensureCf (m : TransactionKeyMap) (cf c k) :
    (m.ensureCf cf).find c k = m.find c k := by
  unfold ensureCf
  split
  · rfl
  · rename_i hm
    by_cases hc : c = cf
    · subst hc; simp [find, AList.lookup_insert, AList.lookup_eq_none.mpr hm]
    · simp [find, AList.lookup_insert_ne hc]

@[simp] theorem find_empty (c k) : (∅ : TransactionKeyMap).find c k = none := by
  simp [find]

theorem find_TrackKey (m : TransactionKeyMap) (cf key seq read_only exclusive c k) :
    (m.TrackKey cf key seq read_only exclusive).find c k =
      if c = cf ∧ k = key then some (.track (m.find cf key) seq read_only exclusive)
      else m.find c k :=
  find_setKey m cf key _ c k

theorem mem_setKey (m : TransactionKeyMap) (cf key info c) :
    c ∈ m.setKey cf key info ↔ c = cf ∨ c ∈ m :=
  AList.mem_insert m

theorem mem_eraseKey (m : TransactionKeyMap) (cf key c) :
    c ∈ m.eraseKey cf key ↔ c = cf ∨ c ∈ m :=
  AList.mem_insert m

theorem mem_ensureCf (m : TransactionKeyMap) (cf c) : c ∈ m.ensureCf cf ↔ c = cf ∨ c ∈ m := by
  unfold ensureCf
  split
  · rename_i h
    exact ⟨Or.inr, fun h' => h'.elim (fun hc => hc ▸ h) id⟩
  · exact AList.mem_insert m

theorem mem_TrackKey (m : TransactionKeyMap) (cf key seq read_only exclusive c) :
    c ∈ m.TrackKey cf key seq read_only exclusive ↔ c = cf ∨ c ∈ m :=
  mem_setKey m cf key _ c

theorem mem_of_find_eq_some {m : TransactionKeyMap} {c k i} (h : m.find c k = some i) : c ∈ m := by
  obtain ⟨inner, hl, -⟩ := Option.bind_eq_some_iff.mp h
  exact AList.lookup_isSome.mp (by rw [hl]; rfl)

theorem mem_toList (m : TransactionKeyMap) (c k i) : (c, k, i) ∈ m.toList ↔ m.find c k = some i := by
  simp only [toList, List.mem_flatMap, List.mem_map, Prod.mk.injEq, find, Option.bind_eq_some_iff]
  constructor
  · rintro ⟨⟨c', inner⟩, he, ⟨k', i'⟩, hk, rfl, rfl, rfl⟩
    exact ⟨inner, AList.mem_lookup_iff.mpr he, AList.mem_lookup_iff.mpr hk⟩
  · rintro ⟨inner, hi, hk⟩
    exact ⟨⟨c, inner⟩, AList.mem_lookup_iff.mp hi, ⟨k, i⟩, AList.mem_lookup_iff.mp hk, rfl, rfl, rfl⟩

theorem toList_keys_nodup (m : TransactionKeyMap) :
    (m.toList.map fun e => (e.1, e.2.1)).Nodup := by
  rw [toList, List.map_flatMap, List.nodup_flatMap]
  refine ⟨fun e _ => ?_, ?_⟩
  · rw [List.map_map]
    have h : (e.2.entries.map ((fun e' => (e'.1, e'.2.1)) ∘ fun k => (e.1, k.1, k.2))) =
        e.2.keys.map (Prod.mk e.1) := by
      simp [AList.keys, List.keys]
    rw [h]
    exact e.2.keys_nodup.map fun x y hxy => (Prod.mk.inj hxy).2
  · refine (List.nodupKeys_iff_pairwise.mp m.nodupKeys).imp fun {a b} hab => ?_
    intro x hxa hxb
    simp only [List.map_map, List.mem_map, Function.comp] at hxa hxb
    obtain ⟨p, -, rfl⟩ := hxa
    obtain ⟨q, -, hq⟩ := hxb
    exact hab (congrArg Prod.fst hq).symm

section Loop

variable {σ ν : Type*} (view : σ → UInt32 × List UInt8 → ν)
  (g : UInt32 × List UInt8 × TransactionKeyMapInfo → ν → ν)
  (step : σ → UInt32 × List UInt8 × TransactionKeyMapInfo → σ)

/-- a loop over the records of a map whose body changes the view at its own key only changes
the view at each key once, by the map's record for that key -/
theorem view_foldl_toList
    (hstep : ∀ s e x, view (step s e) x = if (e.1, e.2.1) = x then g e (view s x) else view s x)
    (m : TransactionKeyMap) (s : σ) (c : UInt32) (k : List UInt8) :
    view (m.toList.foldl step s) (c, k) =
      match m.find c k with
      | some i => g (c, k, i) (view s (c, k))
      | none => view s (c, k) := by
  cases hf : m.find c k with
  | none =>
    -- no record of the map has this key
    refine List.view_foldl_of_forall_ne view (fun e => (e.1, e.2.1)) g step hstep ?_ s
    rintro ⟨c', k', i⟩ he hk
    simp only [Prod.mk.injEq] at hk
    obtain ⟨rfl, rfl⟩ := hk
    rw [(mem_toList m _ _ _).mp he] at hf
    cases hf
  | some i =>
    exact List.view_foldl_of_mem view (fun e => (e.1, e.2.1)) g step hstep
      (toList_keys_nodup m) ((mem_toList m c k i).mpr hf) s

end Loop

theorem has_keyMap (m : TransactionKeyMap) (c k) : KeyMap.has m.keyMap c k = (m.find c k).isSome := by
  rw [Bool.eq_iff_iff]
  simp only [KeyMap.has, keyMap, List.any_map, List.any_eq_true, Function.comp, Bool.and_eq_true,
    beq_iff_eq, List.contains_iff_mem, find, Option.isSome_bind]
  constructor
  · rintro ⟨⟨c', inner⟩, he, rfl, hk⟩
    have hl : m.lookup c' = some inner := AList.mem_lookup_iff.mpr he
    simpa [hl, AList.lookup_isSome, AList.mem_keys] using hk
  · intro h
    cases hl : m.lookup c with
    | none => simp [hl] at h
    | some inner =>
      simp only [hl, Option.any_some, AList.lookup_isSome] at h
      exact ⟨⟨c, inner⟩, AList.mem_lookup_iff.mp hl, rfl, AList.mem_keys.mp h⟩

/-- the column families `UnLock` visits are those of the map -/
theorem mem_keyMap_fst {m : TransactionKeyMap} {e : UInt32 × List (List UInt8)}
    (h : e ∈ m.keyMap) : e.1 ∈ m := by
  obtain ⟨⟨c, inner⟩, he, rfl⟩ := List.mem_map.mp h
  exact AList.mem_keys.mpr (List.mem_map_of_mem he)

section Counter

/-! Both counts of a record are `uint32_t` fields that `TrackKey` moves on by one for the calls
it counts, reads or writes; what that does to the count of a key is proved once for a counter
`field`, then for `num_reads` and for `num_writes`. -/

/-- the counter `field` of the record of a key as a number, 0 where the key is not tracked -/
def countOf (field : TransactionKeyMapInfo → UInt32) (key_map : TransactionKeyMap) (cf : UInt32)
    (key : List UInt8) : Nat :=
  ((key_map.find cf key).map fun info => (field info).toNat).getD 0

variable (field : TransactionKeyMapInfo → UInt32)

theorem countOf_lt (m : TransactionKeyMap) (c k) : countOf field m c k < 2 ^ 32 := by
  unfold countOf
  cases m.find c k with
  | none => simp
  | some info => exact (field info).toNat_lt

variable {p : Prop} [Decidable p] (m : TransactionKeyMap) (cf key seq read_only exclusive)
  (hfield : ∀ o, field (.track o seq read_only exclusive) = (o.map field).getD 0 + if p then 1 else 0)
include hfield

/-- a `TrackKey` that counts in `field` where `p` holds adds one to its key's count, modulo
`2^32` -/
theorem countOf_TrackKey (c k) :
    countOf field (m.TrackKey cf key seq read_only exclusive) c k =
      (countOf field m c k + if c = cf ∧ k = key ∧ p then 1 else 0) % 2 ^ 32 := by
  unfold countOf
  rw [find_TrackKey]
  by_cases h : c = cf ∧ k = key
  · obtain ⟨rfl, rfl⟩ := h
    rw [if_pos ⟨rfl, rfl⟩, Option.map_some, Option.getD_some, hfield]
    cases m.find c k with
    | none => by_cases hp : p <;> simp [hp]
    | some info =>
      -- the `uint32_t` sum read as a number
      have := (field info).toNat_lt
      by_cases hp : p <;> simp [hp, UInt32.toNat_add, Nat.mod_eq_of_lt this]
  · rw [if_neg h, if_neg fun h' => h ⟨h'.1, h'.2.1⟩, Nat.add_zero]
    exact (Nat.mod_eq_of_lt (countOf_lt field m c k)).symm

/-- below `2^32` the count does not wrap -/
theorem countOf_TrackKey_of_lt (hb : countOf field m cf key + 1 < 2 ^ 32) (c k) :
    countOf field (m.TrackKey cf key seq read_only exclusive) c k =
      countOf field m c k + if c = cf ∧ k = key ∧ p then 1 else 0 := by
  rw [countOf_TrackKey field m cf key seq read_only exclusive hfield]
  apply Nat.mod_eq_of_lt
  by_cases h : c = cf ∧ k = key
  · obtain ⟨rfl, rfl⟩ := h
    split <;> omega
  · have := countOf_lt field m c k
    rw [if_neg fun h' => h ⟨h'.1, h'.2.1⟩]
    omega

/-- counts that split into those of a second map and a rest keep splitting when both maps track
the key, while the first stays below `2^32` -/
theorem countOf_TrackKey_of_split {n : TransactionKeyMap} {rest : UInt32 → List UInt8 → Nat}
    (hsplit : ∀ c k, countOf field m c k = countOf field n c k + rest c k)
    (hb : countOf field m cf key + 1 < 2 ^ 32) (c k) :
    countOf field (m.TrackKey cf key seq read_only exclusive) c k =
      countOf field (n.TrackKey cf key seq read_only exclusive) c k + rest c k := by
  -- the second map counts no more than the first, so neither count wraps
  have hn := hsplit cf key
  rw [countOf_TrackKey_of_lt field m cf key seq read_only exclusive hfield hb,
    countOf_TrackKey_of_lt field n cf key seq read_only exclusive hfield (by omega), hsplit c k]
  omega

end Counter

/-- `num_writes` counts the calls that are not read only -/
theorem track_num_writes_ite (o seq read_only exclusive) :
    (TransactionKeyMapInfo.track o seq read_only exclusive).num_writes =
      (o.map (·.num_writes)).getD 0 + if read_only = false then 1 else 0 := by
  rw [TransactionKeyMapInfo.track_num_writes]
  cases read_only <;> rfl

/-- `TrackKey` counts one more read of its key, modulo `2^32` where the `uint32_t` wraps -/
@[simp] theorem numReads_TrackKey (m : TransactionKeyMap) (cf key seq read_only exclusive c k) :
    (m.TrackKey cf key seq read_only exclusive).numReads c k =
      (m.numReads c k + if c = cf ∧ k = key ∧ read_only = true then 1 else 0) % 2 ^ 32 :=
  countOf_TrackKey (·.num_reads) m cf key seq read_only exclusive
    (TransactionKeyMapInfo.track_num_reads · seq read_only exclusive) c k

@[simp] theorem numWrites_TrackKey (m : TransactionKeyMap) (cf key seq read_only exclusive c k) :
    (m.TrackKey cf key seq read_only exclusive).numWrites c k =
      (m.numWrites c k + if c = cf ∧ k = key ∧ read_only = false then 1 else 0) % 2 ^ 32 :=
  countOf_TrackKey (·.num_writes) m cf key seq read_only exclusive
    (track_num_writes_ite · seq read_only exclusive) c k

/-- below `2^32`, `TrackKey` counts one more read of its key -/
theorem numReads_TrackKey_of_lt (m : TransactionKeyMap) (cf key seq read_only exclusive)
    (hb : m.numReads cf key + 1 < 2 ^ 32) (c k) :
    (m.TrackKey cf key seq read_only exclusive).numReads c k =
      m.numReads c k + if c = cf ∧ k = key ∧ read_only = true then 1 else 0 :=
  countOf_TrackKey_of_lt (·.num_reads) m cf key seq read_only exclusive
    (TransactionKeyMapInfo.track_num_reads · seq read_only exclusive) hb c k

theorem numWrites_TrackKey_of_lt (m : TransactionKeyMap) (cf key seq read_only exclusive)
    (hb : m.numWrites cf key + 1 < 2 ^ 32) (c k) :
    (m.TrackKey cf key seq read_only exclusive).numWrites c k =
      m.numWrites c k + if c = cf ∧ k = key ∧ read_only = false then 1 else 0 :=
  countOf_TrackKey_of_lt (·.num_writes) m cf key seq read_only exclusive
    (track_num_writes_ite · seq read_only exclusive) hb c k

@[simp] theorem numReads_ensureCf (m : TransactionKeyMap) (cf c k) :
    (m.ensureCf cf).numReads c k = m.numReads c k := by
  simp [numReads]

@[simp] theorem numWrites_ensureCf (m : TransactionKeyMap) (cf c k) :
    (m.ensureCf cf).numWrites c k = m.numWrites c k := by
  simp [numWrites]

@[simp] theorem numReads_empty (c k) : (∅ : TransactionKeyMap).numReads c k = 0 := by
  simp [numReads]

@[simp] theorem numWrites_empty (c k) : (∅ : TransactionKeyMap).numWrites c k = 0 := by
  simp [numWrites]

end TransactionKeyMap

end RocksDB
