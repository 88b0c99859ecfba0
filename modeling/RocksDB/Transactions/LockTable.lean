import RocksDB.Transactions.LockMgr

/-!
# The lock table over whole runs

What `TransactionLockMgr` guarantees to the transactions of a `TransactionDB` when no lock
expires (every request carries expiration time 0) and no transaction asks again for a mode it
holds, as `TransactionImpl::TryLock` ensures through its tracked keys:

* `AcquireLocked_cases`      the six outcomes of `AcquireLocked`, from which every later fact
                             about a request is read;
* `unlockedEntry`            the entry of a key once a transaction left it, the effect of
                             `UnLockKey` (`UnLockKey_fst`);
* `UnLock_lockInfo?`,        the exact effect of both `UnLock`s: the second releases the keys of
  `UnLockKeyMap_lockInfo?`   the column families before the first one without lock map;
* `LockStep`, `LockReachable`, `LockReachable.inv`: every reachable table keeps `Inv`;
* `lockTable_mutual_exclusion`: the guarantees `MutualExclusion` lists hold in every reachable
                             table.

`unLockKeyMap_returns_at_dropped_family` is a run in which a transaction's `UnLock(txn,
key_map)` leaves one of its locks in place, because a dropped column family comes first in the
map.
-/

namespace RocksDB

/-- the shape every entry of the table keeps: some holder, no holder twice, and a single holder
when the lock is exclusive -/
structure LockInfo.WellFormed (info : LockInfo) : Prop where
  holders_ne_nil : info.txn_ids ≠ []
  holders_nodup : info.txn_ids.Nodup
  exclusive_sole : info.exclusive = true → info.txn_ids.length = 1

/-- an entry of a table in which no lock expires: absent, or well formed and with expiration
time 0 -/
def EntryOk (o : Option LockInfo) : Prop :=
  ∀ info ∈ o, info.WellFormed ∧ info.expiration_time = 0

theorem entryOk_none : EntryOk none := by
  simp [EntryOk]

theorem entryOk_ofTxn (id : TransactionID) (ex : Bool) : EntryOk (some (.ofTxn id 0 ex)) := by
  simp [EntryOk, LockInfo.ofTxn, LockInfo.WellFormed.mk]

theorem stealLoop_false (steal : TransactionID → Bool) (txn_id : TransactionID)
    (ids : List TransactionID) (expire_time : Nat) :
    (stealLoop steal txn_id ids false expire_time).1 = false := by
  induction ids generalizing expire_time with
  | nil => rfl
  | cons id ids ih =>
    simp only [stealLoop]
    split
    · exact ih expire_time
    · split
      · rfl
      · exact ih 0

/-- a lock that never expires is never stolen -/
theorem IsLockExpired_of_expiration_zero (env : LockEnv) (txn_id : TransactionID) {li : LockInfo}
    (h : li.expiration_time = 0) (expire_time : Nat) :
    (IsLockExpired env txn_id li expire_time).1 = false := by
  simp [IsLockExpired, h, stealLoop_false]

namespace TransactionLockMgr

section Acquire

variable (mgr : TransactionLockMgr) (lock_cnt : Int) (stripe : LockMapStripe) (key : List UInt8)
  (env : LockEnv) (id : TransactionID) (time : Nat) (ex : Bool) (expire_time : Nat)
  (txn_ids : List TransactionID)

/-- the six outcomes of `AcquireLocked` on the request of one transaction -/
theorem AcquireLocked_cases :
    (stripe.keys key = none ∧ (mgr.max_num_locks_ > 0 ∧ lock_cnt ≥ mgr.max_num_locks_) ∧
      mgr.AcquireLocked lock_cnt stripe key env (.ofTxn id time ex) expire_time txn_ids =
        ⟨.Busy .kLockLimit, lock_cnt, stripe, expire_time, txn_ids⟩) ∨
    (stripe.keys key = none ∧ ¬(mgr.max_num_locks_ > 0 ∧ lock_cnt ≥ mgr.max_num_locks_) ∧
      mgr.AcquireLocked lock_cnt stripe key env (.ofTxn id time ex) expire_time txn_ids =
        ⟨.OK, if mgr.max_num_locks_ ≠ 0 then lock_cnt + 1 else lock_cnt,
          stripe.set key (some (.ofTxn id time ex)), expire_time, txn_ids⟩) ∨
    (∃ li, stripe.keys key = some li ∧ (li.exclusive || ex) = true ∧ li.txn_ids = [id] ∧
      mgr.AcquireLocked lock_cnt stripe key env (.ofTxn id time ex) expire_time txn_ids =
        ⟨.OK, lock_cnt, stripe.set key (some { li with exclusive := ex, expiration_time := time }),
          expire_time, txn_ids⟩) ∨
    (∃ li et, stripe.keys key = some li ∧ (li.exclusive || ex) = true ∧ li.txn_ids ≠ [id] ∧
      IsLockExpired env id li expire_time = (true, et) ∧
      mgr.AcquireLocked lock_cnt stripe key env (.ofTxn id time ex) expire_time txn_ids =
        ⟨.OK, lock_cnt, stripe.set key (some (.ofTxn id time ex)), et, txn_ids⟩) ∨
    (∃ li et, stripe.keys key = some li ∧ (li.exclusive || ex) = true ∧ li.txn_ids ≠ [id] ∧
      IsLockExpired env id li expire_time = (false, et) ∧
      mgr.AcquireLocked lock_cnt stripe key env (.ofTxn id time ex) expire_time txn_ids =
        ⟨.TimedOut .kLockTimeout, lock_cnt, stripe, et, li.txn_ids⟩) ∨
    (∃ li, stripe.keys key = some li ∧ li.exclusive = false ∧ ex = false ∧
      mgr.AcquireLocked lock_cnt stripe key env (.ofTxn id time ex) expire_time txn_ids =
        ⟨.OK, lock_cnt, stripe.set key (some { li with
            txn_ids := li.txn_ids ++ [id], expiration_time := max li.expiration_time time }),
          expire_time, txn_ids⟩) := by
  unfold AcquireLocked
  cases hk : stripe.keys key with
  | none =>
    by_cases hl : mgr.max_num_locks_ > 0 ∧ lock_cnt ≥ mgr.max_num_locks_
    · exact .inl ⟨rfl, hl, by simp [hl]⟩
    · exact .inr (.inl ⟨rfl, hl, by simp [hl]⟩)
  | some li =>
    simp only [LockInfo.ofTxn, List.headD_cons, List.length_eq_one_and_head?_iff]
    refine .inr (.inr ?_)
    by_cases hx : (li.exclusive || ex) = true
    · by_cases hs : li.txn_ids = [id]
      · exact .inl ⟨li, rfl, hx, hs, by simp [hx, hs]⟩
      · obtain ⟨expired, et, hE⟩ : ∃ e t, IsLockExpired env id li expire_time = (e, t) :=
          ⟨_, _, rfl⟩
        cases expired
        · exact .inr (.inr (.inl ⟨li, et, rfl, hx, hs, hE, by simp [hx, hs, hE]⟩))
        · exact .inr (.inl ⟨li, et, rfl, hx, hs, hE, by simp [hx, hs, hE]⟩)
    · have hsh : li.exclusive = false ∧ ex = false := by simpa using hx
      exact .inr (.inr (.inr ⟨li, rfl, hsh.1, hsh.2, by simp [hx]⟩))

/-- a refused request leaves the stripe and the count as they were and reports the holders -/
theorem AcquireLocked_refused
    (h : (mgr.AcquireLocked lock_cnt stripe key env (.ofTxn id time ex) expire_time []).status.ok
      = false) :
    (mgr.AcquireLocked lock_cnt stripe key env (.ofTxn id time ex) expire_time []).stripe = stripe ∧
    (mgr.AcquireLocked lock_cnt stripe key env (.ofTxn id time ex) expire_time []).lock_cnt =
      lock_cnt ∧
    (mgr.AcquireLocked lock_cnt stripe key env (.ofTxn id time ex) expire_time []).txn_ids =
      holdersOf (stripe.keys key) := by
  rcases AcquireLocked_cases mgr lock_cnt stripe key env id time ex expire_time [] with
    ⟨hk, -, hr⟩ | ⟨hk, -, hr⟩ | ⟨li, hk, -, -, hr⟩ | ⟨li, et, hk, -, -, -, hr⟩ |
    ⟨li, et, hk, -, -, -, hr⟩ | ⟨li, hk, -, -, hr⟩ <;>
  rw [hr] at h ⊢ <;> simp_all [holdersOf]

/-- where no lock expires, a request that is granted on a held key whose lock is exclusive, or
is itself exclusive, comes from the key's sole holder -/
theorem AcquireLocked_granted (hexp : ∀ li ∈ stripe.keys key, li.expiration_time = 0)
    (h : (mgr.AcquireLocked lock_cnt stripe key env (.ofTxn id time ex) expire_time []).status.ok
      = true) :
    ∀ li ∈ stripe.keys key, (li.exclusive || ex) = true → li.txn_ids = [id] := by
  intro li hli hx
  rcases AcquireLocked_cases mgr lock_cnt stripe key env id time ex expire_time [] with
    ⟨hk, -, hr⟩ | ⟨hk, -, -⟩ | ⟨li', hk, -, hs, -⟩ | ⟨li', et, hk, -, -, hE, -⟩ |
    ⟨li', et, hk, -, -, -, hr⟩ | ⟨li', hk, hl, he, -⟩
  · rw [hr] at h; simp at h
  · simp [hk] at hli
  · simp [hk] at hli; subst hli; exact hs
  · simp only [hk, Option.mem_def, Option.some.injEq] at hli
    subst hli
    have := IsLockExpired_of_expiration_zero env id (hexp _ hk) expire_time
    simp [hE] at this
  · rw [hr] at h; simp at h
  · simp only [hk, Option.mem_def, Option.some.injEq] at hli
    subst hli
    simp [hl, he] at hx

/-- the entry a request leaves behind is well formed when the key's entry was and the
transaction does not ask again for the mode it holds -/
theorem AcquireLocked_entry (hold : EntryOk (stripe.keys key))
    (hre : ∀ li ∈ stripe.keys key, id ∈ li.txn_ids → li.exclusive ≠ ex) :
    ∃ o, EntryOk o ∧
      (mgr.AcquireLocked lock_cnt stripe key env (.ofTxn id 0 ex) expire_time []).stripe =
        stripe.set key o := by
  rcases AcquireLocked_cases mgr lock_cnt stripe key env id 0 ex expire_time [] with
    ⟨hk, -, hr⟩ | ⟨hk, -, hr⟩ | ⟨li, hk, -, hs, hr⟩ | ⟨li, et, hk, -, -, -, hr⟩ |
    ⟨li, et, hk, -, -, -, hr⟩ | ⟨li, hk, hl, he, hr⟩ <;> rw [hr]
  · exact ⟨_, hold, (LockMapStripe.set_self _ _).symm⟩
  · exact ⟨_, entryOk_ofTxn id ex, rfl⟩
  · refine ⟨_, ?_, rfl⟩
    simp [EntryOk, hs, LockInfo.WellFormed.mk]
  · exact ⟨_, entryOk_ofTxn id ex, rfl⟩
  · exact ⟨_, hold, (LockMapStripe.set_self _ _).symm⟩
  · -- a shared request joins a shared lock: the requester is not among its holders yet
    obtain ⟨hwf, hexp⟩ := hold li hk
    have hid : id ∉ li.txn_ids := fun hm => hre li hk hm (by rw [hl, he])
    refine ⟨_, ?_, rfl⟩
    intro info hinfo
    simp only [Option.mem_def, Option.some.injEq] at hinfo
    subst hinfo
    refine ⟨⟨by simp, ?_, by simp [hl]⟩, by simp [hexp]⟩
    exact hwf.holders_nodup.append (List.nodup_singleton id) (by simpa using hid)

end Acquire


/-- a request that `TransactionImpl::TryLock` can make: it never asks again for the mode it
holds -/
def NoReRequest (mgr : TransactionLockMgr) (txn : TransactionID) (cf : UInt32)
    (key : List UInt8) (exclusive : Bool) : Prop :=
  ∀ info ∈ mgr.lockInfo? cf key, txn ∈ info.txn_ids → info.exclusive ≠ exclusive

/-- the invariant of a lock table in which no lock expires: every entry is `EntryOk` -/
def Inv (mgr : TransactionLockMgr) : Prop :=
  ∀ cf key, EntryOk (mgr.lockInfo? cf key)

section TryLock

variable {mgr mgr' : TransactionLockMgr} {txn : TransactionID} {time : Nat} {cf : UInt32}
  {key : List UInt8} {env : LockEnv} {ex : Bool} {s : Status} {w : List TransactionID}

/-- what a `TryLock` that returns did: refuse for want of a lock map, or run `AcquireLocked` on
the key's stripe and write the stripe and the count back -/
theorem TryLock_eq_some (h : mgr.TryLock txn time cf key env ex = some (s, w, mgr')) :
    (mgr.lock_maps_ cf = none ∧ s.ok = false ∧ w = [] ∧ mgr' = mgr) ∨
    ∃ lock_map stripe, mgr.lock_maps_ cf = some lock_map ∧
      lock_map.stripeAt (lock_map.GetStripe key) = some stripe ∧
      s = (mgr.AcquireLocked lock_map.lock_cnt stripe key env (.ofTxn txn time ex) 0 []).status ∧
      w = (mgr.AcquireLocked lock_map.lock_cnt stripe key env (.ofTxn txn time ex) 0 []).txn_ids ∧
      mgr' = mgr.setLockMap cf (lock_map.update (lock_map.GetStripe key)
        (mgr.AcquireLocked lock_map.lock_cnt stripe key env (.ofTxn txn time ex) 0 []).stripe
        (mgr.AcquireLocked lock_map.lock_cnt stripe key env (.ofTxn txn time ex) 0 []).lock_cnt) := by
  unfold TryLock at h
  cases hlm : mgr.lock_maps_ cf with
  | none =>
    simp only [hlm, Option.some.injEq, Prod.mk.injEq] at h
    obtain ⟨rfl, rfl, rfl⟩ := h
    exact .inl ⟨rfl, rfl, rfl, rfl⟩
  | some lock_map =>
    rw [hlm] at h
    obtain ⟨stripe, hs, hr⟩ := Option.map_eq_some_iff.mp h
    simp only [Prod.mk.injEq] at hr
    obtain ⟨rfl, rfl, rfl⟩ := hr
    exact .inr ⟨lock_map, stripe, rfl, hs, rfl, rfl, rfl⟩


/-- a refused request changes nothing and reports the key's holders -/
theorem TryLock_refused (h : mgr.TryLock txn time cf key env ex = some (s, w, mgr'))
    (hs : s.ok = false) : mgr' = mgr ∧ w = mgr.holders cf key := by
  rcases TryLock_eq_some h with ⟨hlm, -, rfl, rfl⟩ | ⟨lock_map, stripe, hlm, hst, rfl, rfl, rfl⟩
  · exact ⟨rfl, by simp [holders, lockInfo?, hlm, holdersOf]⟩
  · obtain ⟨h1, h2, h3⟩ := AcquireLocked_refused mgr _ stripe key env txn time ex 0 hs
    rw [h1, h2, h3, LockMap.update_self hst, setLockMap_self hlm, holders,
      lockInfo?_of_stripe hlm hst]
    exact ⟨rfl, rfl⟩

/-- where no lock expires, a granted request finds the key free, shared with a shared request,
or held by the requester alone -/
theorem TryLock_granted (h : mgr.TryLock txn time cf key env ex = some (s, w, mgr'))
    (hs : s.ok = true) (hinv : mgr.Inv) :
    ∀ info ∈ mgr.lockInfo? cf key, (info.exclusive || ex) = true → info.txn_ids = [txn] := by
  rcases TryLock_eq_some h with ⟨-, hs', -, -⟩ | ⟨lock_map, stripe, hlm, hst, rfl, -, -⟩
  · simp [hs'] at hs
  · rw [lockInfo?_of_stripe hlm hst]
    have hexp : ∀ li ∈ stripe.keys key, li.expiration_time = 0 := fun li hli =>
      (hinv cf key li (by rwa [lockInfo?_of_stripe hlm hst])).2
    exact AcquireLocked_granted mgr _ stripe key env txn time ex 0 hexp hs

/-- a request without expiration changes the entry of its key only, and leaves it `EntryOk` -/
theorem TryLock_lockInfo? (h : mgr.TryLock txn 0 cf key env ex = some (s, w, mgr'))
    (hinv : mgr.Inv) (hre : mgr.NoReRequest txn cf key ex) :
    ∃ o, EntryOk o ∧ ∀ c k, mgr'.lockInfo? c k = if c = cf ∧ k = key then o else mgr.lockInfo? c k := by
  rcases TryLock_eq_some h with ⟨-, -, -, rfl⟩ | ⟨lock_map, stripe, hlm, hst, -, -, rfl⟩
  · refine ⟨_, hinv cf key, fun c k => ?_⟩
    split
    · rename_i hck; rw [hck.1, hck.2]
    · rfl
  · have hold := hinv cf key
    rw [lockInfo?_of_stripe hlm hst] at hold
    have hre' : ∀ li ∈ stripe.keys key, txn ∈ li.txn_ids → li.exclusive ≠ ex := by
      rw [← lockInfo?_of_stripe hlm hst]; exact hre
    obtain ⟨o, ho, hst'⟩ := AcquireLocked_entry mgr lock_map.lock_cnt stripe key env txn ex 0 hold hre'
    exact ⟨o, ho, fun c k => by rw [hst', lockInfo?_writeBack hlm hst]⟩

end TryLock


end TransactionLockMgr

/-! ## Release -/

/-- the entry of a key once `txn_id` has given up its lock on it -/
def unlockedEntry (txn_id : TransactionID) : Option LockInfo → Option LockInfo
  | some info =>
    if txn_id ∈ info.txn_ids then
      if info.txn_ids.length = 1 then none
      else some { info with txn_ids := info.txn_ids.swapRemove (info.txn_ids.idxOf txn_id) }
    else some info
  | none => none

section Release

variable {txn : TransactionID} {o : Option LockInfo}

theorem EntryOk.holders_nodup (h : EntryOk o) : (holdersOf o).Nodup := by
  cases o with
  | none => exact List.nodup_nil
  | some info => exact (h info rfl).1.holders_nodup

theorem mem_holdersOf_unlockedEntry (hnd : (holdersOf o).Nodup) (x : TransactionID) :
    x ∈ holdersOf (unlockedEntry txn o) ↔ x ∈ holdersOf o ∧ x ≠ txn := by
  cases o with
  | none => simp [unlockedEntry, holdersOf]
  | some info =>
    simp only [holdersOf] at hnd
    simp only [unlockedEntry]
    by_cases hm : txn ∈ info.txn_ids
    · rw [if_pos hm]
      split
      · -- the last holder: the entry goes
        rename_i hl
        obtain ⟨a, ha⟩ := List.length_eq_one_iff.mp hl
        rw [ha, List.mem_singleton] at hm
        simp [holdersOf, ha, hm]
      · exact hnd.mem_swapRemove_idxOf hm
    · rw [if_neg hm]
      simp only [holdersOf]
      exact ⟨fun hx => ⟨hx, fun he => hm (he ▸ hx)⟩, And.left⟩

theorem unlockedEntry_nodup (hnd : (holdersOf o).Nodup) : (holdersOf (unlockedEntry txn o)).Nodup := by
  cases o with
  | none => exact List.nodup_nil
  | some info =>
    simp only [holdersOf] at hnd
    simp only [unlockedEntry]
    split
    · split
      · exact List.nodup_nil
      · rename_i hm _
        exact hnd.swapRemove_idxOf hm
    · exact hnd

/-- releasing twice is releasing once: the first release leaves no copy of the holder -/
theorem unlockedEntry_unlockedEntry (hnd : (holdersOf o).Nodup) :
    unlockedEntry txn (unlockedEntry txn o) = unlockedEntry txn o := by
  cases h : unlockedEntry txn o with
  | none => rfl
  | some info =>
    have hnot : txn ∉ info.txn_ids := by
      intro hm
      have hm' : txn ∈ holdersOf (unlockedEntry txn o) := by rw [h]; exact hm
      exact ((mem_holdersOf_unlockedEntry hnd txn).mp hm').2 rfl
    simp [unlockedEntry, hnot]

theorem entryOk_unlockedEntry (h : EntryOk o) : EntryOk (unlockedEntry txn o) := by
  cases o with
  | none => exact entryOk_none
  | some info =>
    obtain ⟨hwf, hexp⟩ := h info rfl
    simp only [unlockedEntry]
    split
    · split
      · exact entryOk_none
      · rename_i hm hl
        -- two holders or more: the lock was shared, and one holder remains at least
        have hsh : info.exclusive = false := by
          cases hx : info.exclusive
          · rfl
          · exact absurd (hwf.exclusive_sole hx) hl
        have hlen : (info.txn_ids.swapRemove (info.txn_ids.idxOf txn)).length + 1 =
            info.txn_ids.length := by
          rw [(List.swapRemove_idxOf_perm hm).length_eq, List.length_erase_of_mem hm]
          have := List.length_pos_of_mem hm
          omega
        have hne : info.txn_ids.swapRemove (info.txn_ids.idxOf txn) ≠ [] := by
          intro hnil
          rw [hnil, List.length_nil] at hlen
          exact hl hlen.symm
        intro i hi
        simp only [Option.mem_def, Option.some.injEq] at hi
        subst hi
        exact ⟨⟨hne, hwf.holders_nodup.swapRemove_idxOf hm, by simp [hsh]⟩, hexp⟩
    · exact h

/-- two rounds of release over the key sets `p` and `q` are one round over their union -/
theorem unlockedEntry_union {p q : Prop} [Decidable p] [Decidable q] (hnd : (holdersOf o).Nodup) :
    (if q then unlockedEntry txn (if p then unlockedEntry txn o else o)
      else if p then unlockedEntry txn o else o) =
    if p ∨ q then unlockedEntry txn o else o := by
  by_cases hp : p <;> by_cases hq : q <;> simp [hp, hq, unlockedEntry_unlockedEntry hnd]

end Release

namespace TransactionLockMgr

variable {mgr mgr' : TransactionLockMgr} {txn : TransactionID}

/-- `UnLockKey` replaces the entry of its key by the released one -/
theorem UnLockKey_fst (mgr : TransactionLockMgr) (txn : TransactionID) (key : List UInt8)
    (stripe : LockMapStripe) (lock_cnt : Int) :
    (mgr.UnLockKey txn key stripe lock_cnt).1 = stripe.set key (unlockedEntry txn (stripe.keys key)) := by
  unfold UnLockKey
  cases hk : stripe.keys key with
  | none => exact (LockMapStripe.set_self stripe key).symm.trans (by rw [hk]; rfl)
  | some info =>
    simp only [unlockedEntry]
    split
    · split <;> rfl
    · rw [← hk, LockMapStripe.set_self]

/-- `UnLock(txn, cf, key)` releases the entry of `(cf, key)` and no other -/
theorem UnLock_lockInfo? {cf : UInt32} {key : List UInt8} (h : mgr.UnLock txn cf key = some mgr')
    (c : UInt32) (k : List UInt8) :
    mgr'.lockInfo? c k =
      if c = cf ∧ k = key then unlockedEntry txn (mgr.lockInfo? cf key) else mgr.lockInfo? c k := by
  unfold UnLock at h
  cases hlm : mgr.lock_maps_ cf with
  | none =>
    -- the column family was dropped: nothing is locked in it
    rw [hlm, Option.some.injEq] at h
    subst h
    split
    · rename_i hck
      rw [hck.1, hck.2]
      simp [lockInfo?, hlm, unlockedEntry]
    · rfl
  | some lock_map =>
    rw [hlm] at h
    obtain ⟨stripe, hst, rfl⟩ := Option.map_eq_some_iff.mp h
    dsimp only
    rw [UnLockKey_fst, lockInfo?_writeBack hlm hst, lockInfo?_of_stripe hlm hst]

theorem UnLockKeys_cons (mgr : TransactionLockMgr) (txn : TransactionID) (key : List UInt8)
    (keys : List (List UInt8)) (stripe : LockMapStripe) (lock_cnt : Int) :
    mgr.UnLockKeys txn (key :: keys) stripe lock_cnt =
      mgr.UnLockKeys txn keys (mgr.UnLockKey txn key stripe lock_cnt).1
        (mgr.UnLockKey txn key stripe lock_cnt).2 := rfl

/-- the keys of a bucket are released one after the other, each once -/
theorem UnLockKeys_keys (mgr : TransactionLockMgr) (txn : TransactionID)
    (keys : List (List UInt8)) (stripe : LockMapStripe) (lock_cnt : Int)
    (hnd : ∀ k ∈ keys, (holdersOf (stripe.keys k)).Nodup) (k : List UInt8) :
    (mgr.UnLockKeys txn keys stripe lock_cnt).1.keys k =
      if k ∈ keys then unlockedEntry txn (stripe.keys k) else stripe.keys k := by
  induction keys generalizing stripe lock_cnt with
  | nil => simp [UnLockKeys]
  | cons key keys ih =>
    have hnd' : ∀ k ∈ keys, (holdersOf ((mgr.UnLockKey txn key stripe lock_cnt).1.keys k)).Nodup := by
      intro k hk
      rw [UnLockKey_fst, LockMapStripe.set_keys]
      split
      · subst_vars; exact unlockedEntry_nodup (hnd _ List.mem_cons_self)
      · exact hnd k (List.mem_cons_of_mem _ hk)
    rw [UnLockKeys_cons, ih _ _ hnd', UnLockKey_fst, LockMapStripe.set_keys]
    by_cases hk : k = key
    · subst hk
      simp [unlockedEntry_unlockedEntry (hnd k List.mem_cons_self)]
    · simp [hk]

end TransactionLockMgr

/-! ## Buckets -/

section Buckets

variable {f : List UInt8 → Nat} {B : List (Nat × List (List UInt8))}

theorem mem_flatMap_pushToBucket (n : Nat) (key k : List UInt8) :
    k ∈ (pushToBucket n key B).flatMap Prod.snd ↔ k ∈ B.flatMap Prod.snd ∨ k = key := by
  induction B with
  | nil => simp [pushToBucket]
  | cons b B ih =>
    obtain ⟨m, keys⟩ := b
    simp only [pushToBucket]
    split
    · simp only [List.flatMap_cons, List.mem_append, List.mem_singleton]
      tauto
    · simp [ih, or_assoc]

theorem pushToBucket_stripe (hB : ∀ b ∈ B, ∀ k ∈ b.2, f k = b.1) {n : Nat} {key : List UInt8}
    (hk : f key = n) : ∀ b ∈ pushToBucket n key B, ∀ k ∈ b.2, f k = b.1 := by
  induction B with
  | nil => simp [pushToBucket, hk]
  | cons b B ih =>
    obtain ⟨m, keys⟩ := b
    simp only [pushToBucket]
    split
    · rename_i hm
      intro b hb k hk'
      rcases List.mem_cons.mp hb with rfl | hb
      · rcases List.mem_append.mp hk' with hk' | hk'
        · exact hB _ List.mem_cons_self k hk'
        · rw [List.mem_singleton.mp hk', hk, hm]
      · exact hB b (List.mem_cons_of_mem _ hb) k hk'
    · intro b hb k hk'
      rcases List.mem_cons.mp hb with rfl | hb
      · exact hB _ List.mem_cons_self k hk'
      · exact ih (fun b hb => hB b (List.mem_cons_of_mem _ hb)) b hb k hk'

/-- every key of a bucket is sent to the bucket's stripe, and the buckets hold exactly the
keys -/
theorem keysByStripe_spec (lock_map : LockMap) (keys : List (List UInt8)) :
    (∀ b ∈ lock_map.keysByStripe keys, ∀ k ∈ b.2, lock_map.GetStripe k = b.1) ∧
    ∀ k, k ∈ (lock_map.keysByStripe keys).flatMap Prod.snd ↔ k ∈ keys := by
  -- the fold, from any accumulator of well-placed buckets
  suffices h : ∀ (acc : List (Nat × List (List UInt8))),
      (∀ b ∈ acc, ∀ k ∈ b.2, lock_map.GetStripe k = b.1) →
      (∀ b ∈ keys.foldl (fun bs key => pushToBucket (lock_map.GetStripe key) key bs) acc,
        ∀ k ∈ b.2, lock_map.GetStripe k = b.1) ∧
      ∀ k, k ∈ (keys.foldl (fun bs key => pushToBucket (lock_map.GetStripe key) key bs) acc).flatMap
        Prod.snd ↔ k ∈ acc.flatMap Prod.snd ∨ k ∈ keys by
    obtain ⟨h1, h2⟩ := h [] (by simp)
    exact ⟨h1, fun k => (h2 k).trans (by simp)⟩
  induction keys with
  | nil => intro acc hacc; exact ⟨hacc, fun k => by simp⟩
  | cons key keys ih =>
    intro acc hacc
    obtain ⟨h1, h2⟩ := ih _ (pushToBucket_stripe hacc rfl)
    refine ⟨h1, fun k => ?_⟩
    rw [List.foldl_cons, h2, mem_flatMap_pushToBucket, List.mem_cons]
    tauto

end Buckets

namespace TransactionLockMgr

variable {mgr mgr' : TransactionLockMgr} {txn : TransactionID}

/-- the buckets of one column family: each key of a bucket is released in the bucket's stripe -/
theorem UnLockStripes_view {B : List (Nat × List (List UInt8))} {lock_map lock_map' : LockMap}
    (hB : ∀ b ∈ B, ∀ k ∈ b.2, lock_map.GetStripe k = b.1)
    (hnd : ∀ k, (holdersOf (lock_map.view k)).Nodup)
    (h : mgr.UnLockStripes txn lock_map B = some lock_map') (k : List UInt8) :
    lock_map'.view k =
      if k ∈ B.flatMap Prod.snd then unlockedEntry txn (lock_map.view k) else lock_map.view k := by
  induction B generalizing lock_map with
  | nil =>
    rw [UnLockStripes, Option.some.injEq] at h
    subst h
    simp
  | cons b B ih =>
    obtain ⟨n, keys⟩ := b
    unfold UnLockStripes at h
    cases hst : lock_map.stripeAt n with
    | none => rw [hst] at h; cases h
    | some stripe =>
      rw [hst] at h
      -- the keys of the bucket read their entries from `stripe`
      have hview : ∀ k ∈ keys, stripe.keys k = lock_map.view k := fun k hk => by
        simp [LockMap.view, hB _ List.mem_cons_self k hk, hst]
      have hkeys := UnLockKeys_keys mgr txn keys stripe lock_map.lock_cnt
        (fun k hk => hview k hk ▸ hnd k)
      -- after the first bucket
      have hfirst : ∀ k, (lock_map.update n (mgr.UnLockKeys txn keys stripe lock_map.lock_cnt).1
          (mgr.UnLockKeys txn keys stripe lock_map.lock_cnt).2).view k =
          if k ∈ keys then unlockedEntry txn (lock_map.view k) else lock_map.view k := by
        intro k
        rw [LockMap.view_update hst, hkeys]
        by_cases hs : lock_map.GetStripe k = n
        · rw [if_pos hs]
          by_cases hk : k ∈ keys
          · rw [if_pos hk, if_pos hk, hview k hk]
          · rw [if_neg hk, if_neg hk]
            simp [LockMap.view, hs, hst]
        · have hk : k ∉ keys := fun hk => hs (hB _ List.mem_cons_self k hk)
          rw [if_neg hs, if_neg hk]
      have hnd' : ∀ k, (holdersOf ((lock_map.update n (mgr.UnLockKeys txn keys stripe
          lock_map.lock_cnt).1 (mgr.UnLockKeys txn keys stripe lock_map.lock_cnt).2).view k)).Nodup := by
        intro k
        rw [hfirst]
        split
        · exact unlockedEntry_nodup (hnd k)
        · exact hnd k
      have hB' : ∀ b ∈ B, ∀ k ∈ b.2, (lock_map.update n (mgr.UnLockKeys txn keys stripe
          lock_map.lock_cnt).1 (mgr.UnLockKeys txn keys stripe lock_map.lock_cnt).2).GetStripe k =
          b.1 := fun b hb => hB b (List.mem_cons_of_mem _ hb)
      rw [ih hB' hnd' h, hfirst, unlockedEntry_union (hnd k)]
      simp only [List.flatMap_cons, List.mem_append]


/-- `UnLock(txn, key_map)` releases the keys of the column families it visits, those before the
first one without lock map, and no other entry -/
theorem UnLockKeyMap_lockInfo? {key_map : KeyMap} (hnd : ∀ c k, (mgr.holders c k).Nodup)
    (h : mgr.UnLockKeyMap txn key_map = some mgr') (c : UInt32) (k : List UInt8) :
    mgr'.lockInfo? c k =
      if KeyMap.has (key_map.takeWhile fun e => (mgr.lock_maps_ e.1).isSome) c k then
        unlockedEntry txn (mgr.lockInfo? c k) else mgr.lockInfo? c k := by
  induction key_map generalizing mgr with
  | nil =>
    rw [UnLockKeyMap, Option.some.injEq] at h
    subst h
    simp [KeyMap.has]
  | cons e rest ih =>
    obtain ⟨cf, keys⟩ := e
    unfold UnLockKeyMap at h
    cases hlm : mgr.lock_maps_ cf with
    | none =>
      -- `return`: the loop ends at a column family without lock map
      rw [hlm, Option.some.injEq] at h
      subst h
      simp [hlm, KeyMap.has]
    | some lock_map =>
      cases hS : mgr.UnLockStripes txn lock_map (lock_map.keysByStripe keys) with
      | none => simp [hlm, hS] at h
      | some lock_map' =>
        simp only [hlm, hS] at h
        obtain ⟨hB, hmem⟩ := keysByStripe_spec lock_map keys
        have hview := UnLockStripes_view hB
          (fun k => by simpa [holders, lockInfo?_of_lockMap hlm] using hnd cf k) hS
        -- the lock table after this column family
        have hstep : ∀ c k, (mgr.setLockMap cf lock_map').lockInfo? c k =
            if c = cf ∧ k ∈ keys then unlockedEntry txn (mgr.lockInfo? c k)
            else mgr.lockInfo? c k := by
          intro c k
          rw [lockInfo?_setLockMap]
          by_cases hc : c = cf
          · subst hc
            rw [hview, lockInfo?_of_lockMap hlm]
            simp [hmem]
          · simp [hc]
        have hnd' : ∀ c k, ((mgr.setLockMap cf lock_map').holders c k).Nodup := by
          intro c k
          rw [holders, hstep]
          split
          · exact unlockedEntry_nodup (hnd c k)
          · exact hnd c k
        have hsome : (fun e : UInt32 × List (List UInt8) =>
            ((mgr.setLockMap cf lock_map').lock_maps_ e.1).isSome) =
            fun e => (mgr.lock_maps_ e.1).isSome := by
          funext e
          rw [lock_maps_setLockMap]
          split
          · subst_vars; simp [hlm]
          · rfl
        rw [ih hnd' h, hsome, hstep, unlockedEntry_union (hnd c k),
          List.takeWhile_cons_of_pos (by simp [hlm])]
        refine if_congr ?_ rfl rfl
        simp only [KeyMap.has, List.any_cons, Bool.or_eq_true, Bool.and_eq_true, beq_iff_eq,
          List.contains_iff_mem]
        rw [@eq_comm _ cf c]


/-! ## The lock table over whole runs -/

theorem noReRequest_of_free {cf : UInt32} {key : List UInt8} (h : mgr.lockInfo? cf key = none)
    (ex : Bool) : mgr.NoReRequest txn cf key ex := by
  intro info hi
  rw [Option.mem_def, h] at hi
  cases hi

theorem Inv.holders_nodup (h : mgr.Inv) (cf : UInt32) (key : List UInt8) :
    (mgr.holders cf key).Nodup :=
  (h cf key).holders_nodup

theorem inv_new (default_num_stripes : Nat) (max_num_locks : Int) :
    (TransactionLockMgr.new default_num_stripes max_num_locks).Inv := by
  intro cf key
  simp [lockInfo?, new, entryOk_none]

/-- a request changes the table by the rule of its kind, and keeps it `Inv` -/
inductive LockStep : TransactionLockMgr → TransactionLockMgr → Prop
  | AddColumnFamily (mgr : TransactionLockMgr) (cf : UInt32) : LockStep mgr (mgr.AddColumnFamily cf)
  | RemoveColumnFamily (mgr : TransactionLockMgr) (cf : UInt32) :
      LockStep mgr (mgr.RemoveColumnFamily cf)
  | TryLock {mgr mgr' : TransactionLockMgr} (env : LockEnv) (txn : TransactionID) (cf : UInt32)
      (key : List UInt8) (exclusive : Bool) (s : Status) (w : List TransactionID) :
      mgr.NoReRequest txn cf key exclusive →
      mgr.TryLock txn 0 cf key env exclusive = some (s, w, mgr') → LockStep mgr mgr'
  | UnLock {mgr mgr' : TransactionLockMgr} (txn : TransactionID) (cf : UInt32) (key : List UInt8) :
      mgr.UnLock txn cf key = some mgr' → LockStep mgr mgr'
  | UnLockKeyMap {mgr mgr' : TransactionLockMgr} (txn : TransactionID) (key_map : KeyMap) :
      mgr.UnLockKeyMap txn key_map = some mgr' → LockStep mgr mgr'

/-- the lock tables a `TransactionDB` can reach from its constructor -/
inductive LockReachable : TransactionLockMgr → Prop
  | new (default_num_stripes : Nat) (max_num_locks : Int) :
      LockReachable (TransactionLockMgr.new default_num_stripes max_num_locks)
  | step {mgr mgr' : TransactionLockMgr} : LockReachable mgr → LockStep mgr mgr' → LockReachable mgr'

theorem LockStep.inv (hinv : mgr.Inv) (hs : LockStep mgr mgr') : mgr'.Inv := by
  cases hs with
  | AddColumnFamily cf =>
    intro c k
    rw [lockInfo?_AddColumnFamily]
    exact hinv c k
  | RemoveColumnFamily cf =>
    intro c k
    rw [lockInfo?_RemoveColumnFamily]
    split
    · exact entryOk_none
    · exact hinv c k
  | TryLock env txn cf key ex s w hre ht =>
    obtain ⟨o, ho, heq⟩ := TryLock_lockInfo? ht hinv hre
    intro c k
    rw [heq]
    split
    · exact ho
    · exact hinv c k
  | UnLock txn cf key hu =>
    intro c k
    rw [UnLock_lockInfo? hu]
    split
    · exact entryOk_unlockedEntry (hinv cf key)
    · exact hinv c k
  | UnLockKeyMap txn key_map hu =>
    intro c k
    rw [UnLockKeyMap_lockInfo? hinv.holders_nodup hu]
    split
    · exact entryOk_unlockedEntry (hinv c k)
    · exact hinv c k

theorem LockReachable.inv (h : LockReachable mgr) : mgr.Inv := by
  induction h with
  | new n m => exact inv_new n m
  | step _ hs ih => exact hs.inv ih


/-- `mgr'` is `mgr` with `txn` taken out of the holders of the keys `touched` selects, and with
every other entry as it was -/
def ReleasedFrom (mgr' mgr : TransactionLockMgr) (txn : TransactionID)
    (touched : UInt32 → List UInt8 → Prop) : Prop :=
  ∀ cf key, (touched cf key → ∀ x, x ∈ mgr'.holders cf key ↔ x ∈ mgr.holders cf key ∧ x ≠ txn) ∧
    (¬ touched cf key → mgr'.lockInfo? cf key = mgr.lockInfo? cf key)

theorem releasedFrom_of {touched : UInt32 → List UInt8 → Prop}
    (hnd : ∀ c k, (mgr.holders c k).Nodup)
    (hin : ∀ c k, touched c k → mgr'.lockInfo? c k = unlockedEntry txn (mgr.lockInfo? c k))
    (hout : ∀ c k, ¬ touched c k → mgr'.lockInfo? c k = mgr.lockInfo? c k) :
    mgr'.ReleasedFrom mgr txn touched := by
  intro c k
  refine ⟨fun ht x => ?_, hout c k⟩
  rw [holders, hin c k ht]
  exact mem_holdersOf_unlockedEntry (hnd c k) x

/-- what the lock table guarantees in a state where no lock expires: every entry is absent,
exclusive with one holder, or shared by distinct holders; an exclusive request is granted only
on a free key or to its sole holder, a shared one only where no other transaction holds the key
exclusively; a refused request changes nothing and reports the holders as `wait_ids`;
`UnLock(txn, cf, key)` takes `txn` out of that key's holders and changes nothing else, and
`UnLock(txn, key_map)` does so for every key of the map when each of its column families has a
lock map -/
structure MutualExclusion (mgr : TransactionLockMgr) : Prop where
  wellFormed : ∀ cf key info, mgr.lockInfo? cf key = some info → info.WellFormed
  exclusive_granted : ∀ env txn cf key s w mgr', mgr.TryLock txn 0 cf key env true = some (s, w, mgr') →
    s.ok = true → mgr.holders cf key = [] ∨ mgr.holders cf key = [txn]
  shared_granted : ∀ env txn cf key s w mgr', mgr.TryLock txn 0 cf key env false = some (s, w, mgr') →
    s.ok = true → ∀ info, mgr.lockInfo? cf key = some info → info.exclusive = true →
      info.txn_ids = [txn]
  refused_unchanged : ∀ env txn cf key exclusive s w mgr',
    mgr.TryLock txn 0 cf key env exclusive = some (s, w, mgr') → s.ok = false →
      mgr' = mgr ∧ w = mgr.holders cf key
  unLock_releases : ∀ txn cf key mgr', mgr.UnLock txn cf key = some mgr' →
    mgr'.ReleasedFrom mgr txn fun c k => c = cf ∧ k = key
  unLockKeyMap_releases : ∀ txn key_map mgr', mgr.UnLockKeyMap txn key_map = some mgr' →
    (∀ e ∈ key_map, (mgr.lock_maps_ e.1).isSome = true) →
      mgr'.ReleasedFrom mgr txn fun c k => key_map.has c k = true

theorem lockTable_mutual_exclusion (h : LockReachable mgr) : mgr.MutualExclusion := by
  have hinv := h.inv
  constructor
  · exact fun cf key info hi => (hinv cf key info hi).1
  · intro env txn cf key s w mgr' ht hs
    cases hl : mgr.lockInfo? cf key with
    | none => exact .inl (by simp [holders, hl, holdersOf])
    | some info =>
      refine .inr ?_
      simp only [holders, hl, holdersOf]
      exact TryLock_granted ht hs hinv info hl (Bool.or_true _)
  · intro env txn cf key s w mgr' ht hs info hi hx
    exact TryLock_granted ht hs hinv info hi (by simp [hx])
  · exact fun env txn cf key ex s w mgr' ht hs => TryLock_refused ht hs
  · intro txn cf key mgr' hu
    apply releasedFrom_of hinv.holders_nodup
    · rintro c k ⟨rfl, rfl⟩
      rw [UnLock_lockInfo? hu, if_pos ⟨rfl, rfl⟩]
    · intro c k hck
      rw [UnLock_lockInfo? hu, if_neg hck]
  · intro txn key_map mgr' hu hall
    -- every column family of the map has a lock map: the loop visits them all
    have htw : key_map.takeWhile (fun e => (mgr.lock_maps_ e.1).isSome) = key_map :=
      List.takeWhile_eq_self_iff.mpr hall
    apply releasedFrom_of hinv.holders_nodup
    · intro c k hk
      rw [UnLockKeyMap_lockInfo? hinv.holders_nodup hu, htw, if_pos hk]
    · intro c k hk
      rw [UnLockKeyMap_lockInfo? hinv.holders_nodup hu, htw, if_neg hk]

theorem lockTable_mutual_exclusion_addColumnFamily :
    ((TransactionLockMgr.new 16 0).AddColumnFamily 0).MutualExclusion :=
  lockTable_mutual_exclusion (.step (.new 16 0) (.AddColumnFamily _ 0))

/-- a transaction locks a key in column families 0 and 1, and family 1 is dropped: `UnLock` of
its key map, family 1 first, returns before it reaches family 0, where the lock stays -/
theorem unLockKeyMap_returns_at_dropped_family :
    ∃ mgr mgr', LockReachable mgr ∧ KeyMap.has [(1, [[1]]), (0, [[1]])] 0 [1] = true ∧
      mgr.UnLockKeyMap 7 [(1, [[1]]), (0, [[1]])] = some mgr' ∧ mgr'.holders 0 [1] = [7] := by
  let env : LockEnv := ⟨0, fun _ => false⟩
  let m2 := ((TransactionLockMgr.new 16 0).AddColumnFamily 0).AddColumnFamily 1
  let m3 := ((m2.TryLock 7 0 0 [1] env true).map (·.2.2)).getD m2
  let m4 := ((m3.TryLock 7 0 1 [1] env true).map (·.2.2)).getD m3
  let m5 := m4.RemoveColumnFamily 1
  have r2 : LockReachable m2 :=
    .step (.step (.new 16 0) (.AddColumnFamily _ 0)) (.AddColumnFamily _ 1)
  have r3 : LockReachable m3 :=
    .step r2 (.TryLock env 7 0 [1] true .OK [] (noReRequest_of_free (by decide) true) rfl)
  have r4 : LockReachable m4 :=
    .step r3 (.TryLock env 7 1 [1] true .OK [] (noReRequest_of_free (by decide) true) rfl)
  exact ⟨m5, _, .step r4 (.RemoveColumnFamily _ 1), by decide,
    (rfl : m5.UnLockKeyMap 7 [(1, [[1]]), (0, [[1]])] = some m5), by decide⟩

end TransactionLockMgr

end RocksDB
