import RocksDB.Transactions.LockTable

/-!
# utilities/transactions: the stripe of a key, and the count of locked keys

* `ValidateTxnDBOptions`   `num_stripes` 0 becomes 1; the lock manager of a `TransactionDB` makes
                           every lock map with that many stripes;
* `LockMap.GetStripe`      returns 1 for every key, so a lock map with one stripe has no stripe
                           for any key (`stripeAt_GetStripe_of_one`) and `TryLock` and `UnLock`
                           throw there;
* `lock_cnt`               `AcquireLocked` adds one for a key it locks anew and nothing for a
                           holder joining a shared lock; `UnLockKey` takes one off for every holder
                           it removes, also where the key stays locked by the other holders, so the
                           count falls below the number of locked keys.
-/

namespace RocksDB

/-- `TransactionDBImpl::ValidateTxnDBOptions` on the option it changes -/
def ValidateTxnDBOptions (num_stripes : Nat) : Nat :=
  if num_stripes = 0 then 1 else num_stripes

namespace LockMap

variable {lock_map : LockMap}

theorem stripeAt_GetStripe_of_one (h : lock_map.num_stripes_ = 1) (key : List UInt8) :
    lock_map.stripeAt (lock_map.GetStripe key) = none := by
  rw [stripeAt, GetStripe, List.getElem?_eq_none]
  rw [lock_map.stripes_length, h]

end LockMap

namespace TransactionLockMgr

variable {mgr : TransactionLockMgr} {cf : UInt32} {lock_map : LockMap}

theorem lock_maps_AddColumnFamily_self (mgr : TransactionLockMgr) (cf : UInt32)
    (h : mgr.lock_maps_ cf = none) :
    (mgr.AddColumnFamily cf).lock_maps_ cf = some (LockMap.new mgr.default_num_stripes_) := by
  simp [AddColumnFamily, h]

/-! ## Stripes -/

section Stripes

variable (txn : TransactionID) (time : Nat) (key : List UInt8) (env : LockEnv) (ex : Bool)

theorem TryLock_of_one_stripe (h : mgr.lock_maps_ cf = some lock_map)
    (h1 : lock_map.num_stripes_ = 1) : mgr.TryLock txn time cf key env ex = none := by
  simp [TryLock, h, LockMap.stripeAt_GetStripe_of_one h1]

theorem UnLock_of_one_stripe (h : mgr.lock_maps_ cf = some lock_map)
    (h1 : lock_map.num_stripes_ = 1) : mgr.UnLock txn cf key = none := by
  simp [UnLock, h, LockMap.stripeAt_GetStripe_of_one h1]

end Stripes

/-- a `TransactionDB` opened with `num_stripes = 0` gets lock maps of one stripe: every `TryLock`
and every `UnLock` of a key of an added column family reads `lock_map_stripes_.at(1)` and throws -/
theorem single_stripe_lock_out_of_range (max_num_locks : Int) (cf : UInt32) (txn : TransactionID)
    (time : Nat) (key : List UInt8) (env : LockEnv) (ex : Bool) :
    ((TransactionLockMgr.new (ValidateTxnDBOptions 0) max_num_locks).AddColumnFamily cf).TryLock
        txn time cf key env ex = none ∧
      ((TransactionLockMgr.new (ValidateTxnDBOptions 0) max_num_locks).AddColumnFamily cf).UnLock
        txn cf key = none := by
  have hlm := lock_maps_AddColumnFamily_self
    (TransactionLockMgr.new (ValidateTxnDBOptions 0) max_num_locks) cf rfl
  have h1 : (LockMap.new (ValidateTxnDBOptions 0)).num_stripes_ = 1 := rfl
  exact ⟨TryLock_of_one_stripe txn time key env ex hlm h1, UnLock_of_one_stripe txn key hlm h1⟩

/-! ## The count of locked keys -/

/-- `lock_cnt` of the lock map of a column family -/
def lockCount (mgr : TransactionLockMgr) (cf : UInt32) : Option Int :=
  (mgr.lock_maps_ cf).map (·.lock_cnt)

theorem noReRequest_of_not_mem {txn : TransactionID} {key : List UInt8}
    (h : ∀ info ∈ mgr.lockInfo? cf key, txn ∉ info.txn_ids) (ex : Bool) :
    mgr.NoReRequest txn cf key ex :=
  fun info hi hm => absurd hm (h info hi)

/-- with a limit of one locked key: transactions 1 and 2 share a lock on key `[1]` and release it,
which leaves the count at -1 with no key locked; transaction 3 then locks keys `[2]` and `[3]`,
two keys under a limit of one -/
theorem shared_unlock_lock_count_negative :
    ∃ mgr mgr', LockReachable mgr ∧ mgr.max_num_locks_ = 1 ∧ mgr.lockCount 0 = some (-1) ∧
      (∀ k ∈ [[1], [2], [3]], mgr.lockInfo? 0 k = none) ∧
      LockReachable mgr' ∧ mgr'.max_num_locks_ = 1 ∧ mgr'.lockCount 0 = some 1 ∧
      mgr'.holders 0 [2] = [3] ∧ mgr'.holders 0 [3] = [3] := by
  let env : LockEnv := ⟨0, fun _ => false⟩
  let m0 := (TransactionLockMgr.new 16 1).AddColumnFamily 0
  let m1 := ((m0.TryLock 1 0 0 [1] env false).map (·.2.2)).getD m0
  let m2 := ((m1.TryLock 2 0 0 [1] env false).map (·.2.2)).getD m1
  let m3 := (m2.UnLock 1 0 [1]).getD m2
  let m4 := (m3.UnLock 2 0 [1]).getD m3
  let m5 := ((m4.TryLock 3 0 0 [2] env true).map (·.2.2)).getD m4
  let m6 := ((m5.TryLock 3 0 0 [3] env true).map (·.2.2)).getD m5
  have r0 : LockReachable m0 := .step (.new 16 1) (.AddColumnFamily _ 0)
  have r1 : LockReachable m1 :=
    .step r0 (.TryLock env 1 0 [1] false .OK [] (noReRequest_of_free (by decide) false) rfl)
  have r2 : LockReachable m2 :=
    .step r1 (.TryLock env 2 0 [1] false .OK [] (noReRequest_of_not_mem (by decide) false) rfl)
  have r3 : LockReachable m3 := .step r2 (.UnLock 1 0 [1] rfl)
  have r4 : LockReachable m4 := .step r3 (.UnLock 2 0 [1] rfl)
  have r5 : LockReachable m5 :=
    .step r4 (.TryLock env 3 0 [2] true .OK [] (noReRequest_of_free (by decide) true) rfl)
  have r6 : LockReachable m6 :=
    .step r5 (.TryLock env 3 0 [3] true .OK [] (noReRequest_of_free (by decide) true) rfl)
  exact ⟨m4, m6, r4, rfl, by decide, by decide, r6, rfl, by decide, by decide, by decide⟩

end TransactionLockMgr

end RocksDB
