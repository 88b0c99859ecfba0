import RocksDB.Lib.Lists
import RocksDB.Util.Status

/-!
# utilities/transactions/transaction_lock_mgr.cc: the lock table

The lock manager of a pessimistic `TransactionDB` keeps, per column family, a `LockMap` of
stripes; each stripe maps a locked key to its `LockInfo` (mode, holders, expiration time).

* `LockMap.GetStripe`        as in the source, returns 1 for every key;
* `IsLockExpired`            with the clock and the lock stealing of `TransactionDBImpl` as a
                             `LockEnv`;
* `AcquireLocked`            grant, take-over by the sole holder, stealing an expired lock,
                             joining a shared lock, lock-limit and timeout failures;
* `TryLock`                  the path of a transaction with lock timeout 0: one `AcquireLocked`
                             under the stripe mutex, `none` where `lock_map_stripes_.at` throws;
* `UnLockKey`, `UnLock`      release by swap-with-last, erasing the entry with its last holder;
* `UnLockKeyMap`             `UnLock(txn, key_map)`: keys bucketed by stripe, and a column family
                             without lock map ends the loop (`return`).

The entry a key reads is `lockInfo? cf key`, the entry of the stripe `GetStripe` picks.
-/

set_option linter.unusedVariables false

namespace RocksDB

/-- transaction ids are `uint64_t`; the lock table only compares them -/
abbrev TransactionID := Nat

/-- `LockInfo`: the mode of a key's lock, its holders, and when it expires (0: never) -/
structure LockInfo where
  exclusive : Bool
  txn_ids : List TransactionID
  expiration_time : Nat
  deriving DecidableEq, Repr

/-- `LockInfo(id, time, ex)`: the request of one transaction -/
def LockInfo.ofTxn (id : TransactionID) (time : Nat) (ex : Bool) : LockInfo :=
  ⟨ex, [id], time⟩

/-- the holders an entry names, none for an absent key -/
def holdersOf : Option LockInfo → List TransactionID
  | some info => info.txn_ids
  | none => []

/-- `LockMapStripe::keys`: the locked keys of a stripe with their `LockInfo` -/
structure LockMapStripe where
  keys : List UInt8 → Option LockInfo

namespace LockMapStripe

def empty : LockMapStripe := ⟨fun _ => none⟩

/-- the stripe with the entry of `key` replaced: `insert`, assignment through `at`, `erase` -/
def set (stripe : LockMapStripe) (key : List UInt8) (o : Option LockInfo) : LockMapStripe :=
  ⟨Function.update stripe.keys key o⟩

@[simp] theorem set_keys (stripe : LockMapStripe) (key k : List UInt8) (o : Option LockInfo) :
    (stripe.set key o).keys k = if k = key then o else stripe.keys k :=
  Function.update_apply _ _ _ _

@[simp] theorem set_self (stripe : LockMapStripe) (key : List UInt8) :
    stripe.set key (stripe.keys key) = stripe := by
  simp [set]

end LockMapStripe

/-- `LockMap`: the stripes of one column family and its count of locked keys; the vector of
stripes is filled to `num_stripes_` by the constructor and never resized -/
structure LockMap where
  num_stripes_ : Nat
  lock_cnt : Int
  lock_map_stripes_ : List LockMapStripe
  stripes_length : lock_map_stripes_.length = num_stripes_

namespace LockMap

/-- `LockMap(num_stripes, factory)`: `num_stripes` empty stripes -/
def new (num_stripes : Nat) : LockMap where
  num_stripes_ := num_stripes
  lock_cnt := 0
  lock_map_stripes_ := List.replicate num_stripes LockMapStripe.empty
  stripes_length := List.length_replicate

/-- `LockMap::GetStripe`.  The body returns 1 before it reaches the hash
(`if (true) { return 1; }`), so every key goes to stripe 1 whatever `num_stripes_` is. -/
def GetStripe (lock_map : LockMap) (key : List UInt8) : Nat := 1

/-- `lock_map_stripes_.at(stripe_num)`: `none` where `at` throws `std::out_of_range` -/
def stripeAt (lock_map : LockMap) (stripe_num : Nat) : Option LockMapStripe :=
  lock_map.lock_map_stripes_[stripe_num]?

/-- the lock map with one stripe and the lock count as the holder of the stripe mutex leaves
them -/
def update (lock_map : LockMap) (stripe_num : Nat) (stripe : LockMapStripe) (lock_cnt : Int) :
    LockMap where
  num_stripes_ := lock_map.num_stripes_
  lock_cnt := lock_cnt
  lock_map_stripes_ := lock_map.lock_map_stripes_.set stripe_num stripe
  stripes_length := by rw [List.length_set, lock_map.stripes_length]

/-- the entry of `key` in the stripe `key` is sent to -/
def view (lock_map : LockMap) (key : List UInt8) : Option LockInfo :=
  (lock_map.stripeAt (lock_map.GetStripe key)).bind fun stripe => stripe.keys key

variable {lock_map : LockMap} {n : Nat} {stripe : LockMapStripe}

@[simp] theorem GetStripe_update (lock_map : LockMap) (n : Nat) (s : LockMapStripe) (c : Int)
    (key : List UInt8) : (lock_map.update n s c).GetStripe key = lock_map.GetStripe key := rfl

theorem stripeAt_update (h : lock_map.stripeAt n = some stripe) (s : LockMapStripe) (c : Int)
    (m : Nat) :
    (lock_map.update n s c).stripeAt m = if n = m then some s else lock_map.stripeAt m := by
  have hn : n < lock_map.lock_map_stripes_.length := (List.getElem?_eq_some_iff.mp h).1
  simp only [stripeAt, update, List.getElem?_set, hn, if_true]

/-- writing back the stripe that was read, with the count that was read, changes nothing -/
theorem update_self (h : lock_map.stripeAt n = some stripe) :
    lock_map.update n stripe lock_map.lock_cnt = lock_map := by
  obtain ⟨ns, c, l, hl⟩ := lock_map
  simp only [update, mk.injEq, true_and]
  apply List.ext_getElem?
  intro m
  have hn : n < l.length := (List.getElem?_eq_some_iff.mp h).1
  rw [List.getElem?_set, if_pos hn]
  split
  · subst_vars; exact h.symm
  · rfl

theorem view_update (h : lock_map.stripeAt n = some stripe) (s : LockMapStripe) (c : Int)
    (key : List UInt8) :
    (lock_map.update n s c).view key =
      if lock_map.GetStripe key = n then s.keys key else lock_map.view key := by
  simp only [view, GetStripe_update, stripeAt_update h]
  by_cases hk : lock_map.GetStripe key = n
  · simp [hk]
  · simp [hk, Ne.symm hk]

/-- writing back the stripe of `key` with the entry of `key` replaced changes that entry only -/
theorem view_update_set {key : List UInt8}
    (h : lock_map.stripeAt (lock_map.GetStripe key) = some stripe) (o : Option LockInfo) (c : Int)
    (k : List UInt8) :
    (lock_map.update (lock_map.GetStripe key) (stripe.set key o) c).view k =
      if k = key then o else lock_map.view k := by
  rw [view_update h]
  by_cases hs : lock_map.GetStripe k = lock_map.GetStripe key
  · rw [if_pos hs, LockMapStripe.set_keys]
    split
    · rfl
    · simp [view, hs, h]
  · have hk : k ≠ key := fun hk => hs (hk ▸ rfl)
    rw [if_neg hs, if_neg hk]

theorem view_new (num_stripes : Nat) (key : List UInt8) :
    (LockMap.new num_stripes).view key = none := by
  simp only [view, stripeAt, new]
  cases h : (List.replicate num_stripes LockMapStripe.empty)[GetStripe _ key]? with
  | none => rfl
  | some s =>
    rw [List.eq_of_mem_replicate (List.mem_of_getElem? h)]
    rfl

end LockMap

/-- what `AcquireLocked` reads from outside the lock table: `env->NowMicros()` and
`TransactionDBImpl::TryStealingExpiredTransactionLocks` -/
structure LockEnv where
  now : Nat
  steal : TransactionID → Bool

/-- the loop of `IsLockExpired` over the holders other than the requester: each one's locks
must be stolen, and the first that cannot be ends the loop with `false` -/
def stealLoop (steal : TransactionID → Bool) (txn_id : TransactionID) :
    List TransactionID → Bool → Nat → Bool × Nat
  | [], expired, expire_time => (expired, expire_time)
  | id :: ids, expired, expire_time =>
    if txn_id = id then stealLoop steal txn_id ids expired expire_time
    else if !steal id then (false, expire_time)
    else stealLoop steal txn_id ids expired 0

/-- `TransactionLockMgr::IsLockExpired`: whether the lock may be taken over, with the new
`*expire_time` -/
def IsLockExpired (env : LockEnv) (txn_id : TransactionID) (lock_info : LockInfo)
    (expire_time : Nat) : Bool × Nat :=
  let expired := decide (lock_info.expiration_time > 0 ∧ lock_info.expiration_time ≤ env.now)
  if !expired && decide (lock_info.expiration_time > 0) then (expired, lock_info.expiration_time)
  else stealLoop env.steal txn_id lock_info.txn_ids expired expire_time

/-- the results of `AcquireLocked`: its status, the lock count and stripe it leaves, and its
two out-parameters -/
structure Acquired where
  status : Status
  lock_cnt : Int
  stripe : LockMapStripe
  expire_time : Nat
  txn_ids : List TransactionID

/-- `TransactionLockMgr`: the lock maps of the column families (`lock_maps_`), the stripe count
of a new lock map and the limit on locked keys per column family (0 or less: none) -/
structure TransactionLockMgr where
  default_num_stripes_ : Nat
  max_num_locks_ : Int
  lock_maps_ : UInt32 → Option LockMap

namespace TransactionLockMgr

/-- the constructor: no column family has a lock map yet -/
def new (default_num_stripes : Nat) (max_num_locks : Int) : TransactionLockMgr :=
  ⟨default_num_stripes, max_num_locks, fun _ => none⟩

/-- `AddColumnFamily`: a fresh lock map; a column family that has one already keeps it (the
source asserts that this does not happen) -/
def AddColumnFamily (mgr : TransactionLockMgr) (column_family_id : UInt32) :
    TransactionLockMgr :=
  match mgr.lock_maps_ column_family_id with
  | none =>
    { mgr with
      lock_maps_ := Function.update mgr.lock_maps_ column_family_id
        (some (LockMap.new mgr.default_num_stripes_)) }
  | some _ => mgr

/-- `RemoveColumnFamily`: the lock map is dropped with every lock in it -/
def RemoveColumnFamily (mgr : TransactionLockMgr) (column_family_id : UInt32) :
    TransactionLockMgr :=
  { mgr with lock_maps_ := Function.update mgr.lock_maps_ column_family_id none }

/-- the lock table with the lock map of one column family replaced -/
def setLockMap (mgr : TransactionLockMgr) (column_family_id : UInt32) (lock_map : LockMap) :
    TransactionLockMgr :=
  { mgr with lock_maps_ := Function.update mgr.lock_maps_ column_family_id (some lock_map) }

/-- the entry of `key` in column family `column_family_id`: the one its stripe holds -/
def lockInfo? (mgr : TransactionLockMgr) (column_family_id : UInt32) (key : List UInt8) :
    Option LockInfo :=
  (mgr.lock_maps_ column_family_id).bind fun lock_map => lock_map.view key

/-- the transactions holding a lock on `key` -/
def holders (mgr : TransactionLockMgr) (column_family_id : UInt32) (key : List UInt8) :
    List TransactionID :=
  holdersOf (mgr.lockInfo? column_family_id key)

/-- `TransactionLockMgr::AcquireLocked`, with the stripe mutex held -/
def AcquireLocked (mgr : TransactionLockMgr) (lock_cnt : Int) (stripe : LockMapStripe)
    (key : List UInt8) (env : LockEnv) (txn_lock_info : LockInfo) (expire_time : Nat)
    (txn_ids : List TransactionID) : Acquired :=
  -- `txn_lock_info.txn_ids[0]`: a request names one transaction (asserted)
  let id := txn_lock_info.txn_ids.headD 0
  match stripe.keys key with
  | some lock_info =>
    if lock_info.exclusive || txn_lock_info.exclusive then
      if lock_info.txn_ids.length = 1 ∧ lock_info.txn_ids.head? = some id then
        -- the sole holder takes it over: an upgrade, a downgrade or a repeat
        ⟨.OK, lock_cnt, stripe.set key (some { lock_info with
            exclusive := txn_lock_info.exclusive,
            expiration_time := txn_lock_info.expiration_time }), expire_time, txn_ids⟩
      else
        let (expired, expire_time) := IsLockExpired env id lock_info expire_time
        if expired then
          ⟨.OK, lock_cnt, stripe.set key (some { lock_info with
              txn_ids := txn_lock_info.txn_ids,
              exclusive := txn_lock_info.exclusive,
              expiration_time := txn_lock_info.expiration_time }), expire_time, txn_ids⟩
        else ⟨.TimedOut .kLockTimeout, lock_cnt, stripe, expire_time, lock_info.txn_ids⟩
    else
      -- shared access to a shared lock is granted at once
      ⟨.OK, lock_cnt, stripe.set key (some { lock_info with
          txn_ids := lock_info.txn_ids ++ [id],
          expiration_time := max lock_info.expiration_time txn_lock_info.expiration_time }),
        expire_time, txn_ids⟩
  | none =>
    if mgr.max_num_locks_ > 0 ∧ lock_cnt ≥ mgr.max_num_locks_ then
      ⟨.Busy .kLockLimit, lock_cnt, stripe, expire_time, txn_ids⟩
    else
      ⟨.OK, if mgr.max_num_locks_ ≠ 0 then lock_cnt + 1 else lock_cnt,
        stripe.set key (some txn_lock_info), expire_time, txn_ids⟩

/-- `TransactionLockMgr::TryLock` of a transaction whose lock timeout is 0: `AcquireWithTimeout`
takes the stripe mutex with `TryLockFor(0)` (free in a sequential run), calls `AcquireLocked`
once and returns a failure at once.  The result carries the holders `AcquireLocked` reported in
`wait_ids`; `none` where `lock_map_stripes_.at` throws. -/
def TryLock (mgr : TransactionLockMgr) (txn : TransactionID) (expiration_time : Nat)
    (column_family_id : UInt32) (key : List UInt8) (env : LockEnv) (exclusive : Bool) :
    Option (Status × List TransactionID × TransactionLockMgr) :=
  match mgr.lock_maps_ column_family_id with
  | none => some (.InvalidArgument s!"Column family id not found: {column_family_id}", [], mgr)
  | some lock_map =>
    let stripe_num := lock_map.GetStripe key
    (lock_map.stripeAt stripe_num).map fun stripe =>
      let r := mgr.AcquireLocked lock_map.lock_cnt stripe key env
        (LockInfo.ofTxn txn expiration_time exclusive) 0 []
      (r.status, r.txn_ids,
        mgr.setLockMap column_family_id (lock_map.update stripe_num r.stripe r.lock_cnt))

/-- `TransactionLockMgr::UnLockKey`: `txn_id` leaves the holders of `key` by swap-with-last,
and the entry goes with its last holder -/
def UnLockKey (mgr : TransactionLockMgr) (txn_id : TransactionID) (key : List UInt8)
    (stripe : LockMapStripe) (lock_cnt : Int) : LockMapStripe × Int :=
  match stripe.keys key with
  | some lock_info =>
    let txns := lock_info.txn_ids
    if txn_id ∈ txns then
      let stripe := if txns.length = 1 then stripe.set key none
        else stripe.set key (some { lock_info with txn_ids := txns.swapRemove (txns.idxOf txn_id) })
      (stripe, if mgr.max_num_locks_ > 0 then lock_cnt - 1 else lock_cnt)
    else (stripe, lock_cnt)
  | none => (stripe, lock_cnt)

/-- `TransactionLockMgr::UnLock(txn, column_family_id, key)`; `none` where
`lock_map_stripes_.at` throws -/
def UnLock (mgr : TransactionLockMgr) (txn_id : TransactionID) (column_family_id : UInt32)
    (key : List UInt8) : Option TransactionLockMgr :=
  match mgr.lock_maps_ column_family_id with
  | none => some mgr
  | some lock_map =>
    let stripe_num := lock_map.GetStripe key
    (lock_map.stripeAt stripe_num).map fun stripe =>
      let r := mgr.UnLockKey txn_id key stripe lock_map.lock_cnt
      mgr.setLockMap column_family_id (lock_map.update stripe_num r.1 r.2)

/-- the `UnLockKey` calls of one stripe, in the order of its bucket -/
def UnLockKeys (mgr : TransactionLockMgr) (txn_id : TransactionID) (stripe_keys : List (List UInt8))
    (stripe : LockMapStripe) (lock_cnt : Int) : LockMapStripe × Int :=
  stripe_keys.foldl (fun acc key => mgr.UnLockKey txn_id key acc.1 acc.2) (stripe, lock_cnt)

/-- the loop over `keys_by_stripe`: each bucket under its stripe's mutex; `none` where
`lock_map_stripes_.at` throws -/
def UnLockStripes (mgr : TransactionLockMgr) (txn_id : TransactionID) (lock_map : LockMap) :
    List (Nat × List (List UInt8)) → Option LockMap
  | [] => some lock_map
  | (stripe_num, stripe_keys) :: rest =>
    match lock_map.stripeAt stripe_num with
    | none => none
    | some stripe =>
      let r := mgr.UnLockKeys txn_id stripe_keys stripe lock_map.lock_cnt
      mgr.UnLockStripes txn_id (lock_map.update stripe_num r.1 r.2) rest

end TransactionLockMgr

/-- `keys_by_stripe[stripe_num].push_back(&key)`: the bucket of `stripe_num` gets `key`, and is
opened where there is none yet -/
def pushToBucket (stripe_num : Nat) (key : List UInt8) :
    List (Nat × List (List UInt8)) → List (Nat × List (List UInt8))
  | [] => [(stripe_num, [key])]
  | (n, keys) :: rest =>
    if n = stripe_num then (n, keys ++ [key]) :: rest
    else (n, keys) :: pushToBucket stripe_num key rest

/-- the keys of one column family bucketed by stripe, buckets in the order they are opened -/
def LockMap.keysByStripe (lock_map : LockMap) (keys : List (List UInt8)) :
    List (Nat × List (List UInt8)) :=
  keys.foldl (fun buckets key => pushToBucket (lock_map.GetStripe key) key buckets) []

/-- a `TransactionKeyMap` as `UnLock` reads it: each column family with its keys, in the
iteration order of the map -/
abbrev KeyMap := List (UInt32 × List (List UInt8))

/-- whether `key_map` lists `key` under column family `column_family_id` -/
def KeyMap.has (key_map : KeyMap) (column_family_id : UInt32) (key : List UInt8) : Bool :=
  key_map.any fun entry => entry.1 == column_family_id && entry.2.contains key

/-- `TransactionLockMgr::UnLock(txn, key_map)`.  A column family without lock map ends the
whole loop (`return`, "Column Family must have been dropped"); `none` where
`lock_map_stripes_.at` throws. -/
def TransactionLockMgr.UnLockKeyMap (mgr : TransactionLockMgr) (txn_id : TransactionID) :
    KeyMap → Option TransactionLockMgr
  | [] => some mgr
  | (column_family_id, keys) :: rest =>
    match mgr.lock_maps_ column_family_id with
    | none => some mgr
    | some lock_map =>
      match mgr.UnLockStripes txn_id lock_map (lock_map.keysByStripe keys) with
      | none => none
      | some lock_map => (mgr.setLockMap column_family_id lock_map).UnLockKeyMap txn_id rest

namespace TransactionLockMgr

/-! ## The entries a key reads -/

variable {mgr : TransactionLockMgr} {cf : UInt32} {lock_map : LockMap}

@[simp] theorem lock_maps_setLockMap (mgr : TransactionLockMgr) (cf : UInt32)
    (lock_map : LockMap) (c : UInt32) :
    (mgr.setLockMap cf lock_map).lock_maps_ c = if c = cf then some lock_map else mgr.lock_maps_ c :=
  Function.update_apply _ _ _ _

@[simp] theorem max_num_locks_setLockMap (mgr : TransactionLockMgr) (cf : UInt32)
    (lock_map : LockMap) : (mgr.setLockMap cf lock_map).max_num_locks_ = mgr.max_num_locks_ := rfl

theorem setLockMap_self (h : mgr.lock_maps_ cf = some lock_map) : mgr.setLockMap cf lock_map = mgr := by
  simp only [setLockMap, ← h, Function.update_eq_self]

theorem lockInfo?_setLockMap (mgr : TransactionLockMgr) (cf : UInt32) (lock_map : LockMap)
    (c : UInt32) (k : List UInt8) :
    (mgr.setLockMap cf lock_map).lockInfo? c k =
      if c = cf then lock_map.view k else mgr.lockInfo? c k := by
  by_cases hc : c = cf <;> simp [lockInfo?, hc]

theorem lockInfo?_of_lockMap (h : mgr.lock_maps_ cf = some lock_map) (k : List UInt8) :
    mgr.lockInfo? cf k = lock_map.view k := by
  simp [lockInfo?, h]

theorem lockInfo?_of_stripe {key : List UInt8} {stripe : LockMapStripe}
    (h : mgr.lock_maps_ cf = some lock_map)
    (hs : lock_map.stripeAt (lock_map.GetStripe key) = some stripe) :
    mgr.lockInfo? cf key = stripe.keys key := by
  simp [lockInfo?, h, LockMap.view, hs]

/-- the write-back of a stripe in which only the entry of `key` changed -/
theorem lockInfo?_writeBack {key : List UInt8} {stripe : LockMapStripe}
    (h : mgr.lock_maps_ cf = some lock_map)
    (hs : lock_map.stripeAt (lock_map.GetStripe key) = some stripe) (o : Option LockInfo)
    (c : Int) (cf' : UInt32) (key' : List UInt8) :
    (mgr.setLockMap cf (lock_map.update (lock_map.GetStripe key) (stripe.set key o) c)).lockInfo?
      cf' key' = if cf' = cf ∧ key' = key then o else mgr.lockInfo? cf' key' := by
  rw [lockInfo?_setLockMap]
  by_cases hc : cf' = cf
  · subst hc
    rw [if_pos rfl, LockMap.view_update_set hs, lockInfo?_of_lockMap h]
    simp
  · simp [hc]

theorem lockInfo?_RemoveColumnFamily (mgr : TransactionLockMgr) (cf c : UInt32) (k : List UInt8) :
    (mgr.RemoveColumnFamily cf).lockInfo? c k = if c = cf then none else mgr.lockInfo? c k := by
  by_cases hc : c = cf <;> simp [RemoveColumnFamily, lockInfo?, hc]

/-- a new lock map is empty, and replaces no other -/
theorem lockInfo?_AddColumnFamily (mgr : TransactionLockMgr) (cf c : UInt32) (k : List UInt8) :
    (mgr.AddColumnFamily cf).lockInfo? c k = mgr.lockInfo? c k := by
  unfold AddColumnFamily
  cases h : mgr.lock_maps_ cf with
  | some _ => rfl
  | none =>
    by_cases hc : c = cf
    · subst hc; simp [lockInfo?, h, LockMap.view_new]
    · simp [lockInfo?, hc]

end TransactionLockMgr

end RocksDB
