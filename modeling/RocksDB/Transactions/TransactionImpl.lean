import RocksDB.Transactions.TransactionBase
import RocksDB.Transactions.LockTable
import RocksDB.Db.Dbformat

/-!
# utilities/transactions/transaction_impl.cc: a pessimistic transaction and its locks

* `TransactionImpl`          the tracked keys of `TransactionBaseImpl` with the transaction's id
                             and expiration time;
* `LockOutcome`              how the lock manager answers one lock request of the transaction:
                             one `AcquireLocked` on the current table, or a refusal after waiting
                             (time out, deadlock, mutex time out) that leaves the table as it was;
* `TransactionImpl.TryLock`  the lock call, the snapshot validation with its two ways of undoing
                             a lock, and `TrackKey` on success;
* `UndoGetForUpdate`, `RollbackToSavePoint`, `Clear`: the base operations with the unlocking
                             `TransactionImpl` adds to them;
* `TransactionLockMgr.lockOf` the mode in which one transaction holds a key.

The lemmas of the second half say what each request does to the locks of one transaction `T`:
a request of another transaction leaves them (`TryLock_lockOf_other`), a granted request of `T`
holds the key in the requested mode (`TryLock_lockOf_self`), and `UnLock` by `T` releases it.
-/

namespace RocksDB

/-- `TransactionImpl`: the part of `TransactionBaseImpl` the keys live in, the transaction's id and
its expiration time (0: none) -/
structure TransactionImpl extends TransactionBaseImpl where
  txn_id_ : TransactionID
  expiration_time_ : Nat

/-- how `TransactionDBImpl::TryLock` answers one request of the transaction: `attempt` is one
`AcquireLocked` on the current table (a lock timeout of 0, or the last try of a wait), `refused`
is a failure after waiting, in which every try was refused and left the table as it was -/
inductive LockOutcome where
  | attempt (env : LockEnv)
  | refused (s : Status) (h : s.ok = false)

/-- the lock call of a transaction with the given outcome -/
def LockOutcome.run (outcome : LockOutcome) (mgr : TransactionLockMgr) (txn : TransactionID)
    (expiration_time : Nat) (cf : UInt32) (key : List UInt8) (exclusive : Bool) :
    Option (Status × TransactionLockMgr) :=
  match outcome with
  | .attempt env => (mgr.TryLock txn expiration_time cf key env exclusive).map fun r => (r.1, r.2.2)
  | .refused s _ => some (s, mgr)

/-- the public operations that call `TryLock`, each with the flags it passes -/
inductive KeyOp where
  | GetForUpdate (exclusive : Bool)
  | Put | Merge | Delete | SingleDelete
  | PutUntracked | MergeUntracked | DeleteUntracked
  deriving DecidableEq, Repr

namespace KeyOp

def read_only : KeyOp → Bool
  | GetForUpdate _ => true
  | _ => false

def exclusive : KeyOp → Bool
  | GetForUpdate exclusive => exclusive
  | _ => true

def untracked : KeyOp → Bool
  | PutUntracked | MergeUntracked | DeleteUntracked => true
  | _ => false

/-- only `GetForUpdate` asks for a shared lock, and never as an untracked write -/
theorem untracked_of_shared (op : KeyOp) (h : op.exclusive = false) :
    op.untracked = false ∧ op.read_only = true := by
  cases op <;> simp_all [exclusive, untracked, read_only]

end KeyOp

/-- `TransactionDBImpl::TryStealingExpiredTransactionLocks`: a transaction that is not in the map
of expirable transactions gives its locks up at once, one that is gives them up if it is still
started (`TryStealingLocks`) -/
def TryStealingExpiredTransactionLocks (expirable : TransactionID → Option Bool)
    (tx_id : TransactionID) : Bool :=
  match expirable tx_id with
  | none => true
  | some started => started

namespace TransactionImpl

/-- `ValidateSnapshot` with the snapshot's sequence number: OK where the key was validated at or
before the snapshot, else the answer of `TransactionUtil::CheckKeyForConflicts` (`conflict`),
with `*new_seqno` moved to the snapshot -/
def ValidateSnapshot (snapshot prev_seqno : Nat) (conflict : Status) (new_seqno : Nat) :
    Status × Nat :=
  if prev_seqno ≤ snapshot then (.OK, new_seqno) else (conflict, snapshot)

/-- what `TryLock` reads from the tracked keys: `previously_locked`, `lock_upgrade` and
`current_seqno` -/
def lockState (txn : TransactionImpl) (cfh_id : UInt32) (key : List UInt8) (exclusive : Bool) :
    Bool × Bool × Nat :=
  match txn.tracked_keys_.find cfh_id key with
  | none => (false, false, kMaxSequenceNumber)
  | some info => (true, !info.exclusive && exclusive, info.seq)

/-- the part of `TryLock` after the lock call returned `s`: the status, the sequence number to
track the key at, and the lock table, where a failed validation gave the lock up again -/
def checkSnapshot (txn : TransactionImpl) (mgr : TransactionLockMgr) (outcome : LockOutcome)
    (latest : Nat) (conflict : Status) (cfh_id : UInt32) (key : List UInt8)
    (untracked previously_locked lock_upgrade : Bool) (current_seqno : Nat) (s : Status) :
    Option (Status × Nat × TransactionLockMgr) :=
  if untracked || txn.snapshot_.isNone then
    some (s, if current_seqno = kMaxSequenceNumber then latest else current_seqno, mgr)
  else if s.ok then
    let r := ValidateSnapshot (txn.snapshot_.getD 0) current_seqno conflict kMaxSequenceNumber
    if !r.1.ok && !previously_locked then
      if lock_upgrade then
        (outcome.run mgr txn.txn_id_ txn.expiration_time_ cfh_id key false).map fun d =>
          (d.1, r.2, d.2)
      else (mgr.UnLock txn.txn_id_ cfh_id key).map fun mgr => (r.1, r.2, mgr)
    else some (r.1, r.2, mgr)
  else some (s, kMaxSequenceNumber, mgr)

/-- `TransactionImpl::TryLock`; `none` where a call into the lock table throws -/
def TryLock (txn : TransactionImpl) (mgr : TransactionLockMgr) (outcome : LockOutcome)
    (latest : Nat) (conflict : Status) (cfh_id : UInt32) (key : List UInt8)
    (read_only exclusive untracked : Bool) : Option (Status × TransactionImpl × TransactionLockMgr) :=
  let st := txn.lockState cfh_id key exclusive
  -- lock this key if this transaction has not locked it yet or needs an upgrade
  let locked := if !st.1 || st.2.1 then
      outcome.run mgr txn.txn_id_ txn.expiration_time_ cfh_id key exclusive
    else some (.OK, mgr)
  locked.bind fun l =>
    (txn.checkSnapshot l.2 outcome latest conflict cfh_id key untracked st.1 st.2.1 st.2.2 l.1).map
      fun c =>
        if c.1.ok then
          (c.1, { txn with
            toTransactionBaseImpl := txn.toTransactionBaseImpl.TrackKey cfh_id key c.2.1
              read_only exclusive }, c.2.2)
        else (c.1, txn, c.2.2)

/-- `SetSavePoint` -/
def SetSavePoint (txn : TransactionImpl) : TransactionImpl :=
  { txn with toTransactionBaseImpl := txn.toTransactionBaseImpl.SetSavePoint }

/-- `UndoGetForUpdate`, with `UnlockGetForUpdate` where the key is no longer tracked -/
def UndoGetForUpdate (txn : TransactionImpl) (mgr : TransactionLockMgr) (cf : UInt32)
    (key : List UInt8) : Option (TransactionImpl × TransactionLockMgr) :=
  let r := txn.toTransactionBaseImpl.UndoGetForUpdate cf key
  let txn' := { txn with toTransactionBaseImpl := r.1 }
  if r.2 then (mgr.UnLock txn.txn_id_ cf key).map fun mgr => (txn', mgr) else some (txn', mgr)

/-- `RollbackToSavePoint`: the keys tracked only since the save point are unlocked first -/
def RollbackToSavePoint (txn : TransactionImpl) (mgr : TransactionLockMgr) :
    Option (Status × TransactionImpl × TransactionLockMgr) :=
  let unlocked := match txn.GetTrackedKeysSinceSavePoint with
    | some keys => mgr.UnLockKeyMap txn.txn_id_ keys.keyMap
    | none => some mgr
  unlocked.map fun mgr =>
    let r := txn.toTransactionBaseImpl.RollbackToSavePoint
    (r.1, { txn with toTransactionBaseImpl := r.2 }, mgr)

/-- `Clear`, as `Commit` and `Rollback` end: every tracked key is unlocked -/
def Clear (txn : TransactionImpl) (mgr : TransactionLockMgr) :
    Option (TransactionImpl × TransactionLockMgr) :=
  (mgr.UnLockKeyMap txn.txn_id_ txn.tracked_keys_.keyMap).map fun mgr =>
    ({ txn with toTransactionBaseImpl := txn.toTransactionBaseImpl.Clear }, mgr)

end TransactionImpl

/-! ## The locks of one transaction -/

/-- the mode in which `txn` holds a key whose entry is `o` -/
def entryMode (txn : TransactionID) : Option LockInfo → Option Bool
  | some info => if txn ∈ info.txn_ids then some info.exclusive else none
  | none => none

/-- the mode in which `txn` holds `key` of column family `cf`, `none` where it holds no lock -/
def TransactionLockMgr.lockOf (mgr : TransactionLockMgr) (txn : TransactionID) (cf : UInt32)
    (key : List UInt8) : Option Bool :=
  entryMode txn (mgr.lockInfo? cf key)

theorem entryMode_unlockedEntry_self {T : TransactionID} {o : Option LockInfo}
    (hnd : (holdersOf o).Nodup) : entryMode T (unlockedEntry T o) = none := by
  have hm : T ∈ holdersOf (unlockedEntry T o) ↔ T ∈ holdersOf o ∧ T ≠ T :=
    mem_holdersOf_unlockedEntry hnd T
  cases h : unlockedEntry T o with
  | none => rfl
  | some info =>
    rw [h] at hm
    have : T ∉ info.txn_ids := fun hT => (hm.mp hT).2 rfl
    simp [entryMode, this]

/-- another transaction's release leaves `T`'s mode: the holders lose only the releasing one, and
the lock's mode stays -/
theorem entryMode_unlockedEntry_ne {T U : TransactionID} {o : Option LockInfo} (hne : U ≠ T)
    (hnd : (holdersOf o).Nodup) : entryMode T (unlockedEntry U o) = entryMode T o := by
  cases o with
  | none => rfl
  | some info =>
    simp only [holdersOf] at hnd
    simp only [unlockedEntry]
    split
    · rename_i hU
      split
      · -- `U` was the only holder
        rename_i hl
        obtain ⟨a, ha⟩ := List.length_eq_one_iff.mp hl
        rw [ha, List.mem_singleton] at hU
        subst hU
        simp [entryMode, ha, Ne.symm hne]
      · have hm : T ∈ info.txn_ids.swapRemove (info.txn_ids.idxOf U) ↔ T ∈ info.txn_ids := by
          rw [hnd.mem_swapRemove_idxOf hU]
          exact and_iff_left (Ne.symm hne)
        simp only [entryMode, hm]
    · rfl

section Acquire

variable (mgr : TransactionLockMgr) (lock_cnt : Int) (stripe : LockMapStripe) (key : List UInt8)
  (env : LockEnv) (id : TransactionID) (time : Nat) (ex : Bool) (expire_time : Nat)
  (txn_ids : List TransactionID)

/-- `AcquireLocked` changes the entry of its key and no other -/
theorem AcquireLocked_stripe_eq :
    (mgr.AcquireLocked lock_cnt stripe key env (.ofTxn id time ex) expire_time txn_ids).stripe =
      stripe.set key
        ((mgr.AcquireLocked lock_cnt stripe key env (.ofTxn id time ex) expire_time txn_ids).stripe.keys
          key) := by
  rcases TransactionLockMgr.AcquireLocked_cases mgr lock_cnt stripe key env id time ex expire_time
      txn_ids with
    ⟨-, -, hr⟩ | ⟨-, -, hr⟩ | ⟨li, -, -, -, hr⟩ | ⟨li, et, -, -, -, -, hr⟩ |
    ⟨li, et, -, -, -, -, hr⟩ | ⟨li, -, -, -, hr⟩ <;> rw [hr] <;> simp [LockMapStripe.set]

variable (hexp : ∀ li ∈ stripe.keys key, li.expiration_time = 0)
include hexp

/-- where no lock expires, another transaction's request leaves `T`'s mode -/
theorem AcquireLocked_mode_other {T : TransactionID} (hne : id ≠ T) :
    entryMode T
      ((mgr.AcquireLocked lock_cnt stripe key env (.ofTxn id time ex) expire_time txn_ids).stripe.keys
        key) = entryMode T (stripe.keys key) := by
  rcases TransactionLockMgr.AcquireLocked_cases mgr lock_cnt stripe key env id time ex expire_time
      txn_ids with
    ⟨-, -, hr⟩ | ⟨hk, -, hr⟩ | ⟨li, hk, -, hs, hr⟩ | ⟨li, et, hk, -, -, hE, -⟩ |
    ⟨li, et, -, -, -, -, hr⟩ | ⟨li, hk, -, -, hr⟩
  · rw [hr]
  · rw [hr, hk]; simp [entryMode, LockInfo.ofTxn, Ne.symm hne]
  · -- the sole holder is the requester, not `T`
    rw [hr, hk]; simp [entryMode, hs, Ne.symm hne]
  · have := IsLockExpired_of_expiration_zero env id (hexp li hk) expire_time
    simp [hE] at this
  · rw [hr]
  · -- joining a shared lock adds the requester only
    rw [hr, hk]; simp [entryMode, Ne.symm hne]

/-- where no lock expires, a granted request holds the key in the requested mode -/
theorem AcquireLocked_mode_self
    (hok : (mgr.AcquireLocked lock_cnt stripe key env (.ofTxn id time ex) expire_time
      txn_ids).status.ok = true) :
    entryMode id
      ((mgr.AcquireLocked lock_cnt stripe key env (.ofTxn id time ex) expire_time txn_ids).stripe.keys
        key) = some ex := by
  rcases TransactionLockMgr.AcquireLocked_cases mgr lock_cnt stripe key env id time ex expire_time
      txn_ids with
    ⟨-, -, hr⟩ | ⟨hk, -, hr⟩ | ⟨li, hk, -, hs, hr⟩ | ⟨li, et, hk, -, -, hE, -⟩ |
    ⟨li, et, -, -, -, -, hr⟩ | ⟨li, hk, hl, he, hr⟩
  · rw [hr] at hok; simp at hok
  · rw [hr]; simp [entryMode, LockInfo.ofTxn]
  · rw [hr]; simp [entryMode, hs]
  · have := IsLockExpired_of_expiration_zero env id (hexp li hk) expire_time
    simp [hE] at this
  · rw [hr] at hok; simp at hok
  · rw [hr]; simp [entryMode, hl, he]

end Acquire

namespace TransactionLockMgr

variable {mgr mgr' : TransactionLockMgr} {T txn : TransactionID} {time : Nat} {cf : UInt32}
  {key : List UInt8} {env : LockEnv} {ex : Bool} {s : Status} {w : List TransactionID}

/-- a request writes back the entry `AcquireLocked` left for its key, and no other -/
theorem TryLock_lockInfo?_eq (h : mgr.TryLock txn time cf key env ex = some (s, w, mgr')) :
    (mgr' = mgr) ∨ ∃ lock_map stripe, mgr.lock_maps_ cf = some lock_map ∧
      lock_map.stripeAt (lock_map.GetStripe key) = some stripe ∧
      s = (mgr.AcquireLocked lock_map.lock_cnt stripe key env (.ofTxn txn time ex) 0 []).status ∧
      ∀ c k, mgr'.lockInfo? c k = if c = cf ∧ k = key then
        (mgr.AcquireLocked lock_map.lock_cnt stripe key env (.ofTxn txn time ex) 0 []).stripe.keys key
        else mgr.lockInfo? c k := by
  rcases TryLock_eq_some h with ⟨-, -, -, rfl⟩ | ⟨lock_map, stripe, hlm, hst, rfl, -, rfl⟩
  · exact .inl rfl
  · refine .inr ⟨lock_map, stripe, hlm, hst, rfl, fun c k => ?_⟩
    conv_lhs => rw [AcquireLocked_stripe_eq]
    rw [lockInfo?_writeBack hlm hst]

theorem TryLock_lockOf_other (hinv : mgr.Inv) (hne : txn ≠ T)
    (h : mgr.TryLock txn time cf key env ex = some (s, w, mgr')) (c : UInt32) (k : List UInt8) :
    mgr'.lockOf T c k = mgr.lockOf T c k := by
  rcases TryLock_lockInfo?_eq h with rfl | ⟨lock_map, stripe, hlm, hst, -, heq⟩
  · rfl
  · unfold lockOf
    rw [heq]
    split
    · rename_i hck
      obtain ⟨rfl, rfl⟩ := hck
      rw [lockInfo?_of_stripe hlm hst]
      refine AcquireLocked_mode_other mgr _ stripe k env txn time ex 0 [] ?_ hne
      intro li hli
      exact (hinv c k li (by rwa [lockInfo?_of_stripe hlm hst])).2
    · rfl

theorem TryLock_lockOf_self (hinv : mgr.Inv)
    (h : mgr.TryLock txn time cf key env ex = some (s, w, mgr')) (hs : s.ok = true) :
    mgr'.lockOf txn cf key = some ex := by
  rcases TryLock_eq_some h with ⟨-, hs', -, -⟩ | ⟨lock_map, stripe, hlm, hst, rfl, -, rfl⟩
  · simp [hs'] at hs
  · unfold lockOf
    rw [AcquireLocked_stripe_eq, lockInfo?_writeBack hlm hst, if_pos ⟨rfl, rfl⟩]
    refine AcquireLocked_mode_self mgr _ stripe key env txn time ex 0 [] ?_ hs
    intro li hli
    exact (hinv cf key li (by rwa [lockInfo?_of_stripe hlm hst])).2

/-- a granted request found a lock map for its column family -/
theorem TryLock_lock_map (h : mgr.TryLock txn time cf key env ex = some (s, w, mgr'))
    (hs : s.ok = true) : (mgr.lock_maps_ cf).isSome := by
  rcases TryLock_eq_some h with ⟨-, hs', -, -⟩ | ⟨lock_map, stripe, hlm, -, -, -, -⟩
  · simp [hs'] at hs
  · simp [hlm]

/-! ### Lock maps stay -/

theorem TryLock_lock_maps_ (h : mgr.TryLock txn time cf key env ex = some (s, w, mgr'))
    (c : UInt32) : (mgr'.lock_maps_ c).isSome = (mgr.lock_maps_ c).isSome := by
  rcases TryLock_eq_some h with ⟨-, -, -, rfl⟩ | ⟨lock_map, stripe, hlm, -, -, -, rfl⟩
  · rfl
  · rw [lock_maps_setLockMap]
    split
    · subst_vars; simp [hlm]
    · rfl

theorem UnLock_lock_maps_ (h : mgr.UnLock txn cf key = some mgr') (c : UInt32) :
    (mgr'.lock_maps_ c).isSome = (mgr.lock_maps_ c).isSome := by
  unfold UnLock at h
  cases hlm : mgr.lock_maps_ cf with
  | none =>
    rw [hlm, Option.some.injEq] at h
    rw [h]
  | some lock_map =>
    rw [hlm] at h
    obtain ⟨stripe, -, rfl⟩ := Option.map_eq_some_iff.mp h
    dsimp only
    rw [lock_maps_setLockMap]
    split
    · subst_vars; simp [hlm]
    · rfl

theorem UnLockKeyMap_lock_maps_ {key_map : KeyMap} (h : mgr.UnLockKeyMap txn key_map = some mgr')
    (c : UInt32) : (mgr'.lock_maps_ c).isSome = (mgr.lock_maps_ c).isSome := by
  induction key_map generalizing mgr with
  | nil =>
    rw [UnLockKeyMap, Option.some.injEq] at h
    rw [h]
  | cons e rest ih =>
    obtain ⟨cf, keys⟩ := e
    unfold UnLockKeyMap at h
    cases hlm : mgr.lock_maps_ cf with
    | none =>
      rw [hlm, Option.some.injEq] at h
      rw [h]
    | some lock_map =>
      cases hS : mgr.UnLockStripes txn lock_map (lock_map.keysByStripe keys) with
      | none => simp [hlm, hS] at h
      | some lock_map' =>
        simp only [hlm, hS] at h
        rw [ih h, lock_maps_setLockMap]
        split
        · subst_vars; simp [hlm]
        · rfl

theorem AddColumnFamily_lock_maps_ (mgr : TransactionLockMgr) (cf c : UInt32)
    (h : (mgr.lock_maps_ c).isSome) : ((mgr.AddColumnFamily cf).lock_maps_ c).isSome := by
  unfold AddColumnFamily
  split
  · by_cases hc : c = cf
    · subst hc; simp
    · simp [hc, h]
  · exact h

/-! ### Releases -/

theorem UnLock_lockOf (hinv : mgr.Inv) (h : mgr.UnLock txn cf key = some mgr') (c : UInt32)
    (k : List UInt8) :
    mgr'.lockOf T c k =
      if c = cf ∧ k = key ∧ T = txn then none else mgr.lockOf T c k := by
  unfold lockOf
  rw [UnLock_lockInfo? h]
  by_cases hck : c = cf ∧ k = key
  · obtain ⟨rfl, rfl⟩ := hck
    by_cases hT : T = txn
    · subst hT
      simp [entryMode_unlockedEntry_self (hinv.holders_nodup c k)]
    · simp [hT, entryMode_unlockedEntry_ne (Ne.symm hT) (hinv.holders_nodup c k)]
  · simp only [hck, if_false]
    rw [if_neg fun h' => hck ⟨h'.1, h'.2.1⟩]

/-- `UnLock(txn, key_map)` leaves the locks of every other transaction -/
theorem UnLockKeyMap_lockOf_other {key_map : KeyMap} (hinv : mgr.Inv) (hne : txn ≠ T)
    (h : mgr.UnLockKeyMap txn key_map = some mgr') (c : UInt32) (k : List UInt8) :
    mgr'.lockOf T c k = mgr.lockOf T c k := by
  unfold lockOf
  rw [UnLockKeyMap_lockInfo? hinv.holders_nodup h]
  split
  · exact entryMode_unlockedEntry_ne hne (hinv.holders_nodup c k)
  · rfl

/-- where every column family of the map has a lock map, `UnLock(txn, key_map)` releases every
key of the map -/
theorem UnLockKeyMap_lockOf_self {key_map : KeyMap} (hinv : mgr.Inv)
    (h : mgr.UnLockKeyMap txn key_map = some mgr')
    (hall : ∀ e ∈ key_map, (mgr.lock_maps_ e.1).isSome = true) (c : UInt32) (k : List UInt8) :
    mgr'.lockOf txn c k = if key_map.has c k = true then none else mgr.lockOf txn c k := by
  have htw : key_map.takeWhile (fun e => (mgr.lock_maps_ e.1).isSome) = key_map :=
    List.takeWhile_eq_self_iff.mpr hall
  unfold lockOf
  rw [UnLockKeyMap_lockInfo? hinv.holders_nodup h, htw]
  split
  · exact entryMode_unlockedEntry_self (hinv.holders_nodup c k)
  · rfl

/-! ### Requests that return -/

theorem UnLockStripes_stripeAt {B : List (Nat × List (List UInt8))} {lock_map lock_map' : LockMap}
    (h : mgr.UnLockStripes txn lock_map B = some lock_map') (n : Nat) :
    (lock_map'.stripeAt n).isSome = (lock_map.stripeAt n).isSome := by
  induction B generalizing lock_map with
  | nil =>
    rw [UnLockStripes, Option.some.injEq] at h
    rw [h]
  | cons b B ih =>
    obtain ⟨m, keys⟩ := b
    unfold UnLockStripes at h
    cases hst : lock_map.stripeAt m with
    | none => rw [hst] at h; cases h
    | some stripe =>
      rw [hst] at h
      rw [ih h, LockMap.stripeAt_update hst]
      split
      · subst_vars; simp [hst]
      · rfl

/-- the loop over the buckets returns where the stripe of every bucket exists -/
theorem UnLockStripes_isSome {B : List (Nat × List (List UInt8))} {lock_map : LockMap}
    (hB : ∀ b ∈ B, (lock_map.stripeAt b.1).isSome) : (mgr.UnLockStripes txn lock_map B).isSome := by
  induction B generalizing lock_map with
  | nil => rfl
  | cons b B ih =>
    obtain ⟨m, keys⟩ := b
    obtain ⟨stripe, hst⟩ := Option.isSome_iff_exists.mp (hB _ List.mem_cons_self)
    unfold UnLockStripes
    simp only [hst]
    apply ih
    intro b hb
    rw [LockMap.stripeAt_update hst]
    split
    · rfl
    · exact hB b (List.mem_cons_of_mem _ hb)

end TransactionLockMgr

theorem mem_pushToBucket_fst {B : List (Nat × List (List UInt8))} {n : Nat} {key : List UInt8}
    {b : Nat × List (List UInt8)} (h : b ∈ pushToBucket n key B) : b.1 = n ∨ ∃ b' ∈ B, b'.1 = b.1 := by
  induction B with
  | nil => simp [pushToBucket] at h; exact .inl (by rw [h])
  | cons b₀ B ih =>
    obtain ⟨m, keys⟩ := b₀
    simp only [pushToBucket] at h
    split at h
    · rcases List.mem_cons.mp h with rfl | h
      · exact .inr ⟨_, List.mem_cons_self, rfl⟩
      · exact .inr ⟨b, List.mem_cons_of_mem _ h, rfl⟩
    · rcases List.mem_cons.mp h with rfl | h
      · exact .inr ⟨_, List.mem_cons_self, rfl⟩
      · rcases ih h with he | ⟨b', hb', he⟩
        · exact .inl he
        · exact .inr ⟨b', List.mem_cons_of_mem _ hb', he⟩

/-- every bucket is opened by one of the keys -/
theorem keysByStripe_fst (lock_map : LockMap) (keys : List (List UInt8)) :
    ∀ b ∈ lock_map.keysByStripe keys, ∃ k ∈ keys, lock_map.GetStripe k = b.1 := by
  unfold LockMap.keysByStripe
  refine List.foldlRecOn (motive := fun B : List (Nat × List (List UInt8)) =>
      ∀ b ∈ B, ∃ k ∈ keys, lock_map.GetStripe k = b.1) _ _ (by simp) ?_
  intro B ih key hkey b hb
  rcases mem_pushToBucket_fst hb with he | ⟨b', hb', he⟩
  · exact ⟨key, hkey, he.symm⟩
  · obtain ⟨k, hk, hs⟩ := ih b' hb'
    exact ⟨k, hk, hs.trans he⟩

namespace TransactionLockMgr

variable {mgr mgr' : TransactionLockMgr} {txn : TransactionID}

/-- `UnLock(txn, key_map)` returns where the stripe of every listed key exists -/
theorem UnLockKeyMap_isSome {key_map : KeyMap}
    (hk : ∀ e ∈ key_map, ∀ lock_map, mgr.lock_maps_ e.1 = some lock_map →
      ∀ k ∈ e.2, (lock_map.stripeAt (lock_map.GetStripe k)).isSome) :
    (mgr.UnLockKeyMap txn key_map).isSome := by
  induction key_map generalizing mgr with
  | nil => rfl
  | cons e rest ih =>
    obtain ⟨cf, keys⟩ := e
    unfold UnLockKeyMap
    cases hlm : mgr.lock_maps_ cf with
    | none => rfl
    | some lock_map =>
      have hS : (mgr.UnLockStripes txn lock_map (lock_map.keysByStripe keys)).isSome := by
        refine UnLockStripes_isSome fun b hb => ?_
        obtain ⟨k, hk', hs⟩ := keysByStripe_fst lock_map keys b hb
        rw [← hs]
        exact hk _ List.mem_cons_self lock_map hlm k hk'
      obtain ⟨lock_map', hS'⟩ := Option.isSome_iff_exists.mp hS
      simp only [hS']
      apply ih
      -- the stripes of the column family just released are the ones it had
      intro e he lm hlm' k hk'
      rw [lock_maps_setLockMap] at hlm'
      split at hlm'
      · rename_i hc
        rw [Option.some.injEq] at hlm'
        subst hlm'
        rw [UnLockStripes_stripeAt hS']
        exact hk e (List.mem_cons_of_mem _ he) lock_map (by rw [hc]; exact hlm) k hk'
      · exact hk e (List.mem_cons_of_mem _ he) lm hlm' k hk'

/-- a transaction asks for no mode it holds when it holds the key in the other mode or not at
all -/
theorem noReRequest_of_lockOf (h : mgr.lockOf txn cf key = none ∨ mgr.lockOf txn cf key = some (!ex)) :
    mgr.NoReRequest txn cf key ex := by
  intro info hi hm
  rw [Option.mem_def] at hi
  simp only [lockOf, hi, entryMode, hm, if_true, Option.some.injEq] at h
  rcases h with h | h
  · cases h
  · rw [h]; cases ex <;> decide

end TransactionLockMgr

/-- what the lock call of a transaction without expiration does to the table: it changes the
entry of its key only, refused it changes nothing, and granted it holds the key in the requested
mode -/
theorem LockOutcome.run_spec {outcome : LockOutcome} {mgr m1 : TransactionLockMgr}
    {txn : TransactionID} {cf : UInt32} {key : List UInt8} {ex : Bool} {s1 : Status} (hinv : mgr.Inv) (hre : mgr.NoReRequest txn cf key ex)
    (h : outcome.run mgr txn 0 cf key ex = some (s1, m1)) :
    m1.Inv ∧ (∀ c, (m1.lock_maps_ c).isSome = (mgr.lock_maps_ c).isSome) ∧
      (∀ c k, ¬(c = cf ∧ k = key) → m1.lockInfo? c k = mgr.lockInfo? c k) ∧
      (s1.ok = false → m1 = mgr) ∧
      (s1.ok = true → m1.lockOf txn cf key = some ex ∧ (mgr.lock_maps_ cf).isSome) := by
  open TransactionLockMgr in
  cases outcome with
  | refused s hs =>
    simp only [LockOutcome.run, Option.some.injEq, Prod.mk.injEq] at h
    obtain ⟨rfl, rfl⟩ := h
    exact ⟨hinv, fun _ => rfl, fun _ _ _ => rfl, fun _ => rfl, fun h' => by simp [hs] at h'⟩
  | attempt env =>
    obtain ⟨⟨s, w, m⟩, ht, hr⟩ := Option.map_eq_some_iff.mp h
    simp only [Prod.mk.injEq] at hr
    obtain ⟨rfl, rfl⟩ := hr
    obtain ⟨o, -, heq⟩ := TryLock_lockInfo? ht hinv hre
    exact ⟨(LockStep.TryLock env txn cf key ex s w hre ht).inv hinv, TryLock_lock_maps_ ht,
      fun c k hck => by rw [heq, if_neg hck], fun hs => (TryLock_refused ht hs).1,
      fun hs => ⟨TryLock_lockOf_self hinv ht hs, TryLock_lock_map ht hs⟩⟩

end RocksDB
