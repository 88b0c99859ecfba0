import RocksDB.Transactions.TransactionImpl
import RocksDB.Db.WriteBatchRoundTrip
import RocksDB.Lib.Sorted

/-!
# utilities/transactions/transaction_impl.cc: locking the keys of a batch

`TransactionDBImpl::Write` runs a batch through an internal transaction's `CommitBatch`, which
locks every key of the batch with `LockBatch` before it writes.  `LockBatch` collects the keys
with a `WriteBatch::Handler` that overrides `PutCF`, `MergeCF` and `DeleteCF` only, then locks
them exclusively in ascending order, unlocking what it locked if one fails:

* `lockBatchHandler`  the handler, with the defaults of `WriteBatch::Handler` for the other
                      callbacks: `SingleDeleteCF` is OK and records nothing in column family 0,
                      and is `InvalidArgument` elsewhere, which ends `Iterate`;
* `lockKeys`          the locking loop, `LockBatch` the whole, which ignores `Iterate`'s status.

A batch of one `SingleDelete` is therefore reported locked with no lock taken
(`LockBatch_single_delete_unlocked`).
-/

namespace RocksDB

/-- the order of `std::map<uint32_t, std::set<std::string>>`: by column family, then bytewise -/
def batchKeyOrder (p : UInt32 × List UInt8) : Lex (ℕ × List ℕ) :=
  toLex (p.1.toNat, p.2.map UInt8.toNat)

/-- `Handler::RecordKey`: the key joins the keys of its column family unless it is there -/
def RecordKey (keys : List (UInt32 × List UInt8)) (column_family_id : UInt32) (key : List UInt8) :
    List (UInt32 × List UInt8) :=
  if (column_family_id, key) ∈ keys then keys
  else keys.insertByKey batchKeyOrder (column_family_id, key)

/-- the default `PutCF`, `DeleteCF`, `SingleDeleteCF` and `MergeCF` of `WriteBatch::Handler`:
the call without column family, a no-op, in column family 0, else `InvalidArgument` -/
def defaultCF (message : String) (column_family_id : UInt32) : Status :=
  if column_family_id = 0 then Status.OK else Status.InvalidArgument message

/-- the `Handler` of `LockBatch` over its `keys_` -/
def lockBatchHandler : Handler (List (UInt32 × List UInt8)) where
  PutCF keys cf key _ := (RecordKey keys cf key, Status.OK)
  DeleteCF keys cf key := (RecordKey keys cf key, Status.OK)
  SingleDeleteCF keys cf _ :=
    (keys, defaultCF "non-default column family and SingleDeleteCF not implemented" cf)
  DeleteRangeCF keys _ _ _ := (keys, Status.InvalidArgument "DeleteRangeCF not implemented")
  MergeCF keys cf key _ := (RecordKey keys cf key, Status.OK)
  LogData keys _ := keys
  MarkBeginPrepare keys := keys
  MarkEndPrepare keys _ := keys
  MarkCommit keys _ := keys
  MarkRollback keys _ := keys
  Continue _ := true

namespace TransactionImpl

/-- the loop of `LockBatch`: `TryLock` each key exclusively and track it in `keys_to_unlock`,
up to the first failure, whose status it returns; `none` where the lock table throws -/
def lockKeys (txn : TransactionImpl) (outcome : UInt32 → List UInt8 → LockOutcome) :
    TransactionLockMgr → TransactionKeyMap → List (UInt32 × List UInt8) →
      Option (Status × TransactionKeyMap × TransactionLockMgr)
  | mgr, keys_to_unlock, [] => some (Status.OK, keys_to_unlock, mgr)
  | mgr, keys_to_unlock, (cfh_id, key) :: rest =>
    ((outcome cfh_id key).run mgr txn.txn_id_ txn.expiration_time_ cfh_id key true).bind fun r =>
      if r.1.ok then
        lockKeys txn outcome r.2
          (keys_to_unlock.TrackKey cfh_id key kMaxSequenceNumber false true) rest
      else some (r.1, keys_to_unlock, r.2)

/-- `LockBatch`: the status, `keys_to_unlock` and the lock table; the status of `Iterate` is not
read, and a failure unlocks `keys_to_unlock` -/
def LockBatch (txn : TransactionImpl) (mgr : TransactionLockMgr)
    (outcome : UInt32 → List UInt8 → LockOutcome) (batch : WriteBatch)
    (keys_to_unlock : TransactionKeyMap) :
    Option (Status × TransactionKeyMap × TransactionLockMgr) :=
  let keys := (batch.Iterate lockBatchHandler []).1
  (txn.lockKeys outcome mgr keys_to_unlock keys).bind fun r =>
    if r.1.ok then some r
    else (r.2.2.UnLockKeyMap txn.txn_id_ r.2.1.keyMap).map fun mgr => (r.1, r.2.1, mgr)

theorem lockBatchHandler_continue (keys : List (UInt32 × List UInt8)) :
    lockBatchHandler.Continue keys = true := rfl

/-- the keys `LockBatch` collects from a fresh batch: those the callbacks record up to the first
that is not OK -/
theorem LockBatch_applyOps (txn : TransactionImpl) (mgr : TransactionLockMgr)
    (outcome : UInt32 → List UInt8 → LockOutcome) (ops : List BatchOp)
    (hops : ∀ op ∈ ops, op.Fits) (keys_to_unlock : TransactionKeyMap) :
    txn.LockBatch mgr outcome (applyOps (WriteBatch.new 0) ops) keys_to_unlock =
      (txn.lockKeys outcome mgr keys_to_unlock
        (handleOps lockBatchHandler [] Status.OK ops).1).bind fun r =>
        if r.1.ok then some r
        else (r.2.2.UnLockKeyMap txn.txn_id_ r.2.1.keyMap).map fun mgr => (r.1, r.2.1, mgr) := by
  rw [LockBatch, iterate_applyOps_handler lockBatchHandler lockBatchHandler_continue ops hops]

/-- a batch of one `SingleDelete` in column family 0, and one of a `SingleDelete` in column
family 1 followed by a `Put`: `LockBatch` returns OK, with no key to unlock and the lock table as
it was, so a fresh lock table holds no lock on the deleted key -/
theorem LockBatch_single_delete_unlocked (txn : TransactionImpl) (mgr : TransactionLockMgr)
    (outcome : UInt32 → List UInt8 → LockOutcome) :
    txn.LockBatch mgr outcome (applyOps (WriteBatch.new 0) [.SingleDelete 0 [1]]) ∅ =
        some (Status.OK, ∅, mgr) ∧
      txn.LockBatch mgr outcome (applyOps (WriteBatch.new 0) [.SingleDelete 1 [1], .Put 1 [2] [3]])
        ∅ = some (Status.OK, ∅, mgr) ∧
      ((TransactionLockMgr.new 16 0).AddColumnFamily 0).lockOf txn.txn_id_ 0 [1] = none := by
  refine ⟨?_, ?_, ?_⟩
  · rw [LockBatch_applyOps txn mgr outcome _ (by simp [BatchOp.Fits])]
    rfl
  · rw [LockBatch_applyOps txn mgr outcome _ (by simp [BatchOp.Fits])]
    rfl
  · simp only [TransactionLockMgr.lockOf, TransactionLockMgr.lockInfo?_AddColumnFamily]
    rfl

end TransactionImpl

end RocksDB
