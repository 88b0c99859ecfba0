import RocksDB.Db.MemTable

/-!
# utilities/transactions/transaction_util.cc: write-conflict checks

A pessimistic transaction that read a key at sequence number `key_seq` checks at commit that no
write of the key came after it.  `TransactionUtil::CheckKey` asks
`DBImpl::GetLatestSequenceForKey` for the sequence number of the newest write of the key, looking
in the mutable memtable, then the immutable memtables, then the flushed memtables kept as history,
then the files, and stopping at the first that reports one:

* `MemTableListVersion.GetFromList`    the memtables of a list, newest first, the sequence number
                                       of the first that reports one kept;
* `GetEarliestMemTableSequenceNumber`  how far back the memtables reach;
* `CheckKey`                           `TryAgain` where they do not reach `key_seq` and only they
                                       may be read, `Busy` where the reported write is newer.

`MemTable::Get` records in its sequence-number out-parameter the number of every entry of the
key it reads, so after a run of merge operands it reports the oldest one it read rather than the
newest: `CheckKey_misses_newer_merge`.
-/

namespace RocksDB

/-- `MemTable::GetEarliestSequenceNumber` -/
def MemTable.GetEarliestSequenceNumber (mem : MemTable) : Nat := mem.earliest_seqno_

/-- a `MemTableListVersion`: the immutable memtables and the flushed ones kept as history, each
newest first -/
structure MemTableListVersion where
  memlist_ : List MemTable
  memlist_history_ : List MemTable

/-- what a lookup leaves in its out-parameters: the value, the status, the merge context and the
sequence number -/
structure LookupState where
  value : List UInt8
  s : Status
  merge_context : MergeContext
  seq : Nat

namespace MemTableListVersion

/-- `GetEarliestSequenceNumber(include_history)`: that of the oldest memtable of the history, or
of the immutable list, `kMaxSequenceNumber` where both are empty -/
def GetEarliestSequenceNumber (v : MemTableListVersion) (include_history : Bool) : Nat :=
  match include_history, v.memlist_history_.getLast?, v.memlist_.getLast? with
  | true, some oldest, _ => oldest.GetEarliestSequenceNumber
  | _, _, some oldest => oldest.GetEarliestSequenceNumber
  | _, _, none => kMaxSequenceNumber

/-- the loop of `GetFromList` from `seq`: each memtable's `Get` with a fresh sequence number, the
first one reported kept, up to a memtable that finds a final value or an error -/
def getFromListLoop (key : LookupKey) (range_del_agg : List UInt8 → Bool) :
    List MemTable → LookupState → Bool × LookupState
  | [], st => (false, st)
  | memtable :: list, st =>
    let r := memtable.Get key st.value st.s st.merge_context range_del_agg kMaxSequenceNumber
    let st : LookupState :=
      ⟨r.value, r.status, r.merge_context, if st.seq = kMaxSequenceNumber then r.seq else st.seq⟩
    if r.found then (true, st)
    else if !r.status.ok && !r.status.IsMergeInProgress && !r.status.IsNotFound then (false, st)
    else getFromListLoop key range_del_agg list st

/-- `GetFromList(list, key, ...)`: the loop from `*seq = kMaxSequenceNumber` -/
def GetFromList (list : List MemTable) (key : LookupKey) (st : LookupState)
    (range_del_agg : List UInt8 → Bool) : Bool × LookupState :=
  getFromListLoop key range_del_agg list { st with seq := kMaxSequenceNumber }

end MemTableListVersion

/-- a `SuperVersion`: the mutable memtable, the immutable ones, and `Version::Get` on the files,
which gives the status, `found_record_for_key` and the sequence number from the lookup key, the
status and the merge context -/
structure SuperVersion where
  mem : MemTable
  imm : MemTableListVersion
  current : LookupKey → Status → MergeContext → Status × Bool × Nat

namespace DBImpl

/-- `GetEarliestMemTableSequenceNumber(sv, include_history)` -/
def GetEarliestMemTableSequenceNumber (sv : SuperVersion) (include_history : Bool) : Nat :=
  let earliest_seq := sv.imm.GetEarliestSequenceNumber include_history
  if earliest_seq = kMaxSequenceNumber then sv.mem.GetEarliestSequenceNumber else earliest_seq

/-- the status test after each stage of `GetLatestSequenceForKey` -/
def readable (s : Status) : Bool := s.ok || s.IsNotFound || s.IsMergeInProgress

/-- `GetLatestSequenceForKey(sv, key, cache_only, &seq, &found_record_for_key)` with
`LastSequence()` given: the status, `*seq` and `*found_record_for_key`.  No range deletion is
added (the memtables modelled here hold no range deletion) and `value` is `nullptr`, for which
the empty value stands. -/
def GetLatestSequenceForKey (sv : SuperVersion) (key : List UInt8) (cache_only : Bool)
    (current_seq : Nat) : Status × Nat × Bool :=
  let lkey := LookupKey.new key current_seq
  let no_range_del : List UInt8 → Bool := fun _ => false
  let r := sv.mem.Get lkey [] Status.OK MergeContext.empty no_range_del kMaxSequenceNumber
  if !readable r.status then (r.status, r.seq, false)
  else if r.seq ≠ kMaxSequenceNumber then (Status.OK, r.seq, true)
  else
    let st : LookupState := ⟨r.value, r.status, r.merge_context, r.seq⟩
    let st := (MemTableListVersion.GetFromList sv.imm.memlist_ lkey st no_range_del).2
    if !readable st.s then (st.s, st.seq, false)
    else if st.seq ≠ kMaxSequenceNumber then (Status.OK, st.seq, true)
    else
      let st := (MemTableListVersion.GetFromList sv.imm.memlist_history_ lkey st no_range_del).2
      if !readable st.s then (st.s, st.seq, false)
      else if st.seq ≠ kMaxSequenceNumber then (Status.OK, st.seq, true)
      else if !cache_only then
        let (s, found_record_for_key, seq) := sv.current lkey st.s st.merge_context
        if !readable s then (s, seq, found_record_for_key)
        else (Status.OK, seq, found_record_for_key)
      else (Status.OK, st.seq, false)

end DBImpl

namespace TransactionUtil

/-- `CheckKey(db_impl, sv, earliest_seq, key_seq, key, cache_only)` with `LastSequence()` given -/
def CheckKey (sv : SuperVersion) (earliest_seq key_seq : Nat) (key : List UInt8)
    (cache_only : Bool) (current_seq : Nat) : Status :=
  let need_to_read_sst := earliest_seq = kMaxSequenceNumber ∨ key_seq < earliest_seq
  let result : Status :=
    if earliest_seq = kMaxSequenceNumber then
      if cache_only then
        ⟨.kTryAgain, .kNone,
          "Transaction ould not check for conflicts as the MemTable does not countain a long " ++
          "enough history to check write at SequenceNumber: " ++ ": " ++ toString key_seq⟩
      else Status.OK
    else if key_seq < earliest_seq then
      if cache_only then
        ⟨.kTryAgain, .kNone,
          "Transaction could not check for conflicts for operation at SequenceNumber " ++
          toString key_seq ++ " as the MemTable only contains changes newer than SequenceNumber " ++
          toString earliest_seq ++ ".  Increasing the value of the " ++
          "max_write_buffer_number_to_maintain option could reduce the frequency of this error."⟩
      else Status.OK
    else Status.OK
  if result.ok then
    let (s, seq, found_record_for_key) :=
      DBImpl.GetLatestSequenceForKey sv key (!decide need_to_read_sst) current_seq
    if !DBImpl.readable s then s
    else if found_record_for_key ∧ key_seq < seq then Status.Busy .kNone
    else result
  else result

/-- two merge operands of one key in the mutable memtable, at 8 and then at 10: the lookup
reports 8, the oldest entry it read, so a transaction that read the key at 9 passes the check
although the write at 10 came after it -/
theorem CheckKey_misses_newer_merge :
    (let mem := ((MemTable.new ⟨some CreateStringAppendOperator⟩ 0).Add 8 .kTypeMerge [1] [2]).Add
      10 .kTypeMerge [1] [3]
    let sv : SuperVersion := ⟨mem, ⟨[], []⟩, fun _ s _ => (s, false, kMaxSequenceNumber)⟩
    MemTable.EncodeEntry 10 .kTypeMerge [1] [3] ∈ mem.table_ ∧
      DBImpl.GetLatestSequenceForKey sv [1] true 10 = (Status.OK, 8, true) ∧
      CheckKey sv (DBImpl.GetEarliestMemTableSequenceNumber sv true) 9 [1] true 10 = Status.OK) := by
  decide

end TransactionUtil

end RocksDB
