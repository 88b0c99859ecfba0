import RocksDB.Db.MemTable
import RocksDB.Db.WriteBatchRoundTrip

/-!
# db/write_batch.cc: the MemTableInserter

`WriteBatchInternal::InsertInto` runs a batch through a `WriteBatch::Handler`, the
`MemTableInserter`, which numbers the counted records from `Sequence(batch)` on:

* `SeekToColumnFamily`  the column family of a record; a missing one (with
                        `ignore_missing_column_families`) and one that already holds the log
                        being recovered are skipped, and the record still takes its number
                        (`withColumnFamily`);
* `PutCF`               `MemTable::Add`, or with `inplace_update_support` `MemTable::Update`
                        or `MemTable::UpdateCallback`, which may rewrite the value of an older
                        entry in place, that entry keeping its own sequence number;
* `DeleteCF`, `SingleDeleteCF`, `DeleteRangeCF`  `DeleteImpl`;
* `MergeCF`             a merge operand, or past `max_successive_merges` the merged value;
* `InsertInto`          the inserter over a batch; `last_seq_used` is its `sequence()` after.

`InsertInto_sequence` shows that a successful `InsertInto` of a batch whose records are `ops`
ends at `Sequence(batch)` plus the number of counted records, whatever the memtables do.  What
a run does to the memtables is said by the adds it makes (`MemTableAdd`, `applyAdds`):
`InsertInto_adds` shows that, with no memtable updating in place, it makes one add per record of
an accepted column family, in order, at `Sequence(batch)` plus the index of the record among the
counted ones.
-/

namespace RocksDB

/-! ## The memtable calls of the in-place paths -/

/-- `UpdateStatus`, what an `inplace_callback` answers -/
inductive UpdateStatus where
  | UPDATE_FAILED | UPDATED_INPLACE | UPDATED
  deriving DecidableEq, Repr

/-- the options of a memtable that the inserter reads beside `MemTableOptions`.  The callback
takes the existing value (`none` for `nullptr`) and the delta, and gives its status, the existing
value as it leaves it and `merged_value`. -/
structure InplaceOptions where
  inplace_update_support : Bool
  inplace_callback :
    Option (Option (List UInt8) → List UInt8 → UpdateStatus × List UInt8 × List UInt8)
  max_successive_merges : Nat

namespace MemTable

/-- what the in-place paths read of a node: its user key, the type of its tag, the offset of its
value's length prefix, and its value -/
structure EntryView where
  user_key : List UInt8
  type : Option ValueType
  value_offset : Nat
  value : List UInt8

/-- a node decoded as `Update`, `UpdateCallback` and `CountSuccessiveMergeEntries` decode it -/
def EntryView.read (entry : List UInt8) : Option EntryView :=
  (getVarint32Ptr entry).map fun (key_length, key_ptr) =>
    let key_length := key_length.toNat
    let tag := decodeFixed64 (key_ptr.drop (key_length - 8))
    ⟨key_ptr.take (key_length - 8), ValueType.ofUInt8 (UnPackSequenceAndType tag).2,
      entry.length - key_ptr.length + key_length, getLengthPrefixedSlicePtr (key_ptr.drop key_length)⟩

/-- `memcpy(buf + pos, bytes)` -/
def writeAt (buf : List UInt8) (pos : Nat) (bytes : List UInt8) : List UInt8 :=
  buf.take pos ++ bytes ++ buf.drop (pos + bytes.length)

/-- the node `Seek(target)` lands on with its value rewritten in place: the new length prefix and
bytes written over the old ones, the key and tag kept -/
def RewriteValue (mem : MemTable) (target : List UInt8) (value_offset : Nat)
    (value : List UInt8) : MemTable :=
  let before := mem.table_.takeWhile fun n => KeyComparator n target = .lt
  match SkipListRep.Seek mem.table_ target with
  | [] => mem
  | entry :: rest =>
    { mem with table_ := before ++
        writeAt entry value_offset (encodeVarint32 (UInt32.ofNat value.length) ++ value) :: rest }

/-- `MemTable::Update`: the newest entry of the key at or below `seq`, where it is a value at least
as long as the new one, takes the new value in place; otherwise the value is added -/
def Update (mem : MemTable) (seq : Nat) (key value : List UInt8) : MemTable :=
  let lkey := LookupKey.new key seq
  match (SkipListRep.Seek mem.table_ lkey.memtable_key).head?.bind EntryView.read with
  | some e =>
    if BytewiseComparator.Equal e.user_key lkey.user_key ∧ e.type = some .kTypeValue ∧
        UInt32.ofNat value.length ≤ UInt32.ofNat e.value.length then
      mem.RewriteValue lkey.memtable_key e.value_offset value
    else mem.Add seq .kTypeValue key value
  | none => mem.Add seq .kTypeValue key value

/-- `MemTable::UpdateCallback`: the callback on the newest entry of the key at or below `seq`
where it is a value; `none` where it returns false -/
def UpdateCallback (mem : MemTable)
    (inplace_callback : Option (List UInt8) → List UInt8 → UpdateStatus × List UInt8 × List UInt8)
    (seq : Nat) (key delta : List UInt8) : Option MemTable :=
  let lkey := LookupKey.new key seq
  match (SkipListRep.Seek mem.table_ lkey.memtable_key).head?.bind EntryView.read with
  | some e =>
    if BytewiseComparator.Equal e.user_key lkey.user_key ∧ e.type = some .kTypeValue then
      match inplace_callback (some e.value) delta with
      | (.UPDATED_INPLACE, new_prev, _) =>
        some (mem.RewriteValue lkey.memtable_key e.value_offset new_prev)
      | (.UPDATED, _, str_value) => some (mem.Add seq .kTypeValue key str_value)
      | (.UPDATE_FAILED, _, _) => some mem
    else none
  | none => none

/-- `MemTable::CountSuccessiveMergeEntries`: the merge operands of the key from the lookup key on,
up to its first entry of another type -/
def CountSuccessiveMergeEntries (mem : MemTable) (key : LookupKey) : Nat :=
  ((SkipListRep.Seek mem.table_ key.memtable_key).takeWhile fun entry =>
    match EntryView.read entry with
    | some e => BytewiseComparator.Equal e.user_key key.user_key && e.type == some .kTypeMerge
    | none => false).length

end MemTable

/-! ## The inserter -/

/-- a column family as the inserter reads it: its memtable and that memtable's in-place options,
its log number, whether its table factory supports range deletions, and the names a
`NotSupported` message quotes -/
structure ColumnFamilyData where
  mem : MemTable
  moptions : InplaceOptions
  log_number : Nat
  is_delete_range_supported : Bool
  name : String
  table_factory_name : String

/-- the arguments of the inserter's constructor that no callback changes; `db` is `DB::Get` at a
snapshot (column family, key, sequence number), `none` for no database -/
structure InserterArgs where
  ignore_missing_column_families : Bool
  recovering_log_number : Nat
  db : Option (UInt32 → List UInt8 → Nat → Status × List UInt8)

/-- what the callbacks of `MemTableInserter` change: the sequence number, the memtables of
`ColumnFamilyMemTables` and `*has_valid_writes` -/
structure MemTableInserter where
  sequence_ : Nat
  cf_mems_ : AList fun _ : UInt32 => ColumnFamilyData
  has_valid_writes_ : Bool

namespace MemTableInserter

variable (args : InserterArgs)

/-- `SeekToColumnFamily`: the column family of a record, or the status of a record that is not
applied: OK for a missing column family with `ignore_missing_column_families`, and for one that
already holds updates of the log being recovered -/
def SeekToColumnFamily (ins : MemTableInserter) (column_family_id : UInt32) :
    Except Status (ColumnFamilyData × MemTableInserter) :=
  match ins.cf_mems_.lookup column_family_id with
  | none =>
    .error (if args.ignore_missing_column_families then Status.OK
      else Status.InvalidArgument "Invalid column family specified in write batch")
  | some cfd =>
    if args.recovering_log_number ≠ 0 ∧ args.recovering_log_number < cfd.log_number then
      .error Status.OK
    else .ok (cfd, { ins with has_valid_writes_ := true })

/-- the head of every record callback: `if (!SeekToColumnFamily(...)) { ++sequence_; return
seek_status; }` -/
def withColumnFamily (ins : MemTableInserter) (column_family_id : UInt32)
    (body : ColumnFamilyData → MemTableInserter → MemTableInserter × Status) :
    MemTableInserter × Status :=
  match SeekToColumnFamily args ins column_family_id with
  | .error seek_status => ({ ins with sequence_ := ins.sequence_ + 1 }, seek_status)
  | .ok (cfd, ins) => body cfd ins

/-- the tail of `PutCF`, `DeleteImpl` and `MergeCF`: the column family's memtable as the call
left it, then `sequence_++` -/
def advance (ins : MemTableInserter) (column_family_id : UInt32) (cfd : ColumnFamilyData)
    (mem : MemTable) : MemTableInserter × Status :=
  ({ ins with
      cf_mems_ := ins.cf_mems_.insert column_family_id { cfd with mem }
      sequence_ := ins.sequence_ + 1 }, Status.OK)

/-- `PutCF` -/
def PutCF (ins : MemTableInserter) (column_family_id : UInt32) (key value : List UInt8) :
    MemTableInserter × Status :=
  withColumnFamily args ins column_family_id fun cfd ins =>
    let mem := cfd.mem
    let moptions := cfd.moptions
    let mem :=
      if !moptions.inplace_update_support then mem.Add ins.sequence_ .kTypeValue key value
      else match moptions.inplace_callback with
        | none => mem.Update ins.sequence_ key value
        | some inplace_callback =>
          match mem.UpdateCallback inplace_callback ins.sequence_ key value with
          | some mem => mem
          | none =>
            -- the key is not in the memtable: its value is read at the sequence number, except
            -- in recovery, and the callback runs on what was read
            let (s, prev_value) := match args.db with
              | some get =>
                if args.recovering_log_number = 0 then get column_family_id key ins.sequence_
                else (Status.NotSupported "", [])
              | none => (Status.NotSupported "", [])
            match inplace_callback (if s.ok then some prev_value else none) value with
            | (.UPDATED_INPLACE, new_prev, _) =>
              mem.Add ins.sequence_ .kTypeValue key (if s.ok then new_prev else prev_value)
            | (.UPDATED, _, merged_value) => mem.Add ins.sequence_ .kTypeValue key merged_value
            | (.UPDATE_FAILED, _, _) => mem
    advance ins column_family_id cfd mem

/-- `DeleteImpl` -/
def DeleteImpl (ins : MemTableInserter) (column_family_id : UInt32) (cfd : ColumnFamilyData)
    (key value : List UInt8) (delete_type : ValueType) : MemTableInserter × Status :=
  advance ins column_family_id cfd (cfd.mem.Add ins.sequence_ delete_type key value)

/-- `DeleteCF` -/
def DeleteCF (ins : MemTableInserter) (column_family_id : UInt32) (key : List UInt8) :
    MemTableInserter × Status :=
  withColumnFamily args ins column_family_id fun cfd ins =>
    DeleteImpl ins column_family_id cfd key [] .kTypeDeletion

/-- `SingleDeleteCF` -/
def SingleDeleteCF (ins : MemTableInserter) (column_family_id : UInt32) (key : List UInt8) :
    MemTableInserter × Status :=
  withColumnFamily args ins column_family_id fun cfd ins =>
    DeleteImpl ins column_family_id cfd key [] .kTypeSingleDeletion

/-- `DeleteRangeCF`: with a database, a table factory without range deletions fails the record
before its number is taken -/
def DeleteRangeCF (ins : MemTableInserter) (column_family_id : UInt32)
    (begin_key end_key : List UInt8) : MemTableInserter × Status :=
  withColumnFamily args ins column_family_id fun cfd ins =>
    if args.db.isSome ∧ !cfd.is_delete_range_supported then
      (ins, Status.NotSupported ("DeleteRange not supported for table type " ++
        cfd.table_factory_name ++ " in CF " ++ cfd.name))
    else DeleteImpl ins column_family_id cfd begin_key end_key .kTypeRangeDeletion

/-- the merge on write of `MergeCF`: outside recovery, with a database and at least
`max_successive_merges` operands of the key at the head of the memtable, the operand merged into
the value read at the sequence number; `none` where no merge is made or it fails -/
def mergedValue (cfd : ColumnFamilyData) (ins : MemTableInserter) (column_family_id : UInt32)
    (key value : List UInt8) : Option (List UInt8) :=
  match args.db with
  | some get =>
    if 0 < cfd.moptions.max_successive_merges ∧ args.recovering_log_number = 0 ∧
        cfd.moptions.max_successive_merges ≤
          cfd.mem.CountSuccessiveMergeEntries (LookupKey.new key ins.sequence_) then
      let get_value := (get column_family_id key ins.sequence_).2
      let r := TimedFullMerge cfd.mem.moptions_.merge_operator key (some get_value) [value] []
      if r.1.ok then some r.2 else none
    else none
  | none => none

/-- `MergeCF`: the merged value where `mergedValue` makes one, the operand otherwise -/
def MergeCF (ins : MemTableInserter) (column_family_id : UInt32) (key value : List UInt8) :
    MemTableInserter × Status :=
  withColumnFamily args ins column_family_id fun cfd ins =>
    match mergedValue args cfd ins column_family_id key value with
    | some new_value =>
      advance ins column_family_id cfd (cfd.mem.Add ins.sequence_ .kTypeValue key new_value)
    | none => advance ins column_family_id cfd (cfd.mem.Add ins.sequence_ .kTypeMerge key value)

/-- `MemTableInserter` as a handler.  Outside recovery the two-phase-commit markers are ignored,
as here; rebuilding prepared sections in recovery is not modelled (no batch of `BatchOp`s holds
a marker). -/
def handler : Handler MemTableInserter where
  PutCF := PutCF args
  DeleteCF := DeleteCF args
  SingleDeleteCF := SingleDeleteCF args
  DeleteRangeCF := DeleteRangeCF args
  MergeCF := MergeCF args
  LogData ins _ := ins
  MarkBeginPrepare ins := ins
  MarkEndPrepare ins _ := ins
  MarkCommit ins _ := ins
  MarkRollback ins _ := ins
  Continue _ := true

end MemTableInserter

/-! ## The adds of a run -/

/-- an entry `MemTable::Add` puts into the memtable of a column family -/
structure MemTableAdd where
  column_family_id : UInt32
  seq : Nat
  type : ValueType
  key : List UInt8
  value : List UInt8
  deriving DecidableEq, Repr

/-- the memtables after an add -/
def applyAdd (cf_mems : AList fun _ : UInt32 => ColumnFamilyData) (a : MemTableAdd) :
    AList fun _ : UInt32 => ColumnFamilyData :=
  match cf_mems.lookup a.column_family_id with
  | some cfd => cf_mems.insert a.column_family_id { cfd with mem := cfd.mem.Add a.seq a.type a.key a.value }
  | none => cf_mems

/-- the memtables after adds made in order -/
def applyAdds (cf_mems : AList fun _ : UInt32 => ColumnFamilyData) (adds : List MemTableAdd) :
    AList fun _ : UInt32 => ColumnFamilyData :=
  adds.foldl applyAdd cf_mems

/-- the add a record asks for at the sequence number `seq`: its type, its key and its value (the
end key of a range deletion); none for a blob -/
def BatchOp.add? (seq : Nat) : BatchOp → Option MemTableAdd
  | .Put cf key value => some ⟨cf, seq, .kTypeValue, key, value⟩
  | .Delete cf key => some ⟨cf, seq, .kTypeDeletion, key, []⟩
  | .SingleDelete cf key => some ⟨cf, seq, .kTypeSingleDeletion, key, []⟩
  | .DeleteRange cf begin_key end_key => some ⟨cf, seq, .kTypeRangeDeletion, begin_key, end_key⟩
  | .Merge cf key value => some ⟨cf, seq, .kTypeMerge, key, value⟩
  | .PutLogData _ => none

/-- the adds a record asks for where its column family `accepts` them -/
def BatchOp.adds (accepts : UInt32 → Bool) (seq : Nat) (op : BatchOp) : List MemTableAdd :=
  match op.add? seq with
  | some a => if accepts a.column_family_id then [a] else []
  | none => []

/-- the adds the records of `ops` ask for, the counted ones numbered from `seq` on -/
def expectedAdds (accepts : UInt32 → Bool) : Nat → List BatchOp → List MemTableAdd
  | _, [] => []
  | seq, op :: ops => op.adds accepts seq ++ expectedAdds accepts (if op.counted then seq + 1 else seq) ops

/-- an add made for the add `a` a record asks for: `a` itself, or for a merge operand the merged
value -/
def MemTableAdd.Realizes (made a : MemTableAdd) : Prop :=
  made = a ∨ (a.type = .kTypeMerge ∧ made = { a with type := .kTypeValue, value := made.value })

/-- whether `SeekToColumnFamily` finds a column family and applies records to it -/
def Accepts (args : InserterArgs) (cf_mems : AList fun _ : UInt32 => ColumnFamilyData)
    (column_family_id : UInt32) : Bool :=
  match cf_mems.lookup column_family_id with
  | some cfd => !decide (args.recovering_log_number ≠ 0 ∧ args.recovering_log_number < cfd.log_number)
  | none => false

/-- no column family updates its memtable in place -/
def NoInplace (cf_mems : AList fun _ : UInt32 => ColumnFamilyData) : Prop :=
  ∀ cf cfd, cf_mems.lookup cf = some cfd → cfd.moptions.inplace_update_support = false

section Adds

variable {cf_mems : AList fun _ : UInt32 => ColumnFamilyData}

theorem lookup_applyAdd (a : MemTableAdd) (cf : UInt32) :
    (applyAdd cf_mems a).lookup cf = (cf_mems.lookup cf).map fun cfd =>
      if cf = a.column_family_id then { cfd with mem := cfd.mem.Add a.seq a.type a.key a.value }
      else cfd := by
  unfold applyAdd
  cases ha : cf_mems.lookup a.column_family_id with
  | none =>
    by_cases hcf : cf = a.column_family_id
    · subst hcf; simp [ha]
    · simp [hcf]
  | some cfd =>
    by_cases hcf : cf = a.column_family_id
    · subst hcf; simp [ha, AList.lookup_insert]
    · simp [hcf, AList.lookup_insert_ne hcf]

@[simp] theorem accepts_applyAdd (args : InserterArgs) (a : MemTableAdd) :
    Accepts args (applyAdd cf_mems a) = Accepts args cf_mems := by
  funext cf
  simp only [Accepts, lookup_applyAdd]
  cases cf_mems.lookup cf with
  | none => rfl
  | some cfd => by_cases hcf : cf = a.column_family_id <;> simp [hcf]

theorem NoInplace.applyAdd (h : NoInplace cf_mems) (a : MemTableAdd) :
    NoInplace (applyAdd cf_mems a) := by
  intro cf cfd hcfd
  rw [lookup_applyAdd] at hcfd
  obtain ⟨cfd₀, h₀, rfl⟩ := Option.map_eq_some_iff.mp hcfd
  have := h cf cfd₀ h₀
  split_ifs <;> assumption

@[simp] theorem applyAdds_nil : applyAdds cf_mems [] = cf_mems := rfl

theorem applyAdds_append (adds adds' : List MemTableAdd) :
    applyAdds cf_mems (adds ++ adds') = applyAdds (applyAdds cf_mems adds) adds' := by
  simp [applyAdds, List.foldl_append]

@[simp] theorem accepts_applyAdds (args : InserterArgs) (adds : List MemTableAdd) :
    Accepts args (applyAdds cf_mems adds) = Accepts args cf_mems := by
  induction adds generalizing cf_mems with
  | nil => rfl
  | cons a adds ih =>
    show Accepts args (applyAdds (applyAdd cf_mems a) adds) = _
    rw [ih, accepts_applyAdd]

/-- an add keeps the column family, number and key of the add it realizes -/
theorem MemTableAdd.Realizes.seq {made a : MemTableAdd} (h : made.Realizes a) : made.seq = a.seq := by
  rcases h with rfl | ⟨-, hm⟩
  · rfl
  · rw [hm]

theorem map_seq_of_forall₂_realizes {adds expected : List MemTableAdd}
    (h : List.Forall₂ MemTableAdd.Realizes adds expected) :
    adds.map MemTableAdd.seq = expected.map MemTableAdd.seq := by
  induction h with
  | nil => rfl
  | cons ha _ ih => rw [List.map_cons, List.map_cons, ha.seq, ih]

/-- the adds of two runs of records, the second numbered from where the first ends -/
theorem expectedAdds_append (accepts : UInt32 → Bool) (xs ys : List BatchOp) (seq : Nat) :
    expectedAdds accepts seq (xs ++ ys) =
      expectedAdds accepts seq xs ++ expectedAdds accepts (seq + countedOps xs) ys := by
  induction xs generalizing seq with
  | nil => simp [expectedAdds, countedOps]
  | cons op xs ih =>
    rw [List.cons_append, expectedAdds, expectedAdds, ih, List.append_assoc]
    have hnext : (if op.counted then seq + 1 else seq) + countedOps xs = seq + countedOps (op :: xs) := by
      simp only [countedOps, List.countP_cons]
      split <;> omega
    rw [hnext]

theorem NoInplace.applyAdds (h : NoInplace cf_mems) (adds : List MemTableAdd) :
    NoInplace (applyAdds cf_mems adds) := by
  induction adds generalizing cf_mems with
  | nil => exact h
  | cons a adds ih => exact ih (h.applyAdd a)

/-- adds made in two stretches, the second from the memtables the first left, are adds of the
whole run that realize both stretches' expected adds in order -/
theorem exists_adds_append {mid fin : AList fun _ : UInt32 => ColumnFamilyData}
    {adds₁ adds₂ e₁ e₂ : List MemTableAdd} (hmem₁ : mid = applyAdds cf_mems adds₁)
    (hrel₁ : List.Forall₂ MemTableAdd.Realizes adds₁ e₁) (hmem₂ : fin = applyAdds mid adds₂)
    (hrel₂ : List.Forall₂ MemTableAdd.Realizes adds₂ e₂) :
    ∃ adds, fin = applyAdds cf_mems adds ∧ List.Forall₂ MemTableAdd.Realizes adds (e₁ ++ e₂) := by
  refine ⟨adds₁ ++ adds₂, ?_, List.rel_append hrel₁ hrel₂⟩
  rw [hmem₂, hmem₁, applyAdds_append]

end Adds


/-! ## What each callback adds -/

namespace MemTableInserter

variable (args : InserterArgs) {ins : MemTableInserter}

/-! The number a record takes does not depend on what its callback does to the memtable: every
body ends in `sequence_++`, in-place updates and failed callbacks included. -/

/-- a record whose column family is skipped takes its number; one whose body takes a number does
too -/
theorem sequence_withColumnFamily (column_family_id : UInt32)
    (body : ColumnFamilyData → MemTableInserter → MemTableInserter × Status)
    (hbody : ∀ cfd, (body cfd { ins with has_valid_writes_ := true }).2.ok →
      (body cfd { ins with has_valid_writes_ := true }).1.sequence_ = ins.sequence_ + 1)
    (hok : (withColumnFamily args ins column_family_id body).2.ok) :
    (withColumnFamily args ins column_family_id body).1.sequence_ = ins.sequence_ + 1 := by
  unfold withColumnFamily SeekToColumnFamily at hok ⊢
  cases hcfd : ins.cf_mems_.lookup column_family_id with
  | none => rfl
  | some cfd =>
    rw [hcfd] at hok
    dsimp only at hok ⊢
    by_cases hskip : args.recovering_log_number ≠ 0 ∧ args.recovering_log_number < cfd.log_number
    · rw [if_pos hskip]
    · rw [if_neg hskip] at hok ⊢
      exact hbody cfd hok

/-- **One record's number.**  A callback that returns OK moves `sequence_` on by one for a counted
record, whatever it does to the memtable -/
theorem handle_sequence (op : BatchOp) {s : Status} (hok : (op.handle (handler args) ins s).2.ok) :
    (op.handle (handler args) ins s).1.sequence_ = ins.sequence_ + (if op.counted then 1 else 0) := by
  cases op with
  | Put cf key value => exact sequence_withColumnFamily args cf _ (fun _ _ => rfl) hok
  | Delete cf key => exact sequence_withColumnFamily args cf _ (fun _ _ => rfl) hok
  | SingleDelete cf key => exact sequence_withColumnFamily args cf _ (fun _ _ => rfl) hok
  | DeleteRange cf begin_key end_key =>
    refine sequence_withColumnFamily args cf _ (fun cfd hbody => ?_) hok
    split_ifs at hbody ⊢
    · -- `NotSupported` ends the batch
      simp at hbody
    · rfl
  | Merge cf key value =>
    refine sequence_withColumnFamily args cf _ (fun cfd _ => ?_) hok
    split <;> rfl
  | PutLogData blob => rfl

/-- **A run's numbers.**  When the callbacks end OK, the inserter has taken one number per counted
record -/
theorem handleOps_sequence (ops : List BatchOp) :
    ∀ (ins : MemTableInserter) (s : Status), s.ok → (handleOps (handler args) ins s ops).2.ok →
      (handleOps (handler args) ins s ops).1.sequence_ = ins.sequence_ + countedOps ops := by
  induction ops with
  | nil => intro ins s _ _; rfl
  | cons op ops ih =>
    intro ins s hs hok
    rw [handleOps, if_pos hs] at hok ⊢
    have hr := ok_of_handleOps_ok _ _ ops hok
    rw [ih _ _ hr hok, handle_sequence args op hr]
    simp only [countedOps, List.countP_cons]
    split <;> omega

/-- a record callback's result `r` from `ins`, where it is OK: the record's number taken, and adds
made that realize `expected` -/
def Steps (ins : MemTableInserter) (expected : List MemTableAdd) (r : MemTableInserter × Status) :
    Prop :=
  r.2.ok → r.1.sequence_ = ins.sequence_ + 1 ∧
    ∃ adds, r.1.cf_mems_ = applyAdds ins.cf_mems_ adds ∧ List.Forall₂ MemTableAdd.Realizes adds expected

/-- a record whose column family is not accepted takes its number and adds nothing; one whose
column family is accepted gets what the body does -/
theorem steps_withColumnFamily (a : MemTableAdd)
    (body : ColumnFamilyData → MemTableInserter → MemTableInserter × Status)
    (hbody : ∀ cfd, ins.cf_mems_.lookup a.column_family_id = some cfd →
      Steps ins [a] (body cfd { ins with has_valid_writes_ := true })) :
    Steps ins (if Accepts args ins.cf_mems_ a.column_family_id then [a] else [])
      (withColumnFamily args ins a.column_family_id body) := by
  have skipped : ∀ st, Steps ins [] ({ ins with sequence_ := ins.sequence_ + 1 }, st) :=
    fun _ _ => ⟨rfl, [], rfl, .nil⟩
  unfold withColumnFamily SeekToColumnFamily
  cases hcfd : ins.cf_mems_.lookup a.column_family_id with
  | none =>
    have hacc : Accepts args ins.cf_mems_ a.column_family_id = false := by simp [Accepts, hcfd]
    rw [hacc]
    exact skipped _
  | some cfd =>
    by_cases hskip : args.recovering_log_number ≠ 0 ∧ args.recovering_log_number < cfd.log_number
    · -- the column family already holds the log being recovered
      have hacc : Accepts args ins.cf_mems_ a.column_family_id = false := by
        simp [Accepts, hcfd, hskip]
      dsimp only
      rw [hacc, if_pos hskip]
      exact skipped _
    · have hacc : Accepts args ins.cf_mems_ a.column_family_id = true := by
        simp [Accepts, hcfd, hskip]
      dsimp only
      rw [hacc, if_neg hskip]
      exact hbody cfd hcfd

/-- the tail of a callback that adds `made` for the add `a` the record asks for -/
theorem steps_advance (ins : MemTableInserter) (a made : MemTableAdd) {cfd : ColumnFamilyData}
    (hcfd : ins.cf_mems_.lookup a.column_family_id = some cfd) (hmade : made.Realizes a) :
    Steps ins [a]
      (advance { ins with has_valid_writes_ := true } a.column_family_id cfd
        (cfd.mem.Add made.seq made.type made.key made.value)) := by
  intro _
  have hcf : made.column_family_id = a.column_family_id := by
    rcases hmade with rfl | ⟨-, hm⟩
    · rfl
    · rw [hm]
  refine ⟨rfl, [made], ?_, .cons hmade .nil⟩
  show ins.cf_mems_.insert a.column_family_id _ = applyAdd ins.cf_mems_ made
  unfold applyAdd
  rw [hcf, hcfd]

theorem steps_PutCF (hno : NoInplace ins.cf_mems_) (column_family_id : UInt32)
    (key value : List UInt8) :
    Steps ins ((BatchOp.Put column_family_id key value).adds (Accepts args ins.cf_mems_) ins.sequence_)
      (PutCF args ins column_family_id key value) := by
  let a : MemTableAdd := ⟨column_family_id, ins.sequence_, .kTypeValue, key, value⟩
  apply steps_withColumnFamily args a
  intro cfd hcfd
  have hflag := hno column_family_id cfd hcfd
  simp only [hflag, Bool.not_false, if_true]
  exact steps_advance ins a a hcfd (.inl rfl)

theorem steps_deleteCF (delete_type : ValueType) (column_family_id : UInt32) (key : List UInt8) :
    Steps ins (if Accepts args ins.cf_mems_ column_family_id then
        [⟨column_family_id, ins.sequence_, delete_type, key, []⟩] else [])
      (withColumnFamily args ins column_family_id fun cfd ins =>
        DeleteImpl ins column_family_id cfd key [] delete_type) := by
  let a : MemTableAdd := ⟨column_family_id, ins.sequence_, delete_type, key, []⟩
  apply steps_withColumnFamily args a
  intro cfd hcfd
  exact steps_advance ins a a hcfd (.inl rfl)

theorem steps_DeleteRangeCF (column_family_id : UInt32) (begin_key end_key : List UInt8) :
    Steps ins ((BatchOp.DeleteRange column_family_id begin_key end_key).adds
        (Accepts args ins.cf_mems_) ins.sequence_)
      (DeleteRangeCF args ins column_family_id begin_key end_key) := by
  let a : MemTableAdd := ⟨column_family_id, ins.sequence_, .kTypeRangeDeletion, begin_key, end_key⟩
  apply steps_withColumnFamily args a
  intro cfd hcfd
  split_ifs
  · -- `NotSupported` ends the batch
    intro hok
    simp at hok
  · exact steps_advance ins a a hcfd (.inl rfl)

theorem steps_MergeCF (column_family_id : UInt32) (key value : List UInt8) :
    Steps ins ((BatchOp.Merge column_family_id key value).adds (Accepts args ins.cf_mems_) ins.sequence_)
      (MergeCF args ins column_family_id key value) := by
  let a : MemTableAdd := ⟨column_family_id, ins.sequence_, .kTypeMerge, key, value⟩
  apply steps_withColumnFamily args a
  intro cfd hcfd
  split
  · -- the merged value replaces the operand
    rename_i new_value _
    exact steps_advance ins a { a with type := .kTypeValue, value := new_value } hcfd
      (.inr ⟨rfl, rfl⟩)
  · exact steps_advance ins a a hcfd (.inl rfl)

/-- **One record.**  A callback that returns OK takes the record's number if it is counted, and
makes adds that realize the ones it asks for -/
theorem handle_adds (hno : NoInplace ins.cf_mems_) (op : BatchOp) {s : Status}
    (hok : (op.handle (handler args) ins s).2.ok) :
    (op.handle (handler args) ins s).1.sequence_ = ins.sequence_ + (if op.counted then 1 else 0) ∧
      ∃ adds, (op.handle (handler args) ins s).1.cf_mems_ = applyAdds ins.cf_mems_ adds ∧
        List.Forall₂ MemTableAdd.Realizes adds (op.adds (Accepts args ins.cf_mems_) ins.sequence_) := by
  cases op with
  | Put cf key value => exact steps_PutCF args hno cf key value hok
  | Delete cf key => exact steps_deleteCF args .kTypeDeletion cf key hok
  | SingleDelete cf key => exact steps_deleteCF args .kTypeSingleDeletion cf key hok
  | DeleteRange cf begin_key end_key => exact steps_DeleteRangeCF args cf begin_key end_key hok
  | Merge cf key value => exact steps_MergeCF args cf key value hok
  | PutLogData blob => exact ⟨rfl, [], rfl, .nil⟩

/-- **A run of records.**  With no memtable that updates in place, callbacks that end OK have
made adds that realize the ones the records ask for, numbered from where the inserter started -/
theorem handleOps_adds (ops : List BatchOp) :
    ∀ (ins : MemTableInserter) (s : Status), s.ok → NoInplace ins.cf_mems_ →
      (handleOps (handler args) ins s ops).2.ok →
      ∃ adds, (handleOps (handler args) ins s ops).1.cf_mems_ = applyAdds ins.cf_mems_ adds ∧
        List.Forall₂ MemTableAdd.Realizes adds
          (expectedAdds (Accepts args ins.cf_mems_) ins.sequence_ ops) := by
  induction ops with
  | nil =>
    intro ins s _ _ _
    exact ⟨[], rfl, .nil⟩
  | cons op ops ih =>
    intro ins s hs hno hok
    rw [handleOps, if_pos hs] at hok ⊢
    have hr := ok_of_handleOps_ok _ _ ops hok
    obtain ⟨hseq₁, adds₁, hmem₁, hrel₁⟩ := handle_adds args hno op hr
    obtain ⟨adds₂, hmem₂, hrel₂⟩ := ih _ _ hr (hmem₁ ▸ hno.applyAdds adds₁) hok
    -- the later records ask for adds numbered from where this one left `sequence_`
    have hnext : ins.sequence_ + (if op.counted then 1 else 0) =
        if op.counted then ins.sequence_ + 1 else ins.sequence_ := by
      split <;> rfl
    rw [hmem₁, accepts_applyAdds, hseq₁, hnext] at hrel₂
    rw [expectedAdds]
    exact exists_adds_append hmem₁ hrel₁ hmem₂ hrel₂

end MemTableInserter

namespace WriteBatchInternal

/-- `Sequence(b)`: the fixed64 at the front of `rep_` -/
def Sequence (b : WriteBatch) : Nat := (decodeFixed64 b.rep).toNat

/-- `SetSequence(b, seq)`: the fixed64 written over the first eight bytes -/
def SetSequence (b : WriteBatch) (seq : Nat) : WriteBatch :=
  { b with rep := encodeFixed64 (UInt64.ofNat seq) ++ b.rep.drop 8 }

/-- `InsertInto(batch, memtables, ...)`: the status of `Iterate` and the inserter after it, whose
`sequence_` is `*last_seq_used` -/
def InsertInto (batch : WriteBatch) (memtables : AList fun _ : UInt32 => ColumnFamilyData)
    (args : InserterArgs) : Status × MemTableInserter :=
  let r := batch.Iterate (MemTableInserter.handler args) ⟨Sequence batch, memtables, false⟩
  (r.2, r.1)

theorem Sequence_SetSequence (b : WriteBatch) {seq : Nat} (h : seq < 2 ^ 64) :
    Sequence (SetSequence b seq) = seq := by
  rw [Sequence, SetSequence, decodeFixed64_encodeFixed64, UInt64.toNat_ofNat', Nat.mod_eq_of_lt h]

end WriteBatchInternal

theorem RepShape.setSequence {b : WriteBatch} {seq : List UInt8} {c : UInt32} {body : List UInt8}
    (h : RepShape b seq c body) (s : Nat) :
    RepShape (WriteBatchInternal.SetSequence b s) (encodeFixed64 (UInt64.ofNat s)) c body := by
  obtain ⟨hs, hr⟩ := h
  refine ⟨length_encodeFixed64 _, ?_⟩
  rw [WriteBatchInternal.SetSequence, hr, List.append_assoc, List.drop_left' hs, List.append_assoc]

namespace WriteBatchInternal

/-- on a batch whose records are `ops`, an `InsertInto` that succeeds is the callbacks of `ops`
run from `Sequence(batch)` to an OK end -/
theorem InsertInto_of_ok (args : InserterArgs) (memtables : AList fun _ : UInt32 => ColumnFamilyData)
    {batch : WriteBatch} {seq : List UInt8} (ops : List BatchOp) (hops : ∀ op ∈ ops, op.Fits)
    (hshape : RepShape batch seq (UInt32.ofNat (countedOps ops)) (ops.flatMap BatchOp.encode))
    (hok : (InsertInto batch memtables args).1.ok) :
    (InsertInto batch memtables args).2 = (handleOps (MemTableInserter.handler args)
        ⟨Sequence batch, memtables, false⟩ Status.OK ops).1 ∧
      (handleOps (MemTableInserter.handler args) ⟨Sequence batch, memtables, false⟩
        Status.OK ops).2.ok := by
  have hit := iterate_of_shape (MemTableInserter.handler args) (fun _ => rfl) ops hops hshape
    ⟨Sequence batch, memtables, false⟩
  simp only [InsertInto, hit, true_and] at hok ⊢
  -- `Iterate` is OK exactly where the callbacks ended OK
  split at hok
  · assumption
  · exact hok

/-- **Numbering of a batch.**  On a batch whose records are `ops`, an `InsertInto` that succeeds
ends at `Sequence(batch)` plus the number of counted records, skipped ones included, in-place
updates or not -/
theorem InsertInto_sequence (args : InserterArgs) (memtables : AList fun _ : UInt32 => ColumnFamilyData)
    {batch : WriteBatch} {seq : List UInt8} (ops : List BatchOp) (hops : ∀ op ∈ ops, op.Fits)
    (hshape : RepShape batch seq (UInt32.ofNat (countedOps ops)) (ops.flatMap BatchOp.encode))
    (hok : (InsertInto batch memtables args).1.ok) :
    (InsertInto batch memtables args).2.sequence_ = Sequence batch + countedOps ops := by
  obtain ⟨hrun, hend⟩ := InsertInto_of_ok args memtables ops hops hshape hok
  rw [hrun]
  exact MemTableInserter.handleOps_sequence args ops _ Status.OK rfl hend

/-- **The adds of a batch.**  With no memtable that updates in place, an `InsertInto` that succeeds
has made, in order, one add per record of an accepted column family at `Sequence(batch)` plus the
record's index among the counted ones -/
theorem InsertInto_adds (args : InserterArgs) (memtables : AList fun _ : UInt32 => ColumnFamilyData)
    (hno : NoInplace memtables) {batch : WriteBatch} {seq : List UInt8} (ops : List BatchOp)
    (hops : ∀ op ∈ ops, op.Fits)
    (hshape : RepShape batch seq (UInt32.ofNat (countedOps ops)) (ops.flatMap BatchOp.encode))
    (hok : (InsertInto batch memtables args).1.ok) :
    ∃ adds, (InsertInto batch memtables args).2.cf_mems_ = applyAdds memtables adds ∧
      List.Forall₂ MemTableAdd.Realizes adds
        (expectedAdds (Accepts args memtables) (Sequence batch) ops) := by
  obtain ⟨hrun, hend⟩ := InsertInto_of_ok args memtables ops hops hshape hok
  rw [hrun]
  exact MemTableInserter.handleOps_adds args ops _ Status.OK rfl hno hend

end WriteBatchInternal

end RocksDB
