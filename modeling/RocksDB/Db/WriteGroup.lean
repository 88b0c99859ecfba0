import RocksDB.Db.MemTableInserter
import RocksDB.Lib.Ranges

/-!
# db/db_impl_write.cc: the sequence numbers of a write group

The leader of a write group numbers the records of all its members at once.  `WriteImpl` sums
the counts of the members that write to the memtable (`totalCount`), takes `last_sequence + 1` as
the group's first number and moves `last_sequence` on by the total (`WriteImplSequences`); then

* the serial path, `InsertIntoWriteGroup`, runs one inserter over the members, each batch given
  the inserter's sequence number before it is iterated;
* the parallel path, `assignSequences`, gives each member the running sum of the counts before it;
* `WriteToWAL` writes the members that write to the WAL as one batch (`WriteToWALBatch`, built
  with `WriteBatchInternal.Append`) under the group's first number.
-/

namespace RocksDB

/-- `SavePoint::is_cleared()`: `(size | count | content_flags) == 0` -/
def SavePoint.is_cleared (s : SavePoint) : Bool :=
  s.size == 0 && s.count == 0 && s.content_flags == 0

/-- a `WriteThread::Writer` after `CheckCallback`: its batch, the status of its memtable insert,
the status its callback answered (`none` for no callback), and its WAL and memtable switches -/
structure Writer where
  batch : WriteBatch
  status : Status
  callback : Option Status
  disable_wal : Bool
  disable_memtable : Bool

namespace Writer

/-- `CheckCallback`: `callback_status.ok()` -/
def CheckCallback (w : Writer) : Bool := (w.callback.getD Status.OK).ok

/-- `CallbackFailed()` -/
def CallbackFailed (w : Writer) : Bool := w.callback.isSome && !(w.callback.getD Status.OK).ok

/-- `ShouldWriteToMemtable()` -/
def ShouldWriteToMemtable (w : Writer) : Bool := w.status.ok && !w.CallbackFailed && !w.disable_memtable

/-- `ShouldWriteToWAL()` -/
def ShouldWriteToWAL (w : Writer) : Bool := w.status.ok && !w.CallbackFailed && !w.disable_wal

end Writer

/-- the loop of `WriteImpl` over the group: `total_count`, the counts of the writers whose
callback passes and that write to the memtable -/
def totalCount : List Writer → Int
  | [] => 0
  | w :: write_group =>
    (if w.CheckCallback && w.ShouldWriteToMemtable then (WriteBatchInternal.Count w.batch).toInt
      else 0) + totalCount write_group

/-- `current_sequence = last_sequence + 1; last_sequence += total_count;` -/
def WriteImplSequences (last_sequence : Nat) (write_group : List Writer) : Nat × Int :=
  (last_sequence + 1, last_sequence + totalCount write_group)

/-- the parallel path of `WriteImpl`: `writer->sequence` for each writer that writes to the
memtable, from `next_sequence` on, the count of its batch added after it -/
def assignSequences : Int → List Writer → List (Option Int)
  | _, [] => []
  | next_sequence, w :: write_group =>
    if w.ShouldWriteToMemtable then
      some next_sequence ::
        assignSequences (next_sequence + (WriteBatchInternal.Count w.batch).toInt) write_group
    else none :: assignSequences next_sequence write_group

/-- the loop of `InsertInto(write_group, ...)` from the inserter `ins`: each writer that writes to
the memtable gets the inserter's sequence number into its batch and the status of `Iterate`, up
to the first that fails; the status, the writers as it leaves them, and the inserter -/
def insertWriters (args : InserterArgs) :
    MemTableInserter → List Writer → Status × List Writer × MemTableInserter
  | ins, [] => (Status.OK, [], ins)
  | ins, w :: write_group =>
    if w.ShouldWriteToMemtable then
      let batch := WriteBatchInternal.SetSequence w.batch ins.sequence_
      let r := batch.Iterate (MemTableInserter.handler args) ins
      if r.2.ok then
        let rest := insertWriters args r.1 write_group
        (rest.1, { w with batch, status := r.2 } :: rest.2.1, rest.2.2)
      else (r.2, { w with batch, status := r.2 } :: write_group, r.1)
    else
      let rest := insertWriters args ins write_group
      (rest.1, w :: rest.2.1, rest.2.2)

/-- `InsertInto(write_group, sequence, memtables, ...)` -/
def InsertIntoWriteGroup (write_group : List Writer) (sequence : Nat)
    (memtables : AList fun _ : UInt32 => ColumnFamilyData) (args : InserterArgs) :
    Status × List Writer × MemTableInserter :=
  insertWriters args ⟨sequence, memtables, false⟩ write_group

namespace WriteBatchInternal

/-- `Append(dst, src, wal_only)`: the records of `src` (up to its WAL termination point where
`wal_only` and one is set) after those of `dst`, the counts added and the content flags joined -/
def Append (dst src : WriteBatch) (wal_only : Bool) : WriteBatch :=
  let batch_end := src.wal_term_point
  let (src_len, src_count, src_flags) :=
    if wal_only && !batch_end.is_cleared then
      (batch_end.size - kHeader, batch_end.count, batch_end.content_flags)
    else (src.rep.length - kHeader, Count src, src.content_flags)
  let dst := SetCount dst (Count dst + src_count)
  { dst with
    rep := dst.rep ++ (src.rep.drop kHeader).take src_len
    content_flags := dst.content_flags ||| src_flags }

end WriteBatchInternal

/-- the batches of the writers that write to the WAL appended to the empty `tmp_batch_` -/
def mergeWAL (write_group : List Writer) : WriteBatch :=
  write_group.foldl (fun merged_batch w =>
    if w.ShouldWriteToWAL then WriteBatchInternal.Append merged_batch w.batch true
    else merged_batch) (WriteBatch.new 0)

/-- the batch `WriteToWAL` writes under `sequence`: the leader's own batch where it is alone,
writes to the WAL and has no WAL termination point, the merged batch otherwise -/
def WriteToWALBatch (write_group : List Writer) (sequence : Nat) : WriteBatch :=
  match write_group with
  | [leader] =>
    if leader.ShouldWriteToWAL && leader.batch.wal_term_point.is_cleared then
      WriteBatchInternal.SetSequence leader.batch sequence
    else WriteBatchInternal.SetSequence (mergeWAL write_group) sequence
  | _ => WriteBatchInternal.SetSequence (mergeWAL write_group) sequence

/-! ## Batches with known records -/

/-- a batch whose records are the encodings of `ops` under their count, whatever its sequence
number -/
def WriteBatch.HasRecords (b : WriteBatch) (ops : List BatchOp) : Prop :=
  (∀ op ∈ ops, op.Fits) ∧
    ∃ seq, RepShape b seq (UInt32.ofNat (countedOps ops)) (ops.flatMap BatchOp.encode)

namespace WriteBatch.HasRecords

variable {b : WriteBatch} {ops : List BatchOp}

theorem setSequence (h : b.HasRecords ops) (s : Nat) :
    (WriteBatchInternal.SetSequence b s).HasRecords ops := by
  obtain ⟨hfits, seq, hshape⟩ := h
  exact ⟨hfits, _, hshape.setSequence s⟩

/-- below `2^31` records the count reads back as their number -/
theorem count_toInt (h : b.HasRecords ops) (hlt : countedOps ops < 2 ^ 31) :
    (WriteBatchInternal.Count b).toInt = countedOps ops := by
  obtain ⟨-, seq, hshape⟩ := h
  have hcount : WriteBatchInternal.Count b = Int32.ofNat (countedOps ops) := hshape.count
  rw [hcount, Int32.toInt_ofNat_of_lt hlt]

/-- `Iterate` on the batch runs the callbacks of its records -/
theorem iterate (h : b.HasRecords ops) {σ : Type} (hd : Handler σ) (hc : ∀ st, hd.Continue st = true)
    (st : σ) :
    b.Iterate hd st =
      ((handleOps hd st Status.OK ops).1,
        if (handleOps hd st Status.OK ops).2.ok then Status.OK else (handleOps hd st Status.OK ops).2) := by
  obtain ⟨hfits, seq, hshape⟩ := h
  exact iterate_of_shape hd hc ops hfits hshape st

theorem append {dst src : WriteBatch} {xs ys : List BatchOp} (hd : dst.HasRecords xs)
    (hs : src.HasRecords ys) (hend : src.wal_term_point.is_cleared) :
    (WriteBatchInternal.Append dst src true).HasRecords (xs ++ ys) := by
  obtain ⟨hfx, seqd, hsd⟩ := hd
  obtain ⟨hfy, seqs, hss⟩ := hs
  refine ⟨fun op hop => (List.mem_append.mp hop).elim (hfx op) (hfy op), seqd, ?_⟩
  have hcount := hsd.setCount (WriteBatchInternal.Count dst + WriteBatchInternal.Count src)
  -- the count stored is the sum of the two counts
  have hstored : (WriteBatchInternal.Count dst + WriteBatchInternal.Count src).toUInt32 =
      UInt32.ofNat (countedOps (xs ++ ys)) := by
    rw [hsd.count, hss.count]
    simp only [countedOps, List.countP_append, UInt32.ofNat_add]
    rfl
  rw [hstored] at hcount
  have hbody : (src.rep.drop kHeader).take (src.rep.length - kHeader) = ys.flatMap BatchOp.encode := by
    rw [hss.2, List.drop_left' (by simp [kHeader, hss.1]), List.take_of_length_le (by simp [kHeader, hss.1]; omega)]
  refine ⟨hcount.1, ?_⟩
  simp only [WriteBatchInternal.Append, hend, Bool.not_true, Bool.and_false, Bool.false_eq_true,
    if_false]
  rw [hcount.2, hbody, List.flatMap_append]
  simp

end WriteBatch.HasRecords


/-! ## The serial path numbers the writers as the parallel path does -/

/-- the records of the writers that write to the memtable, in group order -/
def memberOps : List Writer → List (List BatchOp) → List BatchOp
  | w :: write_group, ops :: opss =>
    (if w.ShouldWriteToMemtable then ops else []) ++ memberOps write_group opss
  | _, _ => []

/-- the counts of the writers the parallel path numbers, in group order -/
def memberCounts (write_group : List Writer) : List Int :=
  (write_group.filter Writer.ShouldWriteToMemtable).map fun w => (WriteBatchInternal.Count w.batch).toInt

/-- the writers with the numbers `seqs` set into the batches of those that get one, with an OK
status, as the serial path leaves them where every insert succeeds -/
def withSequences : List Writer → List (Option Int) → List Writer
  | w :: write_group, some s :: seqs =>
    { w with batch := WriteBatchInternal.SetSequence w.batch s.toNat, status := Status.OK } ::
      withSequences write_group seqs
  | w :: write_group, none :: seqs => w :: withSequences write_group seqs
  | _, _ => []

theorem Writer.checkCallback_of_shouldWriteToMemtable {w : Writer} (h : w.ShouldWriteToMemtable) :
    w.CheckCallback := by
  simp only [Writer.ShouldWriteToMemtable, Writer.CallbackFailed, Bool.and_eq_true,
    Bool.not_eq_true', Bool.and_eq_false_imp] at h
  cases hc : w.callback with
  | none => simp [Writer.CheckCallback, hc]
  | some st => simpa [Writer.CheckCallback, hc] using h.1.2 (by simp [hc])

/-- the writers the parallel path numbers get the starts of the ranges of their counts laid end to
end -/
theorem reduceOption_assignSequences (write_group : List Writer) (next_sequence : Int) :
    (assignSequences next_sequence write_group).reduceOption =
      (List.consecutiveRanges (memberCounts write_group) next_sequence).map Prod.fst := by
  induction write_group generalizing next_sequence with
  | nil => rfl
  | cons w write_group ih =>
    by_cases hm : w.ShouldWriteToMemtable
    · simp [assignSequences, memberCounts, hm, ih, List.reduceOption_cons_of_some]
    · simp [assignSequences, memberCounts, hm, ih, List.reduceOption_cons_of_none]

theorem totalCount_eq_sum (write_group : List Writer) :
    totalCount write_group = (memberCounts write_group).sum := by
  induction write_group with
  | nil => rfl
  | cons w write_group ih =>
    by_cases hm : w.ShouldWriteToMemtable
    · simp [totalCount, memberCounts, hm, Writer.checkCallback_of_shouldWriteToMemtable hm, ih]
    · simp [totalCount, memberCounts, hm, ih]

section Serial

variable (args : InserterArgs)

/-- **The serial path.**  Where every insert succeeds, the serial path leaves each writer that
writes to the memtable with the number the parallel path gives it and ends one past the total
count, in-place updates or not; with no memtable that updates in place, it has made the adds of
the writers' records numbered from where it started -/
theorem insertWriters_sequences {write_group : List Writer} {opss : List (List BatchOp)}
    (hrec : List.Forall₂ (fun w ops => w.batch.HasRecords ops ∧ countedOps ops < 2 ^ 31)
      write_group opss) :
    ∀ ins : MemTableInserter, (insertWriters args ins write_group).1.ok →
      (insertWriters args ins write_group).2.1 =
          withSequences write_group (assignSequences ins.sequence_ write_group) ∧
        ((insertWriters args ins write_group).2.2.sequence_ : Int) =
          ins.sequence_ + totalCount write_group ∧
        (NoInplace ins.cf_mems_ →
          ∃ adds, (insertWriters args ins write_group).2.2.cf_mems_ = applyAdds ins.cf_mems_ adds ∧
            List.Forall₂ MemTableAdd.Realizes adds
              (expectedAdds (Accepts args ins.cf_mems_) ins.sequence_ (memberOps write_group opss))) := by
  induction hrec with
  | nil =>
    intro ins _
    exact ⟨rfl, by simp [insertWriters, totalCount], fun _ => ⟨[], rfl, .nil⟩⟩
  | @cons w ops write_group opss hw _ ih =>
    intro ins hok
    by_cases hm : w.ShouldWriteToMemtable
    · -- the writer's batch is iterated from the inserter's number
      have hit := (hw.1.setSequence ins.sequence_).iterate (MemTableInserter.handler args)
        (fun _ => rfl) ins
      have hrun : (handleOps (MemTableInserter.handler args) ins Status.OK ops).2.ok := by
        by_contra hfail
        simp [insertWriters, hm, hit, hfail] at hok
      have hseq₁ := MemTableInserter.handleOps_sequence args ops ins Status.OK rfl hrun
      have hcount := hw.1.count_toInt hw.2
      simp only [insertWriters, hm, hit, hrun, Status.ok_OK, if_true] at hok ⊢
      obtain ⟨hrest, hseq₂, hadds₂⟩ := ih _ hok
      refine ⟨?_, ?_, fun hno => ?_⟩
      · rw [hrest, hseq₁, assignSequences, if_pos hm, withSequences, Int.toNat_natCast, hcount,
          Nat.cast_add]
      · rw [hseq₂, hseq₁, totalCount, if_pos (by simp [hm, Writer.checkCallback_of_shouldWriteToMemtable hm]),
          hcount]
        push_cast
        ring
      · -- the writer's adds come first, the rest of the group's from where its batch ended
        obtain ⟨adds₁, hmem₁, hrel₁⟩ :=
          MemTableInserter.handleOps_adds args ops ins Status.OK rfl hno hrun
        obtain ⟨adds₂, hmem₂, hrel₂⟩ := hadds₂ (hmem₁ ▸ hno.applyAdds adds₁)
        rw [hmem₁, accepts_applyAdds, hseq₁] at hrel₂
        rw [memberOps, if_pos hm, expectedAdds_append]
        exact exists_adds_append hmem₁ hrel₁ hmem₂ hrel₂
    · simp only [insertWriters, hm, Bool.false_eq_true, if_false] at hok ⊢
      obtain ⟨hrest, hseq, hadds⟩ := ih ins hok
      refine ⟨?_, ?_, fun hno => ?_⟩
      · rw [hrest, assignSequences, if_neg hm, withSequences]
      · rw [hseq, totalCount, if_neg (by simp [hm])]
        ring
      · obtain ⟨adds, hmem, hrel⟩ := hadds hno
        refine ⟨adds, hmem, ?_⟩
        rw [memberOps, if_neg hm, List.nil_append]
        exact hrel

end Serial

/-! ## The batch written to the WAL -/

/-- where every writer writes to the WAL and has no WAL termination point, the merged batch holds
the records of all the writers in group order -/
theorem foldl_append_hasRecords {write_group : List Writer} {opss : List (List BatchOp)}
    (hrec : List.Forall₂ (fun w ops => w.batch.HasRecords ops) write_group opss)
    (hwal : ∀ w ∈ write_group, w.ShouldWriteToWAL ∧ w.batch.wal_term_point.is_cleared) :
    ∀ {merged_batch : WriteBatch} {xs : List BatchOp}, merged_batch.HasRecords xs →
      (write_group.foldl (fun merged_batch w =>
        if w.ShouldWriteToWAL then WriteBatchInternal.Append merged_batch w.batch true
        else merged_batch) merged_batch).HasRecords (xs ++ opss.flatten) := by
  induction hrec with
  | nil => intro _ xs h; simpa using h
  | @cons w ops write_group opss hw _ ih =>
    intro merged_batch xs h
    obtain ⟨hw_wal, hw_end⟩ := hwal w List.mem_cons_self
    rw [List.foldl_cons, if_pos hw_wal, List.flatten_cons, ← List.append_assoc]
    exact ih (fun v hv => hwal v (List.mem_cons_of_mem w hv)) (h.append hw hw_end)

/-- the batch `WriteToWAL` writes is a batch of the records of all the writers, in group order,
under the sequence number it is given -/
theorem WriteToWALBatch_hasRecords {write_group : List Writer} {opss : List (List BatchOp)}
    (hrec : List.Forall₂ (fun w ops => w.batch.HasRecords ops) write_group opss)
    (hwal : ∀ w ∈ write_group, w.ShouldWriteToWAL ∧ w.batch.wal_term_point.is_cleared)
    (sequence : Nat) :
    ∃ merged_batch : WriteBatch, merged_batch.HasRecords opss.flatten ∧
      WriteToWALBatch write_group sequence = WriteBatchInternal.SetSequence merged_batch sequence := by
  have hmerged : (mergeWAL write_group).HasRecords opss.flatten := by
    have hnew : (WriteBatch.new 0).HasRecords [] := ⟨by simp, _, new_shape 0⟩
    simpa [mergeWAL] using foldl_append_hasRecords hrec hwal hnew
  unfold WriteToWALBatch
  split
  · rename_i leader
    obtain ⟨hleader, hend⟩ := hwal leader List.mem_cons_self
    obtain ⟨ops, rfl, hops⟩ : ∃ ops, opss = [ops] ∧ leader.batch.HasRecords ops := by
      cases hrec with
      | cons h hnil => cases hnil; exact ⟨_, rfl, h⟩
    rw [if_pos (by simp [hleader, hend])]
    exact ⟨leader.batch, by simpa using hops, rfl⟩
  · exact ⟨_, hmerged, rfl⟩


/-! ## Sequence numbers of a batch and of a write group -/

theorem memberCounts_nonneg {write_group : List Writer} {opss : List (List BatchOp)}
    (hrec : List.Forall₂ (fun w ops => w.batch.HasRecords ops ∧ countedOps ops < 2 ^ 31)
      write_group opss) :
    ∀ c ∈ memberCounts write_group, 0 ≤ c := by
  induction hrec with
  | nil => simp [memberCounts]
  | @cons w ops write_group opss hw _ ih =>
    intro c hc
    by_cases hm : w.ShouldWriteToMemtable
    · simp only [memberCounts, List.filter_cons, hm, if_true, List.map_cons, List.mem_cons] at hc
      rcases hc with rfl | hc
      · rw [hw.1.count_toInt hw.2]
        exact Int.natCast_nonneg _
      · exact ih c hc
    · simp only [memberCounts, List.filter_cons, hm, Bool.false_eq_true, if_false] at hc
      exact ih c hc

theorem memberOps_of_forall {write_group : List Writer} {opss : List (List BatchOp)}
    {R : Writer → List BatchOp → Prop} (hrec : List.Forall₂ R write_group opss)
    (hall : ∀ w ∈ write_group, w.ShouldWriteToMemtable) :
    memberOps write_group opss = opss.flatten := by
  induction hrec with
  | nil => rfl
  | @cons w ops write_group opss _ _ ih =>
    rw [memberOps, if_pos (hall w List.mem_cons_self), List.flatten_cons,
      ih (fun v hv => hall v (List.mem_cons_of_mem w hv))]

end RocksDB
