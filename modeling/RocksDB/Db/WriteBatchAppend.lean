import RocksDB.Db.WriteGroup

/-!
# db/write_batch.cc: appending one batch to another

`WriteBatchInternal::Append(dst, src, wal_only)` copies the bytes of `src` after its twelve header
bytes to the end of `dst`, adds the count of `src` to that of `dst` and joins the content flags.
With `wal_only` and a WAL termination point marked on `src` (`MarkWalTerminationPoint`), it takes
the size, count and flags saved at the mark instead, so only the records `src` held then are
copied.

* `Append_whole`, `Append_marked`   the two ways `Append` picks what it copies;
* `RepShape.extend`, `HasRecords.appendBody`   a batch with known records `xs`, its count raised by
                                    that of `ys` and the encodings of `ys` added, holds `xs ++ ys`;
* `applyOps_marked`                 writes after the mark keep it and the records before it;
* `append_concatenates`             the records, count and content flags of the result.
-/

namespace RocksDB

/-- `WriteBatch::MarkWalTerminationPoint`: the data size, count and content flags saved -/
def WriteBatch.MarkWalTerminationPoint (b : WriteBatch) : WriteBatch :=
  { b with wal_term_point := ⟨b.GetDataSize, b.Count, b.content_flags⟩ }

namespace WriteBatchInternal

variable {dst src : WriteBatch}

@[simp] theorem SetCount_content_flags (b : WriteBatch) (n : Int32) :
    (SetCount b n).content_flags = b.content_flags := rfl

/-- without a termination point to stop at, `Append` copies the whole body of `src` -/
theorem Append_whole {wal_only : Bool} (h : (wal_only && !src.wal_term_point.is_cleared) = false) :
    Append dst src wal_only =
      { SetCount dst (Count dst + Count src) with
        rep := (SetCount dst (Count dst + Count src)).rep ++
          (src.rep.drop kHeader).take (src.rep.length - kHeader)
        content_flags := dst.content_flags ||| src.content_flags } := by
  simp only [Append, h, Bool.false_eq_true, if_false, SetCount_content_flags]

/-- with `wal_only` and a termination point, `Append` copies what `src` held at the mark -/
theorem Append_marked (h : src.wal_term_point.is_cleared = false) :
    Append dst src true =
      { SetCount dst (Count dst + src.wal_term_point.count) with
        rep := (SetCount dst (Count dst + src.wal_term_point.count)).rep ++
          (src.rep.drop kHeader).take (src.wal_term_point.size - kHeader)
        content_flags := dst.content_flags ||| src.wal_term_point.content_flags } := by
  simp only [Append, h, Bool.not_false, Bool.true_and, if_true, SetCount_content_flags]

end WriteBatchInternal

/-- bytes added after the records of a batch are more records under the same count -/
theorem RepShape.extend {b : WriteBatch} {seq : List UInt8} {c : UInt32} {body : List UInt8}
    (h : RepShape b seq c body) (more : List UInt8) (flags : UInt32) :
    RepShape { b with rep := b.rep ++ more, content_flags := flags } seq c (body ++ more) :=
  ⟨h.1, by rw [h.2]; simp⟩

namespace WriteBatch.HasRecords

variable {dst : WriteBatch} {xs ys : List BatchOp}

theorem header_le (h : dst.HasRecords xs) : kHeader ≤ dst.rep.length := by
  obtain ⟨-, seq, hshape⟩ := h
  rw [hshape.2]
  simp only [List.length_append, hshape.1, length_encodeFixed32, kHeader]
  omega

/-- the bytes after the header are the records -/
theorem body (h : dst.HasRecords xs) : dst.rep.drop kHeader = xs.flatMap BatchOp.encode := by
  obtain ⟨-, seq, hshape⟩ := h
  rw [hshape.2, List.drop_left' (by simp [kHeader, hshape.1])]

theorem count_toUInt32 (h : dst.HasRecords xs) :
    (WriteBatchInternal.Count dst).toUInt32 = UInt32.ofNat (countedOps xs) := by
  obtain ⟨-, seq, hshape⟩ := h
  rw [hshape.count]
  rfl

/-- the count of a batch holding `xs ++ ys` is that of one holding `xs` plus the count of `ys` -/
theorem count_append {r : WriteBatch} (hr : r.HasRecords (xs ++ ys)) (hd : dst.HasRecords xs)
    {n : Int32} (hn : n.toUInt32 = UInt32.ofNat (countedOps ys)) :
    WriteBatchInternal.Count r = WriteBatchInternal.Count dst + n := by
  have hsum : countedOps (xs ++ ys) = countedOps xs + countedOps ys := List.countP_append ..
  have h : (WriteBatchInternal.Count r).toUInt32 = (WriteBatchInternal.Count dst + n).toUInt32 := by
    rw [hr.count_toUInt32, hsum, UInt32.ofNat_add, ← hd.count_toUInt32, ← hn]
    rfl
  simpa using congrArg UInt32.toInt32 h

/-- the shape `Append` leaves: the count of `dst` raised by `n`, which stores the number of
counted operations of `ys`, and the encodings of `ys` after the records of `dst` -/
theorem appendBody (hd : dst.HasRecords xs) (hfy : ∀ op ∈ ys, op.Fits) {n : Int32}
    (hn : n.toUInt32 = UInt32.ofNat (countedOps ys)) (flags : UInt32) :
    ({ WriteBatchInternal.SetCount dst (WriteBatchInternal.Count dst + n) with
        rep := (WriteBatchInternal.SetCount dst (WriteBatchInternal.Count dst + n)).rep ++
          ys.flatMap BatchOp.encode
        content_flags := flags } : WriteBatch).HasRecords (xs ++ ys) := by
  obtain ⟨hfx, seqd, hsd⟩ := hd
  refine ⟨fun op hop => (List.mem_append.mp hop).elim (hfx op) (hfy op), seqd, ?_⟩
  -- the count stored is the sum of the two counts
  have hstored : (WriteBatchInternal.Count dst + n).toUInt32 =
      UInt32.ofNat (countedOps (xs ++ ys)) := by
    have hsum : countedOps (xs ++ ys) = countedOps xs + countedOps ys := List.countP_append ..
    rw [hsd.count, hsum, UInt32.ofNat_add, ← hn]
    rfl
  have hset := hsd.setCount (WriteBatchInternal.Count dst + n)
  rw [hstored] at hset
  simpa [List.flatMap_append] using hset.extend (ys.flatMap BatchOp.encode) flags

end WriteBatch.HasRecords

/-- the callbacks of the recording handler are the calls of the operations, and never fail -/
theorem handleOps_recordingHandler (ops : List BatchOp) :
    ∀ st, handleOps recordingHandler st Status.OK ops = (st ++ ops.map BatchOp.call, Status.OK) := by
  induction ops with
  | nil => intro st; simp [handleOps]
  | cons op ops ih =>
    intro st
    have hop : op.handle recordingHandler st Status.OK = (st ++ [op.call], Status.OK) := by
      cases op <;> rfl
    simp only [handleOps, Status.ok_OK, if_true, hop, ih, List.map_cons, List.append_assoc,
      List.singleton_append]

/-- a batch with known records is reported back by `Iterate` as their calls -/
theorem WriteBatch.HasRecords.iterate_recording {b : WriteBatch} {ops : List BatchOp}
    (h : b.HasRecords ops) : b.Iterate recordingHandler [] = (ops.map BatchOp.call, Status.OK) := by
  rw [h.iterate recordingHandler (fun _ => rfl), handleOps_recordingHandler]
  simp

/-- a fresh batch after writes holds their records -/
theorem hasRecords_applyOps_new {ops : List BatchOp} (hops : ∀ op ∈ ops, op.Fits) :
    (applyOps (WriteBatch.new 0) ops).HasRecords ops :=
  ⟨hops, _, applyOps_new_shape ops⟩

/-- the writers leave the WAL termination point alone -/
theorem apply_wal_term_point (b : WriteBatch) (op : BatchOp) :
    (op.apply b).1.wal_term_point = b.wal_term_point := by
  cases op <;>
    simp only [BatchOp.apply, WriteBatchInternal.Put, WriteBatchInternal.Delete,
      WriteBatchInternal.SingleDelete, WriteBatchInternal.DeleteRange, WriteBatchInternal.Merge,
      addRecord, WriteBatch.PutLogData, localSavePointCommit] <;>
    split_ifs <;> rfl

theorem applyOps_wal_term_point (ws : List BatchOp) :
    ∀ b : WriteBatch, (applyOps b ws).wal_term_point = b.wal_term_point := by
  induction ws with
  | nil => intro b; rfl
  | cons op ws ih =>
    intro b
    rw [applyOps, List.foldl_cons, ← applyOps, ih, apply_wal_term_point]

/-- writes after the mark keep it, and keep the records that were there when it was set -/
theorem applyOps_marked {src0 : WriteBatch} {zs : List BatchOp} (h0 : src0.HasRecords zs)
    (hmax : src0.max_bytes = 0) (ws : List BatchOp) :
    (applyOps src0.MarkWalTerminationPoint ws).wal_term_point =
        src0.MarkWalTerminationPoint.wal_term_point ∧
      src0.rep.drop kHeader <+: (applyOps src0.MarkWalTerminationPoint ws).rep.drop kHeader := by
  obtain ⟨-, seq, hshape⟩ := h0
  refine ⟨applyOps_wal_term_point ws _, ?_⟩
  -- marking changes nothing of `rep_`, so the writes only add records
  have hafter := applyOps_shape ws (b := src0.MarkWalTerminationPoint) hshape hmax
  have hdrop : ∀ (c : UInt32) (body : List UInt8), (seq ++ encodeFixed32 c ++ body).drop kHeader = body :=
    fun _ _ => List.drop_left' (by simp [kHeader, hshape.1])
  rw [hafter.2, hshape.2, hdrop, hdrop]
  exact List.prefix_append _ _

/-- **Append is concatenation.**  Appending a batch with records `ys` to one with records `xs` gives
a batch that `Iterate` reports as `xs` followed by `ys`, whose count is the sum of the two counts
and whose content flags are the union; with `wal_only` and no termination point on `src` it
appends the same.  On a batch marked when it held the records `zs` (`src0`) and still holding
them, `Append(dst, marked, true)` appends only `zs`, with the count and content flags saved at the
mark. -/
theorem append_concatenates {dst src src0 marked : WriteBatch} {xs ys zs : List BatchOp}
    (hdst : dst.HasRecords xs) (hsrc : src.HasRecords ys) (hsrc0 : src0.HasRecords zs)
    (hmark : marked.wal_term_point = src0.MarkWalTerminationPoint.wal_term_point)
    (hkeep : src0.rep.drop kHeader <+: marked.rep.drop kHeader) :
    (WriteBatchInternal.Append dst src false).Iterate recordingHandler [] =
        ((xs ++ ys).map BatchOp.call, Status.OK) ∧
      WriteBatchInternal.Count (WriteBatchInternal.Append dst src false) =
        WriteBatchInternal.Count dst + WriteBatchInternal.Count src ∧
      (WriteBatchInternal.Append dst src false).content_flags =
        dst.content_flags ||| src.content_flags ∧
      (src.wal_term_point.is_cleared = true →
        WriteBatchInternal.Append dst src true = WriteBatchInternal.Append dst src false) ∧
      (WriteBatchInternal.Append dst marked true).Iterate recordingHandler [] =
        ((xs ++ zs).map BatchOp.call, Status.OK) ∧
      WriteBatchInternal.Count (WriteBatchInternal.Append dst marked true) =
        WriteBatchInternal.Count dst + WriteBatchInternal.Count src0 ∧
      (WriteBatchInternal.Append dst marked true).content_flags =
        dst.content_flags ||| src0.content_flags := by
  -- the whole body of `src` is the encodings of `ys`
  have hwhole : (WriteBatchInternal.Append dst src false).HasRecords (xs ++ ys) := by
    have hbody : (src.rep.drop kHeader).take (src.rep.length - kHeader) = ys.flatMap BatchOp.encode := by
      rw [List.take_of_length_le (by simp), hsrc.body]
    rw [WriteBatchInternal.Append_whole (by simp), hbody]
    exact hdst.appendBody hsrc.1 hsrc.count_toUInt32 _
  -- the mark saved the size, count and flags of `src0`, whose records `marked` still begins with
  have hcleared : marked.wal_term_point.is_cleared = false := by
    have : 12 ≤ src0.rep.length := hsrc0.header_le
    have hsize : (marked.wal_term_point.size == 0) = false := by
      rw [hmark, beq_eq_false_iff_ne]
      simp only [WriteBatch.MarkWalTerminationPoint, WriteBatch.GetDataSize]
      omega
    simp [SavePoint.is_cleared, hsize]
  have hmarked : (WriteBatchInternal.Append dst marked true).HasRecords (xs ++ zs) := by
    have hbody : (marked.rep.drop kHeader).take (marked.wal_term_point.size - kHeader) =
        zs.flatMap BatchOp.encode := by
      have hsize : marked.wal_term_point.size - kHeader = (src0.rep.drop kHeader).length := by
        rw [hmark, List.length_drop]; rfl
      rw [hsize, ← List.prefix_iff_eq_take.mp hkeep, hsrc0.body]
    rw [WriteBatchInternal.Append_marked hcleared, hbody]
    exact hdst.appendBody hsrc0.1 (by rw [hmark]; exact hsrc0.count_toUInt32) _
  refine ⟨hwhole.iterate_recording, ?_, ?_, fun h => ?_, hmarked.iterate_recording, ?_, ?_⟩
  · exact hwhole.count_append hdst hsrc.count_toUInt32
  · rw [WriteBatchInternal.Append_whole (by simp)]
  · rw [WriteBatchInternal.Append_whole (by simp [h]), WriteBatchInternal.Append_whole (by simp)]
  · exact hmarked.count_append hdst hsrc0.count_toUInt32
  · rw [WriteBatchInternal.Append_marked hcleared, hmark]
    rfl

theorem append_concatenates_put_merge :
    let dst := applyOps (WriteBatch.new 0) [.Put 0 [1] [2]]
    let src := applyOps (WriteBatch.new 0) [.Delete 3 [4]]
    let src0 := applyOps (WriteBatch.new 0) [.Merge 0 [5] [6]]
    let marked := applyOps src0.MarkWalTerminationPoint [.PutLogData [7]]
    (dst.HasRecords [.Put 0 [1] [2]] ∧ src.HasRecords [.Delete 3 [4]] ∧
      src0.HasRecords [.Merge 0 [5] [6]] ∧
      marked.wal_term_point = src0.MarkWalTerminationPoint.wal_term_point ∧
      src0.rep.drop kHeader <+: marked.rep.drop kHeader) ∧
    (WriteBatchInternal.Append dst src false).Iterate recordingHandler [] =
        (([.Put 0 [1] [2]] ++ [.Delete 3 [4]] : List BatchOp).map BatchOp.call, Status.OK) ∧
      WriteBatchInternal.Count (WriteBatchInternal.Append dst src false) =
        WriteBatchInternal.Count dst + WriteBatchInternal.Count src ∧
      (WriteBatchInternal.Append dst src false).content_flags =
        dst.content_flags ||| src.content_flags ∧
      (src.wal_term_point.is_cleared = true →
        WriteBatchInternal.Append dst src true = WriteBatchInternal.Append dst src false) ∧
      (WriteBatchInternal.Append dst marked true).Iterate recordingHandler [] =
        (([.Put 0 [1] [2]] ++ [.Merge 0 [5] [6]] : List BatchOp).map BatchOp.call, Status.OK) ∧
      WriteBatchInternal.Count (WriteBatchInternal.Append dst marked true) =
        WriteBatchInternal.Count dst + WriteBatchInternal.Count src0 ∧
      (WriteBatchInternal.Append dst marked true).content_flags =
        dst.content_flags ||| src0.content_flags :=
  have hdst := @hasRecords_applyOps_new [.Put 0 [1] [2]] (by simp [BatchOp.Fits])
  have hsrc := @hasRecords_applyOps_new [.Delete 3 [4]] (by simp [BatchOp.Fits])
  have hsrc0 := @hasRecords_applyOps_new [.Merge 0 [5] [6]] (by simp [BatchOp.Fits])
  have hm := applyOps_marked hsrc0 rfl [.PutLogData [7]]
  ⟨⟨hdst, hsrc, hsrc0, hm.1, hm.2⟩, append_concatenates hdst hsrc hsrc0 hm.1 hm.2⟩

end RocksDB
