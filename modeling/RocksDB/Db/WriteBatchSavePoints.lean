import RocksDB.Db.WriteBatchRoundTrip

/-!
# db/write_batch.cc: save points

A caller mixes the writers with `SetSavePoint`, `RollbackToSavePoint` and `PopSavePoint`
(`BatchCall`); `runTracked` runs the calls and keeps, beside the batch, the batches at the save
points the calls left open, innermost first (`openSavePoints`).

* `BatchOp.written`       what a writer leaves when it commits: the count in the header one up
                          for a counted record, the record appended, its content flag set;
                          `apply_eq`: a writer commits, or returns `MemoryLimit` with the batch as
                          it was;
* `Extends b h`           `b` is `h` with records appended: the same sequence bytes, the records of
                          `h` first, and the same count and flags where nothing was appended;
* `RollbackToSavePoint_of_extends`  rolling back to the save point of `h` gives `h`'s bytes and
                          flags;
* `Saved b hist`          the save points of `b` record the batches `hist`, each extended by the
                          one above it; every call keeps it (`Saved.apply`), so every run does.

A batch is `Valid` when its header and the header at every save point are there, as every
constructor leaves it and every call keeps it (`Saved.apply` with no open save point).
-/

namespace RocksDB

/-- the header of `rep_` is there, and so it was at every save point -/
structure WriteBatch.Valid (b : WriteBatch) : Prop where
  header : kHeader ≤ b.rep.length
  save_points : ∀ sp ∈ b.save_points, kHeader ≤ sp.size

/-- what `SetSavePoint` records of a batch -/
def savePointOf (b : WriteBatch) : SavePoint := ⟨b.GetDataSize, b.Count, b.content_flags⟩

theorem valid_new (max_bytes : Nat) : (WriteBatch.new max_bytes).Valid where
  header := by simp [WriteBatch.new, kHeader]
  save_points := by simp [WriteBatch.new]

/-- the header cut at the count and put back together -/
theorem header_split {l : List UInt8} (h : kHeader ≤ l.length) :
    l.take 8 ++ encodeFixed32 (decodeFixed32 (l.drop 8)) ++ l.drop 12 = l := by
  have h4 : 4 ≤ (l.drop 8).length := by
    rw [List.length_drop]
    simp only [kHeader] at h
    omega
  have hcount : (l.drop 8).take 4 ++ l.drop 12 = l.drop 8 := by
    conv_rhs => rw [← List.take_append_drop 4 (l.drop 8)]
    rw [List.drop_drop]
  rw [encodeFixed32_decodeFixed32 h4, List.append_assoc, hcount, List.take_append_drop]

/-! ## One writer -/

namespace BatchOp

/-- the content flag a writer sets -/
def flag : BatchOp → UInt32
  | Put .. => HAS_PUT
  | Delete .. => HAS_DELETE
  | SingleDelete .. => HAS_SINGLE_DELETE
  | DeleteRange .. => HAS_DELETE_RANGE
  | Merge .. => HAS_MERGE
  | PutLogData _ => 0

/-- the batch a writer leaves when it commits -/
def written (b : WriteBatch) (op : BatchOp) : WriteBatch :=
  { b with
    rep := b.rep.take 8 ++
      encodeFixed32 (if op.counted then decodeFixed32 (b.rep.drop 8) + 1
        else decodeFixed32 (b.rep.drop 8)) ++ b.rep.drop 12 ++ op.encode
    content_flags := b.content_flags ||| op.flag }

variable {b : WriteBatch}

theorem length_written (hb : kHeader ≤ b.rep.length) (op : BatchOp) :
    (op.written b).rep.length = b.rep.length + op.encode.length := by
  simp only [written, List.length_append, List.length_take, List.length_drop,
    length_encodeFixed32]
  simp only [kHeader] at hb
  omega

theorem take_written (hb : kHeader ≤ b.rep.length) (op : BatchOp) :
    (op.written b).rep.take 8 = b.rep.take 8 := by
  simp only [written, List.append_assoc]
  exact List.take_left' (by simp only [List.length_take, kHeader] at *; omega)

theorem drop_written (hb : kHeader ≤ b.rep.length) (op : BatchOp) :
    (op.written b).rep.drop 12 = b.rep.drop 12 ++ op.encode := by
  simp only [written, List.append_assoc]
  rw [← List.append_assoc (b.rep.take 8), List.drop_left' (by
    simp only [List.length_append, List.length_take, length_encodeFixed32, kHeader] at *; omega)]

/-- a writer appends its record to the batch it was called on, and then commits -/
theorem apply_eq_commit (hb : kHeader ≤ b.rep.length) (op : BatchOp) :
    op.apply b = localSavePointCommit (savePointOf b) (op.written b) := by
  cases op with
  | PutLogData blob =>
    simp only [apply, WriteBatch.PutLogData, written, counted, flag, Bool.false_eq_true, if_false,
      header_split hb, UInt32.or_zero, putLengthPrefixedSlice_eq, encode, varstring]
    simp [savePointOf, List.append_assoc]
  | _ =>
    simp only [apply, WriteBatchInternal.Put, WriteBatchInternal.Delete,
      WriteBatchInternal.SingleDelete, WriteBatchInternal.DeleteRange, WriteBatchInternal.Merge,
      addRecord, foldl_putLengthPrefixedSlice]
    congr 1
    simp only [written, counted, flag, encode, recordBytes, WriteBatchInternal.SetCount,
      WriteBatchInternal.Count, if_true]
    split <;> simp [putVarint32, List.append_assoc] <;> rfl

@[simp] theorem max_bytes_written (op : BatchOp) : (op.written b).max_bytes = b.max_bytes := rfl

/-- cut back to its old size and given back its old count, a written batch is the batch it was
written on -/
theorem restore_written (hb : kHeader ≤ b.rep.length) (op : BatchOp) :
    { WriteBatchInternal.SetCount
        { op.written b with rep := (op.written b).rep.take (savePointOf b).size }
        (savePointOf b).count with
      content_flags := (savePointOf b).content_flags } = b := by
  have hb12 : 12 ≤ b.rep.length := hb
  have h8 : ((op.written b).rep.take b.rep.length).take 8 = b.rep.take 8 := by
    rw [List.take_take, Nat.min_eq_left (by omega), take_written hb]
  have h12 : ((op.written b).rep.take b.rep.length).drop 12 = b.rep.drop 12 := by
    rw [List.drop_take, drop_written hb]
    exact List.take_left' (by rw [List.length_drop])
  have hcount : (WriteBatchInternal.Count b).toUInt32 = decodeFixed32 (b.rep.drop 8) := rfl
  apply WriteBatch.ext
  · rfl
  · rfl
  · rfl
  · rfl
  · simp only [WriteBatchInternal.SetCount, savePointOf, WriteBatch.GetDataSize, WriteBatch.Count,
      h8, h12, hcount]
    exact header_split hb

/-- a commit past `max_bytes` puts back the batch the writer was called on -/
theorem localSavePointCommit_written (hb : kHeader ≤ b.rep.length) (op : BatchOp) :
    localSavePointCommit (savePointOf b) (op.written b) =
      if b.max_bytes ≠ 0 ∧ b.rep.length + op.encode.length > b.max_bytes then
        (b, Status.MemoryLimit)
      else (op.written b, Status.OK) := by
  rw [localSavePointCommit, length_written hb, max_bytes_written]
  by_cases hc : b.max_bytes ≠ 0 ∧ b.rep.length + op.encode.length > b.max_bytes
  · rw [if_pos hc, if_pos hc]
    exact congrArg (·, Status.MemoryLimit) (restore_written hb op)
  · rw [if_neg hc, if_neg hc]

/-- every writer: past `max_bytes` it returns `MemoryLimit` and leaves the batch as it was, else
it commits its record -/
theorem apply_eq (hb : kHeader ≤ b.rep.length) (op : BatchOp) :
    op.apply b =
      if b.max_bytes ≠ 0 ∧ b.rep.length + op.encode.length > b.max_bytes then
        (b, Status.MemoryLimit)
      else (op.written b, Status.OK) := by
  rw [apply_eq_commit hb, localSavePointCommit_written hb]

end BatchOp

/-! ## Batches extended by records -/

/-- `b` is `h` with records appended: the same sequence bytes, `h`'s records first, and, where
nothing was appended, the same bytes and content flags -/
def Extends (b h : WriteBatch) : Prop :=
  h.rep.take 8 = b.rep.take 8 ∧ h.rep.drop 12 <+: b.rep.drop 12 ∧
    (b.rep.length = h.rep.length → b.rep = h.rep ∧ b.content_flags = h.content_flags)

namespace Extends

variable {b b' h g : WriteBatch}

theorem refl (b : WriteBatch) : Extends b b :=
  ⟨rfl, List.prefix_refl _, fun _ => ⟨rfl, rfl⟩⟩

theorem length_le (hb : kHeader ≤ b.rep.length) (hh : kHeader ≤ h.rep.length)
    (he : Extends b h) : h.rep.length ≤ b.rep.length := by
  have hp := he.2.1.length_le
  simp only [List.length_drop] at hp
  simp only [kHeader] at hb hh
  omega

theorem trans (hb : kHeader ≤ b.rep.length) (hh : kHeader ≤ h.rep.length)
    (hg : kHeader ≤ g.rep.length) (hbh : Extends b h) (hhg : Extends h g) : Extends b g := by
  refine ⟨hhg.1.trans hbh.1, hhg.2.1.trans hbh.2.1, fun hlen => ?_⟩
  have h1 := hhg.length_le hh hg
  have h2 := hbh.length_le hb hh
  obtain ⟨hr, hf⟩ := hbh.2.2 (by omega)
  obtain ⟨hr', hf'⟩ := hhg.2.2 (by omega)
  exact ⟨hr.trans hr', hf.trans hf'⟩

/-- `Extends` reads the bytes and the flags of the extending batch only -/
theorem congr_left (hr : b'.rep = b.rep) (hf : b'.content_flags = b.content_flags)
    (he : Extends b h) : Extends b' h := by
  simp only [Extends, hr, hf]
  exact he

/-- a committed record keeps every batch the batch extended extended -/
theorem written (hb : kHeader ≤ b.rep.length) (hh : kHeader ≤ h.rep.length) (he : Extends b h)
    (op : BatchOp) : Extends (op.written b) h := by
  refine ⟨by rw [BatchOp.take_written hb]; exact he.1, ?_, fun hlen => ?_⟩
  · rw [BatchOp.drop_written hb]
    exact he.2.1.trans (List.prefix_append _ _)
  · -- a record is never empty, so the batch has grown past `h`
    exfalso
    have hle := he.length_le hb hh
    have hpos : 0 < op.encode.length := List.length_pos_iff.mpr (encode_ne_nil op)
    rw [BatchOp.length_written hb] at hlen
    omega

end Extends

/-- rolling back to the save point recorded of `h`, in a batch that extends `h`, gives `h`'s bytes
and flags and pops the save point -/
theorem RollbackToSavePoint_of_extends {b h : WriteBatch} {rest : List SavePoint}
    (hb : kHeader ≤ b.rep.length) (hh : kHeader ≤ h.rep.length) (he : Extends b h)
    (hsp : b.save_points = savePointOf h :: rest) :
    b.RollbackToSavePoint.2 = Status.OK ∧ b.RollbackToSavePoint.1.rep = h.rep ∧
      b.RollbackToSavePoint.1.content_flags = h.content_flags ∧
      b.RollbackToSavePoint.1.save_points = rest := by
  have hh12 : 12 ≤ h.rep.length := hh
  rw [WriteBatch.RollbackToSavePoint, hsp]
  dsimp only
  split_ifs with heq h0
  · obtain ⟨hr, hf⟩ := he.2.2 heq.symm
    exact ⟨rfl, hr, hf, rfl⟩
  · exact absurd h0 (by simp only [savePointOf, WriteBatch.GetDataSize]; omega)
  · refine ⟨rfl, ?_, rfl, rfl⟩
    have hle := he.length_le hb hh
    have h8 : (b.rep.take h.rep.length).take 8 = h.rep.take 8 := by
      rw [List.take_take, Nat.min_eq_left (by omega), he.1]
    have h12 : (b.rep.take h.rep.length).drop 12 = h.rep.drop 12 := by
      obtain ⟨t, ht⟩ := he.2.1
      rw [List.drop_take, ← ht]
      exact List.take_left' (by rw [List.length_drop])
    have hcount : (WriteBatch.Count h).toUInt32 = decodeFixed32 (h.rep.drop 8) := rfl
    simp only [WriteBatchInternal.SetCount, savePointOf, WriteBatch.GetDataSize, h8, h12, hcount]
    exact header_split hh

/-! ## Runs of calls -/

/-- what a caller does to a batch: write, or set, roll back to or pop a save point -/
inductive BatchCall where
  | write (op : BatchOp)
  | SetSavePoint
  | RollbackToSavePoint
  | PopSavePoint
  deriving DecidableEq, Repr

namespace BatchCall

def apply (b : WriteBatch) : BatchCall → WriteBatch × Status
  | write op => op.apply b
  | SetSavePoint => (b.SetSavePoint, Status.OK)
  | RollbackToSavePoint => b.RollbackToSavePoint
  | PopSavePoint => b.PopSavePoint

/-- the batches at the open save points after the call, innermost first: `SetSavePoint` pushes the
batch it is called on, the two others pop the innermost -/
def track (b : WriteBatch) (hist : List WriteBatch) : BatchCall → List WriteBatch
  | write _ => hist
  | SetSavePoint => b :: hist
  | RollbackToSavePoint | PopSavePoint => hist.tail

end BatchCall

/-- the batch after a run of calls -/
def runCalls (b : WriteBatch) (calls : List BatchCall) : WriteBatch :=
  calls.foldl (fun b c => (c.apply b).1) b

/-- a run of calls with the batches at the save points it leaves open -/
def runTracked : WriteBatch × List WriteBatch → List BatchCall → WriteBatch × List WriteBatch
  | st, [] => st
  | (b, hist), c :: calls => runTracked ((c.apply b).1, c.track b hist) calls

/-- the batches at the `SetSavePoint` calls of a run that it leaves open, innermost first -/
def openSavePoints (b : WriteBatch) (calls : List BatchCall) : List WriteBatch :=
  (runTracked (b, []) calls).2

theorem runTracked_fst (calls : List BatchCall) :
    ∀ (b : WriteBatch) (hist : List WriteBatch), (runTracked (b, hist) calls).1 = runCalls b calls := by
  induction calls with
  | nil => intro b hist; rfl
  | cons c calls ih =>
    intro b hist
    rw [runTracked, ih]
    rfl

@[simp] theorem rep_PopSavePoint (b : WriteBatch) : b.PopSavePoint.1.rep = b.rep := by
  unfold WriteBatch.PopSavePoint
  split <;> rfl

@[simp] theorem content_flags_PopSavePoint (b : WriteBatch) :
    b.PopSavePoint.1.content_flags = b.content_flags := by
  unfold WriteBatch.PopSavePoint
  split <;> rfl

@[simp] theorem save_points_PopSavePoint (b : WriteBatch) :
    b.PopSavePoint.1.save_points = b.save_points.tail := by
  unfold WriteBatch.PopSavePoint
  split <;> simp_all

/-! ## The save points over a run -/

/-- each batch of `hist` is extended by the one before it, the first by `b` -/
def Chain : WriteBatch → List WriteBatch → Prop
  | _, [] => True
  | b, h :: hist => Extends b h ∧ Chain h hist

/-- the innermost save points of `b` record the batches `hist`, each extended by the one before
it -/
structure Saved (b : WriteBatch) (hist : List WriteBatch) : Prop where
  valid : b.Valid
  length_le : hist.length ≤ b.save_points.length
  records : b.save_points.take hist.length = hist.map savePointOf
  chain : Chain b hist

theorem Chain.congr_left {b b' : WriteBatch} (hr : b'.rep = b.rep)
    (hf : b'.content_flags = b.content_flags) : ∀ {hist : List WriteBatch}, Chain b hist → Chain b' hist
  | [], _ => trivial
  | _ :: _, ⟨he, hc⟩ => ⟨he.congr_left hr hf, hc⟩

namespace Saved

variable {b : WriteBatch} {hist : List WriteBatch}

theorem header_of_mem (hs : Saved b hist) {h : WriteBatch} (hmem : h ∈ hist) :
    kHeader ≤ h.rep.length := by
  have hrec : savePointOf h ∈ b.save_points.take hist.length := by
    rw [hs.records]
    exact List.mem_map_of_mem hmem
  exact hs.valid.save_points _ (List.mem_of_mem_take hrec)

/-- the save points of a batch with no open save point of the run -/
theorem nil (hv : b.Valid) : Saved b [] := ⟨hv, Nat.zero_le _, rfl, trivial⟩

theorem write (hs : Saved b hist) (op : BatchOp) : Saved (op.apply b).1 hist := by
  rw [BatchOp.apply_eq hs.valid.header]
  split
  · exact hs
  · refine ⟨⟨?_, hs.valid.save_points⟩, hs.length_le, hs.records, ?_⟩
    · rw [BatchOp.length_written hs.valid.header]
      exact Nat.le_add_right_of_le hs.valid.header
    · cases hist with
      | nil => trivial
      | cons h t =>
        exact ⟨hs.chain.1.written hs.valid.header (hs.header_of_mem List.mem_cons_self) op,
          hs.chain.2⟩

theorem setSavePoint (hs : Saved b hist) : Saved b.SetSavePoint (b :: hist) := by
  refine ⟨⟨hs.valid.header, ?_⟩, ?_, ?_, ⟨Extends.refl b, hs.chain⟩⟩
  · intro sp hsp
    rcases List.mem_cons.mp hsp with rfl | hsp
    · exact hs.valid.header
    · exact hs.valid.save_points sp hsp
  · simpa [WriteBatch.SetSavePoint] using hs.length_le
  · simp only [WriteBatch.SetSavePoint, List.length_cons, List.take_succ_cons, List.map_cons,
      hs.records]
    rfl

theorem valid_RollbackToSavePoint (hv : b.Valid) : b.RollbackToSavePoint.1.Valid := by
  unfold WriteBatch.RollbackToSavePoint
  split
  · exact hv
  · rename_i sp rest hsp
    have hsp12 : kHeader ≤ sp.size := hv.save_points sp (by rw [hsp]; exact List.mem_cons_self)
    have hrest : ∀ x ∈ rest, kHeader ≤ x.size :=
      fun x hx => hv.save_points x (by rw [hsp]; exact List.mem_cons_of_mem _ hx)
    dsimp only
    split
    · exact ⟨hv.header, hrest⟩
    · split
      · exact ⟨by simp [WriteBatch.Clear], by simp [WriteBatch.Clear]⟩
      · refine ⟨?_, hrest⟩
        have hb := hv.header
        simp only [WriteBatchInternal.SetCount, List.length_append, List.length_take,
          List.length_drop, length_encodeFixed32]
        simp only [kHeader] at *
        omega

/-- an open save point of the run is the innermost save point of the batch -/
theorem save_points_cons {h : WriteBatch} {t : List WriteBatch} (hs : Saved b (h :: t)) :
    b.save_points = savePointOf h :: b.save_points.tail := by
  have hrec := hs.records
  cases hb : b.save_points with
  | nil => have := hs.length_le; simp [hb] at this
  | cons sp rest =>
    rw [hb, List.length_cons, List.take_succ_cons, List.map_cons, List.cons.injEq] at hrec
    rw [hrec.1, List.tail_cons]

/-- popping the innermost save point keeps the save points below it recorded, for a batch
that extends the batches below -/
theorem tail {h b' : WriteBatch} {t : List WriteBatch} (hs : Saved b (h :: t))
    (hb' : kHeader ≤ b'.rep.length) (hp : b'.save_points = b.save_points.tail) (hc : Chain b' t) :
    Saved b' t := by
  have hsp := hs.save_points_cons
  have hrec := hs.records
  have hlen := hs.length_le
  rw [hsp, List.length_cons, List.take_succ_cons, List.map_cons, List.cons.injEq] at hrec
  rw [hsp, List.length_cons, List.length_cons] at hlen
  refine ⟨⟨hb', fun x hx => ?_⟩, by rw [hp]; omega, by rw [hp]; exact hrec.2, hc⟩
  rw [hp] at hx
  exact hs.valid.save_points x (by rw [hsp]; exact List.mem_cons_of_mem _ hx)

theorem rollbackToSavePoint (hs : Saved b hist) : Saved b.RollbackToSavePoint.1 hist.tail := by
  cases hist with
  | nil => exact nil (valid_RollbackToSavePoint hs.valid)
  | cons h t =>
    have hh := hs.header_of_mem List.mem_cons_self
    obtain ⟨-, hr, hf, hp⟩ :=
      RollbackToSavePoint_of_extends hs.valid.header hh hs.chain.1 hs.save_points_cons
    exact hs.tail (by rw [hr]; exact hh) hp (hs.chain.2.congr_left hr hf)

theorem popSavePoint (hs : Saved b hist) : Saved b.PopSavePoint.1 hist.tail := by
  have hb : kHeader ≤ b.PopSavePoint.1.rep.length := by
    rw [rep_PopSavePoint]
    exact hs.valid.header
  cases hist with
  | nil =>
    refine nil ⟨hb, fun x hx => hs.valid.save_points x (List.mem_of_mem_tail ?_)⟩
    rwa [save_points_PopSavePoint] at hx
  | cons h t =>
    refine hs.tail hb (save_points_PopSavePoint b) ?_
    -- the batch extends every save point below the popped one through it
    cases t with
    | nil => trivial
    | cons g t' =>
      refine Chain.congr_left (rep_PopSavePoint b) (content_flags_PopSavePoint b) ⟨?_, hs.chain.2.2⟩
      exact hs.chain.1.trans hs.valid.header (hs.header_of_mem List.mem_cons_self)
        (hs.header_of_mem (List.mem_cons_of_mem _ List.mem_cons_self)) hs.chain.2.1

/-- every call keeps the save points recorded -/
theorem apply (hs : Saved b hist) : ∀ c : BatchCall, Saved (c.apply b).1 (c.track b hist)
  | .write op => hs.write op
  | .SetSavePoint => hs.setSavePoint
  | .RollbackToSavePoint => hs.rollbackToSavePoint
  | .PopSavePoint => hs.popSavePoint

/-- every call keeps a batch valid -/
theorem valid_apply (hv : b.Valid) (c : BatchCall) : (c.apply b).1.Valid :=
  ((nil hv).apply c).valid

theorem run (calls : List BatchCall) :
    ∀ {b : WriteBatch} {hist : List WriteBatch}, Saved b hist →
      Saved (runTracked (b, hist) calls).1 (runTracked (b, hist) calls).2 := by
  induction calls with
  | nil => intro b hist hs; exact hs
  | cons c calls ih =>
    intro b hist hs
    exact ih (hs.apply c)

end Saved

/-- **Save points restore the batch.**  After any run of calls on a valid batch, rolling back to
the innermost save point the run left open gives the bytes, the count and the content flags the
batch had at that `SetSavePoint`, and pops that save point; with no save point the rollback
returns `NotFound` and changes nothing; and a writer that would take the batch past `max_bytes`
returns `MemoryLimit` with the batch as it was, while any other writer commits. -/
theorem write_batch_save_points :
    (∀ (b : WriteBatch) (calls : List BatchCall) (h : WriteBatch) (rest : List WriteBatch),
      b.Valid → openSavePoints b calls = h :: rest →
        (runCalls b calls).RollbackToSavePoint.2 = Status.OK ∧
        (runCalls b calls).RollbackToSavePoint.1.rep = h.rep ∧
        (runCalls b calls).RollbackToSavePoint.1.Count = h.Count ∧
        (runCalls b calls).RollbackToSavePoint.1.content_flags = h.content_flags ∧
        (runCalls b calls).RollbackToSavePoint.1.save_points = (runCalls b calls).save_points.tail) ∧
    (∀ b : WriteBatch, b.save_points = [] → b.RollbackToSavePoint = (b, Status.NotFound)) ∧
    (∀ (b : WriteBatch) (op : BatchOp), b.Valid →
      (b.max_bytes ≠ 0 ∧ b.rep.length + op.encode.length > b.max_bytes →
        op.apply b = (b, Status.MemoryLimit)) ∧
      (¬(b.max_bytes ≠ 0 ∧ b.rep.length + op.encode.length > b.max_bytes) →
        (op.apply b).2 = Status.OK)) := by
  refine ⟨fun b calls h rest hv hopen => ?_, fun b hb => ?_, fun b op hv => ?_⟩
  · have hs := Saved.run calls (Saved.nil hv)
    rw [runTracked_fst] at hs
    have hs' : Saved (runCalls b calls) (h :: rest) := by
      rw [← hopen]
      exact hs
    obtain ⟨hok, hr, hf, hp⟩ := RollbackToSavePoint_of_extends hs'.valid.header
      (hs'.header_of_mem List.mem_cons_self) hs'.chain.1 hs'.save_points_cons
    refine ⟨hok, hr, ?_, hf, hp⟩
    simp only [WriteBatch.Count, WriteBatchInternal.Count, hr]
  · rw [WriteBatch.RollbackToSavePoint, hb]
  · rw [BatchOp.apply_eq hv.header]
    exact ⟨fun hc => by rw [if_pos hc], fun hc => by rw [if_neg hc]⟩

/-- a save point, then a `Put`: the rollback finds the empty batch again -/
theorem write_batch_save_points_put :
    (WriteBatch.new 0).Valid ∧
      openSavePoints (WriteBatch.new 0) [.SetSavePoint, .write (.Put 0 [1] [2])] =
        [WriteBatch.new 0] ∧
      (runCalls (WriteBatch.new 0) [.SetSavePoint, .write (.Put 0 [1] [2])]).RollbackToSavePoint.1.rep =
        (WriteBatch.new 0).rep :=
  have hopen : openSavePoints (WriteBatch.new 0) [.SetSavePoint, .write (.Put 0 [1] [2])] =
      [WriteBatch.new 0] := by decide
  ⟨valid_new 0, hopen, (write_batch_save_points.1 _ _ _ [] (valid_new 0) hopen).2.1⟩

end RocksDB
