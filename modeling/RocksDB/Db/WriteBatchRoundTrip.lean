import RocksDB.Db.WriteBatch

/-!
# Reading back what the writers wrote

A caller issues `BatchOp`s on a fresh batch (`applyOps`); a recording handler appends one
`HandlerCall` per callback.  The development:

* `RepShape b seq c body`     `rep_` is the sequence bytes, the fixed32 count `c` and the records
                              `body`; every writer keeps this shape (`apply_shape`), adding one to
                              the count for the counted operations and `op.encode` to the body;
* `readRecord_encode`         `ReadRecordFromWriteBatch` reads `op.encode` back, and the `switch`
                              of `Iterate` makes exactly the call `op.call`;
* `iterateLoop_encode`        the loop over the records of a list of operations: the calls in
                              order, an OK status, and `found` equal to the number of counted
                              operations (in 32 bits);
* `iterate_applyOps`          the whole batch.
-/

namespace RocksDB

/-- what a caller does to a batch -/
inductive BatchOp where
  | Put (column_family_id : UInt32) (key value : List UInt8)
  | Delete (column_family_id : UInt32) (key : List UInt8)
  | SingleDelete (column_family_id : UInt32) (key : List UInt8)
  | DeleteRange (column_family_id : UInt32) (begin_key end_key : List UInt8)
  | Merge (column_family_id : UInt32) (key value : List UInt8)
  | PutLogData (blob : List UInt8)
  deriving DecidableEq, Repr

/-- the calls a recording handler receives -/
inductive HandlerCall where
  | PutCF (column_family_id : UInt32) (key value : List UInt8)
  | DeleteCF (column_family_id : UInt32) (key : List UInt8)
  | SingleDeleteCF (column_family_id : UInt32) (key : List UInt8)
  | DeleteRangeCF (column_family_id : UInt32) (begin_key end_key : List UInt8)
  | MergeCF (column_family_id : UInt32) (key value : List UInt8)
  | LogData (blob : List UInt8)
  | MarkBeginPrepare
  | MarkEndPrepare (xid : List UInt8)
  | MarkCommit (xid : List UInt8)
  | MarkRollback (xid : List UInt8)
  deriving DecidableEq, Repr

/-- a handler that overrides every callback, records it, returns OK and never stops -/
def recordingHandler : Handler (List HandlerCall) where
  PutCF st cf key value := (st ++ [.PutCF cf key value], Status.OK)
  DeleteCF st cf key := (st ++ [.DeleteCF cf key], Status.OK)
  SingleDeleteCF st cf key := (st ++ [.SingleDeleteCF cf key], Status.OK)
  DeleteRangeCF st cf b e := (st ++ [.DeleteRangeCF cf b e], Status.OK)
  MergeCF st cf key value := (st ++ [.MergeCF cf key value], Status.OK)
  LogData st blob := st ++ [.LogData blob]
  MarkBeginPrepare st := st ++ [.MarkBeginPrepare]
  MarkEndPrepare st xid := st ++ [.MarkEndPrepare xid]
  MarkCommit st xid := st ++ [.MarkCommit xid]
  MarkRollback st xid := st ++ [.MarkRollback xid]
  Continue _ := true

namespace BatchOp

/-- `WriteBatchInternal::Put(b, ...)` and its siblings, `WriteBatch::PutLogData` -/
def apply (b : WriteBatch) : BatchOp → WriteBatch × Status
  | Put cf key value => WriteBatchInternal.Put b cf key value
  | Delete cf key => WriteBatchInternal.Delete b cf key
  | SingleDelete cf key => WriteBatchInternal.SingleDelete b cf key
  | DeleteRange cf b' e => WriteBatchInternal.DeleteRange b cf b' e
  | Merge cf key value => WriteBatchInternal.Merge b cf key value
  | PutLogData blob => b.PutLogData blob

/-- the call the operation should come back as -/
def call : BatchOp → HandlerCall
  | Put cf key value => .PutCF cf key value
  | Delete cf key => .DeleteCF cf key
  | SingleDelete cf key => .SingleDeleteCF cf key
  | DeleteRange cf b e => .DeleteRangeCF cf b e
  | Merge cf key value => .MergeCF cf key value
  | PutLogData blob => .LogData blob

/-- every operation but `PutLogData` is counted -/
def counted : BatchOp → Bool
  | PutLogData _ => false
  | _ => true

/-- the slices of the operation fit the `uint32_t` length prefix -/
def Fits : BatchOp → Prop
  | Put _ key value | DeleteRange _ key value | Merge _ key value =>
    key.length < 2 ^ 32 ∧ value.length < 2 ^ 32
  | Delete _ key | SingleDelete _ key | PutLogData key => key.length < 2 ^ 32

end BatchOp

def applyOps (b : WriteBatch) (ops : List BatchOp) : WriteBatch :=
  ops.foldl (fun b op => (op.apply b).1) b

/-- the number of counted operations -/
def countedOps (ops : List BatchOp) : Nat := ops.countP BatchOp.counted

/-! ## the bytes of a record -/

/-- a varstring: the varint32 length, then the bytes -/
def varstring (s : List UInt8) : List UInt8 := encodeVarint32 (UInt32.ofNat s.length) ++ s

/-- the bytes `addRecord` appends -/
def recordBytes (column_family_id : UInt32) (plainTag cfTag : ValueType)
    (slices : List (List UInt8)) : List UInt8 :=
  (if column_family_id = 0 then [plainTag.toUInt8]
    else cfTag.toUInt8 :: encodeVarint32 column_family_id) ++ slices.flatMap varstring

def BatchOp.encode : BatchOp → List UInt8
  | .Put cf key value => recordBytes cf .kTypeValue .kTypeColumnFamilyValue [key, value]
  | .Delete cf key => recordBytes cf .kTypeDeletion .kTypeColumnFamilyDeletion [key]
  | .SingleDelete cf key =>
    recordBytes cf .kTypeSingleDeletion .kTypeColumnFamilySingleDeletion [key]
  | .DeleteRange cf b e =>
    recordBytes cf .kTypeRangeDeletion .kTypeColumnFamilyRangeDeletion [b, e]
  | .Merge cf key value => recordBytes cf .kTypeMerge .kTypeColumnFamilyMerge [key, value]
  | .PutLogData blob => ValueType.kTypeLogData.toUInt8 :: varstring blob

theorem foldl_putLengthPrefixedSlice (rep : List UInt8) (slices : List (List UInt8)) :
    slices.foldl putLengthPrefixedSlice rep = rep ++ slices.flatMap varstring := by
  induction slices generalizing rep with
  | nil => simp
  | cons s ss ih => rw [List.foldl_cons, ih, putLengthPrefixedSlice_eq]; simp [varstring]

theorem getLengthPrefixedSlice_varstring (s rest : List UInt8) (h : s.length < 2 ^ 32) :
    getLengthPrefixedSlice (varstring s ++ rest) = some (s, rest) := by
  have := getLengthPrefixedSlice_put s rest h
  rwa [putLengthPrefixedSlice_eq, List.nil_append] at this

theorem getSliceOr_varstring (msg : String) (s rest : List UInt8) (h : s.length < 2 ^ 32) :
    getSliceOr msg (varstring s ++ rest) = .ok (s, rest) := by
  rw [getSliceOr, getLengthPrefixedSlice_varstring s rest h]

theorem getCFOr_encodeVarint32 (msg : String) (cf : UInt32) (rest : List UInt8) :
    getCFOr msg (encodeVarint32 cf ++ rest) = .ok (cf, rest) := by
  rw [getCFOr, getVarint32_encodeVarint32]

/-! ## the shape of `rep_` -/

/-- `rep_` is eight sequence bytes, the fixed32 count `c` and the records `body` -/
def RepShape (b : WriteBatch) (seq : List UInt8) (c : UInt32) (body : List UInt8) : Prop :=
  seq.length = 8 ∧ b.rep = seq ++ encodeFixed32 c ++ body

theorem RepShape.count {b : WriteBatch} {seq : List UInt8} {c : UInt32} {body : List UInt8}
    (h : RepShape b seq c body) : WriteBatchInternal.Count b = c.toInt32 := by
  obtain ⟨hs, hr⟩ := h
  rw [WriteBatchInternal.Count, hr, List.append_assoc, List.drop_append_of_le_length (by omega),
    List.drop_of_length_le (by omega), List.nil_append, decodeFixed32_encodeFixed32]

theorem RepShape.setCount {b : WriteBatch} {seq : List UInt8} {c : UInt32} {body : List UInt8}
    (h : RepShape b seq c body) (n : Int32) :
    RepShape (WriteBatchInternal.SetCount b n) seq n.toUInt32 body := by
  obtain ⟨hs, hr⟩ := h
  refine ⟨hs, ?_⟩
  have h8 : b.rep.take 8 = seq := by rw [hr, List.append_assoc, List.take_left' hs]
  have h12 : b.rep.drop 12 = body := by rw [hr, List.drop_left' (by simp [hs])]
  simp only [WriteBatchInternal.SetCount, h8, h12]

theorem new_shape (max_bytes : Nat) :
    RepShape (WriteBatch.new max_bytes) (List.replicate 8 0) 0 [] := by
  refine ⟨by simp, ?_⟩
  rfl

/-- with no byte limit a commit keeps the batch and reports OK -/
theorem localSavePointCommit_unlimited (save : SavePoint) {b : WriteBatch} (h : b.max_bytes = 0) :
    localSavePointCommit save b = (b, Status.OK) := by
  simp [localSavePointCommit, h]

theorem addRecord_shape {b : WriteBatch} {seq : List UInt8} {c : UInt32} {body : List UInt8}
    (h : RepShape b seq c body) (hmax : b.max_bytes = 0) (cf : UInt32) (plainTag cfTag : ValueType)
    (slices : List (List UInt8)) (flag : UInt32) :
    RepShape (addRecord b cf plainTag cfTag slices flag).1 seq (c + 1)
      (body ++ recordBytes cf plainTag cfTag slices) ∧
    (addRecord b cf plainTag cfTag slices flag).1.max_bytes = 0 ∧
    (addRecord b cf plainTag cfTag slices flag).2 = Status.OK := by
  have hc := h.count
  have hs := h.setCount (WriteBatchInternal.Count b + 1)
  rw [hc] at hs
  obtain ⟨hs8, hr⟩ := hs
  simp only [addRecord]
  rw [localSavePointCommit_unlimited _ (by simpa [WriteBatchInternal.SetCount] using hmax)]
  refine ⟨⟨hs8, ?_⟩, by simpa [WriteBatchInternal.SetCount] using hmax, rfl⟩
  rw [foldl_putLengthPrefixedSlice]
  have e : (c.toInt32 + 1).toUInt32 = c + 1 := rfl
  rw [e] at hr
  split <;> simp [recordBytes, putVarint32, *]

theorem putLogData_shape {b : WriteBatch} {seq : List UInt8} {c : UInt32} {body : List UInt8}
    (h : RepShape b seq c body) (hmax : b.max_bytes = 0) (blob : List UInt8) :
    RepShape (b.PutLogData blob).1 seq c (body ++ (BatchOp.PutLogData blob).encode) ∧
    (b.PutLogData blob).1.max_bytes = 0 ∧ (b.PutLogData blob).2 = Status.OK := by
  obtain ⟨hs8, hr⟩ := h
  simp only [WriteBatch.PutLogData]
  rw [localSavePointCommit_unlimited _ (by simpa using hmax)]
  refine ⟨⟨hs8, ?_⟩, hmax, rfl⟩
  simp [hr, putLengthPrefixedSlice_eq, BatchOp.encode, varstring]

/-- one operation: the count goes up by one exactly for the counted ones -/
theorem apply_shape {b : WriteBatch} {seq : List UInt8} {c : UInt32} {body : List UInt8}
    (h : RepShape b seq c body) (hmax : b.max_bytes = 0) (op : BatchOp) :
    RepShape (op.apply b).1 seq (if op.counted then c + 1 else c) (body ++ op.encode) ∧
    (op.apply b).1.max_bytes = 0 ∧ (op.apply b).2 = Status.OK := by
  cases op with
  | PutLogData blob => exact putLogData_shape h hmax blob
  | _ => exact addRecord_shape h hmax _ _ _ _ _

/-- a run of operations on a batch without byte limit -/
theorem applyOps_shape (ops : List BatchOp) :
    ∀ {b : WriteBatch} {seq : List UInt8} {c : UInt32} {body : List UInt8},
      RepShape b seq c body → b.max_bytes = 0 →
      RepShape (applyOps b ops) seq (c + UInt32.ofNat (countedOps ops))
        (body ++ ops.flatMap BatchOp.encode) := by
  induction ops with
  | nil => intro b seq c body h _; simpa [applyOps, countedOps] using h
  | cons op ops ih =>
    intro b seq c body h hmax
    obtain ⟨h1, h2, -⟩ := apply_shape h hmax op
    have := ih h1 h2
    have ec : (if op.counted then c + 1 else c) + UInt32.ofNat (countedOps ops) =
        c + UInt32.ofNat (countedOps (op :: ops)) := by
      cases hc : op.counted
      · simp [countedOps, hc]
      · simp only [countedOps, List.countP_cons, hc, if_true, UInt32.ofNat_add]; ac_rfl
    rw [ec, List.append_assoc] at this
    simpa [applyOps] using this

/-! ## reading a record back -/

/-- the tag byte `addRecord` writes: the plain tag for the default column family -/
def recordTag (column_family_id : UInt32) (plainTag cfTag : ValueType) : UInt8 :=
  if column_family_id = 0 then plainTag.toUInt8 else cfTag.toUInt8

/-- the tag byte of the record of an operation -/
def BatchOp.tag : BatchOp → UInt8
  | .Put cf _ _ => recordTag cf .kTypeValue .kTypeColumnFamilyValue
  | .Delete cf _ => recordTag cf .kTypeDeletion .kTypeColumnFamilyDeletion
  | .SingleDelete cf _ => recordTag cf .kTypeSingleDeletion .kTypeColumnFamilySingleDeletion
  | .DeleteRange cf _ _ => recordTag cf .kTypeRangeDeletion .kTypeColumnFamilyRangeDeletion
  | .Merge cf _ _ => recordTag cf .kTypeMerge .kTypeColumnFamilyMerge
  | .PutLogData _ => ValueType.kTypeLogData.toUInt8

/-- the column family `ReadRecordFromWriteBatch` reports: the record's, 0 for a blob -/
def BatchOp.cf : BatchOp → UInt32
  | .Put cf _ _ | .Delete cf _ | .SingleDelete cf _ | .DeleteRange cf _ _ | .Merge cf _ _ => cf
  | .PutLogData _ => 0

/-- the out-parameters after reading the record -/
def BatchOp.fill (slots : RecordSlots) : BatchOp → RecordSlots
  | .Put _ key value | .DeleteRange _ key value | .Merge _ key value =>
    { slots with key := key, value := value }
  | .Delete _ key | .SingleDelete _ key => { slots with key := key }
  | .PutLogData blob => { slots with blob := blob }

/-- `ReadRecordFromWriteBatch` on a two-slice record: the plain tag reads the slices, the
column-family tag the id first -/
theorem readRecord_twoSlices (cf : UInt32) (plainTag cfTag : ValueType) (msg : String)
    (slots : RecordSlots) (a b rest : List UInt8) (ha : a.length < 2 ^ 32) (hb : b.length < 2 ^ 32)
    (hplain : ∀ input, readRecordFromWriteBatch (plainTag.toUInt8 :: input) slots =
      readKeyValue msg plainTag.toUInt8 0 slots input)
    (hcfTag : ∀ input, readRecordFromWriteBatch (cfTag.toUInt8 :: input) slots =
      withCF msg input (readKeyValue msg cfTag.toUInt8 · slots)) :
    readRecordFromWriteBatch (recordBytes cf plainTag cfTag [a, b] ++ rest) slots =
      .ok (recordTag cf plainTag cfTag, cf, { slots with key := a, value := b }, rest) := by
  have hkv : ∀ t c, readKeyValue msg t c slots (varstring a ++ (varstring b ++ rest)) =
      .ok (t, c, { slots with key := a, value := b }, rest) := by
    intro t c
    rw [readKeyValue, getSliceOr_varstring msg a _ ha]
    simp only
    rw [getSliceOr_varstring msg b rest hb]
  by_cases hcf : cf = 0
  · subst hcf
    simp only [recordBytes, recordTag, if_true, List.flatMap_cons, List.flatMap_nil,
      List.append_nil, List.nil_append, List.cons_append, List.append_assoc, hplain, hkv]
  · simp only [recordBytes, recordTag, hcf, if_false, List.flatMap_cons, List.flatMap_nil,
      List.append_nil, List.cons_append, List.append_assoc, hcfTag, withCF,
      getCFOr_encodeVarint32, hkv]

/-- the same for a one-slice record -/
theorem readRecord_oneSlice (cf : UInt32) (plainTag cfTag : ValueType) (msg : String)
    (slots : RecordSlots) (a rest : List UInt8) (ha : a.length < 2 ^ 32)
    (hplain : ∀ input, readRecordFromWriteBatch (plainTag.toUInt8 :: input) slots =
      readKey msg plainTag.toUInt8 0 slots input)
    (hcfTag : ∀ input, readRecordFromWriteBatch (cfTag.toUInt8 :: input) slots =
      withCF msg input (readKey msg cfTag.toUInt8 · slots)) :
    readRecordFromWriteBatch (recordBytes cf plainTag cfTag [a] ++ rest) slots =
      .ok (recordTag cf plainTag cfTag, cf, { slots with key := a }, rest) := by
  have hk : ∀ t c, readKey msg t c slots (varstring a ++ rest) =
      .ok (t, c, { slots with key := a }, rest) := by
    intro t c
    rw [readKey, getSliceOr_varstring msg a _ ha]
  by_cases hcf : cf = 0
  · subst hcf
    simp only [recordBytes, recordTag, if_true, List.flatMap_cons, List.flatMap_nil,
      List.append_nil, List.nil_append, List.cons_append, hplain, hk]
  · simp only [recordBytes, recordTag, hcf, if_false, List.flatMap_cons, List.flatMap_nil,
      List.append_nil, List.cons_append, List.append_assoc, hcfTag, withCF,
      getCFOr_encodeVarint32, hk]

/-- **One record.**  The record of an operation is read back with its tag, column family and
slices, and nothing after it is touched. -/
theorem readRecord_encode (op : BatchOp) (hop : op.Fits) (slots : RecordSlots)
    (rest : List UInt8) :
    readRecordFromWriteBatch (op.encode ++ rest) slots = .ok (op.tag, op.cf, op.fill slots, rest) := by
  cases op with
  | Put cf key value =>
    exact readRecord_twoSlices cf _ _ "bad WriteBatch Put" slots key value rest hop.1 hop.2
      (fun _ => rfl) (fun _ => rfl)
  | Delete cf key =>
    exact readRecord_oneSlice cf _ _ "bad WriteBatch Delete" slots key rest hop
      (fun _ => rfl) (fun _ => rfl)
  | SingleDelete cf key =>
    exact readRecord_oneSlice cf _ _ "bad WriteBatch Delete" slots key rest hop
      (fun _ => rfl) (fun _ => rfl)
  | DeleteRange cf b e =>
    exact readRecord_twoSlices cf _ _ "bad WriteBatch DeleteRange" slots b e rest hop.1 hop.2
      (fun _ => rfl) (fun _ => rfl)
  | Merge cf key value =>
    exact readRecord_twoSlices cf _ _ "bad WriteBatch Merge" slots key value rest hop.1 hop.2
      (fun _ => rfl) (fun _ => rfl)
  | PutLogData blob =>
    simp only [BatchOp.encode, List.cons_append, readRecordFromWriteBatch,
      ValueType.ofUInt8_toUInt8, getSliceOr_varstring _ blob rest hop, BatchOp.tag, BatchOp.cf,
      BatchOp.fill]

/-- the `switch` of `Iterate` on the record of an operation makes the operation's call -/
theorem dispatch_encode (op : BatchOp) (slots : RecordSlots) (st : List HandlerCall) :
    dispatch recordingHandler st Status.OK op.tag op.cf (op.fill slots) =
      .ok (st ++ [op.call], Status.OK, op.counted) := by
  cases op with
  | PutLogData blob => rfl
  | _ cf => by_cases hcf : cf = 0 <;> simp [dispatch, BatchOp.tag, recordTag, hcf, BatchOp.cf,
      BatchOp.fill, recordingHandler, BatchOp.call, BatchOp.counted]

theorem encode_ne_nil (op : BatchOp) : op.encode ≠ [] := by
  cases op <;> simp [BatchOp.encode, recordBytes] <;> split <;> simp

/-- **The loop of `Iterate` over the records of a list of operations**: one call per operation
in order, an OK status, and `found` up by the number of counted operations. -/
theorem iterateLoop_encode (ops : List BatchOp) (hops : ∀ op ∈ ops, op.Fits) :
    ∀ (st : List HandlerCall) (found : Int32) (slots : RecordSlots),
      iterateLoop recordingHandler (ops.flatMap BatchOp.encode) st Status.OK found slots =
        (st ++ ops.map BatchOp.call, Status.OK, found + Int32.ofNat (countedOps ops)) := by
  induction ops with
  | nil =>
    intro st found slots
    rw [iterateLoop, if_neg (by simp)]
    simp [countedOps]
  | cons op ops ih =>
    intro st found slots
    have hop := hops op List.mem_cons_self
    have hrest := ih (fun o ho => hops o (List.mem_cons_of_mem _ ho))
    have hne : op.encode ++ ops.flatMap BatchOp.encode ≠ [] := by simp [encode_ne_nil op]
    rw [List.flatMap_cons, iterateLoop, if_pos ⟨rfl, hne, rfl⟩]
    split
    · rename_i e hr
      rw [readRecord_encode op hop] at hr
      cases hr
    · rename_i tag cf slots' rest hr
      rw [readRecord_encode op hop] at hr
      cases hr
      rw [dispatch_encode]
      simp only
      rw [hrest]
      -- the count: one more exactly for a counted operation
      have hc : (if op.counted then found + 1 else found) + Int32.ofNat (countedOps ops) =
          found + Int32.ofNat (countedOps (op :: ops)) := by
        cases h : op.counted
        · simp [countedOps, h]
        · simp only [countedOps, List.countP_cons, h, if_true, Int32.ofNat_add]
          ac_rfl
      simp [hc]

/-- the records of a fresh batch are the encodings of the operations applied to it -/
theorem applyOps_new_shape (ops : List BatchOp) :
    RepShape (applyOps (WriteBatch.new 0) ops) (List.replicate 8 0)
      (UInt32.ofNat (countedOps ops)) (ops.flatMap BatchOp.encode) := by
  have := applyOps_shape ops (new_shape 0) rfl
  simpa using this

theorem count_applyOps_new (ops : List BatchOp) :
    (applyOps (WriteBatch.new 0) ops).Count = Int32.ofNat (countedOps ops) :=
  (applyOps_new_shape ops).count

/-- **Round trip of a batch.**  Every sequence of operations on a fresh batch is reported back by
`Iterate` as one call per operation, in order, with its column family, key, value or end key and
blob, and the status is OK; `Count()` is the number of counted operations in 32 bits, so it is
that number when the number is below `2^31`. -/
theorem iterate_applyOps (ops : List BatchOp) (hops : ∀ op ∈ ops, op.Fits) :
    (applyOps (WriteBatch.new 0) ops).Iterate recordingHandler [] =
      (ops.map BatchOp.call, Status.OK) ∧
    (applyOps (WriteBatch.new 0) ops).Count = Int32.ofNat (countedOps ops) ∧
    (countedOps ops < 2 ^ 31 → (applyOps (WriteBatch.new 0) ops).Count.toInt = countedOps ops) := by
  have hshape := applyOps_new_shape ops
  have hcount := count_applyOps_new ops
  refine ⟨?_, hcount, fun h => by rw [hcount, Int32.toInt_ofNat_of_lt h]⟩
  have hrep := hshape.2
  have hlen : ¬ (applyOps (WriteBatch.new 0) ops).rep.length < kHeader := by
    rw [hrep]; simp [kHeader]
  have hbody : (applyOps (WriteBatch.new 0) ops).rep.drop kHeader = ops.flatMap BatchOp.encode := by
    rw [hrep, List.drop_left' (by simp [kHeader])]
  rw [WriteBatch.Iterate, if_neg hlen, hbody, iterateLoop_encode ops hops]
  -- the loop ends OK with `found` equal to the stored count
  rw [WriteBatch.Count] at hcount
  simp [hcount]

/-! ## Iterating with any handler -/

section AnyHandler

variable {σ : Type}

/-- the callback `Iterate` makes for an operation, with the loop status after it -/
def BatchOp.handle (h : Handler σ) (st : σ) (s : Status) : BatchOp → σ × Status
  | .Put cf key value => h.PutCF st cf key value
  | .Delete cf key => h.DeleteCF st cf key
  | .SingleDelete cf key => h.SingleDeleteCF st cf key
  | .DeleteRange cf b e => h.DeleteRangeCF st cf b e
  | .Merge cf key value => h.MergeCF st cf key value
  | .PutLogData blob => (h.LogData st blob, s)

/-- the callbacks of the operations in order, up to the first status that is not OK -/
def handleOps (h : Handler σ) : σ → Status → List BatchOp → σ × Status
  | st, s, [] => (st, s)
  | st, s, op :: ops =>
    if s.ok then handleOps h (op.handle h st s).1 (op.handle h st s).2 ops else (st, s)

theorem handleOps_of_not_ok (h : Handler σ) (st : σ) {s : Status} (hs : s.ok = false)
    (ops : List BatchOp) : handleOps h st s ops = (st, s) := by
  cases ops with
  | nil => rfl
  | cons op ops => simp [handleOps, hs]

/-- a run that ends OK started OK -/
theorem ok_of_handleOps_ok (h : Handler σ) (st : σ) {s : Status} (ops : List BatchOp)
    (hok : (handleOps h st s ops).2.ok) : s.ok := by
  cases hs : s.ok
  · simp [handleOps_of_not_ok h st hs, hs] at hok
  · rfl

theorem dispatch_encode_handler (h : Handler σ) (op : BatchOp) (slots : RecordSlots) (st : σ)
    (s : Status) :
    dispatch h st s op.tag op.cf (op.fill slots) =
      .ok ((op.handle h st s).1, (op.handle h st s).2, op.counted) := by
  cases op with
  | PutLogData blob => rfl
  | _ cf => by_cases hcf : cf = 0 <;> simp [dispatch, BatchOp.tag, recordTag, hcf, BatchOp.cf,
      BatchOp.fill, BatchOp.handle, BatchOp.counted]

/-- the loop of `Iterate` with a handler that never asks to stop: the callbacks in order up to
the first status that is not OK, and `found` up by the counted operations where none fails -/
theorem iterateLoop_encode_handler (h : Handler σ) (hc : ∀ st, h.Continue st = true)
    (ops : List BatchOp) (hops : ∀ op ∈ ops, op.Fits) :
    ∀ (st : σ) (s : Status) (found : Int32) (slots : RecordSlots),
      (iterateLoop h (ops.flatMap BatchOp.encode) st s found slots).1 = (handleOps h st s ops).1 ∧
      (iterateLoop h (ops.flatMap BatchOp.encode) st s found slots).2.1 =
        (handleOps h st s ops).2 ∧
      ((handleOps h st s ops).2.ok →
        (iterateLoop h (ops.flatMap BatchOp.encode) st s found slots).2.2 =
          found + Int32.ofNat (countedOps ops)) := by
  induction ops with
  | nil =>
    intro st s found slots
    rw [iterateLoop, if_neg (by simp)]
    simp [handleOps, countedOps]
  | cons op ops ih =>
    intro st s found slots
    have hop := hops op List.mem_cons_self
    have hrest := ih (fun o ho => hops o (List.mem_cons_of_mem _ ho))
    have hne : op.encode ++ ops.flatMap BatchOp.encode ≠ [] := by simp [encode_ne_nil op]
    by_cases hs : s.ok
    · rw [List.flatMap_cons, iterateLoop, if_pos ⟨hs, hne, hc st⟩]
      split
      · rename_i e hr
        rw [readRecord_encode op hop] at hr
        cases hr
      · rename_i tag cf slots' rest hr
        rw [readRecord_encode op hop] at hr
        cases hr
        rw [dispatch_encode_handler]
        simp only [handleOps, hs, if_true]
        obtain ⟨h1, h2, h3⟩ := hrest (op.handle h st s).1 (op.handle h st s).2
          (if op.counted then found + 1 else found) (op.fill slots)
        refine ⟨h1, h2, fun hok => ?_⟩
        rw [h3 hok]
        -- the count: one more exactly for a counted operation
        cases hcount : op.counted
        · simp [countedOps, hcount]
        · simp only [countedOps, List.countP_cons, hcount, if_true, Int32.ofNat_add]
          ac_rfl
    · rw [List.flatMap_cons, iterateLoop, if_neg (fun hh => hs hh.1)]
      simp [handleOps, hs]

/-- `Iterate` with a handler that never asks to stop, on a batch whose records are the encodings
of `ops` under their count, whatever its sequence bytes: the callbacks of the operations in order up
to the first status that is not OK, which it returns, and OK otherwise -/
theorem iterate_of_shape (h : Handler σ) (hc : ∀ st, h.Continue st = true) {b : WriteBatch}
    {seq : List UInt8} (ops : List BatchOp) (hops : ∀ op ∈ ops, op.Fits)
    (hshape : RepShape b seq (UInt32.ofNat (countedOps ops)) (ops.flatMap BatchOp.encode))
    (st : σ) :
    b.Iterate h st =
      ((handleOps h st Status.OK ops).1,
        if (handleOps h st Status.OK ops).2.ok then Status.OK else (handleOps h st Status.OK ops).2) := by
  have hcount : WriteBatchInternal.Count b = Int32.ofNat (countedOps ops) := hshape.count
  have hlen : ¬ b.rep.length < kHeader := by
    rw [hshape.2]; simp [kHeader, hshape.1]; omega
  have hbody : b.rep.drop kHeader = ops.flatMap BatchOp.encode := by
    rw [hshape.2, List.drop_left' (by simp [kHeader, hshape.1])]
  obtain ⟨h1, h2, h3⟩ := iterateLoop_encode_handler h hc ops hops st Status.OK 0 ⟨[], [], [], []⟩
  rw [WriteBatch.Iterate, if_neg hlen, hbody]
  dsimp only
  rw [h1, h2]
  by_cases hok : (handleOps h st Status.OK ops).2.ok
  · -- the loop ends OK with `found` equal to the stored count
    rw [h3 hok]
    simp [hok, hcount]
  · simp [hok]

/-- `Iterate` on a fresh batch with a handler that never asks to stop -/
theorem iterate_applyOps_handler (h : Handler σ) (hc : ∀ st, h.Continue st = true)
    (ops : List BatchOp) (hops : ∀ op ∈ ops, op.Fits) (st : σ) :
    (applyOps (WriteBatch.new 0) ops).Iterate h st =
      ((handleOps h st Status.OK ops).1,
        if (handleOps h st Status.OK ops).2.ok then Status.OK else (handleOps h st Status.OK ops).2) :=
  iterate_of_shape h hc ops hops (applyOps_new_shape ops) st

end AnyHandler

theorem iterate_applyOps_put_logData :
    (applyOps (WriteBatch.new 0) [.Put 1 [7] [8], .PutLogData [9]]).Iterate recordingHandler [] =
      ([.PutCF 1 [7] [8], .LogData [9]], Status.OK) :=
  (iterate_applyOps [.Put 1 [7] [8], .PutLogData [9]] (by simp [BatchOp.Fits])).1

/-- the count field is 32 bits read as an `int`: `2^31` deletions read back as `-2^31` -/
theorem count_applyOps_two_pow_31 :
    (applyOps (WriteBatch.new 0) (List.replicate (2 ^ 31) (BatchOp.Delete 0 []))).Count.toInt ≠
      countedOps (List.replicate (2 ^ 31) (BatchOp.Delete 0 [])) := by
  have h : countedOps (List.replicate (2 ^ 31) (BatchOp.Delete 0 [])) = 2 ^ 31 := by
    have hc : (BatchOp.Delete 0 []).counted = true := rfl
    rw [countedOps, List.countP_replicate, if_pos hc]
  rw [count_applyOps_new, h]
  decide

end RocksDB
