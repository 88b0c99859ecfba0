import RocksDB.Transactions.TransactionKeyMap
import RocksDB.Lib.Lists

/-!
# utilities/transactions/transaction_base.cc: tracked keys and save points

* `TransactionBaseImpl`          the snapshot (its sequence number), the stack of save points
                                 (top first) and the tracked keys;
* `TrackKey`                     the key counted in the tracked keys and in the top save point;
* `SetSavePoint`                 a save point with the current snapshot and no keys;
* `GetTrackedKeysSinceSavePoint` the keys all of whose reads and writes came after the top save
                                 point (`find_GetTrackedKeysSinceSavePoint`);
* `RollbackToSavePoint`          the counts since the top save point taken off the tracked keys
                                 (`find_RollbackToSavePoint`), the save point popped;
* `UndoGetForUpdate`             one read taken back, with whether the key must be unlocked;
* `Clear`                        no save point and no tracked key.

`Consistent` is what these keep on every run: every save point has the transaction's snapshot
(`Consistent.trackKey`, `.setSavePoint`, `.rollbackToSavePoint`, `.undoGetForUpdate`).  The
counts are `uint32_t`: a rollback drops a key exactly when its totals equal the counts since the
save point, wrapped or not (`rollbackEntry_eq_none`), which is what
`GetTrackedKeysSinceSavePoint` lists (`exclusive_RollbackToSavePoint`).
-/

namespace RocksDB

open TransactionKeyMap

/-- `TransactionBaseImpl::SavePoint`: the snapshot and the write counts when it was set, and the
keys tracked since -/
structure TransactionBaseImpl.SavePoint where
  snapshot_ : Option Nat
  num_puts_ : Nat
  num_deletes_ : Nat
  num_merges_ : Nat
  new_keys_ : TransactionKeyMap

/-- the part of `TransactionBaseImpl` the tracked keys and the write counts live in -/
structure TransactionBaseImpl where
  snapshot_ : Option Nat
  save_points_ : List TransactionBaseImpl.SavePoint
  tracked_keys_ : TransactionKeyMap
  num_puts_ : Nat
  num_deletes_ : Nat
  num_merges_ : Nat

/-- the count a successful write adds one to: `Put` to `num_puts_`, `Delete` and `SingleDelete`
to `num_deletes_`, `Merge` to `num_merges_` -/
inductive WriteCount where
  | puts | deletes | merges
  deriving DecidableEq, Repr

/-- whether every read and write of a key the tracked keys count happened since the save point
whose record is `e` -/
def allSince (tracked : TransactionKeyMap) (e : UInt32 × List UInt8 × TransactionKeyMapInfo) :
    Bool :=
  match tracked.find e.1 e.2.1 with
  | some total => total.num_reads == e.2.2.num_reads && total.num_writes == e.2.2.num_writes
  | none => false

/-- the inner loop of `RollbackToSavePoint` on one key: the reads and writes since the save point
come off the key's totals, and the key goes once both are 0 (a key that is not tracked is
asserted not to occur) -/
def rollbackKey (tracked : TransactionKeyMap) (cf : UInt32) (key : List UInt8)
    (info : TransactionKeyMapInfo) : TransactionKeyMap :=
  match tracked.find cf key with
  | none => tracked
  | some total =>
    let total := if info.num_reads > 0 then
      { total with num_reads := total.num_reads - info.num_reads } else total
    let total := if info.num_writes > 0 then
      { total with num_writes := total.num_writes - info.num_writes } else total
    if total.num_reads = 0 ∧ total.num_writes = 0 then tracked.eraseKey cf key
    else tracked.setKey cf key total

/-- one `GetForUpdate` taken back in a key map, the block the two halves of `UndoGetForUpdate`
share: where the key counts a read, one read less, and the record goes once it counts no read and
no write (the flag says so); `none` where there is no read to take back -/
def TransactionKeyMap.undoRead (key_map : TransactionKeyMap) (cf : UInt32) (key : List UInt8) :
    Option (TransactionKeyMap × Bool) :=
  match key_map.find cf key with
  | some info =>
    if info.num_reads > 0 then
      let info := { info with num_reads := info.num_reads - 1 }
      if info.num_reads = 0 ∧ info.num_writes = 0 then some (key_map.eraseKey cf key, true)
      else some (key_map.setKey cf key info, false)
    else none
  | none => none

/-- the save-point half of `UndoGetForUpdate`: the read is taken back in the top save point,
whose key map gets an entry for the column family; the flag is `can_decrement` -/
def undoSavePointRead (cf : UInt32) (key : List UInt8) :
    List TransactionBaseImpl.SavePoint → List TransactionBaseImpl.SavePoint × Bool
  | [] => ([], true)
  | save_point :: rest =>
    let new_keys := save_point.new_keys_.ensureCf cf
    match new_keys.undoRead cf key with
    | some r => ({ save_point with new_keys_ := r.1 } :: rest, true)
    | none => ({ save_point with new_keys_ := new_keys } :: rest, false)

namespace TransactionBaseImpl

/-- the member `TrackKey`: the tracked keys, and the keys of the top save point where there is
one -/
def TrackKey (txn : TransactionBaseImpl) (cfh_id : UInt32) (key : List UInt8) (seq : Nat)
    (read_only exclusive : Bool) : TransactionBaseImpl :=
  { txn with
    tracked_keys_ := TransactionKeyMap.TrackKey txn.tracked_keys_ cfh_id key seq read_only exclusive
    save_points_ := match txn.save_points_ with
      | [] => []
      | save_point :: rest =>
        { save_point with
          new_keys_ :=
            TransactionKeyMap.TrackKey save_point.new_keys_ cfh_id key seq read_only exclusive } :: rest }

/-- the `num_puts_++`, `num_deletes_++` or `num_merges_++` after a write that succeeded -/
def countWrite (txn : TransactionBaseImpl) : WriteCount → TransactionBaseImpl
  | .puts => { txn with num_puts_ := txn.num_puts_ + 1 }
  | .deletes => { txn with num_deletes_ := txn.num_deletes_ + 1 }
  | .merges => { txn with num_merges_ := txn.num_merges_ + 1 }

/-- `SetSavePoint` -/
def SetSavePoint (txn : TransactionBaseImpl) : TransactionBaseImpl :=
  { txn with
    save_points_ :=
      ⟨txn.snapshot_, txn.num_puts_, txn.num_deletes_, txn.num_merges_, ∅⟩ :: txn.save_points_ }

/-- `GetTrackedKeysSinceSavePoint`: `none` without save point -/
def GetTrackedKeysSinceSavePoint (txn : TransactionBaseImpl) : Option TransactionKeyMap :=
  match txn.save_points_ with
  | [] => none
  | save_point :: _ =>
    some (save_point.new_keys_.toList.foldl (fun result e =>
      if allSince txn.tracked_keys_ e then
        TransactionKeyMap.TrackKey result e.1 e.2.1 e.2.2.seq (e.2.2.num_writes == 0) e.2.2.exclusive
      else result) ∅)

/-- `RollbackToSavePoint`: `NotFound` without save point -/
def RollbackToSavePoint (txn : TransactionBaseImpl) : Status × TransactionBaseImpl :=
  match txn.save_points_ with
  | [] => (.NotFound, txn)
  | save_point :: rest =>
    -- `auto &cf_tracked_keys = tracked_keys_[column_family_id]`, then the keys of the family
    let tracked := save_point.new_keys_.entries.foldl (fun tracked e =>
      e.2.entries.foldl (fun tracked k => rollbackKey tracked e.1 k.1 k.2) (tracked.ensureCf e.1))
      txn.tracked_keys_
    (.OK, { snapshot_ := save_point.snapshot_, save_points_ := rest, tracked_keys_ := tracked,
            num_puts_ := save_point.num_puts_, num_deletes_ := save_point.num_deletes_,
            num_merges_ := save_point.num_merges_ })

/-- `UndoGetForUpdate`, with whether it calls `UnlockGetForUpdate` -/
def UndoGetForUpdate (txn : TransactionBaseImpl) (cf : UInt32) (key : List UInt8) :
    TransactionBaseImpl × Bool :=
  let tracked := txn.tracked_keys_.ensureCf cf
  let r := undoSavePointRead cf key txn.save_points_
  match if r.2 then tracked.undoRead cf key else none with
  | some (tracked, unlock) => ({ txn with save_points_ := r.1, tracked_keys_ := tracked }, unlock)
  | none => ({ txn with save_points_ := r.1, tracked_keys_ := tracked }, false)

/-- `Clear`, on the tracked keys, the save points and the write counts -/
def Clear (txn : TransactionBaseImpl) : TransactionBaseImpl :=
  { txn with save_points_ := [], tracked_keys_ := ∅, num_puts_ := 0, num_deletes_ := 0,
             num_merges_ := 0 }

/-- the reads of a key the save points count -/
def savedReads (txn : TransactionBaseImpl) (cf : UInt32) (key : List UInt8) : Nat :=
  (txn.save_points_.map fun sp => numReads sp.new_keys_ cf key).sum

/-- the writes of a key the save points count -/
def savedWrites (txn : TransactionBaseImpl) (cf : UInt32) (key : List UInt8) : Nat :=
  (txn.save_points_.map fun sp => numWrites sp.new_keys_ cf key).sum

end TransactionBaseImpl

/-! ## One key -/

/-- a `uint32_t` count is 0 or positive -/
theorem count_eq_zero_or_pos (a : UInt32) : a = 0 ∨ 0 < a := by
  rw [UInt32.lt_iff_toNat_lt, UInt32.ext_iff]
  simp only [UInt32.toNat_zero]
  omega

/-- `--` on a positive `uint32_t` count -/
theorem toNat_sub_one_of_pos {a : UInt32} (h : 0 < a) : (a - 1).toNat = a.toNat - 1 := by
  rw [UInt32.lt_iff_toNat_lt, UInt32.toNat_zero] at h
  rw [UInt32.toNat_sub_of_le _ _ (UInt32.le_iff_toNat_le.mpr (by simp; omega))]
  rfl

/-- the record `rollbackKey` leaves for a key the save point counts with `info` -/
def rollbackEntry (info : TransactionKeyMapInfo) : Option TransactionKeyMapInfo →
    Option TransactionKeyMapInfo
  | none => none
  | some total =>
    if total.num_reads - info.num_reads = 0 ∧ total.num_writes - info.num_writes = 0 then none
    else some { total with
      num_reads := total.num_reads - info.num_reads,
      num_writes := total.num_writes - info.num_writes }

/-- the record `undoRead` leaves for a key counted with `info` -/
def undoReadEntry (info : TransactionKeyMapInfo) : Option TransactionKeyMapInfo :=
  if info.num_reads - 1 = 0 ∧ info.num_writes = 0 then none
  else some { info with num_reads := info.num_reads - 1 }

theorem find_rollbackKey (t : TransactionKeyMap) (cf key info c k) :
    (rollbackKey t cf key info).find c k =
      if c = cf ∧ k = key then rollbackEntry info (t.find cf key) else t.find c k := by
  unfold rollbackKey
  cases hf : t.find cf key with
  | none =>
    dsimp only
    split
    · rename_i h; rw [h.1, h.2, hf]; rfl
    · rfl
  | some total =>
    -- a count of 0 since the save point takes nothing off
    have hr := count_eq_zero_or_pos info.num_reads
    have hw := count_eq_zero_or_pos info.num_writes
    dsimp only
    rcases hr with hr | hr <;> rcases hw with hw | hw <;>
      simp only [hr, hw, gt_iff_lt, if_true, sub_zero, rollbackEntry] <;>
      split <;> split <;> simp_all [find_eraseKey, find_setKey]

theorem mem_rollbackKey {t : TransactionKeyMap} {cf key info c}
    (h : c ∈ rollbackKey t cf key info) : c = cf ∨ c ∈ t := by
  unfold rollbackKey at h
  split at h
  · exact .inr h
  · dsimp only at h
    -- both ends of the body insert the column family's keys anew
    split_ifs at h <;> exact (AList.mem_insert t).mp h

/-- the key goes exactly when its totals are the counts since the save point, as `uint32_t`s -/
theorem rollbackEntry_eq_none {info total : TransactionKeyMapInfo} :
    rollbackEntry info (some total) = none ↔
      total.num_reads = info.num_reads ∧ total.num_writes = info.num_writes := by
  simp only [rollbackEntry]
  split
  · rename_i h; exact iff_of_true rfl ⟨sub_eq_zero.mp h.1, sub_eq_zero.mp h.2⟩
  · rename_i h
    exact iff_of_false (by simp) fun h' => h ⟨sub_eq_zero.mpr h'.1, sub_eq_zero.mpr h'.2⟩

/-- a record that stays keeps its lock mode -/
theorem rollbackEntry_exclusive {info : TransactionKeyMapInfo} {o : Option TransactionKeyMapInfo}
    {total : TransactionKeyMapInfo} (h : rollbackEntry info o = some total) :
    ∃ old, o = some old ∧ total.exclusive = old.exclusive ∧ total.seq = old.seq := by
  cases o with
  | none => cases h
  | some old =>
    simp only [rollbackEntry] at h
    split at h
    · cases h
    · cases h; exact ⟨old, rfl, rfl, rfl⟩

section UndoRead

variable {m m' : TransactionKeyMap} {cf : UInt32} {key : List UInt8} {b : Bool}

/-- what `undoRead` does where it takes a read back -/
theorem undoRead_eq_some (h : m.undoRead cf key = some (m', b)) :
    ∃ info, m.find cf key = some info ∧ 0 < info.num_reads ∧
      (b = true ↔ undoReadEntry info = none) ∧
      ∀ c k, m'.find c k = if c = cf ∧ k = key then undoReadEntry info else m.find c k := by
  unfold TransactionKeyMap.undoRead at h
  cases hf : m.find cf key with
  | none => simp [hf] at h
  | some info =>
    rw [hf] at h
    dsimp only at h
    split at h
    · rename_i hpos
      refine ⟨info, rfl, hpos, ?_⟩
      split at h
      · rename_i hz
        obtain ⟨rfl, rfl⟩ := Prod.mk.inj (Option.some.inj h)
        refine ⟨iff_of_true rfl (if_pos hz), fun c k => ?_⟩
        rw [find_eraseKey, undoReadEntry, if_pos hz]
      · rename_i hz
        obtain ⟨rfl, rfl⟩ := Prod.mk.inj (Option.some.inj h)
        refine ⟨iff_of_false (by simp) (by simp [undoReadEntry, hz]), fun c k => ?_⟩
        rw [find_setKey, undoReadEntry, if_neg hz]
    · cases h

theorem undoRead_eq_none (h : m.undoRead cf key = none) :
    ∀ info, m.find cf key = some info → info.num_reads = 0 := by
  intro info hf
  unfold TransactionKeyMap.undoRead at h
  rw [hf] at h
  dsimp only at h
  split at h
  · split at h <;> cases h
  · exact (count_eq_zero_or_pos _).resolve_right ‹_›

theorem mem_undoRead (h : m.undoRead cf key = some (m', b)) (c : UInt32) :
    c ∈ m' → c = cf ∨ c ∈ m := by
  unfold TransactionKeyMap.undoRead at h
  split at h
  · dsimp only at h
    split at h
    · split at h
      · obtain ⟨rfl, -⟩ := Prod.mk.inj (Option.some.inj h)
        exact (mem_eraseKey m cf key c).mp
      · obtain ⟨rfl, -⟩ := Prod.mk.inj (Option.some.inj h)
        exact (mem_setKey m cf key _ c).mp
    · cases h
  · cases h

theorem numReads_undoReadEntry {info : TransactionKeyMapInfo} (hpos : 0 < info.num_reads) :
    ((undoReadEntry info).map (·.num_reads.toNat)).getD 0 = info.num_reads.toNat - 1 := by
  unfold undoReadEntry
  split
  · rename_i h; rw [← toNat_sub_one_of_pos hpos, h.1]; rfl
  · exact toNat_sub_one_of_pos hpos

theorem numWrites_undoReadEntry {info : TransactionKeyMapInfo} :
    ((undoReadEntry info).map (·.num_writes.toNat)).getD 0 = info.num_writes.toNat := by
  unfold undoReadEntry
  split
  · rename_i h; simp [h.2]
  · rfl

/-- a record that stays keeps its lock mode and sequence number -/
theorem undoReadEntry_eq_some {info i : TransactionKeyMapInfo} (h : undoReadEntry info = some i) :
    i.exclusive = info.exclusive ∧ i.seq = info.seq := by
  unfold undoReadEntry at h
  split at h
  · cases h
  · rw [Option.some.injEq] at h
    subst h
    exact ⟨rfl, rfl⟩

/-- `undoRead` takes one read off the key and changes no other count -/
theorem numReads_undoRead (h : m.undoRead cf key = some (m', b)) (c k) :
    m'.numReads c k = m.numReads c k - if c = cf ∧ k = key then 1 else 0 := by
  obtain ⟨info, hf, hpos, -, hfind⟩ := undoRead_eq_some h
  unfold numReads
  rw [hfind]
  split
  · rename_i hck; rw [hck.1, hck.2, hf, numReads_undoReadEntry hpos]; rfl
  · simp

theorem numWrites_undoRead (h : m.undoRead cf key = some (m', b)) (c k) :
    m'.numWrites c k = m.numWrites c k := by
  obtain ⟨info, hf, -, -, hfind⟩ := undoRead_eq_some h
  unfold numWrites
  rw [hfind]
  split
  · rename_i hck; rw [hck.1, hck.2, hf, numWrites_undoReadEntry]; rfl
  · rfl

end UndoRead

/-! ## The tracked keys after each operation -/

namespace TransactionBaseImpl

variable {txn : TransactionBaseImpl}

@[simp] theorem TrackKey_tracked_keys_ (txn : TransactionBaseImpl) (cf key seq read_only exclusive) :
    (txn.TrackKey cf key seq read_only exclusive).tracked_keys_ =
      txn.tracked_keys_.TrackKey cf key seq read_only exclusive := rfl

@[simp] theorem TrackKey_snapshot_ (txn : TransactionBaseImpl) (cf key seq read_only exclusive) :
    (txn.TrackKey cf key seq read_only exclusive).snapshot_ = txn.snapshot_ := rfl

@[simp] theorem SetSavePoint_tracked_keys_ (txn : TransactionBaseImpl) :
    txn.SetSavePoint.tracked_keys_ = txn.tracked_keys_ := rfl

@[simp] theorem SetSavePoint_snapshot_ (txn : TransactionBaseImpl) :
    txn.SetSavePoint.snapshot_ = txn.snapshot_ := rfl

/-- the save points after `TrackKey`: the top one tracks the key as well -/
theorem mem_TrackKey_save_points_ {sp : SavePoint} (cf key seq read_only exclusive)
    (h : sp ∈ (txn.TrackKey cf key seq read_only exclusive).save_points_) :
    sp ∈ txn.save_points_ ∨ ∃ sp₀ ∈ txn.save_points_, sp.snapshot_ = sp₀.snapshot_ ∧
      sp.new_keys_ = sp₀.new_keys_.TrackKey cf key seq read_only exclusive := by
  unfold TrackKey at h
  revert h
  cases txn.save_points_ with
  | nil => simp
  | cons sp₀ rest =>
    intro h
    rcases List.mem_cons.mp h with rfl | h
    · exact .inr ⟨sp₀, List.mem_cons_self, rfl, rfl⟩
    · exact .inl (List.mem_cons_of_mem _ h)

/-- the keys since the save point: those of the save point whose every read and write the tracked
keys count came since -/
theorem find_GetTrackedKeysSinceSavePoint {sp : SavePoint} {rest : List SavePoint}
    (h : txn.save_points_ = sp :: rest) (c : UInt32) (k : List UInt8) :
    ∃ since, txn.GetTrackedKeysSinceSavePoint = some since ∧
      (since.find c k).isSome =
        match sp.new_keys_.find c k with
        | some i => allSince txn.tracked_keys_ (c, k, i)
        | none => false := by
  refine ⟨_, by rw [GetTrackedKeysSinceSavePoint, h], ?_⟩
  have hstep : ∀ (r : TransactionKeyMap) (e : UInt32 × List UInt8 × TransactionKeyMapInfo)
      (x : UInt32 × List UInt8),
      ((if allSince txn.tracked_keys_ e then
        r.TrackKey e.1 e.2.1 e.2.2.seq (e.2.2.num_writes == 0) e.2.2.exclusive else r).find
          x.1 x.2).isSome =
        if (e.1, e.2.1) = x then (allSince txn.tracked_keys_ e || (r.find x.1 x.2).isSome)
        else (r.find x.1 x.2).isSome := by
    rintro r ⟨c', k', i⟩ ⟨c, k⟩
    split
    · rename_i hs
      rw [find_TrackKey]
      by_cases hx : c = c' ∧ k = k'
      · obtain ⟨rfl, rfl⟩ := hx; simp [hs]
      · have hx' : (c', k') ≠ (c, k) := fun he => hx ⟨(Prod.mk.inj he).1.symm, (Prod.mk.inj he).2.symm⟩
        simp [hx, hx']
    · rename_i hs
      simp only [Bool.not_eq_true] at hs
      split <;> simp [hs]
  have := view_foldl_toList (fun r x => (TransactionKeyMap.find r x.1 x.2).isSome)
    (fun e v => allSince txn.tracked_keys_ e || v) _ hstep sp.new_keys_ ∅ c k
  rw [this]
  cases sp.new_keys_.find c k <;> simp

/-- the column families of the keys since the save point are tracked ones -/
theorem mem_GetTrackedKeysSinceSavePoint {since : TransactionKeyMap}
    (h : txn.GetTrackedKeysSinceSavePoint = some since) {c : UInt32} (hc : c ∈ since) :
    c ∈ txn.tracked_keys_ := by
  unfold GetTrackedKeysSinceSavePoint at h
  split at h
  · cases h
  · rename_i sp rest _
    rw [Option.some.injEq] at h
    subst h
    revert hc
    -- the loop adds the column families of tracked keys only
    refine List.foldlRecOn (motive := fun r : TransactionKeyMap => c ∈ r → c ∈ txn.tracked_keys_)
      _ _ (fun hc => absurd hc (by simp)) ?_
    rintro r ih ⟨c', k', i⟩ -
    dsimp only
    split
    · rename_i hs
      intro hc
      rcases (mem_TrackKey r c' k' _ _ _ c).mp hc with rfl | hc
      · unfold allSince at hs
        split at hs
        · exact mem_of_find_eq_some ‹_›
        · cases hs
      · exact ih hc
    · exact ih

/-- the tracked keys after `RollbackToSavePoint`: each key of the save point by `rollbackEntry` -/
theorem find_RollbackToSavePoint {sp : SavePoint} {rest : List SavePoint}
    (h : txn.save_points_ = sp :: rest) (c : UInt32) (k : List UInt8) :
    txn.RollbackToSavePoint.2.tracked_keys_.find c k =
      match sp.new_keys_.find c k with
      | some i => rollbackEntry i (txn.tracked_keys_.find c k)
      | none => txn.tracked_keys_.find c k := by
  let view := fun (t : TransactionKeyMap) (x : UInt32 × List UInt8) => t.find x.1 x.2
  have hstep : ∀ t (e : UInt32 × List UInt8 × TransactionKeyMapInfo) (x : UInt32 × List UInt8),
      view (rollbackKey t e.1 e.2.1 e.2.2) x =
        if (e.1, e.2.1) = x then rollbackEntry e.2.2 (view t x) else view t x := by
    rintro t ⟨cf, key, info⟩ ⟨c, k⟩
    simp only [view, find_rollbackKey, Prod.mk.injEq]
    by_cases hx : c = cf ∧ k = key
    · obtain ⟨rfl, rfl⟩ := hx
      simp
    · rw [if_neg hx, if_neg fun h => hx ⟨h.1.symm, h.2.symm⟩]
  have hview : ∀ t t' cf key info, view t = view t' →
      view (rollbackKey t cf key info) = view (rollbackKey t' cf key info) := by
    intro t t' cf key info he
    funext x
    have hx : ∀ c k, t.find c k = t'.find c k := fun c k => congrFun he (c, k)
    simp only [view, find_rollbackKey, hx]
  -- the nested loops with `tracked_keys_[cf]` view as one loop over the save point's records
  have hflat : view txn.RollbackToSavePoint.2.tracked_keys_ =
      view (sp.new_keys_.toList.foldl (fun t e => rollbackKey t e.1 e.2.1 e.2.2)
        txn.tracked_keys_) := by
    rw [RollbackToSavePoint, h, toList, List.foldl_flatMap]
    simp only [List.foldl_map]
    refine List.view_foldl_congr view view _ _ (fun s s' e he => ?_) _ rfl
    refine List.view_foldl_congr view view
      (fun t (k : Σ _ : List UInt8, TransactionKeyMapInfo) => rollbackKey t e.1 k.1 k.2)
      (fun t (k : Σ _ : List UInt8, TransactionKeyMapInfo) => rollbackKey t e.1 k.1 k.2)
      (fun s s' a he => hview _ _ _ _ _ he) _ ?_
    funext x
    simp only [view, find_ensureCf]
    exact congrFun he x
  calc txn.RollbackToSavePoint.2.tracked_keys_.find c k
      = view txn.RollbackToSavePoint.2.tracked_keys_ (c, k) := rfl
    _ = view (sp.new_keys_.toList.foldl (fun t e => rollbackKey t e.1 e.2.1 e.2.2)
          txn.tracked_keys_) (c, k) := congrFun hflat (c, k)
    _ = _ := view_foldl_toList view (fun e o => rollbackEntry e.2.2 o) _ hstep sp.new_keys_
          txn.tracked_keys_ c k
    _ = _ := by cases sp.new_keys_.find c k <;> rfl

/-- the column families of the tracked keys after `RollbackToSavePoint` -/
theorem mem_RollbackToSavePoint {sp : SavePoint} {rest : List SavePoint}
    (h : txn.save_points_ = sp :: rest) {c : UInt32}
    (hc : c ∈ txn.RollbackToSavePoint.2.tracked_keys_) :
    c ∈ txn.tracked_keys_ ∨ c ∈ sp.new_keys_ := by
  rw [RollbackToSavePoint, h] at hc
  revert hc
  refine List.foldlRecOn (motive := fun t : TransactionKeyMap =>
      c ∈ t → c ∈ txn.tracked_keys_ ∨ c ∈ sp.new_keys_) _ _ .inl ?_
  rintro t ih e he
  refine List.foldlRecOn (motive := fun t' : TransactionKeyMap =>
      c ∈ t' → c ∈ txn.tracked_keys_ ∨ c ∈ sp.new_keys_) _ _ ?_ ?_
  · intro hc
    rcases (mem_ensureCf t e.1 c).mp hc with rfl | hc
    · exact .inr (AList.mem_keys.mpr (List.mem_map_of_mem he))
    · exact ih hc
  · intro t' ih' k _ hc
    rcases mem_rollbackKey hc with rfl | hc
    · exact .inr (AList.mem_keys.mpr (List.mem_map_of_mem he))
    · exact ih' hc

/-- a record left after `RollbackToSavePoint` is an old one, with its lock mode and sequence
number -/
theorem find_RollbackToSavePoint_eq_some {sp : SavePoint} {rest : List SavePoint}
    (h : txn.save_points_ = sp :: rest) {c : UInt32} {k : List UInt8} {x : TransactionKeyMapInfo}
    (hx : txn.RollbackToSavePoint.2.tracked_keys_.find c k = some x) :
    ∃ old, txn.tracked_keys_.find c k = some old ∧ x.exclusive = old.exclusive ∧
      x.seq = old.seq := by
  rw [find_RollbackToSavePoint h] at hx
  split at hx
  · exact rollbackEntry_exclusive hx
  · exact ⟨x, hx, rfl, rfl⟩

section Counter

/-! What the rollback does to a counter `field` that `rollbackEntry` takes the count since the save
point off (`hsub`), and that is 0 where the record goes (`hzero`). -/

variable (field : TransactionKeyMapInfo → UInt32)
  (hsub : ∀ info total : TransactionKeyMapInfo, field { total with
    num_reads := total.num_reads - info.num_reads,
    num_writes := total.num_writes - info.num_writes } = field total - field info)
  (hzero : ∀ info total : TransactionKeyMapInfo,
    total.num_reads - info.num_reads = 0 ∧ total.num_writes - info.num_writes = 0 →
      field total - field info = 0)
include hsub hzero

/-- the count of the record `rollbackEntry` leaves, where the total is at least the count since
the save point -/
theorem countOf_rollbackEntry (info : TransactionKeyMapInfo) (o : Option TransactionKeyMapInfo)
    (hle : (field info).toNat ≤ (o.map fun i => (field i).toNat).getD 0) :
    ((rollbackEntry info o).map fun i => (field i).toNat).getD 0 =
      (o.map fun i => (field i).toNat).getD 0 - (field info).toNat := by
  cases o with
  | none => simp [rollbackEntry]
  | some total =>
    simp only [Option.map_some, Option.getD_some] at hle ⊢
    simp only [rollbackEntry]
    split
    · -- the record goes because both counts come off whole
      rename_i h
      simp [sub_eq_zero.mp (hzero info total h)]
    · simp only [Option.map_some, Option.getD_some, hsub]
      exact UInt32.toNat_sub_of_le _ _ (UInt32.le_iff_toNat_le.mpr hle)

/-- the counts after `RollbackToSavePoint`: those since the save point come off, where they are
among the totals -/
theorem countOf_RollbackToSavePoint {sp : SavePoint} {rest : List SavePoint}
    (h : txn.save_points_ = sp :: rest) {c : UInt32} {k : List UInt8}
    (hle : countOf field sp.new_keys_ c k ≤ countOf field txn.tracked_keys_ c k) :
    countOf field txn.RollbackToSavePoint.2.tracked_keys_ c k =
      countOf field txn.tracked_keys_ c k - countOf field sp.new_keys_ c k := by
  unfold countOf at hle ⊢
  rw [find_RollbackToSavePoint h]
  cases hi : sp.new_keys_.find c k with
  | some i =>
    rw [hi] at hle
    exact countOf_rollbackEntry field hsub hzero i _ hle
  | none => rfl

end Counter

theorem numReads_RollbackToSavePoint {sp : SavePoint} {rest : List SavePoint}
    (h : txn.save_points_ = sp :: rest) {c : UInt32} {k : List UInt8}
    (hle : numReads sp.new_keys_ c k ≤ numReads txn.tracked_keys_ c k) :
    numReads txn.RollbackToSavePoint.2.tracked_keys_ c k =
      numReads txn.tracked_keys_ c k - numReads sp.new_keys_ c k :=
  countOf_RollbackToSavePoint (·.num_reads) (fun _ _ => rfl) (fun _ _ hz => hz.1) h hle

theorem numWrites_RollbackToSavePoint {sp : SavePoint} {rest : List SavePoint}
    (h : txn.save_points_ = sp :: rest) {c : UInt32} {k : List UInt8}
    (hle : numWrites sp.new_keys_ c k ≤ numWrites txn.tracked_keys_ c k) :
    numWrites txn.RollbackToSavePoint.2.tracked_keys_ c k =
      numWrites txn.tracked_keys_ c k - numWrites sp.new_keys_ c k :=
  countOf_RollbackToSavePoint (·.num_writes) (fun _ _ => rfl) (fun _ _ hz => hz.2) h hle

theorem RollbackToSavePoint_eq {sp : SavePoint} {rest : List SavePoint}
    (h : txn.save_points_ = sp :: rest) :
    txn.RollbackToSavePoint.1 = .OK ∧ txn.RollbackToSavePoint.2.snapshot_ = sp.snapshot_ ∧
      txn.RollbackToSavePoint.2.save_points_ = rest := by
  simp [RollbackToSavePoint, h]

/-! ## Undoing a read -/

section Undo

variable (cf : UInt32) (key : List UInt8)

/-- the two ends of the save-point half under a save point -/
theorem undoSavePointRead_cons (sp : SavePoint) (rest : List SavePoint) :
    (∃ r, (sp.new_keys_.ensureCf cf).undoRead cf key = some r ∧
      undoSavePointRead cf key (sp :: rest) = ({ sp with new_keys_ := r.1 } :: rest, true)) ∨
    ((sp.new_keys_.ensureCf cf).undoRead cf key = none ∧
      undoSavePointRead cf key (sp :: rest) =
        ({ sp with new_keys_ := sp.new_keys_.ensureCf cf } :: rest, false)) := by
  simp only [undoSavePointRead]
  cases (sp.new_keys_.ensureCf cf).undoRead cf key with
  | some r => exact .inl ⟨r, rfl, rfl⟩
  | none => exact .inr ⟨rfl, rfl⟩

/-- the save points keep their snapshots -/
theorem undoSavePointRead_snapshots (sps : List SavePoint) :
    (undoSavePointRead cf key sps).1.map (·.snapshot_) = sps.map (·.snapshot_) := by
  cases sps with
  | nil => rfl
  | cons sp rest =>
    rcases undoSavePointRead_cons cf key sp rest with ⟨r, -, he⟩ | ⟨-, he⟩ <;> rw [he] <;> rfl

/-- the column families of the save points: one more at most -/
theorem mem_undoSavePointRead (sps : List SavePoint) {sp' : SavePoint}
    (h : sp' ∈ (undoSavePointRead cf key sps).1) {c : UInt32} (hc : c ∈ sp'.new_keys_) :
    c = cf ∨ ∃ sp ∈ sps, c ∈ sp.new_keys_ := by
  cases sps with
  | nil => cases h
  | cons sp rest =>
    have hsp : c ∈ (sp.new_keys_.ensureCf cf) → c = cf ∨ ∃ sp₀ ∈ sp :: rest, c ∈ sp₀.new_keys_ :=
      fun hc' => ((mem_ensureCf _ cf c).mp hc').imp_right fun hc' => ⟨sp, List.mem_cons_self, hc'⟩
    rcases undoSavePointRead_cons cf key sp rest with ⟨⟨nk, b⟩, hu, he⟩ | ⟨-, he⟩ <;>
      rw [he] at h <;> rcases List.mem_cons.mp h with rfl | h
    · rcases mem_undoRead hu c hc with rfl | hc
      · exact .inl rfl
      · exact hsp hc
    · exact .inr ⟨sp', List.mem_cons_of_mem _ h, hc⟩
    · exact hsp hc
    · exact .inr ⟨sp', List.mem_cons_of_mem _ h, hc⟩

/-- the three ends of `UndoGetForUpdate`: no read taken back from the tracked keys, or one taken
back, the key leaving them exactly when `UnlockGetForUpdate` is called -/
theorem UndoGetForUpdate_cases (txn : TransactionBaseImpl) :
    (txn.UndoGetForUpdate cf key =
      ({ txn with
          save_points_ := (undoSavePointRead cf key txn.save_points_).1
          tracked_keys_ := txn.tracked_keys_.ensureCf cf }, false) ∧
      ((undoSavePointRead cf key txn.save_points_).2 = true →
        (txn.tracked_keys_.ensureCf cf).undoRead cf key = none)) ∨
    ∃ t' unlock, (undoSavePointRead cf key txn.save_points_).2 = true ∧
      (txn.tracked_keys_.ensureCf cf).undoRead cf key = some (t', unlock) ∧
      txn.UndoGetForUpdate cf key =
        ({ txn with
            save_points_ := (undoSavePointRead cf key txn.save_points_).1
            tracked_keys_ := t' }, unlock) := by
  unfold UndoGetForUpdate
  dsimp only
  cases hd : (undoSavePointRead cf key txn.save_points_).2
  · exact .inl ⟨rfl, by simp⟩
  · cases hu : (txn.tracked_keys_.ensureCf cf).undoRead cf key with
    | none => exact .inl ⟨rfl, fun _ => rfl⟩
    | some r => exact .inr ⟨r.1, r.2, rfl, rfl, rfl⟩

end Undo

/-! ## The bookkeeping the operations keep -/

/-- every save point has the transaction's snapshot -/
structure Consistent (txn : TransactionBaseImpl) : Prop where
  snapshots : ∀ sp ∈ txn.save_points_, sp.snapshot_ = txn.snapshot_

theorem consistent_of_save_points_nil (h : txn.save_points_ = []) : txn.Consistent where
  snapshots := by simp [h]

theorem Consistent.trackKey (hc : txn.Consistent) (cf key seq read_only exclusive) :
    (txn.TrackKey cf key seq read_only exclusive).Consistent where
  snapshots := by
    intro sp hsp
    rcases mem_TrackKey_save_points_ cf key seq read_only exclusive hsp with hsp | ⟨sp₀, hsp₀, he, -⟩
    · exact hc.snapshots sp hsp
    · rw [he]; exact hc.snapshots sp₀ hsp₀

theorem Consistent.setSavePoint (hc : txn.Consistent) : txn.SetSavePoint.Consistent where
  snapshots := by
    intro sp hsp
    rcases List.mem_cons.mp hsp with rfl | hsp
    · rfl
    · exact hc.snapshots sp hsp

theorem Consistent.rollbackToSavePoint (hc : txn.Consistent) {sp : SavePoint}
    {rest : List SavePoint} (h : txn.save_points_ = sp :: rest) :
    txn.RollbackToSavePoint.2.Consistent where
  snapshots := by
    obtain ⟨-, hsnap, hrest⟩ := RollbackToSavePoint_eq h
    intro sp' hsp'
    rw [hrest] at hsp'
    rw [hsnap, hc.snapshots sp (by simp [h])]
    exact hc.snapshots sp' (by simp [h, hsp'])

theorem Consistent.undoGetForUpdate (hc : txn.Consistent) (cf : UInt32) (key : List UInt8) :
    (txn.UndoGetForUpdate cf key).1.Consistent where
  snapshots := by
    -- both ends keep the snapshot and leave the save points of the save-point half
    have hends : (txn.UndoGetForUpdate cf key).1.save_points_ =
        (undoSavePointRead cf key txn.save_points_).1 ∧
        (txn.UndoGetForUpdate cf key).1.snapshot_ = txn.snapshot_ := by
      rcases UndoGetForUpdate_cases cf key txn with ⟨he, -⟩ | ⟨t', unlock, -, -, he⟩ <;>
        rw [he] <;> exact ⟨rfl, rfl⟩
    intro sp hsp
    rw [hends.1] at hsp
    rw [hends.2]
    have : sp.snapshot_ ∈ txn.save_points_.map (·.snapshot_) := by
      rw [← undoSavePointRead_snapshots cf key]; exact List.mem_map_of_mem hsp
    obtain ⟨sp₀, hsp₀, he⟩ := List.mem_map.mp this
    rw [← he]; exact hc.snapshots sp₀ hsp₀

/-- `RollbackToSavePoint` drops exactly the keys `GetTrackedKeysSinceSavePoint` lists, and every
other key keeps its lock mode -/
theorem exclusive_RollbackToSavePoint {sp : SavePoint} {rest : List SavePoint}
    (h : txn.save_points_ = sp :: rest) {since : TransactionKeyMap}
    (hsince : txn.GetTrackedKeysSinceSavePoint = some since) (c : UInt32) (k : List UInt8) :
    (txn.RollbackToSavePoint.2.tracked_keys_.find c k).map (·.exclusive) =
      if (since.find c k).isSome then none else (txn.tracked_keys_.find c k).map (·.exclusive) := by
  obtain ⟨since', hsince', hs⟩ := find_GetTrackedKeysSinceSavePoint h c k
  rw [hsince, Option.some.injEq] at hsince'
  subst hsince'
  rw [hs, find_RollbackToSavePoint h]
  cases hsp : sp.new_keys_.find c k with
  | none => rfl
  | some i =>
    dsimp only
    cases ht : txn.tracked_keys_.find c k with
    | none => simp [allSince, ht, rollbackEntry]
    | some total =>
      -- the key goes exactly when its totals are the counts since the save point
      have hall : allSince txn.tracked_keys_ (c, k, i) = true ↔
          rollbackEntry i (some total) = none := by
        rw [rollbackEntry_eq_none]
        simp [allSince, ht]
      by_cases he : rollbackEntry i (some total) = none
      · rw [he, if_pos (hall.mpr he)]
        rfl
      · obtain ⟨x, hx⟩ := Option.ne_none_iff_exists'.mp he
        obtain ⟨old, hold, hex, -⟩ := rollbackEntry_exclusive hx
        rw [Option.some.injEq] at hold
        subst hold
        rw [hx, if_neg fun h' => he (hall.mp h'), Option.map_some, Option.map_some, hex]

end TransactionBaseImpl

end RocksDB
