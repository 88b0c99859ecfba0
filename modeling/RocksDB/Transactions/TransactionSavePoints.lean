import RocksDB.Transactions.TransactionBase

/-!
# utilities/transactions/transaction_base.cc: the save points of a transaction

A caller tracks keys, counts writes, takes reads back and sets and rolls back save points
(`TxnCall`) on a transaction that begins with no key, no count and no save point
(`TransactionBaseImpl.new`); `runTracked` keeps beside it the transactions at the save points
the calls left open, innermost first (`openSavePoints`).

* `Positive`          every tracked key counts a read or a write; every call keeps it, so a key is
                      tracked exactly when it counts one (`Positive.isSome_find`);
* `SavedAt t sp h`    the save point `sp` was set on `h`: it holds `h`'s snapshot and write counts,
                      and the counts of the tracked keys `t` are those of `h` plus those of `sp`;
* `Restorable txn hist`  each open save point was set on the transaction of `hist` under it, and
                      the save points below it are those that transaction had;
* `Tracks`            the two together: every call keeps them while the counts of the key it
                      tracks stay below `2^32` (`Tracks.apply`), so every run does in which no key
                      is tracked `2^32` times (`Tracks.runTracked`), and
                      `save_points_restore_tracked_keys` reads the rollback off them.

The counts are `uint32_t`: `rollback_drops_key_after_wrapped_reads` reads a key `2^32` times
before a save point, which wraps its count to 0, and the rollback after one more read drops the
key although it was tracked when the save point was set.
-/

namespace RocksDB

open TransactionKeyMap

namespace TransactionBaseImpl

/-- a transaction as it begins, with the snapshot it was given -/
def new (snapshot : Option Nat) : TransactionBaseImpl := ⟨snapshot, [], ∅, 0, 0, 0⟩

/-! ## Keys that count a read or a write -/

/-- every tracked key counts a read or a write -/
def Positive (t : TransactionKeyMap) : Prop :=
  ∀ c k info, t.find c k = some info → 0 < info.num_reads.toNat + info.num_writes.toNat

theorem Positive.isSome_find {t : TransactionKeyMap} (ht : Positive t) (c : UInt32)
    (k : List UInt8) : (t.find c k).isSome ↔ 0 < numReads t c k + numWrites t c k := by
  unfold numReads numWrites
  cases hf : t.find c k with
  | none => simp
  | some info => simpa using ht c k info hf

theorem positive_empty : Positive ∅ := by
  intro c k info h
  simp at h

theorem positive_ensureCf {t : TransactionKeyMap} (ht : Positive t) (cf : UInt32) :
    Positive (t.ensureCf cf) := by
  intro c k info h
  rw [find_ensureCf] at h
  exact ht c k info h

/-- two `uint32_t` counts that are not both 0 count something -/
theorem count_pos_of_ne_zero {a b : UInt32} (h : ¬(a = 0 ∧ b = 0)) : 0 < a.toNat + b.toNat := by
  simp only [UInt32.ext_iff, UInt32.toNat_zero] at h
  omega

theorem numReads_of_find {t : TransactionKeyMap} {c k info} (h : t.find c k = some info) :
    numReads t c k = info.num_reads.toNat := by
  simp [numReads, h]

theorem numWrites_of_find {t : TransactionKeyMap} {c k info} (h : t.find c k = some info) :
    numWrites t c k = info.num_writes.toNat := by
  simp [numWrites, h]

/-- a tracked key counts its new read or write, where its counts stay below `2^32` -/
theorem positive_TrackKey {t : TransactionKeyMap} (ht : Positive t) (cf key seq read_only exclusive)
    (hb : numReads t cf key + numWrites t cf key + 1 < 2 ^ 32) :
    Positive (t.TrackKey cf key seq read_only exclusive) := by
  intro c k info h
  have hr := numReads_TrackKey_of_lt t cf key seq read_only exclusive (by omega) c k
  have hw := numWrites_TrackKey_of_lt t cf key seq read_only exclusive (by omega) c k
  rw [numReads_of_find h] at hr
  rw [numWrites_of_find h] at hw
  rw [find_TrackKey] at h
  split at h
  · rename_i hck
    rw [hr, hw]
    cases read_only <;> simp [hck]
  · exact ht c k info h

theorem positive_undoRead {t t' : TransactionKeyMap} {cf : UInt32} {key : List UInt8} {b : Bool}
    (ht : Positive t) (h : t.undoRead cf key = some (t', b)) : Positive t' := by
  obtain ⟨i, -, -, -, hfind⟩ := undoRead_eq_some h
  intro c k info hf
  rw [hfind] at hf
  split at hf
  · unfold undoReadEntry at hf
    split at hf
    · cases hf
    · -- the record stays because its counts are not both 0
      rename_i hz
      rw [Option.some.injEq] at hf
      subst hf
      exact count_pos_of_ne_zero hz
  · exact ht c k info hf

theorem positive_rollbackEntry {i total x : TransactionKeyMapInfo}
    (h : rollbackEntry i (some total) = some x) : 0 < x.num_reads.toNat + x.num_writes.toNat := by
  simp only [rollbackEntry] at h
  split at h
  · cases h
  · rename_i hz
    rw [Option.some.injEq] at h
    subst h
    exact count_pos_of_ne_zero hz

theorem positive_RollbackToSavePoint {txn : TransactionBaseImpl} (ht : Positive txn.tracked_keys_) :
    Positive txn.RollbackToSavePoint.2.tracked_keys_ := by
  cases hsp : txn.save_points_ with
  | nil => simpa [RollbackToSavePoint, hsp] using ht
  | cons sp rest =>
    intro c k info hf
    rw [find_RollbackToSavePoint hsp] at hf
    split at hf
    · cases ho : txn.tracked_keys_.find c k with
      | none => rw [ho] at hf; cases hf
      | some total => rw [ho] at hf; exact positive_rollbackEntry hf
    · exact ht c k info hf

/-! ## Save points set on earlier transactions -/

/-- the save point `sp` was set on `h`, and `t` counts what `h` counted and what `sp` counts -/
structure SavedAt (t : TransactionKeyMap) (sp : SavePoint) (h : TransactionBaseImpl) : Prop where
  snapshot : sp.snapshot_ = h.snapshot_
  puts : sp.num_puts_ = h.num_puts_
  deletes : sp.num_deletes_ = h.num_deletes_
  merges : sp.num_merges_ = h.num_merges_
  reads : ∀ c k, numReads t c k = numReads sp.new_keys_ c k + numReads h.tracked_keys_ c k
  writes : ∀ c k, numWrites t c k = numWrites sp.new_keys_ c k + numWrites h.tracked_keys_ c k

/-- each open save point was set on the transaction of `hist` under it, on top of that
transaction's save points -/
def Restorable : TransactionBaseImpl → List TransactionBaseImpl → Prop
  | txn, [] => txn.save_points_ = []
  | txn, h :: hist => (∃ sp, txn.save_points_ = sp :: h.save_points_ ∧ SavedAt txn.tracked_keys_ sp h) ∧
      Positive h.tracked_keys_ ∧ Restorable h hist

/-- `Restorable` reads the save points and the counts of the top transaction only -/
theorem Restorable.congr {txn txn' : TransactionBaseImpl} {hist : List TransactionBaseImpl}
    (hs : txn'.save_points_ = txn.save_points_)
    (hr : ∀ c k, numReads txn'.tracked_keys_ c k = numReads txn.tracked_keys_ c k)
    (hw : ∀ c k, numWrites txn'.tracked_keys_ c k = numWrites txn.tracked_keys_ c k) :
    Restorable txn hist → Restorable txn' hist := by
  cases hist with
  | nil => intro h; exact hs.trans h
  | cons h t =>
    rintro ⟨⟨sp, hsp, hsa⟩, hpos, hrest⟩
    refine ⟨⟨sp, hs.trans hsp,
      ⟨hsa.snapshot, hsa.puts, hsa.deletes, hsa.merges, fun c k => ?_, fun c k => ?_⟩⟩, hpos, hrest⟩
    · rw [hr]; exact hsa.reads c k
    · rw [hw]; exact hsa.writes c k

/-- the counts of a key: those of the transaction the outermost open save point was set on,
plus those the save points count -/
theorem Restorable.counts {txn : TransactionBaseImpl} {hist : List TransactionBaseImpl}
    (h : Restorable txn hist) (c : UInt32) (k : List UInt8) :
    numReads txn.tracked_keys_ c k = numReads (hist.getLast?.getD txn).tracked_keys_ c k +
        txn.savedReads c k ∧
      numWrites txn.tracked_keys_ c k = numWrites (hist.getLast?.getD txn).tracked_keys_ c k +
        txn.savedWrites c k := by
  induction hist generalizing txn with
  | nil =>
    have hnil : txn.save_points_ = [] := h
    simp [savedReads, savedWrites, hnil]
  | cons g t ih =>
    obtain ⟨⟨sp, hsp, hsa⟩, -, hrest⟩ := h
    obtain ⟨ihr, ihw⟩ := ih hrest
    have hlast : (g :: t).getLast?.getD txn = t.getLast?.getD g := by
      cases t with
      | nil => rfl
      | cons _ _ => simp [List.getLast?_cons]
    simp only [savedReads, savedWrites, hsp, List.map_cons, List.sum_cons] at ihr ihw ⊢
    rw [hlast, hsa.reads, hsa.writes, ihr, ihw]
    constructor <;> omega

/-! ## Calls -/

/-- what a caller does to the keys, the write counts and the save points of a transaction -/
inductive TxnCall where
  | TrackKey (cf : UInt32) (key : List UInt8) (seq : Nat) (read_only exclusive : Bool)
  | countWrite (w : WriteCount)
  | UndoGetForUpdate (cf : UInt32) (key : List UInt8)
  | SetSavePoint
  | RollbackToSavePoint

namespace TxnCall

def apply (txn : TransactionBaseImpl) : TxnCall → TransactionBaseImpl
  | TrackKey cf key seq read_only exclusive => txn.TrackKey cf key seq read_only exclusive
  | countWrite w => txn.countWrite w
  | UndoGetForUpdate cf key => (txn.UndoGetForUpdate cf key).1
  | SetSavePoint => txn.SetSavePoint
  | RollbackToSavePoint => txn.RollbackToSavePoint.2

/-- the transactions at the open save points after the call, innermost first -/
def track (txn : TransactionBaseImpl) (hist : List TransactionBaseImpl) :
    TxnCall → List TransactionBaseImpl
  | SetSavePoint => txn :: hist
  | RollbackToSavePoint => hist.tail
  | _ => hist

/-- whether the call is a `TrackKey` of the key `k` of column family `c` -/
def tracks (c : UInt32) (k : List UInt8) : TxnCall → Bool
  | TrackKey cf key _ _ _ => decide (c = cf ∧ k = key)
  | _ => false

end TxnCall

/-- the transaction after a run of calls -/
def runCalls (txn : TransactionBaseImpl) (calls : List TxnCall) : TransactionBaseImpl :=
  calls.foldl TxnCall.apply txn

/-- a run of calls with the transactions at the save points it leaves open -/
def runTracked :
    TransactionBaseImpl × List TransactionBaseImpl → List TxnCall →
      TransactionBaseImpl × List TransactionBaseImpl
  | st, [] => st
  | (txn, hist), c :: calls => runTracked (c.apply txn, c.track txn hist) calls

/-- the transactions at the `SetSavePoint` calls of a run that it leaves open, innermost first -/
def openSavePoints (txn : TransactionBaseImpl) (calls : List TxnCall) : List TransactionBaseImpl :=
  (runTracked (txn, []) calls).2

theorem runTracked_fst (calls : List TxnCall) :
    ∀ (txn : TransactionBaseImpl) (hist : List TransactionBaseImpl),
      (runTracked (txn, hist) calls).1 = runCalls txn calls := by
  induction calls with
  | nil => intro txn hist; rfl
  | cons c calls ih =>
    intro txn hist
    rw [runTracked, ih]
    rfl

theorem runCalls_append (txn : TransactionBaseImpl) (calls calls' : List TxnCall) :
    runCalls txn (calls ++ calls') = runCalls (runCalls txn calls) calls' :=
  List.foldl_append

/-! ## One call -/

section Steps

variable {txn : TransactionBaseImpl} {hist : List TransactionBaseImpl}

/-- what every call keeps: the tracked keys count what they hold, and the open save points can be
rolled back to the transactions they were set on -/
structure Tracks (txn : TransactionBaseImpl) (hist : List TransactionBaseImpl) : Prop where
  positive : Positive txn.tracked_keys_
  restorable : Restorable txn hist

theorem tracks_new (snapshot : Option Nat) : Tracks (new snapshot) [] :=
  ⟨positive_empty, rfl⟩

theorem numReads_pos_of_undoRead {m m' : TransactionKeyMap} {cf : UInt32} {key : List UInt8}
    {b : Bool} (h : m.undoRead cf key = some (m', b)) : 0 < numReads m cf key := by
  obtain ⟨info, hf, hpos, -, -⟩ := undoRead_eq_some h
  simpa [numReads, hf, UInt32.lt_iff_toNat_lt] using hpos

theorem numReads_eq_zero_of_undoRead {m : TransactionKeyMap} {cf : UInt32} {key : List UInt8}
    (h : m.undoRead cf key = none) : numReads m cf key = 0 := by
  unfold numReads
  cases hf : m.find cf key with
  | none => rfl
  | some info => simp [undoRead_eq_none h info hf]

theorem TrackKey_save_points_cons {sp : SavePoint} {rest : List SavePoint}
    (h : txn.save_points_ = sp :: rest) (cf key seq read_only exclusive) :
    (txn.TrackKey cf key seq read_only exclusive).save_points_ =
      { sp with new_keys_ := sp.new_keys_.TrackKey cf key seq read_only exclusive } :: rest := by
  simp [TrackKey, h]

theorem TrackKey_save_points_nil (h : txn.save_points_ = []) (cf key seq read_only exclusive) :
    (txn.TrackKey cf key seq read_only exclusive).save_points_ = [] := by
  simp [TrackKey, h]

@[simp] theorem countWrite_save_points_ (txn : TransactionBaseImpl) (w : WriteCount) :
    (txn.countWrite w).save_points_ = txn.save_points_ := by
  cases w <;> rfl

@[simp] theorem countWrite_tracked_keys_ (txn : TransactionBaseImpl) (w : WriteCount) :
    (txn.countWrite w).tracked_keys_ = txn.tracked_keys_ := by
  cases w <;> rfl

theorem RollbackToSavePoint_of_nil (h : txn.save_points_ = []) :
    txn.RollbackToSavePoint = (.NotFound, txn) := by
  simp [RollbackToSavePoint, h]

/-! ### The top save point beside the tracked keys -/

section SavedAt

variable {t : TransactionKeyMap} {sp : SavePoint} {h : TransactionBaseImpl}

/-- a key counted in the tracked keys and the top save point, the counts staying below `2^32` -/
theorem SavedAt.trackKey (hsa : SavedAt t sp h) (cf key seq read_only exclusive)
    (hb : numReads t cf key + numWrites t cf key + 1 < 2 ^ 32) :
    SavedAt (t.TrackKey cf key seq read_only exclusive)
      { sp with new_keys_ := sp.new_keys_.TrackKey cf key seq read_only exclusive } h where
  snapshot := hsa.snapshot
  puts := hsa.puts
  deletes := hsa.deletes
  merges := hsa.merges
  reads := countOf_TrackKey_of_split (·.num_reads) t cf key seq read_only exclusive
    (TransactionKeyMapInfo.track_num_reads · seq read_only exclusive) hsa.reads
    (show numReads t cf key + 1 < 2 ^ 32 by omega)
  writes := countOf_TrackKey_of_split (·.num_writes) t cf key seq read_only exclusive
    (track_num_writes_ite · seq read_only exclusive) hsa.writes
    (show numWrites t cf key + 1 < 2 ^ 32 by omega)

theorem SavedAt.ensureCf (hsa : SavedAt t sp h) (cf : UInt32) :
    SavedAt (t.ensureCf cf) { sp with new_keys_ := sp.new_keys_.ensureCf cf } h where
  snapshot := hsa.snapshot
  puts := hsa.puts
  deletes := hsa.deletes
  merges := hsa.merges
  reads c k := by simpa using hsa.reads c k
  writes c k := by simpa using hsa.writes c k

/-- a read taken back both in the top save point and in the tracked keys -/
theorem SavedAt.undoRead {cf : UInt32} {key : List UInt8} {t' nk : TransactionKeyMap}
    {b b' : Bool} (hsa : SavedAt t sp h) (ht : (t.ensureCf cf).undoRead cf key = some (t', b))
    (hn : (sp.new_keys_.ensureCf cf).undoRead cf key = some (nk, b')) :
    SavedAt t' { sp with new_keys_ := nk } h where
  snapshot := hsa.snapshot
  puts := hsa.puts
  deletes := hsa.deletes
  merges := hsa.merges
  reads c k := by
    -- the save point has the read to give back
    have hle : (if c = cf ∧ k = key then 1 else 0) ≤ numReads sp.new_keys_ c k := by
      split
      · rename_i hck
        obtain ⟨rfl, rfl⟩ := hck
        have hpos := numReads_pos_of_undoRead hn
        rw [numReads_ensureCf] at hpos
        exact hpos
      · exact Nat.zero_le _
    rw [numReads_undoRead ht, numReads_undoRead hn, numReads_ensureCf, numReads_ensureCf,
      hsa.reads c k]
    omega
  writes c k := by
    rw [numWrites_undoRead ht, numWrites_undoRead hn, numWrites_ensureCf, numWrites_ensureCf]
    exact hsa.writes c k

theorem savedAt_SetSavePoint (txn : TransactionBaseImpl) :
    SavedAt txn.tracked_keys_ ⟨txn.snapshot_, txn.num_puts_, txn.num_deletes_, txn.num_merges_, ∅⟩
      txn where
  snapshot := rfl
  puts := rfl
  deletes := rfl
  merges := rfl
  reads c k := by simp
  writes c k := by simp

end SavedAt

/-! ### What the rollback gives back -/

section Rollback

variable {h : TransactionBaseImpl} {t : List TransactionBaseImpl}

/-- rolling back to the top save point gives the counts of the transaction it was set on -/
theorem Restorable.rollback_counts (hr : Restorable txn (h :: t)) (c : UInt32) (k : List UInt8) :
    numReads txn.RollbackToSavePoint.2.tracked_keys_ c k = numReads h.tracked_keys_ c k ∧
      numWrites txn.RollbackToSavePoint.2.tracked_keys_ c k = numWrites h.tracked_keys_ c k := by
  obtain ⟨⟨sp, hsp, hsa⟩, -, -⟩ := hr
  -- the counts since the save point are among the totals
  have hrd := hsa.reads c k
  have hwr := hsa.writes c k
  rw [numReads_RollbackToSavePoint hsp (by omega), numWrites_RollbackToSavePoint hsp (by omega),
    hrd, hwr]
  omega

/-- and its snapshot, write counts and save points -/
theorem Restorable.rollback_fields (hr : Restorable txn (h :: t)) :
    txn.RollbackToSavePoint.1 = .OK ∧ txn.RollbackToSavePoint.2.num_puts_ = h.num_puts_ ∧
      txn.RollbackToSavePoint.2.num_deletes_ = h.num_deletes_ ∧
      txn.RollbackToSavePoint.2.num_merges_ = h.num_merges_ ∧
      txn.RollbackToSavePoint.2.snapshot_ = h.snapshot_ ∧
      txn.RollbackToSavePoint.2.save_points_ = h.save_points_ := by
  obtain ⟨⟨sp, hsp, hsa⟩, -, -⟩ := hr
  simp [RollbackToSavePoint, hsp, hsa.puts, hsa.deletes, hsa.merges, hsa.snapshot]

end Rollback

/-! ### Each call -/

theorem Tracks.trackKey (hs : Tracks txn hist) (cf key seq read_only exclusive)
    (hb : numReads txn.tracked_keys_ cf key + numWrites txn.tracked_keys_ cf key + 1 < 2 ^ 32) :
    Tracks (txn.TrackKey cf key seq read_only exclusive) hist := by
  refine ⟨positive_TrackKey hs.positive cf key seq read_only exclusive hb, ?_⟩
  cases hist with
  | nil => exact TrackKey_save_points_nil hs.restorable cf key seq read_only exclusive
  | cons h t =>
    obtain ⟨⟨sp, hsp, hsa⟩, hpos, hrest⟩ := hs.restorable
    exact ⟨⟨_, TrackKey_save_points_cons hsp cf key seq read_only exclusive,
      hsa.trackKey cf key seq read_only exclusive hb⟩, hpos, hrest⟩

theorem Tracks.countWrite (hs : Tracks txn hist) (w : WriteCount) :
    Tracks (txn.countWrite w) hist where
  positive := by simpa using hs.positive
  restorable := hs.restorable.congr (countWrite_save_points_ txn w) (fun c k => by simp)
    (fun c k => by simp)

theorem Tracks.setSavePoint (hs : Tracks txn hist) : Tracks txn.SetSavePoint (txn :: hist) :=
  ⟨hs.positive, ⟨_, rfl, savedAt_SetSavePoint txn⟩, hs.positive, hs.restorable⟩

theorem Tracks.rollbackToSavePoint (hs : Tracks txn hist) :
    Tracks txn.RollbackToSavePoint.2 hist.tail := by
  cases hist with
  | nil =>
    rw [RollbackToSavePoint_of_nil hs.restorable]
    exact hs
  | cons h t =>
    have hr := hs.restorable
    obtain ⟨-, hpos, hrest⟩ := hs.restorable
    refine ⟨positive_RollbackToSavePoint hs.positive,
      hrest.congr (hr.rollback_fields).2.2.2.2.2 (fun c k => ?_) (fun c k => ?_)⟩
    · exact (hr.rollback_counts c k).1
    · exact (hr.rollback_counts c k).2

theorem Tracks.undoGetForUpdate (hs : Tracks txn hist) (cf : UInt32) (key : List UInt8) :
    Tracks (txn.UndoGetForUpdate cf key).1 hist := by
  rcases UndoGetForUpdate_cases cf key txn with ⟨he, hnone⟩ | ⟨t', unlock, hflag, hu, he⟩ <;>
    rw [he]
  · -- no read taken back from the tracked keys
    refine ⟨positive_ensureCf hs.positive cf, ?_⟩
    cases hist with
    | nil =>
      have hnil : txn.save_points_ = [] := hs.restorable
      show (undoSavePointRead cf key txn.save_points_).1 = []
      rw [hnil]
      rfl
    | cons h t =>
      obtain ⟨⟨sp, hsp, hsa⟩, hpos, hrest⟩ := hs.restorable
      rcases undoSavePointRead_cons cf key sp h.save_points_ with ⟨r, hr, hu⟩ | ⟨-, hu⟩
      · -- the top save point gave a read back, which the tracked keys count as well
        exfalso
        have hz := numReads_eq_zero_of_undoRead (hnone (by rw [hsp, hu]))
        have hp := numReads_pos_of_undoRead hr
        rw [numReads_ensureCf] at hz hp
        have := hsa.reads cf key
        omega
      · exact ⟨⟨_, by rw [hsp, hu], hsa.ensureCf cf⟩, hpos, hrest⟩
  · -- one read taken back from the tracked keys
    refine ⟨positive_undoRead (positive_ensureCf hs.positive cf) hu, ?_⟩
    cases hist with
    | nil =>
      have hnil : txn.save_points_ = [] := hs.restorable
      show (undoSavePointRead cf key txn.save_points_).1 = []
      rw [hnil]
      rfl
    | cons h t =>
      obtain ⟨⟨sp, hsp, hsa⟩, hpos, hrest⟩ := hs.restorable
      rw [hsp] at hflag ⊢
      rcases undoSavePointRead_cons cf key sp h.save_points_ with ⟨r, hr, hu'⟩ | ⟨-, hu'⟩ <;>
        rw [hu'] at hflag ⊢
      · exact ⟨⟨_, rfl, hsa.undoRead hu hr⟩, hpos, hrest⟩
      · cases hflag

/-- a call keeps the bookkeeping where the key it tracks has room for one more count -/
theorem Tracks.apply (hs : Tracks txn hist) (call : TxnCall)
    (hb : ∀ c k, numReads txn.tracked_keys_ c k + numWrites txn.tracked_keys_ c k +
      (if call.tracks c k then 1 else 0) < 2 ^ 32) :
    Tracks (call.apply txn) (call.track txn hist) := by
  cases call with
  | TrackKey cf key seq read_only exclusive =>
    have hroom := hb cf key
    simp only [TxnCall.tracks, and_self, decide_true, if_true] at hroom
    exact hs.trackKey cf key seq read_only exclusive hroom
  | countWrite w => exact hs.countWrite w
  | UndoGetForUpdate cf key => exact hs.undoGetForUpdate cf key
  | SetSavePoint => exact hs.setSavePoint
  | RollbackToSavePoint => exact hs.rollbackToSavePoint

/-- a call adds one at most to the counts of the key it tracks, and nothing to the others -/
theorem Tracks.counts_apply (hs : Tracks txn hist) (call : TxnCall) (c : UInt32) (k : List UInt8) :
    numReads (call.apply txn).tracked_keys_ c k + numWrites (call.apply txn).tracked_keys_ c k ≤
      numReads txn.tracked_keys_ c k + numWrites txn.tracked_keys_ c k +
        if call.tracks c k then 1 else 0 := by
  cases call with
  | TrackKey cf key seq read_only exclusive =>
    -- one count on, modulo `2^32`
    simp only [TxnCall.apply, TxnCall.tracks, TrackKey_tracked_keys_, numReads_TrackKey,
      numWrites_TrackKey, decide_eq_true_eq]
    by_cases hck : c = cf ∧ k = key <;> cases read_only <;> simp [hck] <;> omega
  | countWrite w => simp [TxnCall.apply, TxnCall.tracks]
  | UndoGetForUpdate cf key =>
    simp only [TxnCall.apply, TxnCall.tracks, Bool.false_eq_true, if_false, Nat.add_zero]
    rcases UndoGetForUpdate_cases cf key txn with ⟨he, -⟩ | ⟨t', unlock, -, hu, he⟩ <;> rw [he]
    · simp
    · -- a read taken back
      have hr := numReads_undoRead hu c k
      have hw := numWrites_undoRead hu c k
      simp only [numReads_ensureCf, numWrites_ensureCf] at hr hw
      rw [hr, hw]
      omega
  | SetSavePoint => simp [TxnCall.apply, TxnCall.tracks]
  | RollbackToSavePoint =>
    simp only [TxnCall.apply, TxnCall.tracks, Bool.false_eq_true, if_false, Nat.add_zero]
    cases hist with
    | nil => rw [RollbackToSavePoint_of_nil hs.restorable]
    | cons h t =>
      -- the counts go back to those under the save point, which are among the totals
      have hr := hs.restorable
      obtain ⟨⟨sp, -, hsa⟩, -, -⟩ := hs.restorable
      rw [(hr.rollback_counts c k).1, (hr.rollback_counts c k).2, hsa.reads c k, hsa.writes c k]
      omega

/-- every run keeps the bookkeeping in which the calls still to come track no key more often
than its counts have room for below `2^32` -/
theorem Tracks.runTracked (calls : List TxnCall) :
    ∀ {txn : TransactionBaseImpl} {hist : List TransactionBaseImpl}, Tracks txn hist →
      (∀ c k, numReads txn.tracked_keys_ c k + numWrites txn.tracked_keys_ c k +
        calls.countP (TxnCall.tracks c k) < 2 ^ 32) →
      Tracks (runTracked (txn, hist) calls).1 (runTracked (txn, hist) calls).2 := by
  induction calls with
  | nil => intro txn hist hs _; exact hs
  | cons call calls ih =>
    intro txn hist hs hb
    have hroom : ∀ c k, numReads txn.tracked_keys_ c k + numWrites txn.tracked_keys_ c k +
        (if call.tracks c k then 1 else 0) + calls.countP (TxnCall.tracks c k) < 2 ^ 32 := by
      intro c k
      have := hb c k
      rw [List.countP_cons] at this
      omega
    refine ih (hs.apply call fun c k => by have := hroom c k; omega) fun c k => ?_
    have := hs.counts_apply call c k
    have := hroom c k
    omega

end Steps

/-! ## The keys since the top save point -/

/-- the keys since the top save point are the tracked keys the transaction under it did not
count -/
theorem Restorable.since {txn h : TransactionBaseImpl} {t : List TransactionBaseImpl}
    (hr : Restorable txn (h :: t)) (ht : Positive txn.tracked_keys_) :
    ∃ since, txn.GetTrackedKeysSinceSavePoint = some since ∧
      ∀ c k, (since.find c k).isSome ↔
        numReads h.tracked_keys_ c k = 0 ∧ numWrites h.tracked_keys_ c k = 0 ∧
          (txn.tracked_keys_.find c k).isSome := by
  obtain ⟨⟨sp, hsp, hsa⟩, -, -⟩ := hr
  obtain ⟨since, hsince, -⟩ := find_GetTrackedKeysSinceSavePoint hsp 0 []
  refine ⟨since, hsince, fun c k => ?_⟩
  obtain ⟨since', hsince', hck⟩ := find_GetTrackedKeysSinceSavePoint hsp c k
  rw [hsince, Option.some.injEq] at hsince'
  subst hsince'
  rw [hck]
  have hrd := hsa.reads c k
  have hwr := hsa.writes c k
  generalize numReads h.tracked_keys_ c k = nr at hrd ⊢
  generalize numWrites h.tracked_keys_ c k = nw at hwr ⊢
  -- the key's records in the save point and in the tracked keys
  cases hf : sp.new_keys_.find c k with
  | none =>
    cases ht' : txn.tracked_keys_.find c k with
    | none => simp
    | some total =>
      have hpos := ht c k total ht'
      simp only [numReads, numWrites, hf, ht', Option.map_some, Option.map_none, Option.getD_some,
        Option.getD_none] at hrd hwr
      simp only [Bool.false_eq_true, Option.isSome_some, and_true, false_iff]
      omega
  | some i =>
    cases ht' : txn.tracked_keys_.find c k with
    | none => simp [allSince, ht']
    | some total =>
      simp only [numReads, numWrites, hf, ht', Option.map_some, Option.getD_some] at hrd hwr
      simp only [allSince, ht', Bool.and_eq_true, beq_iff_eq, Option.isSome_some, and_true,
        ← UInt32.toNat_inj]
      omega

/-- over every run from a new transaction in which no key is tracked `2^32` times: the counts
of each tracked key are those before the outermost open save point plus those of the open save
points; `RollbackToSavePoint` gives back the counts, the keys, the write counts, the snapshot and
the save points of the transaction the top save point was set on; and the keys since the top
save point are the keys tracked since -/
theorem save_points_restore_tracked_keys (snapshot : Option Nat) (calls : List TxnCall)
    (hbound : ∀ c k, calls.countP (TxnCall.tracks c k) < 2 ^ 32)
    (txn : TransactionBaseImpl) (hist : List TransactionBaseImpl)
    (hrun : runTracked (new snapshot, []) calls = (txn, hist)) :
    (∀ c k, numReads txn.tracked_keys_ c k =
          numReads (hist.getLast?.getD txn).tracked_keys_ c k + txn.savedReads c k ∧
        numWrites txn.tracked_keys_ c k =
          numWrites (hist.getLast?.getD txn).tracked_keys_ c k + txn.savedWrites c k) ∧
      (hist = [] → txn.RollbackToSavePoint = (.NotFound, txn) ∧
        txn.GetTrackedKeysSinceSavePoint = none) ∧
      ∀ h rest, hist = h :: rest →
        txn.RollbackToSavePoint.1 = .OK ∧
        (∀ c k,
          numReads txn.RollbackToSavePoint.2.tracked_keys_ c k = numReads h.tracked_keys_ c k ∧
          numWrites txn.RollbackToSavePoint.2.tracked_keys_ c k = numWrites h.tracked_keys_ c k ∧
          ((txn.RollbackToSavePoint.2.tracked_keys_.find c k).isSome ↔
            (h.tracked_keys_.find c k).isSome)) ∧
        txn.RollbackToSavePoint.2.num_puts_ = h.num_puts_ ∧
        txn.RollbackToSavePoint.2.num_deletes_ = h.num_deletes_ ∧
        txn.RollbackToSavePoint.2.num_merges_ = h.num_merges_ ∧
        txn.RollbackToSavePoint.2.snapshot_ = h.snapshot_ ∧
        txn.RollbackToSavePoint.2.save_points_ = h.save_points_ ∧
        ∃ since, txn.GetTrackedKeysSinceSavePoint = some since ∧
          ∀ c k, (since.find c k).isSome ↔
            numReads h.tracked_keys_ c k = 0 ∧ numWrites h.tracked_keys_ c k = 0 ∧
              (txn.tracked_keys_.find c k).isSome := by
  have hs : Tracks txn hist := by
    have hrun' := Tracks.runTracked calls (tracks_new snapshot) fun c k => by
      simpa [new] using hbound c k
    rwa [hrun] at hrun'
  refine ⟨hs.restorable.counts, fun hnil => ?_, fun h rest hh => ?_⟩
  · subst hnil
    have hsp : txn.save_points_ = [] := hs.restorable
    exact ⟨RollbackToSavePoint_of_nil hsp, by simp [GetTrackedKeysSinceSavePoint, hsp]⟩
  · subst hh
    have hr := hs.restorable
    obtain ⟨-, hposh, -⟩ := hs.restorable
    obtain ⟨hok, hputs, hdels, hmerges, hsnap, hsps⟩ := hr.rollback_fields
    refine ⟨hok, fun c k => ?_, hputs, hdels, hmerges, hsnap, hsps, hr.since hs.positive⟩
    obtain ⟨hrd, hwr⟩ := hr.rollback_counts c k
    refine ⟨hrd, hwr, ?_⟩
    -- a key is tracked exactly when it counts a read or a write, before and after
    rw [(positive_RollbackToSavePoint hs.positive).isSome_find, hposh.isSome_find, hrd, hwr]

/-- a key read before a save point and read again after it, and a key written after it: the
rollback leaves the first with its one read and drops the second -/
theorem save_points_restore_tracked_keys_reread :
    numReads (runCalls (new none) [.TrackKey 0 [1] 5 true false, .SetSavePoint,
        .TrackKey 0 [1] 6 true false, .TrackKey 0 [2] 7 false true]).RollbackToSavePoint.2.tracked_keys_
        0 [1] = 1 ∧
      ((runCalls (new none) [.TrackKey 0 [1] 5 true false, .SetSavePoint,
        .TrackKey 0 [1] 6 true false, .TrackKey 0 [2] 7 false true]).RollbackToSavePoint.2.tracked_keys_.find
        0 [2]).isSome = false := by
  obtain ⟨-, -, hrb⟩ := save_points_restore_tracked_keys none
    [.TrackKey 0 [1] 5 true false, .SetSavePoint, .TrackKey 0 [1] 6 true false,
      .TrackKey 0 [2] 7 false true]
    (fun _ _ => List.countP_le_length.trans_lt (by decide))
    (runCalls (new none) [.TrackKey 0 [1] 5 true false, .SetSavePoint,
      .TrackKey 0 [1] 6 true false, .TrackKey 0 [2] 7 false true])
    [runCalls (new none) [.TrackKey 0 [1] 5 true false]] rfl
  obtain ⟨-, hkeys, -⟩ := hrb _ [] rfl
  refine ⟨(hkeys 0 [1]).1.trans (by decide), ?_⟩
  rw [Bool.eq_false_iff, ne_eq, (hkeys 0 [2]).2.2]
  decide

/-- `n + 1` reads of one key on a new transaction: one record, its reads counted modulo `2^32` -/
theorem runCalls_new_reads (snapshot : Option Nat) (c : UInt32) (k : List UInt8) (seq n : Nat) :
    runCalls (new snapshot) (List.replicate (n + 1) (.TrackKey c k seq true false)) =
      { new snapshot with
        tracked_keys_ := (∅ : TransactionKeyMap).setKey c k ⟨seq, 0, UInt32.ofNat (n + 1), false⟩ } := by
  induction n with
  | zero => rfl
  | succ n ih =>
    rw [List.replicate_succ', runCalls_append, ih]
    -- the key's record is there: one more read at the same sequence number
    simp only [runCalls, List.foldl_cons, List.foldl_nil, TxnCall.apply, TrackKey, new,
      TransactionKeyMap.TrackKey, find_setKey, and_self, if_true, TransactionKeyMapInfo.track,
      lt_irrefl, if_false, Bool.or_false, setKey_setKey]
    -- `num_reads++` is `+ 1` modulo `2^32`
    simp

/-- `2^32` reads of a key before a save point wrap its `uint32_t` count to 0.  The key is tracked
when the save point is set; after one more read `GetTrackedKeysSinceSavePoint` lists it as read
only since the save point, and `RollbackToSavePoint` drops it -/
theorem rollback_drops_key_after_wrapped_reads :
    ((runCalls (new none) (List.replicate (2 ^ 32) (.TrackKey 0 [1] 5 true false))).tracked_keys_.find
        0 [1]).isSome = true ∧
      ((runCalls (new none) (List.replicate (2 ^ 32) (TxnCall.TrackKey 0 [1] 5 true false) ++
          [TxnCall.SetSavePoint, TxnCall.TrackKey 0 [1] 6 true false])).GetTrackedKeysSinceSavePoint.map
        fun since => (since.find 0 [1]).isSome) = some true ∧
      ((runCalls (new none) (List.replicate (2 ^ 32) (TxnCall.TrackKey 0 [1] 5 true false) ++
          [TxnCall.SetSavePoint, TxnCall.TrackKey 0 [1] 6 true false])).RollbackToSavePoint.2.tracked_keys_.find
        0 [1]).isSome = false := by
  have hreads := runCalls_new_reads none 0 [1] 5 (2 ^ 32 - 1)
  have hwrap : UInt32.ofNat (2 ^ 32) = 0 := by decide
  rw [Nat.sub_add_cancel Nat.one_le_two_pow, hwrap] at hreads
  rw [runCalls_append, hreads]
  decide

end TransactionBaseImpl

end RocksDB
