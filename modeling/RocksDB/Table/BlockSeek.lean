import RocksDB.Lib.Lists
import RocksDB.Table.BlockRead

/-!
# table/block.cc: seeking in a block

Over the block of a layout `L` whose keys increase under the iterator's comparator `cmp`:

* `BlockIter.Fields`     what every operation keeps: the comparator, the block's bytes and restart
                         array, an OK status, no global sequence number, and a cache of `Prev`
                         that is a run of consecutive entries (`CacheOk`);
* `BlockIter.AtEntry`    the iterator stands on the `i`-th entry: its offset, key and value;
* `BlockIter.Before`     `ParseNextKey` would read the `i`-th entry next;
* `binarySeekLoop_inv`   the binary search over the restart points returns one before which every
                         key is below the target;
* `Seek_spec`, `SeekForPrev_spec`, `SeekToFirst_spec`, `SeekToLast_spec`, `Next_spec`, `Prev_spec`
                         where each operation leaves the iterator; `OnBlock.reaches` that every
                         run of them keeps it on the block;
* `block_seek_lower_bound`  on a block `BlockBuilder` builds, `Seek` answers the first pair not
                         below the target and `SeekForPrev` the last one not above it.

Each loop of the iterator is a recursion over fuel; its lemma says what one `ParseNextKey` does
(`ParseNextKey_lt`, `ParseNextKey_past`) and carries it along the entries by induction over the
fuel, the fuel bounded below by the entries left.

The offsets are 32-bit: a block of `2 ^ 32` bytes or more wraps them, and `Seek` can then miss
an entry (`block_seek_misses_past_four_gib`).
-/

namespace RocksDB

/-- the keys of the entries increase under `cmp` -/
def BlockLayout.KeysIncrease (L : BlockLayout) (cmp : List UInt8 → List UInt8 → Ordering) : Prop :=
  ∀ i j, i < j → j < L.entries.length → cmp (L.entry i).key (L.entry j).key = .lt

namespace BlockIter

variable (L : BlockLayout) (cmp : List UInt8 → List UInt8 → Ordering)

/-- the entry `Prev` caches for the `j`-th entry -/
def cachedEntry (j : Nat) : CachedPrevEntry :=
  ⟨UInt32.ofNat (L.offset j), (L.entry j).key, (L.valueOffset j, (L.entry j).value.length)⟩

/-- the cache of `Prev` holds the entries from some `a` on, and its index is `-1` or one of them -/
structure CacheOk (it : BlockIter) : Prop where
  run : ∃ a, a + it.prev_entries_.length ≤ L.entries.length ∧
    it.prev_entries_ = (List.range' a it.prev_entries_.length).map (cachedEntry L)
  idx : it.prev_entries_idx_ = -1 ∨
    (0 ≤ it.prev_entries_idx_ ∧ it.prev_entries_idx_ < it.prev_entries_.length)

/-- what every operation of the iterator keeps -/
structure Fields (it : BlockIter) : Prop where
  comparator : it.comparator_ = cmp
  data : it.data_ = L.contents
  restarts : it.restarts_ = UInt32.ofNat (L.offset L.entries.length)
  num_restarts : it.num_restarts_ = UInt32.ofNat L.restarts.length
  status : it.status_ = .OK
  global_seqno : it.global_seqno_ = kDisableGlobalSequenceNumber
  cache : CacheOk L it

/-- the iterator stands on the `i`-th entry -/
structure AtEntry (it : BlockIter) (i : Nat) : Prop where
  lt : i < L.entries.length
  current : it.current_ = UInt32.ofNat (L.offset i)
  key : it.key_ = (L.entry i).key
  value : it.value_ = (L.valueOffset i, (L.entry i).value.length)
  restart_index : it.restart_index_.toNat < L.restarts.length

/-- `ParseNextKey` reads the `i`-th entry next: `NextEntryOffset()` is its offset and the key
held has the bytes it shares -/
structure Before (it : BlockIter) (i : Nat) : Prop where
  le : i ≤ L.entries.length
  next : it.NextEntryOffset = UInt32.ofNat (L.offset i)
  key : i < L.entries.length → (L.entry i).shared ≤ it.key_.length ∧
    it.key_.take (L.entry i).shared = (L.entry i).key.take (L.entry i).shared
  restart_index : it.restart_index_.toNat < L.restarts.length


/-- the iterator stands on the `j`-th entry, or past the last one where `j` is their number -/
structure At (it : BlockIter) (j : Nat) : Prop where
  le : j ≤ L.entries.length
  entry : j < L.entries.length → AtEntry L it j
  past : j = L.entries.length → it.current_ = it.restarts_

variable {L cmp}

/-- a move of the iterator's position keeps the other fields -/
theorem Fields.position {it : BlockIter} (hf : Fields L cmp it) (c : UInt32) (k : List UInt8)
    (v : Nat × Nat) (r : UInt32) :
    Fields L cmp { it with current_ := c, key_ := k, value_ := v, restart_index_ := r } :=
  ⟨hf.comparator, hf.data, hf.restarts, hf.num_restarts, hf.status, hf.global_seqno,
    ⟨hf.cache.run, hf.cache.idx⟩⟩

/-- the index of `Prev`'s cache set to its last entry -/
theorem Fields.index_last {it : BlockIter} (hf : Fields L cmp it) {a len : Nat}
    (hc : it.prev_entries_ = (List.range' a len).map (cachedEntry L)) (hlen : a + len ≤ L.entries.length)
    (hpos : 0 < len) :
    Fields L cmp { it with prev_entries_idx_ := (it.prev_entries_.length : Int) - 1 } := by
  have hl : it.prev_entries_.length = len := by rw [hc]; simp
  refine ⟨hf.comparator, hf.data, hf.restarts, hf.num_restarts, hf.status, hf.global_seqno,
    ⟨⟨a, by dsimp only; omega, by dsimp only; rw [hl, hc]⟩, Or.inr ?_⟩⟩
  dsimp only
  omega

theorem At.of_entry {it : BlockIter} {j : Nat} (h : AtEntry L it j) : At L it j :=
  ⟨h.lt.le, fun _ => h, fun hj => absurd hj (Nat.ne_of_lt h.lt)⟩

theorem At.of_past {it : BlockIter} (h : it.current_ = it.restarts_) : At L it L.entries.length :=
  ⟨le_rfl, fun hj => absurd hj (Nat.lt_irrefl _), fun _ => h⟩

/-- past the entries the iterator is not valid -/
theorem Valid_of_past {it : BlockIter} (h : it.current_ = it.restarts_) : it.Valid = false := by
  rw [BlockIter.Valid, h]
  exact decide_eq_false (UInt32.lt_irrefl _)

/-- the loop of `SeekForPrev` stops where the iterator is past the entries or not above `target` -/
theorem prevWhileAbove_stop (target : List UInt8) (fuel : Nat) {it : BlockIter}
    (h : ¬(it.Valid = true ∧ it.comparator_ it.key_ target = .gt)) :
    prevWhileAbove target fuel it = it := by
  cases fuel with
  | zero => rfl
  | succ fuel => rw [prevWhileAbove, if_neg h]

section Order

variable [Std.TransCmp cmp] (hsorted : L.KeysIncrease cmp) {target : List UInt8} {j : Nat}
  (hlt : ∀ t < j, cmp (L.entry t).key target = .lt)
include hsorted hlt

/-- where the first entry not below `target` equals it, the entries not above it are those up to
it -/
theorem not_gt_iff_of_eq (hc : cmp (L.entry j).key target = .eq) :
    ∀ t < L.entries.length, cmp (L.entry t).key target ≠ .gt ↔ t < j + 1 := by
  intro t ht
  constructor
  · intro hng
    by_contra hge
    exact hng (Std.TransCmp.gt_of_gt_of_eq
      (Std.OrientedCmp.gt_of_lt (hsorted j t (by omega) ht)) hc)
  · intro htj
    rcases Nat.lt_or_eq_of_le (Nat.le_of_lt_succ htj) with h | rfl
    · rw [hlt t h]
      exact Ordering.noConfusion
    · rw [hc]
      exact Ordering.noConfusion

/-- and where it is above `target`, those before it -/
theorem not_gt_iff_of_gt (hc : cmp (L.entry j).key target = .gt) :
    ∀ t < L.entries.length, cmp (L.entry t).key target ≠ .gt ↔ t < j := by
  intro t ht
  constructor
  · intro hng
    by_contra hge
    rcases Nat.lt_or_eq_of_le (Nat.not_lt.mp hge) with h | rfl
    · exact hng (Std.TransCmp.gt_trans (Std.OrientedCmp.gt_of_lt (hsorted j t h ht)) hc)
    · exact hng hc
  · intro htj
    rw [hlt t htj]
    exact Ordering.noConfusion

end Order

section Wf

variable (hw : L.Wf)
include hw

/-- on an entry the iterator is valid -/
theorem AtEntry.Valid {it : BlockIter} {i : Nat} (hf : Fields L cmp it) (h : AtEntry L it i) :
    it.Valid = true := by
  have hlt := L.offset_lt_offset h.lt le_rfl
  rw [BlockIter.Valid, h.current, hf.restarts, decide_eq_true_iff, UInt32.lt_iff_toNat_lt,
    toNat_ofNat_offset hw h.lt.le, toNat_ofNat_offset hw le_rfl]
  exact hlt

/-- the entry after: its offset is where this one's value ends, and it shares bytes with this
one's key -/
theorem AtEntry.before_succ {it : BlockIter} {i : Nat} (h : AtEntry L it i) :
    Before L it (i + 1) where
  le := h.lt
  next := by
    have hbytes := L.offset_succ h.lt
    rw [BlockLayout.length_bytes] at hbytes
    rw [NextEntryOffset, h.value, BlockLayout.valueOffset]
    congr 1
    omega
  key := fun hi => by
    have hs := hw.shared_succ hi
    obtain ⟨-, hlen, htake⟩ := diffIndex_common (L.entry (i + 1)).key (L.entry i).key
    rw [h.key]
    refine ⟨hs.trans hlen, ?_⟩
    rw [← Nat.min_eq_left hs, ← List.take_take, ← List.take_take, htake]
  restart_index := h.restart_index

/-- **One step.**  `ParseNextKey` before an entry moves onto it, the cache untouched -/
theorem ParseNextKey_lt {it : BlockIter} {i : Nat} (hf : Fields L cmp it) (hb : Before L it i)
    (hi : i < L.entries.length) :
    ∃ it', it.ParseNextKey = (true, it') ∧ Fields L cmp it' ∧ AtEntry L it' i ∧
      it'.prev_entries_ = it.prev_entries_ ∧ it'.prev_entries_idx_ = it.prev_entries_idx_ := by
  obtain ⟨ri, hri, heq⟩ := ParseNextKey_entry hw hf.data hf.restarts hf.num_restarts
    hf.global_seqno hi hb.next (hb.key hi) hb.restart_index
  exact ⟨_, heq, hf.position _ _ _ _, ⟨hi, rfl, rfl, rfl, hri⟩, rfl, rfl⟩

omit hw in
/-- and before the end it runs out of entries -/
theorem ParseNextKey_past {it : BlockIter} (hf : Fields L cmp it)
    (hb : Before L it L.entries.length) :
    ∃ it', it.ParseNextKey = (false, it') ∧ Fields L cmp it' ∧ it'.current_ = it'.restarts_ ∧
      it'.prev_entries_ = it.prev_entries_ ∧ it'.prev_entries_idx_ = it.prev_entries_idx_ :=
  ⟨_, ParseNextKey_end hf.restarts hb.next, hf.position _ _ _ _, rfl, rfl, rfl⟩

omit hw in
theorem restart_mem {j : Nat} (hj : j < L.restarts.length) : L.restarts.getD j 0 ∈ L.restarts := by
  rw [List.getD_eq_getElem _ _ hj]
  exact List.getElem_mem hj

/-- a restart point puts the iterator before its entry, which shares nothing -/
theorem SeekToRestartPoint_before {it : BlockIter} (hf : Fields L cmp it) {index : UInt32}
    (hj : index.toNat < L.restarts.length) :
    Fields L cmp (it.SeekToRestartPoint index) ∧
      Before L (it.SeekToRestartPoint index) (L.restarts.getD index.toNat 0) := by
  have hmem := restart_mem hj
  have hle : L.restarts.getD index.toNat 0 ≤ L.entries.length := by
    rcases hw.restarts_bound _ hmem with h | h
    · rw [h]
      exact Nat.zero_le _
    · exact h.le
  refine ⟨hf.position _ _ _ _, hle, ?_, fun hr => ?_, hj⟩
  · rw [NextEntryOffset, SeekToRestartPoint, GetRestartPoint_eq hw hf.data hf.restarts hj,
      toNat_ofNat_offset hw hle, Nat.add_zero]
  · rw [hw.shared_restart _ hmem _ (BlockLayout.getElem?_entry hr)]
    simp [SeekToRestartPoint]

/-- **The forward scan** of `Seek` and `SeekForPrev` from before the `i`-th entry stops at the first
entry from there on whose key is not below `target`, or past the last; fuel above the entries left
is enough -/
theorem scanForward_spec (target : List UInt8) {it : BlockIter} {i fuel : Nat}
    (hf : Fields L cmp it) (hb : Before L it i) (hfuel : L.entries.length - i < fuel) :
    ∃ j, i ≤ j ∧ (∀ t, i ≤ t → t < j → cmp (L.entry t).key target = .lt) ∧
      (j < L.entries.length → cmp (L.entry j).key target ≠ .lt) ∧
      Fields L cmp (scanForward target fuel it) ∧ At L (scanForward target fuel it) j := by
  induction fuel generalizing it i with
  | zero => omega
  | succ fuel ih =>
    rw [scanForward]
    by_cases hi : i < L.entries.length
    · obtain ⟨it1, hp, hf1, hat, -, -⟩ := ParseNextKey_lt hw hf hb hi
      rw [hp]
      dsimp only
      by_cases hlt : cmp (L.entry i).key target = .lt
      · -- the entry is below `target`: the scan goes on from the next one
        rw [if_pos ⟨rfl, by rw [hf1.comparator, hat.key]; exact hlt⟩]
        obtain ⟨j, hij, hbelow, hnot, hfj, hatj⟩ := ih hf1 (hat.before_succ hw) (by omega)
        refine ⟨j, by omega, fun t h1 h2 => ?_, hnot, hfj, hatj⟩
        rcases Nat.lt_or_eq_of_le h1 with h | rfl
        · exact hbelow t h h2
        · exact hlt
      · rw [if_neg fun h => hlt (by rw [← hat.key, ← hf1.comparator]; exact h.2)]
        exact ⟨i, le_rfl, fun t h1 h2 => absurd h2 (by omega), fun _ => hlt, hf1, At.of_entry hat⟩
    · have hin : i = L.entries.length := le_antisymm hb.le (by omega)
      rw [hin] at hb
      obtain ⟨it1, hp, hf1, hpast, -, -⟩ := ParseNextKey_past hf hb
      rw [hp]
      dsimp only
      rw [if_neg fun h => Bool.false_ne_true h.1]
      exact ⟨L.entries.length, by omega, fun t h1 h2 => absurd h2 (by omega),
        fun h => absurd h (Nat.lt_irrefl _), hf1, At.of_past hpast⟩

/-- the restart points increase from the first entry on; those after the first are entries -/
theorem restart_lt_restart {j j' : Nat} (hjj : j < j') (hj' : j' < L.restarts.length) :
    L.restarts.getD j 0 < L.restarts.getD j' 0 := by
  rw [List.getD_eq_getElem _ _ (hjj.trans hj'), List.getD_eq_getElem _ _ hj']
  exact List.pairwise_iff_getElem.mp hw.restarts_lt j j' (hjj.trans hj') hj' hjj

theorem restart_zero : L.restarts.getD 0 0 = 0 := by
  rw [List.getD_eq_getElem?_getD, ← List.head?_eq_getElem?, hw.restarts_head, Option.getD_some]

theorem restarts_length_pos : 0 < L.restarts.length :=
  List.length_pos_of_mem (List.mem_of_mem_head? hw.restarts_head)

theorem restart_lt_entries {j : Nat} (hj : 0 < j) (hjm : j < L.restarts.length) :
    L.restarts.getD j 0 < L.entries.length := by
  have hpos := restart_lt_restart hw hj hjm
  have h0 := restart_zero hw
  rcases hw.restarts_bound _ (restart_mem hjm) with h | h
  · omega
  · exact h

/-- fewer than `2 ^ 30` restart points: their indices add up in 32 bits -/
theorem restarts_length_lt : L.restarts.length < 2 ^ 30 := by
  have := hw.offset_bound
  omega

/-- the key of an entry that shares nothing, as the binary search reads it at its offset -/
theorem DecodeEntry_unshared {r : Nat} (hr : r < L.entries.length) (hs : (L.entry r).shared = 0) :
    ∃ p non_shared value_length,
      DecodeEntry L.contents (L.offset r) (L.offset L.entries.length) =
        some (p, 0, non_shared, value_length) ∧
      L.contents.extract p (p + non_shared.toNat) = (L.entry r).key := by
  have hklen := hw.key_length_le hr
  have hbound := hw.offset_lt (i := r + 1) hr
  refine ⟨L.offset r + (L.entry r).header.length, UInt32.ofNat ((L.entry r).key.length - 0),
    UInt32.ofNat (L.entry r).value.length, ?_, ?_⟩
  · rw [DecodeEntry_entry hw hr, hs]
    rfl
  · rw [UInt32.toNat_ofNat_of_lt' (by simp only [UInt32.size]; omega), ← hs,
      BlockLayout.extract_key hr, hs, List.drop_zero]

/-- **The binary search.**  Where every key before the `left`-th restart point is below `target`,
the loop returns a restart point with the same property: `mid` is above `left`, so `left = mid`
on a key below `target` or equal to it keeps the property by the order of the keys. -/
theorem binarySeekLoop_inv [Std.TransCmp cmp] (hsorted : L.KeysIncrease cmp) (target : List UInt8)
    {it : BlockIter} (hf : Fields L cmp it) (fuel : Nat) {left right : UInt32}
    (hlr : left.toNat ≤ right.toNat) (hr : right.toNat < L.restarts.length)
    (hbelow : ∀ t < L.restarts.getD left.toNat 0, cmp (L.entry t).key target = .lt) :
    ∃ index, it.binarySeekLoop target fuel left right = some index ∧
      index.toNat < L.restarts.length ∧
      ∀ t < L.restarts.getD index.toNat 0, cmp (L.entry t).key target = .lt := by
  induction fuel generalizing left right with
  | zero => exact ⟨left, rfl, by omega, hbelow⟩
  | succ fuel ih =>
    rw [binarySeekLoop]
    split_ifs with hlt
    · have hlt' := UInt32.lt_iff_toNat_lt.mp hlt
      have hm := restarts_length_lt hw
      -- `mid` is computed without overflow, above `left` and at most `right`
      have hmid : ((left + right + 1) / 2).toNat = (left.toNat + right.toNat + 1) / 2 := by
        rw [UInt32.toNat_div, UInt32.toNat_add, UInt32.toNat_add, Nat.mod_eq_of_lt (by simp; omega),
          Nat.mod_eq_of_lt (by simp; omega)]
        rfl
      obtain ⟨p, ns, vl, hdec, hkey⟩ := DecodeEntry_unshared hw
        (restart_lt_entries hw (j := ((left + right + 1) / 2).toNat) (by omega) (by omega))
        (hw.shared_restart _ (restart_mem (by omega)) _
          (BlockLayout.getElem?_entry (restart_lt_entries hw (by omega) (by omega))))
      dsimp only
      rw [GetRestartPoint_eq hw hf.data hf.restarts (by omega),
        toNat_ofNat_offset hw (restart_lt_entries hw (by omega) (by omega)).le, hf.data, hf.restarts,
        toNat_ofNat_offset hw le_rfl, hdec]
      dsimp only
      rw [if_neg (not_not.mpr rfl), hkey, hf.comparator]
      have hrmid := restart_lt_entries hw (j := ((left + right + 1) / 2).toNat) (by omega) (by omega)
      generalize (left + right + 1) / 2 = mid at hmid hrmid ⊢
      cases hc : cmp (L.entry (L.restarts.getD mid.toNat 0)).key target with
      | lt => exact ih (by omega) hr fun t ht => Std.TransCmp.lt_trans (hsorted t _ ht hrmid) hc
      | eq => exact ih le_rfl (by omega) fun t ht => Std.TransCmp.lt_of_lt_of_eq (hsorted t _ ht hrmid) hc
      | gt =>
        have hsub : (mid - 1).toNat = mid.toNat - 1 :=
          UInt32.toNat_sub_of_le _ _ (UInt32.le_iff_toNat_le.mpr (by simp; omega))
        exact ih (by omega) (by omega) hbelow
    · exact ⟨left, rfl, by omega, hbelow⟩

/-- the fuel of the scans: the offset of the restart array, above the number of entries -/
theorem entries_lt_scanFuel {it : BlockIter} (hf : Fields L cmp it) :
    L.entries.length < it.scanFuel := by
  have h3 := L.three_mul_le_offset le_rfl
  rw [scanFuel, hf.restarts, toNat_ofNat_offset hw le_rfl]
  omega

/-- the binary search from all the restart points: it finds one and changes nothing -/
theorem BinarySeek_all [Std.TransCmp cmp] (hsorted : L.KeysIncrease cmp) (target : List UInt8)
    {it : BlockIter} (hf : Fields L cmp it) :
    ∃ index, it.BinarySeek target 0 (it.num_restarts_ - 1) = (some index, it) ∧
      index.toNat < L.restarts.length ∧
      ∀ t < L.restarts.getD index.toNat 0, cmp (L.entry t).key target = .lt := by
  have hm := restarts_length_pos hw
  have hnum : it.num_restarts_.toNat = L.restarts.length := by
    rw [hf.num_restarts, toNat_ofNat_restarts_length hw]
  have hright : (it.num_restarts_ - 1).toNat = L.restarts.length - 1 := by
    rw [UInt32.toNat_sub_of_le _ _ (UInt32.le_iff_toNat_le.mpr (by simp; omega)), hnum]
    rfl
  obtain ⟨index, hloop, hidx, hbelow⟩ := binarySeekLoop_inv hw hsorted target hf
    it.num_restarts_.toNat (show (0 : UInt32).toNat ≤ (it.num_restarts_ - 1).toNat by simp)
    (by omega)
    (fun t ht => absurd ht (by rw [UInt32.toNat_zero, restart_zero hw]; exact Nat.not_lt_zero t))
  refine ⟨index, ?_, hidx, hbelow⟩
  rw [BinarySeek, hloop]

/-- **Seek.**  `Seek(target)` stands on the first entry whose key is not below `target`, or past
the last entry where there is none -/
theorem Seek_spec [Std.TransCmp cmp] (hsorted : L.KeysIncrease cmp) (target : List UInt8)
    {it : BlockIter} (hf : Fields L cmp it) :
    ∃ j, (∀ t < j, cmp (L.entry t).key target = .lt) ∧
      (j < L.entries.length → cmp (L.entry j).key target ≠ .lt) ∧
      Fields L cmp (it.Seek target) ∧ At L (it.Seek target) j := by
  obtain ⟨index, hseek, hidx, hbelow⟩ := BinarySeek_all hw hsorted target hf
  obtain ⟨hf1, hb1⟩ := SeekToRestartPoint_before hw hf hidx
  have hfuel := entries_lt_scanFuel hw hf
  obtain ⟨j, hij, hscan, hnot, hfj, hat⟩ := scanForward_spec hw target hf1 hb1
    (show _ < it.scanFuel by omega)
  refine ⟨j, fun t ht => ?_, hnot, ?_⟩
  · -- before the restart point by the binary search, after it by the scan
    by_cases htr : t < L.restarts.getD index.toNat 0
    · exact hbelow t htr
    · exact hscan t (by omega) ht
  · rw [Seek, hseek]
    exact ⟨hfj, hat⟩

/-- the entry after the `i`-th starts before the restart array exactly where it is an entry -/
theorem NextEntryOffset_lt_iff {it : BlockIter} {i : Nat} (hf : Fields L cmp it)
    (hat : AtEntry L it i) :
    it.NextEntryOffset < it.restarts_ ↔ i + 1 < L.entries.length := by
  rw [(hat.before_succ hw).next, hf.restarts]
  exact ofNat_offset_lt_iff hw hat.lt le_rfl

/-- the scan of `SeekToLast` from before the `i`-th entry stops on the last entry -/
theorem scanToLast_spec {it : BlockIter} {i fuel : Nat} (hf : Fields L cmp it) (hb : Before L it i)
    (hfuel : L.entries.length - i < fuel) :
    Fields L cmp (scanToLast fuel it) ∧
      (i < L.entries.length → AtEntry L (scanToLast fuel it) (L.entries.length - 1)) ∧
      (i = L.entries.length → (scanToLast fuel it).current_ = (scanToLast fuel it).restarts_) := by
  induction fuel generalizing it i with
  | zero => omega
  | succ fuel ih =>
    rw [scanToLast]
    by_cases hi : i < L.entries.length
    · obtain ⟨it1, hp, hf1, hat, -, -⟩ := ParseNextKey_lt hw hf hb hi
      rw [hp]
      dsimp only
      by_cases hlast : i + 1 < L.entries.length
      · rw [if_pos ⟨rfl, (NextEntryOffset_lt_iff hw hf1 hat).mpr hlast⟩]
        obtain ⟨hf2, hat2, -⟩ := ih hf1 (hat.before_succ hw) (by omega)
        exact ⟨hf2, fun _ => hat2 hlast, fun h => absurd h (by omega)⟩
      · rw [if_neg fun h => hlast ((NextEntryOffset_lt_iff hw hf1 hat).mp h.2)]
        have : i = L.entries.length - 1 := by omega
        exact ⟨hf1, fun _ => this ▸ hat, fun h => absurd h (by omega)⟩
    · have hin : i = L.entries.length := le_antisymm hb.le (by omega)
      rw [hin] at hb
      obtain ⟨it1, hp, hf1, hpast, -, -⟩ := ParseNextKey_past hf hb
      rw [hp]
      dsimp only
      rw [if_neg fun h => Bool.false_ne_true h.1]
      exact ⟨hf1, fun h => absurd h hi, fun _ => hpast⟩

/-- **SeekToLast** stands on the last entry, or past the end of a block without entries -/
theorem SeekToLast_spec {it : BlockIter} (hf : Fields L cmp it) :
    Fields L cmp it.SeekToLast ∧
      (0 < L.entries.length → AtEntry L it.SeekToLast (L.entries.length - 1)) ∧
      (L.entries.length = 0 → it.SeekToLast.current_ = it.SeekToLast.restarts_) := by
  have hm := restarts_length_pos hw
  have hlast : (it.num_restarts_ - 1).toNat = L.restarts.length - 1 := by
    rw [UInt32.toNat_sub_of_le _ _ (UInt32.le_iff_toNat_le.mpr (by
      rw [hf.num_restarts, toNat_ofNat_restarts_length hw]; simp; omega)),
      hf.num_restarts, toNat_ofNat_restarts_length hw]
    rfl
  obtain ⟨hf1, hb1⟩ := SeekToRestartPoint_before hw hf
    (show (it.num_restarts_ - 1).toNat < L.restarts.length by omega)
  have hfuel := entries_lt_scanFuel hw hf
  obtain ⟨hf2, hat, hpast⟩ := scanToLast_spec hw hf1 hb1
    (show _ < it.scanFuel by omega)
  refine ⟨hf2, fun hn => hat ?_, fun hn => hpast ?_⟩
  · -- the last restart point is an entry
    rw [hlast]
    rcases Nat.eq_zero_or_pos (L.restarts.length - 1) with h0 | hpos
    · rw [h0, restart_zero hw]
      exact hn
    · exact restart_lt_entries hw hpos (by omega)
  · have := hb1.le
    omega

/-- the first loop of `Prev`'s slow path walks back to a restart point before the `i`-th entry, and
finds none before the first -/
theorem restartBefore_spec {it : BlockIter} (hf : Fields L cmp it) {i : Nat} {original : UInt32}
    (horig : original = UInt32.ofNat (L.offset i)) (hi : i ≤ L.entries.length) {index : UInt32}
    (hidx : index.toNat < L.restarts.length) {fuel : Nat} (hfuel : index.toNat < fuel) :
    (i = 0 → it.restartBefore original index fuel = none) ∧
    (0 < i → ∃ index', it.restartBefore original index fuel = some index' ∧
      index'.toNat < L.restarts.length ∧ L.restarts.getD index'.toNat 0 < i) := by
  subst horig
  induction fuel generalizing index with
  | zero => omega
  | succ fuel ih =>
    have hr : L.restarts.getD index.toNat 0 ≤ L.entries.length := by
      rcases hw.restarts_bound _ (restart_mem hidx) with h | h <;> omega
    rw [restartBefore, GetRestartPoint_eq hw hf.data hf.restarts hidx]
    split_ifs with hge h0
    · -- the restart point is at the entry or after it: at the first, there is none before
      have hir : i ≤ L.restarts.getD index.toNat 0 := Nat.not_lt.mp fun h =>
        UInt32.not_lt.mpr hge ((ofNat_offset_lt_iff hw hr hi).mpr h)
      rw [h0, UInt32.toNat_zero, restart_zero hw] at hir
      exact ⟨fun _ => rfl, fun hpos => absurd hir (by omega)⟩
    · have hpos : 0 < index.toNat := by
        rcases Nat.eq_zero_or_pos index.toNat with h | h
        · exact absurd (UInt32.toNat_inj.mp (h.trans UInt32.toNat_zero.symm)) h0
        · exact h
      have hsub : (index - 1).toNat = index.toNat - 1 :=
        UInt32.toNat_sub_of_le _ _ (UInt32.le_iff_toNat_le.mpr (by simp; omega))
      exact ih (by omega) (by omega)
    · have hri : L.restarts.getD index.toNat 0 < i :=
        (ofNat_offset_lt_iff hw hr hi).mp (UInt32.not_le.mp hge)
      exact ⟨fun h => absurd (h ▸ hri) (Nat.not_lt_zero _), fun _ => ⟨index, rfl, hidx, hri⟩⟩

/-- the second loop of `Prev`'s slow path, from before the `t`-th entry with the entries from `a`
cached, caches the entries up to the one before the `i`-th and stands on it -/
theorem cachePrevEntries_spec {it : BlockIter} {a t i fuel : Nat} {original : UInt32}
    (horig : original = UInt32.ofNat (L.offset i)) (hf : Fields L cmp it)
    (hb : Before L it t) (hat : a ≤ t) (hti : t < i) (hi : i ≤ L.entries.length)
    (hcache : it.prev_entries_ = (List.range' a (t - a)).map (cachedEntry L))
    (hidx : it.prev_entries_idx_ = -1) (hfuel : i - t ≤ fuel) :
    Fields L cmp (cachePrevEntries original fuel it) ∧
      AtEntry L (cachePrevEntries original fuel it) (i - 1) ∧
      (cachePrevEntries original fuel it).prev_entries_ =
        (List.range' a (i - a)).map (cachedEntry L) ∧
      (cachePrevEntries original fuel it).prev_entries_idx_ = -1 := by
  subst horig
  induction fuel generalizing it t with
  | zero => omega
  | succ fuel ih =>
    rw [cachePrevEntries]
    obtain ⟨it1, hp, hf1, hat1, hc1, hi1⟩ := ParseNextKey_lt hw hf hb (by omega)
    rw [hp]
    dsimp only
    rw [if_neg (by decide)]
    -- the entry just parsed joins the cache
    have hentry : (⟨it1.current_, it1.key_, it1.value_⟩ : CachedPrevEntry) = cachedEntry L t := by
      rw [hat1.current, hat1.key, hat1.value]
      rfl
    have hc2 : it1.prev_entries_ ++ [⟨it1.current_, it1.key_, it1.value_⟩] =
        (List.range' a (t + 1 - a)).map (cachedEntry L) := by
      rw [hc1, hcache, hentry, show t + 1 - a = t - a + 1 by omega, List.range'_concat,
        List.map_append, List.map_singleton, show a + 1 * (t - a) = t by omega]
    have hf2 : Fields L cmp { it1 with
        prev_entries_ := it1.prev_entries_ ++ [⟨it1.current_, it1.key_, it1.value_⟩] } :=
      ⟨hf1.comparator, hf1.data, hf1.restarts, hf1.num_restarts, hf1.status, hf1.global_seqno,
        ⟨⟨a, by rw [hc2]; simp; omega, by rw [hc2]; simp⟩, Or.inl (hi1.trans hidx)⟩⟩
    have hat2 : AtEntry L { it1 with
        prev_entries_ := it1.prev_entries_ ++ [⟨it1.current_, it1.key_, it1.value_⟩] } t :=
      ⟨hat1.lt, hat1.current, hat1.key, hat1.value, hat1.restart_index⟩
    have hnext := (hat2.before_succ hw).next
    by_cases hlast : t + 1 < i
    · rw [if_pos (by rw [hnext]; exact (ofNat_offset_lt_iff hw (by omega) hi).mpr hlast)]
      exact ih hf2 (hat2.before_succ hw) (by omega) hlast hc2 (hi1.trans hidx) (by omega)
    · rw [if_neg (by rw [hnext]; exact fun h => hlast ((ofNat_offset_lt_iff hw (by omega) hi).mp h))]
      have hti' : t = i - 1 := by omega
      refine ⟨hf2, hti' ▸ hat2, ?_, hi1.trans hidx⟩
      dsimp only
      rw [hc2, show t + 1 = i by omega]

omit hw in
/-- the `k`-th cached entry of a run from `a` -/
theorem getD_cached {a len k : Nat} (hk : k < len) :
    ((List.range' a len).map (cachedEntry L)).getD k default = cachedEntry L (a + k) := by
  rw [List.getD_eq_getElem _ _ (by simpa using hk), List.getElem_map, List.getElem_range']
  simp

/-- **Prev** stands on the entry before, from the cache where it holds the entries around, else
from its restart point on; before the first entry it is past the end -/
theorem Prev_spec {it : BlockIter} {i : Nat} (hf : Fields L cmp it) (hat : AtEntry L it i) :
    Fields L cmp it.Prev ∧ (i = 0 → it.Prev.current_ = it.Prev.restarts_) ∧
      (0 < i → AtEntry L it.Prev (i - 1)) := by
  unfold Prev
  split_ifs with hhit
  · -- the cached entry at the index is the current one, and the one before it is cached too
    obtain ⟨⟨a, hlen, hrun⟩, hidx⟩ := hf.cache
    have hk : 0 < it.prev_entries_idx_.toNat ∧ it.prev_entries_idx_.toNat < it.prev_entries_.length := by
      rcases hidx with h | h <;> omega
    rw [hrun, getD_cached hk.2, hat.current] at hhit
    have hai : a + it.prev_entries_idx_.toNat = i :=
      ofNat_offset_inj hw (by omega) hat.lt.le hhit.2
    have hprev : it.prev_entries_.getD (it.prev_entries_idx_ - 1).toNat default =
        cachedEntry L (i - 1) := by
      rw [hrun, show (it.prev_entries_idx_ - 1).toNat = it.prev_entries_idx_.toNat - 1 by omega,
        getD_cached (by omega), show a + (it.prev_entries_idx_.toNat - 1) = i - 1 by omega]
    have hidx' : 0 ≤ it.prev_entries_idx_ - 1 ∧ it.prev_entries_idx_ - 1 < it.prev_entries_.length := by
      omega
    dsimp only
    rw [hprev]
    refine ⟨⟨hf.comparator, hf.data, hf.restarts, hf.num_restarts, hf.status, hf.global_seqno,
      ⟨⟨a, hlen, hrun⟩, Or.inr hidx'⟩⟩, fun h => by omega,
      fun _ => ⟨by omega, rfl, rfl, rfl, hat.restart_index⟩⟩
  · -- the slow path: back to a restart point before the entry, then forward again
    dsimp only
    have hf1 : Fields L cmp { it with prev_entries_idx_ := -1, prev_entries_ := [] } :=
      ⟨hf.comparator, hf.data, hf.restarts, hf.num_restarts, hf.status, hf.global_seqno,
        ⟨⟨0, by simp, by simp⟩, Or.inl rfl⟩⟩
    have hrb := restartBefore_spec hw hf1 hat.current hat.lt.le hat.restart_index
      (show _ < it.restart_index_.toNat + 1 by omega)
    rcases Nat.eq_zero_or_pos i with hi0 | hpos
    · rw [hrb.1 hi0]
      exact ⟨hf1.position _ _ _ _, fun _ => rfl, fun h => absurd h (by omega)⟩
    · obtain ⟨index, heq, hidx, hri⟩ := hrb.2 hpos
      rw [heq]
      dsimp only
      obtain ⟨hf2, hb2⟩ := SeekToRestartPoint_before hw hf1 hidx
      have hfuel := entries_lt_scanFuel hw hf
      have hin := hat.lt
      obtain ⟨hf3, hat3, hc3, -⟩ := cachePrevEntries_spec hw hat.current hf2 hb2 le_rfl hri hat.lt.le
        (by simp [SeekToRestartPoint]) rfl (show _ ≤ it.scanFuel by omega)
      exact ⟨hf3.index_last hc3 (by omega) (by omega), fun h => absurd h (by omega),
        fun _ => ⟨hat3.lt, hat3.current, hat3.key, hat3.value, hat3.restart_index⟩⟩

/-- **SeekForPrev.**  The entries not above `target` are the first `J`; `SeekForPrev(target)` stands
on the last of them, or past the end where there is none -/
theorem SeekForPrev_spec [Std.TransCmp cmp] (hsorted : L.KeysIncrease cmp) (target : List UInt8)
    {it : BlockIter} (hf : Fields L cmp it) :
    ∃ J, J ≤ L.entries.length ∧
      (∀ t < L.entries.length, cmp (L.entry t).key target ≠ .gt ↔ t < J) ∧
      Fields L cmp (it.SeekForPrev target) ∧
      (J = 0 → (it.SeekForPrev target).current_ = (it.SeekForPrev target).restarts_) ∧
      (0 < J → AtEntry L (it.SeekForPrev target) (J - 1)) := by
  obtain ⟨index, hseek, hidx, hbelow⟩ := BinarySeek_all hw hsorted target hf
  obtain ⟨hf1, hb1⟩ := SeekToRestartPoint_before hw hf hidx
  have hfuel := entries_lt_scanFuel hw hf
  obtain ⟨j, hij, hscan, hnot, hfj, hat⟩ := scanForward_spec hw target hf1 hb1
    (show _ < it.scanFuel by omega)
  -- every entry before the `j`-th is below `target`
  have hlt : ∀ t < j, cmp (L.entry t).key target = .lt := fun t ht => by
    by_cases htr : t < L.restarts.getD index.toNat 0
    · exact hbelow t htr
    · exact hscan t (by omega) ht
  rw [SeekForPrev, hseek]
  dsimp only
  generalize scanForward target it.scanFuel (it.SeekToRestartPoint index) = it1 at hfj hat
  rcases Nat.lt_or_ge j L.entries.length with hj | hj
  · -- on the `j`-th entry: it is equal to `target` or above it, and then `Prev` moves once
    have hatj := hat.entry hj
    rw [AtEntry.Valid hw hfj hatj, Bool.not_true, if_neg Bool.false_ne_true, scanFuel, prevWhileAbove]
    cases hc : cmp (L.entry j).key target with
    | lt => exact absurd hc (hnot hj)
    | eq =>
      -- equal to `target`: the loop stops at once
      rw [if_neg fun h => by rw [hfj.comparator, hatj.key, hc] at h; exact Ordering.noConfusion h.2]
      exact ⟨j + 1, hj, not_gt_iff_of_eq hsorted hlt hc, hfj, fun h => absurd h (by omega),
        fun _ => hatj⟩
    | gt =>
      -- above `target`: one `Prev`, to an entry below it or past the end
      rw [if_pos ⟨AtEntry.Valid hw hfj hatj, by rw [hfj.comparator, hatj.key]; exact hc⟩]
      obtain ⟨hf2, hpast2, hat2⟩ := Prev_spec hw hfj hatj
      have hstop : ¬(it1.Prev.Valid = true ∧ it1.Prev.comparator_ it1.Prev.key_ target = .gt) := by
        rintro ⟨hvalid, hgt⟩
        rcases Nat.eq_zero_or_pos j with h0 | hpos
        · rw [Valid_of_past (hpast2 h0)] at hvalid
          exact Bool.false_ne_true hvalid
        · rw [hf2.comparator, (hat2 hpos).key, hlt (j - 1) (by omega)] at hgt
          exact Ordering.noConfusion hgt
      rw [prevWhileAbove_stop target _ hstop]
      exact ⟨j, hj.le, not_gt_iff_of_gt hsorted hlt hc, hf2, hpast2, hat2⟩
  · -- past the end: every key is below `target`, and `SeekToLast` stands on the last entry
    have hjn : j = L.entries.length := le_antisymm hat.le hj
    rw [Valid_of_past (hat.past hjn), Bool.not_false, if_pos rfl]
    obtain ⟨hf2, hat2, hpast2⟩ := SeekToLast_spec hw hfj
    refine ⟨L.entries.length, le_rfl, fun t ht => ⟨fun _ => ht, fun _ => ?_⟩, hf2, hpast2, hat2⟩
    rw [hlt t (by omega)]
    exact Ordering.noConfusion

/-- `ParseNextKey` before the `i`-th entry stands on it, or past the end -/
theorem ParseNextKey_at {it : BlockIter} {i : Nat} (hf : Fields L cmp it) (hb : Before L it i) :
    Fields L cmp it.ParseNextKey.2 ∧ At L it.ParseNextKey.2 i := by
  rcases Nat.lt_or_ge i L.entries.length with hi | hi
  · obtain ⟨it1, hp, hf1, hat, -, -⟩ := ParseNextKey_lt hw hf hb hi
    rw [hp]
    exact ⟨hf1, At.of_entry hat⟩
  · have hin : i = L.entries.length := le_antisymm hb.le hi
    rw [hin] at hb ⊢
    obtain ⟨it1, hp, hf1, hpast, -, -⟩ := ParseNextKey_past hf hb
    rw [hp]
    exact ⟨hf1, At.of_past hpast⟩

/-- **Next** moves to the entry after, or past the end -/
theorem Next_spec {it : BlockIter} {i : Nat} (hf : Fields L cmp it) (hat : AtEntry L it i) :
    Fields L cmp it.Next ∧ At L it.Next (i + 1) :=
  ParseNextKey_at hw hf (hat.before_succ hw)

/-- **SeekToFirst** stands on the first entry, or past the end of a block without entries -/
theorem SeekToFirst_spec {it : BlockIter} (hf : Fields L cmp it) :
    Fields L cmp it.SeekToFirst ∧ At L it.SeekToFirst 0 := by
  have hm := restarts_length_pos hw
  obtain ⟨hf1, hb1⟩ := SeekToRestartPoint_before hw hf
    (show (0 : UInt32).toNat < L.restarts.length by simpa using hm)
  rw [UInt32.toNat_zero, restart_zero hw] at hb1
  exact ParseNextKey_at hw hf1 hb1

end Wf

/-! ## Every run of the iterator -/

/-- the pair the iterator stands on, `key()` and the bytes of `value()`; none where it is not
valid -/
def entry (it : BlockIter) : Option (List UInt8 × List UInt8) :=
  if it.Valid then some (it.key_, it.data_.extract it.value_.1 (it.value_.1 + it.value_.2)) else none

/-- the iterators a client reaches from `it₀` by the operations of the iterator, `Next()` and
`Prev()` only on a valid one as they assert -/
inductive Reaches (it₀ : BlockIter) : BlockIter → Prop
  | start : Reaches it₀ it₀
  | seekToFirst {it : BlockIter} : Reaches it₀ it → Reaches it₀ it.SeekToFirst
  | seekToLast {it : BlockIter} : Reaches it₀ it → Reaches it₀ it.SeekToLast
  | seek {it : BlockIter} (target : List UInt8) : Reaches it₀ it → Reaches it₀ (it.Seek target)
  | seekForPrev {it : BlockIter} (target : List UInt8) :
      Reaches it₀ it → Reaches it₀ (it.SeekForPrev target)
  | next {it : BlockIter} : Reaches it₀ it → it.Valid = true → Reaches it₀ it.Next
  | prev {it : BlockIter} : Reaches it₀ it → it.Valid = true → Reaches it₀ it.Prev

/-- the iterator keeps its fields and stands on an entry or past the last -/
def OnBlock (L : BlockLayout) (cmp : List UInt8 → List UInt8 → Ordering) (it : BlockIter) : Prop :=
  Fields L cmp it ∧ ∃ j, At L it j

section Runs

variable {L : BlockLayout} {cmp : List UInt8 → List UInt8 → Ordering} (hw : L.Wf)
include hw

omit hw in
/-- the iterator `NewIterator` returns, past the entries -/
theorem OnBlock.init :
    OnBlock L cmp (init cmp L.contents (UInt32.ofNat (L.offset L.entries.length))
      (UInt32.ofNat L.restarts.length) kDisableGlobalSequenceNumber) :=
  ⟨⟨rfl, rfl, rfl, rfl, rfl, rfl, ⟨⟨0, Nat.zero_le _, rfl⟩, Or.inl rfl⟩⟩, _, At.of_past rfl⟩

omit hw in
/-- a valid iterator stands on an entry -/
theorem OnBlock.atEntry {it : BlockIter} (h : OnBlock L cmp it) (hv : it.Valid = true) :
    ∃ i, AtEntry L it i := by
  obtain ⟨-, j, hat⟩ := h
  rcases Nat.lt_or_ge j L.entries.length with hj | hj
  · exact ⟨j, hat.entry hj⟩
  · rw [Valid_of_past (hat.past (le_antisymm hat.le hj))] at hv
    exact absurd hv Bool.false_ne_true

/-- **Every run keeps the invariant**: each operation from a state on the block leaves one -/
theorem OnBlock.reaches [Std.TransCmp cmp] (hsorted : L.KeysIncrease cmp) {it₀ it : BlockIter}
    (h₀ : OnBlock L cmp it₀) (hr : Reaches it₀ it) : OnBlock L cmp it := by
  induction hr with
  | start => exact h₀
  | seekToFirst _ ih =>
    obtain ⟨hf, hat⟩ := SeekToFirst_spec hw ih.1
    exact ⟨hf, _, hat⟩
  | seekToLast _ ih =>
    obtain ⟨hf, hat, hpast⟩ := SeekToLast_spec hw ih.1
    rcases Nat.eq_zero_or_pos L.entries.length with h0 | hpos
    · exact ⟨hf, _, h0 ▸ At.of_past (hpast h0)⟩
    · exact ⟨hf, _, At.of_entry (hat hpos)⟩
  | seek target _ ih =>
    obtain ⟨j, -, -, hf, hat⟩ := Seek_spec hw hsorted target ih.1
    exact ⟨hf, j, hat⟩
  | seekForPrev target _ ih =>
    obtain ⟨J, -, -, hf, hpast, hat⟩ := SeekForPrev_spec hw hsorted target ih.1
    rcases Nat.eq_zero_or_pos J with h0 | hpos
    · exact ⟨hf, _, At.of_past (hpast h0)⟩
    · exact ⟨hf, _, At.of_entry (hat hpos)⟩
  | next _ hv ih =>
    obtain ⟨i, hat⟩ := ih.atEntry hv
    obtain ⟨hf, hat'⟩ := Next_spec hw ih.1 hat
    exact ⟨hf, _, hat'⟩
  | prev _ hv ih =>
    obtain ⟨i, hat⟩ := ih.atEntry hv
    obtain ⟨hf, hpast, hat'⟩ := Prev_spec hw ih.1 hat
    rcases Nat.eq_zero_or_pos i with h0 | hpos
    · exact ⟨hf, _, At.of_past (hpast h0)⟩
    · exact ⟨hf, _, At.of_entry (hat' hpos)⟩

/-- the pair at the `j`-th entry, none past the last -/
theorem At.entry_eq {it : BlockIter} {j : Nat} (hf : Fields L cmp it) (hat : At L it j) :
    it.entry = (L.entries.map fun e => (e.key, e.value))[j]? := by
  rcases Nat.lt_or_ge j L.entries.length with hj | hj
  · have hatj := hat.entry hj
    rw [BlockIter.entry, if_pos (AtEntry.Valid hw hf hatj), hatj.key, hatj.value, hf.data,
      BlockLayout.extract_value hj, List.getElem?_map, BlockLayout.getElem?_entry hj]
    rfl
  · have hjn : j = L.entries.length := le_antisymm hat.le hj
    rw [BlockIter.entry, if_neg (by rw [Valid_of_past (hat.past hjn)]; decide), hjn]
    simp

end Runs

/-! ## Seeks on the pairs -/

section Answers

variable {L : BlockLayout} {cmp : List UInt8 → List UInt8 → Ordering} [Std.TransCmp cmp]
  (hw : L.Wf) (hsorted : L.KeysIncrease cmp)
include hw hsorted

omit [Std.TransCmp cmp] hw hsorted in
/-- the pair of the `t`-th entry -/
theorem getElem?_pairs {t : Nat} {x : List UInt8 × List UInt8}
    (h : (L.entries.map fun e => (e.key, e.value))[t]? = some x) :
    t < L.entries.length ∧ x = ((L.entry t).key, (L.entry t).value) := by
  have ht : t < L.entries.length := by
    have := (List.getElem?_eq_some_iff.mp h).1
    simpa using this
  rw [List.getElem?_map, BlockLayout.getElem?_entry ht] at h
  exact ⟨ht, (Option.some.inj h).symm⟩

/-- `Seek(target)` answers the first pair whose key is not below `target` -/
theorem Seek_entry (target : List UInt8) {it : BlockIter} (hf : Fields L cmp it) :
    (it.Seek target).entry =
      (L.entries.map fun e => (e.key, e.value)).find? fun kv => cmp kv.1 target != .lt := by
  obtain ⟨j, hlt, hnot, hf', hat⟩ := Seek_spec hw hsorted target hf
  rw [At.entry_eq hw hf' hat]
  symm
  apply List.find?_eq_getElem?_of_first
  · intro t ht x hx
    obtain ⟨-, rfl⟩ := getElem?_pairs hx
    simp [hlt t ht]
  · intro x hx
    obtain ⟨hj, rfl⟩ := getElem?_pairs hx
    simpa using hnot hj

/-- `SeekForPrev(target)` answers the last pair whose key is not above `target` -/
theorem SeekForPrev_entry (target : List UInt8) {it : BlockIter} (hf : Fields L cmp it) :
    (it.SeekForPrev target).entry =
      ((L.entries.map fun e => (e.key, e.value)).filter fun kv => cmp kv.1 target != .gt).getLast? := by
  obtain ⟨J, hJ, hiff, hf', hpast, hat⟩ := SeekForPrev_spec hw hsorted target hf
  have hfilter : ((L.entries.map fun e => (e.key, e.value)).filter fun kv => cmp kv.1 target != .gt) =
      (L.entries.map fun e => (e.key, e.value)).take J := by
    apply List.filter_eq_take_of_prefix
    intro t x hx
    obtain ⟨ht, rfl⟩ := getElem?_pairs hx
    simpa using hiff t ht
  rw [hfilter, List.getLast?_take]
  rcases Nat.eq_zero_or_pos J with h0 | hpos
  · rw [if_pos h0, At.entry_eq hw hf' (At.of_past (hpast h0))]
    simp
  · rw [if_neg (by omega), At.entry_eq hw hf' (At.of_entry (hat hpos)),
      List.getElem?_map, BlockLayout.getElem?_entry (by omega)]
    rfl

end Answers

end BlockIter

/-- keys that increase along the pairs increase along the entries -/
theorem BlockLayout.keysIncrease_of_pairwise {L : BlockLayout}
    {cmp : List UInt8 → List UInt8 → Ordering} {kvs : List (List UInt8 × List UInt8)}
    (hmap : L.entries.map (fun e => (e.key, e.value)) = kvs)
    (hsorted : kvs.Pairwise fun a b => cmp a.1 b.1 = .lt) : L.KeysIncrease cmp := by
  intro i j hij hj
  rw [← hmap, List.pairwise_map] at hsorted
  have h := List.pairwise_iff_getElem.mp hsorted i j (by omega) hj hij
  rwa [BlockLayout.entry, BlockLayout.entry, List.getD_eq_getElem _ _ (by omega),
    List.getD_eq_getElem _ _ hj]

/-- **Block seek is a lower bound.**  On the block `BlockBuilder` builds from keys that increase
under the comparator, below `2 ^ 32` bytes, every iterator a client reaches from the one
`NewIterator` returns answers `Seek(target)` with the first pair whose key is not below `target`,
and `SeekForPrev(target)` with the last pair whose key is not above it; `none` means `!Valid()`. -/
theorem block_seek_lower_bound (cmp : List UInt8 → List UInt8 → Ordering) [Std.TransCmp cmp]
    (r : Nat) (hr : 0 < r) (d : Bool) (kvs : List (List UInt8 × List UInt8))
    (hsorted : kvs.Pairwise fun a b => cmp a.1 b.1 = .lt)
    (hsize : ((BlockBuilder.new r d).addAll kvs).Finish.2.length < 2 ^ 32) :
    ∃ it, (Block.new ((BlockBuilder.new r d).addAll kvs).Finish.2
        kDisableGlobalSequenceNumber).NewIterator cmp = .iter it ∧
      ∀ it', it.Reaches it' → ∀ target,
        (it'.Seek target).entry = kvs.find? (fun kv => cmp kv.1 target != .lt) ∧
        (it'.SeekForPrev target).entry =
          (kvs.filter fun kv => cmp kv.1 target != .gt).getLast? := by
  obtain ⟨L, hb, hmap⟩ := addAll_builds r hr d kvs
  rw [hb.Finish_eq] at hsize ⊢
  have hw := hb.wf hsize
  have hkeys := BlockLayout.keysIncrease_of_pairwise hmap hsorted
  refine ⟨_, Block.NewIterator_contents hw _ cmp, fun it' hreach target => ?_⟩
  have hon := BlockIter.OnBlock.reaches hw hkeys BlockIter.OnBlock.init hreach
  rw [← hmap]
  exact ⟨BlockIter.Seek_entry hw hkeys target hon.1, BlockIter.SeekForPrev_entry hw hkeys target hon.1⟩

/-- three pairs in a block with restarts every sixteen entries and delta encoding -/
theorem block_seek_lower_bound_three :
    (0 < 16 ∧ [([1], [10]), ([1, 2], [20]), ([3], [30])].Pairwise
        (fun a b : List UInt8 × List UInt8 => compare a.1 b.1 = .lt) ∧
      ((BlockBuilder.new 16 true).addAll [([1], [10]), ([1, 2], [20]), ([3], [30])]).Finish.2.length <
        2 ^ 32) ∧
    ∃ it, (Block.new ((BlockBuilder.new 16 true).addAll
        [([1], [10]), ([1, 2], [20]), ([3], [30])]).Finish.2 kDisableGlobalSequenceNumber).NewIterator
          compare = .iter it ∧
      ∀ it', it.Reaches it' → ∀ target,
        (it'.Seek target).entry = [([1], [10]), ([1, 2], [20]), ([3], [30])].find?
          (fun kv => compare kv.1 target != .lt) ∧
        (it'.SeekForPrev target).entry =
          ([([1], [10]), ([1, 2], [20]), ([3], [30])].filter
            fun kv => compare kv.1 target != .gt).getLast? :=
  ⟨⟨by decide, by decide, by decide⟩,
    block_seek_lower_bound compare 16 (by decide) true _ (by decide) (by decide)⟩

/-- two pairs, the first with a value of `2 ^ 32` bytes: the builder writes its length, in 32 bits,
as 0 -/
theorem addAll_value_past_four_gib :
    ((BlockBuilder.new 16 true).addAll [([0], List.replicate (2 ^ 32) 0), ([1], [])]).Finish.2 =
      [0, 1, 0, 0] ++ (List.replicate (2 ^ 32) 0 ++ [0, 1, 0, 1, 0, 0, 0, 0, 1, 0, 0, 0]) := by
  rw [BlockBuilder.addAll, List.foldl_cons, List.foldl_cons, List.foldl_nil,
    BlockBuilder.Add_of_delta _ _ _ (by decide) rfl, BlockBuilder.Add_of_delta _ _ _ (by decide) rfl]
  -- the headers and the restart array, each a few bytes
  have e0 : encodeVarint32 (UInt32.ofNat 0) = [0] := by decide
  have e1 : encodeVarint32 (UInt32.ofNat 1) = [1] := by decide
  have ew : encodeVarint32 (UInt32.ofNat (2 ^ 32)) = [0] := by decide
  have f0 : encodeFixed32 0 = [0, 0, 0, 0] := by decide
  have f1 : encodeFixed32 (UInt32.ofNat 1) = [1, 0, 0, 0] := by decide
  have d00 : diffIndex [0] [] = 0 := rfl
  have d10 : diffIndex [1] [0] = 0 := rfl
  simp only [BlockBuilder.Finish, BlockEntry.bytes, BlockBuilder.new, d00, d10, List.length_replicate,
    List.length_cons, List.length_nil, e0, e1, ew, f0, f1, List.append_assoc, List.cons_append,
    List.nil_append, List.drop_zero, List.map_cons, List.map_nil, List.flatten_cons, List.flatten_nil,
    List.append_nil, Nat.zero_add, Nat.sub_zero]

/-- the block of those two pairs is `2 ^ 32 + 16` bytes long; `Block()` keeps it with its restart
array at `(2 ^ 32 + 16) - 8` cut to 32 bits, that is 8 -/
theorem NewIterator_value_past_four_gib :
    let contents :=
      ((BlockBuilder.new 16 true).addAll [([0], List.replicate (2 ^ 32) 0), ([1], [])]).Finish.2
    contents.length = 2 ^ 32 + 16 ∧
      (Block.new contents kDisableGlobalSequenceNumber).NewIterator compare =
        .iter (BlockIter.init compare contents 8 1 kDisableGlobalSequenceNumber) := by
  intro contents
  have hC : contents =
      [0, 1, 0, 0] ++ (List.replicate (2 ^ 32) 0 ++ [0, 1, 0, 1, 0, 0, 0, 0, 1, 0, 0, 0]) :=
    addAll_value_past_four_gib
  -- lengths by rewriting: the value is never unfolded
  have hlen : contents.length = 2 ^ 32 + 16 := by
    rw [hC, List.length_append, List.length_append, List.length_replicate]
    rfl
  -- the last four bytes: one restart point
  have hlast : contents.drop (2 ^ 32 + 16 - 4) = [1, 0, 0, 0] := by
    rw [hC, show 2 ^ 32 + 16 - 4 =
        [(0 : UInt8), 1, 0, 0].length + ((List.replicate (2 ^ 32) (0 : UInt8)).length + 8) by
          rw [List.length_replicate]; rfl,
      ← List.drop_drop, List.drop_left, ← List.drop_drop, List.drop_left]
    rfl
  have hnew : Block.new contents kDisableGlobalSequenceNumber =
      ⟨contents, 2 ^ 32 + 16, 8, kDisableGlobalSequenceNumber⟩ := by
    unfold Block.new
    rw [hlen]
    dsimp only
    rw [hlast, if_neg (by decide), if_neg (by decide)]
    congr 1
  have hnum : (Block.new contents kDisableGlobalSequenceNumber).NumRestarts = 1 := by
    rw [hnew, Block.NumRestarts]
    dsimp only
    rw [hlast]
    decide
  refine ⟨hlen, ?_⟩
  rw [Block.NewIterator, hnum, if_neg (by rw [hnew]; decide), if_neg (by decide), hnew]

/-- a block of `2 ^ 32 + 16` bytes from two increasing keys: its offsets wrap, and `Seek([1])` ends
on a corrupt entry instead of the second pair -/
theorem block_seek_misses_past_four_gib :
    let kvs : List (List UInt8 × List UInt8) := [([0], List.replicate (2 ^ 32) 0), ([1], [])]
    let contents := ((BlockBuilder.new 16 true).addAll kvs).Finish.2
    kvs.Pairwise (fun a b => compare a.1 b.1 = .lt) ∧ contents.length = 2 ^ 32 + 16 ∧
      ∃ it, (Block.new contents kDisableGlobalSequenceNumber).NewIterator compare = .iter it ∧
        (it.Seek [1]).entry = none ∧
        kvs.find? (fun kv => compare kv.1 [1] != .lt) = some ([1], []) := by
  obtain ⟨hlen, hiter⟩ := NewIterator_value_past_four_gib
  refine ⟨by decide +kernel, hlen, _, hiter, ?_, by decide +kernel⟩
  rw [addAll_value_past_four_gib]
  decide +kernel

end RocksDB
