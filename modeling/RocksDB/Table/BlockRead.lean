import RocksDB.Table.BlockBuilder

/-!
# Reading back a block that `BlockBuilder` built

Over a layout `L` (`BlockLayout.Wf`), with `n` entries and `m` restart indices:

* `DecodeEntry_header`     an entry's header decodes to its three numbers, by the fast path where
                           each is one byte and by the varints otherwise, and the key and value fit;
* `Block.new_contents`     the block keeps its bytes, the restart array at `offset n`;
* `NewIterator_contents`   its iterator starts on them;
* `GetRestartPoint_eq`     the `j`-th restart point is the offset of the `j`-th restart entry;
* `ParseNextKey_entry`     at the offset of entry `i`, with a key sharing its first `shared` bytes,
                           `ParseNextKey` decodes entry `i` whole; `ParseNextKey_end` at `offset n`
                           runs out of entries.
-/

namespace RocksDB

open ByteCode

/-! ## Entry headers -/

/-- the first byte of a varint, below 128 exactly where the value is, and then the whole
encoding -/
theorem encodeVarint32_cons (v : UInt32) :
    ∃ b bs, encodeVarint32 v = b :: bs ∧ (b.toNat < 128 ↔ v.toNat < 128) ∧
      (v.toNat < 128 → bs = [] ∧ b.toUInt32 = v) := by
  by_cases hv : v.toNat < 128
  · refine ⟨UInt8.ofNat v.toNat, [], by rw [encodeVarint32_eq, encodeBase128_of_lt hv], ?_,
      fun _ => ⟨rfl, ?_⟩⟩
    · rw [toNat_ofNat_small hv]
    · apply UInt32.toNat_inj.mp
      rw [UInt8.toNat_toUInt32, toNat_ofNat_small hv]
  · refine ⟨UInt8.ofNat (v.toNat % 128 + 128), _, by rw [encodeVarint32_eq, encodeBase128_of_ge (by omega)],
      ?_, fun h => absurd h hv⟩
    rw [toNat_ofNat_cont]
    omega

/-- the three varints that start an entry -/
def BlockEntry.header (e : BlockEntry) : List UInt8 :=
  encodeVarint32 (UInt32.ofNat e.shared) ++ encodeVarint32 (UInt32.ofNat (e.key.length - e.shared)) ++
    encodeVarint32 (UInt32.ofNat e.value.length)

theorem BlockEntry.bytes_eq (e : BlockEntry) : e.bytes = e.header ++ (e.key.drop e.shared ++ e.value) := by
  simp [bytes, header]

theorem or_lt_128 (a b : UInt8) : (a ||| b) < 128 ↔ a < 128 ∧ b < 128 := by
  simp only [UInt8.lt_iff_toNat_lt, UInt8.toNat_or, UInt8.reduceToNat]
  constructor
  · intro h
    exact ⟨lt_of_le_of_lt Nat.left_le_or h, lt_of_le_of_lt Nat.right_le_or h⟩
  · rintro ⟨ha, hb⟩
    exact Nat.or_lt_two_pow (n := 7) ha hb



theorem getD_take_drop (data : List UInt8) {p limit k : Nat} (hk : p + k < limit) :
    ((data.take limit).drop p).getD k 0 = data.getD (p + k) 0 := by
  rw [List.getD_eq_getElem?_getD, List.getElem?_drop, List.getElem?_take_of_lt hk,
    List.getD_eq_getElem?_getD]

/-- the key and value fit in the room left: the sum taken in `uint32_t` does not wrap -/
theorem not_lt_of_fits {room ns vl : Nat} (hroom : room < 2 ^ 32) (h : ns + vl ≤ room) :
    ¬UInt32.ofNat room < UInt32.ofNat ns + UInt32.ofNat vl := by
  rw [UInt32.lt_iff_toNat_lt, UInt32.toNat_add, UInt32.toNat_ofNat', UInt32.toNat_ofNat',
    UInt32.toNat_ofNat', Nat.mod_eq_of_lt hroom, Nat.mod_eq_of_lt (by omega),
    Nat.mod_eq_of_lt (by omega), Nat.mod_eq_of_lt (by omega)]
  omega

theorem DecodeEntry_header {data : List UInt8} {p limit : Nat} (e : BlockEntry) {rest : List UInt8}
    (hlimit : limit ≤ data.length) (hlt : limit < 2 ^ 32)
    (hdata : (data.take limit).drop p = e.header ++ rest)
    (hfit : e.key.length - e.shared + e.value.length ≤ rest.length) :
    DecodeEntry data p limit = some (p + e.header.length, UInt32.ofNat e.shared,
      UInt32.ofNat (e.key.length - e.shared), UInt32.ofNat e.value.length) := by
  obtain ⟨bx, bxs, hx, hxlt, hxone⟩ := encodeVarint32_cons (UInt32.ofNat e.shared)
  obtain ⟨by', bys, hy, hylt, hyone⟩ := encodeVarint32_cons (UInt32.ofNat (e.key.length - e.shared))
  obtain ⟨bz, bzs, hz, hzlt, hzone⟩ := encodeVarint32_cons (UInt32.ofNat e.value.length)
  have hlen : limit - p = e.header.length + rest.length := by
    have := congrArg List.length hdata
    simp only [List.length_drop, List.length_take, List.length_append] at this
    omega
  have hheader : e.header = (bx :: bxs) ++ (by' :: bys) ++ (bz :: bzs) := by
    rw [BlockEntry.header, hx, hy, hz]
  have hthree : 3 ≤ e.header.length := by rw [hheader]; simp; omega
  -- the three bytes the fast path reads
  have hbyte : ∀ k, k < 3 → data.getD (p + k) 0 = (e.header ++ rest).getD k 0 := by
    intro k hk
    rw [← hdata, getD_take_drop data (by omega)]
  have hb0 : data.getD p 0 = bx := by
    simpa [hheader] using hbyte 0 (by norm_num)
  unfold DecodeEntry
  rw [if_neg (by omega), hb0]
  by_cases hsmall : (UInt32.ofNat e.shared).toNat < 128 ∧
      (UInt32.ofNat (e.key.length - e.shared)).toNat < 128 ∧ (UInt32.ofNat e.value.length).toNat < 128
  · -- the fast path: three one-byte varints
    obtain ⟨rfl, hbx⟩ := hxone hsmall.1
    obtain ⟨rfl, hby⟩ := hyone hsmall.2.1
    obtain ⟨rfl, hbz⟩ := hzone hsmall.2.2
    have hb1 : data.getD (p + 1) 0 = by' := by simpa [hheader] using hbyte 1 (by norm_num)
    have hb2 : data.getD (p + 2) 0 = bz := by simpa [hheader] using hbyte 2 (by norm_num)
    have hfast : (bx ||| by' ||| bz) < 128 := by
      rw [or_lt_128, or_lt_128, UInt8.lt_iff_toNat_lt, UInt8.lt_iff_toNat_lt, UInt8.lt_iff_toNat_lt]
      exact ⟨⟨hxlt.mpr hsmall.1, hylt.mpr hsmall.2.1⟩, hzlt.mpr hsmall.2.2⟩
    have hhlen : e.header.length = 3 := by simp [hheader]
    simp only [hb1, hb2, if_pos hfast, hbx, hby, hbz, hhlen]
    rw [if_neg (not_lt_of_fits (by omega) (by omega))]
  · -- one of the three first bytes is a varint's first byte of 128 or more
    have hslow : ¬(bx ||| data.getD (p + 1) 0 ||| data.getD (p + 2) 0) < 128 := by
      rw [or_lt_128, or_lt_128, UInt8.lt_iff_toNat_lt, UInt8.lt_iff_toNat_lt, UInt8.lt_iff_toNat_lt]
      rintro ⟨⟨h0, h1⟩, h2⟩
      have hx' := hxlt.mp h0
      obtain ⟨rfl, -⟩ := hxone hx'
      have hb1 : data.getD (p + 1) 0 = by' := by simpa [hheader] using hbyte 1 (by norm_num)
      rw [hb1] at h1
      have hy' := hylt.mp h1
      obtain ⟨rfl, -⟩ := hyone hy'
      have hb2 : data.getD (p + 2) 0 = bz := by simpa [hheader] using hbyte 2 (by norm_num)
      rw [hb2] at h2
      exact hsmall ⟨hx', hy', hzlt.mp h2⟩
    have hv : ∀ v r, getVarint32Ptr (encodeVarint32 v ++ r) = some (v, r) :=
      getVarint32_encodeVarint32
    have hdata' : (data.take limit).drop p = encodeVarint32 (UInt32.ofNat e.shared) ++
        (encodeVarint32 (UInt32.ofNat (e.key.length - e.shared)) ++
          (encodeVarint32 (UInt32.ofNat e.value.length) ++ rest)) := by
      rw [hdata, BlockEntry.header]
      simp
    simp only [if_neg hslow, hdata', hv, Option.bind_eq_bind, Option.bind_some]
    rw [if_neg (not_lt_of_fits (by omega) (by omega))]
    congr 2
    omega



/-! ## The layout's offsets -/

instance : Inhabited BlockEntry := ⟨⟨0, [], []⟩⟩

theorem BlockEntry.three_le_length_bytes (e : BlockEntry) : 3 ≤ e.bytes.length := by
  obtain ⟨bx, bxs, hx, -⟩ := encodeVarint32_cons (UInt32.ofNat e.shared)
  obtain ⟨by', bys, hy, -⟩ := encodeVarint32_cons (UInt32.ofNat (e.key.length - e.shared))
  obtain ⟨bz, bzs, hz, -⟩ := encodeVarint32_cons (UInt32.ofNat e.value.length)
  rw [bytes_eq, header, hx, hy, hz]
  simp only [List.length_append, List.length_cons]
  omega

namespace BlockLayout

variable (L : BlockLayout)

/-- the `i`-th entry -/
def entry (i : Nat) : BlockEntry := L.entries.getD i default

/-- the bytes of the entries, up to the restart array -/
def entryBytes : List UInt8 := (L.entries.map BlockEntry.bytes).flatten

/-- the restart array: an offset per restart entry -/
def restartArray : List UInt8 := (L.restarts.map fun i => encodeFixed32 (UInt32.ofNat (L.offset i))).flatten

theorem contents_eq :
    L.contents = L.entryBytes ++ (L.restartArray ++ encodeFixed32 (UInt32.ofNat L.restarts.length)) := by
  rw [contents, entryBytes, restartArray, List.append_assoc]

theorem length_restartArray : L.restartArray.length = 4 * L.restarts.length := by
  simp [restartArray, Function.comp_def, List.sum_replicate, Nat.mul_comm]

theorem length_entryBytes : L.entryBytes.length = L.offset L.entries.length := by
  rw [entryBytes, offset_length]

theorem length_contents :
    L.contents.length = L.offset L.entries.length + 4 * L.restarts.length + 4 := by
  rw [contents_eq]
  simp only [List.length_append, length_entryBytes, length_restartArray, length_encodeFixed32]
  omega

/-- past the first `i` entries start the others -/
theorem drop_offset_entryBytes (i : Nat) :
    L.entryBytes.drop (L.offset i) = ((L.entries.drop i).map BlockEntry.bytes).flatten := by
  have hsplit : L.entryBytes = ((L.entries.take i).map BlockEntry.bytes).flatten ++
      ((L.entries.drop i).map BlockEntry.bytes).flatten := by
    rw [entryBytes, ← List.flatten_append, ← List.map_append, List.take_append_drop]
  rw [hsplit, offset, List.drop_left]

theorem drop_entries {i : Nat} (hi : i < L.entries.length) :
    L.entries.drop i = L.entry i :: L.entries.drop (i + 1) := by
  rw [entry, List.getD_eq_getElem _ _ hi, List.drop_eq_getElem_cons hi]

theorem offset_succ {i : Nat} (hi : i < L.entries.length) :
    L.offset (i + 1) = L.offset i + (L.entry i).bytes.length := by
  rw [offset, offset, List.take_add_one, List.getElem?_eq_getElem hi, entry,
    List.getD_eq_getElem _ _ hi]
  simp only [Option.toList_some, List.map_append, List.flatten_append, List.length_append,
    List.map_cons, List.map_nil, List.flatten_cons, List.flatten_nil, List.append_nil]

/-- each entry takes three bytes at least -/
theorem three_mul_le_offset {i : Nat} (hi : i ≤ L.entries.length) : 3 * i ≤ L.offset i := by
  induction i with
  | zero => simp
  | succ i ih =>
    rw [L.offset_succ (by omega)]
    have := (L.entry i).three_le_length_bytes
    have := ih (by omega)
    omega

theorem offset_lt_offset {i j : Nat} (hij : i < j) (hj : j ≤ L.entries.length) :
    L.offset i < L.offset j := by
  induction j with
  | zero => omega
  | succ j ih =>
    rw [L.offset_succ (by omega)]
    have := (L.entry j).three_le_length_bytes
    rcases Nat.lt_succ_iff_lt_or_eq.mp hij with h | rfl
    · have := ih h (by omega)
      omega
    · omega

theorem offset_le_offset {i j : Nat} (hij : i ≤ j) (hj : j ≤ L.entries.length) :
    L.offset i ≤ L.offset j := by
  rcases Nat.lt_or_eq_of_le hij with h | rfl
  · exact (L.offset_lt_offset h hj).le
  · exact le_rfl

/-- the entries' bytes up to the restart array, from the `i`-th entry on -/
theorem take_drop_contents {i : Nat} (hi : i < L.entries.length) :
    (L.contents.take (L.offset L.entries.length)).drop (L.offset i) =
      (L.entry i).header ++ ((L.entry i).key.drop (L.entry i).shared ++ (L.entry i).value ++
        ((L.entries.drop (i + 1)).map BlockEntry.bytes).flatten) := by
  rw [contents_eq, ← length_entryBytes, List.take_left, drop_offset_entryBytes, drop_entries L hi]
  simp [BlockEntry.bytes_eq]


/-- the block's bytes from the `i`-th entry on -/
theorem drop_contents {i : Nat} (hi : i < L.entries.length) :
    L.contents.drop (L.offset i) =
      (L.entry i).header ++ ((L.entry i).key.drop (L.entry i).shared ++ ((L.entry i).value ++
        (((L.entries.drop (i + 1)).map BlockEntry.bytes).flatten ++
          (L.restartArray ++ encodeFixed32 (UInt32.ofNat L.restarts.length))))) := by
  have hle : L.offset i ≤ L.entryBytes.length := by
    rw [length_entryBytes]
    exact L.offset_le_offset hi.le le_rfl
  rw [contents_eq, List.drop_append_of_le_length hle, drop_offset_entryBytes, drop_entries L hi]
  simp [BlockEntry.bytes_eq]

/-- the restart array from the `j`-th offset on -/
theorem drop_restartArray {j : Nat} (hj : j < L.restarts.length) :
    L.restartArray.drop (4 * j) = encodeFixed32 (UInt32.ofNat (L.offset (L.restarts.getD j 0))) ++
      ((L.restarts.drop (j + 1)).map fun i => encodeFixed32 (UInt32.ofNat (L.offset i))).flatten := by
  have hsplit : L.restartArray =
      ((L.restarts.take j).map fun i => encodeFixed32 (UInt32.ofNat (L.offset i))).flatten ++
      ((L.restarts.drop j).map fun i => encodeFixed32 (UInt32.ofNat (L.offset i))).flatten := by
    rw [restartArray, ← List.flatten_append, ← List.map_append, List.take_append_drop]
  have hlen : ((L.restarts.take j).map fun i =>
      encodeFixed32 (UInt32.ofNat (L.offset i))).flatten.length = 4 * j := by
    simp [Function.comp_def, List.sum_replicate]
    omega
  rw [hsplit, List.drop_left' hlen, List.drop_eq_getElem_cons hj, List.getD_eq_getElem _ _ hj,
    List.map_cons, List.flatten_cons]

/-- the last four bytes are the number of restart points -/
theorem drop_count :
    L.contents.drop (L.contents.length - 4) = encodeFixed32 (UInt32.ofNat L.restarts.length) := by
  have hlen : L.contents.length - 4 = (L.entryBytes ++ L.restartArray).length := by
    rw [length_contents, List.length_append, length_entryBytes, length_restartArray]
    omega
  rw [hlen, contents_eq, ← List.append_assoc, List.drop_left]

/-- where the `i`-th entry's value starts: its bytes end with it -/
def valueOffset (i : Nat) : Nat := L.offset (i + 1) - (L.entry i).value.length

end BlockLayout


namespace BlockLayout

variable {L : BlockLayout}

theorem getElem?_entry {i : Nat} (hi : i < L.entries.length) : L.entries[i]? = some (L.entry i) := by
  rw [entry, List.getD_eq_getElem _ _ hi, List.getElem?_eq_getElem hi]

theorem length_bytes (e : BlockEntry) :
    e.bytes.length = e.header.length + (e.key.length - e.shared) + e.value.length := by
  rw [BlockEntry.bytes_eq]
  simp only [List.length_append, List.length_drop]
  omega

/-- the key bytes an entry stores, after its header -/
theorem extract_key {i : Nat} (hi : i < L.entries.length) :
    L.contents.extract (L.offset i + (L.entry i).header.length)
      (L.offset i + (L.entry i).header.length + ((L.entry i).key.length - (L.entry i).shared)) =
      (L.entry i).key.drop (L.entry i).shared := by
  rw [List.extract_eq_take_drop, Nat.add_sub_cancel_left, ← List.drop_drop, drop_contents L hi,
    List.drop_left, List.take_left' (by simp)]

/-- the value bytes an entry stores, after its key -/
theorem extract_value {i : Nat} (hi : i < L.entries.length) :
    L.contents.extract (L.valueOffset i) (L.valueOffset i + (L.entry i).value.length) =
      (L.entry i).value := by
  have hsplit : L.valueOffset i =
      L.offset i + (L.entry i).header.length + ((L.entry i).key.length - (L.entry i).shared) := by
    rw [valueOffset, offset_succ L hi, length_bytes]
    omega
  rw [List.extract_eq_take_drop, Nat.add_sub_cancel_left, hsplit, ← List.drop_drop,
    ← List.drop_drop, drop_contents L hi, List.drop_left, List.drop_left' (by simp),
    List.take_left' rfl]

namespace Wf

variable (hw : L.Wf)
include hw

/-- the first entry is a restart entry -/
theorem shared_zero : (L.entry 0).shared = 0 := by
  by_cases hn : 0 < L.entries.length
  · exact hw.shared_restart 0 (List.mem_of_mem_head? hw.restarts_head) _ (getElem?_entry hn)
  · have hnil : L.entries = [] := List.eq_nil_of_length_eq_zero (by omega)
    simp only [entry, hnil, List.getD_nil]
    rfl

theorem shared_succ {i : Nat} (hi : i + 1 < L.entries.length) :
    (L.entry (i + 1)).shared ≤ diffIndex (L.entry (i + 1)).key (L.entry i).key :=
  hw.shared_prefix i _ _ (getElem?_entry (by omega)) (getElem?_entry hi)

theorem shared_le_key {i : Nat} (hi : i < L.entries.length) :
    (L.entry i).shared ≤ (L.entry i).key.length := by
  cases i with
  | zero => rw [hw.shared_zero]; exact Nat.zero_le _
  | succ i => exact (hw.shared_succ hi).trans (diffIndex_common _ _).1

/-- a key is no longer than the bytes before it and its own: each shares at most the key before -/
theorem key_length_le {i : Nat} (hi : i < L.entries.length) :
    (L.entry i).key.length ≤ L.offset (i + 1) := by
  induction i with
  | zero =>
    have h0 := hw.shared_zero
    rw [L.offset_succ hi, length_bytes]
    omega
  | succ i ih =>
    have hshared := (hw.shared_succ hi).trans (diffIndex_common _ _).2.1
    have hprev := ih (by omega)
    rw [L.offset_succ hi, length_bytes]
    omega

theorem offset_bound : L.offset L.entries.length + 4 * L.restarts.length + 4 < 2 ^ 32 := by
  rw [← length_contents]
  exact hw.contents_lt

theorem offset_lt {i : Nat} (hi : i ≤ L.entries.length) : L.offset i < 2 ^ 32 := by
  have := L.offset_le_offset hi le_rfl
  have := hw.offset_bound
  omega

end Wf

end BlockLayout

/-! ## The block and its iterator -/

/-- the loop that moves the restart index on changes nothing else -/
theorem BlockIter.advanceRestartIndex_eq (it : BlockIter) (fuel : Nat) :
    it.advanceRestartIndex fuel =
      { it with restart_index_ := (it.advanceRestartIndex fuel).restart_index_ } := by
  induction fuel generalizing it with
  | zero => rfl
  | succ fuel ih =>
    rw [BlockIter.advanceRestartIndex]
    split_ifs
    · exact ih _
    · rfl

/-- and it stays below the number of restart points -/
theorem BlockIter.restart_index_advanceRestartIndex_lt (it : BlockIter) (fuel : Nat)
    (h : it.restart_index_ < it.num_restarts_) :
    (it.advanceRestartIndex fuel).restart_index_ < it.num_restarts_ := by
  induction fuel generalizing it with
  | zero => exact h
  | succ fuel ih =>
    rw [BlockIter.advanceRestartIndex]
    split_ifs with hc
    · exact ih _ hc.1
    · exact h

section Reading

variable {L : BlockLayout} (hw : L.Wf)
include hw

open BlockLayout

/-- **Entries decode.**  At the offset of every entry, `DecodeEntry` reads its three numbers. -/
theorem DecodeEntry_entry {i : Nat} (hi : i < L.entries.length) :
    DecodeEntry L.contents (L.offset i) (L.offset L.entries.length) =
      some (L.offset i + (L.entry i).header.length, UInt32.ofNat (L.entry i).shared,
        UInt32.ofNat ((L.entry i).key.length - (L.entry i).shared),
        UInt32.ofNat (L.entry i).value.length) := by
  have hbound := hw.offset_bound
  refine DecodeEntry_header (L.entry i) ?_ (by omega) (L.take_drop_contents hi) ?_
  · rw [length_contents]
    omega
  · simp only [List.length_append, List.length_drop]
    omega

/-- the offsets of the block fit in 32 bits -/
theorem toNat_ofNat_offset {i : Nat} (hi : i ≤ L.entries.length) :
    (UInt32.ofNat (L.offset i)).toNat = L.offset i :=
  UInt32.toNat_ofNat_of_lt' (hw.offset_lt hi)

/-- offsets compare as the entries' indices -/
theorem ofNat_offset_lt_iff {a b : Nat} (ha : a ≤ L.entries.length) (hb : b ≤ L.entries.length) :
    UInt32.ofNat (L.offset a) < UInt32.ofNat (L.offset b) ↔ a < b := by
  rw [UInt32.lt_iff_toNat_lt, toNat_ofNat_offset hw ha, toNat_ofNat_offset hw hb]
  constructor
  · intro h
    by_contra hab
    exact absurd h (Nat.not_lt.mpr (L.offset_le_offset (Nat.not_lt.mp hab) ha))
  · exact fun h => L.offset_lt_offset h hb

theorem ofNat_offset_inj {a b : Nat} (ha : a ≤ L.entries.length) (hb : b ≤ L.entries.length)
    (h : UInt32.ofNat (L.offset a) = UInt32.ofNat (L.offset b)) : a = b := by
  rcases Nat.lt_trichotomy a b with hab | hab | hab
  · exact absurd h (UInt32.ne_of_lt ((ofNat_offset_lt_iff hw ha hb).mpr hab))
  · exact hab
  · exact absurd h.symm (UInt32.ne_of_lt ((ofNat_offset_lt_iff hw hb ha).mpr hab))

theorem toNat_ofNat_restarts_length : (UInt32.ofNat L.restarts.length).toNat = L.restarts.length := by
  have := hw.offset_bound
  exact UInt32.toNat_ofNat_of_lt' (by simp only [UInt32.size]; omega)

/-- **The block keeps its bytes.**  Its restart array starts at the end of the entries. -/
theorem Block.new_contents (gs : Nat) :
    Block.new L.contents gs =
      ⟨L.contents, L.contents.length, UInt32.ofNat (L.offset L.entries.length), gs⟩ := by
  have hbound := hw.offset_bound
  have hlen := length_contents L
  have hrestart : UInt32.ofNat L.contents.length -
      (1 + decodeFixed32 (L.contents.drop (L.contents.length - 4))) * 4 =
      UInt32.ofNat (L.offset L.entries.length) := by
    rw [L.drop_count, ← List.append_nil (encodeFixed32 _), decodeFixed32_encodeFixed32]
    apply UInt32.toNat_inj.mp
    simp only [UInt32.toNat_sub, UInt32.toNat_mul, UInt32.toNat_add, UInt32.toNat_ofNat',
      UInt32.reduceToNat]
    rw [Nat.mod_eq_of_lt (by omega : L.restarts.length < 2 ^ 32),
      Nat.mod_eq_of_lt (by omega : L.offset L.entries.length < 2 ^ 32),
      Nat.mod_eq_of_lt (by omega : L.contents.length < 2 ^ 32)]
    omega
  unfold Block.new
  dsimp only
  rw [if_neg (by omega), hrestart, toNat_ofNat_offset hw le_rfl, if_neg (by omega)]

theorem Block.NumRestarts_contents (gs : Nat) :
    (Block.new L.contents gs).NumRestarts = UInt32.ofNat L.restarts.length := by
  rw [Block.new_contents hw, Block.NumRestarts, L.drop_count, ← List.append_nil (encodeFixed32 _),
    decodeFixed32_encodeFixed32]

/-- **The block's iterator** starts on the entries, with the block's restart points. -/
theorem Block.NewIterator_contents (gs : Nat) (cmp : List UInt8 → List UInt8 → Ordering) :
    (Block.new L.contents gs).NewIterator cmp =
      .iter (BlockIter.init cmp L.contents (UInt32.ofNat (L.offset L.entries.length))
        (UInt32.ofNat L.restarts.length) gs) := by
  have hm : 0 < L.restarts.length := List.length_pos_of_mem (List.mem_of_mem_head? hw.restarts_head)
  have hne : UInt32.ofNat L.restarts.length ≠ 0 := by
    intro h
    have := toNat_ofNat_restarts_length hw
    rw [h] at this
    simp at this
    omega
  have hlen := length_contents L
  rw [Block.NewIterator, Block.NumRestarts_contents hw, Block.new_contents hw]
  dsimp only
  rw [if_neg (by omega), if_neg hne]

/-- **Restart points.**  The `j`-th restart point is the offset of the `j`-th restart entry. -/
theorem GetRestartPoint_eq {it : BlockIter} (hdata : it.data_ = L.contents)
    (hrs : it.restarts_ = UInt32.ofNat (L.offset L.entries.length)) {index : UInt32}
    (hj : index.toNat < L.restarts.length) :
    it.GetRestartPoint index = UInt32.ofNat (L.offset (L.restarts.getD index.toNat 0)) := by
  have hdrop : L.contents.drop (L.offset L.entries.length + index.toNat * 4) =
      encodeFixed32 (UInt32.ofNat (L.offset (L.restarts.getD index.toNat 0))) ++
        (((L.restarts.drop (index.toNat + 1)).map fun i =>
          encodeFixed32 (UInt32.ofNat (L.offset i))).flatten ++
          encodeFixed32 (UInt32.ofNat L.restarts.length)) := by
    rw [← List.drop_drop, contents_eq, List.drop_left' (length_entryBytes L),
      List.drop_append_of_le_length (by rw [length_restartArray]; omega), Nat.mul_comm,
      drop_restartArray L hj, List.append_assoc]
  rw [BlockIter.GetRestartPoint, hdata, hrs, toNat_ofNat_offset hw le_rfl, hdrop,
    decodeFixed32_encodeFixed32]

omit hw in
/-- `ParseNextKey` at the end of the entries -/
theorem ParseNextKey_end {it : BlockIter}
    (hrs : it.restarts_ = UInt32.ofNat (L.offset L.entries.length))
    (hnext : it.NextEntryOffset = UInt32.ofNat (L.offset L.entries.length)) :
    it.ParseNextKey =
      (false, { it with current_ := it.restarts_, restart_index_ := it.num_restarts_ }) := by
  unfold BlockIter.ParseNextKey
  dsimp only
  rw [if_pos (by rw [hnext, hrs])]

/-- **Entries parse.**  Where `NextEntryOffset()` is the offset of an entry and the key held
shares that entry's `shared` bytes, `ParseNextKey` moves to the entry: its key, its value, and a
restart index among the restart points. -/
theorem ParseNextKey_entry {it : BlockIter} (hdata : it.data_ = L.contents)
    (hrs : it.restarts_ = UInt32.ofNat (L.offset L.entries.length))
    (hnum : it.num_restarts_ = UInt32.ofNat L.restarts.length)
    (hgs : it.global_seqno_ = kDisableGlobalSequenceNumber) {i : Nat} (hi : i < L.entries.length)
    (hnext : it.NextEntryOffset = UInt32.ofNat (L.offset i))
    (hkey : (L.entry i).shared ≤ it.key_.length ∧
      it.key_.take (L.entry i).shared = (L.entry i).key.take (L.entry i).shared)
    (hri : it.restart_index_.toNat < L.restarts.length) :
    ∃ ri : UInt32, ri.toNat < L.restarts.length ∧ it.ParseNextKey =
      (true, { it with current_ := UInt32.ofNat (L.offset i), key_ := (L.entry i).key,
                       value_ := (L.valueOffset i, (L.entry i).value.length),
                       restart_index_ := ri }) := by
  unfold BlockIter.ParseNextKey
  dsimp only
  rw [hnext, hrs, toNat_ofNat_offset hw hi.le, toNat_ofNat_offset hw le_rfl, if_neg (by
    have := L.offset_lt_offset hi le_rfl
    omega), hdata, DecodeEntry_entry hw hi]
  dsimp only
  -- the three numbers read back, all below `2 ^ 32`
  have hklen := hw.key_length_le hi
  have hsk := hw.shared_le_key hi
  have hbytes := offset_succ L hi
  have hbound := hw.offset_lt (i := i + 1) (by omega)
  rw [length_bytes] at hbytes
  have hs : (UInt32.ofNat (L.entry i).shared).toNat = (L.entry i).shared :=
    UInt32.toNat_ofNat_of_lt' (by simp only [UInt32.size]; omega)
  have hns : (UInt32.ofNat ((L.entry i).key.length - (L.entry i).shared)).toNat =
      (L.entry i).key.length - (L.entry i).shared :=
    UInt32.toNat_ofNat_of_lt' (by simp only [UInt32.size]; omega)
  have hvl : (UInt32.ofNat (L.entry i).value.length).toNat = (L.entry i).value.length :=
    UInt32.toNat_ofNat_of_lt' (by simp only [UInt32.size]; omega)
  -- the key: the bytes stored, after the `shared` bytes of the key held
  have hnewkey : (if UInt32.ofNat (L.entry i).shared = 0 then
      L.contents.extract (L.offset i + (L.entry i).header.length)
        (L.offset i + (L.entry i).header.length + ((L.entry i).key.length - (L.entry i).shared))
      else it.key_.take (L.entry i).shared ++
        L.contents.extract (L.offset i + (L.entry i).header.length)
          (L.offset i + (L.entry i).header.length + ((L.entry i).key.length - (L.entry i).shared))) =
      (L.entry i).key := by
    rw [extract_key hi]
    split_ifs with h0
    · have : (L.entry i).shared = 0 := by rw [← hs, h0]; rfl
      rw [this, List.drop_zero]
    · rw [hkey.2, List.take_append_drop]
  have hvalue : L.offset i + (L.entry i).header.length + ((L.entry i).key.length - (L.entry i).shared) =
      L.valueOffset i := by
    rw [valueOffset]
    omega
  have hri' : it.restart_index_ < it.num_restarts_ := by
    rw [UInt32.lt_iff_toNat_lt, hnum, toNat_ofNat_restarts_length hw]
    exact hri
  rw [hs, hns, hvl, if_neg (Nat.not_lt.mpr hkey.1), hnewkey, hgs, hvalue, if_neg (not_not.mpr rfl),
    BlockIter.advanceRestartIndex_eq]
  refine ⟨_, ?_, rfl⟩
  rw [← toNat_ofNat_restarts_length hw, ← UInt32.lt_iff_toNat_lt, ← hnum]
  exact BlockIter.restart_index_advanceRestartIndex_lt _ _ hri'

end Reading

end RocksDB
