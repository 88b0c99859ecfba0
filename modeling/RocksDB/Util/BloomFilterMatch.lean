import RocksDB.Util.Bloom

/-!
# No false negatives of the Bloom filters

Builder and reader of each format compute the probes of a key independently; they agree, so every
bit a key's probes read was set when the key was added.

* `full_filter_no_false_negatives`: a `FullFilterBitsReader` on the bytes `Finish` returns
  answers `MayMatch` true for every key added with `AddKey`, if fewer than `2 ^ 32` keys were
  added, and probes only bits of the filter's lines.  The count of hashes is passed to
  `ReserveSpace` as an `int`; a positive multiple of `2 ^ 32` becomes 0 and the filter empty
  (`full_filter_wrapped_count`).
* `create_filter_no_false_negatives`: `KeyMayMatch` on the bytes `CreateFilter` appends to `dst`
  is true for each of its keys, and probes only bits of the filter's array; what is appended does
  not depend on `dst` (`CreateFilter_append`).

The full filter's builder picks `total_bits`, a nonzero multiple of 512 that fits 32 bits
(`GetTotalBitsForLocality_spec`), and the reader finds the cache line size 64 back from the length
(`FullFilterBitsReader.new_trailer`).
-/

namespace RocksDB

open BitArray

/-- a byte below 128 is a nonnegative `char`, so it reads back unchanged into a `size_t` -/
theorem charToSizeT_of_lt (c : UInt8) (h : c.toNat < 128) : charToSizeT c = c.toUInt64 := by
  have hc : c.toInt8 = Int8.ofNat c.toNat := by rw [← UInt8.toInt8_ofNat', UInt8.ofNat_toNat]
  have hint : c.toInt8.toInt = c.toNat := by rw [hc, Int8.toInt_ofNat_of_lt h]
  apply UInt64.toNat_inj.mp
  rw [charToSizeT, Int64.toNat_toUInt64_of_le, UInt8.toNat_toUInt64]
  · simp [Int64.toNatClampNeg, hint]
  · rw [Int64.le_iff_toInt_le, Int8.toInt_toInt64, hint]
    simp

/-- the number of probes, stored in a `char` and read back -/
theorem charToSizeT_toUInt8 {n : UInt64} (h : n ≤ 30) : charToSizeT n.toUInt8 = n := by
  have hn : n.toNat ≤ 30 := UInt64.le_iff_toNat_le.mp h
  rw [charToSizeT_of_lt _ (by simp; omega)]
  apply UInt64.toNat_inj.mp
  simp only [UInt8.toNat_toUInt64, UInt64.toNat_toUInt8]
  omega

theorem lineBitpos_lt {num_lines : UInt32} (hash h : UInt32) (hpos : 0 < num_lines.toNat)
    (hsize : num_lines.toNat * 512 < 2 ^ 32) :
    lineBitpos num_lines CACHE_LINE_SIZE hash h < num_lines.toNat * 512 := by
  have hmod : hash.toNat % num_lines.toNat < num_lines.toNat := Nat.mod_lt _ hpos
  simp only [lineBitpos, CACHE_LINE_SIZE, UInt32.reduceMul, UInt32.toNat_add, UInt32.toNat_mul,
    UInt32.toNat_mod, UInt32.reduceToNat]
  omega

theorem int32_ofNat_ne_zero {n : Nat} (hpos : 0 < n) (hlt : n < 2 ^ 32) : Int32.ofNat n ≠ 0 := by
  intro h
  have h32 : (UInt32.ofNat n).toNat = 0 := by
    rw [← Int32.toUInt32_ofNat', h]
    rfl
  rw [UInt32.toNat_ofNat', Nat.mod_eq_of_lt hlt] at h32
  omega

namespace FullFilterBitsBuilder

theorem ReserveSpace_zero (self : FullFilterBitsBuilder) :
    self.ReserveSpace 0 = (List.replicate 5 0, 0, 0) := by
  simp [ReserveSpace]

/-- an odd number of lines below `2 ^ 23 + 2`: its product with 512 is a nonzero multiple of 512 -/
private theorem oddLines_spec (m : UInt32) (hlt : m.toNat < 2 ^ 23) :
    ((if m % 2 = 0 then m + 1 else m) * (CACHE_LINE_SIZE * 8)).toNat % 512 = 0 ∧
      0 < ((if m % 2 = 0 then m + 1 else m) * (CACHE_LINE_SIZE * 8)).toNat := by
  have hodd : (if m % 2 = 0 then m + 1 else m).toNat % 2 = 1 ∧
      (if m % 2 = 0 then m + 1 else m).toNat ≤ 2 ^ 23 := by
    split <;> rename_i h <;> simp only [UInt32.ext_iff, UInt32.toNat_mod, UInt32.toNat_add] at * <;>
      simp at * <;> omega
  simp only [UInt32.toNat_mul, CACHE_LINE_SIZE, UInt32.reduceMul, UInt32.reduceToNat]
  omega

theorem GetTotalBitsForLocality_spec (total_bits : UInt32) :
    (GetTotalBitsForLocality total_bits).toNat % 512 = 0 ∧
      0 < (GetTotalBitsForLocality total_bits).toNat := by
  have hlt : ((total_bits + CACHE_LINE_SIZE * 8 - 1) / (CACHE_LINE_SIZE * 8)).toNat < 2 ^ 23 := by
    have := (total_bits + CACHE_LINE_SIZE * 8 - 1).toNat_lt
    rw [UInt32.toNat_div]
    simp only [CACHE_LINE_SIZE, UInt32.reduceMul, UInt32.reduceToNat] at *
    omega
  exact oddLines_spec _ hlt

/-- for a nonzero count `ReserveSpace` takes whole cache lines, at least one: `total_bits` is
`num_lines * 512` and the buffer has a byte for every 8 bits and five more -/
theorem ReserveSpace_of_ne (self : FullFilterBitsBuilder) {num_entry : Int32} (h : num_entry ≠ 0) :
    0 < (self.ReserveSpace num_entry).2.2.toNat ∧
      (self.ReserveSpace num_entry).2.1.toNat = (self.ReserveSpace num_entry).2.2.toNat * 512 ∧
      (self.ReserveSpace num_entry).1 =
        List.replicate (64 * (self.ReserveSpace num_entry).2.2.toNat + 5) 0 := by
  obtain ⟨hmod, hpos⟩ :=
    GetTotalBitsForLocality_spec (num_entry.toUInt32 * self.bits_per_key_.toUInt32)
  simp only [ReserveSpace, if_pos h]
  generalize GetTotalBitsForLocality (num_entry.toUInt32 * self.bits_per_key_.toUInt32) = t at hmod hpos ⊢
  have ht := t.toNat_lt
  simp only [UInt32.toNat_div, UInt32.toNat_add, CACHE_LINE_SIZE, UInt32.reduceMul,
    UInt32.reduceToNat]
  refine ⟨by omega, by omega, ?_⟩
  congr 1
  omega

/-- the trailer `Finish` writes over the last five bytes of its buffer -/
theorem encodeFixed32At_set (data : List UInt8) {i : Nat} (hlen : data.length = i + 5) (c : UInt8)
    (v : UInt32) :
    (encodeFixed32At (data.set i c) (i + 1) v).take (i + 5) = data.take i ++ c :: encodeFixed32 v := by
  rw [List.set_eq_take_append_cons_drop, if_pos (by omega), encodeFixed32At]
  have hhead : (data.take i ++ c :: data.drop (i + 1)).take (i + 1) = data.take i ++ [c] := by
    rw [List.take_append, List.take_of_length_le (by simp), List.length_take,
      Nat.min_eq_left (by omega), Nat.add_sub_cancel_left]
    rfl
  have hdrop : (data.take i ++ c :: data.drop (i + 1)).drop (i + 1 + 4) = [] :=
    List.drop_eq_nil_of_le (by simp [hlen])
  rw [hhead, hdrop, List.append_nil, List.take_of_length_le (by simp [hlen]), List.append_assoc,
    List.singleton_append]

/-- the bits `Finish` sets for the hashes `hs` in `num_lines` lines, `num_probes` for each -/
def linesProbes (num_lines : UInt32) (num_probes : Nat) (hs : List UInt32) : List Nat :=
  hs.flatMap fun h => probes (lineBitpos num_lines CACHE_LINE_SIZE h) (rotateRight17 h) h num_probes

theorem length_AddHash (self : FullFilterBitsBuilder) (h : UInt32) (data : List UInt8)
    (num_lines total_bits : UInt32) : (self.AddHash h data num_lines total_bits).length = data.length := by
  rw [AddHash, setProbes_eq, length_setBits]

theorem foldl_AddHash (self : FullFilterBitsBuilder) (hs : List UInt32) (data : List UInt8)
    (num_lines total_bits : UInt32) :
    hs.foldl (fun data h => self.AddHash h data num_lines total_bits) data =
      setBits data (linesProbes num_lines self.num_probes_.toNat hs) := by
  rw [linesProbes, setBits_flatMap]
  simp only [AddHash, setProbes_eq]

/-- `Finish` of a nonzero count of hashes: the lines with the bits of every hash set, then the
number of probes and of lines -/
theorem Finish_of_ne (self : FullFilterBitsBuilder) (h : Int32.ofNat self.hash_entries_.length ≠ 0) :
    ∃ num_lines : UInt32, 0 < num_lines.toNat ∧ num_lines.toNat * 512 < 2 ^ 32 ∧
      self.Finish.2 =
        (setBits (List.replicate (64 * num_lines.toNat + 5) 0)
            (linesProbes num_lines self.num_probes_.toNat self.hash_entries_)).take
          (64 * num_lines.toNat) ++ self.num_probes_.toUInt8 :: encodeFixed32 num_lines := by
  obtain ⟨hpos, htb, hdata⟩ := self.ReserveSpace_of_ne h
  have htlt := (self.ReserveSpace (Int32.ofNat self.hash_entries_.length)).2.1.toNat_lt
  refine ⟨_, hpos, by omega, ?_⟩
  have hne : (self.ReserveSpace (Int32.ofNat self.hash_entries_.length)).2.1 ≠ 0 ∧
      (self.ReserveSpace (Int32.ofNat self.hash_entries_.length)).2.2 ≠ 0 := by
    simp only [ne_eq, UInt32.ext_iff, UInt32.toNat_zero]; omega
  have hdiv : ((self.ReserveSpace (Int32.ofNat self.hash_entries_.length)).2.1 / 8).toNat =
      64 * (self.ReserveSpace (Int32.ofNat self.hash_entries_.length)).2.2.toNat := by
    rw [UInt32.toNat_div]; simp only [UInt32.reduceToNat]; omega
  have hdiv1 : ((self.ReserveSpace (Int32.ofNat self.hash_entries_.length)).2.1 / 8 + 1).toNat =
      64 * (self.ReserveSpace (Int32.ofNat self.hash_entries_.length)).2.2.toNat + 1 := by
    rw [UInt32.toNat_add, UInt32.toNat_div]; simp only [UInt32.reduceToNat]; omega
  have hdiv5 : ((self.ReserveSpace (Int32.ofNat self.hash_entries_.length)).2.1 / 8 + 5).toNat =
      64 * (self.ReserveSpace (Int32.ofNat self.hash_entries_.length)).2.2.toNat + 5 := by
    rw [UInt32.toNat_add, UInt32.toNat_div]; simp only [UInt32.reduceToNat]; omega
  simp only [Finish, if_pos hne, hdiv, hdiv1, hdiv5, foldl_AddHash, hdata]
  exact encodeFixed32At_set _ (by simp) _ _

/-- `Finish` of a count that is 0 as an `int`: no lines, only the trailer -/
theorem Finish_of_eq_zero (self : FullFilterBitsBuilder)
    (h : Int32.ofNat self.hash_entries_.length = 0) :
    self.Finish.2 = self.num_probes_.toUInt8 :: encodeFixed32 0 := by
  simp only [Finish, h, ReserveSpace_zero]
  exact encodeFixed32At_set (List.replicate 5 0) (i := 0) (by simp) _ _

/-- `AddKey` appends the key's hash, unless it repeats the last one held -/
theorem AddKey_cases (self : FullFilterBitsBuilder) (key : List UInt8) :
    (self.AddKey key).hash_entries_ = self.hash_entries_ ++ [BloomHash key] ∨
      (self.AddKey key = self ∧ self.hash_entries_ ≠ [] ∧
        BloomHash key = self.hash_entries_.getLastD 0) := by
  unfold AddKey
  dsimp only
  split
  · exact .inl rfl
  · rename_i hrep
    simp only [not_or, not_not] at hrep
    exact .inr ⟨rfl, List.ne_nil_of_length_pos (by omega), hrep.2⟩

theorem num_probes_AddKey (self : FullFilterBitsBuilder) (key : List UInt8) :
    (self.AddKey key).num_probes_ = self.num_probes_ := by
  unfold AddKey
  dsimp only
  split <;> rfl

theorem mem_AddKey (self : FullFilterBitsBuilder) (key : List UInt8) :
    BloomHash key ∈ (self.AddKey key).hash_entries_ := by
  rcases AddKey_cases self key with happ | ⟨hself, hne, hlast⟩
  · rw [happ]
    exact List.mem_append_right _ (List.mem_singleton_self _)
  · -- a repeated hash is the last one already held
    rw [hself, hlast, List.getLastD_eq_getLast?, List.getLast?_eq_some_getLast hne,
      Option.getD_some]
    exact List.getLast_mem hne

theorem mem_AddKey_of_mem (self : FullFilterBitsBuilder) (key : List UInt8) {h : UInt32}
    (hh : h ∈ self.hash_entries_) : h ∈ (self.AddKey key).hash_entries_ := by
  rcases AddKey_cases self key with happ | ⟨hself, -, -⟩
  · rw [happ]
    exact List.mem_append_left _ hh
  · rwa [hself]

theorem length_AddKey_le (self : FullFilterBitsBuilder) (key : List UInt8) :
    (self.AddKey key).hash_entries_.length ≤ self.hash_entries_.length + 1 := by
  rcases AddKey_cases self key with happ | ⟨hself, -, -⟩
  · rw [happ, List.length_append, List.length_singleton]
  · rw [hself]
    omega

theorem num_probes_foldl_AddKey (self : FullFilterBitsBuilder) (keys : List (List UInt8)) :
    (keys.foldl AddKey self).num_probes_ = self.num_probes_ := by
  induction keys generalizing self with
  | nil => rfl
  | cons key keys ih => rw [List.foldl_cons, ih, num_probes_AddKey]

theorem mem_foldl_AddKey_of_mem (self : FullFilterBitsBuilder) (keys : List (List UInt8)) {h : UInt32}
    (hh : h ∈ self.hash_entries_) : h ∈ (keys.foldl AddKey self).hash_entries_ := by
  induction keys generalizing self with
  | nil => exact hh
  | cons key keys ih => exact ih _ (mem_AddKey_of_mem self key hh)

/-- the builder holds the hash of every key added -/
theorem mem_foldl_AddKey (self : FullFilterBitsBuilder) (keys : List (List UInt8)) :
    ∀ k ∈ keys, BloomHash k ∈ (keys.foldl AddKey self).hash_entries_ := by
  induction keys generalizing self with
  | nil => intro k hk; cases hk
  | cons key keys ih =>
    intro k hk
    rcases List.mem_cons.mp hk with rfl | hk
    · exact mem_foldl_AddKey_of_mem _ keys (mem_AddKey self k)
    · exact ih _ k hk

theorem length_foldl_AddKey_le (self : FullFilterBitsBuilder) (keys : List (List UInt8)) :
    (keys.foldl AddKey self).hash_entries_.length ≤ self.hash_entries_.length + keys.length := by
  induction keys generalizing self with
  | nil => simp
  | cons key keys ih =>
    have := length_AddKey_le self key
    have := ih (self.AddKey key)
    simp only [List.foldl_cons, List.length_cons] at *
    omega

end FullFilterBitsBuilder

namespace FullFilterBitsReader

theorem data_len_new (contents : List UInt8) :
    (new contents).data_len_ = UInt32.ofNat contents.length := by
  unfold new
  dsimp only
  split <;> rfl

/-- a filter of at most five bytes matches nothing and is not probed -/
theorem MayMatch_of_length_le {contents : List UInt8} (h : contents.length ≤ 5)
    (entry : List UInt8) :
    (new contents).MayMatch entry = false ∧ (new contents).probedBits entry = [] := by
  have hlen : (new contents).data_len_ ≤ 5 := by
    rw [data_len_new, UInt32.le_iff_toNat_le, UInt32.toNat_ofNat', Nat.mod_eq_of_lt (by omega)]
    simpa using h
  simp [MayMatch, probedBits, hlen]

section Trailer

variable {lines : List UInt8} {num_lines : UInt32} (c : UInt8)
  (hpos : 0 < num_lines.toNat) (hsize : num_lines.toNat * 512 < 2 ^ 32)
  (hlen : lines.length = 64 * num_lines.toNat)

include hpos hsize hlen in
/-- the reader of a filter laid out as `Finish` lays it out, `64 * num_lines` bytes of lines and
the trailer, reads back the number of probes and of lines -/
theorem new_trailer :
    new (lines ++ c :: encodeFixed32 num_lines) =
      ⟨lines ++ c :: encodeFixed32 num_lines, UInt32.ofNat (lines.length + 5), charToSizeT c,
        num_lines⟩ := by
  have hlen5 : (lines ++ c :: encodeFixed32 num_lines).length = lines.length + 5 := by simp
  have hsub5 : (UInt32.ofNat (lines.length + 5) - 5).toNat = lines.length := by
    rw [UInt32.toNat_sub_of_le _ _ (by simp [UInt32.le_iff_toNat_le]; omega)]
    simp only [UInt32.toNat_ofNat', UInt32.reduceToNat]
    omega
  have hsub4 : (UInt32.ofNat (lines.length + 5) - 4).toNat = lines.length + 1 := by
    rw [UInt32.toNat_sub_of_le _ _ (by simp [UInt32.le_iff_toNat_le]; omega)]
    simp only [UInt32.toNat_ofNat', UInt32.reduceToNat]
    omega
  have hgt : ¬UInt32.ofNat (lines.length + 5) ≤ 5 := by
    rw [UInt32.le_iff_toNat_le, UInt32.toNat_ofNat']
    simp only [UInt32.reduceToNat]
    omega
  have hmeta : GetFilterMeta (lines ++ c :: encodeFixed32 num_lines) = (charToSizeT c, num_lines) := by
    have hbyte : (lines ++ c :: encodeFixed32 num_lines).getD lines.length 0 = c := by simp
    have hword : (lines ++ c :: encodeFixed32 num_lines).drop (lines.length + 1) =
        encodeFixed32 num_lines ++ [] := by simp
    rw [GetFilterMeta, hlen5, if_neg hgt, hsub5, hsub4, hbyte, hword, decodeFixed32_encodeFixed32]
  -- the lines are a whole number of cache lines, so the sanitize check passes
  have hdvd : (UInt32.ofNat (lines.length + 5) - 5) % num_lines = 0 := by
    rw [UInt32.ext_iff, UInt32.toNat_mod, hsub5, hlen, UInt32.toNat_zero, Nat.mul_mod_left]
  rw [new]
  simp only [hlen5, hmeta]
  rw [if_neg (fun h => h.2 hdvd)]

include hpos hsize hlen in
/-- its cache line size is 64 bytes again -/
theorem cache_line_size_trailer :
    (UInt32.ofNat (lines.length + 5) - 5) / num_lines = CACHE_LINE_SIZE := by
  rw [UInt32.ext_iff, UInt32.toNat_div, UInt32.toNat_sub_of_le _ _ (by simp [UInt32.le_iff_toNat_le]; omega)]
  simp only [UInt32.toNat_ofNat', CACHE_LINE_SIZE, UInt32.reduceToNat]
  rw [Nat.mod_eq_of_lt (by omega), Nat.add_sub_cancel, hlen, Nat.mul_div_cancel _ hpos]

include hpos hsize hlen in
theorem data_len_gt :
    ¬UInt32.ofNat (lines.length + 5) ≤ 5 := by
  rw [UInt32.le_iff_toNat_le, UInt32.toNat_ofNat']
  simp only [UInt32.reduceToNat]
  omega

include hpos hsize hlen in
theorem MayMatch_trailer (hc : charToSizeT c ≠ 0) (entry : List UInt8) :
    (new (lines ++ c :: encodeFixed32 num_lines)).MayMatch entry =
      testProbes (lineBitpos num_lines CACHE_LINE_SIZE (BloomHash entry))
        (rotateRight17 (BloomHash entry)) (lines ++ c :: encodeFixed32 num_lines) (BloomHash entry)
        (charToSizeT c).toNat := by
  have hlen5 : (lines ++ c :: encodeFixed32 num_lines).length = lines.length + 5 := by simp
  have hnl : num_lines ≠ 0 := by simp [UInt32.ext_iff]; omega
  have htake : (lines ++ c :: encodeFixed32 num_lines).take
      (UInt32.ofNat (lines.length + 5)).toNat = lines ++ c :: encodeFixed32 num_lines := by
    rw [UInt32.toNat_ofNat', Nat.mod_eq_of_lt (by omega), ← hlen5, List.take_length]
  rw [new_trailer c hpos hsize hlen, MayMatch]
  simp only [data_len_gt hpos hsize hlen, hc, hnl, or_self, if_false, htake, HashMayMatch,
    hlen5, cache_line_size_trailer hpos hsize hlen]

include hpos hsize hlen in
theorem probedBits_trailer (hc : charToSizeT c ≠ 0) (entry : List UInt8) :
    (new (lines ++ c :: encodeFixed32 num_lines)).probedBits entry =
      probes (lineBitpos num_lines CACHE_LINE_SIZE (BloomHash entry))
        (rotateRight17 (BloomHash entry)) (BloomHash entry) (charToSizeT c).toNat := by
  have hnl : num_lines ≠ 0 := by simp [UInt32.ext_iff]; omega
  rw [new_trailer c hpos hsize hlen, probedBits]
  simp only [data_len_gt hpos hsize hlen, hc, hnl, or_self, if_false,
    cache_line_size_trailer hpos hsize hlen]

end Trailer

end FullFilterBitsReader

namespace FullFilterBitsBuilder

/-- the reader of a full filter of a nonzero count of hashes finds set every bit of each hash the
builder held, and probes only bits of the filter's lines -/
theorem reader_Finish (self : FullFilterBitsBuilder) (h : Int32.ofNat self.hash_entries_.length ≠ 0) :
    (∀ entry, BloomHash entry ∈ self.hash_entries_ →
      (FullFilterBitsReader.new self.Finish.2).MayMatch entry = true) ∧
    ∀ entry, ∀ p ∈ (FullFilterBitsReader.new self.Finish.2).probedBits entry,
      p < 8 * ((FullFilterBitsReader.new self.Finish.2).data_len_.toNat - 5) := by
  obtain ⟨num_lines, hpos, hsize, hfinish⟩ := self.Finish_of_ne h
  have hlen : ((setBits (List.replicate (64 * num_lines.toNat + 5) 0)
      (linesProbes num_lines self.num_probes_.toNat self.hash_entries_)).take
        (64 * num_lines.toNat)).length = 64 * num_lines.toNat := by simp
  have hc : charToSizeT self.num_probes_.toUInt8 = self.num_probes_ :=
    charToSizeT_toUInt8 self.num_probes_le
  have hc0 : charToSizeT self.num_probes_.toUInt8 ≠ 0 := by
    have := UInt64.le_iff_toNat_le.mp self.one_le_num_probes
    rw [hc, ne_eq, UInt64.ext_iff]
    simp only [UInt64.reduceToNat] at *
    omega
  have hdata : (FullFilterBitsReader.new self.Finish.2).data_len_.toNat - 5 = 64 * num_lines.toNat := by
    rw [hfinish, FullFilterBitsReader.new_trailer _ hpos hsize hlen, hlen, UInt32.toNat_ofNat',
      Nat.mod_eq_of_lt (by omega)]
    omega
  rw [hdata, hfinish]
  constructor
  · intro entry hmem
    rw [FullFilterBitsReader.MayMatch_trailer _ hpos hsize hlen hc0, testProbes_eq,
      List.all_eq_true]
    intro p hp
    -- every probe lies among the lines, and was set for the entry's hash
    obtain ⟨x, rfl⟩ := exists_of_mem_probes _ _ hp
    have hlt := lineBitpos_lt (BloomHash entry) x hpos hsize
    have hset : lineBitpos num_lines CACHE_LINE_SIZE (BloomHash entry) x ∈
        linesProbes num_lines self.num_probes_.toNat self.hash_entries_ := by
      rw [linesProbes, List.mem_flatMap]
      exact ⟨_, hmem, by rwa [hc] at hp⟩
    rw [getBit_append_left _ _ (by rw [hlen]; omega), getBit_take _ (by omega)]
    exact getBit_setBits_of_mem hset (by simp; omega)
  · intro entry p hp
    rw [FullFilterBitsReader.probedBits_trailer _ hpos hsize hlen hc0] at hp
    obtain ⟨x, rfl⟩ := exists_of_mem_probes _ _ hp
    have := lineBitpos_lt (BloomHash entry) x hpos hsize
    omega

theorem AddKey_of_getLast?_ne (self : FullFilterBitsBuilder) {key : List UInt8}
    (h : self.hash_entries_.getLast? ≠ some (BloomHash key)) :
    (self.AddKey key).hash_entries_ = self.hash_entries_ ++ [BloomHash key] := by
  rcases AddKey_cases self key with happ | ⟨-, hne, hlast⟩
  · exact happ
  · rw [hlast, List.getLastD_eq_getLast?, List.getLast?_eq_some_getLast hne] at h
    exact absurd rfl h

/-- keys whose hashes alternate between two values are all held: the count grows by two per pair -/
theorem length_foldl_AddKey_alternating (self : FullFilterBitsBuilder) {k₁ k₂ : List UInt8}
    (hne : BloomHash k₁ ≠ BloomHash k₂) (hlast : self.hash_entries_.getLast? ≠ some (BloomHash k₁))
    (n : Nat) :
    ((List.replicate n [k₁, k₂]).flatten.foldl AddKey self).hash_entries_.length =
      self.hash_entries_.length + 2 * n := by
  induction n generalizing self with
  | zero => rfl
  | succ n ih =>
    have h₁ := AddKey_of_getLast?_ne self hlast
    have h₂ : ((self.AddKey k₁).AddKey k₂).hash_entries_ =
        self.hash_entries_ ++ [BloomHash k₁] ++ [BloomHash k₂] := by
      rw [AddKey_of_getLast?_ne _ (by rw [h₁]; simpa using hne), h₁]
    rw [List.replicate_succ, List.flatten_cons, List.foldl_append, List.foldl_cons,
      List.foldl_cons, List.foldl_nil, ih _ (by rw [h₂]; simpa using hne.symm), h₂]
    simp only [List.length_append, List.length_singleton]
    omega

end FullFilterBitsBuilder

namespace BloomFilterPolicy

theorem hash_entries_of_GetFilterBitsBuilder {policy : BloomFilterPolicy} {b : FullFilterBitsBuilder}
    (hb : policy.GetFilterBitsBuilder = some b) : b.hash_entries_ = [] ∧ b.num_probes_ = policy.num_probes_ := by
  unfold GetFilterBitsBuilder at hb
  split at hb
  · cases hb
  · cases hb
    exact ⟨rfl, rfl⟩

/-- every key added to the full filter builder of a policy matches the filter `Finish` returns,
when fewer than `2 ^ 32` keys were added; and every lookup probes only bits of the filter's
lines -/
theorem full_filter_no_false_negatives (policy : BloomFilterPolicy) {b : FullFilterBitsBuilder}
    (hb : policy.GetFilterBitsBuilder = some b) (keys : List (List UInt8))
    (hkeys : keys.length < 2 ^ 32) :
    (∀ k ∈ keys, (policy.GetFilterBitsReader
        (keys.foldl FullFilterBitsBuilder.AddKey b).Finish.2).MayMatch k = true) ∧
    ∀ entry, ∀ p ∈ (policy.GetFilterBitsReader
        (keys.foldl FullFilterBitsBuilder.AddKey b).Finish.2).probedBits entry,
      p < 8 * ((policy.GetFilterBitsReader
        (keys.foldl FullFilterBitsBuilder.AddKey b).Finish.2).data_len_.toNat - 5) := by
  have hempty := (hash_entries_of_GetFilterBitsBuilder hb).1
  have hle := FullFilterBitsBuilder.length_foldl_AddKey_le b keys
  rw [hempty, List.length_nil, Nat.zero_add] at hle
  simp only [GetFilterBitsReader]
  cases keys with
  | nil =>
    -- no key: the filter is its trailer alone, and nothing is probed
    have hzero : Int32.ofNat b.hash_entries_.length = 0 := by rw [hempty]; rfl
    have hshort : b.Finish.2.length ≤ 5 := by
      rw [FullFilterBitsBuilder.Finish_of_eq_zero b hzero]
      simp
    refine ⟨fun k hk => absurd hk List.not_mem_nil, fun entry p hp => ?_⟩
    rw [List.foldl_nil, (FullFilterBitsReader.MayMatch_of_length_le hshort entry).2] at hp
    cases hp
  | cons k rest =>
    have hmem := FullFilterBitsBuilder.mem_foldl_AddKey b (k :: rest)
    have hpos : 0 < ((k :: rest).foldl FullFilterBitsBuilder.AddKey b).hash_entries_.length :=
      List.length_pos_of_mem (hmem k List.mem_cons_self)
    obtain ⟨hmatch, hprobes⟩ := FullFilterBitsBuilder.reader_Finish _
      (int32_ofNat_ne_zero hpos (by omega))
    exact ⟨fun k hk => hmatch k (hmem k hk), hprobes⟩

end BloomFilterPolicy

theorem length_flatten_replicate_pair {α : Type*} (a b : α) (n : Nat) :
    (List.replicate n [a, b]).flatten.length = 2 * n := by
  induction n with
  | zero => rfl
  | succ n ih =>
    rw [List.replicate_succ, List.flatten_cons, List.length_append, ih]
    simp only [List.length_cons, List.length_nil]
    omega

/-- `2 ^ 32` keys whose hashes alternate: `ReserveSpace` gets the count 0, so the filter is empty
and none of the keys matches -/
theorem full_filter_wrapped_count :
    let policy := NewBloomFilterPolicy 10 false
    let keys : List (List UInt8) := (List.replicate (2 ^ 31) [[], [0]]).flatten
    keys.length = 2 ^ 32 ∧ ∃ b, policy.GetFilterBitsBuilder = some b ∧
      ∀ k ∈ keys, (policy.GetFilterBitsReader
        (keys.foldl FullFilterBitsBuilder.AddKey b).Finish.2).MayMatch k = false := by
  intro policy keys
  have hlen : keys.length = 2 ^ 32 := length_flatten_replicate_pair _ _ _
  refine ⟨hlen, _, rfl, fun k _ => ?_⟩
  have hhash : BloomHash [] ≠ BloomHash [0] := by decide
  have hcount : (keys.foldl FullFilterBitsBuilder.AddKey
      ⟨policy.bits_per_key_, policy.num_probes_, [], policy.one_le_num_probes,
        policy.num_probes_le⟩).hash_entries_.length = 0 + 2 * 2 ^ 31 :=
    FullFilterBitsBuilder.length_foldl_AddKey_alternating _ hhash (by simp) _
  -- the `int` count of `2 ^ 32` hashes is 0
  have hzero : Int32.ofNat (0 + 2 * 2 ^ 31) = 0 := by decide
  rw [← hcount] at hzero
  have hshort : ((keys.foldl FullFilterBitsBuilder.AddKey
      ⟨policy.bits_per_key_, policy.num_probes_, [], policy.one_le_num_probes,
        policy.num_probes_le⟩).Finish.2).length ≤ 5 := by
    rw [FullFilterBitsBuilder.Finish_of_eq_zero _ hzero]
    simp
  exact (FullFilterBitsReader.MayMatch_of_length_le hshort k).1

/-! ## The filters of the block-based format -/

namespace BloomFilterPolicy

theorem arrayBitpos_lt (bits : UInt64) (h : UInt32) (hbits : 0 < bits.toNat) :
    arrayBitpos bits h < bits.toNat := by
  have hh := h.toNat_lt
  have hmod : h.toNat % bits.toNat < bits.toNat := Nat.mod_lt _ hbits
  have hle : h.toNat % bits.toNat ≤ h.toNat := Nat.mod_le _ _
  simp only [arrayBitpos, UInt64.toNat_toUInt32, UInt64.toNat_mod, UInt32.toNat_toUInt64]
  omega

/-- the size `CreateFilter` computes for `n` keys: whole bytes, at least 8 -/
theorem createFilter_size (self : BloomFilterPolicy) (n : Nat) (hn : n < 2 ^ 31)
    (hbits : self.bits_per_key_.toNat < 2 ^ 31) :
    let bits := (Int32.ofNat n).toInt64.toUInt64 * self.bits_per_key_
    let bits := if bits < 64 then 64 else bits
    let bytes := (bits + 7) / 8
    8 ≤ bytes.toNat ∧ bytes.toNat < 2 ^ 60 ∧ (bytes * 8).toNat = 8 * bytes.toNat := by
  intro bits₀ bits₁ bytes
  have hconv : (Int32.ofNat n).toInt64.toUInt64 = UInt64.ofNat n := by
    rw [Int32.toInt64_ofNat' (by rw [Int32.toInt_maxValue]; omega), Int64.toUInt64_ofNat']
  have hprod : n * self.bits_per_key_.toNat < 2 ^ 62 :=
    calc n * self.bits_per_key_.toNat < 2 ^ 31 * 2 ^ 31 := Nat.mul_lt_mul'' hn hbits
      _ = 2 ^ 62 := by norm_num
  have h₀ : bits₀.toNat = n * self.bits_per_key_.toNat := by
    simp only [bits₀, hconv, UInt64.toNat_mul, UInt64.toNat_ofNat']
    rw [Nat.mod_eq_of_lt (by omega : n < 2 ^ 64)]
    exact Nat.mod_eq_of_lt (by omega)
  have h₁ : 64 ≤ bits₁.toNat ∧ bits₁.toNat < 2 ^ 62 := by
    simp only [bits₁]
    split <;> rename_i h <;> simp only [UInt64.lt_iff_toNat_lt, UInt64.reduceToNat] at h ⊢ <;>
      omega
  have hbytes : bytes.toNat = (bits₁.toNat + 7) / 8 := by
    simp only [bytes, UInt64.toNat_div, UInt64.toNat_add, UInt64.reduceToNat]
    rw [Nat.mod_eq_of_lt (by omega)]
  refine ⟨by omega, by omega, ?_⟩
  simp only [UInt64.toNat_mul, hbytes, UInt64.reduceToNat]
  omega

theorem toUInt64_ofNat_length {n : Nat} (hn : n < 2 ^ 31) :
    (Int32.ofNat n).toInt64.toUInt64 = UInt64.ofNat n := by
  rw [Int32.toInt64_ofNat' (by rw [Int32.toInt_maxValue]; omega), Int64.toUInt64_ofNat']

/-- `CreateFilter` of `n` keys appends to `dst` an array of at least 8 bytes, with the probes of
every key set, and the number of probes -/
theorem CreateFilter_eq (self : BloomFilterPolicy) (keys : List (List UInt8)) (dst : List UInt8)
    (hn : keys.length < 2 ^ 31) (hbits : self.bits_per_key_.toNat < 2 ^ 31) :
    ∃ bytes : UInt64, 8 ≤ bytes.toNat ∧ bytes.toNat < 2 ^ 60 ∧
      (bytes * 8).toNat = 8 * bytes.toNat ∧
      self.CreateFilter keys (Int32.ofNat keys.length) dst =
        setBits (dst ++ List.replicate bytes.toNat 0 ++ [self.num_probes_.toUInt8])
          (keys.flatMap fun key =>
            (probes (arrayBitpos (bytes * 8)) (rotateRight17 (BloomHash key)) (BloomHash key)
              self.num_probes_.toNat).map (8 * dst.length + ·)) := by
  obtain ⟨h8, hlt, hmul⟩ := createFilter_size self keys.length hn hbits
  refine ⟨_, h8, hlt, hmul, ?_⟩
  have htake : keys.take (Int32.ofNat keys.length).toInt64.toUInt64.toNat = keys := by
    rw [toUInt64_ofNat_length hn, UInt64.toNat_ofNat', Nat.mod_eq_of_lt (by omega),
      List.take_length]
  rw [CreateFilter]
  simp only [htake, setBits_flatMap, setProbes_eq, probes_map]

/-- `KeyMayMatch` probes only bits of the filter's array, for a filter of at most `2 ^ 61` bytes -/
theorem probedBits_lt (key filter : List UInt8) (hlen : filter.length ≤ 2 ^ 61) :
    ∀ p ∈ probedBits key filter, p < 8 * (filter.length - 1) := by
  intro p hp
  unfold probedBits at hp
  dsimp only at hp
  split at hp
  · cases hp
  · rename_i hshort
    have h2 : 2 ≤ filter.length := by
      simp only [not_or, not_lt] at hshort
      exact hshort.1
    obtain ⟨x, rfl⟩ := exists_of_mem_probes _ _ hp
    have hbits : (UInt64.ofNat (filter.length - 1) * 8).toNat = 8 * (filter.length - 1) := by
      simp only [UInt64.toNat_mul, UInt64.toNat_ofNat', UInt64.reduceToNat]
      omega
    have := arrayBitpos_lt (UInt64.ofNat (filter.length - 1) * 8) x (by omega)
    omega

/-- the filter `CreateFilter` appends to `dst` answers `KeyMayMatch` true for each of its keys -/
theorem KeyMayMatch_CreateFilter (self : BloomFilterPolicy) (keys : List (List UInt8))
    (dst : List UInt8) (hn : keys.length < 2 ^ 31) (hbits : self.bits_per_key_.toNat < 2 ^ 31) :
    (∀ k ∈ keys,
      self.KeyMayMatch k ((self.CreateFilter keys (Int32.ofNat keys.length) dst).drop dst.length) =
        true) ∧
    ((self.CreateFilter keys (Int32.ofNat keys.length) dst).drop dst.length).length ≤ 2 ^ 61 := by
  obtain ⟨bytes, h8, hlt, hmul, hcreate⟩ := CreateFilter_eq self keys dst hn hbits
  rw [hcreate]
  -- every probe lies in the array: below the byte of the number of probes
  have hin : ∀ p ∈ keys.flatMap (fun key =>
      (probes (arrayBitpos (bytes * 8)) (rotateRight17 (BloomHash key)) (BloomHash key)
        self.num_probes_.toNat).map (8 * dst.length + ·)),
      p / 8 < dst.length + bytes.toNat := by
    intro p hp
    simp only [List.mem_flatMap, List.mem_map] at hp
    obtain ⟨key, -, q, hq, rfl⟩ := hp
    obtain ⟨x, rfl⟩ := exists_of_mem_probes _ _ hq
    have := arrayBitpos_lt (bytes * 8) x (by omega)
    omega
  have hlen : ((setBits (dst ++ List.replicate bytes.toNat 0 ++ [self.num_probes_.toUInt8])
      (keys.flatMap fun key =>
        (probes (arrayBitpos (bytes * 8)) (rotateRight17 (BloomHash key)) (BloomHash key)
          self.num_probes_.toNat).map (8 * dst.length + ·))).drop dst.length).length =
      bytes.toNat + 1 := by simp
  refine ⟨fun k hk => ?_, by omega⟩
  have hprobe : (List.drop dst.length (setBits (dst ++ List.replicate bytes.toNat 0 ++
      [self.num_probes_.toUInt8]) (keys.flatMap fun key =>
        (probes (arrayBitpos (bytes * 8)) (rotateRight17 (BloomHash key)) (BloomHash key)
          self.num_probes_.toNat).map (8 * dst.length + ·)))).getD bytes.toNat 0 =
      self.num_probes_.toUInt8 := by
    rw [List.getD_eq_getElem?_getD, List.getElem?_drop, ← List.getD_eq_getElem?_getD,
      getD_setBits_of_forall (fun p hp => by have := hin p hp; omega)]
    simp
  have hk30 : ¬self.num_probes_ > 30 := by
    have := UInt64.le_iff_toNat_le.mp self.num_probes_le
    simp only [gt_iff_lt, UInt64.lt_iff_toNat_lt, UInt64.reduceToNat] at *
    omega
  rw [KeyMayMatch]
  simp only [hlen, Nat.add_sub_cancel, hprobe, UInt64.ofNat_toNat,
    charToSizeT_toUInt8 self.num_probes_le, show ¬bytes.toNat + 1 < 2 by omega, hk30, if_false]
  rw [testProbes_eq, List.all_eq_true]
  intro q hq
  obtain ⟨x, rfl⟩ := exists_of_mem_probes _ _ hq
  rw [getBit_drop]
  apply getBit_setBits_of_mem
  · simp only [List.mem_flatMap, List.mem_map]
    exact ⟨k, hk, _, hq, rfl⟩
  · have := arrayBitpos_lt (bytes * 8) x (by omega)
    simp
    omega

/-- the loop of `CreateFilter` over the keys, with the array past a prefix `l` -/
private theorem foldl_setProbes_append (pos : UInt32 → Nat) (np : Nat) (l : List UInt8) :
    ∀ (ks : List (List UInt8)) (r : List UInt8),
      ks.foldl (fun dst key => setProbes (fun h => 8 * l.length + pos h)
        (rotateRight17 (BloomHash key)) dst (BloomHash key) np) (l ++ r) =
      l ++ ks.foldl (fun dst key => setProbes pos (rotateRight17 (BloomHash key)) dst
        (BloomHash key) np) r
  | [], _ => rfl
  | key :: ks, r => by
    rw [List.foldl_cons, List.foldl_cons, setProbes_append, foldl_setProbes_append pos np l ks]

/-- `CreateFilter` appends to `dst` what it makes for an empty `dst` -/
theorem CreateFilter_append (self : BloomFilterPolicy) (keys : List (List UInt8)) (n : Int32)
    (dst : List UInt8) : self.CreateFilter keys n dst = dst ++ self.CreateFilter keys n [] := by
  simp only [CreateFilter, List.length_nil, Nat.mul_zero, Nat.zero_add, List.nil_append,
    List.append_assoc]
  exact foldl_setProbes_append _ _ dst _ _

/-- every key passed to `CreateFilter` matches the filter it appends to `dst`, read from the
appended range, and every lookup probes only bits of that filter's array -/
theorem create_filter_no_false_negatives (self : BloomFilterPolicy)
    (hbits : self.bits_per_key_.toNat < 2 ^ 31) (keys : List (List UInt8)) (hn : keys.length < 2 ^ 31)
    (dst : List UInt8) :
    (∀ k ∈ keys,
      self.KeyMayMatch k ((self.CreateFilter keys (Int32.ofNat keys.length) dst).drop dst.length) =
        true) ∧
    ∀ key, ∀ p ∈ probedBits key ((self.CreateFilter keys (Int32.ofNat keys.length) dst).drop dst.length),
      p < 8 * (((self.CreateFilter keys (Int32.ofNat keys.length) dst).drop dst.length).length - 1) := by
  obtain ⟨hmatch, hlen⟩ := KeyMayMatch_CreateFilter self keys dst hn hbits
  exact ⟨hmatch, fun key => probedBits_lt key _ hlen⟩

end BloomFilterPolicy

/-- a policy made from a nonnegative `int` stores fewer than `2 ^ 31` bits per key -/
theorem bits_per_key_NewBloomFilterPolicy {bits_per_key : Int32} (h : 0 ≤ bits_per_key)
    (use_block_based_builder : Bool) :
    (NewBloomFilterPolicy bits_per_key use_block_based_builder).bits_per_key_.toNat < 2 ^ 31 := by
  have hnonneg : 0 ≤ bits_per_key.toInt64 := by
    rw [Int64.le_iff_toInt_le, Int32.toInt_toInt64]
    exact Int32.le_iff_toInt_le.mp h
  have hle := Int32.toInt_le bits_per_key
  rw [Int32.toInt_maxValue] at hle
  simp only [NewBloomFilterPolicy, Int64.toNat_toUInt64_of_le hnonneg, Int64.toNatClampNeg,
    Int32.toInt_toInt64]
  omega

end RocksDB
