import RocksDB.Table.Block
import RocksDB.Util.Comparator

/-!
# table/block_builder.cc: building a block

`BlockBuilder::Add` appends an entry and, every `block_restart_interval` entries, a restart point
where the key is stored whole; with delta encoding the other entries store only the bytes past
those they share with the key before.  `Finish` appends the restart array and its length.

* `BlockLayout`          what a block holds: its entries (each with its `shared`), the indices of
                         its restart entries, and its bytes `contents`;
* `BlockLayout.Wf`       the restart indices start at 0 and increase, their entries share nothing,
                         every `shared` is a common prefix with the key before, and the block is
                         below `2 ^ 32` bytes;
* `Builds`               a builder holds the buffer, restart offsets, counter and last key of a
                         layout; `Builds.Add` is the step, and `addAll_builds` the run from an
                         empty builder, whose `Finish` then returns the layout's `contents`.
-/

namespace RocksDB

/-- `Slice::difference_offset(b)`: the length of the common prefix, the loop of `diffIndex` -/
def Slice.difference_offset (a b : List UInt8) : Nat := diffIndex a b

/-- `PutVarint32Varint32Varint32(dst, v1, v2, v3)` -/
def putVarint32Varint32Varint32 (dst : List UInt8) (v1 v2 v3 : UInt32) : List UInt8 :=
  dst ++ (encodeVarint32 v1 ++ encodeVarint32 v2 ++ encodeVarint32 v3)

/-- a `BlockBuilder`; `estimate_` and `finished_` only feed size estimates and assertions -/
structure BlockBuilder where
  block_restart_interval_ : Nat
  use_delta_encoding_ : Bool
  buffer_ : List UInt8
  restarts_ : List UInt32
  counter_ : Nat
  last_key_ : List UInt8

namespace BlockBuilder

/-- `BlockBuilder(block_restart_interval, use_delta_encoding)`: the first restart point at 0 -/
def new (block_restart_interval : Nat) (use_delta_encoding : Bool) : BlockBuilder :=
  ⟨block_restart_interval, use_delta_encoding, [], [0], 0, []⟩

/-- `Add(key, value)` -/
def Add (b : BlockBuilder) (key value : List UInt8) : BlockBuilder :=
  let (b, shared) :=
    if b.counter_ ≥ b.block_restart_interval_ then
      -- Restart compression
      let b := { b with restarts_ := b.restarts_ ++ [UInt32.ofNat b.buffer_.length], counter_ := 0 }
      (if b.use_delta_encoding_ then { b with last_key_ := key } else b, 0)
    else if b.use_delta_encoding_ then
      ({ b with last_key_ := key }, Slice.difference_offset key b.last_key_)
    else (b, 0)
  let non_shared := key.length - shared
  { b with
    buffer_ := putVarint32Varint32Varint32 b.buffer_ (UInt32.ofNat shared) (UInt32.ofNat non_shared)
      (UInt32.ofNat value.length) ++ key.drop shared ++ value
    counter_ := b.counter_ + 1 }

/-- `Finish()`: the builder and the block's bytes -/
def Finish (b : BlockBuilder) : BlockBuilder × List UInt8 :=
  let buffer_ := b.buffer_ ++ (b.restarts_.map encodeFixed32).flatten ++
    encodeFixed32 (UInt32.ofNat b.restarts_.length)
  ({ b with buffer_ }, buffer_)

/-- the builder after adding the keys and values, in order -/
def addAll (b : BlockBuilder) (kvs : List (List UInt8 × List UInt8)) : BlockBuilder :=
  kvs.foldl (fun b kv => b.Add kv.1 kv.2) b

end BlockBuilder

/-! ## The layout of a block -/

/-- an entry as a block holds it: the bytes its key shares with the key before, the key and the
value -/
structure BlockEntry where
  shared : Nat
  key : List UInt8
  value : List UInt8

/-- an entry's bytes: `shared`, `non_shared` and `value_length` as varints, the key past `shared`,
the value -/
def BlockEntry.bytes (e : BlockEntry) : List UInt8 :=
  encodeVarint32 (UInt32.ofNat e.shared) ++ encodeVarint32 (UInt32.ofNat (e.key.length - e.shared)) ++
    encodeVarint32 (UInt32.ofNat e.value.length) ++ e.key.drop e.shared ++ e.value

/-- a block's entries and the indices of its restart entries -/
structure BlockLayout where
  entries : List BlockEntry
  restarts : List Nat

namespace BlockLayout

variable (L : BlockLayout)

/-- the offset of the `i`-th entry, the end of the entries for `i = entries.length` -/
def offset (i : Nat) : Nat := ((L.entries.take i).map BlockEntry.bytes).flatten.length

/-- the block's bytes: the entries, the restart array and its length -/
def contents : List UInt8 :=
  (L.entries.map BlockEntry.bytes).flatten ++
    (L.restarts.map fun i => encodeFixed32 (UInt32.ofNat (L.offset i))).flatten ++
    encodeFixed32 (UInt32.ofNat L.restarts.length)

/-- what the reader needs of a block: restart entries from 0 on, increasing, sharing nothing;
each `shared` a common prefix with the key before; fewer than `2 ^ 32` bytes -/
structure Wf : Prop where
  restarts_head : L.restarts.head? = some 0
  restarts_lt : L.restarts.Pairwise (· < ·)
  restarts_bound : ∀ j ∈ L.restarts, j = 0 ∨ j < L.entries.length
  shared_restart : ∀ j ∈ L.restarts, ∀ e, L.entries[j]? = some e → e.shared = 0
  shared_prefix : ∀ i e e', L.entries[i]? = some e → L.entries[i + 1]? = some e' →
    e'.shared ≤ diffIndex e'.key e.key
  contents_lt : L.contents.length < 2 ^ 32

end BlockLayout

/-! ## What the builder builds -/

/-- the builder holds a layout: its entries' bytes, the offsets of its restart entries, the entries
since the last restart, and with delta encoding the last key; without, every entry shares
nothing -/
structure Builds (b : BlockBuilder) (L : BlockLayout) : Prop where
  buffer : b.buffer_ = (L.entries.map BlockEntry.bytes).flatten
  restarts : b.restarts_ = L.restarts.map fun i => UInt32.ofNat (L.offset i)
  restarts_ne : L.restarts ≠ []
  counter : b.counter_ + L.restarts.getLast?.getD 0 = L.entries.length
  restarts_head : L.restarts.head? = some 0
  restarts_lt : L.restarts.Pairwise (· < ·)
  restarts_bound : ∀ j ∈ L.restarts, j = 0 ∨ j < L.entries.length
  shared_restart : ∀ j ∈ L.restarts, ∀ e, L.entries[j]? = some e → e.shared = 0
  shared_prefix : ∀ i e e', L.entries[i]? = some e → L.entries[i + 1]? = some e' →
    e'.shared ≤ diffIndex e'.key e.key
  last_key : b.use_delta_encoding_ = true →
    b.last_key_ = (L.entries.getLast?.map BlockEntry.key).getD []
  no_delta : b.use_delta_encoding_ = false → ∀ e ∈ L.entries, e.shared = 0

namespace BlockLayout

variable (L : BlockLayout)

theorem offset_append_of_le (es : List BlockEntry) (rs : List Nat) {i : Nat}
    (hi : i ≤ L.entries.length) : BlockLayout.offset ⟨L.entries ++ es, rs⟩ i = L.offset i := by
  simp [offset, List.take_append_of_le_length hi]

theorem offset_length : L.offset L.entries.length = (L.entries.map BlockEntry.bytes).flatten.length := by
  simp [offset]

end BlockLayout

namespace Builds

variable {b : BlockBuilder} {L : BlockLayout}

/-- the restart offsets stay where they were when an entry is appended -/
theorem restarts_append (hb : Builds b L) (e : BlockEntry) (rs : List Nat) :
    b.restarts_ = L.restarts.map fun i =>
      UInt32.ofNat (BlockLayout.offset ⟨L.entries ++ [e], rs⟩ i) := by
  rw [hb.restarts]
  refine List.map_congr_left fun j hj => ?_
  have hj' : j ≤ L.entries.length := by
    rcases hb.restarts_bound j hj with rfl | hlt
    · exact Nat.zero_le _
    · exact hlt.le
  rw [L.offset_append_of_le [e] rs hj']

/-- a common-prefix condition on the new last pair, the old pairs untouched -/
theorem shared_prefix_append (hb : Builds b L) (e : BlockEntry)
    (hlast : ∀ e₀, L.entries.getLast? = some e₀ → e.shared ≤ diffIndex e.key e₀.key) :
    ∀ i e₁ e₂, (L.entries ++ [e])[i]? = some e₁ → (L.entries ++ [e])[i + 1]? = some e₂ →
      e₂.shared ≤ diffIndex e₂.key e₁.key := by
  intro i e₁ e₂ h₁ h₂
  have hi : i < L.entries.length := by
    have := (List.getElem?_eq_some_iff.mp h₂).1
    simp at this
    omega
  rw [List.getElem?_append_left hi] at h₁
  by_cases hi' : i + 1 < L.entries.length
  · rw [List.getElem?_append_left hi'] at h₂
    exact hb.shared_prefix i e₁ e₂ h₁ h₂
  · -- the new pair: the old last entry and `e`
    have hlen : i + 1 = L.entries.length := by omega
    rw [List.getElem?_append_right (by omega), hlen, Nat.sub_self] at h₂
    cases h₂
    apply hlast
    rw [List.getLast?_eq_getElem?, ← hlen, Nat.add_sub_cancel]
    exact h₁

/-- a restart index other than 0 is an entry; 0 is one too once there are entries -/
theorem restart_lt (hb : Builds b L) {j : Nat} (hj : j ∈ L.restarts) (hpos : 0 < L.entries.length) :
    j < L.entries.length := by
  rcases hb.restarts_bound j hj with rfl | hlt
  · exact hpos
  · exact hlt

/-- the old restart entries are entries of the longer list, or the new entry at index 0 -/
theorem shared_restart_append (hb : Builds b L) (e : BlockEntry)
    (hfirst : L.entries = [] → e.shared = 0) :
    ∀ j ∈ L.restarts, ∀ e', (L.entries ++ [e])[j]? = some e' → e'.shared = 0 := by
  intro j hj e' he'
  by_cases hlt : j < L.entries.length
  · rw [List.getElem?_append_left hlt] at he'
    exact hb.shared_restart j hj e' he'
  · -- then `j = 0` and there were no entries
    have hj0 : j = 0 := (hb.restarts_bound j hj).resolve_right hlt
    have hnil : L.entries = [] := List.eq_nil_of_length_eq_zero (by omega)
    subst hj0
    rw [hnil] at he'
    cases he'
    exact hfirst hnil

end Builds

namespace BlockBuilder

variable (b : BlockBuilder) (key value : List UInt8)

theorem Add_of_restart (hc : b.counter_ ≥ b.block_restart_interval_) :
    b.Add key value = { b with
      buffer_ := b.buffer_ ++ BlockEntry.bytes ⟨0, key, value⟩
      restarts_ := b.restarts_ ++ [UInt32.ofNat b.buffer_.length]
      counter_ := 1
      last_key_ := if b.use_delta_encoding_ then key else b.last_key_ } := by
  unfold Add
  rw [if_pos hc]
  cases b.use_delta_encoding_ <;> simp [putVarint32Varint32Varint32, BlockEntry.bytes]

theorem Add_of_delta (hc : ¬b.counter_ ≥ b.block_restart_interval_)
    (hd : b.use_delta_encoding_ = true) :
    b.Add key value = { b with
      buffer_ := b.buffer_ ++ BlockEntry.bytes ⟨diffIndex key b.last_key_, key, value⟩
      counter_ := b.counter_ + 1
      last_key_ := key } := by
  unfold Add
  rw [if_neg hc, if_pos hd]
  simp [putVarint32Varint32Varint32, BlockEntry.bytes, Slice.difference_offset]

theorem Add_of_plain (hc : ¬b.counter_ ≥ b.block_restart_interval_)
    (hd : b.use_delta_encoding_ = false) :
    b.Add key value = { b with
      buffer_ := b.buffer_ ++ BlockEntry.bytes ⟨0, key, value⟩
      counter_ := b.counter_ + 1 } := by
  unfold Add
  rw [if_neg hc, if_neg (by simp [hd])]
  simp [putVarint32Varint32Varint32, BlockEntry.bytes]

@[simp] theorem block_restart_interval_Add :
    (b.Add key value).block_restart_interval_ = b.block_restart_interval_ := by
  by_cases hc : b.counter_ ≥ b.block_restart_interval_
  · rw [Add_of_restart b key value hc]
  · cases hd : b.use_delta_encoding_
    · rw [Add_of_plain b key value hc hd]
    · rw [Add_of_delta b key value hc hd]

end BlockBuilder

namespace Builds

variable {b : BlockBuilder} {L : BlockLayout}

theorem Add_restart (hb : Builds b L) (hr : 0 < b.block_restart_interval_)
    (hc : b.counter_ ≥ b.block_restart_interval_) (key value : List UInt8) :
    Builds (b.Add key value) ⟨L.entries ++ [⟨0, key, value⟩], L.restarts ++ [L.entries.length]⟩ := by
  have hpos : 0 < L.entries.length := by have := hb.counter; omega
  have hend : BlockLayout.offset ⟨L.entries ++ [⟨0, key, value⟩], L.restarts ++ [L.entries.length]⟩
      L.entries.length = b.buffer_.length := by
    rw [L.offset_append_of_le _ _ le_rfl, L.offset_length, hb.buffer]
  rw [BlockBuilder.Add_of_restart b key value hc]
  refine ⟨by simp [hb.buffer], ?_, by simp, ?_, ?_, ?_, ?_, ?_, ?_, ?_, ?_⟩
  · rw [List.map_append, List.map_singleton, hend, ← hb.restarts_append]
  · simp only [List.getLast?_append, List.getLast?_singleton, Option.some_or, Option.getD_some,
      List.length_append, List.length_singleton]
    omega
  · rw [List.head?_append_of_ne_nil _ hb.restarts_ne, hb.restarts_head]
  · refine List.pairwise_append.mpr ⟨hb.restarts_lt, List.pairwise_singleton _ _, ?_⟩
    intro j hj k hk
    rw [List.mem_singleton.mp hk]
    exact hb.restart_lt hj hpos
  · intro j hj
    rcases List.mem_append.mp hj with hj | hj
    · exact .inr (by simpa using Nat.lt_succ_of_lt (hb.restart_lt hj hpos))
    · exact .inr (by simp [List.mem_singleton.mp hj])
  · intro j hj e' he'
    rcases List.mem_append.mp hj with hj | hj
    · exact hb.shared_restart_append _ (fun _ => rfl) j hj e' he'
    · rw [List.mem_singleton.mp hj, List.getElem?_append_right le_rfl, Nat.sub_self] at he'
      cases he'
      rfl
  · exact hb.shared_prefix_append _ fun _ _ => Nat.zero_le _
  · intro hd
    change b.use_delta_encoding_ = true at hd
    simp [hd]
  · intro hd e he
    rcases List.mem_append.mp he with he | he
    · exact hb.no_delta hd e he
    · rw [List.mem_singleton.mp he]

theorem Add_delta (hb : Builds b L) (hc : ¬b.counter_ ≥ b.block_restart_interval_)
    (hd : b.use_delta_encoding_ = true) (key value : List UInt8) :
    Builds (b.Add key value)
      ⟨L.entries ++ [⟨diffIndex key b.last_key_, key, value⟩], L.restarts ++ []⟩ := by
  rw [BlockBuilder.Add_of_delta b key value hc hd, List.append_nil]
  refine ⟨by simp [hb.buffer], hb.restarts_append _ _, hb.restarts_ne, ?_, hb.restarts_head,
    hb.restarts_lt, ?_, ?_, ?_, fun _ => by simp, fun h => by simp [hd] at h⟩
  · simp only [List.length_append, List.length_singleton]
    have := hb.counter
    omega
  · intro j hj
    rcases hb.restarts_bound j hj with h | h
    · exact .inl h
    · exact .inr (by simp; omega)
  · -- the first entry shares nothing with the empty last key
    refine hb.shared_restart_append _ fun hnil => ?_
    simp [hb.last_key hd, hnil, diffIndex]
  · refine hb.shared_prefix_append _ fun e₀ he₀ => ?_
    simp [hb.last_key hd, he₀]

theorem Add_plain (hb : Builds b L) (hc : ¬b.counter_ ≥ b.block_restart_interval_)
    (hd : b.use_delta_encoding_ = false) (key value : List UInt8) :
    Builds (b.Add key value) ⟨L.entries ++ [⟨0, key, value⟩], L.restarts ++ []⟩ := by
  rw [BlockBuilder.Add_of_plain b key value hc hd, List.append_nil]
  refine ⟨by simp [hb.buffer], hb.restarts_append _ _, hb.restarts_ne, ?_, hb.restarts_head,
    hb.restarts_lt, ?_, hb.shared_restart_append _ fun _ => rfl,
    hb.shared_prefix_append _ fun _ _ => Nat.zero_le _, fun h => by simp [hd] at h, ?_⟩
  · simp only [List.length_append, List.length_singleton]
    have := hb.counter
    omega
  · intro j hj
    rcases hb.restarts_bound j hj with h | h
    · exact .inl h
    · exact .inr (by simp; omega)
  · intro _ e he
    rcases List.mem_append.mp he with he | he
    · exact hb.no_delta hd e he
    · rw [List.mem_singleton.mp he]

/-- **One `Add`.**  The entry is appended to the layout, and a restart index at it where the
counter reached the interval. -/
theorem Add (hb : Builds b L) (hr : 0 < b.block_restart_interval_) (key value : List UInt8) :
    ∃ s rs, Builds (b.Add key value) ⟨L.entries ++ [⟨s, key, value⟩], L.restarts ++ rs⟩ := by
  by_cases hc : b.counter_ ≥ b.block_restart_interval_
  · exact ⟨0, _, hb.Add_restart hr hc key value⟩
  · cases hd : b.use_delta_encoding_
    · exact ⟨0, [], hb.Add_plain hc hd key value⟩
    · exact ⟨_, [], hb.Add_delta hc hd key value⟩

theorem new (r : Nat) (d : Bool) : Builds (BlockBuilder.new r d) ⟨[], [0]⟩ where
  buffer := rfl
  restarts := rfl
  restarts_ne := by simp
  counter := rfl
  restarts_head := rfl
  restarts_lt := List.pairwise_singleton _ _
  restarts_bound := by simp
  shared_restart := by simp
  shared_prefix := by simp
  last_key := fun _ => rfl
  no_delta := by simp

/-- `Finish` appends the restart array to the entries: the layout's bytes -/
theorem Finish_eq (hb : Builds b L) : b.Finish.2 = L.contents := by
  simp [BlockBuilder.Finish, BlockLayout.contents, hb.buffer, hb.restarts, Function.comp_def]

theorem wf (hb : Builds b L) (hlt : L.contents.length < 2 ^ 32) : L.Wf :=
  ⟨hb.restarts_head, hb.restarts_lt, hb.restarts_bound, hb.shared_restart, hb.shared_prefix, hlt⟩

end Builds

/-- **What a run of `Add` builds.**  From an empty builder with a positive restart interval, the
builder holds a layout of the keys and values added, in order. -/
theorem addAll_builds (r : Nat) (hr : 0 < r) (d : Bool) (kvs : List (List UInt8 × List UInt8)) :
    ∃ L, Builds ((BlockBuilder.new r d).addAll kvs) L ∧
      L.entries.map (fun e => (e.key, e.value)) = kvs := by
  -- the run from any builder holding a layout, the interval unchanged
  suffices h : ∀ b L, Builds b L → b.block_restart_interval_ = r →
      ∃ L', Builds (b.addAll kvs) L' ∧
        L'.entries.map (fun e => (e.key, e.value)) = L.entries.map (fun e => (e.key, e.value)) ++ kvs by
    simpa using h _ _ (Builds.new r d) rfl
  induction kvs with
  | nil => exact fun b L hb _ => ⟨L, hb, by simp⟩
  | cons kv kvs ih =>
    intro b L hb hint
    obtain ⟨s, rs, hb'⟩ := hb.Add (hint ▸ hr) kv.1 kv.2
    obtain ⟨L', hL', hmap⟩ := ih _ _ hb' (by rw [BlockBuilder.block_restart_interval_Add, hint])
    exact ⟨L', hL', by simp [hmap]⟩

end RocksDB
