import RocksDB.Util.BloomFilterMatch

/-!
# util/dynamic_bloom.h, util/dynamic_bloom.cc: the memtable's Bloom filter

`DynamicBloom` is filled while it is read (the memtable's prefix filter).  Each 32-bit hash `h`
and its rotation `delta` give `kNumProbes` probes.  With `locality` the array is an odd number of
512-bit blocks, the rotated hash picks one and every probe stays in it, the state re-mixed between
probes; without, the probes are `h, h + delta, …` modulo `kTotalBits`.

* `Wf`                   what `SetTotalBits` leaves: a positive number of bits in whole bytes of the
                         array, whole blocks where there are blocks; `AddHash` keeps it;
* `DividesByZero`        no blocks, no bits and a probe to make: `h % kTotalBits` divides by zero,
                         and `AddHash` and `MayContainHash` answer `none`;
* `probePositions`       the bits `AddHash` sets and `MayContainHash` tests otherwise
                         (`AddHash_eq`, `MayContainHash_eq`); under `Wf` every one is below
                         `kTotalBits`;
* `no_false_negatives`   from `SetTotalBits`, any run of `Add` and `AddHash` returns, every hash
                         added is reported present and every probe stays in the array.

`SetTotalBits` computes `(total_bits + 7) / 8 * 8` in `uint32_t`: within 7 of `2 ^ 32` it wraps to
0, and then `h % kTotalBits` divides by zero (`SetTotalBits_wraps`).
-/

namespace RocksDB

open BitArray

/-- a `DynamicBloom`: its counters, its number of probes, the hash `Add` uses, and its bytes from
the cache-line-aligned `data_` on -/
structure DynamicBloom where
  kTotalBits : UInt32
  kNumBlocks : UInt32
  kNumProbes : UInt32
  hash_func_ : List UInt8 → UInt32
  data_ : List UInt8

namespace DynamicBloom

/-- `GetTotalBitsForLocality` of dynamic_bloom.cc: the code of bloom.cc's -/
def GetTotalBitsForLocality (total_bits : UInt32) : UInt32 :=
  FullFilterBitsBuilder.GetTotalBitsForLocality total_bits

/-- `DynamicBloom(num_probes, hash_func)`: no bits yet, `BloomHash` for a null hash -/
def new (num_probes : UInt32) (hash_func : Option (List UInt8 → UInt32)) : DynamicBloom :=
  ⟨0, 0, num_probes, hash_func.getD BloomHash, []⟩

/-- `SetTotalBits(allocator, total_bits, locality, ...)`: the zeroed bytes from the aligned start;
the `CACHE_LINE_SIZE - 1` bytes allocated past `kTotalBits / 8` where there are blocks are what the
alignment may skip -/
def SetTotalBits (bloom : DynamicBloom) (total_bits locality : UInt32) : DynamicBloom :=
  let kTotalBits := if locality > 0 then GetTotalBitsForLocality total_bits
    else (total_bits + 7) / 8 * 8
  let kNumBlocks := if locality > 0 then kTotalBits / (CACHE_LINE_SIZE * 8) else 0
  { bloom with kTotalBits, kNumBlocks, data_ := List.replicate (kTotalBits / 8).toNat 0 }

/-- `DynamicBloom(allocator, total_bits, locality, num_probes, hash_func, ...)` -/
def withTotalBits (total_bits locality num_probes : UInt32)
    (hash_func : Option (List UInt8 → UInt32)) : DynamicBloom :=
  (new num_probes hash_func).SetTotalBits total_bits locality

/-- the loops of `AddHash` and `MayContainHash` without blocks take `h % kTotalBits` at every
probe: with no bits and a probe to make, the first one divides by zero -/
def DividesByZero (bloom : DynamicBloom) : Prop :=
  bloom.kNumBlocks = 0 ∧ bloom.kTotalBits = 0 ∧ bloom.kNumProbes ≠ 0

instance (bloom : DynamicBloom) : Decidable bloom.DividesByZero :=
  inferInstanceAs (Decidable (_ ∧ _ ∧ _))

/-- `AddHash(h)`, and `AddHashConcurrently(h)`, which sets the same bits; `none` where it divides
by zero -/
def AddHash (bloom : DynamicBloom) (h : UInt32) : Option DynamicBloom :=
  let delta := rotateRight17 h
  if bloom.kNumBlocks ≠ 0 then
    some { bloom with
      data_ := setProbesBy (lineBitpos bloom.kNumBlocks CACHE_LINE_SIZE ((h >>> 11) ||| (h <<< 21)))
        (fun h => h / (CACHE_LINE_SIZE * 8) + (h % (CACHE_LINE_SIZE * 8)) *
          (0x20000000 / CACHE_LINE_SIZE) + delta)
        bloom.data_ h bloom.kNumProbes.toNat }
  else if bloom.DividesByZero then none
  else
    some { bloom with
      data_ := setProbesBy (fun h => (h % bloom.kTotalBits).toNat) (· + delta) bloom.data_ h
        bloom.kNumProbes.toNat }

/-- `MayContainHash(h)`; `none` where it divides by zero -/
def MayContainHash (bloom : DynamicBloom) (h : UInt32) : Option Bool :=
  let delta := rotateRight17 h
  if bloom.kNumBlocks ≠ 0 then
    some (testProbesBy (lineBitpos bloom.kNumBlocks CACHE_LINE_SIZE ((h >>> 11) ||| (h <<< 21)))
      (fun h => h / (CACHE_LINE_SIZE * 8) + (h % (CACHE_LINE_SIZE * 8)) *
        (0x20000000 / CACHE_LINE_SIZE) + delta)
      bloom.data_ h bloom.kNumProbes.toNat)
  else if bloom.DividesByZero then none
  else
    some (testProbesBy (fun h => (h % bloom.kTotalBits).toNat) (· + delta) bloom.data_ h
      bloom.kNumProbes.toNat)

/-- `Add(key)` -/
def Add (bloom : DynamicBloom) (key : List UInt8) : Option DynamicBloom :=
  bloom.AddHash (bloom.hash_func_ key)

/-- `MayContain(key)` -/
def MayContain (bloom : DynamicBloom) (key : List UInt8) : Option Bool :=
  bloom.MayContainHash (bloom.hash_func_ key)

/-- a call that adds to the filter -/
inductive AddCall
  | Add (key : List UInt8)
  | AddHash (hash : UInt32)

/-- the hash a call adds -/
def AddCall.hash (bloom : DynamicBloom) : AddCall → UInt32
  | .Add key => bloom.hash_func_ key
  | .AddHash h => h

/-- the filter after a call -/
def call (bloom : DynamicBloom) : AddCall → Option DynamicBloom
  | .Add key => bloom.Add key
  | .AddHash h => bloom.AddHash h

/-- the filter after the calls, in order, up to the first that divides by zero -/
def run (bloom : DynamicBloom) (calls : List AddCall) : Option DynamicBloom :=
  calls.foldlM call bloom

/-! ## The probes -/

/-- the bits `AddHash(h)` sets and `MayContainHash(h)` tests where they do not divide by zero -/
def probePositions (bloom : DynamicBloom) (h : UInt32) : List Nat :=
  let delta := rotateRight17 h
  if bloom.kNumBlocks ≠ 0 then
    probesBy (lineBitpos bloom.kNumBlocks CACHE_LINE_SIZE ((h >>> 11) ||| (h <<< 21)))
      (fun h => h / (CACHE_LINE_SIZE * 8) + (h % (CACHE_LINE_SIZE * 8)) *
        (0x20000000 / CACHE_LINE_SIZE) + delta)
      h bloom.kNumProbes.toNat
  else probesBy (fun h => (h % bloom.kTotalBits).toNat) (· + delta) h bloom.kNumProbes.toNat

variable (bloom : DynamicBloom) (h : UInt32)

theorem AddHash_eq (hz : ¬bloom.DividesByZero) :
    bloom.AddHash h = some { bloom with data_ := setBits bloom.data_ (bloom.probePositions h) } := by
  unfold AddHash probePositions
  split <;> simp only [setProbesBy_eq]

theorem MayContainHash_eq (hz : ¬bloom.DividesByZero) :
    bloom.MayContainHash h = some ((bloom.probePositions h).all (getBit bloom.data_)) := by
  unfold MayContainHash probePositions
  split <;> simp only [testProbesBy_eq]

theorem AddHash_eq_none (hz : bloom.DividesByZero) : bloom.AddHash h = none := by
  simp [AddHash, hz.1, hz]

theorem MayContainHash_eq_none (hz : bloom.DividesByZero) : bloom.MayContainHash h = none := by
  simp [MayContainHash, hz.1, hz]

/-! ## What `SetTotalBits` leaves -/

/-- a positive number of bits, in whole bytes of the array, and whole 512-bit blocks where there
are blocks -/
structure Wf (bloom : DynamicBloom) : Prop where
  total_pos : 0 < bloom.kTotalBits.toNat
  total_bytes : bloom.kTotalBits.toNat % 8 = 0
  length_data : bloom.data_.length = bloom.kTotalBits.toNat / 8
  total_blocks : bloom.kNumBlocks ≠ 0 → bloom.kTotalBits.toNat = bloom.kNumBlocks.toNat * 512

variable {bloom}

/-- with bits in the array, nothing divides by zero -/
theorem Wf.not_dividesByZero (hwf : bloom.Wf) : ¬bloom.DividesByZero := fun hz => by
  have := hwf.total_pos
  rw [hz.2.1] at this
  exact absurd this (by decide)

/-- every probe is a bit of the array -/
theorem Wf.probePositions_lt (hwf : bloom.Wf) {p : Nat} (hp : p ∈ bloom.probePositions h) :
    p < bloom.kTotalBits.toNat := by
  unfold probePositions at hp
  split at hp
  · next hblocks =>
    obtain ⟨x, rfl⟩ := exists_of_mem_probesBy _ _ hp
    have htotal := hwf.total_blocks hblocks
    have hpos : 0 < bloom.kNumBlocks.toNat := by
      have := hwf.total_pos
      rw [htotal] at this
      omega
    rw [htotal]
    exact lineBitpos_lt _ x hpos (by rw [← htotal]; exact bloom.kTotalBits.toNat_lt)
  · obtain ⟨x, rfl⟩ := exists_of_mem_probesBy _ _ hp
    rw [UInt32.toNat_mod]
    exact Nat.mod_lt _ hwf.total_pos

/-- a probe's byte is in the array -/
theorem Wf.probe_byte_lt (hwf : bloom.Wf) {p : Nat} (hp : p ∈ bloom.probePositions h) :
    p / 8 < bloom.data_.length := by
  have hlt := hwf.probePositions_lt h hp
  have hbytes := hwf.total_bytes
  rw [hwf.length_data]
  omega

/-- what `AddHash` leaves on a filter with bits: the same counters and hash function, still `Wf`,
every probe of `h` set, and every hash present before still present -/
theorem Wf.AddHash (hwf : bloom.Wf) :
    ∃ b, bloom.AddHash h = some b ∧ b.Wf ∧ b.hash_func_ = bloom.hash_func_ ∧
      (∀ h', b.probePositions h' = bloom.probePositions h') ∧ b.MayContainHash h = some true ∧
      ∀ h', bloom.MayContainHash h' = some true → b.MayContainHash h' = some true := by
  have hz := hwf.not_dividesByZero
  -- the new filter has the counters of the old, so it does not divide by zero either
  have hz' : ¬({ bloom with data_ := setBits bloom.data_ (bloom.probePositions h) } :
      DynamicBloom).DividesByZero := hz
  refine ⟨_, AddHash_eq bloom h hz, ?_, rfl, fun _ => rfl, ?_, fun h' hmay => ?_⟩
  · exact ⟨hwf.total_pos, hwf.total_bytes, by rw [length_setBits]; exact hwf.length_data,
      hwf.total_blocks⟩
  · rw [MayContainHash_eq _ h hz', Option.some.injEq, List.all_eq_true]
    exact fun p hp => getBit_setBits_of_mem hp (hwf.probe_byte_lt h hp)
  · -- adding sets bits and clears none
    rw [MayContainHash_eq _ h' hz, Option.some.injEq, List.all_eq_true] at hmay
    rw [MayContainHash_eq _ h' hz', Option.some.injEq, List.all_eq_true]
    exact fun p hp => getBit_setBits_of_getBit (hmay p hp) _

theorem SetTotalBits_wf (bloom : DynamicBloom) {total_bits locality : UInt32} (htotal : 0 < total_bits)
    (hfit : 0 < locality ∨ total_bits.toNat + 7 < 2 ^ 32) :
    (bloom.SetTotalBits total_bits locality).Wf := by
  unfold SetTotalBits
  by_cases hloc : locality > 0
  · -- whole blocks, an odd number of them
    obtain ⟨hmod, hpos⟩ := FullFilterBitsBuilder.GetTotalBitsForLocality_spec total_bits
    simp only [if_pos hloc, GetTotalBitsForLocality]
    generalize FullFilterBitsBuilder.GetTotalBitsForLocality total_bits = t at hmod hpos
    have ht := t.toNat_lt
    have hblocks : (t / (CACHE_LINE_SIZE * 8)).toNat = t.toNat / 512 := by
      simp [UInt32.toNat_div, CACHE_LINE_SIZE]
    refine ⟨?_, ?_, ?_, ?_⟩ <;> dsimp only
    · exact hpos
    · omega
    · simp [UInt32.toNat_div]
    · intro _
      rw [hblocks]
      omega
  · have hfit' : total_bits.toNat + 7 < 2 ^ 32 := hfit.resolve_left hloc
    have hpos : 0 < total_bits.toNat := UInt32.lt_iff_toNat_lt.mp htotal
    have hround : ((total_bits + 7) / 8 * 8).toNat = (total_bits.toNat + 7) / 8 * 8 := by
      simp only [UInt32.toNat_mul, UInt32.toNat_div, UInt32.toNat_add, UInt32.reduceToNat]
      rw [Nat.mod_eq_of_lt hfit', Nat.mod_eq_of_lt (by omega)]
    simp only [if_neg hloc]
    refine ⟨?_, ?_, ?_, ?_⟩ <;> dsimp only
    · rw [hround]
      omega
    · rw [hround]
      omega
    · simp [UInt32.toNat_div, hround]
    · exact fun hne => absurd rfl hne

/-! ## Runs -/

@[simp] theorem run_nil (bloom : DynamicBloom) : bloom.run [] = some bloom := rfl

theorem run_cons (bloom : DynamicBloom) (c : AddCall) (calls : List AddCall) :
    bloom.run (c :: calls) = (bloom.call c).bind fun b => b.run calls := rfl

theorem call_eq (bloom : DynamicBloom) (c : AddCall) : bloom.call c = bloom.AddHash (c.hash bloom) := by
  cases c <;> rfl

/-- a run on a filter with bits returns, and keeps `Wf`, the hash function and the probes; every
hash added before or during it is reported present after it -/
theorem Wf.run (hwf : bloom.Wf) (calls : List AddCall) :
    ∃ b, bloom.run calls = some b ∧ b.Wf ∧ b.hash_func_ = bloom.hash_func_ ∧
      (∀ h', b.probePositions h' = bloom.probePositions h') ∧
      (∀ h', bloom.MayContainHash h' = some true → b.MayContainHash h' = some true) ∧
      ∀ c ∈ calls, b.MayContainHash (c.hash bloom) = some true := by
  induction calls generalizing bloom with
  | nil => exact ⟨bloom, rfl, hwf, rfl, fun _ => rfl, fun _ h => h, by simp⟩
  | cons c calls ih =>
    obtain ⟨b₁, hb₁, hwf₁, hfunc₁, hprobes₁, hself₁, hkeep₁⟩ := hwf.AddHash (c.hash bloom)
    obtain ⟨b, hb, hwf', hfunc, hprobes, hkeep, hadded⟩ := ih hwf₁
    -- the calls after the first add the hashes they added on the first filter
    have hhash : ∀ c' : AddCall, c'.hash b₁ = c'.hash bloom := by
      intro c'
      cases c' <;> simp [AddCall.hash, hfunc₁]
    refine ⟨b, by rw [run_cons, call_eq, hb₁]; exact hb, hwf', hfunc.trans hfunc₁,
      fun h' => (hprobes h').trans (hprobes₁ h'), fun h' hmay => hkeep h' (hkeep₁ h' hmay), ?_⟩
    intro c' hc'
    rcases List.mem_cons.mp hc' with rfl | hc'
    · exact hkeep _ hself₁
    · rw [← hhash]
      exact hadded c' hc'

/-- **No false negatives, and every probe in the array.**  From `SetTotalBits` with a positive
`total_bits` (below `2 ^ 32 - 7` where there is no locality), any run of `Add` and `AddHash`
returns without dividing by zero, `MayContainHash` is true of every hash added, and every bit
`AddHash` or `MayContainHash` touches is below `kTotalBits`, in the `kTotalBits / 8` bytes
allocated. -/
theorem no_false_negatives (total_bits locality num_probes : UInt32)
    (hash_func : Option (List UInt8 → UInt32)) (htotal : 0 < total_bits)
    (hfit : 0 < locality ∨ total_bits.toNat + 7 < 2 ^ 32) (calls : List AddCall) :
    let bloom := withTotalBits total_bits locality num_probes hash_func
    ∃ b, bloom.run calls = some b ∧ (∀ c ∈ calls, b.MayContainHash (c.hash bloom) = some true) ∧
      b.data_.length = (b.kTotalBits / 8).toNat ∧
      ∀ h, ∀ p ∈ b.probePositions h, p < b.kTotalBits.toNat ∧ p / 8 < (b.kTotalBits / 8).toNat := by
  dsimp only
  have hwf0 : (withTotalBits total_bits locality num_probes hash_func).Wf :=
    SetTotalBits_wf (new num_probes hash_func) htotal hfit
  obtain ⟨b, hb, hwf, -, -, -, hadded⟩ := hwf0.run calls
  have hdiv : ∀ x : UInt32, (x / 8).toNat = x.toNat / 8 := fun x => by simp [UInt32.toNat_div]
  refine ⟨b, hb, hadded, by rw [hwf.length_data, hdiv], fun h p hp => ?_⟩
  rw [hdiv]
  exact ⟨hwf.probePositions_lt h hp, hwf.length_data ▸ hwf.probe_byte_lt h hp⟩

example : ((withTotalBits 100 0 6 none).run [.Add [1, 2, 3], .AddHash 0xdeadbeef]).bind
    (·.MayContainHash 0xdeadbeef) = some true := by
  decide

/-- `SetTotalBits(0xffffffff, 0)`: `total_bits + 7` wraps to 6, so `kTotalBits` is 0 and the array
empty, and every `AddHash` and `MayContainHash` divides by zero at its first probe -/
theorem SetTotalBits_wraps :
    (let bloom := withTotalBits 0xffffffff 0 6 none
    bloom.kTotalBits = 0 ∧ bloom.data_ = [] ∧
      ∀ h, bloom.AddHash h = none ∧ bloom.MayContainHash h = none) := by
  intro bloom
  have hz : bloom.DividesByZero := by decide
  refine ⟨by decide, by decide, fun h => ⟨AddHash_eq_none _ h hz, MayContainHash_eq_none _ h hz⟩⟩

end DynamicBloom

end RocksDB
