import RocksDB.Util.Hash
import RocksDB.Lib.BitArray

/-!
# util/bloom.cc: the built-in Bloom filters

Two formats share one double hashing: each key's 32-bit `BloomHash` `h` and its rotation
`delta` give the probes `h, h + delta, h + 2 * delta, …` (`BitArray.probes`).

* the full filter (`FullFilterBitsBuilder`, `FullFilterBitsReader`) keeps all probes of a key in
  one cache line; the builder stores the number of probes and of lines in a five-byte trailer, and
  the reader derives the line size back from the filter's length;
* the filters of the block-based format (`BloomFilterPolicy::CreateFilter`, `KeyMayMatch`) probe
  `h % bits` over the whole array and end with one byte holding the number of probes.

`size_t` is `UInt64`; the number of probes is `initialize()`'s `bits_per_key_ * 0.69`, kept between
1 and 30, so every builder and policy carries those bounds.  The probe loops count with `Nat`.
-/

namespace RocksDB

open BitArray

/-- `CACHE_LINE_SIZE` (port/port_posix.h) -/
def CACHE_LINE_SIZE : UInt32 := 64

/-- `(h >> 17) | (h << 15)`: rotate right 17 bits -/
def rotateRight17 (h : UInt32) : UInt32 := (h >>> 17) ||| (h <<< 15)

/-- a `char` read into a `size_t`: sign-extended -/
def charToSizeT (c : UInt8) : UInt64 := c.toInt8.toInt64.toUInt64

/-- `b + (h % (cache_line_size * 8))` where `b = (hash % num_lines) * (cache_line_size * 8)`: the bit
of the probe `h` within the cache line that the key's `hash` picks -/
def lineBitpos (num_lines cache_line_size hash h : UInt32) : Nat :=
  let b := (hash % num_lines) * (cache_line_size * 8)
  (b + h % (cache_line_size * 8)).toNat

/-- `const uint32_t bitpos = h % bits;` of the block-based filters -/
def arrayBitpos (bits : UInt64) (h : UInt32) : Nat := (h.toUInt64 % bits).toUInt32.toNat

/-! ## FullFilterBitsBuilder -/

/-- `FullFilterBitsBuilder`; only `BloomFilterPolicy::GetFilterBitsBuilder` makes one, so its number
of probes is a policy's -/
structure FullFilterBitsBuilder where
  bits_per_key_ : UInt64
  num_probes_ : UInt64
  hash_entries_ : List UInt32
  one_le_num_probes : 1 ≤ num_probes_
  num_probes_le : num_probes_ ≤ 30

namespace FullFilterBitsBuilder

/-- `AddKey`: the key's hash, unless it repeats the last one -/
def AddKey (self : FullFilterBitsBuilder) (key : List UInt8) : FullFilterBitsBuilder :=
  let hash := BloomHash key
  if self.hash_entries_.length = 0 ∨ hash ≠ self.hash_entries_.getLastD 0 then
    { self with hash_entries_ := self.hash_entries_ ++ [hash] }
  else self

/-- `GetTotalBitsForLocality`: whole cache lines, an odd number of them -/
def GetTotalBitsForLocality (total_bits : UInt32) : UInt32 :=
  let num_lines := (total_bits + CACHE_LINE_SIZE * 8 - 1) / (CACHE_LINE_SIZE * 8)
  -- Make num_lines an odd number to make sure more bits are involved when determining which block.
  let num_lines := if num_lines % 2 = 0 then num_lines + 1 else num_lines
  num_lines * (CACHE_LINE_SIZE * 8)

/-- `ReserveSpace(num_entry, &total_bits, &num_lines)`: the zeroed buffer, `total_bits` and
`num_lines` -/
def ReserveSpace (self : FullFilterBitsBuilder) (num_entry : Int32) :
    List UInt8 × UInt32 × UInt32 :=
  -- `num_entry * static_cast<uint32_t>(bits_per_key_)` is computed in `uint32_t`
  let total_bits : UInt32 :=
    if num_entry ≠ 0 then GetTotalBitsForLocality (num_entry.toUInt32 * self.bits_per_key_.toUInt32)
    else 0
  let num_lines : UInt32 := if num_entry ≠ 0 then total_bits / (CACHE_LINE_SIZE * 8) else 0
  -- 4 bytes for num_lines, 1 byte for num_probes
  let sz := total_bits / 8 + 5
  (List.replicate sz.toNat 0, total_bits, num_lines)

/-- `AddHash(h, data, num_lines, total_bits)` -/
def AddHash (self : FullFilterBitsBuilder) (h : UInt32) (data : List UInt8)
    (num_lines _total_bits : UInt32) : List UInt8 :=
  setProbes (lineBitpos num_lines CACHE_LINE_SIZE h) (rotateRight17 h) data h self.num_probes_.toNat

/-- `Finish`: the builder with its hashes cleared, and the filter -/
def Finish (self : FullFilterBitsBuilder) : FullFilterBitsBuilder × List UInt8 :=
  let space := self.ReserveSpace (Int32.ofNat self.hash_entries_.length)
  let total_bits := space.2.1
  let num_lines := space.2.2
  let data :=
    if total_bits ≠ 0 ∧ num_lines ≠ 0 then
      self.hash_entries_.foldl (fun data h => self.AddHash h data num_lines total_bits) space.1
    else space.1
  let data := data.set (total_bits / 8).toNat self.num_probes_.toUInt8
  let data := encodeFixed32At data (total_bits / 8 + 1).toNat num_lines
  ({ self with hash_entries_ := [] }, data.take (total_bits / 8 + 5).toNat)

end FullFilterBitsBuilder

/-! ## FullFilterBitsReader -/

/-- `FullFilterBitsReader` -/
structure FullFilterBitsReader where
  data_ : List UInt8
  data_len_ : UInt32
  num_probes_ : UInt64
  num_lines_ : UInt32

namespace FullFilterBitsReader

/-- `GetFilterMeta`: the number of probes and of lines of the trailer, both 0 if the filter is empty
or broken -/
def GetFilterMeta (filter : List UInt8) : UInt64 × UInt32 :=
  let len := UInt32.ofNat filter.length
  if len ≤ 5 then (0, 0)
  else (charToSizeT (filter.getD (len - 5).toNat 0), decodeFixed32 (filter.drop (len - 4).toNat))

/-- `FullFilterBitsReader(contents)` -/
def new (contents : List UInt8) : FullFilterBitsReader :=
  let data_len_ := UInt32.ofNat contents.length
  let filter_meta := GetFilterMeta contents
  -- Sanitize broken parameter
  if filter_meta.2 ≠ 0 ∧ (data_len_ - 5) % filter_meta.2 ≠ 0 then ⟨contents, data_len_, 0, 0⟩
  else ⟨contents, data_len_, filter_meta.1, filter_meta.2⟩

/-- `HashMayMatch(hash, filter, num_probes, num_lines)` -/
def HashMayMatch (hash : UInt32) (filter : List UInt8) (num_probes : UInt64) (num_lines : UInt32) :
    Bool :=
  let len := UInt32.ofNat filter.length
  if len ≤ 5 then false
  else
    let cache_line_size := (len - 5) / num_lines
    testProbes (lineBitpos num_lines cache_line_size hash) (rotateRight17 hash) filter hash
      num_probes.toNat

/-- `MayMatch(entry)` -/
def MayMatch (self : FullFilterBitsReader) (entry : List UInt8) : Bool :=
  if self.data_len_ ≤ 5 then false
  -- Other Error params, including a broken filter, regarded as match
  else if self.num_probes_ = 0 ∨ self.num_lines_ = 0 then true
  else HashMayMatch (BloomHash entry) (self.data_.take self.data_len_.toNat) self.num_probes_
    self.num_lines_

/-- the bits `MayMatch(entry)` probes: those of `HashMayMatch`, when it is called -/
def probedBits (self : FullFilterBitsReader) (entry : List UInt8) : List Nat :=
  if self.data_len_ ≤ 5 ∨ self.num_probes_ = 0 ∨ self.num_lines_ = 0 then []
  else
    let hash := BloomHash entry
    let cache_line_size := (self.data_len_ - 5) / self.num_lines_
    probes (lineBitpos self.num_lines_ cache_line_size hash) (rotateRight17 hash) hash
      self.num_probes_.toNat

end FullFilterBitsReader

/-! ## BloomFilterPolicy -/

/-- `initialize()`: the number of probes for `bits_per_key_` -/
def BloomFilterPolicy.initializeProbes (bits_per_key_ : UInt64) : UInt64 :=
  -- We intentionally round down to reduce probing cost a little bit
  let num_probes_ := (bits_per_key_.toFloat * 0.69).toUInt64
  let num_probes_ := if num_probes_ < 1 then 1 else num_probes_
  if num_probes_ > 30 then 30 else num_probes_

theorem BloomFilterPolicy.initializeProbes_bounds (bits_per_key_ : UInt64) :
    1 ≤ initializeProbes bits_per_key_ ∧ initializeProbes bits_per_key_ ≤ 30 := by
  unfold initializeProbes
  -- whatever the floating-point product, the two clamps bound the result
  generalize (bits_per_key_.toFloat * 0.69).toUInt64 = n
  dsimp only
  split_ifs with h1 h2 h2 <;> simp only [UInt64.le_iff_toNat_le, UInt64.lt_iff_toNat_lt] at * <;>
    simp only [UInt64.reduceToNat] at * <;> omega

/-- `BloomFilterPolicy`, with the bounds `initialize()` puts on its number of probes -/
structure BloomFilterPolicy where
  bits_per_key_ : UInt64
  num_probes_ : UInt64
  use_block_based_builder_ : Bool
  one_le_num_probes : 1 ≤ num_probes_
  num_probes_le : num_probes_ ≤ 30

/-- `NewBloomFilterPolicy(bits_per_key, use_block_based_builder)` -/
def NewBloomFilterPolicy (bits_per_key : Int32) (use_block_based_builder : Bool) :
    BloomFilterPolicy :=
  -- the `int` is stored in a `size_t`
  let bits_per_key_ := bits_per_key.toInt64.toUInt64
  { bits_per_key_
    num_probes_ := BloomFilterPolicy.initializeProbes bits_per_key_
    use_block_based_builder_ := use_block_based_builder
    one_le_num_probes := (BloomFilterPolicy.initializeProbes_bounds _).1
    num_probes_le := (BloomFilterPolicy.initializeProbes_bounds _).2 }

namespace BloomFilterPolicy

/-- `CreateFilter(keys, n, dst)`: the filter of the first `n` keys, appended to `dst` -/
def CreateFilter (self : BloomFilterPolicy) (keys : List (List UInt8)) (n : Int32)
    (dst : List UInt8) : List UInt8 :=
  -- Compute bloom filter size (in both bits and bytes)
  let bits := n.toInt64.toUInt64 * self.bits_per_key_
  -- For small n, we can see a very high false positive rate.  Fix it by enforcing a minimum bloom
  -- filter length.
  let bits := if bits < 64 then 64 else bits
  let bytes := (bits + 7) / 8
  let bits := bytes * 8
  let init_size := dst.length
  -- Remember # of probes
  let dst := dst ++ List.replicate bytes.toNat 0 ++ [self.num_probes_.toUInt8]
  -- `array = &(*dst)[init_size]`: bit `bitpos` of `array` is bit `8 * init_size + bitpos` of `dst`
  (keys.take n.toInt64.toUInt64.toNat).foldl (fun dst key =>
    let h := BloomHash key
    setProbes (fun h => 8 * init_size + arrayBitpos bits h) (rotateRight17 h) dst h
      self.num_probes_.toNat) dst

/-- `KeyMayMatch(key, bloom_filter)` -/
def KeyMayMatch (_self : BloomFilterPolicy) (key bloom_filter : List UInt8) : Bool :=
  let len := bloom_filter.length
  if len < 2 then false
  else
    let bits : UInt64 := UInt64.ofNat (len - 1) * 8
    -- Use the encoded k so that we can read filters generated by bloom filters created using
    -- different parameters.
    let k := charToSizeT (bloom_filter.getD (len - 1) 0)
    -- Reserved for potentially new encodings for short bloom filters.  Consider it a match.
    if k > 30 then true
    else
      let h := BloomHash key
      testProbes (arrayBitpos bits) (rotateRight17 h) bloom_filter h k.toNat

/-- the bits `KeyMayMatch(key, bloom_filter)` probes -/
def probedBits (key bloom_filter : List UInt8) : List Nat :=
  let len := bloom_filter.length
  let k := charToSizeT (bloom_filter.getD (len - 1) 0)
  if len < 2 ∨ k > 30 then []
  else
    let h := BloomHash key
    probes (arrayBitpos (UInt64.ofNat (len - 1) * 8)) (rotateRight17 h) h k.toNat

/-- `GetFilterBitsBuilder()`: none for the block-based format -/
def GetFilterBitsBuilder (self : BloomFilterPolicy) : Option FullFilterBitsBuilder :=
  if self.use_block_based_builder_ then none
  else some ⟨self.bits_per_key_, self.num_probes_, [], self.one_le_num_probes, self.num_probes_le⟩

/-- `GetFilterBitsReader(contents)` -/
def GetFilterBitsReader (_self : BloomFilterPolicy) (contents : List UInt8) : FullFilterBitsReader :=
  FullFilterBitsReader.new contents

end BloomFilterPolicy

end RocksDB
