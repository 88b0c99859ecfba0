import RocksDB.Util.Bloom

/-!
# table/block_based_filter_block.cc: the filter block of the block-based format

The builder collects the keys (and prefixes) added since the last filter in one flat buffer,
`entries_`, with the offset of each in `start_`.  `StartBlock(o)` closes filters until there is
one for every `2 KB` of data before `o`; `GenerateFilter` appends the pending keys' filter to
`result_` and its offset to `filter_offsets_`.  `Finish` appends the offsets, the offset of that
array and `kFilterBaseLg`.

The reader maps a block offset to filter `block_offset >> base_lg_`; the filter runs from its
offset to the next one, the array's offset ending the last.
-/

namespace RocksDB

/-- `kFilterBaseLg`: a new filter every `2 ^ 11` bytes of data -/
def kFilterBaseLg : UInt64 := 11

/-- `kFilterBase` -/
def kFilterBase : UInt64 := 1 <<< kFilterBaseLg

/-- the two functions of a `SliceTransform` the filter block calls -/
structure SliceTransform where
  InDomain : List UInt8 → Bool
  Transform : List UInt8 → List UInt8

/-- `BlockBasedFilterBlockBuilder` -/
structure BlockBasedFilterBlockBuilder where
  policy_ : BloomFilterPolicy
  prefix_extractor_ : Option SliceTransform
  whole_key_filtering_ : Bool
  entries_ : List UInt8
  start_ : List Nat
  result_ : List UInt8
  filter_offsets_ : List UInt32
  prev_prefix_start_ : Nat
  prev_prefix_size_ : Nat

namespace BlockBasedFilterBlockBuilder

/-- `BlockBasedFilterBlockBuilder(prefix_extractor, table_opt)`, given the table options'
`filter_policy` and `whole_key_filtering` -/
def new (prefix_extractor : Option SliceTransform) (filter_policy : BloomFilterPolicy)
    (whole_key_filtering : Bool) : BlockBasedFilterBlockBuilder :=
  ⟨filter_policy, prefix_extractor, whole_key_filtering, [], [], [], [], 0, 0⟩

/-- `GenerateFilter` -/
def GenerateFilter (self : BlockBasedFilterBlockBuilder) : BlockBasedFilterBlockBuilder :=
  let num_entries := self.start_.length
  if num_entries = 0 then
    -- Fast path if there are no keys for this filter
    { self with filter_offsets_ := self.filter_offsets_ ++ [UInt32.ofNat self.result_.length] }
  else
    -- Make list of keys from flattened key structure
    let start_ := self.start_ ++ [self.entries_.length]
    let tmp_entries_ := (List.range num_entries).map fun i =>
      (self.entries_.drop (start_.getD i 0)).take (start_.getD (i + 1) 0 - start_.getD i 0)
    -- Generate filter for current set of keys and append to result_.
    { self with
      filter_offsets_ := self.filter_offsets_ ++ [UInt32.ofNat self.result_.length]
      result_ := self.policy_.CreateFilter tmp_entries_ (Int32.ofNat num_entries) self.result_
      entries_ := []
      start_ := []
      prev_prefix_start_ := 0
      prev_prefix_size_ := 0 }

/-- the loop `while (filter_index > filter_offsets_.size()) GenerateFilter();`, with `fuel` rounds
at most -/
def generateFiltersUntil (filter_index : Nat) :
    Nat → BlockBasedFilterBlockBuilder → BlockBasedFilterBlockBuilder
  | 0, self => self
  | fuel + 1, self =>
    if filter_index > self.filter_offsets_.length then
      generateFiltersUntil filter_index fuel self.GenerateFilter
    else self

/-- `StartBlock(block_offset)`: each round of the loop adds an offset, so `filter_index` rounds
are enough -/
def StartBlock (self : BlockBasedFilterBlockBuilder) (block_offset : UInt64) :
    BlockBasedFilterBlockBuilder :=
  let filter_index := block_offset / kFilterBase
  generateFiltersUntil filter_index.toNat filter_index.toNat self

/-- `AddKey`: the key as an entry of the current filter -/
def AddKey (self : BlockBasedFilterBlockBuilder) (key : List UInt8) :
    BlockBasedFilterBlockBuilder :=
  { self with start_ := self.start_ ++ [self.entries_.length], entries_ := self.entries_ ++ key }

/-- `AddPrefix`: the key's prefix, unless it repeats the prefix added last -/
def AddPrefix (self : BlockBasedFilterBlockBuilder) (prefix_extractor : SliceTransform)
    (key : List UInt8) : BlockBasedFilterBlockBuilder :=
  -- get slice for most recently added entry
  let prev := if self.prev_prefix_size_ > 0 then
      (self.entries_.drop self.prev_prefix_start_).take self.prev_prefix_size_
    else []
  let pfx := prefix_extractor.Transform key
  -- insert prefix only when it's different from the previous prefix.
  if prev.length = 0 ∨ pfx ≠ prev then
    { self with
      start_ := self.start_ ++ [self.entries_.length]
      prev_prefix_start_ := self.entries_.length
      prev_prefix_size_ := pfx.length
      entries_ := self.entries_ ++ pfx }
  else self

/-- `Add(key)` -/
def Add (self : BlockBasedFilterBlockBuilder) (key : List UInt8) : BlockBasedFilterBlockBuilder :=
  let self := match self.prefix_extractor_ with
    | some prefix_extractor => if prefix_extractor.InDomain key then self.AddPrefix prefix_extractor key else self
    | none => self
  if self.whole_key_filtering_ then self.AddKey key else self

/-- `Finish(tmp, &status)`: the filter block; the status is always OK -/
def Finish (self : BlockBasedFilterBlockBuilder) : List UInt8 :=
  let self := if self.start_ ≠ [] then self.GenerateFilter else self
  -- Append array of per-filter offsets
  let array_offset := UInt32.ofNat self.result_.length
  let result_ := self.filter_offsets_.foldl putFixed32 self.result_
  let result_ := putFixed32 result_ array_offset
  -- Save encoding parameter in result
  result_ ++ [kFilterBaseLg.toUInt8]

end BlockBasedFilterBlockBuilder

/-- `BlockBasedFilterBlockReader`; `data_` is empty and `num_` 0 unless the block's last word is a
valid offset, and `offset_` is `offset_ - data_` -/
structure BlockBasedFilterBlockReader where
  policy_ : BloomFilterPolicy
  prefix_extractor_ : Option SliceTransform
  whole_key_filtering_ : Bool
  data_ : List UInt8
  offset_ : Nat
  num_ : UInt64
  base_lg_ : UInt64

namespace BlockBasedFilterBlockReader

/-- `BlockBasedFilterBlockReader(prefix_extractor, table_opt, _whole_key_filtering, contents)` -/
def new (prefix_extractor : Option SliceTransform) (filter_policy : BloomFilterPolicy)
    (whole_key_filtering : Bool) (contents : List UInt8) : BlockBasedFilterBlockReader :=
  let empty : BlockBasedFilterBlockReader :=
    ⟨filter_policy, prefix_extractor, whole_key_filtering, [], 0, 0, 0⟩
  let n := contents.length
  -- 1 byte for base_lg_ and 4 for start of offset array
  if n < 5 then empty
  else
    let base_lg_ := charToSizeT (contents.getD (n - 1) 0)
    let last_word := decodeFixed32 (contents.drop (n - 5))
    if last_word.toNat > n - 5 then { empty with base_lg_ }
    else
      { empty with
        base_lg_
        data_ := contents
        offset_ := last_word.toNat
        num_ := UInt64.ofNat ((n - 5 - last_word.toNat) / 4) }

/-- `MayMatch(entry, block_offset)` -/
def MayMatch (self : BlockBasedFilterBlockReader) (entry : List UInt8) (block_offset : UInt64) :
    Bool :=
  let index := block_offset >>> self.base_lg_
  if index < self.num_ then
    let start := decodeFixed32 (self.data_.drop (self.offset_ + index.toNat * 4))
    let limit := decodeFixed32 (self.data_.drop (self.offset_ + index.toNat * 4 + 4))
    if start ≤ limit ∧ limit ≤ UInt32.ofNat self.offset_ then
      let filter := (self.data_.drop start.toNat).take (limit - start).toNat
      self.policy_.KeyMayMatch entry filter
    -- Empty filters do not match any entries
    else if start = limit then false
    else true
  -- Errors are treated as potential matches
  else true

/-- `KeyMayMatch(key, block_offset, no_io, const_ikey_ptr)` -/
def KeyMayMatch (self : BlockBasedFilterBlockReader) (key : List UInt8) (block_offset : UInt64) :
    Bool :=
  if !self.whole_key_filtering_ then true else self.MayMatch key block_offset

/-- `PrefixMayMatch(prefix, block_offset, no_io, const_ikey_ptr)` -/
def PrefixMayMatch (self : BlockBasedFilterBlockReader) (pfx : List UInt8) (block_offset : UInt64) :
    Bool :=
  if self.prefix_extractor_.isNone then true else self.MayMatch pfx block_offset

end BlockBasedFilterBlockReader

end RocksDB
