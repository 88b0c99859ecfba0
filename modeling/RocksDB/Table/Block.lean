import RocksDB.Db.Dbformat
import RocksDB.Util.Status

/-!
# table/block.h, table/block.cc: reading a block

A block is a run of entries, then the restart array: a `fixed32` offset per restart point and
their number.  An entry is `shared | non_shared | value_length` (three varints, or three bytes
below 128), the key bytes past the `shared` it has in common with the key before it, and the
value; an entry at a restart point shares nothing.

* `DecodeEntry`            the three numbers, `none` where they run past `limit` or the key and
                           value do not fit before it (their sum taken in `uint32_t`);
* `Block.new`              `restart_offset_ = size - (1 + NumRestarts()) * 4`, computed in 32 bits,
                           the block marked bad (`size_ = 0`) where that lies past `size - 4`;
* `BlockIter`              the iterator: `current_` the entry's offset, `value_` the value as an
                           offset and a size in the block, `restart_index_` its restart interval,
                           `prev_entries_` the entries `Prev` last decoded.

Both checks compute in 32 bits and miss a wrap: `Block.checks_miss_wraparound` keeps a block whose
restart array runs past its end, and decodes an entry whose value lies past the restart array.

Offsets held in `uint32_t` are `UInt32`; pointer differences and slices are `Nat`.  The loops are
structural recursions over a bound on their iterations: the entries before `restarts_` (each at
least three bytes long) or the restart points.
-/

namespace RocksDB

/-- `kDisableGlobalSequenceNumber`: `port::kMaxUint64` -/
def kDisableGlobalSequenceNumber : Nat := 2 ^ 64 - 1

/-- `DecodeEntry(p, limit, &shared, &non_shared, &value_length)`: the offset just past the three
numbers, and the numbers -/
def DecodeEntry (data : List UInt8) (p limit : Nat) : Option (Nat × UInt32 × UInt32 × UInt32) :=
  if limit - p < 3 then none
  else
    let shared := data.getD p 0
    let non_shared := data.getD (p + 1) 0
    let value_length := data.getD (p + 2) 0
    let decoded : Option (Nat × UInt32 × UInt32 × UInt32) :=
      if (shared ||| non_shared ||| value_length) < 128 then
        -- Fast path: all three values are encoded in one byte each
        some (p + 3, shared.toUInt32, non_shared.toUInt32, value_length.toUInt32)
      else do
        let (shared, rest) ← getVarint32Ptr ((data.take limit).drop p)
        let (non_shared, rest) ← getVarint32Ptr rest
        let (value_length, rest) ← getVarint32Ptr rest
        some (limit - rest.length, shared, non_shared, value_length)
    match decoded with
    | none => none
    | some (p, shared, non_shared, value_length) =>
      if UInt32.ofNat (limit - p) < non_shared + value_length then none
      else some (p, shared, non_shared, value_length)

/-- a `Block` on its contents -/
structure Block where
  data_ : List UInt8
  size_ : Nat
  restart_offset_ : UInt32
  global_seqno_ : Nat

namespace Block

/-- `Block::NumRestarts()`: the last four bytes -/
def NumRestarts (b : Block) : UInt32 := decodeFixed32 (b.data_.drop (b.size_ - 4))

/-- `Block::Block(contents, global_seqno, ...)`; below four bytes `restart_offset_` is never set,
and stands at 0 -/
def new (contents : List UInt8) (global_seqno : Nat) : Block :=
  let size_ := contents.length
  if size_ < 4 then ⟨contents, 0, 0, global_seqno⟩
  else
    -- `static_cast<uint32_t>(size_) - (1 + NumRestarts()) * sizeof(uint32_t)`, in `size_t` and
    -- kept in `uint32_t`: the same as in `uint32_t` throughout
    let restart_offset_ :=
      UInt32.ofNat size_ - (1 + decodeFixed32 (contents.drop (size_ - 4))) * 4
    if restart_offset_.toNat > size_ - 4 then ⟨contents, 0, restart_offset_, global_seqno⟩
    else ⟨contents, size_, restart_offset_, global_seqno⟩

end Block

/-- `BlockIter::CachedPrevEntry`: an entry's offset, key and value -/
structure CachedPrevEntry where
  offset : UInt32
  key : List UInt8
  value : Nat × Nat

instance : Inhabited CachedPrevEntry := ⟨⟨0, [], (0, 0)⟩⟩

/-- `BlockIter` over a block without a prefix index -/
structure BlockIter where
  comparator_ : List UInt8 → List UInt8 → Ordering
  data_ : List UInt8
  restarts_ : UInt32
  num_restarts_ : UInt32
  current_ : UInt32
  restart_index_ : UInt32
  key_ : List UInt8
  value_ : Nat × Nat
  status_ : Status
  global_seqno_ : Nat
  prev_entries_ : List CachedPrevEntry
  prev_entries_idx_ : Int

/-- `IterKey::UpdateInternalKey(seq, t)`: the footer rewritten -/
def updateInternalKey (key : List UInt8) (seq : Nat) (t : UInt8) : List UInt8 :=
  key.take (key.length - 8) ++ encodeFixed64 ((UInt64.ofNat seq <<< 8) ||| t.toUInt64)

/-- `ExtractValueType(internal_key)`: the footer's low byte -/
def extractValueType (internal_key : List UInt8) : UInt8 :=
  (decodeFixed64 (internal_key.drop (internal_key.length - 8))).toUInt8

namespace BlockIter

/-- `BlockIter(comparator, data, restarts, num_restarts, nullptr, global_seqno, ...)` -/
def init (comparator : List UInt8 → List UInt8 → Ordering) (data : List UInt8)
    (restarts num_restarts : UInt32) (global_seqno : Nat) : BlockIter where
  comparator_ := comparator
  data_ := data
  restarts_ := restarts
  num_restarts_ := num_restarts
  current_ := restarts
  restart_index_ := num_restarts
  key_ := []
  value_ := (0, 0)
  status_ := .OK
  global_seqno_ := global_seqno
  prev_entries_ := []
  prev_entries_idx_ := -1

/-- `Valid()` -/
def Valid (it : BlockIter) : Bool := it.current_ < it.restarts_

/-- `NextEntryOffset()`: the offset just past the value, cut to 32 bits -/
def NextEntryOffset (it : BlockIter) : UInt32 := UInt32.ofNat (it.value_.1 + it.value_.2)

/-- `GetRestartPoint(index)` -/
def GetRestartPoint (it : BlockIter) (index : UInt32) : UInt32 :=
  decodeFixed32 (it.data_.drop (it.restarts_.toNat + index.toNat * 4))

/-- `SeekToRestartPoint(index)`: the key cleared and `value_` empty at the restart point, so that
`ParseNextKey` starts there -/
def SeekToRestartPoint (it : BlockIter) (index : UInt32) : BlockIter :=
  { it with key_ := [], restart_index_ := index, value_ := ((it.GetRestartPoint index).toNat, 0) }

/-- `CorruptionError()`; the cleared `value_` points at no byte of the block and is never read -/
def CorruptionError (it : BlockIter) : BlockIter :=
  { it with current_ := it.restarts_, restart_index_ := it.num_restarts_,
            status_ := .Corruption "bad entry in block", key_ := [], value_ := (0, 0) }

/-- the loop at the end of `ParseNextKey`: `restart_index_` moved on to the restart interval
holding `current_` -/
def advanceRestartIndex (it : BlockIter) : Nat → BlockIter
  | 0 => it
  | fuel + 1 =>
    if it.restart_index_ + 1 < it.num_restarts_ ∧
        it.GetRestartPoint (it.restart_index_ + 1) < it.current_ then
      advanceRestartIndex { it with restart_index_ := it.restart_index_ + 1 } fuel
    else it

/-- `ParseNextKey()`: the entry at `NextEntryOffset()` decoded, `false` at the end or on a bad
entry -/
def ParseNextKey (it : BlockIter) : Bool × BlockIter :=
  let current_ := it.NextEntryOffset
  let limit := it.restarts_.toNat
  if current_.toNat ≥ limit then
    -- No more entries to return.  Mark as invalid.
    (false, { it with current_ := it.restarts_, restart_index_ := it.num_restarts_ })
  else
    match DecodeEntry it.data_ current_.toNat limit with
    | none => (false, { it with current_ }.CorruptionError)
    | some (p, shared, non_shared, value_length) =>
      if it.key_.length < shared.toNat then (false, { it with current_ }.CorruptionError)
      else
        let key_ :=
          if shared = 0 then it.data_.extract p (p + non_shared.toNat)
          else it.key_.take shared.toNat ++ it.data_.extract p (p + non_shared.toNat)
        let key_ :=
          if it.global_seqno_ ≠ kDisableGlobalSequenceNumber then
            updateInternalKey key_ it.global_seqno_ (extractValueType key_)
          else key_
        let it := { it with current_, key_, value_ := (p + non_shared.toNat, value_length.toNat) }
        (true, it.advanceRestartIndex it.num_restarts_.toNat)

/-- `Next()` -/
def Next (it : BlockIter) : BlockIter := it.ParseNextKey.2

/-- the scans of `Seek` and `SeekForPrev`, which stop at the first entry not below `target`:
`while (true) { if (!ParseNextKey() || Compare(key_, target) >= 0) return; }` and
`while (ParseNextKey() && Compare(key_, target) < 0) {}` -/
def scanForward (target : List UInt8) : Nat → BlockIter → BlockIter
  | 0, it => it
  | fuel + 1, it =>
    let r := it.ParseNextKey
    if r.1 ∧ r.2.comparator_ r.2.key_ target = .lt then scanForward target fuel r.2 else r.2

/-- the loop of `BinarySeek(target, left, right, &index)`: the index, `none` on a restart entry
that does not decode or shares bytes -/
def binarySeekLoop (it : BlockIter) (target : List UInt8) : Nat → UInt32 → UInt32 → Option UInt32
  | 0, left, _ => some left
  | fuel + 1, left, right =>
    if left < right then
      let mid := (left + right + 1) / 2
      let region_offset := it.GetRestartPoint mid
      match DecodeEntry it.data_ region_offset.toNat it.restarts_.toNat with
      | none => none
      | some (key_ptr, shared, non_shared, _) =>
        if shared ≠ 0 then none
        else
          let mid_key := it.data_.extract key_ptr (key_ptr + non_shared.toNat)
          match it.comparator_ mid_key target with
          -- Key at "mid" is smaller than "target". Therefore all blocks before "mid" are
          -- uninteresting.
          | .lt => binarySeekLoop it target fuel mid right
          -- Key at "mid" is >= "target". Therefore all blocks at or after "mid" are
          -- uninteresting.
          | .gt => binarySeekLoop it target fuel left (mid - 1)
          | .eq => binarySeekLoop it target fuel mid mid
    else some left

/-- `BinarySeek(target, left, right, &index)` -/
def BinarySeek (it : BlockIter) (target : List UInt8) (left right : UInt32) :
    Option UInt32 × BlockIter :=
  match it.binarySeekLoop target it.num_restarts_.toNat left right with
  | some index => (some index, it)
  | none => (none, it.CorruptionError)

/-- a bound on the entries before `restarts_`, each at least three bytes long -/
def scanFuel (it : BlockIter) : Nat := it.restarts_.toNat + 1

/-- `Seek(target)` -/
def Seek (it : BlockIter) (target : List UInt8) : BlockIter :=
  match it.BinarySeek target 0 (it.num_restarts_ - 1) with
  | (none, it) => it
  | (some index, it) => scanForward target it.scanFuel (it.SeekToRestartPoint index)

/-- `SeekToFirst()` -/
def SeekToFirst (it : BlockIter) : BlockIter := (it.SeekToRestartPoint 0).ParseNextKey.2

/-- the loop of `SeekToLast()`: `while (ParseNextKey() && NextEntryOffset() < restarts_) {}` -/
def scanToLast : Nat → BlockIter → BlockIter
  | 0, it => it
  | fuel + 1, it =>
    let r := it.ParseNextKey
    if r.1 ∧ r.2.NextEntryOffset < r.2.restarts_ then scanToLast fuel r.2 else r.2

/-- `SeekToLast()` -/
def SeekToLast (it : BlockIter) : BlockIter :=
  scanToLast it.scanFuel (it.SeekToRestartPoint (it.num_restarts_ - 1))

/-- the first loop of the slow path of `Prev()`: back to a restart point before `original`,
`none` where there is none -/
def restartBefore (it : BlockIter) (original : UInt32) : UInt32 → Nat → Option UInt32
  | index, 0 => some index
  | index, fuel + 1 =>
    if it.GetRestartPoint index ≥ original then
      if index = 0 then none else restartBefore it original (index - 1) fuel
    else some index

/-- the second loop of the slow path of `Prev()`: the entries from the restart point on decoded
and cached, up to the one that ends at `original` -/
def cachePrevEntries (original : UInt32) : Nat → BlockIter → BlockIter
  | 0, it => it
  | fuel + 1, it =>
    let r := it.ParseNextKey
    if !r.1 then r.2
    else
      let it := { r.2 with
        prev_entries_ := r.2.prev_entries_ ++ [⟨r.2.current_, r.2.key_, r.2.value_⟩] }
      if it.NextEntryOffset < original then cachePrevEntries original fuel it else it

/-- `Prev()`: the cached entry before the current one where there is one, else the entries of
its restart interval decoded again and cached -/
def Prev (it : BlockIter) : BlockIter :=
  if it.prev_entries_idx_ > 0 ∧
      (it.prev_entries_.getD it.prev_entries_idx_.toNat default).offset = it.current_ then
    let prev_entries_idx_ := it.prev_entries_idx_ - 1
    let e := it.prev_entries_.getD prev_entries_idx_.toNat default
    { it with prev_entries_idx_, current_ := e.offset, key_ := e.key, value_ := e.value }
  else
    let it := { it with prev_entries_idx_ := -1, prev_entries_ := [] }
    let original := it.current_
    match it.restartBefore original it.restart_index_ (it.restart_index_.toNat + 1) with
    | none =>
      -- No more entries
      { it with current_ := it.restarts_, restart_index_ := it.num_restarts_ }
    | some index =>
      let it := cachePrevEntries original it.scanFuel (it.SeekToRestartPoint index)
      { it with prev_entries_idx_ := (it.prev_entries_.length : Int) - 1 }

/-- the loop of `SeekForPrev`: `while (Valid() && Compare(key_, target) > 0) Prev();` -/
def prevWhileAbove (target : List UInt8) : Nat → BlockIter → BlockIter
  | 0, it => it
  | fuel + 1, it =>
    if it.Valid ∧ it.comparator_ it.key_ target = .gt then prevWhileAbove target fuel it.Prev
    else it

/-- `SeekForPrev(target)` -/
def SeekForPrev (it : BlockIter) (target : List UInt8) : BlockIter :=
  match it.BinarySeek target 0 (it.num_restarts_ - 1) with
  | (none, it) => it
  | (some index, it) =>
    let it := scanForward target it.scanFuel (it.SeekToRestartPoint index)
    if !it.Valid then it.SeekToLast else prevWhileAbove target it.scanFuel it

end BlockIter

/-- what `Block::NewIterator` gives: an error iterator, an empty one, or a `BlockIter` -/
inductive BlockIterator
  | error (s : Status)
  | empty
  | iter (it : BlockIter)

/-- `Block::NewIterator(comparator, nullptr, true)` -/
def Block.NewIterator (b : Block) (comparator : List UInt8 → List UInt8 → Ordering) :
    BlockIterator :=
  if b.size_ < 2 * 4 then .error (.Corruption "bad block contents")
  else if b.NumRestarts = 0 then .empty
  else .iter (BlockIter.init comparator b.data_ b.restart_offset_ b.NumRestarts b.global_seqno_)

/-- two blocks past the checks: eight bytes whose count `0x40000000` wraps `(1 + count) * 4` to 4,
kept with its restart array reaching far past the block; and fifteen bytes whose first entry has
`non_shared = 0xffffffff` and `value_length = 1`, a sum that wraps to 0 and passes the test of
`DecodeEntry`, so that the first entry's value starts past `2 ^ 32` -/
theorem Block.checks_miss_wraparound :
    (let b := Block.new [0, 0, 0, 0, 0, 0, 0, 0x40] kDisableGlobalSequenceNumber
    let c := Block.new [0x00, 0xff, 0xff, 0xff, 0xff, 0x0f, 0x01, 0, 0, 0, 0, 1, 0, 0, 0]
      kDisableGlobalSequenceNumber
    let it := BlockIter.init compare c.data_ c.restart_offset_ c.NumRestarts
      kDisableGlobalSequenceNumber
    (b.size_ = 8 ∧ b.NumRestarts = 0x40000000 ∧ b.restart_offset_ = 4 ∧
      b.restart_offset_.toNat + 4 * b.NumRestarts.toNat + 4 ≠ b.size_) ∧
    (c.NewIterator compare = .iter it ∧
      c.restart_offset_.toNat + 4 * c.NumRestarts.toNat + 4 = c.size_ ∧
      it.SeekToFirst.Valid = true ∧ it.SeekToFirst.status_ = .OK ∧
      it.SeekToFirst.value_ = (2 ^ 32 + 6, 1) ∧ c.restart_offset_ = 7)) := by
  refine ⟨by decide, rfl, by decide, by decide, by decide, by decide, by decide⟩

end RocksDB
