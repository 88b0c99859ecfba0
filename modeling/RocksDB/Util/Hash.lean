import RocksDB.Util.Coding

/-!
# util/hash.cc: the hash of a slice

`Hash` reads the bytes four at a time as little-endian words and folds each into the state;
the one to three bytes left over are added, each sign-extended from an `int8_t`, then mixed once
more.  `BloomHash` is `Hash` with the seed of the Bloom filters.
-/

namespace RocksDB

/-- `static_cast<uint32_t>(static_cast<int8_t>(b))`: a byte sign-extended to 32 bits -/
def signExtend (b : UInt8) : UInt32 := b.toInt8.toInt32.toUInt32

/-- the loop `while (data + 4 <= limit)` over the whole words, then the `switch` on the bytes
left -/
def hashRest (m r h : UInt32) : List UInt8 → UInt32
  | b0 :: b1 :: b2 :: b3 :: rest =>
    let h := (h + decodeFixed32 [b0, b1, b2, b3]) * m
    hashRest m r (h ^^^ (h >>> 16)) rest
  -- `case 3:` falls through to `case 2:` and `case 1:`
  | [b0, b1, b2] =>
    let h := (h + (signExtend b2 <<< 16) + (signExtend b1 <<< 8) + signExtend b0) * m
    h ^^^ (h >>> r)
  | [b0, b1] =>
    let h := (h + (signExtend b1 <<< 8) + signExtend b0) * m
    h ^^^ (h >>> r)
  | [b0] =>
    let h := (h + signExtend b0) * m
    h ^^^ (h >>> r)
  | [] => h

/-- `Hash(data, n, seed)` -/
def Hash (data : List UInt8) (seed : UInt32) : UInt32 :=
  let m : UInt32 := 0xc6a4a793
  let r : UInt32 := 24
  -- `seed ^ (n * m)` in `size_t`, cut to 32 bits
  hashRest m r (seed ^^^ (UInt32.ofNat data.length * m)) data

/-- `BloomHash` -/
def BloomHash (key : List UInt8) : UInt32 := Hash key 0xbc9f1d34

end RocksDB
