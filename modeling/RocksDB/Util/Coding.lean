import RocksDB.Lib.Bytes

/-!
# util/coding.h, util/coding.cc: fixed-width and varint coding

A `Slice` or a `std::string` is a `List UInt8`.  A pointer pair `p, limit` is the list of the
bytes between them; a function that returns the pointer past what it read returns the rest of
the list.  Fixed-width numbers are little endian (`ByteCode.toBytesLE`).

* `encodeVarint32`      the five unrolled cases of `EncodeVarint32`; `encodeVarint32_eq` shows it
                        is the base-128 form of its argument;
* `encodeVarint64`      the loop of `EncodeVarint64`, which is `ByteCode.encodeBase128`;
* `varintLoop`          the loop shared by `GetVarint32PtrFallback` and `GetVarint64Ptr`, in
                        `w`-bit arithmetic up to shift `maxShift`;
* `getVarint32_encodeVarint32`, `getVarint64_encodeVarint64`, `getLengthPrefixedSlice_put`,
  `decodeFixed32_encodeFixed32`, ...   what is written is read back, whatever follows it;
* `getVarint32_take_encodeVarint32`, `getLengthPrefixedSlice_take_put`, ...   a cut anywhere
  inside an encoding is refused: the bytes before the cut all carry the continuation bit, or the
  length read announces more bytes than are left.
-/

set_option linter.unusedVariables false

namespace RocksDB
open ByteCode

/-! ## fixed width -/

def encodeFixed32 (value : UInt32) : List UInt8 := toBytesLE 4 value.toNat
def encodeFixed64 (value : UInt64) : List UInt8 := toBytesLE 8 value.toNat

def putFixed32 (dst : List UInt8) (value : UInt32) : List UInt8 := dst ++ encodeFixed32 value
def putFixed64 (dst : List UInt8) (value : UInt64) : List UInt8 := dst ++ encodeFixed64 value

/-- `EncodeFixed32(buf + off, value)`: the four bytes of `value` written over those of `buf` at
`off` -/
def encodeFixed32At (buf : List UInt8) (off : Nat) (value : UInt32) : List UInt8 :=
  buf.take off ++ encodeFixed32 value ++ buf.drop (off + 4)

/-- `DecodeFixed32(ptr)`: the four bytes at `ptr` (the caller guarantees they are there) -/
def decodeFixed32 (ptr : List UInt8) : UInt32 := UInt32.ofNat (ofBytesLE (ptr.take 4))
def decodeFixed64 (ptr : List UInt8) : UInt64 := UInt64.ofNat (ofBytesLE (ptr.take 8))

def getFixed32 (input : List UInt8) : Option (UInt32 × List UInt8) :=
  if input.length < 4 then none else some (decodeFixed32 input, input.drop 4)

def getFixed64 (input : List UInt8) : Option (UInt64 × List UInt8) :=
  if input.length < 8 then none else some (decodeFixed64 input, input.drop 8)

@[simp] theorem length_encodeFixed32 (v : UInt32) : (encodeFixed32 v).length = 4 := by
  simp [encodeFixed32]

@[simp] theorem length_encodeFixed64 (v : UInt64) : (encodeFixed64 v).length = 8 := by
  simp [encodeFixed64]

theorem decodeFixed32_encodeFixed32 (v : UInt32) (rest : List UInt8) :
    decodeFixed32 (encodeFixed32 v ++ rest) = v := by
  rw [decodeFixed32, ofBytesLE_take_append 4 _ rest (length_encodeFixed32 v), encodeFixed32,
    ofBytesLE_toBytesLE, Nat.mod_eq_of_lt (by simpa using v.toNat_lt), UInt32.ofNat_toNat]

/-- the four bytes a fixed32 is read from are the bytes it is written as -/
theorem encodeFixed32_decodeFixed32 {ptr : List UInt8} (h : 4 ≤ ptr.length) :
    encodeFixed32 (decodeFixed32 ptr) = ptr.take 4 := by
  have hlen : (ptr.take 4).length = 4 := by
    rw [List.length_take]
    omega
  have hlt : ofBytesLE (ptr.take 4) < 2 ^ 32 := by
    have := ofBytesLE_lt (ptr.take 4)
    rw [hlen] at this
    simpa using this
  rw [encodeFixed32, decodeFixed32, UInt32.toNat_ofNat', Nat.mod_eq_of_lt hlt]
  conv_rhs => rw [← toBytesLE_ofBytesLE (ptr.take 4), hlen]

theorem decodeFixed64_encodeFixed64 (v : UInt64) (rest : List UInt8) :
    decodeFixed64 (encodeFixed64 v ++ rest) = v := by
  rw [decodeFixed64, ofBytesLE_take_append 8 _ rest (length_encodeFixed64 v), encodeFixed64,
    ofBytesLE_toBytesLE, Nat.mod_eq_of_lt (by simpa using v.toNat_lt), UInt64.ofNat_toNat]

theorem getFixed32_encodeFixed32 (v : UInt32) (rest : List UInt8) :
    getFixed32 (encodeFixed32 v ++ rest) = some (v, rest) := by
  simp [getFixed32, decodeFixed32_encodeFixed32]

theorem getFixed64_encodeFixed64 (v : UInt64) (rest : List UInt8) :
    getFixed64 (encodeFixed64 v ++ rest) = some (v, rest) := by
  simp [getFixed64, decodeFixed64_encodeFixed64]

/-! ## varint: writing -/

/-- `EncodeVarint32`: `*(ptr++) = v | B` stores the low byte of `v | 128` -/
def encodeVarint32 (v : UInt32) : List UInt8 :=
  let n := v.toNat
  if n < 2 ^ 7 then [UInt8.ofNat n]
  else if n < 2 ^ 14 then [UInt8.ofNat (n ||| 128), UInt8.ofNat (n >>> 7)]
  else if n < 2 ^ 21 then
    [UInt8.ofNat (n ||| 128), UInt8.ofNat ((n >>> 7) ||| 128), UInt8.ofNat (n >>> 14)]
  else if n < 2 ^ 28 then
    [UInt8.ofNat (n ||| 128), UInt8.ofNat ((n >>> 7) ||| 128), UInt8.ofNat ((n >>> 14) ||| 128),
      UInt8.ofNat (n >>> 21)]
  else
    [UInt8.ofNat (n ||| 128), UInt8.ofNat ((n >>> 7) ||| 128), UInt8.ofNat ((n >>> 14) ||| 128),
      UInt8.ofNat ((n >>> 21) ||| 128), UInt8.ofNat (n >>> 28)]

/-- `EncodeVarint64`: `while (v >= B) { *(ptr++) = (v & (B - 1)) | B; v >>= 7; }` then the last
byte; this loop is the base-128 form -/
def encodeVarint64 (v : UInt64) : List UInt8 := encodeBase128 v.toNat

def putVarint32 (dst : List UInt8) (v : UInt32) : List UInt8 := dst ++ encodeVarint32 v
def putVarint64 (dst : List UInt8) (v : UInt64) : List UInt8 := dst ++ encodeVarint64 v

/-- `VarintLength`: `len = 1; while (v >= 128) { v >>= 7; len++; }` -/
def varintLength (v : UInt64) : Nat := base128Length v.toNat

private theorem or128_small : ∀ x : Fin 256, x.val ||| 128 = x.val % 128 + 128 := by
  decide +kernel

/-- `v | B` stored in a byte is the low seven bits of `v` with the high bit set -/
theorem ofNat_or_128 (n : Nat) : UInt8.ofNat (n ||| 128) = UInt8.ofNat (n % 128 + 128) := by
  apply UInt8.toNat_inj.mp
  rw [UInt8.toNat_ofNat', UInt8.toNat_ofNat', Nat.or_mod_two_pow,
    or128_small ⟨n % 2 ^ 8, Nat.mod_lt _ (by norm_num)⟩]
  have h : n % 2 ^ 8 % 128 = n % 128 := Nat.mod_mod_of_dvd n (by norm_num)
  simp only [h]
  omega

theorem encodeVarint32_eq (v : UInt32) : encodeVarint32 v = encodeBase128 v.toNat := by
  have hv : v.toNat < 2 ^ 32 := v.toNat_lt
  simp only [encodeVarint32, ofNat_or_128, Nat.shiftRight_eq_div_pow]
  -- peel one base-128 group per branch of the unrolled encoder
  split_ifs with h1 h2 h3 h4
  · rw [encodeBase128_of_lt (by omega)]
  · rw [encodeBase128_of_ge (by omega), encodeBase128_of_lt (by omega)]
  · rw [encodeBase128_of_ge (by omega), encodeBase128_of_ge (by omega),
      encodeBase128_of_lt (by omega)]
    norm_num [Nat.div_div_eq_div_mul]
  · rw [encodeBase128_of_ge (by omega), encodeBase128_of_ge (by omega),
      encodeBase128_of_ge (by omega), encodeBase128_of_lt (by omega)]
    norm_num [Nat.div_div_eq_div_mul]
  · rw [encodeBase128_of_ge (by omega), encodeBase128_of_ge (by omega),
      encodeBase128_of_ge (by omega), encodeBase128_of_ge (by omega),
      encodeBase128_of_lt (by omega)]
    norm_num [Nat.div_div_eq_div_mul]

/-! ## varint: reading -/

/-- The loop of `GetVarint32PtrFallback` (`maxShift = 28`, `w = 32`) and of `GetVarint64Ptr`
(`maxShift = 63`, `w = 64`):
`for (shift = 0; shift <= maxShift && p < limit; shift += 7)`, with `(byte & 127) << shift` and
`byte << shift` computed in `w`-bit arithmetic. -/
def varintLoop (maxShift w : Nat) (shift result : Nat) : List UInt8 → Option (Nat × List UInt8)
  | [] => none
  | b :: rest =>
    if shift ≤ maxShift then
      if b.toNat &&& 128 ≠ 0 then
        varintLoop maxShift w (shift + 7) (result ||| ((b.toNat &&& 127) <<< shift) % 2 ^ w) rest
      else some (result ||| (b.toNat <<< shift) % 2 ^ w, rest)
    else none

def getVarint32PtrFallback (input : List UInt8) : Option (UInt32 × List UInt8) :=
  (varintLoop 28 32 0 0 input).map fun r => (UInt32.ofNat r.1, r.2)

/-- `GetVarint32Ptr`: one byte below 128 is read directly, anything else by the fallback loop -/
def getVarint32Ptr (input : List UInt8) : Option (UInt32 × List UInt8) :=
  match input with
  | b :: rest => if b.toNat &&& 128 = 0 then some (UInt32.ofNat b.toNat, rest)
                 else getVarint32PtrFallback input
  | [] => getVarint32PtrFallback input

def getVarint64Ptr (input : List UInt8) : Option (UInt64 × List UInt8) :=
  (varintLoop 63 64 0 0 input).map fun r => (UInt64.ofNat r.1, r.2)

/-- `GetVarint32(Slice*, uint32_t*)`: the pointer version on the whole slice -/
def getVarint32 (input : List UInt8) : Option (UInt32 × List UInt8) := getVarint32Ptr input
def getVarint64 (input : List UInt8) : Option (UInt64 × List UInt8) := getVarint64Ptr input

private theorem and128_small : ∀ x : Fin 256, x.val &&& 128 = x.val / 128 * 128 := by
  decide +kernel

/-- the high bit of a byte -/
theorem and_128_of_lt (x : Nat) (h : x < 256) : x &&& 128 = x / 128 * 128 :=
  and128_small ⟨x, h⟩

theorem and_127_eq (x : Nat) : x &&& 127 = x % 128 := by
  simpa using Nat.and_two_pow_sub_one_eq_mod x 7

/-- disjoint bits: or-ing a group above the bits already read is adding it -/
theorem or_shiftLeft_eq_add {a s : Nat} (m : Nat) (h : a < 2 ^ s) :
    a ||| (m <<< s) = a + m * 2 ^ s := by
  rw [Nat.lor_comm, ← Nat.shiftLeft_add_eq_or_of_lt h, Nat.shiftLeft_eq]
  ring

/-- **The decoding loop reads the base-128 form.**  Starting at `shift` with the bits `acc`
below it, the loop reads `n` and stops right after its last byte, provided the last group starts
at a shift the loop still takes and the value fits in `w` bits. -/
theorem varintLoop_encodeBase128 (maxShift w : Nat) (rest : List UInt8) (n : Nat) :
    ∀ shift acc, acc < 2 ^ shift → shift + 7 * (base128Length n - 1) ≤ maxShift →
      acc + n * 2 ^ shift < 2 ^ w →
      varintLoop maxShift w shift acc (encodeBase128 n ++ rest) = some (acc + n * 2 ^ shift, rest) := by
  induction n using Nat.strongRecOn with
  | ind n ih =>
    intro shift acc hacc hlen hw
    have hpow : 0 < 2 ^ shift := Nat.two_pow_pos shift
    rcases Nat.lt_or_ge n 128 with hn | hn
    · -- the last byte: high bit clear
      rw [encodeBase128_of_lt hn, List.singleton_append, varintLoop]
      have hb : (UInt8.ofNat n).toNat = n := toNat_ofNat_small hn
      have hlen1 : base128Length n = 1 := by rw [base128Length, if_pos hn]
      have hfit : (n <<< shift) % 2 ^ w = n <<< shift := by
        rw [Nat.shiftLeft_eq]; exact Nat.mod_eq_of_lt (by omega)
      rw [if_pos (by omega), hb, if_neg (by rw [and_128_of_lt n (by omega)]; omega), hfit,
        or_shiftLeft_eq_add n hacc]
    · -- a continuation byte: the low seven bits, then the rest at `shift + 7`
      rw [encodeBase128_of_ge hn, List.cons_append, varintLoop]
      have hb := toNat_ofNat_cont n
      have hlen2 : base128Length n = base128Length (n / 128) + 1 := by
        rw [base128Length, if_neg (by omega)]
      have hpos := base128Length_pos (n / 128)
      have hsplit : n = n % 128 + 128 * (n / 128) := (Nat.mod_add_div n 128).symm
      have hlow : (n % 128) * 2 ^ shift < 2 ^ w := by
        have : (n % 128) * 2 ^ shift ≤ n * 2 ^ shift := Nat.mul_le_mul_right _ (Nat.mod_le n 128)
        omega
      have hacc' : acc + n % 128 * 2 ^ shift < 2 ^ (shift + 7) := by
        have : n % 128 * 2 ^ shift ≤ 127 * 2 ^ shift := Nat.mul_le_mul_right _ (by omega)
        rw [pow_add]; omega
      have hcont : (n % 128 + 128) &&& 128 ≠ 0 := by
        rw [and_128_of_lt (n % 128 + 128) (by omega)]; omega
      rw [if_pos (by omega), hb, if_pos hcont, and_127_eq, Nat.add_mod_right, Nat.mod_mod,
        Nat.shiftLeft_eq, Nat.mod_eq_of_lt hlow, ← Nat.shiftLeft_eq, or_shiftLeft_eq_add _ hacc]
      have key : acc + n % 128 * 2 ^ shift + n / 128 * 2 ^ (shift + 7) = acc + n * 2 ^ shift := by
        rw [pow_add]
        conv_rhs => rw [hsplit]
        ring
      rw [ih (n / 128) (by omega) (shift + 7) _ hacc' (by omega) (by rw [key]; exact hw), key]

theorem getVarint32_encodeVarint32 (v : UInt32) (rest : List UInt8) :
    getVarint32 (encodeVarint32 v ++ rest) = some (v, rest) := by
  have hv : v.toNat < 2 ^ 32 := v.toNat_lt
  have hlen : base128Length v.toNat ≤ 5 := base128Length_le (by norm_num) (by omega)
  have hloop := varintLoop_encodeBase128 28 32 rest v.toNat 0 0 (by norm_num) (by omega)
    (by simpa using hv)
  simp only [Nat.zero_add, pow_zero, Nat.mul_one] at hloop
  rw [getVarint32, encodeVarint32_eq]
  rcases Nat.lt_or_ge v.toNat 128 with hs | hs
  · rw [encodeBase128_of_lt hs, List.singleton_append, getVarint32Ptr, toNat_ofNat_small hs,
      if_pos (by rw [and_128_of_lt v.toNat (by omega)]; omega), UInt32.ofNat_toNat]
  · obtain ⟨b, bs, hbs⟩ : ∃ b bs, encodeBase128 v.toNat = b :: bs :=
      List.exists_cons_of_ne_nil (encodeBase128_ne_nil _)
    have hb : b = UInt8.ofNat (v.toNat % 128 + 128) := by
      rw [encodeBase128_of_ge hs] at hbs; exact (List.cons.inj hbs).1.symm
    rw [hbs, List.cons_append, getVarint32Ptr, if_neg, ← List.cons_append, ← hbs,
      getVarint32PtrFallback, hloop, Option.map_some, UInt32.ofNat_toNat]
    rw [hb, toNat_ofNat_cont, and_128_of_lt (v.toNat % 128 + 128) (by omega)]
    omega

theorem getVarint64_encodeVarint64 (v : UInt64) (rest : List UInt8) :
    getVarint64 (encodeVarint64 v ++ rest) = some (v, rest) := by
  have hv : v.toNat < 2 ^ 64 := v.toNat_lt
  have hlen : base128Length v.toNat ≤ 10 := base128Length_le (by norm_num) (by omega)
  have hloop := varintLoop_encodeBase128 63 64 rest v.toNat 0 0 (by norm_num) (by omega)
    (by simpa using hv)
  simp only [Nat.zero_add, pow_zero, Nat.mul_one] at hloop
  rw [getVarint64, getVarint64Ptr, encodeVarint64, hloop, Option.map_some, UInt64.ofNat_toNat]

@[simp] theorem length_encodeVarint32 (v : UInt32) :
    (encodeVarint32 v).length = varintLength v.toUInt64 := by
  rw [encodeVarint32_eq, length_encodeBase128, varintLength, UInt32.toNat_toUInt64]

/-- the loop returns the bytes after the ones it read -/
theorem varintLoop_suffix (maxShift w : Nat) :
    ∀ (input : List UInt8) (shift result v : Nat) (rest : List UInt8),
      varintLoop maxShift w shift result input = some (v, rest) → rest.length < input.length
  | [], _, _, _, _, h => by simp [varintLoop] at h
  | b :: bs, shift, result, v, rest, h => by
    rw [varintLoop] at h
    split_ifs at h with h1 h2
    · have := varintLoop_suffix maxShift w bs _ _ v rest h
      simp only [List.length_cons]; omega
    · simp only [Option.some.injEq, Prod.mk.injEq] at h
      rw [← h.2]; simp

theorem getVarint32_suffix {input rest : List UInt8} {v : UInt32}
    (h : getVarint32 input = some (v, rest)) : rest.length < input.length := by
  rw [getVarint32] at h
  cases input with
  | nil => simp [getVarint32Ptr, getVarint32PtrFallback, varintLoop] at h
  | cons b bs =>
    rw [getVarint32Ptr] at h
    split at h
    · simp only [Option.some.injEq, Prod.mk.injEq] at h
      rw [← h.2]; simp
    · rw [getVarint32PtrFallback, Option.map_eq_some_iff] at h
      obtain ⟨⟨r, q⟩, hr, hrq⟩ := h
      simp only [Prod.mk.injEq] at hrq
      rw [← hrq.2]
      exact varintLoop_suffix 28 32 _ 0 0 r q hr

theorem getVarint64_suffix {input rest : List UInt8} {v : UInt64}
    (h : getVarint64 input = some (v, rest)) : rest.length < input.length := by
  rw [getVarint64, getVarint64Ptr, Option.map_eq_some_iff] at h
  obtain ⟨⟨r, q⟩, hr, hrq⟩ := h
  simp only [Prod.mk.injEq] at hrq
  rw [← hrq.2]
  exact varintLoop_suffix 63 64 _ 0 0 r q hr

@[simp] theorem length_encodeVarint64 (v : UInt64) : (encodeVarint64 v).length = varintLength v := by
  rw [encodeVarint64, length_encodeBase128, varintLength]

/-! ## varint: truncation

A pointer pair `p, limit` that ends inside an encoding is the list of the bytes before `limit`, so
the decoders see no byte past it; what they see are bytes that all carry the continuation bit,
and they answer `nullptr`. -/

/-- every byte of a strict prefix of the base-128 form carries the continuation bit -/
theorem take_encodeBase128_cont (n : Nat) :
    ∀ k < base128Length n, ∀ b ∈ (encodeBase128 n).take k, 128 ≤ b.toNat := by
  induction n using Nat.strongRecOn with
  | ind n ih =>
    intro k hk b hb
    rcases Nat.lt_or_ge n 128 with hn | hn
    · -- one byte: the only strict prefix is empty
      have hk0 : k = 0 := by rw [base128Length, if_pos hn] at hk; omega
      subst hk0
      simp at hb
    · rw [encodeBase128_of_ge hn] at hb
      cases k with
      | zero => simp at hb
      | succ k =>
        rw [List.take_succ_cons, List.mem_cons] at hb
        rcases hb with rfl | hb
        · rw [toNat_ofNat_cont n]; omega
        · have hk' : k < base128Length (n / 128) := by
            rw [base128Length, if_neg (by omega)] at hk; omega
          exact ih (n / 128) (by omega) k hk' b hb

/-- the loop refuses bytes that all continue a number: it runs out of bytes, or of shifts -/
theorem varintLoop_of_cont (maxShift w : Nat) :
    ∀ (input : List UInt8) (shift result : Nat), (∀ b ∈ input, 128 ≤ b.toNat) →
      varintLoop maxShift w shift result input = none
  | [], _, _, _ => rfl
  | b :: bs, shift, result, h => by
    have hb : b.toNat &&& 128 ≠ 0 := by
      have := h b List.mem_cons_self
      rw [and_128_of_lt b.toNat b.toNat_lt]; omega
    rw [varintLoop]
    split_ifs
    · exact varintLoop_of_cont maxShift w bs _ _ fun x hx => h x (List.mem_cons_of_mem b hx)
    · rfl

theorem getVarint32_of_cont {input : List UInt8} (h : ∀ b ∈ input, 128 ≤ b.toNat) :
    getVarint32 input = none := by
  have hloop : getVarint32PtrFallback input = none := by
    rw [getVarint32PtrFallback, varintLoop_of_cont 28 32 input 0 0 h, Option.map_none]
  rw [getVarint32, getVarint32Ptr.eq_def]
  split
  · -- the fast path needs a byte below 128
    rename_i b rest
    have := h b List.mem_cons_self
    rw [if_neg (by rw [and_128_of_lt b.toNat b.toNat_lt]; omega), hloop]
  · exact hloop

theorem getVarint64_of_cont {input : List UInt8} (h : ∀ b ∈ input, 128 ≤ b.toNat) :
    getVarint64 input = none := by
  rw [getVarint64, getVarint64Ptr, varintLoop_of_cont 63 64 input 0 0 h, Option.map_none]

theorem getVarint32_take_encodeVarint32 (v : UInt32) {k : Nat}
    (hk : k < (encodeVarint32 v).length) : getVarint32 ((encodeVarint32 v).take k) = none := by
  rw [encodeVarint32_eq] at hk ⊢
  rw [length_encodeBase128] at hk
  exact getVarint32_of_cont (take_encodeBase128_cont v.toNat k hk)

theorem getVarint64_take_encodeVarint64 (v : UInt64) {k : Nat}
    (hk : k < (encodeVarint64 v).length) : getVarint64 ((encodeVarint64 v).take k) = none := by
  rw [encodeVarint64] at hk ⊢
  rw [length_encodeBase128] at hk
  exact getVarint64_of_cont (take_encodeBase128_cont v.toNat k hk)

/-! ## length-prefixed slices -/

/-- `PutLengthPrefixedSlice`: the length cast to `uint32_t`, then the bytes -/
def putLengthPrefixedSlice (dst value : List UInt8) : List UInt8 :=
  putVarint32 dst (UInt32.ofNat value.length) ++ value

def getLengthPrefixedSlice (input : List UInt8) : Option (List UInt8 × List UInt8) :=
  match getVarint32 input with
  | some (len, rest) =>
    if rest.length ≥ len.toNat then some (rest.take len.toNat, rest.drop len.toNat) else none
  | none => none

/-- what is left after a length-prefixed slice is a proper suffix of the input -/
theorem getLengthPrefixedSlice_suffix {input value rest : List UInt8}
    (h : getLengthPrefixedSlice input = some (value, rest)) : rest.length < input.length := by
  rw [getLengthPrefixedSlice] at h
  split at h
  · rename_i len r hv
    have := getVarint32_suffix hv
    split at h
    · simp only [Option.some.injEq, Prod.mk.injEq] at h
      rw [← h.2, List.length_drop]; omega
    · simp at h
  · simp at h

/-- `GetLengthPrefixedSlice(const char* data)`: the slice a varint32 length at `data` announces,
read without a bound (the limit `data + 5` is the varint's own); an unreadable length is the
empty slice -/
def getLengthPrefixedSlicePtr (data : List UInt8) : List UInt8 :=
  match getVarint32Ptr data with
  | some (len, p) => p.take len.toNat
  | none => []

theorem putLengthPrefixedSlice_eq (dst value : List UInt8) :
    putLengthPrefixedSlice dst value = dst ++ (encodeVarint32 (UInt32.ofNat value.length) ++ value) := by
  simp [putLengthPrefixedSlice, putVarint32]

theorem getLengthPrefixedSlice_put (value rest : List UInt8) (h : value.length < 2 ^ 32) :
    getLengthPrefixedSlice (putLengthPrefixedSlice [] value ++ rest) = some (value, rest) := by
  have hlen : (UInt32.ofNat value.length).toNat = value.length := by
    rw [UInt32.toNat_ofNat']; exact Nat.mod_eq_of_lt h
  rw [putLengthPrefixedSlice_eq, List.nil_append, List.append_assoc, getLengthPrefixedSlice,
    getVarint32_encodeVarint32]
  simp only [hlen, List.length_append, Nat.le_add_right, if_true, List.take_left',
    List.drop_left']

/-- the same, on the bytes written out -/
theorem getLengthPrefixedSlice_encode {value : List UInt8} (h : value.length < 2 ^ 32)
    (rest : List UInt8) :
    getLengthPrefixedSlice (encodeVarint32 (UInt32.ofNat value.length) ++ (value ++ rest)) =
      some (value, rest) := by
  simpa only [putLengthPrefixedSlice_eq, List.nil_append, List.append_assoc] using
    getLengthPrefixedSlice_put value rest h

theorem getLengthPrefixedSlicePtr_put (value rest : List UInt8) (h : value.length < 2 ^ 32) :
    getLengthPrefixedSlicePtr (putLengthPrefixedSlice [] value ++ rest) = value := by
  have hlen : (UInt32.ofNat value.length).toNat = value.length := by
    rw [UInt32.toNat_ofNat']; exact Nat.mod_eq_of_lt h
  have hget := getVarint32_encodeVarint32 (UInt32.ofNat value.length) (value ++ rest)
  rw [getVarint32] at hget
  rw [putLengthPrefixedSlice_eq, List.nil_append, List.append_assoc, getLengthPrefixedSlicePtr,
    hget]
  simp only [hlen, List.take_left']

/-- a cut inside the length refuses at the varint; a cut inside the bytes leaves fewer than the
length announces -/
theorem getLengthPrefixedSlice_take_put {value : List UInt8} (h : value.length < 2 ^ 32) {k : Nat}
    (hk : k < (putLengthPrefixedSlice [] value).length) :
    getLengthPrefixedSlice ((putLengthPrefixedSlice [] value).take k) = none := by
  have hlen : (UInt32.ofNat value.length).toNat = value.length := by
    rw [UInt32.toNat_ofNat']; exact Nat.mod_eq_of_lt h
  rw [putLengthPrefixedSlice_eq, List.nil_append] at hk ⊢
  rw [List.length_append] at hk
  rcases Nat.lt_or_ge k (encodeVarint32 (UInt32.ofNat value.length)).length with hv | hv
  · rw [List.take_append_of_le_length hv.le, getLengthPrefixedSlice,
      getVarint32_take_encodeVarint32 _ hv]
  · -- the varint is whole; `k - |varint|` bytes of the value follow it
    obtain ⟨j, rfl⟩ := Nat.exists_eq_add_of_le hv
    rw [List.take_append, List.take_of_length_le (by omega), Nat.add_sub_cancel_left,
      getLengthPrefixedSlice, getVarint32_encodeVarint32]
    dsimp only
    rw [hlen, List.length_take, if_neg (by omega)]

/-! ## The round trip as a whole -/

/-- **Varint and length-prefixed coding round trip.**  What `EncodeVarint32`, `EncodeVarint64` and
`PutLengthPrefixedSlice` write is read back by `GetVarint32`, `GetVarint64` and
`GetLengthPrefixedSlice` whatever follows it, the varints taking exactly `VarintLength` bytes, and
every strict prefix of each encoding is refused. -/
theorem coding_round_trip (v : UInt32) (w : UInt64) (x t : List UInt8) (hx : x.length < 2 ^ 32) :
    getVarint32 (encodeVarint32 v ++ t) = some (v, t) ∧
      (encodeVarint32 v).length = varintLength v.toUInt64 ∧
      getVarint64 (encodeVarint64 w ++ t) = some (w, t) ∧
      (encodeVarint64 w).length = varintLength w ∧
      getLengthPrefixedSlice (putLengthPrefixedSlice [] x ++ t) = some (x, t) ∧
      (∀ k < (encodeVarint32 v).length, getVarint32 ((encodeVarint32 v).take k) = none) ∧
      (∀ k < (encodeVarint64 w).length, getVarint64 ((encodeVarint64 w).take k) = none) ∧
      ∀ k < (putLengthPrefixedSlice [] x).length,
        getLengthPrefixedSlice ((putLengthPrefixedSlice [] x).take k) = none :=
  ⟨getVarint32_encodeVarint32 v t, length_encodeVarint32 v, getVarint64_encodeVarint64 w t,
    length_encodeVarint64 w, getLengthPrefixedSlice_put x t hx,
    fun _ hk => getVarint32_take_encodeVarint32 v hk,
    fun _ hk => getVarint64_take_encodeVarint64 w hk,
    fun _ hk => getLengthPrefixedSlice_take_put hx hk⟩

theorem coding_round_trip_two_bytes :
    ([7, 8] : List UInt8).length < 2 ^ 32 ∧
      getVarint32 (encodeVarint32 300 ++ [9]) = some (300, [9]) ∧
      (encodeVarint32 300).length = varintLength (300 : UInt32).toUInt64 ∧
      getVarint64 (encodeVarint64 (2 ^ 40) ++ [9]) = some (2 ^ 40, [9]) ∧
      (encodeVarint64 (2 ^ 40)).length = varintLength (2 ^ 40) ∧
      getLengthPrefixedSlice (putLengthPrefixedSlice [] [7, 8] ++ [9]) = some ([7, 8], [9]) ∧
      (∀ k < (encodeVarint32 300).length, getVarint32 ((encodeVarint32 300).take k) = none) ∧
      (∀ k < (encodeVarint64 (2 ^ 40)).length,
        getVarint64 ((encodeVarint64 (2 ^ 40)).take k) = none) ∧
      ∀ k < (putLengthPrefixedSlice [] [7, 8]).length,
        getLengthPrefixedSlice ((putLengthPrefixedSlice [] [7, 8]).take k) = none :=
  ⟨by decide, coding_round_trip 300 (2 ^ 40) [7, 8] [9] (by decide)⟩

end RocksDB
