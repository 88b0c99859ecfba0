import RocksDB.Lib.Bytes

/-!
# Reflected 32-bit CRCs: a bit, a byte and a word at a time

A reflected CRC keeps a 32-bit remainder and reads its data least significant bit first: a step
shifts the remainder right and adds the polynomial where a one falls off (`step`).  A byte is
added into the low bits, and eight steps follow (`byte`); a string is its bytes in order
(`bytes`).

The steps are linear over xor (`steps_xor`), and eight steps of a word whose low byte is zero
shift it right by a byte (`steps_and_not_0xff`).  So

* `byte_eq_table`    a byte is a read of the table of the remainders of eight steps, xor the
                     remainder shifted by a byte;
* `steps_word`       four bytes are 32 steps of the remainder with their little-endian word
                     added;
* `steps_32_tables`  32 steps split into reads of four tables, of 32, 24, 16 and 8 steps: the
                     slicing-by-4 of the table-driven implementations.
-/

namespace ReflectedCrc

open ByteCode

/-! ## Bits of a word -/

section Bits

theorem and_xor_and_not (x m : UInt32) : (x &&& m) ^^^ (x &&& ~~~m) = x := by
  apply UInt32.toBitVec_inj.mp
  simp only [UInt32.toBitVec_xor, UInt32.toBitVec_and, UInt32.toBitVec_not]
  ext i hi
  simp only [BitVec.getElem_xor, BitVec.getElem_and, BitVec.getElem_not]
  cases x.toBitVec[i] <;> cases m.toBitVec[i] <;> rfl

theorem xor_and (x y m : UInt32) : (x ^^^ y) &&& m = (x &&& m) ^^^ (y &&& m) := by
  apply UInt32.toBitVec_inj.mp
  simp only [UInt32.toBitVec_xor, UInt32.toBitVec_and]
  ext i hi
  simp only [BitVec.getElem_xor, BitVec.getElem_and]
  cases x.toBitVec[i] <;> cases y.toBitVec[i] <;> cases m.toBitVec[i] <;> rfl

theorem and_not_and (x m : UInt32) : (x &&& ~~~m) &&& m = 0 := by
  apply UInt32.toBitVec_inj.mp
  simp only [UInt32.toBitVec_and, UInt32.toBitVec_not, UInt32.toBitVec_zero]
  ext i hi
  simp only [BitVec.getElem_and, BitVec.getElem_not, BitVec.getElem_zero]
  cases x.toBitVec[i] <;> cases m.toBitVec[i] <;> rfl

theorem xor_xor_xor_cancel (a b p : UInt32) : (a ^^^ p) ^^^ (b ^^^ p) = a ^^^ b := by
  rw [UInt32.xor_assoc, ← UInt32.xor_assoc p, UInt32.xor_comm p b, UInt32.xor_assoc b,
    UInt32.xor_self, UInt32.xor_zero]

theorem toNat_and_one (x : UInt32) : (x &&& 1).toNat = x.toNat % 2 := by
  rw [UInt32.toNat_and, show (1 : UInt32).toNat = 2 ^ 1 - 1 from rfl,
    Nat.and_two_pow_sub_one_eq_mod]

theorem toNat_and_0xff (x : UInt32) : (x &&& 0xff).toNat = x.toNat % 256 := by
  rw [UInt32.toNat_and, show (0xff : UInt32).toNat = 2 ^ 8 - 1 from rfl,
    Nat.and_two_pow_sub_one_eq_mod]

theorem and_one_eq (x : UInt32) : x &&& 1 = 0 ∨ x &&& 1 = 1 := by
  rcases Nat.mod_two_eq_zero_or_one x.toNat with h | h
  · exact Or.inl (UInt32.toNat_inj.mp (by rw [toNat_and_one, h]; rfl))
  · exact Or.inr (UInt32.toNat_inj.mp (by rw [toNat_and_one, h]; rfl))

/-- bits cleared that a shift by a byte drops anyway: the shift -/
theorem and_not_shiftRight_8 (x m : UInt32) (hm : m >>> 8 = 0) : (x &&& ~~~m) >>> 8 = x >>> 8 := by
  apply UInt32.toBitVec_inj.mp
  have hm' := congrArg UInt32.toBitVec hm
  have h8 : UInt32.toBitVec 8 % 32 = 8#32 := by decide
  simp only [UInt32.toBitVec_shiftRight, UInt32.toBitVec_and, UInt32.toBitVec_not,
    UInt32.toBitVec_zero, h8, BitVec.ushiftRight_eq'] at hm' ⊢
  ext i hi
  have hbit := congrArg (fun v : BitVec 32 => v[i]) hm'
  simp only [BitVec.getElem_zero, BitVec.getElem_ushiftRight] at hbit
  simp only [BitVec.getElem_ushiftRight, BitVec.getLsbD_and, BitVec.getLsbD_not, hbit,
    Bool.not_false, Bool.and_true]
  -- a bit of `x` is set only below the width
  cases hx : x.toBitVec.getLsbD ((8#32).toNat + i) with
  | false => rfl
  | true =>
    have := BitVec.lt_of_getLsbD hx
    simpa using this

theorem toNat_shiftRight_8 (x : UInt32) : (x >>> 8).toNat = x.toNat / 256 := by
  rw [UInt32.toNat_shiftRight, Nat.shiftRight_eq_div_pow]
  rfl

theorem shiftRight_8_8 (x : UInt32) : (x >>> 8) >>> 8 = x >>> 16 := by
  apply UInt32.toNat_inj.mp
  rw [toNat_shiftRight_8, toNat_shiftRight_8, UInt32.toNat_shiftRight, Nat.shiftRight_eq_div_pow,
    Nat.div_div_eq_div_mul]
  rfl

end Bits

/-! ## Steps -/

variable (poly : UInt32)

/-- one bit: the remainder shifted right, the polynomial added where a one falls off -/
def step (x : UInt32) : UInt32 := if x &&& 1 = 0 then x >>> 1 else (x >>> 1) ^^^ poly

def steps : Nat → UInt32 → UInt32
  | 0, x => x
  | n + 1, x => steps n (step poly x)

/-- a byte: added into the low bits, then eight steps -/
def byte (x : UInt32) (b : UInt8) : UInt32 := steps poly 8 (x ^^^ b.toUInt32)

/-- a string of bytes, in order -/
def bytes (x : UInt32) (bs : List UInt8) : UInt32 := bs.foldl (byte poly) x

theorem bytes_append (x : UInt32) (a b : List UInt8) :
    bytes poly x (a ++ b) = bytes poly (bytes poly x a) b := List.foldl_append

/-- **A step is linear** over xor: by the low bits of the two words -/
theorem step_xor (x y : UInt32) : step poly (x ^^^ y) = step poly x ^^^ step poly y := by
  unfold step
  rw [xor_and, UInt32.shiftRight_xor]
  rcases and_one_eq x with hx | hx <;> rcases and_one_eq y with hy | hy <;>
    simp only [hx, hy, UInt32.xor_self, UInt32.xor_zero, UInt32.zero_xor, if_true,
      show ¬(1 : UInt32) = 0 by decide, if_false]
  · rw [UInt32.xor_assoc]
  · rw [UInt32.xor_assoc, UInt32.xor_assoc, UInt32.xor_comm (y >>> 1)]
  · rw [xor_xor_xor_cancel]

theorem steps_xor (n : Nat) (x y : UInt32) :
    steps poly n (x ^^^ y) = steps poly n x ^^^ steps poly n y := by
  induction n generalizing x y with
  | zero => rfl
  | succ n ih => simp only [steps, step_xor, ih]

theorem steps_add (m n : Nat) (x : UInt32) :
    steps poly (m + n) x = steps poly n (steps poly m x) := by
  induction m generalizing x with
  | zero => simp [steps]
  | succ m ih => rw [Nat.add_right_comm, steps, ih, steps]

/-- steps of a word whose low `k` bits are zero shift it right: no one falls off -/
theorem toNat_steps_of_mod (k : Nat) (x : UInt32) (h : x.toNat % 2 ^ k = 0) :
    (steps poly k x).toNat = x.toNat / 2 ^ k := by
  induction k generalizing x with
  | zero => simp [steps]
  | succ k ih =>
    have h2 : x.toNat % 2 = 0 := by
      rw [pow_succ, Nat.mul_comm] at h
      exact Nat.mod_eq_zero_of_dvd (Nat.dvd_trans (Dvd.intro _ rfl) (Nat.dvd_of_mod_eq_zero h))
    have hstep : step poly x = x >>> 1 := by
      rw [step, if_pos (UInt32.toNat_inj.mp (by rw [toNat_and_one, h2]; rfl))]
    have hx : (x >>> 1).toNat = x.toNat / 2 := by
      rw [UInt32.toNat_shiftRight, Nat.shiftRight_eq_div_pow]
      rfl
    have hk : (x >>> 1).toNat % 2 ^ k = 0 := by
      rw [hx, ← Nat.mod_mul_right_div_self, ← pow_succ', h]
    rw [steps, hstep, ih _ hk, hx, Nat.div_div_eq_div_mul, ← pow_succ']

/-- eight steps of a word with its low byte cleared: the word shifted by a byte -/
theorem steps_and_not_0xff (x : UInt32) : steps poly 8 (x &&& ~~~0xff) = x >>> 8 := by
  have hlow : (x &&& ~~~0xff).toNat % 2 ^ 8 = 0 := by
    rw [show (2 : Nat) ^ 8 = 256 from rfl, ← toNat_and_0xff, and_not_and]
    rfl
  apply UInt32.toNat_inj.mp
  rw [toNat_steps_of_mod poly 8 _ hlow, show (2 : Nat) ^ 8 = 256 from rfl, ← toNat_shiftRight_8,
    and_not_shiftRight_8 x 0xff (by decide)]

/-- **The byte split**: the low byte takes all the steps, the rest is shifted by a byte -/
theorem steps_split (n : Nat) (y : UInt32) :
    steps poly (n + 8) y = steps poly (n + 8) (y &&& 0xff) ^^^ steps poly n (y >>> 8) := by
  conv_lhs => rw [← and_xor_and_not y 0xff]
  rw [steps_xor, Nat.add_comm n 8, steps_add poly 8 n (y &&& ~~~0xff), steps_and_not_0xff]

/-- **A byte from the table** of the remainders of eight steps -/
theorem byte_eq_table (x : UInt32) (b : UInt8) :
    byte poly x b = steps poly 8 ((x ^^^ b.toUInt32) &&& 0xff) ^^^ (x >>> 8) := by
  have hb : b.toUInt32 >>> 8 = 0 := by
    apply UInt32.toNat_inj.mp
    rw [toNat_shiftRight_8, UInt8.toNat_toUInt32]
    exact Nat.div_eq_of_lt b.toNat_lt
  rw [byte, ← Nat.zero_add 8, steps_split, UInt32.shiftRight_xor, hb, UInt32.xor_zero]
  rfl

/-- eight steps of the remainder with a word added: a byte, and the word shifted by a byte -/
theorem steps_8_xor (x w : UInt32) (b : UInt8) (hw : w.toNat % 256 = b.toNat) :
    steps poly 8 (x ^^^ w) = byte poly x b ^^^ (w >>> 8) := by
  have hlow : w &&& 0xff = b.toUInt32 &&& 0xff := by
    apply UInt32.toNat_inj.mp
    rw [toNat_and_0xff, toNat_and_0xff, hw, UInt8.toNat_toUInt32, Nat.mod_eq_of_lt b.toNat_lt]
  rw [byte_eq_table, ← Nat.zero_add 8, steps_split, xor_and, hlow, ← xor_and,
    UInt32.shiftRight_xor]
  simp only [steps, UInt32.xor_assoc]

/-- **A little-endian word**: four bytes or fewer are as many steps of the remainder with the
word added; induction on the bytes -/
theorem steps_word (bs : List UInt8) (hbs : bs.length ≤ 4) (x : UInt32) :
    steps poly (8 * bs.length) (x ^^^ UInt32.ofNat (ofBytesLE bs)) = bytes poly x bs := by
  induction bs generalizing x with
  | nil => simp [steps, bytes]
  | cons b bs ih =>
    have hlt := ofBytesLE_lt bs
    have hlen : bs.length ≤ 3 := by simp only [List.length_cons] at hbs; omega
    have hpow : 256 ^ bs.length ≤ 256 ^ 3 := Nat.pow_le_pow_right (by decide) hlen
    have hw : (UInt32.ofNat (ofBytesLE (b :: bs))).toNat = b.toNat + 256 * ofBytesLE bs := by
      rw [ofBytesLE_cons, UInt32.toNat_ofNat', Nat.mod_eq_of_lt]
      have := b.toNat_lt
      have : (256 : Nat) ^ 3 = 16777216 := rfl
      omega
    have hshift : UInt32.ofNat (ofBytesLE (b :: bs)) >>> 8 = UInt32.ofNat (ofBytesLE bs) := by
      apply UInt32.toNat_inj.mp
      rw [toNat_shiftRight_8, hw, UInt32.toNat_ofNat', Nat.mod_eq_of_lt]
      · have := b.toNat_lt
        omega
      · have : (256 : Nat) ^ 3 = 16777216 := rfl
        omega
    rw [List.length_cons, Nat.mul_succ, Nat.add_comm, steps_add,
      steps_8_xor poly _ _ b (by rw [hw]; have := b.toNat_lt; omega), hshift, ih (by omega)]
    rfl

/-- **Slicing by four**: 32 steps are four table reads, of 32 steps for the low byte down to 8
steps for the high byte -/
theorem steps_32_tables (c : UInt32) :
    steps poly 32 c = steps poly 32 (c &&& 0xff) ^^^ steps poly 24 ((c >>> 8) &&& 0xff) ^^^
      steps poly 16 ((c >>> 16) &&& 0xff) ^^^ steps poly 8 (c >>> 24) := by
  have h24 := steps_split poly 24 c
  have h16 := steps_split poly 16 (c >>> 8)
  have h8 := steps_split poly 8 (c >>> 16)
  rw [shiftRight_8_8] at h16
  have h24' : c >>> 16 >>> 8 = c >>> 24 := by
    apply UInt32.toNat_inj.mp
    rw [toNat_shiftRight_8, UInt32.toNat_shiftRight, UInt32.toNat_shiftRight,
      Nat.shiftRight_eq_div_pow, Nat.shiftRight_eq_div_pow, Nat.div_div_eq_div_mul]
    rfl
  rw [h24'] at h8
  rw [h24, h16, h8]
  simp only [UInt32.xor_assoc]

end ReflectedCrc
