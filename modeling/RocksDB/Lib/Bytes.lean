import Mathlib

/-!
# Byte strings: fixed-width little-endian numbers and base-128 numbers

Two ways of writing a natural number as bytes, over `List UInt8`:

* `toBytesLE w n`, `ofBytesLE bs`   the `w` low bytes of `n`, least significant first, and back;
* `encodeBase128 n`                 seven bits per byte, least significant group first, the high
                                    bit set on every byte but the last;
* `base128Length n`                 the number of bytes of `encodeBase128 n`, counted by
                                    shifting `n` right seven bits at a time.

The round trips are `ofBytesLE_toBytesLE` and, for the decoders that read the base-128 form
back, the shape lemmas `encodeBase128_of_lt`, `encodeBase128_of_ge`: a decoder proved on these
two cases by strong induction reads any encoding.
-/

namespace ByteCode

/-! ## fixed width, little endian -/

/-- the `w` low bytes of `n`, least significant first -/
def toBytesLE : Nat → Nat → List UInt8
  | 0, _ => []
  | w + 1, n => UInt8.ofNat n :: toBytesLE w (n / 256)

/-- the number whose little-endian bytes are `bs` -/
def ofBytesLE : List UInt8 → Nat
  | [] => 0
  | b :: bs => b.toNat + 256 * ofBytesLE bs

@[simp] theorem toBytesLE_zero (n : Nat) : toBytesLE 0 n = [] := rfl

theorem toBytesLE_succ (w n : Nat) :
    toBytesLE (w + 1) n = UInt8.ofNat n :: toBytesLE w (n / 256) := rfl

@[simp] theorem ofBytesLE_nil : ofBytesLE [] = 0 := rfl

@[simp] theorem ofBytesLE_cons (b : UInt8) (bs : List UInt8) :
    ofBytesLE (b :: bs) = b.toNat + 256 * ofBytesLE bs := rfl

@[simp] theorem length_toBytesLE (w n : Nat) : (toBytesLE w n).length = w := by
  induction w generalizing n with
  | zero => rfl
  | succ w ih => simp [toBytesLE_succ, ih]

theorem ofBytesLE_toBytesLE (w n : Nat) : ofBytesLE (toBytesLE w n) = n % 256 ^ w := by
  induction w generalizing n with
  | zero => simp [Nat.mod_one]
  | succ w ih =>
    rw [toBytesLE_succ, ofBytesLE_cons, ih, UInt8.toNat_ofNat', show (2 : Nat) ^ 8 = 256 from rfl,
      pow_succ 256 w, Nat.mul_comm (256 ^ w) 256]
    -- split `n mod 256^(w+1)` into its low byte and the rest
    have h := Nat.mod_mul_right_div_self n 256 (256 ^ w)
    have h2 := Nat.mod_add_div (n % (256 * 256 ^ w)) 256
    rw [Nat.mod_mul_right_mod] at h2
    rw [← h]
    omega

theorem ofBytesLE_lt (bs : List UInt8) : ofBytesLE bs < 256 ^ bs.length := by
  induction bs with
  | nil => simp
  | cons b bs ih =>
    have hb : b.toNat < 256 := b.toNat_lt
    rw [ofBytesLE_cons, List.length_cons, pow_succ]
    omega

theorem toBytesLE_ofBytesLE (bs : List UInt8) : toBytesLE bs.length (ofBytesLE bs) = bs := by
  induction bs with
  | nil => rfl
  | cons b bs ih =>
    have hb : b.toNat < 256 := b.toNat_lt
    rw [List.length_cons, toBytesLE_succ, ofBytesLE_cons]
    have hdiv : (b.toNat + 256 * ofBytesLE bs) / 256 = ofBytesLE bs := by omega
    have hbyte : UInt8.ofNat (b.toNat + 256 * ofBytesLE bs) = b := by
      apply UInt8.toNat_inj.mp
      rw [UInt8.toNat_ofNat']
      omega
    rw [hdiv, ih, hbyte]

/-- the little-endian value of the first `w` bytes does not look at the bytes after them -/
theorem ofBytesLE_take_append (w : Nat) (bs rest : List UInt8) (h : bs.length = w) :
    ofBytesLE ((bs ++ rest).take w) = ofBytesLE bs := by
  rw [List.take_append_of_le_length (by omega), List.take_of_length_le (by omega)]

/-! ## base 128 -/

/-- seven bits per byte, low group first; every byte but the last has its high bit set -/
def encodeBase128 (n : Nat) : List UInt8 :=
  if n < 128 then [UInt8.ofNat n] else UInt8.ofNat (n % 128 + 128) :: encodeBase128 (n / 128)
termination_by n
decreasing_by omega

/-- the number of bytes of `encodeBase128 n`, counted the way the coders count it -/
def base128Length (n : Nat) : Nat :=
  if n < 128 then 1 else base128Length (n / 128) + 1
termination_by n
decreasing_by omega

theorem encodeBase128_of_lt {n : Nat} (h : n < 128) : encodeBase128 n = [UInt8.ofNat n] := by
  rw [encodeBase128, if_pos h]

theorem encodeBase128_of_ge {n : Nat} (h : 128 ≤ n) :
    encodeBase128 n = UInt8.ofNat (n % 128 + 128) :: encodeBase128 (n / 128) := by
  rw [encodeBase128, if_neg (by omega)]

theorem encodeBase128_ne_nil (n : Nat) : encodeBase128 n ≠ [] := by
  rw [encodeBase128]; split <;> simp

@[simp] theorem length_encodeBase128 (n : Nat) : (encodeBase128 n).length = base128Length n := by
  induction n using Nat.strongRecOn with
  | ind n ih =>
    rw [encodeBase128, base128Length]
    split
    · rfl
    · rw [List.length_cons, ih (n / 128) (by omega)]

theorem base128Length_pos (n : Nat) : 0 < base128Length n := by
  rw [base128Length]; split <;> omega

/-- a number below `2^(7k)` takes at most `k` groups (`k ≥ 1`) -/
theorem base128Length_le {n k : Nat} (hk : 1 ≤ k) (h : n < 2 ^ (7 * k)) : base128Length n ≤ k := by
  induction k generalizing n with
  | zero => omega
  | succ k ih =>
    rw [base128Length]
    split
    · omega
    · rcases Nat.eq_zero_or_pos k with rfl | hk'
      · simp at h; omega
      · have hlt : n / 128 < 2 ^ (7 * k) := by
          rw [Nat.div_lt_iff_lt_mul (by norm_num)]
          have e : 2 ^ (7 * (k + 1)) = 2 ^ (7 * k) * 128 := by
            rw [show 7 * (k + 1) = 7 * k + 7 by ring, pow_add]; norm_num
          omega
        have := ih hk' hlt
        omega

/-- the one byte of a small number is that number, with the high bit clear -/
theorem toNat_ofNat_small {n : Nat} (h : n < 128) : (UInt8.ofNat n).toNat = n := by
  rw [UInt8.toNat_ofNat']; omega

/-- a continuation byte carries the low seven bits and the high bit -/
theorem toNat_ofNat_cont (n : Nat) : (UInt8.ofNat (n % 128 + 128)).toNat = n % 128 + 128 := by
  rw [UInt8.toNat_ofNat']; omega

end ByteCode
