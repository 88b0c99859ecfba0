import RocksDB.Lib.Lists

/-!
# Bytes as a bit array

Bit `pos` of a byte array is bit `pos % 8` of byte `pos / 8`, as C filter code addresses it:
`data[pos / 8] |= (1 << (pos % 8))` sets it and `(data[pos / 8] & (1 << (pos % 8))) != 0` tests
it.

* `getBit_eq`                 the test reads bit `pos % 8` of the byte;
* `getBit_setBit`             setting a bit sets it, where its byte exists, and changes no other;
* `getBit_setBits_of_mem`, `getBit_setBits_of_getBit`
                              after setting the bits of a list of positions within the array, each
                              is set, and so is every bit that was set before.

Double hashing probes `k` positions `pos h, pos (h + δ), pos (h + δ + δ), …`; a filter builder
sets them (`setProbes`) and a reader tests them, stopping at the first clear one (`testProbes`).

* `setProbes_eq`, `testProbes_eq`   the two loops set, and test, the bits of `probes`;
* `testProbes_setBits`              a test finds set every probe that a builder set before.

`probesBy`, `setProbesBy` and `testProbesBy` are the same loops with the state moved on by any
step, not only by adding `δ`.
-/

namespace BitArray

/-- `1 << (pos % 8)` -/
def mask (pos : Nat) : UInt8 := (1 : UInt8) <<< UInt8.ofNat (pos % 8)

/-- `data[pos / 8] |= (1 << (pos % 8))` -/
def setBit (data : List UInt8) (pos : Nat) : List UInt8 := data.modify (pos / 8) (· ||| mask pos)

/-- `(data[pos / 8] & (1 << (pos % 8))) != 0` -/
def getBit (data : List UInt8) (pos : Nat) : Bool := (data.getD (pos / 8) 0 &&& mask pos) != 0

/-- the bits at `ps` set, one after the other -/
def setBits (data : List UInt8) (ps : List Nat) : List UInt8 := ps.foldl setBit data

theorem toNat_mask (pos : Nat) : (mask pos).toNat = 2 ^ (pos % 8) := by
  have hk : pos % 8 < 8 := Nat.mod_lt _ (by norm_num)
  have hlt : 2 ^ (pos % 8) < 2 ^ 8 := Nat.pow_lt_pow_right (by norm_num) hk
  rw [mask, UInt8.toNat_shiftLeft, UInt8.toNat_one, UInt8.toNat_ofNat',
    Nat.mod_eq_of_lt (show pos % 8 < 2 ^ 8 by omega), Nat.mod_mod, Nat.one_shiftLeft,
    Nat.mod_eq_of_lt hlt]

theorem and_mask_ne_zero (b : UInt8) (pos : Nat) :
    ((b &&& mask pos) != 0) = b.toNat.testBit (pos % 8) := by
  have hand : (b &&& mask pos).toNat = (b.toNat.testBit (pos % 8)).toNat * 2 ^ (pos % 8) := by
    rw [UInt8.toNat_and, toNat_mask, Nat.and_two_pow]
  cases htest : b.toNat.testBit (pos % 8)
  · have hzero : b &&& mask pos = 0 := by
      apply UInt8.toNat_inj.mp
      rw [hand, htest]
      simp
    rw [hzero]
    rfl
  · have hne : b &&& mask pos ≠ 0 := by
      intro h0
      have := congrArg UInt8.toNat h0
      rw [hand, htest] at this
      simp at this
    simpa using hne

theorem getBit_eq (data : List UInt8) (pos : Nat) :
    getBit data pos = (data.getD (pos / 8) 0).toNat.testBit (pos % 8) :=
  and_mask_ne_zero _ _

@[simp] theorem length_setBit (data : List UInt8) (pos : Nat) :
    (setBit data pos).length = data.length :=
  List.length_modify _ _ _

theorem getD_setBit (data : List UInt8) (p i : Nat) :
    (setBit data p).getD i 0 =
      if p / 8 = i ∧ i < data.length then data.getD i 0 ||| mask p else data.getD i 0 := by
  rw [setBit, List.getD_eq_getElem?_getD, List.getElem?_modify, List.getD_eq_getElem?_getD]
  by_cases hi : i < data.length
  · rw [List.getElem?_eq_getElem hi]
    by_cases hpi : p / 8 = i <;> simp [hpi, hi]
  · rw [List.getElem?_eq_none (by omega)]
    simp [hi]

/-- setting bit `p` sets it where its byte exists, and changes no other bit -/
theorem getBit_setBit (data : List UInt8) (p q : Nat) :
    getBit (setBit data p) q = (getBit data q || (decide (q = p) && decide (p / 8 < data.length))) := by
  rw [getBit_eq, getBit_eq, getD_setBit]
  by_cases hbyte : p / 8 = q / 8 ∧ q / 8 < data.length
  · rw [if_pos hbyte, UInt8.toNat_or, toNat_mask, Nat.testBit_or, Nat.testBit_two_pow]
    -- two positions in one byte are equal exactly where their bits in it are
    have hpq : (p % 8 = q % 8) ↔ q = p := by omega
    by_cases h : q = p
    · subst h
      simp [hbyte.2]
    · simp [h, hpq.not.mpr h]
  · rw [if_neg hbyte]
    have hoff : (decide (q = p) && decide (p / 8 < data.length)) = false := by
      by_cases h : q = p
      · subst h
        simp only [decide_true, Bool.true_and, decide_eq_false_iff_not]
        exact fun hlt => hbyte ⟨rfl, hlt⟩
      · simp [h]
    rw [hoff, Bool.or_false]

theorem getBit_setBit_of_getBit {data : List UInt8} {q : Nat} (h : getBit data q = true) (p : Nat) :
    getBit (setBit data p) q = true := by
  rw [getBit_setBit, h, Bool.true_or]

theorem setBits_cons (data : List UInt8) (p : Nat) (ps : List Nat) :
    setBits data (p :: ps) = setBits (setBit data p) ps := rfl

@[simp] theorem length_setBits (data : List UInt8) (ps : List Nat) :
    (setBits data ps).length = data.length := by
  induction ps generalizing data with
  | nil => rfl
  | cons p ps ih => rw [setBits_cons, ih, length_setBit]

/-- setting bits never clears one -/
theorem getBit_setBits_of_getBit {data : List UInt8} {q : Nat} (h : getBit data q = true)
    (ps : List Nat) : getBit (setBits data ps) q = true := by
  induction ps generalizing data with
  | nil => exact h
  | cons p ps ih =>
    rw [setBits_cons]
    exact ih (getBit_setBit_of_getBit h p)

/-- after setting the bits at `ps`, each of those within the array is set -/
theorem getBit_setBits_of_mem {data : List UInt8} {ps : List Nat} {q : Nat} (hq : q ∈ ps)
    (hlt : q / 8 < data.length) : getBit (setBits data ps) q = true := by
  induction ps generalizing data with
  | nil => cases hq
  | cons p ps ih =>
    rw [setBits_cons]
    rcases List.mem_cons.mp hq with rfl | hq'
    · apply getBit_setBits_of_getBit
      rw [getBit_setBit]
      simp [hlt]
    · exact ih hq' (by rw [length_setBit]; exact hlt)

theorem setBits_flatMap {β : Type*} (data : List UInt8) (f : β → List Nat) (l : List β) :
    setBits data (l.flatMap f) = l.foldl (fun data x => setBits data (f x)) data :=
  List.foldl_flatMap

/-- a byte that no position of `ps` falls in is left as it was -/
theorem getD_setBits_of_forall {data : List UInt8} {ps : List Nat} {i : Nat}
    (h : ∀ p ∈ ps, p / 8 ≠ i) : (setBits data ps).getD i 0 = data.getD i 0 := by
  induction ps generalizing data with
  | nil => rfl
  | cons p ps ih =>
    rw [setBits_cons, ih (fun q hq => h q (List.mem_cons_of_mem p hq)), getD_setBit,
      if_neg (fun hp => h p List.mem_cons_self hp.1)]

theorem getBit_append_left (l r : List UInt8) {q : Nat} (hq : q / 8 < l.length) :
    getBit (l ++ r) q = getBit l q := by
  rw [getBit, getBit, List.getD_append _ _ _ _ hq]

/-- a bit set past a prefix is set in what follows it -/
theorem setBit_append_right (l r : List UInt8) (q : Nat) :
    setBit (l ++ r) (8 * l.length + q) = l ++ setBit r q := by
  have hdiv : (8 * l.length + q) / 8 = l.length + q / 8 := by omega
  have hmask : mask (8 * l.length + q) = mask q := by
    rw [mask, mask, show (8 * l.length + q) % 8 = q % 8 by omega]
  rw [setBit, setBit, hdiv, hmask, List.modify_append_right]

theorem getBit_take (data : List UInt8) {n q : Nat} (hq : q / 8 < n) :
    getBit (data.take n) q = getBit data q := by
  rw [getBit, getBit, List.getD_eq_getElem?_getD, List.getElem?_take_of_lt hq,
    List.getD_eq_getElem?_getD]

theorem getBit_drop (data : List UInt8) (n q : Nat) :
    getBit (data.drop n) q = getBit data (8 * n + q) := by
  have hdiv : (8 * n + q) / 8 = n + q / 8 := by omega
  have hmod : (8 * n + q) % 8 = q % 8 := by omega
  rw [getBit_eq, getBit_eq, hdiv, hmod, List.getD_eq_getElem?_getD, List.getElem?_drop,
    List.getD_eq_getElem?_getD]

/-! ### Double hashing -/

section Probes

variable {α : Type*} [Add α] (pos : α → Nat) (δ : α)

/-- the positions of `k` probes from `h` with step `δ` -/
def probes : α → Nat → List Nat
  | _, 0 => []
  | h, k + 1 => pos h :: probes (h + δ) k

/-- `for (i = 0; i < k; ++i) { set bit pos(h); h += δ; }` -/
def setProbes (data : List UInt8) : α → Nat → List UInt8
  | _, 0 => data
  | h, k + 1 => setProbes (setBit data (pos h)) (h + δ) k

/-- `for (i = 0; i < k; ++i) { if (bit pos(h) is clear) return false; h += δ; } return true;` -/
def testProbes (data : List UInt8) : α → Nat → Bool
  | _, 0 => true
  | h, k + 1 => if getBit data (pos h) = false then false else testProbes data (h + δ) k

theorem setProbes_eq (data : List UInt8) (h : α) (k : Nat) :
    setProbes pos δ data h k = setBits data (probes pos δ h k) := by
  induction k generalizing data h with
  | zero => rfl
  | succ k ih => rw [setProbes, ih, probes, setBits_cons]

theorem testProbes_eq (data : List UInt8) (h : α) (k : Nat) :
    testProbes pos δ data h k = (probes pos δ h k).all (getBit data) := by
  induction k generalizing h with
  | zero => rfl
  | succ k ih =>
    rw [testProbes, ih, probes, List.all_cons]
    cases getBit data (pos h) <;> simp

theorem setProbes_append (l r : List UInt8) (h : α) (k : Nat) :
    setProbes (fun x => 8 * l.length + pos x) δ (l ++ r) h k = l ++ setProbes pos δ r h k := by
  induction k generalizing r h with
  | zero => rfl
  | succ k ih => rw [setProbes, setProbes, setBit_append_right, ih]

theorem probes_map (f : Nat → Nat) (h : α) (k : Nat) :
    probes (fun x => f (pos x)) δ h k = (probes pos δ h k).map f := by
  induction k generalizing h with
  | zero => rfl
  | succ k ih => rw [probes, probes, ih, List.map_cons]

theorem exists_of_mem_probes {h : α} {k p : Nat} (hp : p ∈ probes pos δ h k) : ∃ x, pos x = p := by
  induction k generalizing h with
  | zero => cases hp
  | succ k ih =>
    rcases List.mem_cons.mp hp with rfl | hp
    · exact ⟨h, rfl⟩
    · exact ih hp

/-- a reader finds set every probe a builder set, where the probes lie within the array -/
theorem testProbes_setBits {data : List UInt8} {ps : List Nat} {h : α} {k : Nat}
    (hset : ∀ p ∈ probes pos δ h k, p ∈ ps ∧ p / 8 < data.length) :
    testProbes pos δ (setBits data ps) h k = true := by
  rw [testProbes_eq, List.all_eq_true]
  intro p hp
  exact getBit_setBits_of_mem (hset p hp).1 (hset p hp).2

end Probes

/-! ### Probes moved on by any step -/

section ProbesBy

variable {α : Type*} (pos : α → Nat) (next : α → α)

/-- the positions of `k` probes from `h`, the state moved on by `next` after each -/
def probesBy : α → Nat → List Nat
  | _, 0 => []
  | h, k + 1 => pos h :: probesBy (next h) k

/-- `for (i = 0; i < k; ++i) { set bit pos(h); h = next(h); }` -/
def setProbesBy (data : List UInt8) : α → Nat → List UInt8
  | _, 0 => data
  | h, k + 1 => setProbesBy (setBit data (pos h)) (next h) k

/-- `for (i = 0; i < k; ++i) { if (bit pos(h) is clear) return false; h = next(h); } return true;` -/
def testProbesBy (data : List UInt8) : α → Nat → Bool
  | _, 0 => true
  | h, k + 1 => if getBit data (pos h) = false then false else testProbesBy data (next h) k

theorem setProbesBy_eq (data : List UInt8) (h : α) (k : Nat) :
    setProbesBy pos next data h k = setBits data (probesBy pos next h k) := by
  induction k generalizing data h with
  | zero => rfl
  | succ k ih => rw [setProbesBy, ih, probesBy, setBits_cons]

theorem testProbesBy_eq (data : List UInt8) (h : α) (k : Nat) :
    testProbesBy pos next data h k = (probesBy pos next h k).all (getBit data) := by
  induction k generalizing h with
  | zero => rfl
  | succ k ih =>
    rw [testProbesBy, ih, probesBy, List.all_cons]
    cases getBit data (pos h) <;> simp

theorem exists_of_mem_probesBy {h : α} {k p : Nat} (hp : p ∈ probesBy pos next h k) :
    ∃ x, pos x = p := by
  induction k generalizing h with
  | zero => cases hp
  | succ k ih =>
    rcases List.mem_cons.mp hp with rfl | hp
    · exact ⟨h, rfl⟩
    · exact ih hp

end ProbesBy

end BitArray
