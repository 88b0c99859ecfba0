import RocksDB.Table.BlockSeek

/-!
# table/block_builder.cc, table/block.cc: a block read back whole

A client reads a block with `for (it.SeekToFirst(); it.Valid(); it.Next())`, or backwards with
`SeekToLast` and `Prev`:

* `readForward`, `readBackward`  the pairs such a loop reads, the loop bounded by fuel;
* `readForward_at`, `readBackward_at`  from the `j`-th entry the loops read the pairs from there
                         on, and those up to there in reverse; `Prev` goes through its cache or
                         its slow path as `Prev_spec` says;
* `block_round_trip`     the block `BlockBuilder` builds reads back as its pairs, and reversed,
                         with an OK status in every state a client reaches.
-/

namespace RocksDB

namespace BlockIter

/-- the pairs `Next()` reads from `it` until `!Valid()`, at most `fuel` of them -/
def readForward : Nat → BlockIter → List (List UInt8 × List UInt8)
  | 0, _ => []
  | fuel + 1, it =>
    match it.entry with
    | some kv => kv :: readForward fuel it.Next
    | none => []

/-- the pairs `Prev()` reads from `it` until `!Valid()`, at most `fuel` of them -/
def readBackward : Nat → BlockIter → List (List UInt8 × List UInt8)
  | 0, _ => []
  | fuel + 1, it =>
    match it.entry with
    | some kv => kv :: readBackward fuel it.Prev
    | none => []

section Reads

variable {L : BlockLayout} {cmp : List UInt8 → List UInt8 → Ordering} (hw : L.Wf)
include hw

/-- from the `j`-th entry, `Next()` reads the pairs from there on -/
theorem readForward_at {it : BlockIter} {j fuel : Nat} (hf : Fields L cmp it) (hat : At L it j)
    (hfuel : L.entries.length - j < fuel) :
    readForward fuel it = (L.entries.map fun e => (e.key, e.value)).drop j := by
  induction fuel generalizing it j with
  | zero => omega
  | succ fuel ih =>
    rw [readForward, At.entry_eq hw hf hat]
    rcases Nat.lt_or_ge j L.entries.length with hj | hj
    · -- the `j`-th pair, then the rest from the entry after
      obtain ⟨hf', hat'⟩ := Next_spec hw hf (hat.entry hj)
      have hj' : j < (L.entries.map fun e => (e.key, e.value)).length := by simpa using hj
      rw [List.getElem?_eq_getElem hj']
      dsimp only
      rw [ih hf' hat' (by omega)]
      exact (List.drop_eq_getElem_cons hj').symm
    · rw [List.getElem?_eq_none (by simpa using hj), List.drop_eq_nil_of_le (by simpa using hj)]

/-- from the `i`-th entry, `Prev()` reads the pairs up to there, in reverse -/
theorem readBackward_at {it : BlockIter} {i fuel : Nat} (hf : Fields L cmp it)
    (hat : AtEntry L it i) (hfuel : i < fuel) :
    readBackward fuel it = ((L.entries.map fun e => (e.key, e.value)).take (i + 1)).reverse := by
  induction fuel generalizing it i with
  | zero => omega
  | succ fuel ih =>
    rw [readBackward, At.entry_eq hw hf (At.of_entry hat),
      List.getElem?_eq_getElem (by simpa using hat.lt)]
    dsimp only
    obtain ⟨hf', hpast, hat'⟩ := Prev_spec hw hf hat
    rw [List.take_add_one, List.getElem?_eq_getElem (by simpa using hat.lt), Option.toList_some,
      List.reverse_append, List.reverse_singleton, List.singleton_append]
    congr 1
    rcases Nat.eq_zero_or_pos i with h0 | hpos
    · -- before the first entry `Prev` is past the end
      subst h0
      cases fuel with
      | zero => rfl
      | succ fuel =>
        rw [readBackward, At.entry_eq hw hf' (At.of_past (hpast rfl))]
        simp
    · rw [ih hf' (hat' hpos) (by omega), Nat.sub_add_cancel hpos]

end Reads

end BlockIter

/-- **Block format round trip.**  The block `BlockBuilder` builds from keys increasing under the
comparator, below `2 ^ 32` bytes, reads back from `SeekToFirst` with `Next` as its pairs and from
`SeekToLast` with `Prev` as its pairs reversed, with enough fuel for the loops; every state a
client reaches has an OK status. -/
theorem block_round_trip (cmp : List UInt8 → List UInt8 → Ordering) [Std.TransCmp cmp]
    (r : Nat) (hr : 0 < r) (d : Bool) (kvs : List (List UInt8 × List UInt8))
    (hsorted : kvs.Pairwise fun a b => cmp a.1 b.1 = .lt)
    (hsize : ((BlockBuilder.new r d).addAll kvs).Finish.2.length < 2 ^ 32) :
    ∃ it, (Block.new ((BlockBuilder.new r d).addAll kvs).Finish.2
        kDisableGlobalSequenceNumber).NewIterator cmp = .iter it ∧
      (∀ fuel, kvs.length < fuel →
        BlockIter.readForward fuel it.SeekToFirst = kvs ∧
        BlockIter.readBackward fuel it.SeekToLast = kvs.reverse) ∧
      ∀ it', it.Reaches it' → it'.status_ = .OK := by
  obtain ⟨L, hb, hmap⟩ := addAll_builds r hr d kvs
  rw [hb.Finish_eq] at hsize ⊢
  have hw := hb.wf hsize
  have hkeys := BlockLayout.keysIncrease_of_pairwise hmap hsorted
  have hlen : L.entries.length = kvs.length := by rw [← hmap, List.length_map]
  have hinit : BlockIter.OnBlock L cmp _ := BlockIter.OnBlock.init
  refine ⟨_, Block.NewIterator_contents hw _ cmp, fun fuel hfuel => ⟨?_, ?_⟩,
    fun it' hreach => (BlockIter.OnBlock.reaches hw hkeys hinit hreach).1.status⟩
  · obtain ⟨hf, hat⟩ := BlockIter.SeekToFirst_spec hw hinit.1
    rw [BlockIter.readForward_at hw hf hat (by omega), hmap, List.drop_zero]
  · obtain ⟨hf, hat, hpast⟩ := BlockIter.SeekToLast_spec hw hinit.1
    rcases Nat.eq_zero_or_pos L.entries.length with h0 | hpos
    · -- no entries: nothing to read
      have hnil : kvs = [] := List.eq_nil_of_length_eq_zero (by omega)
      obtain ⟨fuel, rfl⟩ : ∃ f, fuel = f + 1 := ⟨fuel - 1, by omega⟩
      rw [BlockIter.readBackward, BlockIter.At.entry_eq hw hf (BlockIter.At.of_past (hpast h0)),
        List.getElem?_eq_none (by simp), hnil]
      rfl
    · rw [BlockIter.readBackward_at hw hf (hat hpos) (by omega), Nat.sub_add_cancel hpos, hmap,
        hlen, List.take_length]

/-- three pairs in a block with restarts every two entries and delta encoding -/
theorem block_round_trip_three :
    (0 < 2 ∧ [([1], [10]), ([1, 2], [20]), ([3], [30])].Pairwise
        (fun a b : List UInt8 × List UInt8 => compare a.1 b.1 = .lt) ∧
      ((BlockBuilder.new 2 true).addAll [([1], [10]), ([1, 2], [20]), ([3], [30])]).Finish.2.length <
        2 ^ 32) ∧
    ∃ it, (Block.new ((BlockBuilder.new 2 true).addAll
        [([1], [10]), ([1, 2], [20]), ([3], [30])]).Finish.2 kDisableGlobalSequenceNumber).NewIterator
          compare = .iter it ∧
      (∀ fuel, [([1], [10]), ([1, 2], [20]), ([3], [30])].length < fuel →
        BlockIter.readForward fuel it.SeekToFirst = [([1], [10]), ([1, 2], [20]), ([3], [30])] ∧
        BlockIter.readBackward fuel it.SeekToLast =
          [([1], [10]), ([1, 2], [20]), ([3], [30])].reverse) ∧
      ∀ it', it.Reaches it' → it'.status_ = .OK :=
  ⟨⟨by decide, by decide, by decide⟩,
    block_round_trip compare 2 (by decide) true _ (by decide) (by decide)⟩

/-- the block of `2 ^ 32 + 16` bytes from two increasing keys reads back wrong: the first value
empty, its bytes then read as a second entry, and a corrupt one after -/
theorem block_round_trip_fails_past_four_gib :
    let kvs : List (List UInt8 × List UInt8) := [([0], List.replicate (2 ^ 32) 0), ([1], [])]
    let contents := ((BlockBuilder.new 16 true).addAll kvs).Finish.2
    kvs.Pairwise (fun a b => compare a.1 b.1 = .lt) ∧ contents.length = 2 ^ 32 + 16 ∧
      ∃ it, (Block.new contents kDisableGlobalSequenceNumber).NewIterator compare = .iter it ∧
        kvs.length < 3 ∧ BlockIter.readForward 3 it.SeekToFirst = [([0], []), ([], [])] := by
  obtain ⟨hlen, hiter⟩ := NewIterator_value_past_four_gib
  refine ⟨by decide +kernel, hlen, _, hiter, by decide, ?_⟩
  rw [addAll_value_past_four_gib]
  decide +kernel

end RocksDB
