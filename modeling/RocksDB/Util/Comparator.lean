import RocksDB.Db.InternalKey

/-!
# util/comparator.cc, db/dbformat.cc: shortening index keys

A table's index block need not hold the last key of each data block, only a key between it and the
first key of the next block; the shorter that key, the smaller the index.

* `BytewiseComparator.FindShortestSeparator start limit`  a key in `[start, limit)` no longer than
                                                          `start`: the first differing byte of
                                                          `start` incremented, or where that would
                                                          reach `limit`, the first byte after it
                                                          that is not `0xff`;
* `BytewiseComparator.FindShortSuccessor key`             a key at least `key` no longer than it;
* `InternalKeyComparator.FindShortestSeparator`,
  `InternalKeyComparator.FindShortSuccessor`              the same on the user key of an internal
                                                          key, taken only where it is shorter and
                                                          larger, with the footer of the largest
                                                          sequence number.

`FindShortestSeparator_cases` and `FindShortSuccessor_cases` say what the bytewise functions do:
leave the key, or make it larger and no longer (and, for the separator, still below `limit`).  The
internal functions then stay between their bounds whatever their arguments:
`separator_successor_bounds`.
-/

namespace RocksDB

/-- the common-prefix loop of `FindShortestSeparator`: the number of leading bytes on which the two
keys agree -/
def diffIndex : List UInt8 → List UInt8 → Nat
  | a :: as, b :: bs => if a = b then diffIndex as bs + 1 else 0
  | _, _ => 0

/-- the loop of `FindShortSuccessor`, and of the last case of `FindShortestSeparator` past the
differing byte: the first byte that is not `0xff` incremented and the bytes after it cut off,
`none` where every byte is `0xff` -/
def incrementFirstNonMax : List UInt8 → Option (List UInt8)
  | [] => none
  | b :: bs => if b ≠ 0xff then some [b + 1] else (incrementFirstNonMax bs).map (b :: ·)

namespace BytewiseComparator

/-- `BytewiseComparatorImpl::FindShortestSeparator(&start, limit)`: the new `*start` -/
def FindShortestSeparator (start limit : List UInt8) : List UInt8 :=
  let min_length := min start.length limit.length
  let diff_index := diffIndex start limit
  if diff_index ≥ min_length then start
  else
    let start_byte := start.getD diff_index 0
    let limit_byte := limit.getD diff_index 0
    if start_byte ≥ limit_byte then start
    else if diff_index < limit.length - 1 ∨ start_byte.toNat + 1 < limit_byte.toNat then
      (start.set diff_index (start_byte + 1)).take (diff_index + 1)
    else
      match incrementFirstNonMax (start.drop (diff_index + 1)) with
      | some tail => start.take (diff_index + 1) ++ tail
      | none => start

/-- `BytewiseComparatorImpl::FindShortSuccessor(&key)`: the new `*key` -/
def FindShortSuccessor (key : List UInt8) : List UInt8 := (incrementFirstNonMax key).getD key

end BytewiseComparator

namespace InternalKeyComparator

/-- the footer of a shortened key: `PackSequenceAndType(kMaxSequenceNumber, kValueTypeForSeek)` -/
def maxFooter : List UInt8 := encodeFixed64 (PackSequenceAndType kMaxSequenceNumber kValueTypeForSeek)

/-- `InternalKeyComparator::FindShortestSeparator(&start, limit)`: the new `*start`, with the user
comparator's `FindShortestSeparator` -/
def FindShortestSeparator (icmp : InternalKeyComparator)
    (user_separator : List UInt8 → List UInt8 → List UInt8) (start limit : List UInt8) :
    List UInt8 :=
  let user_start := ExtractUserKey start
  let user_limit := ExtractUserKey limit
  let tmp := user_separator user_start user_limit
  if tmp.length ≤ user_start.length ∧ icmp.user_comparator_ user_start tmp = .lt then
    tmp ++ maxFooter
  else start

/-- `InternalKeyComparator::FindShortSuccessor(&key)`: the new `*key`, with the user comparator's
`FindShortSuccessor` -/
def FindShortSuccessor (icmp : InternalKeyComparator) (user_successor : List UInt8 → List UInt8)
    (key : List UInt8) : List UInt8 :=
  let user_key := ExtractUserKey key
  let tmp := user_successor user_key
  if tmp.length ≤ user_key.length ∧ icmp.user_comparator_ user_key tmp = .lt then tmp ++ maxFooter
  else key

end InternalKeyComparator

/-! ## The bytewise functions -/

/-- where the two keys first differ, below both lengths: a common prefix and two different bytes -/
theorem diffIndex_lt {start limit : List UInt8} (h : diffIndex start limit < min start.length limit.length) :
    ∃ p a as b bs, start = p ++ a :: as ∧ limit = p ++ b :: bs ∧ p.length = diffIndex start limit ∧
      a ≠ b := by
  induction start generalizing limit with
  | nil => simp at h
  | cons a as ih =>
    cases limit with
    | nil => simp at h
    | cons b bs =>
      by_cases hab : a = b
      · subst hab
        have hrest : diffIndex as bs < min as.length bs.length := by
          rw [diffIndex, if_pos rfl] at h
          simp only [List.length_cons] at h
          omega
        obtain ⟨p, a', as', b', bs', rfl, rfl, hp, hne⟩ := ih hrest
        refine ⟨a :: p, a', as', b', bs', rfl, rfl, ?_, hne⟩
        simp [diffIndex, hp]
      · exact ⟨[], a, as, b, bs, rfl, rfl, by simp [diffIndex, hab], hab⟩

/-- the common prefix lies within both keys, and they agree on it -/
theorem diffIndex_common (a b : List UInt8) :
    diffIndex a b ≤ a.length ∧ diffIndex a b ≤ b.length ∧
      a.take (diffIndex a b) = b.take (diffIndex a b) := by
  induction a generalizing b with
  | nil => simp [diffIndex]
  | cons x xs ih =>
    cases b with
    | nil => simp [diffIndex]
    | cons y ys =>
      by_cases hxy : x = y
      · subst hxy
        obtain ⟨hl, hr, htake⟩ := ih ys
        simp [diffIndex, hl, hr, htake]
      · simp [diffIndex, hxy]

/-- an incremented byte below another does not wrap -/
theorem toNat_add_one_of_lt {a b : UInt8} (h : a < b) : (a + 1).toNat = a.toNat + 1 := by
  have hb : b.toNat < 256 := b.toNat_lt
  have hab : a.toNat < b.toNat := UInt8.lt_iff_toNat_lt.mp h
  rw [UInt8.toNat_add, UInt8.toNat_one, Nat.mod_eq_of_lt (by omega)]

/-- the successor loop makes the bytes larger and no longer -/
theorem incrementFirstNonMax_some {bs t : List UInt8} (h : incrementFirstNonMax bs = some t) :
    bs.map UInt8.toNat < t.map UInt8.toNat ∧ t.length ≤ bs.length := by
  induction bs generalizing t with
  | nil => simp [incrementFirstNonMax] at h
  | cons b bs ih =>
    by_cases hb : b ≠ 0xff
    · rw [incrementFirstNonMax, if_pos hb, Option.some.injEq] at h
      subst h
      have hne : b.toNat ≠ 255 := fun h255 => hb (UInt8.toNat_inj.mp (by simpa using h255))
      have hlt : b < 0xff := UInt8.lt_iff_toNat_lt.mpr (by have := b.toNat_lt; simp; omega)
      refine ⟨List.Lex.rel ?_, by simp⟩
      rw [toNat_add_one_of_lt hlt]
      omega
    · rw [incrementFirstNonMax, if_neg hb] at h
      obtain ⟨t', ht', rfl⟩ := Option.map_eq_some_iff.mp h
      obtain ⟨hlt, hlen⟩ := ih ht'
      exact ⟨List.Lex.cons hlt, by simpa using hlen⟩

namespace BytewiseComparator

theorem Compare_eq_lt_iff (a b : List UInt8) : Compare a b = .lt ↔ a.map UInt8.toNat < b.map UInt8.toNat :=
  Slice.compare_eq_lt a b

/-- **The bytewise separator.**  It leaves `start` as it is, or gives a key above `start`, below
`limit` and no longer than `start`. -/
theorem FindShortestSeparator_cases (start limit : List UInt8) :
    FindShortestSeparator start limit = start ∨
      (Compare start (FindShortestSeparator start limit) = .lt ∧
        Compare (FindShortestSeparator start limit) limit = .lt ∧
        (FindShortestSeparator start limit).length ≤ start.length) := by
  unfold FindShortestSeparator
  simp only [Compare_eq_lt_iff]
  split_ifs with hprefix hge hnext
  · exact .inl rfl
  · exact .inl rfl
  · -- the differing byte incremented, the rest cut off
    obtain ⟨p, a, as, b, bs, rfl, rfl, hp, -⟩ := diffIndex_lt (not_le.mp hprefix)
    rw [← hp] at hnext hge ⊢
    simp only [List.getD_append_right _ _ _ _ le_rfl, Nat.sub_self, List.getD_cons_zero] at hnext hge ⊢
    have hab : a < b := UInt8.not_le.mp hge
    have hset : ((p ++ a :: as).set p.length (a + 1)).take (p.length + 1) = p ++ [a + 1] := by
      simp [List.set_append_right, List.take_append]
    rw [hset]
    refine .inr ⟨?_, ?_, by simp⟩
    · simp only [List.map_append, List.map_cons, List.map_nil]
      exact List.Lex.append_left _ (List.Lex.rel (by rw [toNat_add_one_of_lt hab]; omega)) _
    · simp only [List.map_append, List.map_cons, List.map_nil]
      refine List.Lex.append_left _ ?_ _
      rcases Nat.lt_or_ge ((a + 1).toNat) b.toNat with hlt | hge'
      · exact List.Lex.rel hlt
      · -- the incremented byte meets `limit`'s, which goes on
        have hab' : (a + 1).toNat = b.toNat := by
          have := UInt8.lt_iff_toNat_lt.mp hab
          rw [toNat_add_one_of_lt hab] at hge' ⊢
          omega
        have hbs : bs ≠ [] := by
          rintro rfl
          simp only [List.length_append, List.length_cons, List.length_nil] at hnext
          rw [toNat_add_one_of_lt hab] at hab'
          omega
        obtain ⟨c, cs, rfl⟩ := List.exists_cons_of_ne_nil hbs
        simp only [List.map_cons, hab']
        exact List.Lex.cons List.Lex.nil
  · -- the byte after the differing one that is not `0xff` incremented
    obtain ⟨p, a, as, b, bs, rfl, rfl, hp, -⟩ := diffIndex_lt (not_le.mp hprefix)
    rw [← hp] at hge ⊢
    simp only [List.getD_append_right _ _ _ _ le_rfl, Nat.sub_self, List.getD_cons_zero] at hge
    have hab : a < b := UInt8.not_le.mp hge
    have hdrop : (p ++ a :: as).drop (p.length + 1) = as := by simp [List.drop_append]
    have htake : (p ++ a :: as).take (p.length + 1) = p ++ [a] := by simp [List.take_append]
    rw [hdrop, htake]
    split
    · next tail htail =>
      obtain ⟨hlt, hlen⟩ := incrementFirstNonMax_some htail
      refine .inr ⟨?_, ?_, by simpa using hlen⟩
      · simp only [List.append_assoc, List.singleton_append, List.map_append, List.map_cons]
        exact List.Lex.append_left _ (List.Lex.cons hlt) _
      · simp only [List.append_assoc, List.singleton_append, List.map_append, List.map_cons]
        exact List.Lex.append_left _ (List.Lex.rel (UInt8.lt_iff_toNat_lt.mp hab)) _
    · exact .inl rfl

/-- the carry case: `1` cannot become `2`, so the `5` past the `0xff` is incremented -/
example : FindShortestSeparator [1, 0xff, 5] [2] = [1, 0xff, 6] := by decide

/-- **The bytewise successor.**  It leaves the key as it is, or gives a larger key no longer than
it. -/
theorem FindShortSuccessor_cases (key : List UInt8) :
    FindShortSuccessor key = key ∨
      (Compare key (FindShortSuccessor key) = .lt ∧ (FindShortSuccessor key).length ≤ key.length) := by
  unfold FindShortSuccessor
  cases h : incrementFirstNonMax key with
  | none => exact .inl rfl
  | some t =>
    obtain ⟨hlt, hlen⟩ := incrementFirstNonMax_some h
    exact .inr ⟨(Compare_eq_lt_iff _ _).mpr hlt, hlen⟩

end BytewiseComparator

/-! ## The internal functions -/

namespace InternalKeyComparator

@[simp] theorem user_comparator_bytewise : bytewise.user_comparator_ = BytewiseComparator.Compare := rfl

@[simp] theorem length_maxFooter : maxFooter.length = 8 := length_encodeFixed64 _

theorem ExtractUserKey_append_maxFooter (tmp : List UInt8) : ExtractUserKey (tmp ++ maxFooter) = tmp := by
  simp [ExtractUserKey]

theorem Compare_of_user_lt (icmp : InternalKeyComparator) {a b : List UInt8}
    (h : icmp.user_comparator_ (ExtractUserKey a) (ExtractUserKey b) = .lt) : icmp.Compare a b = .lt := by
  simp [Compare, h]

theorem Compare_self_bytewise (key : List UInt8) : bytewise.Compare key key = .eq := by
  have h : bytewise.user_comparator_ (ExtractUserKey key) (ExtractUserKey key) = .eq := by
    simp [BytewiseComparator.Compare, (Slice.compare_eq_eq _ _).mpr rfl]
  simp [Compare, h]

section Cases

variable (icmp : InternalKeyComparator)

/-- the internal separator leaves `start`, or puts the user separator's key, where it is no longer
and larger, under the largest footer -/
theorem FindShortestSeparator_cases (user_separator : List UInt8 → List UInt8 → List UInt8)
    (start limit : List UInt8) :
    icmp.FindShortestSeparator user_separator start limit = start ∨
      (icmp.FindShortestSeparator user_separator start limit =
          user_separator (ExtractUserKey start) (ExtractUserKey limit) ++ maxFooter ∧
        (user_separator (ExtractUserKey start) (ExtractUserKey limit)).length ≤
          (ExtractUserKey start).length ∧
        icmp.user_comparator_ (ExtractUserKey start)
          (user_separator (ExtractUserKey start) (ExtractUserKey limit)) = .lt) := by
  unfold FindShortestSeparator
  dsimp only
  split_ifs with h
  · exact .inr ⟨rfl, h⟩
  · exact .inl rfl

theorem FindShortSuccessor_cases (user_successor : List UInt8 → List UInt8) (key : List UInt8) :
    icmp.FindShortSuccessor user_successor key = key ∨
      (icmp.FindShortSuccessor user_successor key = user_successor (ExtractUserKey key) ++ maxFooter ∧
        (user_successor (ExtractUserKey key)).length ≤ (ExtractUserKey key).length ∧
        icmp.user_comparator_ (ExtractUserKey key) (user_successor (ExtractUserKey key)) = .lt) := by
  unfold FindShortSuccessor
  dsimp only
  split_ifs with h
  · exact .inr ⟨rfl, h⟩
  · exact .inl rfl

end Cases

/-- a key whose user key is replaced by a larger one no longer than it, under the largest footer,
sorts after the key and is no longer -/
theorem shortened_bounds {key tmp : List UInt8}
    (hkey : BytewiseComparator.Compare (ExtractUserKey key) tmp = .lt)
    (hlen : tmp.length ≤ (ExtractUserKey key).length) :
    bytewise.Compare key (tmp ++ maxFooter) = .lt ∧ (tmp ++ maxFooter).length ≤ key.length := by
  -- a user key below `tmp` is not empty, so `key` has more than its footer
  have hne : ExtractUserKey key ≠ [] := by
    intro hnil
    rw [hnil, List.length_nil, Nat.le_zero, List.length_eq_zero_iff] at hlen
    rw [hnil, hlen] at hkey
    simp [BytewiseComparator.Compare, Slice.compare, memcmp] at hkey
  have hlong : 8 < key.length := by
    have := List.length_pos_iff.mpr hne
    simp only [ExtractUserKey, List.length_take] at this
    omega
  refine ⟨Compare_of_user_lt bytewise (by rwa [ExtractUserKey_append_maxFooter]), ?_⟩
  simp only [ExtractUserKey, List.length_take] at hlen
  simp only [List.length_append, length_maxFooter]
  omega

end InternalKeyComparator

open InternalKeyComparator in
/-- **Index-key shortening stays between its bounds.**  For internal keys `start < limit` under the
internal comparator over `BytewiseComparator`, `FindShortestSeparator` gives a key `s` with
`start ≤ s < limit` no longer than `start`; for every internal key `k`, `FindShortSuccessor` gives a
key `t` with `k ≤ t`. -/
theorem separator_successor_bounds (start limit key : List UInt8)
    (hlt : bytewise.Compare start limit = .lt) :
    let s := bytewise.FindShortestSeparator BytewiseComparator.FindShortestSeparator start limit
    let t := bytewise.FindShortSuccessor BytewiseComparator.FindShortSuccessor key
    (bytewise.Compare start s ≠ .gt ∧ bytewise.Compare s limit = .lt ∧ s.length ≤ start.length) ∧
    bytewise.Compare key t ≠ .gt := by
  dsimp only
  constructor
  · rcases FindShortestSeparator_cases bytewise BytewiseComparator.FindShortestSeparator start limit
      with hs | ⟨hs, hlen, hgt⟩
    · rw [hs, Compare_self_bytewise]
      exact ⟨by decide, hlt, le_rfl⟩
    · rw [user_comparator_bytewise] at hgt
      obtain ⟨hstart, hshort⟩ := shortened_bounds hgt hlen
      -- the user separator moved the user key, so it put it below `limit`'s
      rcases BytewiseComparator.FindShortestSeparator_cases (ExtractUserKey start) (ExtractUserKey limit)
        with hsame | ⟨-, hbelow, -⟩
      · rw [hsame, BytewiseComparator.Compare, (Slice.compare_eq_eq _ _).mpr rfl] at hgt
        cases hgt
      · have hlimit : bytewise.Compare (BytewiseComparator.FindShortestSeparator (ExtractUserKey start)
            (ExtractUserKey limit) ++ maxFooter) limit = .lt :=
          Compare_of_user_lt bytewise
            (by rw [ExtractUserKey_append_maxFooter, user_comparator_bytewise]; exact hbelow)
        rw [hs, hstart]
        exact ⟨by decide, hlimit, hshort⟩
  · rcases FindShortSuccessor_cases bytewise BytewiseComparator.FindShortSuccessor key
      with hs | ⟨hs, hlen, hgt⟩
    · rw [hs, Compare_self_bytewise]
      decide
    · rw [user_comparator_bytewise] at hgt
      rw [hs, (shortened_bounds hgt hlen).1]
      decide

/-- `FormatTest.InternalKeyShortSeparator`: between `("foo", 100, Value)` and `("hello", 200,
Value)` the separator is `("g", kMaxSequenceNumber, kValueTypeForSeek)` -/
theorem separator_successor_bounds_foo_hello :
    let start := AppendInternalKey [] ⟨[102, 111, 111], 100, .kTypeValue⟩
    let limit := AppendInternalKey [] ⟨[104, 101, 108, 108, 111], 200, .kTypeValue⟩
    let s := AppendInternalKey [] ⟨[103], kMaxSequenceNumber, kValueTypeForSeek⟩
    InternalKeyComparator.bytewise.Compare start limit = .lt ∧
      InternalKeyComparator.bytewise.FindShortestSeparator BytewiseComparator.FindShortestSeparator
        start limit = s ∧
      InternalKeyComparator.bytewise.Compare start s ≠ .gt := by
  intro start limit s
  have hlt : InternalKeyComparator.bytewise.Compare start limit = .lt := by decide +kernel
  have hsep : InternalKeyComparator.bytewise.FindShortestSeparator
      BytewiseComparator.FindShortestSeparator start limit = s := by decide +kernel
  refine ⟨hlt, hsep, ?_⟩
  rw [← hsep]
  exact (separator_successor_bounds start limit [] hlt).1.1

end RocksDB
