import RocksDB.Table.BlockBasedFilterBlock
import RocksDB.Util.BloomFilterMatch

/-!
# No false negatives of the block-based filter block

The builder is followed through an abstract view: the keys of each filter generated so far
(`filters`, empty for a filter with no key) and the entries still pending (`pending`).
`Holds` says the builder's buffers lay them out: `entries_` and `start_` the pending entries end
to end, `result_` the filters' bytes end to end and `filter_offsets_` where each starts.

* `holds_Add`, `holds_StartBlock`, `holds_GenerateFilter`: what one call does to the view;
* `holds_run`: over any calls, a key that is pending or in filter `t` stays there;
* `MayMatch_Finish_layout`: the reader of the finished block reads filter `t`'s bytes for every
  block offset of filter `t`;
* `block_filter_no_false_negatives`: a key added after `StartBlock(o)`, with no block started in
  between, matches at `o`, when the offsets are non-decreasing, there are fewer than `2 ^ 30`
  calls and the block is shorter than `2 ^ 32` bytes.
-/

namespace RocksDB

open BitArray

/-- the bytes `GenerateFilter` appends for the keys `keys`: none for no key -/
def filterBytes (policy : BloomFilterPolicy) (keys : List (List UInt8)) : List UInt8 :=
  if keys = [] then [] else policy.CreateFilter keys (Int32.ofNat keys.length) []

namespace BlockBasedFilterBlockBuilder

/-- the builder `b`, of policy `policy` and whole-key flag `whole`, holds the filters `filters`
and the pending entries `pending` -/
structure Holds (policy : BloomFilterPolicy) (whole : Bool) (b : BlockBasedFilterBlockBuilder)
    (filters : List (List (List UInt8))) (pending : List (List UInt8)) : Prop where
  policy_eq : b.policy_ = policy
  whole_eq : b.whole_key_filtering_ = whole
  entries_eq : b.entries_ = pending.flatten
  start_eq : b.start_ = List.layoutStarts pending 0
  result_eq : b.result_ = (filters.map (filterBytes policy)).flatten
  offsets_eq : b.filter_offsets_ = (List.layoutStarts (filters.map (filterBytes policy)) 0).map UInt32.ofNat

section Steps

variable {policy : BloomFilterPolicy} {whole : Bool} {self : BlockBasedFilterBlockBuilder}
  {filters : List (List (List UInt8))} {pending : List (List UInt8)}

theorem holds_new (prefix_extractor : Option SliceTransform) (policy : BloomFilterPolicy)
    (whole : Bool) : Holds policy whole (new prefix_extractor policy whole) [] [] where
  policy_eq := rfl
  whole_eq := rfl
  entries_eq := rfl
  start_eq := rfl
  result_eq := rfl
  offsets_eq := rfl

theorem Holds.length_filter_offsets (h : Holds policy whole self filters pending) :
    self.filter_offsets_.length = filters.length := by
  rw [h.offsets_eq, List.length_map, List.length_layoutStarts, List.length_map]

theorem holds_AddKey (h : Holds policy whole self filters pending) (key : List UInt8) :
    Holds policy whole (self.AddKey key) filters (pending ++ [key]) where
  policy_eq := h.policy_eq
  whole_eq := h.whole_eq
  entries_eq := by simp [AddKey, h.entries_eq]
  start_eq := by rw [AddKey, List.layoutStarts_append_singleton, h.start_eq, h.entries_eq, Nat.zero_add]
  result_eq := h.result_eq
  offsets_eq := h.offsets_eq

/-- `AddPrefix` adds the prefix as a pending entry, or leaves the builder as it is -/
theorem AddPrefix_cases (self : BlockBasedFilterBlockBuilder) (prefix_extractor : SliceTransform)
    (key : List UInt8) :
    self.AddPrefix prefix_extractor key = self ∨
      (self.AddPrefix prefix_extractor key).entries_ =
          self.entries_ ++ prefix_extractor.Transform key ∧
        (self.AddPrefix prefix_extractor key).start_ = self.start_ ++ [self.entries_.length] ∧
        (self.AddPrefix prefix_extractor key).result_ = self.result_ ∧
        (self.AddPrefix prefix_extractor key).filter_offsets_ = self.filter_offsets_ ∧
        (self.AddPrefix prefix_extractor key).policy_ = self.policy_ ∧
        (self.AddPrefix prefix_extractor key).whole_key_filtering_ = self.whole_key_filtering_ := by
  unfold AddPrefix
  dsimp only
  split_ifs
  all_goals first
    | exact .inl rfl
    | exact .inr ⟨rfl, rfl, rfl, rfl, rfl, rfl⟩

/-- `Add` adds at most two pending entries, the key itself among them under whole-key filtering -/
theorem holds_Add (h : Holds policy whole self filters pending) (key : List UInt8) :
    ∃ pending', Holds policy whole (self.Add key) filters pending' ∧ pending <+: pending' ∧
      pending'.length ≤ pending.length + 2 ∧ (whole = true → key ∈ pending') := by
  -- the key itself, under whole-key filtering, after whatever the prefix step left
  have hkey : ∀ m, (∃ mid, Holds policy whole m filters mid ∧ pending <+: mid ∧
      mid.length ≤ pending.length + 1) →
      ∃ pending', Holds policy whole (if m.whole_key_filtering_ then m.AddKey key else m) filters
        pending' ∧ pending <+: pending' ∧ pending'.length ≤ pending.length + 2 ∧
        (whole = true → key ∈ pending') := by
    rintro m ⟨mid, hmid, hpre, hlen⟩
    split
    · refine ⟨mid ++ [key], holds_AddKey hmid key, hpre.trans (List.prefix_append _ _),
        by simp; omega, fun _ => by simp⟩
    · rename_i hw
      refine ⟨mid, hmid, hpre, by omega, fun hwt => ?_⟩
      rw [hmid.whole_eq, hwt] at hw
      exact absurd rfl hw
  unfold Add
  dsimp only
  apply hkey
  -- the prefix first, if the key is in the extractor's domain
  split
  · rename_i prefix_extractor _
    split
    · rcases AddPrefix_cases self prefix_extractor key with heq | ⟨he, hs, hr, ho, hp, hw⟩
      · exact ⟨pending, by rw [heq]; exact h, List.prefix_refl _, by omega⟩
      · refine ⟨pending ++ [prefix_extractor.Transform key], ⟨?_, ?_, ?_, ?_, ?_, ?_⟩,
          List.prefix_append _ _, by simp⟩
        · rw [hp, h.policy_eq]
        · rw [hw, h.whole_eq]
        · simp [he, h.entries_eq]
        · rw [hs, List.layoutStarts_append_singleton, h.start_eq, h.entries_eq, Nat.zero_add]
        · rw [hr, h.result_eq]
        · rw [ho, h.offsets_eq]
    · exact ⟨pending, h, List.prefix_refl _, by omega⟩
  · exact ⟨pending, h, List.prefix_refl _, by omega⟩

theorem filterBytes_of_ne_nil {keys : List (List UInt8)} (h : keys ≠ []) :
    filterBytes policy keys = policy.CreateFilter keys (Int32.ofNat keys.length) [] := by
  rw [filterBytes, if_neg h]

/-- `GenerateFilter` closes a filter of the pending entries, an empty one if there are none -/
theorem holds_GenerateFilter (h : Holds policy whole self filters pending) :
    Holds policy whole self.GenerateFilter (filters ++ [pending]) [] := by
  have hoffsets : (List.layoutStarts ((filters ++ [pending]).map (filterBytes policy)) 0).map
      UInt32.ofNat = self.filter_offsets_ ++ [UInt32.ofNat self.result_.length] := by
    rw [List.map_append, List.map_singleton, List.layoutStarts_append_singleton, List.map_append,
      h.offsets_eq, h.result_eq, Nat.zero_add, List.map_singleton]
  have hresult : ((filters ++ [pending]).map (filterBytes policy)).flatten =
      self.result_ ++ filterBytes policy pending := by
    rw [List.map_append, List.flatten_append, h.result_eq, List.map_singleton,
      List.flatten_singleton]
  rcases eq_or_ne pending [] with rfl | hne
  · -- the fast path: only an offset
    have hs : self.start_.length = 0 := by rw [h.start_eq]; rfl
    have hfb : filterBytes policy [] = [] := rfl
    rw [hfb, List.append_nil] at hresult
    have hgen : self.GenerateFilter =
        { self with filter_offsets_ := self.filter_offsets_ ++ [UInt32.ofNat self.result_.length] } := by
      rw [GenerateFilter, if_pos hs]
    rw [hgen]
    exact ⟨h.policy_eq, h.whole_eq, h.entries_eq, h.start_eq, hresult.symm, hoffsets.symm⟩
  · have hs : self.start_.length ≠ 0 := by
      rw [h.start_eq, List.length_layoutStarts]
      exact fun h0 => hne (List.eq_nil_of_length_eq_zero h0)
    have hlen : self.start_.length = pending.length := by rw [h.start_eq, List.length_layoutStarts]
    -- the slices between consecutive starts are the pending entries
    have htmp : (List.range self.start_.length).map (fun i =>
        (self.entries_.drop ((self.start_ ++ [self.entries_.length]).getD i 0)).take
          ((self.start_ ++ [self.entries_.length]).getD (i + 1) 0 -
            (self.start_ ++ [self.entries_.length]).getD i 0)) = pending := by
      rw [hlen, h.start_eq, h.entries_eq]
      exact List.map_range_slices pending
    have hgen : self.GenerateFilter =
        { self with
          filter_offsets_ := self.filter_offsets_ ++ [UInt32.ofNat self.result_.length]
          result_ := self.result_ ++ filterBytes policy pending
          entries_ := []
          start_ := []
          prev_prefix_start_ := 0
          prev_prefix_size_ := 0 } := by
      rw [GenerateFilter, if_neg hs]
      dsimp only
      rw [htmp, hlen, BloomFilterPolicy.CreateFilter_append, h.policy_eq,
        filterBytes_of_ne_nil hne]
    rw [hgen]
    exact ⟨h.policy_eq, h.whole_eq, rfl, rfl, hresult.symm, hoffsets.symm⟩

theorem generateFiltersUntil_of_le {filter_index : Nat} (fuel : Nat)
    (hle : filter_index ≤ self.filter_offsets_.length) :
    generateFiltersUntil filter_index fuel self = self := by
  cases fuel with
  | zero => rfl
  | succ fuel => rw [generateFiltersUntil, if_neg (by omega)]

/-- the loop of `StartBlock` closes the pending filter, then empty ones up to `filter_index`, when
its fuel covers the rounds -/
theorem holds_generateFiltersUntil (h : Holds policy whole self filters pending)
    {filter_index fuel : Nat} (hlt : filters.length < filter_index)
    (hfuel : filter_index - filters.length ≤ fuel) :
    Holds policy whole (generateFiltersUntil filter_index fuel self)
      (filters ++ pending :: List.replicate (filter_index - filters.length - 1) []) [] := by
  induction fuel generalizing self filters pending with
  | zero => omega
  | succ fuel ih =>
    rw [generateFiltersUntil, if_pos (by rw [h.length_filter_offsets]; exact hlt)]
    have hg := holds_GenerateFilter h
    by_cases hnext : filters.length + 1 < filter_index
    · -- more rounds: each closes an empty filter
      have hrest := ih hg (by simp; omega) (by simp; omega)
      have hcount : filter_index - filters.length - 1 =
          (filter_index - (filters ++ [pending]).length - 1) + 1 := by simp; omega
      rw [hcount, List.replicate_succ, ← List.singleton_append, ← List.append_assoc]
      exact hrest
    · rw [generateFiltersUntil_of_le _ (by rw [hg.length_filter_offsets]; simp; omega),
        show filter_index - filters.length - 1 = 0 by omega, List.replicate_zero]
      exact hg

/-- `StartBlock(o)` leaves the builder alone up to filter `o / kFilterBase`; past it, it closes
the pending filter and empty ones up to it -/
theorem holds_StartBlock (h : Holds policy whole self filters pending) (block_offset : UInt64) :
    (block_offset / kFilterBase).toNat ≤ filters.length ∧ self.StartBlock block_offset = self ∨
      filters.length < (block_offset / kFilterBase).toNat ∧
        Holds policy whole (self.StartBlock block_offset)
          (filters ++ pending ::
            List.replicate ((block_offset / kFilterBase).toNat - filters.length - 1) []) [] := by
  by_cases hlt : filters.length < (block_offset / kFilterBase).toNat
  · exact .inr ⟨hlt, holds_generateFiltersUntil h hlt (by omega)⟩
  · refine .inl ⟨by omega, generateFiltersUntil_of_le _ ?_⟩
    rw [h.length_filter_offsets]
    omega

end Steps

/-! ## Runs -/

/-- how one call changes the view: the pending entries grow, or they close a filter, followed by
empty ones -/
def Grows (filters : List (List (List UInt8))) (pending : List (List UInt8))
    (filters' : List (List (List UInt8))) (pending' : List (List UInt8)) : Prop :=
  (filters' = filters ∧ pending <+: pending') ∨
    ∃ E : List (List (List UInt8)), filters' = filters ++ pending :: E ∧ pending' = [] ∧
      ∀ K ∈ E, K = []

/-- key `k` is in filter `t`, or pending for it -/
def InFilter (t : Nat) (k : List UInt8) (filters : List (List (List UInt8)))
    (pending : List (List UInt8)) : Prop :=
  (filters.length = t ∧ k ∈ pending) ∨ ∃ K, filters[t]? = some K ∧ k ∈ K

/-- every filter, and the pending entries, have at most `n` entries -/
def Bounded (n : Nat) (filters : List (List (List UInt8))) (pending : List (List UInt8)) : Prop :=
  (∀ K ∈ filters, K.length ≤ n) ∧ pending.length ≤ n

section Grows

variable {filters filters' : List (List (List UInt8))} {pending pending' : List (List UInt8)}

theorem Grows.inFilter (hg : Grows filters pending filters' pending') {t : Nat} {k : List UInt8}
    (hin : InFilter t k filters pending) : InFilter t k filters' pending' := by
  rcases hg with ⟨rfl, hpre⟩ | ⟨E, rfl, rfl, -⟩
  · rcases hin with ⟨ht, hk⟩ | hK
    · exact .inl ⟨ht, hpre.subset hk⟩
    · exact .inr hK
  · -- the closed filter is filter `filters.length`
    rcases hin with ⟨rfl, hk⟩ | ⟨K, hK, hk⟩
    · exact .inr ⟨pending, by simp, hk⟩
    · exact .inr ⟨K, by rw [List.getElem?_append_left (List.getElem?_eq_some_iff.mp hK).1]; exact hK, hk⟩

theorem Grows.bounded (hg : Grows filters pending filters' pending') {n n' : Nat}
    (hb : Bounded n filters pending) (hlen : pending'.length ≤ n') (hn : n ≤ n') :
    Bounded n' filters' pending' := by
  refine ⟨fun K hK => ?_, hlen⟩
  rcases hg with ⟨rfl, -⟩ | ⟨E, rfl, -, hE⟩
  · exact (hb.1 K hK).trans hn
  · rcases List.mem_append.mp hK with hK | hK
    · exact (hb.1 K hK).trans hn
    · rcases List.mem_cons.mp hK with rfl | hK
      · exact hb.2.trans hn
      · rw [hE K hK]
        exact Nat.zero_le _

end Grows

end BlockBasedFilterBlockBuilder

/-- a call on the filter block builder -/
inductive FilterBlockOp
  | StartBlock (block_offset : UInt64)
  | Add (key : List UInt8)
  deriving DecidableEq

namespace FilterBlockOp

/-- the builder after the call -/
def apply (b : BlockBasedFilterBlockBuilder) : FilterBlockOp → BlockBasedFilterBlockBuilder
  | StartBlock block_offset => b.StartBlock block_offset
  | Add key => b.Add key

/-- the offset a `StartBlock` names -/
def blockOffset? : FilterBlockOp → Option UInt64
  | StartBlock block_offset => some block_offset
  | Add _ => none

/-- the filter a `StartBlock` asks for; none for an `Add` -/
def filterIndex : FilterBlockOp → Nat
  | StartBlock block_offset => (block_offset / kFilterBase).toNat
  | Add _ => 0

def isAdd : FilterBlockOp → Bool
  | StartBlock _ => false
  | Add _ => true

end FilterBlockOp

namespace BlockBasedFilterBlockBuilder

/-- the builder after the calls `ops` -/
def run (b : BlockBasedFilterBlockBuilder) (ops : List FilterBlockOp) : BlockBasedFilterBlockBuilder :=
  ops.foldl FilterBlockOp.apply b

section Run

variable {policy : BloomFilterPolicy} {whole : Bool} {b : BlockBasedFilterBlockBuilder}
  {filters : List (List (List UInt8))} {pending : List (List UInt8)}

/-- one call: the view grows, by at most two pending entries, and its filters reach at most the
one a `StartBlock` asks for -/
theorem holds_apply (h : Holds policy whole b filters pending) (a : FilterBlockOp) :
    ∃ filters' pending', Holds policy whole (a.apply b) filters' pending' ∧
      Grows filters pending filters' pending' ∧ pending'.length ≤ pending.length + 2 ∧
      filters'.length = max filters.length a.filterIndex ∧ (a.isAdd = true → filters' = filters) := by
  cases a with
  | StartBlock block_offset =>
    rcases holds_StartBlock h block_offset with ⟨hle, heq⟩ | ⟨hlt, hs⟩
    · refine ⟨filters, pending, ?_, .inl ⟨rfl, List.prefix_refl _⟩, by omega,
        by simp only [FilterBlockOp.filterIndex]; omega, by simp [FilterBlockOp.isAdd]⟩
      rw [FilterBlockOp.apply, heq]
      exact h
    · refine ⟨_, [], hs, .inr ⟨_, rfl, rfl, fun K hK => (List.eq_of_mem_replicate hK)⟩,
        by simp, ?_, by simp [FilterBlockOp.isAdd]⟩
      simp only [List.length_append, List.length_cons, List.length_replicate, FilterBlockOp.filterIndex]
      omega
  | Add key =>
    obtain ⟨pending', hs, hpre, hlen, -⟩ := holds_Add h key
    exact ⟨filters, pending', hs, .inl ⟨rfl, hpre⟩, hlen, by simp [FilterBlockOp.filterIndex],
      fun _ => rfl⟩

/-- over any calls: a key in filter `t`, or pending for it, stays there; the entries grow by at
most two a call; the filters reach at most the last one asked for; and calls that only add keys
close no filter -/
theorem holds_run (ops : List FilterBlockOp) (h : Holds policy whole b filters pending) :
    ∃ filters' pending', Holds policy whole (b.run ops) filters' pending' ∧
      (∀ t k, InFilter t k filters pending → InFilter t k filters' pending') ∧
      (∀ n, Bounded n filters pending → Bounded (n + 2 * ops.length) filters' pending') ∧
      (∀ c, filters.length ≤ c → (∀ a ∈ ops, a.filterIndex ≤ c) → filters'.length ≤ c) ∧
      ((∀ a ∈ ops, a.isAdd = true) → filters' = filters) := by
  induction ops generalizing b filters pending with
  | nil => exact ⟨filters, pending, h, fun _ _ hin => hin, fun _ hb => hb, fun _ hc _ => hc, fun _ => rfl⟩
  | cons a ops ih =>
    obtain ⟨F₁, P₁, h₁, hg, hlen, hidx, hadd⟩ := holds_apply h a
    obtain ⟨F₂, P₂, h₂, hin, hbd, hc, hadds⟩ := ih h₁
    refine ⟨F₂, P₂, h₂, fun t k hk => hin t k (hg.inFilter hk), fun n hb => ?_, fun c hle hops => ?_,
      fun hops => ?_⟩
    · have := hbd (n + 2) (hg.bounded hb (by have := hb.2; omega) (by omega))
      simpa [List.length_cons, Nat.mul_succ, Nat.add_assoc, Nat.add_comm 2] using this
    · have := hops a List.mem_cons_self
      exact hc c (by omega) (fun a' ha' => hops a' (List.mem_cons_of_mem a ha'))
    · rw [hadds (fun a' ha' => hops a' (List.mem_cons_of_mem a ha')), hadd (hops a List.mem_cons_self)]

end Run

end BlockBasedFilterBlockBuilder

/-! ## The finished block -/

/-- the block `Finish` writes for filters of the bytes `bytes`: the bytes, the offset where each
starts, the offset of that array, and `kFilterBaseLg` -/
def finishedLayout (bytes : List (List UInt8)) : List UInt8 :=
  bytes.flatten ++
    ((List.layoutStarts bytes 0 ++ [bytes.flatten.length]).map UInt32.ofNat).flatMap encodeFixed32 ++
    [11]

theorem decodeFixed32_drop_flatMap (ws : List UInt32) {i : Nat} (hi : i < ws.length)
    (rest : List UInt8) : decodeFixed32 ((ws.flatMap encodeFixed32 ++ rest).drop (4 * i)) = ws[i] := by
  induction ws generalizing i with
  | nil => cases hi
  | cons w ws ih =>
    cases i with
    | zero => rw [Nat.mul_zero, List.drop_zero, List.flatMap_cons, List.append_assoc,
        decodeFixed32_encodeFixed32, List.getElem_cons_zero]
    | succ i =>
      rw [List.flatMap_cons, List.append_assoc, List.drop_append, List.drop_eq_nil_of_le (by simp),
        List.nil_append, length_encodeFixed32, show 4 * (i + 1) - 4 = 4 * i by omega,
        ih (by simpa using hi), List.getElem_cons_succ]

theorem length_flatten_take_succ (bytes : List (List UInt8)) {t : Nat} (ht : t < bytes.length) :
    (bytes.take (t + 1)).flatten.length = (bytes.take t).flatten.length + bytes[t].length := by
  rw [List.take_add_one, List.getElem?_eq_getElem ht, Option.toList_some, List.flatten_append,
    List.length_append, List.flatten_singleton]

theorem length_flatten_take_le (bytes : List (List UInt8)) (t : Nat) :
    (bytes.take t).flatten.length ≤ bytes.flatten.length := by
  conv_rhs => rw [← List.take_append_drop t bytes]
  rw [List.flatten_append, List.length_append]
  omega

theorem length_flatMap_encodeFixed32 (ws : List UInt32) :
    (ws.flatMap encodeFixed32).length = 4 * ws.length := by
  induction ws with
  | nil => rfl
  | cons w ws ih =>
    rw [List.flatMap_cons, List.length_append, ih, length_encodeFixed32, List.length_cons]
    omega

theorem length_layoutWords (bytes : List (List UInt8)) :
    ((List.layoutStarts bytes 0 ++ [bytes.flatten.length]).map UInt32.ofNat).length =
      bytes.length + 1 := by
  simp only [List.length_map, List.length_append, List.length_layoutStarts, List.length_singleton]

/-- the words of the offset array: where filter `i` starts, the array's offset ending the last -/
theorem getElem_layoutWords (bytes : List (List UInt8)) {i : Nat}
    (hi : i < ((List.layoutStarts bytes 0 ++ [bytes.flatten.length]).map UInt32.ofNat).length) :
    ((List.layoutStarts bytes 0 ++ [bytes.flatten.length]).map UInt32.ofNat)[i] =
      UInt32.ofNat (bytes.take i).flatten.length := by
  have hle : i ≤ bytes.length := by
    rw [length_layoutWords] at hi
    omega
  have hstart := List.getD_layoutStarts bytes 0 hle
  rw [Nat.zero_add, Nat.zero_add] at hstart
  rw [List.getElem_map, ← List.getD_eq_getElem _ 0, hstart]

theorem finishedLayout_eq (bytes : List (List UInt8)) :
    finishedLayout bytes = bytes.flatten ++
      (((List.layoutStarts bytes 0 ++ [bytes.flatten.length]).map UInt32.ofNat).flatMap
        encodeFixed32 ++ [11]) := by
  rw [finishedLayout, List.append_assoc]

theorem length_finishedLayout (bytes : List (List UInt8)) :
    (finishedLayout bytes).length = bytes.flatten.length + 4 * bytes.length + 5 := by
  rw [finishedLayout_eq, List.length_append, List.length_append, length_flatMap_encodeFixed32]
  simp only [List.length_map, List.length_append, List.length_layoutStarts, List.length_singleton]
  omega

namespace BlockBasedFilterBlockBuilder

section Finish

variable {policy : BloomFilterPolicy} {whole : Bool} {b : BlockBasedFilterBlockBuilder}
  {filters : List (List (List UInt8))} {pending : List (List UInt8)}

theorem foldl_putFixed32 (ws : List UInt32) (acc : List UInt8) :
    ws.foldl putFixed32 acc = acc ++ ws.flatMap encodeFixed32 :=
  List.foldl_append_eq_append_flatMap encodeFixed32 ws acc

/-- with nothing pending, `Finish` lays out the filters' bytes, their offsets and the array's -/
theorem Finish_of_holds_nil (h : Holds policy whole b filters []) :
    b.Finish = finishedLayout (filters.map (filterBytes policy)) := by
  have hs : b.start_ = [] := by rw [h.start_eq]; rfl
  simp only [Finish, hs, ne_eq, not_true_eq_false, if_false, foldl_putFixed32, putFixed32,
    h.offsets_eq, h.result_eq, finishedLayout, List.map_append, List.map_singleton,
    List.flatMap_append, List.flatMap_singleton, List.append_assoc]
  rfl

/-- `Finish` closes the pending filter, if any, and lays out the filters -/
theorem holds_Finish (h : Holds policy whole b filters pending) :
    ∃ filters', b.Finish = finishedLayout (filters'.map (filterBytes policy)) ∧
      Grows filters pending filters' [] := by
  rcases eq_or_ne pending [] with rfl | hne
  · exact ⟨filters, Finish_of_holds_nil h, .inl ⟨rfl, List.prefix_refl _⟩⟩
  · have hs : b.start_ ≠ [] := by
      rw [h.start_eq]
      intro h0
      exact hne (List.eq_nil_of_length_eq_zero (by rw [← List.length_layoutStarts pending 0, h0]; rfl))
    have hg := holds_GenerateFilter h
    have hFin : b.Finish = b.GenerateFilter.Finish := by
      have hs' : b.GenerateFilter.start_ = [] := by rw [hg.start_eq]; rfl
      simp only [Finish, ne_eq, hs, hs', not_false_eq_true, not_true_eq_false, if_true, if_false]
    exact ⟨filters ++ [pending], hFin.trans (Finish_of_holds_nil hg),
      .inr ⟨[], rfl, rfl, by simp⟩⟩

end Finish

end BlockBasedFilterBlockBuilder

namespace BlockBasedFilterBlockReader

theorem whole_key_filtering_new (prefix_extractor : Option SliceTransform)
    (policy : BloomFilterPolicy) (whole : Bool) (contents : List UInt8) :
    (new prefix_extractor policy whole contents).whole_key_filtering_ = whole := by
  unfold new
  dsimp only
  split_ifs <;> rfl

/-- the reader of a finished block finds the offset array after the filters' bytes, one offset
for each filter -/
theorem new_finishedLayout (prefix_extractor : Option SliceTransform) (policy : BloomFilterPolicy)
    (whole : Bool) {bytes : List (List UInt8)} (hsize : (finishedLayout bytes).length < 2 ^ 32) :
    new prefix_extractor policy whole (finishedLayout bytes) =
      ⟨policy, prefix_extractor, whole, finishedLayout bytes, bytes.flatten.length,
        UInt64.ofNat bytes.length, 11⟩ := by
  have hlen := length_finishedLayout bytes
  have hbase : (finishedLayout bytes).getD ((finishedLayout bytes).length - 1) 0 = 11 := by
    simp [finishedLayout]
  have hlast : decodeFixed32 ((finishedLayout bytes).drop ((finishedLayout bytes).length - 5)) =
      UInt32.ofNat bytes.flatten.length := by
    rw [hlen, show bytes.flatten.length + 4 * bytes.length + 5 - 5 =
      bytes.flatten.length + 4 * bytes.length by omega, finishedLayout_eq, List.drop_length_add_append,
      decodeFixed32_drop_flatMap _ (by rw [length_layoutWords]; omega),
      getElem_layoutWords bytes (by rw [length_layoutWords]; omega), List.take_length]
  have hword : (UInt32.ofNat bytes.flatten.length).toNat = bytes.flatten.length := by
    rw [UInt32.toNat_ofNat', Nat.mod_eq_of_lt (by omega)]
  rw [new]
  have h11 : charToSizeT 11 = 11 := charToSizeT_of_lt 11 (by decide)
  simp only [show ¬(finishedLayout bytes).length < 5 by omega, if_false, hlast, hbase, hword, h11]
  rw [if_neg (by omega), hlen, show (bytes.flatten.length + 4 * bytes.length + 5 - 5 -
    bytes.flatten.length) / 4 = bytes.length by omega]

/-- the reader of a finished block reads, for every block offset of filter `t`, filter `t`'s
bytes -/
theorem MayMatch_finishedLayout (prefix_extractor : Option SliceTransform)
    (policy : BloomFilterPolicy) (whole : Bool) {bytes : List (List UInt8)}
    (hsize : (finishedLayout bytes).length < 2 ^ 32) (entry : List UInt8) {block_offset : UInt64}
    (ht : (block_offset / kFilterBase).toNat < bytes.length) :
    (new prefix_extractor policy whole (finishedLayout bytes)).MayMatch entry block_offset =
      policy.KeyMayMatch entry bytes[(block_offset / kFilterBase).toNat] := by
  have hlen := length_finishedLayout bytes
  have hidx : (block_offset >>> 11).toNat = (block_offset / kFilterBase).toNat := by
    rw [UInt64.toNat_shiftRight, UInt64.toNat_div, Nat.shiftRight_eq_div_pow]
    rfl
  have hnum : block_offset >>> 11 < UInt64.ofNat bytes.length := by
    rw [UInt64.lt_iff_toNat_lt, hidx, UInt64.toNat_ofNat', Nat.mod_eq_of_lt (by omega)]
    exact ht
  -- the filter runs from its own offset to the next one, the array's offset ending the last
  have hstart : decodeFixed32 ((finishedLayout bytes).drop
      (bytes.flatten.length + (block_offset >>> 11).toNat * 4)) =
      UInt32.ofNat (bytes.take (block_offset / kFilterBase).toNat).flatten.length := by
    rw [hidx, finishedLayout_eq, Nat.mul_comm, List.drop_length_add_append,
      decodeFixed32_drop_flatMap _ (by rw [length_layoutWords]; omega),
      getElem_layoutWords bytes (by rw [length_layoutWords]; omega)]
  have hlimit : decodeFixed32 ((finishedLayout bytes).drop
      (bytes.flatten.length + (block_offset >>> 11).toNat * 4 + 4)) =
      UInt32.ofNat (bytes.take ((block_offset / kFilterBase).toNat + 1)).flatten.length := by
    rw [hidx, finishedLayout_eq, Nat.add_assoc, show (block_offset / kFilterBase).toNat * 4 + 4 =
      4 * ((block_offset / kFilterBase).toNat + 1) by omega, List.drop_length_add_append,
      decodeFixed32_drop_flatMap _ (by rw [length_layoutWords]; omega),
      getElem_layoutWords bytes (by rw [length_layoutWords]; omega)]
  have hsucc := length_flatten_take_succ bytes ht
  have hle := length_flatten_take_le bytes ((block_offset / kFilterBase).toNat + 1)
  have hstartNat : (UInt32.ofNat (bytes.take (block_offset / kFilterBase).toNat).flatten.length).toNat =
      (bytes.take (block_offset / kFilterBase).toNat).flatten.length := by
    rw [UInt32.toNat_ofNat', Nat.mod_eq_of_lt (by omega)]
  have hlimitNat : (UInt32.ofNat (bytes.take ((block_offset / kFilterBase).toNat + 1)).flatten.length).toNat =
      (bytes.take ((block_offset / kFilterBase).toNat + 1)).flatten.length := by
    rw [UInt32.toNat_ofNat', Nat.mod_eq_of_lt (by omega)]
  have hR : (UInt32.ofNat bytes.flatten.length).toNat = bytes.flatten.length := by
    rw [UInt32.toNat_ofNat', Nat.mod_eq_of_lt (by omega)]
  have hcheck : UInt32.ofNat (bytes.take (block_offset / kFilterBase).toNat).flatten.length ≤
      UInt32.ofNat (bytes.take ((block_offset / kFilterBase).toNat + 1)).flatten.length ∧
      UInt32.ofNat (bytes.take ((block_offset / kFilterBase).toNat + 1)).flatten.length ≤
        UInt32.ofNat bytes.flatten.length := by
    rw [UInt32.le_iff_toNat_le, UInt32.le_iff_toNat_le, hstartNat, hlimitNat, hR]
    omega
  have hfilter : ((finishedLayout bytes).drop
      (UInt32.ofNat (bytes.take (block_offset / kFilterBase).toNat).flatten.length).toNat).take
      (UInt32.ofNat (bytes.take ((block_offset / kFilterBase).toNat + 1)).flatten.length -
        UInt32.ofNat (bytes.take (block_offset / kFilterBase).toNat).flatten.length).toNat =
      bytes[(block_offset / kFilterBase).toNat] := by
    rw [UInt32.toNat_sub_of_le _ _ hcheck.1, hstartNat, hlimitNat, hsucc, Nat.add_sub_cancel_left,
      finishedLayout_eq, List.take_drop_flatten bytes ht]
  rw [new_finishedLayout prefix_extractor policy whole hsize, MayMatch]
  simp only [if_pos hnum, hstart, hlimit, if_pos hcheck, hfilter]

end BlockBasedFilterBlockReader

/-! ## Keys match in the filter of their block -/

namespace BlockBasedFilterBlockBuilder

theorem run_append (b : BlockBasedFilterBlockBuilder) (l₁ l₂ : List FilterBlockOp) :
    b.run (l₁ ++ l₂) = (b.run l₁).run l₂ := List.foldl_append

theorem run_cons (b : BlockBasedFilterBlockBuilder) (a : FilterBlockOp) (l : List FilterBlockOp) :
    b.run (a :: l) = (a.apply b).run l := rfl

/-- with non-decreasing offsets, the calls before `StartBlock(o)` ask for no filter past `o`'s -/
theorem filterIndex_le_of_pairwise {pre rest : List FilterBlockOp} {block_offset : UInt64}
    (hsorted : ((pre ++ FilterBlockOp.StartBlock block_offset :: rest).filterMap
      FilterBlockOp.blockOffset?).Pairwise (· ≤ ·)) :
    ∀ a ∈ pre, a.filterIndex ≤ (block_offset / kFilterBase).toNat := by
  intro a ha
  cases a with
  | Add key => exact Nat.zero_le _
  | StartBlock o =>
    rw [List.filterMap_append, List.pairwise_append] at hsorted
    have hle : o ≤ block_offset := hsorted.2.2 o (List.mem_filterMap.mpr ⟨_, ha, rfl⟩)
      block_offset (by simp [FilterBlockOp.blockOffset?])
    simp only [FilterBlockOp.filterIndex, UInt64.toNat_div]
    exact Nat.div_le_div_right (UInt64.le_iff_toNat_le.mp hle)

/-- a key added after `StartBlock(o)`, with no block started in between, matches at `o` in the
finished filter block, when the block offsets are non-decreasing, fewer than `2 ^ 30` calls are
made and the block is shorter than `2 ^ 32` bytes -/
theorem block_filter_no_false_negatives (policy : BloomFilterPolicy)
    (hbits : policy.bits_per_key_.toNat < 2 ^ 31) (prefix_extractor : Option SliceTransform)
    (pre mid post : List FilterBlockOp) (block_offset : UInt64) (k : List UInt8)
    (hmid : ∀ a ∈ mid, a.isAdd = true)
    (hsorted : ((pre ++ FilterBlockOp.StartBlock block_offset :: (mid ++ FilterBlockOp.Add k :: post)).filterMap
      FilterBlockOp.blockOffset?).Pairwise (· ≤ ·))
    (hcount : (pre ++ FilterBlockOp.StartBlock block_offset :: (mid ++ FilterBlockOp.Add k :: post)).length <
      2 ^ 30)
    (hsize : ((new prefix_extractor policy true).run
      (pre ++ FilterBlockOp.StartBlock block_offset :: (mid ++ FilterBlockOp.Add k :: post))).Finish.length <
        2 ^ 32) :
    (BlockBasedFilterBlockReader.new prefix_extractor policy true ((new prefix_extractor policy true).run
      (pre ++ FilterBlockOp.StartBlock block_offset :: (mid ++ FilterBlockOp.Add k :: post))).Finish).KeyMayMatch
        k block_offset = true := by
  -- before `StartBlock(o)`: no filter past `t`
  obtain ⟨F₀, P₀, h₀, -, hb₀, hc₀, -⟩ := holds_run pre (holds_new prefix_extractor policy true)
  have hlen₀ := hc₀ _ (Nat.zero_le _) (filterIndex_le_of_pairwise hsorted)
  -- `StartBlock(o)`: filter `t` comes next
  obtain ⟨F₁, P₁, h₁, hg₁, hP₁, hlen₁, -⟩ := holds_apply h₀ (FilterBlockOp.StartBlock block_offset)
  simp only [FilterBlockOp.filterIndex] at hlen₁
  -- the calls of `mid` only add keys; then `Add(k)` leaves `k` pending for filter `t`
  obtain ⟨F₂, P₂, h₂, -, hb₂, -, hadds⟩ := holds_run mid h₁
  obtain ⟨P₃, h₃, hpre₃, hP₃, hk⟩ := holds_Add h₂ k
  have hin₃ : InFilter (block_offset / kFilterBase).toNat k F₂ P₃ :=
    .inl ⟨by rw [hadds hmid]; omega, hk rfl⟩
  -- the calls after it, and `Finish`, keep `k` in filter `t`
  obtain ⟨F₄, P₄, h₄, hin₄, hb₄, -, -⟩ := holds_run post h₃
  obtain ⟨F₅, hfin, hg₅⟩ := holds_Finish h₄
  obtain ⟨K, hK, hkK⟩ : ∃ K, F₅[(block_offset / kFilterBase).toNat]? = some K ∧ k ∈ K := by
    rcases hg₅.inFilter (hin₄ _ _ hin₃) with ⟨-, hnil⟩ | hK
    · cases hnil
    · exact hK
  -- every filter has fewer than `2 ^ 31` keys
  have hbound : Bounded (2 * (pre ++ FilterBlockOp.StartBlock block_offset ::
      (mid ++ FilterBlockOp.Add k :: post)).length) F₅ [] := by
    have hb₀' := hb₀ 0 ⟨fun K hK => absurd hK List.not_mem_nil, le_rfl⟩
    have hb₁ := hg₁.bounded hb₀' (by have := hb₀'.2; omega) (Nat.le_add_right _ 2)
    have hb₃ := (Grows.bounded (.inl ⟨rfl, hpre₃⟩) (hb₂ _ hb₁) (by have := (hb₂ _ hb₁).2; omega)
      (Nat.le_add_right _ 2) : Bounded _ F₂ P₃)
    refine hg₅.bounded (hb₄ _ hb₃) (Nat.zero_le _) ?_
    simp only [List.length_append, List.length_cons]
    omega
  have hKlen : K.length < 2 ^ 31 := by
    have := hbound.1 K (List.mem_of_getElem? hK)
    omega
  have hKne : K ≠ [] := List.ne_nil_of_mem hkK
  have ht : (block_offset / kFilterBase).toNat < (F₅.map (filterBytes policy)).length := by
    rw [List.length_map]
    exact (List.getElem?_eq_some_iff.mp hK).1
  have hrun : (new prefix_extractor policy true).run
      (pre ++ FilterBlockOp.StartBlock block_offset :: (mid ++ FilterBlockOp.Add k :: post)) =
      ((((FilterBlockOp.StartBlock block_offset).apply ((new prefix_extractor policy true).run pre)).run
        mid).Add k).run post := by
    rw [run_append, run_cons, run_append, run_cons]
    rfl
  rw [hrun, hfin] at hsize ⊢
  rw [BlockBasedFilterBlockReader.KeyMayMatch, BlockBasedFilterBlockReader.whole_key_filtering_new,
    Bool.not_true, if_neg Bool.false_ne_true,
    BlockBasedFilterBlockReader.MayMatch_finishedLayout _ _ _ hsize _ ht, List.getElem_map,
    (List.getElem?_eq_some_iff.mp hK).2, filterBytes_of_ne_nil hKne]
  have := (BloomFilterPolicy.KeyMayMatch_CreateFilter policy K [] hKlen hbits).1 k hkK
  rwa [List.length_nil, List.drop_zero] at this

end BlockBasedFilterBlockBuilder

/-- no false negatives of the Bloom filters: a full filter of fewer than `2 ^ 32` keys, the filter
`CreateFilter` appends for an array of fewer than `2 ^ 31` keys, and a filter block of fewer than
`2 ^ 30` calls and `2 ^ 32` bytes match every key put in them; the full filter and `KeyMayMatch`
probe only bits of the filter's data -/
theorem bloom_filters_no_false_negatives :
    (∀ (policy : BloomFilterPolicy) (b : FullFilterBitsBuilder), policy.GetFilterBitsBuilder = some b →
      ∀ keys : List (List UInt8), keys.length < 2 ^ 32 →
        (∀ k ∈ keys, (policy.GetFilterBitsReader
          (keys.foldl FullFilterBitsBuilder.AddKey b).Finish.2).MayMatch k = true) ∧
        ∀ entry, ∀ p ∈ (policy.GetFilterBitsReader
            (keys.foldl FullFilterBitsBuilder.AddKey b).Finish.2).probedBits entry,
          p < 8 * ((policy.GetFilterBitsReader
            (keys.foldl FullFilterBitsBuilder.AddKey b).Finish.2).data_len_.toNat - 5)) ∧
    (∀ policy : BloomFilterPolicy, policy.bits_per_key_.toNat < 2 ^ 31 →
      ∀ keys : List (List UInt8), keys.length < 2 ^ 31 → ∀ dst : List UInt8,
        (∀ k ∈ keys, policy.KeyMayMatch k
          ((policy.CreateFilter keys (Int32.ofNat keys.length) dst).drop dst.length) = true) ∧
        ∀ key, ∀ p ∈ BloomFilterPolicy.probedBits key
            ((policy.CreateFilter keys (Int32.ofNat keys.length) dst).drop dst.length),
          p < 8 * (((policy.CreateFilter keys (Int32.ofNat keys.length) dst).drop dst.length).length - 1)) ∧
    (∀ policy : BloomFilterPolicy, policy.bits_per_key_.toNat < 2 ^ 31 →
      ∀ (prefix_extractor : Option SliceTransform) (pre mid post : List FilterBlockOp)
        (block_offset : UInt64) (k : List UInt8),
        (∀ a ∈ mid, a.isAdd = true) →
        ((pre ++ FilterBlockOp.StartBlock block_offset :: (mid ++ FilterBlockOp.Add k :: post)).filterMap
          FilterBlockOp.blockOffset?).Pairwise (· ≤ ·) →
        (pre ++ FilterBlockOp.StartBlock block_offset :: (mid ++ FilterBlockOp.Add k :: post)).length < 2 ^ 30 →
        ((BlockBasedFilterBlockBuilder.new prefix_extractor policy true).run
          (pre ++ FilterBlockOp.StartBlock block_offset :: (mid ++ FilterBlockOp.Add k :: post))).Finish.length <
            2 ^ 32 →
        (BlockBasedFilterBlockReader.new prefix_extractor policy true
          ((BlockBasedFilterBlockBuilder.new prefix_extractor policy true).run
            (pre ++ FilterBlockOp.StartBlock block_offset ::
              (mid ++ FilterBlockOp.Add k :: post))).Finish).KeyMayMatch k block_offset = true) :=
  ⟨fun policy _ hb keys hkeys => BloomFilterPolicy.full_filter_no_false_negatives policy hb keys hkeys,
    fun policy hbits keys hn dst =>
      BloomFilterPolicy.create_filter_no_false_negatives policy hbits keys hn dst,
    fun policy hbits prefix_extractor pre mid post block_offset k hmid hsorted hcount hsize =>
      BlockBasedFilterBlockBuilder.block_filter_no_false_negatives policy hbits prefix_extractor pre mid
        post block_offset k hmid hsorted hcount hsize⟩

/-- the three parts at two keys, a policy of 10 bits and 6 probes per key -/
theorem bloom_filters_no_false_negatives_two_keys :
    (∀ k ∈ ([[1], [2]] : List (List UInt8)),
      ((⟨10, 6, false, by decide, by decide⟩ : BloomFilterPolicy).GetFilterBitsReader
        (([[1], [2]] : List (List UInt8)).foldl FullFilterBitsBuilder.AddKey
          ⟨10, 6, [], by decide, by decide⟩).Finish.2).MayMatch k = true) ∧
    (∀ k ∈ ([[1], [2]] : List (List UInt8)),
      (⟨10, 6, true, by decide, by decide⟩ : BloomFilterPolicy).KeyMayMatch k
        (((⟨10, 6, true, by decide, by decide⟩ : BloomFilterPolicy).CreateFilter [[1], [2]]
          (Int32.ofNat 2) [7]).drop 1) = true) ∧
    (BlockBasedFilterBlockReader.new none ⟨10, 6, true, by decide, by decide⟩ true
      ((BlockBasedFilterBlockBuilder.new none ⟨10, 6, true, by decide, by decide⟩ true).run
        ([] ++ FilterBlockOp.StartBlock 0 :: ([] ++ FilterBlockOp.Add [1] :: [FilterBlockOp.Add [3]]))).Finish).KeyMayMatch
      [1] 0 = true :=
  ⟨(bloom_filters_no_false_negatives.1 _ _ rfl _ (by decide)).1,
    (bloom_filters_no_false_negatives.2.1 _ (by decide) [[1], [2]] (by decide) [7]).1,
    bloom_filters_no_false_negatives.2.2 _ (by decide) none [] [] [FilterBlockOp.Add [3]] 0 [1]
      (by decide) (by decide) (by decide) (by decide)⟩

end RocksDB
