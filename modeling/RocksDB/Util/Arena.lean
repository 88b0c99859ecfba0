import RocksDB.Lib.Extents

/-!
# The arena: bump allocation from both ends of a block

`Arena` (util/arena.h, util/arena.cc) hands out memory from its current block: `Allocate` from
the top end down, `AllocateAligned` from the bottom end up after skipping to the next multiple
of `sizeof(void*)`; `alloc_bytes_remaining_` is the gap between the two ends.  A call that does
not fit falls back to `new char[]`: an object of more than a quarter block gets a block of its
own, any other call a fresh block of `kBlockSize` that becomes the current one (the rest of the
old block is wasted).

Addresses are `Nat`s.  `new` is the environment: each call is given the answer `new` would
return should it need a block (`NewBlock`), and a run (`Arena.Run`) takes only answers `new`
may give: aligned for any fundamental type, and apart from every block the arena holds
(`NewBlock.Fresh`).  Why the calls' ranges never meet: each is cut from the active region,
which no earlier call touches, and what is left active is apart from it; a new block is apart
from everything the arena held before.

* `Arena.Inv`           the invariant over a run: the calls' ranges lie in the arena's blocks,
                        apart from each other and from the active region, which lies in one
                        block and spans `alloc_bytes_remaining_` bytes;
* `Arena.Inv.take`      a call cut from a region no earlier call touches keeps `Inv`;
* `Arena.Run.inv`       every run keeps `Inv`.

Huge pages (`MAP_HUGETLB`) and the `AllocTracker` are not modelled.
-/

namespace RocksDB

/-- `sizeof(void*)` on a 64-bit platform -/
def kAlignUnit : Nat := 8

/-- what `new char[block_bytes]` answers: the block's address, and the size `AllocateNewBlock`
charges for it (`malloc_usable_size` where that is available, else `block_bytes`) -/
structure NewBlock where
  addr : Nat
  allocated_size : Nat
deriving Repr

/-- an entry of `blocks_`: the block's address, the `block_bytes` it was asked for, and the size
charged for it -/
structure Arena.Block where
  addr : Nat
  block_bytes : Nat
  allocated_size : Nat
deriving Repr

/-- the arena's fields; `inline_block_` is the address of the inline block -/
structure Arena where
  inline_block_ : Nat
  kBlockSize : Nat
  blocks_ : List Arena.Block
  irregular_block_num : Nat
  unaligned_alloc_ptr_ : Nat
  aligned_alloc_ptr_ : Nat
  alloc_bytes_remaining_ : Nat
  blocks_memory_ : Nat
deriving Repr

namespace Arena

def kInlineSize : Nat := 2048

def kMinBlockSize : Nat := 4096

def kMaxBlockSize : Nat := 2 <<< 30

end Arena

open Arena

def OptimizeBlockSize (block_size : Nat) : Nat :=
  -- make sure block_size is in optimal range
  let block_size := max kMinBlockSize block_size
  let block_size := min kMaxBlockSize block_size
  -- make sure block_size is the multiple of kAlignUnit
  if block_size % kAlignUnit ≠ 0 then (1 + block_size / kAlignUnit) * kAlignUnit else block_size

/-- the bounds the constructor asserts of `kBlockSize` -/
theorem OptimizeBlockSize_bounds (block_size : Nat) :
    kMinBlockSize ≤ OptimizeBlockSize block_size ∧ OptimizeBlockSize block_size ≤ kMaxBlockSize ∧
      OptimizeBlockSize block_size % kAlignUnit = 0 := by
  have hmax : kMaxBlockSize = 2147483648 := by decide
  unfold OptimizeBlockSize
  simp only [kMinBlockSize, hmax, kAlignUnit]
  split <;> omega

namespace Arena

/-- `Arena::Arena(block_size, tracker, huge_page_size)` with no huge pages, the inline block at
`inline_block_` -/
def new (inline_block_ block_size : Nat) : Arena where
  inline_block_ := inline_block_
  kBlockSize := OptimizeBlockSize block_size
  blocks_ := []
  irregular_block_num := 0
  alloc_bytes_remaining_ := kInlineSize
  blocks_memory_ := kInlineSize
  aligned_alloc_ptr_ := inline_block_
  unaligned_alloc_ptr_ := inline_block_ + kInlineSize

variable (a : Arena)

def AllocateNewBlock (block_bytes : Nat) (block : NewBlock) : Arena × Nat :=
  ({ a with blocks_memory_ := a.blocks_memory_ + block.allocated_size,
            blocks_ := a.blocks_ ++ [⟨block.addr, block_bytes, block.allocated_size⟩] }, block.addr)

def AllocateFallback (bytes : Nat) (aligned : Bool) (block : NewBlock) : Arena × Nat :=
  if bytes > a.kBlockSize / 4 then
    -- more than a quarter of a block: a block of its own, the current block stays current
    { a with irregular_block_num := a.irregular_block_num + 1 }.AllocateNewBlock bytes block
  else
    -- the rest of the current block is wasted
    let size := a.kBlockSize
    let (a, block_head) := a.AllocateNewBlock size block
    let a := { a with alloc_bytes_remaining_ := size - bytes }
    if aligned then
      ({ a with aligned_alloc_ptr_ := block_head + bytes, unaligned_alloc_ptr_ := block_head + size },
        block_head)
    else
      let a := { a with aligned_alloc_ptr_ := block_head, unaligned_alloc_ptr_ := block_head + size - bytes }
      (a, a.unaligned_alloc_ptr_)

def Allocate (bytes : Nat) (block : NewBlock) : Arena × Nat :=
  if bytes ≤ a.alloc_bytes_remaining_ then
    let a := { a with unaligned_alloc_ptr_ := a.unaligned_alloc_ptr_ - bytes,
                      alloc_bytes_remaining_ := a.alloc_bytes_remaining_ - bytes }
    (a, a.unaligned_alloc_ptr_)
  else a.AllocateFallback bytes false block

/-- `AllocateAligned(bytes)` with no huge page size -/
def AllocateAligned (bytes : Nat) (block : NewBlock) : Arena × Nat :=
  let current_mod := a.aligned_alloc_ptr_ &&& (kAlignUnit - 1)
  let slop := if current_mod = 0 then 0 else kAlignUnit - current_mod
  let needed := bytes + slop
  if needed ≤ a.alloc_bytes_remaining_ then
    ({ a with aligned_alloc_ptr_ := a.aligned_alloc_ptr_ + needed,
              alloc_bytes_remaining_ := a.alloc_bytes_remaining_ - needed },
      a.aligned_alloc_ptr_ + slop)
  else
    -- AllocateFallback always returns aligned memory
    a.AllocateFallback bytes true block

end Arena

/-- the calls a client makes of the arena -/
inductive ArenaOp
  | Allocate (bytes : Nat)
  | AllocateAligned (bytes : Nat)
deriving Repr

namespace ArenaOp

def bytes : ArenaOp → Nat
  | .Allocate bytes | .AllocateAligned bytes => bytes

def aligned : ArenaOp → Bool
  | .Allocate _ => false
  | .AllocateAligned _ => true

/-- the arena after the call, and the pointer it returns -/
def run (a : Arena) (block : NewBlock) : ArenaOp → Arena × Nat
  | .Allocate bytes => a.Allocate bytes block
  | .AllocateAligned bytes => a.AllocateAligned bytes block

end ArenaOp

/-- a call the arena answered, with the pointer it returned -/
structure ArenaCall where
  op : ArenaOp
  result : Nat

/-- the range `[result, result + bytes)` a call was given -/
def ArenaCall.extent (c : ArenaCall) : Extent := ⟨c.result, c.op.bytes⟩

namespace Arena

variable (a : Arena)

/-- the inline block, then the blocks of `blocks_` -/
def extents : List Extent :=
  ⟨a.inline_block_, kInlineSize⟩ :: a.blocks_.map fun b => ⟨b.addr, b.block_bytes⟩

/-- the active region `[aligned_alloc_ptr_, aligned_alloc_ptr_ + alloc_bytes_remaining_)` -/
def active : Extent := ⟨a.aligned_alloc_ptr_, a.alloc_bytes_remaining_⟩

/-- the size a fallback for `bytes` asks `new` for -/
def newBlockBytes (bytes : Nat) : Nat := if bytes > a.kBlockSize / 4 then bytes else a.kBlockSize

end Arena

/-- an answer `new char[block_bytes]` may give while the arena holds `a`: aligned for any
fundamental type, and apart from every block the arena holds -/
structure NewBlock.Fresh (block : NewBlock) (a : Arena) (block_bytes : Nat) : Prop where
  aligned : block.addr % kAlignUnit = 0
  apart : ∀ blk ∈ a.extents, Extent.Apart ⟨block.addr, block_bytes⟩ blk

/-- a fresh block is apart from everything that lies in the arena's blocks -/
theorem NewBlock.Fresh.apart_of_within {block : NewBlock} {a : Arena} {n : Nat} {e : Extent}
    (hf : block.Fresh a n) (he : ∃ blk ∈ a.extents, e.Within blk) : e.Apart ⟨block.addr, n⟩ :=
  (Extent.apart_of_within_mem hf.apart he).symm

namespace Arena

/-- the arenas a client can reach from the constructor, with the calls answered so far -/
inductive Run : Arena → List ArenaCall → Prop
  | new (inline_block_ block_size : Nat) : Run (Arena.new inline_block_ block_size) []
  | step {a : Arena} {calls : List ArenaCall} (op : ArenaOp) (block : NewBlock) :
      Run a calls → block.Fresh a (a.newBlockBytes op.bytes) →
        Run (op.run a block).1 (calls ++ [⟨op, (op.run a block).2⟩])

/-- what the arena promises its clients: every range it returned lies in the inline block or in
one block of `blocks_`, no two of them meet, every `AllocateAligned` result is aligned, the
active region spans `alloc_bytes_remaining_` bytes inside one block, and `blocks_memory_` is the
inline block plus the size charged for every block -/
structure Sound (a : Arena) (calls : List ArenaCall) : Prop where
  calls_within : ∀ c ∈ calls, ∃ blk ∈ a.extents, c.extent.Within blk
  calls_apart : calls.Pairwise fun c d => c.extent.Apart d.extent
  calls_aligned : ∀ c ∈ calls, c.op.aligned = true → c.result % kAlignUnit = 0
  remaining : a.unaligned_alloc_ptr_ = a.aligned_alloc_ptr_ + a.alloc_bytes_remaining_
  active_within : ∃ blk ∈ a.extents, a.active.Within blk
  memory : a.blocks_memory_ = kInlineSize + (a.blocks_.map (·.allocated_size)).sum

/-- `Sound`, with the arena's blocks apart and the active region untouched by every call -/
structure Inv (a : Arena) (calls : List ArenaCall) : Prop extends a.Sound calls where
  blocks_apart : a.extents.Pairwise Extent.Apart
  calls_active : ∀ c ∈ calls, c.extent.Apart a.active

variable {a a' : Arena} {calls : List ArenaCall} {block : NewBlock}

theorem inv_new (inline_block_ block_size : Nat) : (Arena.new inline_block_ block_size).Inv [] where
  calls_within := by simp
  calls_apart := .nil
  calls_aligned := by simp
  remaining := rfl
  active_within := ⟨_, List.mem_cons_self, Extent.Within.refl _⟩
  memory := rfl
  blocks_apart := List.pairwise_singleton _ _
  calls_active := by simp

/-- a call cut from a region `r` of one of the arena's blocks that no earlier call touches,
leaving an active region in `r` apart from it, keeps `Inv`; the blocks stay as they are -/
theorem Inv.take {r : Extent} {c : ArenaCall} (h : a.Inv calls)
    (hr : ∃ blk ∈ a.extents, r.Within blk) (hfree : ∀ d ∈ calls, d.extent.Apart r)
    (hinline : a'.inline_block_ = a.inline_block_) (hblocks : a'.blocks_ = a.blocks_)
    (hmem : a'.blocks_memory_ = a.blocks_memory_)
    (hrem : a'.unaligned_alloc_ptr_ = a'.aligned_alloc_ptr_ + a'.alloc_bytes_remaining_)
    (hactive : a'.active.Within r) (hc : c.extent.Within r) (hca : c.extent.Apart a'.active)
    (halign : c.op.aligned = true → c.result % kAlignUnit = 0) :
    a'.Inv (calls ++ [c]) := by
  have hext : a'.extents = a.extents := by simp only [extents, hinline, hblocks]
  obtain ⟨blk, hblk, hrb⟩ := hr
  refine ⟨⟨?_, ?_, ?_, hrem, ⟨blk, hext ▸ hblk, hactive.trans hrb⟩, ?_⟩, hext ▸ h.blocks_apart, ?_⟩
  · rw [List.forall_mem_append, List.forall_mem_singleton, hext]
    exact ⟨h.calls_within, blk, hblk, hc.trans hrb⟩
  · refine List.pairwise_append.mpr ⟨h.calls_apart, List.pairwise_singleton _ _, fun d hd e he => ?_⟩
    rw [List.mem_singleton.mp he]
    exact (hfree d hd).mono (Extent.Within.refl _) hc
  · rw [List.forall_mem_append, List.forall_mem_singleton]
    exact ⟨h.calls_aligned, halign⟩
  · rw [hmem, hblocks, h.memory]
  · rw [List.forall_mem_append, List.forall_mem_singleton]
    exact ⟨fun d hd => (hfree d hd).mono (Extent.Within.refl _) hactive, hca⟩

/-- a call given the last block of the arena whole, apart from every earlier call and from the
active region, keeps `Inv` -/
theorem Inv.whole {c : ArenaCall} (h : a.Inv calls) (hc : c.extent ∈ a.extents)
    (hfree : ∀ d ∈ calls, d.extent.Apart c.extent) (hca : c.extent.Apart a.active)
    (halign : c.op.aligned = true → c.result % kAlignUnit = 0) :
    a.Inv (calls ++ [c]) := by
  refine ⟨⟨?_, ?_, ?_, h.remaining, h.active_within, h.memory⟩, h.blocks_apart, ?_⟩
  · rw [List.forall_mem_append, List.forall_mem_singleton]
    exact ⟨h.calls_within, _, hc, Extent.Within.refl _⟩
  · refine List.pairwise_append.mpr ⟨h.calls_apart, List.pairwise_singleton _ _, fun d hd e he => ?_⟩
    rw [List.mem_singleton.mp he]
    exact hfree d hd
  · rw [List.forall_mem_append, List.forall_mem_singleton]
    exact ⟨h.calls_aligned, halign⟩
  · rw [List.forall_mem_append, List.forall_mem_singleton]
    exact ⟨h.calls_active, hca⟩

/-- the count of irregular blocks is not part of `Inv` -/
theorem Inv.irregular (h : a.Inv calls) (n : Nat) : { a with irregular_block_num := n }.Inv calls :=
  ⟨⟨h.calls_within, h.calls_apart, h.calls_aligned, h.remaining, h.active_within, h.memory⟩,
    h.blocks_apart, h.calls_active⟩

@[simp] theorem extents_AllocateNewBlock (n : Nat) :
    (a.AllocateNewBlock n block).1.extents = a.extents ++ [⟨block.addr, n⟩] := by
  simp [AllocateNewBlock, extents]

/-- `AllocateNewBlock` records a fresh block and charges for it; the calls and the active region
are untouched -/
theorem Inv.allocateNewBlock {n : Nat} (h : a.Inv calls) (hf : block.Fresh a n) :
    (a.AllocateNewBlock n block).1.Inv calls := by
  have hsub : ∀ {e : Extent}, (∃ blk ∈ a.extents, e.Within blk) →
      ∃ blk ∈ (a.AllocateNewBlock n block).1.extents, e.Within blk := by
    rintro e ⟨blk, hblk, he⟩
    exact ⟨blk, by simp [hblk], he⟩
  refine ⟨⟨fun d hd => hsub (h.calls_within d hd), h.calls_apart, h.calls_aligned, h.remaining,
    hsub h.active_within, ?_⟩, ?_, h.calls_active⟩
  · simp only [AllocateNewBlock, List.map_append, List.sum_append, h.memory]
    simp
    omega
  · rw [extents_AllocateNewBlock, List.pairwise_append]
    exact ⟨h.blocks_apart, List.pairwise_singleton _ _,
      fun e he f hf' => List.mem_singleton.mp hf' ▸ (hf.apart e he).symm⟩

/-- `AllocateFallback` takes a fresh block: a call of more than a quarter block gets it whole,
any other call is cut from one end of it and the rest becomes the active region -/
theorem Inv.allocateFallback (op : ArenaOp) (h : a.Inv calls)
    (hf : block.Fresh a (a.newBlockBytes op.bytes)) :
    (a.AllocateFallback op.bytes op.aligned block).1.Inv
      (calls ++ [⟨op, (a.AllocateFallback op.bytes op.aligned block).2⟩]) := by
  have hfree : ∀ d ∈ calls, d.extent.Apart ⟨block.addr, a.newBlockBytes op.bytes⟩ :=
    fun d hd => hf.apart_of_within (h.calls_within d hd)
  unfold AllocateFallback
  by_cases hbig : op.bytes > a.kBlockSize / 4
  · -- an irregular block: the call's range is the block itself
    have hn : a.newBlockBytes op.bytes = op.bytes := if_pos hbig
    rw [hn] at hf hfree
    rw [if_pos hbig]
    have hmem : ArenaCall.extent ⟨op, block.addr⟩ ∈ ({ a with irregular_block_num :=
        a.irregular_block_num + 1 }.AllocateNewBlock op.bytes block).1.extents := by
      rw [extents_AllocateNewBlock]
      exact List.mem_append_right _ (List.mem_singleton.mpr rfl)
    exact (Inv.allocateNewBlock (h.irregular (a.irregular_block_num + 1)) ⟨hf.aligned, hf.apart⟩).whole
      hmem hfree
      (hf.apart_of_within h.active_within).symm fun _ => hf.aligned
  · -- a block of kBlockSize becomes the current one
    have hn : a.newBlockBytes op.bytes = a.kBlockSize := if_neg hbig
    rw [hn] at hf hfree
    rw [if_neg hbig]
    have hr : ∃ blk ∈ (a.AllocateNewBlock a.kBlockSize block).1.extents,
        Extent.Within ⟨block.addr, a.kBlockSize⟩ blk := ⟨_, by simp, Extent.Within.refl _⟩
    have h₁ := h.allocateNewBlock hf
    dsimp only [AllocateNewBlock]
    split
    · -- aligned: the call at the bottom end
      refine h₁.take hr hfree rfl rfl rfl ?_ ?_ ?_ ?_ fun _ => hf.aligned
      all_goals simp only [active, ArenaCall.extent, Extent.Within, Extent.Apart, Extent.limit]
      all_goals omega
    · -- unaligned: the call at the top end
      refine h₁.take hr hfree rfl rfl rfl ?_ ?_ ?_ ?_ (by simp_all)
      all_goals simp only [active, ArenaCall.extent, Extent.Within, Extent.Apart, Extent.limit]
      all_goals omega

theorem current_mod_eq (p : Nat) : p &&& (kAlignUnit - 1) = p % kAlignUnit :=
  Nat.and_two_pow_sub_one_eq_mod p 3

/-- one call keeps `Inv`: it is cut from the active region, or it falls back to a fresh block -/
theorem Inv.run (op : ArenaOp) (h : a.Inv calls) (hf : block.Fresh a (a.newBlockBytes op.bytes)) :
    (op.run a block).1.Inv (calls ++ [⟨op, (op.run a block).2⟩]) := by
  cases op with
  | Allocate bytes =>
    simp only [ArenaOp.run, Allocate]
    split
    · -- the top end of the active region moves down
      have hrem := h.remaining
      refine h.take h.active_within h.calls_active rfl rfl rfl ?_ ?_ ?_ ?_ (by simp [ArenaOp.aligned])
      all_goals simp only [active, ArenaCall.extent, ArenaOp.bytes, Extent.Within, Extent.Apart,
        Extent.limit]
      all_goals omega
    · exact h.allocateFallback (.Allocate bytes) hf
  | AllocateAligned bytes =>
    dsimp only [ArenaOp.run, AllocateAligned]
    rw [current_mod_eq]
    -- the slop takes the bottom end to the next multiple of kAlignUnit
    have hal : (a.aligned_alloc_ptr_ + if a.aligned_alloc_ptr_ % kAlignUnit = 0 then 0
        else kAlignUnit - a.aligned_alloc_ptr_ % kAlignUnit) % kAlignUnit = 0 := by
      unfold kAlignUnit
      split <;> omega
    generalize (if a.aligned_alloc_ptr_ % kAlignUnit = 0 then 0
      else kAlignUnit - a.aligned_alloc_ptr_ % kAlignUnit) = slop at hal ⊢
    split
    · -- the bottom end of the active region moves up past the slop and the call
      have hrem := h.remaining
      refine h.take h.active_within h.calls_active rfl rfl rfl ?_ ?_ ?_ ?_ fun _ => hal
      all_goals simp only [active, ArenaCall.extent, ArenaOp.bytes, Extent.Within, Extent.Apart,
        Extent.limit]
      all_goals omega
    · exact h.allocateFallback (.AllocateAligned bytes) hf

theorem Run.inv (hr : a.Run calls) : a.Inv calls := by
  induction hr with
  | new inline_block_ block_size => exact inv_new inline_block_ block_size
  | step op block _ hf ih => exact ih.run op hf

end Arena

theorem arena_allocations_sound {a : Arena} {calls : List ArenaCall} (h : a.Run calls) :
    a.Sound calls :=
  h.inv.toSound

/-- 2000 bytes from the top of the inline block; 100 aligned bytes no longer fit and start a
block of 4096 at 8192; 4000 aligned bytes, more than a quarter block, get a block of their own
at 16384 -/
theorem arena_allocations_sound_fallback :
    (let b₁ : NewBlock := ⟨8192, 4096⟩
     let b₂ : NewBlock := ⟨16384, 4000⟩
     let r₁ := (ArenaOp.Allocate 2000).run (Arena.new 0 4096) b₁
     let r₂ := (ArenaOp.AllocateAligned 100).run r₁.1 b₁
     let r₃ := (ArenaOp.AllocateAligned 4000).run r₂.1 b₂
     let calls : List ArenaCall := [⟨.Allocate 2000, r₁.2⟩, ⟨.AllocateAligned 100, r₂.2⟩,
       ⟨.AllocateAligned 4000, r₃.2⟩]
     r₃.1.Run calls ∧ r₃.1.Sound calls) := by
  intro b₁ b₂ r₁ r₂ r₃ calls
  have h₁ : r₁.1.Run [⟨.Allocate 2000, r₁.2⟩] :=
    .step _ b₁ (.new 0 4096) ⟨by decide, by decide⟩
  have h₂ : r₂.1.Run [⟨.Allocate 2000, r₁.2⟩, ⟨.AllocateAligned 100, r₂.2⟩] :=
    .step _ b₁ h₁ ⟨by decide, by decide⟩
  have h₃ : r₃.1.Run calls := .step _ b₂ h₂ ⟨by decide, by decide⟩
  exact ⟨h₃, arena_allocations_sound h₃⟩

end RocksDB
