import RocksDB.Lib.Adjacency
import RocksDB.Transactions.LockMgr

/-!
# utilities/transactions/transaction_lock_mgr.cc: deadlock detection

A transaction that has to wait for the holders `wait_ids` of a lock records them in
`wait_txn_map_` (`IncrementWaiters`) and takes them out once it stops waiting
(`DecrementWaiters`); `rev_wait_txn_map_` counts how often each transaction is waited for.
`IncrementWaiters` then searches the wait-for graph breadth first from `wait_ids`, in a queue of
`deadlock_detect_depth` entries and with no visited set:

* `searchWaiters`   the search loop over the iterations left; a queue that reaches the depth ends
                    in `true` (`searchWaiters_of_full`), and `false` leaves a queue closed under
                    the successors of its entries, none of them the waiting transaction
                    (`searchWaiters_false`);
* `WaitReachable`   the maps over every run of the calls `AcquireWithTimeout` makes; every call
                    keeps `Counted`, `rev_wait_txn_map_` holding the occurrences of each
                    transaction across the wait lists (`WaitStep.counted`).

The two `HashMap`s are association lists: `Insert` is only called for an absent key, and neither
the buckets nor the order within one is observable through `Contains`, `Get` and `Delete`.
-/

namespace RocksDB

open Adjacency Relation

/-- the two maps of `TransactionLockMgr` deadlock detection keeps -/
structure WaitMaps where
  rev_wait_txn_map_ : AList fun _ : TransactionID => Int
  wait_txn_map_ : AList fun _ : TransactionID => List TransactionID

namespace WaitMaps

/-- `rev_wait_txn_map_.Get(wait_id)++`, or `Insert(wait_id, 1)` where it has no entry -/
def incrementWaiter (rev : AList fun _ : TransactionID => Int) (wait_id : TransactionID) :
    AList fun _ : TransactionID => Int :=
  match rev.lookup wait_id with
  | some n => rev.insert wait_id (n + 1)
  | none => rev.insert wait_id 1

/-- `rev_wait_txn_map_.Get(wait_id)--`, then `Delete` at 0; `Get` of an absent id is undefined
and left as no change -/
def decrementWaiter (rev : AList fun _ : TransactionID => Int) (wait_id : TransactionID) :
    AList fun _ : TransactionID => Int :=
  match rev.lookup wait_id with
  | some n => if n - 1 = 0 then rev.erase wait_id else rev.insert wait_id (n - 1)
  | none => rev

/-- the `Insert` and the increments `IncrementWaiters` begins with -/
def insertWaiters (s : WaitMaps) (id : TransactionID) (wait_ids : List TransactionID) :
    WaitMaps where
  rev_wait_txn_map_ := wait_ids.foldl incrementWaiter s.rev_wait_txn_map_
  wait_txn_map_ := s.wait_txn_map_.insert id wait_ids

/-- `DecrementWaitersImpl` -/
def DecrementWaitersImpl (s : WaitMaps) (id : TransactionID) (wait_ids : List TransactionID) :
    WaitMaps where
  rev_wait_txn_map_ := wait_ids.foldl decrementWaiter s.rev_wait_txn_map_
  wait_txn_map_ := s.wait_txn_map_.erase id

/-- `DecrementWaiters`: `DecrementWaitersImpl` under `wait_txn_map_mutex_` -/
def DecrementWaiters (s : WaitMaps) (id : TransactionID) (wait_ids : List TransactionID) :
    WaitMaps :=
  s.DecrementWaitersImpl id wait_ids

/-- the copy loop: `next_ids` after the queue's entries, as far as `depth` entries allow -/
def fillQueue (depth : Nat) (queue : List TransactionID) :
    Option (List TransactionID) → List TransactionID
  | some next_ids => queue ++ next_ids.take (depth - queue.length)
  | none => queue

/-- the search loop of `IncrementWaiters` from `head` on, `remaining = depth - head` iterations
left; `queue` holds the entries below `tail`, the rest of the vector being 0 -/
def searchWaiters (wait : AList fun _ : TransactionID => List TransactionID) (id : TransactionID)
    (depth : Nat) : (remaining head : Nat) → List TransactionID → Option (List TransactionID) → Bool
  -- "Wait cycle too big, just assume deadlock."
  | 0, _, _, _ => true
  | remaining + 1, head, queue, next_ids =>
    let queue := fillQueue depth queue next_ids
    if queue.length = head then false
    else
      let next := queue.getD head 0
      if next = id then true
      else if next ∉ wait then searchWaiters wait id depth remaining (head + 1) queue none
      else searchWaiters wait id depth remaining (head + 1) queue (wait.lookup next)

/-- `IncrementWaiters`: whether it reports a deadlock, and the maps it leaves -/
def IncrementWaiters (s : WaitMaps) (id : TransactionID) (wait_ids : List TransactionID)
    (depth : Nat) : Bool × WaitMaps :=
  let s' := s.insertWaiters id wait_ids
  -- "No deadlock if nobody is waiting on self."
  if id ∉ s'.rev_wait_txn_map_ then (false, s')
  else if searchWaiters s'.wait_txn_map_ id depth depth 0 [] (some wait_ids) then
    (true, s'.DecrementWaitersImpl id wait_ids)
  else (false, s')

/-- the maps of a new `TransactionLockMgr` -/
def empty : WaitMaps := ⟨∅, ∅⟩

/-- the calls `AcquireWithTimeout` makes: `IncrementWaiters` for a transaction that is not
waiting (as asserted), and `DecrementWaiters` with the ids a waiting transaction recorded -/
inductive WaitStep : WaitMaps → WaitMaps → Prop
  | IncrementWaiters {s : WaitMaps} (id : TransactionID) (wait_ids : List TransactionID)
      (depth : Nat) : id ∉ s.wait_txn_map_ → WaitStep s (s.IncrementWaiters id wait_ids depth).2
  | DecrementWaiters {s : WaitMaps} (id : TransactionID) (wait_ids : List TransactionID) :
      s.wait_txn_map_.lookup id = some wait_ids → WaitStep s (s.DecrementWaiters id wait_ids)

/-- the maps over every run of those calls -/
inductive WaitReachable : WaitMaps → Prop
  | empty : WaitReachable empty
  | step {s s' : WaitMaps} : WaitReachable s → WaitStep s s' → WaitReachable s'

/-! ## The search -/

section Search

variable {wait : AList fun _ : TransactionID => List TransactionID} {id : TransactionID}
  {depth : Nat}

theorem length_fillQueue_ge (depth : Nat) (queue : List TransactionID)
    (next_ids : Option (List TransactionID)) :
    queue.length ≤ (fillQueue depth queue next_ids).length := by
  cases next_ids <;> simp [fillQueue]

/-- a queue the copy loop leaves short of the depth took all of `next_ids` -/
theorem fillQueue_of_lt {queue : List TransactionID} {next_ids : Option (List TransactionID)}
    (hq : queue.length ≤ depth) (h : (fillQueue depth queue next_ids).length < depth) :
    fillQueue depth queue next_ids = queue ++ next_ids.getD [] := by
  cases next_ids with
  | none => simp [fillQueue]
  | some ids =>
    simp only [fillQueue, List.length_append, List.length_take] at h
    simp only [fillQueue, Option.getD_some]
    rw [List.take_of_length_le (by omega)]

/-- one iteration, with `Contains` and `Get` read as one lookup -/
theorem searchWaiters_succ (remaining head : Nat) (queue : List TransactionID)
    (next_ids : Option (List TransactionID)) :
    searchWaiters wait id depth (remaining + 1) head queue next_ids =
      if (fillQueue depth queue next_ids).length = head then false
      else if (fillQueue depth queue next_ids).getD head 0 = id then true
      else searchWaiters wait id depth remaining (head + 1) (fillQueue depth queue next_ids)
        (wait.lookup ((fillQueue depth queue next_ids).getD head 0)) := by
  rw [searchWaiters]
  dsimp only
  split_ifs with hlen hid hmem
  · rfl
  · rfl
  · rfl
  · rw [AList.lookup_eq_none.mpr hmem]

/-- once the queue holds `depth` entries, no iteration finds it used up -/
theorem searchWaiters_of_full : ∀ (remaining head : Nat) (queue : List TransactionID)
    (next_ids : Option (List TransactionID)), remaining + head = depth →
    depth ≤ (fillQueue depth queue next_ids).length →
    searchWaiters wait id depth remaining head queue next_ids = true := by
  intro remaining
  induction remaining with
  | zero => intro head queue next_ids _ _; rfl
  | succ r ih =>
    intro head queue next_ids hr hfull
    rw [searchWaiters_succ, if_neg (by omega)]
    split_ifs
    · rfl
    · exact ih (head + 1) _ _ (by omega) (hfull.trans (length_fillQueue_ge _ _ _))

/-- a search that answers `false` used up a queue that holds the one it started from and
`next_ids`, and holds the successors of each entry from `head` on, none of them `id` -/
theorem searchWaiters_false : ∀ (remaining head : Nat) (queue : List TransactionID)
    (next_ids : Option (List TransactionID)), remaining + head = depth →
    head ≤ queue.length → queue.length ≤ depth →
    searchWaiters wait id depth remaining head queue next_ids = false →
    ∃ Q, queue ++ next_ids.getD [] <+: Q ∧ ∀ v ∈ Q.drop head, v ≠ id ∧ ∀ u ∈ succ wait v, u ∈ Q := by
  intro remaining
  induction remaining with
  | zero => intro head queue next_ids _ _ _ hs; cases hs
  | succ r ih =>
    intro head queue next_ids hr hh hq hs
    -- a queue that reached the depth would have ended in `true`
    have hshort : (fillQueue depth queue next_ids).length < depth := by
      by_contra hfull
      rw [searchWaiters_of_full (r + 1) head queue next_ids hr (by omega)] at hs
      cases hs
    have hfill := fillQueue_of_lt hq hshort
    rw [searchWaiters_succ, hfill] at hs
    rw [hfill] at hshort
    have hle := length_fillQueue_ge depth queue next_ids
    rw [hfill] at hle
    split_ifs at hs with hlen hid
    · -- the queue is used up at `head`: it is the closed list
      refine ⟨queue ++ next_ids.getD [], List.prefix_refl _, fun v hv => ?_⟩
      rw [List.drop_eq_nil_of_le (by omega)] at hv
      cases hv
    · -- the entry at `head` has its successors queued next
      obtain ⟨Q, hpre, hQ⟩ := ih (head + 1) _ _ (by omega) (by omega) (by omega) hs
      have hpre' : queue ++ next_ids.getD [] <+: Q := (List.prefix_append _ _).trans hpre
      have hlt : head < (queue ++ next_ids.getD []).length := by omega
      have hQlen : head < Q.length := lt_of_lt_of_le hlt hpre'.length_le
      have hnext : Q[head] = (queue ++ next_ids.getD []).getD head 0 := by
        rw [List.getD_eq_getElem _ _ hlt]
        exact (hpre'.getElem hlt).symm
      refine ⟨Q, hpre', fun v hv => ?_⟩
      rw [List.drop_eq_getElem_cons hQlen, hnext] at hv
      rcases List.mem_cons.mp hv with rfl | hv
      · exact ⟨hid, fun u hu => hpre.subset (List.mem_append_right _ hu)⟩
      · exact hQ v hv

end Search

/-! ## The counts of the waited-for transactions -/

/-- the entry `rev_wait_txn_map_` keeps for `n` occurrences: none for 0 -/
def countEntry (n : Nat) : Option Int := if n = 0 then none else some n

/-- `rev_wait_txn_map_` counts the occurrences of each transaction across the wait lists -/
def Counted (s : WaitMaps) : Prop :=
  ∀ x, s.rev_wait_txn_map_.lookup x = countEntry (inCount s.wait_txn_map_ x)

@[simp] theorem countEntry_eq_none {n : Nat} : countEntry n = none ↔ n = 0 := by
  unfold countEntry
  split <;> simp_all

theorem countEntry_eq_some {n : Nat} {c : Int} : countEntry n = some c ↔ n ≠ 0 ∧ c = n := by
  unfold countEntry
  split <;> simp_all [eq_comm]

section Counts

variable {rev : AList fun _ : TransactionID => Int} {w : TransactionID} {n : Nat}

theorem lookup_incrementWaiter (h : rev.lookup w = countEntry n) (x : TransactionID) :
    (incrementWaiter rev w).lookup x = if x = w then countEntry (n + 1) else rev.lookup x := by
  unfold incrementWaiter
  split_ifs with hx
  · subst hx
    cases hl : rev.lookup x with
    | none =>
      rw [hl, eq_comm, countEntry_eq_none] at h
      simp [h, countEntry]
    | some c =>
      obtain ⟨-, rfl⟩ := countEntry_eq_some.mp (hl ▸ h).symm
      simp [countEntry]
  · cases rev.lookup w <;> simp [AList.lookup_insert_ne hx]

theorem lookup_decrementWaiter (h : rev.lookup w = countEntry n) (hn : 0 < n) (x : TransactionID) :
    (decrementWaiter rev w).lookup x = if x = w then countEntry (n - 1) else rev.lookup x := by
  have hw : rev.lookup w = some (n : Int) := by rw [h, countEntry, if_neg (by omega)]
  unfold decrementWaiter
  rw [hw]
  dsimp only
  split_ifs with h1 hx hx
  · subst hx
    simp [AList.lookup_erase, countEntry, show n = 1 by omega]
  · exact AList.lookup_erase_ne hx
  · subst hx
    rw [AList.lookup_insert, countEntry, if_neg (by omega)]
    push_cast [Nat.cast_sub (show 1 ≤ n by omega)]
    rfl
  · exact AList.lookup_insert_ne hx

theorem lookup_foldl_incrementWaiter (wait_ids : List TransactionID) :
    ∀ {rev : AList fun _ : TransactionID => Int} {base : TransactionID → Nat},
      (∀ x, rev.lookup x = countEntry (base x)) →
      ∀ x, (wait_ids.foldl incrementWaiter rev).lookup x = countEntry (base x + wait_ids.count x) := by
  induction wait_ids with
  | nil => intro rev base h x; simpa using h x
  | cons w ids ih =>
    intro rev base h x
    -- the increment of `w` adds one to its base count
    have hstep : ∀ y, (incrementWaiter rev w).lookup y =
        countEntry (base y + if y = w then 1 else 0) := by
      intro y
      rw [lookup_incrementWaiter (h w)]
      split_ifs with hy
      · rw [hy]
      · rw [h y, Nat.add_zero]
    rw [List.foldl_cons, ih hstep x, List.count_cons]
    congr 1
    by_cases hx : x = w
    · subst hx
      simp
      omega
    · simp [hx, Ne.symm hx]

theorem lookup_foldl_decrementWaiter (wait_ids : List TransactionID) :
    ∀ {rev : AList fun _ : TransactionID => Int} {base : TransactionID → Nat},
      (∀ x, rev.lookup x = countEntry (base x)) → (∀ x, wait_ids.count x ≤ base x) →
      ∀ x, (wait_ids.foldl decrementWaiter rev).lookup x = countEntry (base x - wait_ids.count x) := by
  induction wait_ids with
  | nil => intro rev base h _ x; simpa using h x
  | cons w ids ih =>
    intro rev base h hle x
    have hcount : ∀ y, ids.count y + (if y = w then 1 else 0) ≤ base y := by
      intro y
      have hy' := hle y
      rw [List.count_cons] at hy'
      by_cases hy : y = w
      · subst hy
        simpa using hy'
      · simpa [hy, Ne.symm hy] using hy'
    have hpos : 0 < base w := by
      have := hcount w
      rw [if_pos rfl] at this
      omega
    -- the decrement of `w` takes one off its base count
    have hstep : ∀ y, (decrementWaiter rev w).lookup y =
        countEntry (base y - if y = w then 1 else 0) := by
      intro y
      rw [lookup_decrementWaiter (h w) hpos]
      split_ifs with hy
      · rw [hy]
      · rw [h y, Nat.sub_zero]
    rw [List.foldl_cons, ih hstep (fun y => by have := hcount y; omega) x, List.count_cons]
    congr 1
    by_cases hx : x = w
    · subst hx
      simp
      omega
    · simp [hx, Ne.symm hx]

end Counts

section Steps

variable {s : WaitMaps} {id : TransactionID} {wait_ids : List TransactionID}

theorem counted_empty : Counted empty := by
  intro x
  simp [empty, inCount, countEntry]

theorem Counted.insertWaiters (hc : Counted s) (h : id ∉ s.wait_txn_map_)
    (wait_ids : List TransactionID) : Counted (s.insertWaiters id wait_ids) := by
  intro x
  rw [WaitMaps.insertWaiters, lookup_foldl_incrementWaiter wait_ids hc x, inCount_insert h,
    Nat.add_comm]

theorem Counted.decrementWaitersImpl (hc : Counted s)
    (h : s.wait_txn_map_.lookup id = some wait_ids) :
    Counted (s.DecrementWaitersImpl id wait_ids) := by
  intro x
  have he := inCount_erase h
  show (wait_ids.foldl decrementWaiter s.rev_wait_txn_map_).lookup x =
    countEntry (inCount (s.wait_txn_map_.erase id) x)
  rw [lookup_foldl_decrementWaiter wait_ids hc (fun y => by have := he y; omega) x]
  congr 1
  have := he x
  omega

theorem lookup_insertWaiters_self (s : WaitMaps) (id : TransactionID)
    (wait_ids : List TransactionID) :
    (s.insertWaiters id wait_ids).wait_txn_map_.lookup id = some wait_ids :=
  AList.lookup_insert _

/-- `IncrementWaiters` as one test: a deadlock is reported where somebody waits for `id` and
the search answers `true` -/
theorem IncrementWaiters_eq (depth : Nat) :
    s.IncrementWaiters id wait_ids depth =
      if id ∈ (s.insertWaiters id wait_ids).rev_wait_txn_map_ ∧
          searchWaiters (s.insertWaiters id wait_ids).wait_txn_map_ id depth depth 0 []
            (some wait_ids) = true then
        (true, (s.insertWaiters id wait_ids).DecrementWaitersImpl id wait_ids)
      else (false, s.insertWaiters id wait_ids) := by
  unfold IncrementWaiters
  by_cases h1 : id ∈ (s.insertWaiters id wait_ids).rev_wait_txn_map_ <;> simp [h1]

/-- the two ends of `IncrementWaiters` -/
theorem IncrementWaiters_false {depth : Nat} (h : (s.IncrementWaiters id wait_ids depth).1 = false) :
    (s.IncrementWaiters id wait_ids depth).2 = s.insertWaiters id wait_ids ∧
      (id ∉ (s.insertWaiters id wait_ids).rev_wait_txn_map_ ∨
        searchWaiters (s.insertWaiters id wait_ids).wait_txn_map_ id depth depth 0 []
          (some wait_ids) = false) := by
  rw [IncrementWaiters_eq] at h ⊢
  -- `split_ifs` closes the branch that reports a deadlock
  split_ifs at h ⊢ with hc
  refine ⟨rfl, ?_⟩
  by_cases h1 : id ∈ (s.insertWaiters id wait_ids).rev_wait_txn_map_
  · exact .inr (by simpa [h1] using hc)
  · exact .inl h1

theorem IncrementWaiters_true {depth : Nat} (h : (s.IncrementWaiters id wait_ids depth).1 = true) :
    (s.IncrementWaiters id wait_ids depth).2 =
      (s.insertWaiters id wait_ids).DecrementWaitersImpl id wait_ids := by
  rw [IncrementWaiters_eq] at h ⊢
  split_ifs at h ⊢
  rfl

theorem WaitStep.counted {s' : WaitMaps} (hc : Counted s) : WaitStep s s' → Counted s'
  | .IncrementWaiters id wait_ids depth h => by
    cases hr : (s.IncrementWaiters id wait_ids depth).1
    · rw [(IncrementWaiters_false hr).1]
      exact hc.insertWaiters h wait_ids
    · rw [IncrementWaiters_true hr]
      exact (hc.insertWaiters h wait_ids).decrementWaitersImpl (lookup_insertWaiters_self s id wait_ids)
  | .DecrementWaiters id wait_ids h => hc.decrementWaitersImpl h

theorem WaitReachable.counted {s : WaitMaps} (h : WaitReachable s) : Counted s := by
  induction h with
  | empty => exact counted_empty
  | step _ hs ih => exact hs.counted ih

/-- a deadlock report takes back the `Insert` and the increments -/
theorem IncrementWaiters_restores {depth : Nat} (hc : Counted s) (h : id ∉ s.wait_txn_map_)
    (hr : (s.IncrementWaiters id wait_ids depth).1 = true) (x : TransactionID) :
    (s.IncrementWaiters id wait_ids depth).2.wait_txn_map_.lookup x = s.wait_txn_map_.lookup x ∧
      (s.IncrementWaiters id wait_ids depth).2.rev_wait_txn_map_.lookup x =
        s.rev_wait_txn_map_.lookup x := by
  have hsame : ∀ y, ((s.insertWaiters id wait_ids).DecrementWaitersImpl id
      wait_ids).wait_txn_map_.lookup y = s.wait_txn_map_.lookup y := by
    intro y
    by_cases hy : y = id
    · subst hy
      exact (AList.lookup_erase _ _).trans (AList.lookup_eq_none.mpr h).symm
    · exact (AList.lookup_erase_ne hy).trans (AList.lookup_insert_ne hy)
  rw [IncrementWaiters_true hr]
  refine ⟨hsame x, ?_⟩
  have hc' := (hc.insertWaiters h wait_ids).decrementWaitersImpl
    (lookup_insertWaiters_self s id wait_ids)
  -- the wait lists are those before the call, so the counts are as well
  have hcount : inCount ((s.insertWaiters id wait_ids).DecrementWaitersImpl id wait_ids).wait_txn_map_ x =
      inCount s.wait_txn_map_ x := by
    have he := inCount_erase (lookup_insertWaiters_self s id wait_ids) x
    simp only [insertWaiters] at he
    rw [inCount_insert h] at he
    simp only [DecrementWaitersImpl, insertWaiters]
    omega
  rw [hc' x, hcount, hc x]

/-- `IncrementWaiters` answers `false` only where the wait-for graph with the new edges has no
cycle through the waiting transaction -/
theorem IncrementWaiters_false_acyclic {depth : Nat} (hc : Counted s) (h : id ∉ s.wait_txn_map_)
    (hr : (s.IncrementWaiters id wait_ids depth).1 = false) :
    ¬ TransGen (Edge (s.wait_txn_map_.insert id wait_ids)) id id := by
  rcases (IncrementWaiters_false hr).2 with hnot | hsearch
  · -- nobody waits for `id`
    have hz := hc.insertWaiters h wait_ids id
    rw [AList.lookup_eq_none.mpr hnot, eq_comm, countEntry_eq_none] at hz
    exact not_transGen_of_inCount_eq_zero hz id
  · -- the search used up a queue closed under the successors of its entries
    obtain ⟨Q, hpre, hQ⟩ := searchWaiters_false depth 0 [] (some wait_ids) (by omega) le_rfl
      (Nat.zero_le _) hsearch
    intro hp
    have hroot : ∀ v ∈ succ (s.wait_txn_map_.insert id wait_ids) id, v ∈ Q := by
      intro v hv
      rw [succ_insert_self] at hv
      exact hpre.subset (by simpa using hv)
    have hid := mem_of_transGen hroot (fun u hu v hv => (hQ u (by simpa using hu)).2 v hv) hp
    exact (hQ id (by simpa using hid)).1 rfl

end Steps

/-- over every run of the calls `AcquireWithTimeout` makes: `rev_wait_txn_map_` holds the
occurrences of each transaction across the wait lists, none where there are none; a
`IncrementWaiters` that answers `false` leaves no cycle through the waiting transaction in the
wait-for graph with its new edges, and one that answers `true` leaves both maps as they were; and a
search whose queue has reached the depth answers `true` -/
theorem deadlock_detection_sound :
    (∀ s, WaitReachable s → ∀ x,
      s.rev_wait_txn_map_.lookup x = countEntry (inCount s.wait_txn_map_ x)) ∧
    (∀ s, WaitReachable s → ∀ id wait_ids depth, id ∉ s.wait_txn_map_ →
      (s.IncrementWaiters id wait_ids depth).1 = false →
      ¬ TransGen (Edge (s.wait_txn_map_.insert id wait_ids)) id id) ∧
    (∀ s, WaitReachable s → ∀ id wait_ids depth, id ∉ s.wait_txn_map_ →
      (s.IncrementWaiters id wait_ids depth).1 = true → ∀ x,
        (s.IncrementWaiters id wait_ids depth).2.wait_txn_map_.lookup x = s.wait_txn_map_.lookup x ∧
        (s.IncrementWaiters id wait_ids depth).2.rev_wait_txn_map_.lookup x =
          s.rev_wait_txn_map_.lookup x) ∧
    (∀ wait id depth remaining head queue next_ids, remaining + head = depth →
      depth ≤ (fillQueue depth queue next_ids).length →
      searchWaiters wait id depth remaining head queue next_ids = true) :=
  ⟨fun _ hs => hs.counted,
   fun _ hs _ _ _ h hr => IncrementWaiters_false_acyclic hs.counted h hr,
   fun _ hs _ _ _ h hr => IncrementWaiters_restores hs.counted h hr,
   fun _ _ _ => searchWaiters_of_full⟩

/-- transaction 2 waits for 1; then 1 waiting for 2 closes a cycle, which is reported and taken
back, while 3 waiting for 2 is not a deadlock -/
theorem deadlock_detection_sound_two_waiters :
    ((empty.IncrementWaiters 2 [1] 50).2.IncrementWaiters 1 [2] 50).1 = true ∧
      ((empty.IncrementWaiters 2 [1] 50).2.IncrementWaiters 1 [2] 50).2.wait_txn_map_.lookup 2 =
        some [1] ∧
      ((empty.IncrementWaiters 2 [1] 50).2.IncrementWaiters 3 [2] 50).1 = false ∧
      ¬ TransGen (Edge ((empty.IncrementWaiters 2 [1] 50).2.wait_txn_map_.insert 3 [2])) 3 3 := by
  have hr : WaitReachable (empty.IncrementWaiters 2 [1] 50).2 :=
    .step .empty (.IncrementWaiters 2 [1] 50 (by decide))
  have h1 : ((empty.IncrementWaiters 2 [1] 50).2.IncrementWaiters 1 [2] 50).1 = true := by decide
  have h3 : ((empty.IncrementWaiters 2 [1] 50).2.IncrementWaiters 3 [2] 50).1 = false := by decide
  refine ⟨h1, ?_, h3, deadlock_detection_sound.2.1 _ hr 3 [2] 50 (by decide) h3⟩
  rw [(deadlock_detection_sound.2.2.1 _ hr 1 [2] 50 (by decide) h1 2).1]
  decide

end WaitMaps

end RocksDB
