import RocksDB.Transactions.TransactionImpl

/-!
# A pessimistic transaction's locks mirror its tracked keys

One transaction `T` runs `TryLock` (through `Put`, `Merge`, `Delete`, `SingleDelete`, their
untracked forms and `GetForUpdate`), `UndoGetForUpdate`, `SetSavePoint` and `RollbackToSavePoint`,
while the other transactions lock and unlock keys of the same lock table and column families are
added.  The snapshot of `T` is fixed, and no column family is dropped.

* `OtherStep`, `TxnStep`, `TxnReachable`  the runs; `expiring` says whether the other
                             transactions may carry an expiration time;
* `TxnInv`                   what every step keeps where no lock expires: the lock table's own
                             invariant, the locks of `T` as its tracked keys say, the lock maps of
                             the families it tracks, its bookkeeping of save points, and the
                             sequence numbers of shared keys at or below the snapshot (so that an
                             upgrade never fails validation);
* `TryLock_ends`             `TryLock` refused leaves `T` and its locks, granted it tracks the key
                             and holds it in the tracked mode;
* `TrackedLocks`             the mirror, refusals that change nothing, and `Clear` that returns
                             and releases every lock; `tracked_locks_mirror` proves it of every
                             reachable state.

`tracked_lock_stolen` is a run in which another transaction takes over a shared lock `T` holds
together with a transaction whose lock expired: `TryStealingExpiredTransactionLocks` answers
`true` for a transaction that is not expirable, and `T` goes on tracking a key it no longer holds.
-/

namespace RocksDB

open TransactionLockMgr TransactionKeyMap TransactionBaseImpl

/-- one pessimistic transaction with the lock table it shares with the other transactions -/
structure TxnSystem where
  txn : TransactionImpl
  mgr : TransactionLockMgr

/-- the requests the other transactions make on the shared lock table, and new column families;
with `expiring = false` their requests carry no expiration time -/
inductive OtherStep (T : TransactionID) (expiring : Bool) :
    TransactionLockMgr → TransactionLockMgr → Prop
  | AddColumnFamily (mgr : TransactionLockMgr) (cf : UInt32) :
      OtherStep T expiring mgr (mgr.AddColumnFamily cf)
  | TryLock {mgr mgr' : TransactionLockMgr} (env : LockEnv) (txn : TransactionID) (time : Nat)
      (cf : UInt32) (key : List UInt8) (exclusive : Bool) (s : Status) (w : List TransactionID) :
      txn ≠ T → (expiring = false → time = 0) → mgr.NoReRequest txn cf key exclusive →
      mgr.TryLock txn time cf key env exclusive = some (s, w, mgr') → OtherStep T expiring mgr mgr'
  | UnLock {mgr mgr' : TransactionLockMgr} (txn : TransactionID) (cf : UInt32) (key : List UInt8) :
      txn ≠ T → mgr.UnLock txn cf key = some mgr' → OtherStep T expiring mgr mgr'
  | UnLockKeyMap {mgr mgr' : TransactionLockMgr} (txn : TransactionID) (key_map : KeyMap) :
      txn ≠ T → mgr.UnLockKeyMap txn key_map = some mgr' → OtherStep T expiring mgr mgr'

/-- a step of the transaction, one operation that returns, or a step of the others -/
inductive TxnStep (expiring : Bool) : TxnSystem → TxnSystem → Prop
  | TryLock {sys : TxnSystem} {s : Status} {txn' : TransactionImpl} {mgr' : TransactionLockMgr}
      (op : KeyOp) (outcome : LockOutcome) (latest : Nat) (conflict : Status) (cf : UInt32)
      (key : List UInt8) :
      sys.txn.TryLock sys.mgr outcome latest conflict cf key op.read_only op.exclusive
        op.untracked = some (s, txn', mgr') → TxnStep expiring sys ⟨txn', mgr'⟩
  | UndoGetForUpdate {sys : TxnSystem} {txn' : TransactionImpl} {mgr' : TransactionLockMgr}
      (cf : UInt32) (key : List UInt8) : (sys.mgr.lock_maps_ cf).isSome →
      sys.txn.UndoGetForUpdate sys.mgr cf key = some (txn', mgr') → TxnStep expiring sys ⟨txn', mgr'⟩
  | SetSavePoint (sys : TxnSystem) : TxnStep expiring sys ⟨sys.txn.SetSavePoint, sys.mgr⟩
  | RollbackToSavePoint {sys : TxnSystem} {s : Status} {txn' : TransactionImpl}
      {mgr' : TransactionLockMgr} :
      sys.txn.RollbackToSavePoint sys.mgr = some (s, txn', mgr') → TxnStep expiring sys ⟨txn', mgr'⟩
  | other {sys : TxnSystem} {mgr' : TransactionLockMgr} :
      OtherStep sys.txn.txn_id_ expiring sys.mgr mgr' → TxnStep expiring sys ⟨sys.txn, mgr'⟩

/-- the states from a transaction without expiration that has just begun, with a snapshot or
none, on a lock table in which it holds nothing -/
inductive TxnReachable (expiring : Bool) : TxnSystem → Prop
  | start (txn_id : TransactionID) (snapshot : Option Nat) (mgr : TransactionLockMgr) :
      mgr.Inv → (∀ cf key, mgr.lockOf txn_id cf key = none) →
      TxnReachable expiring ⟨⟨⟨snapshot, [], ∅, 0, 0, 0⟩, txn_id, 0⟩, mgr⟩
  | step {sys sys' : TxnSystem} :
      TxnReachable expiring sys → TxnStep expiring sys sys' → TxnReachable expiring sys'

/-- what the steps keep where no lock expires -/
structure TxnInv (sys : TxnSystem) : Prop where
  lock_inv : sys.mgr.Inv
  mirror : ∀ cf key,
    sys.mgr.lockOf sys.txn.txn_id_ cf key = (sys.txn.tracked_keys_.find cf key).map (·.exclusive)
  no_expiration : sys.txn.expiration_time_ = 0
  consistent : sys.txn.toTransactionBaseImpl.Consistent
  tracked_lock_maps : ∀ c ∈ sys.txn.tracked_keys_, (sys.mgr.lock_maps_ c).isSome
  saved_lock_maps : ∀ sp ∈ sys.txn.save_points_, ∀ c ∈ sp.new_keys_, (sys.mgr.lock_maps_ c).isSome
  shared_seq : ∀ cf key info S, sys.txn.tracked_keys_.find cf key = some info →
    info.exclusive = false → sys.txn.snapshot_ = some S → info.seq ≤ S

/-! ## The steps of the others -/

section Other

variable {T : TransactionID} {expiring : Bool} {mgr mgr' : TransactionLockMgr}

/-- where no lock expires, a step of the others is a step of the lock table -/
theorem OtherStep.lockStep (h : OtherStep T false mgr mgr') : LockStep mgr mgr' := by
  cases h with
  | AddColumnFamily cf => exact .AddColumnFamily mgr cf
  | TryLock env txn time cf key ex s w _ htime hre ht =>
    rw [htime rfl] at ht
    exact .TryLock env txn cf key ex s w hre ht
  | UnLock txn cf key _ hu => exact .UnLock txn cf key hu
  | UnLockKeyMap txn key_map _ hu => exact .UnLockKeyMap txn key_map hu

/-- the others leave the locks of `T` -/
theorem OtherStep.lockOf_eq (hinv : mgr.Inv) (h : OtherStep T expiring mgr mgr') (c : UInt32)
    (k : List UInt8) : mgr'.lockOf T c k = mgr.lockOf T c k := by
  cases h with
  | AddColumnFamily cf => simp only [TransactionLockMgr.lockOf, lockInfo?_AddColumnFamily]
  | TryLock env txn time cf key ex s w hne _ _ ht => exact TryLock_lockOf_other hinv hne ht c k
  | UnLock txn cf key hne hu => rw [UnLock_lockOf hinv hu, if_neg fun h' => hne h'.2.2.symm]
  | UnLockKeyMap txn key_map hne hu => exact UnLockKeyMap_lockOf_other hinv hne hu c k

/-- no lock map goes: no column family is dropped -/
theorem OtherStep.lock_maps_isSome (h : OtherStep T expiring mgr mgr') (c : UInt32)
    (hc : (mgr.lock_maps_ c).isSome) : (mgr'.lock_maps_ c).isSome := by
  cases h with
  | AddColumnFamily cf => exact AddColumnFamily_lock_maps_ _ cf c hc
  | TryLock env txn time cf key ex s w _ _ _ ht => rwa [TryLock_lock_maps_ ht]
  | UnLock txn cf key _ hu => rwa [UnLock_lock_maps_ hu]
  | UnLockKeyMap txn key_map _ hu => rwa [UnLockKeyMap_lock_maps_ hu]

end Other

/-! ## `TryLock` of the transaction -/

namespace TransactionImpl

theorem ValidateSnapshot_of_le {S prev new : Nat} {conflict : Status} (h : prev ≤ S) :
    ValidateSnapshot S prev conflict new = (.OK, new) :=
  if_pos h

/-- a key validated with no earlier sequence number than the one it starts from is tracked at
or below the snapshot -/
theorem ValidateSnapshot_snd_le (S prev : Nat) (conflict : Status) :
    (ValidateSnapshot S prev conflict prev).2 ≤ S := by
  unfold ValidateSnapshot
  split <;> simp_all

section Check

variable {txn : TransactionImpl} {m1 m2 : TransactionLockMgr} {outcome : LockOutcome}
  {latest : Nat} {conflict s1 s2 : Status} {cf : UInt32} {key : List UInt8}
  {untracked pl lu : Bool} {cur seq : Nat}

/-- what `checkSnapshot` answers: the lock call's status and table where it checks no snapshot or
the call failed; else the validation's status and sequence number, and a fresh lock that fails
the validation is given up again (the downgrade branch needs an upgrade that was not locked
before, and there is none) -/
theorem checkSnapshot_eq_some (hlu : lu = true → pl = true)
    (h : txn.checkSnapshot m1 outcome latest conflict cf key untracked pl lu cur s1 =
      some (s2, seq, m2)) :
    (s2 = s1 ∧ m2 = m1 ∧ (s1.ok = true → untracked = true ∨ txn.snapshot_ = none)) ∨
    ∃ S, txn.snapshot_ = some S ∧ untracked = false ∧ s1.ok = true ∧
      s2 = (ValidateSnapshot S cur conflict kMaxSequenceNumber).1 ∧
      seq = (ValidateSnapshot S cur conflict kMaxSequenceNumber).2 ∧
      if s2.ok = false ∧ pl = false then m1.UnLock txn.txn_id_ cf key = some m2 else m2 = m1 := by
  unfold checkSnapshot at h
  by_cases hno : (untracked || txn.snapshot_.isNone) = true
  · rw [if_pos hno, Option.some.injEq, Prod.mk.injEq, Prod.mk.injEq] at h
    refine .inl ⟨h.1.symm, h.2.2.symm, fun _ => ?_⟩
    simpa [Option.isNone_iff_eq_none] using hno
  rw [if_neg hno] at h
  simp only [Bool.or_eq_true, Option.isNone_iff_eq_none, not_or, Bool.not_eq_true] at hno
  obtain ⟨S, hS⟩ := Option.ne_none_iff_exists'.mp hno.2
  by_cases hs1 : s1.ok = true
  · rw [if_pos hs1] at h
    dsimp only at h
    rw [hS, Option.getD_some] at h
    refine .inr ⟨S, hS, hno.1, hs1, ?_⟩
    split at h
    · rename_i hfail
      simp only [Bool.and_eq_true, Bool.not_eq_true'] at hfail
      -- an upgrade was locked before, so only the release is left
      rw [if_neg fun hl => by simp [hlu hl] at hfail] at h
      obtain ⟨m, hm, he⟩ := Option.map_eq_some_iff.mp h
      simp only [Prod.mk.injEq] at he
      obtain ⟨rfl, rfl, rfl⟩ := he
      exact ⟨rfl, rfl, by rw [if_pos ⟨hfail.1, hfail.2⟩]; exact hm⟩
    · rename_i hpass
      rw [Option.some.injEq, Prod.mk.injEq, Prod.mk.injEq] at h
      obtain ⟨rfl, rfl, rfl⟩ := h
      refine ⟨rfl, rfl, ?_⟩
      rw [if_neg]
      simpa [Bool.and_eq_true] using hpass
  · rw [if_neg hs1, Option.some.injEq, Prod.mk.injEq, Prod.mk.injEq] at h
    exact .inl ⟨h.1.symm, h.2.2.symm, fun h' => absurd h' hs1⟩

end Check

end TransactionImpl

/-- the ends of `TryLock` for `txn`: the lock table keeps its invariant and its lock maps, and
either the request was refused, with `txn` and its locks as they were, or granted, with the key
tracked, at a sequence number at or below the snapshot where it is new and shared, and held in
the mode it is now tracked in -/
def TryLockEnds (txn : TransactionImpl) (mgr : TransactionLockMgr) (cf : UInt32) (key : List UInt8)
    (read_only exclusive : Bool) (s : Status) (txn' : TransactionImpl) (mgr' : TransactionLockMgr) :
    Prop :=
  mgr'.Inv ∧ (∀ c, (mgr'.lock_maps_ c).isSome = (mgr.lock_maps_ c).isSome) ∧
  ((s.ok = false ∧ txn' = txn ∧ ∀ c k, mgr'.lockOf txn.txn_id_ c k = mgr.lockOf txn.txn_id_ c k) ∨
   (s.ok = true ∧ (mgr.lock_maps_ cf).isSome ∧ ∃ seq,
      txn' = { txn with
        toTransactionBaseImpl := txn.toTransactionBaseImpl.TrackKey cf key seq read_only exclusive } ∧
      (∀ S, txn.snapshot_ = some S → txn.tracked_keys_.find cf key = none → exclusive = false →
        seq ≤ S) ∧
      ∀ c k, mgr'.lockOf txn.txn_id_ c k =
        if c = cf ∧ k = key then
          some (((txn.tracked_keys_.find cf key).map (·.exclusive)).getD false || exclusive)
        else mgr.lockOf txn.txn_id_ c k))

section TryLock

variable {sys : TxnSystem} {txn txn' : TransactionImpl} {mgr m2 mgr' : TransactionLockMgr}
  {outcome : LockOutcome} {latest : Nat} {conflict : Status} {cf : UInt32} {key : List UInt8}
  {read_only exclusive untracked : Bool} {s s2 : Status} {seq : Nat}

/-- the ends of `TryLock` read off the answer of its check -/
theorem tryLockEnds_of_check (hinv : m2.Inv)
    (hlm : ∀ c, (m2.lock_maps_ c).isSome = (mgr.lock_maps_ c).isSome)
    (hno : s2.ok = false → ∀ c k, m2.lockOf txn.txn_id_ c k = mgr.lockOf txn.txn_id_ c k)
    (hyes : s2.ok = true → (mgr.lock_maps_ cf).isSome ∧
      (∀ S, txn.snapshot_ = some S → txn.tracked_keys_.find cf key = none → exclusive = false →
        seq ≤ S) ∧
      m2.lockOf txn.txn_id_ cf key =
        some (((txn.tracked_keys_.find cf key).map (·.exclusive)).getD false || exclusive) ∧
      ∀ c k, ¬(c = cf ∧ k = key) → m2.lockOf txn.txn_id_ c k = mgr.lockOf txn.txn_id_ c k) :
    TryLockEnds txn mgr cf key read_only exclusive s2
      (if s2.ok then { txn with
        toTransactionBaseImpl := txn.toTransactionBaseImpl.TrackKey cf key seq read_only exclusive }
       else txn) m2 := by
  refine ⟨hinv, hlm, ?_⟩
  cases hs : s2.ok
  · exact .inl ⟨rfl, rfl, hno hs⟩
  · obtain ⟨hcf, hseq, hself, hother⟩ := hyes hs
    refine .inr ⟨rfl, hcf, seq, rfl, hseq, fun c k => ?_⟩
    by_cases hck : c = cf ∧ k = key
    · rw [if_pos hck, hck.1, hck.2, hself]
    · rw [if_neg hck, hother c k hck]

/-- what the lock call leaves for the other keys, read through `lockOf` -/
theorem lockOf_of_lockInfo? {m1 : TransactionLockMgr} {T : TransactionID}
    (h : ∀ c k, ¬(c = cf ∧ k = key) → m1.lockInfo? c k = mgr.lockInfo? c k) :
    ∀ c k, ¬(c = cf ∧ k = key) → m1.lockOf T c k = mgr.lockOf T c k := by
  intro c k hck
  unfold TransactionLockMgr.lockOf
  rw [h c k hck]

/-- `TryLock` of the transaction: refused it changes nothing for `T`, granted it tracks the key
and holds it in the mode it is tracked in.  A shared request is never untracked. -/
theorem TryLock_ends (hI : TxnInv sys) (hop : exclusive = false → untracked = false)
    (h : sys.txn.TryLock sys.mgr outcome latest conflict cf key read_only exclusive untracked =
      some (s, txn', mgr')) :
    TryLockEnds sys.txn sys.mgr cf key read_only exclusive s txn' mgr' := by
  unfold TransactionImpl.TryLock at h
  dsimp only at h
  obtain ⟨⟨s1, m1⟩, hl, hc⟩ := Option.bind_eq_some_iff.mp h
  obtain ⟨⟨s2, seq, m2⟩, hcs, hr⟩ := Option.map_eq_some_iff.mp hc
  have hres : (s2, if s2.ok then { sys.txn with
      toTransactionBaseImpl := sys.txn.toTransactionBaseImpl.TrackKey cf key seq read_only
        exclusive } else sys.txn, m2) = (s, txn', mgr') := by
    rw [← hr]; dsimp only; split <;> rfl
  simp only [Prod.mk.injEq] at hres
  obtain ⟨rfl, rfl, rfl⟩ := hres
  rw [hI.no_expiration] at hl
  have hmirror := hI.mirror cf key
  cases hf : sys.txn.tracked_keys_.find cf key with
  | none =>
    -- a new key: locked, then validated against the snapshot, and released if that fails
    have hst : sys.txn.lockState cf key exclusive = (false, false, kMaxSequenceNumber) := by
      simp [TransactionImpl.lockState, hf]
    simp only [hst, Bool.not_false, Bool.true_or, ↓reduceIte] at hl hcs
    rw [hf] at hmirror
    obtain ⟨hinv1, hlm1, hother1, hfail1, hok1⟩ :=
      LockOutcome.run_spec hI.lock_inv (noReRequest_of_lockOf (.inl hmirror)) hl
    have hother := lockOf_of_lockInfo? (T := sys.txn.txn_id_) hother1
    have hself : s1.ok = true → m1.lockOf sys.txn.txn_id_ cf key =
        some (((sys.txn.tracked_keys_.find cf key).map (·.exclusive)).getD false || exclusive) :=
      fun hs => by simpa [hf] using (hok1 hs).1
    rcases TransactionImpl.checkSnapshot_eq_some id hcs with
      ⟨rfl, rfl, hnone⟩ | ⟨S, hS, hu, hs1, rfl, rfl, hm⟩
    · refine tryLockEnds_of_check hinv1 hlm1 (fun hs c k => by rw [hfail1 hs]) fun hs =>
        ⟨(hok1 hs).2, fun S' hS' _ hex => ?_, hself hs, hother⟩
      rcases hnone hs with hu | hn
      · simp [hop hex] at hu
      · simp [hn] at hS'
    · split at hm
      · rename_i hfail
        refine tryLockEnds_of_check ((LockStep.UnLock _ _ _ hm).inv hinv1)
          (fun c => by rw [UnLock_lock_maps_ hm, hlm1]) (fun _ c k => ?_)
          (fun hs => by simp [hfail.1] at hs)
        rw [UnLock_lockOf hinv1 hm]
        by_cases hck : c = cf ∧ k = key
        · rw [if_pos ⟨hck.1, hck.2, rfl⟩, hck.1, hck.2, hmirror]
          rfl
        · rw [if_neg fun h' => hck ⟨h'.1, h'.2.1⟩, hother c k hck]
      · rename_i hpass
        subst hm
        refine tryLockEnds_of_check hinv1 hlm1 (fun hs => by simp [hs] at hpass) fun _ =>
          ⟨(hok1 hs1).2, fun S' hS' _ _ => ?_, hself hs1, hother⟩
        rw [hS, Option.some.injEq] at hS'
        subst hS'
        exact TransactionImpl.ValidateSnapshot_snd_le S _ conflict
  | some info =>
    have hst : sys.txn.lockState cf key exclusive =
        (true, !info.exclusive && exclusive, info.seq) := by
      simp [TransactionImpl.lockState, hf]
    simp only [hst, Bool.not_true, Bool.false_or] at hl hcs
    rw [hf] at hmirror
    have hnew : ∀ n S, sys.txn.snapshot_ = some S → sys.txn.tracked_keys_.find cf key = none →
        exclusive = false → n ≤ S := fun _ _ _ hn => by rw [hf] at hn; cases hn
    by_cases hup : (!info.exclusive && exclusive) = true
    · -- an upgrade: locked exclusive; the key was validated at or below the snapshot when it was
      -- locked shared, so the validation passes again
      simp only [Bool.and_eq_true, Bool.not_eq_true'] at hup
      rw [if_pos (by simp [hup])] at hl
      obtain ⟨hinv1, hlm1, hother1, hfail1, hok1⟩ := LockOutcome.run_spec hI.lock_inv
        (noReRequest_of_lockOf (.inr (by simp [hmirror, hup.1, hup.2]))) hl
      have hother := lockOf_of_lockInfo? (T := sys.txn.txn_id_) hother1
      have hself : s1.ok = true → m1.lockOf sys.txn.txn_id_ cf key =
          some (((sys.txn.tracked_keys_.find cf key).map (·.exclusive)).getD false || exclusive) :=
        fun hs => by simpa [hf, hup.2] using (hok1 hs).1
      rcases TransactionImpl.checkSnapshot_eq_some (fun _ => rfl) hcs with
        ⟨rfl, rfl, -⟩ | ⟨S, hS, -, hs1, rfl, rfl, hm⟩
      · exact tryLockEnds_of_check hinv1 hlm1 (fun hs c k => by rw [hfail1 hs])
          fun hs => ⟨(hok1 hs).2, hnew _, hself hs, hother⟩
      · rw [TransactionImpl.ValidateSnapshot_of_le (hI.shared_seq cf key info S hf hup.1 hS)]
          at hm ⊢
        rw [if_neg (by simp)] at hm
        subst hm
        exact tryLockEnds_of_check hinv1 hlm1 (fun hs => by simp at hs)
          fun _ => ⟨(hok1 hs1).2, hnew _, hself hs1, hother⟩
    · -- held in the mode asked for or a stronger one: no lock call
      rw [if_neg (by simpa using hup), Option.some.injEq, Prod.mk.injEq] at hl
      obtain ⟨rfl, rfl⟩ := hl
      have hm2 : m2 = sys.mgr := by
        rcases TransactionImpl.checkSnapshot_eq_some (fun h' => absurd h' hup) hcs with
          ⟨-, rfl, -⟩ | ⟨S, -, -, -, -, -, hm⟩
        · rfl
        · simpa using hm
      subst hm2
      refine tryLockEnds_of_check hI.lock_inv (fun _ => rfl) (fun _ _ _ => rfl) fun _ =>
        ⟨hI.tracked_lock_maps cf (mem_of_find_eq_some hf), hnew _, ?_, fun _ _ _ => rfl⟩
      rw [hmirror, hf]
      cases hx : info.exclusive <;> cases exclusive <;> simp_all

end TryLock

/-! ## What each step keeps -/

section Steps

variable {sys : TxnSystem} {txn' : TransactionImpl} {mgr' : TransactionLockMgr}

theorem TxnInv.tryLock {outcome : LockOutcome} {latest : Nat} {conflict s : Status} {cf : UInt32}
    {key : List UInt8} {read_only exclusive untracked : Bool} (hI : TxnInv sys)
    (hop : exclusive = false → untracked = false)
    (h : sys.txn.TryLock sys.mgr outcome latest conflict cf key read_only exclusive untracked =
      some (s, txn', mgr')) : TxnInv ⟨txn', mgr'⟩ := by
  obtain ⟨hinv, hlm, ⟨-, rfl, hsame⟩ | ⟨-, hcf, seq, rfl, hseq, hlock⟩⟩ := TryLock_ends hI hop h
  · exact ⟨hinv, fun c k => (hsame c k).trans (hI.mirror c k), hI.no_expiration, hI.consistent,
      fun c hc => (hlm c).trans (hI.tracked_lock_maps c hc),
      fun sp hsp c hc => (hlm c).trans (hI.saved_lock_maps sp hsp c hc), hI.shared_seq⟩
  · refine ⟨hinv, fun c k => ?_, hI.no_expiration, hI.consistent.trackKey cf key seq read_only
      exclusive, fun c hc => ?_, fun sp hsp c hc => ?_, fun c k info S hfind hex hS => ?_⟩
    · -- the key takes the mode of its record; every other key keeps both
      show mgr'.lockOf sys.txn.txn_id_ c k =
        ((sys.txn.tracked_keys_.TrackKey cf key seq read_only exclusive).find c k).map (·.exclusive)
      rw [hlock, find_TrackKey]
      by_cases hck : c = cf ∧ k = key
      · rw [if_pos hck, if_pos hck, Option.map_some, TransactionKeyMapInfo.track_exclusive]
      · rw [if_neg hck, if_neg hck]
        exact hI.mirror c k
    · rcases (mem_TrackKey _ _ _ _ _ _ c).mp hc with rfl | hc
      · exact (hlm c).trans hcf
      · exact (hlm c).trans (hI.tracked_lock_maps c hc)
    · rcases mem_TrackKey_save_points_ cf key seq read_only exclusive hsp with
        hsp | ⟨sp₀, hsp₀, -, he⟩
      · exact (hlm c).trans (hI.saved_lock_maps sp hsp c hc)
      · rw [he] at hc
        rcases (mem_TrackKey _ _ _ _ _ _ c).mp hc with rfl | hc
        · exact (hlm c).trans hcf
        · exact (hlm c).trans (hI.saved_lock_maps sp₀ hsp₀ c hc)
    · -- a shared record was shared before, or is new and validated at or below the snapshot
      change (sys.txn.tracked_keys_.TrackKey cf key seq read_only exclusive).find c k = some info
        at hfind
      rw [find_TrackKey] at hfind
      split at hfind
      · rename_i hck
        obtain ⟨rfl, rfl⟩ := hck
        rw [Option.some.injEq] at hfind
        subst hfind
        simp only [TransactionKeyMapInfo.track_exclusive, Bool.or_eq_false_iff] at hex
        rw [TransactionKeyMapInfo.track_seq]
        cases hold : sys.txn.tracked_keys_.find c k with
        | none => simpa using hseq S hS hold hex.2
        | some old =>
          have := hI.shared_seq c k old S hold (by simpa [hold] using hex.1) hS
          simp only [Option.map_some, Option.getD_some]
          omega
      · exact hI.shared_seq c k info S hfind hex hS

theorem TxnInv.undoGetForUpdate {cf : UInt32} {key : List UInt8} (hI : TxnInv sys)
    (hcf : (sys.mgr.lock_maps_ cf).isSome)
    (h : sys.txn.UndoGetForUpdate sys.mgr cf key = some (txn', mgr')) : TxnInv ⟨txn', mgr'⟩ := by
  unfold TransactionImpl.UndoGetForUpdate at h
  have hcons := hI.consistent.undoGetForUpdate cf key
  -- the save point half adds at most the entry of the column family
  have hsaved : ∀ sp ∈ (undoSavePointRead cf key sys.txn.save_points_).1, ∀ c ∈ sp.new_keys_,
      (sys.mgr.lock_maps_ c).isSome := fun sp hsp c hc => by
    rcases mem_undoSavePointRead cf key _ hsp hc with rfl | ⟨sp₀, hsp₀, hc₀⟩
    · exact hcf
    · exact hI.saved_lock_maps sp₀ hsp₀ c hc₀
  have hensure : ∀ c ∈ sys.txn.tracked_keys_.ensureCf cf, (sys.mgr.lock_maps_ c).isSome :=
    fun c hc => by
      rcases (mem_ensureCf _ _ c).mp hc with rfl | hc
      · exact hcf
      · exact hI.tracked_lock_maps c hc
  rcases UndoGetForUpdate_cases cf key sys.txn.toTransactionBaseImpl with
    ⟨he, -⟩ | ⟨t', unlock, -, hu, he⟩
  · -- no read taken back from the tracked keys
    rw [he] at h hcons
    simp only [Bool.false_eq_true, if_false, Option.some.injEq, Prod.mk.injEq] at h
    obtain ⟨rfl, rfl⟩ := h
    refine ⟨hI.lock_inv, fun c k => ?_, hI.no_expiration, hcons, hensure, hsaved,
      fun c k info S hfind => ?_⟩
    · show sys.mgr.lockOf sys.txn.txn_id_ c k =
        ((sys.txn.tracked_keys_.ensureCf cf).find c k).map (·.exclusive)
      rw [find_ensureCf]
      exact hI.mirror c k
    · change (sys.txn.tracked_keys_.ensureCf cf).find c k = some info at hfind
      rw [find_ensureCf] at hfind
      exact hI.shared_seq c k info S hfind
  · -- one read taken back; the key leaves the tracked keys exactly when it is unlocked
    obtain ⟨info, hfi, -, hunlock, hfind⟩ := undoRead_eq_some hu
    rw [find_ensureCf] at hfi
    rw [he] at h hcons
    have ht' : ∀ c ∈ t', (sys.mgr.lock_maps_ c).isSome := fun c hc => by
      rcases mem_undoRead hu c hc with rfl | hc
      · exact hcf
      · exact hensure c hc
    have hseq : ∀ c k x S, t'.find c k = some x → x.exclusive = false →
        sys.txn.snapshot_ = some S → x.seq ≤ S := fun c k x S hx hex hS => by
      rw [hfind] at hx
      split at hx
      · rename_i hck
        obtain ⟨rfl, rfl⟩ := hck
        obtain ⟨hx1, hx2⟩ := undoReadEntry_eq_some hx
        rw [hx2]
        exact hI.shared_seq c k info S hfi (hx1 ▸ hex) hS
      · rw [find_ensureCf] at hx
        exact hI.shared_seq c k x S hx hex hS
    cases unlock with
    | false =>
      simp only [Bool.false_eq_true, if_false, Option.some.injEq, Prod.mk.injEq] at h
      obtain ⟨rfl, rfl⟩ := h
      have hkept : undoReadEntry info ≠ none := fun hn => Bool.false_ne_true (hunlock.mpr hn)
      obtain ⟨x, hx⟩ := Option.ne_none_iff_exists'.mp hkept
      refine ⟨hI.lock_inv, fun c k => ?_, hI.no_expiration, hcons, ht', hsaved, hseq⟩
      show sys.mgr.lockOf sys.txn.txn_id_ c k = (t'.find c k).map (·.exclusive)
      rw [hfind, hI.mirror]
      by_cases hck : c = cf ∧ k = key
      · rw [if_pos hck, hck.1, hck.2, hfi, hx, Option.map_some, Option.map_some,
          (undoReadEntry_eq_some hx).1]
      · rw [if_neg hck, find_ensureCf]
    | true =>
      simp only [if_true] at h
      obtain ⟨m, hm, he'⟩ := Option.map_eq_some_iff.mp h
      simp only [Prod.mk.injEq] at he'
      obtain ⟨rfl, rfl⟩ := he'
      have hlm := UnLock_lock_maps_ hm
      refine ⟨(LockStep.UnLock _ _ _ hm).inv hI.lock_inv, fun c k => ?_, hI.no_expiration, hcons,
        fun c hc => (hlm c).trans (ht' c hc),
        fun sp hsp c hc => (hlm c).trans (hsaved sp hsp c hc), hseq⟩
      show m.lockOf sys.txn.txn_id_ c k = (t'.find c k).map (·.exclusive)
      rw [UnLock_lockOf hI.lock_inv hm, hfind]
      by_cases hck : c = cf ∧ k = key
      · rw [if_pos ⟨hck.1, hck.2, rfl⟩, if_pos hck, hunlock.mp rfl]
        rfl
      · rw [if_neg fun h' => hck ⟨h'.1, h'.2.1⟩, if_neg hck, find_ensureCf]
        exact hI.mirror c k

theorem TxnInv.setSavePoint (hI : TxnInv sys) : TxnInv ⟨sys.txn.SetSavePoint, sys.mgr⟩ where
  lock_inv := hI.lock_inv
  mirror := hI.mirror
  no_expiration := hI.no_expiration
  consistent := hI.consistent.setSavePoint
  tracked_lock_maps := hI.tracked_lock_maps
  saved_lock_maps := fun sp hsp c hc => by
    rcases List.mem_cons.mp hsp with rfl | hsp
    · exact absurd hc (by simp)
    · exact hI.saved_lock_maps sp hsp c hc
  shared_seq := hI.shared_seq

theorem TxnInv.rollbackToSavePoint {s : Status} (hI : TxnInv sys)
    (h : sys.txn.RollbackToSavePoint sys.mgr = some (s, txn', mgr')) : TxnInv ⟨txn', mgr'⟩ := by
  unfold TransactionImpl.RollbackToSavePoint at h
  cases hsp : sys.txn.save_points_ with
  | nil =>
    -- no save point: `NotFound`, and nothing changes
    have hg : sys.txn.GetTrackedKeysSinceSavePoint = none := by
      simp [GetTrackedKeysSinceSavePoint, hsp]
    have hr : sys.txn.toTransactionBaseImpl.RollbackToSavePoint =
        (.NotFound, sys.txn.toTransactionBaseImpl) := by
      simp [TransactionBaseImpl.RollbackToSavePoint, hsp]
    simp only [hg, hr, Option.map_some, Option.some.injEq, Prod.mk.injEq] at h
    obtain ⟨-, rfl, rfl⟩ := h
    exact hI
  | cons sp rest =>
    -- the keys tracked only since the save point are unlocked, then dropped from the tracked keys
    obtain ⟨since, hsince, -⟩ := find_GetTrackedKeysSinceSavePoint hsp 0 []
    simp only [hsince] at h
    obtain ⟨m, hU, he⟩ := Option.map_eq_some_iff.mp h
    simp only [Prod.mk.injEq] at he
    obtain ⟨-, rfl, rfl⟩ := he
    obtain ⟨-, hsnap, hrest⟩ := RollbackToSavePoint_eq hsp
    have hsp_mem : sp ∈ sys.txn.save_points_ := by rw [hsp]; exact List.mem_cons_self
    have hall : ∀ e ∈ since.keyMap, (sys.mgr.lock_maps_ e.1).isSome := fun e he =>
      hI.tracked_lock_maps _ (mem_GetTrackedKeysSinceSavePoint hsince (mem_keyMap_fst he))
    have hlm := UnLockKeyMap_lock_maps_ hU
    refine ⟨(LockStep.UnLockKeyMap _ _ hU).inv hI.lock_inv, fun c k => ?_, hI.no_expiration,
      hI.consistent.rollbackToSavePoint hsp, fun c hc => ?_, fun sp' hsp' c hc => ?_,
      fun c k x S hx hex hS => ?_⟩
    · show m.lockOf sys.txn.txn_id_ c k =
        (sys.txn.toTransactionBaseImpl.RollbackToSavePoint.2.tracked_keys_.find c k).map
          (·.exclusive)
      rw [UnLockKeyMap_lockOf_self hI.lock_inv hU hall, has_keyMap,
        exclusive_RollbackToSavePoint hsp hsince, hI.mirror]
    · rcases mem_RollbackToSavePoint hsp hc with hc | hc
      · exact (hlm c).trans (hI.tracked_lock_maps c hc)
      · exact (hlm c).trans (hI.saved_lock_maps sp hsp_mem c hc)
    · have hsp'' : sp' ∈ sys.txn.save_points_ := by
        rw [hsp]; exact List.mem_cons_of_mem _ (hrest ▸ hsp')
      exact (hlm c).trans (hI.saved_lock_maps sp' hsp'' c hc)
    · -- a record that stays is an old one; the snapshot is the save point's, that is the same
      obtain ⟨old, hold, hx1, hx2⟩ := find_RollbackToSavePoint_eq_some hsp hx
      have hS' : sys.txn.snapshot_ = some S := by
        rw [← hI.consistent.snapshots sp hsp_mem, ← hsnap]; exact hS
      rw [hx2]
      exact hI.shared_seq c k old S hold (hx1 ▸ hex) hS'

theorem TxnInv.other (hI : TxnInv sys) (h : OtherStep sys.txn.txn_id_ false sys.mgr mgr') :
    TxnInv ⟨sys.txn, mgr'⟩ where
  lock_inv := h.lockStep.inv hI.lock_inv
  mirror := fun c k => (h.lockOf_eq hI.lock_inv c k).trans (hI.mirror c k)
  no_expiration := hI.no_expiration
  consistent := hI.consistent
  tracked_lock_maps := fun c hc => h.lock_maps_isSome c (hI.tracked_lock_maps c hc)
  saved_lock_maps := fun sp hsp c hc => h.lock_maps_isSome c (hI.saved_lock_maps sp hsp c hc)
  shared_seq := hI.shared_seq

end Steps

/-! ## Whole runs -/

theorem txnInv_start (txn_id : TransactionID) (snapshot : Option Nat) {mgr : TransactionLockMgr}
    (hinv : mgr.Inv) (hfree : ∀ cf key, mgr.lockOf txn_id cf key = none) :
    TxnInv ⟨⟨⟨snapshot, [], ∅, 0, 0, 0⟩, txn_id, 0⟩, mgr⟩ where
  lock_inv := hinv
  mirror := fun cf key => by rw [hfree]; rfl
  no_expiration := rfl
  consistent := consistent_of_save_points_nil rfl
  tracked_lock_maps := fun c hc => absurd hc (AList.notMem_empty c)
  saved_lock_maps := fun sp hsp => absurd hsp List.not_mem_nil
  shared_seq := fun cf key info S hf => by simp at hf

theorem TxnStep.inv {sys sys' : TxnSystem} (hI : TxnInv sys) (h : TxnStep false sys sys') :
    TxnInv sys' := by
  cases h with
  | TryLock op outcome latest conflict cf key ht =>
    exact hI.tryLock (fun hex => (op.untracked_of_shared hex).1) ht
  | UndoGetForUpdate cf key hcf hu => exact hI.undoGetForUpdate hcf hu
  | SetSavePoint => exact hI.setSavePoint
  | RollbackToSavePoint hr => exact hI.rollbackToSavePoint hr
  | other ho => exact hI.other ho

theorem TxnReachable.inv {sys : TxnSystem} (h : TxnReachable false sys) : TxnInv sys := by
  induction h with
  | start txn_id snapshot mgr hinv hfree => exact txnInv_start txn_id snapshot hinv hfree
  | step _ hs ih => exact hs.inv ih

/-! ## `Clear` -/

/-- a key that some transaction holds lies in a stripe that exists -/
theorem stripeAt_of_lockOf {mgr : TransactionLockMgr} {T : TransactionID} {c : UInt32}
    {k : List UInt8} {lock_map : LockMap} (hlm : mgr.lock_maps_ c = some lock_map)
    (h : (mgr.lockOf T c k).isSome) : (lock_map.stripeAt (lock_map.GetStripe k)).isSome := by
  unfold TransactionLockMgr.lockOf at h
  rw [lockInfo?_of_lockMap hlm] at h
  unfold LockMap.view at h
  cases hs : lock_map.stripeAt (lock_map.GetStripe k) with
  | none => simp [hs, entryMode] at h
  | some _ => rfl

theorem KeyMap.has_of_mem {key_map : KeyMap} {e : UInt32 × List (List UInt8)} (he : e ∈ key_map)
    {k : List UInt8} (hk : k ∈ e.2) : key_map.has e.1 k = true :=
  List.any_eq_true.mpr ⟨e, he, by simp [hk]⟩

/-- what the transaction guarantees in a state: it holds the keys it tracks in their tracked
modes, a refused `TryLock` changes nothing for it, and `Clear` (the end of `Commit` and
`Rollback`) returns and leaves it no lock, no tracked key and no save point -/
structure TrackedLocks (sys : TxnSystem) : Prop where
  mirror : ∀ cf key,
    sys.mgr.lockOf sys.txn.txn_id_ cf key = (sys.txn.tracked_keys_.find cf key).map (·.exclusive)
  refused_unchanged : ∀ (op : KeyOp) outcome latest conflict cf key s txn' mgr',
    sys.txn.TryLock sys.mgr outcome latest conflict cf key op.read_only op.exclusive
      op.untracked = some (s, txn', mgr') → s.ok = false →
    txn' = sys.txn ∧ ∀ c k, mgr'.lockOf sys.txn.txn_id_ c k = sys.mgr.lockOf sys.txn.txn_id_ c k
  clear_returns : (sys.txn.Clear sys.mgr).isSome
  clear_releases : ∀ txn' mgr', sys.txn.Clear sys.mgr = some (txn', mgr') →
    txn'.tracked_keys_ = ∅ ∧ txn'.save_points_ = [] ∧
      ∀ c k, mgr'.lockOf sys.txn.txn_id_ c k = none

theorem TxnInv.trackedLocks {sys : TxnSystem} (hI : TxnInv sys) : TrackedLocks sys where
  mirror := hI.mirror
  refused_unchanged := fun op outcome latest conflict cf key s txn' mgr' h hs => by
    rcases (TryLock_ends hI (fun hex => (op.untracked_of_shared hex).1) h).2.2 with
      ⟨-, htxn, hsame⟩ | ⟨hs', -⟩
    · exact ⟨htxn, hsame⟩
    · rw [hs] at hs'; cases hs'
  clear_returns := by
    -- every key listed is held, so its stripe exists
    rw [TransactionImpl.Clear, Option.isSome_map]
    refine UnLockKeyMap_isSome fun e he lock_map hlm k hk => ?_
    refine stripeAt_of_lockOf (T := sys.txn.txn_id_) hlm ?_
    rw [hI.mirror, Option.isSome_map, ← has_keyMap]
    exact KeyMap.has_of_mem he hk
  clear_releases := fun txn' mgr' h => by
    obtain ⟨m, hU, he⟩ := Option.map_eq_some_iff.mp h
    simp only [Prod.mk.injEq] at he
    obtain ⟨rfl, rfl⟩ := he
    refine ⟨rfl, rfl, fun c k => ?_⟩
    have hall : ∀ e ∈ sys.txn.tracked_keys_.keyMap, (sys.mgr.lock_maps_ e.1).isSome :=
      fun e he => hI.tracked_lock_maps _ (mem_keyMap_fst he)
    rw [UnLockKeyMap_lockOf_self hI.lock_inv hU hall, has_keyMap, hI.mirror]
    cases sys.txn.tracked_keys_.find c k <;> rfl

theorem tracked_locks_mirror {sys : TxnSystem} (h : TxnReachable false sys) : TrackedLocks sys :=
  h.inv.trackedLocks

theorem tracked_locks_mirror_begin :
    TrackedLocks ⟨⟨⟨none, [], ∅, 0, 0, 0⟩, 1, 0⟩, TransactionLockMgr.new 16 0⟩ :=
  tracked_locks_mirror (.start 1 none _ (inv_new 16 0) fun _ _ => rfl)

/-- `T = 1` holds key `[1]` shared with `U = 2`, whose lock expires at time 5; at time 10 `V = 3`
asks for it exclusively, and the steal callback gives up the locks of both holders, `T` not being
in the map of expirable transactions -/
theorem tracked_lock_stolen :
    ∃ sys, TxnReachable true sys ∧ sys.txn.tracked_keys_.find 0 [1] ≠ none ∧
      sys.mgr.lockOf sys.txn.txn_id_ 0 [1] = none ∧ sys.mgr.lockOf 3 0 [1] = some true :=
  ⟨_, .step (.step (.step (.step
      (.start 1 none (TransactionLockMgr.new 16 0) (inv_new 16 0) fun _ _ => rfl)
      (.other (.AddColumnFamily _ 0)))
      (.TryLock (.GetForUpdate false) (.attempt ⟨0, fun _ => false⟩) 0 .OK 0 [1] rfl))
      (.other (.TryLock ⟨0, fun _ => false⟩ 2 5 0 [1] false .OK [] (by decide) (fun h => by cases h)
        (noReRequest_of_lockOf (.inl rfl)) rfl)))
      (.other (.TryLock ⟨10, TryStealingExpiredTransactionLocks fun id =>
          if id = 2 then some true else none⟩ 3 0 0 [1] true .OK [] (by decide) (fun _ => rfl)
        (noReRequest_of_lockOf (.inl rfl)) rfl)),
    by decide, by decide, by decide⟩

end RocksDB
