import RocksDB.Db.Dbformat
import RocksDB.Db.MergeHelper

/-!
# What a point lookup answers

The reference every point lookup of the engine is measured against: a store of writes, each a
version of one user key at a sequence number, read at a snapshot.

* `Write`             a write as `MemTable::Add` takes it: sequence number, type, user key, value;
* `visibleVersions`   the versions of a key at or below a snapshot, newest first, for writes
                      issued in increasing sequence order;
* `splitAtBase`       the merge operands above the newest version that is not a merge, and that
                      version (the base);
* `lookupSpec`        what a lookup answers, given the operands newer sources already handed over:
                      the base's value or its deletion where no operand waits, else the full merge
                      of the operands onto the base, or the operands still waiting where there is
                      no base.

`lookupSpec_nil`, `lookupSpec_cons_of_merge` and `lookupSpec_cons_of_ne_merge` read the
reference one version at a time, newest first, which is how every implementation walks it.
-/

namespace RocksDB

/-- one write: a version of `user_key` -/
structure Write where
  sequence : Nat
  type : ValueType
  user_key : List UInt8
  value : List UInt8
  deriving DecidableEq, Repr

/-- the writes of `k` a snapshot at `s` sees, newest first (the writes issued oldest first) -/
def visibleVersions (writes : List Write) (k : List UInt8) (s : Nat) : List Write :=
  (writes.filter fun w => w.user_key = k ∧ w.sequence ≤ s).reverse

/-- the merge operands above the newest version that is not a merge, and that version -/
def splitAtBase : List Write → List Write × Option Write
  | [] => ([], none)
  | w :: rest =>
    if w.type = .kTypeMerge then ((w :: (splitAtBase rest).1), (splitAtBase rest).2)
    else ([], some w)

/-- the operands a lookup gathers from `versions`, newest first -/
def mergeOperands (versions : List Write) : List (List UInt8) :=
  (splitAtBase versions).1.map (·.value)

/-- the answers of a point lookup -/
inductive LookupResult where
  | found (value : List UInt8)
  | deleted
  | mergeFailed
  | merging (operands : List (List UInt8))
  | absent
  deriving DecidableEq, Repr

/-- the full merge of `operands` (newest first) onto `existing` -/
def fullMerge (op : MergeOperator) (key : List UInt8) (existing : Option (List UInt8))
    (operands : List (List UInt8)) : LookupResult :=
  match op.FullMergeV2 key existing operands.reverse with
  | some value => .found value
  | none => .mergeFailed

/-- the answer at the base `b`: its value or its deletion, merged with the operands above it -/
def readBase (op : MergeOperator) (key : List UInt8) (operands : List (List UInt8)) (b : Write) :
    LookupResult :=
  let existing := if b.type = .kTypeValue then some b.value else none
  if operands = [] then
    match existing with
    | some value => .found value
    | none => .deleted
  else fullMerge op key existing operands

/-- the answer of a lookup of `key` over `versions` (newest first), with `operands` handed over
from newer sources -/
def lookupSpec (op : MergeOperator) (key : List UInt8) (operands : List (List UInt8))
    (versions : List Write) : LookupResult :=
  let operands := operands ++ mergeOperands versions
  match (splitAtBase versions).2 with
  | some b => readBase op key operands b
  | none => if operands = [] then .absent else .merging operands

@[simp] theorem mergeOperands_nil : mergeOperands [] = [] := rfl

theorem mergeOperands_cons_of_merge {w : Write} (h : w.type = .kTypeMerge) (rest : List Write) :
    mergeOperands (w :: rest) = w.value :: mergeOperands rest := by
  simp [mergeOperands, splitAtBase, h]

theorem mergeOperands_cons_of_ne_merge {w : Write} (h : w.type ≠ .kTypeMerge)
    (rest : List Write) : mergeOperands (w :: rest) = [] := by
  simp [mergeOperands, splitAtBase, h]

theorem lookupSpec_nil (op : MergeOperator) (key : List UInt8) (operands : List (List UInt8)) :
    lookupSpec op key operands [] = if operands = [] then .absent else .merging operands := by
  simp [lookupSpec, splitAtBase]

/-- a merge operand joins the operands, below the newer ones -/
theorem lookupSpec_cons_of_merge (op : MergeOperator) (key : List UInt8)
    (operands : List (List UInt8)) {w : Write} (h : w.type = .kTypeMerge) (rest : List Write) :
    lookupSpec op key operands (w :: rest) = lookupSpec op key (operands ++ [w.value]) rest := by
  have hsplit : (splitAtBase (w :: rest)).2 = (splitAtBase rest).2 := by simp [splitAtBase, h]
  simp only [lookupSpec, hsplit, mergeOperands_cons_of_merge h, List.append_assoc,
    List.singleton_append]

/-- any other version is the base -/
theorem lookupSpec_cons_of_ne_merge (op : MergeOperator) (key : List UInt8)
    (operands : List (List UInt8)) {w : Write} (h : w.type ≠ .kTypeMerge) (rest : List Write) :
    lookupSpec op key operands (w :: rest) = readBase op key operands w := by
  have hsplit : (splitAtBase (w :: rest)).2 = some w := by simp [splitAtBase, h]
  simp only [lookupSpec, hsplit, mergeOperands_cons_of_ne_merge h, List.append_nil]

end RocksDB
