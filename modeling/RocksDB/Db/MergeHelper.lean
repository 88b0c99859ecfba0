import RocksDB.Util.Status

/-!
# db/merge_context.h, db/merge_helper.cc: merge operands and full merges

* `MergeOperator`    a user merge operator, as what its `FullMergeV2` answers: the merged value
                     from the key, the existing value (`none` for `nullptr`) and the operands
                     oldest first, or `none` where it returns false;
* `MergeContext`     the operand vector and its direction flag: `PushOperand` adds an operand
                     older than those it holds, `PushOperandBack` a newer one, and `GetOperands`
                     turns the vector oldest first and answers it;
* `TimedFullMerge`   the existing value alone without operands, else `FullMergeV2`, with
                     `Corruption` where it fails.

`TimedFullMerge_of_ne_nil` is the merge a lookup makes once it holds operands.

`MergeContext.newestFirst` reads the operands newest first whatever the flag says; the lemmas
`newestFirst_PushOperand`, `newestFirst_PushOperandBack` and `GetOperands_fst` say what each
operation does to it, so that no later proof looks at the flag.
-/

namespace RocksDB

/-- a merge operator, by its `FullMergeV2` -/
structure MergeOperator where
  FullMergeV2 : List UInt8 → Option (List UInt8) → List (List UInt8) → Option (List UInt8)

/-- `MergeContext`: `operand_list_` (an absent vector is an empty one) and `operands_reversed_` -/
structure MergeContext where
  operand_list : List (List UInt8)
  operands_reversed : Bool

namespace MergeContext

/-- a fresh `MergeContext` -/
def empty : MergeContext := ⟨[], true⟩

def SetDirectionForward (c : MergeContext) : MergeContext :=
  if c.operands_reversed then ⟨c.operand_list.reverse, false⟩ else c

def SetDirectionBackward (c : MergeContext) : MergeContext :=
  if c.operands_reversed then c else ⟨c.operand_list.reverse, true⟩

/-- `PushOperand`: an operand older than those held -/
def PushOperand (c : MergeContext) (operand_slice : List UInt8) : MergeContext :=
  let c := c.SetDirectionBackward
  { c with operand_list := c.operand_list ++ [operand_slice] }

/-- `PushOperandBack`: an operand newer than those held -/
def PushOperandBack (c : MergeContext) (operand_slice : List UInt8) : MergeContext :=
  let c := c.SetDirectionForward
  { c with operand_list := c.operand_list ++ [operand_slice] }

def GetNumOperands (c : MergeContext) : Nat := c.operand_list.length

/-- `GetOperands`: the operands oldest first, with the context turned that way -/
def GetOperands (c : MergeContext) : List (List UInt8) × MergeContext :=
  let c := c.SetDirectionForward
  (c.operand_list, c)

def Clear (c : MergeContext) : MergeContext := { c with operand_list := [] }

/-- the operands held, newest first -/
def newestFirst (c : MergeContext) : List (List UInt8) :=
  if c.operands_reversed then c.operand_list else c.operand_list.reverse

@[simp] theorem newestFirst_empty : empty.newestFirst = [] := rfl

@[simp] theorem newestFirst_PushOperand (c : MergeContext) (o : List UInt8) :
    (c.PushOperand o).newestFirst = c.newestFirst ++ [o] := by
  obtain ⟨l, r⟩ := c
  cases r <;> simp [PushOperand, SetDirectionBackward, newestFirst]

@[simp] theorem newestFirst_PushOperandBack (c : MergeContext) (o : List UInt8) :
    (c.PushOperandBack o).newestFirst = o :: c.newestFirst := by
  obtain ⟨l, r⟩ := c
  cases r <;> simp [PushOperandBack, SetDirectionForward, newestFirst]

@[simp] theorem GetOperands_fst (c : MergeContext) : c.GetOperands.1 = c.newestFirst.reverse := by
  obtain ⟨l, r⟩ := c
  cases r <;> simp [GetOperands, SetDirectionForward, newestFirst]

@[simp] theorem newestFirst_GetOperands_snd (c : MergeContext) :
    c.GetOperands.2.newestFirst = c.newestFirst := by
  obtain ⟨l, r⟩ := c
  cases r <;> simp [GetOperands, SetDirectionForward, newestFirst]

end MergeContext

/-- `MergeHelper::TimedFullMerge`: `result` is the string the merged value is written to (left as
it was where the operator fails).  The source asserts a merge operator; where there is none the
model answers as for a merge that fails. -/
def TimedFullMerge (merge_operator : Option MergeOperator) (key : List UInt8)
    (value : Option (List UInt8)) (operands : List (List UInt8)) (result : List UInt8) :
    Status × List UInt8 :=
  if operands.length = 0 then (.OK, value.getD [])
  else
    match merge_operator.bind fun op => op.FullMergeV2 key value operands with
    | some new_value => (.OK, new_value)
    | none => (.Corruption "Error: Could not perform merge.", result)

theorem TimedFullMerge_of_ne_nil (op : MergeOperator) (key : List UInt8)
    (value : Option (List UInt8)) {operands : List (List UInt8)} (h : operands ≠ [])
    (result : List UInt8) :
    TimedFullMerge (some op) key value operands result =
      match op.FullMergeV2 key value operands with
      | some new_value => (.OK, new_value)
      | none => (.Corruption "Error: Could not perform merge.", result) := by
  rw [TimedFullMerge, if_neg (by simpa using h)]
  rfl

/-! ## Operators of the repository -/

/-- the loop of `AssociativeMergeOperator::FullMergeV2`: `Merge` on each operand, oldest first,
each result the existing value of the next; `new_value` is the last result -/
def associativeMerge (Merge : List UInt8 → Option (List UInt8) → List UInt8 → Option (List UInt8))
    (key : List UInt8) : Option (List UInt8) → List UInt8 → List (List UInt8) → Option (List UInt8)
  | _, new_value, [] => some new_value
  | existing_value, _, operand :: rest =>
    (Merge key existing_value operand).bind fun temp_value =>
      associativeMerge Merge key (some temp_value) temp_value rest

/-- an `AssociativeMergeOperator` by its `Merge` (`TimedFullMerge` calls it with operands only) -/
def AssociativeMergeOperator
    (Merge : List UInt8 → Option (List UInt8) → List UInt8 → Option (List UInt8)) : MergeOperator where
  FullMergeV2 key existing_value operand_list :=
    associativeMerge Merge key existing_value [] operand_list

/-- `StringAppendOperator::Merge`: the value alone without existing value, else the existing
value, the delimiter and the value -/
def StringAppendOperator.Merge (delim : UInt8) (_key : List UInt8)
    (existing_value : Option (List UInt8)) (value : List UInt8) : Option (List UInt8) :=
  match existing_value with
  | none => some value
  | some existing => some (existing ++ [delim] ++ value)

def StringAppendOperator (delim_char : UInt8) : MergeOperator :=
  AssociativeMergeOperator (StringAppendOperator.Merge delim_char)

/-- `MergeOperators::CreateStringAppendOperator`: the delimiter `','` -/
def CreateStringAppendOperator : MergeOperator := StringAppendOperator 44

end RocksDB
