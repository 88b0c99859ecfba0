import Mathlib

/-!
# Status (include/rocksdb/status.h)

A `Status` is a code, a sub-code and a message.  The factory functions keep the names of the
C++ ones (`Status.OK`, `Status.NotFound`, `Status.Corruption msg`, ...); the predicates
`ok`, `IsNotFound`, `IsMergeInProgress`, ... compare the code only, as the header does.
-/

namespace RocksDB

inductive Code where
  | kOk | kNotFound | kCorruption | kNotSupported | kInvalidArgument | kIOError
  | kMergeInProgress | kIncomplete | kShutdownInProgress | kTimedOut | kAborted | kBusy
  | kExpired | kTryAgain
  deriving DecidableEq, Repr

inductive SubCode where
  | kNone | kMutexTimeout | kLockTimeout | kLockLimit | kNoSpace | kDeadlock | kStaleFile
  | kMemoryLimit
  deriving DecidableEq, Repr

structure Status where
  code : Code
  subcode : SubCode
  msg : String
  deriving DecidableEq, Repr

namespace Status

def OK : Status := ⟨.kOk, .kNone, ""⟩
def NotFound : Status := ⟨.kNotFound, .kNone, ""⟩
def NotSupported (msg : String) : Status := ⟨.kNotSupported, .kNone, msg⟩
def Corruption (msg : String) : Status := ⟨.kCorruption, .kNone, msg⟩
def InvalidArgument (msg : String) : Status := ⟨.kInvalidArgument, .kNone, msg⟩
def MergeInProgress : Status := ⟨.kMergeInProgress, .kNone, ""⟩
def Incomplete : Status := ⟨.kIncomplete, .kNone, ""⟩
def TimedOut (sub : SubCode) : Status := ⟨.kTimedOut, sub, ""⟩
def Busy (sub : SubCode) : Status := ⟨.kBusy, sub, ""⟩
def Expired : Status := ⟨.kExpired, .kNone, ""⟩
def TryAgain : Status := ⟨.kTryAgain, .kNone, ""⟩
def MemoryLimit : Status := ⟨.kAborted, .kMemoryLimit, ""⟩

def ok (s : Status) : Bool := s.code == .kOk
def IsNotFound (s : Status) : Bool := s.code == .kNotFound
def IsMergeInProgress (s : Status) : Bool := s.code == .kMergeInProgress
def IsIncomplete (s : Status) : Bool := s.code == .kIncomplete
def IsBusy (s : Status) : Bool := s.code == .kBusy
def IsTimedOut (s : Status) : Bool := s.code == .kTimedOut

@[simp] theorem ok_OK : OK.ok = true := rfl
@[simp] theorem ok_NotFound : NotFound.ok = false := rfl
@[simp] theorem ok_NotSupported (m : String) : (NotSupported m).ok = false := rfl
@[simp] theorem ok_Corruption (m : String) : (Corruption m).ok = false := rfl
@[simp] theorem ok_InvalidArgument (m : String) : (InvalidArgument m).ok = false := rfl
@[simp] theorem ok_MergeInProgress : MergeInProgress.ok = false := rfl
@[simp] theorem ok_TimedOut (sub : SubCode) : (TimedOut sub).ok = false := rfl
@[simp] theorem ok_Busy (sub : SubCode) : (Busy sub).ok = false := rfl
@[simp] theorem IsMergeInProgress_OK : OK.IsMergeInProgress = false := rfl
@[simp] theorem IsMergeInProgress_MergeInProgress : MergeInProgress.IsMergeInProgress = true := rfl
@[simp] theorem IsMergeInProgress_NotFound : NotFound.IsMergeInProgress = false := rfl
@[simp] theorem IsNotFound_NotFound : NotFound.IsNotFound = true := rfl
@[simp] theorem IsNotFound_OK : OK.IsNotFound = false := rfl
@[simp] theorem IsNotFound_MergeInProgress : MergeInProgress.IsNotFound = false := rfl

theorem ok_iff (s : Status) : s.ok = true ↔ s.code = .kOk := by
  simp [ok]

end Status

end RocksDB
