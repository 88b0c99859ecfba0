import Mathlib.Data.Nat.Digits.Defs
import Mathlib.Tactic.IntervalCases

/-!
# util/filename.cc, util/string_util.cc: database file names

The names of a database's files, as `snprintf` writes them, and `ParseFileName`, which sorts a
directory entry back into its `FileType` and number:

* `formatDecimal`, `formatDecimal06`   `%llu` and `%06llu`;
* `ConsumeDecimalNumber`               the decimal reader, with its `uint64_t` overflow check;
* `InfoLogPrefix`                      `LOG`, or the database path flattened and followed by
                                       `_LOG` where the info log lives in a directory of its own;
* the generators `LogFileName`, `ArchivedLogFileName`, `MakeTableFileName`, `DescriptorFileName`,
  `CurrentFileName`, `LockFileName`, `TempFileName`, `InfoLogFileName`, `OldInfoLogFileName`,
  `OptionsFileName`, `TempOptionsFileName`, `IdentityFileName`;
* `ParseFileName`                      with its branches `ParseFileName.infoLog`,
                                       `ParseFileName.numberOnly` (`MANIFEST-`, `METADB-`),
                                       `ParseFileName.options` and `ParseFileName.numbered`.

`ParseFileName` writes through three pointers; the model takes the caller's values of `*number`,
`*type` and `*log_type` (`none` for a null `log_type`) and answers them back, written or not, in
a `ParsedFileName`.

Every name a database writes parses back to its number and type (`ParseFileName_name`, over the
files of `DbFile`).  The decimal reader reads the `%06llu` text back (`ConsumeDecimalNumber_format`)
because every prefix of the digits has a value at most the number's, so the overflow check never
fires below `2^64`.  A name that starts with the info log prefix but goes on with neither `.old`
nor `.old.` takes the info log branch, which then writes nothing and still answers true.
-/

namespace RocksDB

/-- `FileType` -/
inductive FileType where
  | kLogFile | kDBLockFile | kTableFile | kDescriptorFile | kCurrentFile | kTempFile
  | kInfoLogFile | kMetaDatabase | kIdentityFile | kOptionsFile | kBlobFile
  deriving DecidableEq, Repr

/-- `WalFileType` -/
inductive WalFileType where
  | kArchivedLogFile | kAliveLogFile
  deriving DecidableEq, Repr

def kRocksDbTFileExt : List Char := "sst".toList
def kLevelDbTFileExt : List Char := "ldb".toList
def kRocksDBBlobFileExt : List Char := "blob".toList
def ARCHIVAL_DIR : List Char := "archive".toList
def kOptionsFileNamePrefix : List Char := "OPTIONS-".toList
def kTempFileNameSuffix : List Char := "dbtmp".toList

/-! ## Decimal numbers -/

/-- the character of the decimal digit `d` -/
def digitChar (d : Nat) : Char := Char.ofNat ('0'.toNat + d)

/-- `%llu`: the decimal digits of `number`, the most significant first -/
def formatDecimal (number : Nat) : List Char :=
  if number = 0 then ['0'] else (Nat.digits 10 number).reverse.map digitChar

/-- `%06llu`: the same, padded with zeros to six characters -/
def formatDecimal06 (number : Nat) : List Char :=
  List.replicate (6 - (formatDecimal number).length) '0' ++ formatDecimal number

def kMaxUint64 : UInt64 := 0xFFFFFFFFFFFFFFFF

/-- the loop of `ConsumeDecimalNumber`, from the value `v` of the digits read so far and their
count: `none` where the next digit would take the value past `uint64_t`, else the value, the
count and the input from its first character that is not a digit -/
def consumeDecimalLoop (v : UInt64) (digits : Nat) : List Char → Option (UInt64 × Nat × List Char)
  | [] => some (v, digits, [])
  | c :: rest =>
    if '0' ≤ c ∧ c ≤ '9' then
      let delta : UInt64 := (c.toNat - '0'.toNat).toUInt64
      if v > kMaxUint64 / 10 ∨ (v = kMaxUint64 / 10 ∧ delta > kMaxUint64 % 10) then none
      else consumeDecimalLoop (v * 10 + delta) (digits + 1) rest
    else some (v, digits, c :: rest)

/-- `ConsumeDecimalNumber(in, val)`, as its callers read it: where it returns true (a digit was
read and nothing overflowed) the number and the rest of the input, else `none` -/
def ConsumeDecimalNumber (input : List Char) : Option (UInt64 × List Char) :=
  match consumeDecimalLoop 0 0 input with
  | some (v, digits, rest) => if digits > 0 then some (v, rest) else none
  | none => none

/-! ## The info log prefix -/

/-- the characters `GetInfoLogPrefix` keeps -/
def infoLogPrefixKeeps (c : Char) : Bool :=
  ('a' ≤ c && c ≤ 'z') || ('0' ≤ c && c ≤ '9') || ('A' ≤ c && c ≤ 'Z') || c == '-' || c == '.' ||
    c == '_'

/-- the loop of `GetInfoLogPrefix`, with `room` characters left to write: a character it does
not keep becomes `_`, except the path's first, which is dropped -/
def flattenPath (room : Nat) (first : Bool) : List Char → List Char
  | [] => []
  | c :: rest =>
    if room = 0 then []
    else if infoLogPrefixKeeps c then c :: flattenPath (room - 1) false rest
    else if first then flattenPath room false rest
    else '_' :: flattenPath (room - 1) false rest

/-- `GetInfoLogPrefix(path, dest, len)`: the flattened path in at most `len - sizeof("_LOG")`
characters, then `_LOG` -/
def GetInfoLogPrefix (path : List Char) (len : Nat) : List Char :=
  flattenPath (len - 5) true path ++ "_LOG".toList

/-- `InfoLogPrefix(has_log_dir, db_absolute_path).prefix`, over its `buf[260]` -/
def InfoLogPrefix (has_log_dir : Bool) (db_absolute_path : List Char) : List Char :=
  if has_log_dir then GetInfoLogPrefix db_absolute_path 260 else "LOG".toList

/-! ## The names -/

def MakeFileName (name : List Char) (number : UInt64) (suffix : List Char) : List Char :=
  name ++ '/' :: formatDecimal06 number.toNat ++ '.' :: suffix

def LogFileName (name : List Char) (number : UInt64) : List Char :=
  MakeFileName name number "log".toList

def ArchivedLogFileName (name : List Char) (number : UInt64) : List Char :=
  MakeFileName (name ++ '/' :: ARCHIVAL_DIR) number "log".toList

def MakeTableFileName (path : List Char) (number : UInt64) : List Char :=
  MakeFileName path number kRocksDbTFileExt

def DescriptorFileName (dbname : List Char) (number : UInt64) : List Char :=
  dbname ++ "/MANIFEST-".toList ++ formatDecimal06 number.toNat

def CurrentFileName (dbname : List Char) : List Char := dbname ++ "/CURRENT".toList

def LockFileName (dbname : List Char) : List Char := dbname ++ "/LOCK".toList

def TempFileName (dbname : List Char) (number : UInt64) : List Char :=
  MakeFileName dbname number kTempFileNameSuffix

def InfoLogFileName (dbname db_path log_dir : List Char) : List Char :=
  if log_dir.isEmpty then dbname ++ "/LOG".toList
  else log_dir ++ '/' :: InfoLogPrefix true db_path

def OldInfoLogFileName (dbname : List Char) (ts : UInt64) (db_path log_dir : List Char) :
    List Char :=
  if log_dir.isEmpty then dbname ++ "/LOG.old.".toList ++ formatDecimal ts.toNat
  else log_dir ++ '/' :: InfoLogPrefix true db_path ++ ".old.".toList ++ formatDecimal ts.toNat

def OptionsFileName (dbname : List Char) (file_num : UInt64) : List Char :=
  dbname ++ '/' :: kOptionsFileNamePrefix ++ formatDecimal06 file_num.toNat

def TempOptionsFileName (dbname : List Char) (file_num : UInt64) : List Char :=
  dbname ++ '/' :: kOptionsFileNamePrefix ++ formatDecimal06 file_num.toNat ++
    '.' :: kTempFileNameSuffix

def IdentityFileName (dbname : List Char) : List Char := dbname ++ "/IDENTITY".toList

/-! ## Parsing a name -/

/-- what `ParseFileName` leaves: its answer, and `*number`, `*type` and `*log_type` (`none` for a
null `log_type`), each the caller's value where it writes nothing -/
structure ParsedFileName where
  ok : Bool
  number : UInt64
  type : FileType
  log_type : Option WalFileType
  deriving DecidableEq, Repr

namespace ParseFileName

/-- the branch of a name that starts with the info log prefix, on the rest after it -/
def infoLog (rest : List Char) (number : UInt64) (type : FileType)
    (log_type : Option WalFileType) : ParsedFileName :=
  if rest = [] ∨ rest = ".old".toList then ⟨true, 0, .kInfoLogFile, log_type⟩
  else if ".old.".toList.isPrefixOf rest then
    match ConsumeDecimalNumber (rest.drop 5) with
    | some (ts_suffix, _) => ⟨true, ts_suffix, .kInfoLogFile, log_type⟩
    | none => ⟨false, number, type, log_type⟩
  else ⟨true, number, type, log_type⟩

/-- the branches of `MANIFEST-` and `METADB-` names, on the rest after the prefix: a number and
nothing after it -/
def numberOnly (rest : List Char) (file_type : FileType) (number : UInt64) (type : FileType)
    (log_type : Option WalFileType) : ParsedFileName :=
  match ConsumeDecimalNumber rest with
  | some (num, rest) =>
    if rest.isEmpty then ⟨true, num, file_type, log_type⟩ else ⟨false, number, type, log_type⟩
  | none => ⟨false, number, type, log_type⟩

/-- the branch of `OPTIONS-` names, on the rest after the prefix -/
def options (rest : List Char) (number : UInt64) (type : FileType)
    (log_type : Option WalFileType) : ParsedFileName :=
  let is_temp_file := ('.' :: kTempFileNameSuffix).isSuffixOf rest
  let rest := if is_temp_file then rest.take (rest.length - (kTempFileNameSuffix.length + 1))
    else rest
  match ConsumeDecimalNumber rest with
  | some (ts_suffix, _) =>
    ⟨true, ts_suffix, if is_temp_file then .kTempFile else .kOptionsFile, log_type⟩
  | none => ⟨false, number, type, log_type⟩

/-- the end of the last branch: the type the suffix after the number and the dot names -/
def suffixed (suffix : List Char) (archive_dir_found : Bool) (num number : UInt64)
    (type : FileType) (log_type : Option WalFileType) : ParsedFileName :=
  if suffix = "log".toList then
    ⟨true, num, .kLogFile,
      if archive_dir_found then log_type else log_type.map fun _ => .kAliveLogFile⟩
  -- the archive directory holds only logs
  else if archive_dir_found then ⟨false, number, type, log_type⟩
  else if suffix = kRocksDbTFileExt ∨ suffix = kLevelDbTFileExt then
    ⟨true, num, .kTableFile, log_type⟩
  else if suffix = kRocksDBBlobFileExt then ⟨true, num, .kBlobFile, log_type⟩
  else if suffix = kTempFileNameSuffix then ⟨true, num, .kTempFile, log_type⟩
  else ⟨false, number, type, log_type⟩

/-- the last branch: a number, a dot and a suffix, in the archive directory or not -/
def numbered (rest : List Char) (number : UInt64) (type : FileType)
    (log_type : Option WalFileType) : ParsedFileName :=
  let archive_dir_found := ARCHIVAL_DIR.isPrefixOf rest
  if archive_dir_found ∧ rest.length ≤ ARCHIVAL_DIR.length then ⟨false, number, type, log_type⟩
  else
    let rest := if archive_dir_found then rest.drop (ARCHIVAL_DIR.length + 1) else rest
    let log_type := if archive_dir_found then log_type.map fun _ => .kArchivedLogFile
      else log_type
    match ConsumeDecimalNumber rest with
    | none => ⟨false, number, type, log_type⟩
    | some (num, rest) =>
      if rest.length ≤ 1 ∨ rest.head? ≠ some '.' then ⟨false, number, type, log_type⟩
      else suffixed (rest.drop 1) archive_dir_found num number type log_type

/-- the tests of `ParseFileName`, on the name without its leading slash -/
def ofRest (rest : List Char) (number : UInt64) ( info_log_name_prefix : List Char)
    (type : FileType) (log_type : Option WalFileType) : ParsedFileName :=
  if rest = "IDENTITY".toList then ⟨true, 0, .kIdentityFile, log_type⟩
  else if rest = "CURRENT".toList then ⟨true, 0, .kCurrentFile, log_type⟩
  else if rest = "LOCK".toList then ⟨true, 0, .kDBLockFile, log_type⟩
  else if info_log_name_prefix.length > 0 ∧ info_log_name_prefix.isPrefixOf rest then
    ParseFileName.infoLog (rest.drop info_log_name_prefix.length) number type log_type
  else if "MANIFEST-".toList.isPrefixOf rest then
    ParseFileName.numberOnly (rest.drop 9) .kDescriptorFile number type log_type
  else if "METADB-".toList.isPrefixOf rest then
    ParseFileName.numberOnly (rest.drop 7) .kMetaDatabase number type log_type
  else if kOptionsFileNamePrefix.isPrefixOf rest then
    ParseFileName.options (rest.drop kOptionsFileNamePrefix.length) number type log_type
  else ParseFileName.numbered rest number type log_type

end ParseFileName

/-- `ParseFileName(fname, number, info_log_name_prefix, type, log_type)` -/
def ParseFileName (fname : List Char) (number : UInt64) ( info_log_name_prefix : List Char)
    (type : FileType) (log_type : Option WalFileType) : ParsedFileName :=
  let rest := if fname.length > 1 ∧ fname.head? = some '/' then fname.drop 1 else fname
  ParseFileName.ofRest rest number info_log_name_prefix type log_type

/-! ## Reading a number back -/

section Decimal

/-- the digits `%llu` writes, the most significant first -/
def decimalDigits (n : Nat) : List Nat := if n = 0 then [0] else (Nat.digits 10 n).reverse

theorem digitChar_toNat {d : Nat} (h : d < 10) : (digitChar d).toNat = 48 + d := by
  interval_cases d <;> rfl

theorem digitChar_isDigit {d : Nat} (h : d < 10) : '0' ≤ digitChar d ∧ digitChar d ≤ '9' := by
  interval_cases d <;> decide

theorem formatDecimal_eq (n : Nat) : formatDecimal n = (decimalDigits n).map digitChar := by
  unfold formatDecimal decimalDigits
  split <;> rfl

theorem formatDecimal06_eq (n : Nat) :
    formatDecimal06 n =
      (List.replicate (6 - (formatDecimal n).length) 0 ++ decimalDigits n).map digitChar := by
  rw [formatDecimal06, List.map_append, List.map_replicate, formatDecimal_eq]
  rfl

theorem decimalDigits_lt {n d : Nat} (h : d ∈ decimalDigits n) : d < 10 := by
  unfold decimalDigits at h
  split at h
  · simp_all
  · exact Nat.digits_lt_base (by norm_num) (List.mem_reverse.mp h)

theorem decimalDigits_ne_nil (n : Nat) : decimalDigits n ≠ [] := by
  unfold decimalDigits
  split
  · simp
  · simpa [Nat.digits_eq_nil_iff_eq_zero]

/-- reading decimal digits, the most significant first, from the value `a` -/
theorem foldr_decimal_eq_ofDigits (l : List Nat) :
    l.foldr (fun d v => 10 * v + d) 0 = Nat.ofDigits 10 l := by
  induction l with
  | nil => rfl
  | cons d l ih => rw [List.foldr_cons, ih, Nat.ofDigits_cons]; ring

theorem foldl_decimalDigits (n : Nat) :
    (decimalDigits n).foldl (fun v d => 10 * v + d) 0 = n := by
  unfold decimalDigits
  split
  · subst n; rfl
  · rw [List.foldl_reverse, foldr_decimal_eq_ofDigits, Nat.ofDigits_digits]

/-- leading zeros read as nothing -/
theorem foldl_replicate_zero (k : Nat) (l : List Nat) :
    (List.replicate k 0 ++ l).foldl (fun v d => 10 * v + d) 0 = l.foldl (fun v d => 10 * v + d) 0 := by
  rw [List.foldl_append]
  congr 1
  induction k with
  | zero => rfl
  | succ k ih => rw [List.replicate_succ, List.foldl_cons, Nat.mul_zero, Nat.add_zero, ih]

theorem le_foldl_decimal (l : List Nat) (a : Nat) : a ≤ l.foldl (fun v d => 10 * v + d) a := by
  induction l generalizing a with
  | nil => exact le_rfl
  | cons d l ih => exact (by omega : a ≤ 10 * a + d).trans (ih _)

/-- the overflow check of `ConsumeDecimalNumber` passes while the value stays below `2^64` -/
theorem not_overflow {v : UInt64} {d : Nat} (h : 10 * v.toNat + d < 2 ^ 64) :
    ¬(v > kMaxUint64 / 10 ∨ (v = kMaxUint64 / 10 ∧ d.toUInt64 > kMaxUint64 % 10)) := by
  have hq : (kMaxUint64 / 10).toNat = 1844674407370955161 := by decide
  have hr : (kMaxUint64 % 10).toNat = 5 := by decide
  have hd : d.toUInt64.toNat = d := by simp; omega
  rw [gt_iff_lt, gt_iff_lt, UInt64.lt_iff_toNat_lt, UInt64.lt_iff_toNat_lt, ← UInt64.toNat_inj,
    hq, hr, hd]
  omega

theorem toNat_mul_ten_add {v : UInt64} {d : Nat} (h : 10 * v.toNat + d < 2 ^ 64) :
    (v * 10 + d.toUInt64).toNat = 10 * v.toNat + d := by
  simp [UInt64.toNat_add, UInt64.toNat_mul]
  omega

theorem mem_formatDecimal {n : Nat} {c : Char} (h : c ∈ formatDecimal n) :
    '0' ≤ c ∧ c ≤ '9' := by
  rw [formatDecimal_eq] at h
  obtain ⟨d, hd, rfl⟩ := List.mem_map.mp h
  exact digitChar_isDigit (decimalDigits_lt hd)

theorem mem_formatDecimal06 {n : Nat} {c : Char} (h : c ∈ formatDecimal06 n) :
    '0' ≤ c ∧ c ≤ '9' := by
  rcases List.mem_append.mp h with h | h
  · rw [List.eq_of_mem_replicate h]; decide
  · exact mem_formatDecimal h

theorem formatDecimal06_cons (n : Nat) : ∃ c cs, formatDecimal06 n = c :: cs := by
  rw [formatDecimal06_eq]
  cases h : List.replicate (6 - (formatDecimal n).length) 0 ++ decimalDigits n with
  | nil => simp [decimalDigits_ne_nil] at h
  | cons d ds => exact ⟨_, _, rfl⟩

/-- a digit is none of the letters and marks the names are told apart by -/
theorem digit_not_mem {c : Char} (hc : '0' ≤ c ∧ c ≤ '9') : c ∉ ['I', 'C', 'L', 'M', 'O', '_'] := by
  simp only [List.mem_cons, List.not_mem_nil, or_false]
  rintro (rfl | rfl | rfl | rfl | rfl | rfl) <;> exact absurd hc (by decide)

variable (rest : List Char) (hrest : ∀ c ∈ rest.head?, ¬('0' ≤ c ∧ c ≤ '9'))
include hrest

/-- **The decimal reader on digits.**  Digits whose value stays below `2^64`, then a character
that is not a digit or the end: the loop reads their value and stops there -/
theorem consumeDecimalLoop_digits (ds : List Nat) (hds : ∀ d ∈ ds, d < 10) (v : UInt64)
    (count : Nat) (hv : ds.foldl (fun v d => 10 * v + d) v.toNat < 2 ^ 64) :
    consumeDecimalLoop v count (ds.map digitChar ++ rest) =
      some (UInt64.ofNat (ds.foldl (fun v d => 10 * v + d) v.toNat), count + ds.length, rest) := by
  induction ds generalizing v count with
  | nil =>
    cases rest with
    | nil => simp [consumeDecimalLoop]
    | cons c cs =>
      rw [List.map_nil, List.nil_append, consumeDecimalLoop, if_neg (hrest c (by simp))]
      simp
  | cons d ds ih =>
    have hd := hds d List.mem_cons_self
    -- every step's value is at most the whole number's
    have hstep : 10 * v.toNat + d < 2 ^ 64 := (le_foldl_decimal ds _).trans_lt hv
    have hnext := toNat_mul_ten_add hstep
    have hdelta : (digitChar d).toNat - '0'.toNat = d := by
      rw [digitChar_toNat hd]
      show 48 + d - 48 = d
      omega
    rw [List.map_cons, List.cons_append, consumeDecimalLoop, if_pos (digitChar_isDigit hd)]
    simp only [hdelta]
    rw [if_neg (not_overflow hstep), ih (fun d' h => hds d' (List.mem_cons_of_mem d h)) _ _
      (by rw [hnext]; exact hv), hnext, List.foldl_cons, List.length_cons, Nat.add_assoc,
      Nat.add_comm 1]

theorem ConsumeDecimalNumber_digits (ds : List Nat) (hds : ∀ d ∈ ds, d < 10) (hne : ds ≠ [])
    (hv : ds.foldl (fun v d => 10 * v + d) 0 < 2 ^ 64) :
    ConsumeDecimalNumber (ds.map digitChar ++ rest) =
      some (UInt64.ofNat (ds.foldl (fun v d => 10 * v + d) 0), rest) := by
  have hlen : 0 < ds.length := List.length_pos_iff.mpr hne
  rw [ConsumeDecimalNumber, consumeDecimalLoop_digits rest hrest ds hds 0 0 hv]
  simp [hlen]

/-- `%06llu` reads back -/
theorem ConsumeDecimalNumber_format06 (number : UInt64) :
    ConsumeDecimalNumber (formatDecimal06 number.toNat ++ rest) = some (number, rest) := by
  have hds : ∀ d ∈ List.replicate (6 - (formatDecimal number.toNat).length) 0 ++
      decimalDigits number.toNat, d < 10 := by
    intro d hd
    rcases List.mem_append.mp hd with hd | hd
    · rw [List.eq_of_mem_replicate hd]; norm_num
    · exact decimalDigits_lt hd
  have hval := foldl_replicate_zero (6 - (formatDecimal number.toNat).length)
    (decimalDigits number.toNat)
  rw [foldl_decimalDigits] at hval
  rw [formatDecimal06_eq, ConsumeDecimalNumber_digits rest hrest _ hds
    (by simp [decimalDigits_ne_nil]) (by rw [hval]; exact number.toNat_lt), hval,
    UInt64.ofNat_toNat]

/-- `%llu` reads back -/
theorem ConsumeDecimalNumber_format (number : UInt64) :
    ConsumeDecimalNumber (formatDecimal number.toNat ++ rest) = some (number, rest) := by
  rw [formatDecimal_eq, ConsumeDecimalNumber_digits rest hrest _ (fun _ => decimalDigits_lt)
    (decimalDigits_ne_nil _) (by rw [foldl_decimalDigits]; exact number.toNat_lt),
    foldl_decimalDigits, UInt64.ofNat_toNat]

end Decimal

/-! ## What the names start with -/

theorem kOptionsFileNamePrefix_cons : kOptionsFileNamePrefix = 'O' :: "PTIONS-".toList := rfl

section Prefix

variable (has_log_dir : Bool) (path : List Char)

theorem InfoLogPrefix_ne_nil : InfoLogPrefix has_log_dir path ≠ [] := by
  unfold InfoLogPrefix GetInfoLogPrefix
  split <;> simp

/-- a name the info log prefix starts begins with `L` (the prefix `LOG`), or holds a `_` (the
prefix made from the path, which ends in `_LOG`) -/
theorem InfoLogPrefix_isPrefixOf {x : List Char}
    (h : (InfoLogPrefix has_log_dir path).isPrefixOf x = true) : x.head? = some 'L' ∨ '_' ∈ x := by
  unfold InfoLogPrefix at h
  split at h
  · right
    exact (List.isPrefixOf_iff_prefix.mp h).subset (by simp [GetInfoLogPrefix])
  · left
    obtain ⟨t, rfl⟩ := List.isPrefixOf_iff_prefix.mp h
    simp

theorem InfoLogPrefix_not_isPrefixOf {x : List Char} (hL : x.head? ≠ some 'L') (hu : '_' ∉ x) :
    (InfoLogPrefix has_log_dir path).isPrefixOf x = false := by
  cases h : (InfoLogPrefix has_log_dir path).isPrefixOf x with
  | false => rfl
  | true => exact ((InfoLogPrefix_isPrefixOf has_log_dir path h).elim hL hu).elim

/-- no name that starts with the info log prefix is `IDENTITY`, `CURRENT` or `LOCK` -/
theorem InfoLogPrefix_append_ne {s : List Char}
    (hs : s ∈ ["IDENTITY".toList, "CURRENT".toList, "LOCK".toList]) (x : List Char) :
    InfoLogPrefix has_log_dir path ++ x ≠ s := by
  simp only [List.mem_cons, List.not_mem_nil, or_false] at hs
  unfold InfoLogPrefix
  split
  · intro h
    have hu : '_' ∈ s := h ▸ (by simp [GetInfoLogPrefix])
    rcases hs with rfl | rfl | rfl <;> simp at hu
  · rcases hs with rfl | rfl | rfl <;> simp

theorem ParseFileName_slash {rest : List Char} (h : rest ≠ []) (number : UInt64)
    ( info_log_name_prefix : List Char) (type : FileType) (log_type : Option WalFileType) :
    ParseFileName ('/' :: rest) number info_log_name_prefix type log_type =
      ParseFileName.ofRest rest number info_log_name_prefix type log_type := by
  have hlen : 0 < rest.length := List.length_pos_iff.mpr h
  simp [ParseFileName, hlen]

/-- a name that starts with none of the letters of the fixed names and prefixes, and holds no
`_`, goes to the last branch -/
theorem ofRest_of_head {c : Char} (hc : c ∉ ['I', 'C', 'L', 'M', 'O', '_']) {cs : List Char}
    (hu : '_' ∉ cs) (number : UInt64) (type : FileType) (log_type : Option WalFileType) :
    ParseFileName.ofRest (c :: cs) number (InfoLogPrefix has_log_dir path) type log_type =
      ParseFileName.numbered (c :: cs) number type log_type := by
  simp only [List.mem_cons, List.not_mem_nil, or_false, not_or] at hc
  obtain ⟨hI, hC, hL, hM, hO, hu'⟩ := hc
  have hp := InfoLogPrefix_not_isPrefixOf has_log_dir path (x := c :: cs) (by simpa using hL)
    (by simp [Ne.symm hu', hu])
  have h1 : c :: cs ≠ "IDENTITY".toList := by simp [hI]
  have h2 : c :: cs ≠ "CURRENT".toList := by simp [hC]
  have h3 : c :: cs ≠ "LOCK".toList := by simp [hL]
  have h4 : ¬((InfoLogPrefix has_log_dir path).length > 0 ∧
      (InfoLogPrefix has_log_dir path).isPrefixOf (c :: cs) = true) := by simp [hp]
  have h5 : ¬("MANIFEST-".toList.isPrefixOf (c :: cs) = true) := by
    simp [List.isPrefixOf_cons_cons, Ne.symm hM]
  have h6 : ¬("METADB-".toList.isPrefixOf (c :: cs) = true) := by
    simp [List.isPrefixOf_cons_cons, Ne.symm hM]
  have h7 : ¬(kOptionsFileNamePrefix.isPrefixOf (c :: cs) = true) := by
    unfold kOptionsFileNamePrefix
    simp [List.isPrefixOf_cons_cons, Ne.symm hO]
  rw [ParseFileName.ofRest, if_neg h1, if_neg h2, if_neg h3, if_neg h4, if_neg h5, if_neg h6,
    if_neg h7]

/-- a name that starts with the info log prefix goes to its branch -/
theorem ofRest_infoLogPrefix (x : List Char) (number : UInt64) (type : FileType)
    (log_type : Option WalFileType) :
    ParseFileName.ofRest (InfoLogPrefix has_log_dir path ++ x) number
        (InfoLogPrefix has_log_dir path) type log_type =
      ParseFileName.infoLog x number type log_type := by
  have hlen : 0 < (InfoLogPrefix has_log_dir path).length :=
    List.length_pos_iff.mpr (InfoLogPrefix_ne_nil has_log_dir path)
  have h1 := InfoLogPrefix_append_ne has_log_dir path (s := "IDENTITY".toList) (by simp) x
  have h2 := InfoLogPrefix_append_ne has_log_dir path (s := "CURRENT".toList) (by simp) x
  have h3 := InfoLogPrefix_append_ne has_log_dir path (s := "LOCK".toList) (by simp) x
  have h4 : (InfoLogPrefix has_log_dir path).length > 0 ∧
      (InfoLogPrefix has_log_dir path).isPrefixOf (InfoLogPrefix has_log_dir path ++ x) = true :=
    ⟨hlen, List.isPrefixOf_iff_prefix.mpr (List.prefix_append _ _)⟩
  rw [ParseFileName.ofRest, if_neg h1, if_neg h2, if_neg h3, if_pos h4, List.drop_left]

theorem ofRest_manifest (x : List Char) (hu : '_' ∉ x) (number : UInt64) (type : FileType)
    (log_type : Option WalFileType) :
    ParseFileName.ofRest ("MANIFEST-".toList ++ x) number (InfoLogPrefix has_log_dir path) type
        log_type =
      ParseFileName.numberOnly x .kDescriptorFile number type log_type := by
  have hp := InfoLogPrefix_not_isPrefixOf has_log_dir path (x := "MANIFEST-".toList ++ x)
    (by simp) (by simp [hu])
  have h1 : "MANIFEST-".toList ++ x ≠ "IDENTITY".toList := by simp
  have h2 : "MANIFEST-".toList ++ x ≠ "CURRENT".toList := by simp
  have h3 : "MANIFEST-".toList ++ x ≠ "LOCK".toList := by simp
  have h4 : ¬((InfoLogPrefix has_log_dir path).length > 0 ∧
      (InfoLogPrefix has_log_dir path).isPrefixOf ("MANIFEST-".toList ++ x) = true) :=
    fun h => Bool.false_ne_true (hp ▸ h.2)
  have h5 : "MANIFEST-".toList.isPrefixOf ("MANIFEST-".toList ++ x) = true :=
    List.isPrefixOf_iff_prefix.mpr (List.prefix_append _ _)
  have hdrop : ("MANIFEST-".toList ++ x).drop 9 = x := List.drop_left' rfl
  rw [ParseFileName.ofRest, if_neg h1, if_neg h2, if_neg h3, if_neg h4, if_pos h5, hdrop]

theorem ofRest_options (x : List Char) (hu : '_' ∉ x) (number : UInt64) (type : FileType)
    (log_type : Option WalFileType) :
    ParseFileName.ofRest (kOptionsFileNamePrefix ++ x) number (InfoLogPrefix has_log_dir path) type
        log_type =
      ParseFileName.options x number type log_type := by
  have hp := InfoLogPrefix_not_isPrefixOf has_log_dir path (x := kOptionsFileNamePrefix ++ x)
    (by simp [kOptionsFileNamePrefix_cons]) (by simp [kOptionsFileNamePrefix_cons, hu])
  have h1 : kOptionsFileNamePrefix ++ x ≠ "IDENTITY".toList := by simp [kOptionsFileNamePrefix_cons]
  have h2 : kOptionsFileNamePrefix ++ x ≠ "CURRENT".toList := by simp [kOptionsFileNamePrefix_cons]
  have h3 : kOptionsFileNamePrefix ++ x ≠ "LOCK".toList := by simp [kOptionsFileNamePrefix_cons]
  have h4 : ¬((InfoLogPrefix has_log_dir path).length > 0 ∧
      (InfoLogPrefix has_log_dir path).isPrefixOf (kOptionsFileNamePrefix ++ x) = true) :=
    fun h => Bool.false_ne_true (hp ▸ h.2)
  have h5 : ¬("MANIFEST-".toList.isPrefixOf (kOptionsFileNamePrefix ++ x) = true) := by
    simp [kOptionsFileNamePrefix_cons, List.isPrefixOf_cons_cons]
  have h6 : ¬("METADB-".toList.isPrefixOf (kOptionsFileNamePrefix ++ x) = true) := by
    simp [kOptionsFileNamePrefix_cons, List.isPrefixOf_cons_cons]
  have h7 : kOptionsFileNamePrefix.isPrefixOf (kOptionsFileNamePrefix ++ x) = true :=
    List.isPrefixOf_iff_prefix.mpr (List.prefix_append _ _)
  rw [ParseFileName.ofRest, if_neg h1, if_neg h2, if_neg h3, if_neg h4, if_neg h5, if_neg h6,
    if_pos h7, List.drop_left]

end Prefix

/-! ## The branches on the names written -/

section Branches

variable (number0 : UInt64) (type0 : FileType) (log_type0 : Option WalFileType)

/-- a number, a dot and a suffix outside the archive directory: the suffix decides -/
theorem numbered_format06 (number : UInt64) {suffix : List Char} (hs : suffix ≠ []) :
    ParseFileName.numbered (formatDecimal06 number.toNat ++ '.' :: suffix) number0 type0 log_type0 =
      ParseFileName.suffixed suffix false number number0 type0 log_type0 := by
  obtain ⟨c, cs, hcs⟩ := formatDecimal06_cons number.toNat
  have hc := mem_formatDecimal06 (hcs ▸ List.mem_cons_self : c ∈ formatDecimal06 number.toNat)
  have harch : ARCHIVAL_DIR.isPrefixOf (formatDecimal06 number.toNat ++ '.' :: suffix) = false := by
    have ha : c ≠ 'a' := by
      rintro rfl
      exact absurd hc (by decide)
    unfold ARCHIVAL_DIR
    rw [hcs, List.cons_append]
    simp [List.isPrefixOf_cons_cons, Ne.symm ha]
  have hread := ConsumeDecimalNumber_format06 ('.' :: suffix)
    (fun c hc => by simp at hc; subst hc; decide) number
  have hlen : ¬(('.' :: suffix).length ≤ 1 ∨ ('.' :: suffix).head? ≠ some '.') := by
    simp [hs]
  simp only [ParseFileName.numbered, harch, Bool.false_eq_true, false_and, if_false, hread]
  rw [if_neg hlen, List.drop_one, List.tail_cons]

/-- the archive directory, then a number, a dot and `log` -/
theorem numbered_archive (number : UInt64) :
    ParseFileName.numbered (ARCHIVAL_DIR ++ '/' :: formatDecimal06 number.toNat ++ '.' :: "log".toList)
        number0 type0 log_type0 =
      ⟨true, number, .kLogFile, log_type0.map fun _ => .kArchivedLogFile⟩ := by
  have harch : ARCHIVAL_DIR.isPrefixOf
      (ARCHIVAL_DIR ++ '/' :: formatDecimal06 number.toNat ++ '.' :: "log".toList) = true := by
    rw [List.append_assoc]
    exact List.isPrefixOf_iff_prefix.mpr (List.prefix_append _ _)
  have hlong : ¬(ARCHIVAL_DIR ++ '/' :: formatDecimal06 number.toNat ++ '.' :: "log".toList).length ≤
      ARCHIVAL_DIR.length := by
    simp only [List.length_append, List.length_cons]
    omega
  have hdrop : (ARCHIVAL_DIR ++ '/' :: formatDecimal06 number.toNat ++ '.' :: "log".toList).drop
      (ARCHIVAL_DIR.length + 1) = formatDecimal06 number.toNat ++ '.' :: "log".toList := by
    rw [List.append_assoc, List.drop_append]
    rfl
  have hread := ConsumeDecimalNumber_format06 ('.' :: "log".toList)
    (fun c hc => by simp at hc; subst hc; decide) number
  simp only [ParseFileName.numbered, harch, true_and, hlong, if_false, if_true, hdrop, hread]
  rfl

theorem numberOnly_format06 (number : UInt64) (file_type : FileType) :
    ParseFileName.numberOnly (formatDecimal06 number.toNat) file_type number0 type0 log_type0 =
      ⟨true, number, file_type, log_type0⟩ := by
  have hread := ConsumeDecimalNumber_format06 [] (by simp) number
  rw [List.append_nil] at hread
  simp only [ParseFileName.numberOnly, hread]
  rfl

theorem options_format06 (number : UInt64) :
    ParseFileName.options (formatDecimal06 number.toNat) number0 type0 log_type0 =
      ⟨true, number, .kOptionsFile, log_type0⟩ := by
  -- the digits end in a digit, never in the temporary suffix
  have htemp : ('.' :: kTempFileNameSuffix).isSuffixOf (formatDecimal06 number.toNat) = false := by
    cases h : ('.' :: kTempFileNameSuffix).isSuffixOf (formatDecimal06 number.toNat) with
    | false => rfl
    | true =>
      have hdot := (List.isSuffixOf_iff_suffix.mp h).subset (List.mem_cons_self)
      exact absurd (mem_formatDecimal06 hdot) (by decide)
  have hread := ConsumeDecimalNumber_format06 [] (by simp) number
  rw [List.append_nil] at hread
  simp only [ParseFileName.options, htemp, Bool.false_eq_true, if_false, hread]

theorem options_format06_temp (number : UInt64) :
    ParseFileName.options (formatDecimal06 number.toNat ++ '.' :: kTempFileNameSuffix) number0 type0
        log_type0 = ⟨true, number, .kTempFile, log_type0⟩ := by
  have htemp : ('.' :: kTempFileNameSuffix).isSuffixOf
      (formatDecimal06 number.toNat ++ '.' :: kTempFileNameSuffix) = true :=
    List.isSuffixOf_iff_suffix.mpr (List.suffix_append _ _)
  have htake : (formatDecimal06 number.toNat ++ '.' :: kTempFileNameSuffix).take
      ((formatDecimal06 number.toNat ++ '.' :: kTempFileNameSuffix).length -
        (kTempFileNameSuffix.length + 1)) = formatDecimal06 number.toNat := by
    rw [List.length_append, List.length_cons, Nat.add_sub_cancel, List.take_left]
  have hread := ConsumeDecimalNumber_format06 [] (by simp) number
  rw [List.append_nil] at hread
  simp only [ParseFileName.options, htemp, if_true, htake, hread]

theorem infoLog_old (ts : UInt64) :
    ParseFileName.infoLog (".old.".toList ++ formatDecimal ts.toNat) number0 type0 log_type0 =
      ⟨true, ts, .kInfoLogFile, log_type0⟩ := by
  have hne : ¬(".old.".toList ++ formatDecimal ts.toNat = [] ∨
      ".old.".toList ++ formatDecimal ts.toNat = ".old".toList) := by
    intro h
    have := congrArg List.length (h.resolve_left (by simp))
    simp at this
  have hold : ".old.".toList.isPrefixOf (".old.".toList ++ formatDecimal ts.toNat) = true :=
    List.isPrefixOf_iff_prefix.mpr (List.prefix_append _ _)
  have hread := ConsumeDecimalNumber_format [] (by simp) ts
  rw [List.append_nil] at hread
  have hdrop : (".old.".toList ++ formatDecimal ts.toNat).drop 5 = formatDecimal ts.toNat :=
    List.drop_left' rfl
  simp only [ParseFileName.infoLog, if_neg hne, hold, if_true, hdrop, hread]

end Branches

/-! ## Every name written parses back -/

section RoundTrip

variable (has_log_dir : Bool) (path : List Char) (number0 : UInt64) (type0 : FileType)
  (log_type0 : Option WalFileType)

/-- a number, a dot and a suffix after the database name: the suffix decides -/
theorem ParseFileName_MakeFileName (name : List Char) (number : UInt64) {suffix : List Char}
    (hs : suffix ≠ []) (hu : '_' ∉ suffix) :
    ParseFileName ((MakeFileName name number suffix).drop name.length) number0
        (InfoLogPrefix has_log_dir path) type0 log_type0 =
      ParseFileName.suffixed suffix false number number0 type0 log_type0 := by
  obtain ⟨c, cs, hcs⟩ := formatDecimal06_cons number.toNat
  have hc := mem_formatDecimal06 (hcs ▸ List.mem_cons_self : c ∈ formatDecimal06 number.toNat)
  have hu' : '_' ∉ cs ++ '.' :: suffix := by
    simp only [List.mem_append, List.mem_cons, not_or]
    refine ⟨fun h => ?_, by decide, hu⟩
    exact absurd (mem_formatDecimal06 (hcs ▸ List.mem_cons_of_mem c h)) (by decide)
  rw [MakeFileName, List.append_assoc, List.drop_left, List.cons_append,
    ParseFileName_slash (by simp), hcs, List.cons_append,
    ofRest_of_head has_log_dir path (digit_not_mem hc) hu', ← List.cons_append, ← hcs,
    numbered_format06 number0 type0 log_type0 number hs]

/-- the files a database names: logs, archived logs, table and temporary files in a directory of
their own, and the files of the database's directory and of its info log directory -/
inductive DbFile where
  | log (wal_dir : List Char) (number : UInt64)
  | archivedLog (wal_dir : List Char) (number : UInt64)
  | table (path : List Char) (number : UInt64)
  | temp (dir : List Char) (number : UInt64)
  | descriptor (number : UInt64)
  | current
  | lock
  | identity
  | options (file_num : UInt64)
  | tempOptions (file_num : UInt64)
  | infoLog
  | oldInfoLog (ts : UInt64)

namespace DbFile

/-- the name the generator of the file writes, for the database `dbname` at `db_path` with its
info log in `log_dir` (empty for the database's own directory) -/
def name (dbname db_path log_dir : List Char) : DbFile → List Char
  | log wal_dir number => LogFileName wal_dir number
  | archivedLog wal_dir number => ArchivedLogFileName wal_dir number
  | table path number => MakeTableFileName path number
  | temp dir number => TempFileName dir number
  | descriptor number => DescriptorFileName dbname number
  | current => CurrentFileName dbname
  | lock => LockFileName dbname
  | identity => IdentityFileName dbname
  | options file_num => OptionsFileName dbname file_num
  | tempOptions file_num => TempOptionsFileName dbname file_num
  | infoLog => InfoLogFileName dbname db_path log_dir
  | oldInfoLog ts => OldInfoLogFileName dbname ts db_path log_dir

/-- the directory the name starts with -/
def dir (dbname log_dir : List Char) : DbFile → List Char
  | log wal_dir _ => wal_dir
  | archivedLog wal_dir _ => wal_dir
  | table path _ => path
  | temp dir _ => dir
  | descriptor _ => dbname
  | current => dbname
  | lock => dbname
  | identity => dbname
  | options _ => dbname
  | tempOptions _ => dbname
  | infoLog => if log_dir.isEmpty then dbname else log_dir
  | oldInfoLog _ => if log_dir.isEmpty then dbname else log_dir

/-- the number and type the file stands for, and the log type of a log where the caller asks
for one -/
def parsed (log_type : Option WalFileType) : DbFile → ParsedFileName
  | log _ number => ⟨true, number, .kLogFile, log_type.map fun _ => .kAliveLogFile⟩
  | archivedLog _ number => ⟨true, number, .kLogFile, log_type.map fun _ => .kArchivedLogFile⟩
  | table _ number => ⟨true, number, .kTableFile, log_type⟩
  | temp _ number => ⟨true, number, .kTempFile, log_type⟩
  | descriptor number => ⟨true, number, .kDescriptorFile, log_type⟩
  | current => ⟨true, 0, .kCurrentFile, log_type⟩
  | lock => ⟨true, 0, .kDBLockFile, log_type⟩
  | identity => ⟨true, 0, .kIdentityFile, log_type⟩
  | options file_num => ⟨true, file_num, .kOptionsFile, log_type⟩
  | tempOptions file_num => ⟨true, file_num, .kTempFile, log_type⟩
  | infoLog => ⟨true, 0, .kInfoLogFile, log_type⟩
  | oldInfoLog ts => ⟨true, ts, .kInfoLogFile, log_type⟩

end DbFile

/-- **Every name written parses back.**  Each file a database names, read after its directory
with the prefix `InfoLogPrefix(!log_dir.empty(), db_path)` that the directory scans pass, is
recognised with its number and type, and a log with its log type where one is asked for; the
`%06llu` and `%llu` numbers read back whole up to `2^64` -/
theorem ParseFileName_name (f : DbFile) (dbname db_path log_dir : List Char) :
    ParseFileName ((f.name dbname db_path log_dir).drop (f.dir dbname log_dir).length) number0
        (InfoLogPrefix (!log_dir.isEmpty) db_path) type0 log_type0 =
      f.parsed log_type0 := by
  have hd (number : UInt64) : '_' ∉ formatDecimal06 number.toNat :=
    fun h => absurd (mem_formatDecimal06 h) (by decide)
  cases f with
  | log wal_dir number =>
    rw [DbFile.name, DbFile.dir, LogFileName, ParseFileName_MakeFileName _ _ number0 type0 log_type0
      wal_dir number (by simp) (by simp)]
    rfl
  | archivedLog wal_dir number =>
    -- the archive directory, then the log's own name
    have ha : ARCHIVAL_DIR = 'a' :: "rchive".toList := rfl
    have hname : (ArchivedLogFileName wal_dir number).drop wal_dir.length =
        '/' :: (ARCHIVAL_DIR ++ '/' :: formatDecimal06 number.toNat ++ '.' :: "log".toList) := by
      simp [ArchivedLogFileName, MakeFileName]
    have hu : '_' ∉ "rchive".toList ++ '/' :: formatDecimal06 number.toNat ++ '.' :: "log".toList := by
      simp [hd]
    rw [DbFile.name, DbFile.dir, hname, ParseFileName_slash (by simp), ha, List.cons_append,
      List.cons_append, ofRest_of_head _ _ (by decide) hu, ← List.cons_append, ← List.cons_append,
      ← ha, numbered_archive]
    rfl
  | table path number =>
    rw [DbFile.name, DbFile.dir, MakeTableFileName, ParseFileName_MakeFileName _ _ number0 type0
      log_type0 path number (by simp [kRocksDbTFileExt]) (by simp [kRocksDbTFileExt])]
    rfl
  | temp dir number =>
    rw [DbFile.name, DbFile.dir, TempFileName, ParseFileName_MakeFileName _ _ number0 type0
      log_type0 dir number (by simp [kTempFileNameSuffix]) (by simp [kTempFileNameSuffix])]
    rfl
  | descriptor number =>
    have hname : (DescriptorFileName dbname number).drop dbname.length =
        '/' :: ("MANIFEST-".toList ++ formatDecimal06 number.toNat) := by
      rw [DescriptorFileName, List.append_assoc, List.drop_left]
      rfl
    rw [DbFile.name, DbFile.dir, hname, ParseFileName_slash (by simp),
      ofRest_manifest _ _ _ (hd number), numberOnly_format06]
    rfl
  | current =>
    have hname : "/CURRENT".toList = '/' :: "CURRENT".toList := by decide
    rw [DbFile.name, DbFile.dir, CurrentFileName, List.drop_left, hname,
      ParseFileName_slash (by simp), ParseFileName.ofRest, if_neg (by decide), if_pos rfl]
    rfl
  | lock =>
    have hname : "/LOCK".toList = '/' :: "LOCK".toList := by decide
    rw [DbFile.name, DbFile.dir, LockFileName, List.drop_left, hname, ParseFileName_slash (by simp),
      ParseFileName.ofRest, if_neg (by decide), if_neg (by decide), if_pos rfl]
    rfl
  | identity =>
    have hname : "/IDENTITY".toList = '/' :: "IDENTITY".toList := by decide
    rw [DbFile.name, DbFile.dir, IdentityFileName, List.drop_left, hname,
      ParseFileName_slash (by simp), ParseFileName.ofRest, if_pos rfl]
    rfl
  | options file_num =>
    rw [DbFile.name, DbFile.dir, OptionsFileName, List.append_assoc, List.drop_left,
      List.cons_append, ParseFileName_slash (by simp [kOptionsFileNamePrefix_cons]),
      ofRest_options _ _ _ (hd file_num), options_format06]
    rfl
  | tempOptions file_num =>
    have hu : '_' ∉ formatDecimal06 file_num.toNat ++ '.' :: kTempFileNameSuffix := by
      simp only [List.mem_append, List.mem_cons, not_or]
      exact ⟨hd file_num, by decide, by simp [kTempFileNameSuffix]⟩
    rw [DbFile.name, DbFile.dir, TempOptionsFileName, List.append_assoc, List.append_assoc,
      List.drop_left, List.cons_append, ParseFileName_slash (by simp [kOptionsFileNamePrefix_cons]),
      ofRest_options _ _ _ hu, options_format06_temp]
    rfl
  | infoLog =>
    -- the info log's name is the prefix itself, in the directory it lives in
    have hname : (InfoLogFileName dbname db_path log_dir).drop
        (if log_dir.isEmpty then dbname else log_dir).length =
        '/' :: (InfoLogPrefix (!log_dir.isEmpty) db_path ++ []) := by
      cases h : log_dir.isEmpty <;> simp [InfoLogFileName, InfoLogPrefix, h]
    rw [DbFile.name, DbFile.dir, hname, ParseFileName_slash (by simp [InfoLogPrefix_ne_nil]),
      ofRest_infoLogPrefix]
    rfl
  | oldInfoLog ts =>
    have hname : (OldInfoLogFileName dbname ts db_path log_dir).drop
        (if log_dir.isEmpty then dbname else log_dir).length =
        '/' :: (InfoLogPrefix (!log_dir.isEmpty) db_path ++ (".old.".toList ++
          formatDecimal ts.toNat)) := by
      cases h : log_dir.isEmpty <;> simp [OldInfoLogFileName, InfoLogPrefix, h]
    rw [DbFile.name, DbFile.dir, hname, ParseFileName_slash (by simp [InfoLogPrefix_ne_nil]),
      ofRest_infoLogPrefix, infoLog_old]
    rfl

end RoundTrip

/-- **A name `ParseFileName` accepts without sorting it.**  `LOG.bak` starts with the info log
prefix `LOG` and goes on with neither `.old` nor `.old.`: the info log branch writes nothing, and
`ParseFileName` answers true with `*number` and `*type` as the caller left them -/
theorem parse_file_name_true_without_type (db_absolute_path : List Char) (number : UInt64)
    (type : FileType) (log_type : Option WalFileType) :
    ParseFileName "LOG.bak".toList number (InfoLogPrefix false db_absolute_path) type log_type =
      ⟨true, number, type, log_type⟩ := rfl

end RocksDB
