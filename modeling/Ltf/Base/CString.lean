import Mathlib.Data.List.Basic
import Mathlib.Data.List.Infix
import Mathlib.Data.List.TakeWhile

/-! Byte strings the way C sees them. A `CStr` is the text of a NUL-terminated
heap string, and its block is one byte longer than the text. What lies behind a
block is not known: an over-long read returns bytes chosen by the caller. -/

namespace CString

/-- `none` when `NULL` or a pointer into memory that is gone was followed. -/
abbrev Memory := Option

structure CStr where
  bytes : List UInt8
  terminated : (0 : UInt8) ∉ bytes
deriving DecidableEq

namespace CStr

@[ext] theorem ext {first second : CStr} (same : first.bytes = second.bytes) : first = second := by
  cases first
  cases second
  simpa using same

/-- `strdup` of a buffer: the bytes up to the first NUL. -/
def ofBytes (buffer : List UInt8) : CStr where
  bytes := buffer.takeWhile (· ≠ 0)
  terminated inside := by simpa using List.mem_takeWhile_imp inside

/-- `strndup`: at most `count` bytes, and never past the first NUL. -/
def strndup (buffer : List UInt8) (count : Nat) : CStr := ofBytes (buffer.take count)

/-- A string literal of the source. -/
def lit (text : String) : CStr := ofBytes text.toUTF8.data.toList

/-- What `printf` makes of a format: its pieces in turn. -/
def concat (pieces : List CStr) : CStr := ofBytes (pieces.flatMap (·.bytes))

/-- The size of the heap block: the text and its terminator. -/
def blockSize (text : CStr) : Nat := text.bytes.length + 1

/-- `count` bytes starting at the block, as an explicit length makes C read them. -/
def read (beyond : Nat → UInt8) (text : CStr) (count : Nat) : List UInt8 :=
  (text.bytes ++ 0 :: (List.range count).map beyond).take count

theorem ofBytes_eq {buffer : List UInt8} (clean : (0 : UInt8) ∉ buffer) : (ofBytes buffer).bytes = buffer := by
  simp only [ofBytes, List.takeWhile_eq_self_iff]
  intro byte inside
  simp only [decide_eq_true_eq]
  intro equal
  subst equal
  exact clean inside

theorem concat_bytes (pieces : List CStr) : (concat pieces).bytes = pieces.flatMap (·.bytes) := by
  apply ofBytes_eq
  rw [List.mem_flatMap]
  rintro ⟨piece, -, inside⟩
  exact piece.terminated inside

@[simp] theorem ofBytes_bytes (text : CStr) : ofBytes text.bytes = text :=
  ext (ofBytes_eq text.terminated)

theorem strndup_all {buffer : List UInt8} (clean : (0 : UInt8) ∉ buffer) :
    (strndup buffer buffer.length).bytes = buffer := by
  rw [strndup, List.take_length, ofBytes_eq clean]

theorem read_within (beyond : Nat → UInt8) {text : CStr} {count : Nat} (inside : count ≤ text.bytes.length) :
    text.read beyond count = text.bytes.take count := by
  rw [read, List.take_append_of_le_length inside]

theorem take_clean {text : CStr} (count : Nat) : (0 : UInt8) ∉ text.bytes.take count :=
  fun inside => text.terminated (List.mem_of_mem_take inside)

end CStr

/-- `(int)value` of a `size_t`. -/
def toInt (value : Nat) : Int :=
  let low := value % 4294967296
  if low < 2147483648 then low else low - 4294967296

/-- `(int)value` of a `lua_Integer`. -/
def toInt32 (value : Int) : Int := toInt (value % 4294967296).toNat

/-- An `int` assigned to a `size_t`. -/
def toSize (value : Int) : Nat := (value % 18446744073709551616).toNat

theorem toInt_of_lt {value : Nat} (small : value < 2147483648) : toInt value = value := by
  simp only [toInt]
  split <;> omega

theorem toInt_le (value : Nat) : toInt value ≤ value := by
  simp only [toInt]
  split <;> omega

theorem toSize_toInt {value : Nat} (small : value < 2147483648) : toSize (toInt value) = value := by
  rw [toInt_of_lt small, toSize]
  omega

theorem toInt_toNat {value : Nat} (nonneg : 0 ≤ toInt value) : toInt (toInt value).toNat = toInt value := by
  have nonneg : value % 4294967296 < 2147483648 := by
    simp only [toInt] at nonneg
    split at nonneg <;> omega
  simp only [toInt, nonneg, ite_true, Int.toNat_natCast]
  rw [Nat.mod_mod, if_pos nonneg]

def isSpace (byte : UInt8) : Bool := byte == 32 || (9 ≤ byte && byte ≤ 13)

def isDigit (byte : UInt8) : Bool := 48 ≤ byte && byte ≤ 57

def digits (value : Nat) : List UInt8 → Nat
  | [] => value
  | byte :: rest => if isDigit byte then digits (10 * value + (byte.toNat - 48)) rest else value

/-- `atoi`, with no bound on the result: overflow is undefined in C. -/
def atoi (text : List UInt8) : Int :=
  match text.dropWhile isSpace with
  | 45 :: rest => -(digits 0 rest : Int)
  | 43 :: rest => digits 0 rest
  | rest => digits 0 rest

/-- `strchr`, as an offset from the start. -/
def strchr (text : List UInt8) (byte : UInt8) : Option Nat := text.findIdx? (· == byte)

/-- `strrchr`, as an offset from the start. -/
def strrchr (text : List UInt8) (byte : UInt8) : Option Nat :=
  (text.reverse.findIdx? (· == byte)).map fun behind => text.length - 1 - behind

/-- What `strtok` returns in turn: the runs between delimiters that are not empty. -/
def strtok (text : List UInt8) (delim : UInt8) : List (List UInt8) := (text.splitOn delim).filter (· ≠ [])

def lower (byte : UInt8) : UInt8 := if 65 ≤ byte && byte ≤ 90 then byte + 32 else byte

/-- `!strcasecmp(first, second)` -/
def equalsIgnoringCase (first second : CStr) : Bool := first.bytes.map lower == second.bytes.map lower

/-- `!strncasecmp(start, text, strlen(start))` -/
def startsIgnoringCase (text start : CStr) : Bool :=
  (text.bytes.take start.bytes.length).map lower == start.bytes.map lower

/-- What `getline` returns in turn: each line with its newline, the last one maybe without. -/
def getlines : List UInt8 → List (List UInt8)
  | [] => []
  | byte :: rest =>
    if byte = 10 then [10] :: getlines rest
    else
      match getlines rest with
      | [] => [[byte]]
      | line :: lines => (byte :: line) :: lines

/-- `strstr`, as an offset from the start. -/
def strstrAt (needle : List UInt8) : List UInt8 → Option Nat
  | [] => if needle = [] then some 0 else none
  | byte :: rest => if needle <+: byte :: rest then some 0 else (strstrAt needle rest).map (· + 1)

/-- `strstr`: does the needle occur anywhere? -/
def strstr (text needle : List UInt8) : Bool := decide (needle <:+: text)

theorem strrchr_append {after : List UInt8} {byte : UInt8} (clean : byte ∉ after) (before : List UInt8) :
    strrchr (before ++ byte :: after) byte = some before.length := by
  have last : (before ++ byte :: after).reverse.findIdx? (· == byte) = some after.length := by
    rw [List.reverse_append, List.reverse_cons, List.append_assoc, List.findIdx?_append]
    have none_there : after.reverse.findIdx? (· == byte) = none := by
      rw [List.findIdx?_eq_none_iff]
      intro other inside
      rw [beq_eq_false_iff_ne]
      rintro rfl
      exact clean (List.mem_reverse.mp inside)
    rw [none_there]
    simp [List.findIdx?_cons]
  rw [strrchr, last, Option.map_some, List.length_append, List.length_cons]
  congr 1
  omega

theorem strchr_append {before : List UInt8} {byte : UInt8} (clean : byte ∉ before) (rest : List UInt8) :
    strchr (before ++ byte :: rest) byte = some before.length := by
  induction before with
  | nil => simp [strchr, List.findIdx?_cons]
  | cons first before ih =>
    rw [List.mem_cons, not_or] at clean
    have later : List.findIdx? (· == byte) (before ++ byte :: rest) = some before.length := ih clean.2
    simp [strchr, List.findIdx?_cons, later, Ne.symm clean.1]

theorem mem_splitOn (text : List UInt8) (delim : UInt8) : ∀ piece ∈ text.splitOn delim, delim ∉ piece := by
  induction text with
  | nil => simp
  | cons byte text ih =>
    rw [List.splitOn_cons_eq_if_modifyHead]
    cases pieces : text.splitOn delim with
    | nil => exact absurd pieces (List.splitOn_ne_nil _ _)
    | cons piece pieces' =>
      rw [pieces] at ih
      intro other inside
      split at inside
      · obtain rfl | inside := List.mem_cons.mp inside
        · exact List.not_mem_nil
        · exact ih other inside
      next different =>
        rw [List.modifyHead_cons, List.mem_cons] at inside
        obtain rfl | inside := inside
        · rw [List.mem_cons, not_or]
          exact ⟨fun same => different (by simp [same]), ih piece List.mem_cons_self⟩
        · exact ih other (List.mem_cons_of_mem _ inside)

theorem mem_strtok {text token : List UInt8} {delim : UInt8} (inside : token ∈ strtok text delim) : delim ∉ token :=
  mem_splitOn text delim token (List.mem_filter.mp inside).1

theorem mem_join {texts : List (List UInt8)} {delim byte : UInt8} (inside : byte ∈ [delim].intercalate texts) :
    byte = delim ∨ ∃ text ∈ texts, byte ∈ text := by
  induction texts with
  | nil => simp at inside
  | cons first texts ih =>
    cases texts with
    | nil => exact .inr ⟨first, List.mem_cons_self, by simpa using inside⟩
    | cons second texts =>
      rw [List.intercalate_cons_cons, List.mem_append, List.mem_append, List.mem_singleton] at inside
      obtain (here | here) | later := inside
      · exact .inr ⟨first, List.mem_cons_self, here⟩
      · exact .inl here
      · obtain same | among := ih later
        · exact .inl same
        · obtain ⟨text, among, here⟩ := among
          exact .inr ⟨text, List.mem_cons_of_mem _ among, here⟩

/-- Texts without the delimiter are the tokens of their join. -/
theorem strtok_join {texts : List (List UInt8)} {delim : UInt8} (clean : ∀ text ∈ texts, delim ∉ text)
    (full : ∀ text ∈ texts, text ≠ []) : strtok ([delim].intercalate texts) delim = texts := by
  rw [strtok]
  by_cases empty : texts = []
  · subst empty
    simp
  · rw [List.splitOn_intercalate _ clean empty, List.filter_eq_self]
    simpa using full

theorem getlines_line {line : List UInt8} (whole : (10 : UInt8) ∉ line) (rest : List UInt8) :
    getlines (line ++ 10 :: rest) = (line ++ [10]) :: getlines rest := by
  induction line with
  | nil => simp [getlines]
  | cons byte line ih =>
    rw [List.mem_cons, not_or] at whole
    rw [List.cons_append, getlines, if_neg (Ne.symm whole.1), ih whole.2]
    rfl

theorem strstrAt_none {needle : List UInt8} (text : List UInt8) : strstrAt needle text = none ↔ ¬ needle <:+: text := by
  induction text with
  | nil => by_cases empty : needle = [] <;> simp [strstrAt, empty]
  | cons byte rest ih =>
    rw [strstrAt, List.infix_cons_iff, not_or]
    split
    next here => simp [here]
    next elsewhere => simp [elsewhere, ih]

section Buffers
variable {before after : List UInt8}

/-- `while (stays(*p)) p++;` from an offset, which has to stop inside the buffer. -/
def scan (stays : UInt8 → Bool) (buffer : List UInt8) (i : Nat) : Option Nat :=
  ((buffer.drop i).findIdx? fun byte => !stays byte).map (i + ·)

/-- The text of the string that begins at an offset and ends inside the buffer. -/
def strAt (buffer : List UInt8) (i : Nat) : Option (List UInt8) :=
  if 0 ∈ buffer.drop i then some ((buffer.drop i).takeWhile (· ≠ 0)) else none

theorem scan_run {stays : UInt8 → Bool} {passed : List UInt8} {stop : UInt8} (pass : ∀ byte ∈ passed, stays byte = true)
    (stops : stays stop = false) :
    scan stays (before ++ (passed ++ stop :: after)) before.length = some (before.length + passed.length) := by
  have found : (passed ++ stop :: after).findIdx? (fun byte => !stays byte) = some passed.length := by
    rw [List.findIdx?_append, List.findIdx?_eq_none_iff.mpr fun byte inside => by simp [pass byte inside]]
    simp [List.findIdx?_cons, stops]
  rw [scan, List.drop_left, found]
  rfl

theorem takeWhile_text {text : List UInt8} (clean : (0 : UInt8) ∉ text) :
    (text ++ 0 :: after).takeWhile (· ≠ 0) = text := by
  rw [List.takeWhile_append_of_pos fun byte inside => by simpa using ne_of_mem_of_not_mem inside clean]
  simp

theorem strAt_middle {text : List UInt8} (clean : (0 : UInt8) ∉ text) :
    strAt (before ++ (text ++ 0 :: after)) before.length = some text := by
  rw [strAt, List.drop_left, if_pos (by simp), takeWhile_text clean]

end Buffers

end CString
