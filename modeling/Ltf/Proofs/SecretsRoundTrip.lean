import Ltf.Secrets

/-! Secrets written in any of three forms, with other lines between them, are read back
byte for byte. -/

namespace Ltf.Secrets
open CString CmdParser

inductive Form where
  | block
  | plain
  | quoted

/-- Neither end is a blank. -/
def Tight (text : List UInt8) : Prop := (∀ byte ∈ text.head?, 32 < byte) ∧ ∀ byte ∈ text.getLast?, 32 < byte

def FormAllows (value : List UInt8) : Form → Prop
  | .block => True
  | .plain => 10 ∉ value ∧ Tight value ∧ ¬ tripleQuote <+: value
  | .quoted => 10 ∉ value ∧ value.getLast? ≠ some 34

/-- A line that is not meant for the parser: it has no `=`. -/
structure Filler where
  bytes : List UInt8
  line : (10 : UInt8) ∉ bytes
  ignored : (61 : UInt8) ∉ bytes

/-- A secret with the lines in front of it and the form in which it is written. -/
structure Written where
  fillers : List Filler
  key : CStr
  value : CStr
  form : Form
  named : key.bytes ≠ []
  keyAllowed : ∀ byte ∈ key.bytes, byte ≠ 61 ∧ byte ≠ 10 ∧ byte ≠ 13
  keyTight : Tight key.bytes
  unquoted : ¬ tripleQuote <:+: value.bytes
  valueAllowed : (13 : UInt8) ∉ value.bytes
  allowed : FormAllows value.bytes form

/-- `#`, and then `key = a=b`. -/
example : Written where
  fillers := [{ bytes := [35], line := by simp, ignored := by simp }]
  key := ⟨[107, 101, 121], by simp⟩
  value := ⟨[97, 61, 98], by simp⟩
  form := .plain
  named := by simp
  keyAllowed := by simp
  keyTight := by simp [Tight]
  unquoted := by decide
  valueAllowed := by simp
  allowed := by simp [FormAllows, Tight, tripleQuote]

def Filler.text (filler : Filler) : List UInt8 := filler.bytes ++ [10]

namespace Written
variable (secret : Written)

def pair : KvPair := (secret.key, secret.value)

def entry : List UInt8 :=
  let key := secret.key.bytes
  let value := secret.value.bytes
  match secret.form with
  | .block => key ++ 61 :: tripleQuote ++ 10 :: value ++ 10 :: tripleQuote ++ [10]
  | .plain => key ++ 61 :: value ++ [10]
  | .quoted => key ++ 61 :: tripleQuote ++ value ++ tripleQuote ++ [10]

def text : List UInt8 := secret.fillers.flatMap Filler.text ++ secret.entry

end Written

section Lines

theorem stripLine_line {line : List UInt8} (clean : (0 : UInt8) ∉ line)
    (last : ∀ byte ∈ line.getLast?, byte ≠ 10 ∧ byte ≠ 13) : stripLine (line ++ [10]) = line := by
  have kept : line.rdropWhile (fun byte => byte == 10 || byte == 13) = line := by
    rw [List.rdropWhile_eq_self_iff]
    intro nonempty
    have inside := last _ (List.getLast?_eq_some_getLast nonempty)
    simp [inside.1, inside.2]
  rw [stripLine, List.rdropWhile_concat_pos _ _ _ (by decide), kept, List.takeWhile_eq_self_iff]
  intro byte inside
  have different : byte ≠ 0 := ne_of_mem_of_not_mem inside clean
  simpa using different

theorem trim_tight {text : List UInt8} (tight : Tight text) : trim text = text := by
  have left : ltrim text = text := by
    cases text with
    | nil => rfl
    | cons byte rest =>
      have first := tight.1 byte rfl
      rw [ltrim, List.dropWhile_cons_of_neg]
      simpa [isBlank] using first
  rw [trim, left, rtrim, List.rdropWhile_eq_self_iff]
  intro nonempty
  have last := tight.2 _ (List.getLast?_eq_some_getLast nonempty)
  simpa [isBlank] using last

/-- The first triple quote is the one that closes the value. -/
theorem strstrAt_close {value : List UInt8} (unquoted : ¬ tripleQuote <:+: value) (last : value.getLast? ≠ some 34) :
    strstrAt tripleQuote (value ++ tripleQuote) = some value.length := by
  induction value with
  | nil => decide
  | cons byte value ih =>
    rw [List.infix_cons_iff, not_or] at unquoted
    have elsewhere : ¬ tripleQuote <+: byte :: (value ++ tripleQuote) := by
      -- a quote that starts here either ends inside the value or needs its last byte to be one
      intro here
      match value with
      | [] => simp [tripleQuote] at here last; exact last here.symm
      | [second] => simp [tripleQuote] at here last; exact last here.2.symm
      | second :: third :: rest => exact unquoted.1 (by simpa [tripleQuote] using here)
    have rest : value.getLast? ≠ some 34 := by
      cases value with
      | nil => simp
      | cons second value => simpa using last
    rw [List.cons_append, strstrAt, if_neg elsewhere, ih unquoted.2 rest]
    rfl

end Lines

section Steps
variable {s : Parser}

theorem trim_sublist (text : List UInt8) : (trim text).Sublist text :=
  (List.rdropWhile_prefix _ _).sublist.trans (List.dropWhile_suffix _).sublist

theorem filler_step (outside : s.inMultiline = false) (filler : Filler) : parseLine s filler.text = s := by
  have ignored : (61 : UInt8) ∉ trim (stripLine filler.text) := by
    intro inside
    have line := (trim_sublist _).subset inside
    have text := (List.rdropWhile_prefix _ _).subset ((List.takeWhile_prefix _).subset line)
    simp [Filler.text, filler.ignored] at text
  have missing : strchr (trim (stripLine filler.text)) 61 = none := by
    rw [strchr, List.findIdx?_eq_none_iff]
    intro byte inside
    have different : byte ≠ 61 := ne_of_mem_of_not_mem inside ignored
    simpa using different
  unfold parseLine lineStep
  simp [outside, missing]

theorem fillers_run (outside : s.inMultiline = false) (fillers : List Filler) (rest : List UInt8) :
    (getlines (fillers.flatMap Filler.text ++ rest)).foldl parseLine s = (getlines rest).foldl parseLine s := by
  induction fillers with
  | nil => rfl
  | cons filler fillers ih =>
    rw [List.flatMap_cons, Filler.text, List.append_assoc, List.append_assoc, List.singleton_append,
      getlines_line filler.line, List.foldl_cons]
    have here := filler_step outside filler
    rw [Filler.text] at here
    rw [here, ih]

/-- A line with a key and the value behind it, as they are cut out of it. -/
theorem entry_step (outside : s.inMultiline = false) {key : CStr} {value : List UInt8} (named : key.bytes ≠ [])
    (keyAllowed : ∀ byte ∈ key.bytes, byte ≠ 61 ∧ byte ≠ 10 ∧ byte ≠ 13) (keyTight : Tight key.bytes)
    (clean : (0 : UInt8) ∉ value) (tight : Tight value) :
    parseLine s (key.bytes ++ 61 :: value ++ [10]) =
      if tripleQuote <+: value then
        match strstrAt tripleQuote (value.drop 3) with
        | some clos => { s with out := s.out ++ [(key, .ofBytes ((value.drop 3).take clos))] }
        | none =>
          let buf := if value.drop 3 ≠ [] then sbufAppend (sbufAppend none (value.drop 3)) [10] else none
          { s with mlKey := some key, buf, inMultiline := true }
      else { s with out := s.out ++ [(key, .ofBytes value)] } := by
  have last : ∀ byte ∈ (key.bytes ++ 61 :: value).getLast?, 32 < byte := by
    intro byte inside
    cases value with
    | nil => simp at inside; subst inside; decide
    | cons first value => exact tight.2 byte (by simpa using inside)
  have first : ∀ byte ∈ (key.bytes ++ 61 :: value).head?, 32 < byte := by
    intro byte inside
    apply keyTight.1 byte
    cases bytes : key.bytes with
    | nil => exact absurd bytes named
    | cons head rest => simpa [bytes] using inside
  have whole : (0 : UInt8) ∉ key.bytes ++ 61 :: value := by simp [key.terminated, clean]
  have stripped : stripLine (key.bytes ++ 61 :: value ++ [10]) = key.bytes ++ 61 :: value := by
    apply stripLine_line whole
    intro byte inside
    have above := last byte inside
    constructor <;> rintro rfl <;> exact absurd above (by decide)
  have free : (61 : UInt8) ∉ key.bytes := fun inside => (keyAllowed 61 inside).1 rfl
  have nonempty : key.bytes ++ 61 :: value ≠ [] := by simp
  have keyPart : trim ((key.bytes ++ 61 :: value).take key.bytes.length) = key.bytes := by
    rw [List.take_left]
    exact trim_tight keyTight
  have valuePart : trim ((key.bytes ++ 61 :: value).drop (key.bytes.length + 1)) = value := by
    rw [List.drop_append, List.drop_of_length_le (by omega), Nat.add_sub_cancel_left]
    exact trim_tight tight
  unfold parseLine lineStep
  cases closed : strstrAt tripleQuote (value.drop 3) <;>
    simp only [stripped, outside, Bool.false_eq_true, if_false, trim_tight ⟨first, last⟩, nonempty,
      strchr_append free value, keyPart, valuePart, named, CStr.ofBytes_bytes, closed]

theorem plain_step (outside : s.inMultiline = false) {secret : Written} (plain : secret.form = .plain) :
    parseLine s secret.entry = { s with out := s.out ++ [secret.pair] } := by
  have allowed := secret.allowed
  rw [plain] at allowed
  obtain ⟨-, tight, unquoted⟩ := allowed
  simp only [Written.entry, plain]
  rw [entry_step outside secret.named secret.keyAllowed secret.keyTight secret.value.terminated tight, if_neg unquoted,
    CStr.ofBytes_bytes]
  rfl

theorem quoted_step (outside : s.inMultiline = false) {secret : Written} (quoted : secret.form = .quoted) :
    parseLine s secret.entry = { s with out := s.out ++ [secret.pair] } := by
  have allowed := secret.allowed
  rw [quoted] at allowed
  have clean : (0 : UInt8) ∉ tripleQuote ++ secret.value.bytes ++ tripleQuote := by
    simp [tripleQuote, secret.value.terminated]
  have tight : Tight (tripleQuote ++ secret.value.bytes ++ tripleQuote) := by
    constructor
    · simp [tripleQuote]
    · rw [List.getLast?_append]
      simp [tripleQuote]
  have entered : secret.entry =
      secret.key.bytes ++ 61 :: (tripleQuote ++ secret.value.bytes ++ tripleQuote) ++ [10] := by
    simp [Written.entry, quoted]
  have behind : (tripleQuote ++ secret.value.bytes ++ tripleQuote).drop 3 = secret.value.bytes ++ tripleQuote := rfl
  rw [entered, entry_step outside secret.named secret.keyAllowed secret.keyTight clean tight, 
    if_pos ⟨secret.value.bytes ++ tripleQuote, by rw [List.append_assoc]⟩, behind,
    strstrAt_close secret.unquoted allowed.2]
  simp [Written.pair]

/-- The line that opens a value over several lines. -/
theorem open_step (outside : s.inMultiline = false) (secret : Written) :
    parseLine s (secret.key.bytes ++ 61 :: tripleQuote ++ [10]) =
      { s with mlKey := some secret.key, buf := none, inMultiline := true } := by
  rw [entry_step outside secret.named secret.keyAllowed secret.keyTight (by decide)
    (by constructor <;> simp [tripleQuote])]
  rfl

/-- A line of the value itself. -/
theorem content_step (inside : s.inMultiline = true) {line : List UInt8} (clean : (0 : UInt8) ∉ line)
    (plain : ∀ byte ∈ line, byte ≠ 10 ∧ byte ≠ 13) (unquoted : ¬ tripleQuote <:+: line) :
    parseLine s (line ++ [10]) = { s with buf := some (s.buf.getD [] ++ line ++ [10]) } := by
  have stripped := stripLine_line clean fun byte last => plain byte (List.mem_of_getLast? last)
  have opened : ¬ tripleQuote <+: line.dropWhile isSpace := by
    intro here
    exact unquoted (here.isInfix.trans (List.dropWhile_suffix _).isInfix)
  unfold parseLine multilineStep
  rw [stripped, inside, if_pos rfl, if_neg opened, (strstrAt_none line).mpr unquoted]
  cases line <;> simp [sbufAppend]

/-- The lines of a value are gathered in the buffer, each with its newline. -/
theorem content_run {s : Parser} (inside : s.inMultiline = true) {value : List UInt8} (clean : (0 : UInt8) ∉ value)
    (plain : (13 : UInt8) ∉ value) (unquoted : ¬ tripleQuote <:+: value) (rest : List UInt8) :
    (getlines (value ++ 10 :: rest)).foldl parseLine s =
      (getlines rest).foldl parseLine { s with buf := some (s.buf.getD [] ++ value ++ [10]) } := by
  by_cases single : (10 : UInt8) ∉ value
  · have kept : ∀ byte ∈ value, byte ≠ 10 ∧ byte ≠ 13 := by
      intro byte here
      exact ⟨ne_of_mem_of_not_mem here single, ne_of_mem_of_not_mem here plain⟩
    rw [getlines_line single, List.foldl_cons, content_step inside clean kept unquoted]
  · rw [not_not] at single
    -- the value is its first line and what comes behind that
    obtain ⟨line, later, rfl, whole⟩ := List.eq_append_cons_of_mem single
    have linePart : line <:+: line ++ 10 :: later := (List.prefix_append ..).isInfix
    have laterPart : later <:+: line ++ 10 :: later := ⟨line ++ [10], [], by simp⟩
    have kept : ∀ byte ∈ line, byte ≠ 10 ∧ byte ≠ 13 := by
      intro byte here
      exact ⟨ne_of_mem_of_not_mem here whole, ne_of_mem_of_not_mem (linePart.subset here) plain⟩
    have first := content_step inside (fun zero => clean (linePart.subset zero)) kept
      fun quote => unquoted (quote.trans linePart)
    have others := content_run (s := { s with buf := some (s.buf.getD [] ++ line ++ [10]) }) inside
      (fun zero => clean (laterPart.subset zero)) (fun byte => plain (laterPart.subset byte))
      (fun quote => unquoted (quote.trans laterPart)) rest
    rw [List.append_assoc, List.cons_append, getlines_line whole, List.foldl_cons, first, others]
    simp
termination_by value.length

/-- The line that closes a value takes back the newline in front of it. -/
theorem close_step (inside : s.inMultiline = true) {value : List UInt8} (gathered : s.buf = some (value ++ [10])) :
    parseLine s (tripleQuote ++ [10]) =
      { out := s.out ++ [(s.mlKey.getD (.lit ""), .ofBytes value)] } := by
  have stripped : stripLine (tripleQuote ++ [10]) = tripleQuote := by decide
  have closes : tripleQuote <+: tripleQuote.dropWhile isSpace := by decide
  unfold parseLine multilineStep
  rw [stripped, inside, if_pos rfl, if_pos closes]
  simp [gathered, finishMultiline]

theorem block_run (outside : s.inMultiline = false) {secret : Written} (block : secret.form = .block)
    (rest : List UInt8) :
    (getlines (secret.entry ++ rest)).foldl parseLine s =
      (getlines rest).foldl parseLine { out := s.out ++ [secret.pair] } := by
  have entered : secret.entry ++ rest =
      (secret.key.bytes ++ 61 :: tripleQuote) ++ 10 :: (secret.value.bytes ++ 10 :: (tripleQuote ++ 10 :: rest)) := by
    simp [Written.entry, block]
  have header : (10 : UInt8) ∉ secret.key.bytes ++ 61 :: tripleQuote := by
    have key : (10 : UInt8) ∉ secret.key.bytes := fun inside => (secret.keyAllowed 10 inside).2.1 rfl
    simp [key, tripleQuote]
  rw [entered, getlines_line header, List.foldl_cons, open_step outside secret,
    content_run rfl secret.value.terminated secret.valueAllowed secret.unquoted, getlines_line (by decide),
    List.foldl_cons, close_step rfl (by simp; rfl)]
  simp [Written.pair]

/-- Whatever the form, the secret is what has been added when its text is read. -/
theorem entry_run (secret : Written) (out : List KvPair) (rest : List UInt8) :
    (getlines (secret.entry ++ rest)).foldl parseLine { out } =
      (getlines rest).foldl parseLine { out := out ++ [secret.pair] } := by
  have key : (10 : UInt8) ∉ secret.key.bytes := fun inside => (secret.keyAllowed 10 inside).2.1 rfl
  have allowed := secret.allowed
  cases form : secret.form with
  | block => exact block_run rfl form rest
  | plain =>
    rw [form] at allowed
    have entered : secret.entry = secret.key.bytes ++ 61 :: secret.value.bytes ++ [10] := by simp [Written.entry, form]
    have line : (10 : UInt8) ∉ secret.key.bytes ++ 61 :: secret.value.bytes := by simp [key, allowed.1]
    have step := plain_step (s := { out }) rfl form
    rw [entered] at step ⊢
    rw [List.append_assoc, List.singleton_append, getlines_line line, List.foldl_cons, step]
  | quoted =>
    rw [form] at allowed
    have entered : secret.entry =
        secret.key.bytes ++ 61 :: tripleQuote ++ secret.value.bytes ++ tripleQuote ++ [10] := by
      simp [Written.entry, form]
    have line : (10 : UInt8) ∉ secret.key.bytes ++ 61 :: tripleQuote ++ secret.value.bytes ++ tripleQuote := by
      simp [key, allowed.1, tripleQuote]
    have step := quoted_step (s := { out }) rfl form
    rw [entered] at step ⊢
    rw [List.append_assoc, List.singleton_append, getlines_line line, List.foldl_cons, step]

theorem texts_run (secrets : List Written) (out : List KvPair) (rest : List UInt8) :
    (getlines (secrets.flatMap Written.text ++ rest)).foldl parseLine { out } =
      (getlines rest).foldl parseLine { out := out ++ secrets.map Written.pair } := by
  induction secrets generalizing out with
  | nil => simp
  | cons secret secrets ih =>
    rw [List.flatMap_cons, Written.text, List.append_assoc, List.append_assoc, fillers_run rfl, entry_run, ih]
    simp

end Steps

/-- A file of secrets gives back the keys and values that were written, in order. -/
theorem parse_written (secrets : List Written) (last : List Filler) (out : List KvPair) :
    ltfSecretsParseFile (.content (secrets.flatMap Written.text ++ last.flatMap Filler.text)) out =
      (0, out ++ secrets.map Written.pair) := by
  have end_reached := fillers_run (s := { out := out ++ secrets.map Written.pair }) rfl last []
  rw [List.append_nil] at end_reached
  simp only [ltfSecretsParseFile, texts_run, end_reached]
  rfl

end Ltf.Secrets
