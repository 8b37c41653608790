import Ltf.Vars
import Mathlib.Data.List.DropRight

/-! `ltf_secrets.c`. A buffer holds the bytes in front of its terminator. Memory does not
run out. -/

namespace Ltf.Secrets
open CString CmdParser Vars

/-- Are these bytes at most a blank? `\0` ends a string, so it is never looked at. -/
def isBlank (byte : UInt8) : Bool := byte ≤ 32

def rtrim (s : List UInt8) : List UInt8 := s.rdropWhile isBlank

def ltrim (s : List UInt8) : List UInt8 := s.dropWhile isBlank

def trim (s : List UInt8) : List UInt8 := rtrim (ltrim s)

def tripleQuote : List UInt8 := [34, 34, 34]

/-- The variables of the loop over the lines. A buffer that is `NULL` has length `0`. -/
structure Parser where
  out : List KvPair
  inMultiline : Bool := false
  mlKey : Option CStr := none
  buf : Option (List UInt8) := none

def sbufAppend (buf : Option (List UInt8)) (src : List UInt8) : Option (List UInt8) := some (buf.getD [] ++ src)

def finishMultiline (s : Parser) : Parser where
  out := s.out ++ [(s.mlKey.getD (.lit ""), .ofBytes (s.buf.getD []))]

/-- `line[m - 1]` is cut off while it is `\n` or `\r`. What is left is read up to the first `\0`. -/
def stripLine (line : List UInt8) : List UInt8 :=
  (line.rdropWhile fun byte => byte == 10 || byte == 13).takeWhile (· ≠ 0)

/-- A line inside a multiline value. -/
def multilineStep (s : Parser) (p : List UInt8) : Parser :=
  if tripleQuote <+: p.dropWhile isSpace then
    -- the newline after the last line of the content is taken back
    let buf := if (s.buf.getD []).getLast? = some 10 then s.buf.map List.dropLast else s.buf
    finishMultiline { s with buf }
  else
    match strstrAt tripleQuote p with
    | some clos => finishMultiline { s with buf := if clos > 0 then sbufAppend s.buf (p.take clos) else s.buf }
    | none =>
      let buf := if p ≠ [] then sbufAppend s.buf p else s.buf
      { s with buf := sbufAppend buf [10] }

/-- A line outside. Blank ones, those without `=` and those without a key are ignored. -/
def lineStep (s : Parser) (line : List UInt8) : Parser :=
  let text := trim line
  if text = [] then s
  else
    match strchr text 61 with
    | none => s
    | some eq =>
      let key := trim (text.take eq)
      let val := trim (text.drop (eq + 1))
      if key = [] then s
      else if tripleQuote <+: val then
        let val := val.drop 3
        match strstrAt tripleQuote val with
        | some clos => { s with out := s.out ++ [(.ofBytes key, .ofBytes (val.take clos))] }
        | none =>
          let buf := if val ≠ [] then sbufAppend (sbufAppend none val) [10] else none
          { s with mlKey := some (.ofBytes key), buf, inMultiline := true }
      else { s with out := s.out ++ [(.ofBytes key, .ofBytes val)] }

def parseLine (s : Parser) (line : List UInt8) : Parser :=
  let line := stripLine line
  if s.inMultiline then multilineStep s line else lineStep s line

/-- The file `.secrets` of the project. -/
inductive SecretsFile where
  | missing
  | unreadable
  | content (bytes : List UInt8)

/-- What is returned, and what is left in `out`. A value that is still open at the end of
the file is finished there. -/
def ltfSecretsParseFile (file : SecretsFile) (out : List KvPair) : Int × List KvPair :=
  match file with
  | .missing => (0, out)
  | .unreadable => (-1, out)
  | .content bytes =>
    let s := (getlines bytes).foldl parseLine { out }
    (0, (if s.inMultiline then finishMultiline s else s).out)

/-- A registered secret, with a value once there is one. -/
abbrev Secret := CStr × Option CStr

/-- `ltf_register_secrets` -/
def ltfRegisterSecrets (new : List CStr) (secrets : DaPtr Secret) : DaPtr Secret :=
  some (secrets.getD [] ++ new.map fun name => (name, none))

def secretRegisteredTwice (name : CStr) : CStr :=
  .concat [errorColored, .lit "Secret '", name, .lit "' was registered more than once.\n"]

def secretSpecifiedTwice (key : CStr) : CStr :=
  .concat [errorColored, .lit "Value for secret '", key, .lit "' was specified more than once.\n"]

/-- The body of the loop over the registered secrets: the secret and what is reported. -/
def parseSecret (specified : List KvPair) (reg : Secret) : Secret × List CStr :=
  match specified.find? (reg.1 = ·.1) with
  | some spec => ((reg.1, some spec.2), [])
  | none => (reg, [.concat [errorColored, .lit "Value for secret '", reg.1,
      .lit "' is not provided. Please add it in '.secrets' file.\n"]])

/-- What `ltf_parse_secrets` returns, leaves in `secrets` and prints to `stderr`. -/
structure ParsedSecrets where
  res : Int
  secrets : DaPtr Secret
  errors : List CStr := []
  warnings : List CStr := []

/-- Each error that is reported sets the result. -/
def ltfParseSecrets (file : SecretsFile) (secrets : DaPtr Secret) : ParsedSecrets :=
  let (res, specified) := ltfSecretsParseFile file []
  if res ≠ 0 then { res, secrets }
  else
    let registered := secrets.getD []
    let errors :=
      searchDuplicates (registered.map Prod.fst) secretRegisteredTwice ++
        searchDuplicates (specified.map Prod.fst) secretSpecifiedTwice ++
        registered.flatMap fun reg => (parseSecret specified reg).2
    { res := if errors.isEmpty then 0 else -1
      secrets := secrets.map fun registered => registered.map fun reg => (parseSecret specified reg).1
      errors
      warnings := (specified.filter fun spec => !registered.any (·.1 = spec.1)).map fun spec =>
        .concat [warningColored, .lit "Secret '", spec.1, .lit "' was not registered.\n"] }

end Ltf.Secrets
