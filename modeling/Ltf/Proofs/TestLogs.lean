import Ltf.TestLogs
import Mathlib.Data.List.Perm.Subperm

/-! The log files of the test runs of a project. A run keeps the name of its raw log
from its start on and creates the file at its end. -/

namespace Ltf.Proofs.TestLogs
open CString JsonC

theorem digit_byte (value : Nat) : (48 + UInt8.ofNat (value % 10)).toNat = 48 + value % 10 := by
  have small : (UInt8.ofNat (value % 10)).toNat = value % 10 :=
    UInt8.toNat_ofNat_of_lt (by show value % 10 < 256; omega)
  rw [UInt8.toNat_add, small]
  show (48 + value % 10) % 256 = _
  omega

theorem twoDigits_digits {value : Nat} {byte : UInt8} (inside : byte ∈ twoDigits value) :
    48 ≤ byte.toNat ∧ byte.toNat ≤ 57 := by
  simp only [twoDigits, List.mem_cons, List.not_mem_nil, or_false] at inside
  obtain rfl | rfl := inside
  · rw [digit_byte]; omega
  · rw [digit_byte]; omega

theorem strftime_plain {now : Tm} {byte : UInt8} (other : byte ≠ 46 ∧ byte ≠ 45 ∧ byte ≠ 58)
    (low : byte.toNat < 48 ∨ 57 < byte.toNat) : byte ∉ strftime now := by
  have plain {value : Nat} : byte ∉ twoDigits value := by
    intro inside
    have range := twoDigits_digits inside
    omega
  simp [strftime, plain, other]

theorem dateTime_bytes (now : Tm) : (getDateTimeNow now).bytes = strftime now :=
  CStr.ofBytes_eq (strftime_plain (by decide) (by decide))

theorem digit_char {value : Nat} {digit : Char} (inside : digit ∈ Nat.toDigits 10 value) :
    (UInt8.ofNat digit.toNat).toNat = digit.toNat ∧ 48 ≤ digit.toNat ∧ digit.toNat ≤ 57 := by
  have is := Nat.isDigit_of_mem_toDigits (by decide) (by decide) inside
  simp only [Char.isDigit, Bool.and_eq_true, decide_eq_true_eq] at is
  have range : 48 ≤ digit.toNat ∧ digit.toNat ≤ 57 := is
  exact ⟨UInt8.toNat_ofNat_of_lt (by show digit.toNat < 256; omega), range⟩

theorem decimal_plain {value : Nat} {byte : UInt8} (low : byte.toNat < 48) :
    byte ∉ (Nat.toDigits 10 value).map fun digit => UInt8.ofNat digit.toNat := by
  intro inside
  obtain ⟨digit, inside, same⟩ := List.mem_map.mp inside
  obtain ⟨code, range⟩ := digit_char inside
  rw [← same, code] at low
  omega

theorem decimal_bytes (value : Nat) :
    (decimal value).bytes = (Nat.toDigits 10 value).map fun digit => UInt8.ofNat digit.toNat :=
  CStr.ofBytes_eq (decimal_plain (by decide))

theorem decimal_injective {first second : Nat} (same : decimal first = decimal second) : first = second := by
  have read (value : Nat) :
      (decimal value).bytes.map (fun byte => Char.ofNat byte.toNat) = Nat.toDigits 10 value := by
    rw [decimal_bytes, List.map_map, List.map_congr_left (g := id), List.map_id]
    intro digit inside
    obtain ⟨code, _⟩ := digit_char inside
    simp [code, Char.ofNat_toNat]
  have digits : Nat.toDigits 10 first = Nat.toDigits 10 second := by rw [← read, ← read, same]
  calc
    first = Nat.ofDigitChars 10 (Nat.toDigits 10 first) 0 := Nat.ofDigitChars_ten_toDigits.symm
    _ = Nat.ofDigitChars 10 (Nat.toDigits 10 second) 0 := by rw [digits]
    _ = second := Nat.ofDigitChars_ten_toDigits

/-- What the names of all log files begin with. -/
def stem : List UInt8 := [116, 101, 115, 116, 95, 114, 117, 110, 95]

theorem lit_stem : (CStr.lit "/test_run_").bytes = 47 :: stem := by decide

/-- A name of a log file of a directory and a time. -/
def LogName (logsDir time path : CStr) : Prop :=
  ∃ tail, path.bytes = logsDir.bytes ++ 47 :: (stem ++ time.bytes ++ tail) ∧ (47 : UInt8) ∉ tail

/-- A name of a link to the latest log. -/
def LatestName (path : CStr) : Prop :=
  ∃ dir tail, path.bytes = dir ++ 47 :: (stem ++ 108 :: tail) ∧ (47 : UInt8) ∉ tail

theorem last_part {α : Type} {separator : α} {first last first' last' : List α}
    (same : first ++ separator :: last = first' ++ separator :: last') (plain : separator ∉ last)
    (plain' : separator ∉ last') : first = first' ∧ last = last' := by
  obtain ⟨middle, whole, rest⟩ | ⟨middle, whole, rest⟩ := List.append_eq_append_iff.mp same
  · cases middle with
    | nil => simpa [whole] using rest
    | cons byte middle =>
      simp only [List.cons_append, List.cons.injEq] at rest
      exact absurd (by simp [rest.2]) plain
  · cases middle with
    | nil => simpa [whole, eq_comm] using rest
    | cons byte middle =>
      simp only [List.cons_append, List.cons.injEq] at rest
      exact absurd (by simp [rest.2]) plain'

theorem time_plain (now : Tm) : (47 : UInt8) ∉ (getDateTimeNow now).bytes := by
  rw [dateTime_bytes]
  exact strftime_plain (by decide) (by decide)

theorem LogName.inj {dir dir' path : CStr} {now now' : Tm} (one : LogName dir (getDateTimeNow now) path)
    (two : LogName dir' (getDateTimeNow now') path) : dir = dir' ∧ getDateTimeNow now = getDateTimeNow now' := by
  obtain ⟨tail, bytes, plain⟩ := one
  obtain ⟨tail', bytes', plain'⟩ := two
  have slash : (47 : UInt8) ∉ stem := by decide
  have parts := last_part (bytes.symm.trans bytes') (by simp [slash, time_plain, plain])
    (by simp [slash, time_plain, plain'])
  obtain ⟨dirs, names⟩ := parts
  have lengths : (getDateTimeNow now).bytes.length = (getDateTimeNow now').bytes.length := by
    simp [dateTime_bytes, strftime, twoDigits]
  rw [List.append_assoc, List.append_assoc] at names
  have times := (List.append_inj (List.append_cancel_left names) lengths).1
  exact ⟨CStr.ext dirs, CStr.ext times⟩

theorem LogName.not_latest {dir path : CStr} {now : Tm} (name : LogName dir (getDateTimeNow now) path) :
    ¬ LatestName path := by
  intro latest
  obtain ⟨tail, bytes, plain⟩ := name
  obtain ⟨dir', tail', bytes', plain'⟩ := latest
  have slash : (47 : UInt8) ∉ stem := by decide
  have parts := last_part (bytes.symm.trans bytes') (by simp [slash, time_plain, plain]) (by simp [slash, plain'])
  have names := parts.2
  rw [List.append_assoc] at names
  have digits := List.append_cancel_left names
  have first : 48 + UInt8.ofNat (((now.mon : Nat) + 1) / 10 % 10) = 108 := by
    simp only [dateTime_bytes, strftime, twoDigits, List.cons_append, List.cons.injEq] at digits
    exact digits.1
  have code := congrArg UInt8.toNat first
  rw [digit_byte] at code
  have letter : (108 : UInt8).toNat = 108 := rfl
  omega

/-- The names a search goes through, in order. -/
def candidate (plain : CStr) (numbered : Nat → CStr) (start : Nat) : Nat → CStr
  | 0 => plain
  | k + 1 => numbered (start + k)

section Names
variable (logsDir : CStr) (now : Tm)

def rawName : Nat → CStr :=
  candidate (rawLogPath logsDir (getDateTimeNow now)) (rawLogPathNumbered logsDir (getDateTimeNow now)) 2

def outputName : Nat → CStr :=
  candidate (outputLogPath logsDir (getDateTimeNow now)) (outputLogPathNumbered logsDir (getDateTimeNow now)) 0

theorem numbered_plain (value : Nat) : (47 : UInt8) ∉ (decimal value).bytes := by
  rw [decimal_bytes]
  exact decimal_plain (by decide)

theorem rawName_log (k : Nat) : LogName logsDir (getDateTimeNow now) (rawName logsDir now k) := by
  cases k with
  | zero =>
    refine ⟨(CStr.lit "_raw.json").bytes, ?_, by decide⟩
    simp [rawName, candidate, rawLogPath, CStr.concat_bytes, lit_stem]
  | succ k =>
    refine ⟨(CStr.lit "_raw(").bytes ++ (decimal (2 + k)).bytes ++ (CStr.lit ").json").bytes, ?_, ?_⟩
    · simp [rawName, candidate, rawLogPathNumbered, CStr.concat_bytes, lit_stem]
    · have before : (47 : UInt8) ∉ (CStr.lit "_raw(").bytes := by decide
      have behind : (47 : UInt8) ∉ (CStr.lit ").json").bytes := by decide
      simp [before, behind, numbered_plain]

theorem outputName_log (k : Nat) : LogName logsDir (getDateTimeNow now) (outputName logsDir now k) := by
  cases k with
  | zero =>
    refine ⟨(CStr.lit "_output.log").bytes, ?_, by decide⟩
    simp [outputName, candidate, outputLogPath, CStr.concat_bytes, lit_stem]
  | succ k =>
    refine ⟨(CStr.lit "_output(").bytes ++ (decimal (0 + k)).bytes ++ (CStr.lit ").log").bytes, ?_, ?_⟩
    · simp [outputName, candidate, outputLogPathNumbered, CStr.concat_bytes, lit_stem]
    · have before : (47 : UInt8) ∉ (CStr.lit "_output(").bytes := by decide
      have behind : (47 : UInt8) ∉ (CStr.lit ").log").bytes := by decide
      simp [before, behind, numbered_plain]

theorem rawName_last (k : Nat) : (rawName logsDir now k).bytes.getLast? = some 110 := by
  have plain : (CStr.lit "_raw.json").bytes.getLast? = some 110 := by decide
  have numbered : (CStr.lit ").json").bytes.getLast? = some 110 := by decide
  cases k with
  | zero => simp [rawName, candidate, rawLogPath, CStr.concat_bytes, plain]
  | succ k => simp [rawName, candidate, rawLogPathNumbered, CStr.concat_bytes, numbered]

theorem outputName_last (k : Nat) : (outputName logsDir now k).bytes.getLast? = some 103 := by
  have plain : (CStr.lit "_output.log").bytes.getLast? = some 103 := by decide
  have numbered : (CStr.lit ").log").bytes.getLast? = some 103 := by decide
  cases k with
  | zero => simp [outputName, candidate, outputLogPath, CStr.concat_bytes, plain]
  | succ k => simp [outputName, candidate, outputLogPathNumbered, CStr.concat_bytes, numbered]

end Names

theorem raw_ne_output {dir dir' : CStr} {now now' : Tm} (k l : Nat) : rawName dir now k ≠ outputName dir' now' l := by
  intro same
  have last := rawName_last dir now k
  rw [same, outputName_last] at last
  exact absurd last (by decide)

theorem rawNumbered_inj {dir time : CStr} {i j : Nat}
    (same : rawLogPathNumbered dir time i = rawLogPathNumbered dir time j) : i = j := by
  have bytes := congrArg CStr.bytes same
  simp only [rawLogPathNumbered, CStr.concat_bytes, List.flatMap_cons, List.flatMap_nil, List.append_cancel_left_eq,
    List.append_cancel_right_eq] at bytes
  exact decimal_injective (CStr.ext bytes)

theorem outputNumbered_inj {dir time : CStr} {i j : Nat}
    (same : outputLogPathNumbered dir time i = outputLogPathNumbered dir time j) : i = j := by
  have bytes := congrArg CStr.bytes same
  simp only [outputLogPathNumbered, CStr.concat_bytes, List.flatMap_cons, List.flatMap_nil, List.append_cancel_left_eq,
    List.append_cancel_right_eq] at bytes
  exact decimal_injective (CStr.ext bytes)

theorem latestOutput (dir : CStr) : LatestName (.concat [dir, .lit "/test_run_latest_output.log"]) := by
  have text : (CStr.lit "/test_run_latest_output.log").bytes =
      47 :: (stem ++ 108 :: (CStr.lit "atest_output.log").bytes) := by decide
  refine ⟨dir.bytes, (CStr.lit "atest_output.log").bytes, ?_, by decide⟩
  simp [CStr.concat_bytes, text]

theorem latestRaw (dir : CStr) : LatestName (.concat [dir, .lit "/test_run_latest_raw.json"]) := by
  have text : (CStr.lit "/test_run_latest_raw.json").bytes =
      47 :: (stem ++ 108 :: (CStr.lit "atest_raw.json").bytes) := by decide
  refine ⟨dir.bytes, (CStr.lit "atest_raw.json").bytes, ?_, by decide⟩
  simp [CStr.concat_bytes, text]

/-- The only links are those to the latest logs. -/
def Linked (disk : Disk) : Prop := ∀ path target, disk.lookup path = some (.link target) → LatestName path

/-- A regular file of this name is there. -/
def Present (disk : Disk) (path : CStr) : Prop := ∃ content, disk.lookup path = some (.file content)

/-- The disk after a regular file was written: that is all that changes for log files. -/
structure Wrote (disk : Disk) (path : CStr) (content : Content) (after : Disk) : Prop where
  linked : Linked after
  lookup : ∀ other, ¬ LatestName other →
    after.lookup other = if other = path then some (.file content) else disk.lookup other

theorem Linked.resolve {disk : Disk} (linked : Linked disk) {path : CStr} (other : ¬ LatestName path) :
    disk.resolve path = path := by
  cases found : disk.lookup path with
  | none => simp [Disk.resolve, found]
  | some entry =>
    cases entry with
    | file content => simp [Disk.resolve, found]
    | link target => exact absurd (linked path target found) other

theorem Linked.exists_iff {disk : Disk} (linked : Linked disk) {path : CStr} (other : ¬ LatestName path) :
    disk.fileExists path = true ↔ Present disk path := by
  rw [Disk.fileExists, linked.resolve other, Present]
  cases disk.lookup path with
  | none => simp
  | some entry => cases entry <;> simp

theorem write_wrote {disk : Disk} (linked : Linked disk) {path : CStr} (other : ¬ LatestName path)
    (content : Content) : Wrote disk path content (disk.write path content) := by
  have lookup (name : CStr) : (disk.write path content).lookup name =
      if name = path then some (.file content) else disk.lookup name := by
    rw [Disk.write, linked.resolve other, Assoc.lookup_put]
  constructor
  · intro name target found
    rw [lookup] at found
    split at found
    next => cases found
    next => exact linked name target found
  · intro name _
    exact lookup name

theorem Wrote.link {disk after : Disk} {path : CStr} {content : Content} (wrote : Wrote disk path content after)
    (target : CStr) {linkname : CStr} (latest : LatestName linkname) :
    Wrote disk path content (after.replaceSymlink target linkname) := by
  constructor
  · intro name aim found
    rw [Disk.replaceSymlink, Assoc.lookup_put] at found
    split at found
    next same => rwa [same]
    next other => exact wrote.linked name aim (Assoc.lookup_filter_ne after other ▸ found)
  · intro name other
    have apart : name ≠ linkname := fun same => other (same ▸ latest)
    rw [Disk.replaceSymlink, Assoc.lookup_put, if_neg apart, Assoc.lookup_filter_ne after apart, wrote.lookup name other]

theorem Wrote.latest {disk after : Disk} {path : CStr} {content : Content} (wrote : Wrote disk path content after)
    (paths : LogPaths) (dir : CStr) : Wrote disk path content (linkLatest paths dir after) :=
  (wrote.link _ (latestOutput dir)).link _ (latestRaw dir)

theorem finished_wrote {disk : Disk} (linked : Linked disk) (projectPath : CStr) (multitarget : Bool)
    {paths : LogPaths} (other : ¬ LatestName paths.rawLogFilePath) (root : Json) :
    Wrote disk paths.rawLogFilePath (.json root)
      (ltfLogTestRunFinished projectPath multitarget paths root disk) := by
  have first := (write_wrote linked other (.json root)).latest paths paths.logsDir
  cases multitarget with
  | false => exact first
  | true => exact first.latest paths _

/-- The first name of a sequence that is not taken. -/
def First (disk : Disk) (names : Nat → CStr) (path : CStr) : Prop :=
  ∃ k, path = names k ∧ disk.fileExists (names k) = false ∧ ∀ j < k, disk.fileExists (names j) = true

theorem First.unique {disk : Disk} {names : Nat → CStr} {first second : CStr} (one : First disk names first)
    (two : First disk names second) : first = second := by
  obtain ⟨k, rfl, free, taken⟩ := one
  obtain ⟨l, rfl, free', taken'⟩ := two
  obtain less | same | more := Nat.lt_trichotomy k l
  · simp [taken' k less] at free
  · rw [same]
  · simp [taken l more] at free'

theorem First.free {disk : Disk} {names : Nat → CStr} {path : CStr} (first : First disk names path) :
    disk.fileExists path = false := by
  obtain ⟨k, rfl, free, _⟩ := first
  exact free

theorem freeNumbered_first {disk : Disk} {names numbered : Nat → CStr} {fuel i : Nat} {path : CStr}
    (rest : ∀ j, numbered (i + j) = names j) (found : freeNumbered disk numbered fuel i = some path) :
    First disk names path := by
  induction fuel generalizing i names with
  | zero => cases found
  | succ fuel ih =>
    have here : numbered i = names 0 := rest 0
    rw [freeNumbered] at found
    split at found
    next taken =>
      have later : ∀ j, numbered (i + 1 + j) = names (j + 1) := by
        intro j
        rw [← rest (j + 1), Nat.add_assoc, Nat.add_comm 1]
      obtain ⟨k, same, free, before⟩ := ih later found
      refine ⟨k + 1, same, free, ?_⟩
      intro j below
      cases j with
      | zero => rw [← here, taken]
      | succ j => exact before j (by omega)
    next free =>
      cases found
      exact ⟨0, here, by simpa [← here] using free, by simp⟩

theorem freePath_first {disk : Disk} {plain path : CStr} {numbered : Nat → CStr} {start : Nat}
    (found : freePath disk plain numbered start = some path) : First disk (candidate plain numbered start) path := by
  rw [freePath] at found
  split at found
  next taken =>
    obtain ⟨k, same, free, before⟩ := freeNumbered_first (fun _ => rfl) found
    refine ⟨k + 1, same, free, ?_⟩
    intro j below
    cases j with
    | zero => exact taken
    | succ j => exact before j (by omega)
  next free =>
    cases found
    rw [Bool.not_eq_true] at free
    exact ⟨0, rfl, free, by simp⟩

theorem freeNumbered_none {disk : Disk} {numbered : Nat → CStr} {fuel i : Nat}
    (none_free : freeNumbered disk numbered fuel i = none) (j : Nat) (below : j < fuel) :
    disk.fileExists (numbered (i + j)) = true := by
  induction fuel generalizing i j with
  | zero => omega
  | succ fuel ih =>
    rw [freeNumbered] at none_free
    split at none_free
    next taken =>
      cases j with
      | zero => exact taken
      | succ j =>
        rw [Nat.add_comm j 1, ← Nat.add_assoc]
        exact ih none_free j (by omega)
    next => cases none_free

theorem known_of_exists {disk : Disk} {path : CStr} (there : disk.fileExists path = true) :
    path ∈ disk.map Prod.fst := by
  cases found : disk.lookup path with
  | none => simp [Disk.fileExists, Disk.resolve, found] at there
  | some entry => exact List.mem_map.mpr ⟨_, Assoc.mem_of_lookup found, rfl⟩

/-- A search ends, since the disk cannot hold all the names. -/
theorem freeNumbered_ends {disk : Disk} {numbered : Nat → CStr} (i : Nat)
    (distinct : ∀ j k, numbered j = numbered k → j = k) :
    ∃ path, freeNumbered disk numbered (disk.length + 1) i = some path := by
  cases found : freeNumbered disk numbered (disk.length + 1) i with
  | some path => exact ⟨path, rfl⟩
  | none =>
    let names := (List.range (disk.length + 1)).map fun j => numbered (i + j)
    have all : names ⊆ disk.map Prod.fst := by
      intro name inside
      obtain ⟨j, below, rfl⟩ := List.mem_map.mp inside
      exact known_of_exists (freeNumbered_none found j (List.mem_range.mp below))
    have different : names.Nodup := by
      apply List.Nodup.map _ List.nodup_range
      intro j k same
      have equal := distinct _ _ same
      omega
    have short := (List.subperm_of_subset different all).length_le
    simp only [names, List.length_map, List.length_range] at short
    omega

variable {projectPath : CStr} {world after : LogWorld}

theorem Wrote.present {disk later : Disk} {path name : CStr} {content : Content} (wrote : Wrote disk path content later)
    (other : ¬ LatestName name) : Present later name ↔ name = path ∨ Present disk name := by
  rw [Present, wrote.lookup name other, Present]
  split
  next same => simp [same]
  next apart => simp [apart]

/-- What the start of a run does: it takes the first free names and creates the output log. -/
theorem init_spec {target : Option CStr} {now : Tm} (linked : Linked world.disk)
    (ran : logStep projectPath world (.init target now) = some after) :
    ∃ paths : LogPaths, paths.logsDir = logsDirectory projectPath target ∧
      First world.disk (rawName paths.logsDir now) paths.rawLogFilePath ∧
      First world.disk (outputName paths.logsDir now) paths.outputLogFilePath ∧
      Wrote world.disk paths.outputLogFilePath (.text []) after.disk ∧
      after.runs = world.runs ++ [({ target, now, paths } : LogRun)] := by
  simp only [logStep, Option.bind_eq_bind, Option.bind_eq_some_iff] at ran
  obtain ⟨⟨paths, disk⟩, found, ran⟩ := ran
  cases ran
  simp only [ltfLogInit, Option.bind_eq_bind, Option.bind_eq_some_iff] at found
  obtain ⟨raw, rawFound, output, outputFound, same⟩ := found
  cases same
  have rawFirst := freePath_first rawFound
  have outputFirst := freePath_first outputFound
  refine ⟨⟨_, raw, output⟩, rfl, rawFirst, outputFirst, ?_, rfl⟩
  obtain ⟨k, name, _⟩ := outputFirst
  apply write_wrote linked
  rw [name]
  exact (outputName_log _ now k).not_latest

theorem finish_spec {i : Nat} {root : Json} (ran : logStep projectPath world (.finish i root) = some after) :
    ∃ run, world.runs[i]? = some run ∧ run.finished = none ∧
      after.disk = ltfLogTestRunFinished projectPath run.target.isSome run.paths root world.disk ∧
      after.runs = world.runs.set i { run with finished := some root } := by
  cases found : world.runs[i]? with
  | none => simp [logStep, found] at ran
  | some run =>
    cases finished : run.finished with
    | some saved => simp [logStep, found, finished] at ran
    | none =>
      simp only [logStep, found, finished, Option.some.injEq] at ran
      subst ran
      exact ⟨run, rfl, finished, rfl, rfl⟩

/-- A start always finds names: no state of the disk keeps it searching. -/
theorem init_ends (projectPath : CStr) (world : LogWorld) (target : Option CStr) (now : Tm) :
    ∃ after, logStep projectPath world (.init target now) = some after := by
  have ends {plain : CStr} {numbered : Nat → CStr} {start : Nat}
      (distinct : ∀ j k, numbered j = numbered k → j = k) :
      ∃ path, freePath world.disk plain numbered start = some path := by
    rw [freePath]
    split
    · exact freeNumbered_ends start distinct
    · exact ⟨plain, rfl⟩
  let logsDir := logsDirectory projectPath target
  let time := getDateTimeNow now
  obtain ⟨raw, rawFound⟩ := @ends (rawLogPath logsDir time) (rawLogPathNumbered logsDir time) 2 fun _ _ => rawNumbered_inj
  obtain ⟨output, outputFound⟩ :=
    @ends (outputLogPath logsDir time) (outputLogPathNumbered logsDir time) 0 fun _ _ => outputNumbered_inj
  simp [logStep, ltfLogInit, logsDir, time, rawFound, outputFound]

/-- A run that has saved its raw log. -/
def Done (world : LogWorld) (i : Nat) : Prop := ∃ run, world.runs[i]? = some run ∧ run.finished.isSome

/-- Another run has saved its raw log under this name. -/
def Taken (world : LogWorld) (i : Nat) (path : CStr) : Prop :=
  ∃ j other, j ≠ i ∧ world.runs[j]? = some other ∧ other.finished.isSome ∧ other.paths.rawLogFilePath = path

/-- The names of a run are the ones its start chose, and what it has written is there. -/
structure Named (projectPath : CStr) (disk : Disk) (run : LogRun) : Prop where
  dir : run.paths.logsDir = logsDirectory projectPath run.target
  raw : ∃ k, run.paths.rawLogFilePath = rawName run.paths.logsDir run.now k ∧
    ∀ j < k, Present disk (rawName run.paths.logsDir run.now j)
  output : ∃ k, run.paths.outputLogFilePath = outputName run.paths.logsDir run.now k
  created : Present disk run.paths.outputLogFilePath
  saved : run.finished.isSome → Present disk run.paths.rawLogFilePath

theorem Named.raw_plain {disk : Disk} {run : LogRun} (named : Named projectPath disk run) :
    ¬ LatestName run.paths.rawLogFilePath := by
  obtain ⟨k, name, _⟩ := named.raw
  rw [name]
  exact (rawName_log _ _ k).not_latest

theorem Named.output_plain {disk : Disk} {run : LogRun} (named : Named projectPath disk run) :
    ¬ LatestName run.paths.outputLogFilePath := by
  obtain ⟨k, name⟩ := named.output
  rw [name]
  exact (outputName_log _ _ k).not_latest

theorem Named.kept {disk later : Disk} {run : LogRun} {path : CStr} {content : Content}
    (named : Named projectPath disk run) (wrote : Wrote disk path content later) : Named projectPath later run := by
  obtain ⟨k, name, before⟩ := named.raw
  refine ⟨named.dir, ⟨k, name, ?_⟩, named.output, ?_, ?_⟩
  · intro j below
    exact (wrote.present (rawName_log _ _ j).not_latest).mpr (.inr (before j below))
  · exact (wrote.present named.output_plain).mpr (.inr named.created)
  · intro through
    exact (wrote.present named.raw_plain).mpr (.inr (named.saved through))

/-- What holds in every state of the runs of a project. A raw log that is not its run's
own, or that is there before its run is through, was saved by another run. -/
structure Tidy (projectPath : CStr) (world : LogWorld) : Prop where
  linked : Linked world.disk
  named : ∀ run ∈ world.runs, Named projectPath world.disk run
  own : ∀ i run root, world.runs[i]? = some run → run.finished = some root →
    world.disk.lookup run.paths.rawLogFilePath = some (.file (.json root)) ∨ Taken world i run.paths.rawLogFilePath
  early : ∀ i run, world.runs[i]? = some run → run.finished = none →
    Present world.disk run.paths.rawLogFilePath → Taken world i run.paths.rawLogFilePath
  outputs : (world.runs.map (·.paths.outputLogFilePath)).Nodup

/-- A run is never forgotten, and what it has saved stays its own. -/
def Grows (world after : LogWorld) : Prop :=
  ∀ (i : Nat) (run : LogRun), world.runs[i]? = some run → ∃ later : LogRun, after.runs[i]? = some later ∧
    { later with finished := run.finished } = run ∧ (run.finished.isSome → later.finished = run.finished)

theorem Grows.refl : Grows world world := fun _ run found => ⟨run, found, rfl, fun _ => rfl⟩

theorem Grows.trans {middle : LogWorld} (one : Grows world middle) (two : Grows middle after) : Grows world after := by
  intro i run found
  obtain ⟨next, found', same, kept⟩ := one i run found
  obtain ⟨last, found'', same', kept'⟩ := two i next found'
  refine ⟨last, found'', ?_, ?_⟩
  · rw [← same, ← same']
  · intro through
    rw [kept' (by rwa [kept through]), kept through]

theorem Grows.paths {i : Nat} {run later : LogRun} (grows : Grows world after) (found : world.runs[i]? = some run)
    (found' : after.runs[i]? = some later) : later.paths = run.paths := by
  obtain ⟨next, found'', same, _⟩ := grows i run found
  obtain rfl : later = next := by simpa [found'] using found''
  rw [← same]

theorem Taken.grows {i : Nat} {path : CStr} (taken : Taken world i path) (grows : Grows world after) :
    Taken after i path := by
  obtain ⟨j, other, apart, found, through, name⟩ := taken
  obtain ⟨later, found', same, kept⟩ := grows j other found
  refine ⟨j, later, apart, found', by rwa [kept through], ?_⟩
  rw [← name, ← same]

theorem init_grows {run : LogRun} (runs : after.runs = world.runs ++ [run]) : Grows world after := by
  intro i old found
  refine ⟨old, ?_, rfl, fun _ => rfl⟩
  rw [runs, List.getElem?_append_left (List.getElem?_eq_some_iff.mp found).1, found]

theorem finish_grows {i : Nat} {run : LogRun} {root : Json} (found : world.runs[i]? = some run)
    (pending : run.finished = none) (runs : after.runs = world.runs.set i { run with finished := some root }) :
    Grows world after := by
  intro j old found'
  by_cases same : i = j
  · subst same
    obtain rfl : run = old := by simpa [found] using found'
    refine ⟨{ run with finished := some root }, ?_, rfl, ?_⟩
    · rw [runs, List.getElem?_set_self (List.getElem?_eq_some_iff.mp found).1]
    · intro through
      simp [pending] at through
  · refine ⟨old, ?_, rfl, fun _ => rfl⟩
    rw [runs, List.getElem?_set_ne same, found']

theorem Named.raw_ne_output {disk : Disk} {first second : LogRun} (named : Named projectPath disk first)
    (named' : Named projectPath disk second) : first.paths.rawLogFilePath ≠ second.paths.outputLogFilePath := by
  obtain ⟨k, name, _⟩ := named.raw
  obtain ⟨l, name'⟩ := named'.output
  rw [name, name']
  exact TestLogs.raw_ne_output k l

theorem Tidy.init {target : Option CStr} {now : Tm} (tidy : Tidy projectPath world)
    (ran : logStep projectPath world (.init target now) = some after) : Tidy projectPath after := by
  obtain ⟨paths, dir, raw, output, wrote, runs⟩ := init_spec tidy.linked ran
  have grows := init_grows runs
  have fresh : Named projectPath after.disk { target, now, paths } := by
    obtain ⟨k, name, _, before⟩ := raw
    obtain ⟨l, name', _⟩ := output
    refine ⟨dir, ⟨k, name, ?_⟩, ⟨l, name'⟩, ?_, by simp⟩
    · intro j below
      have plain := (rawName_log paths.logsDir now j).not_latest
      exact (wrote.present plain).mpr (.inr ((tidy.linked.exists_iff plain).mp (before j below)))
    · have plain : ¬ LatestName paths.outputLogFilePath := by
        rw [name']
        exact (outputName_log _ now l).not_latest
      exact (wrote.present plain).mpr (.inl rfl)
  have named : ∀ run ∈ after.runs, Named projectPath after.disk run := by
    intro run inside
    rw [runs, List.mem_append, List.mem_singleton] at inside
    obtain old | rfl := inside
    · exact (tidy.named run old).kept wrote
    · exact fresh
  have same {run : LogRun} (inside : run ∈ after.runs) :
      after.disk.lookup run.paths.rawLogFilePath = world.disk.lookup run.paths.rawLogFilePath := by
    rw [wrote.lookup _ (named run inside).raw_plain, if_neg ((named run inside).raw_ne_output fresh)]
  have cases {i : Nat} {run : LogRun} (found : after.runs[i]? = some run) :
      world.runs[i]? = some run ∨ run = { target, now, paths } := by
    rw [runs, List.getElem?_append] at found
    split at found
    · exact .inl found
    · rw [List.getElem?_singleton] at found
      split at found
      · exact .inr (by simpa [eq_comm] using found)
      · cases found
  refine ⟨wrote.linked, named, ?_, ?_, ?_⟩
  · intro i run root found through
    obtain old | rfl := cases found
    · rw [same (List.mem_of_getElem? found)]
      exact (tidy.own i run root old through).imp_right (·.grows grows)
    · cases through
  · intro i run found pending there
    have before : Present world.disk run.paths.rawLogFilePath := by
      rwa [Present, same (List.mem_of_getElem? found)] at there
    obtain old | rfl := cases found
    · exact (tidy.early i run old pending before).grows grows
    · have free := raw.free
      rw [(tidy.linked.exists_iff fresh.raw_plain).mpr before] at free
      cases free
  · rw [runs, List.map_append, List.map_singleton, ← List.concat_eq_append]
    apply tidy.outputs.concat
    intro inside
    obtain ⟨run, old, name⟩ := List.mem_map.mp inside
    have created := (tidy.named run old).created
    have free := output.free
    rw [name] at created
    rw [(tidy.linked.exists_iff fresh.output_plain).mpr created] at free
    cases free

theorem Tidy.finish {i : Nat} {root : Json} (tidy : Tidy projectPath world)
    (ran : logStep projectPath world (.finish i root) = some after) : Tidy projectPath after := by
  obtain ⟨run, found, pending, disk, runs⟩ := finish_spec ran
  have grows := finish_grows found pending runs
  have known := tidy.named run (List.mem_of_getElem? found)
  have wrote : Wrote world.disk run.paths.rawLogFilePath (.json root) after.disk :=
    disk ▸ finished_wrote tidy.linked projectPath run.target.isSome known.raw_plain root
  have inside : i < world.runs.length := (List.getElem?_eq_some_iff.mp found).1
  have here : after.runs[i]? = some { run with finished := some root } := by rw [runs, List.getElem?_set_self inside]
  have cases {j : Nat} {other : LogRun} (found' : after.runs[j]? = some other) :
      (j = i ∧ other = { run with finished := some root }) ∨ j ≠ i ∧ world.runs[j]? = some other := by
    by_cases same : j = i
    · subst same
      exact .inl ⟨rfl, by simpa [here, eq_comm] using found'⟩
    · rw [runs, List.getElem?_set_ne (Ne.symm same)] at found'
      exact .inr ⟨same, found'⟩
  have rival {j : Nat} {path : CStr} (apart : j ≠ i) (same : path = run.paths.rawLogFilePath) : Taken after j path :=
    ⟨i, _, apart.symm, here, rfl, same.symm⟩
  refine ⟨wrote.linked, ?_, ?_, ?_, ?_⟩
  · intro other present
    obtain ⟨j, found'⟩ := List.mem_iff_getElem?.mp present
    obtain ⟨_, rfl⟩ | ⟨_, old⟩ := cases found'
    · have still := known.kept wrote
      exact ⟨still.dir, still.raw, still.output, still.created, fun _ => (wrote.present known.raw_plain).mpr (.inl rfl)⟩
    · exact (tidy.named other (List.mem_of_getElem? old)).kept wrote
  · intro j other saved found' through
    obtain ⟨rfl, rfl⟩ | ⟨apart, old⟩ := cases found'
    · cases through
      left
      rw [wrote.lookup _ known.raw_plain, if_pos rfl]
    · by_cases same : other.paths.rawLogFilePath = run.paths.rawLogFilePath
      · exact .inr (rival apart same)
      · rw [wrote.lookup _ (tidy.named other (List.mem_of_getElem? old)).raw_plain, if_neg same]
        exact (tidy.own j other saved old through).imp_right (·.grows grows)
  · intro j other found' none_yet there
    obtain ⟨rfl, rfl⟩ | ⟨apart, old⟩ := cases found'
    · cases none_yet
    · obtain same | before := (wrote.present (tidy.named other (List.mem_of_getElem? old)).raw_plain).mp there
      · exact rival apart same
      · exact (tidy.early j other old none_yet before).grows grows
  · have names : after.runs.map (·.paths.outputLogFilePath) = world.runs.map (·.paths.outputLogFilePath) := by
      obtain ⟨_, get⟩ := List.getElem?_eq_some_iff.mp found
      have still := @List.set_getElem_self _ (world.runs.map (·.paths.outputLogFilePath)) i (by simpa using inside)
      rw [List.getElem_map, get] at still
      rw [runs, List.map_set]
      exact still
    rw [names]
    exact tidy.outputs

theorem Tidy.step {event : LogEvent} (tidy : Tidy projectPath world)
    (ran : logStep projectPath world event = some after) : Tidy projectPath after := by
  cases event with
  | init target now => exact tidy.init ran
  | finish i root => exact tidy.finish ran

theorem step_grows {event : LogEvent} (tidy : Tidy projectPath world)
    (ran : logStep projectPath world event = some after) : Grows world after := by
  cases event with
  | init target now =>
    obtain ⟨_, _, _, _, _, runs⟩ := init_spec tidy.linked ran
    exact init_grows runs
  | finish i root =>
    obtain ⟨run, found, pending, _, runs⟩ := finish_spec ran
    exact finish_grows found pending runs

theorem new_tidy (files : List (CStr × Content)) : Tidy projectPath (newLogWorld files) := by
  refine ⟨?_, by simp [newLogWorld], by simp [newLogWorld], by simp [newLogWorld], by simp [newLogWorld]⟩
  intro path target found
  obtain ⟨file, _, same⟩ := List.mem_map.mp (Assoc.mem_of_lookup found)
  cases same

theorem events_cons {event : LogEvent} {events : List LogEvent} :
    logEvents projectPath (event :: events) world = some after ↔
      ∃ middle, logStep projectPath world event = some middle ∧ logEvents projectPath events middle = some after := by
  rw [logEvents, List.foldlM_cons, Option.bind_eq_bind, Option.bind_eq_some_iff]
  rfl

theorem events_append {first rest : List LogEvent} :
    logEvents projectPath (first ++ rest) world = some after ↔
      ∃ middle, logEvents projectPath first world = some middle ∧ logEvents projectPath rest middle = some after := by
  rw [logEvents, List.foldlM_append, Option.bind_eq_bind, Option.bind_eq_some_iff]
  rfl

theorem Tidy.run {events : List LogEvent} (tidy : Tidy projectPath world)
    (ran : logEvents projectPath events world = some after) : Tidy projectPath after ∧ Grows world after := by
  induction events generalizing world with
  | nil =>
    cases ran
    exact ⟨tidy, .refl⟩
  | cons event events ih =>
    obtain ⟨middle, first, rest⟩ := events_cons.mp ran
    obtain ⟨last, grows⟩ := ih (tidy.step first) rest
    exact ⟨last, (step_grows tidy first).trans grows⟩

/-- The run gets to its end among these events. -/
def Finishes (i : Nat) (events : List LogEvent) : Prop := ∃ root, .finish i root ∈ events

theorem step_done {event : LogEvent} (tidy : Tidy projectPath world)
    (ran : logStep projectPath world event = some after) (i : Nat) :
    Done after i ↔ Done world i ∨ Finishes i [event] := by
  have grows := step_grows tidy ran
  have kept : Done world i → Done after i := by
    intro done
    obtain ⟨run, found, through⟩ := done
    obtain ⟨later, found', _, same⟩ := grows i run found
    exact ⟨later, found', by rwa [same through]⟩
  cases event with
  | init target now =>
    obtain ⟨paths, _, _, _, _, runs⟩ := init_spec tidy.linked ran
    have none_ends : ¬ Finishes i [.init target now] := by simp [Finishes]
    refine ⟨?_, fun either => either.elim kept fun ends => absurd ends none_ends⟩
    intro done
    obtain ⟨run, found, through⟩ := done
    rw [runs, List.getElem?_append] at found
    split at found
    · exact .inl ⟨run, found, through⟩
    · rw [List.getElem?_singleton] at found
      split at found
      · cases found
        cases through
      · cases found
  | finish j root =>
    obtain ⟨run, found, pending, _, runs⟩ := finish_spec ran
    have inside : j < world.runs.length := (List.getElem?_eq_some_iff.mp found).1
    have ends : Finishes i [.finish j root] ↔ i = j := by simp [Finishes]
    rw [ends]
    by_cases same : i = j
    · subst same
      have done : Done after i :=
        ⟨{ run with finished := some root }, by rw [runs, List.getElem?_set_self inside], rfl⟩
      exact ⟨fun _ => .inr rfl, fun _ => done⟩
    · simp only [same, or_false, Done, runs, List.getElem?_set_ne (Ne.symm same)]

theorem events_done {events : List LogEvent} (tidy : Tidy projectPath world)
    (ran : logEvents projectPath events world = some after) (i : Nat) :
    Done after i ↔ Done world i ∨ Finishes i events := by
  induction events generalizing world with
  | nil =>
    cases ran
    simp [Finishes]
  | cons event events ih =>
    obtain ⟨middle, first, rest⟩ := events_cons.mp ran
    have both : Finishes i (event :: events) ↔ Finishes i [event] ∨ Finishes i events := by
      simp only [Finishes, List.mem_cons, List.not_mem_nil, or_false, exists_or]
    rw [ih (tidy.step first) rest, step_done tidy first, both, or_assoc]

/-- A run is the one that some event has started. -/
theorem run_begins {events : List LogEvent} (tidy : Tidy projectPath world)
    (ran : logEvents projectPath events world = some after) {i : Nat} (before : world.runs.length ≤ i)
    (inside : i < after.runs.length) :
    ∃ first target now rest middle, events = first ++ .init target now :: rest ∧
      logEvents projectPath first world = some middle ∧ middle.runs.length = i := by
  induction events generalizing world with
  | nil =>
    cases ran
    omega
  | cons event events ih =>
    obtain ⟨next, step, more⟩ := events_cons.mp ran
    have later (short : next.runs.length ≤ i) : ∃ first target now rest middle,
        event :: events = first ++ .init target now :: rest ∧ logEvents projectPath first world = some middle ∧
          middle.runs.length = i := by
      obtain ⟨first, target, now, rest, middle, split, run, here⟩ := ih (tidy.step step) more short
      exact ⟨event :: first, target, now, rest, middle, by rw [split, List.cons_append],
        events_cons.mpr ⟨next, step, run⟩, here⟩
    cases event with
    | init target now =>
      obtain ⟨_, _, _, _, _, runs⟩ := init_spec tidy.linked step
      by_cases here : world.runs.length = i
      · exact ⟨[], target, now, events, world, rfl, rfl, here⟩
      · apply later
        rw [runs, List.length_append, List.length_singleton]
        omega
    | finish j root =>
      obtain ⟨_, _, _, _, runs⟩ := finish_spec step
      apply later
      rwa [runs, List.length_set]

theorem logsDirectory_inj {first second : Option CStr}
    (same : logsDirectory projectPath first = logsDirectory projectPath second) : first = second := by
  have short : (CStr.lit "/logs").bytes.length = 5 := by decide
  have long : (CStr.lit "/logs/").bytes.length = 6 := by decide
  have bytes := congrArg CStr.bytes same
  cases first with
  | none =>
    cases second with
    | none => rfl
    | some target =>
      have lengths := congrArg List.length bytes
      simp [logsDirectory, CStr.concat_bytes, short, long] at lengths
      omega
  | some target =>
    cases second with
    | none =>
      have lengths := congrArg List.length bytes
      simp [logsDirectory, CStr.concat_bytes, short, long] at lengths
      omega
    | some other =>
      simp only [logsDirectory, CStr.concat_bytes, List.flatMap_cons, List.flatMap_nil, List.append_cancel_left_eq,
        List.append_nil] at bytes
      rw [CStr.ext bytes]

/-- Two runs that are through have the same name for their raw log. -/
def Shares (world : LogWorld) : Prop :=
  ∃ (i j : Nat) (first second : LogRun), i ≠ j ∧ world.runs[i]? = some first ∧ world.runs[j]? = some second ∧
    first.finished.isSome ∧ second.finished.isSome ∧ first.paths.rawLogFilePath = second.paths.rawLogFilePath

/-- A run for the same target starts in the same second in which one that is still going
on had started, and both get to their end. -/
def Clash (projectPath : CStr) (files : List (CStr × Content)) (events : List LogEvent) : Prop :=
  ∃ before target now later world i run, events = before ++ .init target now :: later ∧
    logEvents projectPath before (newLogWorld files) = some world ∧ world.runs[i]? = some run ∧
    run.finished = none ∧ run.target = target ∧ getDateTimeNow run.now = getDateTimeNow now ∧
    Finishes i later ∧ Finishes world.runs.length later

theorem rawName_congr {dir : CStr} {now now' : Tm} (same : getDateTimeNow now = getDateTimeNow now') :
    rawName dir now = rawName dir now' := by
  rw [rawName, rawName, same]

/-- What the next run finds, and that its paths are those it ends with. -/
theorem init_first {target : Option CStr} {now : Tm} {later : List LogEvent} (tidy : Tidy projectPath world)
    (ran : logEvents projectPath (.init target now :: later) world = some after) :
    ∃ paths : LogPaths, paths.logsDir = logsDirectory projectPath target ∧
      First world.disk (rawName paths.logsDir now) paths.rawLogFilePath ∧
      ∀ run : LogRun, after.runs[world.runs.length]? = some run → run.paths = paths := by
  obtain ⟨next, step, rest⟩ := events_cons.mp ran
  obtain ⟨paths, dir, raw, _, _, runs⟩ := init_spec tidy.linked step
  obtain ⟨_, grows⟩ := (tidy.step step).run rest
  refine ⟨paths, dir, raw, ?_⟩
  intro run there
  have fresh : next.runs[world.runs.length]? = some { target, now, paths } := by
    rw [runs, List.getElem?_append_right (Nat.le_refl _), Nat.sub_self, List.getElem?_cons_zero]
  exact grows.paths fresh there

theorem shares_of_clash {files : List (CStr × Content)} {events : List LogEvent}
    (ran : logEvents projectPath events (newLogWorld files) = some after) (clash : Clash projectPath files events) :
    Shares after := by
  obtain ⟨before, target, now, later, middle, i, run, split, start, found, pending, aim, time, ends, ends'⟩ := clash
  subst split
  obtain ⟨middle', start', ran⟩ := events_append.mp ran
  obtain rfl : middle = middle' := by simpa [start] using start'
  obtain ⟨tidy, _⟩ := (new_tidy files).run start
  obtain ⟨_, grows⟩ := tidy.run ran
  obtain ⟨paths, dir, raw, kept⟩ := init_first tidy ran
  have done (m : Nat) (ends : Finishes m later) : Done after m := by
    obtain ⟨root, inside⟩ := ends
    exact (events_done tidy ran m).mpr (.inr ⟨root, List.mem_cons_of_mem _ inside⟩)
  obtain ⟨first, here, through⟩ := done i ends
  obtain ⟨second, there, through'⟩ := done _ ends'
  have inside : i < middle.runs.length := (List.getElem?_eq_some_iff.mp found).1
  have firstName : first.paths.rawLogFilePath = run.paths.rawLogFilePath := by rw [grows.paths found here]
  have secondName : second.paths.rawLogFilePath = paths.rawLogFilePath := by rw [kept second there]
  have named := tidy.named run (List.mem_of_getElem? found)
  by_cases taken : Present middle.disk run.paths.rawLogFilePath
  · -- the name is in use already, so another run has had it and is through
    obtain ⟨j, other, apart, found', through'', name⟩ := (tidy.early i run found pending taken).grows grows
    exact ⟨i, j, first, other, apart.symm, here, found', through, through'', firstName.trans name.symm⟩
  · -- the name is still free, so it is the one the second run finds
    obtain ⟨k, name, earlier⟩ := named.raw
    have dirs : run.paths.logsDir = paths.logsDir := by rw [named.dir, dir, aim]
    have again : First middle.disk (rawName paths.logsDir now) run.paths.rawLogFilePath := by
      rw [← dirs, ← rawName_congr time]
      refine ⟨k, name, ?_, ?_⟩
      · rw [← name, ← Bool.not_eq_true, tidy.linked.exists_iff named.raw_plain]
        exact taken
      · intro j below
        exact (tidy.linked.exists_iff (rawName_log _ _ j).not_latest).mpr (earlier j below)
    have equal := again.unique raw
    exact ⟨i, _, first, second, by omega, here, there, through, through',
      firstName.trans (equal.trans secondName.symm)⟩

theorem clash_of_shares {files : List (CStr × Content)} {events : List LogEvent}
    (ran : logEvents projectPath events (newLogWorld files) = some after) {i j : Nat} {first second : LogRun}
    (earlier : i < j) (here : after.runs[i]? = some first) (there : after.runs[j]? = some second)
    (through : first.finished.isSome) (through' : second.finished.isSome)
    (shared : first.paths.rawLogFilePath = second.paths.rawLogFilePath) : Clash projectPath files events := by
  obtain ⟨before, target, now, later, middle, split, start, length⟩ :=
    run_begins (new_tidy files) ran (Nat.zero_le j) (List.getElem?_eq_some_iff.mp there).1
  subst split length
  obtain ⟨middle', start', ran⟩ := events_append.mp ran
  obtain rfl : middle = middle' := by simpa [start] using start'
  obtain ⟨tidy, _⟩ := (new_tidy files).run start
  obtain ⟨_, grows⟩ := tidy.run ran
  obtain ⟨paths, dir, raw, kept⟩ := init_first tidy ran
  obtain ⟨run, found⟩ : ∃ run, middle.runs[i]? = some run := ⟨_, List.getElem?_eq_getElem earlier⟩
  have equal : run.paths.rawLogFilePath = paths.rawLogFilePath := by
    rw [← grows.paths found here, shared, kept second there]
  have named := tidy.named run (List.mem_of_getElem? found)
  have free : ¬ Present middle.disk run.paths.rawLogFilePath := by
    rw [← tidy.linked.exists_iff named.raw_plain, equal, raw.free]
    exact Bool.false_ne_true
  have pending : run.finished = none := by
    cases finished : run.finished with
    | none => rfl
    | some root => exact absurd (named.saved (by simp [finished])) free
  obtain ⟨k, name, _⟩ := named.raw
  obtain ⟨l, name', _⟩ := raw
  have log : LogName paths.logsDir (getDateTimeNow now) run.paths.rawLogFilePath := by
    rw [equal, name']
    exact rawName_log _ _ _
  have log' : LogName run.paths.logsDir (getDateTimeNow run.now) run.paths.rawLogFilePath := by
    rw [name]
    exact rawName_log _ _ _
  obtain ⟨dirs, times⟩ := log'.inj log
  rw [named.dir, dir] at dirs
  have ends (m : Nat) (done : Done after m) (before : ¬ Done middle m) : Finishes m later := by
    obtain now' | ends := (events_done tidy ran m).mp done
    · exact absurd now' before
    · obtain ⟨root, inside⟩ := ends
      simp only [List.mem_cons, reduceCtorEq, false_or] at inside
      exact ⟨root, inside⟩
  refine ⟨before, target, now, later, middle, i, run, rfl, start, found, pending, logsDirectory_inj dirs, times, ?_, ?_⟩
  · apply ends i ⟨first, here, through⟩
    intro done
    obtain ⟨run', found', saved⟩ := done
    rw [found, Option.some.injEq] at found'
    subst found'
    simp [pending] at saved
  · apply ends _ ⟨second, there, through'⟩
    intro done
    obtain ⟨run', found', _⟩ := done
    have bound := (List.getElem?_eq_some_iff.mp found').1
    omega

theorem shares_iff {files : List (CStr × Content)} {events : List LogEvent}
    (ran : logEvents projectPath events (newLogWorld files) = some after) :
    Shares after ↔ Clash projectPath files events := by
  refine ⟨?_, shares_of_clash ran⟩
  intro shares
  obtain ⟨i, j, first, second, apart, here, there, through, through', shared⟩ := shares
  obtain less | more := Nat.lt_or_gt_of_ne apart
  · exact clash_of_shares ran less here there through through' shared
  · exact clash_of_shares ran more there here through' through shared.symm

/-- No two runs write to one file, and the raw log of every run that is through is there
with the contents of that run. -/
structure LogsKept (world : LogWorld) : Prop where
  raws : ¬ Shares world
  outputs : (world.runs.map (·.paths.outputLogFilePath)).Nodup
  survive : ∀ run ∈ world.runs, ∀ root, run.finished = some root →
    world.disk.lookup run.paths.rawLogFilePath = some (.file (.json root))

/-- Whatever the order of the steps: the logs of all runs are kept exactly when no run that
gets to its end starts, for the same target and in the same second, before another is through. -/
theorem logs_kept_iff (projectPath : CStr) (files : List (CStr × Content)) (events : List LogEvent)
    (world : LogWorld) (ran : logEvents projectPath events (newLogWorld files) = some world) :
    LogsKept world ↔ ¬ Clash projectPath files events := by
  rw [← shares_iff ran]
  refine ⟨LogsKept.raws, ?_⟩
  intro apart
  obtain ⟨tidy, _⟩ := (new_tidy files).run ran
  refine ⟨apart, tidy.outputs, ?_⟩
  intro run inside root through
  obtain ⟨i, found⟩ := List.mem_iff_getElem?.mp inside
  obtain own | taken := tidy.own i run root found through
  · exact own
  · obtain ⟨j, other, different, found', through', name⟩ := taken
    exact absurd ⟨i, j, run, other, different.symm, found, found', by simp [through], through', name.symm⟩ apart

def noon : Tm := { mon := 0, mday := 1, year := 2025, hour := 12, min := 0, sec := 0 }

def oneAfterAnother : List LogEvent :=
  [.init none noon, .finish 0 (.object []), .init none noon, .finish 1 (.array [])]

theorem one_after_another_kept_iff :
    ∃ world, logEvents (.lit "/p") oneAfterAnother (newLogWorld []) = some world ∧
      (LogsKept world ↔ ¬ Clash (.lit "/p") [] oneAfterAnother) :=
  ⟨_, rfl, logs_kept_iff _ _ _ _ rfl⟩

/-- The second run begins before the first one is through and overwrites its raw log. -/
def sameSecond : List LogEvent :=
  [.init none noon, .init none noon, .finish 0 (.object []), .finish 1 (.array [])]

theorem same_second_lost :
    ∃ world, logEvents (.lit "/p") sameSecond (newLogWorld []) = some world ∧ ¬ LogsKept world := by
  refine ⟨_, rfl, ?_⟩
  intro kept
  exact kept.raws ⟨0, 1, _, _, by decide, rfl, rfl, rfl, rfl, rfl⟩

end Ltf.Proofs.TestLogs
