import Ltf.LtfLog
import Ltf.Proofs.RunnerSteps

/-! The message that `print` and `log` record, next to the line that Lua's own `print` writes. -/

namespace Ltf.Proofs.LtfLog
open CString Ltf.LtfLog RunnerSteps Steps

variable {env : Env} {lua : ValueTexts} {levels : List CallLevel} {level : LogLevel} {args rest : List LuaValue}
  {first : LuaValue} {r : Runner}

/-- What Lua's own `print` writes to its line: a tab in front of each argument but the first,
unless the text of one of them raises an error. -/
def printed (lua : ValueTexts) (args : List LuaValue) : Except (Option (List UInt8)) (List UInt8) :=
  (args.mapM (luaLTolstring lua)).map [9].intercalate

/-- The body of a test is running. -/
def Inside (r : Runner) : Prop :=
  ∃ earlier test outputs, At r earlier test ∧ r.state.currentStage = .test ∧ test.status = .running ∧
    test.outputs = some outputs

def outputsOf (r : Runner) : DaPtr TestOutput := r.tests.getLast?.bind (·.outputs)

/-- One output of the level is recorded with this text. If there is none because of an
error, the error is raised and nothing is recorded. -/
def Records (level : LogLevel) (text : Except (Option (List UInt8)) (List UInt8)) (r : Runner)
    (ended : Process (LuaOutcome × Runner)) : Prop :=
  match text with
  | .error _ => ∃ value, ended = .ok (.failed value, r)
  | .ok text => ∃ outcome after outputs o, ended = .ok (outcome, after) ∧ outputsOf r = some outputs ∧
      outputsOf after = some (outputs ++ [o]) ∧ o.level = some level ∧ o.msg.map (·.bytes) = some text

theorem texts_some {texts : List (List UInt8)} (read : (first :: rest).mapM (luaLTolstring lua) = .ok texts) :
    texts ≠ [] := by
  rw [List.mapM_cons] at read
  obtain ⟨text, -, read⟩ := bind_ok.mp read
  obtain ⟨more, -, same⟩ := bind_ok.mp read
  cases same
  exact List.cons_ne_nil text more

/-- Both ways to put the tabs come to the same. -/
theorem messageOf_printed (args : List LuaValue) : messageOf lua args = printed lua args := by
  induction args with
  | nil => rfl
  | cons arg args ih =>
    rw [printed, List.mapM_cons]
    cases args with
    | nil =>
      rw [messageOf]
      cases luaLTolstring lua arg with
      | error value => rfl
      | ok text => exact congrArg Except.ok (List.intercalate_singleton).symm
    | cons next rest =>
      rw [messageOf, ih, printed]
      cases luaLTolstring lua arg with
      | error value => rfl
      | ok text =>
        cases read : (next :: rest).mapM (luaLTolstring lua) with
        | error value => rfl
        | ok texts =>
          have joined : [9].intercalate (text :: texts) = text ++ [9] ++ [9].intercalate texts :=
            List.intercalate_cons_of_ne_nil (texts_some read)
          rw [List.append_assoc] at joined
          exact congrArg Except.ok joined.symm

/-- The end of a call is told by its message alone. -/
def Tells (text message : Except (Option (List UInt8)) (List UInt8)) : Prop :=
  match text, message with
  | .error _, .error _ => True
  | .ok text, .ok message => (CStr.ofBytes message).bytes = text
  | _, _ => False

theorem outputs_at {earlier : List StateTest} {test : StateTest} (here : At r earlier test) :
    outputsOf r = test.outputs := by
  rw [outputsOf, here.last]
  rfl

/-- A message that is logged is one more output. -/
theorem log_recorded {outputs : List TestOutput} (inside : Inside r) (before : outputsOf r = some outputs)
    (call : LogCall) :
    ∃ after o, ltfStateLog env call r = .ok after ∧ outputsOf after = some (outputs ++ [o]) ∧ o.level = some call.level ∧
      o.msg.map (·.bytes) = some (CStr.ofBytes call.msg).bytes := by
  obtain ⟨earlier, test, _, here, stage, running, -⟩ := inside
  have taken : (takeLog test (logOutput (env.clock r.ticks) call)).outputs =
      some (outputs ++ [logOutput (env.clock r.ticks) call]) := by
    simp only [takeLog, running, (outputs_at here).symm.trans before]
    rfl
  obtain ⟨after, logged, there⟩ : ∃ after, ltfStateLog env call r = .ok after ∧
      At after earlier (takeLog test (logOutput (env.clock r.ticks) call)) := ⟨_, log_test env here stage call, rfl⟩
  refine ⟨after, logOutput (env.clock r.ticks) call, logged, (outputs_at there).trans taken, rfl, ?_⟩
  show some (CStr.strndup call.msg call.msg.length).bytes = _
  rw [CStr.strndup, List.take_length]

theorem helper_records (inside : Inside r) (text : Except (Option (List UInt8)) (List UInt8)) :
    Records level text r (logHelper lua env levels level args r) ↔ Tells text (messageOf lua args) := by
  obtain ⟨outputs, before⟩ : ∃ outputs, outputsOf r = some outputs := by
    obtain ⟨earlier, test, outputs, here, -, -, there⟩ := inside
    exact ⟨outputs, (outputs_at here).trans there⟩
  cases said : messageOf lua args with
  | error value =>
    have ended : logHelper lua env levels level args r = .ok (.failed value, r) := by
      rw [logHelper, said]
      rfl
    rw [ended]
    cases text with
    | error raised => exact iff_of_true ⟨value, rfl⟩ trivial
    | ok text =>
      refine iff_of_false ?_ id
      intro records
      obtain ⟨outcome, after, old, o, same, was, now, -⟩ := records
      cases same
      rw [was] at now
      simp at now
  | ok message =>
    obtain ⟨after, o, logged, now, of_level, copied⟩ := log_recorded inside before
      { level, file := some (callerPlace levels).1, line := (callerPlace levels).2, msg := message }
    have ended : logHelper lua env levels level args r =
        .ok (if level = .critical then .failed (some (CStr.ofBytes message).bytes) else .returned, after) := by
      rw [logHelper, said]
      exact bind_of_ok logged
    rw [ended]
    cases text with
    | error raised =>
      refine iff_of_false ?_ id
      intro records
      obtain ⟨value, same⟩ := records
      obtain ⟨-, rfl⟩ := Prod.mk.inj (Except.ok.inj same)
      rw [before] at now
      simp at now
    | ok text =>
      constructor
      · intro records
        obtain ⟨outcome, _, old, output, same, was, later, -, msg⟩ := records
        obtain ⟨-, rfl⟩ := Prod.mk.inj (Except.ok.inj same)
        obtain rfl : outputs = old := Option.some.inj (before.symm.trans was)
        obtain rfl : o = output := by simpa using now.symm.trans later
        exact Option.some.inj (copied.symm.trans msg)
      · intro tells
        exact ⟨_, after, outputs, o, rfl, before, now, of_level, copied.trans (congrArg some tells)⟩

/-- A message is what its text says exactly if it has no NUL. -/
theorem tells_same (text : Except (Option (List UInt8)) (List UInt8)) :
    Tells text text ↔ ∀ message, text = .ok message → (0 : UInt8) ∉ message := by
  cases text with
  | error value => exact iff_of_true trivial nofun
  | ok message =>
    constructor
    · rintro same _ ⟨⟩
      have clean := (CStr.ofBytes message).terminated
      rwa [show (CStr.ofBytes message).bytes = message from same] at clean
    · intro clean
      exact CStr.ofBytes_eq (clean message rfl)

theorem printed_returns (args : List LuaValue) :
    Returns (printed lua args) ↔ ∀ arg ∈ args, Returns (luaLTolstring lua arg) := by
  rw [← Returns.mapM, printed]
  cases args.mapM (luaLTolstring lua) <;> simp [Returns, Except.map]

/-- The first argument is no table, or it does not matter because an error is raised for one
behind it, or because it is all that is printed and has no text. No byte is a NUL. -/
def Printable (lua : ValueTexts) (first : LuaValue) (rest : List LuaValue) : Prop :=
  (luaIstable lua first = false ∨ ¬ Returns (printed lua rest) ∨ rest = [] ∧ luaLTolstring lua first = .ok []) ∧
    ∀ message, printed lua (first :: rest) = .ok message → (0 : UInt8) ∉ message

theorem printed_more {text message : List UInt8} (some : rest ≠ []) (front : luaLTolstring lua first = .ok text)
    (behind : printed lua rest = .ok message) : printed lua (first :: rest) = .ok (text ++ 9 :: message) := by
  obtain ⟨next, more, rfl⟩ := List.exists_cons_of_ne_nil some
  rw [← messageOf_printed] at behind ⊢
  rw [messageOf, bind_of_ok front, bind_of_ok behind]
  rfl

theorem tells_error {text : Except (Option (List UInt8)) (List UInt8)} (value : Option (List UInt8)) :
    Tells text (.error value) ↔ ¬ Returns text := by
  cases text with
  | error raised => exact iff_of_true trivial nofun
  | ok message => exact iff_of_false id (fun fails => fails ⟨message, rfl⟩)

theorem printed_single {text : List UInt8} (front : luaLTolstring lua first = .ok text) :
    printed lua [first] = .ok text := by
  rw [← messageOf_printed]
  exact front

/-- What is printed behind a table is hardly ever what all arguments together say. -/
theorem tells_rest (table : luaIstable lua first = true) :
    Tells (printed lua (first :: rest)) (printed lua rest) ↔ Printable lua first rest := by
  have all := @printed_returns lua (first :: rest)
  rw [List.forall_mem_cons, ← printed_returns] at all
  simp only [Printable, table, Bool.true_eq_false, false_or]
  by_cases behind : Returns (printed lua rest)
  · obtain ⟨message, behind⟩ := behind
    have reads : Returns (printed lua rest) := ⟨message, behind⟩
    simp only [reads, not_true, false_or]
    rw [behind]
    cases front : luaLTolstring lua first with
    | error value =>
      refine iff_of_false ?_ nofun
      intro tells
      cases whole : printed lua (first :: rest) with
      | error value => rw [whole] at tells; exact tells
      | ok text =>
        obtain ⟨_, same⟩ := (all.mp ⟨text, whole⟩).1
        cases front.symm.trans same
    | ok text =>
      by_cases single : rest = []
      · subst single
        cases behind
        rw [printed_single front]
        show [] = text ↔ _
        constructor
        · rintro rfl
          refine ⟨⟨rfl, rfl⟩, ?_⟩
          rintro _ ⟨⟩
          exact List.not_mem_nil
        · rintro ⟨⟨-, empty⟩, -⟩
          exact (Except.ok.inj empty).symm
      · rw [printed_more single front behind]
        refine iff_of_false ?_ (fun both => single both.1.1)
        intro same
        have shorter : (CStr.ofBytes message).bytes.length ≤ message.length := (List.takeWhile_prefix _).length_le
        have longer := congrArg List.length (show (CStr.ofBytes message).bytes = text ++ 9 :: message from same)
        rw [List.length_append, List.length_cons] at longer
        omega
  · have raises : ¬ Returns (printed lua (first :: rest)) := fun returns => behind (all.mp returns).2
    cases failed : printed lua rest with
    | ok message => exact absurd ⟨message, failed⟩ behind
    | error value =>
      rw [tells_error, ← failed]
      exact iff_of_true raises ⟨.inl behind, fun message same => absurd ⟨message, same⟩ raises⟩

/-- A call of `log` with a known level, in either way to call it. -/
theorem log_helps {name : CStr} (known : ltfLogLevelFromStr name = some level) {front : List LuaValue}
    (called : front = [] ∨ ∃ tm, front = [tm] ∧ luaIstable lua tm = true) :
    lModuleLtfLog lua env levels (front ++ .string name.bytes :: rest) r = logHelper lua env levels level rest r := by
  rcases called with rfl | ⟨tm, rfl, table⟩
  · have dot : selfshift lua (.string name.bytes :: rest) = 1 := rfl
    simp [lModuleLtfLog, dot, checkLevelName, known]
  · have colon : selfshift lua (tm :: .string name.bytes :: rest) = 2 := by simp [selfshift, table]
    simp [lModuleLtfLog, colon, checkLevelName, known]

theorem prints_iff (inside : Inside r) (env : Env) (lua : ValueTexts) (levels : List CallLevel) (first : LuaValue)
    (rest : List LuaValue) :
    (Records .info (printed lua (first :: rest)) r (lModuleLtfPrint lua env levels (first :: rest) r) ↔
      Printable lua first rest) ∧
    ∀ name level, ltfLogLevelFromStr name = some level →
      (∀ tm, luaIstable lua tm = true →
        (Records level (printed lua rest) r (log lua tm env levels (.string name.bytes) rest r) ↔
          ∀ message, printed lua rest = .ok message → (0 : UInt8) ∉ message)) ∧
      (Records level (printed lua rest) r (lModuleLtfLog lua env levels (.string name.bytes :: rest) r) ↔
        ∀ message, printed lua rest = .ok message → (0 : UInt8) ∉ message) := by
  constructor
  · rw [lModuleLtfPrint, helper_records inside, messageOf_printed]
    cases table : luaIstable lua first with
    | false =>
      have dot : selfshift lua (first :: rest) = 1 := by simp [selfshift, table]
      rw [dot, Printable, ← tells_same]
      simp [table]
    | true =>
      have colon : selfshift lua (first :: rest) = 2 := by simp [selfshift, table]
      rw [colon]
      exact tells_rest table
  · intro name level known
    constructor
    · intro tm table
      have ended : log lua tm env levels (.string name.bytes) rest r = logHelper lua env levels level rest r :=
        log_helps known (.inr ⟨tm, rfl, table⟩)
      rw [ended, helper_records inside, messageOf_printed, tells_same]
    · have ended : lModuleLtfLog lua env levels (.string name.bytes :: rest) r = logHelper lua env levels level rest r :=
        log_helps known (.inl rfl)
      rw [ended, helper_records inside, messageOf_printed, tells_same]

section Examples

def plainTexts : ValueTexts where
  numberText := fun _ => []
  isTable := fun _ => true
  objectText := fun _ => .ok (CStr.lit "table: 0x1").bytes

def plainSurroundings : Env where
  clock := fun _ => .lit "now"
  luaLength := .first
  traceback := id
  sigint := fun _ => false

/-- A runner in the body of its only test. -/
def inBody : Runner where
  state := { tests := some [{ outputs := some [] }], currentStage := .test }

theorem inBody_inside : Inside inBody := ⟨[], _, [], rfl, rfl, rfl, rfl⟩

theorem words_printed :
    Records .info (.ok (CStr.lit "a\tb").bytes) inBody
      (lModuleLtfPrint plainTexts plainSurroundings [] [.string (CStr.lit "a").bytes, .string (CStr.lit "b").bytes]
        inBody) ∧
    Records .warning (.ok (CStr.lit "b").bytes) inBody
      (log plainTexts (.object 0) plainSurroundings [] (.string (CStr.lit "w").bytes) [.string (CStr.lit "b").bytes]
        inBody) := by
  have both := prints_iff inBody_inside plainSurroundings plainTexts [] (.string (CStr.lit "a").bytes)
    [.string (CStr.lit "b").bytes]
  refine ⟨both.1.mpr ⟨.inl rfl, ?_⟩, ((both.2 (.lit "w") .warning (by decide)).1 (.object 0) rfl).mpr ?_⟩
  · rintro _ ⟨⟩
    decide
  · rintro _ ⟨⟩
    decide

/-- A table is taken for the module that a colon passes. -/
theorem table_left_out : ¬ Records .info (printed plainTexts [.object 1, .string (CStr.lit "b").bytes]) inBody
    (lModuleLtfPrint plainTexts plainSurroundings [] [.object 1, .string (CStr.lit "b").bytes] inBody) := by
  rw [lModuleLtfPrint, helper_records inBody_inside]
  intro tells
  have same : (CStr.lit "b").bytes = (CStr.lit "table: 0x1\tb").bytes := tells
  revert same
  decide

end Examples

end Ltf.Proofs.LtfLog
