import Ltf.Base.CString

/-! `ltf_log_level.c`. The level `-1` that stands for an unknown name is `none`. -/

namespace Ltf
open CString

inductive LogLevel where
  | critical
  | error
  | warning
  | info
  | debug
  | trace
deriving DecidableEq, Repr

def ltfLogLevelToStr : Option LogLevel → Option CStr
  | some .critical => some (.lit "CRITICAL")
  | some .error => some (.lit "ERROR")
  | some .warning => some (.lit "WARNING")
  | some .info => some (.lit "INFO")
  | some .debug => some (.lit "DEBUG")
  | some .trace => some (.lit "TRACE")
  | none => none

def ltfLogLevelFromStr (str : CStr) : Option LogLevel :=
  if equalsIgnoringCase str (.lit "c") || equalsIgnoringCase str (.lit "critical") then some .critical
  else if equalsIgnoringCase str (.lit "e") || equalsIgnoringCase str (.lit "error") then some .error
  else if equalsIgnoringCase str (.lit "w") || equalsIgnoringCase str (.lit "warning") then some .warning
  else if equalsIgnoringCase str (.lit "i") || equalsIgnoringCase str (.lit "info") then some .info
  else if equalsIgnoringCase str (.lit "d") || equalsIgnoringCase str (.lit "debug") then some .debug
  else if equalsIgnoringCase str (.lit "t") || equalsIgnoringCase str (.lit "trace") then some .trace
  else none

theorem level_reread (level : LogLevel) :
    (ltfLogLevelToStr (some level)).bind ltfLogLevelFromStr = some level := by
  cases level <;> decide

end Ltf
