import Ltf.LuaJson

/-! `modules/serial/ltf-serial.c`: the userdata around ports of libserialport. What the
library answers is left open, and what it is asked is recorded. -/

namespace Ltf.Serial
open CString

inductive SpMode where
  | read
  | write
  | readWrite
deriving DecidableEq

inductive SpParity where
  | none
  | odd
  | even
  | mark
  | space
deriving DecidableEq

/-- `enum sp_rts` and `enum sp_dtr` -/
inductive SpOutputLine where
  | off
  | on
  | flowControl
deriving DecidableEq

/-- `enum sp_cts` and `enum sp_dsr` -/
inductive SpInputLine where
  | ignore
  | flowControl
deriving DecidableEq

inductive SpXonXoff where
  | disabled
  | input
  | output
  | inOut
deriving DecidableEq

inductive SpFlowcontrol where
  | none
  | xonXoff
  | rtsCts
  | dtrDsr
deriving DecidableEq

inductive SpBuffer where
  | input
  | output
  | both
deriving DecidableEq

/-- The functions of the library that take a port. -/
inductive SpCall where
  | getDescription
  | getName
  | getTransport
  | getUsbBusAddress
  | getUsbManufacturer
  | getUsbProduct
  | getUsbSerial
  | getUsbVidPid
  | getBluetoothAddress
  | openPort (mode : SpMode)
  | setBaudrate (baudrate : Int)
  | setBits (bits : Int)
  | setParity (parity : SpParity)
  | setStopbits (stopbits : Int)
  | setRts (rts : SpOutputLine)
  | setCts (cts : SpInputLine)
  | setDtr (dtr : SpOutputLine)
  | setDsr (dsr : SpInputLine)
  | setXonXoff (xonXoff : SpXonXoff)
  | setFlowcontrol (flowcontrol : SpFlowcontrol)
  | blockingRead (count : Nat) (timeout : Nat)
  | nonblockingRead (count : Nat)
  | blockingWrite (data : List UInt8) (timeout : Nat)
  | nonblockingWrite (data : List UInt8)
  | inputWaiting
  | outputWaiting
  | flush (buffers : SpBuffer)
  | drain
  | close
deriving DecidableEq

/-- An answer of the library: the code or the count that is returned, the text or the two
numbers that were asked for, what a read leaves in its buffer, how many ports there are, and
`sp_last_error_message` after it. -/
structure Answer where
  code : Int := 0
  text : Option CStr := none
  numbers : Int × Int := (0, 0)
  bytes : List UInt8 := []
  ports : Nat := 0
  message : CStr := .lit ""

/-- What becomes of ports, which are told apart by their numbers. `none` is `NULL`. -/
inductive SpEvent where
  | found (port : Nat)
  | listed (ports : List Nat)
  | called (port : Option Nat) (call : SpCall) (code : Int)
  | freed (port : Nat)
  | listFreed (ports : List Nat)
deriving DecidableEq

/-- The `port` of every userdata there has been, and the number of ports. -/
structure World where
  handles : List (Option Nat) := []
  ports : Nat := 0
  asked : Nat := 0
  events : List SpEvent := []

/-- What is left open: the answers of the library, and how Lua converts between strings and numbers. -/
structure SerialEnv extends LuaChoices where
  answer : Nat → Answer
  stringNumber : List UInt8 → Option (Int ⊕ UInt64)

/-- An argument of a function: userdata of the module, a table, or another value. -/
inductive SerialArg where
  | port (handle : Nat)
  | table
  | value (value : LuaValue)

/-- What a function returns. -/
inductive SerialResult where
  | none
  | value (value : LuaValue)
  | handle (handle : Nat)
  | info (fields : List (CStr × LuaValue))
  | infos (list : List (List (CStr × LuaValue)))

abbrev SerialM := ExceptT LuaError (StateM World)

def selfshift : List SerialArg → Nat
  | .table :: _ => 2
  | _ => 1

/-- `check_port`: the userdata, and its `port`. -/
def checkPort (args : List SerialArg) (idx : Nat) : SerialM (Nat × Option Nat) := do
  let world ← get
  match args[idx - 1]? with
  | some (.port handle) =>
    match world.handles[handle]? with
    | some port => return (handle, port)
    | none => throw (.typeError idx (.lit "ltf-serial"))
  | _ => throw (.typeError idx (.lit "ltf-serial"))

section Module
variable (env : SerialEnv)

def checkLstring (args : List SerialArg) (idx : Nat) : SerialM (List UInt8) :=
  match args[idx - 1]? with
  | some (.value value) =>
    match env.toString value with
    | some bytes => return bytes
    | none => throw (.typeError idx (.lit "string"))
  | _ => throw (.typeError idx (.lit "string"))

def checkString (args : List SerialArg) (idx : Nat) : SerialM CStr := do
  let bytes ← checkLstring env args idx
  return .ofBytes bytes

def integerOf (idx : Nat) : Int ⊕ UInt64 → SerialM Int
  | .inl value => return value
  | .inr bits =>
    match Binary64.toInt64 bits with
    | some value => return value
    | none => throw (.argError idx (.lit "number has no integer representation"))

def checkInteger (args : List SerialArg) (idx : Nat) : SerialM Int :=
  match args[idx - 1]? with
  | some (.value (.integer value)) => integerOf idx (.inl value)
  | some (.value (.number bits)) => integerOf idx (.inr bits)
  | some (.value (.string bytes)) =>
    match env.stringNumber bytes with
    | some value => integerOf idx value
    | none => throw (.typeError idx (.lit "number"))
  | _ => throw (.typeError idx (.lit "number"))

def optInteger (args : List SerialArg) (idx : Nat) (default : Int) : SerialM Int :=
  match args[idx - 1]? with
  | none | some (.value .nil) => return default
  | some _ => checkInteger env args idx

/-- The library is asked something. -/
def ask (event : Answer → List SpEvent) : SerialM Answer := do
  let world ← get
  let answer := env.answer world.asked
  set { world with asked := world.asked + 1, events := world.events ++ event answer }
  return answer

def spCall (port : Option Nat) (call : SpCall) : SerialM Answer := ask env fun answer => [.called port call answer.code]

/-- A call after which any code but `SP_OK` is an error. -/
def spCheck (port : Option Nat) (call : SpCall) : SerialM Unit := do
  let answer ← spCall env port call
  if answer.code ≠ 0 then throw (.error answer.message)

/-- The userdata is not reachable when the library fails. -/
def lModuleSerialGetPortByName (args : List SerialArg) : SerialM SerialResult := do
  let s := selfshift args
  let _ ← checkString env args s
  let answer ← ask env fun _ => []
  if answer.code ≠ 0 then throw (.error answer.message)
  let world ← get
  set { world with
    handles := world.handles ++ [some world.ports]
    ports := world.ports + 1
    events := world.events ++ [SpEvent.found world.ports] }
  return .handle world.handles.length

inductive SpTransport where
  | native
  | usb
  | bluetooth
  | unknown
deriving DecidableEq

def SpTransport.ofCode (code : Int) : SpTransport :=
  if code = 0 then .native else if code = 1 then .usb else if code = 2 then .bluetooth else .unknown

structure PortInfoHelper where
  path : Option CStr
  description : Option CStr
  serial : Option CStr := none
  product : Option CStr := none
  manufacturer : Option CStr := none
  type : SpTransport
  vid : Int := 0
  pid : Int := 0
  usbAddr : Int := 0
  usbBus : Int := 0
  btAddr : Option CStr := none

/-- The two numbers a call has written, which stay `0` when it fails. -/
def numbersOf (answer : Answer) : Int × Int := if answer.code = 0 then answer.numbers else (0, 0)

def portInfoHelperFromPort (port : Option Nat) : SerialM PortInfoHelper := do
  let description ← spCall env port .getDescription
  let path ← spCall env port .getName
  let transport ← spCall env port .getTransport
  let pi : PortInfoHelper :=
    { path := path.text, description := description.text, type := .ofCode transport.code }
  match pi.type with
  | .usb =>
    let usb ← spCall env port .getUsbBusAddress
    let manufacturer ← spCall env port .getUsbManufacturer
    let product ← spCall env port .getUsbProduct
    let serial ← spCall env port .getUsbSerial
    let ids ← spCall env port .getUsbVidPid
    return { pi with
      usbBus := (numbersOf usb).1, usbAddr := (numbersOf usb).2, manufacturer := manufacturer.text, product := product.text
      serial := serial.text, vid := (numbersOf ids).1, pid := (numbersOf ids).2 }
  | .bluetooth =>
    let address ← spCall env port .getBluetoothAddress
    return { pi with btAddr := address.text }
  | _ => return pi

def transportStr : SpTransport → CStr
  | .native => .lit "native"
  | .usb => .lit "usb"
  | .bluetooth => .lit "bluetooth"
  | .unknown => .lit "unknown"

def textField (key : CStr) (text : Option CStr) : List (CStr × LuaValue) :=
  (text.map fun text => (key, LuaValue.string text.bytes)).toList

def numberField (key : CStr) (number : Int) : List (CStr × LuaValue) :=
  if number = 0 then [] else [(key, .integer number)]

def lPortInfoHelper (port : Option Nat) : SerialM (List (CStr × LuaValue)) := do
  let pi ← portInfoHelperFromPort env port
  return [(.lit "type", .string (transportStr pi.type).bytes)] ++ textField (.lit "path") pi.path ++
    textField (.lit "description") pi.description ++ textField (.lit "serial") pi.serial ++
    textField (.lit "product") pi.product ++ textField (.lit "manufacturer") pi.manufacturer ++
    numberField (.lit "vid") pi.vid ++ numberField (.lit "pid") pi.pid ++ numberField (.lit "usb_address") pi.usbAddr ++
    numberField (.lit "usb_bus") pi.usbBus ++ textField (.lit "bluetooth_address") pi.btAddr

def lModuleSerialGetPortInfo (args : List SerialArg) : SerialM SerialResult := do
  let s := selfshift args
  let (_, port) ← checkPort args s
  let fields ← lPortInfoHelper env port
  return .info fields

/-- Numbers no port has had yet. -/
def numbersFrom (world : World) (count : Nat) : List Nat := (List.range count).map (world.ports + ·)

def lModuleSerialListPorts (_args : List SerialArg) : SerialM SerialResult := do
  let answer ← ask env fun _ => []
  if answer.code ≠ 0 then throw (.error answer.message)
  let world ← get
  let ports := numbersFrom world answer.ports
  set { world with ports := world.ports + answer.ports, events := world.events ++ [SpEvent.listed ports] }
  let infos ← ports.mapM fun port => lPortInfoHelper env (some port)
  modify fun world => { world with events := world.events ++ [SpEvent.listFreed ports] }
  return .infos infos

/-! Options. A name that is none of those listed is refused before the library is asked. -/

def modeFromStr : List (CStr × SpMode) := [(.lit "rw", .readWrite), (.lit "r", .read), (.lit "w", .write)]

def parityFromStr : List (CStr × SpParity) :=
  [(.lit "none", .none), (.lit "odd", .odd), (.lit "even", .even), (.lit "mark", .mark), (.lit "space", .space)]

def spRtsFromStr : List (CStr × SpOutputLine) := [(.lit "off", .off), (.lit "on", .on), (.lit "flowctrl", .flowControl)]

def spCtsFromStr : List (CStr × SpInputLine) := [(.lit "ignore", .ignore), (.lit "flowctrl", .flowControl)]

def spDtrFromStr : List (CStr × SpOutputLine) := [(.lit "off", .off), (.lit "on", .on), (.lit "flowctrl", .flowControl)]

def spDsrFromStr : List (CStr × SpInputLine) := [(.lit "ignore", .ignore), (.lit "flowctrl", .flowControl)]

def spXonxoffFromStr : List (CStr × SpXonXoff) :=
  [(.lit "i", .input), (.lit "o", .output), (.lit "io", .inOut), (.lit "disable", .disabled)]

def spFlowcontrolFromStr : List (CStr × SpFlowcontrol) :=
  [(.lit "dtrdsr", .dtrDsr), (.lit "rtscts", .rtsCts), (.lit "xonxoff", .xonXoff), (.lit "none", .none)]

def spBufferFromStr : List (CStr × SpBuffer) := [(.lit "i", .input), (.lit "o", .output), (.lit "io", .both)]

def setNamed {α : Type} (names : List (CStr × α)) (invalid : CStr) (call : α → SpCall) (args : List SerialArg) :
    SerialM SerialResult := do
  let s := selfshift args
  let (_, port) ← checkPort args s
  let str ← checkString env args (s + 1)
  match names.lookup str with
  | none => throw (.error invalid)
  | some value =>
    spCheck env port (call value)
    return .none

def setNumber (call : Int → SpCall) (args : List SerialArg) : SerialM SerialResult := do
  let s := selfshift args
  let (_, port) ← checkPort args s
  let value ← checkInteger env args (s + 1)
  spCheck env port (call (toInt32 value))
  return .none

def lModuleSerialOpen := setNamed env modeFromStr (.lit "invalid mode, use 'r', 'w' or 'rw'") .openPort

def lModuleSerialSetBaudrate := setNumber env .setBaudrate

def lModuleSerialSetBits := setNumber env .setBits

def lModuleSerialSetParity :=
  setNamed env parityFromStr (.lit "invalid parity, use 'none', 'odd', 'even', 'mark' or 'space'") .setParity

def lModuleSerialSetStopbits := setNumber env .setStopbits

def lModuleSerialSetRts := setNamed env spRtsFromStr (.lit "invalid rts option, use 'off', 'on' or 'flowctrl'") .setRts

def lModuleSerialSetCts := setNamed env spCtsFromStr (.lit "invalid cts option, use 'ignore' or 'flowctrl'") .setCts

def lModuleSerialSetDtr := setNamed env spDtrFromStr (.lit "invalid dtr option, use 'off', 'on' or 'flowctrl'") .setDtr

def lModuleSerialSetDsr := setNamed env spDsrFromStr (.lit "invalid dsr option, use 'ignore' or 'flowctrl'") .setDsr

def lModuleSerialSetXonXoff :=
  setNamed env spXonxoffFromStr (.lit "invalid xonxoff option, use 'i', 'o', 'io' or 'disable'") .setXonXoff

def lModuleSerialSetFlowcontrol := setNamed env spFlowcontrolFromStr
  (.lit "invalid flowcontrol option, use 'dtrdsr', 'rtscts', 'xonxoff' or 'none'") .setFlowcontrol

def lModuleSerialFlush := setNamed env spBufferFromStr (.lit "invalid direction, use 'i', 'o' or 'io'") .flush

/-- `int` to `unsigned int` -/
def toUnsigned (value : Int) : Nat := (value % 4294967296).toNat

/-- No buffer is as large as a negative count makes it. -/
def readHelper (blocking : Bool) (args : List SerialArg) : SerialM SerialResult := do
  let s := selfshift args
  let (_, port) ← checkPort args s
  let n ← toInt32 <$> checkInteger env args (s + 1)
  let toMs ← toInt32 <$> optInteger env args (s + 2) 0
  if n < 0 then throw (.error (.lit "not enough memory"))
  let got ← spCall env port (if blocking then .blockingRead n.toNat (toUnsigned toMs) else .nonblockingRead n.toNat)
  if got.code < 0 then throw (.error got.message)
  return .value (.string (got.bytes.take got.code.toNat))

def lModuleSerialReadBlocking := readHelper env true

def lModuleSerialReadNonblocking := readHelper env false

def writeHelper (blocking : Bool) (args : List SerialArg) : SerialM SerialResult := do
  let s := selfshift args
  let (_, port) ← checkPort args s
  let buf ← checkLstring env args (s + 1)
  let toMs ← toInt32 <$> optInteger env args (s + 2) 0
  let wrote ← spCall env port (if blocking then .blockingWrite buf (toUnsigned toMs) else .nonblockingWrite buf)
  if wrote.code < 0 then throw (.error wrote.message)
  return .value (.integer wrote.code)

def lModuleSerialWriteBlocking := writeHelper env true

def lModuleSerialWriteNonblocking := writeHelper env false

def statusHelper (direction : Bool) (args : List SerialArg) : SerialM SerialResult := do
  let s := selfshift args
  let (_, port) ← checkPort args s
  let r ← spCall env port (if direction then .inputWaiting else .outputWaiting)
  if r.code < 0 then throw (.error r.message)
  return .value (.integer r.code)

def lModuleSerialGetInputWaiting := statusHelper env true

def lModuleSerialGetOutputWaiting := statusHelper env false

def lModuleSerialDrain (args : List SerialArg) : SerialM SerialResult := do
  let s := selfshift args
  let (_, port) ← checkPort args s
  spCheck env port .drain
  return .none

def lModuleSerialClose (args : List SerialArg) : SerialM SerialResult := do
  let s := selfshift args
  let (handle, port) ← checkPort args s
  match port with
  | none => return .none
  | some port =>
    spCheck env (some port) .close
    modify fun world => { world with handles := world.handles.set handle none, events := world.events ++ [SpEvent.freed port] }
    return .none

def lGc := lModuleSerialClose env

def portMt : List (CStr × (List SerialArg → SerialM SerialResult)) := [
  (.lit "close", lModuleSerialClose env),
  (.lit "drain", lModuleSerialDrain env),
  (.lit "flush", lModuleSerialFlush env),
  (.lit "get_port_info", lModuleSerialGetPortInfo env),
  (.lit "get_waiting_input", lModuleSerialGetInputWaiting env),
  (.lit "get_waiting_output", lModuleSerialGetOutputWaiting env),
  (.lit "open", lModuleSerialOpen env),
  (.lit "read_blocking", lModuleSerialReadBlocking env),
  (.lit "read_nonblocking", lModuleSerialReadNonblocking env),
  (.lit "read", lModuleSerialReadNonblocking env),
  (.lit "set_baudrate", lModuleSerialSetBaudrate env),
  (.lit "set_bits", lModuleSerialSetBits env),
  (.lit "set_cts", lModuleSerialSetCts env),
  (.lit "set_dsr", lModuleSerialSetDsr env),
  (.lit "set_dtr", lModuleSerialSetDtr env),
  (.lit "set_flowcontrol", lModuleSerialSetFlowcontrol env),
  (.lit "set_parity", lModuleSerialSetParity env),
  (.lit "set_rts", lModuleSerialSetRts env),
  (.lit "set_stopbits", lModuleSerialSetStopbits env),
  (.lit "set_xon_xoff", lModuleSerialSetXonXoff env),
  (.lit "write_blocking", lModuleSerialWriteBlocking env),
  (.lit "write_nonblocking", lModuleSerialWriteNonblocking env),
  (.lit "write", lModuleSerialWriteBlocking env),
  (.lit "__gc", lGc env)]

def moduleFns : List (CStr × (List SerialArg → SerialM SerialResult)) :=
  [(.lit "get_port", lModuleSerialGetPortByName env), (.lit "list_devices", lModuleSerialListPorts env)]

/-- What a metatable holds: a name, a function, or a table of functions. -/
inductive MetaField where
  | name (name : CStr)
  | function (function : List SerialArg → SerialM SerialResult)
  | table (functions : List (CStr × (List SerialArg → SerialM SerialResult)))

/-- The metatable of the userdata. All the functions are one level below it. -/
def metatable : List (CStr × MetaField) := [(.lit "__name", .name (.lit "ltf-serial")), (.lit "__index", .table (portMt env))]

/-- `port:name(...)`, `serial:name(...)`, or a userdata that is collected. -/
inductive SerialOp where
  | method (name : CStr) (args : List SerialArg)
  | function (name : CStr) (args : List SerialArg)
  | collect (handle : Nat)

def index (name : CStr) : Option (List SerialArg → SerialM SerialResult) :=
  match (metatable env).lookup (.lit "__index") with
  | some (.table functions) => functions.lookup name
  | _ => none

/-- What Lua calls when it collects userdata. -/
def finaliser : Option (List SerialArg → SerialM SerialResult) :=
  match (metatable env).lookup (.lit "__gc") with
  | some (.function function) => some function
  | _ => none

def missing : SerialM SerialResult := throw (.error (.lit "attempt to call a nil value"))

def serialOp : SerialOp → SerialM SerialResult
  | .method name args => (index env name).elim missing (· args)
  | .function name args => ((moduleFns env).lookup name).elim missing (· args)
  | .collect handle => (finaliser env).elim (pure .none) (· [.port handle])

def serialStep (world : World) (op : SerialOp) : World := (serialOp env op world).2

end Module
end Ltf.Serial
