import Ltf.Base.CString

/-! `read_until` of `lib/ltf/serial.lua` and of `lib/ltf/ssh/shell_channel.lua`. The clock
shows a number of milliseconds at each look, and a read returns a chunk, an empty one or
`nil`. Numbers are exact integers. -/

namespace Ltf.ReadUntil
open CString

/-- What the loop works with once the options are read. The first look at the clock is the
one for the deadline. -/
structure Loop where
  pattern : Option (List UInt8)
  timeout : Int
  clock : Nat → Int
  chunk : Nat → Option (List UInt8)

def Loop.deadline (l : Loop) : Int := l.clock 0 + l.timeout

/-- Where the loop is, or how it ended, with the number of reads so far. -/
inductive Reading where
  | reading (reads : Nat) (buftable : List (List UInt8))
  | returned (reads : Nat) (found : Bool) (text : List UInt8)
  | raised (reads : Nat) (message : CStr)
deriving DecidableEq

/-- A chunk is put into the table and looked for in all of it. -/
def Loop.insert (l : Loop) (reads : Nat) (buftable : List (List UInt8)) : Reading :=
  let fullBuff := buftable.flatten
  match l.pattern with
  | none => .raised reads (.lit "bad argument #1 to 'find' (string expected, got nil)")
  | some pattern => if strstr fullBuff pattern then .returned reads true fullBuff else .reading reads buftable

/-- One turn of the loop. -/
def Loop.round (l : Loop) : Reading → Reading
  | .reading reads buftable =>
    let remaining := max 0 (l.deadline - l.clock (reads + 1))
    if remaining = 0 then .returned reads false buftable.flatten
    else
      match l.chunk reads with
      | none => .reading (reads + 1) buftable
      | some chunk =>
        if chunk.length > 0 then l.insert (reads + 1) (buftable ++ [chunk]) else .reading (reads + 1) buftable
  | ended => ended

/-- `serial_read_until_opts` -/
structure SerialReadUntilOpts where
  pattern : Option (List UInt8) := none
  timeout : Option Int := none
  chunkSize : Option Int := none

/-- `read_until` on a port, whose reads depend on the size they ask for. -/
def serialReadUntil (clock : Nat → Int) (port : Int → Nat → Option (List UInt8)) (opts : SerialReadUntilOpts) :
    Loop where
  pattern := some (opts.pattern.getD [10])
  timeout := opts.timeout.getD 200
  clock
  chunk := port (opts.chunkSize.getD 64)

/-- `ssh_channel_read_opts` -/
structure SshChannelReadOpts where
  stream : Option (List UInt8) := none
  chunkSize : Option Int := none

/-- `ssh_read_until_opts` -/
structure SshReadUntilOpts where
  pattern : Option (List UInt8) := none
  timeout : Option Int := none
  readOpts : Option SshChannelReadOpts := none

def stdout : List UInt8 := (CStr.lit "stdout").bytes

def defaultSshReadOpts : SshChannelReadOpts where
  stream := some stdout
  chunkSize := some 64

def defaultSshReadUntilOpts : SshReadUntilOpts where
  pattern := some [10]
  timeout := some 200
  readOpts := some defaultSshReadOpts

/-- The two streams of a channel. -/
structure Channel where
  read : Int → Nat → Option (List UInt8)
  readStderr : Int → Nat → Option (List UInt8)

def SshReadUntilOpts.stream (opts : SshReadUntilOpts) : List UInt8 :=
  ((opts.readOpts.getD defaultSshReadOpts).stream).getD stdout

def SshReadUntilOpts.chunkSize (opts : SshReadUntilOpts) : Int :=
  ((opts.readOpts.getD defaultSshReadOpts).chunkSize).getD 64

/-- The function that reads from the stream of the options. -/
def Channel.selected (chan : Channel) (opts : SshReadUntilOpts) : Int → Nat → Option (List UInt8) :=
  if opts.stream = stdout then chan.read else chan.readStderr

/-- `read_until` on a channel. There is no default for the pattern of a table that was given. -/
def shellReadUntil (clock : Nat → Int) (chan : Channel) (opts : Option SshReadUntilOpts) : Loop :=
  let opts := opts.getD defaultSshReadUntilOpts
  { pattern := opts.pattern
    timeout := opts.timeout.getD 200
    clock
    chunk := chan.selected opts opts.chunkSize }

end Ltf.ReadUntil
