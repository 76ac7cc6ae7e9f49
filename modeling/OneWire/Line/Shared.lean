import OneWire.Command
import OneWire.Line.Wire
import OneWire.Rom

/-!
# Devices on a shared line

Each device can pull the line low and none can pull it high, so the line carries the logical AND of
what the devices send. ROM commands decide which devices are active.
-/

namespace OneWire

/-! ## Devices -/

structure Device where
  rom : Rom
  /-- It answers an alarm search. -/
  alarm : Bool := false
  /-- What it sends once selected; ones after the end. -/
  data : List Byte := []
  /-- It leaves a search at this wire bit. -/
  dropAt : Option Nat := none
deriving DecidableEq

/-- Bit `i` of what the device sends once selected. -/
def Device.dataBit (d : Device) (i : Nat) : Bool :=
  match d.data[i / 8]? with
  | some b => b.getLsbD (i % 8)
  | none => true

/-- A device takes part in a search at wire bit `i`. -/
def Device.staysAt (d : Device) (i : Nat) : Bool :=
  match d.dropAt with
  | some n => i < n
  | none => true

namespace Line

structure Node where
  device : Device
  /-- It listens and sends. -/
  active : Bool := false
  /-- It was selected by the last MATCH ROM, so RESUME selects it again. -/
  resumes : Bool := false
deriving DecidableEq

/-- The slots of a search at one wire bit. -/
inductive Turn where
  /-- The devices send the bit. -/
  | value
  /-- The devices send its complement. -/
  | complement
  /-- The master writes the branch. -/
  | branch
deriving DecidableEq, Repr

/-- What the devices expect. Wire bits count from 0. -/
inductive Mode where
  /-- Nothing before the next reset. -/
  | deaf
  /-- A ROM command, of which these bits came. -/
  | command (received : List Bool)
  | search (bit : Nat) (turn : Turn)
  | identify (bit : Nat)
  /-- To receive the identifier to be selected. -/
  | address (bit : Nat)
  /-- To send the data of the selected devices. -/
  | selected (bit : Nat)
deriving DecidableEq, Repr

end Line

open Line

structure Line where
  nodes : List Node
  mode : Mode := .deaf
  /-- How many resets the devices still answer; they never tire if there is no number. -/
  resetsLeft : Option Nat := none
deriving DecidableEq

namespace Line

def ofDevices (devices : List Device) (resetsLeft : Option Nat := none) : Line :=
  { nodes := devices.map fun device => { device }, resetsLeft }

/-- Changes the devices and nothing else. -/
def replug (line : Line) (devices : List Device) : Line :=
  { line with nodes := devices.map fun device => { device } }

/-! ## What the devices send -/

def Node.takesPart (i : Nat) (node : Node) : Bool :=
  node.active && node.device.staysAt i

/-- The AND of what the nodes with `sends` send. -/
def level (nodes : List Node) (sends : Node → Bool) (bit : Node → Bool) : Bool :=
  nodes.all fun node => !sends node || bit node

/-! ## Resets -/

def reset (line : Line) : Bool × Line :=
  match line.resetsLeft with
  | some 0 => (false, line)
  | left =>
    (!line.nodes.isEmpty,
      { nodes := line.nodes.map ({ · with active := true })
        mode := .command []
        resetsLeft := left.map (· - 1) })

/-! ## Reads -/

/-- The slot after wire bit `i`, the last of which ends in `done`. -/
def after (i : Nat) (more done : Mode) : Mode :=
  if i + 1 = Rom.width then done else more

def read (line : Line) : Bool × Line :=
  match line.mode with
  | .deaf | .command _ | .address _ => (true, line)
  | .search i .value =>
    (level line.nodes (·.takesPart i) (·.device.rom.bit i),
      { line with mode := .search i .complement })
  | .search i .complement =>
    (level line.nodes (·.takesPart i) (!·.device.rom.bit i),
      { line with mode := .search i .branch })
  | .search _ .branch => (true, line)
  | .identify i =>
    (level line.nodes (·.active) (·.device.rom.bit i),
      { line with mode := after i (.identify (i + 1)) (.selected 0) })
  | .selected i =>
    (level line.nodes (·.active) (·.device.dataBit i), { line with mode := .selected (i + 1) })

/-! ## Writes -/

def obey (line : Line) : Option Command → Line
  | none => { line with mode := .deaf }
  | some .searchRom => { line with mode := .search 0 .value }
  | some .searchAlarm =>
    { line with
      nodes := line.nodes.map fun node => { node with active := node.device.alarm }
      mode := .search 0 .value }
  | some .readRom => { line with mode := .identify 0 }
  | some .matchRom => { line with mode := .address 0 }
  | some .skipRom => { line with mode := .selected 0 }
  | some .resume =>
    { line with
      nodes := line.nodes.map fun node => { node with active := node.resumes }
      mode := .selected 0 }

/-- Keeps the nodes that take part in a search at wire bit `i` and have bit `b` there. -/
def narrow (i : Nat) (b : Bool) (node : Node) : Node :=
  { node with active := node.takesPart i && node.device.rom.bit i == b }

/-- Keeps the nodes that have bit `b` at wire bit `i`. The last bit makes them resume. -/
def compareBit (i : Nat) (b : Bool) (node : Node) : Node :=
  let active := node.active && node.device.rom.bit i == b
  { node with active, resumes := if i + 1 = Rom.width then active else node.resumes }

def write (b : Bool) (line : Line) : Line :=
  match line.mode with
  | .deaf | .identify _ | .selected _ => line
  | .command received =>
    let received := received ++ [b]
    if received.length = 8 then
      line.obey (Command.ofCode? (.ofBits received))
    else
      { line with mode := .command received }
  | .search i _ =>
    { line with
      nodes := line.nodes.map (narrow i b)
      mode := after i (.search (i + 1) .value) (.selected 0) }
  | .address i =>
    { line with
      nodes := line.nodes.map (compareBit i b)
      mode := after i (.address (i + 1)) (.selected 0) }

/-- The next slot is one in which devices send. -/
def isSending (line : Line) : Bool :=
  match line.mode with
  | .search _ .value | .search _ .complement | .identify _ | .selected _ => true
  | .search _ .branch | .deaf | .command _ | .address _ => false

instance : Wire Line where
  reset := reset
  read := read
  write := write
  sending := isSending

end Line

end OneWire
