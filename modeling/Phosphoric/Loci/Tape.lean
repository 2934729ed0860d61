import Phosphoric.Lib.Word

/-!
# The LOCI's tape port

The registers $0315-$0317 of `src/io/loci_bus.c` and the mounted tape file. A command waits in its
register until it is done; playing, recording and reading a bit wait for the motor. The first eight
bytes after a mount or a rewind are a leader that is not in the file.

The file is its bytes; it can be positioned anywhere.
-/

namespace Phosphoric

/-! ## State -/

abbrev lociTapStatNotReady : Byte := 0x80
abbrev lociTapStatWprot : Byte := 0x40

abbrev lociTapCmdPlay : Byte := 0x01
abbrev lociTapCmdRec : Byte := 0x02
abbrev lociTapCmdRew : Byte := 0x03
abbrev lociTapCmdReadBit : Byte := 0x04
abbrev lociTapCmdFfw : Byte := 0x05

/-- The `tap_` fields of `loci_t`. -/
structure LociTape where
  /-- The bytes of the open file. -/
  file : Option (List Byte)
  size : Nat
  counter : Nat
  cmd : Byte
  stat : Byte
  data : Byte
  leadIn : Nat
  bitCounter : Nat
  encoded : Word
  motorOn : Bool
  wprot : Bool

def LociTape.initial : LociTape where
  file := none
  size := 0
  counter := 0
  cmd := 0
  stat := 0
  data := 0
  leadIn := 0
  bitCounter := 0
  encoded := 0
  motorOn := false
  wprot := false

/-! ## Mounting -/

/-- The file as the host opens it, and whether only for reading. -/
structure TapeFile where
  bytes : List Byte
  wprot : Bool

/-- The old file is closed before the new one is opened. -/
def lociTapOpen (tape : LociTape) : Option TapeFile → Bool × LociTape
  | none => (false, { tape with file := none })
  | some file =>
    (true,
      { tape with
        file := some file.bytes, size := file.bytes.length % 2 ^ 32, counter := 0, stat := 0
        wprot := file.wprot, leadIn := 0, bitCounter := 0, data := 0 })

def lociTapClose (tape : LociTape) : LociTape :=
  { tape with file := none, size := 0, counter := 0, stat := lociTapStatNotReady }

/-! ## Commands -/

def tapParityOdd (byte : Byte) : Bool :=
  (List.range 8).foldl (fun parity i => parity ^^ byte.getLsbD i) true

/-- Start bit, eight bits from the lowest, parity and four stop bits, from the lowest bit on. -/
def tapEncodeFrame (byte : Byte) : Word :=
  0x3C00#16 ||| (if tapParityOdd byte then 0x0200#16 else 0#16) ||| (byte.setWidth 16 <<< 1)

/-- Past the end of the file it is 0. -/
def tapReadByteHost (tape : LociTape) (file : List Byte) : Byte × LociTape :=
  if tape.leadIn < 8 then (0x16#8, { tape with leadIn := tape.leadIn + 1 })
  else
    match file[tape.counter]? with
    | some c => (c, { tape with counter := (tape.counter + 1) % 2 ^ 32 })
    | none => (0#8, tape)

/-- The next byte; 0 without a file. -/
def tapNextByte (tape : LociTape) : Byte × LociTape :=
  match tape.file with
  | some file => tapReadByteHost tape file
  | none => (0#8, tape)

/-- The file with a byte at `i`, after zeros if need be. -/
def putByte (file : List Byte) (i : Nat) (byte : Byte) : List Byte :=
  if i < file.length then file.set i byte
  else file ++ List.replicate (i - file.length) 0#8 ++ [byte]

def tapPlay (tape : LociTape) : LociTape :=
  let (byte, tape) := tapNextByte tape
  { tape with data := byte, cmd := 0 }

def tapReadBit (tape : LociTape) : LociTape :=
  let tape :=
    if tape.bitCounter = 0 then
      let (byte, tape) := tapNextByte tape
      { tape with encoded := tapEncodeFrame byte }
    else tape
  let next := tape.bitCounter + 1
  { tape with
    data := if tape.encoded.getLsbD tape.bitCounter then 1#8 else 0#8
    bitCounter := if next ≥ 14 then 0 else next, cmd := 0 }

/-- `stored` tells whether the host took the byte. -/
def tapRec (tape : LociTape) (stored : Bool) : LociTape :=
  match tape.file with
  | some file =>
    if !tape.wprot && stored then
      { tape with
        file := some (putByte file tape.counter tape.data), counter := (tape.counter + 1) % 2 ^ 32
        size := max tape.size ((tape.counter + 1) % 2 ^ 32), cmd := 0 }
    else { tape with cmd := 0 }
  | none => { tape with cmd := 0 }

def tapExecCmd (tape : LociTape) (cmd : Byte) (stored : Bool) : LociTape :=
  if cmd = lociTapCmdRew then
    if tape.file.isSome then { tape with counter := 0, bitCounter := 0, leadIn := 0, cmd := 0 }
    else { tape with cmd := 0 }
  else if cmd = lociTapCmdFfw then
    if tape.file.isSome then { tape with counter := tape.size, cmd := 0 } else { tape with cmd := 0 }
  else if cmd = lociTapCmdPlay then if tape.motorOn then tapPlay tape else tape
  else if cmd = lociTapCmdReadBit then if tape.motorOn then tapReadBit tape else tape
  else if cmd = lociTapCmdRec then if tape.motorOn then tapRec tape stored else tape
  else { tape with cmd := 0 }

/-! ## Accesses -/

/-- The motor line, from the VIA. A waiting command runs. -/
def lociTapMotor (tape : LociTape) (on stored : Bool) : LociTape :=
  let tape := { tape with motorOn := on }
  if on && tape.cmd != 0#8 then tapExecCmd tape tape.cmd stored else tape

def lociTapRead (tape : LociTape) (address : Word) : Byte :=
  if address = 0x0315#16 then tape.cmd
  else if address = 0x0316#16 then
    if tape.file.isNone then lociTapStatNotReady
    else if tape.wprot then tape.stat ||| lociTapStatWprot
    else tape.stat
  else if address = 0x0317#16 then tape.data
  else 0xFF#8

def lociTapWrite (tape : LociTape) (address : Word) (value : Byte) (stored : Bool) : LociTape :=
  if address = 0x0315#16 then tapExecCmd { tape with cmd := value } value stored
  else if address = 0x0317#16 then { tape with data := value }
  else tape

end Phosphoric
