import Inertial.Bench.Memory

/-!
# The chip on a serial bus

Over a serial bus the chip is reached byte by byte. The first byte of a transaction is its header:
the top bit tells a read from a write, and the others are an offset in the selected bank. Each
later byte acts one offset further on, and writing the bank selector selects another bank.
-/

set_option autoImplicit false

namespace Inertial

/-- The chip as its bus sees it. -/
structure SerialChip where
  memory : Memory := .zero
  /-- The bank in which offsets count. -/
  bank : Byte := 0

/-- The bit of a header that asks for a read. -/
def readBit : Byte := 0x80

namespace SerialChip

/-- Exchanges the data byte at a position of a transaction. The chip answers with a register when
it is read and with zero otherwise. -/
def exchangeData (header : Byte) (position : Nat) (sent : Byte) (c : SerialChip) :
    Byte × SerialChip :=
  let offset := (header &&& ~~~readBit).toNat + position
  let a := c.bank.toNat * Register.windowLength + offset
  if header &&& readBit ≠ 0 then (c.memory a, c)
  else if offset = Register.bankSelect.toNat then
    (0, { c with bank := sent &&& Register.bankMask })
  else (0, { c with memory := c.memory.write a sent })

/-- Exchanges data bytes from a position on. -/
def exchangeAll (header : Byte) : Nat → List Byte → SerialChip → List Byte × SerialChip
  | _, [], c => ([], c)
  | position, sent :: rest, c =>
    let (answer, c) := c.exchangeData header position sent
    let (answers, c) := exchangeAll header (position + 1) rest c
    (answer :: answers, c)

/-- Exchanges all bytes of a transaction. The answer to the header is zero. -/
def exchange (sent : List Byte) (c : SerialChip) : List Byte × SerialChip :=
  match sent with
  | [] => ([], c)
  | header :: rest =>
    let (answers, c) := c.exchangeAll header 0 rest
    (0 :: answers, c)

end SerialChip

/-- A part of a serial transaction. -/
inductive SerialOp where
  /-- Sends bytes and drops the answers. -/
  | write (bytes : List Byte)
  /-- Collects the answers to a number of zero bytes. -/
  | read (count : Nat)
  /-- Sends bytes and collects the answers. -/
  | exchange (bytes : List Byte)
deriving DecidableEq, Repr

/-- The bytes a part of a transaction sends. -/
def SerialOp.sent : SerialOp → List Byte
  | .write bytes => bytes
  | .read count => List.replicate count 0
  | .exchange bytes => bytes

end Inertial
