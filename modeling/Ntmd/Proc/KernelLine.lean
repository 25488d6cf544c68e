/-
The lines the kernel prints into its socket tables.

This is the other side of `SocketIndex.refresh`: what a line is printed from, and its
text.  The addresses are the 32-bit words as the host loads them, the ports numbers
in host order.  The fields the daemon skips are kept as general as they can be, any
hexadecimal text for the counters and any number for the decimal ones, so that every
kernel's lines are among them.
-/
import Ntmd.Proc.SocketIndex

namespace Ntmd

open Bytes

/-- A hexadecimal numeral of any width. -/
abbrev HexText := { s : Bytes // s ≠ [] ∧ ∀ c ∈ s, isHex c = true }

/-- What a line is printed from. -/
structure KernelLine where
  sock : Socket
  slotPad : Nat
  slot : Int
  state : HexText
  txQueue : HexText
  rxQueue : HexText
  timer : HexText
  expires : HexText
  retransmits : HexText
  uidPad : Nat
  uid : Int
  timeoutPad : Nat
  timeout : Int
  /-- Whatever comes after the inode. -/
  rest : Bytes
  /-- The kernel numbers its inodes with 32 bits. -/
  inode_lt : sock.inode.toNat < 2 ^ 32
  zero_not_mem : 0 ∉ rest

def spaces (n : Nat) : Bytes := List.replicate n 32

/-- `%08X:%04X` of an address and a port, and what comes after it. -/
def printEndpoint (ip : UInt32) (port : UInt16) (after : Bytes) : Bytes :=
  hexPad 8 ip.toNat ++ (58 :: (hexPad 4 port.toNat ++ after))

/-- `%X:%X` of two counters. -/
def printPair (a b : HexText) (after : Bytes) : Bytes := a.1 ++ (58 :: (b.1 ++ after))

/-- `"%4d: %08X:%04X %08X:%04X %02X %08X:%08X %02X:%08lX %08X %5u %8d %lu ..."` -/
def KernelLine.print (l : KernelLine) : Bytes :=
  spaces l.slotPad ++ (decimalInt l.slot ++ (58 :: (spaces 1 ++
    printEndpoint l.sock.localIP l.sock.localPort (spaces 1 ++
    printEndpoint l.sock.remoteIP l.sock.remotePort (spaces 1 ++
    (l.state.1 ++ (spaces 1 ++
    printPair l.txQueue l.rxQueue (spaces 1 ++
    printPair l.timer l.expires (spaces 1 ++
    (l.retransmits.1 ++ (spaces (l.uidPad + 1) ++
    (decimalInt l.uid ++ (spaces (l.timeoutPad + 1) ++
    (decimalInt l.timeout ++ (spaces 1 ++
    (decimalInt l.sock.inode.toNat ++ (32 :: l.rest)))))))))))))))))

/-! ### The table of IPv6 -/

/-- An IPv6 address, as the four 32-bit words the host loads. -/
structure Address6 where
  w0 : UInt32
  w1 : UInt32
  w2 : UInt32
  w3 : UInt32

/-- `%08X%08X%08X%08X` -/
def Address6.print (ip : Address6) : Bytes :=
  hexPad 8 ip.w0.toNat ++ hexPad 8 ip.w1.toNat ++ hexPad 8 ip.w2.toNat ++ hexPad 8 ip.w3.toNat

/-- The address `::ffff:a.b.c.d`, whose octets are ten zeros, two of `ff`, and the four. -/
def Address6.mapped (a b c d : UInt8) : Address6 :=
  ⟨word32 0 0 0 0, word32 0 0 0 0, word32 0 0 0xFF 0xFF, word32 a b c d⟩

/-- The line with these texts in the places of the addresses. -/
def KernelLine.printWith (l : KernelLine) (localIP remoteIP : Bytes) : Bytes :=
  spaces l.slotPad ++ (decimalInt l.slot ++ (58 :: (spaces 1 ++
    (localIP ++ (58 :: (hexPad 4 l.sock.localPort.toNat ++ (spaces 1 ++
    (remoteIP ++ (58 :: (hexPad 4 l.sock.remotePort.toNat ++ (spaces 1 ++
    (l.state.1 ++ (spaces 1 ++
    printPair l.txQueue l.rxQueue (spaces 1 ++
    printPair l.timer l.expires (spaces 1 ++
    (l.retransmits.1 ++ (spaces (l.uidPad + 1) ++
    (decimalInt l.uid ++ (spaces (l.timeoutPad + 1) ++
    (decimalInt l.timeout ++ (spaces 1 ++
    (decimalInt l.sock.inode.toNat ++ (32 :: l.rest)))))))))))))))))))))))

theorem KernelLine.print_eq (l : KernelLine) :
    l.print = l.printWith (hexPad 8 l.sock.localIP.toNat) (hexPad 8 l.sock.remoteIP.toNat) := rfl

/-- A line of `tcp6` is that of a socket with these addresses in place of its own. -/
def KernelLine.print6 (l : KernelLine) (localIP remoteIP : Address6) : Bytes :=
  l.printWith localIP.print remoteIP.print

end Ntmd
