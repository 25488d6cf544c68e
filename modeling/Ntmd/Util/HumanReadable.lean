/-
The byte counts of `util/HumanReadable`, down to what is handed to `sprintf`.

The values are exact where a double rounds; a division by zero gives what it gives a
double.
-/
import Mathlib.Algebra.Order.Ring.Rat
import Ntmd.Lib.Bytes
import Ntmd.Lib.WhileLoop

namespace Ntmd

open Bytes

/-- A double that holds a number of bytes. -/
inductive Double
  | finite (q : ℚ)
  | infinite
  | nan
  deriving DecidableEq, Repr

namespace Double

/-- `static_cast<double>(bytes)` -/
def ofBytes (bytes : UInt64) : Double := finite bytes.toNat

/-- `static_cast<double>(bytes) / seconds` -/
def overtime (bytes : UInt64) (seconds : UInt32) : Double :=
  if seconds = 0 then
    if bytes = 0 then nan else infinite
  else finite (bytes.toNat / seconds.toNat)

/-- `b > 1000` -/
def isLarge : Double → Bool
  | finite q => decide (1000 < q)
  | infinite => true
  | nan => false

/-- `b /= 1000` -/
def shrink : Double → Double
  | finite q => finite (q / 1000)
  | infinite => infinite
  | nan => nan

end Double

def units : List Bytes :=
  [ascii "B", ascii "KB", ascii "MB", ascii "GB", ascii "TB", ascii "PB"]

/-- What is printed: `b` with its decimals, and a unit. -/
structure Human where
  decimals : Nat
  b : Double
  i : Nat
  unit : Bytes
  deriving DecidableEq, Repr

/-- Why nothing is: the loop has not ended yet, or there is no unit with the index. -/
inductive HumanFault
  | running
  | noUnit (i : Nat)
  deriving DecidableEq, Repr

/-- The loop of both functions, which leaves `b` and `i`. -/
def unitLoop (fuel : Nat) (b : Double) : Option (Double × Nat) :=
  WhileLoop.run (fun s => s.1.isLarge) (fun s => (s.1.shrink, s.2 + 1)) fuel (b, 0)

/-- The loop and the read of `units`; the decimals may be the index. -/
def human (fuel : Nat) (b : Double) (decimals : Nat → Nat) : Except HumanFault Human :=
  match unitLoop fuel b with
  | none => .error .running
  | some (b, i) =>
      match units[i]? with
      | none => .error (.noUnit i)
      | some unit => .ok { decimals := decimals i, b, i, unit }

/-- `bytesToHuman` -/
def bytesToHuman (fuel : Nat) (bytes : UInt64) : Except HumanFault Human :=
  human fuel (.ofBytes bytes) fun _ => 2

/-- `bytesToHumanOvertime` -/
def bytesToHumanOvertime (fuel : Nat) (bytes : UInt64) (seconds : UInt32) :
    Except HumanFault Human :=
  human fuel (.overtime bytes seconds) id

end Ntmd
