/-
The local addresses of the capture device, `net/IPList`.

What `getifaddrs` returns is the environment's.  Every entry's address is read as one of
IPv4, whatever its family is, so an entry carries the four bytes that stand where a
`sockaddr_in` has its address.
-/
import Mathlib.Data.List.Range
import Ntmd.Lib.Bytes

namespace Ntmd

/-- The list lives in an array of sixty-four slots, all zero to begin with. -/
structure IPList where
  mIPs : Vector UInt32 64 := Vector.replicate 64 0
  mSize : Nat := 0
  /-- The array is never filled past its end. -/
  size_le : mSize ≤ 64 := by decide

/-- The first slot is compared whatever `mSize` is, the others up to `mSize`. -/
def IPList.contains (l : IPList) (ip : UInt32) : Bool :=
  l.mIPs[0] == ip || (List.range' 1 (l.mSize - 1)).any fun i => l.mIPs[i]? == some ip

/-- The addresses in the list. -/
def IPList.addresses (l : IPList) : List UInt32 := l.mIPs.toList.take l.mSize

/-! ### Filling the list -/

/-- A `sockaddr`, as far as it is looked at. -/
structure SockAddr where
  family : UInt16
  /-- `sin_addr.s_addr` of the bytes behind the family. -/
  sinAddr : UInt32

/-- An entry of `getifaddrs`. -/
structure IfAddr where
  name : Bytes
  addr : Option SockAddr

/-- `AF_INET` -/
abbrev afInet : UInt16 := 2

namespace IPList

/-- The ways `init` ends the daemon. -/
inductive InitError
  /-- `std::exit`. -/
  | exit
  /-- The array is written past its end. -/
  | overflow
  deriving DecidableEq, Repr

/-- The body of the loop over the entries; an address that is assumed to be the one most
searched for goes to the front. -/
def collect (device : Bytes) (tmp : List UInt32) (interface : IfAddr) : List UInt32 :=
  match interface.addr with
  | none => tmp
  | some addr =>
      if interface.name ≠ device then tmp
      else if addr.sinAddr ≥ 43200 then addr.sinAddr :: tmp
      else tmp ++ [addr.sinAddr]

/-- The body of the loop that copies the addresses; as `init` is called once, the index of the
loop is `mSize`. -/
def store (l : IPList) (ip : UInt32) : Except InitError IPList :=
  if h : l.mSize < 64 then
    .ok { mIPs := l.mIPs.set l.mSize ip h, mSize := l.mSize + 1, size_le := h }
  else .error .overflow

/-- `init`, with what `getifaddrs` returns, none when it fails. -/
def init (device : Bytes) (getifaddrs : Option (List IfAddr)) : Except InitError IPList :=
  match getifaddrs with
  | none => .error .exit
  | some interfaces => (interfaces.foldl (collect device) []).foldlM store {}

end IPList

end Ntmd
