/-
The index of the kernel's socket tables, `proc/SocketIndex`.

A table is read line by line with one `sscanf` format, and every line of an open
socket is written into one map under the socket's `PacketHash`.  What a table file
holds is the environment's, and may be different at every read, so each function
that opens one takes the tables as they are at that moment.
-/
import Mathlib.Data.List.AList
import Mathlib.Data.Finset.Insert
import Ntmd.Lib.Scanf
import Ntmd.Net.PacketHash

namespace Ntmd

open Bytes Scanf

/-- The tables under `/proc/net` that are ever opened. -/
inductive ProcNetTable
  | tcp
  | tcp6
  | udp
  | raw
  deriving DecidableEq, Repr

/-- The lines of each table file, its header included; none when it cannot be opened. -/
abbrev ProcNet := ProcNetTable → Option (List Bytes)

structure Socket where
  localIP : UInt32
  localPort : UInt16
  remoteIP : UInt32
  remotePort : UInt16
  inode : UInt64
  deriving DecidableEq, Repr

/-- `"%*d: %64[0-9A-Fa-f]:%hX %64[0-9A-Fa-f]:%hX %*X %*X:%*X %*X:%*X %*X %*d %*d %ld %*512s\n"` -/
def lineFormat : List Directive :=
  [.skipDec, .lit 58, .space, .set 64 isHex, .lit 58, .hexShort, .space,
   .set 64 isHex, .lit 58, .hexShort, .space, .skipHex, .space,
   .skipHex, .lit 58, .skipHex, .space, .skipHex, .lit 58, .skipHex, .space, .skipHex, .space,
   .skipDec, .space, .skipDec, .space, .long, .space, .skipWord 512, .space]

/-- `sscanf(packed, "%X", &ip)`. -/
def unpackIP (packed : Bytes) : UInt32 :=
  match sscanf packed [.hexInt] with
  | [.num n] => UInt32.ofInt n
  | _ => 0

/-- The socket a line describes, none when the format does not match in all five values. -/
def Socket.ofLine (line : Bytes) : Option Socket :=
  match sscanf line lineFormat with
  | [.text packedLocalIP, .num localPort, .text packedRemoteIP, .num remotePort, .num inode] =>
      some {
        localIP := unpackIP packedLocalIP, localPort := UInt16.ofInt localPort,
        remoteIP := unpackIP packedRemoteIP, remotePort := UInt16.ofInt remotePort,
        inode := UInt64.ofInt inode }
  | _ => none

/-- The key a socket of this table is stored under. -/
def Socket.hash (table : ProcNetTable) (sock : Socket) : PacketHash :=
  if table = .udp then PacketHash.ofPort sock.localPort
  else
    { ip1 := sock.localIP, port1 := sock.localPort,
      ip2 := sock.remoteIP, port2 := sock.remotePort }

/-- What a line of a table puts into the map; malformed lines and closed sockets nothing. -/
def lineEntry (table : ProcNetTable) (line : Bytes) : Option (PacketHash × UInt64) :=
  match Socket.ofLine line with
  | none => none
  | some sock => if sock.inode = 0 then none else some (sock.hash table, sock.inode)

abbrev SocketMap := AList fun _ : PacketHash => UInt64

structure SocketIndex where
  mSocketMap : SocketMap := ∅
  mCouldNotFind : Finset PacketHash := ∅

namespace SocketIndex

/-- The body of the loop over a table's lines. -/
def refreshLine (table : ProcNetTable) (m : SocketMap) (line : Bytes) : SocketMap :=
  match lineEntry table line with
  | none => m
  | some (hash, inode) => m.insert hash inode

/-- One table of `refresh`, its header line skipped. -/
def refreshTable (net : ProcNet) (s : SocketIndex) (table : ProcNetTable) : SocketIndex :=
  match net table with
  | none => s
  | some lines =>
      { s with mSocketMap := (lines.drop 1).foldl (refreshLine table) s.mSocketMap }

def refresh (s : SocketIndex) (tables : List ProcNetTable) (net : ProcNet) : SocketIndex :=
  tables.foldl (refreshTable net) s

/-- The constructor. -/
def init (net : ProcNet) : SocketIndex := refresh {} [.tcp, .udp, .raw] net

/-- The tables `get` reads again when a packet of this type is missed; none for the others. -/
def tablesFor : PacketType → List ProcNetTable
  | .tcp => [.tcp, .tcp6]
  | .udp => [.udp]
  | _ => []

/-- `get`: the inode of the packet's socket, zero when there is none to be found. -/
def get (s : SocketIndex) (pkt : Packet) (net : ProcNet) : UInt64 × SocketIndex :=
  let hash := PacketHash.ofPacket pkt
  if hash ∈ s.mCouldNotFind then (0, s)
  else
    match s.mSocketMap.lookup hash with
    | some inode => (inode, s)
    | none =>
        match tablesFor pkt.type with
        | [] => (0, s)
        | tables =>
            let s := s.refresh tables net
            match s.mSocketMap.lookup hash with
            | some inode => (inode, s)
            | none => (0, { s with mCouldNotFind := insert hash s.mCouldNotFind })

/-- The loop of the second thread, every sixty seconds. -/
def clearNotFound (s : SocketIndex) : SocketIndex := { s with mCouldNotFind := ∅ }

/-- What can happen to the index after its construction. -/
inductive Action
  | get (pkt : Packet) (net : ProcNet)
  | refresh (tables : List ProcNetTable) (net : ProcNet)
  | clear

def step (s : SocketIndex) : Action → SocketIndex
  | .get pkt net => (s.get pkt net).2
  | .refresh tables net => s.refresh tables net
  | .clear => s.clearNotFound

end SocketIndex

end Ntmd
