/-
Which table an answer came from.

All tables are read into one map, and a key says nothing of the protocol.  So the
lines read since the construction are recorded beside the index, each with its table:
the map is that record loaded, and a key's value is that of the last line with the
key.  A miss reads the tables of the packet's own protocol only; a hit returns what
was last read, whatever table it came from.
-/
import Ntmd.Lib.Run
import Ntmd.Proofs.Reads

namespace Ntmd

open LoadMap Run

namespace SocketIndex

/-- A line that was read: its key, its table, and the inode in it. -/
abbrev ReadLine := PacketHash × (ProcNetTable × UInt64)

/-- The entry a line writes into the map. -/
def ReadLine.entry (e : ReadLine) : PacketHash × UInt64 := (e.1, e.2.2)

/-- The lines of some tables, in the order they are read. -/
def tableLines (net : ProcNet) (tables : List ProcNetTable) : List ReadLine :=
  tables.flatMap fun table => (tableEntries net table).map fun e => (e.1, (table, e.2))

theorem map_entry_tableLines (net : ProcNet) (tables : List ProcNetTable) :
    (tableLines net tables).map ReadLine.entry = tables.flatMap (tableEntries net) := by
  rw [tableLines, List.map_flatMap]
  congr 1
  funext table
  simp [ReadLine.entry, Function.comp_def]

theorem table_mem_of_mem_tableLines {net : ProcNet} {tables : List ProcNetTable} {e : ReadLine}
    (h : e ∈ tableLines net tables) : e.2.1 ∈ tables := by
  obtain ⟨table, htable, he⟩ := List.mem_flatMap.mp h
  obtain ⟨e', -, rfl⟩ := List.mem_map.mp he
  exact htable

/-- The lines a step reads. -/
def linesRead (s : SocketIndex) : Action → List ReadLine
  | .get pkt net =>
      if PacketHash.ofPacket pkt ∈ s.mCouldNotFind ∨ PacketHash.ofPacket pkt ∈ s.mSocketMap then []
      else tableLines net (tablesFor pkt.type)
  | .refresh tables net => tableLines net tables
  | .clear => []

/-- A step loads the lines it reads, and changes the map in no other way. -/
theorem step_mSocketMap (s : SocketIndex) (a : Action) :
    (s.step a).mSocketMap = load s.mSocketMap ((s.linesRead a).map ReadLine.entry) := by
  cases a with
  | get pkt net =>
      rw [step, linesRead]
      by_cases hmissed : PacketHash.ofPacket pkt ∈ s.mCouldNotFind
      · rw [get_of_missed hmissed, if_pos (Or.inl hmissed)]
        rfl
      cases hlookup : s.mSocketMap.lookup (PacketHash.ofPacket pkt) with
      | some inode =>
          have hmem : PacketHash.ofPacket pkt ∈ s.mSocketMap := by
            rw [← AList.lookup_isSome, hlookup]
            rfl
          rw [get_of_known hmissed hlookup, if_pos (Or.inr hmem)]
          rfl
      | none =>
          have hunknown := AList.lookup_eq_none.mp hlookup
          rw [if_neg (not_or.mpr ⟨hmissed, hunknown⟩), map_entry_tableLines]
          by_cases htables : tablesFor pkt.type = []
          · rw [get_of_no_tables hmissed hlookup htables, htables]
            rfl
          · rw [get_of_unknown hmissed hlookup htables, refresh_eq]
            simp only
            split <;> rfl
  | refresh tables net => rw [step, refresh_eq, linesRead, map_entry_tableLines]
  | clear => rfl

/-- An index together with every line it has read. -/
structure Recorded where
  index : SocketIndex
  history : List ReadLine
  /-- The map is the record, loaded. -/
  map_eq : index.mSocketMap = load ∅ (history.map ReadLine.entry)

namespace Recorded

/-- The constructor reads three tables. -/
def init (net : ProcNet) : Recorded where
  index := SocketIndex.init net
  history := tableLines net [.tcp, .udp, .raw]
  map_eq := by rw [SocketIndex.init, refresh_eq, map_entry_tableLines]

def step (r : Recorded) (a : Action) : Recorded where
  index := r.index.step a
  history := r.history ++ r.index.linesRead a
  map_eq := by rw [step_mSocketMap, r.map_eq, List.map_append, load_append]

/-- The last line read with a key is the one that answers for it. -/
theorem lookup_eq (r : Recorded) (k : PacketHash) :
    r.index.mSocketMap.lookup k = (last r.history k).map Prod.snd := by
  have hlast := last_map (fun e : ProcNetTable × UInt64 => e.2) k r.history
  rw [r.map_eq, lookup_load, AList.lookup_empty, Option.or_none]
  exact hlast

/-- The inode answered for a TCP or UDP packet was read from a line of its protocol. -/
def FromOwnProtocol (r : Recorded) : Action → Prop
  | .get pkt net =>
      pkt.type = .tcp ∨ pkt.type = .udp → (r.index.get pkt net).1 ≠ 0 →
        ∃ e ∈ (r.step (.get pkt net)).history, e.1 = PacketHash.ofPacket pkt ∧
          e.2.1 ∈ tablesFor pkt.type ∧ e.2.2 = (r.index.get pkt net).1
  | _ => True

/-- Of the lines read so far with the packet's key, if there are any, the last is of the packet's
protocol. -/
def LastReadOwn (r : Recorded) : Action → Prop
  | .get pkt _ =>
      pkt.type = .tcp ∨ pkt.type = .udp → PacketHash.ofPacket pkt ∉ r.index.mCouldNotFind →
        ∀ table inode, last r.history (PacketHash.ofPacket pkt) = some (table, inode) →
          table ∈ tablesFor pkt.type
  | _ => True

theorem fromOwnProtocol_of_lastReadOwn (r : Recorded) (a : Action) (h : r.LastReadOwn a) :
    r.FromOwnProtocol a := by
  cases a with
  | refresh tables net => exact trivial
  | clear => exact trivial
  | get pkt net =>
      intro htype hinode
      by_cases hmissed : PacketHash.ofPacket pkt ∈ r.index.mCouldNotFind
      · rw [get_of_missed hmissed] at hinode
        exact absurd rfl hinode
      cases hlookup : r.index.mSocketMap.lookup (PacketHash.ofPacket pkt) with
      | some inode =>
          -- A hit: the last line read with the key answers.
          have hlast := r.lookup_eq (PacketHash.ofPacket pkt)
          rw [hlookup] at hlast
          obtain ⟨⟨table, inode'⟩, hread, rfl⟩ := Option.map_eq_some_iff.mp hlast.symm
          rw [get_of_known hmissed hlookup]
          exact ⟨_, List.mem_append_left _ (mem_of_last hread), rfl,
            h htype hmissed table inode' hread, rfl⟩
      | none =>
          -- A miss: whatever is found now was read from the packet's own tables.
          have hunknown := AList.lookup_eq_none.mp hlookup
          have hlines : r.index.linesRead (.get pkt net) = tableLines net (tablesFor pkt.type) :=
            if_neg (not_or.mpr ⟨hmissed, hunknown⟩)
          have htables : tablesFor pkt.type ≠ [] := by
            rcases htype with htype | htype <;> rw [htype] <;> decide
          have hmap := step_mSocketMap r.index (.get pkt net)
          rw [SocketIndex.step, hlines] at hmap
          rw [get_of_unknown hmissed hlookup htables] at hinode hmap ⊢
          cases hfound : (r.index.refresh (tablesFor pkt.type) net).mSocketMap.lookup
              (PacketHash.ofPacket pkt) with
          | none =>
              rw [hfound] at hinode
              exact absurd rfl hinode
          | some inode =>
              rw [hfound] at hmap
              simp only at hmap ⊢
              rw [hmap] at hfound
              rcases lookup_load_cases hfound with hmem | hold
              · obtain ⟨e, he, heq⟩ := List.mem_map.mp hmem
                obtain ⟨hkey, hvalue⟩ := Prod.mk.inj heq
                refine ⟨e, List.mem_append_right _ (hlines ▸ he), hkey,
                  table_mem_of_mem_tableLines he, hvalue⟩
              · rw [hlookup] at hold
                exact absurd hold (by simp)

/--
**In every run whose packets find their own protocol's line last, an inode answered for a
packet was read from a table of the packet's protocol.**
-/
theorem fromOwnProtocol_run (net : ProcNet) (as : List Action)
    (h : Along step LastReadOwn (init net) as) : Along step FromOwnProtocol (init net) as :=
  along_of_guard (I := fun _ => True)
    (fun r a _ hG => ⟨trivial, r.fromOwnProtocol_of_lastReadOwn a hG⟩) trivial h

/-- A host with one TCP connection and a TCP listener on port 8000. -/
def listener : ProcNet
  | .tcp => some [Bytes.ascii "  sl  local_address rem_address",
      Bytes.ascii "   0: 00000000:1F40 00000000:0000 0A 00:00 00:00 00 1000 0 4242 1",
      Bytes.ascii "   1: 0200A8C0:A8CA 22D8B85D:01BB 01 00:00 00:00 00 1000 0 31337 1"]
  | _ => some []

/-- A packet of the connection. -/
def connected : Packet :=
  { type := .tcp, protocol := 6, sip := 0x0200A8C0, dip := 0x22D8B85D, sport := 43210, dport := 443
    direction := .outgoing }

/-- A datagram to the port of the listener. -/
def datagram : Packet :=
  { type := .udp, protocol := 17, sip := 0x22D8B85D, dip := 0x0200A8C0, sport := 40000, dport := 8000
    direction := .incoming }

/-- The connection's own packets are answered from its own line. -/
theorem fromOwnProtocol_connected :
    Along step FromOwnProtocol (init listener) [.get connected listener] := by
  refine fromOwnProtocol_run listener _ ⟨fun _ _ table inode h => ?_, trivial⟩
  have hlast : last (init listener).history (PacketHash.ofPacket connected)
      = some (.tcp, 31337) := by
    decide +kernel
  rw [hlast, Option.some.injEq, Prod.mk.injEq] at h
  rw [← h.1]
  decide

/-- The datagram is answered with the inode of the TCP listener. -/
theorem not_fromOwnProtocol_listener :
    ¬ ∀ (net : ProcNet) (as : List Action), Along step FromOwnProtocol (init net) as := by
  intro h
  have hdatagram := (h listener [.get datagram listener]).1
  have hhistory : ((init listener).step (.get datagram listener)).history.all
      fun e => e.2.1 = .tcp := by
    decide +kernel
  obtain ⟨e, he, -, htable, -⟩ := hdatagram (Or.inr rfl) (by decide +kernel)
  have htcp : e.2.1 = .tcp := by simpa using List.all_eq_true.mp hhistory e he
  rw [htcp] at htable
  exact absurd htable (by decide)

end Recorded

end SocketIndex

end Ntmd
