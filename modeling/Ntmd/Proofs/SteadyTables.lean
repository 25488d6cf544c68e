/-
While the kernel's tables stay as they are, an answer does not depend on the history.

The map is filled at the construction and at every miss, never from `tcp6` before the
first miss, and a miss is remembered.  What relates the map and the list of misses to
the tables, for a key that only lines of the TCP tables can have, is `KeySettled`: an
inode in the map is one of those lines', and a remembered miss means that there is no
such line.
-/
import Ntmd.Lib.Run
import Ntmd.Proofs.Reads

namespace Ntmd

open LoadMap Run

namespace SocketIndex

/-- The lines of both TCP tables, each with its key and its inode. -/
def tcpEntries (net : ProcNet) : List (PacketHash × UInt64) :=
  tableEntries net .tcp ++ tableEntries net .tcp6

/-- The sockets of a raw table have no remote port. -/
def RawPortsZero (net : ProcNet) : Prop :=
  ∀ lines, net .raw = some lines → ∀ line ∈ lines.drop 1, ∀ sock,
    Socket.ofLine line = some sock → sock.remotePort = 0

/-- An entry comes from a line of the table. -/
theorem mem_tableEntries {net : ProcNet} {table : ProcNetTable} {e : PacketHash × UInt64}
    (h : e ∈ tableEntries net table) :
    ∃ lines, net table = some lines ∧ ∃ line ∈ lines.drop 1, ∃ sock,
      Socket.ofLine line = some sock ∧ sock.inode ≠ 0 ∧ e = (sock.hash table, sock.inode) := by
  unfold tableEntries at h
  cases hnet : net table with
  | none =>
      rw [hnet] at h
      exact absurd h (by simp)
  | some lines =>
      rw [hnet] at h
      obtain ⟨line, hline, hentry⟩ := List.mem_filterMap.mp h
      refine ⟨lines, rfl, line, hline, ?_⟩
      unfold lineEntry at hentry
      cases hsock : Socket.ofLine line with
      | none =>
          rw [hsock] at hentry
          exact absurd hentry (by simp)
      | some sock =>
          rw [hsock] at hentry
          simp only at hentry
          split at hentry
          · exact absurd hentry (by simp)
          · rename_i hinode
            exact ⟨sock, rfl, hinode, (Option.some.inj hentry).symm⟩

theorem inode_ne_zero {net : ProcNet} {table : ProcNetTable} {e : PacketHash × UInt64}
    (h : e ∈ tableEntries net table) : e.2 ≠ 0 := by
  obtain ⟨_, -, _, -, sock, -, hinode, rfl⟩ := mem_tableEntries h
  exact hinode

/-- Neither a line of the UDP table nor one of the raw table has a remote port in its key. -/
theorem port2_of_other {net : ProcNet} (hraw : RawPortsZero net) {table : ProcNetTable}
    (htable : table = .udp ∨ table = .raw) {e : PacketHash × UInt64} (h : e ∈ tableEntries net table) :
    e.1.port2 = 0 := by
  obtain ⟨lines, hnet, line, hline, sock, hsock, -, rfl⟩ := mem_tableEntries h
  rcases htable with rfl | rfl
  · rfl
  · exact hraw lines hnet line hline sock hsock

/-- An entry of any table whose key has a remote port is one of the TCP tables'. -/
theorem mem_tcpEntries {net : ProcNet} (hraw : RawPortsZero net) {table : ProcNetTable}
    {e : PacketHash × UInt64} (h : e ∈ tableEntries net table) (hport : e.1.port2 ≠ 0) :
    e ∈ tcpEntries net := by
  cases table with
  | tcp => exact List.mem_append_left _ h
  | tcp6 => exact List.mem_append_right _ h
  | udp => exact absurd (port2_of_other hraw (Or.inl rfl) h) hport
  | raw => exact absurd (port2_of_other hraw (Or.inr rfl) h) hport

theorem mem_tcpEntries_of_flatMap {net : ProcNet} (hraw : RawPortsZero net)
    {tables : List ProcNetTable} {e : PacketHash × UInt64}
    (h : e ∈ tables.flatMap (tableEntries net)) (hport : e.1.port2 ≠ 0) : e ∈ tcpEntries net := by
  obtain ⟨_, -, he⟩ := List.mem_flatMap.mp h
  exact mem_tcpEntries hraw he hport

/-- What the index knows of a key is true of the TCP tables. -/
structure KeySettled (net : ProcNet) (key : PacketHash) (s : SocketIndex) : Prop where
  known : ∀ inode, s.mSocketMap.lookup key = some inode → (key, inode) ∈ tcpEntries net
  missed : key ∈ s.mCouldNotFind → ∀ e ∈ tcpEntries net, e.1 ≠ key

/-- A call for a packet, or none for a clear of the not-found list, with the tables as they are. -/
def callOf (net : ProcNet) : Option Packet → Action
  | some pkt => .get pkt net
  | none => .clear

/-- Loading lines of the tables keeps what is known of a key true. -/
theorem known_load {net : ProcNet} (hraw : RawPortsZero net) {key : PacketHash}
    (hport : key.port2 ≠ 0) {m : SocketMap} {tables : List ProcNetTable}
    (h : ∀ inode, m.lookup key = some inode → (key, inode) ∈ tcpEntries net) (inode : UInt64)
    (hlookup : (load m (tables.flatMap (tableEntries net))).lookup key = some inode) :
    (key, inode) ∈ tcpEntries net := by
  rcases lookup_load_cases hlookup with hmem | hold
  · exact mem_tcpEntries_of_flatMap hraw hmem hport
  · exact h inode hold

/-- A key that was read again and is still not in the map has no line. -/
theorem missed_load {net : ProcNet} {key : PacketHash} {m : SocketMap}
    (h : (load m ((tablesFor .tcp).flatMap (tableEntries net))).lookup key = none) :
    ∀ e ∈ tcpEntries net, e.1 ≠ key := by
  have hall : (tablesFor .tcp).flatMap (tableEntries net) = tcpEntries net := by
    simp [tablesFor, tcpEntries]
  rw [hall, AList.lookup_eq_none, mem_load, not_or] at h
  exact fun e he heq => h.2 ⟨e, he, heq⟩

/-- A packet with a remote port in its key is no UDP packet. -/
theorem type_ne_udp {pkt : Packet} (h : (PacketHash.ofPacket pkt).port2 ≠ 0) : pkt.type ≠ .udp := by
  intro htype
  apply h
  unfold PacketHash.ofPacket
  rw [if_pos htype, if_pos htype]
  split <;> rfl

theorem keySettled_step {net : ProcNet} (hraw : RawPortsZero net) {key : PacketHash}
    (hport : key.port2 ≠ 0) {s : SocketIndex} (h : KeySettled net key s) (call : Option Packet) :
    KeySettled net key (s.step (callOf net call)) := by
  cases call with
  | none => exact ⟨h.known, fun hmissed => absurd hmissed (Finset.notMem_empty _)⟩
  | some pkt =>
      rw [callOf, step]
      by_cases hmissed : PacketHash.ofPacket pkt ∈ s.mCouldNotFind
      · rw [get_of_missed hmissed]
        exact h
      cases hlookup : s.mSocketMap.lookup (PacketHash.ofPacket pkt) with
      | some inode =>
          rw [get_of_known hmissed hlookup]
          exact h
      | none =>
          by_cases htables : tablesFor pkt.type = []
          · rw [get_of_no_tables hmissed hlookup htables]
            exact h
          rw [get_of_unknown hmissed hlookup htables, refresh_eq]
          simp only
          cases hfound : (load s.mSocketMap ((tablesFor pkt.type).flatMap (tableEntries net))).lookup
              (PacketHash.ofPacket pkt) with
          | some inode => exact ⟨known_load hraw hport h.known, h.missed⟩
          | none =>
              refine ⟨known_load hraw hport h.known, fun hmem => ?_⟩
              rcases Finset.mem_insert.mp hmem with rfl | hold
              · -- Only a TCP packet reads tables on a miss and has a remote port in its key.
                have htype : pkt.type = .tcp := by
                  cases ht : pkt.type with
                  | tcp => rfl
                  | udp => exact absurd ht (type_ne_udp hport)
                  | unknown | icmp | dns | ssdp | ntp =>
                      exact absurd (by simp [ht, tablesFor]) htables
                rw [htype] at hfound
                exact missed_load hfound
              · exact h.missed hold

theorem keySettled_init {net : ProcNet} (hraw : RawPortsZero net) {key : PacketHash}
    (hport : key.port2 ≠ 0) : KeySettled net key (init net) := by
  rw [init, refresh_eq]
  exact ⟨known_load hraw hport (by simp), fun hmissed => absurd hmissed (Finset.notMem_empty _)⟩

theorem keySettled_run {net : ProcNet} (hraw : RawPortsZero net) {key : PacketHash}
    (hport : key.port2 ≠ 0) : ∀ (calls : List (Option Packet)) {s : SocketIndex},
      KeySettled net key s → KeySettled net key (exec step s (calls.map (callOf net))) := by
  intro calls
  induction calls with
  | nil => intro s h; exact h
  | cons call calls ih => intro s h; exact ih (keySettled_step hraw hport h call)

/-- What is answered for a TCP packet whose key is settled: one of its lines' inodes, or zero when
it has none. -/
theorem get_of_keySettled {net : ProcNet} {pkt : Packet} (htcp : pkt.type = .tcp)
    {s : SocketIndex} (h : KeySettled net (PacketHash.ofPacket pkt) s)
    (hload : ∀ inode, (load s.mSocketMap ((tablesFor .tcp).flatMap (tableEntries net))).lookup
        (PacketHash.ofPacket pkt) = some inode → (PacketHash.ofPacket pkt, inode) ∈ tcpEntries net) :
    (PacketHash.ofPacket pkt, (s.get pkt net).1) ∈ tcpEntries net ∨
      ((s.get pkt net).1 = 0 ∧ ∀ e ∈ tcpEntries net, e.1 ≠ PacketHash.ofPacket pkt) := by
  by_cases hmissed : PacketHash.ofPacket pkt ∈ s.mCouldNotFind
  · rw [get_of_missed hmissed]
    exact Or.inr ⟨rfl, h.missed hmissed⟩
  cases hlookup : s.mSocketMap.lookup (PacketHash.ofPacket pkt) with
  | some inode =>
      rw [get_of_known hmissed hlookup]
      exact Or.inl (h.known inode hlookup)
  | none =>
      rw [get_of_unknown hmissed hlookup (by rw [htcp]; decide), refresh_eq, htcp]
      simp only
      cases hfound : (load s.mSocketMap ((tablesFor .tcp).flatMap (tableEntries net))).lookup
          (PacketHash.ofPacket pkt) with
      | some inode => exact Or.inl (hload inode hfound)
      | none => exact Or.inr ⟨rfl, missed_load hfound⟩

private theorem eq_of_length_le_one {α : Type} {l : List α} (h : l.length ≤ 1) {a b : α} (ha : a ∈ l)
    (hb : b ∈ l) : a = b := by
  rcases Nat.le_one_iff_eq_zero_or_eq_one.mp h with h0 | h1
  · rw [List.length_eq_zero_iff.mp h0] at ha
    exact absurd ha (by simp)
  · obtain ⟨c, rfl⟩ := List.length_eq_one_iff.mp h1
    rw [List.mem_singleton.mp ha, List.mem_singleton.mp hb]

/--
**While the tables stay as they are, a TCP packet is answered with the inode of its line, and
with zero exactly if it has none**, whatever was asked before.
-/
theorem get_steady (net : ProcNet) (hraw : RawPortsZero net) (calls : List (Option Packet))
    (pkt : Packet) (htcp : pkt.type = .tcp) (hport : (PacketHash.ofPacket pkt).port2 ≠ 0)
    (hone : ((tcpEntries net).filter fun e => e.1 = PacketHash.ofPacket pkt).length ≤ 1) :
    (∀ inode, (PacketHash.ofPacket pkt, inode) ∈ tcpEntries net →
      ((exec step (init net) (calls.map (callOf net))).get pkt net).1 = inode) ∧
    (((exec step (init net) (calls.map (callOf net))).get pkt net).1 = 0 ↔
      ∀ e ∈ tcpEntries net, e.1 ≠ PacketHash.ofPacket pkt) := by
  have hsettled := keySettled_run hraw hport calls (keySettled_init hraw hport)
  have hcases := get_of_keySettled htcp hsettled (known_load hraw hport hsettled.known)
  constructor
  · intro inode hline
    rcases hcases with hanswer | ⟨-, hnone⟩
    · -- Both are the one line that the filter leaves.
      have hmem : ∀ {i}, (PacketHash.ofPacket pkt, i) ∈ tcpEntries net →
          (PacketHash.ofPacket pkt, i) ∈
            (tcpEntries net).filter fun e => e.1 = PacketHash.ofPacket pkt := fun hi =>
        List.mem_filter.mpr ⟨hi, by simp⟩
      exact congrArg Prod.snd (eq_of_length_le_one hone (hmem hanswer) (hmem hline))
    · exact absurd rfl (hnone _ hline)
  · rcases hcases with hanswer | ⟨hzero, hnone⟩
    · have hinode : ((exec step (init net) (calls.map (callOf net))).get pkt net).1 ≠ 0 := by
        rcases List.mem_append.mp hanswer with htable | htable
        · exact inode_ne_zero htable
        · exact inode_ne_zero htable
      exact iff_of_false hinode fun hnone => hnone _ hanswer rfl
    · exact iff_of_true hzero hnone

/-- A connection that only `tcp6` lists, and a listener whose key the datagrams to its port have. -/
def connectionIn6 : ProcNet
  | .tcp => some [Bytes.ascii "  sl  local_address rem_address",
      Bytes.ascii "   0: 00000000:1F40 00000000:0000 0A 00:00 00:00 00 1000 0 4242 1"]
  | .tcp6 => some [Bytes.ascii "  sl  local_address remote_address",
      Bytes.ascii "   0: 0200A8C0:A8CA 22D8B85D:01BB 01 00:00 00:00 00 1000 0 31337 1"]
  | .udp => none
  | .raw => some []

/-- A packet of the connection. -/
def packetIn6 : Packet :=
  { type := .tcp, protocol := 6, sip := 0x0200A8C0, dip := 0x22D8B85D, sport := 43210, dport := 443
    direction := .outgoing }

/-- After a packet of another connection and a clear, the connection is found. -/
theorem get_steady_in6 :
    ((exec step (init connectionIn6)
      ([some { packetIn6 with sport := 43211 }, none].map (callOf connectionIn6))).get packetIn6
        connectionIn6).1 = 31337 := by
  refine (get_steady connectionIn6 ?_ _ packetIn6 rfl (by decide) (by decide +kernel)).1 31337
    (by decide +kernel)
  intro lines hlines line hline
  rw [← Option.some.inj hlines] at hline
  exact absurd hline (by simp)

end SocketIndex

end Ntmd
