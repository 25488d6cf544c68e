/-
The two readers of socket inodes.

The socket tables are read with `%ld`, the links of a process folder with `std::stoi`,
whose exceptions nobody catches.  The kernel numbers its inodes with 32 bits, and the
first reader is right about all of them.  The second is right up to `2 ^ 31`, from
where on the link ends the daemon: `readersAgree_iff`.
-/
import Ntmd.Proofs.MappedAddresses
import Ntmd.Proofs.SteadyFolders

namespace Ntmd

open Bytes LoadMap Scanf ProcessIndex

/-- The folder of a process as the kernel shows it. -/
structure KernelDir extends PidDir where
  content : Bytes
  entries : List FdEntry
  comm_eq : comm = some content
  fd_eq : fd = some entries
  /-- Sockets are numbered from one, with 32 bits, and a path holds no zero byte. -/
  targets : ∀ text ∈ linkTargets entries, 0 ∉ text ∧
    ((∃ n : UInt64, 1 ≤ n.toNat ∧ n.toNat < 2 ^ 32 ∧ text = socketTarget n) ∨ IsOtherTarget text)

/-- A file descriptor of the folder is the socket with this inode. -/
def KernelDir.Links (d : KernelDir) (n : UInt64) : Prop := socketTarget n ∈ linkTargets d.entries

/-- Every socket that the folder links to is stored under its number by both readers. -/
structure ReadersAgree (d : KernelDir) : Prop where
  line : ∀ n, d.Links n → ∀ (table : ProcNetTable) (l : KernelLine) (m : SocketMap),
    l.sock.inode = n →
      (SocketIndex.refreshLine table m l.print).lookup (l.sock.hash table) = some n
  line6 : ∀ n, d.Links n → ∀ (l : KernelLine) (localIP remoteIP : Address6) (m : SocketMap),
    l.sock.inode = n →
      (SocketIndex.refreshLine .tcp6 m (l.print6 localIP remoteIP)).lookup
        (l.key6 localIP remoteIP) = some n
  /-- No exception leaves the loop over the folder. -/
  link : ∀ n, d.Links n → ∀ (pid : Int32) (target : UInt64) (m : ProcessMap), ∃ m' found,
    processPidDir d.toPidDir pid target m = .ok (m', found) ∧
      m'.lookup n = some (processOf d.content pid)

theorem KernelDir.Links.ne_zero {d : KernelDir} {n : UInt64} (h : d.Links n) : n ≠ 0 := by
  rintro rfl
  rcases (d.targets _ h).2 with ⟨n, h1, -, heq⟩ | hother
  · rw [← socketTarget_injective heq] at h1
    exact absurd h1 (by decide)
  · exact not_isOtherTarget_socketTarget 0 hother

/-! ### The lines -/

theorem lookup_stored {inode : UInt64} (h : inode ≠ 0) (m : SocketMap) (key : PacketHash) :
    (m.stored key inode).lookup key = some inode := by
  rw [SocketMap.stored, if_neg h, AList.lookup_insert]

/-! ### The links -/

namespace ProcessIndex

theorem stoi_socket_large {n : UInt64} (h : 2 ^ 31 ≤ n.toNat) (rest : Bytes) :
    stoi (decimal n.toNat ++ (93 :: rest)) = .error .outOfRange := by
  rw [stoi, readDec_digits (decimal_ne_nil _) (fun c => isDigit_of_mem_decimal)
    (stops_cons.mpr (by decide)), value_decimal]
  exact if_neg fun hrange => absurd hrange.2 (by exact_mod_cast Nat.not_lt.mpr h)

/-- An inode that does not fit an `int` ends the daemon. -/
theorem socketInode_of_large {n : UInt64} (hn : 2 ^ 31 ≤ n.toNat) {buf : Bytes}
    (h0 : 0 ∈ readlink (socketTarget n) buf) :
    (linkString (readlink (socketTarget n) buf)).bind socketInode =
      .error (.uncaught .outOfRange) := by
  obtain ⟨rest, hread⟩ := socketInode_eq h0
  rw [hread, stoiOrDie, stoi_socket_large hn]
  rfl

/-- Everything read from a folder is of its process. -/
theorem linkReads_process {process : Process} : ∀ {entries : List FdEntry} {buf : Bytes}
    {l : List (UInt64 × Process)}, linkReads process entries buf = .ok l →
      ∀ e ∈ l, e.2 = process := by
  intro entries
  induction entries with
  | nil =>
      intro buf l h e he
      rw [← Except.ok.inj h] at he
      exact absurd he (by simp)
  | cons entry entries ih =>
      intro buf l h
      cases htarget : (if entry.isLink then entry.target else none) with
      | none =>
          rw [linkReads_cons_other htarget] at h
          exact ih h
      | some text =>
          obtain ⟨hlink, htext⟩ := link_of_target htarget
          rw [linkReads_cons_link hlink htext] at h
          split at h
          · exact absurd h (by simp)
          · exact ih h
          · obtain ⟨l', hl', rfl⟩ := of_map_ok h
            exact List.forall_mem_cons.mpr ⟨rfl, ih hl'⟩

/-- **The loop gets to the end of a folder** exactly if the buffer terminates its links and the
inodes of its sockets fit an `int`. -/
theorem linkReads_isOk_iff {process : Process} : ∀ {entries : List FdEntry} {buf : Bytes},
    (∀ text ∈ linkTargets entries, 0 ∉ text ∧ ((∃ n, text = socketTarget n) ∨ IsOtherTarget text)) →
    ((∃ l, linkReads process entries buf = .ok l) ↔
      TerminatedBy buf (linkTargets entries) ∧
        ∀ n, socketTarget n ∈ linkTargets entries → n.toNat < 2 ^ 31) := by
  intro entries
  induction entries with
  | nil =>
      intro buf _
      exact iff_of_true ⟨[], rfl⟩ (by simp [TerminatedBy, linkTargets])
  | cons entry entries ih =>
      intro buf htargets
      cases htarget : (if entry.isLink then entry.target else none) with
      | none =>
          have hcons : linkTargets (entry :: entries) = linkTargets entries := by
            rw [linkTargets_cons, htarget]
            rfl
          rw [hcons] at htargets ⊢
          rw [linkReads_cons_other htarget]
          exact ih htargets
      | some text =>
          obtain ⟨hlink, htext⟩ := link_of_target htarget
          have hcons : linkTargets (entry :: entries) = text :: linkTargets entries := by
            rw [linkTargets_cons, htarget]
            rfl
          rw [hcons] at htargets ⊢
          obtain ⟨⟨h0, hkind⟩, hrest⟩ := List.forall_mem_cons.mp htargets
          rw [linkReads_cons_link hlink htext, terminatedBy_cons_iff h0]
          by_cases hzero : 0 ∈ readlink text buf
          swap
          · rw [linkString_of_not_terminated hzero]
            exact iff_of_false (by simp) fun h => hzero h.1.1
          rcases hkind with ⟨n, rfl⟩ | hother
          · by_cases hn : n.toNat < 2 ^ 31
            · rw [socketInode_of_socketTarget hn hzero, and_iff_right hzero]
              refine exists_map_ok_iff.trans ((ih hrest).trans (and_congr_right fun _ => ?_))
              refine ⟨fun h n' hn' => ?_, fun h n' hn' => h n' (List.mem_cons_of_mem _ hn')⟩
              rcases List.mem_cons.mp hn' with heq | hmem
              · rw [socketTarget_injective heq]
                exact hn
              · exact h n' hmem
            · rw [socketInode_of_large (Nat.le_of_not_lt hn) hzero]
              exact iff_of_false (by simp) fun h => hn (h.2 n List.mem_cons_self)
          · rw [socketInode_of_other hother hzero, and_iff_right hzero]
            refine (ih hrest).trans (and_congr_right fun _ => ?_)
            refine ⟨fun h n hn => ?_, fun h n hn => h n (List.mem_cons_of_mem _ hn)⟩
            rcases List.mem_cons.mp hn with heq | hmem
            · rw [← heq] at hother
              exact absurd hother (not_isOtherTarget_socketTarget n)
            · exact h n hmem

end ProcessIndex

/-! ### Both -/

theorem KernelDir.dirReads_eq (d : KernelDir) (pid : Int32) :
    dirReads d.toPidDir pid =
      linkReads (processOf d.content pid) d.entries d.linkRaw.toList := by
  rw [dirReads, d.comm_eq, d.fd_eq]

theorem KernelDir.terminated_iff (d : KernelDir) :
    Terminated d.toPidDir ↔ TerminatedBy d.linkRaw.toList (linkTargets d.entries) := by
  rw [Terminated, d.fd_eq]
  simp

theorem KernelDir.isOk_iff (d : KernelDir) (pid : Int32) :
    (∃ l, dirReads d.toPidDir pid = .ok l) ↔
      Terminated d.toPidDir ∧ ∀ n, d.Links n → n.toNat < 2 ^ 31 := by
  rw [d.dirReads_eq, d.terminated_iff]
  refine linkReads_isOk_iff fun text htext => ⟨(d.targets text htext).1, ?_⟩
  rcases (d.targets text htext).2 with ⟨n, -, -, heq⟩ | hother
  · exact Or.inl ⟨n, heq⟩
  · exact Or.inr hother

/-- What was read of a folder is recorded under the numbers of its links. -/
theorem KernelDir.lookup_of_ok {d : KernelDir} {pid : Int32} {l : List (UInt64 × Process)}
    (h : dirReads d.toPidDir pid = .ok l) {n : UInt64} (hn : d.Links n) (m : ProcessMap) :
    (load m l).lookup n = some (processOf d.content pid) := by
  obtain ⟨hterm, hfit⟩ := (d.isOk_iff pid).mp ⟨l, h⟩
  rw [d.dirReads_eq] at h
  have htargets : KernelTargets d.entries := by
    intro text htext
    obtain ⟨h0, hkind⟩ := d.targets text htext
    refine ⟨h0, hkind.imp_left fun ⟨n, _, _, heq⟩ => ⟨n, hfit n ?_, heq⟩⟩
    rw [KernelDir.Links, ← heq]
    exact htext
  obtain ⟨l', hl', hsockets⟩ := (linkReads_spec htargets).1 (d.terminated_iff.mp hterm)
  obtain rfl : l' = l := Except.ok.inj (hl'.symm.trans h)
  rw [lookup_load]
  cases hlast : last l' n with
  | none => exact absurd rfl (last_eq_none_iff.mp hlast _ (hsockets n hn))
  | some process =>
      have hprocess : process = processOf d.content pid :=
        linkReads_process h _ (mem_of_last hlast)
      rw [hprocess]
      rfl

/-- **The readers agree on the sockets of a folder** exactly if there are none, or all their inodes
fit an `int` and the links are terminated. -/
theorem readersAgree_iff (d : KernelDir) :
    ReadersAgree d ↔
      ∀ n, d.Links n → Terminated d.toPidDir ∧ ∀ n', d.Links n' → n'.toNat < 2 ^ 31 := by
  constructor
  · intro h n hn
    obtain ⟨m', found, hok, -⟩ := h.link n hn 1 0 ∅
    rw [processPidDir_eq] at hok
    obtain ⟨l, hl, -⟩ := of_map_ok hok
    exact (d.isOk_iff 1).mp ⟨l, hl⟩
  · intro h
    refine ⟨fun n hn table l m hinode => ?_, fun n hn l localIP remoteIP m hinode => ?_,
      fun n hn pid target m => ?_⟩
    · rw [refreshLine_stored, hinode]
      exact lookup_stored hn.ne_zero m _
    · rw [refreshLine_stored6, hinode]
      exact lookup_stored hn.ne_zero m _
    · obtain ⟨l, hl⟩ := (d.isOk_iff pid).mpr (h n hn)
      refine ⟨load m l, foundIn target l, ?_, KernelDir.lookup_of_ok hl hn m⟩
      rw [processPidDir_eq, hl]
      rfl

/-- The folder of a process with one socket, on a host that has made `2 ^ 31` inodes. -/
def wrappedDir : KernelDir where
  comm := some (ascii "ssh\n")
  fd := some [⟨true, some (socketTarget 2147483648)⟩]
  linkRaw := Vector.replicate 80 0
  content := ascii "ssh\n"
  entries := [⟨true, some (socketTarget 2147483648)⟩]
  comm_eq := rfl
  fd_eq := rfl
  targets text htext := by
    have heq : text = socketTarget 2147483648 := List.mem_singleton.mp htext
    rw [heq]
    exact ⟨zero_not_mem_socketTarget _, Or.inl ⟨2147483648, by decide, by decide, rfl⟩⟩

/-- `std::stoi` throws, and the exception leaves the function. -/
theorem not_readersAgree_wrapped :
    processPidDir wrappedDir.toPidDir 4711 0 ∅ = .error (.uncaught .outOfRange) ∧
      ¬ ReadersAgree wrappedDir := by
  have hzero : 0 ∈ readlink (socketTarget 2147483648) wrappedDir.linkRaw.toList :=
    (zero_mem_readlink_iff (zero_not_mem_socketTarget _)).mpr
      ⟨79, List.length_take_le _ _, by decide⟩
  have herror : processPidDir wrappedDir.toPidDir 4711 0 ∅ = .error (.uncaught .outOfRange) := by
    rw [processPidDir_eq, wrappedDir.dirReads_eq]
    have hread := socketInode_of_large (n := 2147483648) (by decide) hzero
    rw [show wrappedDir.entries = [⟨true, some (socketTarget 2147483648)⟩] from rfl,
      linkReads_cons_link rfl rfl, hread]
    rfl
  refine ⟨herror, fun h => ?_⟩
  obtain ⟨m', found, hok, -⟩ := h.link 2147483648 (List.mem_singleton.mpr rfl) 4711 0 ∅
  rw [herror] at hok
  exact absurd hok (by simp)

end Ntmd
