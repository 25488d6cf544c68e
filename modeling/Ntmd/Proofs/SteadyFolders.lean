/-
What is read from the folder of a process that does not change meanwhile.

The buffer of the links is never cleared and `readlink` does not terminate it, so a
folder is read to its end exactly if each link finds a zero byte behind it that was
in the buffer from the start (`Terminated`).  What is read then are the sockets the
folder links to, no more and no less, whatever the buffer held before.
-/
import Ntmd.Proofs.Attribution

namespace Ntmd

open Bytes LoadMap Scanf

/-- A `/proc` that can be read and stays as it is during a call. -/
structure SteadyProc extends KernelProc where
  listing : List ProcEntry
  /-- The folder opens, and lists processes by their pids. -/
  entries_eq : entries = some listing
  names : ∀ entry ∈ listing, entry.isDir = true → isNumber entry.name = true →
    ∃ pid, entry.name = pidStr pid
  fdExists_eq : ∀ name, fdExists name = (pidDir name).fd.isSome
  comm_readable : ∀ name, (pidDir name).fd.isSome = true → (pidDir name).comm.isSome = true
  inode_lt : ∀ name entries, (pidDir name).fd = some entries → ∀ entry ∈ entries, ∀ inode,
    entry.target = some (socketTarget inode) → inode.toNat < 2 ^ 31
  /-- A path holds no zero byte. -/
  zero_not_mem : ∀ name entries, (pidDir name).fd = some entries → ∀ entry ∈ entries, ∀ text,
    entry.target = some text → 0 ∉ text

namespace ProcessIndex

/-- The targets that the loop over a folder reads. -/
def linkTargets (entries : List FdEntry) : List Bytes :=
  entries.filterMap fun entry => if entry.isLink then entry.target else none

/-- For each target some byte of the buffer behind it is zero. -/
def TerminatedBy (buf : Bytes) (texts : List Bytes) : Prop :=
  ∀ text ∈ texts, ∃ i, (text.take 79).length ≤ i ∧ buf[i]? = some 0

/-- The buffer terminates each link of the folder by what it held before the first. -/
def Terminated (dir : PidDir) : Prop :=
  ∀ entries, dir.fd = some entries → TerminatedBy dir.linkRaw.toList (linkTargets entries)

theorem linkTargets_cons (entry : FdEntry) (entries : List FdEntry) :
    linkTargets (entry :: entries) =
      (if entry.isLink then entry.target else none).toList ++ linkTargets entries := by
  rw [linkTargets, List.filterMap_cons]
  split <;> simp_all [linkTargets]

theorem mem_linkTargets {text : Bytes} {entries : List FdEntry} :
    text ∈ linkTargets entries ↔
      ∃ entry ∈ entries, entry.isLink = true ∧ entry.target = some text := by
  rw [linkTargets, List.mem_filterMap]
  refine exists_congr fun entry => and_congr_right fun _ => ?_
  by_cases hlink : entry.isLink = true
  · simp [hlink]
  · simp [hlink]

theorem socketTarget_injective {n m : UInt64} (h : socketTarget n = socketTarget m) : n = m := by
  have hdecimal := List.append_cancel_right (List.append_cancel_left h)
  rw [← UInt64.toNat_inj, ← value_decimal n.toNat, hdecimal, value_decimal]

theorem not_isOtherTarget_socketTarget (n : UInt64) : ¬ IsOtherTarget (socketTarget n) := by
  rintro ⟨i, c, hi, hc, hne⟩
  have hbracket : ascii "socket:[" = ascii "socket:" ++ [91] := by decide
  have hlen : (ascii "socket:").length = 7 := by decide
  rw [socketTarget, hbracket, List.append_assoc, List.getElem?_append_left (by omega)] at hc
  exact hne hc

/-! ### One link -/

/-- The zero bytes behind a target are those that were there before. -/
theorem readlink_zero_iff {text buf : Bytes} (h0 : 0 ∉ text) {i : Nat} :
    (readlink text buf)[i]? = some 0 ↔ (text.take 79).length ≤ i ∧ buf[i]? = some 0 := by
  rw [readlink]
  by_cases hi : i < (text.take 79).length
  · rw [List.getElem?_append_left hi]
    refine iff_of_false (fun hzero => h0 ?_) fun h => absurd h.1 (by omega)
    exact List.mem_of_mem_take (List.mem_of_getElem? hzero)
  · have hle : (text.take 79).length ≤ i := Nat.le_of_not_lt hi
    rw [List.getElem?_append_right hle, List.getElem?_drop, Nat.add_sub_cancel' hle]
    exact (and_iff_right hle).symm

theorem zero_mem_readlink_iff {text buf : Bytes} (h0 : 0 ∉ text) :
    0 ∈ readlink text buf ↔ ∃ i, (text.take 79).length ≤ i ∧ buf[i]? = some 0 := by
  rw [List.mem_iff_getElem?]
  exact exists_congr fun i => readlink_zero_iff h0

/-- `std::stoi` reads an inode that fits an `int`. -/
theorem stoi_socket {n : UInt64} (h : n.toNat < 2 ^ 31) (rest : Bytes) :
    stoi (decimal n.toNat ++ (93 :: rest)) = .ok (Int32.ofInt n.toNat) := by
  rw [stoi, readDec_digits (decimal_ne_nil _) (fun c => isDigit_of_mem_decimal)
    (stops_cons.mpr (by decide)), value_decimal]
  exact if_pos ⟨by omega, by exact_mod_cast h⟩

/-- The text behind the bracket is what `std::stoi` is given, whatever the buffer held before. -/
theorem socketInode_eq {n : UInt64} {buf : Bytes} (h0 : 0 ∈ readlink (socketTarget n) buf) :
    ∃ rest, (linkString (readlink (socketTarget n) buf)).bind socketInode =
      (stoiOrDie (decimal n.toNat ++ (93 :: rest))).map fun n => some (UInt64.ofInt n.toInt) := by
  have htake : (socketTarget n).take 79 = socketTarget n :=
    List.take_of_length_le (length_socketTarget_le n)
  have hopen : (ascii "socket:[").length = 8 := by decide
  rw [linkString, if_pos h0, readlink, htake, cstr_append (zero_not_mem_socketTarget n)]
  generalize cstr (buf.drop (socketTarget n).length) = rest
  have hdrop : (socketTarget n ++ rest).drop 8 = decimal n.toNat ++ (93 :: rest) := by
    rw [socketTarget, List.append_assoc, ← hopen, List.drop_left, List.append_assoc]
    rfl
  have hprefix : (ascii "socket:").isPrefixOf (socketTarget n ++ rest) = true := by
    have hbracket : ascii "socket:[" = ascii "socket:" ++ [91] := by decide
    rw [List.isPrefixOf_iff_prefix, socketTarget, hbracket, List.append_assoc, List.append_assoc]
    exact List.prefix_append _ _
  have hlength : ¬ (socketTarget n ++ rest).length < 8 := by
    simp only [socketTarget, List.length_append, hopen]
    omega
  exact ⟨rest, by rw [Except.bind, socketInode, if_pos hprefix, if_neg hlength, hdrop]⟩

/-- The inode of a socket's link is read if it fits an `int`. -/
theorem socketInode_of_socketTarget {n : UInt64} (hn : n.toNat < 2 ^ 31) {buf : Bytes}
    (h0 : 0 ∈ readlink (socketTarget n) buf) :
    (linkString (readlink (socketTarget n) buf)).bind socketInode = .ok (some n) := by
  obtain ⟨rest, hread⟩ := socketInode_eq h0
  have hint : (Int32.ofInt n.toNat).toInt = n.toNat :=
    (CInt.int32_ofInt_eq_iff _).mpr ⟨by omega, by exact_mod_cast hn⟩
  rw [hread, stoiOrDie, stoi_socket hn]
  rw [Except.map, hint, CInt.uint64_ofInt_toNat]

/-- Nothing is read from a link to something else. -/
theorem socketInode_of_other {text buf : Bytes} (htext : IsOtherTarget text)
    (h0 : 0 ∈ readlink text buf) :
    (linkString (readlink text buf)).bind socketInode = .ok none := by
  obtain ⟨i, c, hi, hc, hne⟩ := htext
  rw [linkString, if_pos h0, Except.bind, socketInode, if_neg]
  intro hprefix
  rw [← getElem?_of_isPrefixOf hprefix hi, getElem?_readlink (by omega) hc] at hne
  exact hne rfl

theorem linkString_of_not_terminated {text buf : Bytes} (h0 : 0 ∉ readlink text buf) :
    (linkString (readlink text buf)).bind socketInode = .error .overread := by
  rw [linkString, if_neg h0]
  rfl

/-! ### One folder -/

/-- A link that the loop over the folder reads next. -/
theorem linkReads_cons_link {process : Process} {entry : FdEntry} {entries : List FdEntry}
    {buf text : Bytes} (hlink : entry.isLink = true) (htarget : entry.target = some text) :
    linkReads process (entry :: entries) buf =
      match (linkString (readlink text buf)).bind socketInode with
      | .error e => .error e
      | .ok none => linkReads process entries (readlink text buf)
      | .ok (some inode) =>
          (linkReads process entries (readlink text buf)).map ((inode, process) :: ·) := by
  rw [linkReads, if_pos hlink]
  cases hread : (linkString (readlink text buf)).bind socketInode with
  | error e => simp only [htarget, hread]
  | ok inode => cases inode <;> simp only [htarget, hread]

/-- An entry that is not read. -/
theorem linkReads_cons_other {process : Process} {entry : FdEntry} {entries : List FdEntry}
    {buf : Bytes} (h : (if entry.isLink then entry.target else none) = none) :
    linkReads process (entry :: entries) buf = linkReads process entries buf := by
  rw [linkReads]
  by_cases hlink : entry.isLink = true
  · rw [if_pos hlink] at h ⊢
    rw [h]
  · rw [if_neg hlink]

theorem link_of_target {entry : FdEntry} {text : Bytes}
    (h : (if entry.isLink then entry.target else none) = some text) :
    entry.isLink = true ∧ entry.target = some text := by
  by_cases hlink : entry.isLink = true
  · exact ⟨hlink, by rw [← h, if_pos hlink]⟩
  · rw [if_neg hlink] at h
    exact absurd h (by simp)

/-- What the kernel's links of a folder are like, when their inodes fit an `int`. -/
def KernelTargets (entries : List FdEntry) : Prop :=
  ∀ text ∈ linkTargets entries, 0 ∉ text ∧
    ((∃ n : UInt64, n.toNat < 2 ^ 31 ∧ text = socketTarget n) ∨ IsOtherTarget text)

/-- A link is followed by the links after it exactly if their bytes are there as well. -/
theorem terminatedBy_cons_iff {text buf : Bytes} (h0 : 0 ∉ text) (texts : List Bytes) :
    TerminatedBy buf (text :: texts) ↔
      0 ∈ readlink text buf ∧ TerminatedBy (readlink text buf) texts := by
  rw [zero_mem_readlink_iff h0, TerminatedBy, List.forall_mem_cons]
  refine and_congr_right fun ⟨i, hi, hzero⟩ => forall₂_congr fun other _ => ?_
  constructor
  · rintro ⟨j, hj, hzero'⟩
    -- Of the two zero bytes the one further back serves both.
    by_cases hij : i ≤ j
    · exact ⟨j, hj, (readlink_zero_iff h0).mpr ⟨hi.trans hij, hzero'⟩⟩
    · exact ⟨i, by omega, (readlink_zero_iff h0).mpr ⟨hi, hzero⟩⟩
  · rintro ⟨j, hj, hzero'⟩
    exact ⟨j, hj, ((readlink_zero_iff h0).mp hzero').2⟩

theorem kernelTargets_cons {entry : FdEntry} {entries : List FdEntry}
    (h : KernelTargets (entry :: entries)) : KernelTargets entries := by
  intro text htext
  refine h text ?_
  rw [linkTargets_cons]
  exact List.mem_append_right _ htext

/-- **A folder is read to its end exactly if the buffer terminates each of its links**, and then
its sockets are read. -/
theorem linkReads_spec {process : Process} : ∀ {entries : List FdEntry} {buf : Bytes},
    KernelTargets entries →
      (TerminatedBy buf (linkTargets entries) → ∃ l, linkReads process entries buf = .ok l ∧
        ∀ n, socketTarget n ∈ linkTargets entries → (n, process) ∈ l) ∧
      (¬ TerminatedBy buf (linkTargets entries) →
        linkReads process entries buf = .error .overread) := by
  intro entries
  induction entries with
  | nil =>
      intro buf _
      exact ⟨fun _ => ⟨[], rfl, by simp [linkTargets]⟩,
        fun h => absurd (by simp [TerminatedBy, linkTargets]) h⟩
  | cons entry entries ih =>
      intro buf htargets
      cases htarget : (if entry.isLink then entry.target else none) with
      | none =>
          rw [linkReads_cons_other htarget, linkTargets_cons, htarget]
          exact ih (kernelTargets_cons htargets)
      | some text =>
          have hentry := link_of_target htarget
          have hmem : text ∈ linkTargets (entry :: entries) :=
            mem_linkTargets.mpr ⟨entry, List.mem_cons_self, hentry⟩
          obtain ⟨h0, htext⟩ := htargets text hmem
          obtain ⟨ihok, iherror⟩ := @ih (readlink text buf) (kernelTargets_cons htargets)
          have hcons : linkTargets (entry :: entries) = text :: linkTargets entries := by
            rw [linkTargets_cons, htarget]
            rfl
          rw [linkReads_cons_link hentry.1 hentry.2, hcons, terminatedBy_cons_iff h0]
          by_cases hzero : 0 ∈ readlink text buf
          · rw [and_iff_right hzero]
            rcases htext with ⟨n, hn, rfl⟩ | hother
            · rw [socketInode_of_socketTarget hn hzero]
              refine ⟨fun hterm => ?_, fun hterm => by rw [iherror hterm]; rfl⟩
              obtain ⟨l, hl, hsockets⟩ := ihok hterm
              refine ⟨(n, process) :: l, by rw [hl]; rfl, fun n' hn' => ?_⟩
              rcases List.mem_cons.mp hn' with heq | hrest
              · rw [socketTarget_injective heq]
                exact List.mem_cons_self
              · exact List.mem_cons_of_mem _ (hsockets n' hrest)
            · rw [socketInode_of_other hother hzero]
              refine ⟨fun hterm => ?_, iherror⟩
              obtain ⟨l, hl, hsockets⟩ := ihok hterm
              refine ⟨l, hl, fun n hn => ?_⟩
              rcases List.mem_cons.mp hn with heq | hrest
              · rw [← heq] at hother
                exact absurd hother (not_isOtherTarget_socketTarget n)
              · exact hsockets n hrest
          · rw [linkString_of_not_terminated hzero]
            exact ⟨fun h => absurd h.1 hzero, fun _ => rfl⟩

variable {proc : SteadyProc} {pid : Int32} {target : UInt64}

theorem kernelTargets_pidDir {name : Bytes} {entries : List FdEntry}
    (hfd : (proc.pidDir name).fd = some entries) : KernelTargets entries := by
  intro text htext
  obtain ⟨entry, hentry, -, htarget⟩ := mem_linkTargets.mp htext
  refine ⟨proc.zero_not_mem name entries hfd entry hentry text htarget, ?_⟩
  rcases proc.targets name entries hfd entry hentry text htarget with ⟨n, rfl⟩ | hother
  · exact Or.inl ⟨n, proc.inode_lt name entries hfd entry hentry n htarget, rfl⟩
  · exact Or.inr hother

theorem linksTo_iff {entries : List FdEntry} (hfd : (proc.pidDir (pidStr pid)).fd = some entries) :
    LinksTo proc.toProc pid target ↔ socketTarget target ∈ linkTargets entries := by
  rw [LinksTo, mem_linkTargets, hfd]
  simp only [Option.some.injEq, exists_eq_left']

/-- A pid without a folder links to nothing. -/
theorem not_linksTo_of_no_fd (hfd : (proc.pidDir (pidStr pid)).fd = none) :
    ¬ LinksTo proc.toProc pid target := by
  rintro ⟨entries, hentries, -⟩
  rw [hfd] at hentries
  exact absurd hentries (by simp)

/-- The process a pid stands for, with what its `comm` holds. -/
def processAt (proc : Proc) (pid : Int32) : Process :=
  processOf ((proc.pidDir (pidStr pid)).comm.getD []) pid

theorem dirReads_of_no_fd (hfd : (proc.pidDir (pidStr pid)).fd = none) :
    dirReads (proc.pidDir (pidStr pid)) pid = .ok [] := by
  rw [dirReads, hfd]
  cases (proc.pidDir (pidStr pid)).comm <;> rfl

theorem dirReads_of_fd {entries : List FdEntry}
    (hfd : (proc.pidDir (pidStr pid)).fd = some entries) :
    dirReads (proc.pidDir (pidStr pid)) pid =
      linkReads (processAt proc.toProc pid) entries (proc.pidDir (pidStr pid)).linkRaw.toList := by
  have hcomm := proc.comm_readable (pidStr pid) (by rw [hfd]; rfl)
  obtain ⟨content, hcontent⟩ := Option.isSome_iff_exists.mp hcomm
  rw [dirReads, hfd, hcontent, processAt, hcontent]
  rfl

/-- A folder whose links the buffer does not terminate ends the daemon. -/
theorem dirReads_of_not_terminated (h : ¬ Terminated (proc.pidDir (pidStr pid))) :
    dirReads (proc.pidDir (pidStr pid)) pid = .error .overread := by
  unfold Terminated at h
  simp only [not_forall] at h
  obtain ⟨entries, hfd, hnot⟩ := h
  rw [dirReads_of_fd hfd]
  exact (linkReads_spec (kernelTargets_pidDir hfd)).2 hnot

/-- **The process of a folder is found exactly if the folder links to the socket.** -/
theorem dirReads_of_terminated (h0 : target ≠ 0) (h : Terminated (proc.pidDir (pidStr pid))) :
    ∃ l, dirReads (proc.pidDir (pidStr pid)) pid = .ok l ∧
      (LinksTo proc.toProc pid target → foundIn target l = some (processAt proc.toProc pid)) ∧
      (¬ LinksTo proc.toProc pid target → foundIn target l = none) := by
  cases hfd : (proc.pidDir (pidStr pid)).fd with
  | none =>
      refine ⟨[], dirReads_of_no_fd hfd, fun hlinks => ?_, fun _ => ?_⟩
      · exact absurd hlinks (not_linksTo_of_no_fd hfd)
      · simp [foundIn, last]
  | some entries =>
      obtain ⟨l, hl, hsockets⟩ := (linkReads_spec (kernelTargets_pidDir hfd)).1 (h entries hfd)
      have htargets := proc.targets (pidStr pid) entries hfd
      refine ⟨l, by rw [dirReads_of_fd hfd]; exact hl, fun hlinks => ?_, fun hlinks => ?_⟩
      · rw [foundIn, if_neg h0]
        cases hlast : last l target with
        | none =>
            have hmem := hsockets target ((linksTo_iff hfd).mp hlinks)
            exact absurd rfl (last_eq_none_iff.mp hlast _ hmem)
        | some process =>
            have hprocess : process = processAt proc.toProc pid :=
              (mem_linkReads htargets hl _ (mem_of_last hlast)).1
            rw [hprocess]
      · rw [foundIn, if_neg h0, last_eq_none_iff]
        rintro ⟨n, process⟩ he rfl
        obtain ⟨-, hentry⟩ := mem_linkReads htargets hl _ he
        exact hlinks ⟨entries, hfd, hentry⟩

end ProcessIndex

end Ntmd
