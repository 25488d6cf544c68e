/-
The buffer that the links of a folder are read into.

`readlink` writes a target over the front of what the buffer held and does not terminate
it.  What is behind the target takes part in the string, but not in what is read from it:
the bracket of a socket's link stops `std::stoi`, and another link differs from a socket's
in its own bytes (`linkReads_eq`).  Only the end of the string depends on the buffer, and
without a zero byte behind the target there is none (`linkReads_overread_iff`).
-/
import Ntmd.Proofs.SteadyFolders

namespace Ntmd

open Bytes LoadMap Scanf

namespace ProcessIndex

/-! ### The links that are read -/

/-- The number of a link to a socket, by the text of the link alone. -/
def socketNumber (text : Bytes) : Option UInt64 :=
  match socketInode text with
  | .ok inode => inode
  | .error _ => none

/-- The sockets among the links, with the process they are of. -/
def socketsOf (process : Process) (texts : List Bytes) : List (UInt64 × Process) :=
  texts.filterMap fun text => (socketNumber text).map (·, process)

/-- The links that can be told apart: those of sockets whose inode fits an `int`, and those that
are short and differ from a socket's in their first bytes. -/
def IsPlainTarget (text : Bytes) : Prop :=
  (∃ n : UInt64, 1 ≤ n.toNat ∧ n.toNat < 2 ^ 31 ∧ text = socketTarget n) ∨
    (text.length ≤ 78 ∧ IsOtherTarget text)

theorem IsPlainTarget.take_eq {text : Bytes} (h : IsPlainTarget text) : text.take 79 = text := by
  refine List.take_of_length_le ?_
  rcases h with ⟨n, -, -, rfl⟩ | ⟨hlen, -⟩
  · exact length_socketTarget_le n
  · omega

theorem socketNumber_socketTarget {n : UInt64} (hn : n.toNat < 2 ^ 31) :
    socketNumber (socketTarget n) = some n := by
  -- A buffer with nothing but zero bytes in it is as good as none.
  have h0 : (0 : UInt8) ∈ readlink (socketTarget n) (List.replicate 80 0) :=
    (zero_mem_readlink_iff (zero_not_mem_socketTarget n)).mpr
      ⟨79, List.length_take_le _ _, by decide⟩
  have htake : (socketTarget n).take 79 = socketTarget n :=
    List.take_of_length_le (length_socketTarget_le n)
  have hlink : cstr (readlink (socketTarget n) (List.replicate 80 0)) = socketTarget n := by
    rw [readlink, htake, cstr_append (zero_not_mem_socketTarget n), List.drop_replicate, cstr]
    cases 80 - (socketTarget n).length <;> simp [List.replicate_succ]
  have hread := socketInode_of_socketTarget hn h0
  rw [linkString, if_pos h0, hlink] at hread
  rw [socketNumber, show socketInode (socketTarget n) = .ok (some n) from hread]

theorem socketNumber_of_other {text : Bytes} (h : IsOtherTarget text) :
    socketNumber text = none := by
  obtain ⟨i, c, hi, hc, hne⟩ := h
  have hprefix : ¬ (ascii "socket:").isPrefixOf text = true := by
    intro hprefix
    obtain ⟨rest, rfl⟩ := List.isPrefixOf_iff_prefix.mp hprefix
    have hlen : (ascii "socket:").length = 7 := by decide
    rw [List.getElem?_append_left (by omega)] at hc
    exact hne hc
  rw [socketNumber, socketInode, if_neg hprefix]

/-- What is read of one link does not depend on what is behind it. -/
theorem socketInode_readlink {text buf : Bytes} (h : IsPlainTarget text)
    (h0 : 0 ∈ readlink text buf) :
    (linkString (readlink text buf)).bind socketInode = .ok (socketNumber text) := by
  rcases h with ⟨n, -, hn, rfl⟩ | ⟨-, hother⟩
  · rw [socketInode_of_socketTarget hn h0, socketNumber_socketTarget hn]
  · rw [socketInode_of_other hother h0, socketNumber_of_other hother]

/-- A zero byte behind a target stays where it is. -/
theorem getElem?_readlink_behind {text buf : Bytes} {i : Nat} (hi : (text.take 79).length ≤ i) :
    (readlink text buf)[i]? = buf[i]? := by
  rw [readlink, List.getElem?_append_right hi, List.getElem?_drop, Nat.add_sub_cancel' hi]

/-- **The sockets of a folder are read off its links**, whatever the buffer held before. -/
theorem linkReads_eq {process : Process} {i : Nat} : ∀ {entries : List FdEntry} {buf : Bytes},
    (∀ text ∈ linkTargets entries, IsPlainTarget text ∧ text.length ≤ i) → buf[i]? = some 0 →
      linkReads process entries buf = .ok (socketsOf process (linkTargets entries)) := by
  intro entries
  induction entries with
  | nil => intro buf _ _; rfl
  | cons entry entries ih =>
      intro buf htargets hzero
      cases htarget : (if entry.isLink then entry.target else none) with
      | none =>
          have hcons : linkTargets (entry :: entries) = linkTargets entries := by
            rw [linkTargets_cons, htarget]
            rfl
          rw [hcons] at htargets ⊢
          rw [linkReads_cons_other htarget]
          exact ih htargets hzero
      | some text =>
          have hcons : linkTargets (entry :: entries) = text :: linkTargets entries := by
            rw [linkTargets_cons, htarget]
            rfl
          rw [hcons] at htargets ⊢
          obtain ⟨⟨hplain, hlen⟩, hrest⟩ := List.forall_mem_cons.mp htargets
          obtain ⟨hlink, htext⟩ := link_of_target htarget
          have hbehind : (readlink text buf)[i]? = some 0 := by
            rw [getElem?_readlink_behind (by rw [hplain.take_eq]; exact hlen), hzero]
          have h0 : 0 ∈ readlink text buf := List.mem_of_getElem? hbehind
          rw [linkReads_cons_link hlink htext, socketInode_readlink hplain h0, ih hrest hbehind]
          cases hnumber : socketNumber text with
          | none => simp only [socketsOf, List.filterMap_cons, hnumber, Option.map_none]
          | some n =>
              simp only [socketsOf, List.filterMap_cons, hnumber, Option.map_some]
              rfl

/-! ### A folder of plain links -/

/-- The folder of a process that can be read. -/
structure Folder where
  content : Bytes
  entries : List FdEntry

/-- What is read of it when `linkRaw` comes to lie on these bytes. -/
def Folder.dir (d : Folder) (linkRaw : Vector UInt8 80) : PidDir where
  comm := some d.content
  fd := some d.entries
  linkRaw := linkRaw

theorem Folder.dirReads_eq (d : Folder) (linkRaw : Vector UInt8 80) (pid : Int32) :
    dirReads (d.dir linkRaw) pid =
      linkReads (processOf d.content pid) d.entries linkRaw.toList := rfl

/-- A folder whose links can be told apart. -/
structure LinkFolder extends Folder where
  plain : ∀ text ∈ linkTargets entries, IsPlainTarget text

namespace LinkFolder

/-- Some byte behind the longest target is zero. -/
def ZeroBehind (d : LinkFolder) (linkRaw : Vector UInt8 80) : Prop :=
  ∃ i, linkRaw.toList[i]? = some 0 ∧ ∀ text ∈ linkTargets d.entries, text.length ≤ i

/-- A file descriptor of the folder is the socket with this inode. -/
def Links (d : LinkFolder) (n : UInt64) : Prop := socketTarget n ∈ linkTargets d.entries

theorem mem_socketsOf (d : LinkFolder) (process : Process) (e : UInt64 × Process) :
    e ∈ socketsOf process (linkTargets d.entries) ↔ d.Links e.1 ∧ e.2 = process := by
  obtain ⟨n, process'⟩ := e
  rw [socketsOf, List.mem_filterMap]
  constructor
  · rintro ⟨text, htext, hnumber⟩
    obtain ⟨n', hn', heq⟩ := Option.map_eq_some_iff.mp hnumber
    obtain ⟨rfl, rfl⟩ := Prod.mk.inj heq
    rcases d.plain text htext with ⟨m, -, hm, rfl⟩ | ⟨-, hother⟩
    · rw [socketNumber_socketTarget hm, Option.some.injEq] at hn'
      rw [← hn']
      exact ⟨htext, rfl⟩
    · rw [socketNumber_of_other hother] at hn'
      exact absurd hn' (by simp)
  · rintro ⟨hlinks, rfl⟩
    refine ⟨socketTarget n, hlinks, ?_⟩
    rcases d.plain _ hlinks with ⟨m, -, hm, heq⟩ | ⟨-, hother⟩
    · obtain rfl : n = m := socketTarget_injective heq
      rw [socketNumber_socketTarget hm, Option.map_some]
    · exact absurd hother (not_isOtherTarget_socketTarget n)

/-- **What the buffer held before makes no difference**: the inodes recorded for the process are
those of the sockets it links to. -/
theorem processPidDir_recorded (d : LinkFolder) (pid : Int32) (target : UInt64) (m : ProcessMap) :
    ∃ m' found,
      (∀ linkRaw, d.ZeroBehind linkRaw →
        processPidDir (d.dir linkRaw) pid target m = .ok (m', found)) ∧
      ∀ n, (d.Links n → m'.lookup n = some (processOf d.content pid)) ∧
        (¬ d.Links n → m'.lookup n = m.lookup n) := by
  refine ⟨load m (socketsOf (processOf d.content pid) (linkTargets d.entries)),
    foundIn target (socketsOf (processOf d.content pid) (linkTargets d.entries)), ?_, ?_⟩
  · rintro linkRaw ⟨i, hzero, hlen⟩
    rw [processPidDir_eq, d.dirReads_eq,
      linkReads_eq (fun text htext => ⟨d.plain text htext, hlen text htext⟩) hzero]
    rfl
  · intro n
    rw [lookup_load]
    constructor
    · intro hlinks
      have hmem := (d.mem_socketsOf (processOf d.content pid) (n, processOf d.content pid)).mpr
        ⟨hlinks, rfl⟩
      have hlast := last_eq_some hmem fun process hprocess =>
        ((d.mem_socketsOf _ (n, process)).mp hprocess).2
      rw [hlast, Option.some_or]
    · intro hlinks
      have hnone : ∀ e ∈ socketsOf (processOf d.content pid) (linkTargets d.entries), e.1 ≠ n := by
        rintro e he rfl
        exact hlinks ((d.mem_socketsOf _ e).mp he).1
      rw [last_eq_none_iff.mpr hnone, Option.none_or]

/-- A long path, and the socket that is read over it. -/
def pathAndSocket : LinkFolder where
  content := ascii "sshd\n"
  entries := [⟨true, some (ascii "/var/lib/socket:[99]")⟩, ⟨true, some (socketTarget 100)⟩]
  plain text htext := by
    rcases List.mem_pair.mp htext with rfl | rfl
    · exact Or.inr ⟨by decide, 0, 47, by decide, by decide, by decide⟩
    · exact Or.inl ⟨100, by decide, by decide, rfl⟩

/-- Digits on the stack behind the links, and a zero byte in the last place. -/
theorem processPidDir_recorded_pathAndSocket :
    ∃ m' found, processPidDir (pathAndSocket.dir ((Vector.replicate 79 57).push 0)) 7 100 ∅ =
        .ok (m', found) ∧
      m'.lookup 100 = some ⟨ascii "sshd", 7⟩ ∧ m'.lookup 99 = none := by
  obtain ⟨m', found, hok, hrecorded⟩ := pathAndSocket.processPidDir_recorded 7 100 ∅
  have hzero : pathAndSocket.ZeroBehind ((Vector.replicate 79 57).push 0) := by
    refine ⟨79, by decide, fun text htext => ?_⟩
    rcases List.mem_pair.mp htext with rfl | rfl <;> decide
  have hlinks : pathAndSocket.Links 100 := List.mem_cons_of_mem _ List.mem_cons_self
  have hnot : ¬ pathAndSocket.Links 99 := by
    unfold Links
    decide
  exact ⟨m', found, hok _ hzero, (hrecorded 100).1 hlinks, (hrecorded 99).2 hnot⟩

end LinkFolder

/-! ### The end of the string -/

/-- The string in the buffer makes the loop throw. -/
def throws (buf : Bytes) : Bool :=
  match socketInode (cstr buf) with
  | .ok _ => false
  | .error _ => true

/-- The links up to the first that makes the loop throw. -/
def linksRead : Bytes → List Bytes → List Bytes
  | _, [] => []
  | buf, text :: texts =>
      if throws (readlink text buf) then [text] else text :: linksRead (readlink text buf) texts

/-- A folder of any links; no path holds a zero byte. -/
structure PathFolder extends Folder where
  zero_not_mem : ∀ text ∈ linkTargets entries, 0 ∉ text

theorem socketInode_ne_overread (link : Bytes) : socketInode link ≠ .error .overread := by
  rw [socketInode]
  split
  · split
    · simp
    · rw [stoiOrDie]
      cases stoi (link.drop 8) <;> simp [Except.map]
  · simp

/-- **A folder is read past the end of the buffer** exactly if one of the links that are read finds
no zero byte behind it. -/
theorem linkReads_overread_iff {process : Process} : ∀ {entries : List FdEntry} {buf : Bytes},
    (∀ text ∈ linkTargets entries, 0 ∉ text) →
      (linkReads process entries buf = .error .overread ↔
        ¬ TerminatedBy buf (linksRead buf (linkTargets entries))) := by
  intro entries
  induction entries with
  | nil =>
      intro buf _
      exact iff_of_false (by simp [linkReads]) fun h => h (by simp [TerminatedBy, linksRead, linkTargets])
  | cons entry entries ih =>
      intro buf htargets
      cases htarget : (if entry.isLink then entry.target else none) with
      | none =>
          have hcons : linkTargets (entry :: entries) = linkTargets entries := by
            rw [linkTargets_cons, htarget]
            rfl
          rw [hcons] at htargets ⊢
          rw [linkReads_cons_other htarget]
          exact ih htargets
      | some text =>
          have hcons : linkTargets (entry :: entries) = text :: linkTargets entries := by
            rw [linkTargets_cons, htarget]
            rfl
          rw [hcons] at htargets ⊢
          obtain ⟨htext, hrest⟩ := List.forall_mem_cons.mp htargets
          obtain ⟨hlink, hsome⟩ := link_of_target htarget
          rw [linkReads_cons_link hlink hsome, linksRead]
          by_cases hzero : 0 ∈ readlink text buf
          swap
          · rw [linkString_of_not_terminated hzero]
            refine iff_of_true rfl fun hterm => hzero ?_
            have hmem : text ∈ if throws (readlink text buf) then [text]
                else text :: linksRead (readlink text buf) (linkTargets entries) := by
              split <;> simp
            exact (zero_mem_readlink_iff htext).mpr (hterm text hmem)
          · have hread : (linkString (readlink text buf)).bind socketInode =
                socketInode (cstr (readlink text buf)) := by
              rw [linkString, if_pos hzero]
              rfl
            rw [hread, throws]
            cases hinode : socketInode (cstr (readlink text buf)) with
            | error e =>
                have hne : e ≠ .overread := fun he => socketInode_ne_overread _ (he ▸ hinode)
                refine iff_of_false (by simpa using hne) fun hnot => hnot ?_
                rw [if_pos rfl, terminatedBy_cons_iff htext]
                exact ⟨hzero, by simp [TerminatedBy]⟩
            | ok inode =>
                rw [if_neg (by simp), terminatedBy_cons_iff htext, and_iff_right hzero, ← ih hrest]
                cases inode with
                | none => rfl
                | some n =>
                    cases linkReads process entries (readlink text buf) <;> simp [Except.map]

/-- **Nothing beyond the buffer is read** exactly if it held a zero byte behind each link that is
read. -/
theorem processPidDir_overread_iff (d : PathFolder) (linkRaw : Vector UInt8 80) (pid : Int32)
    (target : UInt64) (m : ProcessMap) :
    processPidDir (d.dir linkRaw) pid target m ≠ .error .overread ↔
      TerminatedBy linkRaw.toList (linksRead linkRaw.toList (linkTargets d.entries)) := by
  have hread : linkReads (processOf d.content pid) d.entries linkRaw.toList = .error .overread ↔ _ :=
    linkReads_overread_iff d.zero_not_mem
  rw [← not_iff_comm.mp hread.symm, processPidDir_eq, d.dirReads_eq]
  cases linkReads (processOf d.content pid) d.entries linkRaw.toList <;> simp [Except.map]

/-- One link, to a terminal. -/
def terminalFolder : PathFolder where
  content := ascii "sh\n"
  entries := [⟨true, some (ascii "/dev/pts/0")⟩]
  zero_not_mem text htext := by
    rw [List.mem_singleton.mp htext]
    decide

/-- When the stack holds no zero byte where the buffer comes to lie, the string has no end. -/
theorem processPidDir_overread_terminal :
    processPidDir (terminalFolder.dir (Vector.replicate 80 255)) 7 100 ∅ = .error .overread := by
  have hlinks : ascii "/dev/pts/0" ∈ linksRead (Vector.replicate 80 255).toList
      (linkTargets terminalFolder.entries) := by
    decide
  have hread : linkReads (processOf terminalFolder.content 7) terminalFolder.entries
      (Vector.replicate 80 255).toList = .error .overread := by
    refine (linkReads_overread_iff terminalFolder.zero_not_mem).mpr fun hterm => ?_
    obtain ⟨i, -, hi⟩ := hterm _ hlinks
    have hmem := List.mem_of_getElem? hi
    rw [Vector.toList_replicate] at hmem
    exact absurd (List.eq_of_mem_replicate hmem) (by decide)
  rw [processPidDir_eq, Folder.dirReads_eq, hread]
  rfl

end ProcessIndex

end Ntmd
