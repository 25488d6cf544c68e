/-
The links of file descriptors as the kernel spells them.

A link to a socket is `socket:[` with the inode and a bracket.  The other links are
paths, pipes, anonymous inodes and the like, and the text of none of them can be
taken for the beginning of a socket's.
-/
import Ntmd.Proc.ProcessIndex

namespace Ntmd

open Bytes

/-- The target of a link to a socket. -/
def socketTarget (inode : UInt64) : Bytes :=
  ascii "socket:[" ++ (decimal inode.toNat ++ ascii "]")

/-- The target of a link to something else: one of its first bytes is not that of a socket's. -/
def IsOtherTarget (text : Bytes) : Prop :=
  ∃ i c, i < 7 ∧ text[i]? = some c ∧ (ascii "socket:")[i]? ≠ some c

/-- A `/proc` whose links are all spelled the kernel's way. -/
structure KernelProc extends Proc where
  targets : ∀ name entries, (pidDir name).fd = some entries → ∀ entry ∈ entries,
    ∀ text, entry.target = some text → (∃ inode, text = socketTarget inode) ∨ IsOtherTarget text

/-- A file descriptor of the process links to the socket with this inode. -/
def LinksTo (proc : Proc) (pid : Int32) (inode : UInt64) : Prop :=
  ∃ entries, (proc.pidDir (pidStr pid)).fd = some entries ∧
    ∃ entry ∈ entries, entry.isLink = true ∧ entry.target = some (socketTarget inode)

end Ntmd
