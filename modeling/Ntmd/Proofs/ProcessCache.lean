/-
The cache of pids, over all the lookups of an index.

A lookup that searches erases the cached pids whose folders are gone, unless it finds
its socket before it has been through them, and puts the process it finds in front.  So
the calls that the lookups make on the array are its history (`cacheActions`), and what
is known of every history of the array is known of the cache of every run.
-/
import Ntmd.Lib.Trace
import Ntmd.Proofs.FolderReads
import Ntmd.Proofs.LeastRecent
import Ntmd.Proofs.NotFound

namespace Ntmd

open Bytes LoadMap Run

namespace ProcessIndex

/-- The calls on the array that a step makes. -/
def cacheActions (s : ProcessIndex) : Action → List (LRUArray.Action Int32)
  | .clear => []
  | .get inode proc =>
      if inode ∈ s.mCouldNotFind ∨ (s.mProcessMap.lookup inode).isSome then []
      else
        match cacheReads proc inode s.mLRUCache.mDeque, searchReads s proc inode with
        | .ok cached, .ok reads =>
            (if (foundIn inode cached.1).isSome then [] else cached.2.map .erase) ++
              ((foundIn inode reads.1).map fun process => .update process.pid).toList
        | _, _ => []

/-- The folder of every cached process that is still there is read, and shows no link to the
socket. -/
def NotCached (s : ProcessIndex) (inode : UInt64) (proc : Proc) : Prop :=
  ∀ pid ∈ s.mLRUCache.mDeque, proc.fdExists (pidStr pid) = true → NotIn proc inode pid

/-- What a call on the array is made for. -/
inductive CallFor (s : ProcessIndex) : Action → LRUArray.Action Int32 → Prop
  /-- The process that a search has found. -/
  | found {inode : UInt64} {proc : Proc} {process : Process} {s' : ProcessIndex} :
      s.mProcessMap.lookup inode = none → s.get inode proc = .ok (some process, s') →
        CallFor s (.get inode proc) (.update process.pid)
  /-- A process that is gone, at a search that the cache did not end. -/
  | expired {inode : UInt64} {proc : Proc} {pid : Int32} {r : Option Process × ProcessIndex} :
      inode ∉ s.mCouldNotFind → s.mProcessMap.lookup inode = none → s.get inode proc = .ok r →
        s.NotCached inode proc → pid ∈ s.mLRUCache.mDeque → proc.fdExists (pidStr pid) = false →
          CallFor s (.get inode proc) (.erase pid)

/-! ### One step -/

theorem exec_erase (a : LRUArray Int32) (pids : List Int32) :
    exec LRUArray.step a (pids.map .erase) = pids.foldl LRUArray.erase a := by
  rw [exec, List.foldl_map]
  rfl

/-- A lookup that goes to `/proc`, and comes back. -/
structure Searched (s : ProcessIndex) (inode : UInt64) (proc : Proc)
    (cached : List (UInt64 × Process) × List Int32)
    (reads : List (UInt64 × Process) × LRUArray Int32) : Prop where
  notMissed : inode ∉ s.mCouldNotFind
  notKnown : s.mProcessMap.lookup inode = none
  cacheReads_eq : cacheReads proc inode s.mLRUCache.mDeque = .ok cached
  searchReads_eq : searchReads s proc inode = .ok reads

namespace Searched

variable {s : ProcessIndex} {inode : UInt64} {proc : Proc}
  {cached : List (UInt64 × Process) × List Int32}
  {reads : List (UInt64 × Process) × LRUArray Int32}

theorem cacheActions_eq (h : s.Searched inode proc cached reads) :
    s.cacheActions (.get inode proc) =
      (if (foundIn inode cached.1).isSome then [] else cached.2.map .erase) ++
        ((foundIn inode reads.1).map fun process => .update process.pid).toList := by
  have hnot : ¬ (inode ∈ s.mCouldNotFind ∨ (s.mProcessMap.lookup inode).isSome) := by
    rw [h.notKnown]
    simpa using h.notMissed
  rw [cacheActions, if_neg hnot, h.cacheReads_eq, h.searchReads_eq]

theorem get_eq (h : s.Searched inode proc cached reads) :
    ∃ s', s.get inode proc = .ok (foundIn inode reads.1, s') ∧
      s'.mLRUCache = exec LRUArray.step reads.2
        ((foundIn inode reads.1).map fun process => .update process.pid).toList := by
  rw [get_of_unknown h.notMissed h.notKnown, h.searchReads_eq]
  cases hfound : foundIn inode reads.1 with
  | some process =>
      simp only [hfound]
      exact ⟨_, rfl, rfl⟩
  | none =>
      simp only [hfound]
      exact ⟨_, rfl, rfl⟩

/-- The search erases the pids that have expired, if it goes on after the cache. -/
theorem erased (h : s.Searched inode proc cached reads) :
    reads.2 = exec LRUArray.step s.mLRUCache
      (if (foundIn inode cached.1).isSome then [] else cached.2.map .erase) := by
  obtain ⟨cached', hcached, ⟨hfound, hreads⟩ | ⟨hnone, _, _, _, -, -, -, hreads⟩⟩ :=
    searchReads_cases h.searchReads_eq
  · obtain rfl := Except.ok.inj (h.cacheReads_eq.symm.trans hcached)
    rw [if_pos (Option.isSome_iff_ne_none.mpr hfound), hreads, exec_nil]
  · obtain rfl := Except.ok.inj (h.cacheReads_eq.symm.trans hcached)
    rw [if_neg (Option.not_isSome_iff_eq_none.mpr hnone), hreads, exec_erase]

theorem notCached_iff (h : s.Searched inode proc cached reads) :
    s.NotCached inode proc ↔ foundIn inode cached.1 = none :=
  (foundIn_cacheReads h.cacheReads_eq).symm

end Searched

/-- A lookup searches and comes back, or makes no call and leaves the cache alone. -/
theorem get_cases (s : ProcessIndex) (inode : UInt64) (proc : Proc) :
    (∃ cached reads, s.Searched inode proc cached reads) ∨
      (s.cacheActions (.get inode proc) = [] ∧ s.step (.get inode proc) = s ∧
        ∀ r, s.get inode proc = .ok r →
          inode ∈ s.mCouldNotFind ∧ r.1 = none ∨ (s.mProcessMap.lookup inode).isSome) := by
  by_cases hmissed : inode ∈ s.mCouldNotFind
  · right
    refine ⟨?_, ?_, ?_⟩
    · rw [cacheActions, if_pos (.inl hmissed)]
    · simp only [step, get_of_missed hmissed]
    · intro r hr
      rw [get_of_missed hmissed] at hr
      exact .inl ⟨hmissed, by rw [← Except.ok.inj hr]⟩
  · cases hknown : s.mProcessMap.lookup inode with
    | some process =>
        right
        refine ⟨?_, ?_, fun _ _ => .inr rfl⟩
        · rw [cacheActions, if_pos (.inr (by rw [hknown]; rfl))]
        · simp only [step, get_of_known hmissed hknown]
    | none =>
        cases hreads : searchReads s proc inode with
        | ok reads =>
            obtain ⟨cached, hcached, -⟩ := searchReads_cases hreads
            exact .inl ⟨cached, reads, hmissed, hknown, hcached, hreads⟩
        | error e =>
            right
            have hget : s.get inode proc = .error e := by
              rw [get_of_unknown hmissed hknown, hreads]
            refine ⟨?_, ?_, ?_⟩
            · rw [cacheActions, hreads]
              split
              · rfl
              · cases cacheReads proc inode s.mLRUCache.mDeque <;> rfl
            · simp only [step, hget]
            · intro r hr
              rw [hget] at hr
              exact absurd hr (by simp)

/-- A step changes the cache by the calls it makes. -/
theorem mLRUCache_step (s : ProcessIndex) (a : Action) :
    (s.step a).mLRUCache = exec LRUArray.step s.mLRUCache (s.cacheActions a) := by
  cases a with
  | clear => rfl
  | get inode proc =>
      rcases get_cases s inode proc with ⟨cached, reads, h⟩ | ⟨hnone, hstep, -⟩
      · obtain ⟨s', hget, hcache⟩ := h.get_eq
        have hstep : s.step (.get inode proc) = s' := by simp only [step, hget]
        rw [hstep, hcache, h.cacheActions_eq, exec_append, h.erased]
      · rw [hnone, hstep, exec_nil]

/-- A step makes the calls that there is a reason for, and no others. -/
theorem mem_cacheActions (s : ProcessIndex) (a : Action) (call : LRUArray.Action Int32) :
    call ∈ s.cacheActions a ↔ s.CallFor a call := by
  cases a with
  | clear =>
      constructor
      · intro hcall
        exact absurd hcall List.not_mem_nil
      · intro hcall
        cases hcall
  | get inode proc =>
      rcases get_cases s inode proc with ⟨cached, reads, h⟩ | ⟨hnone, -, hknown⟩
      · obtain ⟨s', hget, -⟩ := h.get_eq
        rw [h.cacheActions_eq, List.mem_append, Option.mem_toList, Option.map_eq_some_iff]
        constructor
        · rintro (herase | ⟨process, hprocess, rfl⟩)
          · split at herase
            · exact absurd herase List.not_mem_nil
            · rename_i hnot
              have hcache := Option.not_isSome_iff_eq_none.mp hnot
              obtain ⟨pid, hpid, rfl⟩ := List.mem_map.mp herase
              rw [expired_cacheReads h.cacheReads_eq hcache, List.mem_filter] at hpid
              exact .expired h.notMissed h.notKnown hget (h.notCached_iff.mpr hcache) hpid.1
                (by simpa using hpid.2)
          · rw [hprocess] at hget
            exact .found h.notKnown hget
        · intro hcall
          cases hcall with
          | @found _ _ process _ _ hget' =>
              rw [hget] at hget'
              exact .inr ⟨process, (Prod.mk.inj (Except.ok.inj hget')).1, rfl⟩
          | expired _ _ _ hcache hmem hgone =>
              have hcached := h.notCached_iff.mp hcache
              left
              rw [if_neg (by simp [hcached]), expired_cacheReads h.cacheReads_eq hcached]
              exact List.mem_map_of_mem (List.mem_filter.mpr ⟨hmem, by simpa using hgone⟩)
      · rw [hnone]
        constructor
        · intro hcall
          exact absurd hcall List.not_mem_nil
        · intro hcall
          cases hcall with
          | found hlookup hget =>
              rcases hknown _ hget with ⟨-, hfound⟩ | hsome
              · exact absurd hfound (by simp)
              · rw [hlookup] at hsome
                exact absurd hsome (by simp)
          | expired hmissed hlookup hget =>
              rcases hknown _ hget with ⟨hmem, -⟩ | hsome
              · exact absurd hmem hmissed
              · rw [hlookup] at hsome
                exact absurd hsome (by simp)

/-! ### Every run -/

/--
**The cache of pids is a least recently found set**, after every run of lookups.

A pid is used when a search finds its process, and dropped when its folder is gone at a
search that finds its socket in no cached process: these are all the calls the steps make
(`CallFor`).  The cache holds no more pids than its size, each once, each found since it was
last dropped, the most recently found in front.
-/
theorem cache_run {cacheSize : Int32} {proc : Proc} {s : ProcessIndex}
    (h : init cacheSize proc = .ok s) (as : List Action) :
    LRUArray.IsRecencySet (UInt64.ofInt cacheSize.toInt).toNat (trace step cacheActions s as)
        (exec step s as).mLRUCache ∧
      Along step (fun s a => ∀ call, call ∈ s.cacheActions a ↔ s.CallFor a call) s as := by
  constructor
  · have hcache : (exec step s as).mLRUCache =
        exec LRUArray.step s.mLRUCache (trace step cacheActions s as) :=
      follows (R := fun s c => s.mLRUCache = c)
        (fun s c a hc _ => by rw [mLRUCache_step, hc]) rfl (along_true step s as)
    obtain ⟨l, rfl, -⟩ := readFrom_init h
    rw [hcache]
    exact (LRUArray.recencyInv_run _ _).isRecencySet
  · exact along_of_inv (I := fun _ => True) (fun _ _ _ => trivial)
      (fun s a _ => mem_cacheActions s a) trivial

/-- A `/proc` that shows one process, which owns the socket 42. -/
def procOfShell : Proc where
  entries := some [⟨true, ascii "7"⟩]
  fdExists _ := true
  pidDir _ := ⟨some (ascii "sh"), some [⟨true, some (ascii "socket:[42]")⟩], Vector.replicate 80 0⟩

/-- A cache of one, made where no process is shown. -/
def emptyIndex : ProcessIndex := { mLRUCache := LRUArray.init 1 }

/-- The shell is found by a first lookup, and is gone at a second one. -/
def shellComesAndGoes : List Action := [.get 42 procOfShell, .get 43 noProcesses]

theorem cache_run_shell :
    LRUArray.IsRecencySet 1 (trace step cacheActions emptyIndex shellComesAndGoes)
        (exec step emptyIndex shellComesAndGoes).mLRUCache ∧
      Along step (fun s a => ∀ call, call ∈ s.cacheActions a ↔ s.CallFor a call) emptyIndex
        shellComesAndGoes :=
  cache_run (show init 1 noProcesses = .ok emptyIndex from rfl) shellComesAndGoes

end ProcessIndex

end Ntmd
