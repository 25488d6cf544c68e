/-
A cached, sorted search with early exits agrees with a plain scan of all processes.

What `FirstOwner` and `ScannedOnce` say of the search is put together here for `get`
in every state the index can reach: no pid is cached twice in such a state, and that
is all the search needs to know about the cache.
-/
import Ntmd.Proofs.ScannedOnce

namespace Ntmd

open Bytes FirstMatch LoadMap Run

namespace ProcessIndex

/-- A state the index can be in some time after its construction. -/
def Reachable (s : ProcessIndex) : Prop :=
  ∃ cacheSize proc s₀ as, init cacheSize proc = .ok s₀ ∧ exec step s₀ as = s

/-- A search leaves no pid in the cache twice. -/
theorem nodup_of_searchReads {s : ProcessIndex} (hnodup : s.mLRUCache.mDeque.Nodup) {proc : Proc}
    {target : UInt64} {r : List (UInt64 × Process) × LRUArray Int32}
    (h : searchReads s proc target = .ok r) : r.2.mDeque.Nodup := by
  unfold searchReads at h
  split at h
  · exact absurd h (by simp)
  · split at h
    · rw [← Except.ok.inj h]
      exact hnodup
    · split at h
      · exact absurd h (by simp)
      · split at h
        · exact absurd h (by simp)
        · obtain ⟨l, -, rfl⟩ := of_map_ok h
          rw [LRUArray.mDeque_foldl_erase _ hnodup]
          exact hnodup.filter _

theorem nodup_step {s : ProcessIndex} (hnodup : s.mLRUCache.mDeque.Nodup) (a : Action) :
    (s.step a).mLRUCache.mDeque.Nodup := by
  cases a with
  | clear => exact hnodup
  | get inode proc =>
      rw [step]
      by_cases hmissed : inode ∈ s.mCouldNotFind
      · rw [get_of_missed hmissed]
        exact hnodup
      cases hlookup : s.mProcessMap.lookup inode with
      | some process =>
          rw [get_of_known hmissed hlookup]
          exact hnodup
      | none =>
          rw [get_of_unknown hmissed hlookup]
          cases hreads : searchReads s proc inode with
          | error e => exact hnodup
          | ok r =>
              have hr := nodup_of_searchReads hnodup hreads
              simp only
              cases foundIn inode r.1 with
              | some process => exact LRUArray.nodup_update hr process.pid
              | none => exact hr

theorem nodup_run : ∀ (as : List Action) {s : ProcessIndex}, s.mLRUCache.mDeque.Nodup →
    (exec step s as).mLRUCache.mDeque.Nodup := by
  intro as
  induction as with
  | nil => intro s h; exact h
  | cons a as ih => intro s h; exact ih (nodup_step h a)

/-- **No pid is cached twice.** -/
theorem Reachable.nodup {s : ProcessIndex} (h : s.Reachable) : s.mLRUCache.mDeque.Nodup := by
  obtain ⟨cacheSize, proc, s₀, as, hinit, rfl⟩ := h
  refine nodup_run as ?_
  unfold init refresh at hinit
  split at hinit
  · exact absurd hinit (by simp)
  · obtain ⟨pids, -, hinit⟩ := of_bind_ok hinit
    obtain ⟨m, -, hinit⟩ := of_bind_ok hinit
    rw [← Except.ok.inj hinit]
    exact List.nodup_nil

/-- The answer and the state after it are those of a plain scan. -/
structure AgreesWithPlainScan (s : ProcessIndex) (proc : SteadyProc) (target : UInt64)
    (answer : Option Process) (s' : ProcessIndex) : Prop where
  /-- A process is found exactly if some pid links to the socket. -/
  found_iff : answer.isSome = true ↔ ∃ pid ∈ plainOrder s proc, LinksTo proc.toProc pid target
  /-- It is the first such pid's, with that pid's `comm`. -/
  first : ∃ owner, IsFirst (Owner proc target) (plainOrder s proc) owner ∧
    answer = owner.map (processAt proc.toProc)
  scanned_once : (s.scanned target proc.toProc).Nodup
  /-- On success the pid is in front of the cache. -/
  front : ∀ process, answer = some process → s.mLRUCache.mSize ≠ 0 →
    s'.mLRUCache.mDeque.head? = some process.pid
  /-- On failure the socket is remembered, and no pid without a folder is left in the cache. -/
  missed : answer = none → target ∈ s'.mCouldNotFind ∧
    ∀ pid ∈ s'.mLRUCache.mDeque, (proc.pidDir (pidStr pid)).fd.isSome = true

variable {s : ProcessIndex} {proc : SteadyProc} {target : UInt64}

theorem agrees_of_allTerminated (hnodup : s.mLRUCache.mDeque.Nodup) (h0 : target ≠ 0)
    (hunknown : s.mProcessMap.lookup target = none) (hmissed : target ∉ s.mCouldNotFind)
    (h : AllTerminated proc target (plainOrder s proc)) :
    ∃ answer s', s.get target proc.toProc = .ok (answer, s') ∧
      AgreesWithPlainScan s proc target answer s' := by
  obtain ⟨r, owner, hreads, hfirst, hfound, hsize, hkept⟩ := (searchReads_spec h0 hnodup).1 h
  have hiff : (owner.map (processAt proc.toProc)).isSome = true ↔
      ∃ pid ∈ plainOrder s proc, LinksTo proc.toProc pid target := by
    rw [Option.isSome_map]
    exact hfirst.isSome_iff
  rw [get_of_unknown hmissed hunknown, hreads]
  simp only [hfound]
  cases owner with
  | some pid =>
      refine ⟨_, _, rfl, hiff, ⟨some pid, hfirst, rfl⟩, nodup_scanned hnodup _ _, ?_, by simp⟩
      intro process hprocess hne
      rw [← Option.some.inj hprocess]
      exact LRUArray.head?_update (hsize.trans_ne hne) _
  | none =>
      refine ⟨_, _, rfl, hiff, ⟨none, hfirst, rfl⟩, nodup_scanned hnodup _ _, by simp, fun _ => ?_⟩
      refine ⟨Finset.mem_insert_self _ _, fun pid hpid => ?_⟩
      rw [← proc.fdExists_eq]
      exact hkept rfl pid hpid

/-- A link that is not terminated ends the daemon. -/
theorem get_of_not_allTerminated (hnodup : s.mLRUCache.mDeque.Nodup) (h0 : target ≠ 0)
    (hunknown : s.mProcessMap.lookup target = none) (hmissed : target ∉ s.mCouldNotFind)
    (h : ¬ AllTerminated proc target (plainOrder s proc)) :
    ∃ e, s.get target proc.toProc = .error e := by
  obtain ⟨e, he⟩ := (searchReads_spec h0 hnodup).2 h
  rw [get_of_unknown hmissed hunknown, he]
  exact ⟨e, rfl⟩

/--
**In every reachable state the search agrees with a plain scan exactly if the buffer terminates
the links of every folder that the plain scan looks at.**
-/
theorem agreesWithPlainScan_iff (s : ProcessIndex) (hs : s.Reachable) (proc : SteadyProc)
    (target : UInt64) (h0 : target ≠ 0) (hunknown : s.mProcessMap.lookup target = none)
    (hmissed : target ∉ s.mCouldNotFind) :
    (∃ answer s', s.get target proc.toProc = .ok (answer, s') ∧
      AgreesWithPlainScan s proc target answer s') ↔
      AllTerminated proc target (plainOrder s proc) := by
  constructor
  · rintro ⟨answer, s', hget, -⟩
    by_contra h
    obtain ⟨e, he⟩ := get_of_not_allTerminated hs.nodup h0 hunknown hmissed h
    rw [he] at hget
    exact absurd hget (by simp)
  · exact agrees_of_allTerminated hs.nodup h0 hunknown hmissed

/-- Two processes that share one socket, each with a file open before it. -/
def sharedSocket (path : Bytes) (hpath : path.head? = some 47) (h0 : 0 ∉ path)
    (linkRaw : Vector UInt8 80) : SteadyProc where
  entries := some [⟨true, ascii "10"⟩, ⟨true, ascii "20"⟩]
  fdExists _ := true
  pidDir _ :=
    { comm := some (ascii "sshd")
      fd := some [⟨true, some path⟩, ⟨true, some (socketTarget 100)⟩]
      linkRaw := linkRaw }
  targets := by
    intro name entries hfd entry hentry text htext
    rw [← Option.some.inj hfd] at hentry
    rcases List.mem_pair.mp hentry with rfl | rfl
    · refine Or.inr ⟨0, 47, by decide, ?_, by decide⟩
      rw [← Option.some.inj htext, ← List.head?_eq_getElem?, hpath]
    · exact Or.inl ⟨100, (Option.some.inj htext).symm⟩
  listing := [⟨true, ascii "10"⟩, ⟨true, ascii "20"⟩]
  entries_eq := rfl
  names := by
    intro entry hentry _ _
    rcases List.mem_pair.mp hentry with rfl | rfl
    · exact ⟨10, by decide +kernel⟩
    · exact ⟨20, by decide +kernel⟩
  fdExists_eq _ := rfl
  comm_readable _ _ := rfl
  inode_lt := by
    intro name entries hfd entry hentry inode hinode
    rw [← Option.some.inj hfd] at hentry
    rcases List.mem_pair.mp hentry with rfl | rfl
    · have hother : IsOtherTarget (socketTarget inode) := by
        refine ⟨0, 47, by decide, ?_, by decide⟩
        rw [← Option.some.inj hinode, ← List.head?_eq_getElem?, hpath]
      exact absurd hother (not_isOtherTarget_socketTarget inode)
    · rw [← socketTarget_injective (Option.some.inj hinode)]
      decide
  zero_not_mem := by
    intro name entries hfd entry hentry text htext
    rw [← Option.some.inj hfd] at hentry
    rcases List.mem_pair.mp hentry with rfl | rfl
    · rw [← Option.some.inj htext]
      exact h0
    · rw [← Option.some.inj htext]
      exact zero_not_mem_socketTarget 100

/-- An index whose cache is still empty. -/
def emptyCache : ProcessIndex := { mLRUCache := { mDeque := [], mSize := 5 } }

theorem reachable_emptyCache : emptyCache.Reachable :=
  ⟨5, ⟨some [], fun _ => false, fun _ => ⟨none, none, .replicate 80 0⟩⟩, emptyCache, [], rfl, rfl⟩

/-- A short path, and a stack that was zero. -/
def shortPath : SteadyProc := sharedSocket (ascii "/dev/null") rfl (by decide) (.replicate 80 0)

/-- A path of 79 bytes, which leaves one byte of the buffer to what the stack held. -/
def longPath : SteadyProc :=
  sharedSocket (47 :: List.replicate 78 97) rfl (by decide) (.replicate 80 255)

theorem agreesWithPlainScan_short :
    ∃ answer s', emptyCache.get 100 shortPath.toProc = .ok (answer, s') ∧
      AgreesWithPlainScan emptyCache shortPath 100 answer s' := by
  refine (agreesWithPlainScan_iff emptyCache reachable_emptyCache shortPath 100 (by decide) rfl
    (Finset.notMem_empty _)).mpr fun pid _ entries _ text _ => ⟨79, List.length_take_le 79 text, ?_⟩
  show (Vector.replicate 80 (0 : UInt8)).toList[79]? = some 0
  decide

theorem not_agreesWithPlainScan_long :
    ¬ ∀ s, Reachable s → ∀ proc target, target ≠ 0 → s.mProcessMap.lookup target = none →
      target ∉ s.mCouldNotFind → ∃ answer s', s.get target proc.toProc = .ok (answer, s') ∧
        AgreesWithPlainScan s proc target answer s' := by
  intro h
  obtain ⟨answer, s', hget, -⟩ := h emptyCache reachable_emptyCache longPath 100 (by decide) rfl
    (Finset.notMem_empty _)
  have hnot : ¬ AllTerminated longPath 100 (plainOrder emptyCache longPath) := by
    have horder : plainOrder emptyCache longPath = 20 :: [10] := by decide +kernel
    rw [horder, allTerminated_cons_iff]
    rintro ⟨hfirst, -⟩
    obtain ⟨i, -, hzero⟩ := hfirst _ rfl (47 :: List.replicate 78 97) List.mem_cons_self
    have hnone : (0 : UInt8) ∉ (Vector.replicate 80 (255 : UInt8)).toList := by decide
    exact hnone (List.mem_of_getElem? hzero)
  obtain ⟨e, he⟩ := get_of_not_allTerminated reachable_emptyCache.nodup (by decide) rfl
    (Finset.notMem_empty _) hnot
  rw [he] at hget
  exact absurd hget (by simp)

end ProcessIndex

end Ntmd
