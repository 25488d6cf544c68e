/-
No process folder is scanned twice in one call.

The functions of the search are repeated here with a list of the pids whose folders
they scan, in the order of the scans; dropping the list gives the search back
(`getTraced_fst`).  The cached pids that are scanned have a folder and stay cached, so
the sorted search leaves them out.
-/
import Ntmd.Proofs.FirstOwner

namespace Ntmd

namespace ProcessIndex

/-- `searchCacheLoop`, with the pids scanned. -/
def searchCacheLoopTraced (proc : Proc) (target : UInt64) :
    List Int32 → ProcessMap → List Int32 →
      Except Crash ((ProcessMap × Option Process × List Int32) × List Int32)
  | [], m, expired => .ok ((m, none, expired), [])
  | pid :: pids, m, expired =>
      if proc.fdExists (pidStr pid) then do
        let (m, found) ← processPidDir (proc.pidDir (pidStr pid)) pid target m
        match found with
        | some process => .ok ((m, some process, expired), [pid])
        | none => do
            let (r, scanned) ← searchCacheLoopTraced proc target pids m expired
            .ok (r, pid :: scanned)
      else searchCacheLoopTraced proc target pids m (expired ++ [pid])

/-- `searchCache`, with the pids scanned. -/
def searchCacheTraced (s : ProcessIndex) (proc : Proc) (target : UInt64) :
    Except Crash ((ProcessIndex × Option Process) × List Int32) := do
  let ((m, found, expired), scanned) ←
    searchCacheLoopTraced proc target s.mLRUCache.mDeque s.mProcessMap []
  match found with
  | some process => .ok (({ s with mProcessMap := m }, some process), scanned)
  | none =>
      .ok (({ s with
        mProcessMap := m
        mLRUCache := expired.foldl LRUArray.erase s.mLRUCache }, none), scanned)

/-- `searchSorted`, with the pids scanned. -/
def searchSortedTraced (proc : Proc) (target : UInt64) :
    List Int32 → ProcessMap → Except Crash ((ProcessMap × Option Process) × List Int32)
  | [], m => .ok ((m, none), [])
  | pid :: pids, m => do
      let (m, found) ← processPidDir (proc.pidDir (pidStr pid)) pid target m
      match found with
      | some process => .ok ((m, some process), [pid])
      | none => do
          let (r, scanned) ← searchSortedTraced proc target pids m
          .ok (r, pid :: scanned)

/-- `search`, with the pids scanned. -/
def searchTraced (s : ProcessIndex) (proc : Proc) (target : UInt64) :
    Except Crash ((ProcessIndex × Option Process) × List Int32) := do
  let ((s, found), scanned) ← searchCacheTraced s proc target
  match found with
  | some process => .ok ((s, some process), scanned)
  | none =>
      match proc.entries with
      | none => .error .exit
      | some entries => do
          let pids ← uncachedPids s.mLRUCache entries
          let sorted := pids.foldl (fun ps pid => insertSorted pid ps) []
          let ((m, found), scanned') ← searchSortedTraced proc target sorted s.mProcessMap
          .ok (({ s with mProcessMap := m }, found), scanned ++ scanned')

/-- `get`, with the pids scanned. -/
def getTraced (s : ProcessIndex) (inode : UInt64) (proc : Proc) :
    Except Crash ((Option Process × ProcessIndex) × List Int32) :=
  if inode ∈ s.mCouldNotFind then .ok ((none, s), [])
  else
    match s.mProcessMap.lookup inode with
    | some process => .ok ((some process, s), [])
    | none => do
        let ((s, found), scanned) ← searchTraced s proc inode
        match found with
        | some process =>
            .ok ((some process, { s with mLRUCache := s.mLRUCache.update process.pid }), scanned)
        | none =>
            .ok ((none, { s with mCouldNotFind := insert inode s.mCouldNotFind }), scanned)

/-- The pids whose folders a call scans, in order. -/
def scanned (s : ProcessIndex) (inode : UInt64) (proc : Proc) : List Int32 :=
  match s.getTraced inode proc with
  | .ok (_, pids) => pids
  | .error _ => []

/-! ### The list changes nothing -/

theorem searchCacheLoopTraced_fst (proc : Proc) (target : UInt64) :
    ∀ (pids : List Int32) (m : ProcessMap) (expired : List Int32),
      (searchCacheLoopTraced proc target pids m expired).map Prod.fst =
        searchCacheLoop proc target pids m expired := by
  intro pids
  induction pids with
  | nil => intro m expired; rfl
  | cons pid pids ih =>
      intro m expired
      rw [searchCacheLoopTraced, searchCacheLoop]
      split
      · cases processPidDir (proc.pidDir (pidStr pid)) pid target m with
        | error e => rfl
        | ok r =>
            obtain ⟨m', found⟩ := r
            cases found with
            | some process => rfl
            | none =>
                simp only [bind, Except.bind]
                rw [← ih]
                cases searchCacheLoopTraced proc target pids m' expired <;> rfl
      · exact ih m _

theorem searchCacheTraced_fst (s : ProcessIndex) (proc : Proc) (target : UInt64) :
    (s.searchCacheTraced proc target).map Prod.fst = s.searchCache proc target := by
  rw [searchCacheTraced, searchCache, ← searchCacheLoopTraced_fst]
  cases searchCacheLoopTraced proc target s.mLRUCache.mDeque s.mProcessMap [] with
  | error e => rfl
  | ok r =>
      obtain ⟨⟨m, found, expired⟩, scanned⟩ := r
      cases found <;> rfl

theorem searchSortedTraced_fst (proc : Proc) (target : UInt64) :
    ∀ (pids : List Int32) (m : ProcessMap),
      (searchSortedTraced proc target pids m).map Prod.fst = searchSorted proc target pids m := by
  intro pids
  induction pids with
  | nil => intro m; rfl
  | cons pid pids ih =>
      intro m
      rw [searchSortedTraced, searchSorted]
      cases processPidDir (proc.pidDir (pidStr pid)) pid target m with
      | error e => rfl
      | ok r =>
          obtain ⟨m', found⟩ := r
          cases found with
          | some process => rfl
          | none =>
              simp only [bind, Except.bind]
              rw [← ih]
              cases searchSortedTraced proc target pids m' <;> rfl

theorem searchTraced_fst (s : ProcessIndex) (proc : Proc) (target : UInt64) :
    (s.searchTraced proc target).map Prod.fst = s.search proc target := by
  rw [searchTraced, search, ← searchCacheTraced_fst]
  cases s.searchCacheTraced proc target with
  | error e => rfl
  | ok r =>
      obtain ⟨⟨s', found⟩, scanned⟩ := r
      cases found with
      | some process => rfl
      | none =>
          simp only [bind, Except.bind, Except.map]
          cases proc.entries with
          | none => rfl
          | some entries =>
              simp only
              cases uncachedPids s'.mLRUCache entries with
              | error e => rfl
              | ok pids =>
                  simp only [← searchSortedTraced_fst]
                  cases searchSortedTraced proc target
                    (pids.foldl (fun ps pid => insertSorted pid ps) []) s'.mProcessMap <;> rfl

/-- **Dropping the list gives the search back.** -/
theorem getTraced_fst (s : ProcessIndex) (inode : UInt64) (proc : Proc) :
    (s.getTraced inode proc).map Prod.fst = s.get inode proc := by
  rw [getTraced, get]
  split
  · rfl
  · cases s.mProcessMap.lookup inode with
    | some process => rfl
    | none =>
        simp only [← searchTraced_fst]
        cases s.searchTraced proc inode with
        | error e => rfl
        | ok r =>
            obtain ⟨⟨s', found⟩, scanned⟩ := r
            cases found <;> rfl

/-! ### Nothing is scanned twice -/

theorem of_bind_ok {α β : Type} {x : Except Crash α} {f : α → Except Crash β} {b : β}
    (h : x >>= f = .ok b) : ∃ a, x = .ok a ∧ f a = .ok b := by
  cases x with
  | error c => exact absurd h (by simp [bind, Except.bind])
  | ok a => exact ⟨a, rfl, h⟩

/-- The search of the cache scans pids that have a folder, and those without one have expired. -/
theorem searchCacheLoopTraced_scans {proc : Proc} {target : UInt64} : ∀ {pids : List Int32}
    {m : ProcessMap} {expired : List Int32} {r : ProcessMap × Option Process × List Int32}
    {scanned : List Int32}, searchCacheLoopTraced proc target pids m expired = .ok (r, scanned) →
      scanned.Sublist (pids.filter fun pid => proc.fdExists (pidStr pid)) ∧
      (r.2.1 = none → r.2.2 = expired ++ pids.filter fun pid => !proc.fdExists (pidStr pid)) := by
  intro pids
  induction pids with
  | nil =>
      intro m expired r scanned h
      obtain ⟨rfl, rfl⟩ := Prod.mk.inj (Except.ok.inj h)
      exact ⟨List.Sublist.refl _, fun _ => (List.append_nil _).symm⟩
  | cons pid pids ih =>
      intro m expired r scanned h
      rw [searchCacheLoopTraced] at h
      split at h
      · rename_i hexists
        rw [List.filter_cons, if_pos hexists, List.filter_cons, if_neg (by simp [hexists])]
        obtain ⟨⟨m', found⟩, -, h⟩ := of_bind_ok h
        cases found with
        | some process =>
            obtain ⟨rfl, rfl⟩ := Prod.mk.inj (Except.ok.inj h)
            exact ⟨List.Sublist.cons_cons _ (List.nil_sublist _), by simp⟩
        | none =>
            obtain ⟨⟨r', scanned'⟩, hrest, h⟩ := of_bind_ok h
            obtain ⟨rfl, rfl⟩ := Prod.mk.inj (Except.ok.inj h)
            obtain ⟨hsub, hexpired⟩ := ih hrest
            exact ⟨hsub.cons_cons _, hexpired⟩
      · rename_i hexists
        obtain ⟨hsub, hexpired⟩ := ih h
        rw [List.filter_cons, if_neg hexists, List.filter_cons, if_pos (by simp [hexists])]
        refine ⟨hsub, fun hnone => ?_⟩
        rw [hexpired hnone, List.append_assoc, List.singleton_append]

theorem searchSortedTraced_scans {proc : Proc} {target : UInt64} : ∀ {pids : List Int32}
    {m : ProcessMap} {r : ProcessMap × Option Process} {scanned : List Int32},
      searchSortedTraced proc target pids m = .ok (r, scanned) → scanned.Sublist pids := by
  intro pids
  induction pids with
  | nil =>
      intro m r scanned h
      rw [← (Prod.mk.inj (Except.ok.inj h)).2]
  | cons pid pids ih =>
      intro m r scanned h
      rw [searchSortedTraced] at h
      obtain ⟨⟨m', found⟩, -, h⟩ := of_bind_ok h
      cases found with
      | some process =>
          rw [← (Prod.mk.inj (Except.ok.inj h)).2]
          exact List.Sublist.cons_cons _ (List.nil_sublist _)
      | none =>
          obtain ⟨⟨r', scanned'⟩, hrest, h⟩ := of_bind_ok h
          rw [← (Prod.mk.inj (Except.ok.inj h)).2]
          exact (ih hrest).cons_cons _

theorem not_cached_of_mem_uncachedPids {cache : LRUArray Int32} : ∀ {entries : List ProcEntry}
    {pids : List Int32}, uncachedPids cache entries = .ok pids →
      ∀ pid ∈ pids, pid ∉ cache.mDeque := by
  intro entries
  induction entries with
  | nil =>
      intro pids h pid hpid
      rw [← Except.ok.inj h] at hpid
      exact absurd hpid (by simp)
  | cons entry entries ih =>
      intro pids h
      rw [uncachedPids] at h
      split at h
      · obtain ⟨pid, -, h⟩ := of_bind_ok h
        obtain ⟨pids', hrest, h⟩ := of_bind_ok h
        rw [← Except.ok.inj h]
        split
        · exact ih hrest
        · rename_i hcached
          exact List.forall_mem_cons.mpr ⟨by simpa [LRUArray.contains] using hcached, ih hrest⟩
      · exact ih h

theorem nodup_searchTraced {s : ProcessIndex} (hnodup : s.mLRUCache.mDeque.Nodup) {proc : Proc}
    {target : UInt64} {r : ProcessIndex × Option Process} {scanned : List Int32}
    (h : s.searchTraced proc target = .ok (r, scanned)) : scanned.Nodup := by
  rw [searchTraced, searchCacheTraced] at h
  obtain ⟨⟨⟨s', found⟩, scanned'⟩, hcache, h⟩ := of_bind_ok h
  obtain ⟨⟨⟨m, found', expired⟩, scanned''⟩, hloop, hcache⟩ := of_bind_ok hcache
  obtain ⟨hsub, hexpired⟩ := searchCacheLoopTraced_scans hloop
  have hcached : scanned''.Nodup := (hnodup.filter _).sublist hsub
  cases found' with
  | some process =>
      obtain ⟨hs, rfl⟩ := Prod.mk.inj (Except.ok.inj hcache)
      obtain ⟨rfl, rfl⟩ := Prod.mk.inj hs
      rw [← (Prod.mk.inj (Except.ok.inj h)).2]
      exact hcached
  | none =>
      obtain ⟨hs, rfl⟩ := Prod.mk.inj (Except.ok.inj hcache)
      obtain ⟨rfl, rfl⟩ := Prod.mk.inj hs
      simp only at h
      split at h
      · exact absurd h (by simp)
      obtain ⟨pids, huncached, h⟩ := of_bind_ok h
      obtain ⟨⟨⟨m', found''⟩, others⟩, hsorted, h⟩ := of_bind_ok h
      rw [← (Prod.mk.inj (Except.ok.inj h)).2]
      rw [foldl_insertSorted] at hsorted
      have hothers := searchSortedTraced_scans hsorted
      refine List.Nodup.append hcached
        ((nodup_of_descending (pairwise_descending pids)).sublist hothers) ?_
      -- A pid scanned in the cache has a folder, so it is still cached afterwards.
      intro pid hpid hother
      have hkept := not_cached_of_mem_uncachedPids huncached pid
        (mem_descending.mp (hothers.subset hother))
      obtain ⟨hmem, hexists⟩ := List.mem_filter.mp (hsub.subset hpid)
      have heq : expired = s.mLRUCache.mDeque.filter fun pid => !proc.fdExists (pidStr pid) :=
        hexpired rfl
      refine hkept ?_
      rw [heq, LRUArray.mDeque_foldl_erase _ hnodup, List.mem_filter]
      exact ⟨hmem, by simp [hexists]⟩

/-- **No folder is scanned twice in one call**, whatever `/proc` shows. -/
theorem nodup_scanned {s : ProcessIndex} (hnodup : s.mLRUCache.mDeque.Nodup) (inode : UInt64)
    (proc : Proc) : (s.scanned inode proc).Nodup := by
  unfold scanned
  cases h : s.getTraced inode proc with
  | error e => exact List.nodup_nil
  | ok r =>
      obtain ⟨r, pids⟩ := r
      rw [getTraced] at h
      split at h
      · rw [← (Prod.mk.inj (Except.ok.inj h)).2]
        exact List.nodup_nil
      · cases hlookup : s.mProcessMap.lookup inode with
        | some process =>
            rw [hlookup] at h
            rw [← (Prod.mk.inj (Except.ok.inj h)).2]
            exact List.nodup_nil
        | none =>
            rw [hlookup] at h
            obtain ⟨⟨⟨s', found⟩, scanned⟩, hsearch, h⟩ := of_bind_ok h
            cases found with
            | some process =>
                rw [← (Prod.mk.inj (Except.ok.inj h)).2]
                exact nodup_searchTraced hnodup hsearch
            | none =>
                rw [← (Prod.mk.inj (Except.ok.inj h)).2]
                exact nodup_searchTraced hnodup hsearch

end ProcessIndex

end Ntmd
