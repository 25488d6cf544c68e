/-
What a search reads, folder by folder.

Each list that a search reads is put together from the folders that it looks at, and a
search that finds nothing has looked at every folder there was to look at: the cached
ones that are still there, and the listed ones that are not cached.
-/
import Ntmd.Proofs.FirstOwner

namespace Ntmd

open LoadMap Scanf

namespace ProcessIndex

/-- An entry is one of those read from the folder of a process. -/
def ReadFrom (proc : Proc) (e : UInt64 × Process) : Prop :=
  ∃ pid l, dirReads (proc.pidDir (pidStr pid)) pid = .ok l ∧ e ∈ l

/-- The folder of a process can be read, and shows no link to the socket. -/
def NotIn (proc : Proc) (target : UInt64) (pid : Int32) : Prop :=
  ∃ l, dirReads (proc.pidDir (pidStr pid)) pid = .ok l ∧ foundIn target l = none

variable {proc : Proc} {target : UInt64}

/-! ### The sorted walk -/

theorem readFrom_sortedReads : ∀ {pids : List Int32} {l : List (UInt64 × Process)},
    sortedReads proc target pids = .ok l → ∀ e ∈ l, ReadFrom proc e := by
  intro pids
  induction pids with
  | nil =>
      intro l h e he
      rw [← Except.ok.inj h] at he
      exact absurd he List.not_mem_nil
  | cons pid pids ih =>
      intro l h
      rw [sortedReads] at h
      split at h
      · exact absurd h (by simp)
      · rename_i l₁ hdir
        split at h
        · rw [← Except.ok.inj h]
          exact fun e he => ⟨pid, l₁, hdir, he⟩
        · obtain ⟨l₂, hrest, rfl⟩ := of_map_ok h
          exact List.forall_mem_append.mpr ⟨fun e he => ⟨pid, l₁, hdir, he⟩, ih hrest⟩

/-- A walk that does not find the socket has been through all the folders. -/
theorem notIn_sortedReads : ∀ {pids : List Int32} {l : List (UInt64 × Process)},
    sortedReads proc target pids = .ok l → foundIn target l = none →
      ∀ pid ∈ pids, NotIn proc target pid := by
  intro pids
  induction pids with
  | nil => intro l _ _ pid hpid; exact absurd hpid List.not_mem_nil
  | cons pid pids ih =>
      intro l h hnone
      rw [sortedReads] at h
      split at h
      · exact absurd h (by simp)
      · rename_i l₁ hdir
        split at h
        · rename_i hfound
          rw [Except.ok.inj h, hnone] at hfound
          exact absurd hfound (by simp)
        · rename_i hnot
          obtain ⟨l₂, hrest, rfl⟩ := of_map_ok h
          have hfirst : foundIn target l₁ = none := Option.not_isSome_iff_eq_none.mp hnot
          rw [foundIn_append, hfirst, Option.or_none] at hnone
          exact List.forall_mem_cons.mpr ⟨⟨l₁, hdir, hfirst⟩, ih hrest hnone⟩

/-! ### The walk over the cached pids -/

theorem readFrom_cacheReads : ∀ {pids : List Int32} {r : List (UInt64 × Process) × List Int32},
    cacheReads proc target pids = .ok r → ∀ e ∈ r.1, ReadFrom proc e := by
  intro pids
  induction pids with
  | nil =>
      intro r h e he
      rw [← Except.ok.inj h] at he
      exact absurd he List.not_mem_nil
  | cons pid pids ih =>
      intro r h
      rw [cacheReads] at h
      split at h
      · split at h
        · exact absurd h (by simp)
        · rename_i l₁ hdir
          split at h
          · rw [← Except.ok.inj h]
            exact fun e he => ⟨pid, l₁, hdir, he⟩
          · obtain ⟨r', hrest, rfl⟩ := of_map_ok h
            exact List.forall_mem_append.mpr ⟨fun e he => ⟨pid, l₁, hdir, he⟩, ih hrest⟩
      · obtain ⟨r', hrest, rfl⟩ := of_map_ok h
        show ∀ e ∈ r'.1, ReadFrom proc e
        exact ih hrest

/-- The walk finds nothing exactly if every folder that is there is read and shows no link. -/
theorem foundIn_cacheReads : ∀ {pids : List Int32} {r : List (UInt64 × Process) × List Int32},
    cacheReads proc target pids = .ok r →
      (foundIn target r.1 = none ↔
        ∀ pid ∈ pids, proc.fdExists (pidStr pid) = true → NotIn proc target pid) := by
  intro pids
  induction pids with
  | nil =>
      intro r h
      rw [← Except.ok.inj h]
      simp [foundIn, last]
  | cons pid pids ih =>
      intro r h
      rw [cacheReads] at h
      rw [List.forall_mem_cons]
      split at h
      · rename_i hthere
        split at h
        · exact absurd h (by simp)
        · rename_i l₁ hdir
          have hfirst : (proc.fdExists (pidStr pid) = true → NotIn proc target pid) ↔
              foundIn target l₁ = none := by
            constructor
            · intro hnot
              obtain ⟨l, hl, hnone⟩ := hnot hthere
              rw [Except.ok.inj (hdir.symm.trans hl)]
              exact hnone
            · exact fun hnone _ => ⟨l₁, hdir, hnone⟩
          rw [hfirst]
          split at h
          · rename_i hfound
            rw [← Except.ok.inj h]
            refine iff_of_false ?_ fun hboth => ?_
            · exact Option.isSome_iff_ne_none.mp hfound
            · exact Option.isSome_iff_ne_none.mp hfound hboth.1
          · rename_i hnot
            obtain ⟨r', hrest, rfl⟩ := of_map_ok h
            have hnone : foundIn target l₁ = none := Option.not_isSome_iff_eq_none.mp hnot
            rw [foundIn_append, hnone, Option.or_none, ih hrest]
            exact (and_iff_right rfl).symm
      · rename_i hgone
        obtain ⟨r', hrest, rfl⟩ := of_map_ok h
        rw [ih hrest]
        exact (and_iff_right fun hthere => absurd hthere hgone).symm

/-- A walk that goes through to the end finds every pid that has expired. -/
theorem expired_cacheReads : ∀ {pids : List Int32} {r : List (UInt64 × Process) × List Int32},
    cacheReads proc target pids = .ok r → foundIn target r.1 = none →
      r.2 = pids.filter fun pid => !proc.fdExists (pidStr pid) := by
  intro pids
  induction pids with
  | nil =>
      intro r h _
      rw [← Except.ok.inj h]
      rfl
  | cons pid pids ih =>
      intro r h hnone
      rw [cacheReads] at h
      split at h
      · rename_i hthere
        split at h
        · exact absurd h (by simp)
        · split at h
          · rename_i hfound
            rw [← Except.ok.inj h] at hnone
            exact absurd hnone (Option.isSome_iff_ne_none.mp hfound)
          · rename_i hnot
            obtain ⟨r', hrest, rfl⟩ := of_map_ok h
            rw [foundIn_append, Option.not_isSome_iff_eq_none.mp hnot, Option.or_none] at hnone
            rw [List.filter_cons_of_neg (by simp [hthere])]
            show r'.2 = _
            exact ih hrest hnone
      · rename_i hgone
        obtain ⟨r', hrest, rfl⟩ := of_map_ok h
        rw [List.filter_cons_of_pos (by simpa using hgone), ← ih hrest hnone]

/-! ### The first scan -/

theorem readFrom_refreshLoop : ∀ {pids : List Int32} {m m' : ProcessMap},
    refreshLoop proc pids m = .ok m' → ∃ l, m' = load m l ∧ ∀ e ∈ l, ReadFrom proc e := by
  intro pids
  induction pids with
  | nil =>
      intro m m' h
      rw [← Except.ok.inj h]
      exact ⟨[], rfl, fun e he => absurd he List.not_mem_nil⟩
  | cons pid pids ih =>
      intro m m' h
      rw [refreshLoop, processPidDir_eq] at h
      cases hdir : dirReads (proc.pidDir (pidStr pid)) pid with
      | error e =>
          rw [hdir] at h
          exact absurd h (by simp [bind, Except.bind, Except.map])
      | ok l₁ =>
          rw [hdir] at h
          obtain ⟨l₂, rfl, hread⟩ := ih h
          refine ⟨l₁ ++ l₂, (load_append m l₁ l₂).symm, ?_⟩
          exact List.forall_mem_append.mpr ⟨fun e he => ⟨pid, l₁, hdir, he⟩, hread⟩

/-- What the construction leaves: an empty cache, and a map of what the folders show. -/
theorem readFrom_init {cacheSize : Int32} {s : ProcessIndex} (h : init cacheSize proc = .ok s) :
    ∃ l, s = { mProcessMap := load ∅ l
               mLRUCache := LRUArray.init (UInt64.ofInt cacheSize.toInt).toNat } ∧
      ∀ e ∈ l, ReadFrom proc e := by
  rw [init, refresh] at h
  split at h
  · exact absurd h (by simp)
  · rename_i entries _
    cases hpids : uncachedPids
        { mDeque := [], mSize := (UInt64.ofInt cacheSize.toInt).toNat } entries with
    | error e =>
        simp only [hpids] at h
        exact absurd h (by simp [bind, Except.bind])
    | ok pids =>
        simp only [hpids, bind, Except.bind] at h
        split at h
        · exact absurd h (by simp)
        · rename_i m hm
          obtain ⟨l, rfl, hread⟩ := readFrom_refreshLoop hm
          exact ⟨l, (Except.ok.inj h).symm, hread⟩

/-! ### The whole search -/

/-- A search is a walk over the cached pids, and if that finds nothing, over the others. -/
theorem searchReads_cases {s : ProcessIndex} {r : List (UInt64 × Process) × LRUArray Int32}
    (h : searchReads s proc target = .ok r) :
    ∃ cached, cacheReads proc target s.mLRUCache.mDeque = .ok cached ∧
      ((foundIn target cached.1 ≠ none ∧ r = (cached.1, s.mLRUCache)) ∨
        (foundIn target cached.1 = none ∧ ∃ entries pids l, proc.entries = some entries ∧
          uncachedPids (cached.2.foldl LRUArray.erase s.mLRUCache) entries = .ok pids ∧
          sortedReads proc target (descending pids) = .ok l ∧
          r = (cached.1 ++ l, cached.2.foldl LRUArray.erase s.mLRUCache))) := by
  rw [searchReads] at h
  split at h
  · exact absurd h (by simp)
  · rename_i cached hcached
    refine ⟨cached, hcached, ?_⟩
    split at h
    · rename_i hfound
      exact .inl ⟨Option.isSome_iff_ne_none.mp hfound, (Except.ok.inj h).symm⟩
    · rename_i hnot
      split at h
      · exact absurd h (by simp)
      · rename_i entries hentries
        split at h
        · exact absurd h (by simp)
        · rename_i pids hpids
          rw [foldl_insertSorted] at h
          obtain ⟨l, hl, rfl⟩ := of_map_ok h
          exact .inr ⟨Option.not_isSome_iff_eq_none.mp hnot, entries, pids, l, hentries, hpids, hl,
            rfl⟩

theorem readFrom_searchReads {s : ProcessIndex} {r : List (UInt64 × Process) × LRUArray Int32}
    (h : searchReads s proc target = .ok r) : ∀ e ∈ r.1, ReadFrom proc e := by
  obtain ⟨cached, hcached, ⟨-, rfl⟩ | ⟨-, entries, pids, l, -, -, hl, rfl⟩⟩ := searchReads_cases h
  · exact readFrom_cacheReads hcached
  · exact List.forall_mem_append.mpr ⟨readFrom_cacheReads hcached, readFrom_sortedReads hl⟩

theorem mem_uncachedPids {cache : LRUArray Int32} : ∀ {entries : List ProcEntry}
    {pids : List Int32}, uncachedPids cache entries = .ok pids →
      ∀ pid ∈ listedPids entries, pid ∉ cache.mDeque → pid ∈ pids := by
  intro entries
  induction entries with
  | nil => intro pids _ pid hpid; exact absurd hpid List.not_mem_nil
  | cons entry entries ih =>
      intro pids h pid hpid hcached
      rw [uncachedPids] at h
      rw [listedPids, List.filterMap_cons] at hpid
      split at h
      · rename_i hnumber
        rw [if_pos hnumber] at hpid
        unfold stoiOrDie at h
        cases hstoi : stoi entry.name with
        | error e =>
            rw [hstoi] at h
            exact absurd h (by simp [bind, Except.bind])
        | ok first =>
            rw [hstoi] at h hpid
            simp only [bind, Except.bind] at h
            cases hrest : uncachedPids cache entries with
            | error e =>
                rw [hrest] at h
                exact absurd h (by simp)
            | ok others =>
                rw [hrest] at h
                rw [← Except.ok.inj h]
                rcases List.mem_cons.mp hpid with rfl | hpid
                · rw [if_neg (by simpa [LRUArray.contains] using hcached)]
                  exact List.mem_cons_self
                · have hmem := ih hrest pid hpid hcached
                  split
                  · exact hmem
                  · exact List.mem_cons_of_mem _ hmem
      · rename_i hother
        rw [if_neg hother] at hpid
        exact ih h pid hpid hcached

/-- **A search that finds nothing has read the folder of every process that is listed**, and none
of them shows a link to the socket. -/
theorem notIn_searchReads {s : ProcessIndex} {r : List (UInt64 × Process) × LRUArray Int32}
    (hnodup : s.mLRUCache.mDeque.Nodup) (h : searchReads s proc target = .ok r)
    (hnone : foundIn target r.1 = none) :
    ∃ entries, proc.entries = some entries ∧ ∀ pid ∈ listedPids entries, NotIn proc target pid := by
  obtain ⟨cached, hcached, ⟨hfound, rfl⟩ | ⟨hcache, entries, pids, l, hentries, hpids, hl, rfl⟩⟩ :=
    searchReads_cases h
  · exact absurd hnone hfound
  · rw [foundIn_append, hcache, Option.or_none] at hnone
    refine ⟨entries, hentries, fun pid hpid => ?_⟩
    by_cases hkept : pid ∈ (cached.2.foldl LRUArray.erase s.mLRUCache).mDeque
    · rw [LRUArray.mDeque_foldl_erase _ hnodup, List.mem_filter,
        expired_cacheReads hcached hcache] at hkept
      have hthere : proc.fdExists (pidStr pid) = true := by
        have hnot := hkept.2
        simp only [List.mem_filter, hkept.1, true_and] at hnot
        simpa using hnot
      exact (foundIn_cacheReads hcached).mp hcache pid hkept.1 hthere
    · exact notIn_sortedReads hl hnone pid
        (mem_descending.mpr (mem_uncachedPids hpids pid hpid hkept))

end ProcessIndex

end Ntmd
