/-
The search for a socket's process finds the first owner in one order of all pids.

The search goes through the cached pids, forgets those that have expired, and then
goes through the others in descending order, leaving either loop as soon as the
process is found.  A plain scan would look at all pids in that order and return the
first that links to the socket (`plainOrder`, `IsFirst`).  What can keep the two
apart is a link that the buffer does not terminate, in one of the folders that a
plain scan looks at before it is done.
-/
import Mathlib.Data.List.Sort
import Ntmd.Lib.FirstMatch
import Ntmd.Proofs.SteadyFolders

namespace Ntmd

open Bytes FirstMatch LoadMap Run Scanf

namespace ProcessIndex

/-! ### The order of a plain scan -/

/-- The pids of the process folders that `/proc` lists. -/
def listedPids (listing : List ProcEntry) : List Int32 :=
  listing.filterMap fun entry =>
    if entry.isDir && isNumber entry.name then (stoi entry.name).toOption else none

/-- The pids of a list from the largest to the smallest, each of them once. -/
def descending (pids : List Int32) : List Int32 := pids.dedup.insertionSort (· ≥ ·)

/-- The cached pids from front to back, then the others of `/proc` in descending order. -/
def plainOrder (s : ProcessIndex) (proc : SteadyProc) : List Int32 :=
  s.mLRUCache.mDeque ++
    descending ((listedPids proc.listing).filter fun pid => pid ∉ s.mLRUCache.mDeque)

instance : Std.Total (α := Int32) (· ≥ ·) := ⟨fun a b => Int32.le_total b a⟩

instance : IsTrans Int32 (· ≥ ·) := ⟨fun _ _ _ hab hbc => Int32.le_trans hbc hab⟩

theorem mem_descending {pid : Int32} {pids : List Int32} : pid ∈ descending pids ↔ pid ∈ pids := by
  rw [descending, List.mem_insertionSort, List.mem_dedup]

theorem pairwise_descending (pids : List Int32) : (descending pids).Pairwise (· > ·) := by
  have hsorted : (descending pids).Pairwise (· ≥ ·) := List.pairwise_insertionSort _ _
  have hnodup : (descending pids).Nodup :=
    (List.perm_insertionSort _ _).nodup_iff.mpr (List.nodup_dedup _)
  refine (hsorted.and hnodup).imp fun hab => ?_
  exact Int32.lt_of_le_of_ne hab.1 hab.2.symm

theorem nodup_of_descending {pids : List Int32} (h : pids.Pairwise (· > ·)) : pids.Nodup :=
  h.imp fun hab => (Int32.ne_of_lt hab).symm

/-- There is one strictly descending list of given elements. -/
theorem eq_of_descending {l l' : List Int32} (h : l.Pairwise (· > ·)) (h' : l'.Pairwise (· > ·))
    (hmem : ∀ pid, pid ∈ l ↔ pid ∈ l') : l = l' := by
  have hperm : l.Perm l' :=
    (List.perm_ext_iff_of_nodup (nodup_of_descending h) (nodup_of_descending h')).mpr hmem
  exact hperm.eq_of_pairwise (fun a b _ _ hab hba => absurd hab (Int32.lt_asymm hba)) h h'

/-! ### The order of the sorted search -/

theorem mem_insertSorted {pid q : Int32} : ∀ {pids : List Int32},
    q ∈ insertSorted pid pids ↔ q = pid ∨ q ∈ pids := by
  intro pids
  induction pids with
  | nil => simp [insertSorted]
  | cons p ps ih =>
      rw [insertSorted]
      split
      · rw [List.mem_cons]
      · split
        · rename_i heq
          rw [heq, List.mem_cons, ← or_assoc, or_self]
        · rw [List.mem_cons, ih, List.mem_cons, or_left_comm]

theorem pairwise_insertSorted (pid : Int32) : ∀ {pids : List Int32}, pids.Pairwise (· > ·) →
    (insertSorted pid pids).Pairwise (· > ·) := by
  intro pids
  induction pids with
  | nil => intro _; simp [insertSorted]
  | cons p ps ih =>
      intro h
      obtain ⟨hp, hps⟩ := List.pairwise_cons.mp h
      rw [insertSorted]
      split
      · rename_i hlt
        refine List.pairwise_cons.mpr ⟨fun q hq => ?_, h⟩
        rcases List.mem_cons.mp hq with rfl | hq
        · exact hlt
        · exact Int32.lt_trans (hp q hq) hlt
      · split
        · exact h
        · rename_i hnlt hne
          refine List.pairwise_cons.mpr ⟨fun q hq => ?_, ih hps⟩
          rcases mem_insertSorted.mp hq with rfl | hq
          · exact Int32.lt_of_le_of_ne (Int32.not_lt.mp hnlt) (Ne.symm hne)
          · exact hp q hq

/-- The pids sorted by `std::set`. -/
theorem foldl_insertSorted (pids : List Int32) :
    pids.foldl (fun ps pid => insertSorted pid ps) [] = descending pids := by
  have key : ∀ (l acc : List Int32), acc.Pairwise (· > ·) →
      (l.foldl (fun ps pid => insertSorted pid ps) acc).Pairwise (· > ·) ∧
        ∀ q, q ∈ l.foldl (fun ps pid => insertSorted pid ps) acc ↔ q ∈ l ∨ q ∈ acc := by
    intro l
    induction l with
    | nil => intro acc h; exact ⟨h, by simp⟩
    | cons pid l ih =>
        intro acc h
        obtain ⟨hsorted, hmem⟩ := ih _ (pairwise_insertSorted pid h)
        refine ⟨hsorted, fun q => ?_⟩
        rw [List.foldl_cons, hmem, mem_insertSorted, List.mem_cons, or_left_comm, or_assoc]
  obtain ⟨hsorted, hmem⟩ := key pids [] List.Pairwise.nil
  refine eq_of_descending hsorted (pairwise_descending pids) fun q => ?_
  rw [hmem, mem_descending]
  simp

/-- `std::stoi` reads a pid back. -/
theorem stoi_pidStr (pid : Int32) : stoi (pidStr pid) = .ok pid := by
  have hread := readDec_decimalInt pid.toInt (stops_nil isDigit)
  rw [List.append_nil] at hread
  rw [stoi, pidStr, hread]
  simp only
  rw [if_pos ⟨pid.le_toInt, pid.toInt_lt⟩, Int32.ofInt_toInt]

theorem uncachedPids_eq (cache : LRUArray Int32) : ∀ {listing : List ProcEntry},
    (∀ entry ∈ listing, entry.isDir = true → isNumber entry.name = true →
      ∃ pid, entry.name = pidStr pid) →
    uncachedPids cache listing =
      .ok ((listedPids listing).filter fun pid => pid ∉ cache.mDeque) := by
  intro listing
  induction listing with
  | nil => intro _; rfl
  | cons entry listing ih =>
      intro hnames
      obtain ⟨hentry, hrest⟩ := List.forall_mem_cons.mp hnames
      rw [uncachedPids, listedPids, List.filterMap_cons]
      split
      · rename_i hnumber
        obtain ⟨hdir, hname⟩ := Bool.and_eq_true_iff.mp hnumber
        obtain ⟨pid, hpid⟩ := hentry hdir hname
        rw [hpid, stoiOrDie, stoi_pidStr, ih hrest]
        simp only [bind, Except.bind, Except.toOption]
        rw [List.filter_cons, LRUArray.contains]
        by_cases hcached : pid ∈ cache.mDeque
        · rw [if_pos (decide_eq_true hcached), if_neg (by simp [hcached])]
          rfl
        · rw [if_neg (by simp [hcached]), if_pos (decide_eq_true hcached)]
          rfl
      · rw [ih hrest]
        rfl

/-! ### The two loops -/

/-- The pid owns the socket that is looked for. -/
abbrev Owner (proc : SteadyProc) (target : UInt64) (pid : Int32) : Prop :=
  LinksTo proc.toProc pid target

/-- The buffer terminates the links of every folder that a plain scan looks at. -/
def AllTerminated (proc : SteadyProc) (target : UInt64) (pids : List Int32) : Prop :=
  ∀ pid, Reached (Owner proc target) pids pid → Terminated (proc.pidDir (pidStr pid))

variable {proc : SteadyProc} {target : UInt64}

theorem allTerminated_nil : AllTerminated proc target [] :=
  fun _ h => absurd h not_reached_nil

theorem allTerminated_cons_iff {pid : Int32} {pids : List Int32} :
    AllTerminated proc target (pid :: pids) ↔
      Terminated (proc.pidDir (pidStr pid)) ∧
        (¬ Owner proc target pid → AllTerminated proc target pids) := by
  constructor
  · intro h
    exact ⟨h pid (reached_cons.mpr (Or.inl rfl)),
      fun hnot q hq => h q (reached_cons.mpr (Or.inr ⟨hnot, hq⟩))⟩
  · rintro ⟨hpid, hpids⟩ q hq
    rcases reached_cons.mp hq with rfl | ⟨hnot, hq⟩
    · exact hpid
    · exact hpids hnot q hq

theorem allTerminated_append_iff {pids pids' : List Int32} :
    AllTerminated proc target (pids ++ pids') ↔
      AllTerminated proc target pids ∧
        ((∀ pid ∈ pids, ¬ Owner proc target pid) → AllTerminated proc target pids') := by
  constructor
  · intro h
    exact ⟨fun q hq => h q (reached_append.mpr (Or.inl hq)),
      fun hnot q hq => h q (reached_append.mpr (Or.inr ⟨hnot, hq⟩))⟩
  · rintro ⟨hpids, hpids'⟩ q hq
    rcases reached_append.mp hq with hq | ⟨hnot, hq⟩
    · exact hpids q hq
    · exact hpids' hnot q hq

/-- **The sorted search finds the first owner**, unless a buffer is not terminated. -/
theorem sortedReads_spec (h0 : target ≠ 0) : ∀ (pids : List Int32),
    (AllTerminated proc target pids → ∃ l owner, sortedReads proc.toProc target pids = .ok l ∧
      IsFirst (Owner proc target) pids owner ∧
      foundIn target l = owner.map (processAt proc.toProc)) ∧
    (¬ AllTerminated proc target pids → ∃ e, sortedReads proc.toProc target pids = .error e) := by
  intro pids
  induction pids with
  | nil =>
      exact ⟨fun _ => ⟨[], none, rfl, isFirst_nil, by simp [foundIn, last]⟩,
        fun h => absurd allTerminated_nil h⟩
  | cons pid pids ih =>
      rw [sortedReads, allTerminated_cons_iff]
      by_cases hpid : Terminated (proc.pidDir (pidStr pid))
      · obtain ⟨l, hl, hfound, hnone⟩ := dirReads_of_terminated h0 hpid
        rw [hl, and_iff_right hpid]
        simp only
        by_cases howner : Owner proc target pid
        · rw [hfound howner]
          refine ⟨fun _ => ⟨l, some pid, rfl, isFirst_cons_of_pos howner pids, hfound howner⟩,
            fun h => absurd (fun hnot => absurd howner hnot) h⟩
        · rw [hnone howner, forall_prop_of_true howner]
          refine ⟨fun hpids => ?_, fun hpids => ?_⟩
          · obtain ⟨l', owner, hl', hfirst, hfound'⟩ := ih.1 hpids
            refine ⟨l ++ l', owner, by rw [hl']; rfl, hfirst.cons_of_neg howner, ?_⟩
            rw [foundIn_append, hnone howner, hfound', Option.or_none]
          · obtain ⟨e, he⟩ := ih.2 hpids
            exact ⟨e, by rw [he]; rfl⟩
      · rw [dirReads_of_not_terminated hpid]
        exact ⟨fun h => absurd h.1 hpid, fun _ => ⟨_, rfl⟩⟩

/-- A pid whose folder has gone. -/
theorem terminated_of_expired (target : UInt64) {pid : Int32} (h : proc.fdExists (pidStr pid) = false) :
    Terminated (proc.pidDir (pidStr pid)) ∧ ¬ Owner proc target pid := by
  rw [proc.fdExists_eq, Option.isSome_eq_false_iff, Option.isNone_iff_eq_none] at h
  refine ⟨fun entries hfd => ?_, not_linksTo_of_no_fd h⟩
  rw [h] at hfd
  exact absurd hfd (by simp)

/-- **The search of the cache finds the first owner among the cached**, or it finds out which of
them have expired. -/
theorem cacheReads_spec (h0 : target ≠ 0) : ∀ (pids : List Int32),
    (AllTerminated proc target pids → ∃ r owner, cacheReads proc.toProc target pids = .ok r ∧
      IsFirst (Owner proc target) pids owner ∧
      foundIn target r.1 = owner.map (processAt proc.toProc) ∧
      (owner = none → r.2 = pids.filter fun pid => !proc.fdExists (pidStr pid))) ∧
    (¬ AllTerminated proc target pids → ∃ e, cacheReads proc.toProc target pids = .error e) := by
  intro pids
  induction pids with
  | nil =>
      exact ⟨fun _ => ⟨([], []), none, rfl, isFirst_nil, by simp [foundIn, last], fun _ => rfl⟩,
        fun h => absurd allTerminated_nil h⟩
  | cons pid pids ih =>
      rw [cacheReads, allTerminated_cons_iff]
      cases hexists : proc.fdExists (pidStr pid) with
      | true =>
          rw [if_pos rfl]
          by_cases hpid : Terminated (proc.pidDir (pidStr pid))
          · obtain ⟨l, hl, hfound, hnone⟩ := dirReads_of_terminated h0 hpid
            rw [hl, and_iff_right hpid]
            simp only
            by_cases howner : Owner proc target pid
            · rw [hfound howner]
              refine ⟨fun _ => ⟨(l, []), some pid, rfl, isFirst_cons_of_pos howner pids,
                hfound howner, by simp⟩, fun h => absurd (fun hnot => absurd howner hnot) h⟩
            · rw [hnone howner, forall_prop_of_true howner]
              refine ⟨fun hpids => ?_, fun hpids => ?_⟩
              · obtain ⟨r, owner, hr, hfirst, hfound', hexpired⟩ := ih.1 hpids
                refine ⟨(l ++ r.1, r.2), owner, by rw [hr]; rfl, hfirst.cons_of_neg howner, ?_, ?_⟩
                · rw [foundIn_append, hnone howner, hfound', Option.or_none]
                · intro hno
                  rw [hexpired hno, List.filter_cons_of_neg (by simp [hexists])]
              · obtain ⟨e, he⟩ := ih.2 hpids
                exact ⟨e, by rw [he]; rfl⟩
          · rw [dirReads_of_not_terminated hpid]
            exact ⟨fun h => absurd h.1 hpid, fun _ => ⟨_, rfl⟩⟩
      | false =>
          obtain ⟨hpid, howner⟩ := terminated_of_expired target hexists
          rw [if_neg (by simp), and_iff_right hpid, forall_prop_of_true howner]
          refine ⟨fun hpids => ?_, fun hpids => ?_⟩
          · obtain ⟨r, owner, hr, hfirst, hfound, hexpired⟩ := ih.1 hpids
            refine ⟨(r.1, pid :: r.2), owner, by rw [hr]; rfl, hfirst.cons_of_neg howner, hfound, ?_⟩
            intro hno
            rw [hexpired hno, List.filter_cons_of_pos (by simp [hexists])]
          · obtain ⟨e, he⟩ := ih.2 hpids
            exact ⟨e, by rw [he]; rfl⟩

theorem allTerminated_filter {q : Int32 → Bool} {pids : List Int32}
    (hout : ∀ pid ∈ pids, q pid = false → proc.fdExists (pidStr pid) = false) :
    AllTerminated proc target (pids.filter q) ↔ AllTerminated proc target pids := by
  have hnot : ∀ pid ∈ pids, q pid = false → ¬ Owner proc target pid :=
    fun pid hpid hq => (terminated_of_expired target (hout pid hpid hq)).2
  refine forall_congr' fun pid => ?_
  rw [reached_filter hnot]
  constructor
  · intro h hreached
    cases hq : q pid with
    | true => exact h ⟨hreached, hq⟩
    | false => exact (terminated_of_expired target (hout pid hreached.mem hq)).1
  · intro h hreached
    exact h hreached.1

/-! ### The search -/

/-- What the cache keeps of the cached pids: those whose folder is still there. -/
theorem mem_cacheKept {s : ProcessIndex} (hnodup : s.mLRUCache.mDeque.Nodup) {expired : List Int32}
    (hexpired : expired = s.mLRUCache.mDeque.filter fun pid => !proc.fdExists (pidStr pid))
    {pid : Int32} : pid ∈ (expired.foldl LRUArray.erase s.mLRUCache).mDeque ↔
      pid ∈ s.mLRUCache.mDeque ∧ proc.fdExists (pidStr pid) = true := by
  rw [LRUArray.mDeque_foldl_erase expired hnodup, List.mem_filter, hexpired]
  refine and_congr_right fun hcached => ?_
  simp [hcached]

/-- The pids left for the sorted search are the others of the plain scan, and expired ones. -/
theorem others_eq {s : ProcessIndex} (hnodup : s.mLRUCache.mDeque.Nodup) {expired : List Int32}
    (hexpired : expired = s.mLRUCache.mDeque.filter fun pid => !proc.fdExists (pidStr pid)) :
    descending ((listedPids proc.listing).filter fun pid => pid ∉ s.mLRUCache.mDeque) =
      (descending ((listedPids proc.listing).filter fun pid =>
        pid ∉ (expired.foldl LRUArray.erase s.mLRUCache).mDeque)).filter
          fun pid => pid ∉ s.mLRUCache.mDeque := by
  refine eq_of_descending (pairwise_descending _) ((pairwise_descending _).filter _) fun pid => ?_
  rw [mem_descending, List.mem_filter, List.mem_filter, mem_descending, List.mem_filter,
    decide_eq_true_iff, decide_eq_true_iff, mem_cacheKept hnodup hexpired]
  tauto

/-- **The search finds the first owner in the order of a plain scan**, unless a buffer is not
terminated. -/
theorem searchReads_spec (h0 : target ≠ 0) {s : ProcessIndex}
    (hnodup : s.mLRUCache.mDeque.Nodup) :
    (AllTerminated proc target (plainOrder s proc) →
      ∃ r owner, searchReads s proc.toProc target = .ok r ∧
        IsFirst (Owner proc target) (plainOrder s proc) owner ∧
        foundIn target r.1 = owner.map (processAt proc.toProc) ∧
        r.2.mSize = s.mLRUCache.mSize ∧
        (owner = none → ∀ pid ∈ r.2.mDeque, proc.fdExists (pidStr pid) = true)) ∧
    (¬ AllTerminated proc target (plainOrder s proc) →
      ∃ e, searchReads s proc.toProc target = .error e) := by
  obtain ⟨hcacheOk, hcacheError⟩ :=
    @cacheReads_spec proc target h0 s.mLRUCache.mDeque
  rw [searchReads, plainOrder, allTerminated_append_iff]
  by_cases hcached : AllTerminated proc target s.mLRUCache.mDeque
  swap
  · obtain ⟨e, he⟩ := hcacheError hcached
    rw [he]
    exact ⟨fun h => absurd h.1 hcached, fun _ => ⟨e, rfl⟩⟩
  obtain ⟨r, owner, hr, hfirst, hfound, hexpired⟩ := hcacheOk hcached
  rw [hr, and_iff_right hcached]
  simp only
  cases owner with
  | some pid =>
      rw [hfound]
      refine ⟨fun _ => ⟨_, some pid, rfl, hfirst.append_left _, hfound, rfl, by simp⟩, fun h => ?_⟩
      exact absurd (fun hnot => absurd hfirst.1 (hnot pid hfirst.2.mem)) h
  | none =>
      have hkept : ∀ pid, pid ∈ (r.2.foldl LRUArray.erase s.mLRUCache).mDeque ↔
          pid ∈ s.mLRUCache.mDeque ∧ proc.fdExists (pidStr pid) = true :=
        fun pid => mem_cacheKept hnodup (hexpired rfl)
      -- An expired pid that is listed again has no folder to scan.
      have hout : ∀ pid ∈ descending ((listedPids proc.listing).filter fun pid =>
          pid ∉ (r.2.foldl LRUArray.erase s.mLRUCache).mDeque),
          decide (pid ∉ s.mLRUCache.mDeque) = false → proc.fdExists (pidStr pid) = false := by
        intro pid hpid hq
        rw [mem_descending, List.mem_filter, decide_eq_true_iff, hkept] at hpid
        rw [decide_eq_false_iff_not, not_not] at hq
        exact Bool.eq_false_iff.mpr fun hexists => hpid.2 ⟨hq, hexists⟩
      rw [hfound, proc.entries_eq]
      simp only [Option.map_none, Option.isSome_none, Bool.false_eq_true, if_false]
      rw [uncachedPids_eq _ proc.names]
      simp only [foldl_insertSorted]
      rw [others_eq hnodup (hexpired rfl), allTerminated_filter hout]
      have hfirst' : ∀ pid ∈ s.mLRUCache.mDeque, ¬ Owner proc target pid := hfirst
      rw [forall_prop_of_true hfirst']
      obtain ⟨hsortedOk, hsortedError⟩ := @sortedReads_spec proc target h0
        (descending ((listedPids proc.listing).filter fun pid =>
          pid ∉ (r.2.foldl LRUArray.erase s.mLRUCache).mDeque))
      refine ⟨fun hothers => ?_, fun hothers => ?_⟩
      · obtain ⟨l, owner, hl, hothers', hfound'⟩ := hsortedOk hothers
        refine ⟨(r.1 ++ l, r.2.foldl LRUArray.erase s.mLRUCache), owner, by rw [hl]; rfl,
          hfirst.append_right ((isFirst_filter fun pid hpid hq =>
            (terminated_of_expired target (hout pid hpid hq)).2).mpr hothers'), ?_,
          LRUArray.mSize_foldl_erase _ _, fun _ pid hpid => ((hkept pid).mp hpid).2⟩
        rw [foundIn_append, hfound, hfound', Option.map_none, Option.or_none]
      · obtain ⟨e, he⟩ := hsortedError hothers
        exact ⟨e, by rw [he]; rfl⟩

end ProcessIndex

end Ntmd
