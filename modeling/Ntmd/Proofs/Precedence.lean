/-
Where the settings come from.

A token of the command line is read as an option in some positions and as a value in the
others (`OptionAt`); a setting is the value of the last of its options, or else what the last
line of the file for its key says, or else the default (`Precedence`).  Both are told here
without the loops: `Parses.found` and `lookup_lines` find them in what the loops leave, and
`configure_precedence` puts them together over the merge.
-/
import Ntmd.Main
import Ntmd.Proofs.NumericSettings

namespace Ntmd

open Bytes Scanf

/-! ### The command line -/

/-- The options without a value. -/
def flagOptions : List Bytes := [ascii "--daemon", ascii "-x", ascii "--debug"]

/-- The options with one. -/
def valueOptions : List Bytes :=
  [ascii "-i", ascii "--interval", ascii "-p", ascii "--port", ascii "-c", ascii "--config",
    ascii "--interface", ascii "--db-path"]

/-- The positions where a token is read as an option: the first one, the one after a flag, and
the second one after an option with a value. -/
inductive OptionAt : List Bytes → Nat → Prop
  | first {argv : List Bytes} : OptionAt argv 0
  | afterFlag {flag : Bytes} {rest : List Bytes} {i : Nat} :
      flag ∈ flagOptions → OptionAt rest i → OptionAt (flag :: rest) (i + 1)
  | afterValue {option value : Bytes} {rest : List Bytes} {i : Nat} :
      option ∈ valueOptions → OptionAt rest i → OptionAt (option :: value :: rest) (i + 2)

/-- One of the options is at `i`. -/
def ReadAt (argv options : List Bytes) (i : Nat) : Prop :=
  OptionAt argv i ∧ ∃ option ∈ options, argv[i]? = some option

/-- None of the options is read. -/
def NoOption (argv options : List Bytes) : Prop := ∀ i, ¬ ReadAt argv options i

/-- The value of the last of the options that is read. -/
def LastValue (argv options : List Bytes) (value : Bytes) : Prop :=
  ∃ i, ReadAt argv options i ∧ argv[i + 1]? = some value ∧ ∀ j > i, ¬ ReadAt argv options j

theorem not_mem_valueOptions {flag : Bytes} (h : flag ∈ flagOptions) : flag ∉ valueOptions := by
  revert flag
  decide

theorem optionAt_flag_iff {flag : Bytes} {rest : List Bytes} (h : flag ∈ flagOptions) {i : Nat} :
    OptionAt (flag :: rest) i ↔ i = 0 ∨ ∃ j, i = j + 1 ∧ OptionAt rest j := by
  constructor
  · intro hat
    cases hat with
    | first => exact Or.inl rfl
    | afterFlag _ hrest => exact Or.inr ⟨_, rfl, hrest⟩
    | afterValue hvalue => exact absurd hvalue (not_mem_valueOptions h)
  · rintro (rfl | ⟨j, rfl, hrest⟩)
    · exact .first
    · exact .afterFlag h hrest

theorem optionAt_value_iff {option value : Bytes} {rest : List Bytes} (h : option ∈ valueOptions)
    {i : Nat} :
    OptionAt (option :: value :: rest) i ↔ i = 0 ∨ ∃ j, i = j + 2 ∧ OptionAt rest j := by
  constructor
  · intro hat
    cases hat with
    | first => exact Or.inl rfl
    | afterFlag hflag => exact absurd h (not_mem_valueOptions hflag)
    | afterValue _ hrest => exact Or.inr ⟨_, rfl, hrest⟩
  · rintro (rfl | ⟨j, rfl, hrest⟩)
    · exact .first
    · exact .afterValue h hrest

/-- The tokens that are taken together: a flag, or an option and its value. -/
inductive Taken : List Bytes → Prop
  | flag {flag : Bytes} : flag ∈ flagOptions → Taken [flag]
  | value {option value : Bytes} : option ∈ valueOptions → Taken [option, value]

theorem Taken.optionAt_iff {taken rest : List Bytes} (h : Taken taken) {i : Nat} :
    OptionAt (taken ++ rest) i ↔ i = 0 ∨ ∃ j, i = taken.length + j ∧ OptionAt rest j := by
  cases h with
  | flag hflag =>
      simp only [List.cons_append, List.nil_append, List.length_singleton, Nat.add_comm 1]
      exact optionAt_flag_iff hflag
  | value hvalue =>
      simp only [List.cons_append, List.nil_append, List.length_cons, List.length_nil,
        Nat.add_comm (0 + 1 + 1)]
      exact optionAt_value_iff hvalue

theorem Taken.readAt_iff {taken rest options : List Bytes} (h : Taken taken) {i : Nat} :
    ReadAt (taken ++ rest) options i ↔ (i = 0 ∧ ∃ option ∈ options, taken.head? = some option) ∨
      ∃ j, i = taken.length + j ∧ ReadAt rest options j := by
  have hpos : 0 < taken.length := by cases h <;> exact Nat.succ_pos _
  have hhead : (taken ++ rest)[0]? = taken.head? := by
    rw [List.getElem?_append_left hpos, List.head?_eq_getElem?]
  have htail : ∀ j, (taken ++ rest)[taken.length + j]? = rest[j]? := fun j => by
    rw [List.getElem?_append_right (Nat.le_add_right _ _), Nat.add_sub_cancel_left]
  unfold ReadAt
  rw [h.optionAt_iff]
  constructor
  · rintro ⟨rfl | ⟨j, rfl, hat⟩, hoption⟩
    · rw [hhead] at hoption
      exact Or.inl ⟨rfl, hoption⟩
    · rw [htail] at hoption
      exact Or.inr ⟨j, rfl, hat, hoption⟩
  · rintro (⟨rfl, hoption⟩ | ⟨j, rfl, hat, hoption⟩)
    · exact ⟨Or.inl rfl, by rwa [hhead]⟩
    · exact ⟨Or.inr ⟨j, rfl, hat⟩, by rwa [htail]⟩

section

variable {taken rest options : List Bytes} (h : Taken taken)
include h

theorem Taken.noOption (hhead : ∀ option ∈ options, taken.head? ≠ some option)
    (hrest : NoOption rest options) : NoOption (taken ++ rest) options := by
  intro i hread
  rcases h.readAt_iff.mp hread with ⟨-, option, hoption, heq⟩ | ⟨j, -, hj⟩
  · exact hhead option hoption heq
  · exact hrest j hj

theorem Taken.lastValue {value : Bytes} (hlast : LastValue rest options value) :
    LastValue (taken ++ rest) options value := by
  obtain ⟨i, hread, hvalue, hafter⟩ := hlast
  refine ⟨taken.length + i, h.readAt_iff.mpr (Or.inr ⟨i, rfl, hread⟩), ?_, fun j hj hread' => ?_⟩
  · rw [List.getElem?_append_right (by omega), ← hvalue]
    congr 1
    omega
  · rcases h.readAt_iff.mp hread' with ⟨rfl, -⟩ | ⟨k, rfl, hk⟩
    · exact absurd hj (Nat.not_lt_zero _)
    · exact hafter k (by omega) hk

end

/-- The value of an option behind which there is no other. -/
theorem lastValue_head {option value : Bytes} {rest options : List Bytes}
    (hvalue : option ∈ valueOptions) (hoption : option ∈ options) (hrest : NoOption rest options) :
    LastValue (option :: value :: rest) options value := by
  have htaken : Taken [option, value] := .value hvalue
  refine ⟨0, ⟨.first, option, hoption, rfl⟩, rfl, fun j hj hread => ?_⟩
  rcases htaken.readAt_iff.mp hread with ⟨rfl, -⟩ | ⟨k, -, hk⟩
  · exact absurd hj (Nat.lt_irrefl 0)
  · exact hrest k hk

theorem LastValue.unique {argv options : List Bytes} {v w : Bytes} (hv : LastValue argv options v)
    (hw : LastValue argv options w) : v = w := by
  obtain ⟨i, hi, hvi, hafteri⟩ := hv
  obtain ⟨j, hj, hwj, hafterj⟩ := hw
  have heq : i = j := by
    rcases Nat.lt_trichotomy i j with hlt | heq | hgt
    · exact absurd hj (hafteri j hlt)
    · exact heq
    · exact absurd hi (hafterj i hgt)
  rw [heq, hwj] at hvi
  exact (Option.some.inj hvi).symm

/-- **The value of an option is not read as one**, whatever it spells. -/
theorem ReadAt.not_optionAt_succ {argv : List Bytes} {i : Nat}
    (h : ReadAt argv valueOptions i) : ¬ OptionAt argv (i + 1) := by
  obtain ⟨hat, option, hoption, hget⟩ := h
  induction hat with
  | first =>
      intro hnext
      cases hnext with
      | afterFlag hflag =>
          cases hget
          exact not_mem_valueOptions hflag hoption
  | afterFlag hflag _ ih =>
      intro hnext
      rw [optionAt_flag_iff hflag] at hnext
      obtain hzero | ⟨j, hj, hrest⟩ := hnext
      · exact absurd hzero (Nat.succ_ne_zero _)
      · exact ih hget (Nat.succ.inj hj ▸ hrest)
  | @afterValue _ _ _ i hvalue _ ih =>
      intro hnext
      rw [optionAt_value_iff hvalue] at hnext
      obtain hzero | ⟨j, hj, hrest⟩ := hnext
      · exact absurd hzero (Nat.succ_ne_zero _)
      · have heq : i + 1 = j := by omega
        exact ih hget (heq ▸ hrest)

/-! ### What the parser stores -/

/-- The fields that an option with a value stores. -/
inductive ArgTarget
  | interval
  | serverPort
  | configPath
  | interface
  | dbPath
  deriving DecidableEq, Repr

namespace ArgTarget

/-- The options that store it. -/
def options : ArgTarget → List Bytes
  | interval => [ascii "-i", ascii "--interval"]
  | serverPort => [ascii "-p", ascii "--port"]
  | configPath => [ascii "-c", ascii "--config"]
  | interface => [ascii "--interface"]
  | dbPath => [ascii "--db-path"]

/-- What they make of the arguments. -/
def Sets (args args' : Args) (value : Bytes) : ArgTarget → Prop
  | interval => ∃ n, stoi value = .ok n ∧ args' = { args with interval := some n }
  | serverPort =>
      ∃ n, stoi value = .ok n ∧ args' = { args with serverPort := some (UInt16.ofInt n.toInt) }
  | configPath => value ≠ [] ∧ args' = { args with configPath := value }
  | interface => args' = { args with interface := some value }
  | dbPath => args' = { args with dbPath := some value }

theorem options_subset : ∀ s : ArgTarget, ∀ option ∈ s.options, option ∈ valueOptions := by
  intro s
  cases s <;> decide

/-- No option stores two of them. -/
theorem eq_of_mem_options : ∀ s t : ArgTarget, ∀ option ∈ s.options, option ∈ t.options → s = t := by
  intro s t
  cases s <;> cases t <;> decide

/-- What the options of `s` leave as it was. -/
structure Keeps (s : ArgTarget) (args args' : Args) : Prop where
  daemon : args'.daemon = args.daemon
  debug : args'.debug = args.debug
  interval : s ≠ interval → args'.interval = args.interval
  serverPort : s ≠ serverPort → args'.serverPort = args.serverPort
  configPath : s ≠ configPath → args'.configPath = args.configPath
  interface : s ≠ interface → args'.interface = args.interface
  dbPath : s ≠ dbPath → args'.dbPath = args.dbPath

theorem Sets.keeps {s : ArgTarget} {args args' : Args} {value : Bytes} (h : s.Sets args args' value) :
    s.Keeps args args' := by
  cases s with
  | interval | serverPort =>
      obtain ⟨n, -, rfl⟩ := h
      constructor <;> simp
  | configPath =>
      obtain ⟨-, rfl⟩ := h
      constructor <;> simp
  | interface | dbPath =>
      obtain rfl := h
      constructor <;> simp

end ArgTarget

open ArgTarget

section

variable {fs : FileSystem} {args args' : Args} {value : Bytes}

theorem sets_of_setInterval (h : args.setInterval value = .ok args') :
    interval.Sets args args' value := by
  rw [Args.setInterval] at h
  split at h
  · rename_i n hn
    exact ⟨n, hn, (Except.ok.inj h).symm⟩
  · exact absurd h (by simp)

theorem sets_of_setPort (h : args.setPort value = .ok args') :
    serverPort.Sets args args' value := by
  rw [Args.setPort] at h
  split at h
  · rename_i n hn
    exact ⟨n, hn, (Except.ok.inj h).symm⟩
  · exact absurd h (by simp)

theorem sets_of_setConfig (h : args.setConfig fs value = .ok args') :
    configPath.Sets args args' value := by
  rw [Args.setConfig] at h
  split at h
  · exact absurd h (by simp)
  · exact absurd h (by simp)
  · rename_i hfile
    refine ⟨?_, (Except.ok.inj h).symm⟩
    -- An empty path names no file.
    rintro rfl
    rw [fs.empty_path] at hfile
    exact absurd hfile (by simp)

theorem sets_of_setDbPath (h : args.setDbPath fs value = .ok args') :
    dbPath.Sets args args' value := by
  rw [Args.setDbPath] at h
  split at h
  · exact absurd h (by simp)
  · exact (Except.ok.inj h).symm

/-- What an option stores, when it takes its value. -/
theorem setter_cases {option : Bytes} {set : Args → Bytes → Except ArgError Args}
    (h : Args.setter fs option = some set) (hset : set args value = .ok args') :
    ∃ s : ArgTarget, option ∈ s.options ∧ s.Sets args args' value := by
  rw [Args.setter] at h
  split at h
  · rename_i hoption
    cases h
    exact ⟨interval, List.mem_pair.mpr hoption, sets_of_setInterval hset⟩
  split at h
  · rename_i hoption
    cases h
    exact ⟨serverPort, List.mem_pair.mpr hoption, sets_of_setPort hset⟩
  split at h
  · rename_i hoption
    cases h
    exact ⟨configPath, List.mem_pair.mpr hoption, sets_of_setConfig hset⟩
  split at h
  · rename_i hoption
    cases h
    exact ⟨interface, List.mem_singleton.mpr hoption, (Except.ok.inj hset).symm⟩
  split at h
  · rename_i hoption
    cases h
    exact ⟨dbPath, List.mem_singleton.mpr hoption, sets_of_setDbPath hset⟩
  · exact absurd h (by simp)

end

/-- The ways of the parser through arguments that it accepts. -/
inductive Parses : Args → List Bytes → Args → Prop
  | done {args : Args} : Parses args [] args
  | daemon {args args' : Args} {rest : List Bytes} :
      Parses { args with daemon := true } rest args' → Parses args (ascii "--daemon" :: rest) args'
  | debug {args args' : Args} {flag : Bytes} {rest : List Bytes} :
      flag ∈ [ascii "-x", ascii "--debug"] → Parses { args with debug := true } rest args' →
        Parses args (flag :: rest) args'
  | value {args args' args'' : Args} {option value : Bytes} {rest : List Bytes} (s : ArgTarget) :
      option ∈ s.options → s.Sets args args' value → Parses args' rest args'' →
        Parses args (option :: value :: rest) args''

theorem parses_of_parse {fs : FileSystem} {args args' : Args} {argv : List Bytes}
    (h : Args.parse fs args argv = .ok args') : Parses args argv args' := by
  induction args, argv using Args.parse.induct fs with
  | case1 args =>
      cases h
      exact .done
  | case2 args option rest hhelp =>
      rw [Args.parse, if_pos hhelp] at h
      exact absurd h (by simp)
  | case3 args rest hhelp ih =>
      rw [Args.parse, if_neg hhelp, if_pos rfl] at h
      exact .daemon (ih h)
  | case4 args option rest hhelp hdaemon hdebug ih =>
      rw [Args.parse, if_neg hhelp, if_neg hdaemon, if_pos hdebug] at h
      exact .debug (List.mem_pair.mpr hdebug) (ih h)
  | case5 args option rest hhelp hdaemon hdebug hnone =>
      rw [Args.parse, if_neg hhelp, if_neg hdaemon, if_neg hdebug, hnone] at h
      exact absurd h (by simp)
  | case6 args option hhelp hdaemon hdebug set hset =>
      rw [Args.parse, if_neg hhelp, if_neg hdaemon, if_neg hdebug, hset] at h
      exact absurd h (by simp)
  | case7 args option hhelp hdaemon hdebug set hset value rest e herror =>
      rw [Args.parse, if_neg hhelp, if_neg hdaemon, if_neg hdebug, hset] at h
      simp only [herror] at h
      exact absurd h (by simp)
  | case8 args option hhelp hdaemon hdebug set hset value rest args₁ hok ih =>
      rw [Args.parse, if_neg hhelp, if_neg hdaemon, if_neg hdebug, hset] at h
      simp only [hok] at h
      obtain ⟨s, hoption, hsets⟩ := setter_cases hset hok
      exact .value s hoption hsets (ih h)

/-- A field of the arguments with its options, and how they read their value. -/
structure ArgField (α : Type) where
  target : ArgTarget
  get : Args → Option α
  read : Bytes → Option α
  get_daemon : ∀ args : Args, get { args with daemon := true } = get args
  get_debug : ∀ args : Args, get { args with debug := true } = get args
  get_own : ∀ args args' value, target.Sets args args' value →
    ∃ x, read value = some x ∧ get args' = some x
  get_other : ∀ s ≠ target, ∀ args args' value, s.Sets args args' value → get args' = get args

namespace ArgField

def interval : ArgField Int32 where
  target := .interval
  get := Args.interval
  read value := (stoi value).toOption
  get_daemon _ := rfl
  get_debug _ := rfl
  get_own := by
    rintro args _ value ⟨n, hn, rfl⟩
    exact ⟨n, by rw [hn]; rfl, rfl⟩
  get_other _ hs _ _ _ h := h.keeps.interval hs

def serverPort : ArgField UInt16 where
  target := .serverPort
  get := Args.serverPort
  read value := (stoi value).toOption.map fun n => UInt16.ofInt n.toInt
  get_daemon _ := rfl
  get_debug _ := rfl
  get_own := by
    rintro args _ value ⟨n, hn, rfl⟩
    exact ⟨UInt16.ofInt n.toInt, by rw [hn]; rfl, rfl⟩
  get_other _ hs _ _ _ h := h.keeps.serverPort hs

/-- An empty path is no path. -/
def configPath : ArgField Bytes where
  target := .configPath
  get args := if args.configPath ≠ [] then some args.configPath else none
  read value := if value ≠ [] then some value else none
  get_daemon _ := rfl
  get_debug _ := rfl
  get_own := by
    rintro args _ value ⟨hne, rfl⟩
    exact ⟨value, if_pos hne, if_pos hne⟩
  get_other _ hs _ _ _ h := by rw [h.keeps.configPath hs]

def interface : ArgField Bytes where
  target := .interface
  get := Args.interface
  read := some
  get_daemon _ := rfl
  get_debug _ := rfl
  get_own := by
    rintro args _ value rfl
    exact ⟨value, rfl, rfl⟩
  get_other _ hs _ _ _ h := h.keeps.interface hs

def dbPath : ArgField Bytes where
  target := .dbPath
  get := Args.dbPath
  read := some
  get_daemon _ := rfl
  get_debug _ := rfl
  get_own := by
    rintro args _ value rfl
    exact ⟨value, rfl, rfl⟩
  get_other _ hs _ _ _ h := h.keeps.dbPath hs

end ArgField

theorem noOption_nil (options : List Bytes) : NoOption [] options := by
  rintro i ⟨-, option, -, hget⟩
  exact absurd hget (by simp)

/-- A flag is none of the options that store a value. -/
theorem noOption_flag {flag : Bytes} {rest : List Bytes} {s : ArgTarget} (hflag : flag ∈ flagOptions)
    (hrest : NoOption rest s.options) : NoOption (flag :: rest) s.options := by
  refine (Taken.flag hflag).noOption ?_ hrest
  rintro option hoption ⟨⟩
  exact not_mem_valueOptions hflag (s.options_subset flag hoption)

/-- The field has the value of the last of its options, as they read it, or what it had before. -/
def Found {α : Type} (F : ArgField α) (argv : List Bytes) (args args' : Args) : Prop :=
  (∃ value x, LastValue argv F.target.options value ∧ F.read value = some x ∧
    F.get args' = some x) ∨ (NoOption argv F.target.options ∧ F.get args' = F.get args)

theorem Found.flag {α : Type} {F : ArgField α} {flag : Bytes} {rest : List Bytes}
    {args args₁ args' : Args} (hflag : flag ∈ flagOptions) (hkeep : F.get args₁ = F.get args)
    (h : Found F rest args₁ args') : Found F (flag :: rest) args args' := by
  obtain ⟨value, x, hlast, hread, hget⟩ | ⟨hnone, hget⟩ := h
  · exact Or.inl ⟨value, x, (Taken.flag hflag).lastValue hlast, hread, hget⟩
  · exact Or.inr ⟨noOption_flag hflag hnone, hget.trans hkeep⟩

theorem Found.value {α : Type} {F : ArgField α} {s : ArgTarget} {option value : Bytes}
    {rest : List Bytes} {args args₁ args' : Args} (hoption : option ∈ s.options)
    (hsets : s.Sets args args₁ value) (h : Found F rest args₁ args') :
    Found F (option :: value :: rest) args args' := by
  have hvalue := s.options_subset option hoption
  obtain ⟨value', x, hlast, hread, hget⟩ | ⟨hnone, hget⟩ := h
  · exact Or.inl ⟨value', x, (Taken.value hvalue).lastValue hlast, hread, hget⟩
  by_cases hs : s = F.target
  · rw [hs] at hoption hsets
    obtain ⟨x, hread, hx⟩ := F.get_own _ _ _ hsets
    exact Or.inl ⟨value, x, lastValue_head hvalue hoption hnone, hread, hget.trans hx⟩
  · refine Or.inr ⟨(Taken.value hvalue).noOption ?_ hnone,
      hget.trans (F.get_other s hs _ _ _ hsets)⟩
    rintro option' hoption' ⟨⟩
    exact hs (eq_of_mem_options s F.target option hoption hoption')

/-- **What the parser leaves in a field.** -/
theorem Parses.found {α : Type} (F : ArgField α) {args args' : Args} {argv : List Bytes}
    (h : Parses args argv args') : Found F argv args args' := by
  induction h with
  | done => exact Or.inr ⟨noOption_nil _, rfl⟩
  | daemon _ ih =>
      have hflag : ascii "--daemon" ∈ flagOptions := by decide
      exact ih.flag hflag (F.get_daemon _)
  | debug hdebug _ ih =>
      have hflag := List.mem_cons_of_mem (ascii "--daemon") hdebug
      exact ih.flag hflag (F.get_debug _)
  | value s hoption hsets _ ih => exact ih.value hoption hsets

/-- A field that flags set. -/
structure FlagField where
  options : List Bytes
  get : Args → Bool
  subset : ∀ flag ∈ options, flag ∈ flagOptions
  get_daemon : ∀ args : Args, get { args with daemon := true } = true ↔
    get args = true ∨ ascii "--daemon" ∈ options
  get_debug : ∀ flag ∈ [ascii "-x", ascii "--debug"], ∀ args : Args,
    get { args with debug := true } = true ↔ get args = true ∨ flag ∈ options
  get_other : ∀ (s : ArgTarget) (args args' : Args), s.Keeps args args' → get args' = get args

namespace FlagField

def daemon : FlagField where
  options := [ascii "--daemon"]
  get := Args.daemon
  subset := by decide
  get_daemon _ := by simp
  get_debug := by
    intro flag hflag args
    have hne : flag ∉ [ascii "--daemon"] := by
      revert flag
      decide
    simp [hne]
  get_other _ _ _ h := h.daemon

def debug : FlagField where
  options := [ascii "-x", ascii "--debug"]
  get := Args.debug
  subset := by decide
  get_daemon args := by
    have hne : ascii "--daemon" ∉ [ascii "-x", ascii "--debug"] := by decide
    simp [hne]
  get_debug flag hflag args := by simp [hflag]
  get_other _ _ _ h := h.debug

end FlagField

theorem Taken.exists_readAt_iff {taken rest options : List Bytes} (h : Taken taken) :
    (∃ i, ReadAt (taken ++ rest) options i) ↔
      (∃ option ∈ options, taken.head? = some option) ∨ ∃ i, ReadAt rest options i := by
  constructor
  · rintro ⟨i, hread⟩
    rcases h.readAt_iff.mp hread with ⟨-, hhead⟩ | ⟨j, -, hj⟩
    · exact Or.inl hhead
    · exact Or.inr ⟨j, hj⟩
  · rintro (hhead | ⟨j, hj⟩)
    · exact ⟨0, h.readAt_iff.mpr (Or.inl ⟨rfl, hhead⟩)⟩
    · exact ⟨_, h.readAt_iff.mpr (Or.inr ⟨j, rfl, hj⟩)⟩

/-- A flag is set when one of its options is read. -/
theorem Parses.flag (F : FlagField) {args args' : Args} {argv : List Bytes}
    (h : Parses args argv args') :
    F.get args' = true ↔ F.get args = true ∨ ∃ i, ReadAt argv F.options i := by
  have hhead : ∀ (token : Bytes) (rest : List Bytes),
      (∃ option ∈ F.options, (token :: rest).head? = some option) ↔ token ∈ F.options := by
    intro token rest
    simp
  induction h with
  | done =>
      refine (or_iff_left ?_).symm
      rintro ⟨i, hread⟩
      exact noOption_nil F.options i hread
  | daemon _ ih =>
      have hflag : ascii "--daemon" ∈ flagOptions := by decide
      refine ih.trans ?_
      rw [F.get_daemon, or_assoc, ← hhead _ [], ← (Taken.flag hflag).exists_readAt_iff]
      rfl
  | debug hdebug _ ih =>
      have hflag := List.mem_cons_of_mem (ascii "--daemon") hdebug
      refine ih.trans ?_
      rw [F.get_debug _ hdebug, or_assoc, ← hhead _ [], ← (Taken.flag hflag).exists_readAt_iff]
      rfl
  | @value args args₁ args' option value rest s hoption hsets _ ih =>
      have hvalue := s.options_subset option hoption
      have hother : option ∉ F.options := fun hmem => not_mem_valueOptions (F.subset _ hmem) hvalue
      have htaken : Taken [option, value] := .value hvalue
      have hread : (∃ i, ReadAt ([option, value] ++ rest) F.options i) ↔
          ∃ i, ReadAt rest F.options i := by
        rw [htaken.exists_readAt_iff, hhead, or_iff_right hother]
      refine ih.trans ?_
      rw [F.get_other s _ _ hsets.keeps, ← hread]
      rfl

/-! ### The file -/

/-- The value of the last line for a key. -/
def LastLine (lines : List Bytes) (key value : Bytes) : Prop :=
  ∃ before line after, lines = before ++ line :: after ∧
    Config.itemOf line = some (key, value) ∧ ∀ l ∈ after, ∀ v, Config.itemOf l ≠ some (key, v)

/-- There is no line for the key. -/
def NoLine (lines : List Bytes) (key : Bytes) : Prop :=
  ∀ line ∈ lines, ∀ value, Config.itemOf line ≠ some (key, value)

theorem lookup_readLine_own {line key value : Bytes} (items : Config.Items)
    (h : Config.itemOf line = some (key, value)) :
    (Config.readLine items line).lookup key = some value := by
  unfold Config.readLine
  simp only [h, AList.lookup_insert]

/-- A line for another key, or for none, leaves what there is. -/
theorem lookup_readLine_other {line key : Bytes} (items : Config.Items)
    (h : ∀ value, Config.itemOf line ≠ some (key, value)) :
    (Config.readLine items line).lookup key = items.lookup key := by
  unfold Config.readLine
  cases hitem : Config.itemOf line with
  | none => rfl
  | some item =>
      have hne : key ≠ item.1 := fun heq => h item.2 (by rw [hitem, heq])
      exact AList.lookup_insert_ne hne

/-- **What the loop over the lines leaves for a key.** -/
theorem lookup_lines (lines : List Bytes) (key : Bytes) :
    (∃ value, LastLine lines key value ∧
      (lines.foldl Config.readLine ∅).lookup key = some value) ∨
    (NoLine lines key ∧ (lines.foldl Config.readLine ∅).lookup key = none) := by
  -- The last line is looked at first.
  induction lines using List.reverseRecOn with
  | nil => exact Or.inr ⟨fun _ h => absurd h List.not_mem_nil, AList.lookup_empty key⟩
  | append_singleton lines line ih =>
      rw [List.foldl_append, List.foldl_cons, List.foldl_nil]
      by_cases hline : ∃ value, Config.itemOf line = some (key, value)
      · obtain ⟨value, hitem⟩ := hline
        exact Or.inl ⟨value, ⟨lines, line, [], rfl, hitem, fun _ h => absurd h List.not_mem_nil⟩,
          lookup_readLine_own _ hitem⟩
      · have hother : ∀ value, Config.itemOf line ≠ some (key, value) := not_exists.mp hline
        rw [lookup_readLine_other _ hother]
        obtain ⟨value, ⟨before, l, after, hlines, hitem, hafter⟩, hlookup⟩ | ⟨hnone, hlookup⟩ := ih
        · have hlast := List.forall_mem_append.mpr ⟨hafter, List.forall_mem_singleton.mpr hother⟩
          refine Or.inl ⟨value, ⟨before, l, after ++ [line], ?_, hitem, hlast⟩, hlookup⟩
          rw [hlines, List.append_assoc, List.cons_append]
        · have hall := List.forall_mem_append.mpr ⟨hnone, List.forall_mem_singleton.mpr hother⟩
          exact Or.inr ⟨hall, hlookup⟩

/-- What an item makes of a setting. -/
def fromFile {α : Type} (items : Config.Items) (key : Bytes) (read : Bytes → Option α)
    (initial : α) : α := ((items.lookup key).bind read).getD initial

theorem numItem_eq {α : Type} (items : Config.Items) (key : Bytes) (convert : Int32 → α)
    (initial : α) : Config.numItem items key convert initial =
      fromFile items key (fun value => (stoi value).toOption.map convert) initial := by
  unfold Config.numItem fromFile
  cases items.lookup key with
  | none => rfl
  | some text =>
      show _ = ((stoi text).toOption.map convert).getD initial
      cases hstoi : stoi text with
      | error e => simp [hstoi, Except.toOption]
      | ok n => simp [hstoi, Except.toOption]

theorem textItem_eq (items : Config.Items) (key initial : Bytes) :
    Config.textItem items key initial = fromFile items key some initial := by
  unfold Config.textItem fromFile
  cases items.lookup key <;> rfl

/-! ### The merge -/

/-- Where a setting comes from: the command line before the file, and the file before the default.
A last line that cannot be read leaves the default, whatever the lines before it say. -/
inductive Precedence {α : Type} (argv options lines : List Bytes) (key : Bytes)
    (read : Bytes → Option α) (initial : α) : α → Prop
  | argument {value : Bytes} {x : α} : LastValue argv options value → read value = some x →
      Precedence argv options lines key read initial x
  | line {value : Bytes} {x : α} : NoOption argv options → LastLine lines key value →
      read value = some x → Precedence argv options lines key read initial x
  | unreadable {value : Bytes} : NoOption argv options → LastLine lines key value →
      read value = none → Precedence argv options lines key read initial initial
  | absent : NoOption argv options → NoLine lines key →
      Precedence argv options lines key read initial initial

theorem precedence_merge {α : Type} (F : ArgField α) {argv : List Bytes} {args : Args}
    (h : Parses {} argv args) (hfirst : F.get {} = none) (lines : List Bytes) (key : Bytes)
    (initial : α) :
    Precedence argv F.target.options lines key F.read initial
      ((F.get args).getD (fromFile (lines.foldl Config.readLine ∅) key F.read initial)) := by
  obtain ⟨value, x, hlast, hread, hget⟩ | ⟨hnone, hget⟩ := h.found F
  · rw [hget]
    exact .argument hlast hread
  rw [hget, hfirst, Option.getD_none, fromFile]
  obtain ⟨value, hline, hlookup⟩ | ⟨hline, hlookup⟩ := lookup_lines lines key
  · rw [hlookup, Option.bind_some]
    cases hread : F.read value with
    | none => exact .unreadable hnone hline hread
    | some x => exact .line hnone hline hread
  · rw [hlookup]
    exact .absent hnone hline

/-- The file that the command line names. -/
def NamesFile (argv : List Bytes) (path : Bytes) : Prop :=
  LastValue argv ArgTarget.configPath.options path ∨
    (NoOption argv ArgTarget.configPath.options ∧ path = defaultPath)

theorem NamesFile.unique {argv : List Bytes} {p q : Bytes} (hp : NamesFile argv p)
    (hq : NamesFile argv q) : p = q := by
  rcases hp with hp | ⟨hnone, rfl⟩ <;> rcases hq with hq | ⟨hnone', rfl⟩
  · exact hp.unique hq
  · obtain ⟨i, hread, -⟩ := hp
    exact absurd hread (hnone' i)
  · obtain ⟨i, hread, -⟩ := hq
    exact absurd hread (hnone i)
  · rfl

/-- The lines of the file at the path, none when there is no such file. -/
def Disk.lines (disk : Disk) (path : Bytes) : List Bytes :=
  match disk.openConfig path with
  | .ok (some text) => Config.getlines text
  | _ => []

/-- What the settings are made of, and which tokens had a part in it. -/
structure FollowsPrecedence (disk : Disk) (argv : List Bytes) (made : Configured) : Prop where
  path : NamesFile argv made.path
  interval : Precedence argv [ascii "-i", ascii "--interval"] (disk.lines made.path)
    (ascii "interval") (fun value => (stoi value).toOption) 10 made.cfg.interval
  interface : Precedence argv [ascii "--interface"] (disk.lines made.path)
    (ascii "interface") some [] made.cfg.interface
  dbPath : Precedence argv [ascii "--db-path"] (disk.lines made.path)
    (ascii "dbPath") some [] made.cfg.dbPath
  serverPort : Precedence argv [ascii "-p", ascii "--port"] (disk.lines made.path)
    (ascii "port") (fun value => (stoi value).toOption.map fun n => UInt16.ofInt n.toInt) 13889
    made.cfg.serverPort
  daemon : made.args.daemon = true ↔ ∃ i, ReadAt argv [ascii "--daemon"] i
  debug : made.args.debug = true ↔ ∃ i, ReadAt argv [ascii "-x", ascii "--debug"] i
  /-- The value of an option is not read as one. -/
  value : ∀ i, ReadAt argv valueOptions i → ¬ OptionAt argv (i + 1)
  /-- The text in the file does not depend on the command line. -/
  written : ∀ argv' made', configure disk argv' = .ok made' → NamesFile argv' made.path →
    made'.written = made.written

/-- The parts of a start that succeeded. -/
theorem configure_eq_ok {disk : Disk} {argv : List Bytes} {made : Configured}
    (h : configure disk argv = .ok made) :
    Parses {} argv made.args ∧ made.path = filePath made.args.configPath ∧
      ∃ file cfg, disk.openConfig made.path = .ok file ∧
        Config.start disk.toFileSystem file = some (cfg, made.written) ∧
        made.cfg = cfg.mergeArgs made.args := by
  unfold configure at h
  split at h
  · exact absurd h (by simp)
  rename_i args hparse
  dsimp only at h
  split at h
  · exact absurd h (by simp)
  rename_i file hfile
  split at h
  · exact absurd h (by simp)
  rename_i cfg written hstart
  obtain rfl := Except.ok.inj h
  exact ⟨parses_of_parse hparse, rfl, file, cfg, hfile, hstart, rfl⟩

theorem namesFile_filePath {argv : List Bytes} {args : Args} (h : Parses {} argv args) :
    NamesFile argv (filePath args.configPath) := by
  unfold filePath
  obtain ⟨value, x, hlast, hread, hget⟩ | ⟨hnone, hget⟩ := h.found ArgField.configPath
  · simp only [ArgField.configPath, Option.ite_none_right_eq_some, Option.some.injEq] at hread hget
    rw [if_pos hget.1, hget.2, ← hread.2]
    exact Or.inl hlast
  · simp only [ArgField.configPath] at hget
    have hempty : ¬ args.configPath ≠ [] := fun hne => by simp [if_pos hne] at hget
    rw [if_neg hempty]
    exact Or.inr ⟨hnone, rfl⟩

/-- The settings before the merge are those of the lines of the file. -/
theorem cfg_of_start {disk : Disk} {path : Bytes} {file : Option Bytes} {cfg : Config}
    {written : Bytes} (hfile : disk.openConfig path = .ok file)
    (hstart : Config.start disk.toFileSystem file = some (cfg, written)) :
    cfg = Config.ofItems ((disk.lines path).foldl Config.readLine ∅) := by
  unfold Disk.lines
  rw [hfile]
  cases file with
  | none =>
      cases hstart
      rfl
  | some text =>
      obtain ⟨c, hc, heq⟩ := Option.map_eq_some_iff.mp hstart
      cases heq
      exact Setting.ofText_eq hc

/-- **One precedence for every command line and every file.** -/
theorem configure_precedence {disk : Disk} {argv : List Bytes} {made : Configured}
    (h : configure disk argv = .ok made) : FollowsPrecedence disk argv made := by
  obtain ⟨hparses, hpath, file, cfg, hfile, hstart, hmerge⟩ := configure_eq_ok h
  have hitems := cfg_of_start hfile hstart
  have hnames : NamesFile argv made.path := hpath ▸ namesFile_filePath hparses
  have hcfg : made.cfg = (Config.ofItems ((disk.lines made.path).foldl Config.readLine ∅)).mergeArgs
      made.args := hitems ▸ hmerge
  have hid : (fun value => (stoi value).toOption.map id) = fun value => (stoi value).toOption := by
    funext value
    exact Option.map_id_apply
  refine
    { path := hnames
      interval := ?_
      interface := ?_
      dbPath := ?_
      serverPort := ?_
      daemon := ?_
      debug := ?_
      value := fun i hread => hread.not_optionAt_succ
      written := fun argv' made' h' hnames' => ?_ }
  · rw [hcfg]
    show Precedence _ _ _ _ _ _ (made.args.interval.getD (Config.numItem _ _ id 10))
    rw [numItem_eq, hid]
    exact precedence_merge ArgField.interval hparses rfl _ _ _
  · rw [hcfg]
    show Precedence _ _ _ _ _ _ (made.args.interface.getD (Config.textItem _ _ []))
    rw [textItem_eq]
    exact precedence_merge ArgField.interface hparses rfl _ _ _
  · rw [hcfg]
    show Precedence _ _ _ _ _ _ (made.args.dbPath.getD (Config.textItem _ _ []))
    rw [textItem_eq]
    exact precedence_merge ArgField.dbPath hparses rfl _ _ _
  · rw [hcfg]
    show Precedence _ _ _ _ _ _ (made.args.serverPort.getD (Config.numItem _ _ _ 13889))
    rw [numItem_eq]
    exact precedence_merge ArgField.serverPort hparses rfl _ _ _
  · exact (hparses.flag FlagField.daemon).trans (or_iff_right (by simp [FlagField.daemon]))
  · exact (hparses.flag FlagField.debug).trans (or_iff_right (by simp [FlagField.debug]))
  · obtain ⟨hparses', hpath', file', cfg', hfile', hstart', -⟩ := configure_eq_ok h'
    have hsame : made'.path = made.path :=
      NamesFile.unique (hpath' ▸ namesFile_filePath hparses') hnames'
    rw [hsame, hfile, Except.ok.injEq] at hfile'
    rw [← hfile', hstart, Option.some.injEq, Prod.mk.injEq] at hstart'
    exact hstart'.2.symm

/-- A disk with the default file and no other. -/
def portLinesDisk : Disk where
  isRegularFile path := some (path == defaultPath)
  empty_path := by decide
  contents _ := some (ascii "interval = 3\nport = 80\nport = none\ndbPath = /tmp/a.db\n")

/-- An option given twice, and an option that is the value of another. -/
def optionAsValue : List Bytes :=
  [ascii "-i", ascii "5", ascii "--interface", ascii "--daemon", ascii "-x", ascii "-i", ascii "7"]

/-- The last `-i`, the value `--daemon`, and a port whose last line is not a number. -/
theorem configure_precedence_optionAsValue : ∃ made,
    configure portLinesDisk optionAsValue = .ok made ∧
      FollowsPrecedence portLinesDisk optionAsValue made ∧
      made.cfg.interval = 7 ∧ made.cfg.interface = ascii "--daemon" ∧
      made.cfg.dbPath = ascii "/tmp/a.db" ∧ made.cfg.serverPort = 13889 ∧
      made.args.daemon = false ∧ made.args.debug = true := by
  have hmade : (configure portLinesDisk optionAsValue).toOption.map (fun made =>
      (made.cfg.interval, made.cfg.interface, made.cfg.dbPath, made.cfg.serverPort,
        made.args.daemon, made.args.debug)) =
      some (7, ascii "--daemon", ascii "/tmp/a.db", 13889, false, true) := by decide
  cases hconfigure : configure portLinesDisk optionAsValue with
  | error e =>
      rw [hconfigure] at hmade
      exact absurd hmade (by simp [Except.toOption])
  | ok made =>
      rw [hconfigure] at hmade
      simp only [Except.toOption, Option.map_some, Option.some.injEq, Prod.mk.injEq] at hmade
      exact ⟨made, rfl, configure_precedence hconfigure, hmade⟩

end Ntmd
