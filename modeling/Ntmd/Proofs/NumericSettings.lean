/-
The numbers among the settings.

The file and the command line both convert a number with `std::stoi`, which takes the
number that a text begins with, and then to the type of the field, without a look at its
range.  A setting should take a number that is spelled whole and in its range, and
nothing else (`TakesItem`, `TakesArg`); `numericSettings_iff` says for which texts it
does.
-/
import Ntmd.Config.Config
import Ntmd.Lib.CInt
import Ntmd.Proc.ProcessIndex

namespace Ntmd

open Bytes Scanf

/-- The settings that are numbers. -/
inductive Setting
  | interval
  | port
  | processCacheSize
  deriving DecidableEq, Repr

namespace Setting

/-- The key of its item. -/
def key : Setting → Bytes
  | interval => ascii "interval"
  | port => ascii "port"
  | processCacheSize => ascii "processCacheSize"

/-- The options that set it. -/
def options : Setting → List Bytes
  | interval => [ascii "-i", ascii "--interval"]
  | port => [ascii "-p", ascii "--port"]
  | processCacheSize => []

/-- The numbers that make sense for it. -/
def InRange : Setting → Int → Prop
  | interval, z => IsInt z
  | port, z => 0 ≤ z ∧ z < 2 ^ 16
  | processCacheSize, z => 0 ≤ z

instance : ∀ (s : Setting) (z : Int), Decidable (s.InRange z)
  | interval, z => inferInstanceAs (Decidable (IsInt z))
  | port, z => inferInstanceAs (Decidable (0 ≤ z ∧ z < 2 ^ 16))
  | processCacheSize, z => inferInstanceAs (Decidable (0 ≤ z))

/-- What the type of its field makes of an `int`. -/
def convert : Setting → Int → Int
  | interval, z => z
  | port, z => z % 2 ^ 16
  | processCacheSize, z => z

def value (c : Config) : Setting → Int
  | interval => c.interval.toInt
  | port => c.serverPort.toNat
  | processCacheSize => c.processCacheSize.toInt

/-- The settings have the number; the cache is made for that many processes. -/
def Holds (s : Setting) (c : Config) (z : Int) : Prop :=
  s.value c = z ∧ (s = processCacheSize → ∀ proc index,
    ProcessIndex.init c.processCacheSize proc = .ok index → (index.mLRUCache.mSize : Int) = z)

/-- The arguments with the number for it. -/
def setArg (s : Setting) (args : Args) (z : Int) : Args :=
  match s with
  | interval => { args with interval := some (Int32.ofInt z) }
  | port => { args with serverPort := some (UInt16.ofInt z) }
  | processCacheSize => args

/-- The text is a number of its range, and nothing else. -/
def Spells (s : Setting) (text : Bytes) (z : Int) : Prop := IsDecimal text z ∧ s.InRange z

/-- An item of the file sets the number that it spells, and leaves the default otherwise. -/
structure TakesItem (s : Setting) (text : Bytes) (c : Config) : Prop where
  taken : ∀ z, s.Spells text z → s.Holds c z
  ignored : (¬ ∃ z, s.Spells text z) → s.Holds c (s.value Config.defaults)

/-- An option sets the number that its value spells, and is refused otherwise. -/
structure TakesArg (s : Setting) (option text : Bytes) : Prop where
  taken : ∀ z, s.Spells text z → ∀ fs args rest,
    Args.parse fs args (option :: text :: rest) = Args.parse fs (s.setArg args z) rest ∧
      ∀ c : Config, s.value (c.mergeArgs (s.setArg args z)) = z
  refused : (¬ ∃ z, s.Spells text z) → ∀ fs args rest,
    Args.parse fs args (option :: text :: rest) = .error (.exit 2)

/-! ### When they do -/

/-- A number that the text only begins with, or that is out of range, does no harm when it is
the default; a number that is spelled must fit an `int`. -/
structure ItemAsSpelled (s : Setting) (text : Bytes) : Prop where
  fits : ∀ z, s.Spells text z → IsInt z
  whole : ∀ z, BeginsWith text z → IsInt z →
    s.Spells text z ∨ s.convert z = s.value Config.defaults

/-- A number that the text begins with, and that fits an `int`, is all of it and in range. -/
def ArgAsSpelled (s : Setting) (text : Bytes) : Prop :=
  ∀ z, BeginsWith text z → IsInt z → s.Spells text z

/-! ### The file -/

theorem init_mSize {cacheSize : Int32} {proc : Proc} {index : ProcessIndex}
    (h : ProcessIndex.init cacheSize proc = .ok index) :
    index.mLRUCache.mSize = (UInt64.ofInt cacheSize.toInt).toNat := by
  rw [ProcessIndex.init, ProcessIndex.refresh] at h
  split at h
  · exact absurd h (by simp)
  · simp only [bind, Except.bind] at h
    split at h
    · exact absurd h (by simp)
    · split at h
      · exact absurd h (by simp)
      · rw [← Except.ok.inj h]

/-- The cache is as large as the setting, unless that is negative. -/
theorem holds_iff {s : Setting} {z : Int} (hz : s = processCacheSize → 0 ≤ z) (c : Config) :
    s.Holds c z ↔ s.value c = z := by
  refine ⟨And.left, fun hvalue => ⟨hvalue, ?_⟩⟩
  rintro rfl proc index hinit
  have hlt := c.processCacheSize.toInt_lt
  have hnonneg := hz rfl
  rw [init_mSize hinit, CInt.uint64_toNat_ofInt]
  rw [value] at hvalue
  omega

/-- What the field has when the file has an item for it. -/
theorem value_ofItems (s : Setting) {items : Config.Items} {text : Bytes}
    (h : items.lookup s.key = some text) :
    (∀ n, stoi text = .ok n → s.value (Config.ofItems items) = s.convert n.toInt) ∧
      ((∃ e, stoi text = .error e) →
        s.value (Config.ofItems items) = s.value Config.defaults) := by
  constructor
  · intro n hn
    cases s with
    | interval | processCacheSize =>
        simp only [key] at h
        simp only [value, Config.ofItems, Config.numItem, h, hn, id, convert]
    | port =>
        simp only [key] at h
        simp only [value, Config.ofItems, Config.numItem, h, hn, convert]
        exact CInt.uint16_toNat_ofInt n.toInt
  · rintro ⟨e, he⟩
    cases s <;>
      (simp only [key] at h
       simp only [value, Config.ofItems, Config.numItem, h, he])

/-- A spelled number in range is left as it is. -/
theorem convert_eq {s : Setting} {z : Int} (h : s.InRange z) : s.convert z = z := by
  cases s with
  | interval | processCacheSize => rfl
  | port =>
      obtain ⟨hlo, hhi⟩ := h
      rw [convert]
      omega

theorem ofText_eq {fs : FileSystem} {text : Bytes} {c : Config}
    (h : Config.ofText fs text = some c) : c = Config.ofItems (Config.readItems text) := by
  unfold Config.ofText at h
  dsimp only at h
  split at h
  · exact (Option.some.inj h).symm
  · obtain ⟨_, -, hc⟩ := Option.map_eq_some_iff.mp h
    exact hc.symm

theorem holds_default (s : Setting) (c : Config) :
    s.Holds c (s.value Config.defaults) ↔ s.value c = s.value Config.defaults :=
  holds_iff (by rintro rfl; decide) c

theorem Spells.nonneg {s : Setting} {text : Bytes} {z : Int} (h : s.Spells text z) :
    s = processCacheSize → 0 ≤ z := by
  rintro rfl
  exact h.2

/-- **When an item of the file is taken as it is spelled.** -/
theorem takesItem_iff (s : Setting) {items : Config.Items} {text : Bytes}
    (h : items.lookup s.key = some text) :
    s.TakesItem text (Config.ofItems items) ↔ s.ItemAsSpelled text := by
  obtain ⟨hok, herror⟩ := value_ofItems s h
  by_cases hbegins : BeginsWithInt text
  · -- The field gets the number that the text begins with.
    obtain ⟨n, hn⟩ := beginsWithInt_iff.mp hbegins
    have hnum := stoi_eq_ok_iff.mp hn
    have hvalue := hok n hn
    constructor
    · intro htakes
      refine ⟨fun z hz => ?_, fun z hz _ => ?_⟩
      · rw [hz.1.beginsWith.unique hnum]
        exact isInt_toInt n
      · rw [hz.unique hnum, or_iff_not_imp_left]
        intro hspells
        rw [← hvalue, ← holds_default]
        refine htakes.ignored ?_
        rintro ⟨z', hz'⟩
        exact hspells (hz'.1.beginsWith.unique hnum ▸ hz')
    · intro hspelled
      refine ⟨fun z hz => ?_, fun hnone => ?_⟩
      · rw [holds_iff hz.nonneg, hvalue, ← hz.1.beginsWith.unique hnum, convert_eq hz.2]
      · rw [holds_default, hvalue]
        exact (hspelled.whole _ hnum (isInt_toInt n)).resolve_left fun hz => hnone ⟨_, hz⟩
  · -- The default stays.
    have hvalue := herror (stoi_error hbegins)
    have hnotInt : ∀ z, BeginsWith text z → ¬ IsInt z := fun z hz hfits => hbegins ⟨z, hz, hfits⟩
    constructor
    · intro htakes
      refine ⟨fun z hz => ?_, fun z hz hfits => absurd hfits (hnotInt z hz)⟩
      have hdefault : IsInt (s.value Config.defaults) := by
        cases s <;> decide
      rw [← (htakes.taken z hz).1, hvalue]
      exact hdefault
    · intro hspelled
      exact ⟨fun z hz => absurd (hspelled.fits z hz) (hnotInt z hz.1.beginsWith),
        fun _ => (holds_default s _).mpr hvalue⟩

/-! ### The command line -/

/-- An option with a value, and what the parser does with it. -/
theorem parse_option {s : Setting} {option : Bytes} (h : option ∈ s.options) (text : Bytes)
    (fs : FileSystem) (args : Args) (rest : List Bytes) :
    (∀ n, stoi text = .ok n → Args.parse fs args (option :: text :: rest) =
        Args.parse fs (s.setArg args n.toInt) rest) ∧
      ((∃ e, stoi text = .error e) →
        Args.parse fs args (option :: text :: rest) = .error (.exit 2)) := by
  have hset : ∃ set, Args.setter fs option = some set ∧
      (∀ n, stoi text = .ok n → set args text = .ok (s.setArg args n.toInt)) ∧
      ((∃ e, stoi text = .error e) → set args text = .error (.exit 2)) := by
    cases s with
    | interval =>
        refine ⟨Args.setInterval, ?_, fun n hn => ?_, fun ⟨e, he⟩ => ?_⟩
        · rcases List.mem_pair.mp h with rfl | rfl <;> rfl
        · rw [Args.setInterval, hn, setArg, Int32.ofInt_toInt]
        · rw [Args.setInterval, he]
    | port =>
        refine ⟨Args.setPort, ?_, fun n hn => ?_, fun ⟨e, he⟩ => ?_⟩
        · rcases List.mem_pair.mp h with rfl | rfl <;> rfl
        · rw [Args.setPort, hn, setArg]
        · rw [Args.setPort, he]
    | processCacheSize => exact absurd h List.not_mem_nil
  have hother : option ≠ ascii "-h" ∧ option ≠ ascii "--help" ∧ option ≠ ascii "--daemon" ∧
      option ≠ ascii "-x" ∧ option ≠ ascii "--debug" := by
    cases s with
    | interval | port => rcases List.mem_pair.mp h with rfl | rfl <;> decide
    | processCacheSize => exact absurd h List.not_mem_nil
  obtain ⟨hhelp, hhelp', hdaemon, hdebug, hdebug'⟩ := hother
  obtain ⟨set, hsetter, hok, herror⟩ := hset
  refine ⟨fun n hn => ?_, fun he => ?_⟩
  all_goals
    rw [Args.parse, if_neg (by simp [hhelp, hhelp']), if_neg hdaemon,
      if_neg (by simp [hdebug, hdebug']), hsetter]
  · simp only [hok n hn]
  · simp only [herror he]

theorem value_mergeArgs {s : Setting} {z : Int} (hs : s ≠ processCacheSize) (hz : IsInt z)
    (c : Config) (args : Args) : s.value (c.mergeArgs (s.setArg args z)) = s.convert z := by
  cases s with
  | interval => exact hz.toInt_ofInt
  | port => exact CInt.uint16_toNat_ofInt z
  | processCacheSize => exact absurd rfl hs

/-- **When an option is taken as it is spelled.** -/
theorem takesArg_iff {s : Setting} {option : Bytes} (h : option ∈ s.options) (text : Bytes) :
    s.TakesArg option text ↔ s.ArgAsSpelled text := by
  have hs : s ≠ processCacheSize := by
    rintro rfl
    exact absurd h List.not_mem_nil
  have hfits : ∀ z, s.Spells text z → IsInt z := fun z hz => by
    cases s with
    | interval => exact hz.2
    | port =>
        obtain ⟨-, hlo, hhi⟩ := hz
        exact ⟨by omega, by omega⟩
    | processCacheSize => exact absurd rfl hs
  constructor
  · intro htakes z hz hint
    by_contra hspells
    have hrefused := htakes.refused
      (fun ⟨z', hz'⟩ => hspells (hz'.1.beginsWith.unique hz ▸ hz')) ⟨fun _ => some false, rfl⟩ {} []
    obtain ⟨n, hn⟩ := beginsWithInt_iff.mp ⟨z, hz, hint⟩
    rw [(parse_option h text _ _ _).1 n hn] at hrefused
    exact absurd hrefused (by simp [Args.parse])
  · intro hspelled
    refine ⟨fun z hz fs args rest => ⟨?_, fun c => ?_⟩, fun hnone fs args rest => ?_⟩
    · obtain ⟨n, hn⟩ := beginsWithInt_iff.mp ⟨z, hz.1.beginsWith, hfits z hz⟩
      rw [(parse_option h text fs args rest).1 n hn,
        (stoi_eq_ok_iff.mp hn).unique hz.1.beginsWith]
    · rw [value_mergeArgs hs (hfits z hz), convert_eq hz.2]
    · refine (parse_option h text fs args rest).2 (stoi_error ?_)
      rintro ⟨z, hz, hint⟩
      exact hnone ⟨z, hspelled z hz hint⟩

/-! ### Both -/

/-- **When a text for a number is taken as it is spelled**, in the file and on the command line. -/
theorem numericSettings_iff (s : Setting) (text : Bytes) :
    (∀ (fs : FileSystem) (file : Bytes) (c : Config), Config.ofText fs file = some c →
      (Config.readItems file).lookup s.key = some text →
        (s.TakesItem text c ↔ s.ItemAsSpelled text)) ∧
      ∀ option ∈ s.options, (s.TakesArg option text ↔ s.ArgAsSpelled text) := by
  refine ⟨fun fs file c hc h => ?_, fun option h => takesArg_iff h text⟩
  rw [ofText_eq hc]
  exact takesItem_iff s h

/-- A cache of no processes, and an interval with white space before it. -/
theorem numericSettings_zero_60 :
    processCacheSize.TakesItem (ascii "0") { processCacheSize := 0 } ∧
      interval.TakesArg (ascii "-i") (ascii " 60") := by
  have hzero : IsDecimal (ascii "0") 0 := isDecimal_iff.mpr ⟨[], by decide, by simp⟩
  have hsixty : IsDecimal (ascii " 60") 60 := isDecimal_iff.mpr ⟨[], by decide, by simp⟩
  constructor
  · refine ((numericSettings_iff processCacheSize (ascii "0")).1 ⟨fun _ => some false, rfl⟩
      (ascii "processCacheSize = 0") _ (by decide +kernel) (by decide +kernel)).mpr ?_
    refine ⟨fun z hz => ?_, fun z hz _ => Or.inl ?_⟩
    · rw [hz.1.beginsWith.unique hzero.beginsWith]
      decide
    · rw [hz.unique hzero.beginsWith]
      exact ⟨hzero, by decide⟩
  · refine ((numericSettings_iff interval (ascii " 60")).2 (ascii "-i") (by decide)).mpr ?_
    intro z hz hint
    rw [hz.unique hsixty.beginsWith]
    exact ⟨hsixty, by decide⟩

/-- A port that is too large becomes another one, in the file as on the command line, and a
negative size becomes the largest. -/
theorem not_takes_70000 :
    (∃ c, Config.ofText ⟨fun _ => some false, rfl⟩ (ascii "port = 70000") = some c ∧
      c.serverPort = 4464 ∧ ¬ port.TakesItem (ascii "70000") c) ∧
      (Args.parse ⟨fun _ => some false, rfl⟩ {} [ascii "-p", ascii "10abc"] =
          .ok { serverPort := some 10 } ∧
        ¬ port.TakesArg (ascii "-p") (ascii "10abc")) ∧
      ∃ c, Config.ofText ⟨fun _ => some false, rfl⟩ (ascii "processCacheSize = -1") = some c ∧
        c.processCacheSize = -1 ∧ ¬ processCacheSize.TakesItem (ascii "-1") c := by
  refine ⟨⟨{ serverPort := 4464 }, by decide +kernel, rfl, fun h => ?_⟩,
    ⟨by decide +kernel, fun h => ?_⟩,
    ⟨{ processCacheSize := -1 }, by decide +kernel, rfl, fun h => ?_⟩⟩
  · have hread : BeginsWith (ascii "70000") 70000 := ⟨[], by decide⟩
    have hholds := h.ignored (by
      rintro ⟨z, hz⟩
      obtain rfl := hz.1.beginsWith.unique hread
      exact absurd hz.2.2 (by decide))
    exact absurd hholds.1 (by decide)
  · have hread : readDec (ascii "10abc") = some (10, ascii "abc") := by decide
    have hrefused := h.refused (by
      rintro ⟨z, hz⟩
      exact not_isDecimal hread (c := 97) (by decide) (by decide) ⟨z, hz.1⟩)
      ⟨fun _ => some false, rfl⟩ {} []
    exact absurd hrefused (by decide +kernel)
  · have hread : BeginsWith (ascii "-1") (-1) := ⟨[], by decide⟩
    have hholds := h.ignored (by
      rintro ⟨z, hz⟩
      obtain rfl := hz.1.beginsWith.unique hread
      exact absurd hz.2 (by decide))
    exact absurd hholds.1 (by decide)

end Setting

end Ntmd
