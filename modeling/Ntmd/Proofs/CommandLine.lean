/-
How the program ends on a command line.

The parser ends it at the first option that it refuses: one for the help text, one it
does not know, one without its value or with a value that it cannot use.  What stands
behind that one does not matter, and neither does what came before
(`parse_error_iff`); without a refusal all of it is taken.

Which tokens are options is `OptionAt`, where the settings are found.
-/
import Ntmd.Proofs.Precedence

namespace Ntmd

open Bytes Scanf

def helpOptions : List Bytes := [ascii "-h", ascii "--help"]

namespace ArgTarget

/-- The values that the options of a field cannot use, and how the program ends. -/
inductive RefusesValue (fs : FileSystem) (value : Bytes) : ArgTarget → ArgError → Prop
  | interval {e : StoiError} : stoi value = .error e → RefusesValue fs value .interval (.exit 2)
  | serverPort {e : StoiError} : stoi value = .error e → RefusesValue fs value .serverPort (.exit 2)
  | noFile : fs.isRegularFile value = some false → RefusesValue fs value .configPath (.exit 2)
  | configPath : fs.isRegularFile value = none → RefusesValue fs value .configPath .uncaught
  | dbPath : fs.isRegularFile value = none → RefusesValue fs value .dbPath .uncaught

/-- What the options of a field do with their value. -/
def set (fs : FileSystem) : ArgTarget → Args → Bytes → Except ArgError Args
  | interval => Args.setInterval
  | serverPort => Args.setPort
  | configPath => Args.setConfig fs
  | interface => Args.setInterface
  | dbPath => Args.setDbPath fs

variable {fs : FileSystem} {value : Bytes} {e : ArgError}

theorem set_error_iff (args : Args) (s : ArgTarget) :
    s.set fs args value = .error e ↔ s.RefusesValue fs value e := by
  constructor
  · intro h
    cases s with
    | interval =>
        simp only [set, Args.setInterval] at h
        split at h
        · exact absurd h (by simp)
        · rename_i herror
          cases h
          exact .interval herror
    | serverPort =>
        simp only [set, Args.setPort] at h
        split at h
        · exact absurd h (by simp)
        · rename_i herror
          cases h
          exact .serverPort herror
    | configPath =>
        simp only [set, Args.setConfig] at h
        split at h
        · rename_i hfile
          cases h
          exact .configPath hfile
        · rename_i hfile
          cases h
          exact .noFile hfile
        · exact absurd h (by simp)
    | interface => exact absurd h (by simp [set, Args.setInterface])
    | dbPath =>
        simp only [set, Args.setDbPath] at h
        split at h
        · rename_i hfile
          cases h
          exact .dbPath hfile
        · exact absurd h (by simp)
  · intro h
    cases h with
    | interval herror => simp [set, Args.setInterval, herror]
    | serverPort herror => simp [set, Args.setPort, herror]
    | noFile hfile => simp [set, Args.setConfig, hfile]
    | configPath hfile => simp [set, Args.setConfig, hfile]
    | dbPath hfile => simp [set, Args.setDbPath, hfile]

theorem setter_of_mem (fs : FileSystem) (s : ArgTarget) :
    ∀ option ∈ s.options, Args.setter fs option = some (s.set fs) := by
  intro option hoption
  cases s with
  | interval | serverPort | configPath =>
      rcases List.mem_pair.mp hoption with rfl | rfl <;> rfl
  | interface | dbPath =>
      obtain rfl := List.mem_singleton.mp hoption
      rfl

theorem exists_target : ∀ option ∈ valueOptions, ∃ s : ArgTarget, option ∈ s.options := by
  intro option hoption
  simp only [valueOptions, List.mem_cons, List.not_mem_nil, or_false] at hoption
  rcases hoption with rfl | rfl | rfl | rfl | rfl | rfl | rfl | rfl
  · exact ⟨interval, by decide⟩
  · exact ⟨interval, by decide⟩
  · exact ⟨serverPort, by decide⟩
  · exact ⟨serverPort, by decide⟩
  · exact ⟨configPath, by decide⟩
  · exact ⟨configPath, by decide⟩
  · exact ⟨interface, by decide⟩
  · exact ⟨dbPath, by decide⟩

end ArgTarget

/-- The options that the parser refuses, and how the program ends. -/
inductive Refuses (fs : FileSystem) (argv : List Bytes) (i : Nat) : ArgError → Prop
  | help {arg : Bytes} : argv[i]? = some arg → arg ∈ helpOptions → Refuses fs argv i (.exit 0)
  | unknown {arg : Bytes} : argv[i]? = some arg → arg ∉ helpOptions → arg ∉ flagOptions →
      arg ∉ valueOptions → Refuses fs argv i (.exit 2)
  | missing {option : Bytes} : argv[i]? = some option → option ∈ valueOptions →
      argv[i + 1]? = none → Refuses fs argv i (.exit 2)
  | unusable {option value : Bytes} {s : ArgTarget} {e : ArgError} : argv[i]? = some option →
      option ∈ s.options → argv[i + 1]? = some value → s.RefusesValue fs value e →
        Refuses fs argv i e

/-- The first refusal of all. -/
def FirstRefusal (fs : FileSystem) (argv : List Bytes) (e : ArgError) : Prop :=
  ∃ i, OptionAt argv i ∧ Refuses fs argv i e ∧
    ∀ j < i, OptionAt argv j → ∀ e', ¬ Refuses fs argv j e'

section

variable {fs : FileSystem} {argv rest taken : List Bytes} {e : ArgError}

theorem not_refuses_nil (i : Nat) : ¬ Refuses fs [] i e := by
  intro h
  cases h with
  | help hget => exact absurd hget (by simp)
  | unknown hget => exact absurd hget (by simp)
  | missing hget => exact absurd hget (by simp)
  | unusable hget => exact absurd hget (by simp)

/-- A refusal is about a token and the one behind it. -/
theorem refuses_append (i : Nat) :
    Refuses fs (taken ++ rest) (taken.length + i) e ↔ Refuses fs rest i e := by
  have hget : ∀ j, (taken ++ rest)[taken.length + j]? = rest[j]? := by
    intro j
    rw [List.getElem?_append_right (Nat.le_add_right _ _), Nat.add_sub_cancel_left]
  constructor
  · intro h
    cases h with
    | help harg hhelp => exact .help (hget i ▸ harg) hhelp
    | unknown harg hhelp hflag hvalue => exact .unknown (hget i ▸ harg) hhelp hflag hvalue
    | missing harg hoption hnone => exact .missing (hget i ▸ harg) hoption (hget (i + 1) ▸ hnone)
    | unusable harg hoption hvalue hrefuses =>
        exact .unusable (hget i ▸ harg) hoption (hget (i + 1) ▸ hvalue) hrefuses
  · intro h
    cases h with
    | help harg hhelp => exact .help ((hget i).trans harg) hhelp
    | unknown harg hhelp hflag hvalue => exact .unknown ((hget i).trans harg) hhelp hflag hvalue
    | missing harg hoption hnone =>
        exact .missing ((hget i).trans harg) hoption ((hget (i + 1)).trans hnone)
    | unusable harg hoption hvalue hrefuses =>
        exact .unusable ((hget i).trans harg) hoption ((hget (i + 1)).trans hvalue) hrefuses

/-- The first token decides, if it is refused. -/
theorem firstRefusal_head {e₀ : ArgError} (h : ∀ e, Refuses fs argv 0 e ↔ e = e₀) :
    FirstRefusal fs argv e ↔ e = e₀ := by
  constructor
  · rintro ⟨i, hat, hrefuses, hbefore⟩
    by_cases hi : i = 0
    · exact (h e).mp (hi ▸ hrefuses)
    · exact absurd ((h e₀).mpr rfl) (hbefore 0 (Nat.pos_of_ne_zero hi) .first e₀)
  · rintro rfl
    exact ⟨0, .first, (h e).mpr rfl, fun j hj => absurd hj (Nat.not_lt_zero j)⟩

/-- What is taken without a refusal is passed over. -/
theorem Taken.firstRefusal_iff (h : Taken taken) (hno : ∀ e, ¬ Refuses fs (taken ++ rest) 0 e) :
    FirstRefusal fs (taken ++ rest) e ↔ FirstRefusal fs rest e := by
  constructor
  · rintro ⟨i, hat, hrefuses, hbefore⟩
    rcases h.optionAt_iff.mp hat with rfl | ⟨j, rfl, hrest⟩
    · exact absurd hrefuses (hno e)
    · refine ⟨j, hrest, (refuses_append j).mp hrefuses, fun k hk hatk e' hrefusesk => ?_⟩
      exact hbefore (taken.length + k) (by omega) (h.optionAt_iff.mpr (Or.inr ⟨k, rfl, hatk⟩)) e'
        ((refuses_append k).mpr hrefusesk)
  · rintro ⟨j, hat, hrefuses, hbefore⟩
    refine ⟨taken.length + j, h.optionAt_iff.mpr (Or.inr ⟨j, rfl, hat⟩),
      (refuses_append j).mpr hrefuses, fun k hk hatk e' hrefusesk => ?_⟩
    rcases h.optionAt_iff.mp hatk with rfl | ⟨l, rfl, hatl⟩
    · exact hno e' hrefusesk
    · exact hbefore l (by omega) hatl e' ((refuses_append l).mp hrefusesk)

end

/-! ### The first token -/

section

variable {fs : FileSystem} {rest : List Bytes} {arg option value : Bytes} {e : ArgError}

theorem not_mem_of_mem_helpOptions (h : arg ∈ helpOptions) : arg ∉ flagOptions ∧ arg ∉ valueOptions := by
  revert arg
  decide

theorem not_mem_helpOptions_of_flag (h : arg ∈ flagOptions) : arg ∉ helpOptions :=
  fun hhelp => (not_mem_of_mem_helpOptions hhelp).1 h

theorem refuses_help (h : arg ∈ helpOptions) :
    Refuses fs (arg :: rest) 0 e ↔ e = .exit 0 := by
  constructor
  · intro hrefuses
    cases hrefuses with
    | help => rfl
    | unknown hget hhelp =>
        obtain rfl := Option.some.inj hget
        exact absurd h hhelp
    | missing hget hoption =>
        obtain rfl := Option.some.inj hget
        exact absurd hoption (not_mem_of_mem_helpOptions h).2
    | unusable hget hoption =>
        obtain rfl := Option.some.inj hget
        exact absurd (ArgTarget.options_subset _ _ hoption) (not_mem_of_mem_helpOptions h).2
  · rintro rfl
    exact .help rfl h

theorem not_refuses_flag (h : arg ∈ flagOptions) (e : ArgError) : ¬ Refuses fs (arg :: rest) 0 e := by
  intro hrefuses
  cases hrefuses with
  | help hget hhelp =>
      obtain rfl := Option.some.inj hget
      exact not_mem_helpOptions_of_flag h hhelp
  | unknown hget _ hflag =>
      obtain rfl := Option.some.inj hget
      exact hflag h
  | missing hget hoption =>
      obtain rfl := Option.some.inj hget
      exact not_mem_valueOptions h hoption
  | unusable hget hoption =>
      obtain rfl := Option.some.inj hget
      exact not_mem_valueOptions h (ArgTarget.options_subset _ _ hoption)

theorem refuses_unknown (hhelp : arg ∉ helpOptions) (hflag : arg ∉ flagOptions)
    (hvalue : arg ∉ valueOptions) : Refuses fs (arg :: rest) 0 e ↔ e = .exit 2 := by
  constructor
  · intro hrefuses
    cases hrefuses with
    | help hget h =>
        obtain rfl := Option.some.inj hget
        exact absurd h hhelp
    | unknown => rfl
    | missing => rfl
    | unusable hget hoption =>
        obtain rfl := Option.some.inj hget
        exact absurd (ArgTarget.options_subset _ _ hoption) hvalue
  · rintro rfl
    exact .unknown rfl hhelp hflag hvalue

theorem refuses_missing (h : option ∈ valueOptions) : Refuses fs [option] 0 e ↔ e = .exit 2 := by
  constructor
  · intro hrefuses
    cases hrefuses with
    | help hget hhelp =>
        obtain rfl := Option.some.inj hget
        exact absurd h (not_mem_of_mem_helpOptions hhelp).2
    | unknown => rfl
    | missing => rfl
    | unusable _ _ hvalue => exact absurd hvalue (by simp)
  · rintro rfl
    exact .missing rfl h rfl

theorem refuses_value {s : ArgTarget} (h : option ∈ s.options) :
    Refuses fs (option :: value :: rest) 0 e ↔ s.RefusesValue fs value e := by
  have hoption := ArgTarget.options_subset s option h
  constructor
  · intro hrefuses
    cases hrefuses with
    | help hget hhelp =>
        obtain rfl := Option.some.inj hget
        exact absurd hoption (not_mem_of_mem_helpOptions hhelp).2
    | unknown hget _ _ hvalue =>
        obtain rfl := Option.some.inj hget
        exact absurd hoption hvalue
    | missing _ _ hnone => exact absurd hnone (by simp)
    | @unusable _ _ t _ hget ht hvalue hrefuses =>
        obtain rfl := Option.some.inj hget
        obtain rfl := Option.some.inj hvalue
        rwa [ArgTarget.eq_of_mem_options s t _ h ht]
  · exact fun hrefuses => .unusable rfl h rfl hrefuses

end

/-! ### The parser -/

variable {fs : FileSystem}

theorem setter_of_not_mem {arg : Bytes} (h : arg ∉ valueOptions) : Args.setter fs arg = none := by
  simp only [valueOptions, List.mem_cons, List.not_mem_nil, or_false, not_or] at h
  simp [Args.setter, h]

/-- An option with a value is that of a field. -/
theorem exists_target_of_setter {option : Bytes} {set : Args → Bytes → Except ArgError Args}
    (h : Args.setter fs option = some set) :
    ∃ s : ArgTarget, option ∈ s.options ∧ set = s.set fs := by
  by_cases hoption : option ∈ valueOptions
  · obtain ⟨s, hs⟩ := ArgTarget.exists_target option hoption
    exact ⟨s, hs, Option.some.inj (h.symm.trans (ArgTarget.setter_of_mem fs s option hs))⟩
  · rw [setter_of_not_mem hoption] at h
    exact absurd h (by simp)

theorem parse_error_firstRefusal (args : Args) (argv : List Bytes) (e : ArgError) :
    Args.parse fs args argv = .error e ↔ FirstRefusal fs argv e := by
  induction args, argv using Args.parse.induct fs with
  | case1 args =>
      constructor
      · intro h
        exact absurd h (by simp [Args.parse])
      · rintro ⟨i, -, hrefuses, -⟩
        exact absurd hrefuses (not_refuses_nil i)
  | case2 args arg rest hhelp =>
      rw [firstRefusal_head fun e => refuses_help (List.mem_pair.mpr hhelp), Args.parse, if_pos hhelp]
      simp [eq_comm]
  | case3 args rest hhelp ih =>
      have hflag : ascii "--daemon" ∈ flagOptions := by decide
      have hpass : FirstRefusal fs (ascii "--daemon" :: rest) e ↔ FirstRefusal fs rest e :=
        (Taken.flag hflag).firstRefusal_iff (not_refuses_flag hflag)
      rw [hpass, Args.parse, if_neg hhelp, if_pos rfl]
      exact ih
  | case4 args arg rest hhelp hdaemon hdebug ih =>
      have hflag : arg ∈ flagOptions := List.mem_cons_of_mem _ (List.mem_pair.mpr hdebug)
      have hpass : FirstRefusal fs (arg :: rest) e ↔ FirstRefusal fs rest e :=
        (Taken.flag hflag).firstRefusal_iff (not_refuses_flag hflag)
      rw [hpass, Args.parse, if_neg hhelp, if_neg hdaemon, if_pos hdebug]
      exact ih
  | case5 args arg rest hhelp hdaemon hdebug hnone =>
      have hvalue : arg ∉ valueOptions := by
        intro hmem
        obtain ⟨s, hs⟩ := ArgTarget.exists_target arg hmem
        rw [ArgTarget.setter_of_mem fs s arg hs] at hnone
        exact absurd hnone (by simp)
      have hflag : arg ∉ flagOptions := by
        simp only [flagOptions, List.mem_cons, List.not_mem_nil, or_false, not_or]
        exact ⟨hdaemon, not_or.mp hdebug⟩
      have hhelp' : arg ∉ helpOptions := fun h => hhelp (List.mem_pair.mp h)
      rw [firstRefusal_head fun e => refuses_unknown hhelp' hflag hvalue, Args.parse, if_neg hhelp,
        if_neg hdaemon, if_neg hdebug, hnone]
      simp [eq_comm]
  | case6 args option hhelp hdaemon hdebug set hset =>
      obtain ⟨s, hs, -⟩ := exists_target_of_setter hset
      have hoption := ArgTarget.options_subset s option hs
      rw [firstRefusal_head fun e => refuses_missing hoption, Args.parse, if_neg hhelp,
        if_neg hdaemon, if_neg hdebug, hset]
      simp [eq_comm]
  | case7 args option hhelp hdaemon hdebug set hset value rest e₀ herror =>
      obtain ⟨s, hs, rfl⟩ := exists_target_of_setter hset
      have hhead : ∀ e, Refuses fs (option :: value :: rest) 0 e ↔ e = e₀ := by
        intro e
        rw [refuses_value hs, ← ArgTarget.set_error_iff args s, herror, Except.error.injEq, eq_comm]
      rw [firstRefusal_head hhead, Args.parse, if_neg hhelp, if_neg hdaemon, if_neg hdebug, hset]
      simp only [herror, Except.error.injEq]
      exact eq_comm
  | case8 args option hhelp hdaemon hdebug set hset value rest args₁ hok ih =>
      obtain ⟨s, hs, rfl⟩ := exists_target_of_setter hset
      have hno : ∀ e, ¬ Refuses fs (option :: value :: rest) 0 e := by
        intro e hrefuses
        rw [refuses_value hs, ← ArgTarget.set_error_iff args s, hok] at hrefuses
        exact absurd hrefuses (by simp)
      have hpass : FirstRefusal fs (option :: value :: rest) e ↔ FirstRefusal fs rest e :=
        (Taken.value (ArgTarget.options_subset s option hs)).firstRefusal_iff hno
      rw [hpass, Args.parse, if_neg hhelp, if_neg hdaemon, if_neg hdebug, hset]
      simp only [hok]
      exact ih

/--
**How the parser ends the program, for every command line**: as the first option says that it
refuses, and not at all when it refuses none.
-/
theorem parse_error_iff (fs : FileSystem) (argv : List Bytes) :
    (∀ e, Args.parse fs {} argv = .error e ↔ FirstRefusal fs argv e) ∧
      ((∃ args, Args.parse fs {} argv = .ok args) ↔
        ∀ i, OptionAt argv i → ∀ e, ¬ Refuses fs argv i e) := by
  refine ⟨parse_error_firstRefusal {} argv, ?_⟩
  constructor
  · rintro ⟨args, hok⟩ i
    induction i using Nat.strong_induction_on with
    | _ i ih =>
        intro hat e hrefuses
        have hfirst : FirstRefusal fs argv e := ⟨i, hat, hrefuses, ih⟩
        rw [← parse_error_firstRefusal {}, hok] at hfirst
        exact absurd hfirst (by simp)
  · intro hno
    cases hparse : Args.parse fs {} argv with
    | ok args => exact ⟨args, rfl⟩
    | error e =>
        obtain ⟨i, hat, hrefuses, -⟩ := (parse_error_firstRefusal {} argv e).mp hparse
        exact absurd hrefuses (hno i hat e)

/-- The help option behind a value that is no number is not reached; the other way round, it is. -/
example :
    Args.parse { isRegularFile := fun _ => some false, empty_path := rfl } {}
        [ascii "-i", ascii "ten", ascii "-h"] = .error (.exit 2) ∧
      Args.parse { isRegularFile := fun _ => some false, empty_path := rfl } {}
        [ascii "-i", ascii "10", ascii "-h", ascii "-i"] = .error (.exit 0) := by decide

end Ntmd
