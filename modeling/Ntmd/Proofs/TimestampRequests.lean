/-
The grammar of the timestamp requests.

A timestamp is documented to be any number that fits a `time_t`.  The requests convert it
with `std::stoi`, which takes the number that a word begins with, and only one that fits an
`int`.  `conforms_iff` says for which requests that makes no difference.
-/
import Ntmd.Proofs.RequestBuffer

namespace Ntmd

open Bytes Scanf Server

/-- A parameter as it is documented. -/
def IsTimestamp (word : Bytes) : Prop := ∃ z, IsDecimal word z ∧ -2 ^ 63 ≤ z ∧ z < 2 ^ 63

/-- A final newline, or none. -/
def IsFinal (final : Bytes) : Prop := final = [] ∨ final = [10]

/-- `traffic-since` with its parameter. -/
def sinceText (ts : Int64) (final : Bytes) : Bytes :=
  ascii "traffic-since" ++ (32 :: (decimalInt ts.toInt ++ final))

/-- `traffic-between` with its parameters. -/
def betweenText (start stop : Int64) (final : Bytes) : Bytes :=
  ascii "traffic-between" ++ (32 :: (decimalInt start.toInt ++ (32 ::
    (decimalInt stop.toInt ++ final))))

/-- The command of a request. -/
def commandOf (text : Bytes) : Bytes := trim ((split text).headD [])

/-- The request is answered as its documentation says. -/
structure Conforms (text : Bytes) : Prop where
  since : ∀ ts final, IsFinal final → text = sinceText ts final →
    dispatch (split text) = .ok (.trafficSince ts)
  between : ∀ start stop final, IsFinal final → text = betweenText start stop final →
    dispatch (split text) = .ok (.trafficBetween start stop)
  /-- Without a timestamp it gets an error reply, and no query is made. -/
  sinceRefused : commandOf text = ascii "traffic-since" →
    (¬ ∃ word, (split text)[1]? = some word ∧ IsTimestamp word) →
      ∃ errmsg, dispatch (split text) = .ok (.refused errmsg)
  betweenRefused : commandOf text = ascii "traffic-between" →
    (¬ ∃ start stop, (split text)[1]? = some start ∧ (split text)[2]? = some stop ∧
      IsTimestamp start ∧ IsTimestamp stop) →
      ∃ errmsg, dispatch (split text) = .ok (.refused errmsg)

/-! ### When it does -/

/-- The word begins with a number that fits an `int`, but it goes on after that. -/
def HasGarbage (word : Bytes) : Prop := BeginsWithInt word ∧ ¬ ∃ z, IsDecimal word z

/-- The timestamps of a well-formed request fit an `int`, and no parameter that begins with such
a number goes on after it. -/
structure IntRequest (text : Bytes) : Prop where
  since : ∀ ts final, IsFinal final → text = sinceText ts final → IsInt ts.toInt
  between : ∀ start stop final, IsFinal final → text = betweenText start stop final →
    IsInt start.toInt ∧ IsInt stop.toInt
  sinceWhole : commandOf text = ascii "traffic-since" →
    ∀ word, (split text)[1]? = some word → ¬ HasGarbage word
  betweenWhole : commandOf text = ascii "traffic-between" →
    ∀ start stop, (split text)[1]? = some start → (split text)[2]? = some stop →
      BeginsWithInt start → BeginsWithInt stop → ¬ HasGarbage start ∧ ¬ HasGarbage stop

/-! ### The parameters -/

/-- A word that begins with an `int` is a timestamp exactly if that is all of it. -/
theorem isTimestamp_iff {word : Bytes} (h : BeginsWithInt word) :
    IsTimestamp word ↔ ¬ HasGarbage word := by
  constructor
  · rintro ⟨z, hz, -⟩ hgarbage
    exact hgarbage.2 ⟨z, hz⟩
  · intro hwhole
    obtain ⟨z, hz⟩ := not_not.mp fun hnone => hwhole ⟨h, hnone⟩
    obtain ⟨z', hz', hlo, hhi⟩ := h
    obtain rfl := hz.beginsWith.unique hz'
    exact ⟨z, hz, by omega, by omega⟩

/-- The conversion of a timestamp that is a word of its own. -/
theorem stoi_timestamp (ts : Int64) {final : Bytes} (hfinal : IsFinal final) :
    (IsInt ts.toInt → ∃ n, stoi (decimalInt ts.toInt ++ final) = .ok n ∧ n.toInt64 = ts) ∧
      (¬ IsInt ts.toInt → ∃ e, stoi (decimalInt ts.toInt ++ final) = .error e) := by
  have hstop : Stops isDigit final := by
    rcases hfinal with rfl | rfl
    · exact stops_nil _
    · exact stops_cons.mpr (by decide)
  have hread := readDec_decimalInt ts.toInt hstop
  constructor
  · intro hfits
    have hint : (Int32.ofInt ts.toInt).toInt = ts.toInt := hfits.toInt_ofInt
    refine ⟨Int32.ofInt ts.toInt, stoi_eq_ok_iff.mpr ⟨final, by rw [hint]; exact hread⟩, ?_⟩
    rw [← Int64.toInt_inj, Int32.toInt_toInt64, hint]
  · intro hfits
    rw [stoi, hread]
    exact ⟨_, if_neg hfits⟩

/-! ### The dispatch -/

section Dispatch

variable {text : Bytes}

/-- A command that is not empty is the first word of its request. -/
theorem split_of_command {text : Bytes} (h : commandOf text ≠ []) :
    ∃ first rest, split text = first :: rest ∧ trim first = commandOf text := by
  cases hsplit : split text with
  | nil =>
      rw [commandOf, hsplit] at h
      exact absurd rfl h
  | cons first rest => exact ⟨first, rest, rfl, by rw [commandOf, hsplit]; rfl⟩

theorem dispatch_since (h : commandOf text = ascii "traffic-since") :
    dispatch (split text) = dispatchSince (split text) := by
  have hne : commandOf text ≠ [] := by
    rw [h]
    decide
  obtain ⟨first, rest, hsplit, hfirst⟩ := split_of_command hne
  have hword : word (first :: rest) 0 = .ok first := rfl
  rw [hsplit, dispatch, hword]
  simp only [bind, Except.bind, hfirst, h]
  rw [if_neg (by decide), if_neg (by decide), if_neg (by decide), if_neg (by decide), if_pos trivial]

theorem dispatch_between (h : commandOf text = ascii "traffic-between") :
    dispatch (split text) = dispatchBetween (split text) := by
  have hne : commandOf text ≠ [] := by
    rw [h]
    decide
  obtain ⟨first, rest, hsplit, hfirst⟩ := split_of_command hne
  have hword : word (first :: rest) 0 = .ok first := rfl
  rw [hsplit, dispatch, hword]
  simp only [bind, Except.bind, hfirst, h]
  rw [if_neg (by decide), if_neg (by decide), if_neg (by decide), if_neg (by decide),
    if_neg (by decide), if_pos trivial]

variable {request : List Bytes} {first second : Bytes}

theorem word_of_getElem? {index : Nat} (h : request[index]? = some first) :
    word request index = .ok first := by
  rw [word, h]

theorem dispatchSince_ok (h : request[1]? = some first) {n : Int32} (hn : stoi first = .ok n) :
    dispatchSince request = .ok (.trafficSince n.toInt64) := by
  have hlen : 2 ≤ request.length := (List.getElem?_eq_some_iff.mp h).1
  rw [dispatchSince, if_pos hlen, word_of_getElem? h]
  simp only [bind, Except.bind, hn]
  rfl

theorem dispatchSince_error (h : ∀ word, request[1]? = some word → ∃ e, stoi word = .error e) :
    ∃ errmsg, dispatchSince request = .ok (.refused errmsg) := by
  rw [dispatchSince]
  split
  · rename_i hlen
    have hword : request[1]? = some request[1] := List.getElem?_eq_getElem hlen
    obtain ⟨e, he⟩ := h _ hword
    rw [word_of_getElem? hword]
    simp only [bind, Except.bind, he]
    cases e <;> exact ⟨_, rfl⟩
  · exact ⟨_, rfl⟩

theorem dispatchBetween_ok (h : request[1]? = some first) (h' : request[2]? = some second)
    {m n : Int32} (hm : stoi first = .ok m) (hn : stoi second = .ok n) :
    dispatchBetween request = .ok (.trafficBetween m.toInt64 n.toInt64) := by
  have hlen : 3 ≤ request.length := (List.getElem?_eq_some_iff.mp h').1
  rw [dispatchBetween, if_pos hlen, word_of_getElem? h, word_of_getElem? h']
  simp only [bind, Except.bind, hm, hn]
  rfl

theorem dispatchBetween_error (h : ∀ word word', request[1]? = some word →
      request[2]? = some word' → (∃ e, stoi word = .error e) ∨ ∃ e, stoi word' = .error e) :
    ∃ errmsg, dispatchBetween request = .ok (.refused errmsg) := by
  rw [dispatchBetween]
  split
  · rename_i hlen
    have hword : request[1]? = some request[1] := List.getElem?_eq_getElem (by omega)
    have hword' : request[2]? = some request[2] := List.getElem?_eq_getElem hlen
    rw [word_of_getElem? hword, word_of_getElem? hword']
    simp only [bind, Except.bind]
    rcases h _ _ hword hword' with ⟨e, he⟩ | ⟨e, he⟩
    · rw [he]
      cases e <;> exact ⟨_, rfl⟩
    · rw [he]
      cases stoi request[1] with
      | error e' => cases e' <;> exact ⟨_, rfl⟩
      | ok m => cases e <;> exact ⟨_, rfl⟩
  · exact ⟨_, rfl⟩

end Dispatch

/-! ### The requests as documented -/

theorem space_not_mem_decimalInt (z : Int) : (32 : UInt8) ∉ decimalInt z :=
  not_mem_decimalInt (by decide) (by decide)

theorem decimalInt_append_ne_nil (z : Int) (final : Bytes) : decimalInt z ++ final ≠ [] := by
  have hdecimal := decimal_ne_nil z.natAbs
  rw [decimalInt]
  split <;> simp [hdecimal]

theorem split_timestamp (ts : Int64) {final : Bytes} (hfinal : IsFinal final) :
    split (decimalInt ts.toInt ++ final) = [decimalInt ts.toInt ++ final] := by
  refine split_word ?_ (decimalInt_append_ne_nil _ _)
  rw [List.mem_append]
  rintro (h | h)
  · exact space_not_mem_decimalInt _ h
  · rcases hfinal with rfl | rfl
    · exact absurd h (by simp)
    · exact absurd h (by decide)

theorem split_sinceText (ts : Int64) {final : Bytes} (hfinal : IsFinal final) :
    split (sinceText ts final) = [ascii "traffic-since", decimalInt ts.toInt ++ final] := by
  rw [sinceText, split_cons (by decide), split_timestamp ts hfinal]

theorem split_betweenText (start stop : Int64) {final : Bytes} (hfinal : IsFinal final) :
    split (betweenText start stop final) =
      [ascii "traffic-between", decimalInt start.toInt, decimalInt stop.toInt ++ final] := by
  rw [betweenText, split_cons (by decide), split_cons (space_not_mem_decimalInt _),
    split_timestamp stop hfinal]

theorem commandOf_sinceText (ts : Int64) {final : Bytes} (hfinal : IsFinal final) :
    commandOf (sinceText ts final) = ascii "traffic-since" := by
  rw [commandOf, split_sinceText ts hfinal]
  show trim (ascii "traffic-since") = ascii "traffic-since"
  decide

theorem commandOf_betweenText (start stop : Int64) {final : Bytes} (hfinal : IsFinal final) :
    commandOf (betweenText start stop final) = ascii "traffic-between" := by
  rw [commandOf, split_betweenText start stop hfinal]
  show trim (ascii "traffic-between") = ascii "traffic-between"
  decide

/-! ### Clause by clause -/

theorem since_iff (ts : Int64) {final : Bytes} (hfinal : IsFinal final) :
    dispatch (split (sinceText ts final)) = .ok (.trafficSince ts) ↔ IsInt ts.toInt := by
  rw [dispatch_since (commandOf_sinceText ts hfinal), split_sinceText ts hfinal]
  obtain ⟨hok, herror⟩ := stoi_timestamp ts hfinal
  by_cases hfits : IsInt ts.toInt
  · obtain ⟨n, hn, hts⟩ := hok hfits
    refine iff_of_true ?_ hfits
    rw [dispatchSince_ok rfl hn, hts]
  · obtain ⟨e, he⟩ := herror hfits
    have hwords : ∀ word, [ascii "traffic-since", decimalInt ts.toInt ++ final][1]? = some word →
        ∃ e, stoi word = .error e := fun word hword => by
      rw [← Option.some.inj hword]
      exact ⟨e, he⟩
    obtain ⟨errmsg, hrefused⟩ := dispatchSince_error hwords
    refine iff_of_false ?_ hfits
    rw [hrefused]
    simp

theorem between_iff (start stop : Int64) {final : Bytes} (hfinal : IsFinal final) :
    dispatch (split (betweenText start stop final)) = .ok (.trafficBetween start stop) ↔
      IsInt start.toInt ∧ IsInt stop.toInt := by
  rw [dispatch_between (commandOf_betweenText start stop hfinal),
    split_betweenText start stop hfinal]
  obtain ⟨hok, herror⟩ := stoi_timestamp start (Or.inl rfl : IsFinal [])
  obtain ⟨hok', herror'⟩ := stoi_timestamp stop hfinal
  rw [List.append_nil] at hok herror
  by_cases hfits : IsInt start.toInt ∧ IsInt stop.toInt
  · obtain ⟨m, hm, hstart⟩ := hok hfits.1
    obtain ⟨n, hn, hstop⟩ := hok' hfits.2
    refine iff_of_true ?_ hfits
    rw [dispatchBetween_ok rfl rfl hm hn, hstart, hstop]
  · have hwords : ∀ word word',
        [ascii "traffic-between", decimalInt start.toInt,
          decimalInt stop.toInt ++ final][1]? = some word →
        [ascii "traffic-between", decimalInt start.toInt,
          decimalInt stop.toInt ++ final][2]? = some word' →
        (∃ e, stoi word = .error e) ∨ ∃ e, stoi word' = .error e := fun word word' hword hword' => by
      rw [← Option.some.inj hword, ← Option.some.inj hword']
      exact (not_and_or.mp hfits).imp herror herror'
    obtain ⟨errmsg, hrefused⟩ := dispatchBetween_error hwords
    refine iff_of_false ?_ hfits
    rw [hrefused]
    simp

theorem sinceRefused_iff {text : Bytes} (h : commandOf text = ascii "traffic-since") :
    ((¬ ∃ word, (split text)[1]? = some word ∧ IsTimestamp word) →
      ∃ errmsg, dispatch (split text) = .ok (.refused errmsg)) ↔
      ∀ word, (split text)[1]? = some word → ¬ HasGarbage word := by
  rw [dispatch_since h]
  constructor
  · intro hrefuses word hword hgarbage
    have hbegins := hgarbage.1
    obtain ⟨errmsg, hrefused⟩ := hrefuses (by
      rintro ⟨word', hword', htimestamp⟩
      obtain rfl : word = word' := Option.some.inj (hword.symm.trans hword')
      exact (isTimestamp_iff hbegins).mp htimestamp hgarbage)
    obtain ⟨n, hn⟩ := beginsWithInt_iff.mp hbegins
    rw [dispatchSince_ok hword hn] at hrefused
    exact absurd hrefused (by simp)
  · intro hwhole hnone
    refine dispatchSince_error fun word hword => stoi_error fun hbegins => ?_
    exact hnone ⟨word, hword, (isTimestamp_iff hbegins).mpr (hwhole word hword)⟩

theorem betweenRefused_iff {text : Bytes} (h : commandOf text = ascii "traffic-between") :
    ((¬ ∃ start stop, (split text)[1]? = some start ∧ (split text)[2]? = some stop ∧
        IsTimestamp start ∧ IsTimestamp stop) →
      ∃ errmsg, dispatch (split text) = .ok (.refused errmsg)) ↔
      ∀ start stop, (split text)[1]? = some start → (split text)[2]? = some stop →
        BeginsWithInt start → BeginsWithInt stop → ¬ HasGarbage start ∧ ¬ HasGarbage stop := by
  rw [dispatch_between h]
  constructor
  · intro hrefuses start stop hstart hstop hbegins hbegins'
    rw [← isTimestamp_iff hbegins, ← isTimestamp_iff hbegins']
    by_contra hnot
    obtain ⟨errmsg, hrefused⟩ := hrefuses (by
      rintro ⟨start', stop', hstart', hstop', htimestamps⟩
      obtain rfl : start = start' := Option.some.inj (hstart.symm.trans hstart')
      obtain rfl : stop = stop' := Option.some.inj (hstop.symm.trans hstop')
      exact hnot htimestamps)
    obtain ⟨m, hm⟩ := beginsWithInt_iff.mp hbegins
    obtain ⟨n, hn⟩ := beginsWithInt_iff.mp hbegins'
    rw [dispatchBetween_ok hstart hstop hm hn] at hrefused
    exact absurd hrefused (by simp)
  · intro hwhole hnone
    refine dispatchBetween_error fun start stop hstart hstop => ?_
    by_cases hbegins : BeginsWithInt start
    · refine Or.inr (stoi_error fun hbegins' => hnone ⟨start, stop, hstart, hstop, ?_⟩)
      rw [isTimestamp_iff hbegins, isTimestamp_iff hbegins']
      exact hwhole start stop hstart hstop hbegins hbegins'
    · exact Or.inl (stoi_error hbegins)

/-- **When a request is answered as documented.** -/
theorem conforms_iff (text : Bytes) : Conforms text ↔ IntRequest text := by
  constructor
  · intro h
    refine ⟨?_, ?_, fun hcommand => (sinceRefused_iff hcommand).mp (h.sinceRefused hcommand),
      fun hcommand => (betweenRefused_iff hcommand).mp (h.betweenRefused hcommand)⟩
    · rintro ts final hfinal rfl
      exact (since_iff ts hfinal).mp (h.since ts final hfinal rfl)
    · rintro start stop final hfinal rfl
      exact (between_iff start stop hfinal).mp (h.between start stop final hfinal rfl)
  · intro h
    refine ⟨?_, ?_, fun hcommand => (sinceRefused_iff hcommand).mpr (h.sinceWhole hcommand),
      fun hcommand => (betweenRefused_iff hcommand).mpr (h.betweenWhole hcommand)⟩
    · rintro ts final hfinal rfl
      exact (since_iff ts hfinal).mpr (h.since ts final hfinal rfl)
    · rintro start stop final hfinal rfl
      exact (between_iff start stop hfinal).mpr (h.between start stop final hfinal rfl)

/-- The first second that does not fit an `int` is refused, and a word that goes on after its number
is accepted as that number. -/
theorem not_conforms_2038 :
    (∃ errmsg, dispatch (split (ascii "traffic-since 2147483648")) = .ok (.refused errmsg)) ∧
      ¬ Conforms (ascii "traffic-since 2147483648") ∧
      dispatch (split (ascii "traffic-since 10abc")) = .ok (.trafficSince 10) ∧
      ¬ Conforms (ascii "traffic-since 10abc") := by
  have hlate : dispatch (split (ascii "traffic-since 2147483648")) =
      .ok (.refused (ascii "Timestamp parameter value too large for traffic-since.")) := by rfl
  have hgarbage : dispatch (split (ascii "traffic-since 10abc")) = .ok (.trafficSince 10) := by rfl
  have hdecimal : decimalInt 2147483648 = ascii "2147483648" := by
    decide
  refine ⟨⟨_, hlate⟩, fun h => ?_, hgarbage, fun h => ?_⟩
  · have hok := h.since 2147483648 [] (Or.inl rfl) (by
      rw [sinceText, show (2147483648 : Int64).toInt = 2147483648 from rfl, hdecimal]
      rfl)
    rw [hlate] at hok
    exact absurd hok (by simp)
  · have hword : (split (ascii "traffic-since 10abc"))[1]? = some (ascii "10abc") := by decide
    have hread : readDec (ascii "10abc") = some (10, ascii "abc") := by decide
    have hbegins : BeginsWithInt (ascii "10abc") := ⟨10, ⟨_, hread⟩, by decide⟩
    have hnone : ¬ ∃ z, IsDecimal (ascii "10abc") z :=
      not_isDecimal hread (c := 97) (by decide) (by decide)
    obtain ⟨errmsg, hrefused⟩ := h.sinceRefused (by decide) (by
      rintro ⟨word, hword', htimestamp⟩
      obtain rfl : ascii "10abc" = word := Option.some.inj (hword.symm.trans hword')
      exact (isTimestamp_iff hbegins).mp htimestamp ⟨hbegins, hnone⟩)
    rw [hgarbage] at hrefused
    exact absurd hrefused (by simp)

end Ntmd
