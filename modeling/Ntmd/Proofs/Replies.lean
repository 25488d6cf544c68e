/-
What a client reads in a reply.

A client has the text of a reply and nothing else.  `Reply.ofJson` is what it gets out
of it by the names of the fields: whether the command succeeded, how many applications
there are, the interval, and the four counters of each name.

`readsBack` says that this is what the daemon had: the map that `trafficToJson` was
given, name by name.  An `unordered_map` is gone through in an order of its own, and
the text does not depend on it, since the keys of an object are in order; so two
replies are the same text exactly if they are about the same map.
-/
import Ntmd.Lib.JsonRead
import Ntmd.Proofs.ResponseText

namespace Ntmd

open Bytes Json

/-! ### A client -/

/-- The counters in the object of a name. -/
def lineOfJson (j : Json) : Option TrafficLine := do
  let bytesRx ← (j.get (ascii "bytesRx")).asInt
  let bytesTx ← (j.get (ascii "bytesTx")).asInt
  let pktRxCount ← (j.get (ascii "pktRxCount")).asInt
  let pktTxCount ← (j.get (ascii "pktTxCount")).asInt
  return {
    bytesRx := UInt64.ofInt bytesRx
    bytesTx := UInt64.ofInt bytesTx
    pktRxCount := Int32.ofInt pktRxCount
    pktTxCount := Int32.ofInt pktTxCount }

/-- What a client knows after a reply. -/
inductive Reply
  | success (length : Int) (interval : Option Int) (lines : Bytes → Option TrafficLine)
  | error (errmsg : Bytes)

namespace Reply

/-- By `result`, and then the other fields. -/
def ofJson (j : Json) : Option Reply :=
  match (j.get (ascii "result")).asText with
  | none => none
  | some result =>
      if result = ascii "success" then
        (j.get (ascii "length")).asInt.map fun length =>
          success length (j.get (ascii "interval")).asInt fun name =>
            lineOfJson ((j.get (ascii "data")).get name)
      else if result = ascii "error" then (j.get (ascii "errmsg")).asText.map error
      else none

/-- The text of a reply, by a reader of JSON. -/
def ofText (read : Bytes → Option Json) (text : Bytes) : Option Reply := (read text).bind ofJson

/-- What the daemon has to say about a map. -/
def ofTraffic (traffic : TrafficMap) (interval : Option Int32) : Reply :=
  success traffic.entries.length (interval.map Int32.toInt) traffic.lookup

end Reply

/-! ### The object of the names -/

theorem lineOfJson_lineJson (line : TrafficLine) : lineOfJson (lineJson line) = some line := by
  have hrx : UInt64.ofInt (line.bytesRx.toNat : Int) = line.bytesRx := CInt.uint64_ofInt_toNat _
  have htx : UInt64.ofInt (line.bytesTx.toNat : Int) = line.bytesTx := CInt.uint64_ofInt_toNat _
  have hfields : (lineJson line).get (ascii "bytesRx") = num line.bytesRx.toNat ∧
      (lineJson line).get (ascii "bytesTx") = num line.bytesTx.toNat ∧
      (lineJson line).get (ascii "pktRxCount") = num line.pktRxCount.toInt ∧
      (lineJson line).get (ascii "pktTxCount") = num line.pktTxCount.toInt := by
    simp only [lineJson, get_set]
    exact ⟨rfl, rfl, rfl, rfl⟩
  rw [lineOfJson, hfields.1, hfields.2.1, hfields.2.2.1, hfields.2.2.2]
  simp [asInt, hrx, htx]

theorem get_null (k : Bytes) : null.get k = null := rfl

theorem lineOfJson_null : lineOfJson null = none := by simp [lineOfJson, get_null, asInt]

/-- Each name has the line that the loop gave it. -/
theorem get_dataFields (name : Bytes) : ∀ {entries : List (Σ _ : Bytes, TrafficLine)},
    entries.NodupKeys → ∀ fields : List (Bytes × Json),
      (obj (dataFields entries fields)).get name =
        match entries.dlookup name with
        | some line => lineJson line
        | none => (obj fields).get name := by
  intro entries
  induction entries with
  | nil => intro _ fields; rfl
  | cons e entries ih =>
      intro hkeys fields
      obtain ⟨hnew, hrest⟩ := List.nodupKeys_cons.mp hkeys
      have hstep : dataFields (e :: entries) fields =
          dataFields entries (setField e.1 (lineJson e.2) fields) := rfl
      rw [hstep, ih hrest, get_setField]
      by_cases hname : e.1 = name
      · subst hname
        rw [List.dlookup_eq_none.mpr hnew, List.dlookup_cons_eq, if_pos rfl]
      · rw [List.dlookup_cons_ne _ e (Ne.symm hname), if_neg hname]

/-- The order of the names makes no difference. -/
theorem dataFields_of_perm {entries entries' : List (Σ _ : Bytes, TrafficLine)}
    (hkeys : entries.NodupKeys) (h : entries.Perm entries') (fields : List (Bytes × Json)) :
    dataFields entries fields = dataFields entries' fields := by
  refine h.foldl_eq' (fun e he e' he' fields => ?_) fields
  by_cases hsame : e.1 = e'.1
  · rw [hkeys.eq_of_fst_eq he he' hsame]
  · exact (setField_comm hsame _ _ _).symm

/-! ### The object of a reply -/

/-- `trafficToJson` has a field for the names as soon as there are any. -/
theorem trafficToJson_eq (traffic : TrafficMap) : trafficToJson traffic =
    if traffic.entries = [] then obj [(ascii "length", .num 0)]
    else trafficObj traffic.entries.length (dataFields traffic.entries []) := by
  rw [trafficToJson]
  cases traffic.entries with
  | nil => rfl
  | cons e entries =>
      rw [List.foldl_cons, set_data_first, foldl_set_data, if_neg (List.cons_ne_nil e entries)]
      rfl

theorem get_length (traffic : TrafficMap) :
    (trafficToJson traffic).get (ascii "length") = .num traffic.entries.length := by
  rw [trafficToJson_eq]
  split
  · rename_i h
    rw [h]
    rfl
  · rfl

/-- The object behind a name is that of its line, and there is none for a name without traffic. -/
theorem lineOfJson_get_data (traffic : TrafficMap) (name : Bytes) :
    lineOfJson (((trafficToJson traffic).get (ascii "data")).get name) = traffic.lookup name := by
  rw [trafficToJson_eq, AList.lookup]
  split
  · rename_i h
    rw [h]
    exact lineOfJson_null
  · have hdata : (trafficObj traffic.entries.length (dataFields traffic.entries [])).get
        (ascii "data") = obj (dataFields traffic.entries []) := rfl
    rw [hdata, get_dataFields name traffic.nodupKeys]
    cases traffic.entries.dlookup name with
    | none => exact lineOfJson_null
    | some line => exact lineOfJson_lineJson line

theorem get_interval (traffic : TrafficMap) :
    (trafficToJson traffic).get (ascii "interval") = null := by
  rw [trafficToJson_eq]
  split <;> rfl

theorem trafficToJson_of_perm {traffic traffic' : TrafficMap}
    (h : traffic.entries.Perm traffic'.entries) : trafficToJson traffic = trafficToJson traffic' := by
  rw [trafficToJson_eq, trafficToJson_eq, dataFields_of_perm traffic.nodupKeys h, h.length_eq]
  simp only [← List.length_eq_zero_iff, h.length_eq]

/-! ### Replies -/

namespace Reply

theorem ofJson_of_success {j : Json} (hresult : j.get (ascii "result") = str (ascii "success"))
    {n : Int} (hlength : j.get (ascii "length") = num n) :
    ofJson j = some (success n (j.get (ascii "interval")).asInt fun name =>
      lineOfJson ((j.get (ascii "data")).get name)) := by
  rw [ofJson, hresult, hlength]
  simp [asText, asInt]

theorem ofJson_livePayload (traffic : TrafficMap) (interval : Int32) :
    ofJson (livePayload traffic interval) = some (ofTraffic traffic (some interval)) := by
  have hget : ∀ k, (livePayload traffic interval).get k =
      if ascii "result" = k then str (ascii "success")
      else if ascii "interval" = k then num interval.toInt else (trafficToJson traffic).get k := by
    intro k
    rw [livePayload, get_set, get_set]
  have hlength : (livePayload traffic interval).get (ascii "length") =
      num traffic.entries.length := (hget _).trans (get_length traffic)
  have hdata : (livePayload traffic interval).get (ascii "data") =
      (trafficToJson traffic).get (ascii "data") := hget _
  have hinterval : (livePayload traffic interval).get (ascii "interval") = num interval.toInt :=
    hget _
  rw [ofJson_of_success (hget _) hlength, hdata, hinterval]
  simp only [lineOfJson_get_data]
  rfl

theorem ofJson_historyPayload (traffic : TrafficMap) :
    ofJson (historyPayload traffic) = some (ofTraffic traffic none) := by
  have hget : ∀ k, (historyPayload traffic).get k =
      if ascii "result" = k then str (ascii "success") else (trafficToJson traffic).get k := by
    intro k
    rw [historyPayload, get_set]
  have hlength : (historyPayload traffic).get (ascii "length") = num traffic.entries.length :=
    (hget _).trans (get_length traffic)
  have hdata : (historyPayload traffic).get (ascii "data") =
      (trafficToJson traffic).get (ascii "data") := hget _
  have hinterval : (historyPayload traffic).get (ascii "interval") = null :=
    (hget _).trans (get_interval traffic)
  rw [ofJson_of_success (hget _) hlength, hdata, hinterval]
  simp only [lineOfJson_get_data]
  rfl

theorem ofJson_errorPayload (errmsg : Bytes) :
    ofJson (errorPayload errmsg) = some (error errmsg) := by
  have hget : ∀ k, (errorPayload errmsg).get k =
      if ascii "errmsg" = k then str errmsg
      else if ascii "result" = k then str (ascii "error") else null := by
    intro k
    rw [errorPayload, get_set, get_set]
    rfl
  have hresult : (errorPayload errmsg).get (ascii "result") = str (ascii "error") := hget _
  have herrmsg : (errorPayload errmsg).get (ascii "errmsg") = str errmsg := hget _
  have hne : ascii "error" ≠ ascii "success" := by decide
  rw [ofJson, hresult, herrmsg]
  simp [asText, hne]

/-- Two maps with nothing to tell them apart have the same entries. -/
theorem ofTraffic_eq_iff {traffic traffic' : TrafficMap} {interval interval' : Option Int32} :
    ofTraffic traffic interval = ofTraffic traffic' interval' ↔
      traffic.entries.Perm traffic'.entries ∧ interval = interval' := by
  have hinjective : Function.Injective (Option.map Int32.toInt) :=
    Option.map_injective fun _ _ h => Int32.toInt_inj.mp h
  constructor
  · intro h
    injection h with _ hinterval hlookup
    refine ⟨List.lookup_ext traffic.nodupKeys traffic'.nodupKeys fun name line => ?_,
      hinjective hinterval⟩
    have hname : traffic.lookup name = traffic'.lookup name := congrFun hlookup name
    rw [AList.lookup, AList.lookup] at hname
    rw [hname]
  · rintro ⟨hperm, rfl⟩
    rw [ofTraffic, ofTraffic, hperm.length_eq]
    exact congrArg _ (funext fun name => AList.perm_lookup hperm)

section
variable {w : Writers} {read : Bytes → Option Json} (h : Inverse read w.dump) {text : Bytes}
include h

theorem ofText_livePayload {traffic : TrafficMap} {interval : Int32}
    (htext : w.dump (livePayload traffic interval) = some text) :
    ofText read text = some (ofTraffic traffic (some interval)) := by
  rw [ofText, h _ _ htext, Option.bind_some, ofJson_livePayload]

theorem ofText_historyPayload {traffic : TrafficMap}
    (htext : w.dump (historyPayload traffic) = some text) :
    ofText read text = some (ofTraffic traffic none) := by
  rw [ofText, h _ _ htext, Option.bind_some, ofJson_historyPayload]

theorem ofText_errorPayload {errmsg : Bytes} (htext : w.dump (errorPayload errmsg) = some text) :
    ofText read text = some (error errmsg) := by
  rw [ofText, h _ _ htext, Option.bind_some, ofJson_errorPayload]

end

end Reply

/-- What a reply says to a client, for each of the three kinds. -/
structure ReadsBack (w : Writers) (read : Bytes → Option Json) : Prop where
  live : ∀ traffic interval text, w.dump (livePayload traffic interval) = some text →
    Reply.ofText read text = some (Reply.ofTraffic traffic (some interval))
  history : ∀ traffic text, w.dump (historyPayload traffic) = some text →
    Reply.ofText read text = some (Reply.ofTraffic traffic none)
  refused : ∀ errmsg text, w.dump (errorPayload errmsg) = some text →
    Reply.ofText read text = some (Reply.error errmsg)
  /-- The text is that of the map, whatever the order its names come in. -/
  live_eq_iff : ∀ traffic traffic' interval interval' text,
    w.dump (livePayload traffic interval) = some text →
      (w.dump (livePayload traffic' interval') = some text ↔
        traffic.entries.Perm traffic'.entries ∧ interval = interval')
  history_eq_iff : ∀ traffic traffic' text, w.dump (historyPayload traffic) = some text →
    (w.dump (historyPayload traffic') = some text ↔ traffic.entries.Perm traffic'.entries)

/-- **What a client reads in a reply is what the daemon had**, for every map and with any writer that
the client's reader undoes. -/
theorem readsBack (w : Writers) (read : Bytes → Option Json) (h : Inverse read w.dump) :
    ReadsBack w read := by
  refine
    { live := fun _ _ _ htext => Reply.ofText_livePayload h htext
      history := fun _ _ htext => Reply.ofText_historyPayload h htext
      refused := fun _ _ htext => Reply.ofText_errorPayload h htext
      live_eq_iff := fun traffic traffic' interval interval' text htext => ⟨fun htext' => ?_, ?_⟩
      history_eq_iff := fun traffic traffic' text htext => ⟨fun htext' => ?_, fun hperm => ?_⟩ }
  · have hsame := (Reply.ofText_livePayload h htext).symm.trans (Reply.ofText_livePayload h htext')
    obtain ⟨hperm, hinterval⟩ := Reply.ofTraffic_eq_iff.mp (Option.some.inj hsame)
    exact ⟨hperm, Option.some.inj hinterval⟩
  · rintro ⟨hperm, rfl⟩
    rw [← htext, livePayload, livePayload, trafficToJson_of_perm hperm]
  · have hsame := (Reply.ofText_historyPayload h htext).symm.trans (Reply.ofText_historyPayload h htext')
    exact (Reply.ofTraffic_eq_iff.mp (Option.some.inj hsame)).1
  · rw [← htext, historyPayload, historyPayload, trafficToJson_of_perm hperm]

/-- With the compact writer and its reader. -/
theorem readsBack_dump : ReadsBack strictWriters Json.read :=
  readsBack strictWriters Json.read inverse_dump

end Ntmd
