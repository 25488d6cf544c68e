/-
When a response can be written.

The names of a `TrafficMap` are the keys of an object, and all other texts of a
response are the daemon's own.  So a writer that refuses what is not UTF-8 refuses a
response exactly for its names, whichever of the handlers builds it, and whether the
names come from memory or from the database.
-/
import Ntmd.Api.APIController
import Ntmd.Proofs.Fetch

namespace Ntmd

open Bytes DBController Json

/-- Every name is UTF-8. -/
def NamesValid (traffic : TrafficMap) : Prop := ∀ name ∈ traffic, ValidUtf8 name

/-- Every table that the query finds traffic in has a name that is UTF-8. -/
def TablesValid (r : Reads) (q : Query) : Prop :=
  ∀ name ∈ r.db.tables, (lineOf (q.answer r.db r.other name)).empty = false → ValidUtf8 name

/-! ### The object of the names -/

theorem valid_lineJson (line : TrafficLine) : (lineJson line).Valid :=
  (((valid_null.set (by decide +kernel) (valid_num _)).set (by decide +kernel) (valid_num _)).set
    (by decide +kernel) (valid_num _)).set (by decide +kernel) (valid_num _)

/-- The fields of `payload["data"]` after the loop, begun with some. -/
def dataFields (entries : List (Σ _ : Bytes, TrafficLine)) (fields : List (Bytes × Json)) :
    List (Bytes × Json) :=
  entries.foldl (fun fields e => setField e.1 (lineJson e.2) fields) fields

/-- The names are what decides, since every line is valid. -/
theorem valid_dataFields : ∀ {entries : List (Σ _ : Bytes, TrafficLine)}
    {fields : List (Bytes × Json)}, (∀ field ∈ fields, field.2.Valid) →
      ((obj (dataFields entries fields)).Valid ↔
        (∀ e ∈ entries, ValidUtf8 e.1) ∧ (obj fields).Valid) := by
  intro entries
  induction entries with
  | nil => intro fields _; simp [dataFields]
  | cons e entries ih =>
      intro fields hfields
      have hset : ∀ field ∈ setField e.1 (lineJson e.2) fields, field.2.Valid := by
        intro field hfield
        rcases mem_of_mem_setField hfield with rfl | hfield
        · exact valid_lineJson e.2
        · exact hfields field hfield
      have hstep : dataFields (e :: entries) fields =
          dataFields entries (setField e.1 (lineJson e.2) fields) := rfl
      rw [hstep, ih hset, valid_setField (valid_lineJson e.2) fun field hf _ => hfields field hf,
        List.forall_mem_cons, and_assoc, and_left_comm]

/-- The object with the names in it, as long as there are any. -/
def trafficObj (n : Nat) (fields : List (Bytes × Json)) : Json :=
  obj [(ascii "data", obj fields), (ascii "length", .num n)]

theorem set_data (n : Nat) (fields : List (Bytes × Json)) (k : Bytes) (v : Json) :
    (trafficObj n fields).set (ascii "data") (((trafficObj n fields).get (ascii "data")).set k v) =
      trafficObj n (setField k v fields) := by
  simp [trafficObj, Json.set, Json.get, setField]

theorem set_data_first (n : Nat) (k : Bytes) (v : Json) :
    (Json.null.set (ascii "length") (.num n)).set (ascii "data")
      (((Json.null.set (ascii "length") (.num n)).get (ascii "data")).set k v) =
      trafficObj n (setField k v []) := by
  have hne : (ascii "length" == ascii "data") = false := by decide
  have hne' : ascii "data" ≠ ascii "length" := by decide
  have hlt : ascii "data" < ascii "length" := by decide
  simp [trafficObj, Json.set, Json.get, setField, hne, hne', hlt]

theorem foldl_set_data (n : Nat) : ∀ (entries : List (Σ _ : Bytes, TrafficLine))
    (fields : List (Bytes × Json)),
    entries.foldl (fun payload e => payload.set (ascii "data")
      ((payload.get (ascii "data")).set e.1 (lineJson e.2))) (trafficObj n fields) =
        trafficObj n (dataFields entries fields) := by
  intro entries
  induction entries with
  | nil => intro fields; rfl
  | cons e entries ih =>
      intro fields
      rw [List.foldl_cons, set_data, ih]
      rfl

theorem valid_trafficObj (n : Nat) (fields : List (Bytes × Json)) :
    (trafficObj n fields).Valid ↔ (obj fields).Valid := by
  have hkeys : ValidUtf8 (ascii "data") ∧ ValidUtf8 (ascii "length") := by decide +kernel
  rw [trafficObj, valid_obj, List.forall_mem_cons, List.forall_mem_singleton]
  simp [hkeys]

/-- The response without its last fields can be written exactly if the names can. -/
theorem valid_trafficToJson (traffic : TrafficMap) :
    (trafficToJson traffic).Valid ↔ NamesValid traffic := by
  have hnames : NamesValid traffic ↔ ∀ e ∈ traffic.entries, ValidUtf8 e.1 := by
    constructor
    · exact fun h e he => h e.1 (AList.mem_keys.mpr (List.mem_map.mpr ⟨e, he, rfl⟩))
    · intro h name hname
      obtain ⟨e, he, rfl⟩ := List.mem_map.mp (AList.mem_keys.mp hname)
      exact h e he
  rw [hnames, trafficToJson]
  cases traffic.entries with
  | nil =>
      have hempty : (Json.null.set (ascii "length") (.num 0)).Valid :=
        valid_null.set (by decide +kernel) (valid_num 0)
      exact iff_of_true hempty (by simp)
  | cons e entries =>
      rw [List.foldl_cons, set_data_first, foldl_set_data, valid_trafficObj]
      have hdata := @valid_dataFields (e :: entries) [] (by simp)
      rw [← hdata.trans (and_iff_left (valid_obj.mpr (by simp)))]
      rfl

/-- It has two fields at most. -/
theorem exists_trafficFields (traffic : TrafficMap) : ∃ fields,
    trafficToJson traffic = obj fields ∧
      ∀ field ∈ fields, field.1 = ascii "data" ∨ field.1 = ascii "length" := by
  rw [trafficToJson]
  cases traffic.entries with
  | nil => exact ⟨_, rfl, by simp⟩
  | cons e entries =>
      rw [List.foldl_cons, set_data_first, foldl_set_data]
      exact ⟨_, rfl, by simp⟩

/-! ### The responses -/

/-- A field of another name that is valid makes no difference. -/
theorem valid_setField_new {k : Bytes} {v : Json} {fields : List (Bytes × Json)}
    (hk : ValidUtf8 k) (hv : v.Valid) (hnew : ∀ field ∈ fields, field.1 ≠ k) :
    (obj (setField k v fields)).Valid ↔ (obj fields).Valid := by
  rw [valid_setField hv fun field hfield hf => absurd hf (hnew field hfield)]
  exact and_iff_right hk

theorem valid_success : (str (ascii "success")).Valid := valid_str.mpr (by decide +kernel)

theorem valid_historyPayload (traffic : TrafficMap) :
    (historyPayload traffic).Valid ↔ NamesValid traffic := by
  obtain ⟨fields, hfields, hnames⟩ := exists_trafficFields traffic
  rw [← valid_trafficToJson, historyPayload, hfields]
  refine valid_setField_new (by decide +kernel) valid_success fun field hfield => ?_
  rcases hnames field hfield with h | h <;> rw [h] <;> decide

theorem valid_livePayload (traffic : TrafficMap) (interval : Int32) :
    (livePayload traffic interval).Valid ↔ NamesValid traffic := by
  obtain ⟨fields, hfields, hnames⟩ := exists_trafficFields traffic
  rw [← valid_trafficToJson, livePayload, hfields]
  have hinterval : ∀ field ∈ fields, field.1 ≠ ascii "interval" := fun field hfield => by
    rcases hnames field hfield with h | h <;> rw [h] <;> decide
  have hresult : ∀ field ∈ setField (ascii "interval") (.num interval.toInt) fields,
      field.1 ≠ ascii "result" := fun field hfield => by
    rcases mem_of_mem_setField hfield with rfl | hfield
    · exact show ascii "interval" ≠ ascii "result" by decide
    · rcases hnames field hfield with h | h <;> rw [h] <;> decide
  exact (valid_setField_new (by decide +kernel) valid_success hresult).trans
    (valid_setField_new (by decide +kernel) (valid_num _) hinterval)

/-- The names that were stored are the names that are fetched. -/
theorem namesValid_fetch_iff (r : Reads) (q : Query) :
    NamesValid (q.fetch r.db r.other) ↔ TablesValid r q := by
  have hmem : ∀ name, name ∈ q.fetch r.db r.other ↔
      name ∈ r.db.tables ∧ (lineOf (q.answer r.db r.other name)).empty = false := fun name => by
    rw [← AList.lookup_isSome, q.fetch_lookup]
    split
    · rename_i h
      exact iff_of_true rfl h
    · rename_i h
      exact iff_of_false (by simp) h
  simp only [NamesValid, TablesValid, hmem, and_imp]

/-- When each of the five handlers has a text to send. -/
structure RespondsIffValid (w : Writers) : Prop where
  snapshot : ∀ r : Reads, (snapshot w r).isSome = true ↔ NamesValid r.storage.mApplicationTraffic
  live : ∀ traffic interval,
    (HandlerPc.serve w traffic interval .live).isSome = true ↔ NamesValid traffic
  /-- The three queries, by the map they answer with, -/
  history : ∀ traffic, (w.dump (historyPayload traffic)).isSome = true ↔ NamesValid traffic
  /-- and by the database that it comes from. -/
  trafficDaily : ∀ r : Reads, (trafficDaily w r).isSome = true ↔
    TablesValid r (sinceQuery r.startOfCurrentDay)
  trafficSince : ∀ (r : Reads) ts,
    (trafficSince w r ts).isSome = true ↔ TablesValid r (sinceQuery ts)
  trafficBetween : ∀ (r : Reads) start stop,
    (trafficBetween w r start stop).isSome = true ↔ TablesValid r (betweenQuery start stop)

/--
**Each of the five handlers builds its response exactly if every name in its map is UTF-8**, with
any writer that fails on other texts and on nothing else.
-/
theorem respondsIffValid (w : Writers) (hw : Strict w.dump) : RespondsIffValid w where
  snapshot r := by
    rw [Ntmd.snapshot, Option.isSome_map, hw, valid_livePayload]
    rfl
  live traffic interval := by
    rw [HandlerPc.serve, Option.isSome_map, hw, valid_livePayload]
  history traffic := by
    rw [hw, valid_historyPayload]
  trafficDaily r := by
    rw [Ntmd.trafficDaily, Option.isSome_map, hw, valid_historyPayload, fetchTrafficSince_eq,
      namesValid_fetch_iff]
  trafficSince r ts := by
    rw [Ntmd.trafficSince, Option.isSome_map, hw, valid_historyPayload, fetchTrafficSince_eq,
      namesValid_fetch_iff]
  trafficBetween r start stop := by
    rw [Ntmd.trafficBetween, Option.isSome_map, hw, valid_historyPayload, fetchTrafficBetween_eq,
      namesValid_fetch_iff]

/-! ### Two names -/

def strictWriters : Writers where
  dump := Json.dump
  bytesToHumanOvertime _ _ := ascii "0.0 B/s"

/-- The traffic of one application. -/
def trafficOf (name : Bytes) : TrafficMap := AList.singleton name {}

theorem respondsIffValid_ssh :
    (snapshot strictWriters
      { storage := { mInterval := 10, mApplicationTraffic := trafficOf (ascii "ssh") }
        db := Database.empty, other := fun _ => none, startOfCurrentDay := 0 }).isSome = true :=
  ((respondsIffValid strictWriters strict_dump).snapshot _).mpr fun name hname => by
    rw [List.mem_singleton.mp (AList.mem_keys.mp hname)]
    decide +kernel

/-- A name of fourteen letters and an accented one, cut at fifteen bytes. -/
def cutName : Bytes := ascii "configuration-" ++ [0xC3]

/-- Neither kind of response can be written for it. -/
theorem not_responds_cutName :
    ¬ ∀ traffic : TrafficMap, (HandlerPc.serve strictWriters traffic 10 .live).isSome = true ∧
      (strictWriters.dump (historyPayload traffic)).isSome = true := by
  intro h
  obtain ⟨hlive, -⟩ := h (trafficOf cutName)
  rw [HandlerPc.serve, Option.isSome_map, strictWriters, strict_dump, valid_livePayload] at hlive
  have hinvalid : ¬ ValidUtf8 cutName := by decide +kernel
  exact hinvalid (hlive cutName (AList.mem_keys.mpr (List.mem_singleton.mpr rfl)))

end Ntmd
