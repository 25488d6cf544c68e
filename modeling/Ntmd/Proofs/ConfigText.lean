/-
Reading the file that the configuration writes.

The constructor overwrites the file it has read.  A line of the file written is either
skipped or sets the item it was written for, whatever its value holds (`itemOf_item`), so
the items that are read back are the settings (`readItems_text`).  A setting that came
from a file is free of newlines and of white space at its ends, which is all that the
reading takes away: `start_fixed`.
-/
import Ntmd.Config.Config
import Ntmd.Lib.CInt
import Ntmd.Lib.LoadMap

namespace Ntmd

open Bytes LoadMap Scanf

namespace Config

/-! ### Lines -/

theorem getlines_flatMap : ∀ {ls : List Bytes}, (∀ line ∈ ls, 10 ∉ line) →
    getlines (ls.flatMap (· ++ [10])) = ls := by
  intro ls
  induction ls with
  | nil => intro _; rfl
  | cons line ls ih =>
      intro h
      obtain ⟨hline, hls⟩ := List.forall_mem_cons.mp h
      have hrest := ih hls
      rw [getlines] at hrest ⊢
      rw [List.flatMap_cons, List.append_assoc, List.singleton_append, split_cons hline, hrest]

/-- No line holds the newline it ends at. -/
theorem newline_not_mem_splitLoop {delimiter : UInt8} : ∀ {s current : Bytes} {words : List Bytes},
    delimiter ∉ current → (∀ word ∈ words, delimiter ∉ word) →
      ∀ word ∈ splitLoop delimiter s current words, delimiter ∉ word := by
  intro s
  induction s with
  | nil =>
      intro current words hcurrent hwords word hword
      rw [splitLoop] at hword
      split at hword
      · exact hwords word hword
      · rcases List.mem_append.mp hword with hmem | hmem
        · exact hwords word hmem
        · rw [List.mem_singleton.mp hmem]
          exact hcurrent
  | cons c s ih =>
      intro current words hcurrent hwords
      rw [splitLoop]
      split
      · rename_i hc
        refine ih (fun hmem => ?_) hwords
        rcases List.mem_append.mp hmem with hmem | hmem
        · exact hcurrent hmem
        · exact hc (List.mem_singleton.mp hmem).symm
      · refine ih (by simp) fun word hword => ?_
        rcases List.mem_append.mp hword with hmem | hmem
        · exact hwords word hmem
        · rw [List.mem_singleton.mp hmem]
          exact hcurrent

theorem newline_not_mem_getlines {text line : Bytes} (h : line ∈ getlines text) : 10 ∉ line :=
  newline_not_mem_splitLoop (by simp) (by simp) line h

/-! ### Items -/

/-- A key that a line can begin with: it is no comment, and ends at the `=` of its line. -/
structure IsKey (key : Bytes) : Prop where
  ne_nil : key ≠ []
  head : key.head? ≠ some 35 ∧ key.head? ≠ some 91
  equals_not_mem : 61 ∉ key
  newline_not_mem : 10 ∉ key
  trimmed : trim (key ++ [32]) = key

/-- **A line that was written sets its item**, to its value without white space around it. -/
theorem itemOf_item {e : Entry} (h : IsKey e.key) : itemOf e.item = some (e.key, trim e.value) := by
  obtain ⟨c, rest, hkey⟩ := List.exists_cons_of_ne_nil h.ne_nil
  have hitem : e.item = (e.key ++ [32]) ++ (61 :: (32 :: e.value)) := by
    rw [Entry.item, List.append_assoc]
    rfl
  have hbefore : ∀ b ∈ e.key ++ [32], (b != 61) = true := by
    intro b hb
    rw [bne_iff_ne]
    rintro rfl
    rcases List.mem_append.mp hb with hmem | hmem
    · exact h.equals_not_mem hmem
    · exact absurd hmem (by decide)
  have hmem : (61 : UInt8) ∈ e.item := by
    rw [hitem]
    exact List.mem_append_right _ List.mem_cons_self
  have htake : e.item.takeWhile (· != 61) = e.key ++ [32] := by
    rw [hitem, List.takeWhile_append_of_pos hbefore]
    simp
  have hdrop : (e.item.dropWhile (· != 61)).drop 1 = 32 :: e.value := by
    rw [hitem, List.dropWhile_append_of_pos hbefore]
    rfl
  obtain ⟨tail, hcons⟩ : ∃ tail, e.item = c :: tail := ⟨rest ++ (ascii " = " ++ e.value), by
    rw [Entry.item, hkey]
    rfl⟩
  have hc : ¬ (c = 35 ∨ c = 91) := by
    rintro (rfl | rfl)
    · exact h.head.1 (by rw [hkey]; rfl)
    · exact h.head.2 (by rw [hkey]; rfl)
  rw [hcons] at hmem htake hdrop ⊢
  rw [itemOf]
  simp only [if_neg hc, if_pos hmem, htake, hdrop, h.trimmed]
  rw [trim_cons_space (by decide)]

/-- The lines between the settings set nothing. -/
structure IsSkipped (line : Bytes) : Prop where
  itemOf_eq : itemOf line = none
  newline_not_mem : 10 ∉ line

theorem isSkipped_nil : IsSkipped [] := ⟨rfl, by simp⟩

/-- The first character of a comment or of a title is enough. -/
theorem isSkipped_ascii (text : List Char)
    (h : ((text.head?.map Char.toUInt8 == some 35 || text.head?.map Char.toUInt8 == some 91) &&
      text.all fun c => c.toUInt8 != 10) = true) : IsSkipped (ascii (String.ofList text)) := by
  rw [ascii, String.toList_ofList]
  rw [Bool.and_eq_true, Bool.or_eq_true, beq_iff_eq, beq_iff_eq, List.all_eq_true] at h
  refine ⟨?_, fun hmem => ?_⟩
  · cases text with
    | nil => rfl
    | cons c text =>
        rw [List.head?_cons, Option.map_some, Option.some.injEq, Option.some.injEq] at h
        rw [List.map_cons, itemOf, if_pos h.1]
  · obtain ⟨c, hc, hnewline⟩ := List.mem_map.mp hmem
    simpa [hnewline] using h.2 c hc

set_option maxRecDepth 2000 in
theorem isSkipped_comment (c : Config) : ∀ e ∈ c.entries, ∀ line ∈ e.comment, IsSkipped line := by
  simp only [entries, List.forall_mem_cons]
  and_intros
  all_goals first
    | exact isSkipped_ascii _ (by decide +kernel)
    | exact isSkipped_nil
    | simp

theorem isKey_entry (c : Config) : ∀ e ∈ c.entries, IsKey e.key := by
  simp only [entries, List.forall_mem_cons]
  refine ⟨?_, ?_, ?_, ?_, ?_, ?_, ?_, by simp⟩ <;>
    exact ⟨by decide, by decide, by decide, by decide, by decide⟩

/-! ### Reading what was written -/

theorem foldl_readLine_skipped : ∀ {ls : List Bytes} (items : Items),
    (∀ line ∈ ls, IsSkipped line) → ls.foldl readLine items = items := by
  intro ls
  induction ls with
  | nil => intro items _; rfl
  | cons line ls ih =>
      intro items h
      obtain ⟨hline, hls⟩ := List.forall_mem_cons.mp h
      rw [List.foldl_cons, readLine, hline.itemOf_eq]
      exact ih items hls

theorem foldl_readLine_entry {e : Entry} (hcomment : ∀ line ∈ e.comment, IsSkipped line)
    (hkey : IsKey e.key) (items : Items) :
    e.lines.foldl readLine items = items.insert e.key (trim e.value) := by
  rw [Entry.lines, List.foldl_append, foldl_readLine_skipped items hcomment, List.foldl_cons,
    List.foldl_nil, readLine, itemOf_item hkey]

theorem newline_not_mem_lines {e : Entry} (hcomment : ∀ line ∈ e.comment, IsSkipped line)
    (hkey : IsKey e.key) (hvalue : 10 ∉ e.value) : ∀ line ∈ e.lines, 10 ∉ line := by
  intro line hline
  rcases List.mem_append.mp hline with hmem | hmem
  · exact (hcomment line hmem).newline_not_mem
  · rw [List.mem_singleton.mp hmem, Entry.item, List.mem_append, List.mem_append, not_or, not_or]
    exact ⟨hkey.newline_not_mem, by decide, hvalue⟩

/-- **What is read of the text written is what was written**, each setting under its key. -/
theorem readItems_text {c : Config} (hvalue : ∀ e ∈ c.entries, 10 ∉ e.value) :
    readItems c.text = load ∅ (c.entries.map fun e => (e.key, trim e.value)) := by
  have hlines : ∀ line ∈ c.entries.flatMap Entry.lines, 10 ∉ line := by
    intro line hline
    obtain ⟨e, he, hmem⟩ := List.mem_flatMap.mp hline
    exact newline_not_mem_lines (isSkipped_comment c e he) (isKey_entry c e he) (hvalue e he)
      line hmem
  rw [readItems, text, getlines_flatMap hlines, List.foldl_flatMap, load, List.foldl_map]
  exact List.foldl_ext _ _ _ fun items e he =>
    foldl_readLine_entry (isSkipped_comment c e he) (isKey_entry c e he) items

theorem key_injective (c : Config) : (c.entries.map Entry.key).Nodup := by
  show [ascii "interval", ascii "processCacheSize", ascii "interface", ascii "promiscuous",
    ascii "immediate", ascii "dbPath", ascii "port"].Nodup
  decide

theorem lookup_text {c : Config} (hvalue : ∀ e ∈ c.entries, 10 ∉ e.value) {e : Entry}
    (he : e ∈ c.entries) : (readItems c.text).lookup e.key = some (trim e.value) := by
  have hlast : last (c.entries.map fun e => (e.key, trim e.value)) e.key = some (trim e.value) := by
    refine last_eq_some (List.mem_map.mpr ⟨e, he, rfl⟩) fun w hw => ?_
    obtain ⟨e', he', heq⟩ := List.mem_map.mp hw
    obtain ⟨hkey, rfl⟩ := Prod.mk.inj heq
    rw [List.inj_on_of_nodup_map (key_injective c) he' he hkey]
  rw [readItems_text hvalue, lookup_load, hlast, Option.some_or]

/-! ### Settings -/

/-- What a file gives as a text. -/
structure IsValue (v : Bytes) : Prop where
  trimmed : trim v = v
  newline_not_mem : 10 ∉ v

theorem isValue_nil : IsValue [] := ⟨rfl, by simp⟩

theorem isValue_of_itemOf {line key value : Bytes} (hline : 10 ∉ line)
    (h : itemOf line = some (key, value)) : IsValue value := by
  cases line with
  | nil => exact absurd h (by simp [itemOf])
  | cons c line =>
      rw [itemOf] at h
      split at h
      · exact absurd h (by simp)
      · split at h
        · obtain ⟨_, rfl⟩ := Prod.mk.inj (Option.some.inj h)
          refine ⟨trim_trim _, fun hmem => hline ?_⟩
          exact (List.dropWhile_suffix _).subset (List.mem_of_mem_drop (mem_of_mem_trim hmem))
        · exact absurd h (by simp)

/-- One line keeps what is known of the values. -/
theorem isValue_readLine {items : Items} {line : Bytes} (hline : 10 ∉ line)
    (hitems : ∀ k v, items.lookup k = some v → IsValue v) :
    ∀ k v, (readLine items line).lookup k = some v → IsValue v := by
  intro k v h
  unfold readLine at h
  split at h
  · exact hitems k v h
  · rename_i key value hitem
    by_cases hk : k = key
    · rw [hk, AList.lookup_insert] at h
      exact Option.some.inj h ▸ isValue_of_itemOf hline hitem
    · rw [AList.lookup_insert_ne hk] at h
      exact hitems k v h

theorem isValue_foldl : ∀ {ls : List Bytes} {items : Items}, (∀ line ∈ ls, 10 ∉ line) →
    (∀ k v, items.lookup k = some v → IsValue v) →
      ∀ k v, (ls.foldl readLine items).lookup k = some v → IsValue v := by
  intro ls
  induction ls with
  | nil => intro items _ hitems; exact hitems
  | cons line ls ih =>
      intro items h hitems
      obtain ⟨hline, hls⟩ := List.forall_mem_cons.mp h
      exact ih hls (isValue_readLine hline hitems)

theorem isValue_of_lookup {text k v : Bytes} (h : (readItems text).lookup k = some v) :
    IsValue v :=
  isValue_foldl (fun _ hline => newline_not_mem_getlines hline) (by simp) k v h

theorem isValue_textItem (text key : Bytes) : IsValue (textItem (readItems text) key []) := by
  unfold textItem
  cases h : (readItems text).lookup key with
  | none => exact isValue_nil
  | some v => exact isValue_of_lookup h

theorem numItem_decimalInt {α : Type} {items : Items} {key : Bytes} {z : Int} (hz : IsInt z)
    (h : items.lookup key = some (trim (decimalInt z))) (convert : Int32 → α) (current : α) :
    numItem items key convert current = convert (Int32.ofInt z) := by
  rw [trim_eq_self fun c hc => not_isSpace_of_mem_decimalInt hc] at h
  simp only [numItem, h, stoi_decimalInt hz]

theorem boolItem_boolText {items : Items} {key : Bytes} {b : Bool}
    (h : items.lookup key = some (trim (boolText b))) (current : Bool) :
    boolItem items key current = b := by
  have hread : stringToBool (strToLower (trim (boolText b))) = some b := by
    cases b <;> decide
  simp only [boolItem, h, hread, Option.getD_some]

theorem textItem_value {items : Items} {key v : Bytes} (hv : IsValue v)
    (h : items.lookup key = some (trim v)) (current : Bytes) : textItem items key current = v := by
  rw [textItem, h, hv.trimmed, Option.getD_some]

section

variable {c : Config} (hinterface : IsValue c.interface) (hdbPath : IsValue c.dbPath)

include hinterface hdbPath

theorem newline_not_mem_value : ∀ e ∈ c.entries, 10 ∉ e.value := by
  have hbool : ∀ b, 10 ∉ boolText b := by decide
  have hnum : ∀ z, 10 ∉ decimalInt z := fun z => not_mem_decimalInt (by decide) (by decide)
  simp only [entries, List.forall_mem_cons]
  exact ⟨hnum _, hnum _, hinterface.newline_not_mem, hbool _, hbool _, hdbPath.newline_not_mem,
    hnum _, by simp⟩

/-- **The settings written are read back.** -/
theorem ofItems_text : ofItems (readItems c.text) = c := by
  have hlookup : ∀ e ∈ c.entries, (readItems c.text).lookup e.key = some (trim e.value) :=
    fun e he => lookup_text (newline_not_mem_value hinterface hdbPath) he
  simp only [entries, List.forall_mem_cons] at hlookup
  obtain ⟨hinterval, hcache, hif, hpromiscuous, himmediate, hpath, hport, -⟩ := hlookup
  have hport_lt := c.serverPort.toNat_lt
  have hportInt : IsInt c.serverPort.toNat := ⟨by omega, by omega⟩
  have hportBack : UInt16.ofInt (Int32.ofInt c.serverPort.toNat).toInt = c.serverPort := by
    rw [hportInt.toInt_ofInt, CInt.uint16_ofInt_toNat]
  rw [ofItems, numItem_decimalInt (isInt_toInt _) hinterval,
    numItem_decimalInt (isInt_toInt _) hcache, numItem_decimalInt hportInt hport,
    textItem_value hinterface hif, textItem_value hdbPath hpath, boolItem_boolText hpromiscuous,
    boolItem_boolText himmediate, hportBack, Int32.ofInt_toInt, Int32.ofInt_toInt]
  rfl

theorem ofText_text (fs : FileSystem) :
    ofText fs c.text = (fs.isRegularFile c.dbPath).map fun _ => c := by
  have hlookup := lookup_text (newline_not_mem_value hinterface hdbPath)
    (List.mem_of_getElem? (i := 5) rfl)
  have hpath : (readItems c.text).lookup (ascii "dbPath") = some (trim c.dbPath) := hlookup
  rw [ofText]
  simp only [hpath, hdbPath.trimmed, ofItems_text hinterface hdbPath]

end

/-- What a start knows of its settings. -/
structure IsRead (fs : FileSystem) (c : Config) : Prop where
  interface : IsValue c.interface
  dbPath : IsValue c.dbPath
  checked : ∃ b, fs.isRegularFile c.dbPath = some b

theorem isRead_defaults (fs : FileSystem) : IsRead fs defaults :=
  ⟨isValue_nil, isValue_nil, false, fs.empty_path⟩

theorem isRead_ofText {fs : FileSystem} {text : Bytes} {c : Config} (h : ofText fs text = some c) :
    IsRead fs c := by
  have hinterface : IsValue (ofItems (readItems text)).interface := isValue_textItem text _
  have hdbPath : IsValue (ofItems (readItems text)).dbPath := isValue_textItem text _
  unfold ofText at h
  dsimp only at h
  split at h
  · rename_i hnone
    have hempty : (ofItems (readItems text)).dbPath = [] := by
      show ((readItems text).lookup (ascii "dbPath")).getD [] = []
      rw [hnone, Option.getD_none]
    rw [← Option.some.inj h]
    exact ⟨hinterface, hdbPath, false, hempty ▸ fs.empty_path⟩
  · rename_i path hpath
    have hsome : (ofItems (readItems text)).dbPath = path := by
      show ((readItems text).lookup (ascii "dbPath")).getD [] = path
      rw [hpath, Option.getD_some]
    obtain ⟨b, hb, rfl⟩ := Option.map_eq_some_iff.mp h
    exact ⟨hinterface, hdbPath, b, hsome ▸ hb⟩

theorem isRead_start {fs : FileSystem} {file : Option Bytes} {c : Config} {written : Bytes}
    (h : start fs file = some (c, written)) : IsRead fs c ∧ written = c.text := by
  cases file with
  | none =>
      obtain ⟨rfl, rfl⟩ := Prod.mk.inj (Option.some.inj h)
      exact ⟨isRead_defaults fs, rfl⟩
  | some content =>
      obtain ⟨c', hc', heq⟩ := Option.map_eq_some_iff.mp h
      obtain ⟨rfl, rfl⟩ := Prod.mk.inj heq
      exact ⟨isRead_ofText hc', rfl⟩

/-- **A start leaves a file that says what the settings are**: read again it gives the same
settings, and the next start leaves the same text. -/
theorem start_fixed {fs : FileSystem} {file : Option Bytes} {c : Config} {written : Bytes}
    (h : start fs file = some (c, written)) :
    ofText fs written = some c ∧ start fs (some written) = some (c, written) := by
  obtain ⟨hread, rfl⟩ := isRead_start h
  obtain ⟨b, hb⟩ := hread.checked
  have htext : ofText fs c.text = some c := by
    rw [ofText_text hread.interface hread.dbPath, hb, Option.map_some]
  exact ⟨htext, by rw [start, htext, Option.map_some]⟩

/-- A file written by hand, with a key that is none, and a key given twice. -/
theorem start_fixed_handWritten :
    let fs : FileSystem := ⟨fun _ => some false, rfl⟩
    let file := ascii "# mine\ninterface = a=b # c\nPort = 1\nport=80x\nimmediate = YES\ninterval=8\ninterval=\t7"
    let c : Config :=
      { interval := 7, interface := ascii "a=b # c", immediate := true, serverPort := 80 }
    start fs (some file) = some (c, c.text) ∧ ofText fs c.text = some c ∧
      start fs (some c.text) = some (c, c.text) := by
  intro fs file c
  have hread : ofText fs file = some c := by decide +kernel
  have hstart : start fs (some file) = some (c, c.text) := by rw [start, hread, Option.map_some]
  exact ⟨hstart, start_fixed hstart⟩

end Config

end Ntmd
