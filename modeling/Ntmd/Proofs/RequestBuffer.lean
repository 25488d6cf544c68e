/-
When the request loop stays inside its buffer, and acts on what it has just read.

`serve_iff` is exact.  A read that failed terminates the buffer before its first
byte, one that filled the buffer behind its last, and a request without a byte
before its first zero byte has no word to look at.  Every other read is safe
whatever the buffer held before: the byte behind the request ends the string, so
nothing that an earlier client sent is part of it.
-/
import Ntmd.Api.Request

namespace Ntmd

open Bytes

/-- At least one byte was read that is not zero in front, and one less than there is room for. -/
def ReadResult.Proper (r : ReadResult) : Prop :=
  r.data.length < 1024 ∧ ∃ c rest, r.data = c :: rest ∧ c ≠ 0

/-! ### The buffer -/

theorem cstr_append_zero (a b : Bytes) : cstr (a ++ 0 :: b) = cstr a := by
  induction a with
  | nil => simp [cstr]
  | cons c a ih =>
      rw [cstr] at ih
      simp only [cstr, List.cons_append, List.takeWhile_cons, ih]

theorem cstr_eq_nil_iff {s : Bytes} : cstr s = [] ↔ ∀ c rest, s = c :: rest → c = 0 := by
  cases s with
  | nil => simp [cstr]
  | cons c s => by_cases hc : c = 0 <;> simp [cstr, hc]

namespace Buffer

variable (b : Buffer) {data : Bytes}

/-- What is read and then terminated inside the buffer is what was read, whatever follows it. -/
theorem terminate_read (le : data.length ≤ 1024) (hlt : data.length < 1024) :
    ∃ b', (b.read (.bytes data le)).terminate data.length = .ok b' ∧
      b'.string = .ok (cstr data) := by
  have hindex : 0 ≤ (data.length : Int) ∧ (data.length : Int) < 1024 := by omega
  refine ⟨_, if_pos hindex, ?_⟩
  have hrest : ∃ x rest, b.content.drop data.length = x :: rest := by
    rw [← List.ne_nil_iff_exists_cons, ← List.length_pos_iff, List.length_drop, b.length_eq]
    omega
  obtain ⟨x, rest, hrest⟩ := hrest
  have hset : (b.read (.bytes data le)).content.set (data.length : Int).toNat 0 =
      data ++ 0 :: rest := by
    show (data ++ b.content.drop data.length).set (data.length : Int).toNat 0 = _
    rw [hrest, Int.toNat_natCast, List.set_append_right _ _ (Nat.le_refl _), Nat.sub_self,
      List.set_cons_zero]
  simp only [string, hset]
  rw [if_pos (by simp), cstr_append_zero]

theorem terminate_error : (b.read .error).terminate ReadResult.error.valread =
    .error (.bufferWrite (-1)) := rfl

theorem terminate_full (le : data.length ≤ 1024) (hfull : ¬ data.length < 1024) :
    (b.read (.bytes data le)).terminate data.length = .error (.bufferWrite data.length) := by
  rw [terminate, if_neg (by omega)]

end Buffer

/-! ### The words of a request -/

namespace Server

theorem word_of_lt {request : List Bytes} {index : Nat} (h : index < request.length) :
    word request index = .ok request[index] := by
  rw [word, List.getElem?_eq_getElem h]

/-- The number of words is checked before any but the first is looked at. -/
theorem exists_dispatchSince (request : List Bytes) : ∃ c, dispatchSince request = .ok c := by
  unfold dispatchSince
  split
  · rename_i hlen
    rw [word_of_lt (show 1 < request.length from hlen)]
    simp only [bind, Except.bind]
    split
    · exact ⟨_, rfl⟩
    · exact ⟨_, rfl⟩
    · exact ⟨_, rfl⟩
  · exact ⟨_, rfl⟩

theorem exists_dispatchBetween (request : List Bytes) : ∃ c, dispatchBetween request = .ok c := by
  unfold dispatchBetween
  split
  · rename_i hlen
    rw [word_of_lt (show 1 < request.length by omega), word_of_lt (show 2 < request.length from hlen)]
    dsimp only [bind, Except.bind]
    split
    · exact ⟨_, rfl⟩
    · exact ⟨_, rfl⟩
    · exact ⟨_, rfl⟩
  · exact ⟨_, rfl⟩

/-- A request can be dispatched as soon as it has a word. -/
theorem exists_dispatch {request : List Bytes} (h : request ≠ []) :
    ∃ c, dispatch request = .ok c := by
  unfold dispatch
  rw [word_of_lt (List.length_pos_iff.mpr h)]
  dsimp only [bind, Except.bind]
  repeat' split
  all_goals first
    | exact exists_dispatchSince request
    | exact exists_dispatchBetween request
    | exact ⟨_, rfl⟩

theorem dispatch_nil : dispatch [] = .error (.word 0) := rfl

/-! ### One connection -/

/-- The request is that of the connection, and the command that of the request. -/
def ActsOn (r : ReadResult) (served : Served) : Prop :=
  served.request = split (cstr r.data) ∧ dispatch served.request = .ok served.command

theorem serveOne_of_proper (b : Buffer) {r : ReadResult} (h : r.Proper) :
    ∃ b' served, serveOne b r = .ok (b', served) ∧ ActsOn r served := by
  cases r with
  | error => exact absurd h.2 (by simp [ReadResult.data])
  | bytes data le =>
      obtain ⟨hlt, c, rest, hdata, hc⟩ := h
      obtain ⟨b', hterminate, hstring⟩ := b.terminate_read le hlt
      have hne : split (cstr data) ≠ [] := by
        rw [Ne, split_eq_nil_iff, cstr_eq_nil_iff]
        exact fun hzero => hc (hzero c rest hdata)
      obtain ⟨command, hcommand⟩ := exists_dispatch hne
      refine ⟨b', { request := split (cstr data), command := command }, ?_, rfl, hcommand⟩
      simp only [serveOne, ReadResult.valread, hterminate, hstring, hcommand, bind, Except.bind,
        pure, Except.pure]

theorem serveOne_of_not_proper (b : Buffer) {r : ReadResult} (h : ¬ r.Proper) :
    ∃ fault, serveOne b r = .error fault := by
  cases r with
  | error =>
      refine ⟨.bufferWrite (-1), ?_⟩
      simp only [serveOne, b.terminate_error, bind, Except.bind]
  | bytes data le =>
      by_cases hlt : data.length < 1024
      · obtain ⟨b', hterminate, hstring⟩ := b.terminate_read le hlt
        have hnil : split (cstr data) = [] := by
          rw [split_eq_nil_iff, cstr_eq_nil_iff]
          intro c rest hdata
          by_contra hc
          exact h ⟨hlt, c, rest, hdata, hc⟩
        refine ⟨.word 0, ?_⟩
        simp only [serveOne, ReadResult.valread, hterminate, hstring, hnil, dispatch_nil, bind,
          Except.bind]
      · refine ⟨.bufferWrite data.length, ?_⟩
        simp only [serveOne, ReadResult.valread, b.terminate_full le hlt, bind, Except.bind]

/-! ### The loop -/

/--
**The loop makes no access outside and acts on each request alone exactly if every read is
proper.**  The buffer may hold anything at the start.
-/
theorem serve_iff (rs : List ReadResult) : ∀ b : Buffer,
    (∃ served, serve b rs = .ok served ∧ List.Forall₂ ActsOn rs served) ↔
      ∀ r ∈ rs, r.Proper := by
  induction rs with
  | nil => exact fun b => ⟨fun _ => by simp, fun _ => ⟨[], rfl, .nil⟩⟩
  | cons r rs ih =>
      intro b
      by_cases hr : r.Proper
      · obtain ⟨b', first, hfirst, hacts⟩ := serveOne_of_proper b hr
        have hserve : serve b (r :: rs) = (serve b' rs).map (first :: ·) := by
          simp only [serve, hfirst, bind, Except.bind, pure, Except.pure]
          cases serve b' rs <;> rfl
        rw [hserve, List.forall_mem_cons, ← ih b']
        constructor
        · rintro ⟨served, hserved, hforall⟩
          refine ⟨hr, ?_⟩
          cases hrest : serve b' rs with
          | error fault => simp [hrest, Except.map] at hserved
          | ok rest =>
              simp only [hrest, Except.map, Except.ok.injEq] at hserved
              subst hserved
              exact ⟨rest, rfl, (List.forall₂_cons.mp hforall).2⟩
        · rintro ⟨-, rest, hrest, hforall⟩
          exact ⟨first :: rest, by simp [hrest, Except.map], .cons hacts hforall⟩
      · obtain ⟨fault, hfault⟩ := serveOne_of_not_proper b hr
        have hserve : serve b (r :: rs) = .error fault := by
          simp only [serve, hfault, bind, Except.bind]
        constructor
        · rintro ⟨served, hserved, -⟩
          rw [hserve] at hserved
          exact absurd hserved (by simp)
        · intro hall
          exact absurd (hall r (List.mem_cons_self ..)) hr

/-- A client that closes at once: its request has no word, and the first one is looked at. -/
theorem not_serve_empty :
    ¬ ∃ served, serve Buffer.zero [.bytes [] (by decide)] = .ok served ∧
      List.Forall₂ ActsOn [.bytes [] (by decide)] served := by
  rintro ⟨served, hserved, -⟩
  have hnot : ¬ (ReadResult.bytes [] (by decide)).Proper := fun h => by
    obtain ⟨-, c, rest, hdata, -⟩ := h
    exact absurd hdata (by simp [ReadResult.data])
  obtain ⟨fault, hfault⟩ := serveOne_of_not_proper Buffer.zero hnot
  simp only [serve, hfault, bind, Except.bind] at hserved
  exact absurd hserved (by simp)

end Server

end Ntmd
