/-
Reading a kernel's line gives back the socket it was printed from.

The format of `refresh` is run over the text directive by directive; each directive
finds the field it is meant for, followed by a separator that cannot be part of it.
-/
import Ntmd.Lib.CInt
import Ntmd.Proc.KernelLine

namespace Ntmd

open Bytes Scanf

theorem isSpace_of_mem_spaces {n : Nat} {c : UInt8} (h : c ∈ spaces n) : isSpace c = true := by
  rw [List.eq_of_mem_replicate h]
  decide

/-- What is not blank ends where the blanks begin. -/
theorem stops_spaces {p : UInt8 → Bool} (h : p 32 = false) (n : Nat) (after : Bytes) :
    Stops p (spaces (n + 1) ++ after) :=
  stops_append (by simp [spaces]) fun c hc => by rw [List.eq_of_mem_replicate hc, h]

/-! ### The fields, one group after the other -/

/-- What can stand in the place of an address. -/
structure IsAddressText (address : Bytes) : Prop where
  ne_nil : address ≠ []
  length_le : address.length ≤ 64
  isHex : ∀ c ∈ address, isHex c = true

theorem isAddressText_hexPad (n : Nat) : IsAddressText (hexPad 8 n) where
  ne_nil := hexPad_ne_nil (by decide) _
  length_le := by rw [hexPad_length]; decide
  isHex _ hc := isHex_of_mem_hexPad hc

theorem IsAddressText.zero_not_mem {address : Bytes} (h : IsAddressText address) : 0 ∉ address :=
  fun h0 => absurd (h.isHex 0 h0) (by decide)

/-- An endpoint is stored as the text of an address and the number of a port. -/
theorem scan_endpoint {address : Bytes} (haddress : IsAddressText address) (port : UInt16)
    (ds : List Directive) (after : Bytes) :
    scan (.space :: .set 64 isHex :: .lit 58 :: .hexShort :: ds)
        (spaces 1 ++ (address ++ (58 :: (hexPad 4 port.toNat ++ (spaces 1 ++ after)))))
      = .text address :: .num port.toNat :: scan ds (spaces 1 ++ after) := by
  rw [scan_space (fun c => isSpace_of_mem_spaces)
      (stops_isSpace_hex haddress.ne_nil haddress.isHex),
    scan_set haddress.ne_nil haddress.length_le haddress.isHex _ (stops_cons.mpr (by decide)),
    scan_lit, scan_hexShort (by simpa using port.toNat_lt) _ (stops_spaces (by decide) 0 after)]

/-- A pair of counters is skipped. -/
theorem scan_pair (a b : HexText) (ds : List Directive) (after : Bytes) :
    scan (.space :: .skipHex :: .lit 58 :: .skipHex :: ds)
        (spaces 1 ++ printPair a b (spaces 1 ++ after))
      = scan ds (spaces 1 ++ after) := by
  rw [printPair, scan_space (fun c => isSpace_of_mem_spaces) (stops_isSpace_hex a.2.1 a.2.2),
    scan_skipHex a.2.1 a.2.2 _ (stops_cons.mpr (by decide)), scan_lit,
    scan_skipHex b.2.1 b.2.2 _ (stops_spaces (by decide) 0 after)]

/-- A single counter is skipped. -/
theorem scan_counter (a : HexText) (n : Nat) (ds : List Directive) (after : Bytes) :
    scan (.space :: .skipHex :: ds) (spaces 1 ++ (a.1 ++ (spaces (n + 1) ++ after)))
      = scan ds (spaces (n + 1) ++ after) := by
  rw [scan_space (fun c => isSpace_of_mem_spaces) (stops_isSpace_hex a.2.1 a.2.2),
    scan_skipHex a.2.1 a.2.2 _ (stops_spaces (by decide) n after)]

/-- A padded decimal number is skipped. -/
theorem scan_decimal (m : Nat) (z : Int) (n : Nat) (ds : List Directive) (after : Bytes) :
    scan (.space :: .skipDec :: ds)
        (spaces (m + 1) ++ (decimalInt z ++ (spaces (n + 1) ++ after)))
      = scan ds (spaces (n + 1) ++ after) := by
  rw [scan_space (fun c => isSpace_of_mem_spaces) (stops_isSpace_decimalInt _ _),
    scan_skipDec _ _ (stops_spaces (by decide) n after)]

/-- The word after the inode is read past, whether it is there or not. -/
theorem scan_rest (s : Bytes) : scan [.space, .skipWord 512, .space] s = [] := by
  have hspace : ∀ t, Directive.space.apply t = some ([], t.dropWhile isSpace) := fun t => rfl
  rw [scan_cons (hspace s), List.nil_append, scan]
  split
  · rfl
  · rename_i heq
    simp only [Directive.apply] at heq
    split at heq
    · exact absurd heq (by simp)
    · rw [← (Prod.mk.inj (Option.some.inj heq)).1, scan_cons (hspace _)]
      rfl

/-! ### The line -/

section Print

variable (l : KernelLine) {localIP remoteIP : Bytes} (hlocal : IsAddressText localIP)
  (hremote : IsAddressText remoteIP)
include hlocal hremote

theorem scan_printWith :
    scan lineFormat (l.printWith localIP remoteIP) =
      [.text localIP, .num l.sock.localPort.toNat, .text remoteIP, .num l.sock.remotePort.toNat,
       .num l.sock.inode.toNat] := by
  have hinode := l.inode_lt
  rw [lineFormat, KernelLine.printWith,
    scan_skipDec_pad (fun c => isSpace_of_mem_spaces) _ _ (stops_cons.mpr (by decide)), scan_lit,
    scan_endpoint hlocal, scan_endpoint hremote, scan_counter, scan_pair, scan_pair,
    scan_counter _ l.uidPad, scan_decimal _ _ l.timeoutPad, scan_decimal _ _ 0,
    scan_space (fun c => isSpace_of_mem_spaces) (stops_isSpace_decimalInt _ _),
    scan_long (by omega) (by omega) _ (stops_cons.mpr (by decide))]
  rw [scan_rest]

theorem zero_not_mem_printWith : 0 ∉ l.printWith localIP remoteIP := by
  have hhex : ∀ hx : HexText, (0 : UInt8) ∉ hx.1 := fun hx h0 => by
    have h := hx.2.2 0 h0
    exact absurd h (by decide)
  have hpad : ∀ w n, (0 : UInt8) ∉ hexPad w n := fun w n h0 =>
    absurd (isHex_of_mem_hexPad h0) (by decide)
  have hdecimal : ∀ z, (0 : UInt8) ∉ decimalInt z := fun z =>
    not_mem_decimalInt (by decide) (by decide)
  have hspaces : ∀ n, (0 : UInt8) ∉ spaces n := fun n h0 =>
    absurd (List.eq_of_mem_replicate h0) (by decide)
  simp [KernelLine.printWith, printPair, hhex, hpad, hdecimal, hspaces, l.zero_not_mem,
    hlocal.zero_not_mem, hremote.zero_not_mem]

/-- A printed line is read back up to what its addresses are unpacked to. -/
theorem ofLine_printWith :
    Socket.ofLine (l.printWith localIP remoteIP) =
      some { l.sock with localIP := unpackIP localIP, remoteIP := unpackIP remoteIP } := by
  rw [Socket.ofLine, sscanf, cstr_of_not_mem (zero_not_mem_printWith l hlocal hremote),
    scan_printWith l hlocal hremote]
  simp [CInt.uint16_ofInt_toNat, CInt.uint64_ofInt_toNat]

end Print

theorem unpackIP_hexPad (ip : UInt32) : unpackIP (hexPad 8 ip.toNat) = ip := by
  have hzero : (0 : UInt8) ∉ hexPad 8 ip.toNat := fun h0 =>
    absurd (isHex_of_mem_hexPad h0) (by decide)
  rw [unpackIP, sscanf, cstr_of_not_mem hzero, scan_hexInt (by simpa using ip.toNat_lt)]
  exact CInt.uint32_ofInt_toNat ip

/-- **A printed line is read back as the socket it was printed from.** -/
theorem ofLine_print (l : KernelLine) : Socket.ofLine l.print = some l.sock := by
  rw [l.print_eq, ofLine_printWith l (isAddressText_hexPad _) (isAddressText_hexPad _),
    unpackIP_hexPad, unpackIP_hexPad]

/-- What a printed line puts into the map. -/
theorem lineEntry_print (table : ProcNetTable) (l : KernelLine) :
    lineEntry table l.print =
      if l.sock.inode = 0 then none else some (l.sock.hash table, l.sock.inode) := by
  rw [lineEntry, ofLine_print]

end Ntmd
