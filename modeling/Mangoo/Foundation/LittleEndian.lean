import Mangoo.Foundation.CString
import Mathlib.Data.List.TakeWhile
import Mathlib.Data.Nat.Digits.Defs

/-!
# Fields of a byte string

Unsigned integers of a fixed width in little-endian order, and the fields and strings that
C code reads at a position of a structure.
-/

namespace Mangoo.Foundation

def leBytes : Nat → Nat → List UInt8
  | 0, _ => []
  | width + 1, n => UInt8.ofNat n :: leBytes width (n / 256)

def leValue (bytes : List UInt8) : Nat := Nat.ofDigits 256 (bytes.map UInt8.toNat)

@[simp] theorem length_leBytes (width n : Nat) : (leBytes width n).length = width := by
  induction width generalizing n with
  | zero => rfl
  | succ width ih => rw [leBytes, List.length_cons, ih]

theorem leValue_cons (byte : UInt8) (bytes : List UInt8) :
    leValue (byte :: bytes) = byte.toNat + 256 * leValue bytes := by
  rw [leValue, List.map_cons, Nat.ofDigits_cons]
  rfl

theorem leValue_lt (bytes : List UInt8) : leValue bytes < 256 ^ bytes.length := by
  have hlt : ∀ digit ∈ bytes.map UInt8.toNat, digit < 256 := by
    intro digit hdigit
    obtain ⟨byte, -, rfl⟩ := List.mem_map.mp hdigit
    exact byte.toNat_lt
  simpa [leValue] using Nat.ofDigits_lt_base_pow_length (by decide) hlt

theorem leValue_leBytes {width n : Nat} (h : n < 256 ^ width) :
    leValue (leBytes width n) = n := by
  induction width generalizing n with
  | zero =>
      rw [pow_zero, Nat.lt_one_iff] at h
      rw [h]
      rfl
  | succ width ih =>
      have hdiv : n / 256 < 256 ^ width := by
        apply Nat.div_lt_of_lt_mul
        rwa [pow_succ'] at h
      rw [leBytes, leValue_cons, ih hdiv, UInt8.toNat_ofNat']
      exact Nat.mod_add_div n 256

theorem leBytes_leValue (bytes : List UInt8) : leBytes bytes.length (leValue bytes) = bytes := by
  induction bytes with
  | nil => rfl
  | cons byte bytes ih =>
      have hlt := byte.toNat_lt
      have hdiv : leValue (byte :: bytes) / 256 = leValue bytes := by
        rw [leValue_cons]
        omega
      have hfirst : UInt8.ofNat (leValue (byte :: bytes)) = byte := by
        apply UInt8.toNat_inj.mp
        rw [UInt8.toNat_ofNat', leValue_cons]
        omega
      rw [List.length_cons, leBytes, hdiv, ih, hfirst]

/-! ## Fields -/

def fieldAt (raw : List UInt8) (pos width : Nat) : Nat := leValue ((raw.drop pos).take width)

def cStrAt (raw : List UInt8) (pos : Nat) : CStr where
  bytes := (raw.drop pos).takeWhile (· ≠ 0)
  nul_free := by
    intro hmem
    have hne := List.mem_takeWhile_imp hmem
    simp at hne

theorem fieldAt_leBytes {before after : List UInt8} {pos width n : Nat}
    (hpos : before.length = pos) (hn : n < 256 ^ width) :
    fieldAt (before ++ (leBytes width n ++ after)) pos width = n := by
  subst hpos
  rw [fieldAt, List.drop_left, List.take_left' (length_leBytes width n), leValue_leBytes hn]

theorem cStrAt_of_append {before after : List UInt8} {pos : Nat} (s : CStr)
    (hpos : before.length = pos) : cStrAt (before ++ (s.bytes ++ 0 :: after)) pos = s := by
  subst hpos
  apply CStr.ext
  change (List.drop before.length _).takeWhile _ = s.bytes
  rw [List.drop_left, List.takeWhile_append_of_pos]
  · simp
  · intro byte hbyte
    have hne : byte ≠ 0 := fun heq => s.nul_free (heq ▸ hbyte)
    simpa using hne

theorem append_cStrAt {raw : List UInt8} {pos : Nat}
    (h : raw.length = pos + (cStrAt raw pos).length + 1) :
    raw = raw.take pos ++ ((cStrAt raw pos).bytes ++ [0]) := by
  have hrest : raw.drop pos = (cStrAt raw pos).bytes ++ (raw.drop pos).dropWhile (· ≠ 0) :=
    (List.takeWhile_append_dropWhile ..).symm
  have hone : ((raw.drop pos).dropWhile (· ≠ 0)).length = 1 := by
    have hlength := congrArg List.length hrest
    rw [List.length_append, List.length_drop, h, CStr.length] at hlength
    omega
  obtain ⟨last, hlast⟩ := List.length_eq_one_iff.mp hone
  have hzero : last = 0 := by
    have hhead := List.head?_dropWhile_not (· ≠ 0) (raw.drop pos)
    rw [hlast] at hhead
    simpa using hhead
  rw [hlast, hzero] at hrest
  rw [← hrest, List.take_append_drop]

/-! ## Structures -/

def packFields : List Nat → List Nat → List UInt8
  | width :: widths, n :: ns => leBytes width n ++ packFields widths ns
  | _, _ => []

def unpackFields : List Nat → List UInt8 → List Nat
  | [], _ => []
  | width :: widths, raw => leValue (raw.take width) :: unpackFields widths (raw.drop width)

theorem unpackFields_packFields {widths ns : List Nat}
    (h : List.Forall₂ (fun width n => n < 256 ^ width) widths ns) :
    unpackFields widths (packFields widths ns) = ns := by
  induction h with
  | nil => rfl
  | cons hfirst _ ih =>
      have hlength := length_leBytes
      rw [packFields, unpackFields, List.take_left' (hlength ..), List.drop_left' (hlength ..),
        leValue_leBytes hfirst, ih]

theorem packFields_unpackFields {widths : List Nat} {raw : List UInt8}
    (h : raw.length = widths.sum) : packFields widths (unpackFields widths raw) = raw := by
  induction widths generalizing raw with
  | nil => exact (List.length_eq_zero_iff.mp h).symm
  | cons width widths ih =>
      rw [List.sum_cons] at h
      have htake : (raw.take width).length = width := by
        rw [List.length_take, h]
        omega
      have hdrop : (raw.drop width).length = widths.sum := by
        rw [List.length_drop, h]
        omega
      have hfirst := leBytes_leValue (raw.take width)
      rw [htake] at hfirst
      rw [unpackFields, packFields, hfirst, ih hdrop, List.take_append_drop]

theorem length_packFields {widths ns : List Nat} (h : widths.length = ns.length) :
    (packFields widths ns).length = widths.sum := by
  induction widths generalizing ns with
  | nil => rfl
  | cons width widths ih =>
      cases ns with
      | nil => cases h
      | cons n ns =>
          rw [packFields, List.length_append, length_leBytes, ih (by simpa using h),
            List.sum_cons]

theorem lt_of_mem_unpackFields {widths : List Nat} {raw : List UInt8}
    (h : raw.length = widths.sum) :
    List.Forall₂ (fun width n => n < 256 ^ width) widths (unpackFields widths raw) := by
  induction widths generalizing raw with
  | nil => exact .nil
  | cons width widths ih =>
      rw [List.sum_cons] at h
      have htake : (raw.take width).length = width := by
        rw [List.length_take, h]
        omega
      refine .cons ?_ (ih ?_)
      · have hlt := leValue_lt (raw.take width)
        rwa [htake] at hlt
      · rw [List.length_drop, h]
        omega

end Mangoo.Foundation
