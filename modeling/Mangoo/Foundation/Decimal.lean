import Mangoo.Foundation.CString
import Mathlib.Data.List.TakeWhile
import Mathlib.Data.Nat.Digits.Lemmas

/-!
# Decimal numbers

`sprintf` with `%jd`, and `atoi`, which reads a number back from the text in front of the first
byte that is no digit.
-/

namespace Mangoo.Foundation

def minusSign : UInt8 := 45

def plusSign : UInt8 := 43

def digitByte (digit : Nat) : UInt8 := UInt8.ofNat (48 + digit)

def isDigit (byte : UInt8) : Bool := decide (48 ≤ byte.toNat ∧ byte.toNat ≤ 57)

/-- A blank, or one of the bytes from the tab to the carriage return. -/
def isSpace (byte : UInt8) : Bool := decide (byte = 32 ∨ 9 ≤ byte.toNat ∧ byte.toNat ≤ 13)

def printNat (n : Nat) : List UInt8 :=
  if n = 0 then [digitByte 0] else ((Nat.digits 10 n).map digitByte).reverse

/-- `%jd`. -/
def printInt (n : Int) : List UInt8 :=
  if n < 0 then minusSign :: printNat n.natAbs else printNat n.natAbs

def digitsValue (bytes : List UInt8) : Nat :=
  bytes.foldl (fun value byte => 10 * value + (byte.toNat - 48)) 0

/-- What C leaves open, a number outside of `int`, is that number here. -/
def atoi (bytes : List UInt8) : Int :=
  match bytes.dropWhile isSpace with
  | [] => 0
  | byte :: rest =>
      if byte = minusSign then -(digitsValue (rest.takeWhile isDigit) : Int)
      else if byte = plusSign then digitsValue (rest.takeWhile isDigit)
      else digitsValue ((byte :: rest).takeWhile isDigit)

variable {n : Nat} {rest : List UInt8}

/-! ## Digits -/

theorem toNat_digitByte {digit : Nat} (h : digit < 10) : (digitByte digit).toNat = 48 + digit := by
  rw [digitByte, UInt8.toNat_ofNat']
  omega

theorem isDigit_iff {byte : UInt8} : isDigit byte = true ↔ 48 ≤ byte.toNat ∧ byte.toNat ≤ 57 := by
  simp [isDigit]

theorem mem_printNat {byte : UInt8} (h : byte ∈ printNat n) : isDigit byte = true := by
  have hdigit : ∃ digit < 10, byte = digitByte digit := by
    unfold printNat at h
    split at h
    · exact ⟨0, by decide, List.mem_singleton.mp h⟩
    · obtain ⟨digit, hmem, rfl⟩ := List.mem_map.mp (List.mem_reverse.mp h)
      exact ⟨digit, Nat.digits_lt_base (by decide) hmem, rfl⟩
  obtain ⟨digit, hlt, rfl⟩ := hdigit
  rw [isDigit_iff, toNat_digitByte hlt]
  omega

theorem printNat_ne_nil (n : Nat) : printNat n ≠ [] := by
  unfold printNat
  split
  · exact List.cons_ne_nil _ _
  · rename_i hne
    rw [ne_eq, List.reverse_eq_nil_iff, List.map_eq_nil_iff]
    exact Nat.digits_ne_nil_iff_ne_zero.mpr hne

theorem length_printNat_le {width : Nat} (hwidth : 0 < width) (h : n < 10 ^ width) :
    (printNat n).length ≤ width := by
  unfold printNat
  split
  · exact hwidth
  · rw [List.length_reverse, List.length_map]
    exact (Nat.digits_length_le_iff (by decide) n).mpr h

theorem foldr_digitByte {digits : List Nat} (h : ∀ digit ∈ digits, digit < 10) :
    digits.foldr (fun digit value => 10 * value + ((digitByte digit).toNat - 48)) 0 =
      Nat.ofDigits 10 digits := by
  induction digits with
  | nil => rfl
  | cons digit digits ih =>
      have hlast := toNat_digitByte (h digit List.mem_cons_self)
      rw [List.foldr_cons, ih fun other hmem => h other (List.mem_cons_of_mem _ hmem),
        Nat.ofDigits_cons, hlast, Nat.add_sub_cancel_left]
      exact Nat.add_comm _ _

theorem digitsValue_printNat (n : Nat) : digitsValue (printNat n) = n := by
  unfold printNat
  split
  · rename_i hzero
    rw [hzero]
    rfl
  · rw [digitsValue, List.foldl_reverse, List.foldr_map,
      foldr_digitByte fun digit hmem => Nat.digits_lt_base (by decide) hmem, Nat.ofDigits_digits]

/-! ## Reading back -/

theorem isDigit_separate {byte : UInt8} (h : isDigit byte = true) :
    isSpace byte = false ∧ byte ≠ minusSign ∧ byte ≠ plusSign ∧ byte ≠ 0 := by
  rw [isDigit_iff] at h
  refine ⟨?_, ?_, ?_, ?_⟩
  · rw [isSpace, decide_eq_false_iff_not]
    rintro (rfl | hspace)
    · exact absurd h.1 (by decide)
    · omega
  all_goals
    rintro rfl
    exact absurd h.1 (by decide)

theorem takeWhile_printNat (n : Nat) (hrest : ∀ byte ∈ rest.head?, isDigit byte = false) :
    (printNat n ++ rest).takeWhile isDigit = printNat n := by
  rw [List.takeWhile_append_of_pos fun _ => mem_printNat]
  cases rest with
  | nil => simp
  | cons byte rest =>
      have hstop : ¬ isDigit byte = true := by simp [hrest byte rfl]
      rw [List.takeWhile_cons_of_neg hstop, List.append_nil]

theorem atoi_printInt (n : Int) (hrest : ∀ byte ∈ rest.head?, isDigit byte = false) :
    atoi (printInt n ++ rest) = n := by
  unfold printInt
  split
  · rename_i hneg
    have hspace : ¬ isSpace minusSign = true := by decide
    rw [atoi, List.cons_append, List.dropWhile_cons_of_neg hspace]
    simp only [if_true, takeWhile_printNat _ hrest, digitsValue_printNat]
    omega
  · rename_i hpos
    obtain ⟨byte, digits, hdigits⟩ := List.exists_cons_of_ne_nil (printNat_ne_nil n.natAbs)
    obtain ⟨hspace, hminus, hplus, -⟩ := isDigit_separate
      (mem_printNat (n := n.natAbs) (hdigits ▸ List.mem_cons_self))
    have hread := takeWhile_printNat n.natAbs hrest
    rw [hdigits, List.cons_append] at hread ⊢
    rw [atoi, List.dropWhile_cons_of_neg (by simp [hspace])]
    simp only [if_neg hminus, if_neg hplus, hread, ← hdigits, digitsValue_printNat]
    omega

/-- What is read stops at the terminating NUL. -/
example : atoi [32, 45, 49, 50, 0, 48] = -12 := by decide

theorem zero_notMem_printInt (n : Int) : 0 ∉ printInt n := by
  have hnat : 0 ∉ printNat n.natAbs := fun hmem => (isDigit_separate (mem_printNat hmem)).2.2.2 rfl
  unfold printInt
  split
  · rw [List.mem_cons, not_or]
    exact ⟨by decide, hnat⟩
  · exact hnat

theorem printInt_of_nonneg (n : Nat) : printInt n = printNat n := by
  rw [printInt, if_neg (by omega), Int.natAbs_natCast]

end Mangoo.Foundation
