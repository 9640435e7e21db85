import Mathlib.Data.List.Infix
import Mathlib.Tactic.Common

/-!
# NUL-terminated strings

C strings as byte lists without a zero byte, and `strcmp` on them.  `strcmp`
compares unsigned bytes and takes the end of a string for a zero byte, so it is
a total order, and the strings with a common prefix form an interval of it that
starts at the prefix itself.
-/

namespace Mangoo.Foundation

structure CStr where
  bytes : List UInt8
  nul_free : 0 ∉ bytes
  deriving DecidableEq

namespace CStr

@[ext] theorem ext {s t : CStr} (h : s.bytes = t.bytes) : s = t := by
  cases s
  cases t
  cases h
  rfl

def length (s : CStr) : Nat := s.bytes.length

/-- The string from byte `n` on, as pointer arithmetic `s + n` gives it. -/
def drop (s : CStr) (n : Nat) : CStr :=
  ⟨s.bytes.drop n, fun h => s.nul_free (List.mem_of_mem_drop h)⟩

/-- `strchr(s, c) != NULL` for a character other than NUL. -/
def contains (s : CStr) (c : UInt8) : Bool := decide (c ∈ s.bytes)

/-- `strstr(s, pre) == s`: the first occurrence of `pre` is at the start. -/
def startsWith (s pre : CStr) : Bool := pre.bytes.isPrefixOf s.bytes

/-- `while (*s == c) s++`. -/
def skip (s : CStr) (c : UInt8) : CStr :=
  ⟨s.bytes.dropWhile (· == c),
    fun h => s.nul_free ((List.dropWhile_sublist _).mem h)⟩

@[simp] theorem startsWith_iff {s pre : CStr} :
    s.startsWith pre = true ↔ pre.bytes <+: s.bytes :=
  List.isPrefixOf_iff_prefix

@[simp] theorem contains_iff {s : CStr} {c : UInt8} :
    s.contains c = true ↔ c ∈ s.bytes := by
  simp [contains]

end CStr

/-- `strcmp` on the bytes before the terminators. -/
def strcmpBytes : List UInt8 → List UInt8 → Int
  | [], [] => 0
  | [], b :: _ => -(b.toNat : Int)
  | a :: _, [] => a.toNat
  | a :: s, b :: t =>
      if a = b then strcmpBytes s t else (a.toNat : Int) - b.toNat

def strcmp (s t : CStr) : Int := strcmpBytes s.bytes t.bytes

private theorem toNat_pos_of_nul_free {a : UInt8} {s : List UInt8}
    (h : 0 ∉ a :: s) : 0 < a.toNat := by
  have hne : a ≠ 0 := fun heq => h (by simp [heq])
  have hnat : a.toNat ≠ 0 := fun heq => hne (UInt8.toNat_inj.mp (by simpa using heq))
  omega

private theorem nul_free_tail {a : UInt8} {s : List UInt8}
    (h : 0 ∉ a :: s) : 0 ∉ s := fun hmem => h (List.mem_cons_of_mem a hmem)

theorem strcmpBytes_swap (s t : List UInt8) :
    strcmpBytes t s = -strcmpBytes s t := by
  fun_induction strcmpBytes s t with
  | case1 => rfl
  | case2 b t => simp [strcmpBytes]
  | case3 a s => simp [strcmpBytes]
  | case4 s b t ih => simpa [strcmpBytes] using ih
  | case5 a s b t hne =>
      have hne' : ¬ b = a := fun h => hne h.symm
      simp only [strcmpBytes, if_neg hne']
      omega

theorem strcmpBytes_eq_zero {s t : List UInt8} (hs : 0 ∉ s) (ht : 0 ∉ t) :
    strcmpBytes s t = 0 ↔ s = t := by
  fun_induction strcmpBytes s t with
  | case1 => simp
  | case2 b t =>
      have := toNat_pos_of_nul_free ht
      simp only [reduceCtorEq, iff_false]
      omega
  | case3 a s =>
      have := toNat_pos_of_nul_free hs
      simp only [reduceCtorEq, iff_false]
      omega
  | case4 s b t ih =>
      rw [ih (nul_free_tail hs) (nul_free_tail ht)]
      simp
  | case5 a s b t hne =>
      have hnat : a.toNat ≠ b.toNat := fun h => hne (UInt8.toNat_inj.mp h)
      simp only [List.cons.injEq, hne, false_and, iff_false]
      omega

theorem strcmpBytes_trans {s t u : List UInt8} (hs : 0 ∉ s) (ht : 0 ∉ t)
    (hu : 0 ∉ u) (hst : strcmpBytes s t ≤ 0) (htu : strcmpBytes t u ≤ 0) :
    strcmpBytes s u ≤ 0 := by
  induction s generalizing t u with
  | nil => cases u <;> simp [strcmpBytes]
  | cons a s ih =>
      have ha := toNat_pos_of_nul_free hs
      cases t with
      | nil =>
          simp only [strcmpBytes] at hst
          omega
      | cons b t =>
          have hb := toNat_pos_of_nul_free ht
          cases u with
          | nil =>
              simp only [strcmpBytes] at htu
              omega
          | cons c u =>
              by_cases hab : a = b
              · subst hab
                by_cases hac : a = c
                · subst hac
                  simp only [strcmpBytes, if_true] at hst htu ⊢
                  exact ih (nul_free_tail hs) (nul_free_tail ht)
                    (nul_free_tail hu) hst htu
                · simpa only [strcmpBytes, if_neg hac] using htu
              · have hab' : a.toNat ≠ b.toNat :=
                  fun h => hab (UInt8.toNat_inj.mp h)
                simp only [strcmpBytes, if_neg hab] at hst
                by_cases hbc : b = c
                · subst hbc
                  simpa only [strcmpBytes, if_neg hab] using hst
                · simp only [strcmpBytes, if_neg hbc] at htu
                  have hac : a ≠ c := by
                    rintro rfl
                    omega
                  simp only [strcmpBytes, if_neg hac]
                  omega

theorem strcmpBytes_append_le (s t : List UInt8) :
    strcmpBytes s (s ++ t) ≤ 0 := by
  induction s with
  | nil => cases t <;> simp [strcmpBytes]
  | cons a s ih => simpa [strcmpBytes] using ih

theorem strcmpBytes_append_append (pre s t : List UInt8) :
    strcmpBytes (pre ++ s) (pre ++ t) = strcmpBytes s t := by
  induction pre with
  | nil => rfl
  | cons a pre ih => simpa [strcmpBytes] using ih

/-- Between a prefix and one of its extensions there are only extensions. -/
theorem prefix_of_strcmpBytes_between {pre s t : List UInt8}
    (hpre : 0 ∉ pre) (hs : 0 ∉ s) (hlow : strcmpBytes pre s ≤ 0)
    (hhigh : strcmpBytes s t ≤ 0) (ht : pre <+: t) : pre <+: s := by
  induction pre generalizing s t with
  | nil => exact List.nil_prefix
  | cons a pre ih =>
      have ha := toNat_pos_of_nul_free hpre
      obtain ⟨rest, rfl⟩ := ht
      cases s with
      | nil =>
          simp only [strcmpBytes] at hlow
          omega
      | cons b s =>
          have hab : a = b := by
            by_contra hne
            have hne' : ¬ b = a := fun h => hne h.symm
            have hnat : a.toNat ≠ b.toNat := fun h => hne (UInt8.toNat_inj.mp h)
            simp only [strcmpBytes, List.cons_append, if_neg hne, if_neg hne'] at hlow hhigh
            omega
          subst hab
          simp only [strcmpBytes, List.cons_append, if_true] at hlow hhigh
          have hrest := ih (nul_free_tail hpre) (nul_free_tail hs) hlow hhigh
            (List.prefix_append pre rest)
          exact List.cons_prefix_cons.mpr ⟨rfl, hrest⟩

/-! ## `strcmp` as an order -/

theorem strcmp_swap (s t : CStr) : strcmp t s = -strcmp s t :=
  strcmpBytes_swap s.bytes t.bytes

theorem strcmp_eq_zero {s t : CStr} : strcmp s t = 0 ↔ s = t := by
  unfold strcmp
  rw [strcmpBytes_eq_zero s.nul_free t.nul_free]
  exact ⟨CStr.ext, fun h => h ▸ rfl⟩

theorem strcmp_trans {s t u : CStr} (hst : strcmp s t ≤ 0)
    (htu : strcmp t u ≤ 0) : strcmp s u ≤ 0 :=
  strcmpBytes_trans s.nul_free t.nul_free u.nul_free hst htu

theorem strcmp_le_of_extends {s t : CStr} (h : s.bytes <+: t.bytes) :
    strcmp s t ≤ 0 := by
  obtain ⟨rest, hrest⟩ := h
  unfold strcmp
  rw [← hrest]
  exact strcmpBytes_append_le s.bytes rest

theorem prefix_of_strcmp_between {pre s t : CStr} (hlow : strcmp pre s ≤ 0)
    (hhigh : strcmp s t ≤ 0) (ht : pre.bytes <+: t.bytes) :
    pre.bytes <+: s.bytes :=
  prefix_of_strcmpBytes_between pre.nul_free s.nul_free hlow hhigh ht

end Mangoo.Foundation
