import Mathlib.Data.List.Induction
import Mathlib.Tactic.Common

/-!
# Byte maps

Byte contents by position, `none` where nothing is stored, with the effect of
writing a byte string at an offset.  A sequence of writes is a fold, so each
position shows the byte of the last write that covers it.
-/

namespace Mangoo.Foundation

abbrev ByteMap := Nat → Option UInt8

/-- `memcpy(dst + pos, src, src.length)` on a buffer. -/
def overwrite (dst : List UInt8) (pos : Nat) (src : List UInt8) : List UInt8 :=
  dst.take pos ++ src ++ dst.drop (pos + src.length)

theorem length_overwrite {dst src : List UInt8} {pos : Nat}
    (h : pos + src.length ≤ dst.length) :
    (overwrite dst pos src).length = dst.length := by
  simp [overwrite]
  omega

theorem getElem?_overwrite {dst src : List UInt8} {pos : Nat}
    (h : pos + src.length ≤ dst.length) (i : Nat) :
    (overwrite dst pos src)[i]? =
      if pos ≤ i ∧ i < pos + src.length then src[i - pos]? else dst[i]? := by
  have htake : (dst.take pos).length = pos := List.length_take_of_le (by omega)
  unfold overwrite
  rw [List.append_assoc, List.getElem?_append, htake]
  split
  · rename_i hlt
    rw [if_neg (by omega), List.getElem?_take_of_lt hlt]
  · rename_i hge
    rw [List.getElem?_append]
    split
    · rw [if_pos (by omega)]
    · rw [if_neg (by omega), List.getElem?_drop]
      congr 1
      omega

namespace ByteMap

def empty : ByteMap := fun _ => none

def overlay (m : ByteMap) (off : Nat) (bytes : List UInt8) : ByteMap := fun pos =>
  if off ≤ pos ∧ pos < off + bytes.length then bytes[pos - off]? else m pos

def overlayAll (m : ByteMap) (writes : List (Nat × List UInt8)) : ByteMap :=
  writes.foldl (fun m write => m.overlay write.1 write.2) m

def Le (m m' : ByteMap) : Prop := ∀ pos byte, m pos = some byte → m' pos = some byte

theorem Le.refl (m : ByteMap) : m.Le m := fun _ _ h => h

theorem Le.trans {m m' m'' : ByteMap} (h : m.Le m') (h' : m'.Le m'') : m.Le m'' :=
  fun pos byte hm => h' pos byte (h pos byte hm)

@[simp] theorem overlay_nil (m : ByteMap) (off : Nat) : m.overlay off [] = m := by
  funext pos
  simp only [overlay, List.length_nil]
  rw [if_neg (by omega)]

theorem overlay_append (m : ByteMap) (off : Nat) (first second : List UInt8) :
    m.overlay off (first ++ second) =
      (m.overlay off first).overlay (off + first.length) second := by
  funext pos
  simp only [overlay, List.length_append]
  by_cases hfirst : off ≤ pos ∧ pos < off + first.length
  · rw [if_pos (by omega), if_neg (by omega), if_pos hfirst,
      List.getElem?_append_left (by omega)]
  · by_cases hsecond : off + first.length ≤ pos ∧
        pos < off + first.length + second.length
    · rw [if_pos (by omega), if_pos hsecond, List.getElem?_append_right (by omega)]
      congr 1
      omega
    · rw [if_neg (by omega), if_neg hsecond, if_neg hfirst]

theorem overlay_mono {m m' : ByteMap} (h : m.Le m') (off : Nat)
    (bytes : List UInt8) : (m.overlay off bytes).Le (m'.overlay off bytes) := by
  intro pos byte hbyte
  simp only [overlay] at hbyte ⊢
  split
  · rename_i hin
    rwa [if_pos hin] at hbyte
  · rename_i hout
    rw [if_neg hout] at hbyte
    exact h pos byte hbyte

theorem Le.byte_of_overlay {m m' : ByteMap} {off i : Nat} {bytes : List UInt8}
    (h : (m.overlay off bytes).Le m') (hi : i < bytes.length) : m' (off + i) = bytes[i]? := by
  have hrange : off ≤ off + i ∧ off + i < off + bytes.length := by omega
  rw [List.getElem?_eq_getElem hi]
  apply h
  rw [overlay, if_pos hrange, Nat.add_sub_cancel_left, List.getElem?_eq_getElem hi]

@[simp] theorem overlayAll_nil (m : ByteMap) : m.overlayAll [] = m := rfl

@[simp] theorem overlayAll_concat (m : ByteMap) (writes : List (Nat × List UInt8))
    (write : Nat × List UInt8) :
    m.overlayAll (writes ++ [write]) =
      (m.overlayAll writes).overlay write.1 write.2 := by
  simp [overlayAll]

theorem overlayAll_cons (m : ByteMap) (write : Nat × List UInt8)
    (writes : List (Nat × List UInt8)) :
    m.overlayAll (write :: writes) =
      (m.overlay write.1 write.2).overlayAll writes := rfl

theorem overlayAll_mono {m m' : ByteMap} (h : m.Le m')
    (writes : List (Nat × List UInt8)) :
    (m.overlayAll writes).Le (m'.overlayAll writes) := by
  induction writes generalizing m m' with
  | nil => exact h
  | cons write writes ih => exact ih (overlay_mono h write.1 write.2)

theorem isSome_overlayAll_empty {writes : List (Nat × List UInt8)} {pos : Nat} :
    (empty.overlayAll writes pos).isSome ↔
      ∃ write ∈ writes, write.1 ≤ pos ∧ pos < write.1 + write.2.length := by
  induction writes using List.reverseRecOn with
  | nil => simp [empty]
  | append_singleton writes write ih =>
      rw [overlayAll_concat]
      unfold overlay
      split
      · rename_i hin
        have hlt : pos - write.1 < write.2.length := by omega
        rw [List.getElem?_eq_getElem hlt]
        simp [hin]
      · rename_i hout
        rw [ih]
        simp only [List.mem_append, List.mem_singleton]
        constructor
        · rintro ⟨other, hmem, hcover⟩
          exact ⟨other, .inl hmem, hcover⟩
        · rintro ⟨other, hmem | rfl, hcover⟩
          · exact ⟨other, hmem, hcover⟩
          · exact absurd hcover hout

theorem empty_le (m : ByteMap) : empty.Le m := by
  intro pos byte h
  cases h

def cut (m : ByteMap) (n : Nat) : ByteMap := fun pos => if pos < n then m pos else none

theorem cut_le (m : ByteMap) (n : Nat) : (m.cut n).Le m := by
  intro pos byte h
  unfold cut at h
  split at h
  · exact h
  · cases h

end ByteMap

end Mangoo.Foundation
