import Mangoo.Foundation.CallBounds
import Mangoo.Dbfs.System

/-!
# Calls that an operation makes

How often the operations on files ask the database at most.  A transfer asks once or twice for
each block that its range touches.
-/

namespace Mangoo.Dbfs

open Mangoo.Foundation

def callsPerBlock (read : Bool) : Nat := if read then 1 else 2

def touchedBlocks (offinblk size : Nat) : Nat := (offinblk + size + 4095) / 4096

theorem touchedBlocks_mono {offinblk m n : Nat} (h : m ≤ n) :
    touchedBlocks offinblk m ≤ touchedBlocks offinblk n := by
  unfold touchedBlocks
  omega

variable {ino : UInt64} {l : RwLocals}

/-! ## Transfers -/

theorem within_getBlock (ino offset : UInt64) (data : List UInt8) :
    (getBlock ino offset data).Within (fun _ => True) 1 := by
  apply (Prog.within_getRec (β := Rec) (.block ino offset)).bind_ret
  intro found _
  cases found with
  | error => exact Prog.within_pure trivial
  | ok record =>
      dsimp only
      split_ifs
      · exact Prog.within_pure trivial
      · exact Prog.within_pure trivial

theorem within_writeBlock (ino : UInt64) (l : RwLocals) (block : List UInt8) :
    (writeBlock ino { l with data := block }).Within (GoesOn l) 1 := by
  apply (Prog.within_putRec (β := Rec) (.block ino l.dbkOffset) _ false).bind_ret
  intro error _
  split_ifs
  · exact Prog.within_pure fun h => by cases h
  · exact Prog.within_pure fun _ => ⟨rfl, rfl, rfl⟩

theorem within_readwriteBlock (heap : Heap) (ino : UInt64) (read : Bool) (l : RwLocals) :
    (readwriteBlock heap ino read l).Within (GoesOn l) (callsPerBlock read) := by
  have hbound : ∀ n, callsPerBlock read = n + 1 →
      (∀ block, read = false → (writeBlock ino { l with data := block }).Within (GoesOn l) n) →
      (readwriteBlock heap ino read l).Within (GoesOn l) (callsPerBlock read) := by
    intro n hn hwrite
    rw [hn]
    apply (within_getBlock ino l.dbkOffset l.data).bind
    intro result _
    cases result with
    | error error =>
        dsimp only
        split_ifs with hfault hread
        · exact Prog.within_pure fun h => by cases h
        · exact Prog.within_pure fun _ => ⟨rfl, rfl, rfl⟩
        · exact hwrite _ (by simpa using hread)
    | ok data =>
        dsimp only
        split_ifs with hread
        · exact Prog.within_pure fun _ => ⟨rfl, rfl, rfl⟩
        · exact hwrite _ (by simpa using hread)
  cases read with
  | true => exact hbound 0 rfl fun _ h => by cases h
  | false => exact hbound 1 rfl fun block _ => within_writeBlock ino l block

theorem touchedBlocks_next (hoff : l.offinblk.toNat < 4096) (hsize : l.size ≠ 0) :
    touchedBlocks 0 (l.size - l.sizeinblk).toNat + 1 ≤
      touchedBlocks l.offinblk.toNat l.size.toNat := by
  have hpos := toNat_ne_zero hsize
  have hle : l.offinblk ≤ dbfsBlksize := by
    rw [UInt64.le_iff_toNat_le, toNat_dbfsBlksize]
    omega
  unfold touchedBlocks RwLocals.sizeinblk
  split
  · rename_i hgt
    rw [gt_iff_lt, UInt64.lt_iff_toNat_lt, UInt64.toNat_add, toNat_dbfsBlksize] at hgt
    have hblock : (dbfsBlksize - l.offinblk).toNat = 4096 - l.offinblk.toNat := by
      rw [UInt64.toNat_sub_of_le _ _ hle, toNat_dbfsBlksize]
    have hfits : dbfsBlksize - l.offinblk ≤ l.size := by
      rw [UInt64.le_iff_toNat_le, hblock]
      omega
    rw [UInt64.toNat_sub_of_le _ _ hfits, hblock]
    omega
  · rw [UInt64.sub_self, UInt64.toNat_zero]
    omega

theorem within_readwriteLoop (heap : Heap) (ino : UInt64) (read : Bool) {fuel : Nat}
    (l : RwLocals) (hoff : l.offinblk.toNat < 4096) (hfuel : l.size.toNat ≤ fuel) :
    (readwriteLoop heap ino read fuel l).Within (fun _ => True)
      (callsPerBlock read * touchedBlocks l.offinblk.toNat l.size.toNat) := by
  induction fuel generalizing l with
  | zero =>
      have hzero : l.size = 0 := by
        apply UInt64.toNat_inj.mp
        simp only [UInt64.toNat_zero]
        omega
      rw [readwriteLoop, if_pos hzero]
      exact Prog.within_pure trivial
  | succ fuel ih =>
      rw [readwriteLoop]
      by_cases hsize : l.size = 0
      · rw [if_pos hsize]
        exact Prog.within_pure trivial
      · rw [if_neg hsize]
        obtain ⟨hpos, hle⟩ := toNat_sizeinblk_bounds hoff hsize
        have hspan := touchedBlocks_next hoff hsize
        refine Prog.Within.mono (m := callsPerBlock read *
          touchedBlocks 0 (l.size - l.sizeinblk).toNat + callsPerBlock read) ?_ ?_
        · apply (within_readwriteBlock heap ino read l).bind
          rintro ⟨goesOn, l₁⟩ hnext
          cases goesOn with
          | false => exact Prog.within_pure trivial
          | true =>
              obtain ⟨hsize₁, hoffset₁, hkey₁⟩ := hnext rfl
              have hsize₁ : l₁.size = l.size - l.sizeinblk := hsize₁
              have hleft : l₁.size.toNat = l.size.toNat - l.sizeinblk.toNat := by
                rw [hsize₁]
                exact UInt64.toNat_sub_of_le _ _ (UInt64.le_iff_toNat_le.mpr hle)
              have haligned : l₁.offinblk = 0 := by
                rw [RwLocals.offinblk, hoffset₁, hkey₁, RwLocals.next, UInt64.sub_self]
              have hloop := ih l₁ (by simp [haligned]) (by omega)
              rw [haligned, hsize₁] at hloop
              exact hloop
        · rw [← Nat.mul_succ]
          exact Nat.mul_le_mul_left _ hspan

theorem within_dbfsReadwrite (heap : Heap) (ino : UInt64) (buf : List UInt8)
    (size offset : UInt64) (read : Bool) :
    (dbfsReadwrite heap ino buf size offset read).Within (fun _ => True)
      (callsPerBlock read * touchedBlocks (offset.toNat % 4096) size.toNat) := by
  have hloop := within_readwriteLoop heap ino read (rwStart buf size offset)
    (toNat_offinblk_rwStart buf size offset) le_rfl
  have hoff : (rwStart buf size offset).offinblk.toNat = offset.toNat % 4096 := by
    rw [RwLocals.offinblk, rwStart, toNat_sub_blockOffset]
  rw [hoff] at hloop
  exact hloop.bind_ret fun _ _ => Prog.within_pure trivial

/-! ## Operations on handles -/

theorem within_dbfsRead (heap : Heap) (dh : DbfsHandle) (buf : List UInt8)
    (size offset : UInt64) :
    (dbfsRead heap dh buf size offset).Within (fun _ => True)
      (touchedBlocks (offset.toNat % 4096) size.toNat) := by
  unfold dbfsRead
  by_cases hend : offset > dh.attrDdd.dddSize
  · rw [if_pos hend]
    exact Prog.within_pure trivial
  · rw [if_neg hend]
    have hread := fun clipped => within_dbfsReadwrite heap dh.attrDdd.dddIno buf clipped offset true
    refine (hread _).mono ?_
    rw [callsPerBlock, if_pos rfl, Nat.one_mul]
    apply touchedBlocks_mono
    split_ifs with hclip
    · have hle : offset ≤ dh.attrDdd.dddSize := UInt64.not_lt.mp hend
      have hlt := dh.attrDdd.dddSize.toNat_lt
      rw [gt_iff_lt, UInt64.lt_iff_toNat_lt, UInt64.toNat_add] at hclip
      rw [UInt64.toNat_sub_of_le _ _ hle]
      rw [UInt64.le_iff_toNat_le] at hle
      omega
    · exact le_rfl

theorem within_dbfsWriteAttr (path : CStr) (ddd : DentryData) :
    (dbfsWriteAttr path ddd).Within (fun _ => True) 1 := by
  apply (Prog.within_putRec (β := Rec) (.dentry path) ddd false).bind_ret
  intro error _
  split_ifs
  · exact Prog.within_pure trivial
  · exact Prog.within_pure trivial

theorem within_dbfsWrite (heap : Heap) (dh : DbfsHandle) (buf : List UInt8)
    (size offset : UInt64) :
    (dbfsWrite heap dh buf size offset).Within (fun _ => True)
      (1 + 2 * touchedBlocks (offset.toNat % 4096) size.toNat) := by
  apply (within_dbfsReadwrite heap dh.attrDdd.dddIno buf size offset false).bind (n := 1)
  rintro ⟨error, count, out⟩ _
  dsimp only
  split_ifs
  · exact Prog.within_pure trivial
  · apply (within_dbfsWriteAttr _ _).bind_ret
    exact fun _ _ => Prog.within_pure trivial
  · apply (within_dbfsWriteAttr _ _).bind_ret
    exact fun _ _ => Prog.within_pure trivial

theorem within_setAttr (dh : DbfsHandle) (update : DentryData → DentryData) :
    (setAttr dh update).Within (fun _ => True) 1 := by
  apply (within_dbfsWriteAttr _ _).bind_ret
  exact fun _ _ => Prog.within_pure trivial

theorem within_dbfsReadAttr (path : CStr) (ddd : DentryData) :
    (dbfsReadAttr path ddd).Within (fun _ => True) 1 := by
  apply (Prog.within_getRec (β := Rec) (.dentry path)).bind_ret
  intro found _
  cases found with
  | ok record => exact Prog.within_pure trivial
  | error e => exact Prog.within_pure trivial

theorem within_readAttrHandle (heap : Heap) (mi : MangooInterfaces) (path : CStr) :
    (do
      match dbfsCreatehandle heap path with
      | none => return (enomem, none)
      | some dh =>
          let dh := { dh with mhInterface := mi }
          let (error, attrDdd) ← dbfsReadAttr dh.attrDdk.ddkPath dh.attrDdd
          if error ≠ 0 then return (error, none)
          return (0, some { dh with attrDdd := attrDdd }) :
      DbProg (Int × Option DbfsHandle)).Within (fun _ => True) 1 := by
  unfold dbfsCreatehandle
  split_ifs
  · apply (within_dbfsReadAttr _ _).bind_ret
    rintro ⟨error, ddd⟩ _
    dsimp only
    split_ifs
    · exact Prog.within_pure trivial
    · exact Prog.within_pure trivial
  · exact Prog.within_pure trivial

theorem within_dbfsOpen_stream (heap : Heap) (path : CStr) :
    (dbfsOpen heap path .stream).Within (fun _ => True) 1 :=
  within_readAttrHandle heap .stream path

theorem within_dbfsOpen_attr (heap : Heap) (path : CStr) :
    (dbfsOpen heap path .attr).Within (fun _ => True) 1 :=
  within_readAttrHandle heap .attr path

theorem within_dbfsCreate (heap : Heap) (proc : Proc) (dsp : DbfsStore) (path : CStr)
    (mode : UInt32) (mt : MangooTypes) :
    (dbfsCreate heap proc dsp path mode mt).Within (fun _ => True) 1 := by
  have hput : ∀ type mode ino, (dbfsCreateAttr proc path type mode ino).Within
      (fun _ => True) 1 := by
    intro type mode ino
    apply (Prog.within_putRec (β := Rec) (.dentry path) _ true).bind_ret
    intro error _
    split_ifs
    · exact Prog.within_pure trivial
    · exact Prog.within_pure trivial
  unfold dbfsCreate
  split_ifs
  · exact Prog.within_pure trivial
  · apply (hput _ _ _).bind_ret
    exact fun _ _ => Prog.within_pure trivial

end Mangoo.Dbfs
