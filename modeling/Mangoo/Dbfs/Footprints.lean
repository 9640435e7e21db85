import Mangoo.Foundation.Footprint
import Mangoo.Dbfs.System

/-!
# The records of a file

The calls on data files keep to the dentry records of their paths and to the blocks of the inode
numbers that these records carry.
-/

namespace Mangoo.Dbfs

open Mangoo.Foundation

def FileKeys (paths : CStr → Prop) (inos : UInt64 → Prop) : Key → Prop
  | .fsinfo => False
  | .dentry path => paths path
  | .block ino _ => inos ino

def FileRecord (inos : UInt64 → Prop) (ddd : DentryData) : Prop :=
  inos ddd.dddIno ∧ IsData ddd.dddType

def FileRecords (inos : UInt64 → Prop) : ∀ key, Rec key → Prop
  | .fsinfo, _ => True
  | .dentry _, ddd => FileRecord inos ddd
  | .block _ _, _ => True

structure FileHandle (paths : CStr → Prop) (inos : UInt64 → Prop) (dh : DbfsHandle) : Prop where
  key : ∃ path, paths path ∧ dh.attrDdk = .dentry path
  record : FileRecord inos dh.attrDdd

variable {paths : CStr → Prop} {inos : UInt64 → Prop} {path : CStr} {ino : UInt64}
  {dh : DbfsHandle}

/-! ## Attributes -/

theorem uses_dbfsReadAttr (hpath : paths path) (ddd : DentryData) :
    (dbfsReadAttr path ddd).Uses (FileKeys paths inos) (FileRecords inos)
      fun r => r.1 = 0 → FileRecord inos r.2 := by
  apply (Prog.uses_getRec (β := Rec) (k := .dentry path) hpath).bind
  intro found hfound
  cases found with
  | ok record => exact Prog.uses_pure fun _ => hfound record rfl
  | error e =>
      apply Prog.uses_pure
      dsimp only
      split_ifs
      · exact fun h => absurd h (by decide)
      · exact fun h => absurd h (by decide)

theorem uses_dbfsWriteAttr {ddd : DentryData} (hpath : paths path) (hddd : FileRecord inos ddd) :
    (dbfsWriteAttr path ddd).Uses (FileKeys paths inos) (FileRecords inos) fun _ => True := by
  apply (Prog.uses_putRec (β := Rec) (k := .dentry path) false hpath hddd).bind
  intro error _
  split_ifs
  · exact Prog.uses_pure trivial
  · exact Prog.uses_pure trivial

theorem uses_setAttr (hdh : FileHandle paths inos dh) {update : DentryData → DentryData}
    (hupdate : ∀ ddd, FileRecord inos ddd → FileRecord inos (update ddd)) :
    (setAttr dh update).Uses (FileKeys paths inos) (FileRecords inos)
      fun r => FileHandle paths inos r.2 := by
  obtain ⟨path, hpath, hkey⟩ := hdh.key
  have hnew := hupdate _ hdh.record
  have hwrite : (dbfsWriteAttr dh.attrDdk.ddkPath (update dh.attrDdd)).Uses (FileKeys paths inos)
      (FileRecords inos) fun _ => True := by
    rw [hkey]
    exact uses_dbfsWriteAttr hpath hnew
  apply hwrite.bind
  intro error _
  exact Prog.uses_pure ⟨⟨path, hpath, hkey⟩, hnew⟩

theorem uses_dbfsSetmtime (hdh : FileHandle paths inos dh) (mtime : UInt64) :
    (dbfsSetmtime dh mtime).Uses (FileKeys paths inos) (FileRecords inos)
      fun r => FileHandle paths inos r.2 :=
  uses_setAttr hdh fun _ h => h

theorem uses_dbfsSetatime (hdh : FileHandle paths inos dh) (atime : UInt64) :
    (dbfsSetatime dh atime).Uses (FileKeys paths inos) (FileRecords inos)
      fun r => FileHandle paths inos r.2 :=
  uses_setAttr hdh fun _ h => h

theorem uses_dbfsChmod (hdh : FileHandle paths inos dh) (mode : UInt32) :
    (dbfsChmod dh mode).Uses (FileKeys paths inos) (FileRecords inos)
      fun r => FileHandle paths inos r.2 :=
  uses_setAttr hdh fun _ h => h

theorem uses_dbfsChown (hdh : FileHandle paths inos dh) (newuid newgid : UInt32) :
    (dbfsChown dh newuid newgid).Uses (FileKeys paths inos) (FileRecords inos)
      fun r => FileHandle paths inos r.2 :=
  uses_setAttr hdh fun _ h => h

theorem uses_dbfsSetsize (hdh : FileHandle paths inos dh) (fuel : Nat) (size : UInt64) :
    (dbfsSetsize fuel dh size).Uses (FileKeys paths inos) (FileRecords inos)
      fun r => FileHandle paths inos r.2 := by
  rw [dbfsSetsize_eq]
  exact uses_setAttr hdh fun _ h => h

/-! ## Opening -/

theorem uses_readAttrHandle (heap : Heap) (mi : MangooInterfaces) (hpath : paths path) :
    (do
      match dbfsCreatehandle heap path with
      | none => return (enomem, none)
      | some dh =>
          let dh := { dh with mhInterface := mi }
          let (error, attrDdd) ← dbfsReadAttr dh.attrDdk.ddkPath dh.attrDdd
          if error ≠ 0 then return (error, none)
          return (0, some { dh with attrDdd := attrDdd }) :
      DbProg (Int × Option DbfsHandle)).Uses (FileKeys paths inos) (FileRecords inos)
      fun r => ∀ dh, r.2 = some dh → FileHandle paths inos dh := by
  unfold dbfsCreatehandle
  split_ifs
  · apply (uses_dbfsReadAttr hpath _).bind
    rintro ⟨error, ddd⟩ hread
    dsimp only at hread ⊢
    by_cases hzero : error = 0
    · rw [if_neg (not_not.mpr hzero)]
      apply Prog.uses_pure
      rintro _ ⟨⟩
      exact ⟨⟨path, hpath, rfl⟩, hread hzero⟩
    · rw [if_pos hzero]
      apply Prog.uses_pure
      rintro dh ⟨⟩
  · apply Prog.uses_pure
    rintro dh ⟨⟩

theorem uses_dbfsOpen_stream (heap : Heap) (hpath : paths path) :
    (dbfsOpen heap path .stream).Uses (FileKeys paths inos) (FileRecords inos)
      fun r => ∀ dh, r.2 = some dh → FileHandle paths inos dh :=
  uses_readAttrHandle heap .stream hpath

theorem uses_dbfsOpen_attr (heap : Heap) (hpath : paths path) :
    (dbfsOpen heap path .attr).Uses (FileKeys paths inos) (FileRecords inos)
      fun r => ∀ dh, r.2 = some dh → FileHandle paths inos dh :=
  uses_readAttrHandle heap .attr hpath

/-! ## Streams -/

theorem uses_writeBlock (hino : inos ino) (l : RwLocals) :
    (writeBlock ino l).Uses (FileKeys paths inos) (FileRecords inos) fun _ => True := by
  apply (Prog.uses_putRec (β := Rec) (k := .block ino l.dbkOffset) false hino trivial).bind
  intro error _
  split_ifs
  · exact Prog.uses_pure trivial
  · exact Prog.uses_pure trivial

theorem uses_readwriteBlock (heap : Heap) (hino : inos ino) (read : Bool) (l : RwLocals) :
    (readwriteBlock heap ino read l).Uses (FileKeys paths inos) (FileRecords inos)
      fun _ => True := by
  have hget : (getBlock ino l.dbkOffset l.data).Uses (FileKeys paths inos) (FileRecords inos)
      fun _ => True := by
    apply (Prog.uses_getRec (β := Rec) (k := .block ino l.dbkOffset) hino).bind
    intro found _
    cases found with
    | error => exact Prog.uses_pure trivial
    | ok record =>
        dsimp only
        split_ifs
        · exact Prog.uses_pure trivial
        · exact Prog.uses_pure trivial
  apply hget.bind
  intro found _
  cases found with
  | error error =>
      dsimp only
      split_ifs
      · exact Prog.uses_pure trivial
      · exact Prog.uses_pure trivial
      · exact uses_writeBlock hino _
  | ok data =>
      dsimp only
      split_ifs
      · exact Prog.uses_pure trivial
      · exact uses_writeBlock hino _

theorem uses_readwriteLoop (heap : Heap) (hino : inos ino) (read : Bool) (fuel : Nat)
    (l : RwLocals) :
    (readwriteLoop heap ino read fuel l).Uses (FileKeys paths inos) (FileRecords inos)
      fun _ => True := by
  induction fuel generalizing l with
  | zero =>
      rw [readwriteLoop]
      split_ifs
      · exact Prog.uses_pure trivial
      · exact Prog.uses_spin
  | succ fuel ih =>
      rw [readwriteLoop]
      split_ifs
      · exact Prog.uses_pure trivial
      · apply (uses_readwriteBlock heap hino read l).bind
        rintro ⟨goesOn, l⟩ _
        dsimp only
        split_ifs
        · exact ih l
        · exact Prog.uses_pure trivial

theorem uses_dbfsReadwrite (heap : Heap) (hino : inos ino) (buf : List UInt8)
    (size offset : UInt64) (read : Bool) :
    (dbfsReadwrite heap ino buf size offset read).Uses (FileKeys paths inos) (FileRecords inos)
      fun _ => True := by
  apply (uses_readwriteLoop heap hino read size.toNat (rwStart buf size offset)).bind
  exact fun _ _ => Prog.uses_pure trivial

theorem uses_dbfsRead (hdh : FileHandle paths inos dh) (heap : Heap) (buf : List UInt8)
    (size offset : UInt64) :
    (dbfsRead heap dh buf size offset).Uses (FileKeys paths inos) (FileRecords inos)
      fun _ => True := by
  unfold dbfsRead
  split_ifs
  · exact Prog.uses_pure trivial
  · exact uses_dbfsReadwrite heap hdh.record.1 _ _ _ _
  · exact uses_dbfsReadwrite heap hdh.record.1 _ _ _ _

theorem uses_dbfsWrite (hdh : FileHandle paths inos dh) (heap : Heap) (buf : List UInt8)
    (size offset : UInt64) :
    (dbfsWrite heap dh buf size offset).Uses (FileKeys paths inos) (FileRecords inos)
      fun r => FileHandle paths inos r.2.2 := by
  obtain ⟨path, hpath, hkey⟩ := hdh.key
  have hwrite : ∀ (size : UInt64) (ddd : DentryData), FileRecord inos ddd →
      ((do
        let error ← dbfsWriteAttr dh.attrDdk.ddkPath ddd
        return (error, size, { dh with attrDdd := ddd })) :
        DbProg (Int × UInt64 × DbfsHandle)).Uses (FileKeys paths inos) (FileRecords inos)
        fun r => FileHandle paths inos r.2.2 := by
    intro size ddd hddd
    rw [hkey]
    apply (uses_dbfsWriteAttr hpath hddd).bind
    exact fun error _ => Prog.uses_pure ⟨⟨path, hpath, rfl⟩, hddd⟩
  unfold dbfsWrite
  apply (uses_dbfsReadwrite heap hdh.record.1 buf size offset false).bind
  rintro ⟨error, count, out⟩ _
  dsimp only
  by_cases herror : error = 0
  · rw [if_neg (not_not.mpr herror)]
    apply hwrite
    split_ifs
    · exact hdh.record
    · exact hdh.record
  · rw [if_pos herror]
    exact Prog.uses_pure hdh

/-! ## Removing -/

theorem uses_truncateLoop (hino : inos ino) (fuel : Nat) (l : TruncLocals) :
    (truncateLoop ino fuel l).Uses (FileKeys paths inos) (FileRecords inos) fun _ => True := by
  induction fuel generalizing l with
  | zero =>
      rw [truncateLoop]
      split_ifs
      · exact Prog.uses_spin
      · exact Prog.uses_pure trivial
  | succ fuel ih =>
      rw [truncateLoop]
      split_ifs
      · apply (Prog.uses_delRec (k := Key.block ino l.dbkOffset) hino).bind
        intro error _
        by_cases hfault : error ≠ 0 ∧ error ≠ dbNotfound
        · rw [if_pos hfault]
          exact Prog.uses_pure trivial
        · rw [if_neg hfault]
          exact ih _
      · exact Prog.uses_pure trivial

theorem uses_dbfsDelete (heap : Heap) (fuel : Nat) (hpath : paths path) :
    (dbfsDelete heap fuel path).Uses (FileKeys paths inos) (FileRecords inos) fun _ => True := by
  unfold dbfsDelete dbfsCreatehandle
  split_ifs
  · exact Prog.uses_pure trivial
  · apply (uses_dbfsReadAttr hpath _).bind
    rintro ⟨error, ddd⟩ hread
    dsimp only at hread ⊢
    split_ifs with herror
    · exact Prog.uses_pure trivial
    · obtain ⟨hino, hdata⟩ := hread (not_not.mp herror)
      have hdel : (dbfsDela { initHandle path ⟨0, 0, 0, 0, 0, 0, 0, 0⟩ with attrDdd := ddd }).Uses
          (FileKeys paths inos) (FileRecords inos) fun _ => True := by
        apply (Prog.uses_delRec (k := Key.dentry path) hpath).bind
        intro error _
        split_ifs
        · exact Prog.uses_pure trivial
        · exact Prog.uses_pure trivial
        · exact Prog.uses_pure trivial
      rw [hdata]
      apply (uses_truncateLoop hino fuel _).bind
      intro error _
      split_ifs
      · exact Prog.uses_pure trivial
      · exact hdel
  · exact Prog.uses_pure trivial

end Mangoo.Dbfs
