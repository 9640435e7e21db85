import Mangoo.Dbfs.Stream

/-!
# Attribute operations

The getters and setters of `attr.c`.  A setter changes the handle's copy of the dentry
record and then stores the whole copy, whatever the database holds by then.
-/

namespace Mangoo.Dbfs

open Mangoo.Foundation

def setAttr (dh : DbfsHandle) (update : DentryData → DentryData) :
    DbProg (Int × DbfsHandle) := do
  let dh := { dh with attrDdd := update dh.attrDdd }
  let error ← dbfsWriteAttr dh.attrDdk.ddkPath dh.attrDdd
  return (error, dh)

def dbfsSetmtime (dh : DbfsHandle) (mtime : UInt64) : DbProg (Int × DbfsHandle) :=
  setAttr dh fun ddd => { ddd with dddMtime := mtime }

def dbfsSetatime (dh : DbfsHandle) (atime : UInt64) : DbProg (Int × DbfsHandle) :=
  setAttr dh fun ddd => { ddd with dddAtime := atime }

def dbfsChmod (dh : DbfsHandle) (mode : UInt32) : DbProg (Int × DbfsHandle) :=
  setAttr dh fun ddd => { ddd with dddMode := mode }

def dbfsChown (dh : DbfsHandle) (newuid newgid : UInt32) : DbProg (Int × DbfsHandle) :=
  setAttr dh fun ddd => { ddd with dddUid := newuid, dddGid := newgid }

def dbfsSetsize (fuel : Nat) (dh : DbfsHandle) (size : UInt64) :
    DbProg (Int × DbfsHandle) := do
  let error ←
    if dh.attrDdd.dddSize > size then
      dbfsTruncateblocks fuel dh.attrDdd.dddIno size dh.attrDdd.dddSize
    else pure 0
  if error ≠ 0 then return (error, dh)
  setAttr dh fun ddd => { ddd with dddSize := size }

/-! ## Getters

They copy a field of the handle and never fail. -/

def dbfsGettype (dh : DbfsHandle) : UInt32 := dh.attrDdd.dddType

def dbfsGetsize (dh : DbfsHandle) : Int64 := dh.attrDdd.dddSize.toInt64

def dbfsGetmtime (dh : DbfsHandle) : Int64 := dh.attrDdd.dddMtime.toInt64

def dbfsGetatime (dh : DbfsHandle) : Int64 := dh.attrDdd.dddAtime.toInt64

def dbfsGetmode (dh : DbfsHandle) : UInt32 := dh.attrDdd.dddMode

def dbfsGetuid (dh : DbfsHandle) : UInt32 := dh.attrDdd.dddUid

def dbfsGetgid (dh : DbfsHandle) : UInt32 := dh.attrDdd.dddGid

/-! ## Opening and removing -/

def dbfsAopen (heap : Heap) (locator : CStr) : DbProg (Int × Option DbfsHandle) := do
  match dbfsCreatehandle heap locator with
  | none => return (enomem, none)
  | some dh =>
      let dh := { dh with mhInterface := .attr }
      let (error, attrDdd) ← dbfsReadAttr dh.attrDdk.ddkPath dh.attrDdd
      if error ≠ 0 then return (error, none)
      return (0, some { dh with attrDdd := attrDdd })

/-- Deletes the record whose key the handle's key buffer holds. -/
def dbfsDela (dh : DbfsHandle) : DbProg Int := do
  let error ← Prog.delRec dh.attrDdk
  if error ≠ 0 then return (if error = dbNotfound then enoent else eio)
  return 0

/-! ## What the setters do -/

theorem run_setAttr (dh : DbfsHandle) (update : DentryData → DentryData) (db : Db) :
    (setAttr dh update).run db =
      some ((0, { dh with attrDdd := update dh.attrDdd }),
        db.insert (.dentry dh.attrDdk.ddkPath) (update dh.attrDdd)) := by
  simp [setAttr, run_dbfsWriteAttr]

/-- The loop condition asks for an unsigned size of at most zero, so a shrinking call never
enters the truncation loop. -/
theorem dbfsTruncateblocks_of_lt {ino offset stop : UInt64} (fuel : Nat)
    (h : offset < stop) : dbfsTruncateblocks fuel ino offset stop = pure 0 := by
  have hsize : ¬ stop - offset ≤ 0 := by
    rw [UInt64.le_iff_toNat_le, UInt64.toNat_sub_of_le _ _ (UInt64.le_of_lt h)]
    rw [UInt64.lt_iff_toNat_lt] at h
    simp only [UInt64.toNat_zero]
    omega
  cases fuel <;> simp [dbfsTruncateblocks, truncateLoop, hsize]

theorem dbfsSetsize_eq (fuel : Nat) (dh : DbfsHandle) (size : UInt64) :
    dbfsSetsize fuel dh size = setAttr dh fun ddd => { ddd with dddSize := size } := by
  unfold dbfsSetsize
  split
  · rename_i h
    rw [dbfsTruncateblocks_of_lt fuel h]
    rfl
  · rfl

end Mangoo.Dbfs
