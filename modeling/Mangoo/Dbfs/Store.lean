import Mangoo.Dbfs.Dir

/-!
# The store

The store operations of `dbfs.c`, the file system information record of
`fsinfo.c` and the creation of a store by `mkdbfs.c`.
-/

namespace Mangoo.Dbfs

open Mangoo.Foundation

/-- An open store; `lastInode` is the next inode number it hands out. -/
structure DbfsStore where
  lastInode : UInt64
  deriving DecidableEq, Repr

/-! ## File system information -/

def dbfsCrupdFsinfo (dfd : FsinfoData) (create : Bool) : DbProg Int := do
  let error ← Prog.putRec Key.fsinfo dfd create
  if error ≠ 0 then return eio
  return 0

def dbfsUpdateFsinfo (dfd : FsinfoData) : DbProg Int := dbfsCrupdFsinfo dfd false

def dbfsCreateFsinfo (dfd : FsinfoData) : DbProg Int := dbfsCrupdFsinfo dfd true

def dbfsFetchFsinfo : DbProg (Except Int FsinfoData) := do
  let found : Except Int FsinfoData ← Prog.getRec Key.fsinfo
  match found with
  | .error _ => return .error eio
  | .ok dfd => return .ok dfd

/-! ## Store operations -/

/-- A number is taken from the store whether or not the record is created. -/
def dbfsCreate (heap : Heap) (proc : Proc) (dsp : DbfsStore) (locator : CStr)
    (mode : UInt32) (mt : MangooTypes) : DbProg (Int × DbfsStore) := do
  if heap.ok = false then return (enomem, dsp)
  let error ← dbfsCreateAttr proc locator mt.toUInt32 mode dsp.lastInode
  return (error, { dsp with lastInode := dsp.lastInode + 1 })

def dbfsDelete (heap : Heap) (fuel : Nat) (locator : CStr) : DbProg Int := do
  if locator = rootPath then return einval
  match dbfsCreatehandle heap locator with
  | none => return enomem
  | some dh =>
      let (error, attrDdd) ← dbfsReadAttr dh.attrDdk.ddkPath dh.attrDdd
      if error ≠ 0 then return error
      let dh := { dh with attrDdd := attrDdd }
      match MangooTypes.ofUInt32? dh.attrDdd.dddType with
      | some .container => do
          let (error, dh) ← dbfsDeld heap dh
          if error ≠ 0 then return error
          dbfsDela dh
      | some .data => do
          let error ← dbfsDels fuel dh
          if error ≠ 0 then return error
          dbfsDela dh
      | none => return einval

def dbfsOpen (heap : Heap) (locator : CStr) :
    MangooInterfaces → DbProg (Int × Option DbfsHandle)
  | .stream => dbfsSopen heap locator
  | .directory => dbfsDopen heap locator
  | .attr => dbfsAopen heap locator

/-- A session starts at the stored number and reserves the next thousand. -/
def dbfsInitstore (heap : Heap) : DbProg (Int × Option DbfsStore) := do
  if heap.ok = false then return (enomem, none)
  match ← dbfsFetchFsinfo with
  | .error error => return (error, none)
  | .ok dfd =>
      let error ← dbfsUpdateFsinfo { dfd with dfdLastino := dfd.dfdLastino + 1000 }
      if error ≠ 0 then return (error, none)
      return (0, some { lastInode := dfd.dfdLastino })

/-- `main` of `mkdbfs.c` on the new, empty database. -/
def mkdbfs (heap : Heap) (proc : Proc) : DbProg Int := do
  if heap.ok = false then return 0
  let error ← dbfsCreateAttr proc rootPath MangooTypes.container.toUInt32 0o644 dbfsRootIno
  if error ≠ 0 then return 0
  let _ ← dbfsCreateFsinfo { dfdLastino := dbfsRootIno }
  return 0

def mkdbfsDb (proc : Proc) : Db :=
  ((∅ : Db).insert (Key.dentry rootPath)
    (⟨0, 0o644, dbfsRootIno, 0, proc.now, proc.now, proc.euid, proc.egid⟩ : DentryData)).insert
      Key.fsinfo (⟨dbfsRootIno⟩ : FsinfoData)

theorem run_mkdbfs {heap : Heap} (proc : Proc) (h : heap.ok = true) :
    (mkdbfs heap proc).run ∅ = some (0, mkdbfsDb proc) := by
  simp [mkdbfs, dbfsCreateAttr, dbfsCreateFsinfo, dbfsCrupdFsinfo, h, mkdbfsDb,
    store, MangooTypes.toUInt32]

theorem lookup_mkdbfsDb {proc : Proc} {path : CStr} {ddd : DentryData}
    (h : (mkdbfsDb proc).lookup (.dentry path) = some ddd) :
    path = rootPath ∧
      ddd = ⟨0, 0o644, dbfsRootIno, 0, proc.now, proc.now, proc.euid, proc.egid⟩ := by
  rw [mkdbfsDb, Finmap.lookup_insert_of_ne _ (by simp)] at h
  by_cases heq : path = rootPath
  · subst heq
    rw [Finmap.lookup_insert] at h
    exact ⟨rfl, (Option.some.inj h).symm⟩
  · rw [Finmap.lookup_insert_of_ne _ (by simpa using heq), Finmap.lookup_empty] at h
    cases h

theorem lookup_mkdbfsDb_block (proc : Proc) (ino offset : UInt64) :
    (mkdbfsDb proc).lookup (.block ino offset) = none := by
  rw [mkdbfsDb, Finmap.lookup_insert_of_ne _ (by simp),
    Finmap.lookup_insert_of_ne _ (by simp), Finmap.lookup_empty]

/-! ## Small values for concrete runs -/

def plainHeap : Heap where
  ok := true
  fresh := fun _ _ => 0
  regrow := id
  envOpens := true

def plainProc : Proc := ⟨0, 0, 0⟩

def pathA : CStr := ⟨[slash, 97], by decide⟩

def pathB : CStr := ⟨[slash, 98], by decide⟩

def fileDb : Db :=
  (mkdbfsDb plainProc).insert (.dentry pathA) (⟨1, 0o644, 2, 5, 0, 0, 0, 0⟩ : DentryData)

/-- `fileDb` with the block that holds the bytes of the file, all sevens. -/
def filledDb : Db := fileDb.insert (.block 2 0) (List.replicate 4096 (7 : UInt8))

def streamHandle : DbfsHandle := initHandle pathA ⟨1, 0o644, 2, 5, 0, 0, 0, 0⟩

end Mangoo.Dbfs
