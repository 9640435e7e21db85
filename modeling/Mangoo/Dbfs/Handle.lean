import Mangoo.Dbfs.Layout

/-!
# Handles and dentry records

`struct dbfs_handle` with its creation (`fsinfo.c`), and the functions of
`attr.c` that create, read and write a dentry record.  What the C library and
Berkeley DB leave open enters as data: `Heap` says how they behave during one call,
`Proc` what the process environment returns.
-/

namespace Mangoo.Dbfs

open Mangoo.Foundation

structure Heap where
  /-- Whether the allocations that the code checks succeed. -/
  ok : Bool
  /-- Byte `j` of fresh memory that is allocated after `count` transferred bytes. -/
  fresh : Nat → Nat → UInt8
  /-- What the key buffer of a handle holds after Berkeley DB reallocated it for
  a larger key: that key when the buffer grew in place, anything else when it was
  moved and the handle still points to the freed one, which is too short for that key. -/
  regrow : Key → Key
  /-- Whether `env_open` gets its environment. -/
  envOpens : Bool

/-- Berkeley DB never has to move a key buffer. -/
def Heap.InPlace (heap : Heap) : Prop := ∀ key, heap.regrow key = key

def Heap.freshBlock (heap : Heap) (count : Nat) : List UInt8 :=
  List.ofFn fun j : Fin dbfsBlksize.toNat => heap.fresh count j

structure Proc where
  now : UInt64
  euid : UInt32
  egid : UInt32

/-- The string at `ddk_path` of a key buffer.  Only dentry keys have a path; the
bytes there of a block key are its zero padding. -/
def Key.ddkPath : Key → CStr
  | .dentry path => path
  | _ => ⟨[], by simp⟩

@[simp] theorem Key.ddkPath_dentry (path : CStr) : (Key.dentry path).ddkPath = path := rfl

/-- `dbc` is the key the handle's cursor stands on.  `ddkFreed` says that Berkeley DB moved
the key buffer, which leaves `attr_ddk` pointing to the freed one. -/
structure DbfsHandle where
  mhInterface : MangooInterfaces
  locator : CStr
  attrDdk : Key
  ddkFreed : Bool
  ddkSize : Nat
  attrDdd : DentryData
  dbc : Option Key

def initHandle (locator : CStr) (attrDdd : DentryData) : DbfsHandle where
  mhInterface := .stream
  locator := locator
  attrDdk := .dentry locator
  ddkFreed := false
  ddkSize := dbfsDdkSize locator
  attrDdd := attrDdd
  dbc := none

def dbfsCreatehandle (heap : Heap) (locator : CStr) : Option DbfsHandle :=
  if heap.ok then some (initHandle locator ⟨0, 0, 0, 0, 0, 0, 0, 0⟩) else none

def dbfsCreateAttr (proc : Proc) (attrDdk : CStr) (type mode : UInt32)
    (ino : UInt64) : DbProg Int := do
  let attrDdd : DentryData := {
    dddType := type
    dddMode := mode
    dddIno := ino
    dddSize := 0
    dddMtime := proc.now
    dddAtime := proc.now
    dddUid := proc.euid
    dddGid := proc.egid }
  let error ← Prog.putRec (.dentry attrDdk) attrDdd true
  if error ≠ 0 then return einval
  return 0

def dbfsWriteAttr (attrDdk : CStr) (attrDdd : DentryData) : DbProg Int := do
  let error ← Prog.putRec (.dentry attrDdk) attrDdd false
  if error ≠ 0 then return einval
  return 0

/-- The result code and the record buffer afterwards. -/
def dbfsReadAttr (attrDdk : CStr) (attrDdd : DentryData) :
    DbProg (Int × DentryData) := do
  match ← Prog.getRec (.dentry attrDdk) with
  | .ok record => return (0, record)
  | .error error => return (if error = dbNotfound then enoent else eio, attrDdd)

/-! ## What the record functions do -/

theorem run_dbfsWriteAttr (attrDdk : CStr) (attrDdd : DentryData) (db : Db) :
    (dbfsWriteAttr attrDdk attrDdd).run db =
      some (0, db.insert (.dentry attrDdk) attrDdd) := by
  simp [dbfsWriteAttr]

theorem run_dbfsReadAttr_of_some {attrDdk : CStr} {attrDdd record : DentryData} {db : Db}
    (h : db.lookup (.dentry attrDdk) = some record) :
    (dbfsReadAttr attrDdk attrDdd).run db = some ((0, record), db) := by
  simp [dbfsReadAttr, fetch_of_lookup h]

theorem run_dbfsReadAttr_of_none {attrDdk : CStr} (attrDdd : DentryData) {db : Db}
    (h : db.lookup (.dentry attrDdk) = none) :
    (dbfsReadAttr attrDdk attrDdd).run db = some ((enoent, attrDdd), db) := by
  simp [dbfsReadAttr, fetch_of_lookup_none h]

variable {faulty : Prop} {db db' : Db}

theorem exec_dbfsWriteAttr {attrDdk : CStr} {attrDdd : DentryData} {error : Int}
    (h : Prog.Exec faulty (dbfsWriteAttr attrDdk attrDdd) db error db') :
    error = 0 ∧ db' = db.insert (.dentry attrDdk) attrDdd ∨
      faulty ∧ error = einval ∧ db' = db := by
  simp only [dbfsWriteAttr, Prog.exec_bind, Prog.exec_putRec] at h
  obtain ⟨code, mid, hput | ⟨hf, hfault, rfl⟩, hret⟩ := h
  · rw [store_overwrite] at hput
    cases hput
    simp only [ne_eq, not_true_eq_false, if_false, Prog.exec_pure] at hret
    exact .inl hret
  · rw [if_pos hfault.1, Prog.exec_pure] at hret
    exact .inr ⟨hf, hret⟩

theorem exec_dbfsCreateAttr {proc : Proc} {attrDdk : CStr} {type mode : UInt32}
    {ino : UInt64} {error : Int}
    (h : Prog.Exec faulty (dbfsCreateAttr proc attrDdk type mode ino) db error db') :
    error = 0 ∧ db.lookup (.dentry attrDdk) = none ∧
        db' = db.insert (.dentry attrDdk)
          ⟨type, mode, ino, 0, proc.now, proc.now, proc.euid, proc.egid⟩ ∨
      error = einval ∧ db' = db := by
  simp only [dbfsCreateAttr, Prog.exec_bind, Prog.exec_putRec] at h
  obtain ⟨code, mid, hput | ⟨hf, hfault, rfl⟩, hret⟩ := h
  · cases hlookup : db.lookup (.dentry attrDdk) with
    | none =>
        rw [store_noOverwrite_of_none _ hlookup] at hput
        cases hput
        simp only [ne_eq, not_true_eq_false, if_false, Prog.exec_pure] at hret
        exact .inl ⟨hret.1, rfl, hret.2⟩
    | some record =>
        rw [store_noOverwrite_of_some _ hlookup] at hput
        cases hput
        rw [if_pos (by decide), Prog.exec_pure] at hret
        exact .inr hret
  · rw [if_pos hfault.1, Prog.exec_pure] at hret
    exact .inr hret

theorem exec_dbfsReadAttr {attrDdk : CStr} {attrDdd record : DentryData} {error : Int}
    (h : Prog.Exec faulty (dbfsReadAttr attrDdk attrDdd) db (error, record) db') :
    db' = db ∧ (error = 0 ∧ db.lookup (.dentry attrDdk) = some record ∨
      error ≠ 0 ∧ record = attrDdd) := by
  simp only [dbfsReadAttr, Prog.exec_bind, Prog.exec_getRec] at h
  obtain ⟨result, mid, ⟨rfl, hget⟩, hret⟩ := h
  cases result with
  | ok found =>
      simp only [Prog.exec_pure, Prod.mk.injEq] at hret
      obtain ⟨⟨rfl, rfl⟩, rfl⟩ := hret
      refine ⟨rfl, .inl ⟨rfl, ?_⟩⟩
      rcases hget with hget | ⟨-, e, -, hget⟩
      · exact fetch_eq_ok_iff.mp hget.symm
      · cases hget
  | error code =>
      simp only [Prog.exec_pure, Prod.mk.injEq] at hret
      obtain ⟨⟨rfl, rfl⟩, rfl⟩ := hret
      refine ⟨rfl, .inr ⟨?_, rfl⟩⟩
      split <;> decide

end Mangoo.Dbfs
