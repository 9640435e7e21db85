import Mangoo.Dbfs.Truncation

/-!
# Path operations of FUSE

The functions of `mangoofuse.c` that take a path.  They are written over the calls of
`mangoo.c` they make, which `dbfsCalls` answers from the store.
-/

namespace Mangoo.Fuse

open Mangoo.Foundation Mangoo.Dbfs

/-- The fields of `struct stat` that `mf_getattr` sets. -/
structure Stat where
  stMode : UInt32
  stNlink : UInt64
  stUid : UInt32
  stGid : UInt32
  stSize : Int64
  stMtime : Int64
  stCtime : Int64
  stAtime : Int64
  deriving DecidableEq, Repr

structure Utimbuf where
  actime : Int64
  modtime : Int64

def sIfreg : UInt32 := 0o100000

def sIfdir : UInt32 := 0o040000

/-- The calls on a handle of type `H`.  One that changes the record the handle holds
returns the handle as it is then. -/
structure AttrCalls (m : Type → Type) (H : Type) where
  mangooOpen : CStr → MangooInterfaces → m (Except Int H)
  mangooClose : H → m Int
  mattrGettype : H → m (Except Int UInt32)
  mattrGetsize : H → m (Except Int Int64)
  mattrSetsize : H → Int64 → m (Int × H)
  mattrGetmtime : H → m (Except Int Int64)
  mattrSetmtime : H → Int64 → m (Int × H)
  mattrGetatime : H → m (Except Int Int64)
  mattrSetatime : H → Int64 → m (Int × H)
  mattrGetmode : H → m (Except Int UInt32)
  mattrChmod : H → UInt32 → m (Int × H)
  mattrChown : H → UInt32 → UInt32 → m (Int × H)
  mattrGetuid : H → m (Except Int UInt32)
  mattrGetgid : H → m (Except Int UInt32)

section Operations

variable {m : Type → Type} [Monad m] {H α : Type} (calls : AttrCalls m H)

def errout2 (handle : H) (error : Int) (stbuf : Stat) : m (Int × Stat) := do
  let _ ← calls.mangooClose handle
  return (-error, stbuf)

/-- A getter whose failure leads to `errout2`. -/
def getOrErrout2 (handle : H) (getter : H → m (Except Int α)) (stbuf : Stat)
    (next : α → m (Int × Stat)) : m (Int × Stat) := do
  match ← getter handle with
  | .error error => errout2 calls handle error stbuf
  | .ok value => next value

/-- The switch over the type and the end of `mf_getattr`. -/
def getattrSwitch (handle : H) (stbuf : Stat) (type : UInt32) : m (Int × Stat) := do
  match MangooTypes.ofUInt32? type with
  | some .data => closeGetattr { stbuf with stNlink := 1, stMode := stbuf.stMode ||| sIfreg }
  | some .container =>
      closeGetattr { stbuf with stNlink := 2, stMode := stbuf.stMode ||| sIfdir }
  | none => errout2 calls handle einval stbuf
where
  closeGetattr (stbuf : Stat) : m (Int × Stat) := do
    let error ← calls.mangooClose handle
    if error ≠ 0 then return (-error, stbuf)
    return (0, stbuf)

/-- The result code and what `stbuf` points to afterwards. -/
def mfGetattr (path : CStr) (stbuf : Stat) : m (Int × Stat) := do
  match ← calls.mangooOpen path .attr with
  | .error error => return (-error, stbuf)
  | .ok handle =>
      getOrErrout2 calls handle calls.mattrGetuid stbuf fun uid =>
      let stbuf := { stbuf with stUid := uid }
      getOrErrout2 calls handle calls.mattrGetgid stbuf fun gid =>
      let stbuf := { stbuf with stGid := gid }
      getOrErrout2 calls handle calls.mattrGetmtime stbuf fun mtime =>
      let stbuf := { stbuf with stMtime := mtime, stCtime := mtime }
      getOrErrout2 calls handle calls.mattrGetatime stbuf fun atime =>
      let stbuf := { stbuf with stAtime := atime }
      getOrErrout2 calls handle calls.mattrGetsize stbuf fun size =>
      let stbuf := { stbuf with stSize := size }
      getOrErrout2 calls handle calls.mattrGetmode stbuf fun mode =>
      let stbuf := { stbuf with stMode := mode }
      getOrErrout2 calls handle calls.mattrGettype stbuf fun type =>
      getattrSwitch calls handle stbuf type

/-- The handle is closed only when the call on it failed, and then the result is still
zero. -/
def mfChmod (path : CStr) (mode : UInt32) : m Int := do
  match ← calls.mangooOpen path .attr with
  | .error error => return -error
  | .ok handle =>
      let (error, handle) ← calls.mattrChmod handle mode
      if error ≠ 0 then
        let _ ← calls.mangooClose handle
      return 0

def mfChown (path : CStr) (newuid newgid : UInt32) : m Int := do
  match ← calls.mangooOpen path .attr with
  | .error error => return -error
  | .ok handle =>
      let (error, handle) ← calls.mattrChown handle newuid newgid
      if error ≠ 0 then
        let _ ← calls.mangooClose handle
      return 0

def mfUtime (path : CStr) (utb : Utimbuf) : m Int := do
  match ← calls.mangooOpen path .attr with
  | .error error => return -error
  | .ok handle =>
      let (error, handle) ← calls.mattrSetmtime handle utb.modtime
      if error ≠ 0 then
        let _ ← calls.mangooClose handle
        return -error
      let (error, handle) ← calls.mattrSetatime handle utb.actime
      if error ≠ 0 then
        let _ ← calls.mangooClose handle
        return -error
      let error ← calls.mangooClose handle
      if error ≠ 0 then return -error
      return 0

def mfTruncate (path : CStr) (offset : Int64) : m Int := do
  match ← calls.mangooOpen path .attr with
  | .error error => return -error
  | .ok handle =>
      let (error, handle) ← calls.mattrSetsize handle offset
      let _ ← calls.mangooClose handle
      return -error

end Operations

/-! ## On a store -/

/-- `dbfs_close` of `stream.c` and of `attr.c`, which only free memory. -/
def dbfsClose (_ : DbfsHandle) : DbProg Int := return 0

/-- `fuel` bounds the iterations of the truncation loop. -/
def dbfsCalls (heap : Heap) (fuel : Nat) : AttrCalls DbProg DbfsHandle where
  mangooOpen path mi := do
    match ← dbfsOpen heap path mi with
    | (error, none) => return .error error
    | (_, some handle) => return .ok handle
  mangooClose := dbfsClose
  mattrGettype dh := return .ok (dbfsGettype dh)
  mattrGetsize dh := return .ok (dbfsGetsize dh)
  mattrSetsize dh size := dbfsSetsize fuel dh size.toUInt64
  mattrGetmtime dh := return .ok (dbfsGetmtime dh)
  mattrSetmtime dh mtime := dbfsSetmtime dh mtime.toUInt64
  mattrGetatime dh := return .ok (dbfsGetatime dh)
  mattrSetatime dh atime := dbfsSetatime dh atime.toUInt64
  mattrGetmode dh := return .ok (dbfsGetmode dh)
  mattrChmod := dbfsChmod
  mattrChown := dbfsChown
  mattrGetuid dh := return .ok (dbfsGetuid dh)
  mattrGetgid dh := return .ok (dbfsGetgid dh)

def mfMkdir (heap : Heap) (proc : Proc) (dsp : DbfsStore) (path : CStr) (mode : UInt32) :
    DbProg (Int × DbfsStore) := do
  let (error, dsp) ← dbfsCreate heap proc dsp path mode .container
  if error ≠ 0 then return (-error, dsp)
  return (0, dsp)

/-- The second component is the handle that `fi->fh` holds afterwards.  `heap` is the
allocator during `mangoo_create`, `openHeap` the one during `mangoo_open`. -/
def mfCreate (heap openHeap : Heap) (proc : Proc) (dsp : DbfsStore) (path : CStr)
    (mode : UInt32) : DbProg (Int × Option DbfsHandle × DbfsStore) := do
  let (error, dsp) ← dbfsCreate heap proc dsp path mode .data
  if error ≠ 0 then return (-error, none, dsp)
  match ← dbfsOpen openHeap path .stream with
  | (error, none) => return (-error, none, dsp)
  | (_, some handle) => return (0, some handle, dsp)

def mfRelease (fh : Option DbfsHandle) : DbProg Int := do
  match fh with
  | none => return -einval
  | some handle =>
      let error ← dbfsClose handle
      return -error

/-! ## Runs of the operations -/

variable {db : Db} {path : CStr} {ddd : DentryData}

/-- The attribute handle that `mangoo_open` gives for a record. -/
def attrHandle (path : CStr) (ddd : DentryData) : DbfsHandle :=
  { initHandle path ddd with mhInterface := .attr }

/-- What `mangoo_open` finds. -/
inductive Opened (heap : Heap) (db : Db) (path : CStr) : Except Int DbfsHandle → Prop
  | enomem : heap.ok = false → Opened heap db path (.error enomem)
  | enoent : heap.ok = true → db.lookup (.dentry path) = none →
      Opened heap db path (.error enoent)
  | handle {ddd : DentryData} : heap.ok = true → db.lookup (.dentry path) = some ddd →
      Opened heap db path (.ok (attrHandle path ddd))

theorem run_mangooOpen (heap : Heap) (fuel : Nat) (db : Db) (path : CStr) :
    ∃ result, Opened heap db path result ∧
      ((dbfsCalls heap fuel).mangooOpen path .attr).run db = some (result, db) := by
  cases hok : heap.ok with
  | false =>
      refine ⟨_, .enomem hok, ?_⟩
      simp [dbfsCalls, dbfsOpen, dbfsAopen, dbfsCreatehandle, hok]
  | true =>
      cases hlookup : db.lookup (.dentry path) with
      | none =>
          refine ⟨_, .enoent hok hlookup, ?_⟩
          simp [dbfsCalls, dbfsOpen, dbfsAopen, dbfsCreatehandle, hok, initHandle,
            run_dbfsReadAttr_of_none _ hlookup, enoent]
      | some ddd =>
          refine ⟨_, .handle hok hlookup, ?_⟩
          simp [dbfsCalls, dbfsOpen, dbfsAopen, dbfsCreatehandle, hok, initHandle, attrHandle,
            run_dbfsReadAttr_of_some hlookup]

def fileType : MangooTypes → UInt32
  | .data => sIfreg
  | .container => sIfdir

def nlink : MangooTypes → UInt64
  | .data => 1
  | .container => 2

/-- What `mf_getattr` makes of a record of the type `mt`. -/
def statOf (mt : MangooTypes) (ddd : DentryData) : Stat where
  stMode := ddd.dddMode ||| fileType mt
  stNlink := nlink mt
  stUid := ddd.dddUid
  stGid := ddd.dddGid
  stSize := ddd.dddSize.toInt64
  stMtime := ddd.dddMtime.toInt64
  stCtime := ddd.dddMtime.toInt64
  stAtime := ddd.dddAtime.toInt64

theorem run_mfGetattr_handle (heap : Heap) (fuel : Nat) (stbuf : Stat) {mt : MangooTypes}
    (hopen : ((dbfsCalls heap fuel).mangooOpen path .attr).run db =
      some (.ok (attrHandle path ddd), db))
    (htype : MangooTypes.ofUInt32? ddd.dddType = some mt) :
    (mfGetattr (dbfsCalls heap fuel) path stbuf).run db = some ((0, statOf mt ddd), db) := by
  unfold mfGetattr
  rw [Prog.run_bind, hopen]
  cases mt <;>
    simp [getOrErrout2, getattrSwitch, getattrSwitch.closeGetattr, dbfsCalls, htype, statOf,
      dbfsClose, attrHandle, initHandle, dbfsGetuid, dbfsGetgid, dbfsGetmtime, dbfsGetatime,
      dbfsGetsize, dbfsGetmode, dbfsGettype, fileType, nlink]

theorem run_mfGetattr_error (heap : Heap) (fuel : Nat) (stbuf : Stat) {error : Int}
    (hopen : ((dbfsCalls heap fuel).mangooOpen path .attr).run db = some (.error error, db)) :
    (mfGetattr (dbfsCalls heap fuel) path stbuf).run db = some ((-error, stbuf), db) := by
  simp [mfGetattr, hopen]

end Mangoo.Fuse
