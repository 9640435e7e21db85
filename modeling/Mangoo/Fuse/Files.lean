import Mangoo.Dbfs.System
import Mangoo.Fuse.Metadata
import Mangoo.Fuse.Reading
import Mangoo.Fuse.Rewinding

/-!
# Serving files

The file operations of `mangoofuse.c` that work on an open file, and the server they
make up: a mounted store with the handles that FUSE keeps in `fi->fh`, which answers one
call after the other.
-/

namespace Mangoo.Fuse

open Mangoo.Foundation Mangoo.Dbfs

/-! ## Operations on files -/

def mfOpen (heap : Heap) (path : CStr) : DbProg (Int × Option DbfsHandle) := do
  match ← dbfsOpen heap path .stream with
  | (error, none) => return (-error, none)
  | (_, some handle) => return (0, some handle)

/-- The result and the handle in `fi->fh` afterwards. -/
def mfWrite (heap : Heap) (fh : Option DbfsHandle) (buf : List UInt8)
    (size offset : UInt64) : DbProg (Int × Option DbfsHandle) := do
  envOpen heap
  match fh with
  | none => return (-einval, none)
  | some handle =>
      let (error, size, handle) ← dbfsWrite heap handle buf size offset
      if error ≠ 0 then return (-error, some handle)
      return (intOfSize size, some handle)

/-- Serves both `unlink` and `rmdir`. -/
def mfRemove (heap : Heap) (fuel : Nat) (path : CStr) : DbProg Int := do
  let error ← dbfsDelete heap fuel path
  return -error

def mfReleasedir (dir : MfDir) : DbProg Int := do
  let _ ← dbfsClosedir dir.handle
  return 0

/-- A directory is opened, read into a page with room for all of it and released. -/
def listDirectory (heap : Heap) (fuel : Nat) (path : CStr) : DbProg (Int × List Filled) := do
  let (error, dir) ← mfOpendir heap path
  match dir with
  | none => return (error, [])
  | some dir => do
      let (error, dir, page) ← mfReaddir heap neverFull fuel dir [] 0
      let _ ← mfReleasedir dir
      return (error, page)

/-! ## The server -/

/-- `fi` names the open file that a call makes or works on. -/
inductive FuseOp where
  | mfMkdir (proc : Proc) (path : CStr) (mode : UInt32)
  | mfCreate (openHeap : Heap) (proc : Proc) (path : CStr) (mode : UInt32) (fi : Nat)
  | mfOpen (path : CStr) (fi : Nat)
  | mfRead (fi : Nat) (buf : List UInt8) (offset : UInt64)
  | mfWrite (fi : Nat) (buf : List UInt8) (offset : UInt64)
  | mfRelease (fi : Nat)
  | mfGetattr (path : CStr) (stbuf : Stat)
  | mfChmod (path : CStr) (mode : UInt32)
  | mfChown (path : CStr) (newuid newgid : UInt32)
  | mfUtime (path : CStr) (utb : Utimbuf)
  | mfTruncate (path : CStr) (offset : Int64)
  | mfRemove (path : CStr)
  | listDirectory (path : CStr)

/-- `fuel` bounds the iterations of the loops that need not end. -/
structure FuseCall where
  heap : Heap
  fuel : Nat
  op : FuseOp

inductive Answer where
  | result (code : Int)
  | stat (code : Int) (stbuf : Stat)
  | data (code : Int) (buf : List UInt8)
  | listing (code : Int) (entries : List Filled)

abbrev OpenFiles := Nat → Option DbfsHandle

def FuseCall.serve (call : FuseCall) (dsp : DbfsStore) (files : OpenFiles) :
    DbProg (Answer × DbfsStore × OpenFiles) := do
  let calls := dbfsCalls call.heap call.fuel
  match call.op with
  | .mfMkdir proc path mode =>
      let (code, dsp) ← mfMkdir call.heap proc dsp path mode
      return (.result code, dsp, files)
  | .mfCreate openHeap proc path mode fi =>
      let (code, fh, dsp) ← mfCreate call.heap openHeap proc dsp path mode
      return (.result code, dsp, Function.update files fi fh)
  | .mfOpen path fi =>
      let (code, fh) ← mfOpen call.heap path
      return (.result code, dsp, Function.update files fi fh)
  | .mfRead fi buf offset =>
      let (code, buf) ← mfRead call.heap (files fi) buf (UInt64.ofNat buf.length) offset
      return (.data code buf, dsp, files)
  | .mfWrite fi buf offset =>
      let (code, fh) ← mfWrite call.heap (files fi) buf (UInt64.ofNat buf.length) offset
      return (.result code, dsp, Function.update files fi fh)
  | .mfRelease fi =>
      let code ← mfRelease (files fi)
      return (.result code, dsp, Function.update files fi none)
  | .mfGetattr path stbuf =>
      let (code, stbuf) ← mfGetattr calls path stbuf
      return (.stat code stbuf, dsp, files)
  | .mfChmod path mode =>
      let code ← mfChmod calls path mode
      return (.result code, dsp, files)
  | .mfChown path newuid newgid =>
      let code ← mfChown calls path newuid newgid
      return (.result code, dsp, files)
  | .mfUtime path utb =>
      let code ← mfUtime calls path utb
      return (.result code, dsp, files)
  | .mfTruncate path offset =>
      let code ← mfTruncate calls path offset
      return (.result code, dsp, files)
  | .mfRemove path =>
      let code ← mfRemove call.heap call.fuel path
      return (.result code, dsp, files)
  | .listDirectory path =>
      let (code, entries) ← listDirectory call.heap call.fuel path
      return (.listing code entries, dsp, files)

inductive FuseEvent where
  | mangooInitstore (heap : Heap) (error : Int)
  | mangooClosestore
  | served (call : FuseCall) (answer : Answer)

/-- The server with all database calls succeeding.  Mounting starts a session of the store
and unmounting ends it, with the files that are still open. -/
inductive FuseStep : Sys → FuseEvent → Sys → Prop
  | mangooInitstore {s : Sys} {heap error store db'} : s.store = none →
      (dbfsInitstore heap).run s.db = some ((error, store), db') →
      FuseStep s (.mangooInitstore heap error) ⟨db', store, s.handles⟩
  | mangooClosestore {s : Sys} {dsp} : s.store = some dsp →
      FuseStep s .mangooClosestore ⟨s.db, none, fun _ => none⟩
  | served {s : Sys} {dsp call answer dsp' files' db'} : s.store = some dsp →
      (call.serve dsp s.handles).run s.db = some ((answer, dsp', files'), db') →
      FuseStep s (.served call answer) ⟨db', some dsp', files'⟩

end Mangoo.Fuse
