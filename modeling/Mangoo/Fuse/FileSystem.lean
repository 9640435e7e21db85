import Mangoo.Fuse.Files

/-!
# The file system

What the mounted store is for, without handles, inode numbers and blocks: paths with
attributes, and for each file the bytes that were written to it, were not cut off since and
so have to be there.  The other positions of a file may read as anything.
-/

namespace Mangoo.Fuse

open Mangoo.Foundation Mangoo.Dbfs

/-- `bytes` holds what is known of the contents. -/
structure FileNode where
  attrs : Attrs
  bytes : ByteMap

structure FileSystem where
  node : CStr → Option FileNode
  opened : Nat → Option CStr

/-! ## Files -/

def Attrs.length (a : Attrs) : Nat := a.size.toUInt64.toNat

/-- The attributes of a file that reaches at least to `stop`. -/
def Attrs.grow (a : Attrs) (stop : Nat) : Attrs :=
  if a.length < stop then { a with size := (UInt64.ofNat stop).toInt64 } else a

namespace FileNode

def new (attrs : Attrs) : FileNode := ⟨attrs, ByteMap.empty⟩

def write (node : FileNode) (offset : Nat) (buf : List UInt8) : FileNode where
  attrs := node.attrs.grow (offset + buf.length)
  bytes := node.bytes.overlay offset buf

def truncate (node : FileNode) (offset : Int64) : FileNode where
  attrs := { node.attrs with size := offset }
  bytes := node.bytes.cut offset.toUInt64.toNat

/-- A read of `k` bytes puts the known ones into the buffer.  It may fail when the last
one is not known. -/
def Reads (node : FileNode) (offset k : Nat) (buf : List UInt8) (code : Int)
    (out : List UInt8) : Prop :=
  ∃ bytes : List UInt8, bytes.length = k ∧ out = bytes ++ buf.drop k ∧
    (∀ i byte, i < k → node.bytes (offset + i) = some byte → bytes[i]? = some byte) ∧
    (code = intOfSize (UInt64.ofNat k) ∨
      code = -dbNotfound ∧ 0 < k ∧ node.bytes (offset + k - 1) = none)

end FileNode

/-! ## Operations -/

namespace FileSystem

def new (proc : Proc) : FileSystem where
  node path := (newAttrs proc path).map FileNode.new
  opened := fun _ => none

def set (A : FileSystem) (path : CStr) (node : Option FileNode) : FileSystem :=
  { A with node := Function.update A.node path node }

def setOpened (A : FileSystem) (fi : Nat) (path : Option CStr) : FileSystem :=
  { A with opened := Function.update A.opened fi path }

def IsFile (A : FileSystem) (path : CStr) : Prop :=
  ∃ node, A.node path = some node ∧ node.attrs.type = .data

def IsExtended (A : FileSystem) (path : CStr) : Prop :=
  ∃ other, A.node other ≠ none ∧ other ≠ path ∧ path.bytes <+: other.bytes

/-- The code of a call that needs the path to be there. -/
def lookupCode (A : FileSystem) (heap : Heap) (path : CStr) : Int :=
  if heap.ok then
    match A.node path with
    | none => -enoent
    | some _ => 0
  else -enomem

/-- The code of a call that needs the path not to be there. -/
def createCode (A : FileSystem) (heap : Heap) (path : CStr) : Int :=
  if heap.ok then
    match A.node path with
    | none => 0
    | some _ => -einval
  else -enomem

def create (A : FileSystem) (heap : Heap) (path : CStr) (attrs : Attrs) : FileSystem :=
  if heap.ok then A.set path ((A.node path).or (some (.new attrs))) else A

def edit (A : FileSystem) (heap : Heap) (path : CStr) (change : FileNode → FileNode) :
    FileSystem :=
  if heap.ok then A.set path ((A.node path).map change) else A

/-- The names and types of the entries of a directory, in the order of their names. -/
structure Lists (A : FileSystem) (path : CStr) (entries : List (CStr × UInt32)) : Prop where
  mem : ∀ name type, (name, type) ∈ entries ↔ ∃ child node, A.node child = some node ∧
    IsChild path child ∧ name = lastComponent child ∧ type = node.attrs.type.toUInt32
  sorted : entries.Pairwise fun a b => strcmp a.1 b.1 < 0

end FileSystem

/-- The path a call changes the attributes of, and how. -/
def FuseOp.edit? : FuseOp → Option (CStr × (FileNode → FileNode))
  | .mfChmod path mode => some (path, fun node =>
      { node with attrs := { node.attrs with mode := mode } })
  | .mfChown path newuid newgid => some (path, fun node =>
      { node with attrs := { node.attrs with uid := newuid, gid := newgid } })
  | .mfUtime path utb => some (path, fun node =>
      { node with attrs := { node.attrs with mtime := utb.modtime, atime := utb.actime } })
  | .mfTruncate path offset => some (path, fun node => node.truncate offset)
  | _ => none

/-- `A.Serves heap op answer A'`: the file system may answer the call like this. -/
inductive FileSystem.Serves (A : FileSystem) (heap : Heap) :
    FuseOp → Answer → FileSystem → Prop
  | mkdir {proc path mode} :
      Serves A heap (.mfMkdir proc path mode) (.result (A.createCode heap path))
        (A.create heap path (.create .container mode proc))
  | create {openHeap proc path mode fi} : A.createCode heap path = 0 → openHeap.ok = true →
      Serves A heap (.mfCreate openHeap proc path mode fi) (.result 0)
        ((A.create heap path (.create .data mode proc)).setOpened fi (some path))
  | createUnopened {openHeap proc path mode fi} :
      A.createCode heap path = 0 → openHeap.ok = false →
      Serves A heap (.mfCreate openHeap proc path mode fi) (.result (-enomem))
        ((A.create heap path (.create .data mode proc)).setOpened fi none)
  | createFails {openHeap proc path mode fi} : A.createCode heap path ≠ 0 →
      Serves A heap (.mfCreate openHeap proc path mode fi)
        (.result (A.createCode heap path)) (A.setOpened fi none)
  | opens {path fi} : A.lookupCode heap path = 0 →
      Serves A heap (.mfOpen path fi) (.result 0) (A.setOpened fi (some path))
  | openFails {path fi} : A.lookupCode heap path ≠ 0 →
      Serves A heap (.mfOpen path fi) (.result (A.lookupCode heap path)) (A.setOpened fi none)
  | read {fi path node buf offset code out} :
      A.opened fi = some path → A.node path = some node →
      node.Reads offset.toNat
        (clipped node.attrs.size.toUInt64 offset (UInt64.ofNat buf.length)) buf code out →
      Serves A heap (.mfRead fi buf offset) (.data code out) A
  | readUnopened {fi buf offset} : A.opened fi = none →
      Serves A heap (.mfRead fi buf offset) (.data (-einval) buf) A
  | write {fi path node buf offset} : A.opened fi = some path → A.node path = some node →
      offset.toNat + buf.length < 2 ^ 64 →
      Serves A heap (.mfWrite fi buf offset)
        (.result (intOfSize (UInt64.ofNat buf.length)))
        (A.set path (some (node.write offset.toNat buf)))
  | writeUnopened {fi buf offset} : A.opened fi = none →
      Serves A heap (.mfWrite fi buf offset) (.result (-einval)) A
  | release {fi path} : A.opened fi = some path →
      Serves A heap (.mfRelease fi) (.result 0) (A.setOpened fi none)
  | releaseUnopened {fi} : A.opened fi = none →
      Serves A heap (.mfRelease fi) (.result (-einval)) A
  | getattr {path stbuf node} : A.lookupCode heap path = 0 → A.node path = some node →
      Serves A heap (.mfGetattr path stbuf) (.stat 0 node.attrs.stat) A
  | getattrFails {path stbuf} : A.lookupCode heap path ≠ 0 →
      Serves A heap (.mfGetattr path stbuf) (.stat (A.lookupCode heap path) stbuf) A
  | edit {op path change} : op.edit? = some (path, change) →
      Serves A heap op (.result (A.lookupCode heap path)) (A.edit heap path change)
  | removeRoot : Serves A heap (.mfRemove rootPath) (.result (-einval)) A
  | removeFails {path} : path ≠ rootPath → A.lookupCode heap path ≠ 0 →
      Serves A heap (.mfRemove path) (.result (A.lookupCode heap path)) A
  | unlink {path} : A.lookupCode heap path = 0 → A.IsFile path →
      Serves A heap (.mfRemove path) (.result 0) (A.set path none)
  | rmdir {path} : path ≠ rootPath → A.lookupCode heap path = 0 → ¬ A.IsFile path →
      ¬ A.IsExtended path → Serves A heap (.mfRemove path) (.result 0) (A.set path none)
  | rmdirFails {path} : path ≠ rootPath → A.lookupCode heap path = 0 → ¬ A.IsFile path →
      A.IsExtended path → Serves A heap (.mfRemove path) (.result (-enotempty)) A
  | list {path entries} : A.lookupCode heap path = 0 → A.Lists path entries →
      Serves A heap (.listDirectory path) (.listing 0 (numbered 0 (dotEntries ++ entries))) A
  | listFails {path} : A.lookupCode heap path ≠ 0 →
      Serves A heap (.listDirectory path) (.listing (A.lookupCode heap path) []) A

inductive FileSystem.Step : FileSystem → FuseEvent → FileSystem → Prop
  | mount {A heap} :
      Step A (.mangooInitstore heap (if heap.ok then 0 else enomem)) A
  | unmount {A : FileSystem} :
      Step A .mangooClosestore { A with opened := fun _ => none }
  | served {A A' : FileSystem} {call answer} : A.Serves call.heap call.op answer A' →
      Step A (.served call answer) A'

end Mangoo.Fuse
