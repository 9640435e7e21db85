import Mangoo.Foundation.ByteMap
import Mangoo.Dbfs.Handle

/-!
# Streams

The functions of `stream.c`.  `dbfs_readwrite` moves bytes between the caller's
buffer and 4096-byte block records, one block an iteration; reads and writes
share the loop and the data buffer it keeps between iterations.  All sums are
those of the C code, modulo `2 ^ 64`.
-/

namespace Mangoo.Dbfs

open Mangoo.Foundation

/-- The locals of `dbfs_readwrite`.  The caller's buffer is `done ++ buf`, split
where the pointer `buf` stands; `data` holds the `data.size` bytes of the data
buffer and is empty while there is none. -/
structure RwLocals where
  done : List UInt8
  buf : List UInt8
  offset : UInt64
  size : UInt64
  dbkOffset : UInt64
  count : UInt64
  data : List UInt8
  error : Int

namespace RwLocals

def offinblk (l : RwLocals) : UInt64 := l.offset - l.dbkOffset

def sizeinblk (l : RwLocals) : UInt64 :=
  if l.offinblk + l.size > dbfsBlksize then dbfsBlksize - l.offinblk else l.size

def next (l : RwLocals) : RwLocals :=
  { l with
    done := l.done ++ l.buf.take l.sizeinblk.toNat
    buf := l.buf.drop l.sizeinblk.toNat
    offset := l.offset + l.sizeinblk
    size := l.size - l.sizeinblk
    dbkOffset := l.offset + l.sizeinblk
    count := l.count + l.sizeinblk }

end RwLocals

/-- `dbp->get` of a block: a data buffer of `data.size` bytes is reused, without
one Berkeley DB allocates it. -/
def getBlock (ino offset : UInt64) (data : List UInt8) :
    DbProg (Except Int (List UInt8)) := do
  let found : Except Int (List UInt8) ← Prog.getRec (Key.block ino offset)
  match found with
  | .ok record =>
      if data ≠ [] ∧ data.length < record.length then return .error dbBufferSmall
      else return .ok record
  | .error error => return .error error

def readBlock (l : RwLocals) (bytes : List UInt8) : RwLocals :=
  { l with buf := bytes ++ l.buf.drop l.sizeinblk.toNat }.next

/-- The rest of an iteration that writes, on the block contents in `l.data`; the
Boolean tells whether the loop goes on. -/
def writeBlock (ino : UInt64) (l : RwLocals) : DbProg (Bool × RwLocals) := do
  let data := overwrite l.data l.offinblk.toNat (l.buf.take l.sizeinblk.toNat)
  let error ← Prog.putRec (.block ino l.dbkOffset) data false
  if error ≠ 0 then return (false, { l with data := data, error := eio })
  return (true, { l with data := data, error := 0 }.next)

/-- The `malloc` of a new block is not checked; it is taken to succeed, also where the
checked allocations fail. -/
def readwriteBlock (heap : Heap) (ino : UInt64) (read : Bool) (l : RwLocals) :
    DbProg (Bool × RwLocals) := do
  match ← getBlock ino l.dbkOffset l.data with
  | .error error =>
      if error ≠ dbNotfound then return (false, { l with error := eio })
      else if read then
        return (true, readBlock { l with error := error }
          (List.replicate l.sizeinblk.toNat 0))
      else writeBlock ino { l with data := heap.freshBlock l.count.toNat }
  | .ok data =>
      if read then
        return (true, readBlock { l with data := data, error := 0 }
          ((data.drop l.offinblk.toNat).take l.sizeinblk.toNat))
      else writeBlock ino { l with data := data }

def readwriteLoop (heap : Heap) (ino : UInt64) (read : Bool) :
    Nat → RwLocals → DbProg RwLocals
  | 0, l => if l.size = 0 then pure l else .spin
  | fuel + 1, l =>
      if l.size = 0 then pure l
      else do
        let (goesOn, l) ← readwriteBlock heap ino read l
        if goesOn then readwriteLoop heap ino read fuel l else pure l

def rwStart (buf : List UInt8) (size offset : UInt64) : RwLocals where
  done := []
  buf := buf
  offset := offset
  size := size
  dbkOffset := offset - (offset &&& (dbfsBlksize - 1))
  count := 0
  data := []
  error := 0

/-- The result code, `*sp` and the caller's buffer afterwards.  Every iteration
transfers a byte, so `size` iterations end the loop. -/
def dbfsReadwrite (heap : Heap) (ino : UInt64) (buf : List UInt8)
    (size offset : UInt64) (read : Bool) : DbProg (Int × UInt64 × List UInt8) := do
  let l ← readwriteLoop heap ino read size.toNat (rwStart buf size offset)
  return (l.error, l.count, l.done ++ l.buf)

/-! ## Truncation -/

structure TruncLocals where
  offset : UInt64
  size : UInt64
  dbkOffset : UInt64
  error : Int

/-- The loop `while (size <= 0)` of `dbfs_truncateblocks` on an unsigned `size`. -/
def truncateLoop (ino : UInt64) : Nat → TruncLocals → DbProg Int
  | 0, l => if l.size ≤ 0 then .spin else pure l.error
  | fuel + 1, l =>
      if l.size ≤ 0 then do
        let offinblk := l.offset - l.dbkOffset
        let sizeinblk :=
          if offinblk + l.size > dbfsBlksize then dbfsBlksize - offinblk else l.size
        let error ← Prog.delRec (.block ino l.dbkOffset)
        if error ≠ 0 ∧ error ≠ dbNotfound then return eio
        truncateLoop ino fuel {
          offset := l.offset + sizeinblk
          size := l.size - sizeinblk
          dbkOffset := l.offset + sizeinblk
          error := error }
      else pure l.error

/-- `fuel` bounds the iterations, since the loop need not end. -/
def dbfsTruncateblocks (fuel : Nat) (ino offset stop : UInt64) : DbProg Int :=
  truncateLoop ino fuel {
    offset := offset
    size := stop - offset
    dbkOffset := offset - (offset &&& (dbfsBlksize - 1))
    error := 0 }

/-! ## Stream operations -/

def dbfsSopen (heap : Heap) (locator : CStr) : DbProg (Int × Option DbfsHandle) := do
  match dbfsCreatehandle heap locator with
  | none => return (enomem, none)
  | some dh =>
      let dh := { dh with mhInterface := .stream }
      let (error, attrDdd) ← dbfsReadAttr dh.attrDdk.ddkPath dh.attrDdd
      if error ≠ 0 then return (error, none)
      return (0, some { dh with attrDdd := attrDdd })

def dbfsRead (heap : Heap) (dh : DbfsHandle) (buf : List UInt8)
    (size offset : UInt64) : DbProg (Int × UInt64 × List UInt8) :=
  if offset > dh.attrDdd.dddSize then return (0, size, buf)
  else
    let size :=
      if offset + size > dh.attrDdd.dddSize then dh.attrDdd.dddSize - offset else size
    dbfsReadwrite heap dh.attrDdd.dddIno buf size offset true

def dbfsWrite (heap : Heap) (dh : DbfsHandle) (buf : List UInt8)
    (size offset : UInt64) : DbProg (Int × UInt64 × DbfsHandle) := do
  let (error, size, _) ← dbfsReadwrite heap dh.attrDdd.dddIno buf size offset false
  if error ≠ 0 then return (error, size, dh)
  let attrDdd :=
    if dh.attrDdd.dddSize < offset + size then
      { dh.attrDdd with dddSize := offset + size }
    else dh.attrDdd
  let error ← dbfsWriteAttr dh.attrDdk.ddkPath attrDdd
  return (error, size, { dh with attrDdd := attrDdd })

def dbfsDels (fuel : Nat) (dh : DbfsHandle) : DbProg Int :=
  dbfsTruncateblocks fuel dh.attrDdd.dddIno 0 dh.attrDdd.dddSize

end Mangoo.Dbfs
