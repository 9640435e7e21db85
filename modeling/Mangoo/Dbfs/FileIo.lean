import Mangoo.Dbfs.Transfer

/-!
# Reading and writing files

What `dbfs_read` and `dbfs_write` return and leave in the database when every
block record is 4096 bytes long at a multiple of 4096 and the range does not
wrap around.
-/

namespace Mangoo.Dbfs

open Mangoo.Foundation

variable {faulty : Prop} {db db' : Db} {heap : Heap} {ino : UInt64} {l l' : RwLocals}

/-! ## Writing -/

/-- The record `dbfs_write` stores after writing `size` bytes at `offset`. -/
def grown (ddd : DentryData) (size offset : UInt64) : DentryData :=
  if ddd.dddSize < offset + size then { ddd with dddSize := offset + size } else ddd

theorem toNat_grown_dddSize {ddd : DentryData} {size offset : UInt64}
    (hfits : offset.toNat + size.toNat < 2 ^ 64) :
    (grown ddd size offset).dddSize.toNat =
      max ddd.dddSize.toNat (offset.toNat + size.toNat) := by
  have hsum : (offset + size).toNat = offset.toNat + size.toNat := by
    rw [UInt64.toNat_add]
    omega
  unfold grown
  split
  · rename_i hlt
    rw [UInt64.lt_iff_toNat_lt, hsum] at hlt
    simp only [hsum]
    omega
  · rename_i hge
    rw [UInt64.lt_iff_toNat_lt, hsum] at hge
    omega

theorem exec_dbfsWrite {dh dh' : DbfsHandle} {buf : List UInt8}
    {size offset count : UInt64} {error : Int}
    (h : Prog.Exec faulty (dbfsWrite heap dh buf size offset) db (error, count, dh') db') :
    ∃ code out mid, Prog.Exec faulty
        (dbfsReadwrite heap dh.attrDdd.dddIno buf size offset false) db
        (code, count, out) mid ∧
      (code ≠ 0 ∧ error = code ∧ dh' = dh ∧ db' = mid ∨
        code = 0 ∧ count = size ∧
          dh' = { dh with attrDdd := grown dh.attrDdd size offset } ∧
          (error = 0 ∧ db' = mid.insert (.dentry dh.attrDdk.ddkPath) dh'.attrDdd ∨
            faulty ∧ error = einval ∧ db' = mid)) := by
  simp only [dbfsWrite, Prog.exec_bind] at h
  obtain ⟨⟨code, count', out⟩, mid, hmove, hrest⟩ := h
  by_cases hcode : code = 0
  · subst hcode
    have hcount := exec_dbfsReadwrite_count hmove
    subst hcount
    simp only [ne_eq, not_true_eq_false, if_false, Prog.exec_bind] at hrest
    obtain ⟨error', mid', hattr, hret⟩ := hrest
    simp only [Prog.exec_pure, Prod.mk.injEq] at hret
    obtain ⟨⟨rfl, rfl, rfl⟩, rfl⟩ := hret
    exact ⟨0, out, mid, hmove, .inr ⟨rfl, rfl, rfl, exec_dbfsWriteAttr hattr⟩⟩
  · rw [if_pos hcode] at hrest
    simp only [Prog.exec_pure, Prod.mk.injEq] at hrest
    obtain ⟨⟨rfl, rfl, rfl⟩, rfl⟩ := hrest
    exact ⟨_, out, _, hmove, .inl ⟨hcode, rfl, rfl, rfl⟩⟩

theorem exec_dbfsReadwrite_write {buf out : List UInt8} {size offset count : UInt64}
    {code : Int} (hwf : BlocksWF db) (hfits : offset.toNat + size.toNat < 2 ^ 64)
    (hroom : size.toNat ≤ buf.length)
    (h : Prog.Exec faulty (dbfsReadwrite heap ino buf size offset false) db
      (code, count, out) db') :
    ∃ k, k ≤ size.toNat ∧ count = UInt64.ofNat k ∧
      WroteRange ino db db' offset.toNat (buf.take k) ∧
      (k = size.toNat ∧ code = 0 ∨ faulty ∧ k < size.toNat ∧ code = eio) := by
  simp only [dbfsReadwrite, Prog.exec_bind] at h
  obtain ⟨l', mid, hloop, hret⟩ := h
  simp only [Prog.exec_pure, Prod.mk.injEq] at hret
  obtain ⟨⟨rfl, rfl, rfl⟩, rfl⟩ := hret
  obtain ⟨k, hk, hcount, hwrote, hend⟩ :=
    exec_readwriteLoop_write hwf (rwInv_rwStart hfits hroom) (by rfl) hloop
  refine ⟨k, hk, ?_, hwrote, hend⟩
  rw [hcount]
  exact UInt64.zero_add _

theorem run_dbfsWrite (heap : Heap) (dh : DbfsHandle) (buf : List UInt8)
    (size offset : UInt64) (hwf : BlocksWF db) (hfits : offset.toNat + size.toNat < 2 ^ 64)
    (hroom : size.toNat ≤ buf.length) :
    ∃ mid, WroteRange dh.attrDdd.dddIno db mid offset.toNat (buf.take size.toNat) ∧
      (dbfsWrite heap dh buf size offset).run db =
        some ((0, size, { dh with attrDdd := grown dh.attrDdd size offset }),
          mid.insert (.dentry dh.attrDdk.ddkPath) (grown dh.attrDdd size offset)) := by
  obtain ⟨⟨code, count, out⟩, mid, hrun⟩ := run_dbfsReadwrite_returns heap
    dh.attrDdd.dddIno buf size offset false db
  obtain ⟨k, -, hcount, hwrote, ⟨rfl, rfl⟩ | ⟨hfalse, -⟩⟩ :=
    exec_dbfsReadwrite_write hwf hfits hroom (Prog.exec_iff_run.mpr hrun)
  · rw [UInt64.ofNat_toNat] at hcount
    subst hcount
    exact ⟨mid, hwrote, by simp [dbfsWrite, hrun, run_dbfsWriteAttr, grown]⟩
  · exact hfalse.elim

/-! ## Whole write calls -/

/-- The arguments of a `dbfs_write` call, whose size is that of the buffer, and the
allocator's behaviour during it. -/
structure WriteCall where
  heap : Heap
  buf : List UInt8
  offset : UInt64

namespace WriteCall

def size (call : WriteCall) : UInt64 := UInt64.ofNat call.buf.length

def range (call : WriteCall) : Nat × List UInt8 := (call.offset.toNat, call.buf)

def stop (call : WriteCall) : Nat := call.offset.toNat + call.buf.length

def Fits (call : WriteCall) : Prop := call.stop < 2 ^ 64

instance (call : WriteCall) : Decidable call.Fits :=
  inferInstanceAs (Decidable (_ < _))

theorem toNat_size {call : WriteCall} (h : call.Fits) :
    call.size.toNat = call.buf.length := by
  unfold Fits stop at h
  exact UInt64.toNat_ofNat_of_lt' (by simp only [UInt64.size]; omega)

end WriteCall

theorem content_insert_dentry (db : Db) (path : CStr) (ddd : DentryData) (ino : UInt64) :
    content (db.insert (.dentry path) ddd) ino = content db ino :=
  content_congr fun _ => Finmap.lookup_insert_of_ne _ (by simp)

theorem BlocksWF.insert_dentry {db : Db} (hwf : BlocksWF db) (path : CStr)
    (ddd : DentryData) : BlocksWF (db.insert (.dentry path) ddd) := by
  apply hwf.of_lookup
  intro ino offset record hrecord
  rwa [Finmap.lookup_insert_of_ne _ (by simp)] at hrecord

/-- What a whole write does to the file at `path` with cached record `ddd`. -/
structure WroteFile (path : CStr) (ddd : DentryData) (call : WriteCall) (db db' : Db) :
    Prop where
  wf : BlocksWF db'
  written : ((content db ddd.dddIno).overlay call.offset.toNat call.buf).Le
    (content db' ddd.dddIno)
  stored : db'.lookup (.dentry path) = some (grown ddd call.size call.offset)
  frame : ∀ key, (∀ offset, key = .block ddd.dddIno offset →
    ¬ Meets offset call.offset.toNat call.buf.length) → key ≠ .dentry path →
      db'.lookup key = db.lookup key

theorem run_dbfsWrite_file {db : Db} (dh : DbfsHandle) {call : WriteCall}
    (hwf : BlocksWF db) (hfits : call.Fits) :
    ∃ db', WroteFile dh.attrDdk.ddkPath dh.attrDdd call db db' ∧
      (dbfsWrite call.heap dh call.buf call.size call.offset).run db =
        some ((0, call.size,
          { dh with attrDdd := grown dh.attrDdd call.size call.offset }), db') := by
  have hsize := WriteCall.toNat_size hfits
  obtain ⟨mid, hwrote, hrun⟩ := run_dbfsWrite call.heap dh call.buf call.size
    call.offset hwf (by rw [hsize]; exact hfits) (by rw [hsize])
  rw [hsize, List.take_length] at hwrote
  refine ⟨_, ⟨hwrote.wf.insert_dentry _ _, ?_, Finmap.lookup_insert _, ?_⟩, hrun⟩
  · rw [content_insert_dentry]
    exact hwrote.written
  · intro key hblock hdentry
    rw [Finmap.lookup_insert_of_ne _ hdentry, hwrote.frame key hblock]

theorem toNat_grown_call (ddd : DentryData) {call : WriteCall} (hfits : call.Fits) :
    (grown ddd call.size call.offset).dddSize.toNat = max ddd.dddSize.toNat call.stop := by
  have hsize := WriteCall.toNat_size hfits
  rw [toNat_grown_dddSize (by rw [hsize]; exact hfits), hsize, WriteCall.stop]

theorem grown_eq (ddd : DentryData) (size offset : UInt64) :
    grown ddd size offset = { ddd with dddSize := (grown ddd size offset).dddSize } := by
  unfold grown
  split <;> rfl

/-! ## Reading -/

def readBytes (db : Db) (ino : UInt64) (off n : Nat) : List UInt8 :=
  (List.range n).map fun i => (content db ino (off + i)).getD 0

@[simp] theorem length_readBytes (db : Db) (ino : UInt64) (off n : Nat) :
    (readBytes db ino off n).length = n := by
  simp [readBytes]

theorem getElem?_readBytes {off n i : Nat} (h : i < n) :
    (readBytes db ino off n)[i]? = some ((content db ino (off + i)).getD 0) := by
  simp [readBytes, h]

theorem readBytes_add (db : Db) (ino : UInt64) (off m n : Nat) :
    readBytes db ino off (m + n) = readBytes db ino off m ++ readBytes db ino (off + m) n := by
  simp only [readBytes, List.range_add, List.map_append, List.map_map]
  congr 2
  funext i
  simp only [Function.comp_apply, Nat.add_assoc]

/-- The result code of the fetch of the block that holds a position. -/
def blockCode (db : Db) (ino : UInt64) (pos : Nat) : Int :=
  if Key.block ino (blockBase pos) ∈ db then 0 else dbNotfound

theorem run_getBlock {offset : UInt64} {data : List UInt8} (hwf : BlocksWF db)
    (hdata : data = [] ∨ data.length = 4096) :
    (getBlock ino offset data).run db = some (fetch db (Key.block ino offset), db) := by
  simp only [getBlock, Prog.run_bind, Prog.run_getRec, Option.bind_some]
  cases hfetch : fetch db (Key.block ino offset) with
  | error error => rfl
  | ok record =>
      obtain ⟨hlength, -⟩ := hwf _ _ _ (fetch_eq_ok_iff.mp hfetch)
      simp only [if_neg (not_shortBuffer hdata hlength), Prog.run_pure]

theorem readBlock_eq {bytes : List UInt8} (h : bytes.length = l.sizeinblk.toNat) :
    readBlock l bytes = { l.next with done := l.done ++ bytes } := by
  have hsize : ∀ buf, { l with buf := buf }.sizeinblk = l.sizeinblk := fun _ => rfl
  simp only [readBlock, RwLocals.next, hsize, ← h, List.take_left, List.drop_left]

theorem toNat_blockBase_of_range (pos : Nat) (hinv : RwInv l) (hsize : l.size ≠ 0)
    (hlow : l.offset.toNat ≤ pos) (hhigh : pos < l.offset.toNat + l.sizeinblk.toNat) :
    pos < 2 ^ 64 ∧ blockBase pos = l.dbkOffset ∧
      pos % 4096 = l.offinblk.toNat + (pos - l.offset.toNat) := by
  obtain ⟨-, hle, hblock, haligned, hsum⟩ := hinv.range hsize
  have hfits := hinv.fits
  have hpos : pos < 2 ^ 64 := by omega
  exact ⟨hpos, (blockBase_eq_iff hpos).mpr (by omega), by omega⟩

theorem readBytes_of_lookup_none (hwf : BlocksWF db) (hinv : RwInv l) (hsize : l.size ≠ 0)
    (hlookup : db.lookup (Key.block ino l.dbkOffset) = none) :
    readBytes db ino l.offset.toNat l.sizeinblk.toNat =
      List.replicate l.sizeinblk.toNat 0 := by
  apply List.ext_getElem?
  intro i
  by_cases hi : i < l.sizeinblk.toNat
  · obtain ⟨hlt, hbase, -⟩ := toNat_blockBase_of_range
      (l.offset.toNat + i) hinv hsize (by omega) (by omega)
    have hnone : content db ino (l.offset.toNat + i) = none := by
      rw [← Option.not_isSome_iff_eq_none, content_isSome_iff hwf hlt, hbase]
      exact Finmap.lookup_eq_none.mp hlookup
    rw [getElem?_readBytes hi, hnone]
    simp [hi]
  · simp [readBytes, hi]

theorem readBytes_of_lookup {record : List UInt8} (hinv : RwInv l) (hsize : l.size ≠ 0)
    (hlookup : db.lookup (Key.block ino l.dbkOffset) = some record)
    (hlength : record.length = 4096) :
    readBytes db ino l.offset.toNat l.sizeinblk.toNat =
      (record.drop l.offinblk.toNat).take l.sizeinblk.toNat := by
  obtain ⟨-, -, hblock, -, -⟩ := hinv.range hsize
  apply List.ext_getElem?
  intro i
  by_cases hi : i < l.sizeinblk.toNat
  · obtain ⟨hlt, hbase, hmod⟩ := toNat_blockBase_of_range
      (l.offset.toNat + i) hinv hsize (by omega) (by omega)
    have hbyte : (record.drop l.offinblk.toNat)[i]? =
        content db ino (l.offset.toNat + i) := by
      rw [content_of_lookup hlt (by rw [hbase]; exact hlookup), hmod, List.getElem?_drop]
      congr 1
      omega
    have hin : i < (record.drop l.offinblk.toNat).length := by
      rw [List.length_drop]
      omega
    rw [getElem?_readBytes hi, List.getElem?_take_of_lt hi, ← hbyte,
      List.getElem?_eq_getElem hin]
    rfl
  · simp [readBytes, hi]

theorem run_readwriteBlock_read (heap : Heap) (ino : UInt64) (hwf : BlocksWF db) (hinv : RwInv l)
    (hsize : l.size ≠ 0) :
    ∃ data, (data = [] ∨ data.length = 4096) ∧
      (readwriteBlock heap ino true l).run db = some ((true, { l.next with
        done := l.done ++ readBytes db ino l.offset.toNat l.sizeinblk.toNat
        data := data
        error := blockCode db ino (l.offset.toNat + l.sizeinblk.toNat - 1) }), db) := by
  obtain ⟨hpos, -, hblock, -, -⟩ := hinv.range hsize
  obtain ⟨-, hlast, -⟩ := toNat_blockBase_of_range
    (l.offset.toNat + l.sizeinblk.toNat - 1) hinv hsize (by omega) (by omega)
  simp only [readwriteBlock, Prog.run_bind, run_getBlock hwf hinv.data, Option.bind_some,
    blockCode, hlast]
  cases hlookup : db.lookup (Key.block ino l.dbkOffset) with
  | none =>
      have hcode : ¬ Key.block ino l.dbkOffset ∈ db := Finmap.lookup_eq_none.mp hlookup
      refine ⟨l.data, hinv.data, ?_⟩
      simp only [fetch_of_lookup_none hlookup, ne_eq, not_true_eq_false, if_false, if_true,
        Prog.run_pure, readBytes_of_lookup_none hwf hinv hsize hlookup, if_neg hcode]
      rw [readBlock_eq (by simp [RwLocals.sizeinblk, RwLocals.offinblk])]
      rfl
  | some record =>
      obtain ⟨hlength, -⟩ := hwf _ _ _ hlookup
      have hcode : Key.block ino l.dbkOffset ∈ db := Finmap.mem_iff.mpr ⟨_, hlookup⟩
      refine ⟨record, .inr hlength, ?_⟩
      simp only [fetch_of_lookup hlookup, if_true, Prog.run_pure,
        readBytes_of_lookup hinv hsize hlookup hlength, if_pos hcode]
      rw [readBlock_eq]
      · rfl
      · change ((record.drop l.offinblk.toNat).take l.sizeinblk.toNat).length =
          l.sizeinblk.toNat
        simp
        omega

theorem run_readwriteLoop_read {fuel : Nat} (heap : Heap) (ino : UInt64) (hwf : BlocksWF db)
    (hinv : RwInv l) (hfuel : l.size.toNat ≤ fuel) :
    ∃ l', (readwriteLoop heap ino true fuel l).run db = some (l', db) ∧
      l'.done = l.done ++ readBytes db ino l.offset.toNat l.size.toNat ∧
      l'.buf = l.buf.drop l.size.toNat ∧ l'.count = l.count + l.size ∧
      l'.error = if l.size = 0 then l.error
        else blockCode db ino (l.offset.toNat + l.size.toNat - 1) := by
  induction fuel generalizing l with
  | zero =>
      have hzero : l.size = 0 := by
        apply UInt64.toNat_inj.mp
        simp only [UInt64.toNat_zero]
        omega
      refine ⟨l, by simp [readwriteLoop, hzero], ?_⟩
      simp [hzero, readBytes]
  | succ fuel ih =>
      by_cases hsize : l.size = 0
      · refine ⟨l, by simp [readwriteLoop, hsize], ?_⟩
        simp [hsize, readBytes]
      · obtain ⟨hpos, hle, -⟩ := hinv.range hsize
        have hoffset := hinv.toNat_next_offset hsize
        have hleft := hinv.toNat_next_size hsize
        obtain ⟨data, hdata, hblock⟩ := run_readwriteBlock_read heap ino hwf hinv hsize
        obtain ⟨l', hrun, hdone, hbuf, hcount, herror⟩ :=
          ih ((hinv.next hsize).withData
            (l.done ++ readBytes db ino l.offset.toNat l.sizeinblk.toNat) hdata
            (blockCode db ino (l.offset.toNat + l.sizeinblk.toNat - 1)))
            (by change l.next.size.toNat ≤ fuel; omega)
        change l'.done = _ ++ readBytes db ino l.next.offset.toNat l.next.size.toNat at hdone
        change l'.buf = l.next.buf.drop l.next.size.toNat at hbuf
        change l'.count = l.next.count + l.next.size at hcount
        change l'.error = if l.next.size = 0 then _
          else blockCode db ino (l.next.offset.toNat + l.next.size.toNat - 1) at herror
        have hsum : l.sizeinblk.toNat + (l.size.toNat - l.sizeinblk.toNat) = l.size.toNat := by
          omega
        refine ⟨l', by simp [readwriteLoop, hsize, hblock, hrun], ?_, ?_, ?_, ?_⟩
        · rw [hdone, hoffset, hleft, List.append_assoc, ← readBytes_add, hsum]
        · rw [hbuf, hleft, RwLocals.next, List.drop_drop, hsum]
        · rw [hcount, RwLocals.next, UInt64.add_assoc, UInt64.add_comm l.sizeinblk,
            UInt64.sub_add_cancel]
        · rw [herror, if_neg hsize, hoffset, hleft]
          split
          · rename_i hlast
            have hzero : l.next.size.toNat = 0 := by rw [hlast, UInt64.toNat_zero]
            have hall : l.sizeinblk.toNat = l.size.toNat := by omega
            rw [← hall]
          · congr 1
            omega

theorem dbfsRead_of_unclipped (heap : Heap) {dh : DbfsHandle} (buf : List UInt8)
    {n offset : UInt64} (hoffset : offset.toNat ≤ dh.attrDdd.dddSize.toNat)
    (hend : (offset + n).toNat ≤ dh.attrDdd.dddSize.toNat) :
    dbfsRead heap dh buf n offset =
      dbfsReadwrite heap dh.attrDdd.dddIno buf n offset true := by
  have hbefore : ¬ offset > dh.attrDdd.dddSize := by
    rw [gt_iff_lt, UInt64.lt_iff_toNat_lt]
    omega
  have hclip : ¬ offset + n > dh.attrDdd.dddSize := by
    rw [gt_iff_lt, UInt64.lt_iff_toNat_lt]
    omega
  rw [dbfsRead, if_neg hbefore]
  simp only [if_neg hclip]

theorem run_dbfsRead {dh : DbfsHandle} {buf : List UInt8} {n offset : UInt64}
    (heap : Heap) (hwf : BlocksWF db)
    (hinside : offset.toNat + n.toNat ≤ dh.attrDdd.dddSize.toNat)
    (hroom : n.toNat ≤ buf.length) :
    (dbfsRead heap dh buf n offset).run db =
      some ((if n = 0 then 0
          else blockCode db dh.attrDdd.dddIno (offset.toNat + n.toNat - 1), n,
        readBytes db dh.attrDdd.dddIno offset.toNat n.toNat ++ buf.drop n.toNat), db) := by
  have hlt := dh.attrDdd.dddSize.toNat_lt
  have hend : (offset + n).toNat ≤ dh.attrDdd.dddSize.toNat := by
    rw [UInt64.toNat_add]
    omega
  obtain ⟨l', hrun, hdone, hbuf, hcount, herror⟩ :=
    run_readwriteLoop_read heap dh.attrDdd.dddIno hwf
      (rwInv_rwStart (show offset.toNat + n.toNat < 2 ^ 64 by omega) hroom) le_rfl
  change l'.done = readBytes db dh.attrDdd.dddIno offset.toNat n.toNat at hdone
  change l'.buf = buf.drop n.toNat at hbuf
  change l'.count = 0 + n at hcount
  change l'.error = if n = 0 then 0
    else blockCode db dh.attrDdd.dddIno (offset.toNat + n.toNat - 1) at herror
  rw [dbfsRead_of_unclipped heap buf (by omega) hend]
  simp only [dbfsReadwrite, Prog.run_bind]
  change ((readwriteLoop heap dh.attrDdd.dddIno true (rwStart buf n offset).size.toNat
    (rwStart buf n offset)).run db).bind _ = _
  rw [hrun]
  simp only [Option.bind_some, Prog.run_pure, hdone, hbuf, hcount, herror, UInt64.zero_add]

end Mangoo.Dbfs
