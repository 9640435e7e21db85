import Mangoo.Dbfs.SharedWrites
import Mangoo.Fuse.FileSystem

/-!
# What each call does

The result and the store after each operation of the server, in terms of the record under
the path.
-/

namespace Mangoo.Fuse

open Mangoo.Foundation Mangoo.Dbfs

variable {heap : Heap} {path : CStr} {db : Db}

/-! ## Codes -/

/-- The result of a call that needs the path to be on record. -/
def openCode (heap : Heap) (path : CStr) (db : Db) : Int :=
  if heap.ok then
    match db.lookup (.dentry path) with
    | none => -enoent
    | some _ => 0
  else -enomem

/-- The result of a call that needs the path to be free. -/
def newCode (heap : Heap) (path : CStr) (db : Db) : Int :=
  if heap.ok then
    match db.lookup (.dentry path) with
    | none => 0
    | some _ => -einval
  else -enomem

theorem openCode_eq_zero_iff :
    openCode heap path db = 0 ↔ heap.ok = true ∧ ∃ ddd, db.lookup (.dentry path) = some ddd := by
  unfold openCode
  cases hok : heap.ok with
  | false => simp [enomem]
  | true => cases db.lookup (.dentry path) <;> simp [enoent]

theorem newCode_eq_zero_iff :
    newCode heap path db = 0 ↔ heap.ok = true ∧ db.lookup (.dentry path) = none := by
  unfold newCode
  cases hok : heap.ok with
  | false => simp [enomem]
  | true => cases db.lookup (.dentry path) <;> simp [einval]

/-! ## Creations -/

/-- The session after a creation, which takes a number also for a path that is on record. -/
def nextStore (heap : Heap) (dsp : DbfsStore) : DbfsStore :=
  if heap.ok then ⟨dsp.lastInode + 1⟩ else dsp

theorem run_dbfsCreate_code (heap : Heap) (proc : Proc) (dsp : DbfsStore) (path : CStr)
    (mode : UInt32) (mt : MangooTypes) (db : Db) :
    (dbfsCreate heap proc dsp path mode mt).run db =
      some ((-newCode heap path db, nextStore heap dsp),
        createEntry heap path ((Attrs.create mt mode proc).record dsp.lastInode) db) := by
  unfold dbfsCreate createEntry newCode nextStore
  cases hok : heap.ok with
  | false => simp [enomem]
  | true =>
      simp only [Bool.true_eq_false, if_false, if_true, Prog.run_bind, dbfsCreateAttr,
        Prog.run_putRec]
      cases hlookup : db.lookup (.dentry path) with
      | none =>
          rw [store_noOverwrite_of_none _ hlookup]
          simp [Attrs.record_create]
      | some ddd =>
          rw [store_noOverwrite_of_some _ hlookup]
          simp [dbKeyexist, einval]

theorem createEntry_of_code (ddd : DentryData) (hcode : newCode heap path db = 0) :
    createEntry heap path ddd db = db.insert (.dentry path) ddd := by
  obtain ⟨hok, hlookup⟩ := newCode_eq_zero_iff.mp hcode
  rw [createEntry, if_pos hok, hlookup]

theorem createEntry_of_code_ne (ddd : DentryData) (hcode : newCode heap path db ≠ 0) :
    createEntry heap path ddd db = db := by
  rw [ne_eq, newCode_eq_zero_iff, not_and] at hcode
  unfold createEntry
  split
  · rename_i hok
    cases hlookup : db.lookup (.dentry path) with
    | none => exact absurd hlookup (hcode hok)
    | some ddd => rfl
  · rfl

theorem run_mfMkdir (heap : Heap) (proc : Proc) (dsp : DbfsStore) (path : CStr)
    (mode : UInt32) (db : Db) :
    (mfMkdir heap proc dsp path mode).run db =
      some ((newCode heap path db, nextStore heap dsp),
        createEntry heap path ((Attrs.create .container mode proc).record dsp.lastInode) db) := by
  rw [mfMkdir, Prog.run_bind, run_dbfsCreate_code]
  by_cases hcode : newCode heap path db = 0 <;> simp [hcode]

/-! ## Opening and releasing -/

/-- What `mf_open` and `mf_create` leave in `fi->fh`. -/
def openedHandle (heap : Heap) (path : CStr) (db : Db) : Option DbfsHandle :=
  if heap.ok then
    (db.lookup (.dentry path)).map fun (ddd : DentryData) => initHandle path ddd
  else none

theorem run_mfOpen (heap : Heap) (path : CStr) (db : Db) :
    (mfOpen heap path).run db =
      some ((openCode heap path db, openedHandle heap path db), db) := by
  unfold mfOpen openCode openedHandle dbfsOpen
  cases hok : heap.ok with
  | false => simp [dbfsSopen, dbfsCreatehandle, hok]
  | true =>
      cases hlookup : db.lookup (.dentry path) with
      | none =>
          simp [dbfsSopen, dbfsCreatehandle, hok, initHandle, run_dbfsReadAttr_of_none _ hlookup,
            enoent]
      | some ddd => simp [run_dbfsSopen hok hlookup]

theorem run_mfCreate_of_code (openHeap : Heap) (proc : Proc) (dsp : DbfsStore) (mode : UInt32)
    (hcode : newCode heap path db = 0) :
    (mfCreate heap openHeap proc dsp path mode).run db =
      some ((if openHeap.ok then 0 else -enomem,
          if openHeap.ok then
            some (initHandle path ((Attrs.create .data mode proc).record dsp.lastInode))
          else none, nextStore heap dsp),
        db.insert (.dentry path) ((Attrs.create .data mode proc).record dsp.lastInode)) := by
  rw [mfCreate, Prog.run_bind, run_dbfsCreate_code, hcode, createEntry_of_code _ hcode]
  cases hopen : openHeap.ok with
  | false => simp [dbfsOpen, dbfsSopen, dbfsCreatehandle, hopen]
  | true =>
      have hrecord := Finmap.lookup_insert db (a := Key.dentry path)
        (b := (Attrs.create .data mode proc).record dsp.lastInode)
      simp [dbfsOpen, run_dbfsSopen hopen hrecord]

theorem run_mfCreate_of_code_ne (openHeap : Heap) (proc : Proc) (dsp : DbfsStore)
    (mode : UInt32) (hcode : newCode heap path db ≠ 0) :
    (mfCreate heap openHeap proc dsp path mode).run db =
      some ((newCode heap path db, none, nextStore heap dsp), db) := by
  rw [mfCreate, Prog.run_bind, run_dbfsCreate_code, createEntry_of_code_ne _ hcode]
  simp [hcode]

/-! ## Attributes -/

theorem run_open_then_code {fuel : Nat} {prog : DbProg Int}
    {k : Except Int DbfsHandle → DbProg Int} {update : DentryData → DentryData}
    (hprog : prog = (dbfsCalls heap fuel).mangooOpen path .attr >>= k)
    (herror : ∀ error, k (.error error) = pure (-error))
    (hhandle : ∀ handle : DbfsHandle, (k (.ok handle)).run db =
      some (0, db.insert (.dentry handle.attrDdk.ddkPath) (update handle.attrDdd))) :
    prog.run db = some (openCode heap path db, updateEntry heap path update db) := by
  obtain ⟨result, hopened, hrun⟩ := run_mangooOpen heap fuel db path
  rw [hprog, Prog.run_bind, hrun, Option.bind_some]
  cases hopened with
  | enomem hok => simp [herror, openCode, updateEntry, hok]
  | enoent hok hlookup => simp [herror, openCode, updateEntry, hok, hlookup]
  | @handle ddd hok hlookup =>
      rw [hhandle]
      simp [openCode, updateEntry, hok, hlookup, attrHandle, initHandle]

theorem run_serve_edit {op : FuseOp} {change : FileNode → FileNode}
    (hop : op.edit? = some (path, change)) (heap : Heap) (fuel : Nat) :
    ∃ update, (∀ dsp files db, (FuseCall.serve ⟨heap, fuel, op⟩ dsp files).run db =
        some ((.result (openCode heap path db), dsp, files), updateEntry heap path update db)) ∧
      ∀ (node : FileNode) ino, (change node).attrs.record ino = update (node.attrs.record ino) := by
  have hserve : ∀ {prog : DbProg Int} {update : DentryData → DentryData},
      (∀ db, prog.run db = some (openCode heap path db, updateEntry heap path update db)) →
      ∀ (dsp : DbfsStore) (files : OpenFiles) (db : Db),
        (prog >>= fun code => pure (Answer.result code, dsp, files)).run db =
          some ((.result (openCode heap path db), dsp, files),
            updateEntry heap path update db) := by
    intro prog update hrun dsp files db
    rw [Prog.run_bind, hrun, Option.bind_some, Prog.run_pure]
  cases op with
  | mfChmod path' mode =>
      cases hop
      refine ⟨fun ddd => { ddd with dddMode := mode }, hserve fun db => ?_, fun _ _ => rfl⟩
      refine run_open_then_code rfl (fun _ => rfl) fun handle => ?_
      simp [dbfsCalls, dbfsChmod, run_setAttr]
  | mfChown path' newuid newgid =>
      cases hop
      refine ⟨fun ddd => { ddd with dddUid := newuid, dddGid := newgid },
        hserve fun db => ?_, fun _ _ => rfl⟩
      refine run_open_then_code rfl (fun _ => rfl) fun handle => ?_
      simp [dbfsCalls, dbfsChown, run_setAttr]
  | mfUtime path' utb =>
      cases hop
      refine ⟨fun ddd =>
        { ddd with dddMtime := utb.modtime.toUInt64, dddAtime := utb.actime.toUInt64 },
        hserve fun db => ?_, fun _ _ => rfl⟩
      refine run_open_then_code rfl (fun _ => rfl) fun handle => ?_
      simp [dbfsCalls, dbfsSetmtime, dbfsSetatime, run_setAttr, dbfsClose, Finmap.insert_insert]
  | mfTruncate path' offset =>
      cases hop
      refine ⟨fun ddd => { ddd with dddSize := offset.toUInt64 },
        hserve fun db => ?_, fun _ _ => rfl⟩
      refine run_open_then_code rfl (fun _ => rfl) fun handle => ?_
      simp [dbfsCalls, run_dbfsSetsize, dbfsClose]
  | _ => cases hop

theorem FuseOp.edit?_keeps {op : FuseOp} {change : FileNode → FileNode}
    (hop : op.edit? = some (path, change)) (node : FileNode) :
    (change node).attrs.type = node.attrs.type ∧ (change node).bytes.Le node.bytes := by
  cases op with
  | mfTruncate path' offset =>
      cases hop
      exact ⟨rfl, ByteMap.cut_le _ _⟩
  | mfChmod | mfChown | mfUtime =>
      cases hop
      exact ⟨rfl, ByteMap.Le.refl _⟩
  | _ => cases hop

theorem run_mfGetattr_code (heap : Heap) (fuel : Nat) (stbuf : Stat)
    (htypes : ∀ ddd, db.lookup (.dentry path) = some ddd →
      ∃ mt, MangooTypes.ofUInt32? ddd.dddType = some mt) :
    (openCode heap path db ≠ 0 ∧ (mfGetattr (dbfsCalls heap fuel) path stbuf).run db =
        some ((openCode heap path db, stbuf), db)) ∨
      ∃ ddd mt, openCode heap path db = 0 ∧ db.lookup (.dentry path) = some ddd ∧
        MangooTypes.ofUInt32? ddd.dddType = some mt ∧
        (mfGetattr (dbfsCalls heap fuel) path stbuf).run db = some ((0, statOf mt ddd), db) := by
  obtain ⟨result, hopened, hrun⟩ := run_mangooOpen heap fuel db path
  cases hopened with
  | enomem hok =>
      have hcode : openCode heap path db = -enomem := by simp [openCode, hok]
      rw [hcode]
      exact .inl ⟨by decide, run_mfGetattr_error heap fuel stbuf hrun⟩
  | enoent hok hlookup =>
      have hcode : openCode heap path db = -enoent := by simp [openCode, hok, hlookup]
      rw [hcode]
      exact .inl ⟨by decide, run_mfGetattr_error heap fuel stbuf hrun⟩
  | @handle ddd hok hlookup =>
      obtain ⟨mt, htype⟩ := htypes ddd hlookup
      exact .inr ⟨ddd, mt, openCode_eq_zero_iff.mpr ⟨hok, ddd, hlookup⟩, hlookup, htype,
        run_mfGetattr_handle heap fuel stbuf hrun htype⟩

/-! ## Removals -/

theorem run_mfRemove_root (heap : Heap) (fuel : Nat) (db : Db) :
    (mfRemove heap fuel rootPath).run db = some (-einval, db) := by
  simp [mfRemove, dbfsDelete]

theorem run_mfRemove_fails (fuel : Nat) (hroot : path ≠ rootPath)
    (hcode : openCode heap path db ≠ 0) :
    (mfRemove heap fuel path).run db = some (openCode heap path db, db) := by
  unfold openCode at hcode ⊢
  cases hok : heap.ok with
  | false => simp [mfRemove, run_dbfsDelete_of_no_memory fuel db hok hroot]
  | true =>
      cases hlookup : db.lookup (.dentry path) with
      | none =>
          simp [mfRemove, dbfsDelete, hroot, dbfsCreatehandle, hok, initHandle,
            run_dbfsReadAttr_of_none _ hlookup, enoent]
      | some ddd => simp [hok, hlookup] at hcode

/-! ## Listings -/

theorem run_listDirectory_fails (fuel : Nat) (hcode : openCode heap path db ≠ 0) :
    (listDirectory heap fuel path).run db = some ((openCode heap path db, []), db) := by
  unfold openCode at hcode ⊢
  cases hok : heap.ok with
  | false => simp [listDirectory, mfOpendir, hok]
  | true =>
      cases hlookup : db.lookup (.dentry path) with
      | none =>
          have hopen : (dbfsDopen heap path).run db = some ((enoent, none), db) := by
            simp [dbfsDopen, dbfsCreatehandle, hok, dbfsCursorset, initHandle,
              fetch_of_lookup_none hlookup, enoent]
          simp [listDirectory, mfOpendir, hok, dbfsOpen, hopen]
      | some ddd => simp [hok, hlookup] at hcode

variable {fuel : Nat} {dir : MfDir} {entries : List (CStr × UInt32)} {key : Key}

theorem run_mfReaddir_neverFull (hinPlace : heap.InPlace) (hpaths : AbsolutePaths db)
    (habsolute : Absolute path) (hfuel : db.keys.card < fuel) (hcur : dir.curOff = 0)
    (hfreed : dir.handle.ddkFreed = false) (hahead : Ahead db path dir key entries) :
    ∃ dir', (mfReaddir heap neverFull fuel dir [] 0).run db =
        some ((0, dir', numbered 0 (dotEntries ++ entries)), db) ∧
      dir'.handle.ddkFreed = false := by
  have hstart : mfReaddirStart heap neverFull dir [] 0 =
      ({ dir with startingOff := 0, curOff := 2 }, numbered 0 dotEntries, 2) := by
    simp [mfReaddirStart, mfFiller, neverFull, hcur, numbered, dotEntries]
  obtain ⟨dir₂, hfill⟩ := fillEach_neverFull heap entries
    { dir with startingOff := 2, curOff := 2 } (numbered 0 dotEntries) (le_refl _)
  obtain ⟨hstands, hlow, rfl⟩ := hahead
  obtain ⟨dh, key', hrun, -, -, -, hafter⟩ :=
    run_dbfsReaddir heap _ hpaths habsolute hstands hfreed hlow hfuel hfill
  refine ⟨{ dir₂ with handle := dh }, ?_, hafter.inPlace hinPlace rfl⟩
  simp only [mfReaddir, hstart, Prog.run_bind]
  rw [hrun]
  rfl

theorem run_listDirectory (hok : heap.ok = true) (hinPlace : heap.InPlace)
    (hpaths : WellFormedPaths db) (hdir : Key.dentry path ∈ db) (hfuel : db.keys.card < fuel)
    (hnone : ∀ other, Key.dentry other ∈ db → ¬ ExtendsName path other) :
    (listDirectory heap fuel path).run db =
      some ((0, numbered 0 (dotEntries ++ childrenOf db path)), db) := by
  obtain ⟨dir, hopen, -, hcur, hfreed, hahead⟩ := run_mfOpendir hok hdir
  rw [entriesAbove_eq_childrenOf hpaths (hpaths path hdir) hnone] at hahead
  obtain ⟨dir', hread, hfreed'⟩ := run_mfReaddir_neverFull hinPlace
    (WellFormedPaths.absolutePaths hpaths) (hpaths path hdir).absolute hfuel hcur hfreed hahead
  simp [listDirectory, hopen, hread, mfReleasedir, dbfsClosedir, hfreed']

/-! ## Reading and writing -/

theorem run_mfRead (henv : heap.envOpens = true) (buf : List UInt8) {dh : DbfsHandle}
    {offset : UInt64} (hwf : BlocksWF db) (hoffset : offset.toNat ≤ dh.attrDdd.dddSize.toNat)
    (hfits : offset.toNat + buf.length < 2 ^ 64) :
    ∃ k code, k = clipped dh.attrDdd.dddSize offset (UInt64.ofNat buf.length) ∧
      code = readCode db dh.attrDdd.dddIno offset k ∧
      (mfRead heap (some dh) buf (UInt64.ofNat buf.length) offset).run db =
        some ((if code = 0 then intOfSize (UInt64.ofNat k) else -code,
          readBytes db dh.attrDdd.dddIno offset.toNat k ++ buf.drop k), db) := by
  have hlength : (UInt64.ofNat buf.length).toNat = buf.length :=
    UInt64.toNat_ofNat_of_lt' (by simp only [UInt64.size]; omega)
  have hroom : clipped dh.attrDdd.dddSize offset (UInt64.ofNat buf.length) ≤ buf.length := by
    rw [clipped, hlength]
    exact Nat.min_le_left _ _
  have hrun := run_dbfsRead_clipped heap hwf hoffset (by rw [hlength]; exact hfits) hroom
  refine ⟨_, _, rfl, rfl, ?_⟩
  rw [mfRead, envOpen_of_opens henv, pure_bind, Prog.run_bind, hrun, Option.bind_some]
  split_ifs with hcode
  · simp [hcode]
  · simp [hcode]

theorem run_mfWrite (dh : DbfsHandle) (call : WriteCall) (henv : call.heap.envOpens = true)
    (hwf : BlocksWF db) (hfits : call.Fits) :
    ∃ db', WroteFile dh.attrDdk.ddkPath dh.attrDdd call db db' ∧
      (mfWrite call.heap (some dh) call.buf call.size call.offset).run db =
        some ((intOfSize call.size,
          some { dh with attrDdd := grown dh.attrDdd call.size call.offset }), db') := by
  obtain ⟨db', hwrote, hrun⟩ := run_dbfsWrite_file dh hwf hfits
  exact ⟨db', hwrote, by simp [mfWrite, envOpen_of_opens henv, hrun]⟩

section Serve

variable {files : OpenFiles} {fi : Nat} {dh : DbfsHandle} {buf out : List UInt8}
  {offset : UInt64} {code : Int} {db' : Db} {fh : Option DbfsHandle}

theorem run_serve_mfRead (fuel : Nat) (dsp : DbfsStore) (hfi : files fi = some dh)
    (hrun : (mfRead heap (some dh) buf (UInt64.ofNat buf.length) offset).run db =
      some ((code, out), db')) :
    (FuseCall.serve ⟨heap, fuel, .mfRead fi buf offset⟩ dsp files).run db =
      some ((.data code out, dsp, files), db') := by
  simp [FuseCall.serve, hfi, hrun]

theorem run_serve_mfWrite (fuel : Nat) (dsp : DbfsStore) (hfi : files fi = some dh)
    (hrun : (mfWrite heap (some dh) buf (UInt64.ofNat buf.length) offset).run db =
      some ((code, fh), db')) :
    (FuseCall.serve ⟨heap, fuel, .mfWrite fi buf offset⟩ dsp files).run db =
      some ((.result code, dsp, Function.update files fi fh), db') := by
  simp [FuseCall.serve, hfi, hrun]

end Serve

/-! ## Sessions -/

theorem run_dbfsInitstore_stored {dfd : FsinfoData} (heap : Heap)
    (hlookup : db.lookup .fsinfo = some dfd) :
    (dbfsInitstore heap).run db = some (
      if heap.ok then ((0, some ⟨dfd.dfdLastino⟩),
        db.insert .fsinfo (⟨dfd.dfdLastino + 1000⟩ : FsinfoData))
      else ((enomem, none), db)) := by
  cases hok : heap.ok with
  | false => simp [dbfsInitstore, hok]
  | true =>
      simp [dbfsInitstore, hok, dbfsFetchFsinfo, fetch_of_lookup hlookup, dbfsUpdateFsinfo,
        dbfsCrupdFsinfo]

end Mangoo.Fuse
