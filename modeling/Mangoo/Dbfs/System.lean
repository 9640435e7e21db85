import Mangoo.Foundation.Runs
import Mangoo.Dbfs.FileIo
import Mangoo.Dbfs.Removal

/-!
# Stores with open handles

A database together with the session that has it open and the handles that are
open on it, under the calls of `mangoo.c`.  A step is one whole call with its
result code.  Handles keep the record they read when they were opened, whatever
other calls do to the database meanwhile.
-/

namespace Mangoo.Dbfs

open Mangoo.Foundation

/-! ## Calls -/

inductive HandleCall where
  | mstreamWrite (call : WriteCall)
  | mattrSetmtime (mtime : UInt64)
  | mattrSetatime (atime : UInt64)
  | mattrChmod (mode : UInt32)
  | mattrChown (newuid newgid : UInt32)
  | mattrSetsize (fuel : Nat) (size : UInt64)

namespace HandleCall

def interface : HandleCall → MangooInterfaces
  | .mstreamWrite _ => .stream
  | _ => .attr

def prog (dh : DbfsHandle) : HandleCall → DbProg (Int × DbfsHandle)
  | .mstreamWrite call => do
      let (error, _, dh) ← dbfsWrite call.heap dh call.buf call.size call.offset
      return (error, dh)
  | .mattrSetmtime mtime => dbfsSetmtime dh mtime
  | .mattrSetatime atime => dbfsSetatime dh atime
  | .mattrChmod mode => dbfsChmod dh mode
  | .mattrChown newuid newgid => dbfsChown dh newuid newgid
  | .mattrSetsize fuel size => dbfsSetsize fuel dh size

/-- The change a successful call makes to the cached record. -/
def update (ddd : DentryData) : HandleCall → DentryData
  | .mstreamWrite call => grown ddd call.size call.offset
  | .mattrSetmtime mtime => { ddd with dddMtime := mtime }
  | .mattrSetatime atime => { ddd with dddAtime := atime }
  | .mattrChmod mode => { ddd with dddMode := mode }
  | .mattrChown newuid newgid => { ddd with dddUid := newuid, dddGid := newgid }
  | .mattrSetsize _ size => { ddd with dddSize := size }

@[simp] theorem update_dddType (call : HandleCall) (ddd : DentryData) :
    (call.update ddd).dddType = ddd.dddType := by
  cases call with
  | mstreamWrite call =>
      rw [update, grown_eq]
  | _ => rfl

@[simp] theorem update_dddIno (call : HandleCall) (ddd : DentryData) :
    (call.update ddd).dddIno = ddd.dddIno := by
  cases call with
  | mstreamWrite call =>
      rw [update, grown_eq]
  | _ => rfl

theorem prog_of_attr (dh : DbfsHandle) {call : HandleCall} (h : call.interface = .attr) :
    call.prog dh = setAttr dh fun ddd => call.update ddd := by
  cases call with
  | mstreamWrite call => cases h
  | mattrSetsize fuel size => exact dbfsSetsize_eq fuel dh size
  | _ => rfl

end HandleCall

inductive Op where
  | mangooInitstore (heap : Heap)
  | mangooClosestore
  | mangooCreate (heap : Heap) (proc : Proc) (locator : CStr) (mode : UInt32)
      (mt : MangooTypes)
  | mangooDelete (heap : Heap) (fuel : Nat) (locator : CStr)
  | mangooOpen (heap : Heap) (locator : CStr) (mi : MangooInterfaces) (id : Nat)
  | mangooClose (id : Nat)
  | mstreamRead (heap : Heap) (id : Nat) (buf : List UInt8) (size offset : UInt64)
  | handleCall (id : Nat) (call : HandleCall)

/-! ## Steps -/

structure Sys where
  db : Db
  store : Option DbfsStore
  handles : Nat → Option DbfsHandle

def Sys.closed (db : Db) : Sys := ⟨db, none, fun _ => none⟩

/-- `faulty` tells whether single database calls may fail.  Sessions follow each
other, and closing one ends its handles. -/
inductive Step (faulty : Prop) : Sys → Op × Int → Sys → Prop
  | mangooInitstore {s heap error store db'} : s.store = none →
      Prog.Exec faulty (dbfsInitstore heap) s.db (error, store) db' →
      Step faulty s (.mangooInitstore heap, error) { s with db := db', store := store }
  | mangooClosestore {s dsp} : s.store = some dsp →
      Step faulty s (.mangooClosestore, 0)
        { s with store := none, handles := fun _ => none }
  | mangooCreate {s dsp heap proc locator mode mt error dsp' db'} : s.store = some dsp →
      Prog.Exec faulty (dbfsCreate heap proc dsp locator mode mt) s.db (error, dsp') db' →
      Step faulty s (.mangooCreate heap proc locator mode mt, error)
        { s with db := db', store := some dsp' }
  | mangooDelete {s dsp heap fuel locator error db'} : s.store = some dsp →
      Prog.Exec faulty (dbfsDelete heap fuel locator) s.db error db' →
      Step faulty s (.mangooDelete heap fuel locator, error) { s with db := db' }
  | mangooOpen {s dsp heap locator mi id error dh db'} : s.store = some dsp →
      s.handles id = none →
      Prog.Exec faulty (dbfsOpen heap locator mi) s.db (error, dh) db' →
      Step faulty s (.mangooOpen heap locator mi id, error)
        { s with db := db', handles := Function.update s.handles id dh }
  | mangooClose {s id dh} : s.handles id = some dh →
      Step faulty s (.mangooClose id, 0)
        { s with handles := Function.update s.handles id none }
  | mstreamRead {s id dh heap buf size offset error count out db'} :
      s.handles id = some dh → dh.mhInterface = .stream →
      Prog.Exec faulty (dbfsRead heap dh buf size offset) s.db (error, count, out) db' →
      Step faulty s (.mstreamRead heap id buf size offset, error) { s with db := db' }
  | handleCall {s id dh call error dh' db'} : s.handles id = some dh →
      dh.mhInterface = call.interface →
      Prog.Exec faulty (call.prog dh) s.db (error, dh') db' →
      Step faulty s (.handleCall id call, error)
        { s with db := db', handles := Function.update s.handles id (some dh') }

/-! ## What the calls do -/

variable {faulty : Prop} {db db' : Db} {error : Int}

/-- The handle a successful open returns. -/
structure OpenedAt (locator : CStr) (mi : MangooInterfaces) (db : Db) (dh : DbfsHandle) :
    Prop where
  locator_eq : dh.locator = locator
  key : dh.attrDdk = .dentry locator
  interface : dh.mhInterface = mi
  stored : db.lookup (.dentry locator) = some dh.attrDdd

theorem exec_readAttrHandle {heap : Heap} {locator : CStr} {mi : MangooInterfaces}
    {result : Option DbfsHandle}
    (h : Prog.Exec faulty (do
      match dbfsCreatehandle heap locator with
      | none => return (enomem, none)
      | some dh =>
          let dh := { dh with mhInterface := mi }
          let (error, attrDdd) ← dbfsReadAttr dh.attrDdk.ddkPath dh.attrDdd
          if error ≠ 0 then return (error, none)
          return (0, some { dh with attrDdd := attrDdd })) db (error, result) db') :
    db' = db ∧ (error ≠ 0 ∧ result = none ∨
      error = 0 ∧ ∃ dh, result = some dh ∧ OpenedAt locator mi db dh) := by
  unfold dbfsCreatehandle at h
  cases hok : heap.ok with
  | false =>
      simp only [hok, Bool.false_eq_true, if_false, Prog.exec_pure, Prod.mk.injEq] at h
      obtain ⟨⟨rfl, rfl⟩, rfl⟩ := h
      exact ⟨rfl, .inl ⟨by decide, rfl⟩⟩
  | true =>
      simp only [hok, if_true, initHandle, Key.ddkPath_dentry, Prog.exec_bind] at h
      obtain ⟨⟨code, ddd⟩, mid, hread, hrest⟩ := h
      obtain ⟨rfl, ⟨rfl, hlookup⟩ | ⟨hcode, -⟩⟩ := exec_dbfsReadAttr hread
      · simp only [ne_eq, not_true_eq_false, if_false, Prog.exec_pure,
          Prod.mk.injEq] at hrest
        obtain ⟨⟨rfl, rfl⟩, rfl⟩ := hrest
        exact ⟨rfl, .inr ⟨rfl, _, rfl, rfl, rfl, rfl, hlookup⟩⟩
      · simp only [if_pos hcode, Prog.exec_pure, Prod.mk.injEq] at hrest
        obtain ⟨⟨rfl, rfl⟩, rfl⟩ := hrest
        exact ⟨rfl, .inl ⟨hcode, rfl⟩⟩

theorem exec_dbfsOpen {heap : Heap} {locator : CStr} {mi : MangooInterfaces}
    {result : Option DbfsHandle}
    (h : Prog.Exec faulty (dbfsOpen heap locator mi) db (error, result) db') :
    db' = db ∧ (error ≠ 0 ∧ result = none ∨
      error = 0 ∧ ∃ dh, result = some dh ∧ OpenedAt locator mi db dh) := by
  cases mi with
  | stream => exact exec_readAttrHandle h
  | directory =>
      obtain ⟨rfl, herror | ⟨rfl, record, hlookup, rfl⟩⟩ := exec_dbfsDopen h
      · exact ⟨rfl, .inl herror⟩
      · exact ⟨rfl, .inr ⟨rfl, _, rfl, rfl, rfl, rfl, hlookup⟩⟩
  | attr => exact exec_readAttrHandle h

theorem exec_setAttr {dh dh' : DbfsHandle} {change : DentryData → DentryData}
    (h : Prog.Exec faulty (setAttr dh change) db (error, dh') db') :
    dh' = { dh with attrDdd := change dh.attrDdd } ∧
      (error = 0 ∧ db' = db.insert (.dentry dh.attrDdk.ddkPath) (change dh.attrDdd) ∨
        faulty ∧ error = einval ∧ db' = db) := by
  simp only [setAttr, Prog.exec_bind] at h
  obtain ⟨code, mid, hwrite, hret⟩ := h
  simp only [Prog.exec_pure, Prod.mk.injEq] at hret
  obtain ⟨⟨rfl, rfl⟩, rfl⟩ := hret
  exact ⟨rfl, exec_dbfsWriteAttr hwrite⟩

/-- The two databases differ at most in the blocks of one inode number. -/
def BlocksOnly (ino : UInt64) (db db' : Db) : Prop :=
  ∀ key, ¬ BlockOf ino key → db'.lookup key = db.lookup key

theorem BlocksOnly.refl (ino : UInt64) (db : Db) : BlocksOnly ino db db := fun _ _ => rfl

theorem BlocksOnly.lookup_dentry {ino : UInt64} (h : BlocksOnly ino db db') (path : CStr) :
    db'.lookup (.dentry path) = db.lookup (.dentry path) :=
  h _ fun hblock => by
    obtain ⟨offset, heq⟩ := hblock
    cases heq

theorem BlocksOnly.lookup_fsinfo {ino : UInt64} (h : BlocksOnly ino db db') :
    db'.lookup .fsinfo = db.lookup .fsinfo :=
  h _ fun hblock => by
    obtain ⟨offset, heq⟩ := hblock
    cases heq

/-- What a call through the handle `dh` does: it stores the updated copy of the
handle's own record, and a write may change blocks of its inode number first; or it
fails and stores no record. -/
def CallEffect (dh dh' : DbfsHandle) (call : HandleCall) (error : Int) (db db' : Db) :
    Prop :=
  ∃ mid, BlocksOnly dh.attrDdd.dddIno db mid ∧
    (error = 0 ∧ dh' = { dh with attrDdd := call.update dh.attrDdd } ∧
        db' = mid.insert (.dentry dh.attrDdk.ddkPath) (call.update dh.attrDdd) ∨
      error ≠ 0 ∧ db' = mid ∧
        (dh' = dh ∨ dh' = { dh with attrDdd := call.update dh.attrDdd }))

theorem exec_attrCall {dh dh' : DbfsHandle} {call : HandleCall}
    (hattr : call.interface = .attr)
    (h : Prog.Exec faulty (call.prog dh) db (error, dh') db') :
    CallEffect dh dh' call error db db' := by
  rw [HandleCall.prog_of_attr dh hattr] at h
  obtain ⟨rfl, ⟨rfl, rfl⟩ | ⟨-, rfl, rfl⟩⟩ := exec_setAttr h
  · exact ⟨db, .refl _ _, .inl ⟨rfl, rfl, rfl⟩⟩
  · exact ⟨_, .refl _ _, .inr ⟨by decide, rfl, .inr rfl⟩⟩

theorem exec_handleCall {dh dh' : DbfsHandle} {call : HandleCall}
    (h : Prog.Exec faulty (call.prog dh) db (error, dh') db') :
    CallEffect dh dh' call error db db' := by
  cases call with
  | mstreamWrite call =>
      simp only [HandleCall.prog, Prog.exec_bind] at h
      obtain ⟨⟨code, count, dh₁⟩, final, hwrite, hret⟩ := h
      simp only [Prog.exec_pure, Prod.mk.injEq] at hret
      obtain ⟨⟨rfl, rfl⟩, rfl⟩ := hret
      obtain ⟨code', out, mid, hmove, hrest⟩ := exec_dbfsWrite hwrite
      refine ⟨mid, fun key hkey => hmove.frame (changes_dbfsReadwrite _ _ _ _ _ _) hkey, ?_⟩
      rcases hrest with ⟨hcode, rfl, rfl, rfl⟩ | ⟨-, -, rfl, ⟨rfl, rfl⟩ | ⟨-, rfl, rfl⟩⟩
      · exact .inr ⟨hcode, rfl, .inl rfl⟩
      · exact .inl ⟨rfl, rfl, rfl⟩
      · exact .inr ⟨by decide, rfl, .inr rfl⟩
  | _ => exact exec_attrCall rfl h

theorem exec_dbfsCreate {heap : Heap} {proc : Proc} {dsp dsp' : DbfsStore}
    {locator : CStr} {mode : UInt32} {mt : MangooTypes}
    (h : Prog.Exec faulty (dbfsCreate heap proc dsp locator mode mt) db (error, dsp') db') :
    error = 0 ∧ dsp' = ⟨dsp.lastInode + 1⟩ ∧ db.lookup (.dentry locator) = none ∧
        db' = db.insert (.dentry locator) ⟨mt.toUInt32, mode, dsp.lastInode, 0,
          proc.now, proc.now, proc.euid, proc.egid⟩ ∨
      error ≠ 0 ∧ db' = db ∧ (dsp' = dsp ∨ dsp' = ⟨dsp.lastInode + 1⟩) := by
  unfold dbfsCreate at h
  split at h
  · simp only [Prog.exec_pure, Prod.mk.injEq] at h
    obtain ⟨⟨rfl, rfl⟩, rfl⟩ := h
    exact .inr ⟨by decide, rfl, .inl rfl⟩
  · simp only [Prog.exec_bind] at h
    obtain ⟨code, mid, hcreate, hret⟩ := h
    simp only [Prog.exec_pure, Prod.mk.injEq] at hret
    obtain ⟨⟨rfl, rfl⟩, rfl⟩ := hret
    rcases exec_dbfsCreateAttr hcreate with ⟨rfl, hnone, rfl⟩ | ⟨rfl, rfl⟩
    · exact .inl ⟨rfl, rfl, hnone, rfl⟩
    · exact .inr ⟨by decide, rfl, .inr rfl⟩

theorem exec_dbfsInitstore {heap : Heap} {result : Option DbfsStore}
    (h : Prog.Exec faulty (dbfsInitstore heap) db (error, result) db') :
    (result = none ∧ db' = db) ∨ ∃ dfd : FsinfoData, db.lookup .fsinfo = some dfd ∧
      result = some ⟨dfd.dfdLastino⟩ ∧
      db' = db.insert .fsinfo ⟨dfd.dfdLastino + 1000⟩ := by
  unfold dbfsInitstore at h
  split at h
  · simp only [Prog.exec_pure, Prod.mk.injEq] at h
    exact .inl ⟨h.1.2, h.2⟩
  · simp only [dbfsFetchFsinfo, Prog.exec_bind, Prog.exec_getRec] at h
    obtain ⟨found, mid, ⟨result', mid', ⟨rfl, hget⟩, hfound⟩, hrest⟩ := h
    cases result' with
    | error code =>
        simp only [Prog.exec_pure] at hfound
        obtain ⟨rfl, rfl⟩ := hfound
        simp only [Prog.exec_pure, Prod.mk.injEq] at hrest
        exact .inl ⟨hrest.1.2, hrest.2⟩
    | ok dfd =>
        simp only [Prog.exec_pure] at hfound
        obtain ⟨rfl, rfl⟩ := hfound
        have hlookup : mid.lookup .fsinfo = some dfd := by
          rcases hget with hget | ⟨-, e, -, hget⟩
          · exact fetch_eq_ok_iff.mp hget.symm
          · cases hget
        simp only [dbfsUpdateFsinfo, dbfsCrupdFsinfo, Prog.exec_bind,
          Prog.exec_putRec] at hrest
        obtain ⟨code, mid', ⟨code', mid'', hput, hcode⟩, hret⟩ := hrest
        rcases hput with hput | ⟨-, hfault, rfl⟩
        · rw [store_overwrite] at hput
          cases hput
          simp only [ne_eq, not_true_eq_false, if_false, Prog.exec_pure] at hcode
          obtain ⟨rfl, rfl⟩ := hcode
          simp only [ne_eq, not_true_eq_false, if_false, Prog.exec_pure,
            Prod.mk.injEq] at hret
          exact .inr ⟨dfd, hlookup, hret.1.2, hret.2⟩
        · rw [if_pos hfault.1, Prog.exec_pure] at hcode
          obtain ⟨rfl, rfl⟩ := hcode
          rw [if_pos (by decide)] at hret
          simp only [Prog.exec_pure, Prod.mk.injEq] at hret
          exact .inl ⟨hret.1.2, hret.2⟩

/-! ## What a step does to the entries -/

variable {s s' : Sys} {op : Op}

/-- A new entry with the session's next inode number. -/
def Creates (s : Sys) (op : Op) (s' : Sys) : Prop :=
  ∃ heap proc locator mode mt dsp, op = .mangooCreate heap proc locator mode mt ∧
    s.store = some dsp ∧ s.db.lookup (.dentry locator) = none ∧
    s'.db = s.db.insert (.dentry locator) ⟨mt.toUInt32, mode, dsp.lastInode, 0,
      proc.now, proc.now, proc.euid, proc.egid⟩

/-- One record less: the entry of a data file, or for a directory whatever key is
in the handle's buffer by then. -/
def Deletes (s : Sys) (op : Op) (s' : Sys) : Prop :=
  ∃ heap fuel locator, ∃ ddd : DentryData, op = .mangooDelete heap fuel locator ∧
    s.db.lookup (.dentry locator) = some ddd ∧
    (MangooTypes.ofUInt32? ddd.dddType = some .container ∧ LooksEmpty s.db locator ∧
        s'.db = s.db.erase (deldKey heap s.db locator) ∨
      MangooTypes.ofUInt32? ddd.dddType = some .data ∧
        s'.db = s.db.erase (.dentry locator))

/-- The updated copy that a handle has of its record. -/
def Stores (s : Sys) (op : Op) (s' : Sys) : Prop :=
  ∃ id dh call mid, op = .handleCall id call ∧ s.handles id = some dh ∧
    BlocksOnly dh.attrDdd.dddIno s.db mid ∧
    s'.db = mid.insert (.dentry dh.attrDdk.ddkPath) (call.update dh.attrDdd)

theorem Step.entries (h : Step faulty s (op, error) s') :
    (∀ path, s'.db.lookup (.dentry path) = s.db.lookup (.dentry path)) ∨
      error = 0 ∧ (Creates s op s' ∨ Deletes s op s' ∨ Stores s op s') := by
  cases h with
  | mangooInitstore hstore hexec =>
      left
      intro path
      rcases exec_dbfsInitstore hexec with ⟨-, heq⟩ | ⟨dfd, -, -, heq⟩
      · simp only [heq]
      · simp only [heq]
        exact Finmap.lookup_insert_of_ne _ (by simp)
  | mangooClosestore hstore => exact .inl fun _ => rfl
  | mangooCreate hstore hexec =>
      rcases exec_dbfsCreate hexec with ⟨rfl, -, hnone, heq⟩ | ⟨-, heq, -⟩
      · exact .inr ⟨rfl, .inl ⟨_, _, _, _, _, _, rfl, hstore, hnone, heq⟩⟩
      · left
        intro path
        simp only [heq]
  | mangooDelete hstore hexec =>
      rcases exec_dbfsDelete hexec with
        ⟨-, heq | ⟨ino, heq⟩⟩ | ⟨rfl, -, ddd, hlookup, hcase⟩
      · left
        intro path
        simp only [heq]
      · left
        intro path
        simp only [heq]
        exact Finmap.lookup_erase_ne (by simp)
      · refine .inr ⟨rfl, .inr (.inl ⟨_, _, _, ddd, rfl, hlookup, ?_⟩)⟩
        rcases hcase with ⟨htype, hempty, -, heq⟩ | ⟨htype, -, heq⟩
        · exact .inl ⟨htype, hempty, heq⟩
        · exact .inr ⟨htype, heq⟩
  | mangooOpen hstore hid hexec =>
      left
      intro path
      simp only [(exec_dbfsOpen hexec).1]
  | mangooClose hid => exact .inl fun _ => rfl
  | mstreamRead hid hinterface hexec =>
      left
      intro path
      simp only [hexec.reads (reads_dbfsRead _ _ _ _ _)]
  | handleCall hid hinterface hexec =>
      obtain ⟨mid, hmid, ⟨rfl, -, heq⟩ | ⟨-, heq, -⟩⟩ := exec_handleCall hexec
      · exact .inr ⟨rfl, .inr (.inr ⟨_, _, _, mid, rfl, hid, hmid, heq⟩)⟩
      · left
        intro path
        simp only [heq]
        exact hmid.lookup_dentry path

/-! ## What a step does to the handles -/

theorem Step.handle (h : Step faulty s (op, error) s') {id : Nat} {dh' : DbfsHandle}
    (hid : s'.handles id = some dh') :
    s.handles id = some dh' ∨
      (∃ heap locator mi, op = .mangooOpen heap locator mi id ∧ error = 0 ∧
        OpenedAt locator mi s.db dh') ∨
      ∃ dh call, op = .handleCall id call ∧ s.handles id = some dh ∧
        dh' = { dh with attrDdd := call.update dh.attrDdd } := by
  cases h with
  | mangooInitstore hstore hexec => exact .inl hid
  | mangooClosestore hstore => cases hid
  | mangooCreate hstore hexec => exact .inl hid
  | mangooDelete hstore hexec => exact .inl hid
  | @mangooOpen _ heap locator mi id' _ result _ hstore hfree hexec =>
      by_cases heq : id = id'
      · subst heq
        simp only [Function.update_self] at hid
        obtain ⟨-, ⟨-, hnone⟩ | ⟨herror, dh, hsome, hopened⟩⟩ := exec_dbfsOpen hexec
        · rw [hnone] at hid
          cases hid
        · rw [hsome] at hid
          cases hid
          exact .inr (.inl ⟨_, _, _, rfl, herror, hopened⟩)
      · simp only [Function.update_of_ne heq] at hid
        exact .inl hid
  | @mangooClose id' _ hopen =>
      by_cases heq : id = id'
      · subst heq
        simp only [Function.update_self] at hid
        cases hid
      · simp only [Function.update_of_ne heq] at hid
        exact .inl hid
  | mstreamRead hopen hinterface hexec => exact .inl hid
  | @handleCall id' dh call _ dh₁ _ hopen hinterface hexec =>
      by_cases heq : id = id'
      · subst heq
        simp only [Function.update_self, Option.some.injEq] at hid
        subst hid
        obtain ⟨mid, -, ⟨-, heq, -⟩ | ⟨-, -, heq | heq⟩⟩ := exec_handleCall hexec
        · exact .inr (.inr ⟨dh, call, rfl, hopen, heq⟩)
        · rw [heq]
          exact .inl hopen
        · exact .inr (.inr ⟨dh, call, rfl, hopen, heq⟩)
      · simp only [Function.update_of_ne heq] at hid
        exact .inl hid

/-- Every handle's key buffer holds the key of its own entry. -/
def OwnKeys (s : Sys) : Prop :=
  ∀ id dh, s.handles id = some dh → dh.attrDdk = .dentry dh.locator

theorem Step.ownKeys (h : Step faulty s (op, error) s') (hkeys : OwnKeys s) :
    OwnKeys s' := by
  intro id dh' hid
  rcases h.handle hid with hid | ⟨heap, locator, mi, -, -, hopened⟩ |
      ⟨dh, call, -, hopen, rfl⟩
  · exact hkeys id dh' hid
  · rw [hopened.key, hopened.locator_eq]
  · exact hkeys id dh hopen

theorem ownKeys_of_no_handles (h : s.handles = fun _ => none) : OwnKeys s := by
  intro id dh hid
  rw [h] at hid
  cases hid

/-! ## What a step does to the blocks -/

theorem lookup_of_lookup_erase {db : Db} {key other : Key} {record : Rec key}
    (h : (db.erase other).lookup key = some record) : db.lookup key = some record := by
  by_cases heq : key = other
  · subst heq
    rw [Finmap.lookup_erase] at h
    cases h
  · rwa [Finmap.lookup_erase_ne heq] at h

/-- The range of a write does not wrap around. -/
def WritesFit : Op → Prop
  | .handleCall _ (.mstreamWrite call) => call.Fits
  | _ => True

theorem blocksWF_attrCall {dh dh' : DbfsHandle} {call : HandleCall}
    (hattr : call.interface = .attr) (hwf : BlocksWF db)
    (h : Prog.Exec faulty (call.prog dh) db (error, dh') db') : BlocksWF db' := by
  rw [HandleCall.prog_of_attr dh hattr] at h
  obtain ⟨-, ⟨-, rfl⟩ | ⟨-, -, rfl⟩⟩ := exec_setAttr h
  · exact hwf.insert_dentry _ _
  · exact hwf

theorem blocksWF_mstreamWrite {dh dh' : DbfsHandle} {call : WriteCall} (hfits : call.Fits)
    (hwf : BlocksWF db)
    (h : Prog.Exec faulty ((HandleCall.mstreamWrite call).prog dh) db (error, dh') db') :
    BlocksWF db' := by
  have hsize := WriteCall.toNat_size hfits
  simp only [HandleCall.prog, Prog.exec_bind, Prog.exec_pure] at h
  obtain ⟨⟨code, count, dh₁⟩, final, hwrite, -, rfl⟩ := h
  obtain ⟨code', out, mid, hmove, hrest⟩ := exec_dbfsWrite hwrite
  obtain ⟨k, -, -, hwrote, -⟩ := exec_dbfsReadwrite_write hwf
    (by rw [hsize]; exact hfits) (by rw [hsize]) hmove
  rcases hrest with ⟨-, -, -, rfl⟩ | ⟨-, -, -, ⟨-, rfl⟩ | ⟨-, -, rfl⟩⟩
  · exact hwrote.wf
  · exact hwrote.wf.insert_dentry _ _
  · exact hwrote.wf

theorem Step.blocksWF (h : Step faulty s (op, error) s') (hfits : WritesFit op)
    (hwf : BlocksWF s.db) : BlocksWF s'.db := by
  cases h with
  | mangooInitstore hstore hexec =>
      rcases exec_dbfsInitstore hexec with ⟨-, rfl⟩ | ⟨dfd, -, -, rfl⟩
      · exact hwf
      · apply hwf.of_lookup
        intro ino offset record hrecord
        rwa [Finmap.lookup_insert_of_ne _ (by simp)] at hrecord
  | mangooClosestore hstore => exact hwf
  | mangooCreate hstore hexec =>
      rcases exec_dbfsCreate hexec with ⟨-, -, -, rfl⟩ | ⟨-, rfl, -⟩
      · exact hwf.insert_dentry _ _
      · exact hwf
  | mangooDelete hstore hexec =>
      have herase : ∀ key, BlocksWF (s.db.erase key) := fun key =>
        hwf.of_lookup fun _ _ _ hrecord => lookup_of_lookup_erase hrecord
      rcases exec_dbfsDelete hexec with
        ⟨-, rfl | ⟨ino, rfl⟩⟩ | ⟨-, -, ddd, -, ⟨-, -, -, rfl⟩ | ⟨-, -, rfl⟩⟩
      · exact hwf
      · exact herase _
      · exact herase _
      · exact herase _
  | mangooOpen hstore hfree hexec =>
      rw [(exec_dbfsOpen hexec).1]
      exact hwf
  | mangooClose hid => exact hwf
  | mstreamRead hid hinterface hexec =>
      rw [hexec.reads (reads_dbfsRead _ _ _ _ _)]
      exact hwf
  | @handleCall id dh call _ dh' db' hid hinterface hexec =>
      cases call with
      | mstreamWrite call => exact blocksWF_mstreamWrite hfits hwf hexec
      | _ => exact blocksWF_attrCall rfl hwf hexec

theorem blocksWF_mkdbfsDb (proc : Proc) : BlocksWF (mkdbfsDb proc) := by
  intro ino offset record hrecord
  rw [lookup_mkdbfsDb_block] at hrecord
  cases hrecord

theorem blocksWF_of_run {proc : Proc} {events : List (Op × Int)}
    (h : Run (fun s event s' => WritesFit event.1 ∧ Step faulty s event s')
      (Sys.closed (mkdbfsDb proc)) events s) : BlocksWF s.db := by
  apply h.invariant (I := fun s => BlocksWF s.db) (blocksWF_mkdbfsDb proc)
  rintro s event s' hwf ⟨hfits, hstep⟩
  exact hstep.blocksWF hfits hwf

/-! ## Small systems -/

def startedSys : Sys where
  db := (mkdbfsDb plainProc).insert Key.fsinfo (⟨1001⟩ : FsinfoData)
  store := some ⟨1⟩
  handles := fun _ => none

theorem step_start : Step False (Sys.closed (mkdbfsDb plainProc))
    (.mangooInitstore plainHeap, 0) startedSys :=
  .mangooInitstore rfl (Prog.exec_iff_run.mpr rfl)

def createdSys (ino : UInt64) : Sys where
  db := startedSys.db.insert (.dentry pathA) (⟨1, 0o644, ino, 0, 0, 0, 0, 0⟩ : DentryData)
  store := some ⟨ino + 1⟩
  handles := fun _ => none

theorem step_create_file : Step False startedSys
    (.mangooCreate plainHeap plainProc pathA 0o644 .data, 0) (createdSys 1) :=
  .mangooCreate rfl (Prog.exec_iff_run.mpr rfl)

def fileSys : Sys where
  db := fileDb
  store := some ⟨1⟩
  handles := fun _ => none

def fileHandle : DbfsHandle where
  mhInterface := .attr
  locator := pathA
  attrDdk := .dentry pathA
  ddkFreed := false
  ddkSize := dbfsDdkSize pathA
  attrDdd := ⟨1, 0o644, 2, 5, 0, 0, 0, 0⟩
  dbc := none

def openedSys : Sys where
  db := fileDb
  store := some ⟨1⟩
  handles := Function.update (fun _ => none) 0 (some fileHandle)

theorem step_open_file :
    Step False fileSys (.mangooOpen plainHeap pathA .attr 0, 0) openedSys :=
  .mangooOpen rfl rfl (Prog.exec_iff_run.mpr rfl)

end Mangoo.Dbfs
