import Mangoo.Dbfs.Inodes
import Mangoo.Dbfs.SharedWrites

/-!
# Isolation of files

Blocks are found by inode number alone, so a write to one file stays out of
another exactly as long as their numbers differ.
-/

namespace Mangoo.Dbfs

open Mangoo.Foundation

def readFile (heap heap' : Heap) (locator : CStr) (buf : List UInt8)
    (size offset : UInt64) : DbProg (Int × UInt64 × List UInt8) := do
  match ← dbfsSopen heap locator with
  | (error, none) => return (error, 0, buf)
  | (_, some dh) => dbfsRead heap' dh buf size offset

def NoIno (_ : UInt64) : Prop := False

variable {faulty : Prop} {s s' : Sys} {db db' : Db} {path : CStr} {ddd : DentryData}

theorem run_readFile (heap' : Heap) {heap : Heap} (buf : List UInt8) (size offset : UInt64)
    (hok : heap.ok = true) (hlookup : db.lookup (.dentry path) = some ddd) :
    (readFile heap heap' path buf size offset).run db =
      (dbfsRead heap' (initHandle path ddd) buf size offset).run db := by
  simp [readFile, run_dbfsSopen hok hlookup]

theorem run_readFile_congr (heap heap' : Heap) (buf : List UInt8) (size offset : UInt64)
    (hlookup : db.lookup (.dentry path) = some ddd)
    (hlookup' : db'.lookup (.dentry path) = some ddd)
    (hblocks : ∀ offset, db'.lookup (.block ddd.dddIno offset) =
      db.lookup (.block ddd.dddIno offset)) :
    (readFile heap heap' path buf size offset).run db' =
      ((readFile heap heap' path buf size offset).run db).map
        fun result => (result.1, db') := by
  cases hok : heap.ok with
  | false => simp [readFile, dbfsSopen, dbfsCreatehandle, hok]
  | true =>
      rw [run_readFile heap' buf size offset hok hlookup,
        run_readFile heap' buf size offset hok hlookup']
      apply (reads_dbfsRead heap' (initHandle path ddd) buf size offset).run_congr
      rintro key ⟨blockOffset, rfl⟩
      exact hblocks blockOffset

theorem Step.handleCall_frame {id : Nat} {dh : DbfsHandle} {call : HandleCall} {error : Int}
    (h : Step faulty s (.handleCall id call, error) s') (hkeys : OwnKeys s)
    (hid : s.handles id = some dh) {key : Key} (hblock : ¬ BlockOf dh.attrDdd.dddIno key)
    (hdentry : key ≠ .dentry dh.locator) : s'.db.lookup key = s.db.lookup key := by
  cases h with
  | handleCall hid' hinterface hexec =>
      rw [hid] at hid'
      cases hid'
      obtain ⟨mid, hmid, ⟨-, -, rfl⟩ | ⟨-, rfl, -⟩⟩ := exec_handleCall hexec
      · rw [hkeys id dh hid, Key.ddkPath_dentry, Finmap.lookup_insert_of_ne _ hdentry,
          hmid key hblock]
      · rw [hmid key hblock]

/--
In every state of a run of any calls from a store made by `mkdbfs` in which every
creation takes a number below the reservation, a write to one data file leaves the
record, the blocks and so every read of the other data files as they were.
-/
theorem write_leaves_other_files (faulty : Prop) (proc : Proc) (events : List (Op × Int))
    (s s' : Sys) (id : Nat) (dh : DbfsHandle) (call : WriteCall) (error : Int)
    (path : CStr) (ddd : DentryData)
    (hrun : Run (fun s event s' => NumbersReserved IsData NoIno s event.1 ∧
      Step faulty s event s') (Sys.closed (mkdbfsDb proc)) events s)
    (hid : s.handles id = some dh) (hwriter : IsData dh.attrDdd.dddType)
    (hwrite : Step faulty s (.handleCall id (.mstreamWrite call), error) s')
    (hlookup : s.db.lookup (.dentry path) = some ddd) (hdata : IsData ddd.dddType)
    (hne : path ≠ dh.locator) :
    s'.db.lookup (.dentry path) = some ddd ∧
      (∀ offset, s'.db.lookup (.block ddd.dddIno offset) =
        s.db.lookup (.block ddd.dddIno offset)) ∧
      ∀ heap heap' buf size offset,
        (readFile heap heap' path buf size offset).run s'.db =
          ((readFile heap heap' path buf size offset).run s.db).map
            fun result => (result.1, s'.db) := by
  have hstart : InoInv IsData NoIno (Sys.closed (mkdbfsDb proc)) :=
    inoInv_mkdbfs proc fun hzero => by cases hzero
  have hinv : InoInv IsData NoIno s := by
    apply hrun.invariant hstart
    rintro s event s' hinv ⟨hguard, hstep⟩
    exact hstep.inoInv hinv hguard
  have hino : ddd.dddIno ≠ dh.attrDdd.dddIno := by
    intro heq
    apply hne
    apply hinv.unique path dh.locator ddd.dddIno
    · exact .inl ⟨ddd, hlookup, hdata, rfl⟩
    · exact .inr ⟨id, dh, hid, rfl, hwriter, heq.symm⟩
  have hrecord : s'.db.lookup (.dentry path) = some ddd := by
    rw [hwrite.handleCall_frame hinv.keys hid _ (by simpa using hne), hlookup]
    rintro ⟨offset, heq⟩
    cases heq
  have hblocks : ∀ offset, s'.db.lookup (.block ddd.dddIno offset) =
      s.db.lookup (.block ddd.dddIno offset) := by
    intro offset
    apply hwrite.handleCall_frame hinv.keys hid _ (by simp)
    rintro ⟨offset', heq⟩
    rw [Key.block.injEq] at heq
    exact hino heq.1
  exact ⟨hrecord, hblocks, fun heap heap' buf size offset =>
    run_readFile_congr heap heap' buf size offset hlookup hrecord hblocks⟩

def oneByte : WriteCall := ⟨plainHeap, [7], 0⟩

/-- A first session with the files `"/a"` and `"/b"`, the second one open. -/
def twoFileSys : Sys where
  db := (createdSys 1).db.insert (.dentry pathB)
    (⟨1, 0o644, 2, 0, 0, 0, 0, 0⟩ : DentryData)
  store := some ⟨3⟩
  handles := Function.update (fun _ => none) 0
    (some (initHandle pathB ⟨1, 0o644, 2, 0, 0, 0, 0, 0⟩))

theorem numbersReserved_of_lt {s : Sys} {number : UInt64} {dfd : FsinfoData} {heap : Heap}
    {proc : Proc} {locator : CStr} {mode : UInt32} {mt : MangooTypes}
    (hstore : s.store = some ⟨number⟩) (hlookup : s.db.lookup .fsinfo = some dfd)
    (hlt : number.toNat < dfd.dfdLastino.toNat) :
    NumbersReserved IsData NoIno s (.mangooCreate heap proc locator mode mt) := by
  intro dsp hdsp
  rw [hstore] at hdsp
  cases hdsp
  exact ⟨⟨dfd, hlookup, hlt⟩, fun _ _ => id⟩

theorem write_leaves_other_files_pair : ∃ s',
    Step False twoFileSys (.handleCall 0 (.mstreamWrite oneByte), 0) s' ∧
      s'.db.lookup (.dentry pathA) =
        some (⟨1, 0o644, 1, 0, 0, 0, 0, 0⟩ : DentryData) := by
  have hwf : BlocksWF twoFileSys.db := by
    intro ino offset record hrecord
    cases hrecord
  obtain ⟨s', hwrite, -⟩ := Step.mstreamWrite_returns oneByte
    (show twoFileSys.handles 0 = some _ from rfl) rfl hwf (by decide)
  have hsecond : Step False (createdSys 1)
      (.mangooCreate plainHeap plainProc pathB 0o644 .data, 0)
      { twoFileSys with handles := fun _ => none } :=
    .mangooCreate rfl (Prog.exec_iff_run.mpr rfl)
  have hopen : Step False { twoFileSys with handles := fun _ => none }
      (.mangooOpen plainHeap pathB .stream 0, 0) twoFileSys :=
    .mangooOpen rfl rfl (Prog.exec_iff_run.mpr rfl)
  have hinit : NumbersReserved IsData NoIno (Sys.closed (mkdbfsDb plainProc))
      (.mangooInitstore plainHeap) := by
    intro dfd hdfd
    cases hdfd
    decide
  have hlast : startedSys.db.lookup .fsinfo = some ⟨1001⟩ := rfl
  have hlast' : (createdSys 1).db.lookup .fsinfo = some ⟨1001⟩ := rfl
  obtain ⟨hlookup, -⟩ := write_leaves_other_files False plainProc
    [(.mangooInitstore plainHeap, 0), (.mangooCreate plainHeap plainProc pathA 0o644 .data, 0),
      (.mangooCreate plainHeap plainProc pathB 0o644 .data, 0),
      (.mangooOpen plainHeap pathB .stream 0, 0)]
    twoFileSys s' 0 _ oneByte 0 pathA ⟨1, 0o644, 1, 0, 0, 0, 0, 0⟩
    (.cons ⟨hinit, step_start⟩
      (.cons ⟨numbersReserved_of_lt rfl hlast (by decide), step_create_file⟩
        (.cons ⟨numbersReserved_of_lt rfl hlast' (by decide), hsecond⟩
          (.single ⟨trivial, hopen⟩)))) rfl rfl hwrite rfl rfl (by decide)
  exact ⟨s', hwrite, hlookup⟩

/-! ## A session that runs past its reservation -/

/-- A creation of `"/"` fails and takes a number. -/
def failedCreate : Op × Int := (.mangooCreate plainHeap plainProc rootPath 0o644 .data, einval)

theorem step_failedCreate (number : UInt64) :
    Step False { startedSys with store := some ⟨number⟩ } failedCreate
      { startedSys with store := some ⟨number + 1⟩ } :=
  .mangooCreate rfl (Prog.exec_iff_run.mpr rfl)

theorem run_failedCreates (n : Nat) :
    Run (Step False) startedSys (List.replicate n failedCreate)
      { startedSys with store := some ⟨1 + UInt64.ofNat n⟩ } := by
  induction n with
  | zero => exact .nil
  | succ n ih =>
      rw [List.replicate_succ']
      have hnext : 1 + UInt64.ofNat (n + 1) = 1 + UInt64.ofNat n + 1 := by
        rw [UInt64.ofNat_add, UInt64.add_assoc]
        rfl
      rw [hnext]
      exact .snoc ih (step_failedCreate _)

def overrunDb : Db :=
  (createdSys 1001).db.insert (.dentry pathA) (⟨1, 0o644, 1001, 1, 0, 0, 0, 0⟩ : DentryData)

def reusedDb : Db :=
  (overrunDb.insert Key.fsinfo (⟨2001⟩ : FsinfoData)).insert (.dentry pathB)
    (⟨1, 0o644, 1001, 0, 0, 0, 0, 0⟩ : DentryData)

def reusedSys : Sys where
  db := reusedDb
  store := some ⟨1002⟩
  handles := Function.update (fun _ => none) 0
    (some (initHandle pathB ⟨1, 0o644, 1001, 0, 0, 0, 0, 0⟩))

def overrunSys : Sys where
  db := (createdSys 1001).db
  store := some ⟨1002⟩
  handles := Function.update (fun _ => none) 0
    (some { initHandle pathA ⟨1, 0o644, 1001, 0, 0, 0, 0, 0⟩ with mhInterface := .attr })

theorem run_overrun : ∃ events, Run (Step False) (Sys.closed (mkdbfsDb plainProc)) events
    (Sys.closed overrunDb) := by
  have hcreate : Step False { startedSys with store := some ⟨1 + UInt64.ofNat 1000⟩ }
      (.mangooCreate plainHeap plainProc pathA 0o644 .data, 0) (createdSys 1001) :=
    .mangooCreate rfl (Prog.exec_iff_run.mpr rfl)
  have hopen : Step False (createdSys 1001) (.mangooOpen plainHeap pathA .attr 0, 0)
      overrunSys :=
    .mangooOpen rfl rfl (Prog.exec_iff_run.mpr rfl)
  have hsetsize : ∃ handles, Step False overrunSys (.handleCall 0 (.mattrSetsize 0 1), 0)
      { db := overrunDb, store := some ⟨1002⟩, handles := handles } :=
    ⟨_, .handleCall rfl rfl (Prog.exec_iff_run.mpr rfl)⟩
  obtain ⟨handles, hsetsize⟩ := hsetsize
  have hclose : Step False { db := overrunDb, store := some ⟨1002⟩, handles := handles }
      (.mangooClosestore, 0) (Sys.closed overrunDb) := .mangooClosestore rfl
  exact ⟨_, .cons step_start (.append (run_failedCreates 1000)
    (.cons hcreate (.cons hopen (.cons hsetsize (.single hclose)))))⟩

theorem run_reused : Run (Step False) (Sys.closed overrunDb)
    [(.mangooInitstore plainHeap, 0), (.mangooCreate plainHeap plainProc pathB 0o644 .data, 0),
      (.mangooOpen plainHeap pathB .stream 0, 0)] reusedSys := by
  have hinit : Step False (Sys.closed overrunDb) (.mangooInitstore plainHeap, 0)
      { db := overrunDb.insert Key.fsinfo (⟨2001⟩ : FsinfoData), store := some ⟨1001⟩,
        handles := fun _ => none } :=
    .mangooInitstore rfl (Prog.exec_iff_run.mpr rfl)
  have hcreate : Step False
      { db := overrunDb.insert Key.fsinfo (⟨2001⟩ : FsinfoData), store := some ⟨1001⟩,
        handles := fun _ => none }
      (.mangooCreate plainHeap plainProc pathB 0o644 .data, 0)
      { db := reusedDb, store := some ⟨1002⟩, handles := fun _ => none } :=
    .mangooCreate rfl (Prog.exec_iff_run.mpr rfl)
  have hopen : Step False { db := reusedDb, store := some ⟨1002⟩, handles := fun _ => none }
      (.mangooOpen plainHeap pathB .stream 0, 0) reusedSys :=
    .mangooOpen rfl rfl (Prog.exec_iff_run.mpr rfl)
  exact .cons hinit (.cons hcreate (.single hopen))

theorem blocksWF_reusedDb : BlocksWF reusedDb := by
  intro ino offset record hrecord
  cases hrecord

/-- A byte written to `"/b"` in the second session appears in `"/a"`. -/
theorem write_reaches_other_file :
    ¬ ∀ (proc : Proc) (events : List (Op × Int)) (s s' : Sys) (id : Nat) (dh : DbfsHandle)
      (call : WriteCall) (path : CStr) (ddd : DentryData),
      Run (Step False) (Sys.closed (mkdbfsDb proc)) events s → s.handles id = some dh →
      IsData dh.attrDdd.dddType → Step False s (.handleCall id (.mstreamWrite call), 0) s' →
      s.db.lookup (.dentry path) = some ddd → IsData ddd.dddType → path ≠ dh.locator →
      s'.db.lookup (.dentry path) = some ddd ∧
        ∀ heap heap' buf size offset,
          (readFile heap heap' path buf size offset).run s'.db =
            ((readFile heap heap' path buf size offset).run s.db).map
              fun result => (result.1, s'.db) := by
  intro hlaw
  obtain ⟨events, hfirst⟩ := run_overrun
  obtain ⟨s', hwrite, hwrote, -⟩ := Step.mstreamWrite_returns oneByte
    (show reusedSys.handles 0 = some _ from rfl) rfl blocksWF_reusedDb (by decide)
  have hbyte : content s'.db 1001 0 = some 7 := hwrote.written 0 7 rfl
  obtain ⟨hlookup', hreads⟩ := hlaw plainProc _ reusedSys s' 0 _ oneByte pathA
    ⟨1, 0o644, 1001, 1, 0, 0, 0, 0⟩ (hfirst.append run_reused) rfl rfl hwrite rfl rfl
    (by decide)
  have hbefore : (readFile plainHeap plainHeap pathA [9] 1 0).run reusedSys.db =
      some ((dbNotfound, 1, [0]), reusedSys.db) := rfl
  obtain ⟨code, out, hafter, hout, -⟩ := run_dbfsRead_opened plainHeap pathA
    ⟨1, 0o644, 1001, 1, 0, 0, 0, 0⟩ [9] 1 0 hwrote.wf (by decide) (by decide)
  have hread := hreads plainHeap plainHeap [9] 1 0
  rw [run_readFile plainHeap [9] 1 0 rfl hlookup', hafter, hbefore] at hread
  have hzero : out = [0] := by simpa using congrArg (Option.map fun r => r.1.2.2) hread
  have hseven := hout 0 7 (by decide) hbyte
  rw [hzero] at hseven
  exact absurd hseven (by decide)

end Mangoo.Dbfs
