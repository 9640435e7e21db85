import Mangoo.Dbfs.SharedWrites

/-!
# Blocks without a file

Whole operations one after the other, each through a handle of its own: every
block record should lie inside a data file.  `dbfs_truncateblocks`, the only code
that removes blocks, never does, so an operation that gives up part of a file
leaves the blocks of that part behind.
-/

namespace Mangoo.Dbfs

open Mangoo.Foundation

/-! ## Whole operations -/

inductive FileOp where
  | initstore (heap : Heap)
  | closestore
  | create (heap : Heap) (proc : Proc) (locator : CStr) (mode : UInt32) (mt : MangooTypes)
  | write (heap : Heap) (locator : CStr) (call : WriteCall)
  | setsize (heap : Heap) (fuel : Nat) (locator : CStr) (size : UInt64)
  | delete (heap : Heap) (fuel : Nat) (locator : CStr)

/-- The calls of an operation, with `error` the result of the main one. -/
def FileOp.calls (id : Nat) (error : Int) : FileOp → List (Op × Int)
  | .initstore heap => [(.mangooInitstore heap, error)]
  | .closestore => [(.mangooClosestore, error)]
  | .create heap proc locator mode mt => [(.mangooCreate heap proc locator mode mt, error)]
  | .write heap locator call =>
      [(.mangooOpen heap locator .stream id, 0),
        (.handleCall id (.mstreamWrite call), error), (.mangooClose id, 0)]
  | .setsize heap fuel locator size =>
      [(.mangooOpen heap locator .attr id, 0),
        (.handleCall id (.mattrSetsize fuel size), error), (.mangooClose id, 0)]
  | .delete heap fuel locator => [(.mangooDelete heap fuel locator, error)]

def FileOp.Runs (s : Sys) (op : FileOp) (s' : Sys) : Prop :=
  ∃ id error, Run (Step False) s (op.calls id error) s'

/-- Streams are opened on data files. -/
def OwnKind (s : Sys) : FileOp → Prop
  | .write _ locator _ => ∀ ddd, s.db.lookup (.dentry locator) = some ddd →
      IsData ddd.dddType
  | _ => True

/-! ## Blocks and their files -/

/-- The data file at `path` has the position `off` of the blocks of `ino`. -/
def Owns (db : Db) (path : CStr) (ino off : UInt64) : Prop :=
  ∃ ddd, db.lookup (.dentry path) = some ddd ∧ IsData ddd.dddType ∧ ddd.dddIno = ino ∧
    off < ddd.dddSize

def NoOrphans (db : Db) : Prop :=
  ∀ ino off, Key.block ino off ∈ db → ∃ path, Owns db path ino off

/-- The file at `path` has no block from `size` on that is not another file's too. -/
def FreeFrom (db : Db) (path : CStr) (size : UInt64) : Prop :=
  ∀ ino off, Key.block ino off ∈ db → Owns db path ino off → size ≤ off →
    ∃ other, other ≠ path ∧ Owns db other ino off

/-- A write's range does not wrap around, and an operation that gives up part of a
file finds no block in that part. -/
def GivesUpNoBlock (s : Sys) : FileOp → Prop
  | .write _ _ call => call.Fits
  | .setsize _ _ locator size => FreeFrom s.db locator size
  | .delete heap _ locator => ∀ ddd, s.db.lookup (.dentry locator) = some ddd →
      (IsData ddd.dddType → FreeFrom s.db locator 0) ∧
        (IsContainer ddd.dddType → LooksEmpty s.db locator →
          ∀ path, deldKey heap s.db locator = .dentry path → FreeFrom s.db path 0)
  | _ => True

variable {db db' : Db} {path : CStr} {ddd : DentryData} {ino off : UInt64} {s s' : Sys}

theorem Owns.congr (h : Owns db path ino off)
    (hsame : db'.lookup (.dentry path) = db.lookup (.dentry path)) :
    Owns db' path ino off := by
  obtain ⟨ddd, hlookup, hrest⟩ := h
  exact ⟨ddd, by rw [hsame, hlookup], hrest⟩

theorem NoOrphans.congr (h : NoOrphans db)
    (hdentry : ∀ path, db'.lookup (.dentry path) = db.lookup (.dentry path))
    (hblock : ∀ ino off, Key.block ino off ∈ db' → Key.block ino off ∈ db) :
    NoOrphans db' := by
  intro ino off hmem
  obtain ⟨path, howns⟩ := h ino off (hblock ino off hmem)
  exact ⟨path, howns.congr (hdentry path)⟩

theorem NoOrphans.entry_iff (h : NoOrphans db) (path : CStr)
    (hblock : ∀ ino off, Key.block ino off ∈ db' ↔ Key.block ino off ∈ db)
    (hother : ∀ other, other ≠ path →
      db'.lookup (.dentry other) = db.lookup (.dentry other)) :
    NoOrphans db' ↔ ∀ ino off, Key.block ino off ∈ db → Owns db path ino off →
      Owns db' path ino off ∨ ∃ other, other ≠ path ∧ Owns db other ino off := by
  constructor
  · intro hafter ino off hmem _
    obtain ⟨owner, howns⟩ := hafter ino off ((hblock ino off).mpr hmem)
    by_cases heq : owner = path
    · left
      rw [← heq]
      exact howns
    · exact .inr ⟨owner, heq, howns.congr (hother owner heq).symm⟩
  · intro hkept ino off hmem
    rw [hblock] at hmem
    obtain ⟨owner, howns⟩ := h ino off hmem
    by_cases heq : owner = path
    · subst heq
      rcases hkept ino off hmem howns with howns' | ⟨other, hne, howns'⟩
      · exact ⟨owner, howns'⟩
      · exact ⟨other, howns'.congr (hother other hne)⟩
    · exact ⟨owner, howns.congr (hother owner heq)⟩

theorem NoOrphans.erase_dentry_iff (h : NoOrphans db) :
    NoOrphans (db.erase (.dentry path)) ↔ FreeFrom db path 0 := by
  have hgone : ∀ ino off, ¬ Owns (db.erase (.dentry path)) path ino off := by
    rintro ino off ⟨ddd, hlookup, -⟩
    rw [Finmap.lookup_erase] at hlookup
    cases hlookup
  rw [h.entry_iff path]
  · simp [FreeFrom, hgone]
  · intro ino off
    rw [Finmap.mem_erase]
    simp
  · intro other hne
    exact Finmap.lookup_erase_ne (by simpa using hne)

theorem NoOrphans.erase_of_not_dentry {key : Key} (h : NoOrphans db)
    (hkey : ∀ path, key ≠ .dentry path) : NoOrphans (db.erase key) := by
  apply h.congr
  · intro path
    exact Finmap.lookup_erase_ne (hkey path).symm
  · intro ino off hmem
    exact (Finmap.mem_erase.mp hmem).2

theorem NoOrphans.insert_dentry_iff (h : NoOrphans db) :
    NoOrphans (db.insert (.dentry path) ddd) ↔
      ∀ ino off, Key.block ino off ∈ db → Owns db path ino off →
        Owns (db.insert (.dentry path) ddd) path ino off ∨
          ∃ other, other ≠ path ∧ Owns db other ino off := by
  apply h.entry_iff path
  · intro ino off
    rw [Finmap.mem_insert]
    simp
  · intro other hne
    exact Finmap.lookup_insert_of_ne _ (by simpa using hne)

theorem NoOrphans.create (h : NoOrphans db) (hnone : db.lookup (.dentry path) = none) :
    NoOrphans (db.insert (.dentry path) ddd) := by
  apply h.insert_dentry_iff.mpr
  rintro ino off - ⟨ddd', hlookup, -⟩
  rw [hnone] at hlookup
  cases hlookup

theorem NoOrphans.setsize_iff (h : NoOrphans db) (size : UInt64)
    (hlookup : db.lookup (.dentry path) = some ddd) :
    NoOrphans (db.insert (.dentry path) { ddd with dddSize := size }) ↔
      FreeFrom db path size := by
  have howns : ∀ ino off, Owns db path ino off →
      (Owns (db.insert (.dentry path) ({ ddd with dddSize := size } : DentryData))
        path ino off ↔ ¬ size ≤ off) := by
    rintro ino off ⟨ddd', hlookup', hdata, hino, -⟩
    rw [hlookup] at hlookup'
    cases hlookup'
    rw [UInt64.not_le]
    constructor
    · rintro ⟨ddd', hlookup', -, -, hlt⟩
      rw [Finmap.lookup_insert] at hlookup'
      cases hlookup'
      exact hlt
    · intro hlt
      exact ⟨_, Finmap.lookup_insert _, hdata, hino, hlt⟩
  rw [h.insert_dentry_iff]
  constructor
  · intro hkept ino off hmem hold hle
    apply (hkept ino off hmem hold).resolve_left
    rw [howns ino off hold]
    exact not_not.mpr hle
  · intro hfree ino off hmem hold
    rw [howns ino off hold]
    by_cases hle : size ≤ off
    · exact .inr (hfree ino off hmem hold hle)
    · exact .inl hle

theorem NoOrphans.write {call : WriteCall} (h : NoOrphans db)
    (hlookup : db.lookup (.dentry path) = some ddd) (hdata : IsData ddd.dddType)
    (hfits : call.Fits) (hwrote : WroteFile path ddd call db db') : NoOrphans db' := by
  have hsize := toNat_grown_call ddd hfits
  have howner : ∀ off : UInt64, off.toNat < max ddd.dddSize.toNat call.stop →
      Owns db' path ddd.dddIno off := by
    intro off hoff
    refine ⟨_, hwrote.stored, ?_, ?_, ?_⟩
    · rw [grown_eq]
      exact hdata
    · rw [grown_eq]
    · rw [UInt64.lt_iff_toNat_lt, hsize]
      exact hoff
  intro ino off hmem
  -- touched blocks begin before the end of the range, the others had an owner before
  by_cases htouched : ino = ddd.dddIno ∧ Meets off call.offset.toNat call.buf.length
  · obtain ⟨rfl, hmeets⟩ := htouched
    refine ⟨path, howner off ?_⟩
    have hstop := hmeets.1
    unfold WriteCall.stop
    omega
  · have hsame : db'.lookup (.block ino off) = db.lookup (.block ino off) := by
      apply hwrote.frame
      · intro offset heq hmeets
        rw [Key.block.injEq] at heq
        exact htouched ⟨heq.1, heq.2 ▸ hmeets⟩
      · simp
    have hold : Key.block ino off ∈ db := by
      rw [← Finmap.lookup_isSome, ← hsame, Finmap.lookup_isSome]
      exact hmem
    obtain ⟨owner, howns⟩ := h ino off hold
    by_cases heq : owner = path
    · subst heq
      obtain ⟨ddd', hlookup', -, hino, hlt⟩ := howns
      rw [hlookup] at hlookup'
      cases hlookup'
      subst hino
      rw [UInt64.lt_iff_toNat_lt] at hlt
      exact ⟨owner, howner off (by omega)⟩
    · refine ⟨owner, howns.congr (hwrote.frame _ ?_ (by simpa using heq))⟩
      intro offset hkey
      cases hkey

/-! ## Runs of whole operations -/

theorem exec_of_own_handle {heap : Heap} {locator : CStr} {mi : MangooInterfaces}
    {id : Nat} {call : HandleCall} {error : Int}
    (h : Run (Step False) s [(.mangooOpen heap locator mi id, 0),
      (.handleCall id call, error), (.mangooClose id, 0)] s') :
    ∃ dh dh', OpenedAt locator mi s.db dh ∧
      Prog.Exec False (call.prog dh) s.db (error, dh') s'.db := by
  obtain ⟨s₁, hopen, hrest⟩ := h.cons_inv
  obtain ⟨s₂, hcall, hclose⟩ := hrest.cons_inv
  have hdb : s'.db = s₂.db := by
    cases hclose.single_inv with
    | mangooClose hid => rfl
  cases hopen with
  | mangooOpen hstore hfree hexec =>
      obtain ⟨rfl, ⟨herror, -⟩ | ⟨-, dh, rfl, hopened⟩⟩ := exec_dbfsOpen hexec
      · exact absurd rfl herror
      · cases hcall with
        | handleCall hid hinterface hexec' =>
            simp only [Function.update_self, Option.some.injEq] at hid
            subst hid
            rw [hdb]
            exact ⟨_, _, hopened, hexec'⟩

theorem FileOp.Runs.blocksWF {op : FileOp} (h : op.Runs s s')
    (hgives : GivesUpNoBlock s op) (hwf : BlocksWF s.db) : BlocksWF s'.db := by
  obtain ⟨id, error, hrun⟩ := h
  have hfits : ∀ event ∈ op.calls id error, WritesFit event.1 := by
    cases op with
    | write heap locator call =>
        have hfits : call.Fits := hgives
        simpa [FileOp.calls, WritesFit] using hfits
    | _ => simp [FileOp.calls, WritesFit]
  apply hrun.with_mem.invariant (I := fun s => BlocksWF s.db) hwf
  rintro s event s' hwf ⟨hmem, hstep⟩
  exact hstep.blocksWF (hfits event hmem) hwf

theorem FileOp.Runs.noOrphans {op : FileOp} (h : op.Runs s s') (hkind : OwnKind s op)
    (hgives : GivesUpNoBlock s op) (hwf : BlocksWF s.db) (hnone : NoOrphans s.db) :
    NoOrphans s'.db := by
  obtain ⟨id, error, hrun⟩ := h
  cases op with
  | initstore heap =>
      cases hrun.single_inv with
      | mangooInitstore hstore hexec =>
          rcases exec_dbfsInitstore hexec with ⟨-, rfl⟩ | ⟨dfd, -, -, rfl⟩
          · exact hnone
          · apply hnone.congr
            · intro path
              exact Finmap.lookup_insert_of_ne _ (by simp)
            · intro ino off hmem
              simpa using Finmap.mem_insert.mp hmem
  | closestore =>
      cases hrun.single_inv with
      | mangooClosestore hstore => exact hnone
  | create heap proc locator mode mt =>
      cases hrun.single_inv with
      | mangooCreate hstore hexec =>
          rcases exec_dbfsCreate hexec with ⟨-, -, hfree, rfl⟩ | ⟨-, rfl, -⟩
          · exact hnone.create hfree
          · exact hnone
  | write heap locator call =>
      obtain ⟨dh, dh', hopened, hexec⟩ := exec_of_own_handle hrun
      obtain ⟨-, -, hwrote⟩ := exec_mstreamWrite hwf hgives hexec
      rw [hopened.key, Key.ddkPath_dentry] at hwrote
      exact hnone.write hopened.stored (hkind _ hopened.stored) hgives hwrote
  | setsize heap fuel locator size =>
      obtain ⟨dh, dh', hopened, hexec⟩ := exec_of_own_handle hrun
      rw [HandleCall.prog_of_attr dh rfl] at hexec
      obtain ⟨-, ⟨-, heq⟩ | ⟨hfalse, -⟩⟩ := exec_setAttr hexec
      · rw [heq, hopened.key, Key.ddkPath_dentry]
        exact (hnone.setsize_iff size hopened.stored).mpr hgives
      · exact hfalse.elim
  | delete heap fuel locator =>
      cases hrun.single_inv with
      | mangooDelete hstore hexec =>
          rcases exec_dbfsDelete hexec with
            ⟨-, rfl | ⟨ino, rfl⟩⟩ | ⟨-, -, ddd, hlookup, hcase⟩
          · exact hnone
          · exact hnone.erase_of_not_dentry (by simp)
          · obtain ⟨hdata, hcontainer⟩ := hgives ddd hlookup
            rcases hcase with ⟨htype, hempty, -, rfl⟩ | ⟨htype, -, rfl⟩
            · by_cases hkey : ∃ path, deldKey heap s.db locator = .dentry path
              · obtain ⟨path, hkey⟩ := hkey
                rw [hkey]
                exact hnone.erase_dentry_iff.mpr (hcontainer htype hempty path hkey)
              · exact hnone.erase_of_not_dentry fun path heq => hkey ⟨path, heq⟩
            · exact hnone.erase_dentry_iff.mpr (hdata htype)

/--
After any run of whole operations on a store made by `mkdbfs` every block record lies
inside a data file with its number, if no operation gives up a part of a file in
which there are blocks.
-/
theorem no_orphan_blocks (proc : Proc) (ops : List FileOp) (s : Sys)
    (hrun : Run (fun s op s' => OwnKind s op ∧ GivesUpNoBlock s op ∧ op.Runs s s')
      (Sys.closed (mkdbfsDb proc)) ops s) :
    NoOrphans s.db := by
  have hstart : NoOrphans (mkdbfsDb proc) := by
    intro ino off hmem
    rw [← Finmap.lookup_isSome, lookup_mkdbfsDb_block] at hmem
    cases hmem
  have hend : BlocksWF s.db ∧ NoOrphans s.db := by
    apply hrun.invariant (I := fun s => BlocksWF s.db ∧ NoOrphans s.db)
      ⟨blocksWF_mkdbfsDb proc, hstart⟩
    rintro s op s' ⟨hwf, hnone⟩ ⟨hkind, hgives, hruns⟩
    exact ⟨hruns.blocksWF hgives hwf, hruns.noOrphans hkind hgives hwf hnone⟩
  exact hend.2

/-! ## A file that is written and deleted -/

/-- The file `"/b"` comes and goes, and one byte is put into the file `"/a"`. -/
def writtenOps : List FileOp :=
  [.initstore plainHeap, .create plainHeap plainProc pathA 0o644 .data,
    .create plainHeap plainProc pathB 0o644 .data, .setsize plainHeap 0 pathB 9,
    .delete plainHeap 0 pathB, .write plainHeap pathA shortWrite]

def secondSys : Sys where
  db := (createdSys 1).db.insert (.dentry pathB) (⟨1, 0o644, 2, 0, 0, 0, 0, 0⟩ : DentryData)
  store := some ⟨3⟩
  handles := fun _ => none

def grownSys : Sys where
  db := secondSys.db.insert (.dentry pathB) (⟨1, 0o644, 2, 9, 0, 0, 0, 0⟩ : DentryData)
  store := some ⟨3⟩
  handles := Function.update (Function.update (Function.update (fun _ => none) 0
    (some { initHandle pathB ⟨1, 0o644, 2, 0, 0, 0, 0, 0⟩ with mhInterface := .attr })) 0
    (some { initHandle pathB ⟨1, 0o644, 2, 9, 0, 0, 0, 0⟩ with mhInterface := .attr })) 0 none

def erasedSys : Sys :=
  { grownSys with db := grownSys.db.erase (.dentry pathB) }

theorem freeFrom_of_no_block {size : UInt64} (h : ∀ ino off, db.lookup (.block ino off) = none) :
    FreeFrom db path size := by
  intro ino off hmem
  rw [← Finmap.lookup_isSome, h ino off] at hmem
  cases hmem

theorem runs_grownSys : FileOp.Runs secondSys (.setsize plainHeap 0 pathB 9) grownSys :=
  ⟨0, 0, .cons (.mangooOpen rfl rfl (Prog.exec_iff_run.mpr rfl))
    (.cons (.handleCall rfl rfl (Prog.exec_iff_run.mpr rfl)) (.single (.mangooClose rfl)))⟩

theorem runs_erasedSys : FileOp.Runs grownSys (.delete plainHeap 0 pathB) erasedSys :=
  ⟨0, 0, .single (.mangooDelete rfl (Prog.exec_iff_run.mpr rfl))⟩

def createdOpenSys : Sys where
  db := erasedSys.db
  store := some ⟨3⟩
  handles := Function.update erasedSys.handles 0
    (some (initHandle pathA ⟨1, 0o644, 1, 0, 0, 0, 0, 0⟩))

theorem run_writtenOps : ∃ s, Run (fun s op s' => OwnKind s op ∧ GivesUpNoBlock s op ∧
    op.Runs s s') (Sys.closed (mkdbfsDb plainProc)) writtenOps s ∧ s.store = some ⟨3⟩ ∧
      s.db.lookup (.dentry pathA) = some (⟨1, 0o644, 1, 1, 0, 0, 0, 0⟩ : DentryData) ∧
      (∀ path ddd, path ≠ pathA → s.db.lookup (.dentry path) = some ddd →
        ¬ IsData ddd.dddType) ∧
      Key.block 1 0 ∈ s.db := by
  have hopen : Step False erasedSys (.mangooOpen plainHeap pathA .stream 0, 0)
      createdOpenSys :=
    .mangooOpen rfl rfl (Prog.exec_iff_run.mpr rfl)
  have hwf : BlocksWF createdOpenSys.db := by
    intro ino offset record hrecord
    cases hrecord
  obtain ⟨s, hwrite, hwrote, hstore, dh, hhandles⟩ := Step.mstreamWrite_returns shortWrite
    (show createdOpenSys.handles 0 = some _ from rfl) rfl hwf fits_shortWrite
  have hid : s.handles 0 = some dh := by
    rw [hhandles]
    rfl
  have hbyte : content s.db 1 0 = some 8 := hwrote.written 0 8 rfl
  have hblock : Key.block 1 (blockBase 0) ∈ s.db := by
    rw [← content_isSome_iff hwrote.wf (by decide), hbyte]
    rfl
  have hothers : ∀ path ddd, path ≠ pathA → s.db.lookup (.dentry path) = some ddd →
      ¬ IsData ddd.dddType := by
    intro path ddd hne hlookup
    rw [hwrote.frame (.dentry path) (by simp) (by simpa [initHandle] using hne)] at hlookup
    have hold : (mkdbfsDb plainProc).lookup (.dentry path) = some ddd := by
      have hgrown := lookup_of_lookup_erase hlookup
      have hpath : path ≠ pathB := by
        rintro rfl
        rw [createdOpenSys, erasedSys, Finmap.lookup_erase] at hlookup
        cases hlookup
      rwa [grownSys, Finmap.lookup_insert_of_ne _ (by simpa using hpath), secondSys,
        Finmap.lookup_insert_of_ne _ (by simpa using hpath), createdSys,
        Finmap.lookup_insert_of_ne _ (by simpa using hne), startedSys,
        Finmap.lookup_insert_of_ne _ (by simp)] at hgrown
    obtain ⟨-, rfl⟩ := lookup_mkdbfsDb hold
    intro hdata
    cases hdata
  have hkind : OwnKind erasedSys (.write plainHeap pathA shortWrite) := by
    intro ddd hlookup
    cases hlookup
    rfl
  have hstored : s.db.lookup (.dentry pathA) =
      some (⟨1, 0o644, 1, 1, 0, 0, 0, 0⟩ : DentryData) := hwrote.stored
  have hsecond : Step False (createdSys 1)
      (.mangooCreate plainHeap plainProc pathB 0o644 .data, 0) secondSys :=
    .mangooCreate rfl (Prog.exec_iff_run.mpr rfl)
  have hfree : GivesUpNoBlock grownSys (.delete plainHeap 0 pathB) := by
    rintro ddd ⟨⟩
    exact ⟨fun _ => freeFrom_of_no_block fun _ _ => rfl, fun hdir => by cases hdir⟩
  exact ⟨_, .cons ⟨trivial, trivial, 0, 0, .single step_start⟩
    (.cons ⟨trivial, trivial, 0, 0, .single step_create_file⟩
      (.cons ⟨trivial, trivial, 0, 0, .single hsecond⟩
        (.cons ⟨trivial, freeFrom_of_no_block fun _ _ => rfl, runs_grownSys⟩
          (.cons ⟨trivial, hfree, runs_erasedSys⟩ (.single ⟨hkind, fits_shortWrite, 0, 0,
            .cons hopen (.cons hwrite (.single (.mangooClose hid)))⟩))))),
    hstore, hstored, hothers, hblock⟩

theorem no_orphan_blocks_written : ∃ s : Sys, NoOrphans s.db ∧ Key.block 1 0 ∈ s.db := by
  obtain ⟨s, hrun, -, -, -, hblock⟩ := run_writtenOps
  exact ⟨s, no_orphan_blocks plainProc writtenOps s hrun, hblock⟩

/-- The block of a deleted file stays. -/
theorem deleted_file_leaves_block :
    ¬ ∀ (proc : Proc) (ops : List FileOp) (s : Sys),
      Run (fun s op s' => OwnKind s op ∧ op.Runs s s') (Sys.closed (mkdbfsDb proc)) ops s →
        NoOrphans s.db := by
  intro hlaw
  obtain ⟨s, hrun, hstore, hlookup, hothers, hblock⟩ := run_writtenOps
  have hdelete : Step False s (.mangooDelete plainHeap 0 pathA, 0)
      { s with db := s.db.erase (.dentry pathA) } :=
    .mangooDelete hstore (Prog.exec_iff_run.mpr
      (run_dbfsDelete_data 0 rfl (by decide) hlookup rfl (by decide)))
  have hruns : FileOp.Runs s (.delete plainHeap 0 pathA)
      { s with db := s.db.erase (.dentry pathA) } :=
    ⟨0, 0, .single hdelete⟩
  have hkind : OwnKind s (.delete plainHeap 0 pathA) := trivial
  have hshort : Run (fun s op s' => OwnKind s op ∧ FileOp.Runs s op s')
      (Sys.closed (mkdbfsDb plainProc)) writtenOps s :=
    hrun.mono fun s op s' hstep => ⟨hstep.1, hstep.2.2⟩
  have hnone : NoOrphans (s.db.erase (.dentry pathA)) :=
    hlaw plainProc _ _ (hshort.snoc ⟨hkind, hruns⟩)
  have hleft : Key.block 1 0 ∈ s.db.erase (.dentry pathA) :=
    Finmap.mem_erase.mpr ⟨by simp, hblock⟩
  obtain ⟨path, ddd, howner, hdata, -⟩ := hnone 1 0 hleft
  by_cases heq : path = pathA
  · rw [heq, Finmap.lookup_erase] at howner
    cases howner
  · exact hothers path ddd heq (lookup_of_lookup_erase howner) hdata

end Mangoo.Dbfs
