import Mangoo.Dbfs.Footprints
import Mangoo.Fuse.Files

/-!
# Workers

FUSE serves requests on several threads at once, and their calls to the database interleave.
Workers whose requests are for different files do not notice each other.
-/

namespace Mangoo.Fuse

open Mangoo.Foundation Mangoo.Dbfs

/-- The request is for a file on one of the paths or for an open file.  Requests that create
entries or list them are left out. -/
def FuseOp.WorksOn (paths : CStr → Prop) : FuseOp → Prop
  | .mfOpen path _ => paths path
  | .mfGetattr path _ => paths path
  | .mfChmod path _ => paths path
  | .mfChown path _ _ => paths path
  | .mfUtime path _ => paths path
  | .mfTruncate path _ => paths path
  | .mfRemove path => paths path
  | .mfRead _ _ _ => True
  | .mfWrite _ _ _ => True
  | .mfRelease _ => True
  | .mfMkdir _ _ _ => False
  | .mfCreate _ _ _ _ _ => False
  | .listDirectory _ => False

/-- A worker serves its requests one after the other. -/
def serveAll (dsp : DbfsStore) : List FuseCall → OpenFiles → DbProg (List Answer × OpenFiles)
  | [], files => return ([], files)
  | call :: requests, files => do
      let (answer, dsp, files) ← call.serve dsp files
      let (answers, files) ← serveAll dsp requests files
      return (answer :: answers, files)

def OwnFiles (paths : CStr → Prop) (inos : UInt64 → Prop) (files : OpenFiles) : Prop :=
  ∀ fi dh, files fi = some dh → FileHandle paths inos dh

variable {paths : CStr → Prop} {inos : UInt64 → Prop} {path : CStr} {files : OpenFiles}
  {fh : Option DbfsHandle} {fi : Nat} {dh : DbfsHandle}

theorem OwnFiles.update (h : OwnFiles paths inos files) (fi : Nat)
    (hfh : ∀ dh, fh = some dh → FileHandle paths inos dh) :
    OwnFiles paths inos (Function.update files fi fh) := by
  intro fi' dh hdh
  by_cases hfi : fi' = fi
  · subst hfi
    rw [Function.update_self] at hdh
    exact hfh dh hdh
  · rw [Function.update_of_ne hfi] at hdh
    exact h fi' dh hdh

/-! ## Requests for open files -/

theorem uses_mfOpen (heap : Heap) (hpath : paths path) :
    (mfOpen heap path).Uses (FileKeys paths inos) (FileRecords inos)
      fun r => ∀ dh, r.2 = some dh → FileHandle paths inos dh := by
  apply (uses_dbfsOpen_stream heap hpath).bind
  rintro ⟨error, handle⟩ hhandle
  cases handle with
  | none => exact Prog.uses_pure nofun
  | some dh => exact Prog.uses_pure hhandle

theorem uses_envOpen {K : Key → Prop} {V : ∀ key, Rec key → Prop} (heap : Heap) :
    (envOpen heap).Uses K V fun _ => True := by
  unfold envOpen
  split_ifs
  · exact Prog.uses_pure trivial
  · exact Prog.uses_spin

theorem uses_mfRead (hfh : ∀ dh, fh = some dh → FileHandle paths inos dh) (heap : Heap)
    (buf : List UInt8) (size offset : UInt64) :
    (mfRead heap fh buf size offset).Uses (FileKeys paths inos) (FileRecords inos)
      fun _ => True := by
  apply (uses_envOpen heap).bind
  intro _ _
  cases fh with
  | none => exact Prog.uses_pure trivial
  | some dh =>
      apply (uses_dbfsRead (hfh dh rfl) heap buf size offset).bind
      rintro ⟨error, size, buf⟩ _
      dsimp only
      split_ifs
      · exact Prog.uses_pure trivial
      · exact Prog.uses_pure trivial

theorem uses_mfWrite (hfh : ∀ dh, fh = some dh → FileHandle paths inos dh) (heap : Heap)
    (buf : List UInt8) (size offset : UInt64) :
    (mfWrite heap fh buf size offset).Uses (FileKeys paths inos) (FileRecords inos)
      fun r => ∀ dh, r.2 = some dh → FileHandle paths inos dh := by
  apply (uses_envOpen heap).bind
  intro _ _
  cases fh with
  | none => exact Prog.uses_pure nofun
  | some dh =>
      apply (uses_dbfsWrite (hfh dh rfl) heap buf size offset).bind
      rintro ⟨error, size, dh⟩ hdh
      have hsome : ∀ dh', some dh = some dh' → FileHandle paths inos dh' := by
        rintro _ ⟨⟩
        exact hdh
      dsimp only
      split_ifs
      · exact Prog.uses_pure hsome
      · exact Prog.uses_pure hsome

theorem uses_mfRelease (fh : Option DbfsHandle) :
    (mfRelease fh).Uses (FileKeys paths inos) (FileRecords inos) fun _ => True := by
  cases fh with
  | none => exact Prog.uses_pure trivial
  | some dh => exact Prog.uses_pure trivial

/-! ## Requests for paths -/

theorem uses_mangooOpen (heap : Heap) (fuel : Nat) (hpath : paths path) :
    ((dbfsCalls heap fuel).mangooOpen path .attr).Uses (FileKeys paths inos) (FileRecords inos)
      fun r => ∀ dh, r = .ok dh → FileHandle paths inos dh := by
  apply (uses_dbfsOpen_attr heap hpath).bind
  rintro ⟨error, handle⟩ hhandle
  cases handle with
  | none => exact Prog.uses_pure nofun
  | some dh =>
      apply Prog.uses_pure
      rintro _ ⟨⟩
      exact hhandle dh rfl

theorem uses_open_then {α : Type} {P : α → Prop} {next : Except Int DbfsHandle → DbProg α}
    (heap : Heap) (fuel : Nat) (hpath : paths path)
    (herror : ∀ error, (next (.error error)).Uses (FileKeys paths inos) (FileRecords inos) P)
    (hok : ∀ dh, FileHandle paths inos dh →
      (next (.ok dh)).Uses (FileKeys paths inos) (FileRecords inos) P) :
    ((dbfsCalls heap fuel).mangooOpen path .attr >>= next).Uses (FileKeys paths inos)
      (FileRecords inos) P := by
  apply (uses_mangooOpen heap fuel hpath).bind
  intro result hresult
  cases result with
  | error error => exact herror error
  | ok dh => exact hok dh (hresult dh rfl)

theorem uses_mfGetattr (heap : Heap) (fuel : Nat) (hpath : paths path) (stbuf : Stat) :
    (mfGetattr (dbfsCalls heap fuel) path stbuf).Uses (FileKeys paths inos) (FileRecords inos)
      fun _ => True := by
  have hswitch : ∀ (dh : DbfsHandle) (stbuf : Stat) (type : UInt32),
      (getattrSwitch (dbfsCalls heap fuel) dh stbuf type).Uses (FileKeys paths inos)
        (FileRecords inos) fun _ => True := by
    intro dh stbuf type
    unfold getattrSwitch
    split
    · exact Prog.uses_pure trivial
    · exact Prog.uses_pure trivial
    · exact Prog.uses_pure trivial
  apply uses_open_then heap fuel hpath
  · exact fun error => Prog.uses_pure trivial
  · exact fun dh _ => hswitch dh _ _

theorem uses_mfChmod (heap : Heap) (fuel : Nat) (hpath : paths path) (mode : UInt32) :
    (mfChmod (dbfsCalls heap fuel) path mode).Uses (FileKeys paths inos) (FileRecords inos)
      fun _ => True := by
  apply uses_open_then heap fuel hpath
  · exact fun error => Prog.uses_pure trivial
  · intro dh hdh
    apply (uses_dbfsChmod hdh mode).bind
    rintro ⟨error, dh⟩ _
    dsimp only
    split_ifs
    · exact Prog.uses_pure trivial
    · exact Prog.uses_pure trivial

theorem uses_mfChown (heap : Heap) (fuel : Nat) (hpath : paths path) (newuid newgid : UInt32) :
    (mfChown (dbfsCalls heap fuel) path newuid newgid).Uses (FileKeys paths inos)
      (FileRecords inos) fun _ => True := by
  apply uses_open_then heap fuel hpath
  · exact fun error => Prog.uses_pure trivial
  · intro dh hdh
    apply (uses_dbfsChown hdh newuid newgid).bind
    rintro ⟨error, dh⟩ _
    dsimp only
    split_ifs
    · exact Prog.uses_pure trivial
    · exact Prog.uses_pure trivial

theorem uses_mfUtime (heap : Heap) (fuel : Nat) (hpath : paths path) (utb : Utimbuf) :
    (mfUtime (dbfsCalls heap fuel) path utb).Uses (FileKeys paths inos) (FileRecords inos)
      fun _ => True := by
  apply uses_open_then heap fuel hpath
  · exact fun error => Prog.uses_pure trivial
  · intro dh hdh
    apply (uses_dbfsSetmtime hdh utb.modtime.toUInt64).bind
    rintro ⟨error, dh⟩ hdh
    dsimp only
    split_ifs
    · exact Prog.uses_pure trivial
    · apply (uses_dbfsSetatime hdh utb.actime.toUInt64).bind
      rintro ⟨error, dh⟩ _
      dsimp only
      split_ifs
      · exact Prog.uses_pure trivial
      · exact Prog.uses_pure trivial

theorem uses_mfTruncate (heap : Heap) (fuel : Nat) (hpath : paths path) (offset : Int64) :
    (mfTruncate (dbfsCalls heap fuel) path offset).Uses (FileKeys paths inos) (FileRecords inos)
      fun _ => True := by
  apply uses_open_then heap fuel hpath
  · exact fun error => Prog.uses_pure trivial
  · intro dh hdh
    apply (uses_dbfsSetsize hdh fuel offset.toUInt64).bind
    exact fun _ _ => Prog.uses_pure trivial

theorem uses_mfRemove (heap : Heap) (fuel : Nat) (hpath : paths path) :
    (mfRemove heap fuel path).Uses (FileKeys paths inos) (FileRecords inos) fun _ => True := by
  apply (uses_dbfsDelete heap fuel hpath).bind
  exact fun _ _ => Prog.uses_pure trivial

/-! ## Workers -/

theorem uses_serve (call : FuseCall) (dsp : DbfsStore) (hop : call.op.WorksOn paths)
    (hfiles : OwnFiles paths inos files) :
    (call.serve dsp files).Uses (FileKeys paths inos) (FileRecords inos)
      fun r => OwnFiles paths inos r.2.2 := by
  obtain ⟨heap, fuel, op⟩ := call
  cases op with
  | mfMkdir | mfCreate | listDirectory => exact hop.elim
  | mfOpen path fi =>
      apply (uses_mfOpen heap hop).bind
      exact fun r hr => Prog.uses_pure (hfiles.update fi hr)
  | mfRead fi buf offset =>
      apply (uses_mfRead (hfiles fi) heap buf _ offset).bind
      exact fun _ _ => Prog.uses_pure hfiles
  | mfWrite fi buf offset =>
      apply (uses_mfWrite (hfiles fi) heap buf _ offset).bind
      exact fun r hr => Prog.uses_pure (hfiles.update fi hr)
  | mfRelease fi =>
      apply (uses_mfRelease (files fi)).bind
      exact fun _ _ => Prog.uses_pure (hfiles.update fi nofun)
  | mfGetattr path stbuf =>
      apply (uses_mfGetattr heap fuel hop stbuf).bind
      exact fun _ _ => Prog.uses_pure hfiles
  | mfChmod path mode =>
      apply (uses_mfChmod heap fuel hop mode).bind
      exact fun _ _ => Prog.uses_pure hfiles
  | mfChown path newuid newgid =>
      apply (uses_mfChown heap fuel hop newuid newgid).bind
      exact fun _ _ => Prog.uses_pure hfiles
  | mfUtime path utb =>
      apply (uses_mfUtime heap fuel hop utb).bind
      exact fun _ _ => Prog.uses_pure hfiles
  | mfTruncate path offset =>
      apply (uses_mfTruncate heap fuel hop offset).bind
      exact fun _ _ => Prog.uses_pure hfiles
  | mfRemove path =>
      apply (uses_mfRemove heap fuel hop).bind
      exact fun _ _ => Prog.uses_pure hfiles

theorem uses_serveAll (requests : List FuseCall) (dsp : DbfsStore)
    (hrequests : ∀ call ∈ requests, call.op.WorksOn paths) (hfiles : OwnFiles paths inos files) :
    (serveAll dsp requests files).Uses (FileKeys paths inos) (FileRecords inos)
      fun r => OwnFiles paths inos r.2 := by
  induction requests generalizing dsp files with
  | nil => exact Prog.uses_pure hfiles
  | cons call requests ih =>
      obtain ⟨hcall, hrequests⟩ := List.forall_mem_cons.mp hrequests
      apply (uses_serve call dsp hcall hfiles).bind
      intro r hr
      apply (ih r.2.1 hrequests hr).bind
      exact fun _ hfiles => Prog.uses_pure hfiles

/-! ## Workers among each other -/

/-- No request ends the process, which all workers are threads of. -/
def EnvOpens {ι : Type} (requests : ι → List FuseCall) : Prop :=
  ∀ i, ∀ call ∈ requests i, call.heap.envOpens = true

/-- Each worker has paths and inode numbers of its own. -/
structure OwnWork {ι : Type} (paths : ι → CStr → Prop) (inos : ι → UInt64 → Prop)
    (requests : ι → List FuseCall) (files : ι → OpenFiles) (db : Db) : Prop where
  envOpens : EnvOpens requests
  requests : ∀ i, ∀ call ∈ requests i, call.op.WorksOn (paths i)
  files : ∀ i, OwnFiles (paths i) (inos i) (files i)
  records : ∀ i path ddd, paths i path → db.lookup (.dentry path) = some ddd →
    FileRecord (inos i) ddd
  paths : ∀ i j path, i ≠ j → paths i path → ¬ paths j path
  inos : ∀ i j ino, i ≠ j → inos i ino → ¬ inos j ino

variable {ι : Type} [DecidableEq ι]

def startWorkers (dsp : DbfsStore) (requests : ι → List FuseCall) (files : ι → OpenFiles)
    (db : Db) : Pool ι Rec (List Answer × OpenFiles) :=
  ⟨fun i => serveAll dsp (requests i) (files i), db⟩

/--
A worker answers its requests as if it were alone on the store it was started on, with the same
calls to the database failing, and leaves the records of its files as it would have left them.
The records that no worker has are left alone.
-/
theorem workers_serve_as_alone (dsp : DbfsStore) (paths : ι → CStr → Prop)
    (inos : ι → UInt64 → Prop) (requests : ι → List FuseCall) (files : ι → OpenFiles) (db : Db)
    (log : List (ι × Option (Request Key))) (s : Pool ι Rec (List Answer × OpenFiles))
    (hwork : OwnWork paths inos requests files db)
    (hrun : Run Pool.Logged (startWorkers dsp requests files db) log s) :
    (∀ i answers files', s.threads i = .ret (answers, files') →
      ∃ alone, Prog.Outcome (serveAll dsp (requests i) (files i)) db (failures log i)
          (answers, files') alone ∧
        ∀ key, FileKeys (paths i) (inos i) key → s.db.lookup key = alone.lookup key) ∧
      ∀ key, (∀ i, ¬ FileKeys (paths i) (inos i) key) → s.db.lookup key = db.lookup key := by
  have hdisjoint : ∀ i j key, i ≠ j → FileKeys (paths i) (inos i) key →
      ¬ FileKeys (paths j) (inos j) key := by
    intro i j key hij
    cases key with
    | fsinfo => exact False.elim
    | dentry path => exact hwork.paths i j path hij
    | block ino offset => exact hwork.inos i j ino hij
  have hholding : ∀ i, Prog.Holding (FileKeys (paths i) (inos i)) (FileRecords (inos i)) db := by
    intro i key record hkey hlookup
    cases key with
    | fsinfo => trivial
    | dentry path => exact hwork.records i path record hkey hlookup
    | block ino offset => trivial
  obtain ⟨halone, hrest⟩ := Pool.asAlone_of_run hrun hdisjoint
    (fun i => uses_serveAll (requests i) dsp (hwork.requests i) (hwork.files i)) hholding
  refine ⟨fun i answers files' hdone => ?_, hrest⟩
  obtain ⟨alone, hi⟩ := halone i
  have hout : Prog.Outcome (s.threads i) alone [] (answers, files') alone := by
    rw [hdone]
    exact .ret
  have hwhole := hi.outcome hout
  rw [List.append_nil] at hwhole
  exact ⟨alone, hwhole, hi.agree⟩

def twoFilesDb : Db :=
  fileDb.insert (.dentry pathB) (⟨1, 0o644, 3, 0, 0, 0, 0, 0⟩ : DentryData)

def pathOf (i : Bool) (path : CStr) : Prop := path = if i then pathB else pathA

def inoOf (i : Bool) (ino : UInt64) : Prop := ino = if i then 3 else 2

def twoRequests : Bool → List FuseCall
  | false => [⟨plainHeap, 0, .mfChmod pathA 0o600⟩]
  | true => [⟨plainHeap, 0, .mfTruncate pathB 9⟩]

theorem envOpens_twoRequests : EnvOpens twoRequests := by
  intro i call hcall
  cases i <;> (rw [List.mem_singleton.mp hcall]; rfl)

theorem ownWork_twoRequests : OwnWork pathOf inoOf twoRequests (fun _ _ => none) twoFilesDb where
  requests i call hcall := by
    cases i <;> (rw [List.mem_singleton.mp hcall]; rfl)
  envOpens := envOpens_twoRequests
  files _ _ _ h := by cases h
  records i path ddd hpath hlookup := by
    cases i <;> (rw [hpath] at hlookup; cases hlookup; exact ⟨rfl, rfl⟩)
  paths i j path hij hi hj := by
    have := hi.symm.trans hj
    revert hij this
    cases i <;> cases j <;> decide
  inos i j ino hij hi hj := by
    have := hi.symm.trans hj
    revert hij this
    cases i <;> cases j <;> decide

theorem run_twoRequests : ∃ s, Run Pool.Logged
    (startWorkers ⟨4⟩ twoRequests (fun _ _ => none) twoFilesDb)
    [(false, none), (true, none), (false, none), (true, none)] s ∧
    s.threads false = .ret ([.result 0], fun _ => none) := by
  refine ⟨_, .cons (.call .get) <| .cons (.call .get) <| .cons (.call .put) <|
    .single (.call .put), rfl⟩

theorem workers_serve_as_alone_two : ∃ (s : Pool Bool Rec (List Answer × OpenFiles)) (alone : Db),
    s.threads false = .ret ([.result 0], fun _ => none) ∧
      Prog.Outcome (serveAll ⟨4⟩ (twoRequests false) fun _ => none) twoFilesDb []
        ([.result 0], fun _ => none) alone ∧
      s.db.lookup (.dentry pathA) = alone.lookup (.dentry pathA) := by
  obtain ⟨s, hrun, hdone⟩ := run_twoRequests
  obtain ⟨halone, -⟩ := workers_serve_as_alone ⟨4⟩ pathOf inoOf twoRequests (fun _ _ => none)
    twoFilesDb _ s ownWork_twoRequests hrun
  obtain ⟨alone, hout, hsame⟩ := halone false _ _ hdone
  exact ⟨s, alone, hdone, hout, hsame (.dentry pathA) rfl⟩

end Mangoo.Fuse
