import Mangoo.Foundation.Simulation
import Mangoo.Fuse.Operations

/-!
# Metadata by path

The path operations implement a map from paths to attributes.  Each opens a handle,
which copies the record, changes a field of the copy and stores the copy under the same
path, so that an operation on one path leaves the entries of all others alone.
-/

namespace Mangoo.Fuse

open Mangoo.Foundation Mangoo.Dbfs

/-! ## The attribute map -/

structure Attrs where
  type : MangooTypes
  mode : UInt32
  uid : UInt32
  gid : UInt32
  size : Int64
  mtime : Int64
  atime : Int64

namespace Attrs

def create (type : MangooTypes) (mode : UInt32) (proc : Proc) : Attrs where
  type := type
  mode := mode
  uid := proc.euid
  gid := proc.egid
  size := 0
  mtime := proc.now.toInt64
  atime := proc.now.toInt64

def record (a : Attrs) (ino : UInt64) : DentryData where
  dddType := a.type.toUInt32
  dddMode := a.mode
  dddIno := ino
  dddSize := a.size.toUInt64
  dddMtime := a.mtime.toUInt64
  dddAtime := a.atime.toUInt64
  dddUid := a.uid
  dddGid := a.gid

theorem record_create (type : MangooTypes) (mode : UInt32) (proc : Proc) (ino : UInt64) :
    (create type mode proc).record ino =
      ⟨type.toUInt32, mode, ino, 0, proc.now, proc.now, proc.euid, proc.egid⟩ := by
  have hzero : Int64.toUInt64 0 = 0 := rfl
  simp [record, create, hzero]

def stat (a : Attrs) : Stat where
  stMode := a.mode ||| fileType a.type
  stNlink := nlink a.type
  stUid := a.uid
  stGid := a.gid
  stSize := a.size
  stMtime := a.mtime
  stCtime := a.mtime
  stAtime := a.atime

end Attrs

/-- An operation on a path, with the environment it runs in. -/
inductive MetaOp where
  | mkdir (proc : Proc) (mode : UInt32)
  | create (openHeap : Heap) (proc : Proc) (mode : UInt32)
  | chmod (mode : UInt32)
  | chown (newuid newgid : UInt32)
  | utime (utb : Utimbuf)
  | truncate (offset : Int64)
  | getattr (stbuf : Stat)

def MetaOp.created : MetaOp → Option Attrs
  | .mkdir proc mode => some (.create .container mode proc)
  | .create _ proc mode => some (.create .data mode proc)
  | _ => none

/-- What the operation makes of the attributes of an entry. -/
def MetaOp.set : MetaOp → Attrs → Attrs
  | .chmod mode, a => { a with mode := mode }
  | .chown newuid newgid, a => { a with uid := newuid, gid := newgid }
  | .utime utb, a => { a with mtime := utb.modtime, atime := utb.actime }
  | .truncate offset, a => { a with size := offset }
  | _, a => a

def MetaOp.change (op : MetaOp) : Option Attrs → Option Attrs
  | none => op.created
  | some a => some (op.set a)

structure MetaCall where
  heap : Heap
  path : CStr
  op : MetaOp

/-- Without memory the call fails. -/
def MetaCall.change (call : MetaCall) (a : Option Attrs) : Option Attrs :=
  if call.heap.ok then call.op.change a else a

/-- The call is a creation of `path` that has the memory it needs. -/
def MetaCall.Creates (path : CStr) (call : MetaCall) : Prop :=
  call.path = path ∧ call.heap.ok = true ∧ call.op.created ≠ none

def newAttrs (proc : Proc) (path : CStr) : Option Attrs :=
  if path = rootPath then some (.create .container 0o644 proc) else none

/-- The attributes of a path after calls on a new store, from the calls on that path. -/
def attrsAfter (proc : Proc) (calls : List MetaCall) (path : CStr) : Option Attrs :=
  historyAt MetaCall.path MetaCall.change path (newAttrs proc path) calls

/-! ## Last values -/

/-- The last value that the calls on `path` give, `value` without such a call. -/
def lastGiven {α : Type} (given : MetaOp → Option α) (path : CStr) (calls : List MetaCall)
    (value : α) : α :=
  ((calls.filter fun call => call.path = path ∧ call.heap.ok).filterMap
    fun call => given call.op).getLastD value

def MetaOp.mode? : MetaOp → Option UInt32
  | .chmod mode => some mode
  | _ => none

def MetaOp.owner? : MetaOp → Option (UInt32 × UInt32)
  | .chown newuid newgid => some (newuid, newgid)
  | _ => none

def MetaOp.times? : MetaOp → Option Utimbuf
  | .utime utb => some utb
  | _ => none

def MetaOp.size? : MetaOp → Option Int64
  | .truncate offset => some offset
  | _ => none

/-- The attributes of an entry after further calls. -/
def Attrs.later (a : Attrs) (path : CStr) (calls : List MetaCall) : Attrs where
  type := a.type
  mode := lastGiven MetaOp.mode? path calls a.mode
  uid := (lastGiven MetaOp.owner? path calls (a.uid, a.gid)).1
  gid := (lastGiven MetaOp.owner? path calls (a.uid, a.gid)).2
  size := lastGiven MetaOp.size? path calls a.size
  mtime := (lastGiven MetaOp.times? path calls ⟨a.atime, a.mtime⟩).modtime
  atime := (lastGiven MetaOp.times? path calls ⟨a.atime, a.mtime⟩).actime

theorem lastGiven_snoc {α : Type} (given : MetaOp → Option α) (path : CStr)
    (calls : List MetaCall) (call : MetaCall) (value : α) :
    lastGiven given path (calls ++ [call]) value =
      if call.path = path ∧ call.heap.ok = true then
        (given call.op).getD (lastGiven given path calls value)
      else lastGiven given path calls value := by
  unfold lastGiven
  split_ifs with hcall
  · cases hgiven : given call.op <;> simp [hcall, hgiven]
  · simp only [not_and, Bool.not_eq_true] at hcall
    by_cases hpath : call.path = path
    · simp [hpath, hcall hpath]
    · simp [hpath]

theorem Attrs.later_snoc (a : Attrs) (path : CStr) (calls : List MetaCall)
    (call : MetaCall) :
    a.later path (calls ++ [call]) =
      if call.path = path ∧ call.heap.ok = true then call.op.set (a.later path calls)
      else a.later path calls := by
  simp only [later, lastGiven_snoc]
  split_ifs with hcall
  · cases call.op <;> simp [MetaOp.set, MetaOp.mode?, MetaOp.owner?, MetaOp.times?,
      MetaOp.size?]
  · rfl

theorem historyAt_some (a : Attrs) (path : CStr) (calls : List MetaCall) :
    historyAt MetaCall.path MetaCall.change path (some a) calls =
      some (a.later path calls) := by
  induction calls using List.reverseRecOn with
  | nil => rfl
  | append_singleton calls call ih =>
      rw [Attrs.later_snoc]
      by_cases hpath : call.path = path
      · rw [historyAt_of_eq _ _ _ _ hpath, ih]
        cases hok : call.heap.ok <;> simp [MetaCall.change, MetaOp.change, hok, hpath]
      · rw [historyAt_of_ne _ _ _ _ hpath, ih, if_neg fun h => hpath h.1]

theorem historyAt_none_iff (path : CStr) (calls : List MetaCall) :
    historyAt MetaCall.path MetaCall.change path none calls = none ↔
      ∀ call ∈ calls, ¬ call.Creates path := by
  induction calls using List.reverseRecOn with
  | nil => simp [historyAt]
  | append_singleton calls call ih =>
      have hsnoc : (∀ c ∈ calls ++ [call], ¬ c.Creates path) ↔
          (∀ c ∈ calls, ¬ c.Creates path) ∧ ¬ call.Creates path := by
        simp only [List.forall_mem_append, List.forall_mem_singleton]
      rw [hsnoc, ← ih]
      by_cases hpath : call.path = path
      · rw [historyAt_of_eq _ _ _ _ hpath]
        cases historyAt MetaCall.path MetaCall.change path none calls <;>
          cases hok : call.heap.ok <;>
          simp [MetaCall.change, MetaOp.change, MetaCall.Creates, hok, hpath]
      · rw [historyAt_of_ne _ _ _ _ hpath]
        simp [MetaCall.Creates, hpath]

theorem attrsAfter_creation {proc : Proc} {calls : List MetaCall} {path : CStr}
    {call : MetaCall} (hnone : attrsAfter proc calls path = none)
    (hcreates : call.Creates path) :
    attrsAfter proc (calls ++ [call]) path = call.op.created := by
  obtain ⟨hpath, hok, -⟩ := hcreates
  rw [attrsAfter] at hnone ⊢
  rw [historyAt_of_eq _ _ _ _ hpath, hnone, MetaCall.change, if_pos hok]
  rfl

theorem attrsAfter_append {proc : Proc} {calls : List MetaCall} {path : CStr} {a : Attrs}
    (hsome : attrsAfter proc calls path = some a) (more : List MetaCall) :
    attrsAfter proc (calls ++ more) path = some (a.later path more) := by
  rw [attrsAfter] at hsome ⊢
  rw [← historyAt_some, ← hsome]
  simp [historyAt]

/-! ## The calls on a store -/

/-- The file that `mf_create` opens is released at once. -/
def MetaCall.prog (fuel : Nat) (dsp : DbfsStore) (call : MetaCall) : DbProg DbfsStore := do
  let calls := dbfsCalls call.heap fuel
  match call.op with
  | .mkdir proc mode =>
      let (_, dsp) ← mfMkdir call.heap proc dsp call.path mode
      return dsp
  | .create openHeap proc mode =>
      let (error, fh, dsp) ← mfCreate call.heap openHeap proc dsp call.path mode
      if error = 0 then
        let _ ← mfRelease fh
      return dsp
  | .chmod mode =>
      let _ ← mfChmod calls call.path mode
      return dsp
  | .chown newuid newgid =>
      let _ ← mfChown calls call.path newuid newgid
      return dsp
  | .utime utb =>
      let _ ← mfUtime calls call.path utb
      return dsp
  | .truncate offset =>
      let _ ← mfTruncate calls call.path offset
      return dsp
  | .getattr stbuf =>
      let _ ← mfGetattr calls call.path stbuf
      return dsp

/-- A new store is made and opened, and the calls run on it one after the other. -/
def metaRun (heap : Heap) (proc : Proc) (fuel : Nat) (calls : List MetaCall) :
    DbProg (Option DbfsStore) := do
  let _ ← mkdbfs heap proc
  match ← dbfsInitstore heap with
  | (_, none) => return none
  | (_, some dsp) =>
      let dsp ← calls.foldlM (MetaCall.prog fuel) dsp
      return some dsp

/-! ## What the calls do to the store -/

/-- The record under `path` is changed, if there is one and memory for a handle. -/
def updateEntry (heap : Heap) (path : CStr) (update : DentryData → DentryData) (db : Db) : Db :=
  if heap.ok then
    match db.lookup (.dentry path) with
    | none => db
    | some ddd => db.insert (.dentry path) (update ddd)
  else db

/-- A record is made under `path`, if there is none and memory for its key. -/
def createEntry (heap : Heap) (path : CStr) (ddd : DentryData) (db : Db) : Db :=
  if heap.ok then
    match db.lookup (.dentry path) with
    | none => db.insert (.dentry path) ddd
    | some _ => db
  else db

variable {heap : Heap} {path : CStr} {db : Db}

theorem updateEntry_of_error {error : Int} (update : DentryData → DentryData)
    (h : Opened heap db path (.error error)) : updateEntry heap path update db = db := by
  cases h with
  | enomem hok => simp [updateEntry, hok]
  | enoent hok hlookup => simp [updateEntry, hlookup]

theorem updateEntry_of_handle {handle : DbfsHandle} (update : DentryData → DentryData)
    (h : Opened heap db path (.ok handle)) :
    handle.attrDdk.ddkPath = path ∧
      updateEntry heap path update db =
        db.insert (.dentry path) (update handle.attrDdd) := by
  cases h with
  | handle hok hlookup =>
      refine ⟨rfl, ?_⟩
      rw [updateEntry, if_pos hok, hlookup]
      rfl

theorem run_open_then {fuel : Nat} {prog : DbProg Int} {k : Except Int DbfsHandle → DbProg Int}
    {update : DentryData → DentryData}
    (hprog : prog = (dbfsCalls heap fuel).mangooOpen path .attr >>= k)
    (herror : ∀ error, k (.error error) = pure (-error))
    (hhandle : ∀ handle : DbfsHandle, (k (.ok handle)).run db =
      some (0, db.insert (.dentry handle.attrDdk.ddkPath) (update handle.attrDdd))) :
    ∃ error, prog.run db = some (error, updateEntry heap path update db) := by
  obtain ⟨result, hopened, hrun⟩ := run_mangooOpen heap fuel db path
  rw [hprog, Prog.run_bind, hrun, Option.bind_some]
  cases result with
  | error error =>
      rw [updateEntry_of_error _ hopened]
      exact ⟨-error, by rw [herror, Prog.run_pure]⟩
  | ok handle =>
      obtain ⟨rfl, heq⟩ := updateEntry_of_handle update hopened
      rw [heq]
      exact ⟨0, hhandle handle⟩

theorem run_mfChmod (heap : Heap) (fuel : Nat) (path : CStr) (mode : UInt32) (db : Db) :
    ∃ error, (mfChmod (dbfsCalls heap fuel) path mode).run db =
      some (error, updateEntry heap path (fun ddd => { ddd with dddMode := mode }) db) := by
  refine run_open_then rfl (fun _ => rfl) ?_
  intro handle
  simp [dbfsCalls, dbfsChmod, run_setAttr]

theorem run_mfChown (heap : Heap) (fuel : Nat) (path : CStr) (newuid newgid : UInt32)
    (db : Db) :
    ∃ error, (mfChown (dbfsCalls heap fuel) path newuid newgid).run db =
      some (error, updateEntry heap path
        (fun ddd => { ddd with dddUid := newuid, dddGid := newgid }) db) := by
  refine run_open_then rfl (fun _ => rfl) ?_
  intro handle
  simp [dbfsCalls, dbfsChown, run_setAttr]

theorem run_mfUtime (heap : Heap) (fuel : Nat) (path : CStr) (utb : Utimbuf) (db : Db) :
    ∃ error, (mfUtime (dbfsCalls heap fuel) path utb).run db =
      some (error, updateEntry heap path (fun ddd =>
        { ddd with dddMtime := utb.modtime.toUInt64, dddAtime := utb.actime.toUInt64 }) db) := by
  refine run_open_then rfl (fun _ => rfl) ?_
  intro handle
  simp [dbfsCalls, dbfsSetmtime, dbfsSetatime, run_setAttr, dbfsClose, Finmap.insert_insert]

/-- The truncation loop is never entered, so any fuel will do. -/
theorem run_mfTruncate (heap : Heap) (fuel : Nat) (path : CStr) (offset : Int64) (db : Db) :
    ∃ error, (mfTruncate (dbfsCalls heap fuel) path offset).run db =
      some (error, updateEntry heap path
        (fun ddd => { ddd with dddSize := offset.toUInt64 }) db) := by
  refine run_open_then rfl (fun _ => rfl) ?_
  intro handle
  simp [dbfsCalls, run_dbfsSetsize, dbfsClose]

theorem run_mfGetattr (heap : Heap) (fuel : Nat) (path : CStr) (stbuf : Stat) (db : Db)
    (htypes : ∀ ddd, db.lookup (.dentry path) = some ddd →
      ∃ mt, MangooTypes.ofUInt32? ddd.dddType = some mt) :
    ∃ result, (mfGetattr (dbfsCalls heap fuel) path stbuf).run db = some (result, db) := by
  obtain ⟨result, hopened, hrun⟩ := run_mangooOpen heap fuel db path
  cases hopened with
  | enomem hok => exact ⟨_, run_mfGetattr_error heap fuel stbuf hrun⟩
  | enoent hok hlookup => exact ⟨_, run_mfGetattr_error heap fuel stbuf hrun⟩
  | handle hok hlookup =>
      obtain ⟨mt, htype⟩ := htypes _ hlookup
      exact ⟨_, run_mfGetattr_handle heap fuel stbuf hrun htype⟩

theorem run_dbfsCreate (heap : Heap) (proc : Proc) (dsp : DbfsStore) (path : CStr)
    (mode : UInt32) (mt : MangooTypes) (db : Db) :
    ∃ error dsp', (dbfsCreate heap proc dsp path mode mt).run db =
      some ((error, dsp'), createEntry heap path
        ((Attrs.create mt mode proc).record dsp.lastInode) db) := by
  unfold dbfsCreate createEntry
  cases hok : heap.ok with
  | false => exact ⟨_, _, rfl⟩
  | true =>
      simp only [Bool.true_eq_false, if_false, if_true, Prog.run_bind, dbfsCreateAttr,
        Prog.run_putRec]
      cases hlookup : db.lookup (.dentry path) with
      | none =>
          rw [store_noOverwrite_of_none _ hlookup]
          simp [Attrs.record_create]
      | some ddd =>
          rw [store_noOverwrite_of_some _ hlookup]
          simp [dbKeyexist]

theorem run_dbfsSopen_returns (heap : Heap) (path : CStr) (db : Db) :
    ∃ result, (dbfsOpen heap path .stream).run db = some (result, db) := by
  unfold dbfsOpen dbfsSopen dbfsCreatehandle
  cases hok : heap.ok with
  | false => exact ⟨_, rfl⟩
  | true =>
      cases hlookup : db.lookup (.dentry path) with
      | none => simp [initHandle, run_dbfsReadAttr_of_none _ hlookup, enoent]
      | some ddd => simp [initHandle, run_dbfsReadAttr_of_some hlookup]

theorem run_mfCreate (heap openHeap : Heap) (proc : Proc) (dsp : DbfsStore) (path : CStr)
    (mode : UInt32) (db : Db) :
    ∃ error fh dsp', (mfCreate heap openHeap proc dsp path mode).run db =
      some ((error, fh, dsp'), createEntry heap path
        ((Attrs.create .data mode proc).record dsp.lastInode) db) := by
  obtain ⟨error, dsp', hcreate⟩ := run_dbfsCreate heap proc dsp path mode .data db
  rw [mfCreate, Prog.run_bind, hcreate]
  by_cases hzero : error = 0
  · obtain ⟨⟨code, fh⟩, hopen⟩ := run_dbfsSopen_returns openHeap path
      (createEntry heap path ((Attrs.create .data mode proc).record dsp.lastInode) db)
    cases fh <;> simp [hzero, hopen]
  · simp [hzero]

theorem run_mfRelease (fh : Option DbfsHandle) (db : Db) :
    ∃ error, (mfRelease fh).run db = some (error, db) := by
  cases fh <;> simp [mfRelease, dbfsClose]

/-! ## The store implements the map -/

/-- The record, if any, stores the attributes, if any. -/
inductive Stored : Option Attrs → Option DentryData → Prop
  | nothing : Stored none none
  | entry (a : Attrs) (ino : UInt64) : Stored (some a) (some (a.record ino))

def Implements (M : CStr → Option Attrs) (db : Db) : Prop :=
  ∀ path, Stored (M path) (db.lookup (.dentry path))

theorem Stored.eq_none {a : Option Attrs} (h : Stored a none) : a = none := by
  cases h
  rfl

theorem Stored.eq_some {a : Option Attrs} {ddd : DentryData} (h : Stored a (some ddd)) :
    ∃ b ino, a = some b ∧ ddd = Attrs.record b ino := by
  cases h with
  | entry b ino => exact ⟨b, ino, rfl, rfl⟩

theorem ofUInt32?_record (a : Attrs) (ino : UInt64) :
    MangooTypes.ofUInt32? (a.record ino).dddType = some a.type := by
  cases htype : a.type <;> simp [Attrs.record, htype, MangooTypes.toUInt32,
    MangooTypes.ofUInt32?]

theorem Stored.map {a : Option Attrs} {found : Option DentryData} {f : Attrs → Attrs}
    {update : DentryData → DentryData} (h : Stored a found)
    (hf : ∀ a ino, (f a).record ino = update (a.record ino)) :
    Stored (a.map f) (found.map update) := by
  cases h with
  | nothing => exact .nothing
  | entry a ino =>
      rw [Option.map_some, Option.map_some, ← hf]
      exact .entry _ _

theorem Stored.or {a : Option Attrs} {found : Option DentryData} (h : Stored a found)
    (b : Attrs) (ino : UInt64) :
    Stored (a.or (some b)) (found.or (some (b.record ino))) := by
  cases h with
  | nothing => exact .entry b ino
  | entry a ino => exact .entry a ino

theorem lookup_updateEntry (heap : Heap) (path : CStr) (update : DentryData → DentryData)
    (db : Db) :
    (updateEntry heap path update db).lookup (.dentry path) =
      if heap.ok then (db.lookup (.dentry path)).map update
      else db.lookup (.dentry path) := by
  unfold updateEntry
  cases hok : heap.ok with
  | false => rfl
  | true => cases hlookup : db.lookup (.dentry path) <;> simp [hlookup]

theorem lookup_createEntry (heap : Heap) (path : CStr) (ddd : DentryData) (db : Db) :
    (createEntry heap path ddd db).lookup (.dentry path) =
      if heap.ok then (db.lookup (.dentry path)).or (some ddd)
      else db.lookup (.dentry path) := by
  unfold createEntry
  cases hok : heap.ok with
  | false => rfl
  | true => cases hlookup : db.lookup (.dentry path) <;> simp [hlookup]

variable {M : CStr → Option Attrs} {call : MetaCall}

theorem Implements.changeAt {db' : Db} (hM : Implements M db)
    (hother : ∀ path, path ≠ call.path →
      db'.lookup (.dentry path) = db.lookup (.dentry path))
    (hself : Stored (call.change (M call.path)) (db'.lookup (.dentry call.path))) :
    Implements (Foundation.changeAt MetaCall.path MetaCall.change M call) db' := by
  intro path
  by_cases hpath : path = call.path
  · subst hpath
    simpa [Foundation.changeAt] using hself
  · rw [Foundation.changeAt, Function.update_of_ne hpath, hother path hpath]
    exact hM path

theorem Implements.updateEntry {f : Attrs → Attrs} {update : DentryData → DentryData}
    (hM : Implements M db) (hchange : ∀ a, call.op.change a = a.map f)
    (hf : ∀ a ino, (f a).record ino = update (a.record ino)) :
    Implements (Foundation.changeAt MetaCall.path MetaCall.change M call)
      (updateEntry call.heap call.path update db) := by
  apply hM.changeAt
  · intro path hpath
    unfold Fuse.updateEntry
    split_ifs
    · cases db.lookup (.dentry call.path) with
      | none => rfl
      | some ddd => exact Finmap.lookup_insert_of_ne _ (by simpa using hpath)
    · rfl
  · rw [lookup_updateEntry, MetaCall.change]
    split_ifs
    · rw [hchange]
      exact (hM call.path).map hf
    · exact hM call.path

theorem Implements.createEntry {b : Attrs} (hM : Implements M db)
    (hchange : ∀ a, call.op.change a = a.or (some b)) (ino : UInt64) :
    Implements (Foundation.changeAt MetaCall.path MetaCall.change M call)
      (createEntry call.heap call.path (b.record ino) db) := by
  apply hM.changeAt
  · intro path hpath
    unfold Fuse.createEntry
    split_ifs
    · cases db.lookup (.dentry call.path) with
      | none => exact Finmap.lookup_insert_of_ne _ (by simpa using hpath)
      | some ddd => rfl
    · rfl
  · rw [lookup_createEntry, MetaCall.change]
    split_ifs
    · rw [hchange]
      exact (hM call.path).or b ino
    · exact hM call.path

theorem MetaCall.simulates (fuel : Nat) (dsp : DbfsStore) (hM : Implements M db) :
    ∃ dsp' db', (call.prog fuel dsp).run db = some (dsp', db') ∧
      Implements (Foundation.changeAt MetaCall.path MetaCall.change M call) db' := by
  obtain ⟨heap, path, op⟩ := call
  unfold MetaCall.prog
  cases op with
  | mkdir proc mode =>
      obtain ⟨error, dsp', hrun⟩ := run_dbfsCreate heap proc dsp path mode .container db
      refine ⟨dsp', _, ?_, hM.createEntry (fun a => by cases a <;> rfl) dsp.lastInode⟩
      by_cases hzero : error = 0 <;> simp [mfMkdir, hrun, hzero]
  | create openHeap proc mode =>
      obtain ⟨error, fh, dsp', hrun⟩ := run_mfCreate heap openHeap proc dsp path mode db
      refine ⟨dsp', _, ?_, hM.createEntry (fun a => by cases a <;> rfl) dsp.lastInode⟩
      obtain ⟨code, hrelease⟩ := run_mfRelease fh
        (createEntry heap path ((Attrs.create .data mode proc).record dsp.lastInode) db)
      by_cases hzero : error = 0 <;> simp [hrun, hzero, hrelease]
  | chmod mode =>
      obtain ⟨error, hrun⟩ := run_mfChmod heap fuel path mode db
      refine ⟨dsp, _, Prog.run_bind_pure hrun dsp, ?_⟩
      exact hM.updateEntry (fun a => by cases a <;> rfl) (fun _ _ => rfl)
  | chown newuid newgid =>
      obtain ⟨error, hrun⟩ := run_mfChown heap fuel path newuid newgid db
      refine ⟨dsp, _, Prog.run_bind_pure hrun dsp, ?_⟩
      exact hM.updateEntry (fun a => by cases a <;> rfl) (fun _ _ => rfl)
  | utime utb =>
      obtain ⟨error, hrun⟩ := run_mfUtime heap fuel path utb db
      refine ⟨dsp, _, Prog.run_bind_pure hrun dsp, ?_⟩
      exact hM.updateEntry (fun a => by cases a <;> rfl) (fun _ _ => rfl)
  | truncate offset =>
      obtain ⟨error, hrun⟩ := run_mfTruncate heap fuel path offset db
      refine ⟨dsp, _, Prog.run_bind_pure hrun dsp, ?_⟩
      exact hM.updateEntry (fun a => by cases a <;> rfl) (fun _ _ => rfl)
  | getattr stbuf =>
      have htypes : ∀ ddd, db.lookup (.dentry path) = some ddd →
          ∃ mt, MangooTypes.ofUInt32? ddd.dddType = some mt := by
        intro ddd hlookup
        have hstored := hM path
        rw [hlookup] at hstored
        obtain ⟨a, ino, -, rfl⟩ := hstored.eq_some
        exact ⟨a.type, ofUInt32?_record a ino⟩
      obtain ⟨result, hrun⟩ := run_mfGetattr heap fuel path stbuf db htypes
      refine ⟨dsp, db, Prog.run_bind_pure hrun dsp, ?_⟩
      apply hM.changeAt (fun _ _ => rfl)
      have hsame : MetaCall.change ⟨heap, path, .getattr stbuf⟩ (M path) = M path := by
        cases hM' : M path <;> simp [MetaCall.change, MetaOp.change, MetaOp.created, MetaOp.set]
      rw [hsame]
      exact hM path

/-! ## Runs on a new store -/

theorem implements_mkdbfsDb (proc : Proc) : Implements (newAttrs proc) (mkdbfsDb proc) := by
  intro path
  by_cases hroot : path = rootPath
  · subst hroot
    have hlookup : (mkdbfsDb proc).lookup (.dentry rootPath) =
        some ((Attrs.create .container 0o644 proc).record dbfsRootIno) := by
      rw [mkdbfsDb, Finmap.lookup_insert_of_ne _ (by simp), Finmap.lookup_insert,
        Attrs.record_create]
      rfl
    rw [newAttrs, if_pos rfl, hlookup]
    exact .entry _ _
  · cases hlookup : (mkdbfsDb proc).lookup (.dentry path) with
    | none =>
        rw [newAttrs, if_neg hroot]
        exact .nothing
    | some ddd => exact absurd (lookup_mkdbfsDb hlookup).1 hroot

theorem Implements.insert_fsinfo {dfd : FsinfoData} (hM : Implements M db) :
    Implements M (db.insert .fsinfo dfd) := by
  intro path
  rw [Finmap.lookup_insert_of_ne _ (by simp)]
  exact hM path

theorem run_dbfsInitstore_mkdbfsDb (proc : Proc) (hok : heap.ok = true) :
    (dbfsInitstore heap).run (mkdbfsDb proc) =
      some ((0, some ⟨dbfsRootIno⟩),
        (mkdbfsDb proc).insert .fsinfo (⟨dbfsRootIno + 1000⟩ : FsinfoData)) := by
  have hfsinfo : (mkdbfsDb proc).lookup .fsinfo = some (⟨dbfsRootIno⟩ : FsinfoData) :=
    Finmap.lookup_insert _
  simp [dbfsInitstore, hok, dbfsFetchFsinfo, fetch_of_lookup hfsinfo, dbfsUpdateFsinfo,
    dbfsCrupdFsinfo]

theorem run_metaRun (proc : Proc) (fuel : Nat) (calls : List MetaCall)
    (hok : heap.ok = true) :
    ∃ dsp db, (metaRun heap proc fuel calls).run ∅ = some (some dsp, db) ∧
      Implements (attrsAfter proc calls) db := by
  have hsim : ∀ M dsp call db, Implements M db →
      ∃ dsp' db', (MetaCall.prog fuel dsp call).run db = some (dsp', db') ∧
        Implements (changeAt MetaCall.path MetaCall.change M call) db' :=
    fun M dsp call db hM => MetaCall.simulates fuel dsp hM
  have hstart : Implements (newAttrs proc)
      ((mkdbfsDb proc).insert .fsinfo (⟨dbfsRootIno + 1000⟩ : FsinfoData)) :=
    (implements_mkdbfsDb proc).insert_fsinfo
  obtain ⟨dsp, db, hrun, himpl⟩ := Prog.run_foldlM hsim hstart ⟨dbfsRootIno⟩ calls
  refine ⟨dsp, db, ?_, ?_⟩
  · rw [metaRun, Prog.run_bind, run_mkdbfs proc hok]
    simp only [Option.bind_some, Prog.run_bind, run_dbfsInitstore_mkdbfsDb proc hok, hrun]
    rfl
  · have hfold : calls.foldl (changeAt MetaCall.path MetaCall.change) (newAttrs proc) =
        attrsAfter proc calls := by
      funext path
      exact foldl_changeAt _ _ _ _ _
    rw [← hfold]
    exact himpl

/-- The result of `mf_getattr` and what it leaves in `stbuf`. -/
def reported (stbuf : Stat) : Option Attrs → Int × Stat
  | none => (-enoent, stbuf)
  | some a => (0, a.stat)

theorem statOf_record (a : Attrs) (ino : UInt64) :
    statOf a.type (a.record ino) = a.stat := by
  simp [statOf, Attrs.record, Attrs.stat]

theorem Implements.run_mfGetattr (hM : Implements M db) (hok : heap.ok = true) (fuel : Nat)
    (path : CStr) (stbuf : Stat) :
    (mfGetattr (dbfsCalls heap fuel) path stbuf).run db =
      some (reported stbuf (M path), db) := by
  obtain ⟨result, hopened, hrun⟩ := run_mangooOpen heap fuel db path
  have hstored := hM path
  cases hopened with
  | enomem hfail => simp [hok] at hfail
  | enoent _ hlookup =>
      rw [hlookup] at hstored
      rw [hstored.eq_none]
      exact run_mfGetattr_error heap fuel stbuf hrun
  | handle _ hlookup =>
      rw [hlookup] at hstored
      obtain ⟨a, ino, ha, rfl⟩ := hstored.eq_some
      rw [ha, reported, ← statOf_record a ino]
      exact run_mfGetattr_handle heap fuel stbuf hrun (ofUInt32?_record a ino)

/-- After any calls on a new store `mf_getattr` reports what the attribute map holds: nothing
for a path that was never created, and otherwise the attributes of the creation with the
last values given since. -/
theorem metadata_refines_map (proc : Proc) (fuel : Nat) (calls : List MetaCall)
    (hok : heap.ok = true) :
    (∃ dsp db, (metaRun heap proc fuel calls).run ∅ = some (some dsp, db) ∧
      ∀ (heap' : Heap) (path : CStr) (stbuf : Stat), heap'.ok = true →
        (mfGetattr (dbfsCalls heap' fuel) path stbuf).run db =
          some (reported stbuf (attrsAfter proc calls path), db)) ∧
    (∀ path, attrsAfter proc calls path = none ↔
      path ≠ rootPath ∧ ∀ call ∈ calls, ¬ call.Creates path) ∧
    (∀ path call, attrsAfter proc calls path = none → call.Creates path →
      attrsAfter proc (calls ++ [call]) path = call.op.created) ∧
    ∀ path a more, attrsAfter proc calls path = some a →
      attrsAfter proc (calls ++ more) path = some (a.later path more) := by
  refine ⟨?_, ?_, ?_, ?_⟩
  · obtain ⟨dsp, db, hrun, himpl⟩ := run_metaRun proc fuel calls hok
    refine ⟨dsp, db, hrun, ?_⟩
    intro heap' path stbuf hok'
    exact himpl.run_mfGetattr hok' fuel path stbuf
  · intro path
    unfold attrsAfter newAttrs
    split_ifs with hroot
    · simp [historyAt_some, hroot]
    · simp [historyAt_none_iff, hroot]
  · intro path call hnone hcreates
    exact attrsAfter_creation hnone hcreates
  · intro path a more hsome
    exact attrsAfter_append hsome more

/-- A file is created with mode `0600`, its mode is changed, its length set and a second
creation of it fails. -/
def fourCalls : List MetaCall :=
  [⟨plainHeap, pathA, .create plainHeap plainProc 0o600⟩, ⟨plainHeap, pathA, .chmod 0o640⟩,
    ⟨plainHeap, pathA, .truncate 9⟩, ⟨plainHeap, pathA, .mkdir plainProc 0o755⟩]

theorem metadata_refines_map_four :
    ∃ dsp db, (metaRun plainHeap plainProc 0 fourCalls).run ∅ = some (some dsp, db) ∧
      (mfGetattr (dbfsCalls plainHeap 0) pathA ⟨0, 0, 0, 0, 0, 0, 0, 0⟩).run db =
          some ((0, ⟨0o100640, 1, 0, 0, 9, 0, 0, 0⟩), db) ∧
        (mfGetattr (dbfsCalls plainHeap 0) pathB ⟨0, 0, 0, 0, 0, 0, 0, 0⟩).run db =
          some ((-enoent, ⟨0, 0, 0, 0, 0, 0, 0, 0⟩), db) := by
  obtain ⟨⟨dsp, db, hrun, hreports⟩, -⟩ :=
    @metadata_refines_map plainHeap plainProc 0 fourCalls rfl
  exact ⟨dsp, db, hrun, hreports plainHeap pathA _ rfl, hreports plainHeap pathB _ rfl⟩

end Mangoo.Fuse
