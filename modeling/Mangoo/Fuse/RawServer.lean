import Mangoo.Dbfs.Encoding
import Mangoo.Fuse.Refinement

/-!
# The server on bytes

The server of `mangoofuse.c` with the database as Berkeley DB keeps it: byte strings in the
order of `dbfs_bt_compare`.
-/

namespace Mangoo.Fuse

open Mangoo.Foundation Mangoo.Dbfs

structure RawSys where
  raw : RawDb (List UInt8) (List UInt8)
  store : Option DbfsStore
  handles : OpenFiles

inductive RawFuseStep : RawSys → FuseEvent → RawSys → Prop
  | mangooInitstore {s : RawSys} {heap error store raw'} : s.store = none →
      dbfsFormat.Exec False (dbfsInitstore heap) s.raw (error, store) raw' →
      RawFuseStep s (.mangooInitstore heap error) ⟨raw', store, s.handles⟩
  | mangooClosestore {s : RawSys} {dsp} : s.store = some dsp →
      RawFuseStep s .mangooClosestore ⟨s.raw, none, fun _ => none⟩
  | served {s : RawSys} {dsp call answer dsp' files' raw'} : s.store = some dsp →
      dbfsFormat.Exec False (call.serve dsp s.handles) s.raw (answer, dsp', files') raw' →
      RawFuseStep s (.served call answer) ⟨raw', some dsp', files'⟩

def RawSys.Stores (r : RawSys) (s : Sys) : Prop :=
  dbfsFormat.Holds r.raw s.db ∧ r.store = s.store ∧ r.handles = s.handles

variable {r r' : RawSys} {s s' : Sys} {event : FuseEvent}

theorem RawSys.Stores.step (h : r.Stores s) (hstep : RawFuseStep r event r') :
    ∃ s', FuseStep s event s' ∧ r'.Stores s' := by
  obtain ⟨hholds, hstore, hhandles⟩ := h
  cases hstep with
  | mangooInitstore hclosed hexec =>
      obtain ⟨db', hexec, hholds'⟩ := hholds.exec hexec
      rw [hstore] at hclosed
      exact ⟨_, .mangooInitstore hclosed (Prog.exec_iff_run.mp hexec), hholds', rfl, hhandles⟩
  | mangooClosestore hopen =>
      rw [hstore] at hopen
      exact ⟨_, .mangooClosestore hopen, hholds, rfl, rfl⟩
  | served hopen hexec =>
      obtain ⟨db', hexec, hholds'⟩ := hholds.exec hexec
      rw [hstore] at hopen
      rw [hhandles] at hexec
      exact ⟨_, .served hopen (Prog.exec_iff_run.mp hexec), hholds', rfl, rfl⟩

theorem RawSys.Stores.step_of (h : r.Stores s) (hstep : FuseStep s event s') :
    ∃ r', RawFuseStep r event r' ∧ r'.Stores s' := by
  obtain ⟨hholds, hstore, hhandles⟩ := h
  cases hstep with
  | mangooInitstore hclosed hrun =>
      obtain ⟨raw', hexec, hholds'⟩ := hholds.raw_exec (Prog.exec_iff_run.mpr hrun)
      rw [← hstore] at hclosed
      exact ⟨_, .mangooInitstore hclosed hexec, hholds', rfl, hhandles⟩
  | mangooClosestore hopen =>
      rw [← hstore] at hopen
      exact ⟨_, .mangooClosestore hopen, hholds, rfl, rfl⟩
  | served hopen hrun =>
      obtain ⟨raw', hexec, hholds'⟩ := hholds.raw_exec (Prog.exec_iff_run.mpr hrun)
      rw [← hstore] at hopen
      rw [← hhandles] at hexec
      exact ⟨_, .served hopen hexec, hholds', rfl, rfl⟩

/-- The clients keep to their rules on the database that the bytes are. -/
def RawDisciplinedStep (r : RawSys) (event : FuseEvent) (r' : RawSys) : Prop :=
  (∀ s, r.Stores s → event.Disciplined s) ∧ RawFuseStep r event r'

def RawSys.closed (raw : RawDb (List UInt8) (List UInt8)) : RawSys := ⟨raw, none, fun _ => none⟩

theorem stores_mkdbfs {heap : Heap} {proc : Proc} {raw : RawDb (List UInt8) (List UInt8)}
    (hheap : heap.ok = true) (h : dbfsFormat.Exec False (mkdbfs heap proc) [] 0 raw) :
    (RawSys.closed raw).Stores (Sys.closed (mkdbfsDb proc)) := by
  obtain ⟨db, hexec, hholds⟩ := dbfsFormat.holds_nil.exec h
  have hrun := (Prog.exec_iff_run.mp hexec).symm.trans (run_mkdbfs proc hheap)
  cases hrun
  exact ⟨hholds, rfl, rfl⟩

theorem stores_of_run {heap : Heap} {proc : Proc} {raw : RawDb (List UInt8) (List UInt8)}
    {events : List FuseEvent} (hheap : heap.ok = true)
    (hmkdbfs : dbfsFormat.Exec False (mkdbfs heap proc) [] 0 raw)
    (h : Run RawDisciplinedStep (RawSys.closed raw) events r) :
    ∃ s, Run DisciplinedStep (Sys.closed (mkdbfsDb proc)) events s ∧ r.Stores s := by
  apply h.simulate (R := fun s r => RawSys.Stores r s) (stores_mkdbfs hheap hmkdbfs)
  rintro s r event r' hstores ⟨hevent, hstep⟩
  obtain ⟨s', hstep', hstores'⟩ := hstores.step hstep
  exact ⟨s', ⟨hevent s hstores, hstep'⟩, hstores'⟩

theorem RawSys.Stores.unique (h : r.Stores s) (h' : r.Stores s') : s' = s := by
  obtain ⟨hholds, hstore, hhandles⟩ := h
  obtain ⟨hholds', hstore', hhandles'⟩ := h'
  obtain ⟨db, store, handles⟩ := s
  obtain ⟨db', store', handles'⟩ := s'
  cases hholds'.unique hholds
  cases hstore'.symm.trans hstore
  cases hhandles'.symm.trans hhandles
  rfl

theorem RawSys.Stores.run_of {events : List FuseEvent} (h : r.Stores s)
    (hrun : Run DisciplinedStep s events s') :
    ∃ r', Run RawDisciplinedStep r events r' ∧ r'.Stores s' := by
  apply hrun.simulate (R := fun r s => RawSys.Stores r s) h
  rintro r s event s' hstores ⟨hevent, hstep⟩
  obtain ⟨r', hstep', hstores'⟩ := hstores.step_of hstep
  refine ⟨r', ⟨fun s₁ hstores₁ => ?_, hstep'⟩, hstores'⟩
  rw [hstores.unique hstores₁]
  exact hevent

theorem RawSys.Stores.node_iff {number : CStr → UInt64} {A : FileSystem} (h : r.Stores s)
    (hrep : Represents number A s) (path : CStr) :
    A.node path ≠ none ↔ ∃ entry ∈ r.raw, decodeKey entry.1 = some (.dentry path) := by
  have hrecord := hrep.disk.record path
  constructor
  · intro hnode
    obtain ⟨node, hnode⟩ := Option.ne_none_iff_exists'.mp hnode
    rw [hnode] at hrecord
    obtain ⟨entry, hentry, hkey, -⟩ := h.1.stored _ _ hrecord
    exact ⟨entry, hentry, hkey⟩
  · rintro ⟨entry, hentry, hkey⟩ hnode
    obtain ⟨key, record, hkey', -, hlookup⟩ := h.1.entry entry hentry
    cases hkey.symm.trans hkey'
    rw [hnode, hlookup] at hrecord
    cases hrecord

def createEvents : List FuseEvent :=
  [.mangooInitstore plainHeap 0,
    .served ⟨plainHeap, 0, .mfCreate plainHeap plainProc pathA 0o600 0⟩ (.result 0)]

theorem run_createEvents :
    ∃ s, Run DisciplinedStep (Sys.closed (mkdbfsDb plainProc)) createEvents s := by
  refine ⟨_, .cons ⟨?_, .mangooInitstore rfl rfl⟩ (.single ⟨?_, .served rfl rfl⟩)⟩
  · intro dfd hlookup
    cases hlookup
    decide
  · exact ⟨by decide, fun dsp hdsp => ⟨_, rfl, by cases hdsp; decide⟩⟩

end Mangoo.Fuse
