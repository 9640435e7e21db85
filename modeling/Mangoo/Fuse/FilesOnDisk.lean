import Mangoo.Dbfs.Failures
import Mangoo.Fuse.Refinement

/-!
# Files on disk

What becomes of the file system when a program that has no file open works on one of its files.
-/

namespace Mangoo.Fuse

open Mangoo.Foundation Mangoo.Dbfs

variable {db db' : Db} {path : CStr}

/-! ## Calls without effect -/

theorem changes_envOpen {K : Key → Prop} (heap : Heap) : (envOpen heap).Changes K := by
  unfold envOpen
  split_ifs
  · exact Prog.changes_pure _
  · exact Prog.changes_spin

theorem changes_mangooOpen {K : Key → Prop} (heap : Heap) (fuel : Nat) (path : CStr)
    (mi : MangooInterfaces) : ((dbfsCalls heap fuel).mangooOpen path mi).Changes K := by
  apply (changes_dbfsOpen heap path mi).bind
  rintro ⟨error, handle⟩
  cases handle with
  | none => exact Prog.changes_pure _
  | some dh => exact Prog.changes_pure _

theorem changes_mfGetattr {K : Key → Prop} (heap : Heap) (fuel : Nat) (path : CStr)
    (stbuf : Stat) : (mfGetattr (dbfsCalls heap fuel) path stbuf).Changes K := by
  have hswitch : ∀ (dh : DbfsHandle) (stbuf : Stat) (type : UInt32),
      (getattrSwitch (dbfsCalls heap fuel) dh stbuf type).Changes K := by
    intro dh stbuf type
    unfold getattrSwitch
    split
    · exact Prog.changes_pure _
    · exact Prog.changes_pure _
    · exact Prog.changes_pure _
  apply (changes_mangooOpen heap fuel path .attr).bind
  intro result
  cases result with
  | error error => exact Prog.changes_pure _
  | ok dh => exact hswitch dh _ _

/-! ## Between two sessions -/

/-- The open files are forgotten. -/
def FileSystem.closed (A : FileSystem) : FileSystem := { A with opened := fun _ => none }

variable {number : CStr → UInt64} {A A' : FileSystem} {s : Sys} {node : FileNode}

theorem Represents.closed (h : Represents number A s) :
    Represents number A.closed (Sys.closed s.db) where
  disk := h.disk.of_opened _
  reserved := h.reserved
  fresh dsp hdsp := by cases hdsp
  handles _ := rfl
  served _ _ hopened := by cases hopened

theorem Represents.reserved_of_stays (h : Represents number A s)
    (hfsinfo : db'.lookup .fsinfo = s.db.lookup .fsinfo)
    (hfiles : ∀ path, A'.IsFile path → A.IsFile path) :
    ∃ dfd : FsinfoData, db'.lookup .fsinfo = some dfd ∧
      ∀ path, A'.IsFile path → (number path).toNat < dfd.dfdLastino.toNat := by
  obtain ⟨dfd, hlookup, hbelow⟩ := h.reserved
  exact ⟨dfd, hfsinfo.trans hlookup, fun path hfile => hbelow path (hfiles path hfile)⟩

/-! ## One file -/

theorem FileSystem.isFile_of_set {changed : FileNode} {other : CStr}
    (hnode : A.node path = some node) (htype : changed.attrs.type = node.attrs.type)
    (h : (A.set path (some changed)).IsFile other) : A.IsFile other := by
  by_cases hne : other = path
  · subst hne
    obtain ⟨changed', hchanged, hdata⟩ := h
    rw [FileSystem.set_node_self] at hchanged
    cases hchanged
    exact ⟨node, hnode, htype.symm.trans hdata⟩
  · exact (FileSystem.isFile_set_of_ne _ hne).mp h

theorem Represents.set_file {changed : FileNode} (h : Represents number A s)
    (hnone : ∀ fi, s.handles fi = none) (hnode : A.node path = some node)
    (htype : changed.attrs.type = node.attrs.type)
    (hdisk : OnDisk number (A.set path (some changed)) db')
    (hfsinfo : db'.lookup .fsinfo = s.db.lookup .fsinfo) :
    Represents number (A.set path (some changed)) ⟨db', s.store, s.handles⟩ where
  disk := hdisk
  reserved := h.reserved_of_stays hfsinfo fun _ => FileSystem.isFile_of_set hnode htype
  fresh dsp hstore other hfile :=
    h.fresh dsp hstore other (FileSystem.isFile_of_set hnode htype hfile)
  handles fi := by
    rw [hnone, FileSystem.set_opened, h.opened_none (hnone fi)]
    rfl
  served fi other hopened := by
    rw [FileSystem.set_opened, h.opened_none (hnone fi)] at hopened
    cases hopened

theorem OnDisk.writeBytes {off : Nat} {bytes : List UInt8} (h : OnDisk number A db)
    (hnode : A.node path = some node) (hdata : node.attrs.type = .data)
    (hwrote : WroteRange (number path) db db' off bytes) :
    OnDisk number (A.set path (some { node with bytes := node.bytes.overlay off bytes })) db' := by
  have hdisk : OnDisk (Function.update number path (number path))
      (A.set path (some { node with bytes := node.bytes.overlay off bytes })) db' := by
    apply h.change hwrote.wf
    · rw [hwrote.frame _ (by simp), h.lookup_some hnode]
      rfl
    · intro other _
      exact hwrote.frame _ (by simp)
    · intro other hne hfile
      apply content_congr
      intro offset
      apply hwrote.frame
      intro offset' heq
      have hsame := h.distinct other path hfile ⟨node, hnode, hdata⟩ (Key.block.inj heq).1
      exact absurd hsame hne
    · intro changed hchanged _
      cases hchanged
      exact (ByteMap.overlay_mono (h.bytes path node hnode hdata) _ _).trans hwrote.written
    · intro changed hchanged _ other hne hfile heq
      exact hne (h.distinct other path hfile ⟨node, hnode, hdata⟩ heq)
    · intro _
      exact h.paths path node hnode
  rwa [Function.update_eq_self] at hdisk

end Mangoo.Fuse
