import Mangoo.Dbfs.Paths
import Mangoo.Dbfs.System

/-!
# The namespace as a tree

Paths are flat keys, so the tree is a property of all records together: every
entry has its parent path on record as a container.  Three kinds of call can break
it, and each does so only in the states named by `KeepsTree`.
-/

namespace Mangoo.Dbfs

open Mangoo.Foundation

def pathBC : CStr := ⟨[slash, 98, slash, 99], by decide⟩

example : parentPath pathBC = pathB := by decide

def HasContainer (db : Db) (path : CStr) : Prop :=
  ∃ ddd, db.lookup (.dentry path) = some ddd ∧ IsContainer ddd.dddType

def Childless (db : Db) (path : CStr) : Prop :=
  ∀ child ddd, db.lookup (.dentry child) = some ddd → child ≠ rootPath →
    parentPath child ≠ path

def IsTree (db : Db) : Prop :=
  ∀ path ddd, db.lookup (.dentry path) = some ddd → path ≠ rootPath →
    HasContainer db (parentPath path)

/-- What a lookup of the parent guarantees to a creation. -/
def ParentExists (s : Sys) : Op → Prop
  | .mangooCreate _ _ locator _ _ => locator ≠ rootPath →
      HasContainer s.db (parentPath locator)
  | _ => True

/-- A directory's removal takes a record that is no entry's parent, and a handle
through which a record is stored still has a parent and no reason to lose its
children. -/
def KeepsTree (s : Sys) : Op → Prop
  | .mangooDelete heap _ locator => ∀ ddd, s.db.lookup (.dentry locator) = some ddd →
      IsContainer ddd.dddType → LooksEmpty s.db locator →
      ∀ path, deldKey heap s.db locator = .dentry path →
        Childless (s.db.erase (.dentry path)) path
  | .handleCall id _ => ∀ dh, s.handles id = some dh →
      (dh.locator ≠ rootPath → HasContainer s.db (parentPath dh.locator)) ∧
        (IsContainer dh.attrDdd.dddType ∨ Childless s.db dh.locator)
  | _ => True

variable {faulty : Prop} {s s' : Sys} {op : Op} {error : Int} {db db' : Db}

/-! ## Changing one entry -/

theorem HasContainer.congr {path : CStr} (h : HasContainer db path)
    (hsame : db'.lookup (.dentry path) = db.lookup (.dentry path)) :
    HasContainer db' path := by
  obtain ⟨ddd, hlookup, hcontainer⟩ := h
  exact ⟨ddd, by rw [hsame, hlookup], hcontainer⟩

theorem IsTree.congr (htree : IsTree db)
    (hsame : ∀ path, db'.lookup (.dentry path) = db.lookup (.dentry path)) :
    IsTree db' := by
  intro path ddd hlookup hroot
  rw [hsame] at hlookup
  exact (htree path ddd hlookup hroot).congr (hsame _)

theorem IsTree.insert {path : CStr} {ddd : DentryData} (htree : IsTree db)
    (hparent : path ≠ rootPath → HasContainer db (parentPath path))
    (hkind : IsContainer ddd.dddType ∨ Childless db path) :
    IsTree (db.insert (.dentry path) ddd) := by
  intro child ddd' hlookup hroot
  by_cases hself : child = path
  · subst hself
    apply (hparent hroot).congr
    exact Finmap.lookup_insert_of_ne _ (by simpa using parentPath_ne hroot)
  · rw [Finmap.lookup_insert_of_ne _ (by simpa using hself)] at hlookup
    by_cases hchild : parentPath child = path
    · rcases hkind with hcontainer | hnone
      · rw [hchild]
        exact ⟨ddd, Finmap.lookup_insert _, hcontainer⟩
      · exact absurd hchild (hnone child ddd' hlookup hroot)
    · apply (htree child ddd' hlookup hroot).congr
      exact Finmap.lookup_insert_of_ne _ (by simpa using hchild)

theorem IsTree.erase {key : Key} (htree : IsTree db)
    (hchildless : ∀ path, key = .dentry path → Childless (db.erase key) path) :
    IsTree (db.erase key) := by
  intro path ddd hlookup hroot
  apply (htree path ddd (lookup_of_lookup_erase hlookup) hroot).congr
  apply Finmap.lookup_erase_ne
  intro heq
  exact hchildless (parentPath path) heq.symm path ddd hlookup hroot rfl

theorem IsTree.childless (htree : IsTree db) {path : CStr} {ddd : DentryData}
    (hlookup : db.lookup (.dentry path) = some ddd) (hdata : ¬ IsContainer ddd.dddType) :
    Childless db path := by
  rintro child ddd' hchild hroot rfl
  obtain ⟨parent, hparent, hcontainer⟩ := htree child ddd' hchild hroot
  rw [hlookup] at hparent
  cases hparent
  exact hdata hcontainer

/-! ## Runs -/

theorem Step.isTree (h : Step faulty s (op, error) s') (hkeys : OwnKeys s)
    (htree : IsTree s.db) (hparent : ParentExists s op) (hkeeps : KeepsTree s op) :
    IsTree s'.db := by
  rcases h.entries with hsame |
      ⟨-, ⟨heap, proc, locator, mode, mt, dsp, rfl, -, hnone, hdb⟩ |
        ⟨heap, fuel, locator, ddd, rfl, hlookup, hcase⟩ |
        ⟨id, dh, call, mid, rfl, hid, hmid, hdb⟩⟩
  · exact htree.congr hsame
  · rw [hdb]
    apply htree.insert hparent
    right
    rintro child ddd hchild hroot rfl
    obtain ⟨ddd', hlookup, -⟩ := htree child ddd hchild hroot
    rw [hnone] at hlookup
    cases hlookup
  · rcases hcase with ⟨htype, hempty, hdb⟩ | ⟨htype, hdb⟩
    · rw [hdb]
      -- the record that goes need not be the directory's own
      apply htree.erase
      intro path heq
      rw [heq]
      exact hkeeps ddd hlookup htype hempty path heq
    · rw [hdb]
      apply htree.erase
      intro path heq child ddd' hchild
      cases heq
      have hdata : ¬ IsContainer ddd.dddType := by
        unfold IsContainer
        rw [htype]
        simp
      exact htree.childless hlookup hdata child ddd' (lookup_of_lookup_erase hchild)
  · obtain ⟨hhas, hkind⟩ := hkeeps dh hid
    have hmidTree := htree.congr hmid.lookup_dentry
    rw [hdb, hkeys id dh hid, Key.ddkPath_dentry]
    apply hmidTree.insert
    · intro hroot
      exact (hhas hroot).congr (hmid.lookup_dentry _)
    · rw [HandleCall.update_dddType]
      apply hkind.imp_right
      intro hchildless child ddd hchild
      rw [hmid.lookup_dentry] at hchild
      exact hchildless child ddd hchild

theorem isTree_mkdbfsDb (proc : Proc) : IsTree (mkdbfsDb proc) := by
  intro path ddd hlookup hroot
  exact absurd (lookup_mkdbfsDb hlookup).1 hroot

/--
Every entry of a store made by `mkdbfs` has its parent path on record as a container
in every state of a run whose creations find the parent there and whose steps are all
as `KeepsTree` asks.
-/
theorem namespace_stays_tree (faulty : Prop) (proc : Proc) (events : List (Op × Int))
    (s : Sys)
    (hrun : Run (fun s event s' => ParentExists s event.1 ∧ KeepsTree s event.1 ∧
      Step faulty s event s') (Sys.closed (mkdbfsDb proc)) events s) :
    IsTree s.db := by
  have hstart : OwnKeys (Sys.closed (mkdbfsDb proc)) ∧ IsTree (mkdbfsDb proc) :=
    ⟨ownKeys_of_no_handles rfl, isTree_mkdbfsDb proc⟩
  have hend : OwnKeys s ∧ IsTree s.db := by
    apply hrun.invariant (I := fun s => OwnKeys s ∧ IsTree s.db) hstart
    rintro s event s' ⟨hkeys, htree⟩ ⟨hparent, hkeeps, hstep⟩
    exact ⟨hstep.ownKeys hkeys, hstep.isTree hkeys htree hparent hkeeps⟩
  exact hend.2

/-! ## A directory removed instead of its sibling -/

def dirSys : Sys where
  db := startedSys.db.insert (.dentry pathA) (⟨0, 0o755, 1, 0, 0, 0, 0, 0⟩ : DentryData)
  store := some ⟨2⟩
  handles := fun _ => none

def twoDirSys : Sys where
  db := dirSys.db.insert (.dentry pathB) (⟨0, 0o755, 2, 0, 0, 0, 0, 0⟩ : DentryData)
  store := some ⟨3⟩
  handles := fun _ => none

def treeSys : Sys where
  db := twoDirSys.db.insert (.dentry pathBC) (⟨1, 0o644, 3, 0, 0, 0, 0, 0⟩ : DentryData)
  store := some ⟨4⟩
  handles := fun _ => none

def treeEvents : List (Op × Int) :=
  [(.mangooInitstore plainHeap, 0),
    (.mangooCreate plainHeap plainProc pathA 0o755 .container, 0),
    (.mangooCreate plainHeap plainProc pathB 0o755 .container, 0),
    (.mangooCreate plainHeap plainProc pathBC 0o644 .data, 0)]

theorem run_treeEvents : Run (fun s event s' => ParentExists s event.1 ∧
    KeepsTree s event.1 ∧ Step False s event s') (Sys.closed (mkdbfsDb plainProc))
    treeEvents treeSys := by
  have hfirst : Step False startedSys
      (.mangooCreate plainHeap plainProc pathA 0o755 .container, 0) dirSys :=
    .mangooCreate rfl (Prog.exec_iff_run.mpr rfl)
  have hsecond : Step False dirSys
      (.mangooCreate plainHeap plainProc pathB 0o755 .container, 0) twoDirSys :=
    .mangooCreate rfl (Prog.exec_iff_run.mpr rfl)
  have hthird : Step False twoDirSys
      (.mangooCreate plainHeap plainProc pathBC 0o644 .data, 0) treeSys :=
    .mangooCreate rfl (Prog.exec_iff_run.mpr rfl)
  exact .cons ⟨trivial, trivial, step_start⟩
    (.cons ⟨fun _ => ⟨_, rfl, rfl⟩, trivial, hfirst⟩
      (.cons ⟨fun _ => ⟨_, rfl, rfl⟩, trivial, hsecond⟩
        (.single ⟨fun _ => ⟨_, rfl, rfl⟩, trivial, hthird⟩)))

def handleEvents : List (Op × Int) :=
  [(.mangooOpen plainHeap pathBC .attr 0, 0), (.handleCall 0 (.mattrSetsize 0 9), 0),
    (.mangooDelete plainHeap 0 pathBC, 0), (.handleCall 0 (.mattrChmod 0o600), 0)]

theorem childless_pathBC {db : Db} (hdb : ∀ path, Key.dentry path ∈ db → Key.dentry path ∈
    treeSys.db) : Childless db pathBC := by
  intro child ddd hlookup _
  have hmem := hdb child (Finmap.mem_of_lookup_eq_some hlookup)
  simp only [treeSys, twoDirSys, dirSys, startedSys, mkdbfsDb, Finmap.mem_insert,
    Key.dentry.injEq, reduceCtorEq, Finmap.notMem_empty, or_false, false_or] at hmem
  rcases hmem with rfl | rfl | rfl | rfl <;> decide

theorem run_handleEvents : ∃ s, Run (fun s event s' => ParentExists s event.1 ∧
    KeepsTree s event.1 ∧ Step False s event s') treeSys handleEvents s := by
  refine ⟨_, .cons ⟨trivial, trivial, .mangooOpen rfl rfl (Prog.exec_iff_run.mpr rfl)⟩
    (.cons ⟨trivial, ?_, .handleCall rfl rfl (Prog.exec_iff_run.mpr rfl)⟩
      (.cons ⟨trivial, ?_, .mangooDelete rfl (Prog.exec_iff_run.mpr rfl)⟩
        (.single ⟨trivial, ?_, .handleCall rfl rfl (Prog.exec_iff_run.mpr rfl)⟩)))⟩
  · rintro dh ⟨⟩
    exact ⟨fun _ => ⟨_, rfl, rfl⟩, .inr (childless_pathBC fun _ => id)⟩
  · rintro ddd ⟨⟩ hcontainer
    cases hcontainer
  · rintro dh ⟨⟩
    refine ⟨fun _ => ⟨_, rfl, rfl⟩, .inr (childless_pathBC fun path hmem => ?_)⟩
    have hgrown := (Finmap.mem_erase.mp hmem).2
    rcases Finmap.mem_insert.mp hgrown with heq | hmem
    · rw [heq]
      exact Finmap.mem_insert.mpr (.inl rfl)
    · exact hmem

theorem namespace_stays_tree_nested : ∃ s, Run (Step False) treeSys handleEvents s ∧
    IsTree s.db := by
  obtain ⟨s, hrun⟩ := run_handleEvents
  exact ⟨s, hrun.mono fun _ _ _ hstep => hstep.2.2,
    namespace_stays_tree False plainProc _ s (run_treeEvents.append hrun)⟩

/-- Removing the empty directory `"/a"` removes `"/b"` and leaves `"/b/c"` without a
parent. -/
theorem removal_orphans_child :
    ¬ ∀ (proc : Proc) (events : List (Op × Int)) (s : Sys),
      Run (fun s event s' => ParentExists s event.1 ∧ Step False s event s')
        (Sys.closed (mkdbfsDb proc)) events s → IsTree s.db := by
  intro hlaw
  have hdelete : Step False treeSys (.mangooDelete plainHeap 0 pathA, 0)
      { treeSys with db := treeSys.db.erase (.dentry pathB) } :=
    .mangooDelete rfl (Prog.exec_iff_run.mpr rfl)
  have hrun : Run (fun s event s' => ParentExists s event.1 ∧ Step False s event s')
      (Sys.closed (mkdbfsDb plainProc)) treeEvents treeSys :=
    run_treeEvents.mono fun s event s' hstep => ⟨hstep.1, hstep.2.2⟩
  have hparent : ParentExists treeSys (.mangooDelete plainHeap 0 pathA) := trivial
  have htree := hlaw plainProc _ _ (hrun.snoc ⟨hparent, hdelete⟩)
  obtain ⟨ddd, hlookup, -⟩ := htree pathBC ⟨1, 0o644, 3, 0, 0, 0, 0, 0⟩ rfl (by decide)
  cases hlookup

end Mangoo.Dbfs
