import Mangoo.Dbfs.System

/-!
# Deleted entries

A handle outlives the entry it was opened on, and every write or setter through
it ends in an unconditional store of the cached record.  A deleted entry stays
deleted exactly as long as no such call is made.
-/

namespace Mangoo.Dbfs

open Mangoo.Foundation

variable {faulty : Prop} {s s' : Sys} {op : Op} {error : Int} {locator : CStr}

/-- A write or setter through a handle on `locator` is called only while the
database has a record for it. -/
def CallsFindRecord (locator : CStr) (s : Sys) : Op → Prop
  | .handleCall id _ => ∀ dh, s.handles id = some dh → dh.locator = locator →
      Key.dentry locator ∈ s.db
  | _ => True

def IsCreation (locator : CStr) (event : Op × Int) : Prop :=
  ∃ heap proc mode mt, event = (.mangooCreate heap proc locator mode mt, 0)

theorem lookup_erase_of_none {db : Db} {key : Key} (other : Key)
    (h : db.lookup key = none) : (db.erase other).lookup key = none := by
  by_cases heq : key = other
  · rw [heq]
    rw [Finmap.lookup_erase]
  · rw [Finmap.lookup_erase_ne heq, h]

theorem Step.gone (h : Step faulty s (op, error) s') (hkeys : OwnKeys s)
    (hgone : s.db.lookup (.dentry locator) = none)
    (hcreate : ¬ IsCreation locator (op, error)) (hcall : CallsFindRecord locator s op) :
    s'.db.lookup (.dentry locator) = none := by
  rcases h.entries with hsame |
      ⟨rfl, ⟨heap, proc, locator', mode, mt, dsp, rfl, -, -, heq⟩ |
        ⟨heap, fuel, locator', ddd, rfl, -, hcase⟩ |
        ⟨id, dh, call, mid, rfl, hid, hmid, heq⟩⟩
  · rw [hsame, hgone]
  · have hne : locator ≠ locator' := by
      rintro rfl
      exact hcreate ⟨heap, proc, mode, mt, rfl⟩
    rw [heq, Finmap.lookup_insert_of_ne _ (by simpa using hne), hgone]
  · rcases hcase with ⟨-, -, heq⟩ | ⟨-, heq⟩
    · rw [heq]
      exact lookup_erase_of_none _ hgone
    · rw [heq]
      exact lookup_erase_of_none _ hgone
  · have hne : locator ≠ dh.locator := by
      rintro rfl
      exact Finmap.lookup_eq_none.mp hgone (hcall dh hid rfl)
    rw [heq, hkeys id dh hid, Key.ddkPath_dentry,
      Finmap.lookup_insert_of_ne _ (by simpa using hne), hmid.lookup_dentry, hgone]

theorem Step.deleted_data {heap : Heap} {fuel : Nat} {ddd : DentryData}
    (h : Step faulty s (.mangooDelete heap fuel locator, 0) s')
    (hlookup : s.db.lookup (.dentry locator) = some ddd)
    (hdata : MangooTypes.ofUInt32? ddd.dddType = some .data) :
    s'.db.lookup (.dentry locator) = none := by
  cases h with
  | mangooDelete hstore hexec =>
      rcases exec_dbfsDelete hexec with
        ⟨herror, -⟩ | ⟨-, -, ddd', hlookup', ⟨htype, -⟩ | ⟨-, -, heq⟩⟩
      · exact absurd rfl herror
      · rw [hlookup] at hlookup'
        cases hlookup'
        rw [hdata] at htype
        cases htype
      · simp only [heq]
        rw [Finmap.lookup_erase]

/--
After a successful deletion of a data file its entry is absent until it is created
again, if no write or setter is called through an older handle while the entry is
absent.
-/
theorem deleted_stays_deleted (faulty : Prop) (s₀ s₁ s₂ s₃ : Sys)
    (before after : List (Op × Int)) (heap : Heap) (fuel : Nat) (locator : CStr)
    (ddd : DentryData) (hclosed : s₀.handles = fun _ => none)
    (hbefore : Run (Step faulty) s₀ before s₁)
    (hlookup : s₁.db.lookup (.dentry locator) = some ddd)
    (hdata : MangooTypes.ofUInt32? ddd.dddType = some .data)
    (hdelete : Step faulty s₁ (.mangooDelete heap fuel locator, 0) s₂)
    (hafter : Run (fun s event s' => CallsFindRecord locator s event.1 ∧
      Step faulty s event s') s₂ after s₃)
    (hcreate : ∀ event ∈ after, ¬ IsCreation locator event) :
    s₃.db.lookup (.dentry locator) = none := by
  have hkeys₁ : OwnKeys s₁ := hbefore.invariant (ownKeys_of_no_handles hclosed)
    fun s event s' hkeys hstep => hstep.ownKeys hkeys
  have hstart : OwnKeys s₂ ∧ s₂.db.lookup (.dentry locator) = none :=
    ⟨hdelete.ownKeys hkeys₁, hdelete.deleted_data hlookup hdata⟩
  have hend : OwnKeys s₃ ∧ s₃.db.lookup (.dentry locator) = none := by
    apply hafter.with_mem.invariant hstart
    rintro s event s' ⟨hkeys, hgone⟩ ⟨hmem, hcall, hstep⟩
    exact ⟨hstep.ownKeys hkeys, hstep.gone hkeys hgone (hcreate event hmem) hcall⟩
  exact hend.2

/-! ## A file that comes back -/

def deletedSys : Sys where
  db := fileDb.erase (.dentry pathA)
  store := some ⟨1⟩
  handles := openedSys.handles

theorem step_delete_file :
    Step False openedSys (.mangooDelete plainHeap 0 pathA, 0) deletedSys :=
  .mangooDelete rfl (Prog.exec_iff_run.mpr rfl)

theorem step_chmod_file : ∃ handles, Step False deletedSys
    (.handleCall 0 (.mattrChmod 0o600), 0)
    { deletedSys with
      db := deletedSys.db.insert (.dentry pathA) (⟨1, 0o600, 2, 5, 0, 0, 0, 0⟩ : DentryData)
      handles := handles } :=
  ⟨_, .handleCall rfl rfl (Prog.exec_iff_run.mpr rfl)⟩

/-- The old handle is closed, and another file is made and changed. -/
def otherEvents : List (Op × Int) :=
  [(.mangooClose 0, 0), (.mangooCreate plainHeap plainProc pathB 0o644 .data, 0),
    (.mangooOpen plainHeap pathB .attr 0, 0), (.handleCall 0 (.mattrChmod 0o600), 0)]

theorem deleted_stays_deleted_closed : ∃ s, Run (Step False) deletedSys otherEvents s ∧
    s.db.lookup (.dentry pathA) = none := by
  have hrun : ∃ s, Run (fun s event s' => CallsFindRecord pathA s event.1 ∧ Step False s event s')
      deletedSys otherEvents s := by
    refine ⟨_, .cons ⟨trivial, .mangooClose rfl⟩ (.cons ⟨trivial, .mangooCreate rfl
      (Prog.exec_iff_run.mpr rfl)⟩ (.cons ⟨trivial, .mangooOpen rfl rfl
        (Prog.exec_iff_run.mpr rfl)⟩ (.single ⟨?_, .handleCall rfl rfl
          (Prog.exec_iff_run.mpr rfl)⟩)))⟩
    rintro dh ⟨⟩
    decide
  obtain ⟨s, hrun⟩ := hrun
  refine ⟨s, hrun.mono fun _ _ _ hstep => hstep.2, ?_⟩
  exact deleted_stays_deleted False fileSys openedSys deletedSys s
    [(.mangooOpen plainHeap pathA .attr 0, 0)] otherEvents plainHeap 0 pathA
    ⟨1, 0o644, 2, 5, 0, 0, 0, 0⟩ rfl (.single step_open_file) rfl rfl step_delete_file hrun
    (by simp [IsCreation, otherEvents, pathA, pathB])

/-- A chmod through a handle opened before the deletion stores the record again. -/
theorem deleted_file_comes_back :
    ¬ ∀ (s₀ s₁ s₂ s₃ : Sys) (before after : List (Op × Int)) (heap : Heap) (fuel : Nat)
      (locator : CStr) (ddd : DentryData), s₀.handles = (fun _ => none) →
      Run (Step False) s₀ before s₁ → s₁.db.lookup (.dentry locator) = some ddd →
      MangooTypes.ofUInt32? ddd.dddType = some .data →
      Step False s₁ (.mangooDelete heap fuel locator, 0) s₂ →
      Run (Step False) s₂ after s₃ → (∀ event ∈ after, ¬ IsCreation locator event) →
      s₃.db.lookup (.dentry locator) = none := by
  intro hlaw
  obtain ⟨handles, hchmod⟩ := step_chmod_file
  have hnone := hlaw fileSys openedSys deletedSys _
    [(.mangooOpen plainHeap pathA .attr 0, 0)] [(.handleCall 0 (.mattrChmod 0o600), 0)]
    plainHeap 0 pathA ⟨1, 0o644, 2, 5, 0, 0, 0, 0⟩ rfl (.single step_open_file) rfl rfl
    step_delete_file (.single hchmod) (by simp [IsCreation])
  rw [Finmap.lookup_insert] at hnone
  cases hnone

end Mangoo.Dbfs
