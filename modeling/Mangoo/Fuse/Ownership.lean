import Mangoo.Fuse.Metadata

/-!
# Owner and group

An id of `-1` asks `chown` to leave that id as it is.  `dbfs_chown` stores it like any other
id, so that an owner is the last one asked for only as long as the last `chown` of the path
names one.
-/

namespace Mangoo.Fuse

open Mangoo.Foundation Mangoo.Dbfs

/-- `(uid_t)-1` and `(gid_t)-1`. -/
def unchangedId : UInt32 := 0xFFFFFFFF

/-! ## Ids given by calls -/

/-- The ids that the calls of `mf_chown` on `path` give, for the owner with `Prod.fst` and
for the group with `Prod.snd`. -/
def givenIds (part : UInt32 × UInt32 → UInt32) (path : CStr) (calls : List MetaCall) :
    List UInt32 :=
  ((calls.filter fun call => call.path = path ∧ call.heap.ok).filterMap
    fun call => call.op.owner?).map part

/-- The last id given that is not to be left unchanged, `id` without one. -/
def accumulatedId (part : UInt32 × UInt32 → UInt32) (path : CStr) (calls : List MetaCall)
    (id : UInt32) : UInt32 :=
  ((givenIds part path calls).filter fun given => given ≠ unchangedId).getLastD id

/-- The last `mf_chown` of the path names an id.  One that does not is harmless only where
there never was an id but `-1`. -/
def NamesLastId (part : UInt32 × UInt32 → UInt32) (path : CStr) (calls : List MetaCall)
    (id : UInt32) : Prop :=
  ∀ front, givenIds part path calls = front ++ [unchangedId] →
    id = unchangedId ∧ ∀ given ∈ front, given = unchangedId

theorem getLastD_filter_iff {α : Type} [DecidableEq α] (skip start : α) (l : List α) :
    l.getLastD start = (l.filter fun a => a ≠ skip).getLastD start ↔
      ∀ front, l = front ++ [skip] → start = skip ∧ ∀ a ∈ front, a = skip := by
  cases l using List.reverseRecOn with
  | nil => simp
  | append_singleton front last =>
      rw [List.getLastD_concat]
      by_cases hlast : last = skip
      · subst hlast
        have hfilter : (front ++ [last]).filter (fun a => a ≠ last) =
            front.filter fun a => a ≠ last := by simp
        rw [hfilter]
        constructor
        · intro heq front' hfront
          obtain rfl := List.append_cancel_right hfront
          cases hkept : front.filter (fun a => a ≠ last) with
          | nil =>
              rw [hkept, List.getLastD_nil] at heq
              exact ⟨heq.symm, by simpa using hkept⟩
          | cons a kept =>
              rw [hkept, List.getLastD_cons] at heq
              have hmem : last ∈ front.filter fun a => a ≠ last := by
                rw [hkept, heq]
                exact List.getLastD_mem_cons
              simp at hmem
        · intro h
          obtain ⟨hstart, hall⟩ := h front rfl
          have hnil : front.filter (fun a => a ≠ last) = [] := by simpa using hall
          rw [hnil, List.getLastD_nil, hstart]
      · have hfilter : (front ++ [last]).filter (fun a => a ≠ skip) =
            (front.filter fun a => a ≠ skip) ++ [last] := by simp [hlast]
        rw [hfilter, List.getLastD_concat]
        simp only [true_iff]
        intro front' hfront
        exact absurd (List.append_inj' hfront rfl).2 (by simpa using hlast)

theorem lastGiven_owner (part : UInt32 × UInt32 → UInt32) (path : CStr)
    (calls : List MetaCall) (ids : UInt32 × UInt32) :
    part (lastGiven MetaOp.owner? path calls ids) =
      (givenIds part path calls).getLastD (part ids) := by
  rw [givenIds, List.getLastD_map]
  rfl

/-! ## What a creation gives -/

def MetaOp.creator? : MetaOp → Option Proc
  | .mkdir proc _ | .create _ proc _ => some proc
  | _ => none

theorem MetaOp.created_of_creator? {op : MetaOp} {creator : Proc}
    (h : op.creator? = some creator) :
    ∃ a, op.created = some a ∧ a.uid = creator.euid ∧ a.gid = creator.egid := by
  cases op with
  | mkdir proc mode =>
      cases h
      exact ⟨_, rfl, rfl, rfl⟩
  | create openHeap proc mode =>
      cases h
      exact ⟨_, rfl, rfl, rfl⟩
  | chmod mode => cases h
  | chown newuid newgid => cases h
  | utime utb => cases h
  | truncate offset => cases h
  | getattr stbuf => cases h

/-- The last of the calls on a store of `proc` creates `path`, or the store itself does. -/
inductive CreatedBy (proc : Proc) (path : CStr) : List MetaCall → Proc → Prop
  | mkdbfs : path = rootPath → CreatedBy proc path [] proc
  | call {before : List MetaCall} {call : MetaCall} {creator : Proc} :
      attrsAfter proc before path = none → call.Creates path →
      call.op.creator? = some creator → CreatedBy proc path (before ++ [call]) creator

theorem CreatedBy.attrsAfter {proc creator : Proc} {path : CStr} {calls : List MetaCall}
    (h : CreatedBy proc path calls creator) :
    ∃ a, Fuse.attrsAfter proc calls path = some a ∧ a.uid = creator.euid ∧
      a.gid = creator.egid := by
  cases h with
  | mkdbfs hroot =>
      refine ⟨.create .container 0o644 proc, ?_, rfl, rfl⟩
      rw [Fuse.attrsAfter, newAttrs, if_pos hroot]
      rfl
  | @call before call creator hnone hcreates hcreator =>
      rw [attrsAfter_creation hnone hcreates]
      exact MetaOp.created_of_creator? hcreator

/-- After the calls on a new store `mf_getattr` succeeds for `path` with a result in `P`. -/
def ReportedAfter (heap : Heap) (proc : Proc) (fuel : Nat) (calls : List MetaCall)
    (path : CStr) (P : Stat → Prop) : Prop :=
  ∃ dsp db, (metaRun heap proc fuel calls).run ∅ = some (some dsp, db) ∧
    ∀ (heap' : Heap) (stbuf : Stat), heap'.ok = true →
      ∃ stat, (mfGetattr (dbfsCalls heap' fuel) path stbuf).run db = some ((0, stat), db) ∧
        P stat

variable {heap : Heap} {proc creator : Proc} {path : CStr} {before : List MetaCall}

theorem reportedAfter_iff (fuel : Nat) (hok : heap.ok = true)
    (hcreated : CreatedBy proc path before creator) (more : List MetaCall) :
    ∃ stat : Stat, stat.stUid = (givenIds Prod.fst path more).getLastD creator.euid ∧
      stat.stGid = (givenIds Prod.snd path more).getLastD creator.egid ∧
      ∀ P, ReportedAfter heap proc fuel (before ++ more) path P ↔ P stat := by
  obtain ⟨a, ha, huid, hgid⟩ := hcreated.attrsAfter
  have hlater := attrsAfter_append ha more
  obtain ⟨dsp, db, hrun, himpl⟩ := run_metaRun proc fuel (before ++ more) hok
  have hgetattr : ∀ (heap' : Heap) (stbuf : Stat), heap'.ok = true →
      (mfGetattr (dbfsCalls heap' fuel) path stbuf).run db =
        some ((0, (a.later path more).stat), db) := by
    intro heap' stbuf hok'
    rw [himpl.run_mfGetattr hok' fuel path stbuf, hlater]
    rfl
  refine ⟨(a.later path more).stat, ?_, ?_, ?_⟩
  · rw [← huid]
    exact lastGiven_owner Prod.fst path more (a.uid, a.gid)
  · rw [← hgid]
    exact lastGiven_owner Prod.snd path more (a.uid, a.gid)
  · intro P
    constructor
    · rintro ⟨dsp', db', hrun', hreports⟩
      obtain ⟨-, rfl⟩ : dsp = dsp' ∧ db = db' := by simpa [hrun] using hrun'
      obtain ⟨stat, hstat, hP⟩ := hreports heap (a.later path more).stat hok
      obtain rfl : (a.later path more).stat = stat := by
        simpa [hgetattr heap _ hok] using hstat
      exact hP
    · intro hP
      exact ⟨dsp, db, hrun, fun heap' stbuf hok' => ⟨_, hgetattr heap' stbuf hok', hP⟩⟩

/-- After the creation of a path and any further calls, `mf_getattr` reports the owner that
the ids named so far accumulate to exactly if the last `mf_chown` of the path names one, and
likewise for the group. -/
theorem chown_accumulates_iff (fuel : Nat) (hok : heap.ok = true)
    (hcreated : CreatedBy proc path before creator) (more : List MetaCall) :
    (ReportedAfter heap proc fuel (before ++ more) path
        (fun stat => stat.stUid = accumulatedId Prod.fst path more creator.euid) ↔
      NamesLastId Prod.fst path more creator.euid) ∧
    (ReportedAfter heap proc fuel (before ++ more) path
        (fun stat => stat.stGid = accumulatedId Prod.snd path more creator.egid) ↔
      NamesLastId Prod.snd path more creator.egid) := by
  obtain ⟨stat, huid, hgid, hreported⟩ := reportedAfter_iff fuel hok hcreated more
  constructor
  · rw [hreported, huid]
    exact getLastD_filter_iff _ _ _
  · rw [hreported, hgid]
    exact getLastD_filter_iff _ _ _

def fileCreated : List MetaCall :=
  [⟨plainHeap, pathA, .create plainHeap plainProc 0o600⟩]

theorem createdBy_fileCreated : CreatedBy plainProc pathA fileCreated plainProc := by
  have hnone : attrsAfter plainProc [] pathA = none := by decide
  exact .call hnone ⟨rfl, rfl, by simp [MetaOp.created]⟩ rfl

/-- The file goes to user 5, and later its group changes. -/
def twoOwners : List MetaCall :=
  [⟨plainHeap, pathA, .chown 5 unchangedId⟩, ⟨plainHeap, pathA, .chmod 0o640⟩,
    ⟨plainHeap, pathA, .chown 5 6⟩]

theorem chown_accumulates_two :
    ReportedAfter plainHeap plainProc 0 (fileCreated ++ twoOwners) pathA
      fun stat => stat.stGid = 6 := by
  have hnames : NamesLastId Prod.snd pathA twoOwners plainProc.egid := by
    intro front hfront
    have hfront' : [unchangedId] ++ [6] = front ++ [unchangedId] := hfront
    exact absurd (List.append_inj' hfront' rfl).2 (by decide)
  exact (chown_accumulates_iff 0 rfl createdBy_fileCreated twoOwners).2.mpr hnames

/-- `chown(path, 5, -1)` takes the file out of the group of its creator. -/
theorem chown_loses_group :
    ¬ ∀ (heap : Heap) (proc creator : Proc) (path : CStr) (before more : List MetaCall)
      (fuel : Nat), heap.ok = true → CreatedBy proc path before creator →
      ReportedAfter heap proc fuel (before ++ more) path fun stat =>
        stat.stUid = accumulatedId Prod.fst path more creator.euid ∧
        stat.stGid = accumulatedId Prod.snd path more creator.egid := by
  intro h
  let more : List MetaCall := [⟨plainHeap, pathA, .chown 5 unchangedId⟩]
  have hheap : plainHeap.ok = true := rfl
  obtain ⟨stat, -, hgid, hreported⟩ := reportedAfter_iff 0 hheap createdBy_fileCreated more
  have hlaw := (hreported _).mp (h plainHeap plainProc plainProc pathA fileCreated more 0 rfl
    createdBy_fileCreated)
  have hid : unchangedId = 0 := hgid.symm.trans hlaw.2
  exact absurd hid (by decide)

end Mangoo.Fuse
