import Mangoo.Foundation.Calls
import Mangoo.Dbfs.System

/-!
# The record cached in a handle

One handle whose entry nobody else modifies, under calls in which any database calls
fail.  A setter changes the cached record first and stores it afterwards, so a failed
store leaves the handle with a record that the database does not have.
-/

namespace Mangoo.Dbfs

open Mangoo.Foundation

variable {db db' : Db} {dh dh' : DbfsHandle} {failed : List (Request Key)} {error : Int}

/-! ## One call -/

/-- The request that stores the handle's record. -/
def recordPut (dh : DbfsHandle) : Request Key := .put (.dentry dh.attrDdk.ddkPath)

/-- What a call does when the requests `failed` fail: it stores the updated record, or it
gives up before it comes to the record, or it fails to store the record that it has cached
already. -/
inductive CacheEffect (dh dh' : DbfsHandle) (call : HandleCall) (failed : List (Request Key))
    (error : Int) (mid db' : Db) : Prop
  | stored : recordPut dh ∉ failed → error = 0 →
      dh' = { dh with attrDdd := call.update dh.attrDdd } →
      db' = mid.insert (.dentry dh.attrDdk.ddkPath) (call.update dh.attrDdd) →
      CacheEffect dh dh' call failed error mid db'
  | gaveUp : recordPut dh ∉ failed → dh' = dh → db' = mid →
      CacheEffect dh dh' call failed error mid db'
  | lost : recordPut dh ∈ failed → error ≠ 0 →
      dh' = { dh with attrDdd := call.update dh.attrDdd } → db' = mid →
      CacheEffect dh dh' call failed error mid db'

theorem outcome_dbfsWriteAttr {path : CStr} {ddd : DentryData}
    (h : Prog.Outcome (dbfsWriteAttr path ddd) db failed error db') :
    failed = [] ∧ error = 0 ∧ db' = db.insert (.dentry path) ddd ∨
      failed = [.put (.dentry path)] ∧ error = einval ∧ db' = db := by
  obtain ⟨code, mid, first, second, rfl, hput, hret⟩ := Prog.outcome_bind.mp h
  rcases Prog.outcome_putRec.mp hput with ⟨rfl, hstore⟩ | ⟨rfl, hfault, rfl⟩
  · rw [store_overwrite] at hstore
    cases hstore
    rw [if_neg (by simp)] at hret
    obtain ⟨rfl, rfl, rfl⟩ := Prog.outcome_pure.mp hret
    exact .inl ⟨rfl, rfl, rfl⟩
  · rw [if_pos hfault.1] at hret
    obtain ⟨rfl, rfl, rfl⟩ := Prog.outcome_pure.mp hret
    exact .inr ⟨rfl, rfl, rfl⟩

theorem outcome_attrCall {call : HandleCall} (hattr : call.interface = .attr)
    (h : Prog.Outcome (call.prog dh) db failed (error, dh') db') :
    CacheEffect dh dh' call failed error db db' := by
  rw [HandleCall.prog_of_attr dh hattr, setAttr] at h
  obtain ⟨code, mid, first, second, rfl, hwrite, hret⟩ := Prog.outcome_bind.mp h
  obtain ⟨rfl, heq, rfl⟩ := Prog.outcome_pure.mp hret
  cases heq
  rcases outcome_dbfsWriteAttr hwrite with ⟨rfl, rfl, rfl⟩ | ⟨rfl, rfl, rfl⟩
  · exact .stored (by simp) rfl rfl rfl
  · exact .lost (by simp [recordPut]) (by decide) rfl rfl

theorem outcome_mstreamWrite {call : WriteCall}
    (h : Prog.Outcome ((HandleCall.mstreamWrite call).prog dh) db failed (error, dh') db') :
    ∃ mid, BlocksOnly dh.attrDdd.dddIno db mid ∧
      CacheEffect dh dh' (.mstreamWrite call) failed error mid db' := by
  obtain ⟨⟨code, count, dh₁⟩, last, first, second, rfl, hwrite, hret⟩ :=
    Prog.outcome_bind.mp h
  obtain ⟨rfl, heq, rfl⟩ := Prog.outcome_pure.mp hret
  cases heq
  obtain ⟨⟨code, count', out⟩, mid, moving, storing, rfl, hmove, hrest⟩ :=
    Prog.outcome_bind.mp hwrite
  have hchanges := changes_dbfsReadwrite call.heap dh.attrDdd.dddIno call.buf call.size
    call.offset false
  have hblocks : BlocksOnly dh.attrDdd.dddIno db mid :=
    fun key hkey => hmove.exec.frame hchanges hkey
  have hmoving : recordPut dh ∉ moving := by
    intro hput
    obtain ⟨offset, heq⟩ := hmove.put_of_changes hchanges hput
    cases heq
  refine ⟨mid, hblocks, ?_⟩
  by_cases hcode : code = 0
  · subst hcode
    have hcount := exec_dbfsReadwrite_count hmove.exec
    subst hcount
    simp only [ne_eq, not_true_eq_false, if_false] at hrest
    obtain ⟨code, last', writing, returning, rfl, hattr, hret⟩ := Prog.outcome_bind.mp hrest
    obtain ⟨rfl, heq, rfl⟩ := Prog.outcome_pure.mp hret
    cases heq
    rcases outcome_dbfsWriteAttr hattr with ⟨rfl, rfl, rfl⟩ | ⟨rfl, rfl, rfl⟩
    · exact .stored (by simpa using hmoving) rfl rfl rfl
    · exact .lost (by simp [recordPut]) (by decide) rfl rfl
  · simp only [ne_eq, hcode, not_false_eq_true, if_true] at hrest
    obtain ⟨rfl, heq, rfl⟩ := Prog.outcome_pure.mp hrest
    cases heq
    exact .gaveUp (by simpa using hmoving) rfl rfl

theorem outcome_handleCall {call : HandleCall}
    (h : Prog.Outcome (call.prog dh) db failed (error, dh') db') :
    ∃ mid, BlocksOnly dh.attrDdd.dddIno db mid ∧
      CacheEffect dh dh' call failed error mid db' := by
  cases call with
  | mstreamWrite call => exact outcome_mstreamWrite h
  | _ => exact ⟨db, .refl _ _, outcome_attrCall rfl h⟩

/-! ## Calls one after the other -/

structure Cached where
  dh : DbfsHandle
  db : Db

def Cached.Synced (s : Cached) : Prop :=
  s.db.lookup (.dentry s.dh.attrDdk.ddkPath) = some s.dh.attrDdd

/-- A call through the handle with the requests that failed in it and its result code, or
anything else that leaves the handle's entry alone. -/
inductive CacheEvent where
  | call (call : HandleCall) (failed : List (Request Key)) (error : Int)
  | other

inductive CacheStep : Cached → CacheEvent → Cached → Prop
  | call {dh dh' : DbfsHandle} {db db' : Db} {call : HandleCall}
      {failed : List (Request Key)} {error : Int} :
      Prog.Outcome (call.prog dh) db failed (error, dh') db' →
      CacheStep ⟨dh, db⟩ (.call call failed error) ⟨dh', db'⟩
  | other {dh : DbfsHandle} {db db' : Db} :
      db'.lookup (.dentry dh.attrDdk.ddkPath) = db.lookup (.dentry dh.attrDdk.ddkPath) →
      CacheStep ⟨dh, db⟩ .other ⟨dh, db'⟩

/-- The record is not lost on its way to the database, or the call changes nothing in it. -/
def RecordKept (s : Cached) : CacheEvent → Prop
  | .call call failed _ => recordPut s.dh ∉ failed ∨ call.update s.dh.attrDdd = s.dh.attrDdd
  | .other => True

def CacheEvent.Failed : CacheEvent → Prop
  | .call _ _ error => error ≠ 0
  | .other => False

variable {s s' : Cached} {event : CacheEvent}

theorem CacheStep.synced_iff (h : CacheStep s event s') (hsynced : s.Synced) :
    s'.Synced ↔ RecordKept s event := by
  cases h with
  | other hkept =>
      refine iff_of_true ?_ trivial
      rw [Cached.Synced, hkept]
      exact hsynced
  | @call dh dh' db db' call failed error houtcome =>
      obtain ⟨mid, hmid, ⟨hput, -, rfl, rfl⟩ | ⟨hput, rfl, rfl⟩ | ⟨hput, -, rfl, rfl⟩⟩ :=
        outcome_handleCall houtcome
      · exact iff_of_true (Finmap.lookup_insert _) (.inl hput)
      · refine iff_of_true ?_ (.inl hput)
        rw [Cached.Synced, hmid.lookup_dentry]
        exact hsynced
      · have hlookup : db'.lookup (.dentry dh.attrDdk.ddkPath) = some dh.attrDdd := by
          rw [hmid.lookup_dentry]
          exact hsynced
        simp only [Cached.Synced, hlookup, RecordKept, hput, not_true_eq_false, false_or,
          Option.some.injEq]
        exact eq_comm

theorem CacheStep.unchanged_of_failed (h : CacheStep s event s') (hkept : RecordKept s event)
    (hfailed : event.Failed) : s'.dh.attrDdd = s.dh.attrDdd := by
  cases h with
  | other _ => exact hfailed.elim
  | @call dh dh' db db' call failed error houtcome =>
      obtain ⟨mid, hmid, ⟨-, hcode, -, -⟩ | ⟨-, rfl, -⟩ | ⟨hput, -, rfl, -⟩⟩ :=
        outcome_handleCall houtcome
      · exact absurd hcode hfailed
      · rfl
      · rcases hkept with hnot | hsame
        · exact absurd hput hnot
        · exact hsame

/-- If no failed store of the record loses a change, the cached record is the stored one
after every call, and a call that returns an error leaves it as it was. -/
theorem cache_tells_truth (s₀ s : Cached) (events : List CacheEvent) (hstart : s₀.Synced)
    (h : Run (fun s event s' => RecordKept s event ∧ CacheStep s event s') s₀ events s) :
    s.Synced ∧ Run (fun s event s' => CacheStep s event s' ∧ s'.Synced ∧
      (event.Failed → s'.dh.attrDdd = s.dh.attrDdd)) s₀ events s := by
  have hstep : ∀ s event s', Cached.Synced s →
      RecordKept s event ∧ CacheStep s event s' → s'.Synced := by
    rintro s event s' hsynced ⟨hkept, hstep⟩
    exact (hstep.synced_iff hsynced).mpr hkept
  refine ⟨h.invariant hstart hstep, h.strengthen hstart ?_⟩
  rintro s event s' hsynced ⟨hkept, hcall⟩
  have hsynced' := hstep s event s' hsynced ⟨hkept, hcall⟩
  exact ⟨hsynced', hcall, hsynced', hcall.unchanged_of_failed hkept⟩

/-! ## A failed chmod -/

theorem synced_fileHandle : (Cached.mk fileHandle fileDb).Synced := Finmap.lookup_insert _

def chmodHandle : DbfsHandle :=
  { fileHandle with attrDdd := { fileHandle.attrDdd with dddMode := 0o600 } }

theorem outcome_failed_chmod (mode : UInt32) :
    Prog.Outcome ((HandleCall.mattrChmod mode).prog fileHandle) fileDb [recordPut fileHandle]
      (einval, { fileHandle with attrDdd := { fileHandle.attrDdd with dddMode := mode } })
      fileDb := by
  have hfault : Prog.IsFault (-1) := ⟨by decide, by decide⟩
  have hwrite : Prog.Outcome (dbfsWriteAttr pathA { fileHandle.attrDdd with dddMode := mode })
      fileDb [recordPut fileHandle] einval fileDb := by
    refine Prog.outcome_bind.mpr ⟨-1, fileDb, [recordPut fileHandle], [], rfl, ?_, ?_⟩
    · exact Prog.outcome_putRec.mpr (.inr ⟨rfl, hfault, rfl⟩)
    · rw [if_pos hfault.1]
      exact Prog.outcome_pure.mpr ⟨rfl, rfl, rfl⟩
  refine Prog.outcome_bind.mpr ⟨einval, fileDb, [recordPut fileHandle], [], rfl, hwrite, ?_⟩
  exact Prog.outcome_pure.mpr ⟨rfl, rfl, rfl⟩

/-- A failed chmod to the mode that the file has, and then one that succeeds. -/
theorem cache_tells_truth_chmod :
    (Cached.mk chmodHandle (fileDb.insert (.dentry pathA) chmodHandle.attrDdd)).Synced := by
  have hrun : Run (fun s event s' => RecordKept s event ∧ CacheStep s event s')
      ⟨fileHandle, fileDb⟩ [.call (.mattrChmod 0o644) [recordPut fileHandle] einval,
        .call (.mattrChmod 0o600) [] 0]
      ⟨chmodHandle, fileDb.insert (.dentry pathA) chmodHandle.attrDdd⟩ :=
    .cons ⟨.inr rfl, .call (outcome_failed_chmod 0o644)⟩
      (.single ⟨.inl List.not_mem_nil, .call (.call .put .ret)⟩)
  exact (cache_tells_truth _ _ _ synced_fileHandle hrun).1

/-- The handle shows the new mode, the database keeps the old one. -/
theorem failed_chmod_stays_cached :
    ¬ ∀ (s₀ s : Cached) (events : List CacheEvent), s₀.Synced →
      Run CacheStep s₀ events s → s.Synced := by
  intro hlaw
  have hrun : Run CacheStep ⟨fileHandle, fileDb⟩
      [.call (.mattrChmod 0o600) [recordPut fileHandle] einval] ⟨chmodHandle, fileDb⟩ :=
    .single (.call (outcome_failed_chmod 0o600))
  have hsynced := hlaw _ _ _ synced_fileHandle hrun
  rw [Cached.Synced] at hsynced
  have hmode := (synced_fileHandle.symm.trans hsynced)
  cases hmode

end Mangoo.Dbfs
