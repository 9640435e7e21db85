import Mangoo.Dbfs.System

/-!
# Handles on one entry

Any number of handles open at the same time on one entry, each with its own copy
of the record.  A call stores its handle's whole copy, so it keeps the fields it
is not for exactly when the copy has their stored values.
-/

namespace Mangoo.Dbfs

open Mangoo.Foundation

def OnEntry (path : CStr) : Op → Prop
  | .mangooOpen _ locator _ _ => locator = path
  | .mangooClose _ => True
  | .mstreamRead _ _ _ _ _ => True
  | .handleCall _ _ => True
  | _ => False

def completed : Op × Int → Option HandleCall
  | (.handleCall _ call, 0) => some call
  | _ => none

def AllOn (path : CStr) (s : Sys) : Prop :=
  ∀ id dh, s.handles id = some dh → dh.locator = path ∧ dh.attrDdk = .dentry path

variable {faulty : Prop} {s s' : Sys} {op : Op} {error : Int} {path : CStr}

theorem Step.allOn (h : Step faulty s (op, error) s') (hall : AllOn path s)
    (hop : OnEntry path op) : AllOn path s' := by
  intro id dh' hid
  rcases h.handle hid with hid | ⟨heap, locator, mi, rfl, -, hopened⟩ |
      ⟨dh, call, -, hopen, rfl⟩
  · exact hall id dh' hid
  · have hlocator : locator = path := hop
    rw [hopened.key, hopened.locator_eq, hlocator]
    exact ⟨rfl, rfl⟩
  · exact hall id dh hopen

theorem allOn_of_no_handles (h : s.handles = fun _ => none) : AllOn path s := by
  intro id dh hid
  rw [h] at hid
  cases hid

/-- A completed call stores its handle's updated copy; no other step touches the
record. -/
theorem Step.onEntry (h : Step faulty s (op, error) s') (hall : AllOn path s)
    (hop : OnEntry path op) :
    completed (op, error) = none ∧
        s'.db.lookup (.dentry path) = s.db.lookup (.dentry path) ∨
      ∃ id call dh, op = .handleCall id call ∧ error = 0 ∧ s.handles id = some dh ∧
        s'.db.lookup (.dentry path) = some (call.update dh.attrDdd) := by
  cases h with
  | mangooInitstore hstore hexec => exact hop.elim
  | mangooClosestore hstore => exact hop.elim
  | mangooCreate hstore hexec => exact hop.elim
  | mangooDelete hstore hexec => exact hop.elim
  | mangooOpen hstore hfree hexec =>
      left
      simp only [(exec_dbfsOpen hexec).1, completed, true_and]
  | mangooClose hid => exact .inl ⟨rfl, rfl⟩
  | mstreamRead hid hinterface hexec =>
      left
      simp only [hexec.reads (reads_dbfsRead _ _ _ _ _), completed, true_and]
  | handleCall hid hinterface hexec =>
      obtain ⟨mid, hmid, ⟨rfl, -, heq⟩ | ⟨herror, heq, -⟩⟩ := exec_handleCall hexec
      · refine .inr ⟨_, _, _, rfl, rfl, hid, ?_⟩
        rw [(hall _ _ hid).2, Key.ddkPath_dentry] at heq
        simp only [heq]
        rw [Finmap.lookup_insert]
      · left
        refine ⟨?_, ?_⟩
        · unfold completed
          split
          · rename_i hevent
            cases hevent
            exact absurd rfl herror
          · rfl
        · simp only [heq]
          exact hmid.lookup_dentry path

/-! ## The fields a call is for -/

/-- `ddd` with the fields that the call is for taken from `value`. -/
def HandleCall.own (value ddd : DentryData) : HandleCall → DentryData
  | .mstreamWrite _ => { ddd with dddSize := value.dddSize }
  | .mattrSetmtime _ => { ddd with dddMtime := value.dddMtime }
  | .mattrSetatime _ => { ddd with dddAtime := value.dddAtime }
  | .mattrChmod _ => { ddd with dddMode := value.dddMode }
  | .mattrChown _ _ => { ddd with dddUid := value.dddUid, dddGid := value.dddGid }
  | .mattrSetsize _ _ => { ddd with dddSize := value.dddSize }

namespace HandleCall

/-- Storing the updated copy changes the call's own fields of the stored record only
if and only if the copy agrees with it on all others. -/
theorem update_eq_own_iff {call : HandleCall} {copy ddd : DentryData} :
    call.update copy = call.own (call.update copy) ddd ↔ copy = call.own copy ddd := by
  cases call with
  | mstreamWrite call =>
      rw [update, grown_eq]
      cases copy
      cases ddd
      simp [own]
  | _ =>
      cases copy
      cases ddd
      simp [update, own]

theorem own_update_eq (call : HandleCall) (copy ddd : DentryData) (size : UInt64) :
    { call.own (call.update copy) ddd with dddSize := size } =
      { call.update ddd with dddSize := size } := by
  cases call with
  | mstreamWrite call =>
      simp only [own, update]
      rw [grown_eq ddd]
  | _ => rfl

theorem update_with_size {call : HandleCall} {ddd ddd' : DentryData} (size : UInt64)
    (h : ddd = { ddd' with dddSize := ddd.dddSize }) :
    { call.update ddd with dddSize := size } =
      { call.update ddd' with dddSize := size } := by
  rw [h]
  cases call with
  | mstreamWrite call =>
      simp only [update]
      rw [grown_eq ddd', grown_eq]
  | _ => rfl

end HandleCall

/-! ## Runs -/

/-- The handle a call is made through has the stored values of all fields the call
is not for. -/
def OthersAgree (path : CStr) (s : Sys) : Op → Prop
  | .handleCall id call => ∀ dh ddd, s.handles id = some dh →
      s.db.lookup (.dentry path) = some ddd → dh.attrDdd = call.own dh.attrDdd ddd
  | _ => True

/-- The step leaves the stored record alone, or it is a completed call and changes
the fields that call is for. -/
def OwnFieldsOnly (path : CStr) (s : Sys) (event : Op × Int) (s' : Sys) : Prop :=
  ∀ ddd, s.db.lookup (.dentry path) = some ddd →
    ∃ ddd', s'.db.lookup (.dentry path) = some ddd' ∧
      (completed event = none ∧ ddd' = ddd ∨
        ∃ call, completed event = some call ∧ ddd' = call.own ddd' ddd ∧
          ∃ size, ddd' = { call.update ddd with dddSize := size })

theorem Step.ownFieldsOnly (h : Step faulty s (op, error) s') (hall : AllOn path s)
    (hop : OnEntry path op) (hagree : OthersAgree path s op) :
    OwnFieldsOnly path s (op, error) s' := by
  intro ddd hlookup
  rcases h.onEntry hall hop with ⟨hnone, hsame⟩ | ⟨id, call, dh, rfl, rfl, hid, hstored⟩
  · exact ⟨ddd, by rw [hsame, hlookup], .inl ⟨hnone, rfl⟩⟩
  · have hown := HandleCall.update_eq_own_iff.mpr (hagree dh ddd hid hlookup)
    refine ⟨_, hstored, .inr ⟨call, rfl, hown, (call.update dh.attrDdd).dddSize, ?_⟩⟩
    rw [← HandleCall.own_update_eq call dh.attrDdd, ← hown]

/-- The record after the completed calls of a log, one after the other. -/
def lastGiven (ddd : DentryData) (events : List (Op × Int)) : DentryData :=
  (events.filterMap completed).foldl (fun ddd call => call.update ddd) ddd

/--
In a run of calls through any handles on one existing entry, each made through a
handle whose copy has the stored values of the other fields, every step changes
only the fields it is for, and all fields keep the value that the last completed
call of any handle gave them.
-/
theorem setters_touch_own_fields (faulty : Prop) (path : CStr) (s₀ s : Sys)
    (events : List (Op × Int)) (ddd₀ : DentryData)
    (hclosed : s₀.handles = fun _ => none)
    (hlookup : s₀.db.lookup (.dentry path) = some ddd₀)
    (hrun : Run (fun s event s' => OnEntry path event.1 ∧ OthersAgree path s event.1 ∧
      Step faulty s event s') s₀ events s) :
    Run (fun s event s' => Step faulty s event s' ∧ OwnFieldsOnly path s event s')
        s₀ events s ∧
      ∃ ddd, s.db.lookup (.dentry path) = some ddd ∧
        ddd = { lastGiven ddd₀ events with dddSize := ddd.dddSize } := by
  have hstep : ∀ s event s', AllOn path s →
      OnEntry path event.1 ∧ OthersAgree path s event.1 ∧ Step faulty s event s' →
      AllOn path s' ∧ Step faulty s event s' ∧ OwnFieldsOnly path s event s' := by
    rintro s event s' hall ⟨hop, hagree, hstep⟩
    exact ⟨hstep.allOn hall hop, hstep, hstep.ownFieldsOnly hall hop hagree⟩
  have hown := hrun.strengthen (allOn_of_no_handles hclosed) hstep
  refine ⟨hown, ?_⟩
  apply hown.invariant_log (I := fun events s => ∃ ddd,
    s.db.lookup (.dentry path) = some ddd ∧
      ddd = { lastGiven ddd₀ events with dddSize := ddd.dddSize })
  · exact ⟨ddd₀, hlookup, rfl⟩
  · rintro events s event s' ⟨ddd, hstored, heq⟩ ⟨-, hfields⟩
    obtain ⟨ddd', hstored', hchange⟩ := hfields ddd hstored
    refine ⟨ddd', hstored', ?_⟩
    rw [lastGiven, List.filterMap_append, List.foldl_append]
    rcases hchange with ⟨hnone, rfl⟩ | ⟨call, hsome, -, size, hsize⟩
    · simp only [List.filterMap_cons, hnone, List.filterMap_nil, List.foldl_nil]
      exact heq
    · simp only [List.filterMap_cons, hsome, List.filterMap_nil, List.foldl_cons,
        List.foldl_nil]
      rw [← lastGiven, ← HandleCall.update_with_size _ heq, hsize]

def chmodSys : Sys where
  db := fileDb.insert (.dentry pathA) (⟨1, 0o600, 2, 5, 0, 0, 0, 0⟩ : DentryData)
  store := some ⟨1⟩
  handles := Function.update openedSys.handles 0
    (some { fileHandle with attrDdd := ⟨1, 0o600, 2, 5, 0, 0, 0, 0⟩ })

theorem step_chmod_opened :
    Step False openedSys (.handleCall 0 (.mattrChmod 0o600), 0) chmodSys :=
  .handleCall rfl rfl (Prog.exec_iff_run.mpr rfl)

/-- The second handle is opened after the first one changed the record. -/
def agreeingEvents : List (Op × Int) :=
  [(.mangooOpen plainHeap pathA .attr 0, 0), (.handleCall 0 (.mattrChmod 0o600), 0),
    (.mangooOpen plainHeap pathA .attr 1, 0), (.handleCall 1 (.mattrSetmtime 7), 0)]

theorem setters_touch_own_fields_chmod : ∃ s ddd, Run (Step False) fileSys agreeingEvents s ∧
    s.db.lookup (.dentry pathA) = some ddd ∧ ddd.dddMode = 0o600 ∧ ddd.dddMtime = 7 := by
  have hagree : OthersAgree pathA openedSys (.handleCall 0 (.mattrChmod 0o600)) := by
    intro dh ddd hid hlookup
    cases hid
    cases hlookup
    rfl
  have hrun : ∃ s, Run (fun s event s' => OnEntry pathA event.1 ∧ OthersAgree pathA s event.1 ∧
      Step False s event s') fileSys agreeingEvents s := by
    refine ⟨_, .cons ⟨rfl, trivial, step_open_file⟩ (.cons ⟨trivial, hagree, step_chmod_opened⟩
      (.cons ⟨rfl, trivial, .mangooOpen rfl rfl (Prog.exec_iff_run.mpr rfl)⟩
        (.single ⟨trivial, ?_, .handleCall rfl rfl (Prog.exec_iff_run.mpr rfl)⟩)))⟩
    intro dh ddd hid hlookup
    cases hid
    cases hlookup
    rfl
  obtain ⟨s, hrun⟩ := hrun
  obtain ⟨-, ddd, hlookup, heq⟩ := setters_touch_own_fields False pathA fileSys s agreeingEvents
    ⟨1, 0o644, 2, 5, 0, 0, 0, 0⟩ rfl rfl hrun
  exact ⟨s, ddd, hrun.mono fun _ _ _ hstep => hstep.2.2, hlookup, by rw [heq]; rfl,
    by rw [heq]; rfl⟩

/-- Of two handles opened before, a setmtime through one undoes the chmod made through
the other. -/
theorem setmtime_undoes_chmod :
    ¬ ∀ (path : CStr) (s₀ s : Sys) (events : List (Op × Int)) (ddd₀ : DentryData),
      s₀.handles = (fun _ => none) → s₀.db.lookup (.dentry path) = some ddd₀ →
      Run (fun s event s' => OnEntry path event.1 ∧ Step False s event s') s₀ events s →
      Run (fun s event s' => Step False s event s' ∧ OwnFieldsOnly path s event s')
          s₀ events s ∧
        ∃ ddd, s.db.lookup (.dentry path) = some ddd ∧
          ddd = { lastGiven ddd₀ events with dddSize := ddd.dddSize } := by
  intro hlaw
  have hopen : Step False openedSys (.mangooOpen plainHeap pathA .attr 1, 0)
      { openedSys with
        handles := Function.update openedSys.handles 1 (some fileHandle) } :=
    .mangooOpen rfl rfl (Prog.exec_iff_run.mpr rfl)
  have hchmod : Step False
      { openedSys with
        handles := Function.update openedSys.handles 1 (some fileHandle) }
      (.handleCall 0 (.mattrChmod 0o600), 0)
      { chmodSys with
        handles := Function.update (Function.update openedSys.handles 1 (some fileHandle)) 0
          (some { fileHandle with attrDdd := ⟨1, 0o600, 2, 5, 0, 0, 0, 0⟩ }) } :=
    .handleCall rfl rfl (Prog.exec_iff_run.mpr rfl)
  have hsetmtime : ∃ handles, Step False
      { chmodSys with
        handles := Function.update (Function.update openedSys.handles 1 (some fileHandle)) 0
          (some { fileHandle with attrDdd := ⟨1, 0o600, 2, 5, 0, 0, 0, 0⟩ }) }
      (.handleCall 1 (.mattrSetmtime 7), 0)
      { chmodSys with
        db := chmodSys.db.insert (.dentry pathA)
          (⟨1, 0o644, 2, 5, 7, 0, 0, 0⟩ : DentryData)
        handles := handles } :=
    ⟨_, .handleCall rfl rfl (Prog.exec_iff_run.mpr rfl)⟩
  obtain ⟨handles, hsetmtime⟩ := hsetmtime
  obtain ⟨-, ddd, hlookup, heq⟩ := hlaw pathA fileSys _
    [(.mangooOpen plainHeap pathA .attr 0, 0), (.mangooOpen plainHeap pathA .attr 1, 0),
      (.handleCall 0 (.mattrChmod 0o600), 0), (.handleCall 1 (.mattrSetmtime 7), 0)]
    _ rfl rfl (.cons ⟨rfl, step_open_file⟩ (.cons ⟨rfl, hopen⟩
      (.cons ⟨trivial, hchmod⟩ (.single ⟨trivial, hsetmtime⟩))))
  rw [Finmap.lookup_insert] at hlookup
  cases hlookup
  exact absurd (congrArg DentryData.dddMode heq) (by decide)

end Mangoo.Dbfs
