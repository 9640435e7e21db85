import Mangoo.Foundation.RelyGuarantee
import Mangoo.Dbfs.System

/-!
# Opening or creating a file

The loop that `sampwrite` of `concwrite.c` and `myapp.c` begins with: it opens a file, and
when that fails creates it and goes back.  `concwrite.c` runs it in several threads.  What a
thread does with the handle afterwards is not followed: all threads write through one global
variable, close what it holds and are not waited for before the store is closed.
-/

namespace Mangoo.Samp

open Mangoo.Foundation Mangoo.Dbfs

/-- What one round of the loop meets.  Threads race for the number that `last_inode++` gives,
so that any two may get the same. -/
structure Round where
  openHeap : Heap
  createHeap : Heap
  proc : Proc
  ino : UInt64

/-- After a failed creation the function of `concwrite.c` goes back and the one of `myapp.c`
gives up. -/
structure Opener where
  round : Nat → Round
  mode : UInt32
  givesUp : Bool

/-- The loop at the label `back`, up to the handle that its last `mangoo_open` delivers. -/
def Opener.back (o : Opener) (path : CStr) : Nat → DbProg (Option DbfsHandle)
  | 0 => .spin
  | fuel + 1 => do
      let round := o.round fuel
      let (error, handle) ← dbfsOpen round.openHeap path .stream
      if error ≠ 0 then
        let (error, _) ← dbfsCreate round.createHeap round.proc ⟨round.ino⟩ path o.mode .data
        if error ≠ 0 ∧ o.givesUp = true then return none
        o.back path fuel
      else return handle

/-! ## One record -/

structure AddsOnly (path : CStr) (db db' : Db) : Prop where
  stays : ∀ ddd, db.lookup (.dentry path) = some ddd → db'.lookup (.dentry path) = some ddd
  others : ∀ key, key ≠ .dentry path → db'.lookup key = db.lookup key

variable {path : CStr} {db db' : Db} {o : Opener}

theorem AddsOnly.refl (path : CStr) (db : Db) : AddsOnly path db db := ⟨fun _ => id, fun _ _ => rfl⟩

theorem AddsOnly.trans (db₁ db₂ db₃ : Db) (h : AddsOnly path db₁ db₂) (h' : AddsOnly path db₂ db₃) :
    AddsOnly path db₁ db₃ where
  stays ddd hlookup := h'.stays ddd (h.stays ddd hlookup)
  others key hkey := (h'.others key hkey).trans (h.others key hkey)

theorem addsOnly_store (path : CStr) (ddd : DentryData) (db : Db) :
    AddsOnly path db (store db (.dentry path) ddd true).2 := by
  cases hlookup : db.lookup (.dentry path) with
  | none =>
      rw [store_noOverwrite_of_none _ hlookup]
      refine ⟨fun old hold => ?_, fun key hkey => Finmap.lookup_insert_of_ne _ hkey⟩
      rw [hlookup] at hold
      cases hold
  | some old =>
      rw [store_noOverwrite_of_some _ hlookup]
      exact .refl path db

theorem satisfies_dbfsReadAttr (path : CStr) (ddd : DentryData) (db : Db) :
    (dbfsReadAttr path ddd).Satisfies (AddsOnly path) (AddsOnly path)
      (fun r db => r.1 = 0 → db.lookup (.dentry path) = some r.2) db := by
  have hget : (Prog.getRec (β := Rec) (.dentry path)).Satisfies (AddsOnly path) (AddsOnly path)
      (fun r db => ∀ record, r = .ok record → db.lookup (.dentry path) = some record) db := by
    apply Prog.satisfies_getRec
    · intro db db' _ hrely record hfetch
      exact hrely.stays record (fetch_eq_ok_iff.mp hfetch)
    · intro e _ db _ _ _ record herror
      cases herror
  apply hget.bind
  intro found db hfound
  cases found with
  | ok record =>
      exact Prog.satisfies_pure fun db' hrely _ => hfound db' hrely record rfl
  | error e =>
      apply Prog.satisfies_pure
      intro db' _ hzero
      dsimp only at hzero
      split_ifs at hzero <;> cases hzero

theorem satisfies_dbfsOpen (heap : Heap) (path : CStr) (db : Db) :
    (dbfsOpen heap path .stream).Satisfies (AddsOnly path) (AddsOnly path)
      (fun r db => ∀ dh, r.2 = some dh → OpenedAt path .stream db dh) db := by
  change (dbfsSopen heap path).Satisfies _ _ _ _
  unfold dbfsSopen dbfsCreatehandle
  split_ifs with hok
  · apply (satisfies_dbfsReadAttr path _ db).bind
    rintro ⟨error, ddd⟩ db hread
    dsimp only
    by_cases hzero : error = 0
    · rw [if_neg (not_not.mpr hzero)]
      apply Prog.satisfies_pure
      rintro db' hrely _ ⟨⟩
      exact ⟨rfl, rfl, rfl, hread db' hrely hzero⟩
    · rw [if_pos hzero]
      apply Prog.satisfies_pure
      rintro db' - dh ⟨⟩
  · apply Prog.satisfies_pure
    rintro db' - dh ⟨⟩

theorem satisfies_dbfsCreate (heap : Heap) (proc : Proc) (dsp : DbfsStore) (path : CStr)
    (mode : UInt32) (mt : MangooTypes) (db : Db) :
    (dbfsCreate heap proc dsp path mode mt).Satisfies (AddsOnly path) (AddsOnly path)
      (fun _ _ => True) db := by
  unfold dbfsCreate
  split_ifs with hok
  · exact Prog.satisfies_pure fun _ _ => trivial
  · have hput : ∀ ddd : DentryData, (Prog.putRec (.dentry path) ddd true).Satisfies
        (AddsOnly path) (AddsOnly path) (fun _ _ => True) db := by
      intro ddd
      apply Prog.satisfies_putRec
      · exact addsOnly_store path ddd
      · exact fun _ _ _ => trivial
      · exact fun _ _ _ => trivial
    unfold dbfsCreateAttr
    refine Prog.Satisfies.bind (P := fun _ _ => True) ?_ fun _ _ _ =>
      Prog.satisfies_pure fun _ _ => trivial
    apply (hput _).bind
    intro error db _
    split_ifs
    · exact Prog.satisfies_pure fun _ _ => trivial
    · exact Prog.satisfies_pure fun _ _ => trivial

/-- Whatever the other openers do, an opener adds the record at most, and the handle that it
gets has the record's contents from then on. -/
theorem satisfies_back (o : Opener) (path : CStr) (fuel : Nat) (db : Db) :
    (o.back path fuel).Satisfies (AddsOnly path) (AddsOnly path)
      (fun r db => ∀ dh, r = some dh → OpenedAt path .stream db dh) db := by
  induction fuel generalizing db with
  | zero => trivial
  | succ fuel ih =>
      apply (satisfies_dbfsOpen _ path db).bind
      rintro ⟨error, handle⟩ db hopened
      dsimp only
      by_cases hzero : error = 0
      · rw [if_neg (not_not.mpr hzero)]
        exact Prog.satisfies_pure hopened
      · rw [if_pos hzero]
        apply (satisfies_dbfsCreate _ _ _ path _ _ db).bind
        rintro ⟨error, dsp⟩ db -
        dsimp only
        split_ifs with hgivesUp
        · apply Prog.satisfies_pure
          rintro db' - dh ⟨⟩
        · exact ih db

/-! ## Threads -/

variable {ι : Type} [DecidableEq ι]

def startOpeners (path : CStr) (openers : ι → Opener) (fuel : ι → Nat) (db : Db) :
    Pool ι Rec (Option DbfsHandle) where
  threads := fun i => (openers i).back path (fuel i)
  db := db

/--
In every order of the calls that any number of threads make in the loop, and whichever calls
fail, a record that is there stays as it is, no other record changes, and a handle that a thread
has got shows the record of the path from then on.
-/
theorem openers_share_record (path : CStr) (openers : ι → Opener) (fuel : ι → Nat) (db : Db)
    (schedule later : List ι) (s s' : Pool ι Rec (Option DbfsHandle))
    (h : Run Pool.Step (startOpeners path openers fuel db) schedule s)
    (hlater : Run Pool.Step s later s') :
    AddsOnly path db s.db ∧
      ∀ i dh, s.threads i = .ret (some dh) → OpenedAt path .stream s'.db dh := by
  have hstart : ∀ i, ((startOpeners path openers fuel db).threads i).Satisfies (AddsOnly path)
      (AddsOnly path) (fun r db => ∀ dh, r = some dh → OpenedAt path .stream db dh) db :=
    fun i => satisfies_back (openers i) path (fuel i) db
  obtain ⟨hadds, hall⟩ := Pool.all_satisfy_of_run h hstart (.refl path) .trans
  obtain ⟨hadds', -⟩ := Pool.all_satisfy_of_run hlater hall (.refl path) .trans
  refine ⟨hadds, fun i dh hdone => ?_⟩
  have hi := hall i
  rw [hdone] at hi
  exact hi s'.db hadds' dh rfl

/-! ## Calls until a thread is done -/

/-- The thread `i` makes its next call, and the call succeeds. -/
def CallSucceeds (s : Pool ι Rec (Option DbfsHandle)) (i : ι)
    (s' : Pool ι Rec (Option DbfsHandle)) : Prop :=
  ∃ x' db', Prog.Call (s.threads i) s.db none x' db' ∧
    s' = ⟨Function.update s.threads i x', db'⟩

/-- The threads make calls in any order, and those of the thread `i` succeed. -/
def StepFor (i : ι) (s : Pool ι Rec (Option DbfsHandle)) (j : ι)
    (s' : Pool ι Rec (Option DbfsHandle)) : Prop :=
  Pool.Step s j s' ∧ (j = i → CallSucceeds s i s')

structure Opener.Persistent (o : Opener) : Prop where
  opens : ∀ n, (o.round n).openHeap.ok = true
  creates : ∀ n, (o.round n).createHeap.ok = true
  goesBack : o.givesUp = false

/-- The rest of a round after the open failed. -/
def Opener.creating (o : Opener) (path : CStr) (fuel : Nat) : DbProg (Option DbfsHandle) := do
  let round := o.round fuel
  let (error, _) ← dbfsCreate round.createHeap round.proc ⟨round.ino⟩ path o.mode .data
  if error ≠ 0 ∧ o.givesUp = true then return none
  o.back path fuel

theorem back_eq_get (ho : o.Persistent) (path : CStr) (fuel : Nat) :
    o.back path (fuel + 1) = .get (.dentry path) fun r =>
      match r with
      | .ok ddd => .ret (some (initHandle path ddd))
      | .error _ => o.creating path fuel := by
  rw [Opener.back]
  simp only [dbfsOpen, dbfsSopen, dbfsCreatehandle, ho.opens fuel, if_true]
  apply congrArg (Prog.get (Key.dentry path))
  funext r
  cases r with
  | ok ddd => rfl
  | error e =>
      have hcode : (if e = dbNotfound then enoent else eio) ≠ 0 := by
        split_ifs <;> decide
      change Prog.bind (if (if e = dbNotfound then enoent else eio) ≠ 0 then _ else _) _ = _
      rw [if_pos hcode]
      change (if (if e = dbNotfound then enoent else eio) ≠ 0 then _ else _) = _
      rw [if_pos hcode]
      rfl

theorem creating_eq_put (ho : o.Persistent) (path : CStr) (fuel : Nat) :
    ∃ ddd : DentryData, o.creating path fuel =
      .put (.dentry path) ddd true fun _ => o.back path fuel := by
  let round := o.round fuel
  refine ⟨⟨1, o.mode, round.ino, 0, round.proc.now, round.proc.now, round.proc.euid,
    round.proc.egid⟩, ?_⟩
  simp only [Opener.creating, dbfsCreate, ho.creates fuel, ho.goesBack]
  apply congrArg (Prog.put (Key.dentry path) _ true)
  funext error
  by_cases hzero : error = 0
  · subst hzero
    rfl
  · change Prog.bind (Prog.bind (if error ≠ 0 then _ else _) _) _ = _
    rw [if_pos hzero]
    rfl

/-- Where a thread is after so many calls. -/
inductive Progress (o : Opener) (path : CStr) (db : Db) :
    Nat → DbProg (Option DbfsHandle) → Prop
  | start {fuel} : Progress o path db 0 (o.back path (fuel + 2))
  | creating {fuel} : Progress o path db 1 (o.creating path (fuel + 1))
  | created {fuel ddd} : db.lookup (.dentry path) = some ddd →
      Progress o path db 2 (o.back path (fuel + 1))
  | done {calls dh} : calls ≤ 3 → Progress o path db calls (.ret (some dh))

theorem Progress.mono {calls : Nat} {x : DbProg (Option DbfsHandle)}
    (h : Progress o path db calls x) (hadds : AddsOnly path db db') :
    Progress o path db' calls x := by
  cases h with
  | start => exact .start
  | creating => exact .creating
  | created hlookup => exact .created (hadds.stays _ hlookup)
  | done hle => exact .done hle

theorem Progress.call {calls : Nat} {x x' : DbProg (Option DbfsHandle)}
    (h : Progress o path db calls x) (ho : o.Persistent) (hcall : Prog.Call x db none x' db') :
    AddsOnly path db db' ∧ Progress o path db' (calls + 1) x' := by
  cases h with
  | @start fuel =>
      rw [back_eq_get ho] at hcall
      cases hcall with
      | get =>
          refine ⟨.refl path db, ?_⟩
          cases hlookup : db.lookup (.dentry path) with
          | none =>
              rw [fetch_of_lookup_none hlookup]
              exact .creating
          | some ddd =>
              rw [fetch_of_lookup hlookup]
              exact .done (by decide)
  | @creating fuel =>
      obtain ⟨ddd, hput⟩ := creating_eq_put ho path (fuel + 1)
      rw [hput] at hcall
      cases hcall with
      | put =>
          -- the record is there now, whoever made it
          refine ⟨addsOnly_store path ddd db, ?_⟩
          cases hlookup : db.lookup (.dentry path) with
          | none =>
              rw [store_noOverwrite_of_none _ hlookup]
              exact .created (Finmap.lookup_insert _)
          | some old =>
              rw [store_noOverwrite_of_some _ hlookup]
              exact .created hlookup
  | @created fuel ddd hlookup =>
      rw [back_eq_get ho] at hcall
      cases hcall with
      | get =>
          rw [fetch_of_lookup hlookup]
          exact ⟨.refl path _, .done (by decide)⟩
  | done hle => cases hcall

theorem Progress.can_call {calls : Nat} {x : DbProg (Option DbfsHandle)}
    (h : Progress o path db calls x) (ho : o.Persistent) :
    (∃ dh, x = .ret (some dh)) ∨ ∃ x' db', Prog.Call x db none x' db' := by
  cases h with
  | @start fuel =>
      rw [back_eq_get ho]
      exact .inr ⟨_, _, .get⟩
  | @creating fuel =>
      obtain ⟨ddd, hput⟩ := creating_eq_put ho path (fuel + 1)
      rw [hput]
      exact .inr ⟨_, _, .put⟩
  | @created fuel ddd hlookup =>
      rw [back_eq_get ho]
      exact .inr ⟨_, _, .get⟩
  | done hle => exact .inl ⟨_, rfl⟩

theorem Progress.le_three {calls : Nat} {x : DbProg (Option DbfsHandle)}
    (h : Progress o path db calls x) :
    calls ≤ 3 ∧ (calls = 3 → ∃ dh, x = .ret (some dh)) := by
  cases h with
  | start | creating | created => exact ⟨by decide, fun h => by cases h⟩
  | done hle => exact ⟨hle, fun _ => ⟨_, rfl⟩⟩

/--
A thread whose calls succeed has its handle after three calls of its own, whatever calls of the
others fall between them and whichever of those fail, and until then it can make another one.
-/
theorem opener_done_after_three_calls (path : CStr) (openers : ι → Opener) (fuel : ι → Nat)
    (db : Db) (schedule : List ι) (i : ι) (s : Pool ι Rec (Option DbfsHandle))
    (hopener : (openers i).Persistent) (hfuel : 2 ≤ fuel i)
    (h : Run (StepFor i) (startOpeners path openers fuel db) schedule s) :
    schedule.count i ≤ 3 ∧
      (schedule.count i = 3 → ∃ dh, s.threads i = .ret (some dh)) ∧
      ((∃ dh, s.threads i = .ret (some dh)) ∨ ∃ s', CallSucceeds s i s') := by
  have hprogress : (∀ j, (s.threads j).Satisfies (AddsOnly path) (AddsOnly path)
      (fun r db => ∀ dh, r = some dh → OpenedAt path .stream db dh) s.db) ∧
        Progress (openers i) path s.db (schedule.count i) (s.threads i) := by
    apply h.invariant_log (I := fun schedule s =>
      (∀ j, (s.threads j).Satisfies (AddsOnly path) (AddsOnly path)
        (fun r db => ∀ dh, r = some dh → OpenedAt path .stream db dh) s.db) ∧
        Progress (openers i) path s.db (schedule.count i) (s.threads i))
    · refine ⟨fun j => satisfies_back (openers j) path (fuel j) db, ?_⟩
      obtain ⟨extra, hextra⟩ := Nat.exists_eq_add_of_le' hfuel
      simp only [startOpeners, hextra, List.count_nil]
      exact .start
    · rintro schedule s j s' ⟨hall, hprogress⟩ ⟨hstep, hsucceeds⟩
      obtain ⟨hadds, hall'⟩ := Pool.all_satisfy_of_run (.single hstep) hall (.refl path) .trans
      refine ⟨hall', ?_⟩
      rw [List.count_append, List.count_singleton]
      by_cases hij : j = i
      · subst hij
        obtain ⟨x', db', hcall, rfl⟩ := hsucceeds rfl
        simpa using (hprogress.call hopener hcall).2
      · have hji : (j == i) = false := by simpa using hij
        cases hstep with
        | call hcall =>
            simp only [Function.update_of_ne (Ne.symm hij), hji]
            exact hprogress.mono hadds
  obtain ⟨hle, hdone⟩ := hprogress.2.le_three
  refine ⟨hle, hdone, ?_⟩
  rcases hprogress.2.can_call hopener with hdone | ⟨x', db', hcall⟩
  · exact .inl hdone
  · exact .inr ⟨_, x', db', hcall, rfl⟩

def plainOpener : Opener where
  round := fun _ => ⟨plainHeap, plainHeap, plainProc, 2⟩
  mode := 0o664
  givesUp := false

def bothOpen : Pool Bool Rec (Option DbfsHandle) :=
  startOpeners pathA (fun _ => plainOpener) (fun _ => 2) (mkdbfsDb plainProc)

def inTurn : List Bool := [false, true, false, true, false, true]

theorem run_bothOpen : ∃ s dh dh', Run CallSucceeds bothOpen inTurn s ∧
    s.threads false = .ret (some dh) ∧ s.threads true = .ret (some dh') := by
  refine ⟨_, _, _, .cons ⟨_, _, .get, rfl⟩ <| .cons ⟨_, _, .get, rfl⟩ <| .cons ⟨_, _, .put, rfl⟩ <|
    .cons ⟨_, _, .put, rfl⟩ <| .cons ⟨_, _, .get, rfl⟩ <| .single ⟨_, _, .get, rfl⟩, rfl, rfl⟩

theorem openers_share_record_both : ∃ (s : Pool Bool Rec (Option DbfsHandle)) (dh dh' : DbfsHandle),
    s.threads false = .ret (some dh) ∧ s.threads true = .ret (some dh') ∧
      dh.attrDdd = dh'.attrDdd := by
  obtain ⟨s, dh, dh', hrun, hfirst, hsecond⟩ := run_bothOpen
  have hsteps : Run Pool.Step bothOpen inTurn s := by
    apply hrun.mono
    rintro s i s' ⟨x', db', hcall, rfl⟩
    exact .call hcall
  obtain ⟨-, hopened⟩ := openers_share_record pathA (fun _ => plainOpener) (fun _ => 2)
    (mkdbfsDb plainProc) inTurn [] s s hsteps .nil
  have hsame := (hopened false dh hfirst).stored.symm.trans (hopened true dh' hsecond).stored
  exact ⟨s, dh, dh', hfirst, hsecond, Option.some.inj hsame⟩

theorem opener_done_after_three_calls_both : ∃ (s : Pool Bool Rec (Option DbfsHandle)),
    Run (StepFor true) bothOpen inTurn s ∧ ∃ dh, s.threads true = .ret (some dh) := by
  obtain ⟨s, -, -, hrun, -⟩ := run_bothOpen
  have hsteps : Run (StepFor true) bothOpen inTurn s := by
    apply hrun.mono
    rintro s i s' ⟨x', db', hcall, rfl⟩
    refine ⟨.call hcall, ?_⟩
    rintro rfl
    exact ⟨x', db', hcall, rfl⟩
  have hplain : plainOpener.Persistent := ⟨fun _ => rfl, fun _ => rfl, rfl⟩
  obtain ⟨-, hdone, -⟩ := opener_done_after_three_calls pathA (fun _ => plainOpener) (fun _ => 2)
    (mkdbfsDb plainProc) inTurn true s hplain (le_refl _) hsteps
  exact ⟨s, hsteps, hdone (by decide)⟩

end Mangoo.Samp
