import Mangoo.Dbfs.Store

/-!
# Removing entries

What `dbfs_delete` does to the database.  For a directory the emptiness check
lets Berkeley DB return the following key into the very buffer from which the
removal then takes the key to delete, so the record that goes depends on the
key order around the directory.
-/

namespace Mangoo.Dbfs

open Mangoo.Foundation

/-- The emptiness check passes. -/
def LooksEmpty (db : Db) (locator : CStr) : Prop :=
  ∀ key, nextKey db (.dentry locator) = some key → deldCheck locator key = 0

/-- The key in the buffer of the handle when the record is removed. -/
def deldKey (heap : Heap) (db : Db) (locator : CStr) : Key :=
  match nextKey db (.dentry locator) with
  | none => .dentry locator
  | some key => if keySize key ≤ dbfsDdkSize locator then key else heap.regrow key

/-- What the emptiness check returns. -/
def deldResult (db : Db) (locator : CStr) : Int :=
  match nextKey db (.dentry locator) with
  | none => 0
  | some key => deldCheck locator key

variable {faulty : Prop} {db db' : Db} {heap : Heap} {locator : CStr} {error : Int}

/-! ## The emptiness check -/

theorem attrDdk_movedTo_initHandle (record : DentryData) {key : Key}
    (hkey : nextKey db (.dentry locator) = some key) :
    ({ initHandle locator record with dbc := some (.dentry locator) }.movedTo heap key).attrDdk =
      deldKey heap db locator := by
  unfold deldKey
  rw [hkey]
  rfl

theorem exec_dbfsDeld (ddd : DentryData) {dh : DbfsHandle}
    (h : Prog.Exec faulty (dbfsDeld heap (initHandle locator ddd)) db
      (error, dh) db') :
    db' = db ∧ (error ≠ 0 ∨ error = 0 ∧ LooksEmpty db locator ∧
      dh.attrDdk = deldKey heap db locator) := by
  simp only [dbfsDeld, Prog.exec_bind] at h
  obtain ⟨⟨code, dh₁⟩, mid, hset, hrest⟩ := h
  obtain ⟨rfl, hcode | ⟨rfl, record, -, rfl⟩⟩ := exec_dbfsCursorset (by rfl) hset
  · rw [if_pos hcode, Prog.exec_pure] at hrest
    obtain ⟨heq, rfl⟩ := hrest
    cases heq
    exact ⟨rfl, .inl hcode⟩
  · simp only [ne_eq, not_true_eq_false, if_false, Prog.exec_bind, cursorNext,
      Prog.exec_nextRec] at hrest
    obtain ⟨result, final, ⟨rfl, hnext⟩, hret⟩ := hrest
    cases result with
    | error code =>
        simp only [Prog.exec_pure, Prod.mk.injEq] at hret
        obtain ⟨⟨rfl, rfl⟩, rfl⟩ := hret
        refine ⟨rfl, ?_⟩
        by_cases hz : code = dbNotfound
        · have hnone : nextKey db' (.dentry locator) = none := by
            rcases hnext with hnext | ⟨-, e, he, hnext⟩
            · exact (advance_error hnext.symm).2
            · cases hnext
              exact absurd hz he.2
          right
          refine ⟨by rw [if_pos hz], ?_, ?_⟩
          · intro key hkey
            rw [hnone] at hkey
            cases hkey
          · simp [deldKey, hnone, initHandle]
        · left
          rw [if_neg hz]
          decide
    | ok found =>
        obtain ⟨key, record'⟩ := found
        simp only [Prog.exec_pure, Prod.mk.injEq] at hret
        obtain ⟨⟨rfl, rfl⟩, rfl⟩ := hret
        have hkey : nextKey db' (.dentry locator) = some key := by
          rcases hnext with hnext | ⟨-, e, -, hnext⟩
          · exact (advance_eq_ok_iff.mp hnext.symm).1
          · cases hnext
        refine ⟨rfl, ?_⟩
        by_cases hz : deldCheck locator key = 0
        · right
          refine ⟨hz, ?_, attrDdk_movedTo_initHandle record hkey⟩
          intro key' hkey'
          rw [hkey] at hkey'
          cases hkey'
          exact hz
        · exact .inl hz

/-! ## The removal -/

theorem exec_dbfsDela {dh : DbfsHandle}
    (h : Prog.Exec faulty (dbfsDela dh) db error db') :
    error ≠ 0 ∧ db' = db ∨
      error = 0 ∧ dh.attrDdk ∈ db ∧ db' = db.erase dh.attrDdk := by
  simp only [dbfsDela, Prog.exec_bind, Prog.exec_delRec] at h
  obtain ⟨code, mid, hdel | ⟨-, hfault, rfl⟩, hret⟩ := h
  · by_cases hmem : dh.attrDdk ∈ db
    · rw [remove_of_mem hmem] at hdel
      cases hdel
      simp only [ne_eq, not_true_eq_false, if_false, Prog.exec_pure] at hret
      exact .inr ⟨hret.1, hmem, hret.2⟩
    · rw [remove_of_notMem hmem] at hdel
      cases hdel
      rw [if_pos (by decide), if_pos rfl, Prog.exec_pure] at hret
      exact .inl ⟨by rw [hret.1]; decide, hret.2⟩
  · rw [if_pos hfault.1, if_neg hfault.2, Prog.exec_pure] at hret
    exact .inl ⟨by rw [hret.1]; decide, hret.2⟩

theorem exec_truncateLoop_empty {ino : UInt64} {fuel : Nat} {l : TruncLocals}
    (hsize : l.size = 0) (hoffset : l.dbkOffset = l.offset)
    (h : Prog.Exec faulty (truncateLoop ino fuel l) db error db') :
    faulty ∧ error ≠ 0 ∧ (db' = db ∨ db' = db.erase (.block ino l.offset)) := by
  -- with a size of zero the offset never moves
  induction fuel generalizing l db with
  | zero =>
      rw [truncateLoop, if_pos (by rw [hsize]; decide)] at h
      exact absurd h Prog.exec_spin
  | succ fuel ih =>
      rw [truncateLoop, if_pos (by rw [hsize]; decide)] at h
      simp only [hsize, hoffset, UInt64.sub_self, UInt64.add_zero, Prog.exec_bind,
        Prog.exec_delRec] at h
      rw [if_neg (by decide)] at h
      simp only [UInt64.sub_self, UInt64.add_zero] at h
      obtain ⟨code, mid, hdel | ⟨hf, hfault, rfl⟩, hrest⟩ := h
      · by_cases hmem : Key.block ino l.offset ∈ db
        · rw [remove_of_mem hmem] at hdel
          cases hdel
          rw [if_neg (by decide)] at hrest
          obtain ⟨hf, herror, heq | heq⟩ := ih (by rfl) (by rfl) hrest
          · exact ⟨hf, herror, .inr heq⟩
          · refine ⟨hf, herror, .inr ?_⟩
            rw [heq]
            exact erase_of_notMem Finmap.notMem_erase_self
        · rw [remove_of_notMem hmem] at hdel
          cases hdel
          rw [if_neg (by decide)] at hrest
          obtain ⟨hf, herror, hdb⟩ := ih (by rfl) (by rfl) hrest
          exact ⟨hf, herror, hdb⟩
      · rw [if_pos ⟨hfault.1, hfault.2⟩, Prog.exec_pure] at hrest
        exact ⟨hf, by rw [hrest.1]; decide, .inl hrest.2⟩

theorem exec_dbfsDels {fuel : Nat} {dh : DbfsHandle}
    (h : Prog.Exec faulty (dbfsDels fuel dh) db error db') :
    error = 0 ∧ dh.attrDdd.dddSize ≠ 0 ∧ db' = db ∨
      faulty ∧ error ≠ 0 ∧ dh.attrDdd.dddSize = 0 ∧
        (db' = db ∨ db' = db.erase (.block dh.attrDdd.dddIno 0)) := by
  by_cases hsize : dh.attrDdd.dddSize = 0
  · right
    rw [dbfsDels, dbfsTruncateblocks] at h
    obtain ⟨hf, herror, hdb⟩ :=
      exec_truncateLoop_empty (by simp [hsize]) (by rfl) h
    exact ⟨hf, herror, hsize, hdb⟩
  · left
    have hlt : 0 < dh.attrDdd.dddSize := by
      rw [UInt64.lt_iff_toNat_lt]
      have hnat : dh.attrDdd.dddSize.toNat ≠ 0 :=
        fun heq => hsize (UInt64.toNat_inj.mp heq)
      simp only [UInt64.toNat_zero]
      omega
    rw [dbfsDels, dbfsTruncateblocks_of_lt fuel hlt, Prog.exec_pure] at h
    exact ⟨h.1, hsize, h.2⟩

theorem exec_dbfsDelete {fuel : Nat}
    (h : Prog.Exec faulty (dbfsDelete heap fuel locator) db error db') :
    error ≠ 0 ∧ (db' = db ∨ ∃ ino, db' = db.erase (.block ino 0)) ∨
      error = 0 ∧ locator ≠ rootPath ∧ ∃ ddd : DentryData,
        db.lookup (.dentry locator) = some ddd ∧
        (MangooTypes.ofUInt32? ddd.dddType = some .container ∧ LooksEmpty db locator ∧
            deldKey heap db locator ∈ db ∧ db' = db.erase (deldKey heap db locator) ∨
          MangooTypes.ofUInt32? ddd.dddType = some .data ∧ ddd.dddSize ≠ 0 ∧
            db' = db.erase (.dentry locator)) := by
  unfold dbfsDelete dbfsCreatehandle at h
  split at h
  · rw [Prog.exec_pure] at h
    exact .inl ⟨by rw [h.1]; decide, .inl h.2⟩
  · rename_i hroot
    cases hok : heap.ok with
    | false =>
        simp only [hok, Bool.false_eq_true, if_false, Prog.exec_pure] at h
        exact .inl ⟨by rw [h.1]; decide, .inl h.2⟩
    | true =>
        simp only [hok, if_true, initHandle, Key.ddkPath_dentry, Prog.exec_bind] at h
        obtain ⟨⟨code, ddd⟩, mid, hread, hrest⟩ := h
        obtain ⟨rfl, ⟨rfl, hlookup⟩ | ⟨hcode, -⟩⟩ := exec_dbfsReadAttr hread
        · simp only [ne_eq, not_true_eq_false, if_false] at hrest
          split at hrest
          · rename_i htype
            simp only [Prog.exec_bind] at hrest
            obtain ⟨⟨code, dh⟩, mid', hdeld, hrest⟩ := hrest
            obtain ⟨rfl, hcode | ⟨rfl, hempty, hkey⟩⟩ :=
              exec_dbfsDeld ddd hdeld
            · rw [if_pos hcode, Prog.exec_pure] at hrest
              exact .inl ⟨by rw [hrest.1]; exact hcode, .inl hrest.2⟩
            · rw [if_neg (by simp)] at hrest
              rcases exec_dbfsDela hrest with ⟨herror, rfl⟩ | ⟨rfl, hrecord, rfl⟩
              · exact .inl ⟨herror, .inl rfl⟩
              · rw [hkey] at hrecord ⊢
                exact .inr ⟨rfl, hroot, ddd, hlookup, .inl ⟨htype, hempty, hrecord, rfl⟩⟩
          · rename_i htype
            simp only [Prog.exec_bind] at hrest
            obtain ⟨code, mid', hdels, hrest⟩ := hrest
            rcases exec_dbfsDels hdels with
              ⟨rfl, hsize, rfl⟩ | ⟨-, hcode, -, hdb⟩
            · rw [if_neg (by simp)] at hrest
              rcases exec_dbfsDela hrest with ⟨herror, rfl⟩ | ⟨rfl, -, rfl⟩
              · exact .inl ⟨herror, .inl rfl⟩
              · exact .inr ⟨rfl, hroot, ddd, hlookup, .inr ⟨htype, hsize, rfl⟩⟩
            · rw [if_pos hcode, Prog.exec_pure] at hrest
              obtain ⟨rfl, rfl⟩ := hrest
              exact .inl ⟨hcode, hdb.imp id fun heq => ⟨_, heq⟩⟩
          · rw [Prog.exec_pure] at hrest
            exact .inl ⟨by rw [hrest.1]; decide, .inl hrest.2⟩
        · rw [if_pos hcode, Prog.exec_pure] at hrest
          exact .inl ⟨by rw [hrest.1]; exact hcode, .inl hrest.2⟩

/-! ## Which record a directory removal takes -/

theorem looksEmpty_iff : LooksEmpty db locator ↔ deldResult db locator = 0 := by
  unfold LooksEmpty deldResult
  cases hnext : nextKey db (.dentry locator) with
  | none => simp
  | some key => simp

theorem run_dbfsDeld (heap : Heap) (ddd : DentryData) {record : DentryData}
    (hlookup : db.lookup (.dentry locator) = some record) :
    ∃ dh : DbfsHandle, dh.attrDdk = deldKey heap db locator ∧
      (dbfsDeld heap (initHandle locator ddd)).run db =
        some ((deldResult db locator, dh), db) := by
  have hset : (dbfsCursorset (initHandle locator ddd)).run db =
      some ((0, { initHandle locator record with dbc := some (.dentry locator) }), db) := by
    simp [dbfsCursorset, initHandle, fetch_of_lookup hlookup, strcmp_eq_zero.mpr]
  cases hnext : nextKey db (.dentry locator) with
  | none =>
      refine ⟨{ initHandle locator record with dbc := some (.dentry locator) }, ?_, ?_⟩
      · simp [deldKey, hnext, initHandle]
      · simp [dbfsDeld, hset, cursorNext, advance_of_nextKey_none hnext, deldResult, hnext]
  | some key =>
      obtain ⟨hmem, -, -⟩ := nextKey_eq_some_iff.mp hnext
      obtain ⟨found, hfound⟩ := Finmap.mem_iff.mp hmem
      have hlocator : (initHandle locator record).locator = locator := rfl
      refine ⟨{ initHandle locator record with dbc := some (.dentry locator) }.movedTo heap key,
        attrDdk_movedTo_initHandle record hnext, ?_⟩
      simp [dbfsDeld, hset, cursorNext, advance_of_nextKey_some hnext hfound, hlocator,
        deldResult, hnext]

theorem run_dbfsDelete_directory (fuel : Nat) {ddd : DentryData}
    (hok : heap.ok = true) (hroot : locator ≠ rootPath)
    (hlookup : db.lookup (.dentry locator) = some ddd)
    (htype : MangooTypes.ofUInt32? ddd.dddType = some .container) :
    (dbfsDelete heap fuel locator).run db = some (
      if deldResult db locator ≠ 0 then (deldResult db locator, db)
      else if deldKey heap db locator ∈ db then (0, db.erase (deldKey heap db locator))
      else (enoent, db)) := by
  obtain ⟨dh, hkey, hdeld⟩ := run_dbfsDeld heap ddd hlookup
  have hinit : (initHandle locator ⟨0, 0, 0, 0, 0, 0, 0, 0⟩).attrDdk.ddkPath = locator := rfl
  have hcopy : { initHandle locator ⟨0, 0, 0, 0, 0, 0, 0, 0⟩ with attrDdd := ddd } =
      initHandle locator ddd := rfl
  rw [← hkey]
  by_cases hresult : deldResult db locator = 0
  · by_cases hrecord : dh.attrDdk ∈ db
    · simp [dbfsDelete, hroot, dbfsCreatehandle, hok, hinit, hcopy,
        run_dbfsReadAttr_of_some hlookup, htype, hdeld, dbfsDela, hresult,
        remove_of_mem hrecord, hrecord]
    · simp [dbfsDelete, hroot, dbfsCreatehandle, hok, hinit, hcopy,
        run_dbfsReadAttr_of_some hlookup, htype, hdeld, dbfsDela, hresult,
        remove_of_notMem hrecord, hrecord, dbNotfound]
  · simp [dbfsDelete, hroot, dbfsCreatehandle, hok, hinit, hcopy,
      run_dbfsReadAttr_of_some hlookup, htype, hdeld, hresult]

theorem run_dbfsDelete_container (fuel : Nat) {ddd : DentryData}
    (hok : heap.ok = true) (hroot : locator ≠ rootPath)
    (hlookup : db.lookup (.dentry locator) = some ddd)
    (htype : MangooTypes.ofUInt32? ddd.dddType = some .container)
    (hempty : LooksEmpty db locator)
    (hrecord : deldKey heap db locator ∈ db) :
    (dbfsDelete heap fuel locator).run db =
      some (0, db.erase (deldKey heap db locator)) := by
  rw [run_dbfsDelete_directory fuel hok hroot hlookup htype,
    if_neg (not_not_intro (looksEmpty_iff.mp hempty)), if_pos hrecord]

theorem run_dbfsDelete_data (fuel : Nat) {ddd : DentryData}
    (hok : heap.ok = true) (hroot : locator ≠ rootPath)
    (hlookup : db.lookup (.dentry locator) = some ddd)
    (htype : MangooTypes.ofUInt32? ddd.dddType = some .data) (hsize : 0 < ddd.dddSize) :
    (dbfsDelete heap fuel locator).run db = some (0, db.erase (.dentry locator)) := by
  have hinit : (initHandle locator ⟨0, 0, 0, 0, 0, 0, 0, 0⟩).attrDdk = .dentry locator := rfl
  have hrecord : Key.dentry locator ∈ db := Finmap.mem_iff.mpr ⟨_, hlookup⟩
  simp [dbfsDelete, hroot, dbfsCreatehandle, hok, hinit,
    run_dbfsReadAttr_of_some hlookup, htype, dbfsDels, dbfsTruncateblocks_of_lt fuel hsize,
    dbfsDela, remove_of_mem hrecord]

/--
When the removal of a directory that looks empty takes the directory's own
record: nothing follows it in key order, the key that follows keeps the call from
removing anything, or that key made Berkeley DB move the key buffer and the freed
bytes still hold the directory's own key or the key of no record.
-/
def OwnRecordGoes (heap : Heap) (db : Db) (locator : CStr) : Prop :=
  ∀ key, nextKey db (.dentry locator) = some key →
    deldCheck locator key ≠ 0 ∨
      dbfsDdkSize locator < keySize key ∧
        (heap.regrow key = .dentry locator ∨ heap.regrow key ∉ db)

theorem deldKey_of_last (heap : Heap) (h : ∀ key ∈ db, key ≤ .dentry locator) :
    deldKey heap db locator = .dentry locator := by
  have hnone := nextKey_eq_none_iff.mpr fun key hmem => not_lt_of_ge (h key hmem)
  simp only [deldKey, hnone]

theorem deldKey_of_ownRecordGoes (hown : OwnRecordGoes heap db locator)
    (hempty : LooksEmpty db locator) :
    deldKey heap db locator = .dentry locator ∨ deldKey heap db locator ∉ db := by
  cases hnext : nextKey db (.dentry locator) with
  | none => exact .inl (by simp only [deldKey, hnext])
  | some key =>
      rcases hown key hnext with hcheck | ⟨hsize, hkey⟩
      · exact absurd (hempty key hnext) hcheck
      · simpa only [deldKey, hnext, if_neg (Nat.not_le_of_lt hsize)] using hkey

/-- A deletion of a directory that returns `0` removes exactly the directory's
record if and only if `OwnRecordGoes`. -/
theorem container_removal_exact_iff (faulty : Prop) (heap : Heap) (fuel : Nat)
    (db : Db) (locator : CStr) (ddd : DentryData) (hroot : locator ≠ rootPath)
    (hlookup : db.lookup (.dentry locator) = some ddd)
    (htype : MangooTypes.ofUInt32? ddd.dddType = some .container) :
    (∀ db', Prog.Exec faulty (dbfsDelete heap fuel locator) db 0 db' →
        db' = db.erase (.dentry locator)) ↔
      (heap.ok = true → OwnRecordGoes heap db locator) := by
  constructor
  · intro hexact hok key hnext
    by_contra hnot
    push Not at hnot
    obtain ⟨hcheck, hmoved⟩ := hnot
    have hempty : LooksEmpty db locator := by
      intro key' hnext'
      rw [hnext] at hnext'
      cases hnext'
      exact hcheck
    obtain ⟨hmem, hlt, -⟩ := nextKey_eq_some_iff.mp hnext
    have hother : deldKey heap db locator ≠ .dentry locator ∧
        deldKey heap db locator ∈ db := by
      simp only [deldKey, hnext]
      split
      · exact ⟨hlt.ne', hmem⟩
      · exact hmoved (by omega)
    obtain ⟨hne, hrecord⟩ := hother
    have hrun := run_dbfsDelete_container fuel hok hroot hlookup htype
      hempty hrecord
    have heq := hexact _ (Prog.exec_of_run hrun)
    exact hne ((erase_eq_erase_iff hrecord).mp heq)
  · intro hown db' hexec
    rcases exec_dbfsDelete hexec with ⟨herror, -⟩ | ⟨-, -, ddd', hlookup', hcase⟩
    · exact absurd rfl herror
    · rw [hlookup] at hlookup'
      cases hlookup'
      rcases hcase with ⟨-, hempty, hrecord, rfl⟩ | ⟨htype', -, -⟩
      · have hok : heap.ok = true := by
          cases hok : heap.ok with
          | true => rfl
          | false =>
              simp only [dbfsDelete, if_neg hroot, dbfsCreatehandle, hok,
                Bool.false_eq_true, if_false, Prog.exec_pure] at hexec
              exact absurd hexec.1 (by decide)
        rcases deldKey_of_ownRecordGoes (hown hok) hempty with heq | hnone
        · rw [heq]
        · exact absurd hrecord hnone
      · rw [htype] at htype'
        cases htype'

def directoryRecord (ino : UInt64) : DentryData := ⟨0, 0o755, ino, 0, 0, 0, 0, 0⟩

def siblingDb : Db :=
  (((∅ : Db).insert (Key.dentry rootPath) (directoryRecord 1)).insert
    (Key.dentry pathA) (directoryRecord 2)).insert (Key.dentry pathB) (directoryRecord 3)

theorem container_removal_exact_last :
    (∀ db', Prog.Exec True (dbfsDelete plainHeap 0 pathB) siblingDb 0 db' →
        db' = siblingDb.erase (.dentry pathB)) ∧
      (dbfsDelete plainHeap 0 pathB).run siblingDb =
        some (0, siblingDb.erase (.dentry pathB)) := by
  constructor
  · apply (container_removal_exact_iff True plainHeap 0 siblingDb pathB
      (directoryRecord 3) (by decide) rfl rfl).mpr
    intro _ key hnext
    rw [show nextKey siblingDb (.dentry pathB) = none from rfl] at hnext
    cases hnext
  · rfl

/-- Removing `"/a"` reports success and removes `"/b"`. -/
theorem container_removal_takes_sibling :
    ¬ ∀ (heap : Heap) (fuel : Nat) (db : Db) (locator : CStr) (ddd : DentryData),
      locator ≠ rootPath → db.lookup (.dentry locator) = some ddd →
      MangooTypes.ofUInt32? ddd.dddType = some .container →
      ∀ db', Prog.Exec False (dbfsDelete heap fuel locator) db 0 db' →
        db' = db.erase (.dentry locator) := by
  intro hlaw
  have hrun : (dbfsDelete plainHeap 0 pathA).run siblingDb =
      some (0, siblingDb.erase (.dentry pathB)) := rfl
  have heq := hlaw plainHeap 0 siblingDb pathA (directoryRecord 2) (by decide) rfl rfl
    _ (Prog.exec_iff_run.mpr hrun)
  have hlookup := congrArg (Finmap.lookup (Key.dentry pathA)) heq
  revert hlookup
  decide

end Mangoo.Dbfs
