import Mangoo.Dbfs.BlockLoop
import Mangoo.Dbfs.Removal

/-!
# Truncation

The loop of `dbfs_truncateblocks` runs only when nothing is left to remove, and then
it does not end.  `dbfs_setsize` never enters it and `dbfs_delete` enters it for the
files of size zero.
-/

namespace Mangoo.Dbfs

open Mangoo.Foundation

variable {db : Db} {ino : UInt64}

/-! ## The truncation loop -/

theorem run_truncateLoop_empty {l : TruncLocals} (fuel : Nat) (db : Db) (hsize : l.size = 0)
    (hoff : l.offset - l.dbkOffset ≤ dbfsBlksize) :
    (truncateLoop ino fuel l).run db = none := by
  induction fuel generalizing l db with
  | zero =>
      rw [truncateLoop, if_pos (by rw [hsize]; decide)]
      rfl
  | succ fuel ih =>
      have hblock : ¬ l.offset - l.dbkOffset + 0 > dbfsBlksize := by
        rw [UInt64.add_zero, gt_iff_lt, UInt64.not_lt]
        exact hoff
      have hcode : ¬ ((remove db (Key.block ino l.dbkOffset)).1 ≠ 0 ∧
          (remove db (Key.block ino l.dbkOffset)).1 ≠ dbNotfound) := by
        unfold remove
        split <;> simp
      rw [truncateLoop, if_pos (by rw [hsize]; decide)]
      simp only [hsize, if_neg hblock, Prog.run_bind, Prog.run_delRec, Option.bind_some,
        if_neg hcode]
      exact ih _ rfl (by simp)

theorem run_dbfsTruncateblocks_empty (fuel : Nat) (ino offset : UInt64) (db : Db) :
    (dbfsTruncateblocks fuel ino offset offset).run db = none := by
  unfold dbfsTruncateblocks
  apply run_truncateLoop_empty
  · exact UInt64.sub_self _
  · rw [UInt64.le_iff_toNat_le, toNat_sub_blockOffset, toNat_dbfsBlksize]
    omega

theorem dbfsTruncateblocks_returns_iff (ino : UInt64) {offset stop : UInt64} (db : Db)
    (h : offset.toNat ≤ stop.toNat) :
    (∃ fuel result, (dbfsTruncateblocks fuel ino offset stop).run db = some result) ↔
      offset ≠ stop := by
  constructor
  · rintro ⟨fuel, result, hrun⟩ rfl
    rw [run_dbfsTruncateblocks_empty] at hrun
    cases hrun
  · intro hne
    have hlt : offset < stop := by
      have hne' : offset.toNat ≠ stop.toNat := fun heq => hne (UInt64.toNat_inj.mp heq)
      rw [UInt64.lt_iff_toNat_lt]
      omega
    exact ⟨0, (0, db), by rw [dbfsTruncateblocks_of_lt 0 hlt]; rfl⟩

theorem run_dbfsSetsize (fuel : Nat) (dh : DbfsHandle) (size : UInt64) (db : Db) :
    (dbfsSetsize fuel dh size).run db =
      some ((0, { dh with attrDdd := { dh.attrDdd with dddSize := size } }),
        db.insert (.dentry dh.attrDdk.ddkPath) { dh.attrDdd with dddSize := size }) := by
  rw [dbfsSetsize_eq, run_setAttr]

theorem dbfsDelete_returns_iff (heap : Heap) {locator : CStr} {ddd : DentryData}
    (hlookup : db.lookup (.dentry locator) = some ddd) (htype : IsData ddd.dddType) :
    (∃ fuel result, (dbfsDelete heap fuel locator).run db = some result) ↔
      heap.ok = false ∨ locator = rootPath ∨ ddd.dddSize ≠ 0 := by
  have hdata : MangooTypes.ofUInt32? ddd.dddType = some .data := htype
  by_cases hroot : locator = rootPath
  · refine iff_of_true ⟨0, (einval, db), ?_⟩ (.inr (.inl hroot))
    simp [dbfsDelete, hroot]
  · cases hok : heap.ok with
    | false =>
        refine iff_of_true ⟨0, (enomem, db), ?_⟩ (.inl rfl)
        simp [dbfsDelete, hroot, dbfsCreatehandle, hok]
    | true =>
        by_cases hsize : ddd.dddSize = 0
        · refine iff_of_false ?_ (by simp [hroot, hsize])
          rintro ⟨fuel, ⟨error, db'⟩, hrun⟩
          have hnone := run_dbfsTruncateblocks_empty fuel ddd.dddIno 0 db
          simp [dbfsDelete, hroot, dbfsCreatehandle, hok, initHandle,
            run_dbfsReadAttr_of_some hlookup, hdata, dbfsDels, hsize, hnone] at hrun
        · have hpos : 0 < ddd.dddSize := by
            have hne := toNat_ne_zero hsize
            rw [UInt64.lt_iff_toNat_lt, UInt64.toNat_zero]
            omega
          exact iff_of_true ⟨0, _, run_dbfsDelete_data 0 hok hroot hlookup htype hpos⟩
            (.inr (.inr hsize))

/-- The truncation loop returns exactly for non-empty ranges, so that deleting a data file
returns exactly when its size is not zero; changing the size always returns. -/
theorem truncation_returns_iff (heap : Heap) (db : Db) :
    (∀ ino offset stop : UInt64, offset.toNat ≤ stop.toNat →
      ((∃ fuel result, (dbfsTruncateblocks fuel ino offset stop).run db = some result) ↔
        offset ≠ stop)) ∧
    (∀ locator ddd, db.lookup (.dentry locator) = some ddd → IsData ddd.dddType →
      ((∃ fuel result, (dbfsDelete heap fuel locator).run db = some result) ↔
        heap.ok = false ∨ locator = rootPath ∨ ddd.dddSize ≠ 0)) ∧
    ∀ fuel dh size, ∃ result, (dbfsSetsize fuel dh size).run db = some result := by
  refine ⟨?_, ?_, ?_⟩
  · intro ino offset stop h
    exact dbfsTruncateblocks_returns_iff ino db h
  · intro locator ddd hlookup htype
    exact dbfsDelete_returns_iff heap hlookup htype
  · intro fuel dh size
    exact ⟨_, run_dbfsSetsize fuel dh size db⟩

theorem lookup_fileDb_pathA :
    fileDb.lookup (.dentry pathA) = some (⟨1, 0o644, 2, 5, 0, 0, 0, 0⟩ : DentryData) :=
  Finmap.lookup_insert _

theorem truncation_returns_five :
    (∃ fuel result, (dbfsTruncateblocks fuel 2 0 5).run fileDb = some result) ∧
      ∃ fuel result, (dbfsDelete plainHeap fuel pathA).run fileDb = some result := by
  obtain ⟨hloop, hdelete, -⟩ := truncation_returns_iff plainHeap fileDb
  exact ⟨(hloop 2 0 5 (by decide)).mpr (by decide),
    (hdelete pathA _ lookup_fileDb_pathA rfl).mpr (.inr (.inr (by decide)))⟩

/-- The empty range, and the file that was created and never written. -/
theorem empty_truncation_spins :
    (¬ ∀ (ino offset stop : UInt64) (db : Db), offset.toNat ≤ stop.toNat →
      ∃ fuel result, (dbfsTruncateblocks fuel ino offset stop).run db = some result) ∧
    ¬ ∀ (heap : Heap) (db : Db) (locator : CStr) (ddd : DentryData),
      db.lookup (.dentry locator) = some ddd → IsData ddd.dddType →
        ∃ fuel result, (dbfsDelete heap fuel locator).run db = some result := by
  constructor
  · intro hlaw
    have hreturns := hlaw 2 0 0 fileDb le_rfl
    exact (dbfsTruncateblocks_returns_iff 2 fileDb le_rfl).mp hreturns rfl
  · intro hlaw
    have hlookup : (fileDb.insert (.dentry pathB)
        (⟨1, 0o644, 3, 0, 0, 0, 0, 0⟩ : DentryData)).lookup (.dentry pathB) =
          some (⟨1, 0o644, 3, 0, 0, 0, 0, 0⟩ : DentryData) := Finmap.lookup_insert _
    have hreturns := hlaw plainHeap _ pathB _ hlookup rfl
    rcases (dbfsDelete_returns_iff plainHeap hlookup rfl).mp hreturns with hok | hroot | hsize
    · cases hok
    · exact absurd hroot (by decide)
    · exact hsize rfl

end Mangoo.Dbfs
