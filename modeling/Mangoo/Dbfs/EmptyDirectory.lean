import Mangoo.Dbfs.Children

/-!
# When a directory counts as empty

The check looks at the one key behind the directory's own.  The keys that extend a
path follow it without a gap, so this key tells whether any path on record begins
with the path of the directory, and that is what the check takes for an entry.
-/

namespace Mangoo.Dbfs

open Mangoo.Foundation

/-- Some path on record is below the directory. -/
def HasEntries (db : Db) (locator : CStr) : Prop :=
  ∃ path, Key.dentry path ∈ db ∧ locator.bytes ++ [slash] <+: path.bytes

/-- Some other path on record begins with the path of the directory. -/
def IsExtended (db : Db) (locator : CStr) : Prop :=
  ∃ path, Key.dentry path ∈ db ∧ path ≠ locator ∧ locator.bytes <+: path.bytes

variable {db : Db} {heap : Heap} {locator path : CStr} {fuel : Nat}

/-! ## The key behind a directory -/

theorem nextKey_of_isExtended (h : IsExtended db locator) :
    ∃ next, nextKey db (.dentry locator) = some (.dentry next) ∧ Key.dentry next ∈ db ∧
      next ≠ locator ∧ locator.bytes <+: next.bytes := by
  obtain ⟨path, hpath, hne, hextends⟩ := h
  have habove : Key.dentry locator < .dentry path := Key.dentry_lt_of_extends hextends hne.symm
  cases hnext : nextKey db (.dentry locator) with
  | none => exact absurd habove (nextKey_eq_none_iff.mp hnext _ hpath)
  | some key =>
      obtain ⟨hmem, hlt, hleast⟩ := nextKey_eq_some_iff.mp hnext
      have hle := hleast _ hpath habove
      cases key with
      | fsinfo => exact absurd hlt (not_lt_of_gt (Key.fsinfo_lt_dentry locator))
      | block ino offset => exact absurd hle (not_le_of_gt (Key.dentry_lt_block path ino offset))
      | dentry next =>
          refine ⟨next, rfl, hmem, ?_, ?_⟩
          · rintro rfl
            exact lt_irrefl _ hlt
          · exact prefix_of_strcmp_between (Key.dentry_le_iff.mp hlt.le)
              (Key.dentry_le_iff.mp hle) hextends

theorem deldCheck_of_extends (hlocator : WellFormed locator) (hpath : WellFormed path)
    (hne : path ≠ locator) (hextends : locator.bytes <+: path.bytes) :
    deldCheck locator (.dentry path) = enotempty := by
  obtain ⟨rest, hbytes⟩ := id hextends
  have hname : (entryName locator path).bytes ≠ [] := by
    rw [bytes_entryName hbytes.symm]
    cases rest with
    | nil => exact absurd (CStr.ext (by simpa using hbytes.symm)) hne
    | cons byte more =>
        by_cases hbyte : byte = slash
        · subst hbyte
          have hroot := ne_rootPath_of_slash hlocator hbytes.symm
          obtain ⟨first, others, rfl, hfirst⟩ := hpath.behind_slash hroot hbytes.symm
          rw [dropWhile_slash_of_slash hfirst]
          exact List.cons_ne_nil _ _
        · rw [dropWhile_slash_of_letter hbyte]
          exact List.cons_ne_nil _ _
  rw [deldCheck, CStr.startsWith_iff.mpr hextends, if_neg (by simp), if_pos hname]

theorem deldCheck_of_not_extends {key : Key}
    (h : ∀ path, key = .dentry path → ¬ locator.bytes <+: path.bytes) :
    deldCheck locator key = 0 := by
  cases key with
  | fsinfo => rfl
  | block ino offset => rfl
  | dentry path =>
      have hstarts : path.startsWith locator = false := by
        rw [← Bool.not_eq_true, CStr.startsWith_iff]
        exact h path rfl
      rw [deldCheck, if_pos hstarts]

/-- The check tells whether another path on record begins with the directory's. -/
theorem deldResult_eq (hpaths : WellFormedPaths db) (hdir : Key.dentry locator ∈ db) :
    (IsExtended db locator → deldResult db locator = enotempty) ∧
      (¬ IsExtended db locator → deldResult db locator = 0) := by
  constructor
  · intro h
    obtain ⟨next, hnext, hmem, hne, hextends⟩ := nextKey_of_isExtended h
    simp only [deldResult, hnext]
    exact deldCheck_of_extends (hpaths locator hdir) (hpaths next hmem) hne hextends
  · intro h
    apply looksEmpty_iff.mp
    intro key hkey
    obtain ⟨hmem, hlt, -⟩ := nextKey_eq_some_iff.mp hkey
    apply deldCheck_of_not_extends
    rintro path rfl hextends
    refine h ⟨path, hmem, ?_, hextends⟩
    rintro rfl
    exact lt_irrefl _ hlt

theorem HasEntries.isExtended (h : HasEntries db locator) : IsExtended db locator := by
  obtain ⟨path, hpath, hextends⟩ := h
  refine ⟨path, hpath, ?_, (List.prefix_append _ _).trans hextends⟩
  rintro rfl
  have hlength := hextends.length_le
  rw [List.length_append, List.length_singleton] at hlength
  omega

/-! ## The key that a removal takes -/

theorem deldKey_mem_iff (hdir : Key.dentry locator ∈ db) :
    deldKey heap db locator ∈ db ↔
      ∀ key, nextKey db (.dentry locator) = some key → dbfsDdkSize locator < keySize key →
        heap.regrow key ∈ db := by
  unfold deldKey
  cases hnext : nextKey db (.dentry locator) with
  | none => simpa using hdir
  | some key =>
      obtain ⟨hmem, -, -⟩ := nextKey_eq_some_iff.mp hnext
      by_cases hsize : keySize key ≤ dbfsDdkSize locator
      · simp [hsize, hmem]
      · simp [hsize, not_le.mp hsize]

theorem run_dbfsDelete_of_no_memory (fuel : Nat) (db : Db) (hok : heap.ok = false)
    (hroot : locator ≠ rootPath) : (dbfsDelete heap fuel locator).run db = some (enomem, db) := by
  simp [dbfsDelete, hroot, dbfsCreatehandle, hok]

/-! ## Removing a directory -/

theorem wellFormedPaths_siblingDb : WellFormedPaths siblingDb :=
  fun path hpath => wellFormedPaths_namesakeDb path (Finmap.mem_insert.mpr (.inr hpath))

theorem not_isExtended_pathB : ¬ IsExtended siblingDb pathB := by
  rintro ⟨path, hpath, hne, hextends⟩
  simp only [siblingDb, Finmap.mem_insert, Key.dentry.injEq, Finmap.notMem_empty,
    or_false] at hpath
  rcases hpath with rfl | rfl | rfl
  · exact hne rfl
  · revert hextends
    decide
  · revert hextends
    decide

theorem not_hasEntries_pathA : ¬ HasEntries namesakeDb pathA := by
  rintro ⟨path, hpath, hextends⟩
  rcases mem_namesakeDb.mp hpath with rfl | rfl | rfl | rfl <;> revert hextends <;> decide

theorem nonempty_directory_kept (heap : Heap) (fuel : Nat) (db : Db) (locator : CStr)
    (ddd : DentryData) (hpaths : WellFormedPaths db) (hroot : locator ≠ rootPath)
    (hlookup : db.lookup (.dentry locator) = some ddd) (htype : IsContainer ddd.dddType)
    (hentries : HasEntries db locator) :
    (dbfsDelete heap fuel locator).run db =
      some (if heap.ok then enotempty else enomem, db) := by
  cases hok : heap.ok with
  | false => exact run_dbfsDelete_of_no_memory fuel db hok hroot
  | true =>
      have hresult := (deldResult_eq hpaths (Finmap.mem_iff.mpr ⟨ddd, hlookup⟩)).1
        hentries.isExtended
      rw [run_dbfsDelete_directory fuel hok hroot hlookup htype, hresult, if_pos (by decide),
        if_pos rfl]

def nestedDb : Db :=
  ((siblingDb.insert (Key.dentry ⟨[slash, 97, 45], by decide⟩) (directoryRecord 4)).insert
    (Key.dentry ⟨[slash, 97, slash, 99], by decide⟩) (directoryRecord 5))

theorem wellFormedPaths_nestedDb : WellFormedPaths nestedDb := by
  intro path hpath
  simp only [nestedDb, siblingDb, Finmap.mem_insert, Key.dentry.injEq, Finmap.notMem_empty,
    or_false] at hpath
  rcases hpath with rfl | rfl | rfl | rfl | rfl <;> decide

theorem nonempty_directory_kept_behind_sibling :
    (dbfsDelete plainHeap 0 pathA).run nestedDb = some (enotempty, nestedDb) :=
  nonempty_directory_kept plainHeap 0 nestedDb pathA (directoryRecord 2)
    wellFormedPaths_nestedDb (by decide) rfl rfl
    ⟨⟨[slash, 97, slash, 99], by decide⟩, by simp [nestedDb], ⟨[99], rfl⟩⟩

/--
A removal of a directory returns `0` if and only if there is memory for the handle,
no other path on record begins with the directory's path, and the key buffer, where
Berkeley DB had to move it for the next key, still holds the key of a record.
-/
theorem directory_removed_iff (heap : Heap) (fuel : Nat) (db : Db) (locator : CStr)
    (ddd : DentryData) (hpaths : WellFormedPaths db) (hroot : locator ≠ rootPath)
    (hlookup : db.lookup (.dentry locator) = some ddd) (htype : IsContainer ddd.dddType) :
    (∃ db', (dbfsDelete heap fuel locator).run db = some (0, db')) ↔
      heap.ok = true ∧ ¬ IsExtended db locator ∧
        ∀ key, nextKey db (.dentry locator) = some key →
          dbfsDdkSize locator < keySize key → heap.regrow key ∈ db := by
  have hdir : Key.dentry locator ∈ db := Finmap.mem_iff.mpr ⟨ddd, hlookup⟩
  obtain ⟨hextended, hempty⟩ := deldResult_eq hpaths hdir
  rw [← deldKey_mem_iff hdir]
  cases hok : heap.ok with
  | false =>
      rw [run_dbfsDelete_of_no_memory fuel db hok hroot]
      simp [enomem]
  | true =>
      rw [run_dbfsDelete_directory fuel hok hroot hlookup htype]
      by_cases h : IsExtended db locator
      · rw [hextended h]
        simp [h, enotempty]
      · rw [hempty h]
        by_cases hrecord : deldKey heap db locator ∈ db
        · simp [h, hrecord]
        · simp [hrecord, enoent]

theorem directory_removed_last :
    ∃ db', (dbfsDelete plainHeap 0 pathB).run siblingDb = some (0, db') :=
  (directory_removed_iff plainHeap 0 siblingDb pathB (directoryRecord 3)
    wellFormedPaths_siblingDb (by decide) rfl rfl).mpr
    ⟨rfl, not_isExtended_pathB, fun _ hnext => by cases hnext⟩

/-- The empty directory `"/a"` cannot be removed beside `"/ab"`. -/
theorem empty_directory_kept_beside_namesake :
    ¬ ∀ (heap : Heap) (fuel : Nat) (db : Db) (locator : CStr) (ddd : DentryData),
      heap.ok = true → WellFormedPaths db → locator ≠ rootPath →
      db.lookup (.dentry locator) = some ddd → IsContainer ddd.dddType →
      ¬ HasEntries db locator →
      ∃ db', (dbfsDelete heap fuel locator).run db = some (0, db') := by
  intro hlaw
  obtain ⟨db', hrun⟩ := hlaw plainHeap 0 namesakeDb pathA (directoryRecord 2) rfl
    wellFormedPaths_namesakeDb (by decide) rfl rfl not_hasEntries_pathA
  have hkept : (dbfsDelete plainHeap 0 pathA).run namesakeDb =
      some (enotempty, namesakeDb) := rfl
  rw [hkept] at hrun
  cases hrun

end Mangoo.Dbfs
