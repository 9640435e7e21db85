import Mangoo.Dbfs.Transfer

/-!
# The order of the keys

What Berkeley DB needs of the comparison it is given, and what the functions of
`dir.c` and `stream.c` rest on: the keys of one kind, the blocks of one file and the
paths with a common beginning each lie together.
-/

namespace Mangoo.Dbfs

open Mangoo.Foundation

section Comparison

variable {α : Type} (compare : α → α → Int)

/-- A three-way comparison that orders its arguments by the sign of its result and tells
them apart. -/
structure LawfulCompare : Prop where
  antisymm : ∀ a b, compare a b < 0 ↔ 0 < compare b a
  trans : ∀ a b c, compare a b ≤ 0 → compare b c ≤ 0 → compare a c ≤ 0
  identifies : ∀ a b, compare a b = 0 ↔ a = b

def IsInterval (S : α → Prop) : Prop :=
  ∀ low high a, S low → S high → compare low a ≤ 0 → compare a high ≤ 0 → S a

end Comparison

def BeginsWith (path : CStr) : Key → Prop
  | .dentry entry => path.bytes <+: entry.bytes
  | _ => False

theorem dbfsBtCompare_dentry (path1 path2 : CStr) :
    dbfsBtCompare (.dentry path1) (.dentry path2) = strcmp path1 path2 := by
  simp [dbfsBtCompare, Key.dkType]

theorem dbfsBtCompare_block (ino1 offset1 ino2 offset2 : UInt64) :
    dbfsBtCompare (.block ino1 offset1) (.block ino2 offset2) =
      dbfsBlockCompare ino1 offset1 ino2 offset2 := by
  simp [dbfsBtCompare, Key.dkType]

theorem lawfulCompare_dbfsBtCompare : LawfulCompare dbfsBtCompare where
  antisymm key1 key2 := by
    rw [dbfsBtCompare_swap key1 key2]
    omega
  trans _ _ _ := dbfsBtCompare_trans
  identifies _ _ := dbfsBtCompare_eq_zero

theorem isInterval_blockOf (ino : UInt64) : IsInterval dbfsBtCompare (BlockOf ino) := by
  rintro low high key ⟨offset1, rfl⟩ ⟨offset2, rfl⟩ hlow hhigh
  cases key with
  | fsinfo => simp [dbfsBtCompare, Key.dkType] at hlow
  | dentry path => simp [dbfsBtCompare, Key.dkType] at hlow
  | block ino' offset =>
      rw [dbfsBtCompare_block, dbfsBlockCompare_le_iff] at hlow hhigh
      have hino : ino' = ino := by
        apply UInt64.toNat_inj.mp
        omega
      exact ⟨offset, by rw [hino]⟩

theorem dbfsBtCompare_block_lt_iff {ino offset1 offset2 : UInt64} :
    dbfsBtCompare (.block ino offset1) (.block ino offset2) < 0 ↔
      offset1.toNat < offset2.toNat := by
  have hge := @dbfsBlockCompare_le_iff ino offset2 ino offset1
  rw [dbfsBlockCompare_swap] at hge
  rw [dbfsBtCompare_block]
  omega

theorem isInterval_beginsWith (path : CStr) :
    IsInterval dbfsBtCompare (BeginsWith path) := by
  intro low high key hlow hhigh hbelow habove
  cases low with
  | fsinfo => exact hlow.elim
  | block ino offset => exact hlow.elim
  | dentry first =>
      cases high with
      | fsinfo => exact hhigh.elim
      | block ino offset => exact hhigh.elim
      | dentry last =>
          cases key with
          | fsinfo => simp [dbfsBtCompare, Key.dkType] at hbelow
          | block ino offset => simp [dbfsBtCompare, Key.dkType] at habove
          | dentry entry =>
              rw [dbfsBtCompare_dentry] at hbelow habove
              have hpath := strcmp_trans (strcmp_le_of_extends hlow) hbelow
              exact prefix_of_strcmp_between hpath habove hhigh

theorem dbfsBtCompare_beginsWith_le {path : CStr} {key : Key} (h : BeginsWith path key) :
    dbfsBtCompare (.dentry path) key ≤ 0 := by
  cases key with
  | fsinfo => exact h.elim
  | block ino offset => exact h.elim
  | dentry entry => exact Key.dentry_le_iff.mpr (strcmp_le_of_extends h)

/--
`dbfs_bt_compare` is a total order that tells all keys apart.  The file system record
comes before the entries and these before the blocks; the blocks of a file lie together,
by offset; the entries whose path begins with a given one lie together, and that path is
the first of them.
-/
theorem dbfsBtCompare_orders_keys :
    LawfulCompare dbfsBtCompare ∧
    (∀ path ino offset, dbfsBtCompare .fsinfo (.dentry path) < 0 ∧
      dbfsBtCompare (.dentry path) (.block ino offset) < 0) ∧
    (∀ ino, IsInterval dbfsBtCompare (BlockOf ino) ∧ ∀ offset1 offset2,
      dbfsBtCompare (.block ino offset1) (.block ino offset2) < 0 ↔
        offset1.toNat < offset2.toNat) ∧
    ∀ path, IsInterval dbfsBtCompare (BeginsWith path) ∧ BeginsWith path (.dentry path) ∧
      ∀ key, BeginsWith path key → dbfsBtCompare (.dentry path) key ≤ 0 := by
  refine ⟨lawfulCompare_dbfsBtCompare, ?_, ?_, ?_⟩
  · intro path ino offset
    exact ⟨Key.fsinfo_lt_dentry path, Key.dentry_lt_block path ino offset⟩
  · intro ino
    exact ⟨isInterval_blockOf ino, fun _ _ => dbfsBtCompare_block_lt_iff⟩
  · intro path
    exact ⟨isInterval_beginsWith path, List.prefix_refl _,
      fun _ h => dbfsBtCompare_beginsWith_le h⟩

end Mangoo.Dbfs
