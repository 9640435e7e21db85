import Mangoo.Foundation.CString
import Mangoo.Foundation.Program

/-!
# Keys and records of the store

The record layout of `dbfs.h` and the key comparison of `dir.c` that Berkeley DB
is told to sort by (`dbfs_bt_compare`).  Machine integers keep their widths; an
`off_t` is its 64-bit pattern, since the code converts every `off_t` it compares
or adds to an unsigned 64-bit value.
-/

namespace Mangoo.Dbfs

open Mangoo.Foundation

/-- A database key; the constructor is its `dk_type`, in the order of
`enum dbfs_key_types`. -/
inductive Key where
  | fsinfo
  | dentry (ddkPath : CStr)
  | block (dbkIno dbkOffset : UInt64)
  deriving DecidableEq

inductive MangooTypes where
  | container
  | data
  deriving DecidableEq, Repr

inductive MangooInterfaces where
  | stream
  | directory
  | attr
  deriving DecidableEq, Repr

def MangooTypes.toUInt32 : MangooTypes → UInt32
  | .container => 0
  | .data => 1

/-- The case `switch ((enum mangoo_types)type)` takes, `none` for `default`. -/
def MangooTypes.ofUInt32? (type : UInt32) : Option MangooTypes :=
  if type = 0 then some .container else if type = 1 then some .data else none

def IsContainer (type : UInt32) : Prop := MangooTypes.ofUInt32? type = some .container

def IsData (type : UInt32) : Prop := MangooTypes.ofUInt32? type = some .data

structure DentryData where
  dddType : UInt32
  dddMode : UInt32
  dddIno : UInt64
  dddSize : UInt64
  dddMtime : UInt64
  dddAtime : UInt64
  dddUid : UInt32
  dddGid : UInt32
  deriving DecidableEq, Repr

structure FsinfoData where
  dfdLastino : UInt64
  deriving DecidableEq, Repr

/-- The record stored under a key.  A block is a byte string of any length. -/
abbrev Rec : Key → Type
  | .fsinfo => FsinfoData
  | .dentry _ => DentryData
  | .block _ _ => List UInt8

abbrev Db := Finmap Rec

abbrev DbProg := Prog Rec

def dbfsRootIno : UInt64 := 1

def dbfsBlksize : UInt64 := 4096

def slash : UInt8 := 47

def rootPath : CStr := ⟨[slash], by decide⟩

/-- `sizeof(struct dbfs_dentry_key) + strlen(locator) + 1`. -/
def dbfsDdkSize (locator : CStr) : Nat := 4 + locator.length + 1

/-- The number of key bytes Berkeley DB stores and returns. -/
def keySize : Key → Nat
  | .fsinfo => 4
  | .dentry path => dbfsDdkSize path
  | .block _ _ => 24

def enoent : Int := 2
def eio : Int := 5
def enomem : Int := 12
def einval : Int := 22
def enotempty : Int := 39
def enobufs : Int := 105

/-! ## Key comparison -/

def Key.dkType : Key → Int
  | .fsinfo => 0
  | .dentry _ => 1
  | .block _ _ => 2

def dbfsBlockCompare (ino1 offset1 ino2 offset2 : UInt64) : Int :=
  if ino1 > ino2 then 1
  else if ino1 < ino2 then -1
  else if offset1 > offset2 then 1
  else if offset1 < offset2 then -1
  else 0

def dbfsBtCompare (key1 key2 : Key) : Int :=
  if key1.dkType ≠ key2.dkType then key1.dkType - key2.dkType
  else
    match key1, key2 with
    | .dentry path1, .dentry path2 => strcmp path1 path2
    | .block ino1 offset1, .block ino2 offset2 =>
        dbfsBlockCompare ino1 offset1 ino2 offset2
    | _, _ => 0

theorem dbfsBlockCompare_swap (ino1 offset1 ino2 offset2 : UInt64) :
    dbfsBlockCompare ino2 offset2 ino1 offset1 =
      -dbfsBlockCompare ino1 offset1 ino2 offset2 := by
  unfold dbfsBlockCompare
  simp only [UInt64.lt_iff_toNat_lt, gt_iff_lt]
  split_ifs <;> omega

theorem dbfsBlockCompare_le_iff {ino1 offset1 ino2 offset2 : UInt64} :
    dbfsBlockCompare ino1 offset1 ino2 offset2 ≤ 0 ↔
      ino1.toNat < ino2.toNat ∨
        ino1.toNat = ino2.toNat ∧ offset1.toNat ≤ offset2.toNat := by
  unfold dbfsBlockCompare
  simp only [UInt64.lt_iff_toNat_lt, gt_iff_lt]
  split_ifs <;> omega

theorem dbfsBlockCompare_eq_zero {ino1 offset1 ino2 offset2 : UInt64} :
    dbfsBlockCompare ino1 offset1 ino2 offset2 = 0 ↔
      ino1 = ino2 ∧ offset1 = offset2 := by
  have hle := @dbfsBlockCompare_le_iff ino1 offset1 ino2 offset2
  have hge := @dbfsBlockCompare_le_iff ino2 offset2 ino1 offset1
  rw [dbfsBlockCompare_swap] at hge
  rw [← UInt64.toNat_inj, ← UInt64.toNat_inj]
  omega

theorem dbfsBtCompare_swap (key1 key2 : Key) :
    dbfsBtCompare key2 key1 = -dbfsBtCompare key1 key2 := by
  cases key1 with
  | fsinfo => cases key2 <;> simp [dbfsBtCompare, Key.dkType]
  | dentry path1 =>
      cases key2 with
      | fsinfo => simp [dbfsBtCompare, Key.dkType]
      | dentry path2 =>
          simpa [dbfsBtCompare, Key.dkType] using strcmp_swap path1 path2
      | block ino2 offset2 => simp [dbfsBtCompare, Key.dkType]
  | block ino1 offset1 =>
      cases key2 with
      | fsinfo => simp [dbfsBtCompare, Key.dkType]
      | dentry path2 => simp [dbfsBtCompare, Key.dkType]
      | block ino2 offset2 =>
          simpa [dbfsBtCompare, Key.dkType] using
            dbfsBlockCompare_swap ino1 offset1 ino2 offset2

theorem dbfsBtCompare_eq_zero {key1 key2 : Key} :
    dbfsBtCompare key1 key2 = 0 ↔ key1 = key2 := by
  cases key1 with
  | fsinfo => cases key2 <;> simp [dbfsBtCompare, Key.dkType]
  | dentry path1 =>
      cases key2 <;> simp [dbfsBtCompare, Key.dkType, strcmp_eq_zero]
  | block ino1 offset1 =>
      cases key2 with
      | fsinfo => simp [dbfsBtCompare, Key.dkType]
      | dentry path2 => simp [dbfsBtCompare, Key.dkType]
      | block ino2 offset2 =>
          simp [dbfsBtCompare, Key.dkType, dbfsBlockCompare_eq_zero]

theorem dbfsBtCompare_trans {key1 key2 key3 : Key}
    (h12 : dbfsBtCompare key1 key2 ≤ 0) (h23 : dbfsBtCompare key2 key3 ≤ 0) :
    dbfsBtCompare key1 key3 ≤ 0 := by
  cases key1 <;> cases key2 <;> cases key3 <;>
    simp [dbfsBtCompare, Key.dkType] at h12 h23 ⊢
  · exact strcmp_trans h12 h23
  · rw [dbfsBlockCompare_le_iff] at h12 h23 ⊢
    omega

/-- Berkeley DB keeps the records in the order of `dbfs_bt_compare`. -/
instance : LinearOrder Key where
  le key1 key2 := dbfsBtCompare key1 key2 ≤ 0
  lt key1 key2 := dbfsBtCompare key1 key2 < 0
  le_refl key := le_of_eq (dbfsBtCompare_eq_zero.mpr rfl)
  le_trans _ _ _ := dbfsBtCompare_trans
  le_antisymm key1 key2 h12 h21 := by
    rw [dbfsBtCompare_swap] at h21
    exact dbfsBtCompare_eq_zero.mp (by omega)
  le_total key1 key2 := by
    rw [dbfsBtCompare_swap key1 key2]
    omega
  lt_iff_le_not_ge key1 key2 := by
    rw [dbfsBtCompare_swap key1 key2]
    omega
  toDecidableLE _ _ := inferInstanceAs (Decidable (_ ≤ (0 : Int)))
  toDecidableLT _ _ := inferInstanceAs (Decidable (_ < (0 : Int)))
  toDecidableEq := inferInstance

theorem Key.lt_iff {key1 key2 : Key} : key1 < key2 ↔ dbfsBtCompare key1 key2 < 0 :=
  Iff.rfl

theorem Key.le_iff {key1 key2 : Key} : key1 ≤ key2 ↔ dbfsBtCompare key1 key2 ≤ 0 :=
  Iff.rfl

@[simp] theorem Key.dentry_lt_block (path : CStr) (ino offset : UInt64) :
    Key.dentry path < Key.block ino offset := by
  simp [Key.lt_iff, dbfsBtCompare, Key.dkType]

@[simp] theorem Key.fsinfo_lt_dentry (path : CStr) : Key.fsinfo < Key.dentry path := by
  simp [Key.lt_iff, dbfsBtCompare, Key.dkType]

theorem Key.dentry_le_iff {path1 path2 : CStr} :
    Key.dentry path1 ≤ Key.dentry path2 ↔ strcmp path1 path2 ≤ 0 := by
  simp [Key.le_iff, dbfsBtCompare, Key.dkType]

theorem Key.dentry_lt_of_extends {path1 path2 : CStr}
    (h : path1.bytes <+: path2.bytes) (hne : path1 ≠ path2) :
    Key.dentry path1 < Key.dentry path2 := by
  refine lt_of_le_of_ne (Key.dentry_le_iff.mpr (strcmp_le_of_extends h)) ?_
  simpa using hne

end Mangoo.Dbfs
