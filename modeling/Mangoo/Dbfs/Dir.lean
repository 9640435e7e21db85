import Mangoo.Dbfs.Attr

/-!
# Directories

The functions of `dir.c`.  A directory has no record of its entries: its
children are found by stepping a cursor from the directory's own key through the
keys that extend its path.  Berkeley DB returns each key into the key buffer of
the handle.
-/

namespace Mangoo.Dbfs

open Mangoo.Foundation

/-- `dbc->get` with `DB_NEXT`.  No code path uses an unset cursor. -/
def cursorNext : Option Key → DbProg (Except Int (Sigma Rec))
  | none => return .error einval
  | some key => Prog.nextRec key

/-- What the handle's key buffer holds once `DB_NEXT` returned `key`. -/
def returnedKey (heap : Heap) (dh : DbfsHandle) (key : Key) : Key :=
  if keySize key ≤ dh.ddkSize then key else heap.regrow key

/-- The handle once `DB_NEXT` returned `key`.  A key that is larger than the buffer makes
Berkeley DB reallocate it, and the handle is not told when it moves. -/
def DbfsHandle.movedTo (heap : Heap) (dh : DbfsHandle) (key : Key) : DbfsHandle :=
  { dh with
    attrDdk := if dh.ddkFreed then dh.attrDdk else returnedKey heap dh key
    ddkFreed := dh.ddkFreed || decide (dh.ddkSize < keySize key ∧ heap.regrow key ≠ key)
    dbc := some key }

def dbfsCursorset (dh : DbfsHandle) : DbProg (Int × DbfsHandle) := do
  let error ← Prog.openCursor
  if error ≠ 0 then return (eio, dh)
  let found : Except Int DentryData ← Prog.getRec (Key.dentry dh.attrDdk.ddkPath)
  match found with
  | .error error =>
      return (if error = dbNotfound ∨ error = dbBufferSmall then enoent else eio, dh)
  | .ok record =>
      let dh := { dh with attrDdd := record, dbc := some dh.attrDdk }
      if strcmp dh.attrDdk.ddkPath dh.locator ≠ 0 then return (eio, dh)
      return (0, dh)

variable {faulty : Prop} {db db' : Db} {error : Int}

theorem exec_dbfsCursorset {dh dh' : DbfsHandle} (hkey : dh.attrDdk = .dentry dh.locator)
    (h : Prog.Exec faulty (dbfsCursorset dh) db (error, dh') db') :
    db' = db ∧ (error ≠ 0 ∨ error = 0 ∧ ∃ record,
      db.lookup (.dentry dh.locator) = some record ∧
      dh' = { dh with attrDdd := record, dbc := some (.dentry dh.locator) }) := by
  simp only [dbfsCursorset, hkey, Key.ddkPath_dentry, Prog.exec_bind,
    Prog.exec_openCursor] at h
  obtain ⟨code, mid, ⟨rfl, hcode⟩, hrest⟩ := h
  by_cases hz : code = 0
  · subst hz
    simp only [ne_eq, not_true_eq_false, if_false, Prog.exec_bind,
      Prog.exec_getRec] at hrest
    obtain ⟨result, mid', ⟨rfl, hget⟩, hret⟩ := hrest
    cases result with
    | error code' =>
        simp only [Prog.exec_pure, Prod.mk.injEq] at hret
        obtain ⟨⟨rfl, -⟩, rfl⟩ := hret
        refine ⟨rfl, .inl ?_⟩
        split <;> decide
    | ok record =>
        simp only [strcmp_eq_zero.mpr, not_true_eq_false, if_false, Prog.exec_pure,
          Prod.mk.injEq] at hret
        obtain ⟨⟨rfl, rfl⟩, rfl⟩ := hret
        refine ⟨rfl, .inr ⟨rfl, record, ?_, by rw [hkey]⟩⟩
        rcases hget with hget | ⟨-, e, -, hget⟩
        · rw [hkey] at hget
          exact fetch_eq_ok_iff.mp hget.symm
        · cases hget
  · rw [if_pos hz, Prog.exec_pure] at hrest
    obtain ⟨heq, rfl⟩ := hrest
    cases heq
    exact ⟨rfl, .inl (by decide)⟩

def dbfsDopen (heap : Heap) (locator : CStr) : DbProg (Int × Option DbfsHandle) := do
  match dbfsCreatehandle heap locator with
  | none => return (enomem, none)
  | some dh =>
      let (error, dh) ← dbfsCursorset { dh with mhInterface := .directory }
      if error ≠ 0 then return (error, none)
      return (0, some dh)

theorem exec_dbfsDopen {heap : Heap} {locator : CStr} {result : Option DbfsHandle}
    (h : Prog.Exec faulty (dbfsDopen heap locator) db (error, result) db') :
    db' = db ∧ (error ≠ 0 ∧ result = none ∨
      error = 0 ∧ ∃ record : DentryData, db.lookup (.dentry locator) = some record ∧
        result = some { initHandle locator record with
          mhInterface := .directory, dbc := some (.dentry locator) }) := by
  unfold dbfsDopen dbfsCreatehandle at h
  cases hok : heap.ok with
  | false =>
      simp only [hok, Bool.false_eq_true, if_false, Prog.exec_pure, Prod.mk.injEq] at h
      obtain ⟨⟨rfl, rfl⟩, rfl⟩ := h
      exact ⟨rfl, .inl ⟨by decide, rfl⟩⟩
  | true =>
      simp only [hok, if_true, Prog.exec_bind] at h
      obtain ⟨⟨code, dh⟩, mid, hset, hrest⟩ := h
      obtain ⟨rfl, hcode | ⟨rfl, record, hlookup, rfl⟩⟩ := exec_dbfsCursorset (by rfl) hset
      · simp only [if_pos hcode, Prog.exec_pure, Prod.mk.injEq] at hrest
        obtain ⟨⟨rfl, rfl⟩, rfl⟩ := hrest
        exact ⟨rfl, .inl ⟨hcode, rfl⟩⟩
      · simp only [ne_eq, not_true_eq_false, if_false, Prog.exec_pure,
          Prod.mk.injEq] at hrest
        obtain ⟨⟨rfl, rfl⟩, rfl⟩ := hrest
        exact ⟨rfl, .inr ⟨rfl, record, hlookup, rfl⟩⟩

/-- The part of `entry` behind the locator and the slashes that follow it. -/
def entryName (locator entry : CStr) : CStr :=
  (entry.drop locator.length).skip slash

/-! ## Reading a directory -/

inductive Scan where
  | stop
  | skip
  | emit (name : CStr)

def scanEntry (isroot : Bool) (locator entry : CStr) : Scan :=
  if isroot = true ∧ (entry.drop 1).contains slash = true then .skip
  else if isroot = false ∧ entry.startsWith locator = false then .stop
  else if (entryName locator entry).bytes = [] then .skip
  else if (entryName locator entry).contains slash then .skip
  else .emit (entryName locator entry)

variable {σ : Type}

/-- What a block record leaves in `attr_ddd` is never read. -/
def readdirLoop (heap : Heap) (filler : σ → CStr → UInt32 → Int × σ) (isroot : Bool) :
    Nat → DbfsHandle → σ → DbProg (Int × DbfsHandle × σ)
  | 0, _, _ => .spin
  | fuel + 1, dh, finfo => do
      match ← cursorNext dh.dbc with
      | .error error => return (if error = dbNotfound then 0 else eio, dh, finfo)
      | .ok ⟨.dentry entry, ddd⟩ =>
          let dh := { dh.movedTo heap (.dentry entry) with
            ddkSize := keySize (.dentry entry), attrDdd := ddd }
          match scanEntry isroot dh.locator entry with
          | .stop => return (0, dh, finfo)
          | .skip => readdirLoop heap filler isroot fuel dh finfo
          | .emit name =>
              let (error, finfo) := filler finfo name dh.attrDdd.dddType
              if error ≠ 0 then return (error, dh, finfo)
              readdirLoop heap filler isroot fuel dh finfo
      | .ok ⟨key, _⟩ =>
          return (0, { dh.movedTo heap key with ddkSize := keySize key }, finfo)

/-- `fuel` bounds the records the scan looks at.  With a freed key buffer nothing is known of
the call, which compares, overwrites and reallocates it. -/
def dbfsReaddir (heap : Heap) (filler : σ → CStr → UInt32 → Int × σ) (fuel : Nat)
    (dh : DbfsHandle) (finfo : σ) : DbProg (Int × DbfsHandle × σ) :=
  if dh.ddkFreed then .spin
  else readdirLoop heap filler (decide (dh.attrDdk.ddkPath = rootPath)) fuel dh finfo

theorem dbfsReaddir_of_not_freed (heap : Heap) (filler : σ → CStr → UInt32 → Int × σ)
    (fuel : Nat) {dh : DbfsHandle} (finfo : σ) (h : dh.ddkFreed = false) :
    dbfsReaddir heap filler fuel dh finfo =
      readdirLoop heap filler (decide (dh.attrDdk.ddkPath = rootPath)) fuel dh finfo := by
  rw [dbfsReaddir, h, if_neg Bool.false_ne_true]

/-- A freed key buffer is freed a second time. -/
def dbfsClosedir (dh : DbfsHandle) : DbProg Int := if dh.ddkFreed then .spin else return 0

/-! ## Removing a directory -/

/-- The verdict of `dbfs_deld` on the key that follows the directory's own. -/
def deldCheck (locator : CStr) : Key → Int
  | .dentry entry =>
      if entry.startsWith locator = false then 0
      else if (entryName locator entry).bytes ≠ [] then enotempty
      else 0
  | _ => 0

/-- The emptiness check, which looks at one key only. -/
def dbfsDeld (heap : Heap) (dh : DbfsHandle) : DbProg (Int × DbfsHandle) := do
  let (error, dh) ← dbfsCursorset dh
  if error ≠ 0 then return (error, dh)
  match ← cursorNext dh.dbc with
  | .error error => return (if error = dbNotfound then 0 else eio, dh)
  | .ok ⟨key, _⟩ =>
      return (deldCheck dh.locator key, dh.movedTo heap key)

end Mangoo.Dbfs
