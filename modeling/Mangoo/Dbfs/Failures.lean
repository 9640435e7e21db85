import Mangoo.Dbfs.WriteSequence

/-!
# Calls that fail

What the operations leave in the store when calls to the database fail.
-/

namespace Mangoo.Dbfs

open Mangoo.Foundation

variable {K : Key → Prop} {db db' : Db}

/-! ## Operations without effect -/

theorem changes_dbfsReadAttr (path : CStr) (ddd : DentryData) :
    (dbfsReadAttr path ddd).Changes K := by
  apply (Prog.changes_getRec (β := Rec) (.dentry path)).bind
  intro found
  cases found with
  | ok record => exact Prog.changes_pure _
  | error e => exact Prog.changes_pure _

theorem changes_readAttrHandle (heap : Heap) (mi : MangooInterfaces) (path : CStr) :
    (do
      match dbfsCreatehandle heap path with
      | none => return (enomem, none)
      | some dh =>
          let dh := { dh with mhInterface := mi }
          let (error, attrDdd) ← dbfsReadAttr dh.attrDdk.ddkPath dh.attrDdd
          if error ≠ 0 then return (error, none)
          return (0, some { dh with attrDdd := attrDdd }) :
      DbProg (Int × Option DbfsHandle)).Changes K := by
  unfold dbfsCreatehandle
  split_ifs
  · apply (changes_dbfsReadAttr _ _).bind
    rintro ⟨error, ddd⟩
    dsimp only
    split_ifs
    · exact Prog.changes_pure _
    · exact Prog.changes_pure _
  · exact Prog.changes_pure _

theorem changes_dbfsCursorset (dh : DbfsHandle) : (dbfsCursorset dh).Changes K := by
  apply Prog.changes_openCursor.bind
  intro error
  split_ifs
  · exact Prog.changes_pure _
  · apply (Prog.changes_getRec (β := Rec) (.dentry dh.attrDdk.ddkPath)).bind
    intro found
    cases found with
    | error e => exact Prog.changes_pure _
    | ok record =>
        dsimp only
        split_ifs
        · exact Prog.changes_pure _
        · exact Prog.changes_pure _

theorem changes_dbfsDopen (heap : Heap) (path : CStr) : (dbfsDopen heap path).Changes K := by
  unfold dbfsDopen dbfsCreatehandle
  split_ifs
  · apply (changes_dbfsCursorset _).bind
    rintro ⟨error, dh⟩
    dsimp only
    split_ifs
    · exact Prog.changes_pure _
    · exact Prog.changes_pure _
  · exact Prog.changes_pure _

theorem changes_dbfsOpen (heap : Heap) (path : CStr) (mi : MangooInterfaces) :
    (dbfsOpen heap path mi).Changes K := by
  cases mi with
  | stream => exact changes_readAttrHandle heap .stream path
  | directory => exact changes_dbfsDopen heap path
  | attr => exact changes_readAttrHandle heap .attr path

/-! ## Writes -/

theorem WroteRange.wroteFile {ddd : DentryData} {call : WriteCall}
    (h : WroteRange ddd.dddIno db db' call.offset.toNat call.buf) (path : CStr) :
    WroteFile path ddd call db
      (db'.insert (.dentry path) (grown ddd call.size call.offset)) where
  wf := h.wf.insert_dentry _ _
  written := by
    rw [content_insert_dentry]
    exact h.written
  stored := Finmap.lookup_insert _
  frame key hblock hdentry := by
    rw [Finmap.lookup_insert_of_ne _ hdentry, h.frame key hblock]

theorem exec_dbfsWrite_leaves {faulty : Prop} {dh dh' : DbfsHandle} {error : Int} {count : UInt64}
    (call : WriteCall) (hwf : BlocksWF db) (hfits : call.Fits)
    (h : Prog.Exec faulty (dbfsWrite call.heap dh call.buf call.size call.offset) db
      (error, count, dh') db') :
    (error ≠ 0 ∧ ∃ k ≤ call.buf.length,
        WroteRange dh.attrDdd.dddIno db db' call.offset.toNat (call.buf.take k)) ∨
      error = 0 ∧ WroteFile dh.attrDdk.ddkPath dh.attrDdd call db db' := by
  have hsize := WriteCall.toNat_size hfits
  obtain ⟨code, out, mid, hmove, hend⟩ := exec_dbfsWrite h
  obtain ⟨k, hk, -, hwrote, hall⟩ :=
    exec_dbfsReadwrite_write hwf (by rw [hsize]; exact hfits) (by rw [hsize]) hmove
  rw [hsize] at hk hall
  rcases hend with ⟨hcode, rfl, -, rfl⟩ | ⟨rfl, -, rfl, ⟨rfl, rfl⟩ | ⟨-, rfl, rfl⟩⟩
  · exact .inl ⟨hcode, k, hk, hwrote⟩
  · rcases hall with ⟨rfl, -⟩ | ⟨-, -, hcode⟩
    · rw [List.take_length] at hwrote
      exact .inr ⟨rfl, hwrote.wroteFile _⟩
    · cases hcode
  · exact .inl ⟨by decide, k, hk, hwrote⟩

end Mangoo.Dbfs
