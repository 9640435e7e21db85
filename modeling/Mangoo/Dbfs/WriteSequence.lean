import Mangoo.Dbfs.FileIo
import Mangoo.Dbfs.Store

/-!
# Sequences of writes

Any number of `dbfs_write` calls through one handle whose cached record is the
stored one.  Each call keeps that agreement, so the contents and the size after
the whole sequence are folds over it.
-/

namespace Mangoo.Dbfs

open Mangoo.Foundation

/-- The result codes and the handle afterwards. -/
def dbfsWrites (dh : DbfsHandle) : List WriteCall → DbProg (List Int × DbfsHandle)
  | [] => return ([], dh)
  | call :: calls => do
      let (error, _, dh) ← dbfsWrite call.heap dh call.buf call.size call.offset
      let (errors, dh) ← dbfsWrites dh calls
      return (error :: errors, dh)

def sizeAfter (size : Nat) (calls : List WriteCall) : Nat :=
  calls.foldl (fun size call => max size call.stop) size

theorem run_dbfsWrites {db : Db} (dh : DbfsHandle) {calls : List WriteCall}
    (hwf : BlocksWF db)
    (hstored : db.lookup (.dentry dh.attrDdk.ddkPath) = some dh.attrDdd)
    (hfits : ∀ call ∈ calls, call.Fits) :
    ∃ db' size, BlocksWF db' ∧
      (dbfsWrites dh calls).run db = some ((calls.map fun _ => 0,
        { dh with attrDdd := { dh.attrDdd with dddSize := size } }), db') ∧
      ((content db dh.attrDdd.dddIno).overlayAll (calls.map WriteCall.range)).Le
        (content db' dh.attrDdd.dddIno) ∧
      db'.lookup (.dentry dh.attrDdk.ddkPath) =
        some { dh.attrDdd with dddSize := size } ∧
      size.toNat = sizeAfter dh.attrDdd.dddSize.toNat calls ∧
      (∀ key, ¬ BlockOf dh.attrDdd.dddIno key → key ≠ .dentry dh.attrDdk.ddkPath →
        db'.lookup key = db.lookup key) := by
  induction calls generalizing db dh with
  | nil =>
      exact ⟨db, dh.attrDdd.dddSize, hwf, rfl, ByteMap.Le.refl _, hstored, rfl,
        fun _ _ _ => rfl⟩
  | cons call calls ih =>
      have hcall : call.Fits := hfits call List.mem_cons_self
      obtain ⟨mid, hwrote, hrun⟩ := run_dbfsWrite_file dh hwf hcall
      have hgrown := grown_eq dh.attrDdd call.size call.offset
      have hsize := toNat_grown_call dh.attrDdd hcall
      generalize (grown dh.attrDdd call.size call.offset).dddSize = size at hgrown hsize
      have hstored' := hwrote.stored
      rw [hgrown] at hrun hstored'
      obtain ⟨db', size', hwf', hrun', hwritten, hstored'', hsize', hframe⟩ :=
        ih { dh with attrDdd := { dh.attrDdd with dddSize := size } } hwrote.wf hstored'
          fun c hc => hfits c (List.mem_cons_of_mem _ hc)
      refine ⟨db', size', hwf', ?_, ?_, hstored'', ?_, ?_⟩
      · simp [dbfsWrites, hrun, hrun']
      · rw [List.map_cons, ByteMap.overlayAll_cons]
        exact (ByteMap.overlayAll_mono hwrote.written _).trans hwritten
      · rw [hsize', hsize]
        rfl
      · intro key hblock hdentry
        rw [hframe key hblock hdentry, hwrote.frame key _ hdentry]
        intro offset heq
        exact absurd ⟨offset, heq⟩ hblock

theorem run_dbfsRead_stored {db : Db} (heap : Heap) (dh : DbfsHandle) {buf : List UInt8}
    {n offset : UInt64} (hwf : BlocksWF db) (hroom : n.toNat ≤ buf.length)
    (hinside : offset.toNat + n.toNat ≤ dh.attrDdd.dddSize.toNat)
    (hblocks : ∀ pos, offset.toNat ≤ pos → pos < offset.toNat + n.toNat →
      Key.block dh.attrDdd.dddIno (blockBase pos) ∈ db) :
    ∃ bytes : List UInt8, bytes.length = n.toNat ∧
      (∀ i, i < n.toNat → bytes[i]? = content db dh.attrDdd.dddIno (offset.toNat + i)) ∧
      (dbfsRead heap dh buf n offset).run db =
        some ((0, n, bytes ++ buf.drop n.toNat), db) := by
  refine ⟨readBytes db dh.attrDdd.dddIno offset.toNat n.toNat, by simp, ?_, ?_⟩
  · intro i hi
    have hlt := dh.attrDdd.dddSize.toNat_lt
    have hsome := (content_isSome_iff hwf (by omega)).mpr
      (hblocks (offset.toNat + i) (by omega) (by omega))
    obtain ⟨byte, hbyte⟩ := Option.isSome_iff_exists.mp hsome
    rw [getElem?_readBytes hi, hbyte, Option.getD_some]
  · have hcode : (if n = 0 then 0
        else blockCode db dh.attrDdd.dddIno (offset.toNat + n.toNat - 1)) = 0 := by
      split
      · rfl
      · rename_i hne
        have hpos := toNat_ne_zero hne
        rw [blockCode, if_pos (hblocks _ (by omega) (by omega))]
    rw [run_dbfsRead heap hwf hinside hroom, hcode]

/--
After any sequence of writes through a handle that agrees with the database every
byte is that of the last write covering it and otherwise the old one, the stored
and the cached size are the largest end, and nothing else changed.  A read of
stored blocks returns these bytes.
-/
theorem writes_last_writer_wins (db : Db) (dh : DbfsHandle) (calls : List WriteCall)
    (hwf : BlocksWF db)
    (hstored : db.lookup (.dentry dh.attrDdk.ddkPath) = some dh.attrDdd)
    (hfits : ∀ call ∈ calls, call.Fits) :
    ∃ db' ddd,
      (dbfsWrites dh calls).run db =
        some ((calls.map fun _ => 0, { dh with attrDdd := ddd }), db') ∧
      ((content db dh.attrDdd.dddIno).overlayAll (calls.map WriteCall.range)).Le
        (content db' dh.attrDdd.dddIno) ∧
      db'.lookup (.dentry dh.attrDdk.ddkPath) = some ddd ∧
      ddd = { dh.attrDdd with dddSize := ddd.dddSize } ∧
      ddd.dddSize.toNat = sizeAfter dh.attrDdd.dddSize.toNat calls ∧
      (∀ key, ¬ BlockOf dh.attrDdd.dddIno key → key ≠ .dentry dh.attrDdk.ddkPath →
        db'.lookup key = db.lookup key) ∧
      ∀ heap buf (n offset : UInt64), n.toNat ≤ buf.length →
        offset.toNat + n.toNat ≤ ddd.dddSize.toNat →
        (∀ pos, offset.toNat ≤ pos → pos < offset.toNat + n.toNat →
          Key.block dh.attrDdd.dddIno (blockBase pos) ∈ db') →
        ∃ bytes : List UInt8, bytes.length = n.toNat ∧
          (∀ i, i < n.toNat →
            bytes[i]? = content db' dh.attrDdd.dddIno (offset.toNat + i)) ∧
          (dbfsRead heap { dh with attrDdd := ddd } buf n offset).run db' =
            some ((0, n, bytes ++ buf.drop n.toNat), db') := by
  obtain ⟨db', size, hwf', hrun, hwritten, hstored', hsize, hframe⟩ :=
    run_dbfsWrites dh hwf hstored hfits
  refine ⟨db', _, hrun, hwritten, hstored', rfl, hsize, hframe, ?_⟩
  intro heap buf n offset hroom hinside hblocks
  exact run_dbfsRead_stored heap
    { dh with attrDdd := { dh.attrDdd with dddSize := size } } hwf' hroom hinside hblocks

theorem writes_last_writer_wins_overlap :
    ∃ db' ddd, (dbfsWrites
        (initHandle pathA ⟨1, 0o644, 2, 0, 0, 0, 0, 0⟩)
        [⟨plainHeap, [1, 2, 3], 4094⟩, ⟨plainHeap, [9], 4096⟩]).run
          ((∅ : Db).insert (.dentry pathA) (⟨1, 0o644, 2, 0, 0, 0, 0, 0⟩ : DentryData)) =
        some (([0, 0], { initHandle pathA ⟨1, 0o644, 2, 0, 0, 0, 0, 0⟩ with
          attrDdd := ddd }), db') ∧
      ddd.dddSize.toNat = 4097 ∧ content db' 2 4095 = some 2 ∧
      content db' 2 4096 = some 9 := by
  have hwf : BlocksWF ((∅ : Db).insert (.dentry pathA)
      (⟨1, 0o644, 2, 0, 0, 0, 0, 0⟩ : DentryData)) := by
    apply BlocksWF.insert_dentry
    intro ino offset record hrecord
    rw [Finmap.lookup_empty] at hrecord
    cases hrecord
  obtain ⟨db', ddd, hrun, hwritten, -, -, hsize, -⟩ := writes_last_writer_wins _
    (initHandle pathA ⟨1, 0o644, 2, 0, 0, 0, 0, 0⟩)
    [⟨plainHeap, [1, 2, 3], 4094⟩, ⟨plainHeap, [9], 4096⟩] hwf
    (Finmap.lookup_insert _) (by simp [WriteCall.Fits, WriteCall.stop])
  exact ⟨db', ddd, hrun, hsize, hwritten 4095 2 rfl, hwritten 4096 9 rfl⟩

end Mangoo.Dbfs
