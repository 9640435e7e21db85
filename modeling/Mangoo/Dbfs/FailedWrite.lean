import Mangoo.Foundation.Faults
import Mangoo.Dbfs.EndOfFile
import Mangoo.Dbfs.HandleCache

/-!
# Writes that fail

A write under a schedule of failing database calls.  When the fetch or the store of a
block fails the write stops there, reports how far it came, and has left everything
else as it was.
-/

namespace Mangoo.Dbfs

open Mangoo.Foundation

def IsBlockRequest : Request Key → Prop
  | .get (.block _ _) => True
  | .put (.block _ _) => True
  | _ => False

variable {db db' : Db} {heap : Heap} {ino : UInt64} {l l' : RwLocals} {read : Bool}
  {failed : List (Request Key)} {off : Nat} {bytes : List UInt8}

/-! ## A failed call ends the transfer -/

theorem outcome_getBlock_failed {offset : UInt64} {data : List UInt8}
    {result : Except Int (List UInt8)}
    (h : Prog.Outcome (getBlock ino offset data) db failed result db') (hfailed : failed ≠ []) :
    ∃ e, Prog.IsFault e ∧ result = .error e := by
  obtain ⟨found, mid, first, second, rfl, hget, hret⟩ := Prog.outcome_bind.mp h
  rcases Prog.outcome_getRec.mp hget with ⟨rfl, -, -⟩ | ⟨rfl, ⟨e, he, rfl⟩, rfl⟩
  · exfalso
    apply hfailed
    cases found with
    | error code => exact (Prog.outcome_pure.mp hret).1
    | ok record =>
        simp only at hret
        split at hret
        · exact (Prog.outcome_pure.mp hret).1
        · exact (Prog.outcome_pure.mp hret).1
  · obtain ⟨-, rfl, -⟩ := Prog.outcome_pure.mp hret
    exact ⟨e, he, rfl⟩

theorem outcome_writeBlock_failed {goesOn : Bool}
    (h : Prog.Outcome (writeBlock ino l) db failed (goesOn, l') db') (hfailed : failed ≠ []) :
    goesOn = false ∧ l'.error = eio := by
  obtain ⟨code, mid, first, second, rfl, hput, hret⟩ := Prog.outcome_bind.mp h
  rcases Prog.outcome_putRec.mp hput with ⟨rfl, hstore⟩ | ⟨rfl, hfault, rfl⟩
  · exfalso
    apply hfailed
    split at hret
    · exact (Prog.outcome_pure.mp hret).1
    · exact (Prog.outcome_pure.mp hret).1
  · rw [if_pos hfault.1] at hret
    obtain ⟨-, heq, -⟩ := Prog.outcome_pure.mp hret
    cases heq
    exact ⟨rfl, rfl⟩

theorem outcome_readwriteBlock_failed {goesOn : Bool}
    (h : Prog.Outcome (readwriteBlock heap ino read l) db failed (goesOn, l') db')
    (hfailed : failed ≠ []) : goesOn = false ∧ l'.error = eio := by
  obtain ⟨result, mid, first, second, rfl, hget, hrest⟩ := Prog.outcome_bind.mp h
  by_cases hfirst : first = []
  · subst hfirst
    cases result with
    | error code =>
        simp only at hrest
        split at hrest
        · exact absurd (Prog.outcome_pure.mp hrest).1 hfailed
        · split at hrest
          · exact absurd (Prog.outcome_pure.mp hrest).1 hfailed
          · exact outcome_writeBlock_failed hrest hfailed
    | ok data =>
        simp only at hrest
        split at hrest
        · exact absurd (Prog.outcome_pure.mp hrest).1 hfailed
        · exact outcome_writeBlock_failed hrest hfailed
  · obtain ⟨e, he, rfl⟩ := outcome_getBlock_failed hget hfirst
    simp only [ne_eq, he.2, not_false_eq_true, if_true] at hrest
    obtain ⟨-, heq, -⟩ := Prog.outcome_pure.mp hrest
    cases heq
    exact ⟨rfl, rfl⟩

theorem outcome_readwriteLoop_failed {fuel : Nat}
    (h : Prog.Outcome (readwriteLoop heap ino read fuel l) db failed l' db')
    (hfailed : failed ≠ []) : l'.error = eio := by
  induction fuel generalizing l db failed with
  | zero =>
      rw [readwriteLoop] at h
      split at h
      · exact absurd (Prog.outcome_pure.mp h).1 hfailed
      · exact absurd h.exec Prog.exec_spin
  | succ fuel ih =>
      rw [readwriteLoop] at h
      split at h
      · exact absurd (Prog.outcome_pure.mp h).1 hfailed
      · obtain ⟨⟨goesOn, l₁⟩, mid, first, second, rfl, hblock, hrest⟩ :=
          Prog.outcome_bind.mp h
        by_cases hfirst : first = []
        · subst hfirst
          cases goesOn with
          | true => exact ih hrest hfailed
          | false => exact absurd (Prog.outcome_pure.mp hrest).1 hfailed
        · obtain ⟨rfl, herror⟩ := outcome_readwriteBlock_failed hblock hfirst
          obtain ⟨-, rfl, -⟩ := Prog.outcome_pure.mp hrest
          exact herror

theorem outcome_dbfsReadwrite_failed {buf out : List UInt8} {size offset count : UInt64}
    {code : Int}
    (h : Prog.Outcome (dbfsReadwrite heap ino buf size offset read) db failed
      (code, count, out) db') (hfailed : failed ≠ []) : code = eio := by
  obtain ⟨l, mid, first, second, rfl, hloop, hret⟩ := Prog.outcome_bind.mp h
  obtain ⟨rfl, heq, -⟩ := Prog.outcome_pure.mp hret
  cases heq
  rw [List.append_nil] at hfailed
  exact outcome_readwriteLoop_failed hloop hfailed

/-! ## The blocks that a prefix touches -/

theorem WroteRange.lookup_untouched {key : Key} (h : WroteRange ino db db' off bytes)
    (hwf : BlocksWF db) (hne : bytes ≠ []) (hfits : off + bytes.length < 2 ^ 64)
    (hkey : ∀ i < bytes.length, key ≠ .block ino (blockBase (off + i))) :
    db'.lookup key = db.lookup key := by
  have hpos := List.length_pos_of_ne_nil hne
  by_cases hmeets : ∃ offset, key = .block ino offset ∧ Meets offset off bytes.length
  · obtain ⟨offset, rfl, hlow, hhigh⟩ := hmeets
    -- a block that meets the range without holding a byte of it is not aligned
    have hunaligned : offset.toNat % 4096 ≠ 0 := by
      intro haligned
      apply hkey (offset.toNat - off) (by omega)
      have hbase : blockBase (off + (offset.toNat - off)) = offset :=
        (blockBase_eq_iff (by omega)).mpr (by omega)
      rw [hbase]
    have hnone : ∀ {store : Db}, BlocksWF store → store.lookup (.block ino offset) = none := by
      intro store hstore
      rw [← Option.not_isSome_iff_eq_none]
      intro hsome
      obtain ⟨record, hrecord⟩ := Option.isSome_iff_exists.mp hsome
      exact hunaligned (hstore _ _ _ hrecord).2
    rw [hnone hwf, hnone h.wf]
  · apply h.frame
    intro offset heq hin
    exact hmeets ⟨offset, heq, hin⟩

theorem exec_readwriteLoop_stuck {faulty : Prop} {fuel : Nat} (hwf : BlocksWF db)
    (hinv : RwInv l) (hcount : l'.count = l.count)
    (h : Prog.Exec faulty (readwriteLoop heap ino false fuel l) db l' db') : db' = db := by
  cases fuel with
  | zero =>
      rw [readwriteLoop] at h
      split at h
      · exact (Prog.exec_pure.mp h).2
      · exact absurd h Prog.exec_spin
  | succ fuel =>
      rw [readwriteLoop] at h
      split at h
      · exact (Prog.exec_pure.mp h).2
      · rename_i hsize
        rw [Prog.exec_bind] at h
        obtain ⟨⟨goesOn, l₁⟩, mid, hblock, hrest⟩ := h
        rcases exec_readwriteBlock_stores hwf hinv hblock with
          ⟨rfl, rfl, rfl⟩ | ⟨-, rfl, rfl, data, rfl⟩
        · exfalso
          simp only [if_true] at hrest
          obtain ⟨hpos, hle, -⟩ := hinv.range hsize
          have hleft := hinv.toNat_next_size hsize
          have hdata := length_storedBlock heap ino hwf hinv hsize
          obtain ⟨k, hk, hmoved, -⟩ := exec_readwriteLoop_write
            (wroteRange_storedBlock heap ino hwf hinv hsize).wf
            ((hinv.next hsize).withData _ (.inr hdata) 0) rfl hrest
          change k ≤ l.next.size.toNat at hk
          change l'.count = l.count + l.sizeinblk + UInt64.ofNat k at hmoved
          have hlt := l.size.toNat_lt
          have hsum := congrArg UInt64.toNat (hcount.symm.trans hmoved)
          rw [UInt64.toNat_add, UInt64.toNat_add, UInt64.toNat_ofNat_of_lt' (by
            simp only [UInt64.size]
            omega)] at hsum
          omega
        · exact (Prog.exec_pure.mp hrest).2

theorem exec_dbfsReadwrite_prefix {faulty : Prop} {buf out : List UInt8}
    {offset count : UInt64} {code : Int} (hwf : BlocksWF db)
    (hfits : offset.toNat + buf.length < 2 ^ 64)
    (h : Prog.Exec faulty
      (dbfsReadwrite heap ino buf (UInt64.ofNat buf.length) offset false) db
      (code, count, out) db') :
    ∃ k ≤ buf.length, count.toNat = k ∧ (code ≠ 0 → k < buf.length) ∧
      (∀ i < k, content db' ino (offset.toNat + i) = buf[i]?) ∧
      ∀ key, (∀ i < k, key ≠ .block ino (blockBase (offset.toNat + i))) →
        db'.lookup key = db.lookup key := by
  have hsize : (UInt64.ofNat buf.length).toNat = buf.length :=
    UInt64.toNat_ofNat_of_lt' (by simp only [UInt64.size]; omega)
  obtain ⟨k, hk, hcount, hwrote, hend⟩ :=
    exec_dbfsReadwrite_write hwf (by rw [hsize]; exact hfits) (by rw [hsize]) h
  rw [hsize] at hk hend
  have hlength : (buf.take k).length = k := List.length_take_of_le hk
  have htoNat : count.toNat = k := by
    rw [hcount, UInt64.toNat_ofNat_of_lt' (by simp only [UInt64.size]; omega)]
  refine ⟨k, hk, htoNat, ?_, ?_, ?_⟩
  · intro hcode
    rcases hend with ⟨-, hzero⟩ | ⟨-, hlt, -⟩
    · exact absurd hzero hcode
    · exact hlt
  · intro i hi
    rw [← List.getElem?_take_of_lt hi]
    apply hwrote.written.byte_of_overlay
    rw [hlength]
    exact hi
  · intro key hkey
    by_cases hzero : k = 0
    · have hstuck : db' = db := by
        simp only [dbfsReadwrite, Prog.exec_bind] at h
        obtain ⟨l, mid, hloop, hret⟩ := h
        simp only [Prog.exec_pure, Prod.mk.injEq] at hret
        obtain ⟨⟨-, rfl, -⟩, rfl⟩ := hret
        have hinv : RwInv (rwStart buf (UInt64.ofNat buf.length) offset) :=
          rwInv_rwStart (by rw [hsize]; exact hfits) (by rw [hsize])
        apply exec_readwriteLoop_stuck hwf hinv _ hloop
        rw [hcount, hzero]
        rfl
      rw [hstuck]
    · apply hwrote.lookup_untouched hwf
      · intro hnil
        rw [hnil] at hlength
        exact hzero hlength.symm
      · rw [hlength]
        omega
      · rw [hlength]
        exact hkey

/-! ## Failed writes -/

theorem returns_dbfsWrite (heap : Heap) (dh : DbfsHandle) (buf : List UInt8)
    (size offset : UInt64) : (dbfsWrite heap dh buf size offset).Returns fun _ => True := by
  refine (returns_dbfsReadwrite _ _ _ _ _ _).bind ?_
  rintro ⟨code, count, out⟩ -
  simp only
  split
  · exact Prog.returns_pure trivial
  · refine Prog.Returns.bind (P := fun _ => True) ?_ fun _ _ => Prog.returns_pure trivial
    refine (Prog.returns_putRec _ _ _).bind ?_
    intro error _
    split <;> exact Prog.returns_pure trivial

theorem outcome_dbfsWrite_failed {dh dh' : DbfsHandle} {buf : List UInt8}
    {offset size count : UInt64} {error : Int}
    (h : Prog.Outcome (dbfsWrite heap dh buf size offset) db failed (error, count, dh') db')
    (hfailed : ∃ request ∈ failed, IsBlockRequest request) :
    error = eio ∧ dh' = dh ∧ ∃ out, Prog.Outcome
      (dbfsReadwrite heap dh.attrDdd.dddIno buf size offset false) db failed
      (eio, count, out) db' := by
  obtain ⟨⟨code, count', out⟩, mid, moving, storing, rfl, hmove, hrest⟩ :=
    Prog.outcome_bind.mp h
  obtain ⟨request, hmem, hblock⟩ := hfailed
  simp only at hrest
  by_cases hmoving : moving = []
  · -- the record's own store is no request for a block
    exfalso
    rw [hmoving, List.nil_append] at hmem
    split at hrest
    · rw [(Prog.outcome_pure.mp hrest).1] at hmem
      cases hmem
    · obtain ⟨code', mid', first, second, rfl, hattr, hret⟩ := Prog.outcome_bind.mp hrest
      obtain ⟨rfl, -, -⟩ := Prog.outcome_pure.mp hret
      rw [List.append_nil] at hmem
      rcases outcome_dbfsWriteAttr hattr with ⟨rfl, -, -⟩ | ⟨rfl, -, -⟩
      · cases hmem
      · rw [List.mem_singleton.mp hmem] at hblock
        exact hblock
  · have hcode := outcome_dbfsReadwrite_failed hmove hmoving
    subst hcode
    rw [if_pos (by decide)] at hrest
    obtain ⟨rfl, heq, rfl⟩ := Prog.outcome_pure.mp hrest
    cases heq
    rw [List.append_nil]
    exact ⟨rfl, rfl, out, hmove⟩

/--
A write under any schedule of failing calls returns.  When a fetch or a store of a block
fails it returns `EIO` and reports a number of bytes, fewer than were to be written,
that are stored; the blocks without any of these, all other records and the handle are
as before.
-/
theorem failed_write_clean_prefix (heap : Heap) (dh : DbfsHandle) (buf : List UInt8)
    (offset : UInt64) (db : Db) (faults : Prog.Schedule) (hwf : BlocksWF db)
    (hfits : offset.toNat + buf.length < 2 ^ 64) (hfaults : faults.Valid) :
    ∃ failed error count dh' db',
      (dbfsWrite heap dh buf (UInt64.ofNat buf.length) offset).runFaulty faults db =
        some (failed, (error, count, dh'), db') ∧
      ((∃ request ∈ failed, IsBlockRequest request) →
        error = eio ∧ dh' = dh ∧ ∃ k < buf.length, count.toNat = k ∧
          (∀ i < k, content db' dh.attrDdd.dddIno (offset.toNat + i) = buf[i]?) ∧
          (∀ key, (∀ i < k,
              key ≠ .block dh.attrDdd.dddIno (blockBase (offset.toNat + i))) →
            db'.lookup key = db.lookup key) ∧
          ∀ path, db'.lookup (.dentry path) = db.lookup (.dentry path)) := by
  obtain ⟨failed, ⟨error, count, dh'⟩, db', hrun, -, hout⟩ :=
    (returns_dbfsWrite heap dh buf (UInt64.ofNat buf.length) offset).runFaulty hfaults db
  refine ⟨failed, error, count, dh', db', hrun, ?_⟩
  intro hfailed
  obtain ⟨rfl, rfl, out, hmove⟩ := outcome_dbfsWrite_failed hout hfailed
  obtain ⟨k, -, hcount, hlt, hbytes, huntouched⟩ :=
    exec_dbfsReadwrite_prefix hwf hfits hmove.exec
  refine ⟨rfl, rfl, k, hlt (by decide), hcount, hbytes, huntouched, ?_⟩
  intro path
  apply huntouched
  intro i hi heq
  cases heq

def secondPutFails : Prog.Schedule := fun n => if n = 3 then some (-1) else none

theorem failed_write_second_block : ∃ count db',
    (dbfsWrite plainHeap streamHandle [1, 2, 3] 3 4095).runFaulty secondPutFails fileDb =
        some ([.put (.block 2 4096)], (eio, count, streamHandle), db') ∧
      ∃ k < 3, count.toNat = k ∧ ∀ i < k, content db' 2 (4095 + i) = [1, 2, 3][i]? := by
  have hfaults : secondPutFails.Valid := by
    intro n e h
    unfold secondPutFails at h
    split at h
    · cases h
      exact ⟨by decide, by decide⟩
    · cases h
  have hfailed : ((dbfsWrite plainHeap streamHandle [1, 2, 3] 3 4095).runFaulty
      secondPutFails fileDb).map Prod.fst = some [.put (.block 2 4096)] := rfl
  obtain ⟨failed, error, count, dh', db', hrun, hclean⟩ :=
    failed_write_clean_prefix plainHeap streamHandle [1, 2, 3] 4095 fileDb secondPutFails
      blocksWF_fileDb (by decide) hfaults
  have hfirst : failed = [.put (.block 2 4096)] := by
    have hmap := congrArg (Option.map Prod.fst) hrun
    exact (Option.some.inj (hfailed.symm.trans hmap)).symm
  subst hfirst
  obtain ⟨rfl, rfl, k, hk, hcount, hbytes, -⟩ := hclean ⟨_, List.mem_cons_self, trivial⟩
  exact ⟨count, db', hrun, k, hk, hcount, hbytes⟩

end Mangoo.Dbfs
