import Mangoo.Foundation.Frame
import Mangoo.Dbfs.BlockLoop
import Mangoo.Dbfs.Attr

/-!
# Transfers

What holds of `dbfs_readwrite` for all arguments and all databases: which records
a transfer touches, that it returns, and how many bytes it reports.
-/

namespace Mangoo.Dbfs

open Mangoo.Foundation

variable {faulty : Prop} {db db' : Db} {heap : Heap} {ino : UInt64} {l l' : RwLocals}

/-! ## One iteration -/

/-- An iteration that goes on leaves the rest of the range. -/
def GoesOn (l : RwLocals) (result : Bool × RwLocals) : Prop :=
  result.1 = true → result.2.size = l.next.size ∧ result.2.offset = l.next.offset ∧
    result.2.dbkOffset = l.next.dbkOffset

theorem returns_getBlock (ino offset : UInt64) (data : List UInt8) :
    (getBlock ino offset data).Returns fun _ => True := by
  refine (Prog.returns_getRec _).bind ?_
  intro found _
  cases found with
  | error error => exact Prog.returns_pure trivial
  | ok record =>
      simp only
      split <;> exact Prog.returns_pure trivial

theorem returns_writeBlock (ino : UInt64) (l : RwLocals) (block : List UInt8) :
    (writeBlock ino { l with data := block }).Returns (GoesOn l) := by
  refine (Prog.returns_putRec _ _ _).bind ?_
  intro error _
  split
  · exact Prog.returns_pure fun h => by cases h
  · exact Prog.returns_pure fun _ => ⟨rfl, rfl, rfl⟩

theorem returns_readwriteBlock (heap : Heap) (ino : UInt64) (read : Bool) (l : RwLocals) :
    (readwriteBlock heap ino read l).Returns (GoesOn l) := by
  refine (returns_getBlock _ _ _).bind ?_
  intro result _
  cases result with
  | error error =>
      simp only
      split
      · exact Prog.returns_pure fun h => by cases h
      · split
        · exact Prog.returns_pure fun _ => ⟨rfl, rfl, rfl⟩
        · exact returns_writeBlock ino l _
  | ok data =>
      simp only
      split
      · exact Prog.returns_pure fun _ => ⟨rfl, rfl, rfl⟩
      · exact returns_writeBlock ino l data

/-! ## The records a transfer touches -/

def BlockOf (ino : UInt64) (key : Key) : Prop := ∃ offset, key = .block ino offset

variable {K : Key → Prop}

theorem reads_getBlock {offset : UInt64} (data : List UInt8) (h : K (.block ino offset)) :
    (getBlock ino offset data).Reads K := by
  refine .bind (Prog.reads_getRec h) ?_
  intro found
  cases found with
  | error error => exact Prog.reads_pure _
  | ok record =>
      simp only
      split
      · exact Prog.reads_pure _
      · exact Prog.reads_pure _

theorem changes_writeBlock (ino : UInt64) (l : RwLocals) :
    (writeBlock ino l).Changes (BlockOf ino) := by
  refine .bind (Prog.changes_putRec _ _ ⟨l.dbkOffset, rfl⟩) ?_
  intro error
  split
  · exact Prog.changes_pure _
  · exact Prog.changes_pure _

theorem changes_readwriteBlock (heap : Heap) (ino : UInt64) (read : Bool) (l : RwLocals) :
    (readwriteBlock heap ino read l).Changes (BlockOf ino) := by
  refine .bind ((reads_getBlock l.data (K := BlockOf ino) ⟨_, rfl⟩).changes _) ?_
  intro result
  cases result with
  | error error =>
      simp only
      split
      · exact Prog.changes_pure _
      · split
        · exact Prog.changes_pure _
        · exact changes_writeBlock _ _
  | ok data =>
      simp only
      split
      · exact Prog.changes_pure _
      · exact changes_writeBlock _ _

theorem reads_readwriteBlock (heap : Heap) (h : K (.block ino l.dbkOffset)) :
    (readwriteBlock heap ino true l).Reads K := by
  refine .bind (reads_getBlock _ h) ?_
  intro result
  cases result with
  | error error =>
      simp only
      split <;> exact Prog.reads_pure _
  | ok data => exact Prog.reads_pure _

theorem changes_readwriteLoop (heap : Heap) (ino : UInt64) (read : Bool) (fuel : Nat)
    (l : RwLocals) : (readwriteLoop heap ino read fuel l).Changes (BlockOf ino) := by
  induction fuel generalizing l with
  | zero =>
      unfold readwriteLoop
      split
      · exact Prog.changes_pure _
      · exact Prog.changes_spin
  | succ fuel ih =>
      unfold readwriteLoop
      split
      · exact Prog.changes_pure _
      · refine .bind (changes_readwriteBlock _ _ _ _) ?_
        rintro ⟨goesOn, l'⟩
        simp only
        split
        · exact ih l'
        · exact Prog.changes_pure _

/-- The invariant `I` of the iterations says which block each of them fetches. -/
theorem reads_readwriteLoop {I : RwLocals → Prop} (heap : Heap) (fuel : Nat)
    (hkey : ∀ l, I l → l.size ≠ 0 → K (.block ino l.dbkOffset))
    (hnext : ∀ l l', I l → l.size ≠ 0 → GoesOn l (true, l') → I l') (h : I l) :
    (readwriteLoop heap ino true fuel l).Reads K := by
  induction fuel generalizing l with
  | zero =>
      unfold readwriteLoop
      split
      · exact Prog.reads_pure _
      · exact Prog.reads_spin
  | succ fuel ih =>
      unfold readwriteLoop
      split
      · exact Prog.reads_pure _
      · rename_i hsize
        refine .bind_yields (reads_readwriteBlock heap (hkey l h hsize))
          (returns_readwriteBlock heap ino true l).yields ?_
        rintro ⟨goesOn, l'⟩ hgoes
        cases goesOn with
        | true => exact ih (hnext l l' h hsize hgoes)
        | false => exact Prog.reads_pure _

theorem changes_dbfsReadwrite (heap : Heap) (ino : UInt64) (buf : List UInt8)
    (size offset : UInt64) (read : Bool) :
    (dbfsReadwrite heap ino buf size offset read).Changes (BlockOf ino) :=
  .bind (changes_readwriteLoop _ _ _ _ _) fun _ => Prog.changes_pure _

theorem reads_dbfsRead (heap : Heap) (dh : DbfsHandle) (buf : List UInt8)
    (size offset : UInt64) :
    (dbfsRead heap dh buf size offset).Reads (BlockOf dh.attrDdd.dddIno) := by
  unfold dbfsRead
  split
  · exact Prog.reads_pure _
  · have hkey : ∀ l : RwLocals, True → l.size ≠ 0 →
        BlockOf dh.attrDdd.dddIno (.block dh.attrDdd.dddIno l.dbkOffset) :=
      fun l _ _ => ⟨l.dbkOffset, rfl⟩
    exact .bind (reads_readwriteLoop _ _ hkey (fun _ _ _ _ _ => trivial) trivial)
      fun _ => Prog.reads_pure _

/-! ## The loop returns -/

theorem toNat_sizeinblk_bounds (hoff : l.offinblk.toNat < 4096) (hsize : l.size ≠ 0) :
    0 < l.sizeinblk.toNat ∧ l.sizeinblk.toNat ≤ l.size.toNat := by
  have hpos := toNat_ne_zero hsize
  have hlt := l.size.toNat_lt
  have hle : l.offinblk ≤ dbfsBlksize := by
    rw [UInt64.le_iff_toNat_le, toNat_dbfsBlksize]
    omega
  unfold RwLocals.sizeinblk
  split
  · rename_i hgt
    rw [gt_iff_lt, UInt64.lt_iff_toNat_lt, UInt64.toNat_add, toNat_dbfsBlksize] at hgt
    rw [UInt64.toNat_sub_of_le _ _ hle, toNat_dbfsBlksize]
    omega
  · omega

/-- Every iteration shortens what is left, whatever the offset and the size. -/
theorem returns_readwriteLoop (heap : Heap) (ino : UInt64) (read : Bool) {fuel : Nat}
    (l : RwLocals) (hoff : l.size ≠ 0 → l.offinblk.toNat < 4096)
    (hfuel : l.size.toNat ≤ fuel) :
    (readwriteLoop heap ino read fuel l).Returns fun _ => True := by
  induction fuel generalizing l with
  | zero =>
      have hzero : l.size = 0 := by
        apply UInt64.toNat_inj.mp
        simp only [UInt64.toNat_zero]
        omega
      rw [readwriteLoop, if_pos hzero]
      exact Prog.returns_pure trivial
  | succ fuel ih =>
      rw [readwriteLoop]
      split
      · exact Prog.returns_pure trivial
      · rename_i hsize
        obtain ⟨hpos, hle⟩ := toNat_sizeinblk_bounds (hoff hsize) hsize
        refine (returns_readwriteBlock heap ino read l).bind ?_
        rintro ⟨goesOn, l₁⟩ hnext
        cases goesOn with
        | false => exact Prog.returns_pure trivial
        | true =>
            obtain ⟨hsize₁, hoffset₁, hkey₁⟩ := hnext rfl
            have hleft : l₁.size.toNat = l.size.toNat - l.sizeinblk.toNat := by
              rw [hsize₁]
              exact UInt64.toNat_sub_of_le _ _ (UInt64.le_iff_toNat_le.mpr hle)
            have haligned : l₁.offinblk = 0 := by
              rw [RwLocals.offinblk, hoffset₁, hkey₁, RwLocals.next, UInt64.sub_self]
            exact ih l₁ (by simp [haligned]) (by omega)

theorem toNat_offinblk_rwStart (buf : List UInt8) (size offset : UInt64) :
    (rwStart buf size offset).offinblk.toNat < 4096 := by
  rw [RwLocals.offinblk, rwStart, toNat_sub_blockOffset]
  exact Nat.mod_lt _ (by decide)

theorem returns_dbfsReadwrite (heap : Heap) (ino : UInt64) (buf : List UInt8)
    (size offset : UInt64) (read : Bool) :
    (dbfsReadwrite heap ino buf size offset read).Returns fun _ => True := by
  refine (returns_readwriteLoop heap ino read (rwStart buf size offset)
    (fun _ => toNat_offinblk_rwStart buf size offset) le_rfl).bind ?_
  intro l _
  exact Prog.returns_pure trivial

theorem run_dbfsReadwrite_returns (heap : Heap) (ino : UInt64) (buf : List UInt8)
    (size offset : UInt64) (read : Bool) (db : Db) :
    ∃ result db', (dbfsReadwrite heap ino buf size offset read).run db =
      some (result, db') := by
  obtain ⟨result, db', hrun, -⟩ := (returns_dbfsReadwrite heap ino buf size offset read).run db
  exact ⟨result, db', hrun⟩

/-! ## Failed calls -/

theorem exec_getBlock_run {offset : UInt64} {data : List UInt8}
    {result : Except Int (List UInt8)}
    (h : Prog.Exec faulty (getBlock ino offset data) db result db') :
    (getBlock ino offset data).run db = some (result, db') ∨
      ∃ e, Prog.IsFault e ∧ result = .error e := by
  simp only [getBlock, Prog.exec_bind, Prog.exec_getRec] at h
  obtain ⟨found, mid, ⟨rfl, rfl | ⟨-, e, he, rfl⟩⟩, hret⟩ := h
  · left
    simp only [getBlock, Prog.run_bind, Prog.run_getRec, Option.bind_some]
    cases hfetch : fetch mid (Key.block ino offset) with
    | error code =>
        rw [hfetch] at hret
        obtain ⟨rfl, rfl⟩ := Prog.exec_pure.mp hret
        rfl
    | ok record =>
        rw [hfetch] at hret
        simp only at hret ⊢
        split at hret <;> obtain ⟨rfl, rfl⟩ := Prog.exec_pure.mp hret <;> rename_i hbig
        · rw [if_pos hbig]
          rfl
        · rw [if_neg hbig]
          rfl
  · right
    obtain ⟨rfl, -⟩ := Prog.exec_pure.mp hret
    exact ⟨e, he, rfl⟩

theorem exec_writeBlock_run {goesOn : Bool}
    (h : Prog.Exec faulty (writeBlock ino l) db (goesOn, l') db') :
    (writeBlock ino l).run db = some ((goesOn, l'), db') ∨
      goesOn = false ∧ l'.error = eio := by
  simp only [writeBlock, Prog.exec_bind, Prog.exec_putRec] at h
  obtain ⟨code, mid, hput | ⟨-, hfault, rfl⟩, hret⟩ := h
  · left
    rw [store_overwrite] at hput
    cases hput
    rw [if_neg (by simp), Prog.exec_pure] at hret
    obtain ⟨heq, rfl⟩ := hret
    simp [writeBlock, heq]
  · right
    rw [if_pos hfault.1, Prog.exec_pure] at hret
    obtain ⟨heq, rfl⟩ := hret
    cases heq
    exact ⟨rfl, rfl⟩

theorem exec_readwriteBlock_run {read goesOn : Bool}
    (h : Prog.Exec faulty (readwriteBlock heap ino read l) db (goesOn, l') db') :
    (readwriteBlock heap ino read l).run db = some ((goesOn, l'), db') ∨
      goesOn = false ∧ l'.error = eio := by
  simp only [readwriteBlock, Prog.exec_bind] at h
  obtain ⟨result, mid, hget, hrest⟩ := h
  rcases exec_getBlock_run hget with hrun | ⟨e, he, rfl⟩
  · simp only [readwriteBlock, Prog.run_bind, hrun, Option.bind_some]
    cases result with
    | error error =>
        simp only at hrest ⊢
        split at hrest
        · obtain ⟨heq, rfl⟩ := Prog.exec_pure.mp hrest
          cases heq
          exact .inr ⟨rfl, rfl⟩
        · rename_i hcode
          rw [if_neg hcode]
          cases read with
          | true =>
              obtain ⟨heq, rfl⟩ := Prog.exec_pure.mp hrest
              rw [heq]
              exact .inl rfl
          | false => exact exec_writeBlock_run hrest
    | ok data =>
        cases read with
        | true =>
            obtain ⟨heq, rfl⟩ := Prog.exec_pure.mp hrest
            rw [heq]
            exact .inl rfl
        | false => exact exec_writeBlock_run hrest
  · right
    simp only [ne_eq, he.2, not_false_eq_true, if_true, Prog.exec_pure] at hrest
    obtain ⟨heq, rfl⟩ := hrest
    cases heq
    exact ⟨rfl, rfl⟩

theorem exec_readwriteLoop_run {read : Bool} {fuel : Nat}
    (h : Prog.Exec faulty (readwriteLoop heap ino read fuel l) db l' db') :
    (readwriteLoop heap ino read fuel l).run db = some (l', db') ∨ l'.error = eio := by
  induction fuel generalizing l db with
  | zero =>
      unfold readwriteLoop at h ⊢
      split at h
      · rename_i hsize
        obtain ⟨rfl, rfl⟩ := Prog.exec_pure.mp h
        simp [hsize]
      · exact absurd h Prog.exec_spin
  | succ fuel ih =>
      unfold readwriteLoop at h ⊢
      split at h
      · rename_i hsize
        obtain ⟨rfl, rfl⟩ := Prog.exec_pure.mp h
        simp [hsize]
      · rename_i hsize
        rw [Prog.exec_bind] at h
        obtain ⟨⟨goesOn, l₁⟩, mid, hblock, hrest⟩ := h
        simp only [if_neg hsize, Prog.run_bind]
        rcases exec_readwriteBlock_run hblock with hrun | ⟨rfl, herror⟩
        · simp only [hrun, Option.bind_some]
          cases goesOn with
          | true => exact ih hrest
          | false =>
              obtain ⟨rfl, rfl⟩ := Prog.exec_pure.mp hrest
              exact .inl rfl
        · obtain ⟨rfl, rfl⟩ := Prog.exec_pure.mp hrest
          exact .inr herror

theorem exec_dbfsReadwrite_run {buf out : List UInt8} {size offset count : UInt64}
    {read : Bool} {code : Int}
    (h : Prog.Exec faulty (dbfsReadwrite heap ino buf size offset read) db
      (code, count, out) db') :
    (dbfsReadwrite heap ino buf size offset read).run db = some ((code, count, out), db') ∨
      code = eio := by
  simp only [dbfsReadwrite, Prog.exec_bind] at h
  obtain ⟨l', mid, hloop, hret⟩ := h
  obtain ⟨heq, rfl⟩ := Prog.exec_pure.mp hret
  simp only [Prod.mk.injEq] at heq
  obtain ⟨rfl, rfl, rfl⟩ := heq
  rcases exec_readwriteLoop_run hloop with hrun | herror
  · left
    simp [dbfsReadwrite, hrun]
  · exact .inr herror

/-! ## The reported count -/

theorem exec_writeBlock_count {goesOn : Bool} {block : List UInt8}
    (h : Prog.Exec faulty (writeBlock ino { l with data := block }) db
      (goesOn, l') db') :
    goesOn = true ∧ l'.count = l.next.count ∧ l'.size = l.next.size ∨
      goesOn = false ∧ l'.error ≠ 0 := by
  obtain ⟨data, -, ⟨rfl, rfl, -⟩ | ⟨-, rfl, rfl, -⟩⟩ := exec_writeBlock h
  · exact .inl ⟨rfl, rfl, rfl⟩
  · exact .inr ⟨rfl, by simp only [eio]; omega⟩

theorem exec_readwriteBlock_count {read goesOn : Bool}
    (h : Prog.Exec faulty (readwriteBlock heap ino read l) db (goesOn, l') db') :
    goesOn = true ∧ l'.count = l.next.count ∧ l'.size = l.next.size ∨
      goesOn = false ∧ l'.error ≠ 0 := by
  simp only [readwriteBlock, Prog.exec_bind] at h
  obtain ⟨result, mid, -, hrest⟩ := h
  cases result with
  | error error =>
      simp only at hrest
      split at hrest
      · obtain ⟨heq, -⟩ := Prog.exec_pure.mp hrest
        cases heq
        exact .inr ⟨rfl, by simp only [eio]; omega⟩
      · split at hrest
        · obtain ⟨heq, -⟩ := Prog.exec_pure.mp hrest
          cases heq
          exact .inl ⟨rfl, rfl, rfl⟩
        · exact exec_writeBlock_count hrest
  | ok data =>
      simp only at hrest
      split at hrest
      · obtain ⟨heq, -⟩ := Prog.exec_pure.mp hrest
        cases heq
        exact .inl ⟨rfl, rfl, rfl⟩
      · exact exec_writeBlock_count hrest

theorem exec_readwriteLoop_count {read : Bool} {fuel : Nat}
    (h : Prog.Exec faulty (readwriteLoop heap ino read fuel l) db l' db') :
    l'.count = l.count + l.size ∨ l'.error ≠ 0 := by
  have hdone : ∀ {db : Db} {l : RwLocals}, l.size = 0 →
      Prog.Exec faulty (pure l) db l' db' → l'.count = l.count + l.size ∨ l'.error ≠ 0 := by
    intro db l hsize hret
    obtain ⟨rfl, -⟩ := Prog.exec_pure.mp hret
    exact .inl (by rw [hsize, UInt64.add_zero])
  induction fuel generalizing l db with
  | zero =>
      unfold readwriteLoop at h
      split at h
      · rename_i hsize
        exact hdone hsize h
      · exact absurd h Prog.exec_spin
  | succ fuel ih =>
      unfold readwriteLoop at h
      split at h
      · rename_i hsize
        exact hdone hsize h
      · rw [Prog.exec_bind] at h
        obtain ⟨⟨goesOn, l₁⟩, mid, hblock, hrest⟩ := h
        rcases exec_readwriteBlock_count hblock with ⟨rfl, hcount, hsize⟩ | ⟨rfl, herror⟩
        · rcases ih hrest with hcount' | herror
          · left
            rw [hcount', hcount, hsize]
            simp only [RwLocals.next]
            rw [UInt64.add_assoc, UInt64.add_comm l.sizeinblk, UInt64.sub_add_cancel]
          · exact .inr herror
        · obtain ⟨rfl, -⟩ := Prog.exec_pure.mp hrest
          exact .inr herror

theorem exec_dbfsReadwrite_count {buf out : List UInt8} {size offset count : UInt64}
    {read : Bool}
    (h : Prog.Exec faulty (dbfsReadwrite heap ino buf size offset read) db
      (0, count, out) db') : count = size := by
  simp only [dbfsReadwrite, Prog.exec_bind] at h
  obtain ⟨l', mid, hloop, hret⟩ := h
  obtain ⟨heq, -⟩ := Prog.exec_pure.mp hret
  simp only [Prod.mk.injEq] at heq
  obtain ⟨hzero, rfl, -⟩ := heq
  rcases exec_readwriteLoop_count hloop with hcount | herror
  · rw [hcount]
    exact UInt64.zero_add size
  · exact absurd hzero.symm herror

end Mangoo.Dbfs
