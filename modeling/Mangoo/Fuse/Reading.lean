import Mangoo.Dbfs.EndOfFile

/-!
# Reading through FUSE

`mf_read` of `mangoofuse.c` on top of `dbfs_read`, and the exact requests that
are clipped at the end of the file.  A request that starts behind the end, or
whose end wraps around, is reported as if all of it had been read.
-/

namespace Mangoo.Fuse

open Mangoo.Foundation Mangoo.Dbfs

/-- The `int` that `return size` makes of a `size_t`. -/
def intOfSize (size : UInt64) : Int := size.toUInt32.toInt32.toInt

/-- Ends the process when Berkeley DB does not open the environment. -/
def envOpen (heap : Heap) : DbProg Unit :=
  if heap.envOpens then return () else .spin

theorem envOpen_of_opens {heap : Heap} (h : heap.envOpens = true) : envOpen heap = pure () := by
  rw [envOpen, if_pos h]

/-- `fh` is the handle in `fi->fh`, `none` for zero. -/
def mfRead (heap : Heap) (fh : Option DbfsHandle) (buf : List UInt8)
    (size offset : UInt64) : DbProg (Int × List UInt8) := do
  envOpen heap
  match fh with
  | none => return (-einval, buf)
  | some handle =>
      let (error, size, buf) ← dbfsRead heap handle buf size offset
      if error ≠ 0 then return (-error, buf)
      return (intOfSize size, buf)

theorem intOfSize_le (size : UInt64) : intOfSize size ≤ size.toNat := by
  have hmod : size.toUInt32.toNat = size.toNat % 2 ^ 32 := UInt64.toNat_toUInt32 size
  have hle : size.toUInt32.toInt32.toInt ≤ size.toUInt32.toNat := by
    rw [← Int32.toInt_toBitVec, UInt32.toBitVec_toInt32, ← UInt32.toNat_toBitVec,
      BitVec.toInt_eq_toNat_cond]
    split <;> omega
  have hmod' := Nat.mod_le size.toNat (2 ^ 32)
  unfold intOfSize
  omega

variable {faulty : Prop} {db db' : Db} {size offset n : UInt64}

/-- A read that returns `0` leaves the clipped size, and that many bytes of the file in the
buffer. -/
def ReturnsClipped (size offset n : UInt64) : Prop :=
  ∀ (faulty : Prop) (heap : Heap) (dh : DbfsHandle) (db db' : Db) (buf out : List UInt8)
    (count : UInt64), dh.attrDdd.dddSize = size → BlocksWF db →
    clipped size offset n ≤ buf.length →
    Prog.Exec faulty (dbfsRead heap dh buf n offset) db (0, count, out) db' →
      count.toNat = clipped size offset n ∧
        out = readBytes db dh.attrDdd.dddIno offset.toNat (clipped size offset n) ++
          buf.drop (clipped size offset n)

/-- Reads of `n` bytes at `offset` from a file that is taken to have `size` bytes. -/
structure ClipsExactly (size offset n : UInt64) : Prop where
  returned : ReturnsClipped size offset n
  reported : ∀ (faulty : Prop) (heap : Heap) (dh : DbfsHandle) (db db' : Db)
    (buf out : List UInt8) (result : Int), dh.attrDdd.dddSize = size → BlocksWF db →
    clipped size offset n ≤ buf.length →
    Prog.Exec faulty (mfRead heap (some dh) buf n offset) db (result, out) db' →
      ∃ error count, Prog.Exec faulty (dbfsRead heap dh buf n offset) db
          (error, count, out) db' ∧
        (error = 0 → result ≤ clipped size offset n)
  accessed : ∀ (heap : Heap) (dh : DbfsHandle) (buf : List UInt8),
    dh.attrDdd.dddSize = size →
    (dbfsRead heap dh buf n offset).Reads (BlockBelow dh.attrDdd.dddIno size.toNat)

theorem exec_dbfsRead_run {heap : Heap} {dh : DbfsHandle} {buf out : List UInt8}
    {count : UInt64}
    (h : Prog.Exec faulty (dbfsRead heap dh buf n offset) db (0, count, out) db') :
    (dbfsRead heap dh buf n offset).run db = some ((0, count, out), db') := by
  by_cases hbefore : offset > dh.attrDdd.dddSize
  · rw [dbfsRead, if_pos hbefore] at h ⊢
    obtain ⟨heq, rfl⟩ := Prog.exec_pure.mp h
    rw [heq]
    rfl
  · rw [dbfsRead, if_neg hbefore] at h ⊢
    rcases exec_dbfsReadwrite_run h with hrun | hcode
    · exact hrun
    · exact absurd hcode (by decide)

theorem exec_envOpen {heap : Heap} (h : Prog.Exec faulty (envOpen heap) db () db') :
    heap.envOpens = true ∧ db' = db := by
  unfold envOpen at h
  split at h
  · rename_i hopens
    exact ⟨hopens, (Prog.exec_pure.mp h).2⟩
  · exact absurd h Prog.exec_spin

theorem exec_mfRead {heap : Heap} {dh : DbfsHandle} {buf out : List UInt8} {result : Int}
    (h : Prog.Exec faulty (mfRead heap (some dh) buf n offset) db (result, out) db') :
    ∃ error count, Prog.Exec faulty (dbfsRead heap dh buf n offset) db
        (error, count, out) db' ∧
      result = if error = 0 then intOfSize count else -error := by
  simp only [mfRead, Prog.exec_bind] at h
  obtain ⟨⟨⟩, mid₀, henv, ⟨error, count, out'⟩, mid, hread, hret⟩ := h
  obtain rfl := (exec_envOpen henv).2
  by_cases hzero : error = 0
  · subst hzero
    simp only [ne_eq, not_true_eq_false, if_false, Prog.exec_pure, Prod.mk.injEq] at hret
    obtain ⟨⟨rfl, rfl⟩, rfl⟩ := hret
    exact ⟨0, count, hread, by rw [if_pos rfl]⟩
  · rw [if_pos hzero, Prog.exec_pure, Prod.mk.injEq] at hret
    obtain ⟨⟨rfl, rfl⟩, rfl⟩ := hret
    exact ⟨error, count, hread, by rw [if_neg hzero]⟩

theorem ReturnsClipped.clipsExactly (hreturned : ReturnsClipped size offset n)
    (haccessed : ∀ (heap : Heap) (dh : DbfsHandle) (buf : List UInt8),
      dh.attrDdd.dddSize = size →
      (dbfsRead heap dh buf n offset).Reads (BlockBelow dh.attrDdd.dddIno size.toNat)) :
    ClipsExactly size offset n where
  returned := hreturned
  reported := by
    intro faulty heap dh db db' buf out result hsize hwf hroom h
    obtain ⟨error, count, hread, rfl⟩ := exec_mfRead h
    refine ⟨error, count, hread, ?_⟩
    rintro rfl
    obtain ⟨hcount, -⟩ := hreturned faulty heap dh db db' buf out count hsize hwf hroom hread
    rw [if_pos rfl, ← hcount]
    exact intOfSize_le count
  accessed := haccessed

theorem clipsExactly_of_fits (hoffset : offset.toNat ≤ size.toNat)
    (hfits : offset.toNat + n.toNat < 2 ^ 64) : ClipsExactly size offset n := by
  apply ReturnsClipped.clipsExactly
  · intro faulty heap dh db db' buf out count hsize hwf hroom h
    subst hsize
    have hrun := exec_dbfsRead_run h
    rw [run_dbfsRead_clipped heap hwf hoffset hfits hroom] at hrun
    simp only [Option.some.injEq, Prod.mk.injEq] at hrun
    obtain ⟨⟨-, rfl, rfl⟩, rfl⟩ := hrun
    exact ⟨toNat_ofNat_clipped _ _ _, rfl⟩
  · intro heap dh buf hsize
    subst hsize
    exact reads_dbfsRead_below heap dh buf hoffset hfits

theorem clipsExactly_of_behind (hoffset : size.toNat < offset.toNat) :
    ClipsExactly size offset 0 := by
  have hpure : ∀ (heap : Heap) (dh : DbfsHandle) (buf : List UInt8),
      dh.attrDdd.dddSize = size → dbfsRead heap dh buf 0 offset = pure (0, 0, buf) := by
    intro heap dh buf hsize
    exact dbfsRead_of_behind heap buf 0 (by rw [hsize]; exact hoffset)
  apply ReturnsClipped.clipsExactly
  · intro faulty heap dh db db' buf out count hsize hwf hroom h
    rw [hpure heap dh buf hsize, Prog.exec_pure] at h
    obtain ⟨heq, rfl⟩ := h
    cases heq
    simp [clipped, readBytes]
  · intro heap dh buf hsize
    rw [hpure heap dh buf hsize]
    exact Prog.reads_pure _

def sizedHandle (size : UInt64) : DbfsHandle := initHandle pathA ⟨1, 0o644, 2, size, 0, 0, 0, 0⟩

theorem not_clipsExactly_of_behind (hoffset : size.toNat < offset.toNat) (hn : n ≠ 0) :
    ¬ ClipsExactly size offset n := by
  intro hclips
  have hpure : dbfsRead plainHeap (sizedHandle size) [] n offset = pure (0, n, []) :=
    dbfsRead_of_behind plainHeap [] n hoffset
  have hzero : clipped size offset n = 0 := by
    unfold clipped
    omega
  obtain ⟨hcount, -⟩ := hclips.returned False plainHeap (sizedHandle size) fileDb fileDb [] []
    n rfl blocksWF_fileDb (by omega) (by rw [hpure]; exact .ret)
  have hpos := toNat_ne_zero hn
  omega

theorem not_clipsExactly_of_wrap (hoffset : offset.toNat ≤ size.toNat)
    (hwrap : 2 ^ 64 ≤ offset.toNat + n.toNat) : ¬ ClipsExactly size offset n := by
  intro hclips
  have hn := n.toNat_lt
  have hsize := size.toNat_lt
  have hend : (offset + n).toNat ≤ size.toNat := by
    rw [UInt64.toNat_add]
    omega
  obtain ⟨db, hwf, hstored⟩ := exists_allStored 2
  let buf := List.replicate (clipped size offset n) (0 : UInt8)
  obtain ⟨⟨code, count, out⟩, db', hrun⟩ :=
    run_dbfsReadwrite_returns plainHeap 2 buf n offset true db
  have hcode : code = 0 := by
    simp only [dbfsReadwrite, Prog.run_bind, Option.bind_eq_some_iff] at hrun
    obtain ⟨⟨l', mid⟩, hloop, hret⟩ := hrun
    cases hret
    refine run_readwriteLoop_allStored plainHeap hstored rfl (.inl rfl) ?_ hloop
    intro _
    rw [rwStart, toNat_blockOffset]
    omega
  subst hcode
  have hcount := exec_dbfsReadwrite_count (Prog.exec_iff_run.mpr hrun)
  have hread : dbfsRead plainHeap (sizedHandle size) buf n offset =
      dbfsReadwrite plainHeap 2 buf n offset true :=
    dbfsRead_of_unclipped plainHeap buf hoffset hend
  obtain ⟨hcount', -⟩ := hclips.returned False plainHeap (sizedHandle size) db db' buf out count
    rfl hwf (List.length_replicate ▸ le_rfl) (by rw [hread]; exact Prog.exec_iff_run.mpr hrun)
  rw [hcount] at hcount'
  unfold clipped at hcount'
  omega

/-- A request is clipped exactly at the end of the file if and only if it is empty, or it
starts inside the file and its end does not wrap around. -/
theorem clipsExactly_iff (size offset n : UInt64) :
    ClipsExactly size offset n ↔
      n = 0 ∨ offset.toNat ≤ size.toNat ∧ offset.toNat + n.toNat < 2 ^ 64 := by
  by_cases hoffset : offset.toNat ≤ size.toNat
  · by_cases hfits : offset.toNat + n.toNat < 2 ^ 64
    · exact iff_of_true (clipsExactly_of_fits hoffset hfits) (.inr ⟨hoffset, hfits⟩)
    · have hn : n ≠ 0 := by
        rintro rfl
        have hlt := offset.toNat_lt
        rw [UInt64.toNat_zero] at hfits
        omega
      refine iff_of_false (not_clipsExactly_of_wrap hoffset (by omega)) ?_
      rintro (hzero | ⟨-, hlt⟩)
      · exact hn hzero
      · exact hfits hlt
  · by_cases hn : n = 0
    · subst hn
      exact iff_of_true (clipsExactly_of_behind (by omega)) (.inl rfl)
    · refine iff_of_false (not_clipsExactly_of_behind (by omega) hn) ?_
      rintro (hzero | ⟨hle, -⟩)
      · exact hn hzero
      · exact hoffset hle

/-- Behind the end of a file of five bytes one byte is asked for, none is read, and the call
returns `0` with the size one. -/
theorem read_behind_end_not_clipped :
    ¬ ∀ size offset n : UInt64, size.toNat < 2 ^ 63 → offset.toNat < 2 ^ 63 →
      ClipsExactly size offset n := by
  intro hlaw
  obtain ⟨hcount, -⟩ := (hlaw 5 10 1 (by decide) (by decide)).returned False plainHeap
    (sizedHandle 5) fileDb fileDb [] [] 1 rfl blocksWF_fileDb (by decide)
    (Prog.exec_iff_run.mpr rfl)
  exact absurd hcount (by decide)

end Mangoo.Fuse
