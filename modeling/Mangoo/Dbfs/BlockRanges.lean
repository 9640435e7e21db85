import Mangoo.Dbfs.System

/-!
# The ranges of the block loop

`dbfs_readwrite` with a trace of its iterations.  In every state that a store can
reach each iteration stays inside one block and inside its data buffer, and the
parts of the caller's buffer follow each other from its start.
-/

namespace Mangoo.Dbfs

open Mangoo.Foundation

variable {faulty : Prop} {db db' : Db} {heap : Heap} {ino : UInt64} {l l' : RwLocals}

/-! ## The traced loop -/

/-- The locals at the start of an iteration and the data buffer that it copies from or
into, if it does. -/
structure Iteration where
  locals : RwLocals
  data : Option (List UInt8)

/-- `readwriteBlock` that also returns the data buffer it copies from or into. -/
def readwriteBlockTrace (heap : Heap) (ino : UInt64) (read : Bool) (l : RwLocals) :
    DbProg (Option (List UInt8) × Bool × RwLocals) := do
  match ← getBlock ino l.dbkOffset l.data with
  | .error error =>
      if error ≠ dbNotfound then return (none, false, { l with error := eio })
      else if read then
        return (none, true, readBlock { l with error := error }
          (List.replicate l.sizeinblk.toNat 0))
      else do
        let next ← writeBlock ino { l with data := heap.freshBlock l.count.toNat }
        return (some (heap.freshBlock l.count.toNat), next)
  | .ok data =>
      if read then
        return (some data, true, readBlock { l with data := data, error := 0 }
          ((data.drop l.offinblk.toNat).take l.sizeinblk.toNat))
      else do
        let next ← writeBlock ino { l with data := data }
        return (some data, next)

def readwriteLoopTrace (heap : Heap) (ino : UInt64) (read : Bool) :
    Nat → RwLocals → DbProg (List Iteration × RwLocals)
  | 0, l => if l.size = 0 then pure ([], l) else .spin
  | fuel + 1, l =>
      if l.size = 0 then pure ([], l)
      else do
        let (data, goesOn, l') ← readwriteBlockTrace heap ino read l
        if goesOn then do
          let (iterations, l'') ← readwriteLoopTrace heap ino read fuel l'
          return (⟨l, data⟩ :: iterations, l'')
        else return ([⟨l, data⟩], l')

def dbfsReadwriteTrace (heap : Heap) (ino : UInt64) (buf : List UInt8)
    (size offset : UInt64) (read : Bool) :
    DbProg (List Iteration × Int × UInt64 × List UInt8) := do
  let (iterations, l) ← readwriteLoopTrace heap ino read size.toNat (rwStart buf size offset)
  return (iterations, l.error, l.count, l.done ++ l.buf)

/-! ## The trace changes nothing -/

theorem readwriteBlock_eq_trace (heap : Heap) (ino : UInt64) (read : Bool) (l : RwLocals) :
    readwriteBlock heap ino read l = Prod.snd <$> readwriteBlockTrace heap ino read l := by
  simp only [readwriteBlock, readwriteBlockTrace, map_bind]
  congr 1
  funext result
  cases result with
  | error error =>
      simp only
      split
      · rfl
      · split
        · rfl
        · simp
  | ok data =>
      simp only
      split
      · rfl
      · simp

theorem readwriteLoop_eq_trace (heap : Heap) (ino : UInt64) (read : Bool) (fuel : Nat)
    (l : RwLocals) :
    readwriteLoop heap ino read fuel l =
      Prod.snd <$> readwriteLoopTrace heap ino read fuel l := by
  induction fuel generalizing l with
  | zero =>
      simp only [readwriteLoop, readwriteLoopTrace]
      split <;> rfl
  | succ fuel ih =>
      simp only [readwriteLoop, readwriteLoopTrace]
      split
      · rfl
      · rw [readwriteBlock_eq_trace, map_bind, bind_map_left]
        congr 1
        funext step
        obtain ⟨data, goesOn, l'⟩ := step
        cases goesOn with
        | true => simp [ih]
        | false => rfl

theorem dbfsReadwrite_eq_trace (heap : Heap) (ino : UInt64) (buf : List UInt8)
    (size offset : UInt64) (read : Bool) :
    dbfsReadwrite heap ino buf size offset read =
      Prod.snd <$> dbfsReadwriteTrace heap ino buf size offset read := by
  simp [dbfsReadwrite, dbfsReadwriteTrace, readwriteLoop_eq_trace]

/-! ## Iterations in bounds -/

namespace Iteration

def range (iteration : Iteration) : Nat × Nat :=
  (iteration.locals.done.length, iteration.locals.sizeinblk.toNat)

structure InBounds (iteration : Iteration) : Prop where
  aligned : iteration.locals.dbkOffset.toNat % 4096 = 0
  noWrap : (iteration.locals.offinblk + iteration.locals.size).toNat =
    iteration.locals.offinblk.toNat + iteration.locals.size.toNat
  pos : 0 < iteration.locals.sizeinblk.toNat
  inside : iteration.locals.offinblk.toNat + iteration.locals.sizeinblk.toNat ≤ 4096
  data : ∀ data ∈ iteration.data, data.length = 4096

end Iteration

/-- The ranges follow each other from `low` to `high`, without gap or overlap. -/
def Tiles : Nat → List (Nat × Nat) → Nat → Prop
  | low, [], high => low = high
  | low, (start, length) :: ranges, high =>
      start = low ∧ 0 < length ∧ Tiles (low + length) ranges high

theorem inBounds_of_rwInv {data : Option (List UInt8)} (hinv : RwInv l) (hsize : l.size ≠ 0)
    (hdata : ∀ block ∈ data, block.length = 4096) : (Iteration.mk l data).InBounds where
  aligned := (hinv.range hsize).2.2.2.1
  noWrap := by
    have hfits := hinv.fits
    have hoff := hinv.toNat_offinblk hsize
    change (l.offinblk + l.size).toNat = l.offinblk.toNat + l.size.toNat
    rw [UInt64.toNat_add]
    omega
  pos := (hinv.range hsize).1
  inside := (hinv.range hsize).2.2.1
  data := hdata

theorem length_next_done (hinv : RwInv l) (hsize : l.size ≠ 0) :
    l.next.done.length = l.done.length + l.sizeinblk.toNat := by
  simp only [RwLocals.next, List.length_append, length_chunk hinv hsize]

/-- What the next iteration starts from. -/
structure Continues (db' : Db) (l l' : RwLocals) : Prop where
  wf : BlocksWF db'
  inv : RwInv l'
  size : l'.size.toNat = l.size.toNat - l.sizeinblk.toNat
  done : l'.done.length = l.done.length + l.sizeinblk.toNat

theorem continues_readBlock {data bytes : List UInt8} {error : Int} (hwf : BlocksWF db)
    (hinv : RwInv l) (hsize : l.size ≠ 0) (hdata : data = [] ∨ data.length = 4096)
    (hbytes : bytes.length = l.sizeinblk.toNat) :
    Continues db l (readBlock { l with data := data, error := error } bytes) := by
  have heq : readBlock { l with data := data, error := error } bytes =
      { l.next with done := l.done ++ bytes, data := data, error := error } :=
    readBlock_eq hbytes
  rw [heq]
  refine ⟨hwf, (hinv.next hsize).withData _ hdata error, hinv.toNat_next_size hsize, ?_⟩
  rw [List.length_append, hbytes]

theorem continues_writeBlock {block : List UInt8} {goesOn : Bool} (hwf : BlocksWF db)
    (hinv : RwInv l) (hsize : l.size ≠ 0) (hblock : block.length = 4096)
    (h : Prog.Exec faulty (writeBlock ino { l with data := block }) db (goesOn, l') db') :
    goesOn = true ∧ Continues db' l l' ∨ goesOn = false ∧ faulty ∧ l'.error = eio := by
  obtain ⟨-, -, hinside, haligned, -⟩ := hinv.range hsize
  obtain ⟨data, hdata, ⟨rfl, rfl, rfl⟩ | ⟨hf, rfl, rfl, rfl⟩⟩ := exec_writeBlock h
  · have hlength : data.length = 4096 := by
      have hchunk := length_chunk hinv hsize
      change data = overwrite block l.offinblk.toNat (l.buf.take l.sizeinblk.toNat) at hdata
      rw [hdata, length_overwrite (by omega), hblock]
    have hdone := length_next_done hinv hsize
    refine .inl ⟨rfl, hwf.insert_block haligned hlength, ?_, ?_, hdone⟩
    · exact (hinv.next hsize).withData _ (.inr hlength) 0
    · exact hinv.toNat_next_size hsize
  · exact .inr ⟨rfl, hf, rfl⟩

theorem exec_readwriteBlockTrace {read goesOn : Bool} {data : Option (List UInt8)}
    (hwf : BlocksWF db) (hinv : RwInv l) (hsize : l.size ≠ 0)
    (h : Prog.Exec faulty (readwriteBlockTrace heap ino read l) db (data, goesOn, l') db') :
    (∀ block ∈ data, block.length = 4096) ∧
      (goesOn = true ∧ Continues db' l l' ∨ goesOn = false ∧ faulty ∧ l'.error = eio) := by
  simp only [readwriteBlockTrace, Prog.exec_bind] at h
  obtain ⟨result, mid, hget, hrest⟩ := h
  obtain ⟨rfl, ⟨record, hlookup, rfl⟩ | ⟨hnone, rfl⟩ | ⟨hf, e, he, rfl⟩⟩ :=
    exec_getBlock hwf hinv.data hget
  · obtain ⟨hlength, -⟩ := hwf _ _ _ hlookup
    cases read with
    | true =>
        simp only [if_true, Prog.exec_pure, Prod.mk.injEq] at hrest
        obtain ⟨⟨rfl, rfl, rfl⟩, rfl⟩ := hrest
        refine ⟨by simpa using hlength, .inl ⟨rfl, ?_⟩⟩
        apply continues_readBlock hwf hinv hsize (.inr hlength)
        have hinside := (hinv.range hsize).2.2.1
        simp
        omega
    | false =>
        simp only [Bool.false_eq_true, if_false, Prog.exec_bind, Prog.exec_pure,
          Prod.mk.injEq] at hrest
        obtain ⟨next, last, hwrite, ⟨rfl, rfl⟩, rfl⟩ := hrest
        exact ⟨by simpa using hlength, continues_writeBlock hwf hinv hsize hlength hwrite⟩
  · cases read with
    | true =>
        simp only [ne_eq, not_true_eq_false, if_false, if_true, Prog.exec_pure,
          Prod.mk.injEq] at hrest
        obtain ⟨⟨rfl, rfl, rfl⟩, rfl⟩ := hrest
        refine ⟨by simp, .inl ⟨rfl, ?_⟩⟩
        exact continues_readBlock hwf hinv hsize hinv.data (by simp)
    | false =>
        simp only [ne_eq, not_true_eq_false, Bool.false_eq_true, if_false, Prog.exec_bind,
          Prog.exec_pure, Prod.mk.injEq] at hrest
        obtain ⟨next, last, hwrite, ⟨rfl, rfl⟩, rfl⟩ := hrest
        have hlength := length_freshBlock heap l.count.toNat
        exact ⟨by simpa using hlength, continues_writeBlock hwf hinv hsize hlength hwrite⟩
  · simp only [ne_eq, he.2, not_false_eq_true, if_true, Prog.exec_pure,
      Prod.mk.injEq] at hrest
    obtain ⟨⟨rfl, rfl, rfl⟩, rfl⟩ := hrest
    exact ⟨by simp, .inr ⟨rfl, hf, rfl⟩⟩

/-- The iterations of a loop that stands at `l`. -/
def TracedFrom (faulty : Prop) (l l' : RwLocals) (iterations : List Iteration) : Prop :=
  (∀ iteration ∈ iterations, iteration.InBounds) ∧
    ∃ k, k ≤ l.size.toNat ∧
      Tiles l.done.length (iterations.map Iteration.range) (l.done.length + k) ∧
      (k = l.size.toNat ∨ faulty ∧ l'.error = eio)

theorem tracedFrom_nil (hsize : l.size = 0) : TracedFrom faulty l l' [] := by
  refine ⟨by simp, 0, Nat.zero_le _, rfl, .inl ?_⟩
  rw [hsize, UInt64.toNat_zero]

/-- The induction is on the iterations left; the invariant of the loop and the blocks of
the database carry it. -/
theorem exec_readwriteLoopTrace {read : Bool} {fuel : Nat} {iterations : List Iteration}
    (hwf : BlocksWF db) (hinv : RwInv l)
    (h : Prog.Exec faulty (readwriteLoopTrace heap ino read fuel l) db (iterations, l') db') :
    TracedFrom faulty l l' iterations := by
  induction fuel generalizing l db iterations with
  | zero =>
      simp only [readwriteLoopTrace] at h
      split at h
      · rename_i hsize
        simp only [Prog.exec_pure, Prod.mk.injEq] at h
        rw [h.1.1]
        exact tracedFrom_nil hsize
      · exact absurd h Prog.exec_spin
  | succ fuel ih =>
      simp only [readwriteLoopTrace] at h
      split at h
      · rename_i hsize
        simp only [Prog.exec_pure, Prod.mk.injEq] at h
        rw [h.1.1]
        exact tracedFrom_nil hsize
      · rename_i hsize
        obtain ⟨hpos, hle, -⟩ := hinv.range hsize
        rw [Prog.exec_bind] at h
        obtain ⟨⟨data, goesOn, l₁⟩, mid, hblock, hrest⟩ := h
        obtain ⟨hdata, ⟨rfl, hnext⟩ | ⟨rfl, hf, herror⟩⟩ :=
          exec_readwriteBlockTrace hwf hinv hsize hblock
        · simp only [if_true, Prog.exec_bind, Prog.exec_pure, Prod.mk.injEq] at hrest
          obtain ⟨⟨later, l₂⟩, last, hloop, ⟨rfl, rfl⟩, rfl⟩ := hrest
          obtain ⟨hbounds, k, hk, htiles, hend⟩ := ih hnext.wf hnext.inv hloop
          rw [hnext.size] at hk hend
          rw [hnext.done] at htiles
          refine ⟨?_, l.sizeinblk.toNat + k, by omega, ?_, ?_⟩
          · intro iteration hmem
            rcases List.mem_cons.mp hmem with rfl | hmem
            · exact inBounds_of_rwInv hinv hsize hdata
            · exact hbounds iteration hmem
          · refine ⟨rfl, hpos, ?_⟩
            rw [← Nat.add_assoc]
            exact htiles
          · rcases hend with hk' | hfail
            · exact .inl (by omega)
            · exact .inr hfail
        · simp only [Bool.false_eq_true, if_false, Prog.exec_pure, Prod.mk.injEq] at hrest
          obtain ⟨⟨rfl, rfl⟩, rfl⟩ := hrest
          refine ⟨?_, l.sizeinblk.toNat, hle, ⟨rfl, hpos, rfl⟩, .inr ⟨hf, herror⟩⟩
          intro iteration hmem
          rw [List.mem_singleton.mp hmem]
          exact inBounds_of_rwInv hinv hsize hdata

theorem exec_dbfsReadwriteTrace {buf out : List UInt8} {size offset count : UInt64}
    {read : Bool} {code : Int} {iterations : List Iteration} (hwf : BlocksWF db)
    (hfits : offset.toNat + size.toNat < 2 ^ 64) (hroom : size.toNat ≤ buf.length)
    (h : Prog.Exec faulty (dbfsReadwriteTrace heap ino buf size offset read) db
      (iterations, code, count, out) db') :
    (∀ iteration ∈ iterations, iteration.InBounds) ∧
      ∃ k, k ≤ size.toNat ∧ Tiles 0 (iterations.map Iteration.range) k ∧
        (k = size.toNat ∨ faulty ∧ code = eio) := by
  simp only [dbfsReadwriteTrace, Prog.exec_bind, Prog.exec_pure, Prod.mk.injEq] at h
  obtain ⟨⟨later, l⟩, last, hloop, ⟨rfl, rfl, rfl, rfl⟩, rfl⟩ := h
  obtain ⟨hbounds, k, hk, htiles, hend⟩ :=
    exec_readwriteLoopTrace hwf (rwInv_rwStart hfits hroom) hloop
  refine ⟨hbounds, k, hk, ?_, hend⟩
  have hstart : (rwStart buf size offset).done.length = 0 := rfl
  rwa [hstart, Nat.zero_add] at htiles

/--
In every state that a store made by `mkdbfs` reaches, with any single database calls
failing, every block record is 4096 bytes long at a multiple of 4096.  A transfer from
there is the traced one without its trace: every iteration stays inside its block and its
data buffer, and the iterations go through the caller's buffer from its start, to its end
unless a call fails.
-/
theorem transfers_in_bounds {faulty : Prop} {proc : Proc} {s : Sys}
    {events : List (Op × Int)}
    (h : Run (fun s event s' => WritesFit event.1 ∧ Step faulty s event s')
      (Sys.closed (mkdbfsDb proc)) events s) :
    (∀ ino offset, ∀ record : List UInt8, s.db.lookup (.block ino offset) = some record →
      record.length = 4096 ∧ offset.toNat % 4096 = 0) ∧
    (∀ heap ino buf size offset read, dbfsReadwrite heap ino buf size offset read =
      Prod.snd <$> dbfsReadwriteTrace heap ino buf size offset read) ∧
    ∀ (mayFail : Prop) (heap : Heap) (ino : UInt64) (read : Bool) (buf out : List UInt8)
        (size offset count : UInt64) (code : Int) (iterations : List Iteration) (db' : Db),
      offset.toNat + size.toNat < 2 ^ 64 → size.toNat ≤ buf.length →
      Prog.Exec mayFail (dbfsReadwriteTrace heap ino buf size offset read) s.db
        (iterations, code, count, out) db' →
      (∀ iteration ∈ iterations, iteration.InBounds) ∧
        ∃ k, k ≤ size.toNat ∧ Tiles 0 (iterations.map Iteration.range) k ∧
          (k = size.toNat ∨ mayFail ∧ code = eio) := by
  have hwf : BlocksWF s.db := blocksWF_of_run h
  refine ⟨hwf, dbfsReadwrite_eq_trace, ?_⟩
  intro mayFail heap ino read buf out size offset count code iterations db' hfits hroom hexec
  exact exec_dbfsReadwriteTrace hwf hfits hroom hexec

theorem transfers_in_bounds_three : BlocksWF startedSys.db ∧
    ∃ iterations result db', Prog.Exec False
        (dbfsReadwriteTrace plainHeap 1 [1, 2, 3] 3 4095 false) startedSys.db
        (iterations, result) db' ∧
      (∀ iteration ∈ iterations, iteration.InBounds) ∧
      Tiles 0 (iterations.map Iteration.range) 3 := by
  have hstarted : Run (fun s event s' => WritesFit event.1 ∧ Step False s event s')
      (Sys.closed (mkdbfsDb plainProc)) [(.mangooInitstore plainHeap, 0)] startedSys :=
    .single ⟨trivial, step_start⟩
  obtain ⟨hwf, -, hbounds⟩ := transfers_in_bounds hstarted
  obtain ⟨result, db', hrun⟩ :=
    run_dbfsReadwrite_returns plainHeap 1 [1, 2, 3] 3 4095 false startedSys.db
  have hexec := Prog.exec_iff_run.mpr hrun
  rw [dbfsReadwrite_eq_trace, Prog.exec_map] at hexec
  obtain ⟨⟨iterations, code, count, out⟩, htrace, -⟩ := hexec
  obtain ⟨hall, k, -, htiles, rfl | ⟨hfalse, -⟩⟩ :=
    hbounds False plainHeap 1 false [1, 2, 3] out 3 4095 count code iterations db' (by decide)
      (by decide) htrace
  · exact ⟨hwf, iterations, _, db', htrace, hall, htiles⟩
  · exact hfalse.elim

end Mangoo.Dbfs
