import Mangoo.Dbfs.EndOfFile
import Mangoo.Dbfs.OwnFields
import Mangoo.Dbfs.WriteSequence

/-!
# Writes through several handles

Handles on one file each have their own idea of its size, and a write stores the
larger of that size and its own end.  The stored size never shrinks as long as no
write through a handle with an outdated size ends before the stored one.
-/

namespace Mangoo.Dbfs

open Mangoo.Foundation

/-- Opening, closing, reading and writing the file at `path`. -/
def SharedUse (path : CStr) : Op → Prop
  | .handleCall _ (.mstreamWrite call) => call.Fits
  | .handleCall _ _ => False
  | op => OnEntry path op

def writeOf : Op × Int → Option WriteCall
  | (.handleCall _ (.mstreamWrite call), 0) => some call
  | _ => none

/-- The copy of the handle that writes has the stored size, or the write ends at or
behind it. -/
def SizeKept (path : CStr) (s : Sys) : Op → Prop
  | .handleCall id (.mstreamWrite call) => ∀ dh ddd, s.handles id = some dh →
      s.db.lookup (.dentry path) = some ddd →
      ddd.dddSize.toNat ≤ max dh.attrDdd.dddSize.toNat call.stop
  | _ => True

variable {s s' : Sys} {op : Op} {error : Int} {path : CStr} {db db' : Db}

theorem exec_mstreamWrite {dh dh' : DbfsHandle} {call : WriteCall} (hwf : BlocksWF db)
    (hfits : call.Fits)
    (h : Prog.Exec False ((HandleCall.mstreamWrite call).prog dh) db (error, dh') db') :
    error = 0 ∧ dh' = { dh with attrDdd := grown dh.attrDdd call.size call.offset } ∧
      WroteFile dh.attrDdk.ddkPath dh.attrDdd call db db' := by
  obtain ⟨db₁, hwrote, hrun⟩ := run_dbfsWrite_file dh hwf hfits
  have hexec := Prog.exec_iff_run.mp h
  simp only [HandleCall.prog, Prog.run_bind, hrun, Option.bind_some, Prog.run_pure,
    Option.some.injEq, Prod.mk.injEq] at hexec
  obtain ⟨⟨rfl, rfl⟩, rfl⟩ := hexec
  exact ⟨rfl, rfl, hwrote⟩

theorem Step.sharedUse (h : Step False s (op, error) s') (hop : SharedUse path op) :
    (s'.db = s.db ∧ writeOf (op, error) = none ∧
        ∀ id dh', s'.handles id = some dh' →
          s.handles id = some dh' ∨ s.db.lookup (.dentry path) = some dh'.attrDdd) ∨
      ∃ id call dh dh', op = .handleCall id (.mstreamWrite call) ∧ call.Fits ∧
        s.handles id = some dh ∧
        s'.handles = Function.update s.handles id (some dh') ∧
        Prog.Exec False ((HandleCall.mstreamWrite call).prog dh) s.db (error, dh')
          s'.db := by
  have hhandle : ∀ id dh', (∀ id call, op ≠ .handleCall id call) →
      s'.handles id = some dh' →
      s.handles id = some dh' ∨ s.db.lookup (.dentry path) = some dh'.attrDdd := by
    intro id dh' hquiet hid
    rcases h.handle hid with hid | ⟨heap, locator, mi, rfl, -, hopened⟩ |
        ⟨dh, call, rfl, -, -⟩
    · exact .inl hid
    · have hlocator : locator = path := hop
      rw [← hlocator]
      exact .inr hopened.stored
    · exact absurd rfl (hquiet id call)
  cases h with
  | mangooInitstore hstore hexec => exact hop.elim
  | mangooClosestore hstore => exact hop.elim
  | mangooCreate hstore hexec => exact hop.elim
  | mangooDelete hstore hexec => exact hop.elim
  | mangooOpen hstore hfree hexec =>
      left
      exact ⟨(exec_dbfsOpen hexec).1, rfl, fun id dh' => hhandle id dh' (by simp)⟩
  | mangooClose hid =>
      left
      exact ⟨rfl, rfl, fun id dh' => hhandle id dh' (by simp)⟩
  | mstreamRead hid hinterface hexec =>
      left
      exact ⟨hexec.reads (reads_dbfsRead _ _ _ _ _), rfl, fun _ _ hid => .inl hid⟩
  | @handleCall id dh call _ dh' db' hid hinterface hexec =>
      right
      cases call with
      | mstreamWrite call => exact ⟨id, call, dh, dh', rfl, hop, hid, rfl, hexec⟩
      | _ => exact hop.elim

/-! ## The invariant of all copies -/

def Covered (calls : List WriteCall) (pos : Nat) : Prop :=
  ∃ call ∈ calls, call.offset.toNat ≤ pos ∧ pos < call.stop

def lastByte (calls : List WriteCall) (pos : Nat) : Option UInt8 :=
  ByteMap.empty.overlayAll (calls.map WriteCall.range) pos

theorem isSome_lastByte {calls : List WriteCall} {pos : Nat} :
    (lastByte calls pos).isSome ↔ Covered calls pos := by
  unfold lastByte
  rw [ByteMap.isSome_overlayAll_empty]
  simp [Covered, WriteCall.range, WriteCall.stop]

/-- After the writes `calls` into a file whose record was `ddd₀`. -/
structure SharedInv (path : CStr) (ddd₀ : DentryData) (calls : List WriteCall)
    (s : Sys) : Prop where
  wf : BlocksWF s.db
  stored : ∃ size, s.db.lookup (.dentry path) = some { ddd₀ with dddSize := size } ∧
    size.toNat = sizeAfter ddd₀.dddSize.toNat calls
  copies : ∀ id dh, s.handles id = some dh →
    dh.attrDdk = .dentry path ∧ ∃ size, dh.attrDdd = { ddd₀ with dddSize := size } ∧
      size.toNat ≤ sizeAfter ddd₀.dddSize.toNat calls
  written : ∀ pos byte, lastByte calls pos = some byte →
    content s.db ddd₀.dddIno pos = some byte

@[simp] theorem sizeAfter_concat (size : Nat) (calls : List WriteCall) (call : WriteCall) :
    sizeAfter size (calls ++ [call]) = max (sizeAfter size calls) call.stop := by
  simp [sizeAfter]

theorem le_sizeAfter (size : Nat) (calls : List WriteCall) :
    ∀ call ∈ calls, call.stop ≤ sizeAfter size calls := by
  induction calls using List.reverseRecOn with
  | nil => simp
  | append_singleton calls last ih =>
      intro call hcall
      rw [sizeAfter_concat]
      rcases List.mem_append.mp hcall with hcall | hcall
      · exact le_max_of_le_left (ih call hcall)
      · rw [List.mem_singleton.mp hcall]
        exact le_max_right _ _

theorem SharedInv.write {ddd₀ : DentryData} {calls : List WriteCall} {id : Nat}
    {call : WriteCall} {dh dh' : DbfsHandle} (hinv : SharedInv path ddd₀ calls s)
    (hfits : call.Fits) (hid : s.handles id = some dh)
    (hhandles : s'.handles = Function.update s.handles id (some dh'))
    (hexec : Prog.Exec False ((HandleCall.mstreamWrite call).prog dh) s.db (error, dh')
      s'.db)
    (hsize : SizeKept path s (.handleCall id (.mstreamWrite call))) :
    error = 0 ∧ SharedInv path ddd₀ (calls ++ [call]) s' := by
  obtain ⟨rfl, rfl, hwrote⟩ := exec_mstreamWrite hinv.wf hfits hexec
  obtain ⟨hkey, copySize, hcopy, hcopyLe⟩ := hinv.copies id dh hid
  obtain ⟨storedSize, hstored, hstoredEq⟩ := hinv.stored
  have hkept := hsize dh _ hid hstored
  rw [hkey, Key.ddkPath_dentry, hcopy] at hwrote
  rw [hcopy] at hkept
  have hgrown := grown_eq { ddd₀ with dddSize := copySize } call.size call.offset
  have hnew := toNat_grown_call { ddd₀ with dddSize := copySize } hfits
  generalize (grown { ddd₀ with dddSize := copySize } call.size call.offset).dddSize =
    size at hgrown hnew
  change size.toNat = max copySize.toNat call.stop at hnew
  change storedSize.toNat ≤ max copySize.toNat call.stop at hkept
  have hmax : size.toNat = sizeAfter ddd₀.dddSize.toNat (calls ++ [call]) := by
    rw [sizeAfter_concat]
    omega
  refine ⟨rfl, hwrote.wf, ⟨size, ?_, hmax⟩, ?_, ?_⟩
  · rw [hwrote.stored, hgrown]
  · intro id' dh₁ hid'
    rw [hhandles] at hid'
    by_cases heq : id' = id
    · subst heq
      rw [Function.update_self] at hid'
      cases hid'
      refine ⟨hkey, size, ?_, hmax.le⟩
      simp only [hcopy]
      exact hgrown
    · rw [Function.update_of_ne heq] at hid'
      obtain ⟨hkey', size', hcopy', hle⟩ := hinv.copies id' dh₁ hid'
      refine ⟨hkey', size', hcopy', ?_⟩
      rw [sizeAfter_concat]
      exact le_max_of_le_left hle
  · intro pos byte hbyte
    rw [lastByte, List.map_append, List.map_singleton, ByteMap.overlayAll_concat] at hbyte
    exact hwrote.written _ _ (ByteMap.overlay_mono hinv.written _ _ _ _ hbyte)

theorem Step.sharedInv {ddd₀ : DentryData} {calls : List WriteCall}
    (h : Step False s (op, error) s') (hall : AllOn path s)
    (hinv : SharedInv path ddd₀ calls s) (hop : SharedUse path op)
    (hsize : SizeKept path s op) :
    SharedInv path ddd₀ (calls ++ (writeOf (op, error)).toList) s' := by
  have hall' : AllOn path s' := by
    apply h.allOn hall
    cases op with
    | handleCall id call => trivial
    | _ => exact hop
  rcases h.sharedUse hop with ⟨hdb, hnone, hhandles⟩ |
      ⟨id, call, dh, dh', rfl, hfits, hid, hhandles, hexec⟩
  · rw [hnone, Option.toList_none, List.append_nil]
    refine ⟨by rw [hdb]; exact hinv.wf, by rw [hdb]; exact hinv.stored, ?_,
      by rw [hdb]; exact hinv.written⟩
    intro id dh' hid
    rcases hhandles id dh' hid with hold | hnew
    · exact hinv.copies id dh' hold
    · obtain ⟨size, hstored, heq⟩ := hinv.stored
      rw [hstored] at hnew
      exact ⟨(hall' id dh' hid).2, size, (Option.some.inj hnew).symm, heq.le⟩
  · obtain ⟨rfl, hinv'⟩ := hinv.write hfits hid hhandles hexec hsize
    exact hinv'

/-! ## Runs -/

theorem run_dbfsSopen {heap : Heap} {ddd : DentryData} (hok : heap.ok = true)
    (hlookup : db.lookup (.dentry path) = some ddd) :
    (dbfsSopen heap path).run db = some ((0, some (initHandle path ddd)), db) := by
  have hinit : (initHandle path ⟨0, 0, 0, 0, 0, 0, 0, 0⟩).attrDdk.ddkPath = path := rfl
  simp [dbfsSopen, dbfsCreatehandle, hok, hinit, run_dbfsReadAttr_of_some hlookup]
  rfl

theorem run_dbfsRead_opened (heap : Heap) (path : CStr) (ddd : DentryData)
    (buf : List UInt8) (n offset : UInt64) (hwf : BlocksWF db) (hroom : n.toNat ≤ buf.length)
    (hinside : offset.toNat + n.toNat ≤ ddd.dddSize.toNat) :
    ∃ code out, (dbfsRead heap (initHandle path ddd) buf n offset).run db =
        some ((code, n, out), db) ∧
      (∀ i byte, i < n.toNat → content db ddd.dddIno (offset.toNat + i) = some byte →
        out[i]? = some byte) ∧
      (n = 0 ∨ (content db ddd.dddIno (offset.toNat + n.toNat - 1)).isSome → code = 0) := by
  have hlt := ddd.dddSize.toNat_lt
  refine ⟨_, _, run_dbfsRead heap hwf hinside hroom, ?_, ?_⟩
  · intro i byte hi hbyte
    rw [List.getElem?_append_left (by simpa using hi), getElem?_readBytes hi]
    change some ((content db ddd.dddIno (offset.toNat + i)).getD 0) = some byte
    rw [hbyte, Option.getD_some]
  · intro hlast
    split
    · rfl
    · rename_i hne
      have hpos := toNat_ne_zero hne
      rcases hlast with rfl | hlast
      · exact absurd rfl hne
      · exact if_pos ((content_isSome_iff hwf (by omega)).mp hlast)

theorem sharedInv_of_run {ddd₀ : DentryData} {events : List (Op × Int)} {s₀ : Sys}
    (hclosed : s₀.handles = fun _ => none) (hwf : BlocksWF s₀.db)
    (hlookup : s₀.db.lookup (.dentry path) = some ddd₀)
    (hrun : Run (fun s event s' => SharedUse path event.1 ∧ SizeKept path s event.1 ∧
      Step False s event s') s₀ events s) :
    SharedInv path ddd₀ (events.filterMap writeOf) s := by
  have hinv : AllOn path s ∧ SharedInv path ddd₀ (events.filterMap writeOf) s := by
    apply hrun.invariant_log (I := fun events s =>
      AllOn path s ∧ SharedInv path ddd₀ (events.filterMap writeOf) s)
    · refine ⟨allOn_of_no_handles hclosed, hwf, ⟨_, hlookup, rfl⟩, ?_, ByteMap.empty_le _⟩
      intro id dh hid
      rw [hclosed] at hid
      cases hid
    · rintro events s ⟨op, error⟩ s' ⟨hall, hinv⟩ ⟨hop, hsize, hstep⟩
      have hop' : OnEntry path op := by
        cases op with
        | handleCall id call => trivial
        | _ => exact hop
      refine ⟨hstep.allOn hall hop', ?_⟩
      have hlast : [(op, error)].filterMap writeOf = (writeOf (op, error)).toList := by
        cases hwrite : writeOf (op, error) with
        | none => simp [hwrite]
        | some call => simp [hwrite]
      rw [List.filterMap_append, hlast]
      exact hstep.sharedInv hall hinv hop hsize
  exact hinv.2

/--
In a run of writes through any handles on one file, opened at any times, whose
writes all keep the size, the stored size is the maximum of the old size and all
ends, and a handle opened afterwards reads at every position that a write covers
the byte of the last such write.
-/
theorem writes_not_lost (path : CStr) (s₀ s : Sys) (events : List (Op × Int))
    (ddd₀ : DentryData) (hclosed : s₀.handles = fun _ => none) (hwf : BlocksWF s₀.db)
    (hlookup : s₀.db.lookup (.dentry path) = some ddd₀)
    (hrun : Run (fun s event s' => SharedUse path event.1 ∧ SizeKept path s event.1 ∧
      Step False s event s') s₀ events s) :
    ∃ ddd, s.db.lookup (.dentry path) = some ddd ∧
      ddd.dddSize.toNat = sizeAfter ddd₀.dddSize.toNat (events.filterMap writeOf) ∧
      (∀ pos, Covered (events.filterMap writeOf) pos → pos < ddd.dddSize.toNat) ∧
      ∀ heap : Heap, heap.ok = true →
        ∃ dh, (dbfsSopen heap path).run s.db = some ((0, some dh), s.db) ∧
          ∀ (heap' : Heap) (buf : List UInt8) (n offset : UInt64), n.toNat ≤ buf.length →
            offset.toNat + n.toNat ≤ ddd.dddSize.toNat →
            ∃ code out, (dbfsRead heap' dh buf n offset).run s.db =
                some ((code, n, out), s.db) ∧
              (∀ i byte, i < n.toNat →
                lastByte (events.filterMap writeOf) (offset.toNat + i) = some byte →
                out[i]? = some byte) ∧
              ((∀ i, i < n.toNat →
                Covered (events.filterMap writeOf) (offset.toNat + i)) → code = 0) := by
  have hinv := sharedInv_of_run hclosed hwf hlookup hrun
  obtain ⟨size, hstored, hsize⟩ := hinv.stored
  refine ⟨_, hstored, hsize, ?_, ?_⟩
  · rintro pos ⟨call, hcall, -, hlt⟩
    have hle := le_sizeAfter ddd₀.dddSize.toNat _ call hcall
    change pos < size.toNat
    omega
  intro heap hok
  refine ⟨_, run_dbfsSopen hok hstored, ?_⟩
  intro heap' buf n offset hroom hinside
  obtain ⟨code, out, hread, hbytes, hcode⟩ :=
    run_dbfsRead_opened heap' path _ buf n offset hinv.wf hroom hinside
  refine ⟨code, out, hread, ?_, ?_⟩
  · intro i byte hi hbyte
    exact hbytes i byte hi (hinv.written _ _ hbyte)
  · intro hcovered
    apply hcode
    by_cases hzero : n = 0
    · exact .inl hzero
    · have hpos := toNat_ne_zero hzero
      obtain ⟨byte, hbyte⟩ := Option.isSome_iff_exists.mp
        (isSome_lastByte.mpr (hcovered (n.toNat - 1) (by omega)))
      have hstoredByte := hinv.written _ _ hbyte
      right
      rw [show offset.toNat + n.toNat - 1 = offset.toNat + (n.toNat - 1) by omega]
      change (content s.db ddd₀.dddIno _).isSome
      rw [hstoredByte]
      rfl

/-! ## A write that is lost -/

theorem Step.mstreamWrite_returns {id : Nat} {dh : DbfsHandle} (call : WriteCall)
    (hid : s.handles id = some dh) (hstream : dh.mhInterface = .stream)
    (hwf : BlocksWF s.db) (hfits : call.Fits) :
    ∃ s', Step False s (.handleCall id (.mstreamWrite call), 0) s' ∧
      WroteFile dh.attrDdk.ddkPath dh.attrDdd call s.db s'.db ∧ s'.store = s.store ∧
      ∃ dh', s'.handles = Function.update s.handles id (some dh') := by
  obtain ⟨db', hwrote, hrun⟩ := run_dbfsWrite_file dh hwf hfits
  have hprog : ((HandleCall.mstreamWrite call).prog dh).run s.db =
      some ((0, { dh with attrDdd := grown dh.attrDdd call.size call.offset }), db') := by
    simp [HandleCall.prog, hrun]
  exact ⟨_, .handleCall hid hstream (Prog.exec_iff_run.mpr hprog), hwrote, rfl, _, rfl⟩

def streamSys : Sys where
  db := fileDb
  store := some ⟨1⟩
  handles := Function.update (fun _ => none) 0 (some streamHandle)

theorem step_open_stream :
    Step False fileSys (.mangooOpen plainHeap pathA .stream 0, 0) streamSys :=
  .mangooOpen rfl rfl (Prog.exec_iff_run.mpr rfl)

def longWrite : WriteCall := ⟨plainHeap, List.replicate 10 7, 0⟩

def shortWrite : WriteCall := ⟨plainHeap, [8], 0⟩

theorem fits_longWrite : longWrite.Fits := by decide

theorem fits_shortWrite : shortWrite.Fits := by decide

def twoStreamsSys : Sys :=
  { streamSys with handles := Function.update streamSys.handles 1 (some streamHandle) }

theorem step_open_second :
    Step False streamSys (.mangooOpen plainHeap pathA .stream 1, 0) twoStreamsSys :=
  .mangooOpen rfl rfl (Prog.exec_iff_run.mpr rfl)

/-- The second of two long writes is made through a handle whose copy of the record is old. -/
theorem writes_not_lost_long : ∃ s, Run (Step False) twoStreamsSys
    [(.handleCall 0 (.mstreamWrite longWrite), 0),
      (.handleCall 1 (.mstreamWrite longWrite), 0)] s ∧
      ∃ ddd, s.db.lookup (.dentry pathA) = some ddd ∧ ddd.dddSize.toNat = 10 := by
  obtain ⟨s₁, hfirst, hwrote, -, dh, hhandles⟩ := Step.mstreamWrite_returns longWrite
    (show twoStreamsSys.handles 0 = some streamHandle from rfl) rfl blocksWF_fileDb fits_longWrite
  have hid : s₁.handles 1 = some streamHandle := by rw [hhandles]; rfl
  have hstored := hwrote.stored
  obtain ⟨s₂, hsecond, -⟩ :=
    Step.mstreamWrite_returns longWrite hid rfl hwrote.wf fits_longWrite
  have hkept : SizeKept pathA twoStreamsSys (.handleCall 0 (.mstreamWrite longWrite)) := by
    intro dh ddd hid hlookup
    cases hid
    cases hlookup
    decide
  have hkept' : SizeKept pathA s₁ (.handleCall 1 (.mstreamWrite longWrite)) := by
    intro dh ddd hid' hlookup
    cases hid.symm.trans hid'
    cases hstored.symm.trans hlookup
    decide
  obtain ⟨ddd, hlookup, hsize, -⟩ := writes_not_lost pathA fileSys s₂
    [(.mangooOpen plainHeap pathA .stream 0, 0), (.mangooOpen plainHeap pathA .stream 1, 0),
      (.handleCall 0 (.mstreamWrite longWrite), 0), (.handleCall 1 (.mstreamWrite longWrite), 0)]
    ⟨1, 0o644, 2, 5, 0, 0, 0, 0⟩ rfl blocksWF_fileDb rfl
    (.cons ⟨rfl, trivial, step_open_stream⟩ (.cons ⟨rfl, trivial, step_open_second⟩
      (.cons ⟨fits_longWrite, hkept, hfirst⟩ (.single ⟨fits_longWrite, hkept', hsecond⟩))))
  exact ⟨s₂, .cons hfirst (.single hsecond), ddd, hlookup, hsize⟩

/-- A short write through one handle cuts off the end of a longer write made through
another. -/
theorem short_write_loses_long_write :
    ¬ ∀ (path : CStr) (s₀ s : Sys) (events : List (Op × Int)) (ddd₀ : DentryData),
      s₀.handles = (fun _ => none) → BlocksWF s₀.db →
      s₀.db.lookup (.dentry path) = some ddd₀ →
      Run (fun s event s' => SharedUse path event.1 ∧ Step False s event s') s₀ events s →
      ∃ ddd, s.db.lookup (.dentry path) = some ddd ∧
        ddd.dddSize.toNat = sizeAfter ddd₀.dddSize.toNat (events.filterMap writeOf) := by
  intro hlaw
  obtain ⟨s₁, hlong, hwrote, -, dh, hhandles⟩ := Step.mstreamWrite_returns longWrite
    (show twoStreamsSys.handles 0 = some streamHandle from rfl) rfl blocksWF_fileDb fits_longWrite
  have hid : s₁.handles 1 = some streamHandle := by rw [hhandles]; rfl
  obtain ⟨s₂, hshort, hwrote', -⟩ :=
    Step.mstreamWrite_returns shortWrite hid rfl hwrote.wf fits_shortWrite
  obtain ⟨ddd, hlookup, hsize⟩ := hlaw pathA fileSys s₂
    [(.mangooOpen plainHeap pathA .stream 0, 0), (.mangooOpen plainHeap pathA .stream 1, 0),
      (.handleCall 0 (.mstreamWrite longWrite), 0),
      (.handleCall 1 (.mstreamWrite shortWrite), 0)]
    _ rfl blocksWF_fileDb rfl (.cons ⟨rfl, step_open_stream⟩ (.cons ⟨rfl, step_open_second⟩
      (.cons ⟨fits_longWrite, hlong⟩ (.single ⟨fits_shortWrite, hshort⟩))))
  have hstored : s₂.db.lookup (.dentry pathA) =
      some (grown ⟨1, 0o644, 2, 5, 0, 0, 0, 0⟩ shortWrite.size shortWrite.offset) :=
    hwrote'.stored
  rw [hstored] at hlookup
  cases hlookup
  exact absurd hsize (by decide)

end Mangoo.Dbfs
