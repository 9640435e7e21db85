import Mangoo.Foundation.Runs
import Mangoo.Fuse.Representation
import Mangoo.Fuse.Serving

/-!
# The server implements the file system

As long as the clients keep to one writer for each path and to none while the path itself
is worked on, the server answers every call as the file system may, over any number of
sessions.
-/

namespace Mangoo.Fuse

open Mangoo.Foundation Mangoo.Dbfs

/-! ## What the clients keep to -/

/-- The next number is one that the session has reserved. -/
def NumberLeft (s : Sys) : Prop :=
  ∀ dsp, s.store = some dsp → ∃ dfd : FsinfoData, s.db.lookup .fsinfo = some dfd ∧
    dsp.lastInode.toNat < dfd.dfdLastino.toNat

/-- The calls that the server answers as a file system does: files are opened, not
directories, a file is written through the only handle that is open on it, and a path whose
file is open is neither changed nor removed.  Ranges do not wrap around, reads start inside
the file, and only files with contents are removed.  A directory is removed when another path
begins with its own, so that the call is refused, or when no record follows it.  A directory
is listed when no path continues its name and the key buffer grows in place.  New paths are
well formed, and the session has inode numbers left.  Reads and writes get their
environment. -/
def FuseCall.Disciplined (s : Sys) (call : FuseCall) : Prop :=
  match call.op with
  | .mfMkdir _ path _ | .mfCreate _ _ path _ _ => WellFormed path ∧ NumberLeft s
  | .mfOpen path _ =>
      ∀ ddd, s.db.lookup (.dentry path) = some ddd → IsData ddd.dddType
  | .mfRead fi buf offset => call.heap.envOpens = true ∧ ∀ dh, s.handles fi = some dh →
        offset.toNat ≤ dh.attrDdd.dddSize.toNat ∧ offset.toNat + buf.length < 2 ^ 64
  | .mfWrite fi buf offset => call.heap.envOpens = true ∧ ∀ dh, s.handles fi = some dh →
      offset.toNat + buf.length < 2 ^ 64 ∧
        ∀ fi' dh', s.handles fi' = some dh' → dh'.locator = dh.locator → fi' = fi
  | .mfRelease _ | .mfGetattr _ _ => True
  | .mfChmod path _ | .mfChown path _ _ | .mfUtime path _ | .mfTruncate path _ =>
      NotOpen s path
  | .mfRemove path => NotOpen s path ∧
      ∀ ddd, s.db.lookup (.dentry path) = some ddd →
        (IsData ddd.dddType → ddd.dddSize ≠ 0) ∧
        (IsContainer ddd.dddType →
          IsExtended s.db path ∨ ∀ key ∈ s.db, key ≤ .dentry path)
  | .listDirectory path => s.db.keys.card < call.fuel ∧ call.heap.InPlace ∧
      ∀ other, Key.dentry other ∈ s.db → ¬ ExtendsName path other

def FuseEvent.Disciplined (s : Sys) : FuseEvent → Prop
  | .mangooInitstore _ _ => ∀ dfd : FsinfoData, s.db.lookup .fsinfo = some dfd →
      dfd.dfdLastino.toNat + 1000 < 2 ^ 64
  | .mangooClosestore => True
  | .served call _ => call.Disciplined s

variable {number : CStr → UInt64} {A A' : FileSystem} {s s' : Sys} {db db' : Db} {heap : Heap}
  {path : CStr} {node : FileNode} {dsp : DbfsStore} {call : FuseCall} {fuel : Nat}

/-- The call returns, its answer is one that the file system may give, and the state
afterwards represents what the file system is then. -/
def Conforms (A : FileSystem) (s : Sys) (dsp : DbfsStore) (call : FuseCall) : Prop :=
  ∃ answer dsp' files' db' A' number',
    (call.serve dsp s.handles).run s.db = some ((answer, dsp', files'), db') ∧
      A.Serves call.heap call.op answer A' ∧ Represents number' A' ⟨db', some dsp', files'⟩

theorem Represents.conforms {answer : Answer} {dsp' : DbfsStore} {files' : OpenFiles}
    {number' : CStr → UInt64} (hrep : Represents number' A' ⟨db', some dsp', files'⟩)
    (hserves : A.Serves call.heap call.op answer A')
    (hrun : (call.serve dsp s.handles).run s.db = some ((answer, dsp', files'), db')) :
    Conforms A s dsp call :=
  ⟨answer, dsp', files', db', A', number', hrun, hserves, hrep⟩

/-! ## Codes -/

theorem OnDisk.lookupCode_eq (h : OnDisk number A db) (heap : Heap) (path : CStr) :
    A.lookupCode heap path = openCode heap path db := by
  unfold FileSystem.lookupCode openCode
  rw [h.record]
  cases A.node path <;> rfl

theorem OnDisk.createCode_eq (h : OnDisk number A db) (heap : Heap) (path : CStr) :
    A.createCode heap path = newCode heap path db := by
  unfold FileSystem.createCode newCode
  rw [h.record]
  cases A.node path <;> rfl

theorem FileSystem.lookupCode_eq_zero_iff :
    A.lookupCode heap path = 0 ↔ heap.ok = true ∧ ∃ node, A.node path = some node := by
  unfold FileSystem.lookupCode
  cases hok : heap.ok with
  | false => simp [enomem]
  | true => cases A.node path <;> simp [enoent]

theorem FileSystem.createCode_eq_zero_iff :
    A.createCode heap path = 0 ↔ heap.ok = true ∧ A.node path = none := by
  unfold FileSystem.createCode
  cases hok : heap.ok with
  | false => simp [enomem]
  | true => cases A.node path <;> simp [einval]

theorem FileSystem.create_of_code (attrs : Attrs) (hcode : A.createCode heap path ≠ 0) :
    A.create heap path attrs = A := by
  rw [ne_eq, FileSystem.createCode_eq_zero_iff, not_and] at hcode
  unfold FileSystem.create
  split
  · rename_i hok
    obtain ⟨node, hnode⟩ := Option.ne_none_iff_exists'.mp (hcode hok)
    rw [hnode, Option.some_or]
    exact FileSystem.set_self hnode
  · rfl

/-! ## Calls that change attributes -/

theorem Represents.edited {change : FileNode → FileNode} {update : DentryData → DentryData}
    (h : Represents number A s) (hstore : s.store = some dsp)
    (hrecord : ∀ node ino, (change node).attrs.record ino = update (node.attrs.record ino))
    (hkeeps : ∀ node, (change node).attrs.type = node.attrs.type ∧
      (change node).bytes.Le node.bytes) (hopen : NotOpen s path) :
    Represents number (A.edit heap path change)
      ⟨updateEntry heap path update s.db, some dsp, s.handles⟩ := by
  unfold FileSystem.edit updateEntry
  cases hok : heap.ok with
  | false => exact h.of_store hstore
  | true =>
      cases hnode : A.node path with
      | none =>
          rw [h.disk.lookup_none hnode, Option.map_none, FileSystem.set_self hnode]
          exact h.of_store hstore
      | some node =>
          obtain ⟨htype, hbytes⟩ := hkeeps node
          have hfile : (change node).attrs.type = .data → A.IsFile path :=
            fun hdata => ⟨node, hnode, htype ▸ hdata⟩
          have hdisk : OnDisk (Function.update number path (number path))
              (A.set path (some (change node)))
              (s.db.insert (.dentry path) ((change node).attrs.record (number path))) := by
            apply h.disk.insert_record (h.disk.paths path node hnode)
            · intro hdata
              exact hbytes.trans (h.disk.bytes path node hnode (htype ▸ hdata))
            · intro hdata other hne hother heq
              exact hne (h.disk.distinct other path hother (hfile hdata) heq)
          have hrep := h.change_unopened hstore hdisk
            (Finmap.lookup_insert_of_ne _ (by simp)) (le_refl _)
            (fun changed hchanged hdata => by
              cases hchanged
              exact h.number_lt hstore (hfile hdata))
            (h.not_opened hopen)
          rw [Function.update_eq_self] at hrep
          simp only [if_true, Option.map_some, h.disk.lookup_some hnode, ← hrecord]
          exact hrep

theorem Represents.edit {op : FuseOp} {change : FileNode → FileNode}
    (h : Represents number A s) (hstore : s.store = some dsp)
    (hop : op.edit? = some (path, change)) (hopen : NotOpen s path) :
    Conforms A s dsp ⟨heap, fuel, op⟩ := by
  obtain ⟨update, hrun, hrecord⟩ := run_serve_edit hop heap fuel
  have hserves := @FileSystem.Serves.edit A heap op path change hop
  rw [h.disk.lookupCode_eq] at hserves
  exact (h.edited hstore hrecord (FuseOp.edit?_keeps hop) hopen).conforms hserves
    (hrun dsp s.handles s.db)

/-! ## Creations -/

theorem Represents.create (h : Represents number A s) (attrs : Attrs)
    (hstore : s.store = some dsp) (hnode : A.node path = none) (hpath : WellFormed path)
    (hleft : NumberLeft s) (hok : heap.ok = true) :
    Represents (Function.update number path dsp.lastInode) (A.set path (some (.new attrs)))
      ⟨s.db.insert (.dentry path) (attrs.record dsp.lastInode), some (nextStore heap dsp),
        s.handles⟩ := by
  obtain ⟨dfd, hlookup, hlt⟩ := hleft dsp hstore
  have hmax := dfd.dfdLastino.toNat_lt
  have hnext : (nextStore heap dsp).lastInode.toNat = dsp.lastInode.toNat + 1 := by
    rw [nextStore, if_pos hok, UInt64.toNat_add]
    exact Nat.mod_eq_of_lt (by rw [UInt64.toNat_one]; omega)
  refine h.change_unopened hstore ?_ (Finmap.lookup_insert_of_ne _ (by simp)) (by omega) ?_ ?_
  · apply h.disk.insert_record hpath
    · intro _
      exact ByteMap.empty_le _
    · intro _ other _ hfile heq
      have hfresh := h.fresh dsp hstore other hfile
      rw [heq] at hfresh
      exact absurd hfresh (lt_irrefl _)
  · intro node hnode hdata
    refine ⟨by omega, fun dfd' hlookup' => ?_⟩
    cases hlookup.symm.trans hlookup'
    exact hlt
  · intro fi hopened
    obtain ⟨node, hsome, -⟩ := h.served fi path hopened
    rw [hnode] at hsome
    cases hsome

theorem Represents.nextStore (h : Represents number A s) (hstore : s.store = some dsp)
    (hleft : NumberLeft s) (heap : Heap) :
    Represents number A ⟨s.db, some (nextStore heap dsp), s.handles⟩ := by
  obtain ⟨dfd, hlookup, hlt⟩ := hleft dsp hstore
  have hmax := dfd.dfdLastino.toNat_lt
  refine ⟨h.disk, h.reserved, ?_, h.handles, h.served⟩
  intro dsp' hdsp other hfile
  cases hdsp
  have hfresh := h.fresh dsp hstore other hfile
  unfold Fuse.nextStore
  split
  · rw [UInt64.toNat_add, UInt64.toNat_one, Nat.mod_eq_of_lt (by omega)]
    omega
  · exact hfresh

theorem FileSystem.create_of_code_eq (attrs : Attrs) (hcode : A.createCode heap path = 0) :
    A.create heap path attrs = A.set path (some (.new attrs)) := by
  obtain ⟨hok, hnode⟩ := FileSystem.createCode_eq_zero_iff.mp hcode
  rw [FileSystem.create, if_pos hok, hnode, Option.none_or]

theorem Represents.mkdir {proc : Proc} {mode : UInt32} (h : Represents number A s)
    (hstore : s.store = some dsp) (hpath : WellFormed path) (hleft : NumberLeft s) :
    Conforms A s dsp ⟨heap, fuel, .mfMkdir proc path mode⟩ := by
  have hserve : (FuseCall.serve ⟨heap, fuel, .mfMkdir proc path mode⟩ dsp s.handles).run s.db =
      some ((.result (A.createCode heap path), Fuse.nextStore heap dsp, s.handles),
        createEntry heap path ((Attrs.create .container mode proc).record dsp.lastInode)
          s.db) := by
    simp [FuseCall.serve, run_mfMkdir, h.disk.createCode_eq]
  by_cases hcode : A.createCode heap path = 0
  · obtain ⟨hok, hnode⟩ := FileSystem.createCode_eq_zero_iff.mp hcode
    have hrep := h.create (.create .container mode proc) hstore hnode hpath hleft hok
    rw [← FileSystem.create_of_code_eq _ hcode] at hrep
    rw [createEntry_of_code _ (h.disk.createCode_eq heap path ▸ hcode)] at hserve
    exact hrep.conforms .mkdir hserve
  · have hrep := h.nextStore hstore hleft heap
    rw [createEntry_of_code_ne _ (h.disk.createCode_eq heap path ▸ hcode)] at hserve
    have hserves := @FileSystem.Serves.mkdir A heap proc path mode
    rw [FileSystem.create_of_code _ hcode] at hserves
    exact hrep.conforms hserves hserve

theorem Represents.mfCreate {openHeap : Heap} {proc : Proc} {mode : UInt32} {fi : Nat}
    (h : Represents number A s) (hstore : s.store = some dsp) (hpath : WellFormed path)
    (hleft : NumberLeft s) :
    Conforms A s dsp ⟨heap, fuel, .mfCreate openHeap proc path mode fi⟩ := by
  by_cases hcode : A.createCode heap path = 0
  · obtain ⟨hok, hnode⟩ := FileSystem.createCode_eq_zero_iff.mp hcode
    have hrun := run_mfCreate_of_code openHeap proc dsp mode
      (h.disk.createCode_eq heap path ▸ hcode)
    have hrep := h.create (.create .data mode proc) hstore hnode hpath hleft hok
    have hfile : (A.set path (some (.new (.create .data mode proc)))).IsFile path :=
      ⟨_, FileSystem.set_node_self _ _ _, rfl⟩
    rw [← FileSystem.create_of_code_eq _ hcode] at hrep hfile
    cases hopen : openHeap.ok with
    | true =>
        have hopened := hrep.setOpened fi (some path)
          (some (initHandle path ((Attrs.create .data mode proc).record dsp.lastInode)))
          (fun other hother => by
            cases hother
            exact hfile)
          (by simp [FileSystem.create_of_code_eq _ hcode, fileHandle, FileNode.new])
        refine hopened.conforms (.create hcode hopen) ?_
        simp [FuseCall.serve, hrun, hopen]
    | false =>
        have hopened := hrep.setOpened fi none none (by simp) rfl
        refine hopened.conforms (.createUnopened hcode hopen) ?_
        simp [FuseCall.serve, hrun, hopen]
  · have hopened := (h.nextStore hstore hleft heap).setOpened fi none none (by simp) rfl
    refine hopened.conforms (.createFails hcode) ?_
    have hrun := run_mfCreate_of_code_ne openHeap proc dsp mode
      (h.disk.createCode_eq heap path ▸ hcode)
    simp [FuseCall.serve, hrun, h.disk.createCode_eq]

/-! ## Open files -/

theorem Represents.mfOpen {fi : Nat} (h : Represents number A s) (hstore : s.store = some dsp)
    (hdata : ∀ ddd, s.db.lookup (.dentry path) = some ddd → IsData ddd.dddType) :
    Conforms A s dsp ⟨heap, fuel, .mfOpen path fi⟩ := by
  have hrun := run_mfOpen heap path s.db
  rw [← h.disk.lookupCode_eq] at hrun
  have hstored := h.of_store hstore
  by_cases hcode : A.lookupCode heap path = 0
  · obtain ⟨hok, node, hnode⟩ := FileSystem.lookupCode_eq_zero_iff.mp hcode
    have hlookup := h.disk.lookup_some hnode
    have hopened := hstored.setOpened fi (some path) (some (fileHandle number path node))
      (fun other hother => by
        cases hother
        exact ⟨node, hnode, isData_record.mp (hdata _ hlookup)⟩)
      (by rw [Option.bind_some, hnode, Option.map_some])
    refine hopened.conforms (.opens hcode) ?_
    simp [FuseCall.serve, hrun, hcode, openedHandle, hok, hlookup, fileHandle]
  · have hnone : openedHandle heap path s.db = none := by
      rw [FileSystem.lookupCode_eq_zero_iff, not_and] at hcode
      unfold openedHandle
      split
      · rename_i hok
        cases hnode : A.node path with
        | none => rw [h.disk.lookup_none hnode, Option.map_none]
        | some node => exact absurd ⟨node, hnode⟩ (hcode hok)
      · rfl
    have hopened := hstored.setOpened fi none none (by simp) rfl
    refine hopened.conforms (.openFails hcode) ?_
    simp [FuseCall.serve, hrun, hnone]

theorem Represents.mfRelease {fi : Nat} (h : Represents number A s)
    (hstore : s.store = some dsp) : Conforms A s dsp ⟨heap, fuel, .mfRelease fi⟩ := by
  have hclosed := (h.of_store hstore).setOpened fi none none (by simp) rfl
  cases hopened : A.opened fi with
  | none =>
      have hfi : s.handles fi = none := by rw [h.handles, hopened, Option.bind_none]
      have hsame : A.setOpened fi none = A := by
        rw [FileSystem.setOpened, ← hopened, Function.update_eq_self]
      rw [hsame] at hclosed
      refine hclosed.conforms (.releaseUnopened hopened) ?_
      simp [FuseCall.serve, Fuse.mfRelease, hfi]
  | some path =>
      obtain ⟨node, hnode, -⟩ := h.served fi path hopened
      refine hclosed.conforms (.release hopened) ?_
      simp [FuseCall.serve, Fuse.mfRelease, h.handle_of_opened hopened hnode, dbfsClose]

theorem OnDisk.reads {offset : UInt64} {k : Nat} {code : Int}
    (h : OnDisk number A db) (buf : List UInt8) (hnode : A.node path = some node)
    (hdata : node.attrs.type = .data) (hfits : offset.toNat + k < 2 ^ 64)
    (hcode : code = readCode db (number path) offset k) :
    node.Reads offset.toNat k buf (if code = 0 then intOfSize (UInt64.ofNat k) else -code)
      (readBytes db (number path) offset.toNat k ++ buf.drop k) := by
  have hbytes := h.bytes path node hnode hdata
  refine ⟨_, length_readBytes db (number path) offset.toNat k, rfl, ?_, ?_⟩
  · intro i byte hi hbyte
    rw [getElem?_readBytes hi, hbytes _ _ hbyte, Option.getD_some]
  · by_cases hzero : code = 0
    · exact .inl (if_pos hzero)
    · rw [if_neg hzero]
      rw [hcode, readCode_eq_zero_iff, not_or] at hzero
      obtain ⟨hpos, hmem⟩ := hzero
      have hnone : content db (number path) (offset.toNat + k - 1) = none := by
        rw [← Option.not_isSome_iff_eq_none, content_isSome_iff h.wf (by omega)]
        exact hmem
      refine .inr ⟨?_, Nat.pos_of_ne_zero hpos, ?_⟩
      · rw [hcode, readCode, if_neg hpos, blockCode, if_neg hmem]
      · cases hbyte : node.bytes (offset.toNat + k - 1) with
        | none => rfl
        | some byte =>
            rw [hbytes _ _ hbyte] at hnone
            cases hnone

theorem Represents.mfRead {fi : Nat} {buf : List UInt8} {offset : UInt64}
    (h : Represents number A s) (hstore : s.store = some dsp)
    (henv : heap.envOpens = true) (hrange : ∀ dh, s.handles fi = some dh →
      offset.toNat ≤ dh.attrDdd.dddSize.toNat ∧ offset.toNat + buf.length < 2 ^ 64) :
    Conforms A s dsp ⟨heap, fuel, .mfRead fi buf offset⟩ := by
  cases hopened : A.opened fi with
  | none =>
      have hfi : s.handles fi = none := by rw [h.handles, hopened, Option.bind_none]
      refine (h.of_store hstore).conforms (.readUnopened hopened) ?_
      simp [FuseCall.serve, Fuse.mfRead, envOpen_of_opens henv, hfi]
  | some path =>
      obtain ⟨node, hnode, hdata⟩ := h.served fi path hopened
      have hfi := h.handle_of_opened hopened hnode
      obtain ⟨hoffset, hfits⟩ := hrange _ hfi
      obtain ⟨k, code, hk, hcode, hrun⟩ := run_mfRead henv buf h.disk.wf hoffset hfits
      have hlength : k ≤ buf.length := by
        rw [hk, clipped, UInt64.toNat_ofNat_of_lt' (by simp only [UInt64.size]; omega)]
        exact Nat.min_le_left _ _
      have hreads := h.disk.reads buf hnode hdata
        (show offset.toNat + k < 2 ^ 64 by omega) hcode
      rw [hk] at hreads hrun
      exact (h.of_store hstore).conforms (.read hopened hnode hreads)
        (run_serve_mfRead fuel dsp hfi hrun)

/-! ## Writing -/

theorem FileNode.record_write {buf : List UInt8} {offset : UInt64}
    (hfits : offset.toNat + buf.length < 2 ^ 64) (ino : UInt64) :
    (node.write offset.toNat buf).attrs.record ino =
      grown (node.attrs.record ino) (UInt64.ofNat buf.length) offset := by
  have hlength : (UInt64.ofNat buf.length).toNat = buf.length :=
    UInt64.toNat_ofNat_of_lt' (by simp only [UInt64.size]; omega)
  have hsum : (offset + UInt64.ofNat buf.length).toNat = offset.toNat + buf.length := by
    rw [UInt64.toNat_add, hlength]
    omega
  have hstop : UInt64.ofNat (offset.toNat + buf.length) = offset + UInt64.ofNat buf.length := by
    rw [← hsum, UInt64.ofNat_toNat]
  have hsize : (node.attrs.record ino).dddSize = node.attrs.size.toUInt64 := rfl
  unfold FileNode.write Attrs.grow grown Attrs.length
  simp only [hsize, UInt64.lt_iff_toNat_lt, hsum]
  split
  · simp [Attrs.record, hstop]
  · rfl

theorem FileNode.type_write (offset : Nat) (buf : List UInt8) :
    (node.write offset buf).attrs.type = node.attrs.type := by
  unfold FileNode.write Attrs.grow
  split <;> rfl

theorem fileHandle_write {buf : List UInt8} {offset : UInt64}
    (hfits : offset.toNat + buf.length < 2 ^ 64) :
    fileHandle number path (node.write offset.toNat buf) =
      { fileHandle number path node with
        attrDdd := grown (node.attrs.record (number path)) (UInt64.ofNat buf.length) offset } := by
  rw [fileHandle, FileNode.record_write hfits]
  rfl

theorem OnDisk.write {buf : List UInt8} {offset : UInt64} (h : OnDisk number A db)
    (hnode : A.node path = some node) (hdata : node.attrs.type = .data)
    (hfits : offset.toNat + buf.length < 2 ^ 64)
    (hwrote : WroteFile path (node.attrs.record (number path)) ⟨heap, buf, offset⟩ db db') :
    OnDisk (Function.update number path (number path))
      (A.set path (some (node.write offset.toNat buf))) db' := by
  have hfile : A.IsFile path := ⟨node, hnode, hdata⟩
  have hother : ∀ other, other ≠ path → A.IsFile other → number other ≠ number path :=
    fun other hne hfile' heq => hne (h.distinct other path hfile' hfile heq)
  apply h.change hwrote.wf
  · rw [hwrote.stored, Option.map_some, FileNode.record_write hfits]
    rfl
  · intro other hne
    exact hwrote.frame _ (by simp) (by simpa using hne)
  · intro other hne hfile'
    apply content_congr
    intro offset'
    apply hwrote.frame
    · intro offset'' heq
      exact absurd (Key.block.inj heq).1 (hother other hne hfile')
    · simp
  · intro written hwritten _
    cases hwritten
    exact (ByteMap.overlay_mono (h.bytes path node hnode hdata) _ _).trans hwrote.written
  · intro written _ _
    exact hother
  · intro _
    exact h.paths path node hnode

theorem Represents.mfWrite {fi : Nat} {buf : List UInt8} {offset : UInt64}
    (h : Represents number A s) (hstore : s.store = some dsp)
    (henv : heap.envOpens = true) (halone : ∀ dh, s.handles fi = some dh →
      offset.toNat + buf.length < 2 ^ 64 ∧
      ∀ fi' dh', s.handles fi' = some dh' → dh'.locator = dh.locator → fi' = fi) :
    Conforms A s dsp ⟨heap, fuel, .mfWrite fi buf offset⟩ := by
  cases hopened : A.opened fi with
  | none =>
      have hfi : s.handles fi = none := by rw [h.handles, hopened, Option.bind_none]
      have hsame : Function.update s.handles fi none = s.handles := by
        rw [← hfi, Function.update_eq_self]
      refine (h.of_store hstore).conforms (.writeUnopened hopened) ?_
      simp [FuseCall.serve, Fuse.mfWrite, envOpen_of_opens henv, hfi, hsame]
  | some path =>
      obtain ⟨node, hnode, hdata⟩ := h.served fi path hopened
      have hfi := h.handle_of_opened hopened hnode
      obtain ⟨hfits, honly⟩ := halone _ hfi
      obtain ⟨db', hwrote, hrun⟩ := run_mfWrite (fileHandle number path node)
        ⟨heap, buf, offset⟩ henv h.disk.wf hfits
      have hfile : A.IsFile path := ⟨node, hnode, hdata⟩
      have hhandles : ∀ fi', Function.update s.handles fi
          (some (fileHandle number path (node.write offset.toNat buf))) fi' =
          if A.opened fi' = some path then (some (node.write offset.toNat buf)).map
            (fileHandle (Function.update number path (number path)) path)
          else s.handles fi' := by
        intro fi'
        rw [Function.update_eq_self]
        by_cases hsame : fi' = fi
        · rw [hsame, Function.update_self, if_pos hopened, Option.map_some]
        · rw [Function.update_of_ne hsame, if_neg]
          intro hopened'
          exact hsame (honly fi' _ (h.handle_of_opened hopened' hnode) rfl)
      have hrep := h.change hstore (h.disk.write hnode hdata hfits hwrote)
        (hwrote.frame _ (by simp) (by simp)) (le_refl _)
        (fun _ _ _ => h.number_lt hstore ⟨node, hnode, hdata⟩) hhandles
        (fun _ _ => ⟨_, rfl, (FileNode.type_write _ _).trans hdata⟩)
      rw [Function.update_eq_self] at hrep
      have hcall : (Fuse.mfWrite heap (some (fileHandle number path node)) buf
          (UInt64.ofNat buf.length) offset).run s.db = some ((intOfSize (UInt64.ofNat buf.length),
            some (fileHandle number path (node.write offset.toNat buf))), db') := by
        rw [fileHandle_write hfits]
        exact hrun
      exact hrep.conforms (.write hopened hnode hfits) (run_serve_mfWrite fuel dsp hfi hcall)

/-! ## Attributes and listings -/

theorem OnDisk.type_of_lookup (h : OnDisk number A db) {ddd : DentryData}
    (hlookup : db.lookup (.dentry path) = some ddd) :
    ∃ mt, MangooTypes.ofUInt32? ddd.dddType = some mt := by
  obtain ⟨node, -, rfl⟩ := h.node_of_lookup hlookup
  exact ⟨node.attrs.type, ofUInt32?_record _ _⟩

theorem Represents.mfGetattr {stbuf : Stat} (h : Represents number A s)
    (hstore : s.store = some dsp) : Conforms A s dsp ⟨heap, fuel, .mfGetattr path stbuf⟩ := by
  have hstored := h.of_store hstore
  rcases run_mfGetattr_code heap fuel stbuf
    (fun ddd hlookup => h.disk.type_of_lookup hlookup) with
    ⟨hcode, hrun⟩ | ⟨ddd, mt, hcode, hlookup, htype, hrun⟩
  · rw [← h.disk.lookupCode_eq] at hcode hrun
    refine hstored.conforms (.getattrFails hcode) ?_
    simp [FuseCall.serve, hrun]
  · obtain ⟨node, hnode, rfl⟩ := h.disk.node_of_lookup hlookup
    rw [ofUInt32?_record, Option.some_inj] at htype
    subst htype
    rw [statOf_record] at hrun
    rw [← h.disk.lookupCode_eq] at hcode
    refine hstored.conforms (.getattr hcode hnode) ?_
    simp [FuseCall.serve, hrun]

theorem OnDisk.lists (h : OnDisk number A db) (hpath : WellFormed path) :
    A.Lists path (childrenOf db path) := by
  have hpaths := h.wellFormedPaths
  refine ⟨?_, pairwise_childrenOf hpaths hpath⟩
  intro name type
  rw [mem_childrenOf_iff hpaths hpath]
  constructor
  · rintro ⟨child, ddd, hlookup, hchild, heq⟩
    obtain ⟨node, hnode, rfl⟩ := h.node_of_lookup hlookup
    cases heq
    exact ⟨child, node, hnode, hchild, rfl, rfl⟩
  · rintro ⟨child, node, hnode, hchild, rfl, rfl⟩
    exact ⟨child, _, h.lookup_some hnode, hchild, rfl⟩

theorem Represents.listDirectory (h : Represents number A s) (hstore : s.store = some dsp)
    (hfuel : s.db.keys.card < fuel) (hinPlace : heap.InPlace)
    (hnone : ∀ other, Key.dentry other ∈ s.db → ¬ ExtendsName path other) :
    Conforms A s dsp ⟨heap, fuel, .listDirectory path⟩ := by
  have hstored := h.of_store hstore
  by_cases hcode : A.lookupCode heap path = 0
  · obtain ⟨hok, node, hnode⟩ := FileSystem.lookupCode_eq_zero_iff.mp hcode
    have hdir : Key.dentry path ∈ s.db := h.disk.mem_iff.mpr (by simp [hnode])
    have hrun := run_listDirectory hok hinPlace h.disk.wellFormedPaths hdir hfuel hnone
    refine hstored.conforms
      (.list hcode (h.disk.lists (h.disk.paths path node hnode))) ?_
    simp [FuseCall.serve, hrun]
  · have hrun := run_listDirectory_fails fuel (h.disk.lookupCode_eq heap path ▸ hcode)
    rw [← h.disk.lookupCode_eq] at hrun
    refine hstored.conforms (.listFails hcode) ?_
    simp [FuseCall.serve, hrun]

/-! ## Removals -/

theorem OnDisk.isExtended_iff (h : OnDisk number A db) :
    IsExtended db path ↔ A.IsExtended path := by
  unfold IsExtended FileSystem.IsExtended
  simp only [h.mem_iff]

theorem Represents.erase (h : Represents number A s) (hstore : s.store = some dsp)
    (hopen : NotOpen s path) :
    Represents number (A.set path none) ⟨s.db.erase (.dentry path), some dsp, s.handles⟩ := by
  have hdisk : OnDisk (Function.update number path (number path)) (A.set path none)
      (s.db.erase (.dentry path)) := by
    rw [Function.update_eq_self]
    exact h.disk.erase_record
  have hrep := h.change_unopened hstore hdisk (Finmap.lookup_erase_ne (by simp)) (le_refl _)
    (fun node hnode => by cases hnode) (h.not_opened hopen)
  rwa [Function.update_eq_self] at hrep

theorem Represents.mfRemove (h : Represents number A s) (hstore : s.store = some dsp)
    (hopen : NotOpen s path) (hgoes : ∀ ddd, s.db.lookup (.dentry path) = some ddd →
      (IsData ddd.dddType → ddd.dddSize ≠ 0) ∧
        (IsContainer ddd.dddType →
          IsExtended s.db path ∨ ∀ key ∈ s.db, key ≤ .dentry path)) :
    Conforms A s dsp ⟨heap, fuel, .mfRemove path⟩ := by
  have hstored := h.of_store hstore
  by_cases hroot : path = rootPath
  · subst hroot
    refine hstored.conforms .removeRoot ?_
    simp [FuseCall.serve, run_mfRemove_root]
  by_cases hcode : A.lookupCode heap path = 0
  · obtain ⟨hok, node, hnode⟩ := FileSystem.lookupCode_eq_zero_iff.mp hcode
    have hlookup := h.disk.lookup_some hnode
    obtain ⟨hdata, hcontainer⟩ := hgoes _ hlookup
    cases htype : node.attrs.type with
    | data =>
        have hsize := hdata (isData_record.mpr htype)
        have hrun := run_dbfsDelete_data fuel hok hroot hlookup
          (by rw [ofUInt32?_record, htype]) (UInt64.pos_iff_ne_zero.mpr hsize)
        refine (h.erase hstore hopen).conforms (.unlink hcode ⟨node, hnode, htype⟩) ?_
        simp [FuseCall.serve, Fuse.mfRemove, hrun]
    | container =>
        have hnot : ¬ A.IsFile path := by
          rintro ⟨node', hnode', htype'⟩
          cases hnode.symm.trans hnode'
          rw [htype] at htype'
          cases htype'
        have hmem : Key.dentry path ∈ s.db := h.disk.mem_iff.mpr (by simp [hnode])
        have hrun := run_dbfsDelete_directory fuel hok hroot hlookup
          (by rw [ofUInt32?_record, htype])
        obtain ⟨hext, hempty⟩ := deldResult_eq h.disk.wellFormedPaths hmem
        by_cases hextended : A.IsExtended path
        · rw [hext (h.disk.isExtended_iff.mpr hextended)] at hrun
          refine hstored.conforms (.rmdirFails hroot hcode hnot hextended) ?_
          simp [FuseCall.serve, Fuse.mfRemove, hrun, enotempty]
        · have halone := mt h.disk.isExtended_iff.mp hextended
          have hzero := hempty halone
          have hkey := deldKey_of_last heap
            ((hcontainer (isContainer_record.mpr htype)).resolve_left halone)
          rw [hzero, hkey] at hrun
          refine (h.erase hstore hopen).conforms (.rmdir hroot hcode hnot hextended) ?_
          simp [FuseCall.serve, Fuse.mfRemove, hrun, hmem]
  · have hrun := run_mfRemove_fails fuel hroot (h.disk.lookupCode_eq heap path ▸ hcode)
    rw [← h.disk.lookupCode_eq] at hrun
    refine hstored.conforms (.removeFails hroot hcode) ?_
    simp [FuseCall.serve, hrun]

/-! ## Runs -/

theorem Represents.serve (h : Represents number A s) (hstore : s.store = some dsp)
    (hcall : call.Disciplined s) : Conforms A s dsp call := by
  obtain ⟨heap, fuel, op⟩ := call
  cases op with
  | mfMkdir proc path mode => exact h.mkdir hstore hcall.1 hcall.2
  | mfCreate openHeap proc path mode fi => exact h.mfCreate hstore hcall.1 hcall.2
  | mfOpen path fi => exact h.mfOpen hstore hcall
  | mfRead fi buf offset => exact h.mfRead hstore hcall.1 hcall.2
  | mfWrite fi buf offset => exact h.mfWrite hstore hcall.1 hcall.2
  | mfRelease fi => exact h.mfRelease hstore
  | mfGetattr path stbuf => exact h.mfGetattr hstore
  | mfChmod | mfChown | mfUtime | mfTruncate => exact h.edit hstore rfl hcall
  | mfRemove path => exact h.mfRemove hstore hcall.1 hcall.2
  | listDirectory path => exact h.listDirectory hstore hcall.1 hcall.2.1 hcall.2.2

theorem Represents.mount {error : Int} {store : Option DbfsStore} (h : Represents number A s)
    (hclosed : s.store = none)
    (hroom : ∀ dfd : FsinfoData, s.db.lookup .fsinfo = some dfd →
      dfd.dfdLastino.toNat + 1000 < 2 ^ 64)
    (hrun : (dbfsInitstore heap).run s.db = some ((error, store), db')) :
    error = (if heap.ok then 0 else enomem) ∧ Represents number A ⟨db', store, s.handles⟩ := by
  obtain ⟨dfd, hlookup, hbelow⟩ := h.reserved
  rw [run_dbfsInitstore_stored heap hlookup] at hrun
  cases hok : heap.ok with
  | false =>
      rw [hok] at hrun
      cases hrun
      refine ⟨rfl, ?_⟩
      rw [← hclosed]
      exact h
  | true =>
      rw [hok] at hrun
      cases hrun
      refine ⟨rfl, h.disk.insert_fsinfo _, ?_, ?_, h.handles, h.served⟩
      · refine ⟨_, Finmap.lookup_insert _, fun other hfile => ?_⟩
        have hlt := hbelow other hfile
        have hmax := hroom dfd hlookup
        have hsum : (dfd.dfdLastino + 1000).toNat = dfd.dfdLastino.toNat + 1000 := by
          rw [UInt64.toNat_add]
          exact Nat.mod_eq_of_lt hmax
        rw [hsum]
        omega
      · intro dsp hdsp other hfile
        cases hdsp
        exact hbelow other hfile

theorem Represents.step {event : FuseEvent} (h : Represents number A s)
    (hstep : FuseStep s event s') (hevent : event.Disciplined s) :
    ∃ A', A.Step event A' ∧ ∃ number', Represents number' A' s' := by
  cases hstep with
  | @mangooInitstore heap error store db' hclosed hrun =>
      obtain ⟨rfl, hrep⟩ := h.mount hclosed hevent hrun
      exact ⟨A, .mount, number, hrep⟩
  | mangooClosestore hstore =>
      refine ⟨_, .unmount, number, h.disk.of_opened _, h.reserved, ?_, ?_, ?_⟩
      · intro dsp hdsp
        cases hdsp
      · intro fi
        rfl
      · intro fi path hopened
        cases hopened
  | @served dsp call answer dsp' files' db' hstore hrun =>
      obtain ⟨answer₁, dsp₁, files₁, db₁, A', number', hrun₁, hserves, hrep⟩ :=
        h.serve hstore hevent
      rw [hrun₁] at hrun
      cases hrun
      exact ⟨A', .served hserves, number', hrep⟩

theorem new_node_eq_some {proc : Proc} (hnode : (FileSystem.new proc).node path = some node) :
    path = rootPath ∧ node = .new (.create .container 0o644 proc) := by
  obtain ⟨attrs, hattrs, rfl⟩ := Option.map_eq_some_iff.mp hnode
  unfold newAttrs at hattrs
  split at hattrs
  · rename_i hroot
    cases hattrs
    exact ⟨hroot, rfl⟩
  · cases hattrs

theorem not_isFile_new (proc : Proc) (path : CStr) : ¬ (FileSystem.new proc).IsFile path := by
  rintro ⟨node, hnode, hdata⟩
  obtain ⟨-, rfl⟩ := new_node_eq_some hnode
  cases hdata

theorem onDisk_mkdbfsDb (proc : Proc) :
    OnDisk (fun _ => dbfsRootIno) (FileSystem.new proc) (mkdbfsDb proc) where
  wf ino offset record hrecord := by
    rw [lookup_mkdbfsDb_block] at hrecord
    cases hrecord
  record path := by
    change _ = ((newAttrs proc path).map FileNode.new).map _
    by_cases hroot : path = rootPath
    · subst hroot
      rw [mkdbfsDb, Finmap.lookup_insert_of_ne _ (by simp), Finmap.lookup_insert, newAttrs,
        if_pos rfl, Option.map_some, Option.map_some, FileNode.new, Attrs.record_create]
      rfl
    · have hlookup : (mkdbfsDb proc).lookup (.dentry path) = none := by
        rw [Option.eq_none_iff_forall_ne_some]
        intro ddd hlookup
        exact hroot (lookup_mkdbfsDb hlookup).1
      rw [hlookup, newAttrs, if_neg hroot]
      rfl
  bytes path node hnode hdata := absurd ⟨node, hnode, hdata⟩ (not_isFile_new proc path)
  paths path node hnode := .inl (new_node_eq_some hnode).1
  distinct path _ hfile := absurd hfile (not_isFile_new proc path)

theorem represents_mkdbfsDb (proc : Proc) :
    Represents (fun _ => dbfsRootIno) (FileSystem.new proc) (Sys.closed (mkdbfsDb proc)) where
  disk := onDisk_mkdbfsDb proc
  reserved := ⟨_, Finmap.lookup_insert _, fun path hfile => absurd hfile (not_isFile_new proc path)⟩
  fresh dsp hdsp := by cases hdsp
  handles _ := rfl
  served _ _ hopened := by cases hopened

/-- A step of the server whose event the clients may cause. -/
def DisciplinedStep (s : Sys) (event : FuseEvent) (s' : Sys) : Prop :=
  event.Disciplined s ∧ FuseStep s event s'

theorem represents_of_run {proc : Proc} {events : List FuseEvent}
    (h : Run DisciplinedStep (Sys.closed (mkdbfsDb proc)) events s) :
    ∃ A, Run FileSystem.Step (FileSystem.new proc) events A ∧ ∃ number, Represents number A s := by
  apply h.simulate (R := fun A s => ∃ number, Represents number A s)
    ⟨_, represents_mkdbfsDb proc⟩
  rintro A s event s' ⟨number, hrep⟩ ⟨hevent, hstep⟩
  exact hrep.step hstep hevent

/-- The store is mounted, a file is created and the root directory listed, and then it is
unmounted. -/
def fourEvents : List FuseEvent :=
  [.mangooInitstore plainHeap 0,
    .served ⟨plainHeap, 0, .mfCreate plainHeap plainProc pathA 0o600 0⟩ (.result 0),
    .served ⟨plainHeap, 4, .listDirectory rootPath⟩
      (.listing 0 (numbered 0 (dotEntries ++ [(lastComponent pathA, 1)]))),
    .mangooClosestore]

end Mangoo.Fuse
