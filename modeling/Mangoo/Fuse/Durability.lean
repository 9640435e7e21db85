import Mangoo.Fuse.Refinement

/-!
# Bytes that last

A byte that was written to a file stays there until a call overwrites it, cuts it off or
removes the file, whatever else the clients do and however often the store is unmounted and
mounted again.
-/

namespace Mangoo.Fuse

open Mangoo.Foundation Mangoo.Dbfs

/-- The call overwrites or cuts off position `pos` of the file at `path`, or removes the
path.  `On` holds of the open files at `path`. -/
def FuseOp.Destroys (On : Nat → Prop) (path : CStr) (pos : Nat) : FuseOp → Prop
  | .mfWrite fi buf offset => On fi ∧ offset.toNat ≤ pos ∧ pos < offset.toNat + buf.length
  | .mfTruncate path' offset => path' = path ∧ offset.toUInt64.toNat ≤ pos
  | .mfRemove path' => path' = path
  | _ => False

def OpenOn (s : Sys) (path : CStr) (fi : Nat) : Prop :=
  ∃ dh, s.handles fi = some dh ∧ dh.locator = path

def FuseEvent.Keeps (path : CStr) (pos : Nat) (s : Sys) : FuseEvent → Prop
  | .served call _ => ¬ call.op.Destroys (OpenOn s path) path pos
  | _ => True

/-- A disciplined step that keeps the byte. -/
def KeepingStep (path : CStr) (pos : Nat) (s : Sys) (event : FuseEvent) (s' : Sys) : Prop :=
  event.Keeps path pos s ∧ DisciplinedStep s event s'

variable {number : CStr → UInt64} {A A' : FileSystem} {s s' : Sys} {heap : Heap}
  {path path' : CStr} {node : FileNode} {pos : Nat} {byte : UInt8} {op : FuseOp}
  {answer : Answer}

/-! ## Bytes of the file system -/

/-- The byte is known and inside the file. -/
def FileNode.Holds (node : FileNode) (pos : Nat) (byte : UInt8) : Prop :=
  node.attrs.type = .data ∧ node.bytes pos = some byte ∧ pos < node.attrs.length

def FileSystem.Holds (A : FileSystem) (path : CStr) (pos : Nat) (byte : UInt8) : Prop :=
  ∃ node, A.node path = some node ∧ node.Holds pos byte

theorem Attrs.length_grow (a : Attrs) {stop : Nat} (h : stop < 2 ^ 64) :
    (a.grow stop).length = max a.length stop := by
  unfold Attrs.grow
  split
  · rename_i hlt
    have hstop : ({ a with size := (UInt64.ofNat stop).toInt64 } : Attrs).length = stop := by
      rw [Attrs.length, UInt64.toUInt64_toInt64, UInt64.toNat_ofNat_of_lt' h]
    rw [hstop]
    omega
  · rename_i hge
    omega

theorem FileNode.Holds.write {offset : UInt64} {buf : List UInt8} (h : node.Holds pos byte)
    (hfits : offset.toNat + buf.length < 2 ^ 64)
    (hout : ¬ (offset.toNat ≤ pos ∧ pos < offset.toNat + buf.length)) :
    (node.write offset.toNat buf).Holds pos byte := by
  obtain ⟨hdata, hbyte, hlt⟩ := h
  refine ⟨(FileNode.type_write _ _).trans hdata, ?_, ?_⟩
  · change node.bytes.overlay offset.toNat buf pos = some byte
    rw [ByteMap.overlay, if_neg hout, hbyte]
  · change pos < (node.attrs.grow _).length
    rw [Attrs.length_grow _ hfits]
    omega

theorem FileNode.holds_write {offset : UInt64} {buf : List UInt8}
    (hdata : node.attrs.type = .data) (hfits : offset.toNat + buf.length < 2 ^ 64)
    (hin : offset.toNat ≤ pos ∧ pos < offset.toNat + buf.length)
    (hbyte : buf[pos - offset.toNat]? = some byte) :
    (node.write offset.toNat buf).Holds pos byte := by
  refine ⟨(FileNode.type_write _ _).trans hdata, ?_, ?_⟩
  · change node.bytes.overlay offset.toNat buf pos = some byte
    rw [ByteMap.overlay, if_pos hin, hbyte]
  · change pos < (node.attrs.grow _).length
    rw [Attrs.length_grow _ hfits]
    omega

theorem FuseOp.holds_edit {change : FileNode → FileNode} {On : Nat → Prop}
    (hop : op.edit? = some (path, change)) (hkeep : ¬ op.Destroys On path pos)
    (h : node.Holds pos byte) : (change node).Holds pos byte := by
  cases op with
  | mfTruncate path' offset =>
      cases hop
      obtain ⟨hdata, hbyte, hlt⟩ := h
      have hbelow : pos < offset.toUInt64.toNat := by
        by_contra hge
        exact hkeep ⟨rfl, not_lt.mp hge⟩
      refine ⟨hdata, ?_, hbelow⟩
      change node.bytes.cut offset.toUInt64.toNat pos = some byte
      rw [ByteMap.cut, if_pos hbelow, hbyte]
  | mfChmod | mfChown | mfUtime =>
      cases hop
      exact h
  | _ => cases hop

theorem FileSystem.Holds.set_of_ne (h : A.Holds path pos byte) (hne : path ≠ path')
    (changed : Option FileNode) : (A.set path' changed).Holds path pos byte := by
  obtain ⟨node, hnode, hheld⟩ := h
  exact ⟨node, (FileSystem.set_node_of_ne A changed hne).trans hnode, hheld⟩

theorem FileSystem.Holds.create (h : A.Holds path pos byte) (heap : Heap) (path' : CStr)
    (attrs : Attrs) : (A.create heap path' attrs).Holds path pos byte := by
  unfold FileSystem.create
  split
  · by_cases hne : path = path'
    · subst hne
      obtain ⟨node, hnode, hheld⟩ := h
      exact ⟨node, by rw [FileSystem.set_node_self, hnode, Option.some_or], hheld⟩
    · exact h.set_of_ne hne _
  · exact h

theorem FileSystem.Holds.edit {change : FileNode → FileNode} (h : A.Holds path pos byte)
    (heap : Heap) (path' : CStr)
    (hchange : path = path' → ∀ node : FileNode, node.Holds pos byte →
      (change node).Holds pos byte) : (A.edit heap path' change).Holds path pos byte := by
  unfold FileSystem.edit
  split
  · by_cases hne : path = path'
    · subst hne
      obtain ⟨node, hnode, hheld⟩ := h
      exact ⟨change node, by rw [FileSystem.set_node_self, hnode, Option.map_some],
        hchange rfl node hheld⟩
    · exact h.set_of_ne hne _
  · exact h

theorem FileSystem.Holds.setOpened (h : A.Holds path pos byte) (fi : Nat)
    (opened : Option CStr) : (A.setOpened fi opened).Holds path pos byte := h

/-! ## One call -/

theorem FileSystem.Serves.holds (h : A.Serves heap op answer A')
    (hheld : A.Holds path pos byte)
    (hkeep : ¬ op.Destroys (fun fi => A.opened fi = some path) path pos) :
    A'.Holds path pos byte := by
  cases h with
  | mkdir => exact hheld.create _ _ _
  | create hcode hopen => exact (hheld.create _ _ _).setOpened _ _
  | createUnopened hcode hopen => exact (hheld.create _ _ _).setOpened _ _
  | createFails hcode => exact hheld.setOpened _ _
  | opens hcode => exact hheld.setOpened _ _
  | openFails hcode => exact hheld.setOpened _ _
  | read | readUnopened | writeUnopened | releaseUnopened | getattr | getattrFails
  | removeRoot | removeFails | rmdirFails | list | listFails => exact hheld
  | @write fi path' node buf offset hopened hnode hfits =>
      by_cases hne : path = path'
      · subst hne
        obtain ⟨node', hnode', hheld⟩ := hheld
        cases hnode.symm.trans hnode'
        refine ⟨_, FileSystem.set_node_self _ _ _, hheld.write hfits ?_⟩
        exact fun hin => hkeep ⟨hopened, hin⟩
      · exact hheld.set_of_ne hne _
  | release hopened => exact hheld.setOpened _ _
  | @edit op path' change hop =>
      apply hheld.edit
      rintro rfl node hnode
      exact FuseOp.holds_edit hop hkeep hnode
  | unlink hcode hfile => exact hheld.set_of_ne (fun heq => hkeep heq.symm) _
  | rmdir hroot hcode hnot hext => exact hheld.set_of_ne (fun heq => hkeep heq.symm) _

/-! ## Runs -/

theorem Represents.openOn_iff {fi : Nat} (h : Represents number A s) :
    OpenOn s path fi ↔ A.opened fi = some path := by
  constructor
  · rintro ⟨dh, hfi, rfl⟩
    obtain ⟨path, node, hopened, -, -, rfl⟩ := h.opened_of_handle hfi
    exact hopened
  · intro hopened
    obtain ⟨node, hnode, -⟩ := h.served fi path hopened
    exact ⟨_, h.handle_of_opened hopened hnode, rfl⟩

/-- The file system that the state represents holds the byte. -/
def Held (path : CStr) (pos : Nat) (byte : UInt8) (s : Sys) : Prop :=
  ∃ A number, Represents number A s ∧ A.Holds path pos byte

theorem KeepingStep.held {event : FuseEvent} (h : KeepingStep path pos s event s')
    (hheld : Held path pos byte s) : Held path pos byte s' := by
  obtain ⟨A, number, hrep, hholds⟩ := hheld
  obtain ⟨hkeep, hevent, hstep⟩ := h
  obtain ⟨A', hserves, number', hrep'⟩ := hrep.step hstep hevent
  refine ⟨A', number', hrep', ?_⟩
  cases hserves with
  | mount | unmount => exact hholds
  | served hserves =>
      apply hserves.holds hholds
      simp only [← hrep.openOn_iff]
      exact hkeep

theorem DisciplinedStep.held_write {fuel fi : Nat} {buf : List UInt8} {offset : UInt64}
    (hrep : Represents number A s) (hon : OpenOn s path fi)
    (h : DisciplinedStep s (.served ⟨heap, fuel, .mfWrite fi buf offset⟩ answer) s')
    (hin : offset.toNat ≤ pos ∧ pos < offset.toNat + buf.length)
    (hbyte : buf[pos - offset.toNat]? = some byte) : Held path pos byte s' := by
  obtain ⟨hevent, hstep⟩ := h
  obtain ⟨A', hserves, number', hrep'⟩ := hrep.step hstep hevent
  refine ⟨A', number', hrep', ?_⟩
  have hopened := hrep.openOn_iff.mp hon
  cases hserves with
  | served hserves =>
      cases hserves with
      | @write fi path' node buf offset hopened' hnode hfits =>
          cases hopened.symm.trans hopened'
          obtain ⟨node', hnode', hdata⟩ := hrep.served fi path hopened
          cases hnode.symm.trans hnode'
          exact ⟨_, FileSystem.set_node_self _ _ _, FileNode.holds_write hdata hfits hin hbyte⟩
      | writeUnopened hnone =>
          rw [hnone] at hopened
          cases hopened
      | edit hop => cases hop

theorem DisciplinedStep.read_held {fuel fi : Nat} {buf out : List UInt8} {offset : UInt64}
    {code : Int} (hheld : Held path pos byte s) (hon : OpenOn s path fi)
    (h : DisciplinedStep s (.served ⟨heap, fuel, .mfRead fi buf offset⟩ (.data code out)) s')
    (hin : offset.toNat ≤ pos ∧ pos < offset.toNat + buf.length) :
    out[pos - offset.toNat]? = some byte ∧
      (pos + 1 = offset.toNat + buf.length →
        code = intOfSize (UInt64.ofNat buf.length)) := by
  obtain ⟨A, number, hrep, node, hnode, hdata, hbyte, hlt⟩ := hheld
  obtain ⟨hevent, hstep⟩ := h
  have hopened := hrep.openOn_iff.mp hon
  have hfits : offset.toNat + buf.length < 2 ^ 64 :=
    (hevent.2 _ (hrep.handle_of_opened hopened hnode)).2
  have hlength : (UInt64.ofNat buf.length).toNat = buf.length :=
    UInt64.toNat_ofNat_of_lt' (by simp only [UInt64.size]; omega)
  obtain ⟨A', hserves, -⟩ := hrep.step hstep hevent
  cases hserves with
  | served hserves =>
      cases hserves with
      | @read fi path' node' buf offset code out hopened' hnode' hreads =>
          cases hopened.symm.trans hopened'
          cases hnode.symm.trans hnode'
          obtain ⟨bytes, hbytes, rfl, hknown, hcode⟩ := hreads
          have hk : clipped node.attrs.size.toUInt64 offset (UInt64.ofNat buf.length) =
              min buf.length (node.attrs.length - offset.toNat) := by
            rw [clipped, hlength, Attrs.length]
          have hpos : offset.toNat + (pos - offset.toNat) = pos := by omega
          have hget := hknown (pos - offset.toNat) byte (by omega) (by rw [hpos, hbyte])
          refine ⟨?_, ?_⟩
          · rw [List.getElem?_append_left (by omega), hget]
          · intro hlast
            have hall : clipped node.attrs.size.toUInt64 offset (UInt64.ofNat buf.length) =
                buf.length := by omega
            rw [hall] at hcode
            rcases hcode with hcode | ⟨-, -, hnone⟩
            · exact hcode
            · rw [← hlast, Nat.add_sub_cancel, hbyte] at hnone
              cases hnone
      | readUnopened hnone =>
          rw [hnone] at hopened
          cases hopened

def emptyRecord : DentryData := (Attrs.create .data 0o600 plainProc).record dbfsRootIno

def openedSys : Sys where
  db := (mkdbfsDb plainProc).insert .fsinfo (⟨1001⟩ : FsinfoData) |>.insert (.dentry pathA)
    emptyRecord
  store := some ⟨dbfsRootIno + 1⟩
  handles := Function.update (fun _ => none) 0 (some (initHandle pathA emptyRecord))

theorem run_openedSys : Run DisciplinedStep (Sys.closed (mkdbfsDb plainProc))
    [.mangooInitstore plainHeap 0,
      .served ⟨plainHeap, 0, .mfCreate plainHeap plainProc pathA 0o600 0⟩ (.result 0)]
    openedSys := by
  refine .cons ⟨?_, .mangooInitstore rfl rfl⟩ (.single ⟨?_, .served rfl rfl⟩)
  · intro dfd hlookup
    cases hlookup
    decide
  · exact ⟨by decide, fun dsp hdsp => ⟨_, rfl, by cases hdsp; decide⟩⟩

theorem only_handle {record : DentryData} {fi : Nat} {dh : DbfsHandle}
    (h : Function.update (fun _ => none) 0 (some (initHandle pathA record)) fi = some dh) :
    fi = 0 ∧ dh = initHandle pathA record := by
  by_cases hfi : fi = 0
  · subst hfi
    exact ⟨rfl, (Option.some.inj h).symm⟩
  · rw [Function.update_of_ne hfi] at h
    cases h

theorem disciplined_write_openedSys (byte : UInt8) (offset : UInt64)
    (hfits : offset.toNat + 1 < 2 ^ 64) :
    FuseCall.Disciplined openedSys ⟨plainHeap, 0, .mfWrite 0 [byte] offset⟩ := by
  exact ⟨rfl, fun dh _ => ⟨hfits, fun fi dh' hfi _ => (only_handle hfi).1⟩⟩

def reopenedSys (db : Db) (record : DentryData) : Sys where
  db := db.insert .fsinfo (⟨2001⟩ : FsinfoData)
  store := some ⟨1001⟩
  handles := Function.update (fun _ => none) 0 (some (initHandle pathA record))

def reopenEvents : List FuseEvent :=
  [.mangooClosestore, .mangooInitstore plainHeap 0,
    .served ⟨plainHeap, 0, .mfOpen pathA 0⟩ (.result 0)]

theorem run_reopenedSys {db : Db} {record : DentryData}
    (hfsinfo : db.lookup .fsinfo = some (⟨1001⟩ : FsinfoData))
    (hrecord : db.lookup (.dentry pathA) = some record) (hdata : IsData record.dddType) :
    Run (KeepingStep pathA 0)
      ⟨db, openedSys.store, Function.update openedSys.handles 0 (some (initHandle pathA record))⟩
      reopenEvents (reopenedSys db record) := by
  have hrecord' : (db.insert .fsinfo (⟨2001⟩ : FsinfoData)).lookup (.dentry pathA) =
      some record := by rw [Finmap.lookup_insert_of_ne _ (by simp), hrecord]
  have hopen : KeepingStep pathA 0
      ⟨db.insert .fsinfo (⟨2001⟩ : FsinfoData), some ⟨1001⟩, fun _ => none⟩
      (.served ⟨plainHeap, 0, .mfOpen pathA 0⟩ (.result 0)) (reopenedSys db record) := by
    refine ⟨id, ?_, .served rfl ?_⟩
    · intro ddd hlookup
      cases hlookup.symm.trans hrecord'
      exact hdata
    · have hok : plainHeap.ok = true := rfl
      have hrun := run_mfOpen plainHeap pathA (db.insert .fsinfo (⟨2001⟩ : FsinfoData))
      rw [openCode, openedHandle, if_pos hok, if_pos hok, hrecord'] at hrun
      rw [FuseCall.serve, Prog.run_bind, hrun]
      rfl
  have hmount : KeepingStep pathA 0 (Sys.closed db) (.mangooInitstore plainHeap 0)
      ⟨db.insert .fsinfo (⟨2001⟩ : FsinfoData), some ⟨1001⟩, fun _ => none⟩ := by
    refine ⟨trivial, ?_, .mangooInitstore rfl (run_dbfsInitstore_stored _ hfsinfo)⟩
    intro dfd hlookup
    cases hlookup.symm.trans hfsinfo
    decide
  exact .cons ⟨trivial, trivial, .mangooClosestore rfl⟩ (.cons hmount (.single hopen))

end Mangoo.Fuse
