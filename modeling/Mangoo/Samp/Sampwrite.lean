import Mangoo.Samp.Sessions

/-!
# One text

A call of `sampwrite` changes no file but its own, and that one only from its offset on, also
when calls to the database fail.
-/

namespace Mangoo.Samp

open Mangoo.Foundation Mangoo.Dbfs Mangoo.Fuse

variable {number : CStr → UInt64} {A A' A'' : FileSystem} {db db' : Db} {s : Sys} {path : CStr}
  {node : FileNode} {place pos : Nat} {byte : UInt8} {ms ms' : DbfsStore} {w : Surroundings}
  {buf : CStr} {fuel : Nat} {offset offset' : Int64} {faulty : Prop}

/-! ## Changes from a place on -/

/-- Only the file at `path` changes, and nothing that it holds in front of `place`. -/
structure ChangesFrom (path : CStr) (place : Nat) (A A' : FileSystem) : Prop where
  others : ∀ other, other ≠ path → A'.node other = A.node other
  before : ∀ pos byte, pos < place → A.Holds path pos byte → A'.Holds path pos byte

theorem ChangesFrom.refl (path : CStr) (place : Nat) (A : FileSystem) :
    ChangesFrom path place A A := ⟨fun _ _ => rfl, fun _ _ _ => id⟩

theorem ChangesFrom.trans (h : ChangesFrom path place A A') (h' : ChangesFrom path place A' A'') :
    ChangesFrom path place A A'' where
  others other hne := (h'.others other hne).trans (h.others other hne)
  before pos byte hlt hheld := h'.before pos byte hlt (h.before pos byte hlt hheld)

theorem changesFrom_set {changed : FileNode}
    (h : ∀ pos byte, pos < place → A.Holds path pos byte → changed.Holds pos byte) :
    ChangesFrom path place A (A.set path (some changed)) where
  others _ hne := FileSystem.set_node_of_ne A _ hne
  before pos byte hlt hheld := ⟨changed, FileSystem.set_node_self _ _ _, h pos byte hlt hheld⟩

theorem changesFrom_new (place : Nat) (attrs : Attrs) (hnode : A.node path = none) :
    ChangesFrom path place A (A.set path (some (.new attrs))) := by
  apply changesFrom_set
  rintro pos byte - ⟨node, hsome, -⟩
  rw [hnode] at hsome
  cases hsome

theorem changesFrom_part (bytes : List UInt8) (hnode : A.node path = some node) :
    ChangesFrom path place A
      (A.set path (some { node with bytes := node.bytes.overlay place bytes })) := by
  apply changesFrom_set
  rintro pos byte hlt ⟨node', hnode', hdata, hbyte, hlength⟩
  cases hnode.symm.trans hnode'
  refine ⟨hdata, ?_, hlength⟩
  change node.bytes.overlay place bytes pos = some byte
  rw [ByteMap.overlay, if_neg (by omega), hbyte]

theorem changesFrom_write {offset : UInt64} {bytes : List UInt8} (hnode : A.node path = some node)
    (hfits : offset.toNat + bytes.length < 2 ^ 64) :
    ChangesFrom path offset.toNat A (A.set path (some (node.write offset.toNat bytes))) := by
  apply changesFrom_set
  rintro pos byte hlt ⟨node', hnode', hheld⟩
  cases hnode.symm.trans hnode'
  exact hheld.write hfits (by omega)

/-- The bytes are put into the file, which is made for them if it is not there. -/
inductive Puts (A : FileSystem) (path : CStr) (place : Nat) (bytes : List UInt8) :
    FileSystem → Prop
  | known {node : FileNode} : A.node path = some node → node.attrs.type = .data →
      Puts A path place bytes (A.set path (some (node.write place bytes)))
  | new {mode : UInt32} {proc : Proc} : A.node path = none → Puts A path place bytes
      (A.set path (some ((FileNode.new (.create .data mode proc)).write place bytes)))

theorem Puts.holds {offset : UInt64} {bytes : List UInt8}
    (h : Puts A path offset.toNat bytes A') (hfits : offset.toNat + bytes.length < 2 ^ 64)
    (hin : offset.toNat ≤ pos ∧ pos < offset.toNat + bytes.length)
    (hbyte : bytes[pos - offset.toNat]? = some byte) : A'.Holds path pos byte := by
  cases h with
  | known _ hdata =>
      exact ⟨_, FileSystem.set_node_self _ _ _, FileNode.holds_write hdata hfits hin hbyte⟩
  | new =>
      exact ⟨_, FileSystem.set_node_self _ _ _, FileNode.holds_write rfl hfits hin hbyte⟩

theorem puts_of_new {bytes : List UInt8} {mode : UInt32} {proc : Proc}
    (hnode : A.node path = none)
    (h : Puts (A.set path (some (.new (.create .data mode proc)))) path place bytes A') :
    Puts A path place bytes A' := by
  have hset : ∀ node, (A.set path (some (.new (.create .data mode proc)))).set path node =
      A.set path node := by
    intro node
    rw [FileSystem.set, FileSystem.set, Function.update_idem, FileSystem.set]
  cases h with
  | @known node hnew hdata =>
      rw [FileSystem.set_node_self] at hnew
      cases hnew
      rw [hset]
      exact .new hnode
  | new hnone =>
      rw [FileSystem.set_node_self] at hnone
      cases hnone

/-! ## One write -/

theorem exec_textWrite {dh dh' : DbfsHandle} {error : Int} {count : UInt64}
    (call : WriteCall) (h : Represents number A s) (hnone : ∀ fi, s.handles fi = none)
    (hnode : A.node path = some node) (hdata : node.attrs.type = .data)
    (hopened : OpenedAt path .stream s.db dh) (hfits : call.Fits)
    (hexec : Prog.Exec faulty (dbfsWrite call.heap dh call.buf call.size call.offset) s.db
      (error, count, dh') db') :
    ∃ A', ChangesFrom path call.offset.toNat A A' ∧
      Represents number A' ⟨db', s.store, s.handles⟩ ∧
      (error ≠ 0 ∧ faulty ∨ error = 0 ∧ Puts A path call.offset.toNat call.buf A') := by
  have hrecord : dh.attrDdd = node.attrs.record (number path) :=
    Option.some.inj (hopened.stored.symm.trans (h.disk.lookup_some hnode))
  have hino : dh.attrDdd.dddIno = number path := by
    rw [hrecord]
    rfl
  rcases exec_dbfsWrite_leaves call h.disk.wf hfits hexec with
    ⟨herror, k, hk, hwrote⟩ | ⟨rfl, hwrote⟩
  · rw [hino] at hwrote
    have hfaulty : faulty := by
      by_contra hnot
      obtain ⟨db₁, -, hrun⟩ := run_dbfsWrite_file dh h.disk.wf hfits
      have hrun' := Prog.exec_iff_run.mp (hexec.weaken hnot)
      rw [hrun] at hrun'
      cases hrun'
      exact herror rfl
    exact ⟨_, changesFrom_part _ hnode, h.set_file hnone hnode rfl
      (h.disk.writeBytes hnode hdata hwrote) (hwrote.frame _ (by simp)), .inl ⟨herror, hfaulty⟩⟩
  · rw [hrecord, hopened.key] at hwrote
    have hdisk := h.disk.write hnode hdata hfits hwrote
    rw [Function.update_eq_self] at hdisk
    exact ⟨_, changesFrom_write hnode hfits, h.set_file hnone hnode (FileNode.type_write _ _)
      hdisk (hwrote.frame _ (by simp) (by simp)), .inr ⟨rfl, .known hnode hdata⟩⟩

/-! ## `sampwrite` -/

def Surroundings.Plentiful (w : Surroundings) : Prop :=
  ∀ round, (w.openHeap round).ok = true ∧ (w.createHeap round).ok = true

/-- The program between two of its calls, with no file open. -/
def between (db : Db) (ms : DbfsStore) : Sys := ⟨db, some ms, fun _ => none⟩

/-- How a call of `sampwrite` ends. -/
inductive Ends (faulty : Prop) (w : Surroundings) (path buf : CStr) (offset : Int64)
    (A : FileSystem) : Int64 → FileSystem → Prop
  | failed {A' : FileSystem} : ChangesFrom path offset.toUInt64.toNat A A' →
      faulty ∨ ¬ w.Plentiful → Ends faulty w path buf offset A offset A'
  | written {offset' : Int64} {A' : FileSystem} :
      ChangesFrom path offset.toUInt64.toNat A A' →
      Puts A path offset.toUInt64.toNat (buf.bytes ++ [0]) A' →
      offset'.toUInt64.toNat = offset.toUInt64.toNat + buf.length →
      Ends faulty w path buf offset A offset' A'

theorem NumbersLeft.numberLeft (h : NumbersLeft db ms) : NumberLeft (between db ms) := by
  obtain ⟨dfd, hlookup, hlt⟩ := h
  intro dsp hdsp
  cases hdsp
  exact ⟨dfd, hlookup, by omega⟩

theorem NumbersLeft.created (h : NumbersLeft db ms) (ddd : DentryData) :
    NumberLeft (between (db.insert (.dentry path) ddd) ⟨ms.lastInode + 1⟩) := by
  obtain ⟨dfd, hlookup, hlt⟩ := h
  have hmax := dfd.dfdLastino.toNat_lt
  have hnext : (ms.lastInode + 1).toNat = ms.lastInode.toNat + 1 := by
    rw [UInt64.toNat_add, UInt64.toNat_one, Nat.mod_eq_of_lt (by omega)]
  intro dsp hdsp
  cases hdsp
  refine ⟨dfd, (Finmap.lookup_insert_of_ne _ (by simp)).trans hlookup, ?_⟩
  rw [hnext]
  exact hlt

theorem represents_of_failed (h : Represents number A (between db ms))
    (hleft : NumberLeft (between db ms)) (hms : ms' = ms ∨ ms' = ⟨ms.lastInode + 1⟩) :
    Represents number A (between db ms') := by
  rcases hms with rfl | rfl
  · exact h
  · exact h.nextStore rfl hleft plainHeap

theorem represents_of_created (mt : MangooTypes) (mode : UInt32) (proc : Proc)
    (h : Represents number A (between db ms)) (hpath : WellFormed path)
    (hleft : NumberLeft (between db ms)) (hnode : A.node path = none) :
    Represents (Function.update number path ms.lastInode)
      (A.set path (some (.new (.create mt mode proc))))
      (between (db.insert (.dentry path) ⟨mt.toUInt32, mode, ms.lastInode, 0, proc.now, proc.now,
        proc.euid, proc.egid⟩) ⟨ms.lastInode + 1⟩) := by
  have hok : plainHeap.ok = true := rfl
  have hcreated := h.create (.create mt mode proc) rfl hnode hpath hleft hok
  rw [Attrs.record_create] at hcreated
  exact hcreated

theorem exec_text {dh dh' : DbfsHandle} {error : Int} {count : UInt64}
    (h : Represents number A (between db ms)) (hnode : A.node path = some node)
    (hdata : node.attrs.type = .data) (hopened : OpenedAt path .stream db dh)
    (hfits : offset.toUInt64.toNat + buf.length + 1 < 2 ^ 64)
    (hexec : Prog.Exec faulty (dbfsWrite w.writeHeap dh (buf.bytes ++ [0])
      (UInt64.ofNat (buf.bytes ++ [0]).length) offset.toUInt64) db (error, count, dh') db') :
    ∃ A', ChangesFrom path offset.toUInt64.toNat A A' ∧ Represents number A' (between db' ms) ∧
      (error ≠ 0 ∧ faulty ∨
        error = 0 ∧ Puts A path offset.toUInt64.toNat (buf.bytes ++ [0]) A') := by
  have hlength : (buf.bytes ++ [0]).length = buf.length + 1 := List.length_append
  refine exec_textWrite ⟨w.writeHeap, buf.bytes ++ [0], offset.toUInt64⟩ h (fun _ => rfl) hnode
    hdata hopened ?_ hexec
  change offset.toUInt64.toNat + (buf.bytes ++ [0]).length < 2 ^ 64
  omega

theorem exec_sampwrite_known (h : Represents number A (between db ms))
    (hnode : A.node path = some node) (hdata : node.attrs.type = .data)
    (hleft : NumberLeft (between db ms))
    (hfits : offset.toUInt64.toNat + buf.length + 1 < 2 ^ 64)
    (hexec : Prog.Exec faulty (sampwrite w path buf fuel ms offset) db (ms', offset') db') :
    ∃ A', Represents number A' (between db' ms') ∧ Ends faulty w path buf offset A offset' A' := by
  have hlookup : db.lookup (.dentry path) = some (node.attrs.record (number path)) :=
    h.disk.lookup_some hnode
  cases fuel with
  | zero => cases hexec
  | succ fuel =>
      simp only [sampwrite, Prog.exec_bind] at hexec
      obtain ⟨⟨error, handle⟩, mid, hopen, hexec⟩ := hexec
      obtain ⟨rfl, ⟨herror, rfl⟩ | ⟨rfl, dh, rfl, hopened⟩⟩ := exec_dbfsOpen hopen
      · simp only [Prog.exec_bind] at hexec
        obtain ⟨⟨code, ms₁⟩, mid, hcreate, hexec⟩ := hexec
        rcases exec_dbfsCreate hcreate with ⟨-, -, hnone, -⟩ | ⟨hcode, rfl, hms⟩
        · cases hlookup.symm.trans hnone
        · rw [if_pos hcode, Prog.exec_pure] at hexec
          obtain ⟨⟨⟩, rfl⟩ := hexec
          refine ⟨A, represents_of_failed h hleft hms, .failed (.refl _ _ _) ?_⟩
          by_contra hnot
          obtain ⟨hsound, hplenty⟩ := not_or.mp hnot
          have hrun := Prog.exec_iff_run.mp (hopen.weaken hsound)
          have hok := (not_not.mp hplenty fuel).1
          rw [dbfsOpen, run_dbfsSopen hok hlookup] at hrun
          cases hrun
      · simp only [Prog.exec_bind] at hexec
        obtain ⟨⟨⟩, mid, henv, ⟨code, count, dh'⟩, last, hwrite, hexec⟩ := hexec
        obtain rfl := (exec_envOpen henv).2
        obtain ⟨A', hchanges, hrep, ⟨hcode, hfaulty⟩ | ⟨rfl, hputs⟩⟩ :=
          exec_text h hnode hdata hopened hfits hwrite
        · rw [if_pos hcode, Prog.exec_pure] at hexec
          obtain ⟨⟨⟩, rfl⟩ := hexec
          exact ⟨A', hrep, .failed hchanges (.inl hfaulty)⟩
        · rw [if_neg (not_not.mpr rfl), Prog.exec_pure] at hexec
          obtain ⟨⟨⟩, rfl⟩ := hexec
          refine ⟨A', hrep, .written hchanges hputs ?_⟩
          rw [UInt64.toUInt64_toInt64, UInt64.toNat_add, UInt64.toNat_ofNat_of_lt'
            (by simp only [UInt64.size]; omega), Nat.mod_eq_of_lt (by omega)]

/-- The path is free or has a file. -/
def Writable (db : Db) (path : CStr) : Prop :=
  ∀ ddd, db.lookup (.dentry path) = some ddd → IsData ddd.dddType

theorem exec_sampwrite (h : Represents number A (between db ms)) (hpath : WellFormed path)
    (hwritable : Writable db path) (hleft : NumbersLeft db ms)
    (hfits : offset.toUInt64.toNat + buf.length + 1 < 2 ^ 64)
    (hexec : Prog.Exec faulty (sampwrite w path buf fuel ms offset) db (ms', offset') db') :
    ∃ A' number', Represents number' A' (between db' ms') ∧
      Ends faulty w path buf offset A offset' A' := by
  cases hnode : A.node path with
  | some node =>
      have hdata := isData_record.mp (hwritable _ (h.disk.lookup_some hnode))
      obtain ⟨A', hrep, hends⟩ := exec_sampwrite_known h hnode hdata hleft.numberLeft hfits hexec
      exact ⟨A', number, hrep, hends⟩
  | none =>
      have hlookup : db.lookup (.dentry path) = none := h.disk.lookup_none hnode
      cases fuel with
      | zero => cases hexec
      | succ fuel =>
          simp only [sampwrite, Prog.exec_bind] at hexec
          obtain ⟨⟨error, handle⟩, mid, hopen, hexec⟩ := hexec
          obtain ⟨rfl, ⟨herror, rfl⟩ | ⟨rfl, dh, rfl, hopened⟩⟩ := exec_dbfsOpen hopen
          · simp only [Prog.exec_bind] at hexec
            obtain ⟨⟨code, ms₁⟩, mid, hcreate, hexec⟩ := hexec
            rcases exec_dbfsCreate hcreate with ⟨rfl, rfl, -, rfl⟩ | ⟨hcode, rfl, hms⟩
            · rw [if_neg (not_not.mpr rfl)] at hexec
              have hcreated :=
                represents_of_created .data 0x81B6 w.proc h hpath hleft.numberLeft hnode
              obtain ⟨A', hrep, hends⟩ := exec_sampwrite_known hcreated
                (FileSystem.set_node_self _ _ _) rfl (hleft.created _) hfits hexec
              refine ⟨A', _, hrep, ?_⟩
              have hnew := changesFrom_new offset.toUInt64.toNat
                (.create .data 0x81B6 w.proc) hnode
              cases hends with
              | failed hchanges hreason => exact .failed (hnew.trans hchanges) hreason
              | written hchanges hputs hoffset =>
                  exact .written (hnew.trans hchanges) (puts_of_new hnode hputs) hoffset
            · rw [if_pos hcode, Prog.exec_pure] at hexec
              obtain ⟨⟨⟩, rfl⟩ := hexec
              refine ⟨A, number, represents_of_failed h hleft.numberLeft hms,
                .failed (.refl _ _ _) ?_⟩
              by_contra hnot
              obtain ⟨hsound, hplenty⟩ := not_or.mp hnot
              have hrun := Prog.exec_iff_run.mp (hcreate.weaken hsound)
              have hok := (not_not.mp hplenty fuel).2
              rw [run_dbfsCreate_code, newCode, hok, hlookup] at hrun
              simp only [Option.some.injEq, Prod.mk.injEq] at hrun
              exact hcode hrun.1.1.symm
          · cases hopened.stored.symm.trans hlookup

theorem run_sampwrite_free (fuel : Nat) (path buf : CStr) (ms : DbfsStore) (offset : Int64)
    (hplenty : w.Plentiful) (henv : w.writeHeap.envOpens = true) (hwf : BlocksWF db)
    (hlookup : db.lookup (.dentry path) = none)
    (hfits : offset.toUInt64.toNat + buf.length + 1 < 2 ^ 64) :
    ∃ db', BlocksWF db' ∧ db'.lookup .fsinfo = db.lookup .fsinfo ∧
      (∀ other, other ≠ path → db'.lookup (.dentry other) = db.lookup (.dentry other)) ∧
      (sampwrite w path buf (fuel + 2) ms offset).run db =
        some ((⟨ms.lastInode + 1⟩,
          (offset.toUInt64 + UInt64.ofNat buf.length).toInt64), db') := by
  let record := (Attrs.create .data 0x81B6 w.proc).record ms.lastInode
  have hcode : newCode (w.createHeap (fuel + 1)) path db = 0 :=
    newCode_eq_zero_iff.mpr ⟨(hplenty _).2, hlookup⟩
  have hopen : (dbfsOpen (w.openHeap (fuel + 1)) path .stream).run db =
      some ((enoent, none), db) := by
    simp [dbfsOpen, dbfsSopen, dbfsCreatehandle, (hplenty _).1, initHandle,
      run_dbfsReadAttr_of_none _ hlookup, enoent]
  have hcreate : (dbfsCreate (w.createHeap (fuel + 1)) w.proc ms path 0x81B6 .data).run db =
      some ((0, ⟨ms.lastInode + 1⟩), db.insert (.dentry path) record) := by
    rw [run_dbfsCreate_code, hcode, createEntry_of_code _ hcode, nextStore, if_pos (hplenty _).2]
    rfl
  have hlength : (buf.bytes ++ [0]).length = buf.length + 1 := List.length_append
  have hcall : (⟨w.writeHeap, buf.bytes ++ [0], offset.toUInt64⟩ : WriteCall).Fits := by
    change offset.toUInt64.toNat + (buf.bytes ++ [0]).length < 2 ^ 64
    omega
  obtain ⟨db', hwrote, hwrite⟩ := run_dbfsWrite_file (initHandle path record)
    (hwf.insert_dentry path record) hcall
  have hsecond : (sampwrite w path buf (fuel + 1) ⟨ms.lastInode + 1⟩ offset).run
      (db.insert (.dentry path) record) = some ((⟨ms.lastInode + 1⟩,
        (offset.toUInt64 + UInt64.ofNat buf.length).toInt64), db') := by
    have hopen' := run_dbfsSopen (hplenty fuel).1
      (Finmap.lookup_insert db (a := Key.dentry path) (b := record))
    simp only [sampwrite, Prog.run_bind, dbfsOpen, hopen', envOpen_of_opens henv, Prog.run_pure,
      Option.bind_some]
    change ((dbfsWrite w.writeHeap (initHandle path record) (buf.bytes ++ [0])
      (UInt64.ofNat (buf.bytes ++ [0]).length) offset.toUInt64).run _).bind _ = _
    change (dbfsWrite w.writeHeap (initHandle path record) (buf.bytes ++ [0])
      (UInt64.ofNat (buf.bytes ++ [0]).length) offset.toUInt64).run _ = _ at hwrite
    rw [hwrite]
    rfl
  refine ⟨db', hwrote.wf, ?_, ?_, ?_⟩
  · rw [hwrote.frame _ (by simp) (by simp), Finmap.lookup_insert_of_ne _ (by simp)]
  · intro other hne
    have hkey : Key.dentry other ≠ .dentry path := by simpa using hne
    rw [hwrote.frame _ (by simp) hkey, Finmap.lookup_insert_of_ne _ hkey]
  · rw [sampwrite]
    simp only [Prog.run_bind, hopen, hcreate, Option.bind_some, ne_eq, not_true_eq_false, if_false]
    exact hsecond

end Mangoo.Samp
