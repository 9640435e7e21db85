import Mangoo.Samp.Sampwrite

/-!
# Texts that are saved

Whatever later sessions do, a text stays where it is when the session that wrote it has ended
with `exit`.
-/

namespace Mangoo.Samp

open Mangoo.Foundation Mangoo.Dbfs Mangoo.Fuse

variable {number : CStr → UInt64} {A A' : FileSystem} {db db' : Db} {path : CStr}
  {place n : Nat} {session session' : Session} {command : Command}
  {s s' : SampSys}

/-! ## Commands -/

def Command.Looks : Command → Prop
  | .write _ _ _ | .mkdir _ _ _ => False
  | .read _ _ _ _ | .getattr _ _ _ _ | .help => True

theorem changes_sampread {K : Key → Prop} (openHeap readHeap : Heap) (buffer : Buffer)
    (path : CStr) : (sampread openHeap readHeap buffer path).Changes K := by
  apply (changes_dbfsOpen openHeap path .stream).bind
  rintro ⟨error, handle⟩
  cases handle with
  | none => exact Prog.changes_pure _
  | some dh =>
      apply (changes_envOpen readHeap).bind
      intro _
      apply ((reads_dbfsRead readHeap dh buffer.bytes _ 0).changes K).bind
      rintro ⟨error, size, buffer⟩
      dsimp only
      split_ifs
      · exact Prog.changes_pure _
      · exact Prog.changes_pure _

theorem Command.Looks.changes (h : command.Looks) (session : Session) :
    (command.prog session).Changes fun _ => False := by
  cases command with
  | write | mkdir => exact h.elim
  | read openHeap readHeap buffer path =>
      exact (changes_sampread _ _ _ _).bind fun _ => Prog.changes_pure _
  | getattr heap fuel path stbuf =>
      exact (changes_mfGetattr _ _ _ _).bind fun _ => Prog.changes_pure _
  | help => exact Prog.changes_pure _

theorem Command.Looks.exec {faulty : Prop} (h : command.Looks)
    (hexec : Prog.Exec faulty (command.prog session) db session' db') :
    session' = session ∧ db' = db := by
  refine ⟨?_, hexec.unchanged (h.changes session)⟩
  cases command with
  | write | mkdir => exact h.elim
  | read | getattr =>
      simp only [Command.prog, Prog.exec_bind, Prog.exec_pure] at hexec
      obtain ⟨_, _, -, hsession, -⟩ := hexec
      exact hsession
  | help =>
      simp only [Command.prog, Prog.exec_pure] at hexec
      exact hexec.1

theorem fits_of_lt {n : Nat} (h : n < 10 ^ 9) : n + 1 < 2 ^ 64 := by omega

theorem exec_makedir {faulty : Prop} {heap : Heap} {proc : Proc} {mode : UInt32} {error : Int}
    {ms ms' : DbfsStore} (h : Represents number A (between db ms)) (hpath : WellFormed path)
    (hleft : NumbersLeft db ms)
    (hexec : Prog.Exec faulty (dbfsCreate heap proc ms path mode .container) db (error, ms') db') :
    ∃ A' number', ChangesFrom path place A A' ∧ Represents number' A' (between db' ms') := by
  rcases exec_dbfsCreate hexec with ⟨-, rfl, hnone, rfl⟩ | ⟨-, rfl, hms⟩
  · have hnode : A.node path = none :=
      Option.map_eq_none_iff.mp ((h.disk.record path).symm.trans hnone)
    exact ⟨_, _, changesFrom_new place (.create .container mode proc) hnode,
      represents_of_created .container mode proc h hpath hleft.numberLeft hnode⟩
  · exact ⟨A, number, .refl _ _ _, represents_of_failed h hleft.numberLeft hms⟩

/-- A text that the offset counts is in its file. -/
def Command.Written (session session' : Session) (A' : FileSystem) : Command → Prop
  | .write _ path buf => session'.place = session.place + buf.text.length →
      ∀ i byte, buf.text.bytes[i]? = some byte → A'.Holds path.text (session.place + i) byte
  | _ => True

theorem exec_command (h : Represents number A (between db session.ms))
    (hplace : session.place < 10 ^ 9) (hcommand : command.Disciplined db session)
    (hexec : Prog.Exec True (command.prog session) db session' db') :
    ∃ A' number' path, path ≠ newoffset ∧ ChangesFrom path session.place A A' ∧
      Represents number' A' (between db' session'.ms) ∧ command.Written session session' A' ∧
      session.place ≤ session'.place ∧ session'.place < 10 ^ 9 := by
  have hlooks : command.Looks → session' = session ∧ db' = db := fun hlooks => hlooks.exec hexec
  have hroot : rootPath ≠ newoffset := by decide
  cases command with
  | write w path buf =>
      obtain ⟨hpath, hne, hleft, hwritable, hbehind⟩ := hcommand
      simp only [Command.prog, Prog.exec_bind, Prog.exec_pure] at hexec
      obtain ⟨⟨ms, offset⟩, mid, hexec, rfl, rfl⟩ := hexec
      obtain ⟨A', number', hrep, hends⟩ :=
        exec_sampwrite h hpath hwritable hleft (fits_of_lt hbehind) hexec
      refine ⟨A', number', path.text, hne, ?_⟩
      cases hends with
      | failed hchanges =>
          refine ⟨hchanges, hrep, fun hcounted i byte hbyte => ?_, le_refl _, hplace⟩
          change session.place = session.place + buf.text.bytes.length at hcounted
          have hi := (List.getElem?_eq_some_iff.mp hbyte).1
          omega
      | written hchanges hputs hoffset =>
          change offset.toUInt64.toNat = session.place + buf.text.length at hoffset
          have hfits := fits_of_lt hbehind
          refine ⟨hchanges, hrep, fun _ i byte hbyte => ?_, ?_⟩
          · have hi := (List.getElem?_eq_some_iff.mp hbyte).1
            have hlength : (buf.text.bytes ++ [0]).length = buf.text.length + 1 :=
              List.length_append
            apply hputs.holds
            · rw [hlength]
              exact hfits
            · rw [hlength, CStr.length]
              change session.place ≤ _ ∧ _ < session.place + _
              omega
            · change (buf.text.bytes ++ [0])[session.place + i - session.place]? = some byte
              rw [Nat.add_sub_cancel_left, List.getElem?_append_left hi, hbyte]
          · change session.place ≤ offset.toUInt64.toNat ∧ offset.toUInt64.toNat < 10 ^ 9
            omega
  | mkdir heap proc path =>
      obtain ⟨hpath, hne, hleft⟩ := hcommand
      simp only [Command.prog, Prog.exec_bind, Prog.exec_pure] at hexec
      obtain ⟨⟨error, ms⟩, mid, hexec, rfl, rfl⟩ := hexec
      obtain ⟨A', number', hchanges, hrep⟩ := exec_makedir h hpath hleft hexec
      exact ⟨A', number', path.text, hne, hchanges, hrep, trivial, le_refl _, hplace⟩
  | read | getattr | help =>
      obtain ⟨rfl, rfl⟩ := hlooks trivial
      exact ⟨A, number, rootPath, hroot, .refl _ _ _, h, trivial, le_refl _, hplace⟩

/-! ## The saved offset -/

/-- The offset in `"/.newoffset"`, zero when there is no such file. -/
inductive Saved (A : FileSystem) : Nat → Prop
  | nothing : A.node newoffset = none → Saved A 0
  | number {n : Nat} {node : FileNode} : A.node newoffset = some node →
      node.attrs.type = .data → node.attrs.length ≤ 30 →
      (∀ i byte, (printNat n ++ [0])[i]? = some byte → node.Holds i byte) → Saved A n

theorem Saved.of_node (h : Saved A n) (hnode : A'.node newoffset = A.node newoffset) :
    Saved A' n := by
  cases h with
  | nothing hnone => exact .nothing (hnode.trans hnone)
  | number hsome hdata hlength hbytes => exact .number (hnode.trans hsome) hdata hlength hbytes

theorem Saved.writable (h : Saved A n) (hdisk : OnDisk number A db) : Writable db newoffset := by
  intro ddd hlookup
  obtain ⟨node, hnode, rfl⟩ := hdisk.node_of_lookup hlookup
  cases h with
  | nothing hnone => cases hnode.symm.trans hnone
  | number hsome hdata =>
      cases hnode.symm.trans hsome
      exact isData_record.mpr hdata

theorem prefix_readBytes {node : FileNode} {bytes : List UInt8} (h : OnDisk number A db)
    (hnode : A.node path = some node) (hdata : node.attrs.type = .data)
    (hbytes : ∀ i byte, bytes[i]? = some byte → node.Holds i byte) :
    bytes <+: readBytes db (number path) 0 node.attrs.length := by
  rw [List.prefix_iff_getElem?]
  intro i hi
  obtain ⟨-, hbyte, hlt⟩ := hbytes i _ (List.getElem?_eq_getElem hi)
  rw [getElem?_readBytes hlt, Nat.zero_add, h.bytes path node hnode hdata _ _ hbyte]
  rfl

theorem run_read_whole {node : FileNode} {byte : UInt8} {buffer : List UInt8} (heap : Heap)
    (h : OnDisk number A db) (hnode : A.node path = some node) (hdata : node.attrs.type = .data)
    (hbyte : node.Holds 0 byte) (hroom : node.attrs.length ≤ buffer.length)
    (hlength : node.attrs.length ≤ 4096) :
    (dbfsRead heap (initHandle path (node.attrs.record (number path))) buffer
      node.attrs.size.toUInt64 0).run db =
      some ((0, node.attrs.size.toUInt64, readBytes db (number path) 0 node.attrs.length ++
        buffer.drop node.attrs.length), db) := by
  obtain ⟨-, hfirst, hpos⟩ := hbyte
  have hstored : (content db (number path) 0).isSome := by
    rw [h.bytes path node hnode hdata 0 byte hfirst]
    rfl
  rw [content_isSome_iff h.wf (by decide)] at hstored
  have hbase : blockBase (0 + node.attrs.length - 1) = blockBase 0 := by
    rw [blockBase, Nat.mod_eq_of_lt (by omega), Nat.sub_self]
    rfl
  have hcode : blockCode db (number path) (0 + node.attrs.length - 1) = 0 := by
    rw [blockCode, hbase, if_pos hstored]
  have hinside : (0 : UInt64).toNat + node.attrs.size.toUInt64.toNat ≤
      (initHandle path (node.attrs.record (number path))).attrDdd.dddSize.toNat :=
    (Nat.zero_add _).le
  have hrun := run_dbfsRead heap h.wf hinside hroom
  change _ = some ((if _ then 0 else blockCode db (number path) (0 + node.attrs.length - 1), _, _),
    db) at hrun
  rw [hcode, ite_self] at hrun
  exact hrun

theorem run_getdata {openHeap readHeap : Heap} (buffer : Buffer) (h : OnDisk number A db)
    (hsaved : Saved A n) (hok : openHeap.ok = true) (henv : readHeap.envOpens = true) :
    (getdata openHeap readHeap buffer newoffset).run db = some (Int64.ofInt n, db) := by
  cases hsaved with
  | nothing hnone =>
      have hlookup := h.lookup_none hnone
      simp [getdata, dbfsOpen, dbfsSopen, dbfsCreatehandle, hok, initHandle,
        run_dbfsReadAttr_of_none _ hlookup, enoent]
  | @number _ node hnode hdata hlength hbytes =>
      have hlookup := h.lookup_some hnode
      obtain ⟨byte, hbyte⟩ : ∃ byte, node.Holds 0 byte := by
        have hpos : 0 < (printNat n ++ [0]).length := by simp
        exact ⟨_, hbytes 0 _ (List.getElem?_eq_getElem hpos)⟩
      have hroom : node.attrs.length ≤ buffer.bytes.length := by rwa [buffer.length_eq]
      have hread := run_read_whole readHeap h hnode hdata hbyte hroom (by omega)
      obtain ⟨rest, hrest⟩ := prefix_readBytes h hnode hdata hbytes
      have hatoi : atoi (readBytes db (number newoffset) 0 node.attrs.length ++
          buffer.bytes.drop node.attrs.length) = n := by
        rw [← hrest, ← printInt_of_nonneg, List.append_assoc, List.append_assoc]
        exact atoi_printInt n fun byte hmem => by
          cases hmem
          rfl
      simp only [getdata, dbfsOpen, Prog.run_bind, run_dbfsSopen hok hlookup,
        envOpen_of_opens henv, Prog.run_pure, Option.bind_some]
      change ((dbfsRead _ _ _ node.attrs.size.toUInt64 0).run db).bind _ = _
      rw [hread, Option.bind_some]
      simp only [ne_eq, not_true_eq_false, if_false, Prog.run_pure, hatoi]

theorem Saved.put {next : Nat} (h : Saved A n)
    (hputs : Puts A newoffset 0 (printNat next ++ [0]) A')
    (hdigits : (printNat next ++ [0]).length ≤ 30) : Saved A' next := by
  have hwritten : ∀ node : FileNode, node.attrs.type = .data → node.attrs.length ≤ 30 →
      A'.node newoffset = some (node.write 0 (printNat next ++ [0])) → Saved A' next := by
    intro node hdata hlength hnode
    refine .number hnode ((FileNode.type_write _ _).trans hdata) ?_ ?_
    · change (node.attrs.grow _).length ≤ 30
      rw [Attrs.length_grow _ (by omega)]
      omega
    · intro i byte hbyte
      have hi := (List.getElem?_eq_some_iff.mp hbyte).1
      have hzero : (0 : UInt64).toNat = 0 := rfl
      exact @FileNode.holds_write node i byte 0 _ hdata (by omega) (by omega) hbyte
  cases hputs with
  | @known node hnode hdata =>
      cases h with
      | nothing hnone => cases hnode.symm.trans hnone
      | number hsome _ hlength =>
          cases hnode.symm.trans hsome
          exact hwritten node hdata hlength (FileSystem.set_node_self _ _ _)
  | new => exact hwritten _ rfl (Nat.zero_le _) (FileSystem.set_node_self _ _ _)

/-! ## Steps -/

/-- The offset of every session is at the saved one or behind it. -/
structure SampInv (n : Nat) (A : FileSystem) (s : SampSys) : Prop where
  represented : ∃ number, Represents number A ⟨s.db, s.session.map Session.ms, fun _ => none⟩
  saved : Saved A n
  nine_digits : n < 10 ^ 9
  ahead : ∀ session, s.session = some session → n ≤ session.place ∧ session.place < 10 ^ 9

/-- All files but the one with the saved offset keep what they hold in front of `place`. -/
def KeepsTexts (place : Nat) (A A' : FileSystem) : Prop :=
  ∀ path pos byte, path ≠ newoffset → pos < place → A.Holds path pos byte → A'.Holds path pos byte

theorem ChangesFrom.keepsTexts (h : ChangesFrom path place A A') (hle : n ≤ place) :
    KeepsTexts n A A' := by
  intro other pos byte _ hlt hheld
  by_cases hother : other = path
  · subst hother
    exact h.before pos byte (by omega) hheld
  · obtain ⟨node, hnode, hholds⟩ := hheld
    exact ⟨node, (h.others other hother).trans hnode, hholds⟩

theorem SampInv.represented_of (h : SampInv n A s) (hsession : s.session = some session) :
    ∃ number, Represents number A (between s.db session.ms) := by
  obtain ⟨number, hrep⟩ := h.represented
  rw [hsession] at hrep
  exact ⟨number, hrep⟩

theorem sampInv_closed (hrep : Represents number A.closed (Sys.closed db)) (hsaved : Saved A n)
    (hn : n < 10 ^ 9) : SampInv n A.closed ⟨db, none⟩ :=
  ⟨⟨number, hrep⟩, hsaved.of_node rfl, hn, fun _ hnone => by cases hnone⟩

theorem SampInv.of_command (h : SampInv n A s)
    (hstep : DisciplinedSampStep s (.command command) s') :
    ∃ session session' A', s.session = some session ∧ s'.session = some session' ∧
      SampInv n A' s' ∧ KeepsTexts session.place A A' ∧ session.place ≤ session'.place ∧
      command.Written session session' A' := by
  obtain ⟨hevent, hstep⟩ := hstep
  cases hstep with
  | @command session _ session' db' hsession hexec =>
      obtain ⟨number, hrep⟩ := h.represented_of hsession
      obtain ⟨hle, hlt⟩ := h.ahead session hsession
      obtain ⟨A', number', path, hne, hchanges, hrep', hwritten, hplace, hplace'⟩ :=
        exec_command hrep hlt (hevent session hsession) hexec
      refine ⟨session, session', A', hsession, rfl,
        ⟨⟨number', hrep'⟩, h.saved.of_node (hchanges.others _ hne.symm), h.nine_digits, ?_⟩,
        hchanges.keepsTexts (le_refl _), hplace, hwritten⟩
      intro session₁ hsession₁
      cases hsession₁
      omega

theorem SampInv.of_exit {w : Surroundings} (h : SampInv n A s)
    (hstep : DisciplinedSampStep s (.exit w) s') :
    ∃ session A', s.session = some session ∧ SampInv session.place A' s' ∧
      KeepsTexts session.place A A' := by
  obtain ⟨hevent, hstep⟩ := hstep
  cases hstep with
  | @exit session _ result db' hsession hrun =>
      obtain ⟨number, hrep⟩ := h.represented_of hsession
      obtain ⟨hle, hlt⟩ := h.ahead session hsession
      obtain ⟨hplenty, hleft⟩ := hevent
      have htext : (newoff session).bytes = printNat session.place := by
        change printInt session.offset.toInt = _
        rw [toInt_of_place (by change session.place < 2 ^ 63; omega)]
        exact printInt_of_nonneg _
      have hdigits : (newoff session).length ≤ 9 := by
        rw [CStr.length, htext]
        exact length_printNat_le (by decide) hlt
      have hplace : (0 : Int64).toUInt64.toNat = 0 := rfl
      obtain ⟨ms', off2⟩ := result
      have hexec := Prog.exec_iff_run.mpr hrun
      obtain ⟨A', number', hrep', hends⟩ := exec_sampwrite hrep (by decide)
        (h.saved.writable hrep.disk) (hleft session hsession) (by omega) hexec
      refine ⟨session, A'.closed, hsession, ?_⟩
      cases hends with
      | failed _ hreason => exact absurd hplenty (hreason.resolve_left not_false)
      | written hchanges hputs =>
          rw [htext, hplace] at hputs
          refine ⟨sampInv_closed hrep'.closed (h.saved.put hputs ?_) hlt, ?_⟩
          · rw [List.length_append, ← htext]
            change (newoff session).length + 1 ≤ 30
            omega
          · intro other pos byte hne hpos hheld
            obtain ⟨node, hnode, hholds⟩ := hheld
            exact ⟨node, (hchanges.others other hne).trans hnode, hholds⟩

theorem SampInv.of_start {initHeap openHeap readHeap : Heap} {buffer : Buffer}
    (h : SampInv n A s)
    (hstep : DisciplinedSampStep s (.start initHeap openHeap readHeap buffer) s') :
    ∃ session, s'.session = some session ∧ session.place = n ∧ SampInv n A s' := by
  obtain ⟨⟨hok, henv, hroom⟩, hstep⟩ := hstep
  cases hstep with
  | @start _ _ _ _ ms offset mid db' hnone hinit hget =>
      obtain ⟨number, hrep⟩ := h.represented
      rw [hnone] at hrep
      obtain ⟨-, hrep'⟩ := hrep.mount rfl hroom hinit
      have hrun := run_getdata buffer hrep'.disk h.saved hok henv
      cases hrun.symm.trans hget
      have hdigits := h.nine_digits
      have hplace : (⟨ms, Int64.ofInt n⟩ : Session).place = n := place_ofInt (by omega)
      refine ⟨_, rfl, hplace, ⟨⟨number, hrep'⟩, h.saved, hdigits, ?_⟩⟩
      intro session hsession
      cases hsession
      exact ⟨hplace.ge, hplace.trans_lt hdigits⟩

theorem SampInv.start_step {initHeap openHeap readHeap : Heap} {buffer : Buffer}
    {dfd : FsinfoData} (h : SampInv n A s) (hnone : s.session = none)
    (hevent : (SampEvent.start initHeap openHeap readHeap buffer).Disciplined s)
    (hinitHeap : initHeap.ok = true) (hfsinfo : s.db.lookup .fsinfo = some dfd) :
    DisciplinedSampStep s (.start initHeap openHeap readHeap buffer)
      ⟨s.db.insert .fsinfo (⟨dfd.dfdLastino + 1000⟩ : FsinfoData),
        some ⟨⟨dfd.dfdLastino⟩, Int64.ofInt n⟩⟩ := by
  refine ⟨hevent, ?_⟩
  obtain ⟨hok, henv, hroom⟩ := hevent
  obtain ⟨number, hrep⟩ := h.represented
  rw [hnone] at hrep
  have hinit := run_dbfsInitstore_stored initHeap hfsinfo
  rw [hinitHeap] at hinit
  obtain ⟨-, hrep'⟩ := hrep.mount rfl hroom hinit
  exact .start hnone hinit (run_getdata buffer hrep'.disk h.saved hok henv)

/-- No step changes what is in front of the saved offset. -/
theorem SampInv.step {event : SampEvent} (h : SampInv n A s)
    (hstep : DisciplinedSampStep s event s') :
    ∃ n' A', SampInv n' A' s' ∧ KeepsTexts n A A' ∧ n ≤ n' := by
  have hsame : KeepsTexts n A A := fun _ _ _ _ _ => id
  have hstep' := hstep
  obtain ⟨hevent, hstep⟩ := hstep
  cases hstep with
  | start hnone hinit hget =>
      obtain ⟨-, -, -, hinv⟩ := h.of_start hstep'
      exact ⟨n, A, hinv, hsame, le_refl _⟩
  | command hsession hexec =>
      obtain ⟨session, session', A', hsession, -, hinv, hkeeps, -⟩ := h.of_command hstep'
      have hle := (h.ahead session hsession).1
      exact ⟨n, A', hinv, fun path pos byte hne hlt => hkeeps path pos byte hne (by omega),
        le_refl _⟩
  | exit hsession hrun =>
      obtain ⟨session, A', hsession, hinv, hkeeps⟩ := h.of_exit hstep'
      have hle := (h.ahead session hsession).1
      exact ⟨session.place, A', hinv,
        fun path pos byte hne hlt => hkeeps path pos byte hne (by omega), hle⟩

/-! ## Runs -/

theorem KeepsTexts.trans {A'' : FileSystem} {n' : Nat} (h : KeepsTexts n A A')
    (h' : KeepsTexts n' A' A'') (hle : n ≤ n') : KeepsTexts n A A'' :=
  fun path pos byte hne hlt hheld =>
    h' path pos byte hne (hlt.trans_le hle) (h path pos byte hne hlt hheld)

theorem SampInv.run {events : List SampEvent} (h : SampInv n A s)
    (hrun : Run DisciplinedSampStep s events s') :
    ∃ n' A', SampInv n' A' s' ∧ KeepsTexts n A A' ∧ n ≤ n' := by
  apply hrun.invariant (I := fun s' => ∃ n' A', SampInv n' A' s' ∧ KeepsTexts n A A' ∧ n ≤ n')
  · exact ⟨n, A, h, fun _ _ _ _ _ => id, le_refl _⟩
  · rintro s event s' ⟨n₁, A₁, hinv, hkeeps, hle⟩ hstep
    obtain ⟨n₂, A₂, hinv', hkeeps', hle'⟩ := hinv.step hstep
    exact ⟨n₂, A₂, hinv', hkeeps.trans hkeeps' hle, hle.trans hle'⟩

theorem sampInv_mkdbfsDb (proc : Proc) : SampInv 0 (FileSystem.new proc) ⟨mkdbfsDb proc, none⟩ :=
  ⟨⟨_, represents_mkdbfsDb proc⟩, .nothing rfl, by decide, fun _ hnone => by cases hnone⟩

theorem sampInv_of_run {proc : Proc} {events : List SampEvent}
    (h : Run DisciplinedSampStep ⟨mkdbfsDb proc, none⟩ events s) : ∃ n A, SampInv n A s := by
  obtain ⟨n, A, hinv, -⟩ := (sampInv_mkdbfsDb proc).run h
  exact ⟨n, A, hinv⟩

/-- A step inside one session. -/
def CommandStep (s : SampSys) (command : Command) (s' : SampSys) : Prop :=
  DisciplinedSampStep s (.command command) s'

theorem SampInv.stored {pos : Nat} {byte : UInt8} (h : SampInv n A s)
    (hheld : A.Holds path pos byte) : ∃ ddd : DentryData, s.db.lookup (.dentry path) = some ddd ∧
      pos < ddd.dddSize.toNat ∧ content s.db ddd.dddIno pos = some byte := by
  obtain ⟨number, hrep⟩ := h.represented
  obtain ⟨node, hnode, hdata, hbyte, hlt⟩ := hheld
  exact ⟨_, hrep.disk.lookup_some hnode, hlt, hrep.disk.bytes path node hnode hdata pos byte hbyte⟩

theorem SampInv.run_commands {commands : List Command} (h : SampInv n A s)
    (hsession : s.session = some session) (hrun : Run CommandStep s commands s') :
    ∃ session' A', s'.session = some session' ∧ SampInv n A' s' ∧
      KeepsTexts session.place A A' ∧ session.place ≤ session'.place := by
  apply hrun.invariant (I := fun s' => ∃ session' A', s'.session = some session' ∧
    SampInv n A' s' ∧ KeepsTexts session.place A A' ∧ session.place ≤ session'.place)
  · exact ⟨session, A, hsession, h, fun _ _ _ _ _ => id, le_refl _⟩
  · rintro s command s' ⟨session₁, A₁, hsession₁, hinv, hkeeps, hle⟩ hstep
    obtain ⟨session₂, session', A', hsession₂, hsession', hinv', hkeeps', hle', -⟩ :=
      hinv.of_command hstep
    cases hsession₁.symm.trans hsession₂
    exact ⟨session', A', hsession', hinv', hkeeps.trans hkeeps' hle, hle.trans hle'⟩

/-! ## Two sessions -/

def plainSurroundings : Surroundings :=
  ⟨fun _ => plainHeap, fun _ => plainHeap, plainHeap, plainProc, 2⟩

def plainStart : SampEvent := .start plainHeap plainHeap plainHeap ⟨List.replicate 30 0, rfl⟩

def tokenA : Token := ⟨pathA, by decide⟩

def tokenB : Token := ⟨pathB, by decide⟩

def tokenHi : Token := ⟨⟨[104, 105], by decide⟩, by decide⟩

theorem disciplined_plainStart {dfd : FsinfoData} (hfsinfo : s.db.lookup .fsinfo = some dfd)
    (hroom : dfd.dfdLastino.toNat + 1000 < 2 ^ 64) : plainStart.Disciplined s := by
  refine ⟨rfl, rfl, fun dfd' hlookup => ?_⟩
  cases hfsinfo.symm.trans hlookup
  exact hroom

/-- The new store when a session has opened it. -/
def openedDb : Db := (mkdbfsDb plainProc).insert .fsinfo (⟨1001⟩ : FsinfoData)

theorem fsinfo_openedDb : openedDb.lookup .fsinfo = some (⟨1001⟩ : FsinfoData) :=
  Finmap.lookup_insert _

theorem lookup_openedDb (path : CStr) (hpath : path ≠ rootPath) :
    openedDb.lookup (.dentry path) = none := by
  rw [openedDb, Finmap.lookup_insert_of_ne _ (by simp)]
  by_contra hsome
  obtain ⟨ddd, hddd⟩ := Option.ne_none_iff_exists'.mp hsome
  exact hpath (lookup_mkdbfsDb hddd).1

theorem start_openedDb : DisciplinedSampStep ⟨mkdbfsDb plainProc, none⟩ plainStart
    ⟨openedDb, some ⟨⟨1⟩, Int64.ofInt 0⟩⟩ := by
  have hstored : (mkdbfsDb plainProc).lookup .fsinfo = some (⟨1⟩ : FsinfoData) :=
    Finmap.lookup_insert _
  have hstart := (sampInv_mkdbfsDb plainProc).start_step rfl
    (disciplined_plainStart hstored (by decide)) rfl hstored
  have hnext : (⟨1⟩ : FsinfoData).dfdLastino + 1000 = 1001 := by decide
  rw [hnext] at hstart
  exact hstart

theorem run_write_free {session : Session} {dfd : FsinfoData} (path buf : Token)
    (hrep : Represents number A (between db session.ms)) (hpath : WellFormed path.text)
    (hne : path.text ≠ newoffset) (hfree : db.lookup (.dentry path.text) = none)
    (hfsinfo : db.lookup .fsinfo = some dfd)
    (hleft : session.ms.lastInode.toNat + 1 < dfd.dfdLastino.toNat)
    (hplace : session.place + buf.text.length < 10 ^ 9) :
    ∃ db', CommandStep ⟨db, some session⟩ (.write plainSurroundings path buf) ⟨db', some
        ⟨⟨session.ms.lastInode + 1⟩,
          (session.offset.toUInt64 + UInt64.ofNat buf.text.length).toInt64⟩⟩ ∧
      BlocksWF db' ∧ db'.lookup .fsinfo = db.lookup .fsinfo ∧
      ∀ other, other ≠ path.text → db'.lookup (.dentry other) = db.lookup (.dentry other) := by
  have hplenty : plainSurroundings.Plentiful := fun _ => ⟨rfl, rfl⟩
  obtain ⟨db', hwf, hsame, hothers, hrun⟩ := run_sampwrite_free 0 path.text buf.text session.ms
    session.offset hplenty rfl hrep.disk.wf hfree (fits_of_lt hplace)
  refine ⟨db', ⟨fun session₁ hsession => ?_, .command rfl ?_⟩, hwf, hsame, hothers⟩
  · cases hsession
    refine ⟨hpath, hne, ⟨dfd, hfsinfo, hleft⟩, fun ddd hlookup => ?_, hplace⟩
    cases hfree.symm.trans hlookup
  · simp only [Command.prog, Prog.exec_bind, Prog.exec_pure]
    exact ⟨_, db', Prog.exec_of_run hrun, rfl, rfl⟩

theorem run_first_session : ∃ s₁ s₂ s₃ session₁ session₂,
    DisciplinedSampStep ⟨mkdbfsDb plainProc, none⟩ plainStart s₁ ∧ s₁.session = some session₁ ∧
      CommandStep s₁ (.write plainSurroundings tokenA tokenHi) s₂ ∧
      s₂.session = some session₂ ∧ session₁.place = 0 ∧ session₂.place = 2 ∧
      DisciplinedSampStep s₂ (.exit plainSurroundings) s₃ ∧ s₃.session = none ∧
      s₃.db.lookup .fsinfo = some (⟨1001⟩ : FsinfoData) ∧
      s₃.db.lookup (.dentry pathB) = none := by
  have hplenty : plainSurroundings.Plentiful := fun _ => ⟨rfl, rfl⟩
  obtain ⟨_, -, -, hinv⟩ := (sampInv_mkdbfsDb plainProc).of_start start_openedDb
  obtain ⟨number, hrep⟩ := hinv.represented
  obtain ⟨db₂, hwrite, hwf₂, hfsinfo₂, hothers₂⟩ := run_write_free tokenA tokenHi hrep (by decide)
    (by decide) (lookup_openedDb pathA (by decide)) fsinfo_openedDb (by decide) (by decide)
  have hfsinfo := hfsinfo₂.trans fsinfo_openedDb
  have hfree := (hothers₂ newoffset (by decide)).trans (lookup_openedDb newoffset (by decide))
  obtain ⟨db₃, -, hfsinfo₃, hothers₃, hrun₃⟩ := run_sampwrite_free 0 newoffset
    (newoff ⟨⟨2⟩, 2⟩) ⟨2⟩ 0 hplenty rfl hwf₂ hfree (by decide)
  refine ⟨_, _, ⟨db₃, none⟩, _, ⟨⟨2⟩, 2⟩, start_openedDb, rfl, hwrite, rfl, by decide,
    by decide, ⟨⟨hplenty, ?_⟩, .exit rfl hrun₃⟩, rfl, hfsinfo₃.trans hfsinfo, ?_⟩
  · intro session hsession
    cases hsession
    exact ⟨_, hfsinfo, by decide⟩
  · rw [hothers₃ pathB (by decide), hothers₂ pathB (by decide)]
    exact lookup_openedDb pathB (by decide)

theorem SampInv.run_next_session (h : SampInv 2 A s) (hnone : s.session = none)
    (hfsinfo : s.db.lookup .fsinfo = some (⟨1001⟩ : FsinfoData))
    (hfree : s.db.lookup (.dentry pathB) = none) :
    ∃ s', Run DisciplinedSampStep s
      [plainStart, .command (.write plainSurroundings tokenB tokenHi)] s' := by
  have hstart := h.start_step hnone (disciplined_plainStart hfsinfo (by decide)) rfl hfsinfo
  obtain ⟨_, -, -, hinv⟩ := h.of_start hstart
  obtain ⟨number, hrep⟩ := hinv.represented
  have hfree' : (s.db.insert .fsinfo (⟨1001 + 1000⟩ : FsinfoData)).lookup (.dentry pathB) =
      none := by
    rw [Finmap.lookup_insert_of_ne _ (by simp), hfree]
  obtain ⟨db', hwrite, -⟩ := run_write_free tokenB tokenHi hrep (by decide) (by decide) hfree'
    (Finmap.lookup_insert _) (by decide) (by decide)
  exact ⟨_, .cons hstart (.single hwrite)⟩

/-! ## What lasts -/

/--
A text stays at its place in its file for good when the session that wrote it ended with `exit`,
through all later sessions, and no later session begins in front of where that one ended.
-/
theorem saved_text_lasts (proc : Proc) (before after : List SampEvent) (during : List Command)
    (s₁ s₂ s₃ s₄ s₅ : SampSys) (session₁ session₂ session₃ : Session) (w w' : Surroundings)
    (path buf : Token) (hbefore : Run DisciplinedSampStep ⟨mkdbfsDb proc, none⟩ before s₁)
    (hwrite : CommandStep s₁ (.write w path buf) s₂) (hduring : Run CommandStep s₂ during s₃)
    (hexit : DisciplinedSampStep s₃ (.exit w') s₄) (hafter : Run DisciplinedSampStep s₄ after s₅)
    (hsession₁ : s₁.session = some session₁) (hsession₂ : s₂.session = some session₂)
    (hsession₃ : s₃.session = some session₃)
    (hcounted : session₂.place = session₁.place + buf.text.length) :
    (∀ i byte, buf.text.bytes[i]? = some byte →
      ∃ ddd : DentryData, s₅.db.lookup (.dentry path.text) = some ddd ∧
        session₁.place + i < ddd.dddSize.toNat ∧
        content s₅.db ddd.dddIno (session₁.place + i) = some byte) ∧
      ∀ session, s₅.session = some session → session₃.place ≤ session.place := by
  obtain ⟨n₁, A₁, hinv₁⟩ := sampInv_of_run hbefore
  have hne : path.text ≠ newoffset := (hwrite.1 session₁ hsession₁).2.1
  obtain ⟨session, session', A₂, hsome, hsome', hinv₂, -, -, hwritten⟩ := hinv₁.of_command hwrite
  cases hsome.symm.trans hsession₁
  cases hsome'.symm.trans hsession₂
  obtain ⟨session, A₃, hsome, hinv₃, hkeeps₃, hle₃⟩ := hinv₂.run_commands hsession₂ hduring
  cases hsome.symm.trans hsession₃
  obtain ⟨session, A₄, hsome, hinv₄, hkeeps₄⟩ := hinv₃.of_exit hexit
  cases hsome.symm.trans hsession₃
  obtain ⟨n₅, A₅, hinv₅, hkeeps₅, hle₅⟩ := hinv₄.run hafter
  refine ⟨?_, fun session hsession => hle₅.trans (hinv₅.ahead session hsession).1⟩
  intro i byte hbyte
  have hi := (List.getElem?_eq_some_iff.mp hbyte).1
  have hbelow : session₁.place + i < session₂.place := by
    rw [hcounted, CStr.length]
    omega
  have hheld := hwritten hcounted i byte hbyte
  exact hinv₅.stored (hkeeps₅ _ _ _ hne (hbelow.trans_le hle₃)
    (hkeeps₄ _ _ _ hne (hbelow.trans_le hle₃) (hkeeps₃ _ _ _ hne hbelow hheld)))

theorem saved_text_lasts_next : ∃ (s₃ s₄ : SampSys) (ddd : DentryData),
    Run DisciplinedSampStep s₃ [plainStart, .command (.write plainSurroundings tokenB tokenHi)]
        s₄ ∧
      s₄.db.lookup (.dentry pathA) = some ddd ∧ content s₄.db ddd.dddIno 1 = some 105 := by
  obtain ⟨s₁, s₂, s₃, session₁, session₂, hstart, hsession₁, hwrite, hsession₂, hplace₁, hplace₂,
    hexit, hnone, hfsinfo, hfree⟩ := run_first_session
  have hbefore : Run DisciplinedSampStep ⟨mkdbfsDb plainProc, none⟩ _ s₂ :=
    .cons hstart (.single hwrite)
  obtain ⟨_, _, hinv₂⟩ := sampInv_of_run hbefore
  obtain ⟨session, _, hsome, hinv₃, -⟩ := hinv₂.of_exit hexit
  cases hsome.symm.trans hsession₂
  rw [hplace₂] at hinv₃
  obtain ⟨s₄, hnext⟩ := hinv₃.run_next_session hnone hfsinfo hfree
  obtain ⟨htext, -⟩ := saved_text_lasts plainProc [plainStart] _ [] s₁ s₂ s₂ s₃ s₄ session₁
    session₂ session₂ plainSurroundings plainSurroundings tokenA tokenHi (.single hstart) hwrite
    .nil hexit hnext hsession₁ hsession₂ hsession₂ (by rw [hplace₁, hplace₂]; rfl)
  obtain ⟨ddd, hlookup, -, hbyte⟩ := htext 1 105 rfl
  rw [hplace₁] at hbyte
  exact ⟨s₃, s₄, ddd, hnext, hlookup, hbyte⟩

/-- A session can be started after one that ended with `exit`, and goes on where that one
ended. -/
theorem sessions_go_on (proc : Proc) (before : List SampEvent) (s₁ s₂ : SampSys)
    (session : Session) (w : Surroundings) (initHeap openHeap readHeap : Heap)
    (buffer : Buffer) (hbefore : Run DisciplinedSampStep ⟨mkdbfsDb proc, none⟩ before s₁)
    (hsession : s₁.session = some session) (hexit : DisciplinedSampStep s₁ (.exit w) s₂)
    (hinitHeap : initHeap.ok = true)
    (hevent : (SampEvent.start initHeap openHeap readHeap buffer).Disciplined s₂) :
    (∃ s₃, DisciplinedSampStep s₂ (.start initHeap openHeap readHeap buffer) s₃) ∧
      ∀ s₃, DisciplinedSampStep s₂ (.start initHeap openHeap readHeap buffer) s₃ →
        ∃ session', s₃.session = some session' ∧ session'.place = session.place := by
  obtain ⟨n₁, A₁, hinv₁⟩ := sampInv_of_run hbefore
  obtain ⟨session₁, A₂, hsome, hinv₂, -⟩ := hinv₁.of_exit hexit
  cases hsome.symm.trans hsession
  obtain ⟨number, hrep⟩ := hinv₂.represented
  obtain ⟨dfd, hfsinfo, -⟩ := hrep.reserved
  have hnone : s₂.session = none := by
    obtain ⟨-, hstep⟩ := hexit
    cases hstep
    rfl
  refine ⟨⟨_, hinv₂.start_step hnone hevent hinitHeap hfsinfo⟩, fun s₃ hstart => ?_⟩
  obtain ⟨session', hsession', hplace, -⟩ := hinv₂.of_start hstart
  exact ⟨session', hsession', hplace⟩

theorem sessions_go_on_next : ∃ (s₂ s₃ : SampSys) (session : Session),
    DisciplinedSampStep s₂ plainStart s₃ ∧ s₃.session = some session ∧ session.place = 2 := by
  obtain ⟨s₁, s₂, s₃, session₁, session₂, hstart, -, hwrite, hsession₂, -, hplace₂,
    hexit, hnone, hfsinfo, -⟩ := run_first_session
  have hbefore : Run DisciplinedSampStep ⟨mkdbfsDb plainProc, none⟩ _ s₂ :=
    .cons hstart (.single hwrite)
  obtain ⟨⟨s₄, hstep⟩, hgo⟩ := sessions_go_on plainProc _ s₂ s₃ session₂ plainSurroundings
    plainHeap plainHeap plainHeap ⟨List.replicate 30 0, rfl⟩ hbefore hsession₂ hexit rfl
    (disciplined_plainStart hfsinfo (by decide))
  obtain ⟨session, hsession, hplace⟩ := hgo s₄ hstep
  exact ⟨s₃, s₄, session, hstep, hsession, hplace.trans hplace₂⟩

end Mangoo.Samp
