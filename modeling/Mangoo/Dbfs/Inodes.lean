import Mangoo.Dbfs.System

/-!
# Inode numbers

Numbers come from a counter in memory; a session starts it at the stored
`dfd_lastino` and moves the stored one a thousand ahead.  As long as no session
runs past that reservation every number is new: it lies above all numbers in
records and in the copies that open handles have.
-/

namespace Mangoo.Dbfs

open Mangoo.Foundation

variable {faulty : Prop} {s s' : Sys} {op : Op} {error : Int}
variable {sel : UInt32 → Prop} {exempt : UInt64 → Prop}

/-- A number that a record at `path` has, in the database or in a handle's copy.
Records whose type is not selected do not count. -/
def Carries (sel : UInt32 → Prop) (s : Sys) (path : CStr) (ino : UInt64) : Prop :=
  (∃ ddd, s.db.lookup (.dentry path) = some ddd ∧ sel ddd.dddType ∧ ddd.dddIno = ino) ∨
    ∃ id dh, s.handles id = some dh ∧ dh.locator = path ∧ sel dh.attrDdd.dddType ∧
      dh.attrDdd.dddIno = ino

/-- Numbers belong to one path each and lie below both counters.  The exempt ones
may lie above. -/
structure InoInv (sel : UInt32 → Prop) (exempt : UInt64 → Prop) (s : Sys) : Prop where
  keys : OwnKeys s
  unique : ∀ path path' ino, Carries sel s path ino → Carries sel s path' ino →
    path = path'
  reserved : ∀ dfd, s.db.lookup .fsinfo = some dfd → ∀ path ino, Carries sel s path ino →
    ino.toNat < dfd.dfdLastino.toNat ∨ exempt ino
  fresh : ∀ dsp, s.store = some dsp → ∀ path ino, Carries sel s path ino →
    ino.toNat < dsp.lastInode.toNat ∨ exempt ino

/-- A session starts only while the stored counter does not wrap, and a number is
taken only below it; a new entry never gets an exempt one. -/
def NumbersReserved (sel : UInt32 → Prop) (exempt : UInt64 → Prop) (s : Sys) : Op → Prop
  | .mangooInitstore _ => ∀ dfd, s.db.lookup .fsinfo = some dfd →
      dfd.dfdLastino.toNat + 1000 < 2 ^ 64
  | .mangooCreate _ _ locator _ mt => ∀ dsp, s.store = some dsp →
      (∃ dfd, s.db.lookup .fsinfo = some dfd ∧
        dsp.lastInode.toNat < dfd.dfdLastino.toNat) ∧
      (sel mt.toUInt32 → s.db.lookup (.dentry locator) = none → ¬ exempt dsp.lastInode)
  | _ => True

/-! ## Where numbers come from -/

theorem Step.carries (h : Step faulty s (op, error) s') (hkeys : OwnKeys s)
    {path : CStr} {ino : UInt64} (hcarries : Carries sel s' path ino) :
    Carries sel s path ino ∨
      ∃ heap proc mode mt dsp, op = .mangooCreate heap proc path mode mt ∧ error = 0 ∧
        s.store = some dsp ∧ s.db.lookup (.dentry path) = none ∧ sel mt.toUInt32 ∧
        ino = dsp.lastInode := by
  rcases hcarries with ⟨ddd, hlookup, hsel, hino⟩ | ⟨id, dh', hid, hpath, hsel, hino⟩
  · rcases h.entries with hsame |
        ⟨herror, ⟨heap, proc, locator, mode, mt, dsp, hop, hstore, hnone, hdb⟩ |
          ⟨heap, fuel, locator, old, -, -, hcase⟩ |
          ⟨id, dh, call, mid, -, hid, hmid, hdb⟩⟩
    · rw [hsame] at hlookup
      exact .inl (.inl ⟨ddd, hlookup, hsel, hino⟩)
    · rw [hdb] at hlookup
      by_cases heq : path = locator
      · subst heq
        rw [Finmap.lookup_insert] at hlookup
        cases hlookup
        exact .inr ⟨heap, proc, mode, mt, dsp, hop, herror, hstore, hnone, hsel, hino.symm⟩
      · rw [Finmap.lookup_insert_of_ne _ (by simpa using heq)] at hlookup
        exact .inl (.inl ⟨ddd, hlookup, hsel, hino⟩)
    · left
      left
      rcases hcase with ⟨-, -, hdb⟩ | ⟨-, hdb⟩
      · rw [hdb] at hlookup
        exact ⟨ddd, lookup_of_lookup_erase hlookup, hsel, hino⟩
      · rw [hdb] at hlookup
        exact ⟨ddd, lookup_of_lookup_erase hlookup, hsel, hino⟩
    · left
      rw [hdb, hkeys id dh hid, Key.ddkPath_dentry] at hlookup
      by_cases heq : path = dh.locator
      · subst heq
        rw [Finmap.lookup_insert] at hlookup
        cases hlookup
        rw [HandleCall.update_dddType] at hsel
        rw [HandleCall.update_dddIno] at hino
        exact .inr ⟨id, dh, hid, rfl, hsel, hino⟩
      · rw [Finmap.lookup_insert_of_ne _ (by simpa using heq), hmid.lookup_dentry] at hlookup
        exact .inl ⟨ddd, hlookup, hsel, hino⟩
  · left
    rcases h.handle hid with hid | ⟨heap, locator, mi, -, -, hopened⟩ |
        ⟨dh, call, -, hopen, rfl⟩
    · exact .inr ⟨id, dh', hid, hpath, hsel, hino⟩
    · rw [← hpath, hopened.locator_eq]
      exact .inl ⟨dh'.attrDdd, hopened.stored, hsel, hino⟩
    · rw [HandleCall.update_dddType] at hsel
      rw [HandleCall.update_dddIno] at hino
      exact .inr ⟨id, dh, hopen, hpath, hsel, hino⟩

theorem Step.counters (h : Step faulty s (op, error) s')
    (hinit : ∀ heap, op ≠ .mangooInitstore heap)
    (hcreate : ∀ heap proc locator mode mt, op ≠ .mangooCreate heap proc locator mode mt) :
    (∀ dfd, s'.db.lookup .fsinfo = some dfd → s.db.lookup .fsinfo = some dfd) ∧
      ∀ dsp, s'.store = some dsp → s.store = some dsp := by
  cases h with
  | mangooInitstore hstore hexec => exact absurd rfl (hinit _)
  | mangooClosestore hstore =>
      refine ⟨fun _ => id, ?_⟩
      intro dsp hnone
      cases hnone
  | mangooCreate hstore hexec => exact absurd rfl (hcreate _ _ _ _ _)
  | mangooDelete hstore hexec =>
      refine ⟨?_, fun _ => id⟩
      intro dfd hlookup
      rcases exec_dbfsDelete hexec with ⟨-, rfl | ⟨ino, rfl⟩⟩ |
          ⟨-, -, ddd, -, ⟨-, -, -, rfl⟩ | ⟨-, -, rfl⟩⟩
      · exact hlookup
      · exact lookup_of_lookup_erase hlookup
      · exact lookup_of_lookup_erase hlookup
      · exact lookup_of_lookup_erase hlookup
  | mangooOpen hstore hfree hexec =>
      obtain ⟨rfl, -⟩ := exec_dbfsOpen hexec
      exact ⟨fun _ => id, fun _ => id⟩
  | mangooClose hid => exact ⟨fun _ => id, fun _ => id⟩
  | mstreamRead hid hinterface hexec =>
      obtain rfl := hexec.reads (reads_dbfsRead _ _ _ _ _)
      exact ⟨fun _ => id, fun _ => id⟩
  | handleCall hid hinterface hexec =>
      refine ⟨?_, fun _ => id⟩
      intro dfd hlookup
      obtain ⟨mid, hmid, ⟨-, -, rfl⟩ | ⟨-, rfl, -⟩⟩ := exec_handleCall hexec
      · rw [Finmap.lookup_insert_of_ne _ (by simp), hmid.lookup_fsinfo] at hlookup
        exact hlookup
      · rwa [hmid.lookup_fsinfo] at hlookup

/-! ## The invariant -/

theorem InoInv.of_carries (hinv : InoInv sel exempt s) (hkeys : OwnKeys s')
    (hcarries : ∀ path ino, Carries sel s' path ino → Carries sel s path ino)
    (hfsinfo : ∀ dfd, s'.db.lookup .fsinfo = some dfd → s.db.lookup .fsinfo = some dfd)
    (hstore : ∀ dsp, s'.store = some dsp → s.store = some dsp) :
    InoInv sel exempt s' where
  keys := hkeys
  unique := fun path path' ino h h' =>
    hinv.unique path path' ino (hcarries path ino h) (hcarries path' ino h')
  reserved := fun dfd hdfd path ino h =>
    hinv.reserved dfd (hfsinfo dfd hdfd) path ino (hcarries path ino h)
  fresh := fun dsp hdsp path ino h =>
    hinv.fresh dsp (hstore dsp hdsp) path ino (hcarries path ino h)

theorem Step.inoInv_initstore {heap : Heap}
    (h : Step faulty s (.mangooInitstore heap, error) s') (hinv : InoInv sel exempt s)
    (hguard : NumbersReserved sel exempt s (.mangooInitstore heap)) :
    InoInv sel exempt s' := by
  have hkeys := h.ownKeys hinv.keys
  have hcarries : ∀ path ino, Carries sel s' path ino → Carries sel s path ino := by
    intro path ino hcarries
    rcases h.carries hinv.keys hcarries with hold | ⟨_, _, _, _, _, hop, -⟩
    · exact hold
    · cases hop
  cases h with
  | mangooInitstore hnone hexec =>
      rcases exec_dbfsInitstore hexec with ⟨rfl, rfl⟩ | ⟨dfd, hlookup, rfl, rfl⟩
      · apply hinv.of_carries hkeys hcarries (fun _ => id)
        intro dsp hdsp
        cases hdsp
      · have hroom := hguard dfd hlookup
        have hnext : (dfd.dfdLastino + 1000).toNat = dfd.dfdLastino.toNat + 1000 := by
          rw [UInt64.toNat_add, show (1000 : UInt64).toNat = 1000 from rfl]
          omega
        refine ⟨hkeys, ?_, ?_, ?_⟩
        · intro path path' ino hp hp'
          exact hinv.unique path path' ino (hcarries path ino hp) (hcarries path' ino hp')
        · intro dfd' hdfd' path ino hp
          rw [Finmap.lookup_insert] at hdfd'
          rw [← Option.some.inj hdfd']
          apply (hinv.reserved dfd hlookup path ino (hcarries path ino hp)).imp_left
          intro hlt
          change ino.toNat < (dfd.dfdLastino + 1000).toNat
          omega
        · intro dsp hdsp path ino hp
          cases hdsp
          -- the session starts where the last reservation ended
          exact hinv.reserved dfd hlookup path ino (hcarries path ino hp)

theorem Step.created {heap : Heap} {proc : Proc} {locator : CStr} {mode : UInt32}
    {mt : MangooTypes}
    (h : Step faulty s (.mangooCreate heap proc locator mode mt, error) s') :
    ∃ dsp dsp', s.store = some dsp ∧ s'.store = some dsp' ∧
      Prog.Exec faulty (dbfsCreate heap proc dsp locator mode mt) s.db (error, dsp')
        s'.db := by
  cases h with
  | mangooCreate hstore hexec => exact ⟨_, _, hstore, rfl, hexec⟩

theorem Step.carries_create {heap : Heap} {proc : Proc} {locator : CStr} {mode : UInt32}
    {mt : MangooTypes} {dsp : DbfsStore} (path : CStr) (ino : UInt64)
    (h : Step faulty s (.mangooCreate heap proc locator mode mt, error) s')
    (hinv : InoInv sel exempt s) (hstore : s.store = some dsp)
    (hexempt : sel mt.toUInt32 → s.db.lookup (.dentry locator) = none →
      ¬ exempt dsp.lastInode)
    (hcarries : Carries sel s' path ino) :
    Carries sel s path ino ∧ (ino.toNat < dsp.lastInode.toNat ∨ exempt ino) ∨
      error = 0 ∧ path = locator ∧ ino = dsp.lastInode ∧
        ∀ path', ¬ Carries sel s path' ino := by
  rcases h.carries hinv.keys hcarries with
    hold | ⟨_, _, _, _, dsp', hop, hzero, hstore', hnone, hsel, rfl⟩
  · exact .inl ⟨hold, hinv.fresh dsp hstore path ino hold⟩
  · cases hop
    rw [hstore] at hstore'
    cases hstore'
    refine .inr ⟨hzero, rfl, rfl, ?_⟩
    intro path' hp'
    rcases hinv.fresh dsp hstore path' _ hp' with hbelow | hex
    · exact absurd hbelow (lt_irrefl _)
    · exact hexempt hsel hnone hex

theorem Step.inoInv_create {heap : Heap} {proc : Proc} {locator : CStr} {mode : UInt32}
    {mt : MangooTypes}
    (h : Step faulty s (.mangooCreate heap proc locator mode mt, error) s')
    (hinv : InoInv sel exempt s)
    (hguard : NumbersReserved sel exempt s (.mangooCreate heap proc locator mode mt)) :
    InoInv sel exempt s' := by
  obtain ⟨dsp, dsp', hstore, hstore', hexec⟩ := h.created
  obtain ⟨⟨dfd, hdfd, hlt⟩, hexempt⟩ := hguard dsp hstore
  have hnew := fun path ino => h.carries_create path ino hinv hstore hexempt
  have hmax := dfd.dfdLastino.toNat_lt
  have hnext : (dsp.lastInode + 1).toNat = dsp.lastInode.toNat + 1 := by
    rw [UInt64.toNat_add, show (1 : UInt64).toNat = 1 from rfl]
    omega
  have hfsinfo : s'.db.lookup .fsinfo = s.db.lookup .fsinfo := by
    rcases exec_dbfsCreate hexec with ⟨-, -, -, hdb⟩ | ⟨-, hdb, -⟩
    · rw [hdb, Finmap.lookup_insert_of_ne _ (by simp)]
    · rw [hdb]
  have hcounter : dsp.lastInode.toNat ≤ dsp'.lastInode.toNat ∧
      (error = 0 → dsp.lastInode.toNat < dsp'.lastInode.toNat) := by
    rcases exec_dbfsCreate hexec with ⟨-, rfl, -⟩ | ⟨herror, -, rfl | rfl⟩
    · simp only [hnext]
      omega
    · exact ⟨le_rfl, fun hzero => absurd hzero herror⟩
    · simp only [hnext]
      omega
  refine ⟨h.ownKeys hinv.keys, ?_, ?_, ?_⟩
  · intro path path' ino hp hp'
    rcases hnew path ino hp with ⟨hold, -⟩ | ⟨-, rfl, -, hnot⟩
    · rcases hnew path' ino hp' with ⟨hold', -⟩ | ⟨-, -, -, hnot⟩
      · exact hinv.unique path path' ino hold hold'
      · exact absurd hold (hnot path)
    · rcases hnew path' ino hp' with ⟨hold', -⟩ | ⟨-, rfl, -⟩
      · exact absurd hold' (hnot path')
      · rfl
  · intro dfd' hdfd' path ino hp
    rw [hfsinfo, hdfd] at hdfd'
    cases hdfd'
    -- only the guard keeps the number taken below the stored counter
    rcases hnew path ino hp with ⟨-, hbelow | hex⟩ | ⟨-, -, rfl, -⟩
    · exact .inl (hbelow.trans hlt)
    · exact .inr hex
    · exact .inl hlt
  · intro dsp₁ hdsp₁ path ino hp
    rw [hstore'] at hdsp₁
    cases hdsp₁
    rcases hnew path ino hp with ⟨-, hbelow | hex⟩ | ⟨hzero, -, rfl, -⟩
    · exact .inl (hbelow.trans_le hcounter.1)
    · exact .inr hex
    · exact .inl (hcounter.2 hzero)

theorem Step.inoInv (h : Step faulty s (op, error) s') (hinv : InoInv sel exempt s)
    (hguard : NumbersReserved sel exempt s op) : InoInv sel exempt s' := by
  by_cases hinit : ∃ heap, op = .mangooInitstore heap
  · obtain ⟨heap, rfl⟩ := hinit
    exact h.inoInv_initstore hinv hguard
  · by_cases hcreate : ∃ heap proc locator mode mt,
        op = .mangooCreate heap proc locator mode mt
    · obtain ⟨heap, proc, locator, mode, mt, rfl⟩ := hcreate
      exact h.inoInv_create hinv hguard
    · obtain ⟨hfsinfo, hstore⟩ := h.counters (fun heap heq => hinit ⟨heap, heq⟩)
        (fun heap proc locator mode mt heq => hcreate ⟨heap, proc, locator, mode, mt, heq⟩)
      apply hinv.of_carries (h.ownKeys hinv.keys) _ hfsinfo hstore
      intro path ino hp
      rcases h.carries hinv.keys hp with hold | ⟨_, _, _, _, _, hop, -⟩
      · exact hold
      · exact absurd ⟨_, _, _, _, _, hop⟩ hcreate

/-! ## Runs from a new store -/

theorem inoInv_mkdbfs (proc : Proc) (hexempt : sel 0 → exempt dbfsRootIno) :
    InoInv sel exempt (Sys.closed (mkdbfsDb proc)) := by
  have hcarries : ∀ path ino, Carries sel (Sys.closed (mkdbfsDb proc)) path ino →
      path = rootPath ∧ exempt ino := by
    rintro path ino (⟨ddd, hlookup, hsel, rfl⟩ | ⟨id, dh, hid, -⟩)
    · obtain ⟨rfl, rfl⟩ := lookup_mkdbfsDb hlookup
      exact ⟨rfl, hexempt hsel⟩
    · cases hid
  refine ⟨ownKeys_of_no_handles rfl, ?_, ?_, ?_⟩
  · intro path path' ino hp hp'
    rw [(hcarries path ino hp).1, (hcarries path' ino hp').1]
  · exact fun _ _ path ino hp => .inr (hcarries path ino hp).2
  · exact fun _ _ path ino hp => .inr (hcarries path ino hp).2

def AnyType (_ : UInt32) : Prop := True

def IsRootIno (ino : UInt64) : Prop := ino = dbfsRootIno

/--
Different entries of a store made by `mkdbfs` have different numbers in every state
of a run of any calls, if every creation takes a number below the reservation and
none that adds an entry takes the number of the root.
-/
theorem inodes_unique (faulty : Prop) (proc : Proc) (events : List (Op × Int)) (s : Sys)
    (path path' : CStr) (ddd ddd' : DentryData)
    (hrun : Run (fun s event s' => NumbersReserved AnyType IsRootIno s event.1 ∧
      Step faulty s event s') (Sys.closed (mkdbfsDb proc)) events s)
    (hlookup : s.db.lookup (.dentry path) = some ddd)
    (hlookup' : s.db.lookup (.dentry path') = some ddd') (hne : path ≠ path') :
    ddd.dddIno ≠ ddd'.dddIno := by
  intro heq
  have hstart : InoInv AnyType IsRootIno (Sys.closed (mkdbfsDb proc)) :=
    inoInv_mkdbfs proc fun _ => rfl
  have hinv : InoInv AnyType IsRootIno s := by
    apply hrun.invariant hstart
    rintro s event s' hinv ⟨hguard, hstep⟩
    exact hstep.inoInv hinv hguard
  apply hne
  apply hinv.unique path path' ddd.dddIno
  · exact .inl ⟨ddd, hlookup, trivial, rfl⟩
  · exact .inl ⟨ddd', hlookup', trivial, heq.symm⟩

theorem inodes_unique_second_number : ∃ ddd ddd' : DentryData,
    (createdSys 2).db.lookup (.dentry rootPath) = some ddd ∧
      (createdSys 2).db.lookup (.dentry pathA) = some ddd' ∧
      ddd.dddIno ≠ ddd'.dddIno := by
  have hroot : Step False startedSys
      (.mangooCreate plainHeap plainProc rootPath 0o644 .data, einval)
      { startedSys with store := some ⟨2⟩ } :=
    .mangooCreate rfl (Prog.exec_iff_run.mpr rfl)
  have hfile : Step False { startedSys with store := some ⟨2⟩ }
      (.mangooCreate plainHeap plainProc pathA 0o644 .data, 0) (createdSys 2) :=
    .mangooCreate rfl (Prog.exec_iff_run.mpr rfl)
  have hlast : startedSys.db.lookup .fsinfo = some ⟨1001⟩ := rfl
  refine ⟨_, _, rfl, rfl, ?_⟩
  apply inodes_unique False plainProc
    [(.mangooInitstore plainHeap, 0),
      (.mangooCreate plainHeap plainProc rootPath 0o644 .data, einval),
      (.mangooCreate plainHeap plainProc pathA 0o644 .data, 0)]
    (createdSys 2) rootPath pathA _ _ (.cons ⟨?_, step_start⟩
      (.cons ⟨?_, hroot⟩ (.single ⟨?_, hfile⟩))) rfl rfl (by decide)
  · intro dfd hdfd
    cases hdfd
    decide
  · intro dsp hdsp
    cases hdsp
    refine ⟨⟨_, hlast, by decide⟩, ?_⟩
    intro _ hnone
    cases hnone
  · intro dsp hdsp
    cases hdsp
    exact ⟨⟨_, hlast, by decide⟩, fun _ _ => by simp [IsRootIno, dbfsRootIno]⟩

/-- The first entry of a new store gets the number of the root. -/
theorem first_entry_shares_root_number :
    ¬ ∀ (proc : Proc) (events : List (Op × Int)) (s : Sys) (path path' : CStr)
      (ddd ddd' : DentryData),
      Run (Step False) (Sys.closed (mkdbfsDb proc)) events s →
      s.db.lookup (.dentry path) = some ddd → s.db.lookup (.dentry path') = some ddd' →
      path ≠ path' → ddd.dddIno ≠ ddd'.dddIno := by
  intro hlaw
  exact hlaw plainProc
    [(.mangooInitstore plainHeap, 0), (.mangooCreate plainHeap plainProc pathA 0o644 .data, 0)]
    (createdSys 1) rootPath pathA ⟨0, 0o644, 1, 0, 0, 0, 0, 0⟩ ⟨1, 0o644, 1, 0, 0, 0, 0, 0⟩
    (.cons step_start (.single step_create_file)) rfl rfl (by decide) rfl

end Mangoo.Dbfs
