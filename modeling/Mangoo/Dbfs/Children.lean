import Mangoo.Dbfs.Paths
import Mangoo.Dbfs.Removal

/-!
# The listing of a directory

The filler of a scan as one that also keeps a log of what it is handed, and the
log of a whole scan compared with the children that are on record.  Every child is
listed, in the order of the names; other paths are listed too when they continue
the directory's own name.
-/

namespace Mangoo.Dbfs

open Mangoo.Foundation

variable {σ : Type}

/-- The filler together with the list of what it was handed. -/
def logging (filler : σ → CStr → UInt32 → Int × σ) (log : σ × List (CStr × UInt32))
    (name : CStr) (type : UInt32) : Int × σ × List (CStr × UInt32) :=
  let (error, finfo) := filler log.1 name type
  (error, finfo, log.2 ++ [(name, type)])

instance (locator path : CStr) : Decidable (IsChild locator path) :=
  inferInstanceAs (Decidable (_ ∧ _))

/-- What a listing of the directory is to hand out. -/
def childrenOf (db : Db) (locator : CStr) : List (CStr × UInt32) :=
  ((dentriesAbove db (.dentry locator)).filter fun d => IsChild locator d.1).map
    fun d => (lastComponent d.1, d.2.dddType)

def IsListedChild (db : Db) (locator : CStr) (entry : CStr × UInt32) : Prop :=
  ∃ path ddd, db.lookup (.dentry path) = some ddd ∧ IsChild locator path ∧
    entry = (lastComponent path, ddd.dddType)

def OnlyChildren (db : Db) (locator : CStr) (passed : List (CStr × UInt32)) : Prop :=
  (∀ entry ∈ passed, IsListedChild db locator entry) ∧ (passed.map Prod.fst).Nodup

variable {faulty : Prop} {db db' : Db} {locator : CStr} {key : Key} {isroot : Bool}

/-! ## What a filler is handed -/

theorem fillEach_logging_never_full {filler : σ → CStr → UInt32 → Int × σ}
    (hfiller : ∀ finfo name type, (filler finfo name type).1 = 0)
    (entries : List (CStr × UInt32)) (finfo : σ) (log : List (CStr × UInt32)) :
    ∃ finfo', fillEach (logging filler) entries (finfo, log) =
      (0, [], finfo', log ++ entries) := by
  induction entries generalizing finfo log with
  | nil => exact ⟨finfo, by simp [fillEach]⟩
  | cons entry entries ih =>
      obtain ⟨name, type⟩ := entry
      obtain ⟨finfo', hfill⟩ := ih (filler finfo name type).2 (log ++ [(name, type)])
      refine ⟨finfo', ?_⟩
      have hcode := hfiller finfo name type
      simp only [fillEach, logging, hcode, ne_eq, not_true_eq_false, if_false]
      rw [hfill, List.append_assoc, List.singleton_append]

theorem nothing_passed {dh dh' : DbfsHandle} {finfo finfo' : σ}
    {log log' : List (CStr × UInt32)} {code error : Int}
    (h : Prog.Exec faulty (pure (code, dh, finfo, log) : DbProg _) db
      (error, dh', finfo', log') db') (entries : List (CStr × UInt32)) :
    db' = db ∧ ∃ passed, log' = log ++ passed ∧ passed <+: entries := by
  simp only [Prog.exec_pure, Prod.mk.injEq] at h
  obtain ⟨⟨-, -, -, rfl⟩, rfl⟩ := h
  exact ⟨rfl, [], by simp, List.nil_prefix⟩

/-- A scan hands out a first part of the entries ahead of it, also when a call fails. -/
theorem exec_readdirLoop {heap : Heap} {filler : σ → CStr → UInt32 → Int × σ} {fuel : Nat}
    {dh dh' : DbfsHandle} {finfo finfo' : σ} {log log' : List (CStr × UInt32)} {error : Int}
    (hlocator : dh.locator = locator) (hcursor : dh.dbc = some key)
    (h : Prog.Exec faulty (readdirLoop heap (logging filler) isroot fuel dh (finfo, log)) db
      (error, dh', finfo', log') db') :
    db' = db ∧ ∃ passed, log' = log ++ passed ∧
      passed <+: entriesFrom isroot locator (recordsAbove db key) := by
  induction fuel generalizing dh key finfo log with
  | zero => exact absurd h Prog.exec_spin
  | succ fuel ih =>
      simp only [readdirLoop, hcursor, cursorNext, Prog.exec_bind, Prog.exec_nextRec] at h
      obtain ⟨result, mid, ⟨rfl, hnext⟩, hrest⟩ := h
      cases result with
      | error code =>
          exact nothing_passed hrest _
      | ok r =>
          have hadvance : advance mid key = .ok r := by
            rcases hnext with hnext | ⟨-, e, -, hnext⟩
            · exact hnext.symm
            · cases hnext
          rw [recordsAbove_of_ok hadvance]
          obtain ⟨next, record⟩ := r
          cases next with
          | fsinfo =>
              exact nothing_passed hrest _
          | block ino offset =>
              exact nothing_passed hrest _
          | dentry entry =>
              rw [entriesFrom_cons_dentry]
              have hmoved : (dh.movedTo heap (.dentry entry)).locator = locator := hlocator
              cases hscan : scanEntry isroot locator entry with
              | stop =>
                  simp only [hmoved, hscan] at hrest
                  exact nothing_passed hrest _
              | skip =>
                  simp only [hmoved, hscan] at hrest
                  exact ih (by rfl) (by rfl) hrest
              | emit name =>
                  simp only [hmoved, hscan, logging] at hrest
                  cases hfiller : filler finfo name record.dddType with
                  | mk code finfo₁ =>
                      rw [hfiller] at hrest
                      by_cases hcode : code = 0
                      · subst hcode
                        simp only [ne_eq, not_true_eq_false, if_false] at hrest
                        obtain ⟨rfl, passed, rfl, hpre⟩ :=
                          ih (by rfl) (by rfl) hrest
                        refine ⟨rfl, (name, record.dddType) :: passed, by simp, ?_⟩
                        exact List.cons_prefix_cons.mpr ⟨rfl, hpre⟩
                      · simp only [ne_eq, hcode, not_false_eq_true, if_true, Prog.exec_pure,
                          Prod.mk.injEq] at hrest
                        obtain ⟨⟨-, -, -, rfl⟩, rfl⟩ := hrest
                        refine ⟨rfl, [(name, record.dddType)], rfl, ?_⟩
                        exact List.cons_prefix_cons.mpr ⟨rfl, List.nil_prefix⟩

theorem exec_dbfsReaddir {heap : Heap} {filler : σ → CStr → UInt32 → Int × σ} {fuel : Nat}
    {dh dh' : DbfsHandle} {finfo finfo' : σ} {passed : List (CStr × UInt32)} {error : Int}
    (hpaths : AbsolutePaths db) (hstands : Stands dh locator (.dentry locator))
    (hfreed : dh.ddkFreed = false)
    (h : Prog.Exec faulty (dbfsReaddir heap (logging filler) fuel dh (finfo, [])) db
      (error, dh', finfo', passed) db') :
    db' = db ∧ passed <+: entriesAbove db locator (.dentry locator) := by
  rw [dbfsReaddir_of_not_freed heap _ fuel _ hfreed, hstands.buffer hfreed,
    Key.ddkPath_dentry] at h
  have hisroot : decide (locator = rootPath) = true → locator = rootPath := of_decide_eq_true
  obtain ⟨rfl, entries, rfl, hpre⟩ :=
    exec_readdirLoop hstands.locator_eq hstands.cursor h
  rw [entriesFrom_eq_entriesAbove hpaths _ hisroot] at hpre
  exact ⟨rfl, by simpa using hpre⟩

/-! ## Entries and children -/

theorem mem_entriesAbove_iff {entry : CStr × UInt32} :
    entry ∈ entriesAbove db locator (.dentry locator) ↔
      ∃ path ddd, db.lookup (.dentry path) = some ddd ∧ IsEntryOf locator (.dentry path) ∧
        entry = (entryName locator path, ddd.dddType) := by
  rw [entriesAbove_eq (le_refl _), List.mem_map]
  constructor
  · rintro ⟨⟨path, ddd⟩, hmem, rfl⟩
    rw [List.mem_filter, decide_eq_true_eq, mem_dentriesAbove] at hmem
    exact ⟨path, ddd, hmem.1.1, hmem.2, rfl⟩
  · rintro ⟨path, ddd, hlookup, hentry, rfl⟩
    refine ⟨(path, ddd), ?_, rfl⟩
    rw [List.mem_filter, decide_eq_true_eq, mem_dentriesAbove]
    exact ⟨⟨hlookup, Key.dentry_lt_of_isEntryOf hentry⟩, hentry⟩

theorem mem_childrenOf_iff (hpaths : WellFormedPaths db) (hlocator : WellFormed locator)
    {entry : CStr × UInt32} :
    entry ∈ childrenOf db locator ↔ IsListedChild db locator entry := by
  rw [childrenOf, List.mem_map]
  constructor
  · rintro ⟨⟨path, ddd⟩, hmem, rfl⟩
    rw [List.mem_filter, decide_eq_true_eq, mem_dentriesAbove] at hmem
    exact ⟨path, ddd, hmem.1.1, hmem.2, rfl⟩
  · rintro ⟨path, ddd, hlookup, hchild, rfl⟩
    refine ⟨(path, ddd), ?_, rfl⟩
    have hpath := hpaths path (Finmap.mem_iff.mpr ⟨ddd, hlookup⟩)
    rw [List.mem_filter, decide_eq_true_eq, mem_dentriesAbove]
    refine ⟨⟨hlookup, ?_⟩, hchild⟩
    exact Key.dentry_lt_of_isEntryOf ((isEntryOf_iff hpath hlocator).mpr (.inl hchild))

theorem strcmp_children {path₁ path₂ : CStr} (hlocator : WellFormed locator)
    (hpath₁ : WellFormed path₁) (hpath₂ : WellFormed path₂)
    (h₁ : IsChild locator path₁) (h₂ : IsChild locator path₂) :
    strcmp path₁ path₂ = strcmp (lastComponent path₁) (lastComponent path₂) := by
  have hsplit : ∀ name, dirBytes locator ++ slash :: name =
      (dirBytes locator ++ [slash]) ++ name := by simp
  rw [strcmp, h₁.bytes hpath₁ hlocator, h₂.bytes hpath₂ hlocator,
    hsplit (lastComponent path₁).bytes, hsplit (lastComponent path₂).bytes,
    strcmpBytes_append_append]
  rfl

theorem pairwise_childrenOf (hpaths : WellFormedPaths db) (hlocator : WellFormed locator) :
    (childrenOf db locator).Pairwise fun a b => strcmp a.1 b.1 < 0 := by
  rw [childrenOf, List.pairwise_map]
  apply ((pairwise_dentriesAbove db _).filter _).imp_of_mem
  rintro ⟨path₁, ddd₁⟩ ⟨path₂, ddd₂⟩ hmem₁ hmem₂ hlt
  rw [List.mem_filter, decide_eq_true_eq, mem_dentriesAbove] at hmem₁ hmem₂
  rw [← strcmp_children hlocator (hpaths path₁ (Finmap.mem_iff.mpr ⟨_, hmem₁.1.1⟩))
    (hpaths path₂ (Finmap.mem_iff.mpr ⟨_, hmem₂.1.1⟩)) hmem₁.2 hmem₂.2]
  exact hlt

theorem isEntryOf_of_mem {d : CStr × DentryData} (hpaths : WellFormedPaths db)
    (hlocator : WellFormed locator) (hmem : d ∈ dentriesAbove db (.dentry locator)) :
    IsEntryOf locator (.dentry d.1) ↔ IsChild locator d.1 ∨ ExtendsName locator d.1 :=
  isEntryOf_iff (hpaths d.1 (Finmap.mem_iff.mpr ⟨_, (mem_dentriesAbove.mp hmem).1⟩)) hlocator

theorem childrenOf_eq (hpaths : WellFormedPaths db) (hlocator : WellFormed locator) :
    childrenOf db locator =
      ((dentriesAbove db (.dentry locator)).filter fun d => IsChild locator d.1).map
        fun d => (entryName locator d.1, d.2.dddType) := by
  apply List.map_congr_left
  intro d hd
  rw [List.mem_filter, decide_eq_true_eq] at hd
  have hpath := hpaths d.1 (Finmap.mem_iff.mpr ⟨_, (mem_dentriesAbove.mp hd.1).1⟩)
  rw [entryName_of_isChild hd.2 hpath hlocator]

theorem childrenOf_sublist (hpaths : WellFormedPaths db) (hlocator : WellFormed locator) :
    (childrenOf db locator).Sublist (entriesAbove db locator (.dentry locator)) := by
  rw [childrenOf_eq hpaths hlocator, entriesAbove_eq (le_refl _)]
  apply List.Sublist.map
  have hfilter : ((dentriesAbove db (.dentry locator)).filter
      fun d => IsChild locator d.1) =
      ((dentriesAbove db (.dentry locator)).filter
        fun d => IsEntryOf locator (.dentry d.1)).filter fun d => IsChild locator d.1 := by
    rw [List.filter_filter]
    apply List.filter_congr
    intro d hd
    have hiff := isEntryOf_of_mem hpaths hlocator hd
    by_cases hchild : IsChild locator d.1
    · simp [hchild, hiff.mpr (.inl hchild)]
    · simp [hchild]
  rw [hfilter]
  exact List.filter_sublist

theorem entriesAbove_eq_childrenOf (hpaths : WellFormedPaths db)
    (hlocator : WellFormed locator)
    (hnone : ∀ path, Key.dentry path ∈ db → ¬ ExtendsName locator path) :
    entriesAbove db locator (.dentry locator) = childrenOf db locator := by
  rw [childrenOf_eq hpaths hlocator, entriesAbove_eq (le_refl _)]
  congr 1
  apply List.filter_congr
  intro d hd
  have hiff := isEntryOf_of_mem hpaths hlocator hd
  have hdb : Key.dentry d.1 ∈ db := Finmap.mem_iff.mpr ⟨_, (mem_dentriesAbove.mp hd).1⟩
  rw [decide_eq_decide, hiff]
  exact or_iff_left (hnone d.1 hdb)

theorem nodup_names_childrenOf (hpaths : WellFormedPaths db) (hlocator : WellFormed locator) :
    ((childrenOf db locator).map Prod.fst).Nodup := by
  rw [List.Nodup, List.pairwise_map]
  apply (pairwise_childrenOf hpaths hlocator).imp
  intro a b hlt heq
  rw [heq, strcmp_eq_zero.mpr rfl] at hlt
  exact absurd hlt (lt_irrefl 0)

theorem onlyChildren_childrenOf (hpaths : WellFormedPaths db) (hlocator : WellFormed locator) :
    OnlyChildren db locator (childrenOf db locator) :=
  ⟨fun _ hentry => (mem_childrenOf_iff hpaths hlocator).mp hentry,
    nodup_names_childrenOf hpaths hlocator⟩

theorem OnlyChildren.initial {passed all : List (CStr × UInt32)}
    (h : OnlyChildren db locator all) (hpre : passed <+: all) :
    OnlyChildren db locator passed :=
  ⟨fun entry hentry => h.1 entry (hpre.subset hentry),
    (hpre.sublist.map Prod.fst).nodup h.2⟩

theorem not_isChild_of_extendsName {path : CStr} (hpath : WellFormed path)
    (hlocator : WellFormed locator) (h : ExtendsName locator path) : ¬ IsChild locator path := by
  intro hchild
  obtain ⟨hroot, rest, -, hslash, hbytes⟩ := h
  have hname := hchild.bytes hpath hlocator
  rw [dirBytes_of_ne hroot, hbytes] at hname
  rw [List.append_cancel_left hname] at hslash
  exact hslash List.mem_cons_self

/-- A path that continues the directory's name is listed as if it were a child, and
twice if there is a child of that name. -/
theorem not_onlyChildren_entriesAbove {path : CStr} (hpaths : WellFormedPaths db)
    (hlocator : WellFormed locator) (hpath : Key.dentry path ∈ db)
    (hextends : ExtendsName locator path) :
    ¬ OnlyChildren db locator (entriesAbove db locator (.dentry locator)) := by
  rintro ⟨honly, hnodup⟩
  obtain ⟨ddd, hlookup⟩ := Finmap.mem_iff.mp hpath
  have hentry := (isEntryOf_iff (hpaths path hpath) hlocator).mpr (.inr hextends)
  obtain ⟨child, ddd', hlookup', hchild, heq⟩ :=
    honly _ (mem_entriesAbove_iff.mpr ⟨path, ddd, hlookup, hentry, rfl⟩)
  have hchildPath := hpaths child (Finmap.mem_iff.mpr ⟨ddd', hlookup'⟩)
  have hname : entryName locator path = entryName locator child := by
    rw [entryName_of_isChild hchild hchildPath hlocator]
    exact congrArg Prod.fst heq
  have hentry' := (isEntryOf_iff hchildPath hlocator).mpr (.inl hchild)
  rw [entriesAbove_eq (le_refl _), List.map_map] at hnodup
  have hinj := List.inj_on_of_nodup_map hnodup
  have hmem : ∀ {entry : CStr} {record : DentryData},
      db.lookup (.dentry entry) = some record → IsEntryOf locator (.dentry entry) →
      (entry, record) ∈ (dentriesAbove db (.dentry locator)).filter
        fun d => IsEntryOf locator (.dentry d.1) := by
    intro entry record hrecord hentry
    rw [List.mem_filter, decide_eq_true_eq, mem_dentriesAbove]
    exact ⟨⟨hrecord, Key.dentry_lt_of_isEntryOf hentry⟩, hentry⟩
  have hsame := hinj (hmem hlookup hentry) (hmem hlookup' hentry') hname
  cases hsame
  exact not_isChild_of_extendsName hchildPath hlocator hextends hchild

/-! ## Listing a directory -/

/--
A scan of a directory hands out only children, each once and with its type, if and
only if no path on record continues the directory's own name.
-/
theorem listing_only_children_iff (faulty : Prop) (db : Db) (locator : CStr)
    (filler : σ → CStr → UInt32 → Int × σ) (finfo : σ) (hpaths : WellFormedPaths db)
    (hdir : Key.dentry locator ∈ db)
    (hfiller : ∀ finfo name type, (filler finfo name type).1 = 0) :
    (∀ heap readHeap fuel dh error dh' finfo' passed db₁ db₂,
        Prog.Exec faulty (dbfsDopen heap locator) db (0, some dh) db₁ →
        Prog.Exec faulty (dbfsReaddir readHeap (logging filler) fuel dh (finfo, [])) db₁
          (error, dh', finfo', passed) db₂ →
        OnlyChildren db locator passed) ↔
      ∀ path, Key.dentry path ∈ db → ¬ ExtendsName locator path := by
  have hlocator := hpaths locator hdir
  constructor
  · intro honly path hpath hextends
    have hok : plainHeap.ok = true := rfl
    obtain ⟨dh, hopen, hstands, hfreed⟩ := run_dbfsDopen hok hdir
    obtain ⟨finfo', hfill⟩ := fillEach_logging_never_full hfiller
      (entriesAbove db locator (.dentry locator)) finfo []
    obtain ⟨dh', key', hrun, -⟩ := run_dbfsReaddir plainHeap (logging filler)
      hpaths.absolutePaths hlocator.absolute hstands hfreed (le_refl _) (Nat.lt_succ_self _) hfill
    have hall := honly plainHeap plainHeap _ dh 0 dh' finfo' _ db db (Prog.exec_of_run hopen)
      (Prog.exec_of_run hrun)
    rw [List.nil_append] at hall
    exact not_onlyChildren_entriesAbove hpaths hlocator hpath hextends hall
  · intro hnone heap readHeap fuel dh error dh' finfo' passed db₁ db₂ hopen hread
    obtain ⟨rfl, hstands, hfreed⟩ := stands_of_dbfsDopen hopen
    obtain ⟨-, hpre⟩ := exec_dbfsReaddir hpaths.absolutePaths hstands hfreed hread
    rw [entriesAbove_eq_childrenOf hpaths hlocator hnone] at hpre
    exact (onlyChildren_childrenOf hpaths hlocator).initial hpre

def pathAB : CStr := ⟨[slash, 97, 98], by decide⟩

def namesakeDb : Db := siblingDb.insert (Key.dentry pathAB) (directoryRecord 4)

theorem mem_namesakeDb {path : CStr} :
    Key.dentry path ∈ namesakeDb ↔
      path = pathAB ∨ path = pathB ∨ path = pathA ∨ path = rootPath := by
  simp [namesakeDb, siblingDb, Finmap.mem_insert, Finmap.notMem_empty]

theorem wellFormedPaths_namesakeDb : WellFormedPaths namesakeDb := by
  intro path hpath
  rcases mem_namesakeDb.mp hpath with rfl | rfl | rfl | rfl <;> decide

theorem listing_only_children_root :
    OnlyChildren namesakeDb rootPath
      [(⟨[97], by decide⟩, 0), (⟨[97, 98], by decide⟩, 0), (⟨[98], by decide⟩, 0)] := by
  have hopen : (dbfsDopen plainHeap rootPath).run namesakeDb =
      some ((0, some { initHandle rootPath (directoryRecord 1) with
        mhInterface := .directory, dbc := some (.dentry rootPath) }), namesakeDb) := rfl
  have hread : ∃ dh', (dbfsReaddir plainHeap (logging fun (_ : Unit) _ _ => (0, ())) 5
      { initHandle rootPath (directoryRecord 1) with
        mhInterface := .directory, dbc := some (.dentry rootPath) } ((), [])).run namesakeDb =
      some ((0, dh', (), [(⟨[97], by decide⟩, 0), (⟨[97, 98], by decide⟩, 0),
        (⟨[98], by decide⟩, 0)]), namesakeDb) := ⟨_, rfl⟩
  obtain ⟨dh', hread⟩ := hread
  have hnone : ∀ path, Key.dentry path ∈ namesakeDb → ¬ ExtendsName rootPath path :=
    fun _ _ h => h.1 rfl
  exact (listing_only_children_iff False namesakeDb rootPath (fun _ _ _ => (0, ())) ()
    wellFormedPaths_namesakeDb (mem_namesakeDb.mpr (by simp)) (fun _ _ _ => rfl)).mpr hnone
    _ _ _ _ _ _ _ _ _ _ (Prog.exec_of_run hopen) (Prog.exec_of_run hread)

/-- The listing of `"/a"` has the entry `"b"`, which is the end of `"/ab"`. -/
theorem listing_takes_namesake :
    ¬ ∀ (db : Db) (locator : CStr) (ddd : DentryData)
        (filler : Unit → CStr → UInt32 → Int × Unit), WellFormedPaths db →
      db.lookup (.dentry locator) = some ddd → IsContainer ddd.dddType →
      (∀ finfo name type, (filler finfo name type).1 = 0) →
      ∀ heap readHeap fuel dh error dh' finfo' passed db₁ db₂,
        Prog.Exec False (dbfsDopen heap locator) db (0, some dh) db₁ →
        Prog.Exec False (dbfsReaddir readHeap (logging filler) fuel dh ((), [])) db₁
          (error, dh', finfo', passed) db₂ →
        OnlyChildren db locator passed := by
  intro hlaw
  have hopen : (dbfsDopen plainHeap pathA).run namesakeDb =
      some ((0, some { initHandle pathA (directoryRecord 2) with
        mhInterface := .directory, dbc := some (.dentry pathA) }), namesakeDb) := rfl
  have hread : ∃ dh', (dbfsReaddir plainHeap (logging fun (_ : Unit) _ _ => (0, ())) 5
      { initHandle pathA (directoryRecord 2) with
        mhInterface := .directory, dbc := some (.dentry pathA) } ((), [])).run namesakeDb =
      some ((0, dh', (), [(⟨[98], by decide⟩, 0)]), namesakeDb) := ⟨_, rfl⟩
  obtain ⟨dh', hread⟩ := hread
  obtain ⟨honly, -⟩ := hlaw namesakeDb pathA (directoryRecord 2) (fun _ _ _ => (0, ()))
    wellFormedPaths_namesakeDb rfl rfl (fun _ _ _ => rfl) _ _ _ _ _ _ _ _ _ _
    (Prog.exec_of_run hopen) (Prog.exec_of_run hread)
  obtain ⟨path, ddd, hlookup, hchild, -⟩ := honly _ List.mem_cons_self
  have hpath := mem_namesakeDb.mp (Finmap.mem_iff.mpr ⟨ddd, hlookup⟩)
  rcases hpath with rfl | rfl | rfl | rfl <;> revert hchild <;> decide

/--
A scan of a whole directory ends, returns `0` and hands out every child with its
type, in the order of the names.
-/
theorem listing_misses_no_child (heap readHeap : Heap) (db : Db) (locator : CStr) (fuel : Nat)
    (filler : σ → CStr → UInt32 → Int × σ) (finfo : σ) (hok : heap.ok = true)
    (hpaths : WellFormedPaths db) (hdir : Key.dentry locator ∈ db)
    (hfiller : ∀ finfo name type, (filler finfo name type).1 = 0)
    (hfuel : db.keys.card < fuel) :
    ∃ dh dh' finfo' passed, ∃ children : List (CStr × UInt32),
      (dbfsDopen heap locator).run db = some ((0, some dh), db) ∧
      (dbfsReaddir readHeap (logging filler) fuel dh (finfo, [])).run db =
        some ((0, dh', finfo', passed), db) ∧
      children.Sublist passed ∧
      (∀ entry, entry ∈ children ↔ IsListedChild db locator entry) ∧
      children.Pairwise fun a b => strcmp a.1 b.1 < 0 := by
  have hlocator := hpaths locator hdir
  obtain ⟨dh, hopen, hstands, hfreed⟩ := run_dbfsDopen hok hdir
  obtain ⟨finfo', hfill⟩ := fillEach_logging_never_full hfiller
    (entriesAbove db locator (.dentry locator)) finfo []
  obtain ⟨dh', key', hrun, -⟩ := run_dbfsReaddir readHeap (logging filler)
    hpaths.absolutePaths hlocator.absolute hstands hfreed (le_refl _) hfuel hfill
  rw [List.nil_append] at hrun
  exact ⟨dh, dh', finfo', _, childrenOf db locator, hopen, hrun,
    childrenOf_sublist hpaths hlocator, fun _ => mem_childrenOf_iff hpaths hlocator,
    pairwise_childrenOf hpaths hlocator⟩

theorem listing_misses_no_child_root :
    ∃ dh dh' finfo' passed, ∃ children : List (CStr × UInt32),
      (dbfsDopen plainHeap rootPath).run namesakeDb = some ((0, some dh), namesakeDb) ∧
      (dbfsReaddir plainHeap (logging fun (_ : Unit) _ _ => (0, ())) 5 dh ((), [])).run namesakeDb =
        some ((0, dh', finfo', passed), namesakeDb) ∧
      children.Sublist passed ∧
      (∀ entry, entry ∈ children ↔ IsListedChild namesakeDb rootPath entry) ∧
      children.Pairwise fun a b => strcmp a.1 b.1 < 0 :=
  listing_misses_no_child plainHeap plainHeap namesakeDb rootPath 5 (fun _ _ _ => (0, ())) () rfl
    wellFormedPaths_namesakeDb (mem_namesakeDb.mpr (by simp)) (fun _ _ _ => rfl) (by decide)

end Mangoo.Dbfs
