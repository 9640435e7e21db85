import Mangoo.Foundation.RelyGuarantee
import Mangoo.Dbfs.Children
import Mangoo.Dbfs.KeyOrder
import Mangoo.Dbfs.System

/-!
# Scans among changes

A process that reads a directory while others create and remove entries between its calls to
the database.  The cursor moves on by keys, so what stays in the directory is listed once and
what is listed was there.
-/

namespace Mangoo.Dbfs

open Mangoo.Foundation

def collect (entries : List (CStr × UInt32)) (name : CStr) (type : UInt32) :
    Int × List (CStr × UInt32) := (0, entries ++ [(name, type)])

/-- `mangoo_open` of a directory and one `mdir_read` to its end. -/
def scanDirectory (heap : Heap) (fuel : Nat) (locator : CStr) :
    DbProg (Option (List (CStr × UInt32))) := do
  let (_, dh) ← dbfsOpen heap locator .directory
  match dh with
  | none => return none
  | some dh => do
      let (error, _, entries) ← dbfsReaddir heap collect fuel dh []
      if error ≠ 0 then return none
      return some entries

variable {locator path : CStr} {db : Db}

/-! ## Opening the directory -/

theorem satisfies_dbfsCursorset {I : Db → Prop} (dh : DbfsHandle) (hdh : dh.locator = locator)
    (hkey : dh.attrDdk = .dentry locator) (hfreed : dh.ddkFreed = false) (hdb : I db) :
    (dbfsCursorset dh).Satisfies (Prog.Keeps I) (fun _ _ => True)
      (fun r db => I db ∧ (r.1 = 0 →
        r.2.dbc = some (.dentry locator) ∧ r.2.locator = locator ∧
          r.2.attrDdk = .dentry locator ∧ r.2.ddkFreed = false))
      db := by
  unfold dbfsCursorset
  apply (Prog.satisfies_openCursor_keeps hdb).bind
  intro code db hdb
  by_cases hcode : code = 0
  · rw [if_neg (not_not.mpr hcode)]
    apply (Prog.satisfies_getRec_keeps (β := Rec) (.dentry dh.attrDdk.ddkPath) (hdb db id)).bind
    intro found db hdb
    cases found with
    | error e =>
        refine Prog.satisfies_pure fun db' hrely => ⟨hdb db' hrely, ?_⟩
        dsimp only
        split_ifs
        · exact fun h => absurd h (by decide)
        · exact fun h => absurd h (by decide)
    | ok record =>
        dsimp only
        rw [hkey, Key.ddkPath_dentry, hdh, if_neg (not_not.mpr (strcmp_eq_zero.mpr rfl))]
        exact Prog.satisfies_pure fun db' hrely =>
          ⟨hdb db' hrely, fun _ => ⟨rfl, rfl, rfl, hfreed⟩⟩
  · rw [if_pos hcode]
    refine Prog.satisfies_pure fun db' hrely => ⟨hdb db' hrely, fun h => ?_⟩
    cases h

theorem satisfies_dbfsDopen {I : Db → Prop} (heap : Heap) (hdb : I db) :
    (dbfsDopen heap locator).Satisfies (Prog.Keeps I) (fun _ _ => True)
      (fun r db => I db ∧ ∀ dh, r.2 = some dh →
        dh.dbc = some (.dentry locator) ∧ dh.locator = locator ∧
          dh.attrDdk = .dentry locator ∧ dh.ddkFreed = false)
      db := by
  unfold dbfsDopen dbfsCreatehandle
  split_ifs with hok
  · apply (satisfies_dbfsCursorset { initHandle locator ⟨0, 0, 0, 0, 0, 0, 0, 0⟩ with
      mhInterface := .directory } rfl rfl rfl hdb).bind
    rintro ⟨error, dh⟩ db hopened
    dsimp only
    by_cases hzero : error = 0
    · rw [if_neg (not_not.mpr hzero)]
      apply Prog.satisfies_pure
      intro db' hrely
      obtain ⟨hdb, hdh⟩ := hopened db' hrely
      refine ⟨hdb, ?_⟩
      rintro _ ⟨⟩
      exact hdh hzero
    · rw [if_pos hzero]
      apply Prog.satisfies_pure
      intro db' hrely
      refine ⟨(hopened db' hrely).1, ?_⟩
      rintro dh ⟨⟩
  · apply Prog.satisfies_pure
    intro db' hrely
    refine ⟨hrely hdb, ?_⟩
    rintro dh ⟨⟩

/-! ## What is listed -/

/-- The store during the scan: the kept entries are there and no others than the seen ones.
No path continues the name of the directory. -/
structure DuringScan (locator : CStr) (kept : CStr → Prop) (seen : CStr → DentryData → Prop)
    (db : Db) : Prop where
  paths : WellFormedPaths db
  unextended : ∀ path, Key.dentry path ∈ db → ¬ ExtendsName locator path
  kept : ∀ path, kept path → Key.dentry path ∈ db
  seen : ∀ path ddd, db.lookup (.dentry path) = some ddd → seen path ddd

/-- A listing that misses no kept child and has no unseen one. -/
structure Listed (locator : CStr) (kept : CStr → Prop) (seen : CStr → DentryData → Prop)
    (entries : List (CStr × UInt32)) : Prop where
  sorted : entries.Pairwise fun a b => strcmp a.1 b.1 < 0
  sound : ∀ entry ∈ entries, ∃ path ddd, seen path ddd ∧ IsChild locator path ∧
    entry = (lastComponent path, ddd.dddType)
  complete : ∀ path, kept path → IsChild locator path →
    ∃ type, (lastComponent path, type) ∈ entries

/-- What has been listed of the entries up to a key. -/
structure Gathered (locator : CStr) (kept : CStr → Prop) (seen : CStr → DentryData → Prop)
    (key : Key) (entries : List (CStr × UInt32)) : Prop where
  low : Key.dentry locator ≤ key
  sorted : entries.Pairwise fun a b => strcmp a.1 b.1 < 0
  sound : ∀ entry ∈ entries, ∃ path ddd, seen path ddd ∧ IsChild locator path ∧
    WellFormed path ∧ Key.dentry path ≤ key ∧ entry = (lastComponent path, ddd.dddType)
  complete : ∀ path, kept path → IsChild locator path → Key.dentry path ≤ key →
    ∃ type, (lastComponent path, type) ∈ entries

variable {kept : CStr → Prop} {seen : CStr → DentryData → Prop}
  {key next : Key} {entries : List (CStr × UInt32)} {ddd : DentryData}

theorem DuringScan.isEntryOf_iff (h : DuringScan locator kept seen db)
    (hlocator : WellFormed locator) (hmem : Key.dentry path ∈ db) :
    IsEntryOf locator (.dentry path) ↔ IsChild locator path := by
  rw [Dbfs.isEntryOf_iff (h.paths path hmem) hlocator]
  exact or_iff_left (h.unextended path hmem)

theorem DuringScan.dentry_lt (h : DuringScan locator kept seen db)
    (hlocator : WellFormed locator) (hkept : kept path) (hchild : IsChild locator path) :
    Key.dentry locator < .dentry path :=
  Key.dentry_lt_of_isEntryOf ((h.isEntryOf_iff hlocator (h.kept path hkept)).mpr hchild)

theorem DuringScan.gathered_nil (h : DuringScan locator kept seen db)
    (hlocator : WellFormed locator) : Gathered locator kept seen (.dentry locator) [] where
  low := le_rfl
  sorted := .nil
  sound := by simp
  complete path hkept hchild hle :=
    absurd (h.dentry_lt hlocator hkept hchild) (not_lt.mpr hle)

theorem Gathered.finish (h : Gathered locator kept seen key entries)
    (hdb : DuringScan locator kept seen db)
    (hnone : ∀ path, Key.dentry path ∈ db → IsChild locator path → ¬ key < .dentry path) :
    Listed locator kept seen entries where
  sorted := h.sorted
  sound entry hentry := by
    obtain ⟨path, ddd, hseen, hchild, -, -, rfl⟩ := h.sound entry hentry
    exact ⟨path, ddd, hseen, hchild, rfl⟩
  complete path hkept hchild :=
    h.complete path hkept hchild (not_lt.mp (hnone path (hdb.kept path hkept) hchild))

theorem Gathered.skip (h : Gathered locator kept seen key entries)
    (hdb : DuringScan locator kept seen db) (hnext : nextKey db key = some next)
    (hnot : ∀ path, next = .dentry path → ¬ IsChild locator path) :
    Gathered locator kept seen next entries := by
  obtain ⟨-, hlt, hleast⟩ := nextKey_eq_some_iff.mp hnext
  refine ⟨h.low.trans hlt.le, h.sorted, ?_, ?_⟩
  · intro entry hentry
    obtain ⟨path, ddd, hseen, hchild, hwf, hle, heq⟩ := h.sound entry hentry
    exact ⟨path, ddd, hseen, hchild, hwf, hle.trans hlt.le, heq⟩
  · intro path hkept hchild hle
    by_cases hbehind : Key.dentry path ≤ key
    · exact h.complete path hkept hchild hbehind
    · have hge := hleast _ (hdb.kept path hkept) (not_le.mp hbehind)
      exact absurd hchild (hnot path (le_antisymm hge hle))

theorem Gathered.emit (h : Gathered locator kept seen key entries)
    (hdb : DuringScan locator kept seen db) (hlocator : WellFormed locator)
    (hnext : nextKey db key = some (.dentry path)) (hlookup : db.lookup (.dentry path) = some ddd)
    (hchild : IsChild locator path) :
    Gathered locator kept seen (.dentry path)
      (entries ++ [(lastComponent path, ddd.dddType)]) := by
  obtain ⟨hmem, hlt, hleast⟩ := nextKey_eq_some_iff.mp hnext
  have hwf := hdb.paths path hmem
  refine ⟨h.low.trans hlt.le, ?_, ?_, ?_⟩
  · rw [List.pairwise_append]
    refine ⟨h.sorted, List.pairwise_singleton _ _, ?_⟩
    intro entry hentry last hlast
    obtain ⟨path', ddd', -, hchild', hwf', hle, rfl⟩ := h.sound entry hentry
    rw [List.mem_singleton] at hlast
    subst hlast
    rw [← strcmp_children hlocator hwf' hwf hchild' hchild, ← dbfsBtCompare_dentry]
    exact Key.lt_iff.mp (lt_of_le_of_lt hle hlt)
  · intro entry hentry
    rcases List.mem_append.mp hentry with hentry | hlast
    · obtain ⟨path', ddd', hseen, hchild', hwf', hle, heq⟩ := h.sound entry hentry
      exact ⟨path', ddd', hseen, hchild', hwf', hle.trans hlt.le, heq⟩
    · rw [List.mem_singleton] at hlast
      exact ⟨path, ddd, hdb.seen path ddd hlookup, hchild, hwf, le_rfl, hlast⟩
  · intro path' hkept hchild' hle
    by_cases hbehind : Key.dentry path' ≤ key
    · obtain ⟨type, htype⟩ := h.complete path' hkept hchild' hbehind
      exact ⟨type, List.mem_append_left _ htype⟩
    · have hge := hleast _ (hdb.kept path' hkept) (not_le.mp hbehind)
      obtain rfl : path' = path := by simpa using le_antisymm hle hge
      exact ⟨ddd.dddType, by simp⟩

/-! ## The scan -/

/-- What the rules take one entry for. -/
inductive Scanned (locator entry : CStr) : Scan → Prop
  | stop : entry.startsWith locator = false → Scanned locator entry .stop
  | skip : ¬ IsChild locator entry → Scanned locator entry .skip
  | emit : IsChild locator entry → Scanned locator entry (.emit (lastComponent entry))

theorem DuringScan.scanned {isroot : Bool} (h : DuringScan locator kept seen db)
    (hlocator : WellFormed locator) (hisroot : isroot = true → locator = rootPath)
    (hmem : Key.dentry path ∈ db) : Scanned locator path (scanEntry isroot locator path) := by
  have hwf := h.paths path hmem
  have hrule : scanEntry isroot locator path = scanEntry false locator path := by
    cases isroot with
    | false => rfl
    | true =>
        rw [hisroot rfl]
        exact scanEntry_rootPath hwf.absolute
  rw [hrule]
  cases hstarts : path.startsWith locator with
  | false =>
      rw [scanEntry_of_not_startsWith hstarts]
      exact .stop hstarts
  | true =>
      by_cases hchild : IsChild locator path
      · rw [scanEntry_of_entry ((h.isEntryOf_iff hlocator hmem).mpr hchild),
          entryName_of_isChild hchild hwf hlocator]
        exact .emit hchild
      · rw [scanEntry_of_not_entry hstarts fun hentry =>
          hchild ((h.isEntryOf_iff hlocator hmem).mp hentry)]
        exact .skip hchild

theorem DuringScan.not_lt_of_stop {stopped : CStr} (h : DuringScan locator kept seen db)
    (hlocator : WellFormed locator) (hlow : Key.dentry locator ≤ key)
    (hnext : nextKey db key = some (.dentry stopped))
    (hstarts : stopped.startsWith locator = false) (hmem : Key.dentry path ∈ db)
    (hchild : IsChild locator path) : ¬ key < .dentry path := by
  intro hlt
  obtain ⟨-, hkey, hleast⟩ := nextKey_eq_some_iff.mp hnext
  have hpath := startsWith_of_isChild hchild (h.paths path hmem) hlocator
  rw [startsWith_of_le (hlow.trans hkey.le) (hleast _ hmem hlt) hpath] at hstarts
  cases hstarts

theorem satisfies_readdirLoop {isroot : Bool} (heap : Heap) (hlocator : WellFormed locator)
    (hisroot : isroot = true → locator = rootPath) (fuel : Nat) (dh : DbfsHandle)
    (hdbc : dh.dbc = some key) (hdh : dh.locator = locator)
    (hdb : DuringScan locator kept seen db) (hgathered : Gathered locator kept seen key entries) :
    (readdirLoop heap collect isroot fuel dh entries).Satisfies
      (Prog.Keeps (DuringScan locator kept seen)) (fun _ _ => True)
      (fun r _ => r.1 = 0 → Listed locator kept seen r.2.2) db := by
  induction fuel generalizing dh key entries db with
  | zero => trivial
  | succ fuel ih =>
      rw [readdirLoop, hdbc]
      apply (Prog.satisfies_nextRec_keeps key hdb).bind
      intro r db hr
      obtain ⟨hdb, ⟨mid, hmid, rfl⟩ | ⟨e, he, rfl⟩⟩ := hr db id
      · cases hadvance : advance mid key with
        | error e =>
            obtain ⟨rfl, hnone⟩ := advance_error hadvance
            refine Prog.satisfies_pure fun _ _ _ => hgathered.finish hmid ?_
            exact fun path hmem _ => nextKey_eq_none_iff.mp hnone _ hmem
        | ok found =>
            obtain ⟨next, record⟩ := found
            obtain ⟨hnext, hlookup⟩ := advance_eq_ok_iff.mp hadvance
            obtain ⟨hmem, hlt, hleast⟩ := nextKey_eq_some_iff.mp hnext
            cases next with
            | fsinfo =>
                exact absurd (hgathered.low.trans_lt hlt) (Key.fsinfo_lt_dentry _).not_gt
            | block ino offset =>
                refine Prog.satisfies_pure fun _ _ _ => hgathered.finish hmid ?_
                intro path hpath _ hkey
                exact absurd (Key.dentry_lt_block path ino offset) (hleast _ hpath hkey).not_gt
            | dentry entry =>
                have hscanned := hmid.scanned hlocator hisroot hmem
                rw [← hdh] at hscanned
                dsimp only [DbfsHandle.movedTo]
                cases hscan : scanEntry isroot dh.locator entry with
                | stop =>
                    rw [hscan] at hscanned
                    cases hscanned with
                    | stop hstarts =>
                        rw [hdh] at hstarts
                        refine Prog.satisfies_pure fun _ _ _ => hgathered.finish hmid ?_
                        exact fun path => hmid.not_lt_of_stop hlocator hgathered.low hnext hstarts
                | skip =>
                    rw [hscan] at hscanned
                    cases hscanned with
                    | skip hnot =>
                        rw [hdh] at hnot
                        refine ih _ rfl hdh hdb ?_
                        apply hgathered.skip hmid hnext
                        rintro path ⟨⟩
                        exact hnot
                | emit name =>
                    rw [hscan] at hscanned
                    cases hscanned with
                    | emit hchild =>
                        rw [hdh] at hchild
                        simp only [collect, ne_eq, not_true_eq_false, if_false]
                        refine ih _ rfl hdh hdb ?_
                        exact hgathered.emit hmid hlocator hnext hlookup hchild
      · apply Prog.satisfies_pure
        intro _ _ hzero
        dsimp only at hzero
        rw [if_neg he.2] at hzero
        cases hzero

theorem satisfies_scanDirectory (heap : Heap) (fuel : Nat) (hlocator : WellFormed locator)
    (hdb : DuringScan locator kept seen db) :
    (scanDirectory heap fuel locator).Satisfies (Prog.Keeps (DuringScan locator kept seen))
      (fun _ _ => True)
      (fun r _ => ∀ entries, r = some entries → Listed locator kept seen entries) db := by
  unfold scanDirectory
  apply (satisfies_dbfsDopen heap hdb).bind
  rintro ⟨error, handle⟩ db hopened
  cases handle with
  | none =>
      apply Prog.satisfies_pure
      rintro db' - entries ⟨⟩
  | some dh =>
      obtain ⟨hdb, hdh⟩ := hopened db id
      obtain ⟨hdbc, hloc, hkey, hfreed⟩ := hdh dh rfl
      have hisroot : decide (dh.attrDdk.ddkPath = rootPath) = true → locator = rootPath := by
        rw [hkey, Key.ddkPath_dentry]
        exact of_decide_eq_true
      have hloop := satisfies_readdirLoop heap hlocator hisroot fuel dh hdbc hloc hdb
        (hdb.gathered_nil hlocator)
      rw [← dbfsReaddir_of_not_freed heap collect fuel [] hfreed] at hloop
      apply hloop.bind
      rintro ⟨error, dh', entries⟩ db' hlisted
      dsimp only
      by_cases hzero : error = 0
      · rw [if_neg (not_not.mpr hzero)]
        apply Prog.satisfies_pure
        rintro db'' hrely _ ⟨⟩
        exact hlisted db'' hrely hzero
      · rw [if_pos hzero]
        apply Prog.satisfies_pure
        rintro db'' - entries ⟨⟩

/-! ## How long a scan takes -/

variable {K : Finset Key}

theorem endsWithin_dbfsCursorset {I : Db → Prop} (dh : DbfsHandle) (hdb : I db) :
    Prog.EndsWithin (Prog.Keeps I) 2 (dbfsCursorset dh) db := by
  apply Prog.endsWithin_openCursor.bind_keeps (n := 1) (Prog.satisfies_openCursor_keeps hdb)
  intro code db hdb
  split_ifs
  · exact Prog.endsWithin_ret _ _ _
  · apply (Prog.endsWithin_getRec _).bind_keeps (n := 0)
      (Prog.satisfies_getRec_keeps (β := Rec) (.dentry dh.attrDdk.ddkPath) (hdb db id))
    intro found db _
    cases found with
    | error => exact Prog.endsWithin_ret _ _ _
    | ok =>
        dsimp only
        split_ifs
        · exact Prog.endsWithin_ret _ _ _
        · exact Prog.endsWithin_ret _ _ _

theorem endsWithin_dbfsDopen {I : Db → Prop} (heap : Heap) (hdb : I db) :
    Prog.EndsWithin (Prog.Keeps I) 2 (dbfsDopen heap locator) db := by
  unfold dbfsDopen dbfsCreatehandle
  split_ifs
  · apply (endsWithin_dbfsCursorset _ hdb).bind_keeps (n := 0)
      (satisfies_dbfsCursorset { initHandle locator ⟨0, 0, 0, 0, 0, 0, 0, 0⟩ with
        mhInterface := .directory } rfl rfl rfl hdb)
    rintro ⟨error, dh⟩ db -
    dsimp only
    split_ifs
    · exact Prog.endsWithin_ret _ _ _
    · exact Prog.endsWithin_ret _ _ _
  · exact Prog.endsWithin_ret _ _ _

theorem card_above_lt (hlt : key < next) (hmem : next ∈ K) :
    (K.filter (next < ·)).card < (K.filter (key < ·)).card := by
  apply Finset.card_lt_card
  refine Finset.ssubset_iff_of_subset ?_ |>.mpr ⟨next, ?_, ?_⟩
  · exact Finset.monotone_filter_right K fun _ _ => hlt.trans
  · exact Finset.mem_filter.mpr ⟨hmem, hlt⟩
  · exact fun h => lt_irrefl _ (Finset.mem_filter.mp h).2

/-- The cursor moves on at each call, and only so many keys are ahead of it. -/
theorem endsWithin_readdirLoop {σ : Type} (heap : Heap)
    (filler : σ → CStr → UInt32 → Int × σ) (isroot : Bool) (fuel : Nat) (dh : DbfsHandle)
    (finfo : σ) (hdbc : dh.dbc = some key) (hdb : db.keys ⊆ K)
    (hfuel : (K.filter (key < ·)).card < fuel) :
    Prog.EndsWithin (Prog.Keeps fun db => db.keys ⊆ K) ((K.filter (key < ·)).card + 1)
      (readdirLoop heap filler isroot fuel dh finfo) db := by
  induction fuel generalizing dh key finfo db with
  | zero => exact absurd hfuel (Nat.not_lt_zero _)
  | succ fuel ih =>
      rw [readdirLoop, hdbc, Nat.add_comm]
      apply (Prog.endsWithin_nextRec key).bind_keeps (Prog.satisfies_nextRec_keeps key hdb)
      intro r db hr
      obtain ⟨hdb, ⟨mid, hmid, rfl⟩ | ⟨e, -, rfl⟩⟩ := hr db id
      · cases hadvance : advance mid key with
        | error e => exact Prog.endsWithin_ret _ _ _
        | ok found =>
            obtain ⟨next, record⟩ := found
            obtain ⟨hnext, -⟩ := advance_eq_ok_iff.mp hadvance
            obtain ⟨hmem, hlt, -⟩ := nextKey_eq_some_iff.mp hnext
            have hless := card_above_lt hlt (hmid (Finmap.mem_keys.mpr hmem))
            have hgo : ∀ (dh : DbfsHandle) (finfo : σ), dh.dbc = some next →
                Prog.EndsWithin (Prog.Keeps fun db => db.keys ⊆ K) (K.filter (key < ·)).card
                  (readdirLoop heap filler isroot fuel dh finfo) db := by
              intro dh finfo hdbc
              apply (ih dh finfo hdbc hdb (hless.trans_le (Nat.le_of_lt_succ hfuel))).mono
              exact hless
            cases next with
            | fsinfo | block => exact Prog.endsWithin_ret _ _ _
            | dentry entry =>
                dsimp only
                split
                · exact Prog.endsWithin_ret _ _ _
                · exact hgo _ _ rfl
                · split_ifs
                  · exact Prog.endsWithin_ret _ _ _
                  · exact hgo _ _ rfl
      · exact Prog.endsWithin_ret _ _ _

theorem endsWithin_scanDirectory (heap : Heap) {fuel : Nat} (hdb : db.keys ⊆ K)
    (hfuel : (K.filter (Key.dentry locator < ·)).card < fuel) :
    Prog.EndsWithin (Prog.Keeps fun db => db.keys ⊆ K)
      (2 + ((K.filter (Key.dentry locator < ·)).card + 1)) (scanDirectory heap fuel locator)
      db := by
  apply (endsWithin_dbfsDopen heap hdb).bind_keeps (satisfies_dbfsDopen heap hdb)
  rintro ⟨error, handle⟩ db hopened
  cases handle with
  | none => exact Prog.endsWithin_ret _ _ _
  | some dh =>
      obtain ⟨hdb, hdh⟩ := hopened db id
      obtain ⟨hdbc, -, -, hfreed⟩ := hdh dh rfl
      have hloop := endsWithin_readdirLoop heap collect
        (decide (dh.attrDdk.ddkPath = rootPath)) fuel dh [] hdbc hdb hfuel
      rw [← dbfsReaddir_of_not_freed heap collect fuel [] hfreed] at hloop
      apply hloop.bind_keeps (n := 0) (Prog.satisfies_true _ db)
      rintro ⟨error, dh', entries⟩ db' -
      dsimp only
      split_ifs
      · exact Prog.endsWithin_ret _ _ _
      · exact Prog.endsWithin_ret _ _ _

/-! ## Among other threads -/

variable {ι : Type} [DecidableEq ι] {start s : Pool ι Rec (Option (List (CStr × UInt32)))}
  {schedule : List ι} {i : ι}

/--
Whatever other threads create and remove between the calls of a scan, the scan lists every child
that stays, with no name twice and in the order of the names, and only children that were there.
-/
theorem scan_among_others (heap : Heap) (fuel : Nat) (locator : CStr) (kept : CStr → Prop)
    (seen : CStr → DentryData → Prop) (entries : List (CStr × UInt32))
    (hlocator : WellFormed locator)
    (hscan : start.threads i = scanDirectory heap fuel locator)
    (hstart : DuringScan locator kept seen start.db)
    (h : Run (fun s j s' => Pool.Step s j s' ∧ DuringScan locator kept seen s'.db) start schedule s)
    (hdone : s.threads i = .ret (some entries)) : Listed locator kept seen entries := by
  have hrun : Run (fun s j s' => Pool.Step s j s' ∧
      (j ≠ i → Prog.Keeps (DuringScan locator kept seen) s.db s'.db)) start schedule s :=
    h.mono fun s j s' hstep => ⟨hstep.1, fun _ _ => hstep.2⟩
  have hends := Pool.satisfies_of_run hrun
    (by rw [hscan]; exact satisfies_scanDirectory heap fuel hlocator hstart)
    (Prog.Keeps.refl _) Prog.Keeps.trans fun _ => trivial
  rw [hdone] at hends
  exact hends s.db id entries rfl

/-- One thread lists the root directory, the other creates `"/ab"`. -/
def scanAndCreate : Pool Bool Rec (Option (List (CStr × UInt32))) where
  threads
    | false => scanDirectory plainHeap 4 rootPath
    | true => do
        let _ ← dbfsCreate plainHeap plainProc ⟨4⟩ pathAB 0o755 .container
        return none
  db := siblingDb

def namesakeKeys : Finset Key :=
  {.dentry rootPath, .dentry pathA, .dentry pathAB, .dentry pathB}

def namesakeEntries : List (CStr × UInt32) :=
  [(⟨[97], by decide⟩, 0), (⟨[97, 98], by decide⟩, 0), (⟨[98], by decide⟩, 0)]

/-- What the stores of the run have in common. -/
structure DuringCreate (db : Db) : Prop where
  keys : db.keys ⊆ namesakeKeys
  siblings : siblingDb.keys ⊆ db.keys

theorem DuringCreate.cases (h : DuringCreate db) (hmem : Key.dentry path ∈ db) :
    path = rootPath ∨ path = pathA ∨ path = pathAB ∨ path = pathB := by
  simpa [namesakeKeys] using h.keys (Finmap.mem_keys.mpr hmem)

theorem DuringCreate.duringScan (h : DuringCreate db) :
    DuringScan rootPath (fun path => Key.dentry path ∈ siblingDb)
      (fun path _ => Key.dentry path ∈ namesakeKeys) db where
  paths path hmem := by
    rcases h.cases hmem with rfl | rfl | rfl | rfl <;> decide
  unextended _ _ hextends := hextends.1 rfl
  kept path hmem := Finmap.mem_keys.mp (h.siblings (Finmap.mem_keys.mpr hmem))
  seen path ddd hlookup := h.keys (Finmap.mem_keys.mpr (Finmap.mem_iff.mpr ⟨ddd, hlookup⟩))

theorem duringCreate_siblingDb : DuringCreate siblingDb where
  keys := by decide
  siblings := Finset.Subset.refl _

theorem duringCreate_insert (ddd : DentryData) :
    DuringCreate (siblingDb.insert (Key.dentry pathAB) ddd) where
  keys k hk := by
    rcases Finmap.mem_insert.mp (Finmap.mem_keys.mp hk) with rfl | hk
    · decide
    · exact duringCreate_siblingDb.keys (Finmap.mem_keys.mpr hk)
  siblings k hk := Finmap.mem_keys.mpr (Finmap.mem_insert.mpr (.inr (Finmap.mem_keys.mp hk)))

theorem run_scanAndCreate : ∃ s, Run (fun s j s' => Pool.Step s j s' ∧ DuringCreate s'.db)
      scanAndCreate [false, false, true, false, false, false, false] s ∧
    s.threads false = .ret (some namesakeEntries) := by
  have hsib := duringCreate_siblingDb
  have hins := duringCreate_insert
  refine ⟨_, .cons ⟨.call .cursor, hsib⟩ <| .cons ⟨.call .get, hsib⟩ <|
    .cons ⟨.call .put, hins _⟩ <| .cons ⟨.call .next, hins _⟩ <|
      .cons ⟨.call .next, hins _⟩ <| .cons ⟨.call .next, hins _⟩ <|
        .single ⟨.call .next, hins _⟩, rfl⟩

theorem scan_among_others_create : Listed rootPath (fun path => Key.dentry path ∈ siblingDb)
    (fun path _ => Key.dentry path ∈ namesakeKeys) namesakeEntries := by
  obtain ⟨s, hrun, hdone⟩ := run_scanAndCreate
  exact scan_among_others (i := false) plainHeap 4 rootPath _ _ _ (by decide) rfl
    duringCreate_siblingDb.duringScan
    (hrun.mono fun s j s' hstep => ⟨hstep.1, hstep.2.duringScan⟩) hdone

/--
A scan is done after a call for each key ahead of the directory and three more, however the calls
of the other threads fall between them.
-/
theorem scan_ends (heap : Heap) (fuel : Nat) (locator : CStr) (K : Finset Key)
    (hfuel : (K.filter (Key.dentry locator < ·)).card < fuel)
    (hscan : start.threads i = scanDirectory heap fuel locator) (hstart : start.db.keys ⊆ K)
    (h : Run (fun s j s' => Pool.Step s j s' ∧ s'.db.keys ⊆ K) start schedule s) :
    schedule.count i ≤ (K.filter (Key.dentry locator < ·)).card + 3 ∧
      (schedule.count i = (K.filter (Key.dentry locator < ·)).card + 3 →
        ∃ r, s.threads i = .ret r) ∧
      ((∃ r, s.threads i = .ret r) ∨ ∃ s', Pool.Step s i s') := by
  have hrun : Run (fun s j s' => Pool.Step s j s' ∧
      (j ≠ i → Prog.Keeps (fun db => db.keys ⊆ K) s.db s'.db)) start schedule s :=
    h.mono fun s j s' hstep => ⟨hstep.1, fun _ _ => hstep.2⟩
  obtain ⟨m, hcount, hends⟩ := Pool.endsWithin_of_run hrun
    (by rw [hscan]; exact endsWithin_scanDirectory heap hstart hfuel)
    (Prog.Keeps.refl _) Prog.Keeps.trans
  refine ⟨by omega, fun hall => ?_, ?_⟩
  · obtain rfl : m = 0 := by omega
    exact hends
  · rcases hends.can_call with hdone | ⟨x', db', hcall⟩
    · exact .inl hdone
    · exact .inr ⟨_, .call hcall⟩

theorem scan_ends_create : ∃ s, (∃ schedule, Run Pool.Step scanAndCreate schedule s) ∧
    ∃ r, s.threads false = .ret r := by
  obtain ⟨s, hrun, -⟩ := run_scanAndCreate
  have hends := scan_ends (i := false) plainHeap 4 rootPath namesakeKeys (by decide) rfl
    duringCreate_siblingDb.keys (hrun.mono fun s j s' hstep => ⟨hstep.1, hstep.2.keys⟩)
  exact ⟨s, ⟨_, hrun.mono fun _ _ _ hstep => hstep.1⟩, hends.2.1 (by decide)⟩

end Mangoo.Dbfs
