import Mangoo.Foundation.CursorScan
import Mangoo.Dbfs.Store

/-!
# The entries of a directory

What a scan of `dbfs_readdir` hands to its filler.  The keys that extend a path
form an interval, so the scan of a directory sees all of its entries before it
stops, and a scan that the filler interrupts can be resumed from the cursor.
-/

namespace Mangoo.Dbfs

open Mangoo.Foundation

/-- The names and types that are offered to the filler. -/
def entriesFrom (isroot : Bool) (locator : CStr) : List (Sigma Rec) → List (CStr × UInt32)
  | [] => []
  | ⟨.dentry entry, ddd⟩ :: records =>
      match scanEntry isroot locator entry with
      | .stop => []
      | .skip => entriesFrom isroot locator records
      | .emit name =>
          (name, DentryData.dddType ddd) :: entriesFrom isroot locator records
  | ⟨_, _⟩ :: _ => []

variable {σ : Type}

/-- Offer entries until the filler refuses one.  The entries behind that one are
left. -/
def fillEach (filler : σ → CStr → UInt32 → Int × σ) :
    List (CStr × UInt32) → σ → Int × List (CStr × UInt32) × σ
  | [], finfo => (0, [], finfo)
  | (name, type) :: entries, finfo =>
      let (error, finfo) := filler finfo name type
      if error ≠ 0 then (error, entries, finfo) else fillEach filler entries finfo

/-- The handle's cursor stands on the key, and so does the key buffer if it was not moved. -/
structure Stands (dh : DbfsHandle) (locator : CStr) (key : Key) : Prop where
  locator_eq : dh.locator = locator
  cursor : dh.dbc = some key
  size : dh.ddkSize = keySize key
  buffer : dh.ddkFreed = false → dh.attrDdk = key

/-- The keys that a scan meets when its filler takes every entry. -/
def keysMet (isroot : Bool) (locator : CStr) : List (Sigma Rec) → List Key
  | [] => []
  | ⟨.dentry entry, _⟩ :: records =>
      match scanEntry isroot locator entry with
      | .stop => [.dentry entry]
      | .skip | .emit _ => .dentry entry :: keysMet isroot locator records
  | ⟨key, _⟩ :: _ => [key]

/-- Each key fits into the buffer, which has room for the key before it, or lets it grow in
place. -/
def KeepsBuffer (heap : Heap) : Nat → List Key → Prop
  | _, [] => True
  | size, key :: keys =>
      (size < keySize key → heap.regrow key = key) ∧ KeepsBuffer heap (keySize key) keys

variable {db : Db} {locator : CStr} {isroot : Bool} {key : Key} {heap : Heap}

/-! ## Opening a directory -/

theorem stands_of_dbfsDopen {faulty : Prop} {heap : Heap} {db' : Db} {dh : DbfsHandle}
    (h : Prog.Exec faulty (dbfsDopen heap locator) db (0, some dh) db') :
    db' = db ∧ Stands dh locator (.dentry locator) ∧ dh.ddkFreed = false := by
  obtain ⟨rfl, ⟨herror, -⟩ | ⟨-, record, -, heq⟩⟩ := exec_dbfsDopen h
  · exact absurd rfl herror
  · cases heq
    exact ⟨rfl, ⟨rfl, rfl, rfl, fun _ => rfl⟩, rfl⟩

theorem run_dbfsDopen {heap : Heap} (hok : heap.ok = true) (hdir : Key.dentry locator ∈ db) :
    ∃ dh, (dbfsDopen heap locator).run db = some ((0, some dh), db) ∧
      Stands dh locator (.dentry locator) ∧ dh.ddkFreed = false := by
  obtain ⟨ddd, hlookup⟩ := Finmap.mem_iff.mp hdir
  have hcode : strcmp locator locator = 0 := strcmp_eq_zero.mpr rfl
  refine ⟨{ initHandle locator ddd with
      mhInterface := .directory, dbc := some (.dentry locator) }, ?_,
    ⟨rfl, rfl, rfl, fun _ => rfl⟩, rfl⟩
  simp [dbfsDopen, dbfsCreatehandle, hok, dbfsCursorset, initHandle,
    fetch_of_lookup hlookup, hcode]

/-! ## The end of a scan -/

theorem entriesFrom_cons_dentry {entry : CStr} {ddd : DentryData}
    {records : List (Sigma Rec)} :
    entriesFrom isroot locator (⟨.dentry entry, ddd⟩ :: records) =
      match scanEntry isroot locator entry with
      | .stop => []
      | .skip => entriesFrom isroot locator records
      | .emit name => (name, ddd.dddType) :: entriesFrom isroot locator records := rfl

theorem scanEntry_eq_stop {entry : CStr} (h : scanEntry isroot locator entry = .stop) :
    isroot = false ∧ entry.startsWith locator = false := by
  unfold scanEntry at h
  split at h
  · cases h
  · split at h
    · assumption
    · split at h
      · cases h
      · split at h <;> cases h

theorem scanEntry_of_not_startsWith {entry : CStr}
    (h : entry.startsWith locator = false) : scanEntry false locator entry = .stop := by
  simp [scanEntry, h]

theorem startsWith_of_le {entry later : CStr} (hlow : Key.dentry locator ≤ .dentry entry)
    (hhigh : Key.dentry entry ≤ .dentry later) (h : later.startsWith locator = true) :
    entry.startsWith locator = true := by
  rw [CStr.startsWith_iff] at h ⊢
  exact prefix_of_strcmp_between (Key.dentry_le_iff.mp hlow) (Key.dentry_le_iff.mp hhigh) h

theorem entriesFrom_above_stop {entry : CStr} (hlow : Key.dentry locator ≤ .dentry entry)
    (h : scanEntry isroot locator entry = .stop) :
    entriesFrom isroot locator (recordsAbove db (.dentry entry)) = [] := by
  obtain ⟨rfl, hnot⟩ := scanEntry_eq_stop h
  cases hadvance : advance db (.dentry entry) with
  | error e => rw [recordsAbove_of_error hadvance, entriesFrom]
  | ok r =>
      rw [recordsAbove_of_ok hadvance]
      obtain ⟨key, record⟩ := r
      have hlt := (nextKey_eq_some_iff.mp (nextKey_of_advance hadvance)).2.1
      cases key with
      | fsinfo => rfl
      | block ino offset => rfl
      | dentry later =>
          have hlater : later.startsWith locator = false := by
            by_contra hstarts
            rw [Bool.not_eq_false] at hstarts
            rw [startsWith_of_le hlow hlt.le hstarts] at hnot
            cases hnot
          rw [entriesFrom_cons_dentry, scanEntry_of_not_startsWith hlater]

theorem entriesFrom_above_block (ino offset : UInt64) :
    entriesFrom isroot locator (recordsAbove db (.block ino offset)) = [] := by
  cases hadvance : advance db (.block ino offset) with
  | error e => rw [recordsAbove_of_error hadvance, entriesFrom]
  | ok r =>
      rw [recordsAbove_of_ok hadvance]
      obtain ⟨key, record⟩ := r
      have hlt := (nextKey_eq_some_iff.mp (nextKey_of_advance hadvance)).2.1
      cases key with
      | fsinfo => rfl
      | block ino offset => rfl
      | dentry later => exact absurd hlt (not_lt_of_gt (Key.dentry_lt_block _ _ _))

/-! ## The key buffer -/

theorem ddkFreed_movedTo_iff {dh : DbfsHandle} (heap : Heap)
    (hsize : dh.ddkSize = keySize key) (next : Key) :
    (dh.movedTo heap next).ddkFreed = false ↔
      dh.ddkFreed = false ∧ (keySize key < keySize next → heap.regrow next = next) := by
  simp [DbfsHandle.movedTo, hsize]

theorem Stands.movedTo {dh : DbfsHandle} (h : Stands dh locator key) (heap : Heap) (next : Key)
    (ddd : DentryData) :
    Stands { dh.movedTo heap next with ddkSize := keySize next, attrDdd := ddd } locator next where
  locator_eq := h.locator_eq
  cursor := rfl
  size := rfl
  buffer := by
    intro hfreed
    obtain ⟨hdh, hregrow⟩ := (ddkFreed_movedTo_iff heap h.size next).mp hfreed
    change (if dh.ddkFreed then dh.attrDdk else returnedKey heap dh next) = next
    rw [hdh, if_neg Bool.false_ne_true, returnedKey, h.size]
    split
    · rfl
    · rename_i hlarger
      exact hregrow (Nat.lt_of_not_le hlarger)

/-- What a scan from `key` on that meets `keys` leaves of the key buffer. -/
structure BufferAfter (heap : Heap) (key : Key) (keys : List Key) (freed : Bool) (error : Int)
    (dh : DbfsHandle) (key' : Key) : Prop where
  inPlace : heap.InPlace → freed = false → dh.ddkFreed = false
  last : error = 0 → key' = keys.getLastD key
  kept_iff : error = 0 →
    (dh.ddkFreed = false ↔ freed = false ∧ KeepsBuffer heap (keySize key) keys)

theorem bufferAfter_nil {dh : DbfsHandle} {freed : Bool} {error : Int}
    (hfreed : dh.ddkFreed = freed) : BufferAfter heap key [] freed error dh key where
  inPlace _ h := hfreed.trans h
  last _ := rfl
  kept_iff _ := by simp [KeepsBuffer, hfreed]

theorem BufferAfter.cons {next key' : Key} {keys : List Key} {dh dh₁ dh' : DbfsHandle}
    {error : Int} (hmoved : dh₁.ddkFreed = false ↔
      dh.ddkFreed = false ∧ (keySize key < keySize next → heap.regrow next = next))
    (h : BufferAfter heap next keys dh₁.ddkFreed error dh' key') :
    BufferAfter heap key (next :: keys) dh.ddkFreed error dh' key' where
  inPlace hinPlace hfreed := h.inPlace hinPlace (hmoved.mpr ⟨hfreed, fun _ => hinPlace next⟩)
  last hzero := by rw [h.last hzero, List.getLastD_cons]
  kept_iff hzero := by rw [h.kept_iff hzero, hmoved, KeepsBuffer, and_assoc]

theorem BufferAfter.refused {next : Key} {keys : List Key} {dh dh₁ : DbfsHandle} {error : Int}
    (hmoved : dh₁.ddkFreed = false ↔
      dh.ddkFreed = false ∧ (keySize key < keySize next → heap.regrow next = next))
    (herror : error ≠ 0) : BufferAfter heap key keys dh.ddkFreed error dh₁ next where
  inPlace hinPlace hfreed := hmoved.mpr ⟨hfreed, fun _ => hinPlace next⟩
  last hzero := absurd hzero herror
  kept_iff hzero := absurd hzero herror

/-! ## A scan as a pass over the entries -/

theorem run_readdirLoop_dentry (heap : Heap) (filler : σ → CStr → UInt32 → Int × σ)
    (fuel : Nat) {dh dh₁ : DbfsHandle} (finfo : σ) {entry : CStr} {ddd : DentryData}
    (hstands : Stands dh locator key) (hadvance : advance db key = .ok ⟨.dentry entry, ddd⟩)
    (hdh₁ : dh₁ = { dh.movedTo heap (.dentry entry) with
      ddkSize := keySize (.dentry entry), attrDdd := ddd }) :
    (readdirLoop heap filler isroot (fuel + 1) dh finfo).run db =
      match scanEntry isroot locator entry with
      | .stop => some ((0, dh₁, finfo), db)
      | .skip => (readdirLoop heap filler isroot fuel dh₁ finfo).run db
      | .emit name =>
          if (filler finfo name ddd.dddType).1 ≠ 0 then
            some (((filler finfo name ddd.dddType).1, dh₁, (filler finfo name ddd.dddType).2), db)
          else
            (readdirLoop heap filler isroot fuel dh₁ (filler finfo name ddd.dddType).2).run db := by
  subst hdh₁
  have hlocator : (dh.movedTo heap (.dentry entry)).locator = locator := hstands.locator_eq
  simp only [readdirLoop, cursorNext, hstands.cursor, Prog.run_bind, Prog.run_nextRec,
    hadvance, Option.bind_some, hlocator]
  cases scanEntry isroot locator entry with
  | stop => rfl
  | skip => rfl
  | emit name => dsimp only; split_ifs <;> rfl

theorem keysMet_cons_dentry {entry : CStr} {ddd : DentryData} {records : List (Sigma Rec)} :
    keysMet isroot locator (⟨.dentry entry, ddd⟩ :: records) =
      match scanEntry isroot locator entry with
      | .stop => [.dentry entry]
      | .skip | .emit _ => .dentry entry :: keysMet isroot locator records := rfl

theorem run_readdirLoop (heap : Heap) (filler : σ → CStr → UInt32 → Int × σ) {fuel : Nat}
    {dh : DbfsHandle} (finfo : σ) (hstands : Stands dh locator key)
    (hlow : Key.dentry locator ≤ key) (hfuel : (recordsAbove db key).length < fuel)
    {error : Int} {left : List (CStr × UInt32)} {finfo' : σ}
    (hfill : fillEach filler (entriesFrom isroot locator (recordsAbove db key)) finfo =
      (error, left, finfo')) :
    ∃ dh' key', (readdirLoop heap filler isroot fuel dh finfo).run db =
        some ((error, dh', finfo'), db) ∧ Stands dh' locator key' ∧ key ≤ key' ∧
      entriesFrom isroot locator (recordsAbove db key') = left ∧
      BufferAfter heap key (keysMet isroot locator (recordsAbove db key)) dh.ddkFreed error
        dh' key' := by
  induction fuel generalizing dh key finfo with
  | zero => omega
  | succ fuel ih =>
      cases hadvance : advance db key with
      | error code =>
          obtain ⟨rfl, -⟩ := advance_error hadvance
          rw [recordsAbove_of_error hadvance] at hfill ⊢
          cases hfill
          refine ⟨dh, key, ?_, hstands, le_refl _, ?_, bufferAfter_nil rfl⟩
          · simp [readdirLoop, cursorNext, hstands.cursor, hadvance]
          · rw [recordsAbove_of_error hadvance, entriesFrom]
      | ok r =>
          have hlt := (nextKey_eq_some_iff.mp (nextKey_of_advance hadvance)).2.1
          rw [recordsAbove_of_ok hadvance] at hfill hfuel ⊢
          obtain ⟨key₁, record⟩ := r
          have hlow₁ : Key.dentry locator ≤ key₁ := hlow.trans hlt.le
          have hmoved := ddkFreed_movedTo_iff heap hstands.size key₁
          cases key₁ with
          | fsinfo => exact absurd hlow₁ (not_le_of_gt (Key.fsinfo_lt_dentry locator))
          | block ino offset =>
              cases hfill
              refine ⟨{ dh.movedTo heap (.block ino offset) with ddkSize := 24 },
                .block ino offset, ?_, hstands.movedTo heap _ dh.attrDdd, hlt.le,
                entriesFrom_above_block ino offset, .cons hmoved (bufferAfter_nil rfl)⟩
              simp [readdirLoop, cursorNext, hstands.cursor, hadvance, keySize]
          | dentry entry =>
              rw [entriesFrom_cons_dentry] at hfill
              rw [keysMet_cons_dentry,
                run_readdirLoop_dentry heap filler fuel finfo hstands hadvance rfl]
              simp only [List.length_cons, Nat.add_lt_add_iff_right] at hfuel
              have hread := hstands.movedTo heap (.dentry entry) record
              cases hscan : scanEntry isroot locator entry with
              | stop =>
                  -- the cursor stays behind the directory, where no entry is ahead
                  rw [hscan] at hfill
                  cases hfill
                  exact ⟨_, _, rfl, hread, hlt.le, entriesFrom_above_stop hlow₁ hscan,
                    .cons hmoved (bufferAfter_nil rfl)⟩
              | skip =>
                  rw [hscan] at hfill
                  obtain ⟨dh', key', hrun, hstands', hle, hleft, hafter⟩ :=
                    ih finfo hread hlow₁ hfuel hfill
                  exact ⟨dh', key', hrun, hstands', hlt.le.trans hle, hleft, .cons hmoved hafter⟩
              | emit name =>
                  rw [hscan] at hfill
                  dsimp only [fillEach] at hfill
                  by_cases hcode : (filler finfo name record.dddType).1 = 0
                  · rw [if_neg (not_not_intro hcode)] at hfill
                    obtain ⟨dh', key', hrun, hstands', hle, hleft, hafter⟩ :=
                      ih _ hread hlow₁ hfuel hfill
                    refine ⟨dh', key', ?_, hstands', hlt.le.trans hle, hleft,
                      .cons hmoved hafter⟩
                    dsimp only
                    rw [if_neg (not_not_intro hcode)]
                    exact hrun
                  · -- the cursor stands on the refused entry, so the next call skips it
                    rw [if_pos hcode] at hfill
                    cases hfill
                    refine ⟨_, _, ?_, hread, hlt.le, rfl, .refused hmoved hcode⟩
                    dsimp only
                    rw [if_pos hcode]

/-! ## Both rules of a scan -/

def Absolute (path : CStr) : Prop :=
  path.bytes.head? = some slash ∧ path.bytes.tail.head? ≠ some slash

instance (path : CStr) : Decidable (Absolute path) :=
  inferInstanceAs (Decidable (_ ∧ _))

def AbsolutePaths (db : Db) : Prop := ∀ path, Key.dentry path ∈ db → Absolute path

theorem Absolute.extends_rootPath {path : CStr} (h : Absolute path) :
    rootPath.bytes <+: path.bytes := by
  obtain ⟨hfirst, -⟩ := h
  cases hbytes : path.bytes with
  | nil => simp [hbytes] at hfirst
  | cons byte rest =>
      rw [hbytes] at hfirst
      cases hfirst
      exact ⟨rest, rfl⟩

theorem entryName_rootPath {entry : CStr} (h : Absolute entry) :
    entryName rootPath entry = entry.drop 1 := by
  apply CStr.ext
  obtain ⟨-, hsecond⟩ := h
  have htail : entry.bytes.drop 1 = entry.bytes.tail := List.drop_one
  change (entry.bytes.drop 1).dropWhile (· == slash) = entry.bytes.drop 1
  rw [htail]
  cases hrest : entry.bytes.tail with
  | nil => rfl
  | cons byte rest =>
      rw [hrest] at hsecond
      have hbyte : byte ≠ slash := by simpa using hsecond
      simp [hbyte]

theorem scanEntry_rootPath {entry : CStr} (h : Absolute entry) :
    scanEntry true rootPath entry = scanEntry false rootPath entry := by
  have hstarts : entry.startsWith rootPath = true :=
    CStr.startsWith_iff.mpr h.extends_rootPath
  simp only [scanEntry, entryName_rootPath h, hstarts]
  by_cases hslash : (entry.drop 1).contains slash = true
  · have hname : (entry.drop 1).bytes ≠ [] := by
      rw [CStr.contains_iff] at hslash
      exact List.ne_nil_of_mem hslash
    simp [hslash, hname]
  · simp [hslash]

theorem entriesFrom_congr {isroot' : Bool} {records : List (Sigma Rec)}
    (h : ∀ r ∈ records, ∀ entry, r.1 = .dentry entry →
      scanEntry isroot locator entry = scanEntry isroot' locator entry) :
    entriesFrom isroot locator records = entriesFrom isroot' locator records := by
  induction records with
  | nil => rfl
  | cons r records ih =>
      have ih' := ih fun r' hr' => h r' (List.mem_cons_of_mem _ hr')
      obtain ⟨key, record⟩ := r
      cases key with
      | fsinfo => rfl
      | block ino offset => rfl
      | dentry entry =>
          rw [entriesFrom_cons_dentry, entriesFrom_cons_dentry, ih',
            h _ List.mem_cons_self entry rfl]

def entriesAbove (db : Db) (locator : CStr) (key : Key) : List (CStr × UInt32) :=
  entriesFrom false locator (recordsAbove db key)

theorem entriesFrom_eq_entriesAbove (hpaths : AbsolutePaths db) (key : Key)
    (hisroot : isroot = true → locator = rootPath) :
    entriesFrom isroot locator (recordsAbove db key) = entriesAbove db locator key := by
  apply entriesFrom_congr
  intro r hr entry hkey
  have hmem := mem_of_mem_recordsAbove hr
  rw [hkey] at hmem
  cases isroot with
  | false => rfl
  | true =>
      rw [hisroot rfl]
      exact scanEntry_rootPath (hpaths entry hmem)

/-- The root rule is applied to the root directory only, on resumed scans too. -/
theorem eq_rootPath_of_ddkPath (habsolute : Absolute locator)
    (hlow : Key.dentry locator ≤ key) (hkey : key.ddkPath = rootPath) :
    locator = rootPath := by
  cases key with
  | fsinfo => exact absurd hkey (by decide)
  | block ino offset =>
      have hempty := congrArg CStr.bytes hkey
      cases hempty
  | dentry path =>
      rw [Key.ddkPath_dentry] at hkey
      subst hkey
      have hge : Key.dentry rootPath ≤ .dentry locator :=
        Key.dentry_le_iff.mpr (strcmp_le_of_extends habsolute.extends_rootPath)
      simpa using le_antisymm hlow hge

/-- The keys that a call of `dbfs_readdir` meets on a handle that stands on `key`. -/
def keysAhead (db : Db) (locator : CStr) (key : Key) : List Key :=
  keysMet (decide (key.ddkPath = rootPath)) locator (recordsAbove db key)

/-- A call of `dbfs_readdir` offers the entries that are ahead and leaves ahead those
behind the one that the filler refused. -/
theorem run_dbfsReaddir (heap : Heap) (filler : σ → CStr → UInt32 → Int × σ) {fuel : Nat}
    {dh : DbfsHandle} {finfo : σ} (hpaths : AbsolutePaths db) (habsolute : Absolute locator)
    (hstands : Stands dh locator key) (hfreed : dh.ddkFreed = false)
    (hlow : Key.dentry locator ≤ key) (hfuel : db.keys.card < fuel) {error : Int}
    {left : List (CStr × UInt32)} {finfo' : σ}
    (hfill : fillEach filler (entriesAbove db locator key) finfo = (error, left, finfo')) :
    ∃ dh' key', (dbfsReaddir heap filler fuel dh finfo).run db =
        some ((error, dh', finfo'), db) ∧ Stands dh' locator key' ∧
      Key.dentry locator ≤ key' ∧ entriesAbove db locator key' = left ∧
      BufferAfter heap key (keysAhead db locator key) false error dh' key' := by
  have hisroot : decide (key.ddkPath = rootPath) = true → locator = rootPath :=
    fun h => eq_rootPath_of_ddkPath habsolute hlow (of_decide_eq_true h)
  have hlength : (recordsAbove db key).length < fuel :=
    ((length_recordsAbove_le db key).trans (Finset.card_filter_le _ _)).trans_lt hfuel
  rw [← entriesFrom_eq_entriesAbove hpaths key hisroot] at hfill
  obtain ⟨dh', key', hrun, hstands', hle, hleft, hafter⟩ :=
    run_readdirLoop heap filler finfo hstands hlow hlength hfill
  rw [entriesFrom_eq_entriesAbove hpaths key' hisroot] at hleft
  rw [hfreed] at hafter
  refine ⟨dh', key', ?_, hstands', hlow.trans hle, hleft, hafter⟩
  rw [dbfsReaddir_of_not_freed heap filler fuel finfo hfreed, hstands.buffer hfreed]
  exact hrun

theorem run_dbfsReaddir_freed {heap : Heap} {filler : σ → CStr → UInt32 → Int × σ} {fuel : Nat}
    {dh : DbfsHandle} {finfo : σ} (hfreed : dh.ddkFreed = true) :
    (dbfsReaddir heap filler fuel dh finfo).run db = none := by
  rw [dbfsReaddir, hfreed, if_pos rfl]
  rfl

/-! ## What a scan takes for an entry -/

/-- The key of an entry of the directory: it extends the path by one name. -/
def IsEntryOf (locator : CStr) : Key → Prop
  | .dentry entry => entry.startsWith locator = true ∧
      (entryName locator entry).bytes ≠ [] ∧
      (entryName locator entry).contains slash = false
  | _ => False

instance (locator : CStr) : DecidablePred (IsEntryOf locator)
  | .dentry _ => inferInstanceAs (Decidable (_ ∧ _))
  | .fsinfo => inferInstanceAs (Decidable False)
  | .block _ _ => inferInstanceAs (Decidable False)

def dirSize (db : Db) (locator : CStr) : Nat := (db.keys.filter (IsEntryOf locator)).card

theorem scanEntry_of_entry {entry : CStr} (h : IsEntryOf locator (.dentry entry)) :
    scanEntry false locator entry = .emit (entryName locator entry) := by
  obtain ⟨hstarts, hname, hslash⟩ := h
  simp only [scanEntry, hstarts, hslash, hname]
  simp

theorem scanEntry_of_not_entry {entry : CStr} (hstarts : entry.startsWith locator = true)
    (h : ¬ IsEntryOf locator (.dentry entry)) : scanEntry false locator entry = .skip := by
  simp only [IsEntryOf, hstarts, true_and, not_and, Bool.not_eq_false] at h
  simp only [scanEntry, hstarts]
  by_cases hname : (entryName locator entry).bytes = []
  · simp [hname]
  · simp [hname, h hname]

/-! ## The entries in key order -/

def dentryOf : Sigma Rec → Option (CStr × DentryData)
  | ⟨.dentry path, ddd⟩ => some (path, ddd)
  | _ => none

/-- The entries with larger keys, in key order. -/
def dentriesAbove (db : Db) (key : Key) : List (CStr × DentryData) :=
  (recordsAbove db key).filterMap dentryOf

theorem mem_dentriesAbove {path : CStr} {ddd : DentryData} :
    (path, ddd) ∈ dentriesAbove db key ↔
      db.lookup (.dentry path) = some ddd ∧ key < .dentry path := by
  simp only [dentriesAbove, List.mem_filterMap]
  constructor
  · rintro ⟨⟨found, record⟩, hmem, hdentry⟩
    cases found with
    | fsinfo => cases hdentry
    | block ino offset => cases hdentry
    | dentry entry =>
        cases hdentry
        exact mem_recordsAbove_iff.mp hmem
  · intro h
    exact ⟨⟨.dentry path, ddd⟩, mem_recordsAbove_iff.mpr h, rfl⟩

theorem pairwise_dentriesAbove (db : Db) (key : Key) :
    (dentriesAbove db key).Pairwise fun d e => strcmp d.1 e.1 < 0 := by
  apply (pairwise_recordsAbove db key).filterMap
  rintro ⟨key₁, record₁⟩ ⟨key₂, record₂⟩ hlt d hd e he
  cases key₁ <;> cases hd
  cases key₂ <;> cases he
  simpa [Key.lt_iff, dbfsBtCompare, Key.dkType] using hlt

theorem entriesAbove_eq (hlow : Key.dentry locator ≤ key) :
    entriesAbove db locator key =
      ((dentriesAbove db key).filter fun d => IsEntryOf locator (.dentry d.1)).map
        fun d => (entryName locator d.1, d.2.dddType) := by
  unfold entriesAbove dentriesAbove
  fun_induction recordsAbove db key with
  | case1 key e herror => rfl
  | case2 key r hok hcard ih =>
      have hlow' := hlow.trans (nextKey_eq_some_iff.mp (nextKey_of_advance hok)).2.1.le
      have ih := ih hlow'
      obtain ⟨next, record⟩ := r
      dsimp only at ih hlow'
      cases next with
      | fsinfo => exact absurd hlow' (not_le_of_gt (Key.fsinfo_lt_dentry locator))
      | block ino offset =>
          rw [entriesFrom_above_block] at ih
          rw [List.filterMap_cons_none rfl]
          exact ih
      | dentry entry =>
          rw [entriesFrom_cons_dentry, List.filterMap_cons_some (f := dentryOf) rfl,
            List.filter_cons]
          cases hstarts : entry.startsWith locator with
          | false =>
              have hscan := scanEntry_of_not_startsWith hstarts
              have hentry : ¬ IsEntryOf locator (.dentry entry) := by
                rintro ⟨hstarts', -⟩
                rw [hstarts] at hstarts'
                cases hstarts'
              rw [entriesFrom_above_stop hlow' hscan] at ih
              rw [hscan, if_neg (by simpa using hentry)]
              exact ih
          | true =>
              by_cases hentry : IsEntryOf locator (.dentry entry)
              · rw [scanEntry_of_entry hentry, if_pos (by simpa using hentry),
                  List.map_cons, ← ih]
              · rw [scanEntry_of_not_entry hstarts hentry, if_neg (by simpa using hentry)]
                exact ih

/-! ## How many entries there are -/

theorem length_entriesAbove (hlow : Key.dentry locator ≤ key) :
    (entriesAbove db locator key).length =
      ((db.keys.filter (key < ·)).filter (IsEntryOf locator)).card := by
  have hnodup : (((dentriesAbove db key).filter fun d => IsEntryOf locator (.dentry d.1)).map
      fun d => Key.dentry d.1).Nodup := by
    refine List.pairwise_map.mpr (((pairwise_dentriesAbove db key).filter _).imp ?_)
    intro d e hlt heq
    have hsame : d.1 = e.1 := by simpa using heq
    rw [hsame, strcmp_eq_zero.mpr rfl] at hlt
    exact absurd hlt (lt_irrefl 0)
  have hkeys : (((dentriesAbove db key).filter fun d => IsEntryOf locator (.dentry d.1)).map
      fun d => Key.dentry d.1).toFinset =
        (db.keys.filter (key < ·)).filter (IsEntryOf locator) := by
    ext k
    rw [List.mem_toFinset, List.mem_map, Finset.mem_filter, Finset.mem_filter, Finmap.mem_keys]
    constructor
    · rintro ⟨⟨path, ddd⟩, hmem, rfl⟩
      rw [List.mem_filter, decide_eq_true_eq, mem_dentriesAbove] at hmem
      exact ⟨⟨Finmap.mem_iff.mpr ⟨ddd, hmem.1.1⟩, hmem.1.2⟩, hmem.2⟩
    · rintro ⟨⟨hk, hlt⟩, hentry⟩
      cases k with
      | fsinfo => exact hentry.elim
      | block ino offset => exact hentry.elim
      | dentry path =>
          obtain ⟨ddd, hlookup⟩ := Finmap.mem_iff.mp hk
          refine ⟨(path, ddd), ?_, rfl⟩
          rw [List.mem_filter, decide_eq_true_eq, mem_dentriesAbove]
          exact ⟨⟨hlookup, hlt⟩, hentry⟩
  rw [entriesAbove_eq hlow, List.length_map, ← hkeys, List.toFinset_card_of_nodup hnodup,
    List.length_map]

theorem Key.dentry_lt_of_isEntryOf {path : CStr} (h : IsEntryOf locator (.dentry path)) :
    Key.dentry locator < .dentry path := by
  obtain ⟨hstarts, hname, -⟩ := h
  apply Key.dentry_lt_of_extends (CStr.startsWith_iff.mp hstarts)
  rintro rfl
  apply hname
  simp [entryName, CStr.drop, CStr.skip, CStr.length]

theorem length_entriesAbove_self (db : Db) (locator : CStr) :
    (entriesAbove db locator (.dentry locator)).length = dirSize db locator := by
  rw [length_entriesAbove (le_refl _), Finset.filter_filter, dirSize]
  congr 1
  apply Finset.filter_congr
  intro k _
  refine ⟨And.right, fun hentry => ⟨?_, hentry⟩⟩
  cases k with
  | fsinfo => cases hentry
  | block ino offset => cases hentry
  | dentry entry => exact Key.dentry_lt_of_isEntryOf hentry

theorem length_entriesAbove_le (db : Db) (locator : CStr) :
    (entriesAbove db locator (.dentry locator)).length ≤ db.keys.card := by
  rw [length_entriesAbove_self]
  exact Finset.card_filter_le _ _

end Mangoo.Dbfs
