import Mangoo.Dbfs.Listing

/-!
# Directory reading under FUSE

The directory functions of `mangoofuse.c`.  FUSE reads a directory page by page:
each call of `mf_readdir` fills one page through `mf_filler` and the next call gets
the offset that went with the last entry of the page.  An `off_t` is an integer;
`cur_off` counts positions up from zero, and no directory brings it near its limit.
-/

namespace Mangoo.Fuse

open Mangoo.Foundation Mangoo.Dbfs

/-- The entry that did not fit, in `saved_name`, `saved_off` and `saved_type`. -/
structure Saved where
  name : CStr
  off : Int
  type : UInt32

structure MfDir where
  handle : DbfsHandle
  curOff : Int
  startingOff : Int
  saved : Option Saved

/-- `fuse_fill_dir_t`: buffer, name, `st_mode` and offset.  A result other than zero
says that the buffer is full. -/
abbrev FuseFillDir (β : Type) := β → CStr → UInt32 → Int → Int × β

/-- `S_IFREG`, `S_IFDIR` or `0`. -/
def stMode (type : UInt32) : UInt32 :=
  match MangooTypes.ofUInt32? type with
  | some .data => 0o100000
  | some .container => 0o040000
  | none => 0

variable {β : Type}

def mfFiller (heap : Heap) (filler : FuseFillDir β) (dir : MfDir × β) (name : CStr)
    (type : UInt32) : Int × MfDir × β :=
  let (dir, buf) := dir
  if dir.curOff ≥ dir.startingOff then
    let (full, buf) := filler buf name (stMode type) dir.curOff
    if full ≠ 0 then
      -- a failing strdup leaves a null pointer behind
      let saved := if heap.ok then some ⟨name, dir.curOff, type⟩ else none
      (enobufs, { dir with saved := saved }, buf)
    else (0, { dir with curOff := dir.curOff + 1 }, buf)
  else (0, { dir with curOff := dir.curOff + 1 }, buf)

/-- `starting_off` is left unset until the first `mf_readdir`. -/
def mfOpendir (heap : Heap) (path : CStr) : DbProg (Int × Option MfDir) := do
  if heap.ok = false then return (-enomem, none)
  let (error, handle) ← dbfsOpen heap path .directory
  match handle with
  | none => return (-error, none)
  | some dh =>
      return (0, some { handle := dh, curOff := 0, startingOff := 0, saved := none })

def dot : CStr := ⟨[46], by decide⟩

def dotdot : CStr := ⟨[46, 46], by decide⟩

/-- What `mf_readdir` does before it reads on, with the offset from which entries
are to be filled in. -/
def mfReaddirStart (heap : Heap) (filler : FuseFillDir β) (dir : MfDir) (buf : β)
    (offset : Int) : MfDir × β × Int :=
  if offset = 0 then
    let dir := { dir with startingOff := 0 }
    let (_, dir, buf) := mfFiller heap filler (dir, buf) dot MangooTypes.container.toUInt32
    let (_, dir, buf) := mfFiller heap filler (dir, buf) dotdot MangooTypes.container.toUInt32
    (dir, buf, 2)
  else
    match dir.saved with
    | none => (dir, buf, offset)
    | some saved =>
        if saved.off = offset then
          let (_, dir, buf) := mfFiller heap filler (dir, buf) saved.name saved.type
          ({ dir with saved := none }, buf, offset + 1)
        else ({ dir with saved := none }, buf, offset)

def mfReaddir (heap : Heap) (filler : FuseFillDir β) (fuel : Nat) (dir : MfDir) (buf : β)
    (offset : Int) : DbProg (Int × MfDir × β) := do
  let (dir, buf, offset) := mfReaddirStart heap filler dir buf offset
  let dir := { dir with startingOff := offset }
  let (error, dh, dir, buf) ←
    dbfsReaddir heap (mfFiller heap filler) fuel dir.handle (dir, buf)
  let error := if error = enobufs then 0 else error
  return (-error, { dir with handle := dh }, buf)

/-! ## Pages -/

structure Filled where
  name : CStr
  mode : UInt32
  off : Int

def fillPage (capacity : Nat) : FuseFillDir (List Filled) := fun page name mode off =>
  if page.length < capacity then (0, page ++ [⟨name, mode, off⟩]) else (1, page)

/-- Read pages until one stays empty; `budget` bounds the calls. -/
def pageLoop (heaps : Nat → Heap) (fuel : Nat) (capacities : Nat → Nat) :
    Nat → Nat → MfDir → Int → DbProg (List CStr)
  | 0, _, _, _ => .spin
  | budget + 1, i, dir, offset => do
      let (_, dir, page) ← mfReaddir (heaps i) (fillPage (capacities i)) fuel dir [] offset
      match page.getLast? with
      | none => return []
      | some last => do
          let names ← pageLoop heaps fuel capacities budget (i + 1) dir last.off
          return page.map Filled.name ++ names

def readPages (heap : Heap) (heaps : Nat → Heap) (fuel budget : Nat) (path : CStr)
    (capacities : Nat → Nat) : DbProg (Option (List CStr)) := do
  let (_, dir) ← mfOpendir heap path
  match dir with
  | none => return none
  | some dir => do
      let names ← pageLoop heaps fuel capacities budget 0 dir 0
      return some names

/-- The names that one `mdir_read` on a fresh handle gives to a filler that is never
full. -/
def readAll (heap : Heap) (fuel : Nat) (path : CStr) : DbProg (Option (List CStr)) := do
  let (_, dh) ← dbfsOpen heap path .directory
  match dh with
  | none => return none
  | some dh => do
      let (_, _, names) ← dbfsReaddir heap (fun names name _ => (0, names ++ [name])) fuel dh []
      return some names

/-! ## Filling one page -/

variable {heap : Heap} {heaps : Nat → Heap} {capacity fuel : Nat} {db : Db} {locator : CStr}
  {dir : MfDir} {page : List Filled} {entries : List (CStr × UInt32)} {offset : Int}

theorem mfFiller_accepts {name : CStr} {type : UInt32}
    (hoff : dir.startingOff ≤ dir.curOff) (hroom : page.length < capacity) :
    mfFiller heap (fillPage capacity) (dir, page) name type =
      (0, { dir with curOff := dir.curOff + 1 },
        page ++ [⟨name, stMode type, dir.curOff⟩]) := by
  simp [mfFiller, fillPage, hoff, hroom]

theorem mfFiller_refuses {name : CStr} {type : UInt32}
    (hoff : dir.startingOff ≤ dir.curOff) (hfull : ¬ page.length < capacity) :
    mfFiller heap (fillPage capacity) (dir, page) name type =
      (enobufs, { dir with saved := if heap.ok then some ⟨name, dir.curOff, type⟩ else none },
        page) := by
  simp [mfFiller, fillPage, hoff, hfull]

def LastBefore (page : List Filled) (dir : MfDir) : Prop :=
  ∀ last, page.getLast? = some last → last.off + 1 = dir.curOff

def SavedAt (dir : MfDir) : Prop := ∀ saved, dir.saved = some saved → saved.off = dir.curOff

theorem fillEach_mfFiller (heap : Heap) (capacity : Nat) (entries : List (CStr × UInt32))
    (dir : MfDir) (page : List Filled) (hoff : dir.startingOff ≤ dir.curOff)
    (hsaved : dir.saved = none) (hlast : LastBefore page dir) :
    ∃ error dir' page', fillEach (mfFiller heap (fillPage capacity)) entries (dir, page) =
        (error, entries.drop (capacity - page.length + 1), dir', page') ∧
      page'.map Filled.name =
        page.map Filled.name ++ (entries.take (capacity - page.length)).map Prod.fst ∧
      LastBefore page' dir' ∧ SavedAt dir' ∧ dir.curOff ≤ dir'.curOff ∧
      (entries.length ≤ capacity - page.length → error = 0) := by
  induction entries generalizing dir page with
  | nil =>
      refine ⟨0, dir, page, by simp [fillEach], by simp, hlast, ?_, le_refl _, fun _ => rfl⟩
      intro saved hsome
      rw [hsaved] at hsome
      cases hsome
  | cons entry entries ih =>
      obtain ⟨name, type⟩ := entry
      by_cases hroom : page.length < capacity
      · have hlast' : LastBefore (page ++ [⟨name, stMode type, dir.curOff⟩])
            { dir with curOff := dir.curOff + 1 } := by
          intro last hget
          rw [List.getLast?_concat] at hget
          cases hget
          rfl
        have hleft : capacity - page.length =
            capacity - (page ++ [Filled.mk name (stMode type) dir.curOff]).length + 1 := by
          rw [List.length_append, List.length_singleton]
          omega
        obtain ⟨error, dir', page', hfill, hnames, hlast', hsaved', hle, hfits⟩ :=
          ih { dir with curOff := dir.curOff + 1 } (page ++ [⟨name, stMode type, dir.curOff⟩])
            (hoff.trans (Int.le_add_one (le_refl _))) hsaved hlast'
        refine ⟨error, dir', page', ?_, ?_, hlast', hsaved',
          (Int.le_add_one (le_refl _)).trans hle, ?_⟩
        · simp only [fillEach, mfFiller_accepts hoff hroom, ne_eq, not_true_eq_false,
            if_false, hfill, hleft, List.drop_succ_cons]
        · simp [hnames, hleft]
        · intro hlength
          rw [List.length_cons] at hlength
          exact hfits (by omega)
      · refine ⟨enobufs, { dir with
            saved := if heap.ok then some ⟨name, dir.curOff, type⟩ else none }, page,
          ?_, ?_, hlast, ?_, le_refl _, ?_⟩
        · have hfull : capacity - page.length = 0 := by omega
          simp only [fillEach, mfFiller_refuses hoff hroom, hfull]
          rfl
        · have hfull : capacity - page.length = 0 := by omega
          simp [hfull]
        · intro saved hsome
          simp only at hsome ⊢
          split at hsome
          · cases hsome
            rfl
          · cases hsome
        · intro hlength
          rw [List.length_cons] at hlength
          omega

/-! ## One call -/

/-- The entries that the directory's cursor has ahead. -/
structure Ahead (db : Db) (locator : CStr) (dir : MfDir) (key : Key)
    (entries : List (CStr × UInt32)) : Prop where
  stands : Stands dir.handle locator key
  low : Key.dentry locator ≤ key
  entries_eq : entriesAbove db locator key = entries

/-- Between two calls, with `offset` the one that FUSE passes next. -/
structure InStep (dir : MfDir) (offset : Int) : Prop where
  pos : 0 < offset
  cur : dir.curOff = offset + 1
  saved : SavedAt dir

variable {key : Key}

theorem run_mfReaddir {filler : FuseFillDir β} {buf buf₁ buf₂ : β} {dir₁ dir₂ : MfDir}
    {offset₁ code : Int} {left : List (CStr × UInt32)} (hpaths : AbsolutePaths db)
    (habsolute : Absolute locator) (hfuel : db.keys.card < fuel)
    (hstart : mfReaddirStart heap filler dir buf offset = (dir₁, buf₁, offset₁))
    (hfreed : dir₁.handle.ddkFreed = false) (hahead : Ahead db locator dir₁ key entries)
    (hfill : fillEach (mfFiller heap filler) entries
      ({ dir₁ with startingOff := offset₁ }, buf₁) = (code, left, dir₂, buf₂)) :
    ∃ error dh key', (mfReaddir heap filler fuel dir buf offset).run db =
        some ((error, { dir₂ with handle := dh }, buf₂), db) ∧
      Ahead db locator { dir₂ with handle := dh } key' left ∧
      BufferAfter heap key (keysAhead db locator key) false code dh key' := by
  obtain ⟨hstands, hlow, rfl⟩ := hahead
  obtain ⟨dh, key', hrun, hstands', hlow', hleft, hafter⟩ :=
    run_dbfsReaddir heap _ hpaths habsolute hstands hfreed hlow hfuel hfill
  refine ⟨-(if code = enobufs then 0 else code), dh, key', ?_, ⟨hstands', hlow', hleft⟩, hafter⟩
  simp only [mfReaddir, hstart, Prog.run_bind]
  rw [hrun]
  rfl

theorem run_mfReaddir_freed {filler : FuseFillDir β} {buf buf₁ : β} {dir₁ : MfDir}
    {offset₁ : Int} (hstart : mfReaddirStart heap filler dir buf offset = (dir₁, buf₁, offset₁))
    (hfreed : dir₁.handle.ddkFreed = true) :
    (mfReaddir heap filler fuel dir buf offset).run db = none := by
  simp only [mfReaddir, hstart, Prog.run_bind]
  rw [run_dbfsReaddir_freed hfreed]
  rfl

theorem run_mfReaddir_of_start {dir₁ : MfDir} {page₁ : List Filled} {offset₁ : Int}
    (hpaths : AbsolutePaths db) (habsolute : Absolute locator)
    (hfuel : db.keys.card < fuel)
    (hstart : mfReaddirStart heap (fillPage capacity) dir [] offset =
      (dir₁, page₁, offset₁)) (hfreed : dir₁.handle.ddkFreed = false)
    (hahead : Ahead db locator dir₁ key entries) (hoff : offset₁ ≤ dir₁.curOff)
    (hcur : 2 ≤ dir₁.curOff) (hsaved : dir₁.saved = none) (hlast : LastBefore page₁ dir₁) :
    ∃ error dir' page' key', (mfReaddir heap (fillPage capacity) fuel dir [] offset).run db =
        some ((error, dir', page'), db) ∧
      page'.map Filled.name = page₁.map Filled.name ++
        (entries.take (capacity - page₁.length)).map Prod.fst ∧
      (∀ last, page'.getLast? = some last → InStep dir' last.off) ∧
      Ahead db locator dir' key' (entries.drop (capacity - page₁.length + 1)) ∧
      (heap.InPlace → dir'.handle.ddkFreed = false) ∧
      (entries.length ≤ capacity - page₁.length → (dir'.handle.ddkFreed = false ↔
        KeepsBuffer heap (keySize key) (keysAhead db locator key))) := by
  obtain ⟨code, dir₂, page₂, hfill, hnames, hlast₂, hsaved₂, hle, hfits⟩ :=
    fillEach_mfFiller heap capacity entries
      { dir₁ with startingOff := offset₁ } page₁ hoff hsaved hlast
  obtain ⟨error, dh, key', hrun, hahead', hafter⟩ :=
    run_mfReaddir hpaths habsolute hfuel hstart hfreed hahead hfill
  refine ⟨error, { dir₂ with handle := dh }, page₂, key', hrun, hnames, ?_, hahead',
    fun hinPlace => hafter.inPlace hinPlace rfl, fun hlength => ?_⟩
  · intro last hget
    have hcur₂ := hlast₂ last hget
    have hle' : dir₁.curOff ≤ dir₂.curOff := hle
    refine ⟨by omega, hcur₂.symm, hsaved₂⟩
  · rw [hafter.kept_iff (hfits hlength)]
    exact and_iff_right rfl

/-- A call after the first one drops the saved entry: its offset is not the one that
FUSE passes, but one larger. -/
theorem mfReaddirStart_inStep (hstep : InStep dir offset) :
    mfReaddirStart heap (fillPage capacity) dir [] offset =
      ({ dir with saved := none }, [], offset) := by
  have hpos := hstep.pos
  have hne : offset ≠ 0 := by omega
  unfold mfReaddirStart
  rw [if_neg hne]
  cases hsome : dir.saved with
  | none =>
      obtain ⟨handle, curOff, startingOff, saved⟩ := dir
      cases hsome
      rfl
  | some saved =>
      -- `cur_off` was not advanced past the saved entry, FUSE passes the one before
      have hoff : saved.off ≠ offset := by
        rw [hstep.saved saved hsome, hstep.cur]
        omega
      simp only [if_neg hoff]

theorem run_mfReaddir_inStep (heap : Heap) (capacity : Nat) (hpaths : AbsolutePaths db)
    (habsolute : Absolute locator) (hfuel : db.keys.card < fuel) (hstep : InStep dir offset)
    (hfreed : dir.handle.ddkFreed = false) (hahead : Ahead db locator dir key entries) :
    ∃ error dir' page' key', (mfReaddir heap (fillPage capacity) fuel dir [] offset).run db =
        some ((error, dir', page'), db) ∧
      page'.map Filled.name = (entries.take capacity).map Prod.fst ∧
      (∀ last, page'.getLast? = some last → InStep dir' last.off) ∧
      Ahead db locator dir' key' (entries.drop (capacity + 1)) ∧
      (heap.InPlace → dir'.handle.ddkFreed = false) := by
  have hpos := hstep.pos
  have hcur := hstep.cur
  have hlast : LastBefore [] { dir with saved := none } := by
    intro last hget
    cases hget
  have hahead₁ : Ahead db locator { dir with saved := none } key entries :=
    ⟨hahead.stands, hahead.low, hahead.entries_eq⟩
  obtain ⟨error, dir', page', key', hrun, hnames, hstep', hahead', hinPlace, -⟩ :=
    run_mfReaddir_of_start hpaths habsolute hfuel (mfReaddirStart_inStep hstep) hfreed hahead₁
      (by simp only; omega) (by simp only; omega) rfl hlast
  exact ⟨error, dir', page', key', hrun, hnames, hstep', hahead', hinPlace⟩

theorem run_mfReaddir_first (heap : Heap) (capacity : Nat) (hpaths : AbsolutePaths db)
    (habsolute : Absolute locator) (hfuel : db.keys.card < fuel) (hcapacity : 2 ≤ capacity)
    (hcur : dir.curOff = 0) (hsaved : dir.saved = none) (hfreed : dir.handle.ddkFreed = false)
    (hahead : Ahead db locator dir key entries) :
    ∃ error dir' page' key', (mfReaddir heap (fillPage capacity) fuel dir [] 0).run db =
        some ((error, dir', page'), db) ∧
      page'.map Filled.name =
        dot :: dotdot :: (entries.take (capacity - 2)).map Prod.fst ∧
      (∀ last, page'.getLast? = some last → InStep dir' last.off) ∧
      Ahead db locator dir' key' (entries.drop (capacity - 2 + 1)) ∧
      (heap.InPlace → dir'.handle.ddkFreed = false) ∧
      (entries.length ≤ capacity - 2 → (dir'.handle.ddkFreed = false ↔
        KeepsBuffer heap (keySize key) (keysAhead db locator key))) := by
  have hstart : mfReaddirStart heap (fillPage capacity) dir [] 0 =
      ({ dir with startingOff := 0, curOff := 2 },
        [⟨dot, 0o040000, 0⟩, ⟨dotdot, 0o040000, 1⟩], 2) := by
    have hone : 0 < capacity := by omega
    have htwo : 1 < capacity := by omega
    simp [mfReaddirStart, mfFiller, fillPage, hcur, hone, htwo, stMode,
      MangooTypes.toUInt32, MangooTypes.ofUInt32?]
  have hlast : LastBefore [⟨dot, 0o040000, 0⟩, ⟨dotdot, 0o040000, 1⟩]
      { dir with startingOff := 0, curOff := 2 } := by
    intro last hget
    cases hget
    rfl
  have hahead₁ : Ahead db locator { dir with startingOff := 0, curOff := 2 } key entries :=
    ⟨hahead.stands, hahead.low, hahead.entries_eq⟩
  exact run_mfReaddir_of_start hpaths habsolute hfuel hstart hfreed hahead₁ (le_refl _)
    (le_refl _) hsaved hlast

/-! ## All pages -/

theorem run_pageLoop_nil (capacities : Nat → Nat) (i budget : Nat) (hpaths : AbsolutePaths db)
    (habsolute : Absolute locator) (hfuel : db.keys.card < fuel) (hstep : InStep dir offset)
    (hfreed : dir.handle.ddkFreed = false) (hahead : Ahead db locator dir key []) :
    (pageLoop heaps fuel capacities (budget + 1) i dir offset).run db = some ([], db) := by
  obtain ⟨error, dir', page', key', hrun, hnames, -⟩ :=
    run_mfReaddir_inStep (heaps i) (capacities i) hpaths habsolute hfuel hstep hfreed hahead
  rw [List.take_nil, List.map_nil, List.map_eq_nil_iff] at hnames
  subst hnames
  simp [pageLoop, hrun]

theorem run_pageLoop_freed (capacities : Nat → Nat) (i budget : Nat) (hstep : InStep dir offset)
    (hfreed : dir.handle.ddkFreed = true) :
    (pageLoop heaps fuel capacities (budget + 1) i dir offset).run db = none := by
  have hnone := @run_mfReaddir_freed _ (heaps i) fuel db _ _ (fillPage (capacities i)) _ _ _ _
    (mfReaddirStart_inStep hstep) hfreed
  simp only [pageLoop, Prog.run_bind, hnone, Option.bind_none]

/-- The pages hold names of entries that are ahead, or one of the calls meets a freed buffer. -/
theorem run_pageLoop (capacities : Nat → Nat) (i : Nat) {budget : Nat}
    (hpaths : AbsolutePaths db) (habsolute : Absolute locator) (hfuel : db.keys.card < fuel)
    (hstep : InStep dir offset) (hahead : Ahead db locator dir key entries)
    (hbudget : entries.length < budget) :
    (∃ names, (pageLoop heaps fuel capacities budget i dir offset).run db = some (names, db) ∧
        List.Sublist names (entries.map Prod.fst)) ∨
      (pageLoop heaps fuel capacities budget i dir offset).run db = none ∧
        (dir.handle.ddkFreed = false → ¬ ∀ i, (heaps i).InPlace) := by
  induction budget generalizing i dir offset key entries with
  | zero => omega
  | succ budget ih =>
      cases hfreed : dir.handle.ddkFreed with
      | true => exact .inr ⟨run_pageLoop_freed _ _ _ hstep hfreed, Bool.noConfusion⟩
      | false =>
          obtain ⟨error, dir', page', key', hrun, hnames, hstep', hahead', hinPlace⟩ :=
            run_mfReaddir_inStep (heaps i) (capacities i) hpaths habsolute hfuel hstep hfreed
              hahead
          cases hget : page'.getLast? with
          | none =>
              refine .inl ⟨[], ?_, List.nil_sublist _⟩
              simp [pageLoop, hrun, hget]
          | some last =>
              have hsome : entries ≠ [] := by
                rintro rfl
                rw [List.take_nil, List.map_nil, List.map_eq_nil_iff] at hnames
                rw [hnames] at hget
                cases hget
              have hlength : (entries.drop (capacities i + 1)).length < budget := by
                have hpos := List.length_pos_iff.mpr hsome
                rw [List.length_drop]
                omega
              rcases ih (i + 1) (hstep' last hget) hahead' hlength with
                ⟨names, hrest, hsub⟩ | ⟨hrest, hnot⟩
              · refine .inl ⟨page'.map Filled.name ++ names, ?_, ?_⟩
                · simp [pageLoop, hrun, hget, hrest]
                · have hall : entries.map Prod.fst =
                      (entries.take (capacities i)).map Prod.fst ++
                        (entries.drop (capacities i)).map Prod.fst := by
                    rw [← List.map_append, List.take_append_drop]
                  rw [hnames, hall]
                  apply List.Sublist.append (List.Sublist.refl _)
                  apply hsub.trans
                  apply List.Sublist.map
                  rw [← List.drop_drop]
                  exact List.drop_sublist _ _
              · refine .inr ⟨?_, fun _ hall => hnot (hinPlace (hall i)) hall⟩
                simp [pageLoop, hrun, hget, hrest]

theorem run_dbfsOpen_directory (hok : heap.ok = true) (hdir : Key.dentry locator ∈ db) :
    ∃ dh, (dbfsOpen heap locator .directory).run db = some ((0, some dh), db) ∧
      Stands dh locator (.dentry locator) ∧ dh.ddkFreed = false := run_dbfsDopen hok hdir

theorem fillEach_collect (entries : List (CStr × UInt32)) (names : List CStr) :
    fillEach (fun names name _ => (0, names ++ [name])) entries names =
      (0, [], names ++ entries.map Prod.fst) := by
  induction entries generalizing names with
  | nil => simp [fillEach]
  | cons entry entries ih =>
      simp only [fillEach, ne_eq, not_true_eq_false, if_false, ih, List.map_cons,
        List.append_assoc, List.cons_append, List.nil_append]

theorem run_readAll (hpaths : AbsolutePaths db) (hok : heap.ok = true)
    (hdir : Key.dentry locator ∈ db) (hfuel : db.keys.card < fuel) :
    (readAll heap fuel locator).run db =
      some (some ((entriesAbove db locator (.dentry locator)).map Prod.fst), db) := by
  obtain ⟨dh, hopen, hstands, hfreed⟩ := run_dbfsOpen_directory hok hdir
  obtain ⟨dh', key', hrun, -⟩ := run_dbfsReaddir heap (fun names name _ => (0, names ++ [name]))
    hpaths (hpaths locator hdir) hstands hfreed (le_refl _) hfuel (fillEach_collect _ [])
  simp [readAll, hopen, hrun]

theorem run_readPages_cons (capacities : Nat → Nat) (budget : Nat) {dh : DbfsHandle}
    {error : Int} {dir' : MfDir} {page' : List Filled} {last : Filled} (hok : heap.ok = true)
    (hopen : (dbfsOpen heap locator .directory).run db = some ((0, some dh), db))
    (hfirst : (mfReaddir (heaps 0) (fillPage (capacities 0)) fuel ⟨dh, 0, 0, none⟩ [] 0).run db =
      some ((error, dir', page'), db)) (hget : page'.getLast? = some last) :
    (readPages heap heaps fuel (budget + 1) locator capacities).run db =
      ((pageLoop heaps fuel capacities budget 1 dir' last.off).run db).map fun rest =>
        (some (page'.map Filled.name ++ rest.1), rest.2) := by
  cases hrest : (pageLoop heaps fuel capacities budget 1 dir' last.off).run db <;>
    simp [readPages, mfOpendir, hok, hopen, pageLoop, hfirst, hget, hrest]

/-- What reading by pages accepts: the entries that fit on the first page and names from behind
the one that did not fit, unless it meets a freed buffer. -/
theorem run_readPages (heaps : Nat → Heap) (capacities : Nat → Nat) {budget : Nat}
    (hpaths : AbsolutePaths db) (hok : heap.ok = true) (hdir : Key.dentry locator ∈ db)
    (hcapacity : 2 ≤ capacities 0) (hfuel : db.keys.card < fuel)
    (hbudget : db.keys.card + 1 < budget) :
    (∃ later, (readPages heap heaps fuel budget locator capacities).run db =
          some (some (dot :: dotdot :: ((entriesAbove db locator (.dentry locator)).take
            (capacities 0 - 2)).map Prod.fst ++ later), db) ∧
        List.Sublist later (((entriesAbove db locator (.dentry locator)).drop
          (capacities 0 - 2 + 1)).map Prod.fst)) ∨
      (readPages heap heaps fuel budget locator capacities).run db = none ∧
        ¬ ∀ i, (heaps i).InPlace := by
  obtain ⟨dh, hopen, hstands, hfreed⟩ := run_dbfsOpen_directory hok hdir
  have habsolute := hpaths locator hdir
  have hahead : Ahead db locator ⟨dh, 0, 0, none⟩ (.dentry locator)
      (entriesAbove db locator (.dentry locator)) := ⟨hstands, le_refl _, rfl⟩
  obtain ⟨error, dir', page', key', hfirst, hnames, hstep, hahead', hinPlace, -⟩ :=
    run_mfReaddir_first (heaps 0) (capacities 0) hpaths habsolute hfuel hcapacity rfl rfl hfreed
      hahead
  cases budget with
  | zero => omega
  | succ budget =>
      cases hget : page'.getLast? with
      | none =>
          rw [List.getLast?_eq_none_iff] at hget
          rw [hget] at hnames
          cases hnames
      | some last =>
          have hlength : ((entriesAbove db locator (.dentry locator)).drop
              (capacities 0 - 2 + 1)).length < budget := by
            have hall := length_entriesAbove_le db locator
            rw [List.length_drop]
            omega
          have hpages := run_readPages_cons capacities budget hok hopen hfirst hget
          rcases run_pageLoop capacities 1 hpaths habsolute hfuel (hstep last hget) hahead'
            hlength with ⟨later, hrest, hsub⟩ | ⟨hrest, hnot⟩
          · refine .inl ⟨later, ?_, hsub⟩
            rw [hpages, hrest, Option.map_some, hnames]
          · refine .inr ⟨?_, fun hall => hnot (hinPlace (hall 0)) hall⟩
            rw [hpages, hrest, Option.map_none]

/-- Where everything fits on the first page, the second call only finds out that nothing is
left, if it still has its key buffer. -/
theorem run_readPages_of_fits (capacities : Nat → Nat) {budget : Nat} (hpaths : AbsolutePaths db)
    (hok : heap.ok = true) (hdir : Key.dentry locator ∈ db)
    (hfits : dirSize db locator + 2 ≤ capacities 0) (hfuel : db.keys.card < fuel)
    (hbudget : db.keys.card + 1 < budget) :
    (readPages heap heaps fuel budget locator capacities).run db =
        some (some (dot :: dotdot :: (entriesAbove db locator (.dentry locator)).map Prod.fst),
          db) ↔
      KeepsBuffer (heaps 0) (keySize (.dentry locator))
        (keysAhead db locator (.dentry locator)) := by
  obtain ⟨dh, hopen, hstands, hfreed⟩ := run_dbfsOpen_directory hok hdir
  have habsolute := hpaths locator hdir
  have hahead : Ahead db locator ⟨dh, 0, 0, none⟩ (.dentry locator)
      (entriesAbove db locator (.dentry locator)) := ⟨hstands, le_refl _, rfl⟩
  have hsize := length_entriesAbove_self db locator
  obtain ⟨error, dir', page', key', hfirst, hnames, hstep, hahead', -, hkept⟩ :=
    run_mfReaddir_first (heaps 0) (capacities 0) hpaths habsolute hfuel (by omega) rfl rfl hfreed
      hahead
  rw [List.take_of_length_le (by omega)] at hnames
  rw [List.drop_of_length_le (by omega)] at hahead'
  rw [← hkept (by omega)]
  obtain ⟨budget, rfl⟩ : ∃ rest, budget = rest + 2 := ⟨budget - 2, by omega⟩
  cases hget : page'.getLast? with
  | none =>
      rw [List.getLast?_eq_none_iff] at hget
      rw [hget] at hnames
      cases hnames
  | some last =>
      rw [run_readPages_cons capacities (budget + 1) hok hopen hfirst hget]
      cases hbuffer : dir'.handle.ddkFreed with
      | false =>
          rw [run_pageLoop_nil capacities 1 budget hpaths habsolute hfuel (hstep last hget) hbuffer
            hahead', Option.map_some, hnames, List.append_nil]
          exact iff_of_true rfl rfl
      | true =>
          rw [run_pageLoop_freed capacities 1 budget (hstep last hget) hbuffer, Option.map_none]
          exact iff_of_false (fun h => nomatch h) Bool.noConfusion

theorem keepsBuffer_of_inPlace (h : heap.InPlace) (size : Nat) (keys : List Key) :
    KeepsBuffer heap size keys := by
  induction keys generalizing size with
  | nil => trivial
  | cons key keys ih => exact ⟨fun _ => h key, ih _⟩

def twoFileDb : Db :=
  fileDb.insert (.dentry pathB) (⟨1, 0o644, 3, 0, 0, 0, 0, 0⟩ : DentryData)

end Mangoo.Fuse
