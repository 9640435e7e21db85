import Mangoo.Dbfs.EmptyDirectory
import Mangoo.Fuse.Readdir

/-!
# Rewinding a directory

`rewinddir` makes FUSE call `mf_readdir` with offset zero on a handle that has been
read from.  Neither the cursor of the handle nor `cur_off` is set back then, so such
a call goes on where the last one stopped and numbers what it delivers from there.
-/

namespace Mangoo.Fuse

open Mangoo.Foundation Mangoo.Dbfs

/-- An earlier call of `mf_readdir` and the size of its page. -/
structure ReaddirCall where
  heap : Heap
  capacity : Nat
  offset : Int

def neverFull : FuseFillDir (List Filled) := fun page name mode off =>
  (0, page ++ [⟨name, mode, off⟩])

/-- The earlier calls on a handle and then one with offset zero. -/
def rewindOn (heap : Heap) (fuel : Nat) : List ReaddirCall → MfDir → DbProg (List Filled)
  | [], dir => do
      let (_, _, page) ← mfReaddir heap neverFull fuel dir [] 0
      return page
  | call :: calls, dir => do
      let (_, dir, _) ← mfReaddir call.heap (fillPage call.capacity) fuel dir [] call.offset
      rewindOn heap fuel calls dir

/-- What a call with offset zero delivers after the earlier calls on a new handle. -/
def rewindAfter (heap : Heap) (fuel : Nat) (path : CStr) (calls : List ReaddirCall) :
    DbProg (Option (List Filled)) := do
  let (_, dir) ← mfOpendir heap path
  match dir with
  | none => return none
  | some dir => do
      let page ← rewindOn heap fuel calls dir
      return some page

/-- Each call that reads on from `key` leaves the key buffer where it is. -/
def BuffersKept (db : Db) (locator : CStr) : List ReaddirCall → Key → Prop
  | [], _ => True
  | call :: calls, key =>
      KeepsBuffer call.heap (keySize key) (keysAhead db locator key) ∧
        BuffersKept db locator calls ((keysAhead db locator key).getLastD key)

def numbered : Int → List (CStr × UInt32) → List Filled
  | _, [] => []
  | off, (name, type) :: entries => ⟨name, stMode type, off⟩ :: numbered (off + 1) entries

/-- The saved entry was offered at a position that is not behind `cur_off`. -/
structure Counted (dir : MfDir) : Prop where
  cur : 0 ≤ dir.curOff
  saved : ∀ saved, dir.saved = some saved → 0 ≤ saved.off ∧ saved.off ≤ dir.curOff

def dotEntries : List (CStr × UInt32) :=
  [(dot, MangooTypes.container.toUInt32), (dotdot, MangooTypes.container.toUInt32)]

variable {heap : Heap} {fuel : Nat} {db : Db} {locator : CStr} {dir : MfDir} {β : Type}
  {filler : FuseFillDir β} {buf : β} {entries : List (CStr × UInt32)} {offset : Int} {key : Key}

/-! ## The rewinding call -/

theorem length_numbered (off : Int) (entries : List (CStr × UInt32)) :
    (numbered off entries).length = entries.length := by
  induction entries generalizing off with
  | nil => rfl
  | cons entry entries ih =>
      rw [numbered, List.length_cons, ih, List.length_cons]

theorem mfFiller_neverFull {page : List Filled} {name : CStr} {type : UInt32}
    (hoff : dir.startingOff ≤ dir.curOff) :
    mfFiller heap neverFull (dir, page) name type =
      (0, { dir with curOff := dir.curOff + 1 },
        page ++ [⟨name, stMode type, dir.curOff⟩]) := by
  simp [mfFiller, neverFull, hoff]

theorem fillEach_neverFull (heap : Heap) (entries : List (CStr × UInt32)) (dir : MfDir)
    (page : List Filled) (hoff : dir.startingOff ≤ dir.curOff) :
    ∃ dir', fillEach (mfFiller heap neverFull) entries (dir, page) =
      (0, [], dir', page ++ numbered dir.curOff entries) := by
  induction entries generalizing dir page with
  | nil => exact ⟨dir, by simp [fillEach, numbered]⟩
  | cons entry entries ih =>
      obtain ⟨name, type⟩ := entry
      have hnext : dir.startingOff ≤ dir.curOff + 1 := by omega
      obtain ⟨dir', hfill⟩ := ih { dir with curOff := dir.curOff + 1 }
        (page ++ [⟨name, stMode type, dir.curOff⟩]) hnext
      refine ⟨dir', ?_⟩
      simp only [fillEach, mfFiller_neverFull hoff, ne_eq, not_true_eq_false, if_false]
      rw [hfill, List.append_assoc, List.singleton_append, numbered]

theorem run_mfReaddir_rewind (heap : Heap) (hpaths : AbsolutePaths db)
    (habsolute : Absolute locator) (hfuel : db.keys.card < fuel) (hcur : 0 ≤ dir.curOff)
    (hfreed : dir.handle.ddkFreed = false) (hahead : Ahead db locator dir key entries) :
    ∃ error dir', (mfReaddir heap neverFull fuel dir [] 0).run db =
      some ((error, dir', numbered dir.curOff (dotEntries ++ entries)), db) := by
  have hnext : 0 ≤ dir.curOff + 1 := by omega
  have htwo : (2 : Int) ≤ dir.curOff + 1 + 1 := by omega
  have hstart : mfReaddirStart heap neverFull dir [] 0 =
      ({ dir with startingOff := 0, curOff := dir.curOff + 1 + 1 },
        numbered dir.curOff dotEntries, 2) := by
    simp [mfReaddirStart, mfFiller, neverFull, hcur, hnext, numbered, dotEntries]
  obtain ⟨dir₂, hfill⟩ := fillEach_neverFull heap entries
    { dir with startingOff := 2, curOff := dir.curOff + 1 + 1 }
    (numbered dir.curOff dotEntries) htwo
  have hahead₁ : Ahead db locator
      { dir with startingOff := 0, curOff := dir.curOff + 1 + 1 } key entries :=
    ⟨hahead.stands, hahead.low, hahead.entries_eq⟩
  obtain ⟨error, dh, key', hrun, -⟩ :=
    run_mfReaddir hpaths habsolute hfuel hstart hfreed hahead₁ hfill
  exact ⟨error, { dir₂ with handle := dh }, hrun⟩

theorem numbered_eq {off : Int} (more : List (CStr × UInt32)) :
    (numbered off (dotEntries ++ entries)).map (fun f => (f.name, f.off)) =
        (numbered 0 (dotEntries ++ more)).map (fun f => (f.name, f.off)) →
      off = 0 ∧ entries.length = more.length := by
  intro heq
  have hlength := congrArg List.length heq
  simp only [List.length_map, length_numbered, List.length_append] at hlength
  simp only [dotEntries, List.cons_append, numbered, List.map_cons, List.cons.injEq,
    Prod.mk.injEq, true_and] at heq
  exact ⟨heq.1, by omega⟩

/-! ## The earlier calls -/

theorem Counted.advance (h : Counted dir) : Counted { dir with curOff := dir.curOff + 1 } := by
  have hcur := h.cur
  refine ⟨by simp only; omega, ?_⟩
  intro saved hsome
  have hoff := h.saved saved hsome
  exact ⟨hoff.1, by simp only; omega⟩

theorem counted_mfFiller {name : CStr} {type : UInt32} {code : Int} {dir' : MfDir} {buf' : β}
    (hcounted : Counted dir)
    (h : mfFiller heap filler (dir, buf) name type = (code, dir', buf')) :
    Counted dir' ∧ dir.curOff ≤ dir'.curOff ∧ dir'.handle = dir.handle := by
  have hnext : dir.curOff ≤ dir.curOff + 1 := by omega
  simp only [mfFiller] at h
  split at h
  · split at h
    · cases h
      refine ⟨⟨hcounted.cur, ?_⟩, le_refl _, rfl⟩
      intro saved hsome
      simp only at hsome
      split at hsome
      · cases hsome
        exact ⟨hcounted.cur, le_refl _⟩
      · cases hsome
    · cases h
      exact ⟨hcounted.advance, hnext, rfl⟩
  · cases h
    exact ⟨hcounted.advance, hnext, rfl⟩

theorem Counted.dropSaved (h : Counted dir) : Counted { dir with saved := none } :=
  ⟨h.cur, fun _ hsome => by cases hsome⟩

theorem Counted.startAt (h : Counted dir) (off : Int) :
    Counted { dir with startingOff := off } := ⟨h.cur, h.saved⟩

theorem counted_mfReaddirStart {dir' : MfDir} {buf' : β} {offset' : Int}
    (hcounted : Counted dir)
    (h : mfReaddirStart heap filler dir buf offset = (dir', buf', offset')) :
    Counted dir' ∧ dir.curOff ≤ dir'.curOff ∧ dir'.handle = dir.handle := by
  unfold mfReaddirStart at h
  split at h
  · simp only at h
    generalize hfirst : mfFiller heap filler ({ dir with startingOff := 0 }, buf) dot
      MangooTypes.container.toUInt32 = first at h
    obtain ⟨code₁, dir₁, buf₁⟩ := first
    generalize hsecond : mfFiller heap filler (dir₁, buf₁) dotdot
      MangooTypes.container.toUInt32 = second at h
    obtain ⟨code₂, dir₂, buf₂⟩ := second
    cases h
    obtain ⟨hcounted₁, hle₁, hhandle₁⟩ := counted_mfFiller (hcounted.startAt 0) hfirst
    obtain ⟨hcounted₂, hle₂, hhandle₂⟩ := counted_mfFiller hcounted₁ hsecond
    exact ⟨hcounted₂, hle₁.trans hle₂, hhandle₂.trans hhandle₁⟩
  · split at h
    · cases h
      exact ⟨hcounted, le_refl _, rfl⟩
    · rename_i saved hsome
      split at h
      · simp only at h
        generalize hfirst : mfFiller heap filler (dir, buf) saved.name saved.type = first at h
        obtain ⟨code₁, dir₁, buf₁⟩ := first
        cases h
        obtain ⟨hcounted₁, hle₁, hhandle₁⟩ := counted_mfFiller hcounted hfirst
        exact ⟨hcounted₁.dropSaved, hle₁, hhandle₁⟩
      · cases h
        exact ⟨hcounted.dropSaved, le_refl _, rfl⟩

theorem fillEach_counted {code : Int} {left : List (CStr × UInt32)} {dir' : MfDir} {buf' : β}
    (hcounted : Counted dir)
    (h : fillEach (mfFiller heap filler) entries (dir, buf) = (code, left, dir', buf')) :
    Counted dir' ∧ dir.curOff ≤ dir'.curOff ∧ left.length ≤ entries.length - 1 := by
  induction entries generalizing dir buf with
  | nil =>
      cases h
      exact ⟨hcounted, le_refl _, le_refl _⟩
  | cons entry entries ih =>
      obtain ⟨name, type⟩ := entry
      simp only [fillEach] at h
      generalize hfirst : mfFiller heap filler (dir, buf) name type = first at h
      obtain ⟨code₁, dir₁, buf₁⟩ := first
      obtain ⟨hcounted₁, hle₁, -⟩ := counted_mfFiller hcounted hfirst
      by_cases hcode : code₁ = 0
      · simp only [hcode, ne_eq, not_true_eq_false, if_false] at h
        obtain ⟨hcounted', hle', hleft⟩ := ih hcounted₁ h
        refine ⟨hcounted', hle₁.trans hle', ?_⟩
        rw [List.length_cons]
        omega
      · simp only [ne_eq, hcode, not_false_eq_true, if_true] at h
        cases h
        exact ⟨hcounted₁, hle₁, by simp⟩

theorem run_mfReaddir_counted (heap : Heap) (filler : FuseFillDir β) (buf : β) (offset : Int)
    (hpaths : AbsolutePaths db) (habsolute : Absolute locator)
    (hfuel : db.keys.card < fuel) (hcounted : Counted dir)
    (hfreed : dir.handle.ddkFreed = false) (hahead : Ahead db locator dir key entries) :
    ∃ error dir' buf' left key', (mfReaddir heap filler fuel dir buf offset).run db =
        some ((error, dir', buf'), db) ∧ Counted dir' ∧ dir.curOff ≤ dir'.curOff ∧
      Ahead db locator dir' key' left ∧ left.length ≤ entries.length - 1 ∧
      (heap.InPlace → dir'.handle.ddkFreed = false) ∧
      (entries = [] → dir'.curOff = (mfReaddirStart heap filler dir buf offset).1.curOff ∧
        key' = (keysAhead db locator key).getLastD key ∧
        (dir'.handle.ddkFreed = false ↔
          KeepsBuffer heap (keySize key) (keysAhead db locator key))) := by
  generalize hstart : mfReaddirStart heap filler dir buf offset = start
  obtain ⟨dir₁, buf₁, offset₁⟩ := start
  obtain ⟨hcounted₁, hle₁, hhandle⟩ := counted_mfReaddirStart hcounted hstart
  have hfreed₁ : dir₁.handle.ddkFreed = false := by rw [hhandle, hfreed]
  have hahead₁ : Ahead db locator dir₁ key entries := by
    refine ⟨?_, hahead.low, hahead.entries_eq⟩
    rw [hhandle]
    exact hahead.stands
  generalize hfill : fillEach (mfFiller heap filler) entries
    ({ dir₁ with startingOff := offset₁ }, buf₁) = result
  obtain ⟨code, left, dir₂, buf₂⟩ := result
  obtain ⟨hcounted₂, hle₂, hleft⟩ := fillEach_counted (hcounted₁.startAt offset₁) hfill
  obtain ⟨error, dh, key', hrun, hahead', hafter⟩ :=
    run_mfReaddir hpaths habsolute hfuel hstart hfreed₁ hahead₁ hfill
  refine ⟨error, { dir₂ with handle := dh }, buf₂, left, key', hrun,
    ⟨hcounted₂.cur, hcounted₂.saved⟩, hle₁.trans hle₂, hahead', hleft,
    fun hinPlace => hafter.inPlace hinPlace rfl, ?_⟩
  rintro rfl
  cases hfill
  refine ⟨rfl, hafter.last rfl, ?_⟩
  rw [hafter.kept_iff rfl]
  exact and_iff_right rfl

/-- Where nothing is ahead, only the two dots are counted, and only by a call with
offset zero and room for one. -/
theorem curOff_mfReaddirStart_iff (heap : Heap) (call : ReaddirCall) (hcounted : Counted dir)
    (hcur : dir.curOff = 0) :
    (mfReaddirStart heap (fillPage call.capacity) dir [] call.offset).1.curOff = 0 ↔
      (call.offset = 0 → call.capacity = 0) := by
  unfold mfReaddirStart
  by_cases hoffset : call.offset = 0
  · by_cases hcapacity : call.capacity = 0
    · simp [hoffset, hcapacity, mfFiller, fillPage, hcur]
    · have hroom : 0 < call.capacity := Nat.pos_of_ne_zero hcapacity
      by_cases hmore : 1 < call.capacity
      · simp [hoffset, hcapacity, mfFiller, fillPage, hcur, hroom, hmore]
      · simp [hoffset, hcapacity, mfFiller, fillPage, hcur, hroom, hmore]
  · simp only [hoffset, if_false, false_implies, iff_true]
    cases hsome : dir.saved with
    | none => exact hcur
    | some saved =>
        have hoff := hcounted.saved saved hsome
        have hne : saved.off ≠ call.offset := by omega
        simp only [hne, if_false]
        exact hcur

/-! ## Rewinding -/

theorem run_rewindOn_freed (heap : Heap) (calls : List ReaddirCall) (hcounted : Counted dir)
    (hfreed : dir.handle.ddkFreed = true) : (rewindOn heap fuel calls dir).run db = none := by
  have hnone : ∀ (heap : Heap) (filler : FuseFillDir (List Filled)) (offset : Int),
      (mfReaddir heap filler fuel dir [] offset).run db = none := by
    intro heap filler offset
    generalize hstart : mfReaddirStart heap filler dir [] offset = start
    obtain ⟨dir₁, buf₁, offset₁⟩ := start
    obtain ⟨-, -, hhandle⟩ := counted_mfReaddirStart hcounted hstart
    apply run_mfReaddir_freed hstart
    rw [hhandle, hfreed]
  cases calls with
  | nil => rw [rewindOn, Prog.run_bind, hnone, Option.bind_none]
  | cons call calls => rw [rewindOn, Prog.run_bind, hnone, Option.bind_none]

/-- The last call numbers what is left from where the earlier ones stopped counting, or one of
the calls meets a freed buffer. -/
theorem run_rewindOn (heap : Heap) (calls : List ReaddirCall) (hpaths : AbsolutePaths db)
    (habsolute : Absolute locator) (hfuel : db.keys.card < fuel) (hcounted : Counted dir)
    (hfreed : dir.handle.ddkFreed = false) (hahead : Ahead db locator dir key entries) :
    (∃ off left, (rewindOn heap fuel calls dir).run db =
        some (numbered off (dotEntries ++ left), db) ∧ dir.curOff ≤ off ∧
      left.length ≤ entries.length - calls.length ∧
      (entries = [] → BuffersKept db locator calls key ∧
        (dir.curOff = 0 →
          (off = 0 ↔ ∀ call ∈ calls, call.offset = 0 → call.capacity = 0)))) ∨
    (rewindOn heap fuel calls dir).run db = none ∧
      (¬ ∀ call ∈ calls, call.heap.InPlace) ∧
      (entries = [] → ¬ BuffersKept db locator calls key) := by
  induction calls generalizing dir key entries with
  | nil =>
      obtain ⟨error, dir', hrun⟩ :=
        run_mfReaddir_rewind heap hpaths habsolute hfuel hcounted.cur hfreed hahead
      refine .inl ⟨dir.curOff, entries, ?_, le_refl _, le_refl _, fun _ => ⟨trivial, ?_⟩⟩
      · simp [rewindOn, hrun]
      · simp
  | cons call calls ih =>
      obtain ⟨error, dir₁, page, left₁, key₁, hrun, hcounted₁, hle₁, hahead₁, hleft₁, hinPlace₁,
        hstart⟩ := run_mfReaddir_counted call.heap (fillPage call.capacity) [] call.offset hpaths
          habsolute hfuel hcounted hfreed hahead
      have hstep : (rewindOn heap fuel (call :: calls) dir).run db =
          (rewindOn heap fuel calls dir₁).run db := by
        simp [rewindOn, hrun]
      rw [hstep]
      cases hfreed₁ : dir₁.handle.ddkFreed with
      | true =>
          refine .inr ⟨run_rewindOn_freed heap calls hcounted₁ hfreed₁, fun hall => ?_,
            fun hnone hkept => ?_⟩
          · have hfalse := hinPlace₁ (hall call List.mem_cons_self)
            rw [hfreed₁] at hfalse
            cases hfalse
          · have hfalse := (hstart hnone).2.2.mpr hkept.1
            rw [hfreed₁] at hfalse
            cases hfalse
      | false =>
          have hnone₁ : entries = [] → left₁ = [] := by
            intro hnone
            apply List.eq_nil_of_length_eq_zero
            rw [hnone, List.length_nil] at hleft₁
            omega
          rcases ih hcounted₁ hfreed₁ hahead₁ with
            ⟨off, left, hrest, hle, hleft, hcount⟩ | ⟨hrest, hnot, hcount⟩
          · refine .inl ⟨off, left, hrest, hle₁.trans hle, ?_, fun hnone => ?_⟩
            · rw [List.length_cons]
              omega
            · obtain ⟨hcurOff, rfl, hkept⟩ := hstart hnone
              obtain ⟨hrestKept, hoff⟩ := hcount (hnone₁ hnone)
              refine ⟨⟨hkept.mp hfreed₁, hrestKept⟩, fun hcur => ?_⟩
              have hiff := curOff_mfReaddirStart_iff call.heap call hcounted hcur
              rw [← hcurOff] at hiff
              rw [List.forall_mem_cons, ← hiff]
              by_cases hcur₁ : dir₁.curOff = 0
              · rw [hoff hcur₁]
                simp [hcur₁]
              · have hpos := hcounted₁.cur
                have hne : off ≠ 0 := by omega
                simp [hcur₁, hne]
          · refine .inr ⟨hrest, fun hall => hnot (List.forall_mem_cons.mp hall).2,
              fun hnone hkept => ?_⟩
            obtain ⟨-, rfl, -⟩ := hstart hnone
            exact hcount (hnone₁ hnone) hkept.2

theorem run_mfOpendir (hok : heap.ok = true) (hdir : Key.dentry locator ∈ db) :
    ∃ dir, (mfOpendir heap locator).run db = some ((0, some dir), db) ∧ Counted dir ∧
      dir.curOff = 0 ∧ dir.handle.ddkFreed = false ∧
      Ahead db locator dir (.dentry locator) (entriesAbove db locator (.dentry locator)) := by
  obtain ⟨dh, hopen, hstands, hfreed⟩ := run_dbfsOpen_directory hok hdir
  refine ⟨⟨dh, 0, 0, none⟩, ?_, ⟨le_refl _, fun _ hsome => by cases hsome⟩, rfl, hfreed,
    hstands, le_refl _, rfl⟩
  simp [mfOpendir, hok, hopen]

theorem run_rewindAfter (calls : List ReaddirCall)
    (hopen : (mfOpendir heap locator).run db = some ((0, some dir), db)) :
    (rewindAfter heap fuel locator calls).run db =
      ((rewindOn heap fuel calls dir).run db).map fun r => (some r.1, r.2) := by
  cases hrun : (rewindOn heap fuel calls dir).run db <;> simp [rewindAfter, hopen, hrun]

theorem buffersKept_of_inPlace (db : Db) (locator : CStr) {calls : List ReaddirCall}
    (h : ∀ call ∈ calls, call.heap.InPlace) (key : Key) : BuffersKept db locator calls key := by
  induction calls generalizing key with
  | nil => trivial
  | cons call calls ih =>
      obtain ⟨hcall, hcalls⟩ := List.forall_mem_cons.mp h
      exact ⟨keepsBuffer_of_inPlace hcall _ _, ih hcalls _⟩

end Mangoo.Fuse
