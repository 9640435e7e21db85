import Mangoo.Dbfs.Children

/-!
# Resuming a listing

A filler may end a scan at any entry, and the next call goes on behind it.  Only the
first call on the root directory finds the root's own key in the key buffer, the
later ones apply the rule of other directories; on absolute paths the two rules
agree, so the calls together hand out what one scan does.
-/

namespace Mangoo.Dbfs

open Mangoo.Foundation

variable {σ : Type}

/-- Call `dbfs_readdir` until it returns `0`; `budget` bounds the calls. -/
def readUntilDone (heaps : Nat → Heap) (filler : σ → CStr → UInt32 → Int × σ) (fuel : Nat) :
    Nat → DbfsHandle → σ → DbProg (DbfsHandle × σ)
  | 0, _, _ => .spin
  | budget + 1, dh, finfo => do
      let (error, dh, finfo) ← dbfsReaddir (heaps budget) filler fuel dh finfo
      if error ≠ 0 then readUntilDone heaps filler fuel budget dh finfo
      else return (dh, finfo)

variable {db : Db} {locator : CStr} {key : Key} {fuel : Nat} {heaps : Nat → Heap}

theorem fillEach_logging (filler : σ → CStr → UInt32 → Int × σ)
    (entries : List (CStr × UInt32)) (finfo : σ) (log : List (CStr × UInt32)) :
    ∃ error passed left finfo', entries = passed ++ left ∧
      fillEach (logging filler) entries (finfo, log) =
        (error, left, finfo', log ++ passed) ∧
      (error = 0 → left = []) ∧ (error ≠ 0 → passed ≠ []) := by
  induction entries generalizing finfo log with
  | nil => exact ⟨0, [], [], finfo, rfl, by simp [fillEach], fun _ => rfl, fun h => absurd rfl h⟩
  | cons entry entries ih =>
      obtain ⟨name, type⟩ := entry
      cases hfiller : filler finfo name type with
      | mk code finfo₁ =>
          by_cases hcode : code = 0
          · subst hcode
            obtain ⟨error, passed, left, finfo', rfl, hfill, hleft, -⟩ :=
              ih finfo₁ (log ++ [(name, type)])
            refine ⟨error, (name, type) :: passed, left, finfo', rfl, ?_, hleft, by simp⟩
            simp only [fillEach, logging, hfiller, ne_eq, not_true_eq_false, if_false]
            rw [hfill, List.append_assoc, List.singleton_append]
          · refine ⟨code, [(name, type)], entries, finfo₁, rfl, ?_, fun h => absurd h hcode,
              by simp⟩
            simp [fillEach, logging, hfiller, hcode]

theorem run_readUntilDone (filler : σ → CStr → UInt32 → Int × σ) (budget : Nat)
    {dh : DbfsHandle} (finfo : σ) (log : List (CStr × UInt32)) (hpaths : AbsolutePaths db)
    (habsolute : Absolute locator) (hinPlace : ∀ i, (heaps i).InPlace)
    (hstands : Stands dh locator key) (hfreed : dh.ddkFreed = false)
    (hlow : Key.dentry locator ≤ key) (hfuel : db.keys.card < fuel)
    (hbudget : (entriesAbove db locator key).length < budget) :
    ∃ dh' finfo', (readUntilDone heaps (logging filler) fuel budget dh (finfo, log)).run db =
      some ((dh', finfo', log ++ entriesAbove db locator key), db) := by
  induction budget generalizing dh key finfo log with
  | zero => omega
  | succ budget ih =>
      obtain ⟨error, passed, left, finfo₁, hsplit, hfill, hdone, hpassed⟩ :=
        fillEach_logging filler (entriesAbove db locator key) finfo log
      obtain ⟨dh₁, key₁, hrun, hstands₁, hlow₁, hleft, hafter⟩ :=
        run_dbfsReaddir (heaps budget) (logging filler) hpaths habsolute hstands hfreed hlow
          hfuel hfill
      by_cases herror : error = 0
      · refine ⟨dh₁, finfo₁, ?_⟩
        have hall : entriesAbove db locator key = passed := by
          rw [hsplit, hdone herror, List.append_nil]
        simp [readUntilDone, hrun, herror, hall]
      · have hshorter : (entriesAbove db locator key₁).length < budget := by
          have hpos := List.length_pos_of_ne_nil (hpassed herror)
          rw [hsplit, List.length_append] at hbudget
          rw [hleft]
          omega
        have hfreed₁ := hafter.inPlace (hinPlace budget) rfl
        obtain ⟨dh', finfo', hrest⟩ :=
          ih finfo₁ (log ++ passed) hstands₁ hfreed₁ hlow₁ hshorter
        refine ⟨dh', finfo', ?_⟩
        rw [hleft, List.append_assoc, ← hsplit] at hrest
        simp [readUntilDone, hrun, herror, hrest]

/--
However a filler interrupts the scans of one handle on the root directory, it is
handed every child of the root exactly once, with its type, and nothing else, if Berkeley DB
writes the keys into the buffer of the handle.
-/
theorem resumed_root_listing_exact (heap : Heap) (heaps : Nat → Heap) (db : Db)
    (fuel budget : Nat) (filler : σ → CStr → UInt32 → Int × σ) (finfo : σ)
    (hok : heap.ok = true) (hinPlace : ∀ i, (heaps i).InPlace)
    (hpaths : WellFormedPaths db) (hroot : Key.dentry rootPath ∈ db)
    (hfuel : db.keys.card < fuel) (hbudget : db.keys.card < budget) :
    ∃ dh dh' finfo', ∃ passed : List (CStr × UInt32),
      (dbfsDopen heap rootPath).run db = some ((0, some dh), db) ∧
      (readUntilDone heaps (logging filler) fuel budget dh (finfo, [])).run db =
        some ((dh', finfo', passed), db) ∧
      (∀ entry, entry ∈ passed ↔ IsListedChild db rootPath entry) ∧
      (passed.map Prod.fst).Nodup := by
  have hlocator := hpaths rootPath hroot
  obtain ⟨dh, hopen, hstands, hfreed⟩ := run_dbfsDopen hok hroot
  obtain ⟨dh', finfo', hrun⟩ := run_readUntilDone filler budget finfo []
    hpaths.absolutePaths hlocator.absolute hinPlace hstands hfreed (le_refl _) hfuel
    ((length_entriesAbove_le db rootPath).trans_lt hbudget)
  have hnone : ∀ path, Key.dentry path ∈ db → ¬ ExtendsName rootPath path :=
    fun _ _ h => h.1 rfl
  rw [entriesAbove_eq_childrenOf hpaths hlocator hnone, List.nil_append] at hrun
  exact ⟨dh, dh', finfo', _, hopen, hrun, fun _ => mem_childrenOf_iff hpaths hlocator,
    nodup_names_childrenOf hpaths hlocator⟩

def everyOther (turn : Bool) (_ : CStr) (_ : UInt32) : Int × Bool :=
  (if turn then enobufs else 0, !turn)

theorem resumed_root_listing_every_other :
    ∃ dh dh' finfo', ∃ passed : List (CStr × UInt32),
      (dbfsDopen plainHeap rootPath).run namesakeDb = some ((0, some dh), namesakeDb) ∧
      (readUntilDone (fun _ => plainHeap) (logging everyOther) 5 5 dh (true, [])).run namesakeDb =
        some ((dh', finfo', passed), namesakeDb) ∧
      (∀ entry, entry ∈ passed ↔ IsListedChild namesakeDb rootPath entry) ∧
      (passed.map Prod.fst).Nodup :=
  resumed_root_listing_exact plainHeap (fun _ => plainHeap) namesakeDb 5 5 everyOther true rfl
    (fun _ _ => rfl)
    wellFormedPaths_namesakeDb (mem_namesakeDb.mpr (by simp)) (by decide) (by decide)

end Mangoo.Dbfs
