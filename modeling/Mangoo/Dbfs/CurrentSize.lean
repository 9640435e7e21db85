import Mangoo.Dbfs.NewBlocks
import Mangoo.Dbfs.SharedWrites

/-!
# Reads and the current size

Any number of handles on one data file.  A read clips at the size in its handle's
copy of the record, while the stored size moves through the other handles.
-/

namespace Mangoo.Dbfs

open Mangoo.Foundation

variable {db : Db} {dh : DbfsHandle} {ddd : DentryData} {n offset : UInt64}

/-! ## One read -/

/-- A read returns the bytes that the file with the record `ddd` has in the range, those and
no others. -/
def ReadsUpTo (db : Db) (dh : DbfsHandle) (ddd : DentryData) (n offset : UInt64) : Prop :=
  ∀ (heap : Heap) (buf : List UInt8), n.toNat ≤ buf.length →
    ∃ code out, (dbfsRead heap dh buf n offset).run db =
        some ((code, UInt64.ofNat (clipped ddd.dddSize offset n), out), db) ∧
      ∀ i, i < clipped ddd.dddSize offset n →
        out[i]? = some (byteAt db ddd.dddIno (offset.toNat + i))

def SameEnd (cached stored n offset : UInt64) : Prop :=
  n = 0 ∨ offset.toNat ≤ cached.toNat ∧ clipped cached offset n = clipped stored offset n

theorem clipped_zero (size offset : UInt64) : clipped size offset 0 = 0 := by
  rw [clipped, UInt64.toNat_zero, Nat.zero_min]

theorem clipped_le (size offset n : UInt64) : clipped size offset n ≤ n.toNat :=
  Nat.min_le_left _ _

theorem readsUpTo_of_sameEnd (hwf : BlocksWF db) (hino : dh.attrDdd.dddIno = ddd.dddIno)
    (hfits : offset.toNat + n.toNat < 2 ^ 64)
    (h : SameEnd dh.attrDdd.dddSize ddd.dddSize n offset) : ReadsUpTo db dh ddd n offset := by
  intro heap buf hroom
  by_cases hoffset : offset.toNat ≤ dh.attrDdd.dddSize.toNat
  · have hsame : clipped dh.attrDdd.dddSize offset n = clipped ddd.dddSize offset n := by
      rcases h with rfl | ⟨-, hsame⟩
      · rw [clipped_zero, clipped_zero]
      · exact hsame
    have hrun := run_dbfsRead_clipped heap hwf hoffset hfits
      ((clipped_le dh.attrDdd.dddSize offset n).trans hroom)
    rw [hsame, hino] at hrun
    refine ⟨_, _, hrun, ?_⟩
    intro i hi
    rw [List.getElem?_append_left (by simpa using hi), getElem?_readBytes hi]
    rfl
  · rcases h with rfl | ⟨hle, -⟩
    · rw [dbfsRead_of_behind heap buf 0 (by omega), clipped_zero]
      exact ⟨0, buf, rfl, fun i hi => absurd hi (Nat.not_lt_zero i)⟩
    · exact absurd hle hoffset

theorem sameEnd_of_readsUpTo (hwf : BlocksWF db) (hfits : offset.toNat + n.toNat < 2 ^ 64)
    (h : ReadsUpTo db dh ddd n offset) :
    SameEnd dh.attrDdd.dddSize ddd.dddSize n offset := by
  by_cases hn : n = 0
  · exact .inl hn
  -- a buffer that differs from the file at the start of the range
  obtain ⟨code, out, hrun, hbytes⟩ := h plainHeap
    (List.replicate n.toNat (byteAt db ddd.dddIno offset.toNat + 1))
    (by rw [List.length_replicate])
  have hclipped := toNat_ofNat_clipped ddd.dddSize offset n
  by_cases hoffset : offset.toNat ≤ dh.attrDdd.dddSize.toNat
  · rw [run_dbfsRead_clipped plainHeap hwf hoffset hfits
      ((clipped_le dh.attrDdd.dddSize offset n).trans (by rw [List.length_replicate]))] at hrun
    have hcount := congrArg (fun result => result.1.2.1.toNat) (Option.some.inj hrun)
    simp only [toNat_ofNat_clipped] at hcount
    exact .inr ⟨hoffset, hcount⟩
  · have hpos := toNat_ne_zero hn
    rw [dbfsRead_of_behind plainHeap _ n (by omega), Prog.run_pure] at hrun
    simp only [Option.some.injEq, Prod.mk.injEq] at hrun
    obtain ⟨⟨-, hcount, rfl⟩, -⟩ := hrun
    rw [← hcount] at hclipped
    have hfirst := hbytes 0 (by omega)
    rw [Nat.add_zero, List.getElem?_replicate, if_pos (by omega)] at hfirst
    exact absurd (Option.some.inj hfirst) (by simp)

/-! ## Runs on one file -/

structure OneFile (path : CStr) (ino : UInt64) (s : Sys) : Prop where
  wf : BlocksWF s.db
  handles : AllOn path s
  stored : ∃ ddd, s.db.lookup (.dentry path) = some ddd ∧ ddd.dddIno = ino
  copies : ∀ id dh, s.handles id = some dh → dh.attrDdd.dddIno = ino

variable {path : CStr} {ino : UInt64} {s s' : Sys} {op : Op} {error : Int}

theorem Step.oneFile (h : Step False s (op, error) s') (hop : OnEntry path op)
    (hfits : WritesFit op) (hinv : OneFile path ino s) : OneFile path ino s' where
  wf := h.blocksWF hfits hinv.wf
  handles := h.allOn hinv.handles hop
  stored := by
    obtain ⟨ddd, hlookup, hino⟩ := hinv.stored
    rcases h.onEntry hinv.handles hop with
      ⟨-, hsame⟩ | ⟨id, call, dh, -, -, hid, hstored⟩
    · exact ⟨ddd, by rw [hsame, hlookup], hino⟩
    · exact ⟨_, hstored, by rw [HandleCall.update_dddIno, hinv.copies id dh hid]⟩
  copies := by
    intro id dh' hid
    rcases h.handle hid with hid | ⟨heap, locator, mi, rfl, -, hopened⟩ |
        ⟨dh, call, -, hopen, rfl⟩
    · exact hinv.copies id dh' hid
    · obtain ⟨ddd, hlookup, hino⟩ := hinv.stored
      have hlocator : locator = path := hop
      have hstored := hopened.stored
      rw [hlocator, hlookup] at hstored
      cases hstored
      exact hino
    · rw [HandleCall.update_dddIno]
      exact hinv.copies id dh hopen

/-- However handles on a data file were opened, written, resized and read before, a read
through any of them returns what the file has up to its stored size exactly when the size
in the handle's copy puts the end of the request at the same place. -/
theorem reads_current_size_iff (path : CStr) (s₀ s : Sys) (events : List (Op × Int))
    (ddd₀ : DentryData) (hclosed : s₀.handles = fun _ => none) (hwf : BlocksWF s₀.db)
    (hlookup : s₀.db.lookup (.dentry path) = some ddd₀)
    (hrun : Run (fun s event s' => OnEntry path event.1 ∧ WritesFit event.1 ∧
      Step False s event s') s₀ events s) :
    ∃ ddd, s.db.lookup (.dentry path) = some ddd ∧
      ∀ id dh n offset, s.handles id = some dh → offset.toNat ≤ ddd.dddSize.toNat →
        offset.toNat + n.toNat < 2 ^ 63 →
        (ReadsUpTo s.db dh ddd n offset ↔
          SameEnd dh.attrDdd.dddSize ddd.dddSize n offset) := by
  have hinv : OneFile path ddd₀.dddIno s := by
    apply hrun.invariant
    · refine ⟨hwf, allOn_of_no_handles hclosed, ⟨ddd₀, hlookup, rfl⟩, ?_⟩
      intro id dh hid
      rw [hclosed] at hid
      cases hid
    · rintro s ⟨op, error⟩ s' hinv ⟨hop, hfits, hstep⟩
      exact hstep.oneFile hop hfits hinv
  obtain ⟨ddd, hstored, hino⟩ := hinv.stored
  refine ⟨ddd, hstored, ?_⟩
  intro id dh n offset hid _ hfits
  have hfits' : offset.toNat + n.toNat < 2 ^ 64 := by omega
  constructor
  · exact sameEnd_of_readsUpTo hinv.wf hfits'
  · exact readsUpTo_of_sameEnd hinv.wf (by rw [hinv.copies id dh hid, hino]) hfits'

theorem reads_current_size_opened :
    ReadsUpTo streamSys.db streamHandle ⟨1, 0o644, 2, 5, 0, 0, 0, 0⟩ 9 0 := by
  obtain ⟨ddd, hlookup, hread⟩ := reads_current_size_iff pathA fileSys streamSys
    [(.mangooOpen plainHeap pathA .stream 0, 0)] _ rfl blocksWF_fileDb
    (Finmap.lookup_insert _) (.single ⟨rfl, trivial, step_open_stream⟩)
  rw [streamSys, fileDb, Finmap.lookup_insert] at hlookup
  cases hlookup
  exact (hread 0 streamHandle 9 0 rfl (by decide) (by decide)).mpr (.inr ⟨by decide, rfl⟩)

/-- A handle opened before another one grew the file stops at the old size. -/
theorem read_misses_new_bytes :
    ¬ ∀ (path : CStr) (s₀ s : Sys) (events : List (Op × Int)) (ddd₀ ddd : DentryData)
        (id : Nat) (dh : DbfsHandle) (n offset : UInt64), s₀.handles = (fun _ => none) →
      BlocksWF s₀.db → s₀.db.lookup (.dentry path) = some ddd₀ →
      Run (fun s event s' => OnEntry path event.1 ∧ WritesFit event.1 ∧
        Step False s event s') s₀ events s →
      s.db.lookup (.dentry path) = some ddd → s.handles id = some dh →
      offset.toNat ≤ ddd.dddSize.toNat → offset.toNat + n.toNat < 2 ^ 63 →
      ReadsUpTo s.db dh ddd n offset := by
  intro hlaw
  have hopen : Step False streamSys (.mangooOpen plainHeap pathA .stream 1, 0)
      { streamSys with
        handles := Function.update streamSys.handles 1 (some streamHandle) } :=
    .mangooOpen rfl rfl (Prog.exec_iff_run.mpr rfl)
  obtain ⟨s, hlong, hwrote, -, dh, hhandles⟩ := Step.mstreamWrite_returns longWrite
    (show Sys.handles { streamSys with
        handles := Function.update streamSys.handles 1 (some streamHandle) } 0 =
      some streamHandle from rfl) rfl blocksWF_fileDb fits_longWrite
  have hid : s.handles 1 = some streamHandle := by
    rw [hhandles]
    rfl
  have hread := hlaw pathA fileSys s
    [(.mangooOpen plainHeap pathA .stream 0, 0), (.mangooOpen plainHeap pathA .stream 1, 0),
      (.handleCall 0 (.mstreamWrite longWrite), 0)]
    _ _ 1 streamHandle 10 0 rfl blocksWF_fileDb (Finmap.lookup_insert _)
    (.cons ⟨rfl, trivial, step_open_stream⟩ (.cons ⟨rfl, trivial, hopen⟩
      (.single ⟨trivial, fits_longWrite, hlong⟩))) hwrote.stored hid (by decide) (by decide)
  rcases sameEnd_of_readsUpTo hwrote.wf (by decide) hread with hzero | ⟨-, hsame⟩
  · exact absurd hzero (by decide)
  · exact absurd hsame (by decide)

end Mangoo.Dbfs
