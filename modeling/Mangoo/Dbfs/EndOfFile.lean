import Mangoo.Dbfs.FileIo
import Mangoo.Dbfs.Store

/-!
# Reading up to the end of a file

`dbfs_read` clips a request at the size it has for the file.  Inside the file the
clip is exact, missing blocks read as zeros, and the result code is the one of
the last block.
-/

namespace Mangoo.Dbfs

open Mangoo.Foundation

variable {faulty : Prop} {db db' : Db} {heap : Heap} {ino : UInt64} {l l' : RwLocals}

/-- How many of `n` bytes at `offset` a file of `size` bytes has. -/
def clipped (size offset n : UInt64) : Nat := min n.toNat (size.toNat - offset.toNat)

theorem toNat_ofNat_clipped (size offset n : UInt64) :
    (UInt64.ofNat (clipped size offset n)).toNat = clipped size offset n := by
  have hlt := n.toNat_lt
  apply UInt64.toNat_ofNat_of_lt'
  simp only [clipped, UInt64.size]
  omega

theorem dbfsRead_of_behind (heap : Heap) {dh : DbfsHandle} (buf : List UInt8) (n : UInt64)
    {offset : UInt64} (h : dh.attrDdd.dddSize.toNat < offset.toNat) :
    dbfsRead heap dh buf n offset = pure (0, n, buf) := by
  rw [dbfsRead, if_pos (UInt64.lt_iff_toNat_lt.mpr h)]

theorem dbfsRead_eq_clipped (heap : Heap) (dh : DbfsHandle) (buf : List UInt8)
    {n offset : UInt64} (hoffset : offset.toNat ≤ dh.attrDdd.dddSize.toNat)
    (hfits : offset.toNat + n.toNat < 2 ^ 64) :
    dbfsRead heap dh buf n offset =
      dbfsRead heap dh buf (UInt64.ofNat (clipped dh.attrDdd.dddSize offset n)) offset := by
  have hclipped := toNat_ofNat_clipped dh.attrDdd.dddSize offset n
  generalize UInt64.ofNat (clipped dh.attrDdd.dddSize offset n) = k at hclipped
  unfold clipped at hclipped
  have hsize := dh.attrDdd.dddSize.toNat_lt
  have hsum : (offset + n).toNat = offset.toNat + n.toNat := by
    rw [UInt64.toNat_add]
    omega
  have hend : (offset + k).toNat ≤ dh.attrDdd.dddSize.toNat := by
    rw [UInt64.toNat_add]
    omega
  rw [dbfsRead_of_unclipped heap buf hoffset hend]
  by_cases hclip : (offset + n).toNat ≤ dh.attrDdd.dddSize.toNat
  · have heq : n = k := UInt64.toNat_inj.mp (by omega)
    rw [dbfsRead_of_unclipped heap buf hoffset hclip, heq]
  · have heq : dh.attrDdd.dddSize - offset = k := by
      apply UInt64.toNat_inj.mp
      rw [UInt64.toNat_sub_of_le _ _ (UInt64.le_iff_toNat_le.mpr hoffset)]
      omega
    have hbefore : ¬ offset > dh.attrDdd.dddSize := by
      rw [gt_iff_lt, UInt64.lt_iff_toNat_lt]
      omega
    have hbehind : offset + n > dh.attrDdd.dddSize := by
      rw [gt_iff_lt, UInt64.lt_iff_toNat_lt]
      omega
    rw [dbfsRead, if_neg hbefore]
    simp only [if_pos hbehind, heq]

def readCode (db : Db) (ino offset : UInt64) (k : Nat) : Int :=
  if k = 0 then 0 else blockCode db ino (offset.toNat + k - 1)

theorem readCode_eq_zero_iff {offset : UInt64} {k : Nat} :
    readCode db ino offset k = 0 ↔
      k = 0 ∨ Key.block ino (blockBase (offset.toNat + k - 1)) ∈ db := by
  unfold readCode blockCode
  by_cases hk : k = 0
  · simp [hk]
  · by_cases hmem : Key.block ino (blockBase (offset.toNat + k - 1)) ∈ db
    · simp [hmem]
    · simp [hk, hmem, dbNotfound]

theorem run_dbfsRead_clipped (heap : Heap) {dh : DbfsHandle} {buf : List UInt8}
    {n offset : UInt64} (hwf : BlocksWF db)
    (hoffset : offset.toNat ≤ dh.attrDdd.dddSize.toNat)
    (hfits : offset.toNat + n.toNat < 2 ^ 64)
    (hroom : clipped dh.attrDdd.dddSize offset n ≤ buf.length) :
    (dbfsRead heap dh buf n offset).run db =
      some ((readCode db dh.attrDdd.dddIno offset (clipped dh.attrDdd.dddSize offset n),
        UInt64.ofNat (clipped dh.attrDdd.dddSize offset n),
        readBytes db dh.attrDdd.dddIno offset.toNat (clipped dh.attrDdd.dddSize offset n) ++
          buf.drop (clipped dh.attrDdd.dddSize offset n)), db) := by
  have hclipped := toNat_ofNat_clipped dh.attrDdd.dddSize offset n
  have hzero : UInt64.ofNat (clipped dh.attrDdd.dddSize offset n) = 0 ↔
      clipped dh.attrDdd.dddSize offset n = 0 := by
    rw [← UInt64.toNat_inj, hclipped, UInt64.toNat_zero]
  have hinside : offset.toNat + (UInt64.ofNat (clipped dh.attrDdd.dddSize offset n)).toNat ≤
      dh.attrDdd.dddSize.toNat := by
    rw [hclipped, clipped]
    omega
  rw [dbfsRead_eq_clipped heap dh buf hoffset hfits,
    run_dbfsRead heap hwf hinside (by rw [hclipped]; exact hroom), hclipped]
  simp only [hzero, readCode]

/-! ## Sparse files -/

/--
A read inside the file returns `0` with the clipped size and the stored bytes,
zero where a block is missing, if and only if it is empty or the last block it
meets is stored.
-/
theorem sparse_read_iff (heap : Heap) (dh : DbfsHandle) (buf : List UInt8)
    (n offset : UInt64) (db : Db) (hwf : BlocksWF db)
    (hoffset : offset.toNat ≤ dh.attrDdd.dddSize.toNat)
    (hfits : offset.toNat + n.toNat < 2 ^ 63)
    (hroom : clipped dh.attrDdd.dddSize offset n ≤ buf.length) :
    (∃ out, (dbfsRead heap dh buf n offset).run db =
        some ((0, UInt64.ofNat (clipped dh.attrDdd.dddSize offset n), out), db) ∧
      ∀ i, i < clipped dh.attrDdd.dddSize offset n →
        out[i]? = some ((content db dh.attrDdd.dddIno (offset.toNat + i)).getD 0)) ↔
      clipped dh.attrDdd.dddSize offset n = 0 ∨
        Key.block dh.attrDdd.dddIno
          (blockBase (offset.toNat + clipped dh.attrDdd.dddSize offset n - 1)) ∈ db := by
  rw [run_dbfsRead_clipped heap hwf hoffset (by omega) hroom, ← readCode_eq_zero_iff]
  constructor
  · rintro ⟨out, hrun, -⟩
    simp only [Option.some.injEq, Prod.mk.injEq] at hrun
    exact hrun.1.1
  · intro hcode
    rw [hcode]
    refine ⟨_, rfl, ?_⟩
    intro i hi
    rw [List.getElem?_append_left (by simpa using hi), getElem?_readBytes hi]

theorem blocksWF_fileDb : BlocksWF fileDb := by
  intro ino offset record hrecord
  rw [fileDb, Finmap.lookup_insert_of_ne _ (by simp), lookup_mkdbfsDb_block] at hrecord
  cases hrecord

theorem blocksWF_filledDb : BlocksWF filledDb :=
  blocksWF_fileDb.insert_block rfl List.length_replicate

/-- The file `"/a"` with 4100 bytes, of which the first block is missing. -/
def holeDb : Db := fileDb.insert (.block 2 4096) (List.replicate 4096 (7 : UInt8))

def holeHandle : DbfsHandle := initHandle pathA ⟨1, 0o644, 2, 4100, 0, 0, 0, 0⟩

/-- Nine bytes from position 4090 on, six of them in the missing block. -/
theorem sparse_read_hole : ∃ out,
    (dbfsRead plainHeap holeHandle (List.replicate 9 1) 9 4090).run holeDb =
        some ((0, UInt64.ofNat (clipped 4100 4090 9), out), holeDb) ∧
      ∀ i, i < clipped 4100 4090 9 →
        out[i]? = some ((content holeDb 2 (4090 + i)).getD 0) :=
  (sparse_read_iff plainHeap holeHandle (List.replicate 9 1) 9 4090 holeDb
    (blocksWF_fileDb.insert_block rfl List.length_replicate) (by decide) (by decide)
    (by decide)).mpr (.inr (Finmap.mem_insert.mpr (.inl rfl)))

/-- The five bytes of a file that has no block are read as zeros, but the call does not
return `0`. -/
theorem read_of_hole_fails :
    ¬ ∀ (heap : Heap) (dh : DbfsHandle) (buf : List UInt8) (n offset : UInt64) (db : Db),
      BlocksWF db → offset.toNat ≤ dh.attrDdd.dddSize.toNat →
      offset.toNat + n.toNat < 2 ^ 63 →
      clipped dh.attrDdd.dddSize offset n ≤ buf.length →
      ∃ out, (dbfsRead heap dh buf n offset).run db =
          some ((0, UInt64.ofNat (clipped dh.attrDdd.dddSize offset n), out), db) ∧
        ∀ i, i < clipped dh.attrDdd.dddSize offset n →
          out[i]? = some ((content db dh.attrDdd.dddIno (offset.toNat + i)).getD 0) := by
  intro hlaw
  obtain ⟨out, hrun, -⟩ := hlaw plainHeap
    streamHandle (List.replicate 5 1) 5 0 fileDb
    blocksWF_fileDb (by decide) (by decide) (by decide)
  rw [run_dbfsRead_clipped plainHeap blocksWF_fileDb (by decide) (by decide) (by decide)] at hrun
  simp only [Option.some.injEq, Prod.mk.injEq] at hrun
  exact absurd hrun.1.1 (by decide)

/-! ## Positions at the end -/

/-- The range that is left ends at `stop`; nothing is said of the buffers. -/
structure RangeInv (stop : Nat) (l : RwLocals) : Prop where
  fits : stop < 2 ^ 64
  inside : l.offset.toNat + l.size.toNat ≤ stop
  aligned : l.size ≠ 0 →
    l.dbkOffset.toNat = l.offset.toNat - l.offset.toNat % 4096

theorem RangeInv.rwInv {stop : Nat} (h : RangeInv stop l) :
    RwInv { l with buf := List.replicate l.size.toNat 0, data := [] } where
  fits := h.inside.trans_lt h.fits
  aligned := h.aligned
  room := by simp
  data := .inl rfl

theorem RangeInv.next {stop : Nat} (h : RangeInv stop l) (hsize : l.size ≠ 0)
    (hoffset : l'.offset = l.next.offset) (hsize' : l'.size = l.next.size)
    (hkey : l'.dbkOffset = l.next.dbkOffset) : RangeInv stop l' where
  fits := h.fits
  inside := by
    have hrange : l.sizeinblk.toNat ≤ l.size.toNat := (h.rwInv.range hsize).2.1
    have hnext : l.next.offset.toNat = l.offset.toNat + l.sizeinblk.toNat :=
      h.rwInv.toNat_next_offset hsize
    have hleft : l.next.size.toNat = l.size.toNat - l.sizeinblk.toNat :=
      h.rwInv.toNat_next_size hsize
    have hinside := h.inside
    rw [hoffset, hsize', hnext, hleft]
    omega
  aligned := by
    rw [hoffset, hsize', hkey]
    exact (h.rwInv.next hsize).aligned

/-- The blocks of the positions below `stop`. -/
def BlockBelow (ino : UInt64) (stop : Nat) (key : Key) : Prop :=
  ∃ pos, pos < stop ∧ key = .block ino (blockBase pos)

theorem RangeInv.blockBelow {stop : Nat} (h : RangeInv stop l) (hsize : l.size ≠ 0) :
    BlockBelow ino stop (.block ino l.dbkOffset) := by
  have hpos := toNat_ne_zero hsize
  have hlt : l.offset.toNat < stop := by
    have hinside := h.inside
    omega
  have hbase : blockBase l.offset.toNat = l.dbkOffset :=
    (blockBase_eq_iff l.offset.toNat_lt).mpr (h.aligned hsize).symm
  exact ⟨l.offset.toNat, hlt, by rw [hbase]⟩

theorem reads_readwriteLoop_below {stop : Nat} (heap : Heap) (ino : UInt64) (fuel : Nat)
    (hinv : RangeInv stop l) :
    (readwriteLoop heap ino true fuel l).Reads (BlockBelow ino stop) := by
  refine reads_readwriteLoop heap fuel (fun l h hsize => h.blockBelow hsize) ?_ hinv
  intro l l' h hsize hgoes
  obtain ⟨hsize', hoffset, hkey⟩ := hgoes rfl
  exact h.next hsize hoffset hsize' hkey

theorem rangeInv_rwStart {buf : List UInt8} {n offset : UInt64} {stop : Nat}
    (hfits : stop < 2 ^ 64) (hinside : offset.toNat + n.toNat ≤ stop) :
    RangeInv stop (rwStart buf n offset) where
  fits := hfits
  inside := hinside
  aligned := by
    have hinv := rwInv_rwStart (show offset.toNat + n.toNat < 2 ^ 64 by omega)
      (show n.toNat ≤ (List.replicate n.toNat (0 : UInt8)).length by simp)
    exact hinv.aligned

/-- A read inside the file fetches blocks of positions below its size only. -/
theorem reads_dbfsRead_below (heap : Heap) (dh : DbfsHandle) (buf : List UInt8)
    {n offset : UInt64} (hoffset : offset.toNat ≤ dh.attrDdd.dddSize.toNat)
    (hfits : offset.toNat + n.toNat < 2 ^ 64) :
    (dbfsRead heap dh buf n offset).Reads
      (BlockBelow dh.attrDdd.dddIno dh.attrDdd.dddSize.toNat) := by
  rw [dbfsRead_eq_clipped heap dh buf hoffset hfits]
  have hclipped := toNat_ofNat_clipped dh.attrDdd.dddSize offset n
  generalize UInt64.ofNat (clipped dh.attrDdd.dddSize offset n) = k at hclipped
  unfold clipped at hclipped
  have hsize := dh.attrDdd.dddSize.toNat_lt
  have hend : (offset + k).toNat ≤ dh.attrDdd.dddSize.toNat := by
    rw [UInt64.toNat_add]
    omega
  rw [dbfsRead_of_unclipped heap buf hoffset hend]
  exact .bind (reads_readwriteLoop_below heap _ _
    (rangeInv_rwStart hsize (by omega))) fun _ => Prog.reads_pure _

/-! ## Requests that wrap around -/

def AllStored (ino : UInt64) (db : Db) : Prop :=
  ∀ offset : UInt64, offset.toNat % 4096 = 0 → ∃ record : List UInt8,
    db.lookup (.block ino offset) = some record ∧ record.length = 4096

theorem exists_allStored (ino : UInt64) : ∃ db, BlocksWF db ∧ AllStored ino db := by
  have hsome : ∀ offsets : Finset UInt64, ∃ db, BlocksWF db ∧
      ∀ offset ∈ offsets, offset.toNat % 4096 = 0 → ∃ record : List UInt8,
        db.lookup (.block ino offset) = some record ∧ record.length = 4096 := by
    intro offsets
    induction offsets using Finset.induction_on with
    | empty =>
        refine ⟨∅, ?_, by simp⟩
        intro ino offset record hrecord
        cases hrecord
    | insert offset offsets hnew ih =>
        obtain ⟨db, hwf, hall⟩ := ih
        by_cases haligned : offset.toNat % 4096 = 0
        · have hlength : (List.replicate 4096 (0 : UInt8)).length = 4096 :=
            List.length_replicate
          refine ⟨db.insert (.block ino offset) (List.replicate 4096 (0 : UInt8)), ?_, ?_⟩
          · exact hwf.insert_block haligned hlength
          · intro other hother hother'
            by_cases heq : other = offset
            · subst heq
              exact ⟨_, Finmap.lookup_insert _, hlength⟩
            · rw [Finmap.lookup_insert_of_ne _ (by simpa using heq)]
              exact hall other (Finset.mem_of_mem_insert_of_ne hother heq) hother'
        · refine ⟨db, hwf, ?_⟩
          intro other hother hother'
          refine hall other (Finset.mem_of_mem_insert_of_ne hother ?_) hother'
          rintro rfl
          exact haligned hother'
  obtain ⟨db, hwf, hall⟩ := hsome ((Finset.range UInt64.size).image UInt64.ofNat)
  refine ⟨db, hwf, fun offset => hall offset (Finset.mem_image.mpr ?_)⟩
  exact ⟨offset.toNat, Finset.mem_range.mpr offset.toNat_lt, UInt64.ofNat_toNat⟩

theorem run_readwriteLoop_allStored {fuel : Nat} (heap : Heap) (hstored : AllStored ino db)
    (herror : l.error = 0) (hdata : l.data = [] ∨ l.data.length = 4096)
    (hkey : l.size ≠ 0 → l.dbkOffset.toNat % 4096 = 0)
    (h : (readwriteLoop heap ino true fuel l).run db = some (l', db')) : l'.error = 0 := by
  induction fuel generalizing l with
  | zero =>
      unfold readwriteLoop at h
      split at h
      · cases h
        exact herror
      · cases h
  | succ fuel ih =>
      unfold readwriteLoop at h
      split at h
      · cases h
        exact herror
      · rename_i hsize
        obtain ⟨record, hlookup, hlength⟩ := hstored l.dbkOffset (hkey hsize)
        simp only [readwriteBlock, getBlock, Prog.run_bind, Prog.run_getRec, Option.bind_some,
          fetch_of_lookup hlookup, if_neg (not_shortBuffer hdata hlength), Prog.run_pure,
          if_true] at h
        refine ih rfl (.inr hlength) ?_ h
        intro hmore
        change (l.offset + l.sizeinblk).toNat % 4096 = 0
        -- an iteration that is not the last ends at the end of its block
        have hfull : l.sizeinblk = dbfsBlksize - l.offinblk := by
          unfold RwLocals.sizeinblk
          split
          · rfl
          · rename_i hlast
            refine absurd ?_ hmore
            change l.size - l.sizeinblk = 0
            rw [RwLocals.sizeinblk, if_neg hlast, UInt64.sub_self]
        have hnext : l.offset + l.sizeinblk = l.dbkOffset + dbfsBlksize := by
          rw [hfull, RwLocals.offinblk]
          grind
        have haligned := hkey hsize
        rw [hnext, UInt64.toNat_add, toNat_dbfsBlksize]
        omega

end Mangoo.Dbfs
