import Mangoo.Dbfs.NewBlocks
import Mangoo.Dbfs.SharedWrites
import Mangoo.Dbfs.Truncation

/-!
# Shrinking and growing again

`dbfs_setsize` changes the size of a file and none of its blocks.  Bytes behind the
new end stay stored and show again when the file grows over them.
-/

namespace Mangoo.Dbfs

open Mangoo.Foundation

variable {db db' : Db} {ino : UInt64} {path : CStr} {pos : Nat}

/-- The bytes of the file at a path. -/
def fileContent (db : Db) (path : CStr) : Option (List UInt8) :=
  (db.lookup (Key.dentry path) : Option DentryData).map
    fun ddd => readBytes db ddd.dddIno 0 ddd.dddSize.toNat

def resized (n : Nat) (bytes : List UInt8) : List UInt8 :=
  bytes.take n ++ List.replicate (n - bytes.length) 0

/-! ## One call -/

theorem getElem?_resized {n : Nat} {bytes : List UInt8} (h : pos < n) :
    (resized n bytes)[pos]? = some (bytes[pos]?.getD 0) := by
  unfold resized
  by_cases hpos : pos < bytes.length
  · rw [List.getElem?_append_left (by simpa using ⟨h, hpos⟩), List.getElem?_take_of_lt h,
      List.getElem?_eq_getElem hpos, Option.getD_some]
  · rw [List.getElem?_append_right (by simp; omega), List.getElem?_replicate,
      if_pos (by simp; omega), List.getElem?_eq_none (by omega), Option.getD_none]

theorem readBytes_eq_resized_iff {m n : Nat} :
    readBytes db ino 0 n = resized n (readBytes db ino 0 m) ↔
      ∀ pos, m ≤ pos → pos < n → byteAt db ino pos = 0 := by
  have hold : ∀ pos, pos < m → (readBytes db ino 0 m)[pos]? = some (byteAt db ino pos) := by
    intro pos hpos
    rw [getElem?_readBytes hpos, Nat.zero_add]
    rfl
  have hnew : ∀ pos, pos < n → (readBytes db ino 0 n)[pos]? = some (byteAt db ino pos) := by
    intro pos hpos
    rw [getElem?_readBytes hpos, Nat.zero_add]
    rfl
  constructor
  · intro heq pos hm hn
    have hbyte := hnew pos hn
    rw [heq, getElem?_resized hn, List.getElem?_eq_none (by simpa using hm)] at hbyte
    exact (Option.some.inj hbyte).symm
  · intro hzero
    apply List.ext_getElem?
    intro pos
    by_cases hn : pos < n
    · rw [hnew pos hn, getElem?_resized hn]
      by_cases hm : pos < m
      · rw [hold pos hm, Option.getD_some]
      · rw [List.getElem?_eq_none (by simpa using hm), hzero pos (by omega) hn]
        rfl
    · rw [List.getElem?_eq_none (by simpa using hn), List.getElem?_eq_none]
      simp [resized]
      omega

def Resizes (fuel : Nat) (dh : DbfsHandle) (size : UInt64) (db : Db) : Prop :=
  ∃ dh' db', (dbfsSetsize fuel dh size).run db = some ((0, dh'), db') ∧
    fileContent db' dh.attrDdk.ddkPath =
      (fileContent db dh.attrDdk.ddkPath).map (resized size.toNat)

theorem resizes_iff (fuel : Nat) {dh : DbfsHandle} (size : UInt64) {ddd : DentryData}
    (hkey : dh.attrDdk = .dentry path) (hlookup : db.lookup (.dentry path) = some ddd)
    (hino : dh.attrDdd.dddIno = ddd.dddIno) :
    Resizes fuel dh size db ↔
      ∀ pos, ddd.dddSize.toNat ≤ pos → pos < size.toNat → byteAt db ddd.dddIno pos = 0 := by
  have hcontent : fileContent (db.insert (.dentry dh.attrDdk.ddkPath)
      { dh.attrDdd with dddSize := size }) dh.attrDdk.ddkPath =
        some (readBytes db ddd.dddIno 0 size.toNat) := by
    rw [fileContent, Finmap.lookup_insert, Option.map_some, hino]
    simp only [readBytes, content_insert_dentry]
  rw [hkey, Key.ddkPath_dentry] at hcontent
  rw [← readBytes_eq_resized_iff]
  constructor
  · rintro ⟨dh', db', hrun, hresized⟩
    rw [run_dbfsSetsize, hkey] at hrun
    cases hrun
    rw [hkey, Key.ddkPath_dentry, hcontent, fileContent, hlookup] at hresized
    exact Option.some.inj hresized
  · intro hresized
    refine ⟨_, _, run_dbfsSetsize fuel dh size db, ?_⟩
    rw [hkey, Key.ddkPath_dentry, hcontent, hresized, fileContent, hlookup]
    rfl

/-! ## Growing calls -/

/-- Calls one after the other, each through a handle of its own; the result codes. -/
def handleCalls : List (DbfsHandle × HandleCall) → DbProg (List Int)
  | [] => return []
  | (dh, call) :: calls => do
      let (error, _) ← call.prog dh
      let errors ← handleCalls calls
      return error :: errors

/-- The call grows a file from at most `n` bytes and writes nothing below `n`. -/
def GrowsFrom (n : Nat) : HandleCall → Prop
  | .mstreamWrite call => n ≤ call.offset.toNat ∧ call.buf ≠ [] ∧ call.stop < 2 ^ 63
  | .mattrSetsize _ size => n < size.toNat ∧ size.toNat < 2 ^ 63
  | _ => False

/-- A growing call through any handle on the file at `path`. -/
def Growth (path : CStr) (ino : UInt64) (n : Nat) (event : DbfsHandle × HandleCall) : Prop :=
  event.1.attrDdk = .dentry path ∧ event.1.attrDdd.dddIno = ino ∧ GrowsFrom n event.2

def writesIn (calls : List (DbfsHandle × HandleCall)) : List WriteCall :=
  calls.filterMap fun event =>
    match event.2 with
    | .mstreamWrite call => some call
    | _ => none

def lastSize (size : UInt64) (calls : List (DbfsHandle × HandleCall)) : UInt64 :=
  calls.foldl (fun _ event => (event.2.update event.1.attrDdd).dddSize) size

/-- The byte of fresh memory at a position of the first block that holds the position and
that one of the writes touches. -/
def firstFresh : List WriteCall → Nat → Option UInt8
  | [], _ => none
  | call :: calls, pos =>
      if InBlocksOf call.offset.toNat call.buf.length pos then
        some (freshAt call.heap call.offset.toNat pos)
      else firstFresh calls pos

theorem covered_cons {call : WriteCall} {calls : List WriteCall} :
    Covered (call :: calls) pos ↔
      (call.offset.toNat ≤ pos ∧ pos < call.stop) ∨ Covered calls pos := by
  simp [Covered]

theorem run_growth {n : Nat} {dh : DbfsHandle} {call : HandleCall} (hwf : BlocksWF db)
    (hgrowth : Growth path ino n (dh, call)) :
    ∃ db', (call.prog dh).run db =
        some ((0, { dh with attrDdd := call.update dh.attrDdd }), db') ∧ BlocksWF db' ∧
      db'.lookup (.dentry path) = some (call.update dh.attrDdd) ∧
      ∀ pos, ¬ Covered (writesIn [(dh, call)]) pos →
        content db' ino pos = (content db ino pos).or (firstFresh (writesIn [(dh, call)]) pos) := by
  obtain ⟨hkey, hino, hgrows⟩ := hgrowth
  cases call with
  | mstreamWrite call =>
      obtain ⟨-, -, hstop⟩ := hgrows
      have hfits : call.Fits := Nat.lt_trans hstop (by decide)
      obtain ⟨db', hwrote, hcontent, hrun⟩ := run_dbfsWrite_exactly dh call hwf hfits
      refine ⟨db', by simp [HandleCall.prog, hrun, HandleCall.update], hwrote.wf, ?_, ?_⟩
      · have hstored := hwrote.stored
        rwa [hkey] at hstored
      · intro pos hcovered
        have hout : ¬ (call.offset.toNat ≤ pos ∧ pos < call.offset.toNat + call.buf.length) :=
          fun h => hcovered (covered_cons.mpr (.inl h))
        have hwrites : writesIn [(dh, .mstreamWrite call)] = [call] := rfl
        rw [hino] at hcontent
        rw [hcontent, hwrites, firstFresh]
        by_cases hblock : InBlocksOf call.offset.toNat call.buf.length pos
        · rw [if_pos hblock]
          cases hbyte : content db ino pos with
          | none => rw [contentAfter_of_missing hout hbyte hblock, Option.none_or]
          | some byte =>
              rw [contentAfter_of_stored hout (by simp [hbyte]), hbyte, Option.some_or]
        · rw [if_neg hblock, contentAfter_of_apart hblock, firstFresh, Option.or_none]
  | mattrSetsize fuel size =>
      refine ⟨_, run_dbfsSetsize fuel dh size db, hwf.insert_dentry _ _, ?_, ?_⟩
      · rw [hkey]
        exact Finmap.lookup_insert _
      · intro pos _
        rw [content_insert_dentry]
        exact Option.or_none.symm
  | _ => exact hgrows.elim

theorem writesIn_cons (event : DbfsHandle × HandleCall)
    (calls : List (DbfsHandle × HandleCall)) :
    writesIn (event :: calls) = writesIn [event] ++ writesIn calls := by
  rw [writesIn, writesIn, writesIn, ← List.filterMap_append]
  rfl

theorem covered_append {calls calls' : List WriteCall} :
    Covered (calls ++ calls') pos ↔ Covered calls pos ∨ Covered calls' pos := by
  simp [Covered, or_and_right, exists_or]

theorem firstFresh_append (calls calls' : List WriteCall) :
    firstFresh (calls ++ calls') pos = (firstFresh calls pos).or (firstFresh calls' pos) := by
  induction calls with
  | nil => rfl
  | cons call calls ih =>
      rw [List.cons_append, firstFresh, firstFresh]
      split
      · rfl
      · exact ih

/-- After growing calls every position that none of them covered holds its old byte or, in a
new block, what fresh memory held. -/
theorem run_handleCalls {n : Nat} {size : UInt64} {ddd : DentryData}
    {calls : List (DbfsHandle × HandleCall)} (hwf : BlocksWF db)
    (hlookup : db.lookup (.dentry path) = some ddd) (hsize : ddd.dddSize = size)
    (hgrowth : ∀ event ∈ calls, Growth path ino n event) :
    ∃ ddd' db', (handleCalls calls).run db = some (calls.map fun _ => 0, db') ∧
      db'.lookup (.dentry path) = some ddd' ∧ ddd'.dddSize = lastSize size calls ∧
      ∀ pos, ¬ Covered (writesIn calls) pos →
        content db' ino pos = (content db ino pos).or (firstFresh (writesIn calls) pos) := by
  induction calls generalizing db ddd size with
  | nil =>
      refine ⟨ddd, db, rfl, hlookup, hsize, ?_⟩
      intro pos _
      exact Option.or_none.symm
  | cons event calls ih =>
      obtain ⟨dh, call⟩ := event
      obtain ⟨mid, hrun, hwf', hlookup', hbytes⟩ :=
        run_growth hwf (hgrowth _ List.mem_cons_self)
      obtain ⟨ddd', db', hruns, hstored, hlast, hrest⟩ := ih hwf' hlookup' rfl
        fun event hevent => hgrowth event (List.mem_cons_of_mem _ hevent)
      refine ⟨ddd', db', by simp [handleCalls, hrun, hruns], hstored, hlast, ?_⟩
      intro pos hcovered
      rw [writesIn_cons, covered_append, not_or] at hcovered
      have hfresh : firstFresh (writesIn ((dh, call) :: calls)) pos =
          (firstFresh (writesIn [(dh, call)]) pos).or (firstFresh (writesIn calls) pos) := by
        rw [writesIn_cons, firstFresh_append]
      rw [hrest pos hcovered.2, hbytes pos hcovered.1, hfresh, Option.or_assoc]

/-! ## Shrinking, then growing -/

/-- After the file was cut to `n` bytes and grown by the calls, all bytes from `n` on that
they did not write are zero, and the bytes below `n` are the old ones. -/
def CutsForGood (fuel : Nat) (dh : DbfsHandle) (n : UInt64)
    (calls : List (DbfsHandle × HandleCall)) (db : Db) : Prop :=
  ∃ ddd' db', (handleCalls ((dh, .mattrSetsize fuel n) :: calls)).run db =
      some (0 :: calls.map fun _ => 0, db') ∧
    db'.lookup (.dentry dh.attrDdk.ddkPath) = some ddd' ∧
    (∀ pos, n.toNat ≤ pos → pos < ddd'.dddSize.toNat → ¬ Covered (writesIn calls) pos →
      byteAt db' dh.attrDdd.dddIno pos = 0) ∧
    ∀ pos, pos < n.toNat → byteAt db' dh.attrDdd.dddIno pos = byteAt db dh.attrDdd.dddIno pos

/-- The positions between the cut and the new end show zero already, and fresh memory is
zero where the writes create blocks around positions that they do not write. -/
def GapClear (db : Db) (ino : UInt64) (n m : Nat) (writes : List WriteCall) : Prop :=
  ∀ pos, ¬ Covered writes pos →
    (n ≤ pos → pos < m → byteAt db ino pos = 0) ∧
    (pos < n ∨ pos < m → content db ino pos = none → (firstFresh writes pos).getD 0 = 0)

theorem byteAt_eq_of_or {byte : Option UInt8}
    (h : content db' ino pos = (content db ino pos).or byte) :
    byteAt db' ino pos = if content db ino pos = none then byte.getD 0 else byteAt db ino pos := by
  unfold byteAt
  rw [h]
  cases content db ino pos <;> rfl

theorem byteAt_of_none (h : content db ino pos = none) : byteAt db ino pos = 0 := by
  rw [byteAt, h]
  rfl

theorem not_covered_of_lt {n : Nat} {calls : List (DbfsHandle × HandleCall)}
    (hgrowth : ∀ event ∈ calls, Growth path ino n event) (hpos : pos < n) :
    ¬ Covered (writesIn calls) pos := by
  rintro ⟨call, hcall, hlow, -⟩
  obtain ⟨event, hevent, heq⟩ := List.mem_filterMap.mp hcall
  obtain ⟨-, -, hgrows⟩ := hgrowth event hevent
  obtain ⟨dh, call'⟩ := event
  cases call' <;> cases heq
  have hstart := hgrows.1
  omega

theorem run_cut_handleCalls (fuel : Nat) {dh : DbfsHandle} {n : UInt64}
    {calls : List (DbfsHandle × HandleCall)} (hwf : BlocksWF db)
    (hkey : dh.attrDdk = .dentry path)
    (hgrowth : ∀ event ∈ calls, Growth path dh.attrDdd.dddIno n.toNat event) :
    ∃ ddd' db', (handleCalls ((dh, .mattrSetsize fuel n) :: calls)).run db =
        some (0 :: calls.map fun _ => 0, db') ∧
      db'.lookup (.dentry path) = some ddd' ∧ ddd'.dddSize = lastSize n calls ∧
      ∀ pos, ¬ Covered (writesIn calls) pos → byteAt db' dh.attrDdd.dddIno pos =
        if content db dh.attrDdd.dddIno pos = none then
          (firstFresh (writesIn calls) pos).getD 0
        else byteAt db dh.attrDdd.dddIno pos := by
  have hcut : (HandleCall.prog dh (.mattrSetsize fuel n)).run db =
      some ((0, { dh with attrDdd := { dh.attrDdd with dddSize := n } }),
        db.insert (.dentry path) { dh.attrDdd with dddSize := n }) := by
    rw [HandleCall.prog, run_dbfsSetsize, hkey, Key.ddkPath_dentry]
  obtain ⟨ddd', db', hruns, hstored, hlast, hbytes⟩ :=
    run_handleCalls (hwf.insert_dentry path { dh.attrDdd with dddSize := n })
      (Finmap.lookup_insert _) (rfl : _ = n) hgrowth
  refine ⟨ddd', db', by simp [handleCalls, hcut, hruns], hstored, hlast, ?_⟩
  intro pos hcovered
  apply byteAt_eq_of_or
  rw [hbytes pos hcovered, content_insert_dentry]

theorem cutsForGood_iff {fuel : Nat} {dh : DbfsHandle} {n : UInt64}
    {calls : List (DbfsHandle × HandleCall)} (hwf : BlocksWF db)
    (hkey : dh.attrDdk = .dentry path)
    (hgrowth : ∀ event ∈ calls, Growth path dh.attrDdd.dddIno n.toNat event) :
    CutsForGood fuel dh n calls db ↔
      GapClear db dh.attrDdd.dddIno n.toNat (lastSize n calls).toNat (writesIn calls) := by
  obtain ⟨ddd', db', hall, hstored, hlast, hbyte⟩ :=
    run_cut_handleCalls fuel hwf hkey hgrowth
  constructor
  · rintro ⟨ddd₂, db₂, hrun, hlookup, hzero, hkept⟩ pos hcovered
    rw [hall] at hrun
    cases hrun
    rw [hkey, Key.ddkPath_dentry, hstored] at hlookup
    cases hlookup
    rw [hlast] at hzero
    have hshown := hbyte pos hcovered
    constructor
    · intro hlow hhigh
      rw [hzero pos hlow hhigh hcovered] at hshown
      split at hshown
      · rename_i hnone
        exact byteAt_of_none hnone
      · exact hshown.symm
    · intro hpos hnone
      rw [if_pos hnone] at hshown
      rw [← hshown]
      by_cases hlow : pos < n.toNat
      · rw [hkept pos hlow, byteAt_of_none hnone]
      · exact hzero pos (by omega) (by omega) hcovered
  · intro hclear
    refine ⟨ddd', db', hall, ?_, ?_, ?_⟩
    · rw [hkey]
      exact hstored
    · intro pos hlow hhigh hcovered
      rw [hlast] at hhigh
      obtain ⟨hzero, hfresh⟩ := hclear pos hcovered
      rw [hbyte pos hcovered]
      split
      · rename_i hnone
        exact hfresh (.inr hhigh) hnone
      · exact hzero hlow hhigh
    · intro pos hpos
      have hcovered := not_covered_of_lt hgrowth hpos
      rw [hbyte pos hcovered]
      split
      · rename_i hnone
        rw [(hclear pos hcovered).2 (.inl hpos) hnone, byteAt_of_none hnone]
      · rfl

/-- Setting a size continues the file by zeros exactly when no byte that is not zero is
stored behind its end; bytes cut off stay away exactly when they were zero. -/
theorem truncation_zeroes_iff (db : Db) (dh : DbfsHandle) (path : CStr) (ddd : DentryData)
    (hwf : BlocksWF db) (hkey : dh.attrDdk = .dentry path)
    (hlookup : db.lookup (.dentry path) = some ddd) (hino : dh.attrDdd.dddIno = ddd.dddIno) :
    (∀ fuel size, Resizes fuel dh size db ↔
      ∀ pos, ddd.dddSize.toNat ≤ pos → pos < size.toNat → byteAt db ddd.dddIno pos = 0) ∧
    ∀ (fuel : Nat) (n : UInt64) (calls : List (DbfsHandle × HandleCall)),
      (∀ event ∈ calls, Growth path ddd.dddIno n.toNat event) →
        (CutsForGood fuel dh n calls db ↔
          GapClear db ddd.dddIno n.toNat (lastSize n calls).toNat (writesIn calls)) := by
  constructor
  · intro fuel size
    exact resizes_iff fuel size hkey hlookup hino
  · intro fuel n calls hgrowth
    rw [← hino] at hgrowth ⊢
    exact cutsForGood_iff hwf hkey hgrowth

/-! ## Small files -/

theorem byteAt_fileDb (ino : UInt64) (pos : Nat) : byteAt fileDb ino pos = 0 := by
  have hnone : ∀ offset, fileDb.lookup (.block ino offset) = none := by
    intro offset
    rw [fileDb, Finmap.lookup_insert_of_ne _ (by simp), lookup_mkdbfsDb_block]
  unfold byteAt content
  rw [hnone]
  split <;> rfl

theorem truncation_zeroes_hole : Resizes 0 streamHandle 9 fileDb ∧
    CutsForGood 0 streamHandle 2 [(streamHandle, .mattrSetsize 0 9)] fileDb := by
  obtain ⟨hresize, hcut⟩ := truncation_zeroes_iff fileDb streamHandle pathA _ blocksWF_fileDb
    rfl lookup_fileDb_pathA rfl
  constructor
  · apply (hresize 0 9).mpr
    intro pos _ _
    exact byteAt_fileDb _ pos
  · apply (hcut 0 2 _ ?_).mpr
    · intro pos _
      exact ⟨fun _ _ => byteAt_fileDb _ pos, fun _ _ => rfl⟩
    · intro event hevent
      rw [List.mem_singleton.mp hevent]
      exact ⟨rfl, rfl, by decide, by decide⟩

theorem lookup_filledDb_pathA :
    filledDb.lookup (.dentry pathA) = some (⟨1, 0o644, 2, 5, 0, 0, 0, 0⟩ : DentryData) := by
  rw [filledDb, Finmap.lookup_insert_of_ne _ (by simp)]
  exact lookup_fileDb_pathA

theorem byteAt_filledDb (h : pos < 4096) : byteAt filledDb 2 pos = 7 := by
  have hzero : (0 : UInt64).toNat % 4096 = 0 := by decide
  have hbyte := content_block filledDb 2 hzero h
  rw [UInt64.toNat_zero, Nat.zero_add] at hbyte
  rw [byteAt, hbyte, filledDb, Finmap.lookup_insert, Option.bind_some, List.getElem?_replicate,
    if_pos h, Option.getD_some]

/-- A file of sevens, of which five belong to it. -/
theorem cut_bytes_show_again :
    (¬ ∀ (db : Db) (dh : DbfsHandle) (path : CStr) (ddd : DentryData) (fuel : Nat)
        (size : UInt64), BlocksWF db → dh.attrDdk = .dentry path →
      db.lookup (.dentry path) = some ddd → dh.attrDdd.dddIno = ddd.dddIno →
        size.toNat < 2 ^ 63 → Resizes fuel dh size db) ∧
    ¬ ∀ (db : Db) (dh : DbfsHandle) (path : CStr) (ddd : DentryData) (fuel : Nat) (n : UInt64)
        (event : DbfsHandle × HandleCall), BlocksWF db → dh.attrDdk = .dentry path →
      db.lookup (.dentry path) = some ddd → dh.attrDdd.dddIno = ddd.dddIno →
        n.toNat ≤ ddd.dddSize.toNat → Growth path ddd.dddIno n.toNat event →
          CutsForGood fuel dh n [event] db := by
  constructor
  · intro hlaw
    have hresize := hlaw filledDb streamHandle pathA _ 0 9 blocksWF_filledDb rfl
      lookup_filledDb_pathA rfl (by decide)
    have hzero : byteAt filledDb 2 5 = 0 :=
      (resizes_iff 0 9 rfl lookup_filledDb_pathA rfl).mp hresize 5 (by decide) (by decide)
    rw [byteAt_filledDb (by decide)] at hzero
    cases hzero
  · intro hlaw
    have hgrowth : Growth pathA 2 2 (streamHandle, .mattrSetsize 0 5) :=
      ⟨rfl, rfl, by decide, by decide⟩
    have hcut := hlaw filledDb streamHandle pathA _ 0 2 (streamHandle, .mattrSetsize 0 5)
      blocksWF_filledDb rfl lookup_filledDb_pathA rfl (by decide) hgrowth
    have hall : ∀ event ∈ [(streamHandle, HandleCall.mattrSetsize 0 5)],
        Growth pathA streamHandle.attrDdd.dddIno 2 event := by
      intro event hevent
      rw [List.mem_singleton.mp hevent]
      exact hgrowth
    have hgap := (cutsForGood_iff blocksWF_filledDb rfl hall).mp hcut 2
      (by simp [writesIn, Covered])
    have hzero : byteAt filledDb 2 2 = 0 := hgap.1 (by decide) (by decide)
    rw [byteAt_filledDb (by decide)] at hzero
    cases hzero

end Mangoo.Dbfs
