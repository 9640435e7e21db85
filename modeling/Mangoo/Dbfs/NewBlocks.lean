import Mangoo.Dbfs.EndOfFile

/-!
# Blocks that a write creates

A write that meets a block which is not stored takes its first contents from fresh
memory.  The exact contents after a write therefore depend on what the allocator
returned, unless every such block is covered by the range as a whole.
-/

namespace Mangoo.Dbfs

open Mangoo.Foundation

variable {faulty : Prop} {db db' : Db} {heap : Heap} {ino : UInt64} {pos : Nat}

/-- The byte a read shows at a position of the file. -/
def byteAt (db : Db) (ino : UInt64) (pos : Nat) : UInt8 := (content db ino pos).getD 0

/-! ## Exact contents -/

theorem beganAt_rwStart (buf : List UInt8) (size offset : UInt64) :
    BeganAt offset.toNat (rwStart buf size offset) where
  place := rfl
  later := fun h => absurd rfl h

theorem content_dbfsReadwrite {buf out : List UInt8} {size offset count : UInt64}
    (hwf : BlocksWF db) (hfits : offset.toNat + size.toNat < 2 ^ 64)
    (hroom : size.toNat ≤ buf.length)
    (h : (dbfsReadwrite heap ino buf size offset false).run db =
      some ((0, count, out), db')) :
    content db' ino = contentAfter (freshAt heap offset.toNat) (content db ino)
      offset.toNat (buf.take size.toNat) := by
  have hexec := Prog.exec_iff_run.mpr h
  simp only [dbfsReadwrite, Prog.exec_bind, Prog.exec_pure, Prod.mk.injEq] at hexec
  obtain ⟨l', mid, hloop, -, rfl⟩ := hexec
  obtain ⟨k, -, -, -, hexact, ⟨rfl, -⟩ | ⟨hfalse, -⟩⟩ :=
    exec_readwriteLoop_exactly hwf (rwInv_rwStart hfits hroom) rfl hloop
  · exact hexact (beganAt_rwStart buf size offset)
  · exact hfalse.elim

theorem run_dbfsWrite_exactly {db : Db} (dh : DbfsHandle) (call : WriteCall)
    (hwf : BlocksWF db) (hfits : call.Fits) :
    ∃ db', WroteFile dh.attrDdk.ddkPath dh.attrDdd call db db' ∧
      content db' dh.attrDdd.dddIno =
        contentAfter (freshAt call.heap call.offset.toNat) (content db dh.attrDdd.dddIno)
          call.offset.toNat call.buf ∧
      (dbfsWrite call.heap dh call.buf call.size call.offset).run db =
        some ((0, call.size,
          { dh with attrDdd := grown dh.attrDdd call.size call.offset }), db') := by
  obtain ⟨db', hwrote, hrun⟩ := run_dbfsWrite_file dh hwf hfits
  refine ⟨db', hwrote, ?_, hrun⟩
  have hsize := WriteCall.toNat_size hfits
  obtain ⟨code, out, mid, hmove, ⟨hcode, rfl, -⟩ | ⟨rfl, -, -, hlast⟩⟩ :=
    exec_dbfsWrite (Prog.exec_iff_run.mpr hrun)
  · exact absurd rfl hcode
  · have hcontent := content_dbfsReadwrite hwf (by rw [hsize]; exact hfits) (by rw [hsize])
      (Prog.exec_iff_run.mp hmove)
    rw [hsize, List.take_length] at hcontent
    rcases hlast with ⟨-, rfl⟩ | ⟨hfalse, -⟩
    · rw [content_insert_dentry, hcontent]
    · exact hfalse.elim

/-! ## Contents and records -/

theorem content_block (db : Db) (ino : UInt64) {offset : UInt64} {j : Nat}
    (haligned : offset.toNat % 4096 = 0) (hj : j < 4096) :
    content db ino (offset.toNat + j) =
      (db.lookup (Key.block ino offset) : Option (List UInt8)).bind fun record => record[j]? := by
  have hoffset := offset.toNat_lt
  have hlt : offset.toNat + j < 2 ^ 64 := by omega
  have hbase : blockBase (offset.toNat + j) = offset := (blockBase_eq_iff hlt).mpr (by omega)
  have hmod : (offset.toNat + j) % 4096 = j := by omega
  rw [content, if_pos hlt, hbase, hmod]

theorem lookup_block_of_content_eq {offset : UInt64} {record : List UInt8}
    (hwf : BlocksWF db) (hwf' : BlocksWF db') (h : content db' ino = content db ino)
    (hlookup : db.lookup (.block ino offset) = some record) :
    db'.lookup (.block ino offset) = some record := by
  obtain ⟨hlength, haligned⟩ := hwf _ _ _ hlookup
  have hbyte : ∀ j, j < 4096 →
      (db'.lookup (Key.block ino offset) : Option (List UInt8)).bind (fun record => record[j]?) =
        record[j]? := by
    intro j hj
    have hsame := congrFun h (offset.toNat + j)
    rwa [content_block db' ino haligned hj, content_block db ino haligned hj, hlookup] at hsame
  cases hlookup' : db'.lookup (Key.block ino offset) with
  | none =>
      have hfirst := hbyte 0 (by decide)
      rw [hlookup', Option.bind_none, List.getElem?_eq_getElem (by omega)] at hfirst
      cases hfirst
  | some record' =>
      obtain ⟨hlength', -⟩ := hwf' _ _ _ hlookup'
      congr 1
      apply List.ext_getElem?
      intro j
      by_cases hj : j < 4096
      · have hsame := hbyte j hj
        rwa [hlookup'] at hsame
      · rw [List.getElem?_eq_none (by omega), List.getElem?_eq_none (by omega)]

theorem lookup_block_eq (hwf : BlocksWF db) (hwf' : BlocksWF db')
    (h : content db' ino = content db ino) (offset : UInt64) :
    db'.lookup (.block ino offset) = db.lookup (.block ino offset) := by
  cases hlookup : db.lookup (Key.block ino offset) with
  | some record => exact lookup_block_of_content_eq hwf hwf' h hlookup
  | none =>
      cases hlookup' : db'.lookup (Key.block ino offset) with
      | none => rfl
      | some record' =>
          rw [lookup_block_of_content_eq hwf' hwf h.symm hlookup'] at hlookup
          cases hlookup

theorem WroteFile.db_eq {path : CStr} {ddd : DentryData} {call call' : WriteCall}
    {db db₁ db₂ : Db} (h₁ : WroteFile path ddd call db db₁) (h₂ : WroteFile path ddd call' db db₂)
    (hbuf : call'.buf = call.buf) (hoffset : call'.offset = call.offset)
    (h : content db₂ ddd.dddIno = content db₁ ddd.dddIno) : db₂ = db₁ := by
  have hsize : call'.size = call.size := by rw [WriteCall.size, WriteCall.size, hbuf]
  apply Finmap.ext_lookup
  intro key
  by_cases hdentry : key = .dentry path
  · subst hdentry
    rw [h₁.stored, h₂.stored, hsize, hoffset]
  · by_cases hblock : BlockOf ddd.dddIno key
    · obtain ⟨offset, rfl⟩ := hblock
      exact lookup_block_eq h₁.wf h₂.wf h offset
    · have hother : ∀ offset, key ≠ .block ddd.dddIno offset :=
        fun offset heq => hblock ⟨offset, heq⟩
      rw [h₁.frame key (fun offset heq => absurd heq (hother offset)) hdentry,
        h₂.frame key (fun offset heq => absurd heq (hother offset)) hdentry]

/-! ## Unwritten bytes -/

def NewBlocksCovered (db : Db) (ino : UInt64) (off length : Nat) : Prop :=
  ∀ pos, InBlocksOf off length pos → Key.block ino (blockBase pos) ∉ db →
    off ≤ pos ∧ pos < off + length

theorem content_eq_none_iff (hwf : BlocksWF db) (hpos : pos < 2 ^ 64) :
    content db ino pos = none ↔ Key.block ino (blockBase pos) ∉ db := by
  rw [← content_isSome_iff hwf hpos, Option.not_isSome_iff_eq_none]

theorem lt_of_inBlocksOf {off length : Nat} (h : InBlocksOf off length pos)
    (hfits : off + length < 2 ^ 64) : pos < 2 ^ 64 := by
  unfold InBlocksOf at h
  omega

theorem contentAfter_outside {fresh : Nat → UInt8} {off : Nat} {bytes : List UInt8}
    (hwf : BlocksWF db) (hfits : off + bytes.length < 2 ^ 64)
    (hout : ¬ (off ≤ pos ∧ pos < off + bytes.length)) :
    contentAfter fresh (content db ino) off bytes pos =
      if InBlocksOf off bytes.length pos ∧ Key.block ino (blockBase pos) ∉ db then
        some (fresh pos)
      else content db ino pos := by
  by_cases hblock : InBlocksOf off bytes.length pos
  · have hnone : content db ino pos = none ↔ Key.block ino (blockBase pos) ∉ db :=
      content_eq_none_iff hwf (lt_of_inBlocksOf hblock hfits)
    rw [contentAfter, if_neg hout]
    simp only [hnone, hblock, and_true, true_and]
  · rw [contentAfter_of_apart hblock, if_neg fun h => hblock h.1]

/-- Whatever fresh memory holds, the write leaves one and the same database, in which the
unwritten positions show what they showed before. -/
def KeepsUnwritten (dh : DbfsHandle) (buf : List UInt8) (offset : UInt64) (db : Db) : Prop :=
  ∃ db', (∀ heap, (dbfsWrite heap dh buf (UInt64.ofNat buf.length) offset).run db =
      some ((0, UInt64.ofNat buf.length,
        { dh with attrDdd := grown dh.attrDdd (UInt64.ofNat buf.length) offset }), db')) ∧
    ∀ pos, ¬ (offset.toNat ≤ pos ∧ pos < offset.toNat + buf.length) →
      byteAt db' dh.attrDdd.dddIno pos = byteAt db dh.attrDdd.dddIno pos

/-- A write keeps the unwritten bytes if and only if every block it creates is covered by
the written range as a whole. -/
theorem keepsUnwritten_iff (dh : DbfsHandle) (buf : List UInt8) (offset : UInt64) (db : Db)
    (hwf : BlocksWF db) (hfits : offset.toNat + buf.length < 2 ^ 63) :
    KeepsUnwritten dh buf offset db ↔
      NewBlocksCovered db dh.attrDdd.dddIno offset.toNat buf.length := by
  have hfits' : offset.toNat + buf.length < 2 ^ 64 := by omega
  have hwrite : ∀ heap, ∃ db', WroteFile dh.attrDdk.ddkPath dh.attrDdd ⟨heap, buf, offset⟩ db db' ∧
      content db' dh.attrDdd.dddIno = contentAfter (freshAt heap offset.toNat)
        (content db dh.attrDdd.dddIno) offset.toNat buf ∧
      (dbfsWrite heap dh buf (UInt64.ofNat buf.length) offset).run db =
        some ((0, UInt64.ofNat buf.length,
          { dh with attrDdd := grown dh.attrDdd (UInt64.ofNat buf.length) offset }), db') :=
    fun heap => run_dbfsWrite_exactly dh ⟨heap, buf, offset⟩ hwf hfits'
  constructor
  · rintro ⟨db', hruns, hkept⟩ pos hblock hmissing
    by_contra hout
    -- memory full of ones shows up at the position
    obtain ⟨db₁, -, hcontent, hrun⟩ := hwrite { plainHeap with fresh := fun _ _ => 1 }
    rw [hruns] at hrun
    cases hrun
    have hbyte := hkept pos hout
    rw [byteAt, byteAt, hcontent, contentAfter_outside hwf hfits' hout,
      if_pos ⟨hblock, hmissing⟩, (content_eq_none_iff hwf
        (lt_of_inBlocksOf hblock hfits')).mpr hmissing] at hbyte
    have hone : (1 : UInt8) = 0 := hbyte
    exact absurd hone (by decide)
  · intro hcovered
    have houtside : ∀ fresh pos, ¬ (offset.toNat ≤ pos ∧ pos < offset.toNat + buf.length) →
        contentAfter fresh (content db dh.attrDdd.dddIno) offset.toNat buf pos =
          content db dh.attrDdd.dddIno pos := by
      intro fresh pos hout
      rw [contentAfter_outside hwf hfits' hout, if_neg]
      rintro ⟨hblock, hmissing⟩
      exact hout (hcovered pos hblock hmissing)
    obtain ⟨db₀, hwrote₀, hcontent₀, hrun₀⟩ := hwrite plainHeap
    refine ⟨db₀, ?_, ?_⟩
    · intro heap
      obtain ⟨db₁, hwrote₁, hcontent₁, hrun₁⟩ := hwrite heap
      have hsame : content db₁ dh.attrDdd.dddIno = content db₀ dh.attrDdd.dddIno := by
        funext pos
        rw [hcontent₁, hcontent₀]
        by_cases hin : offset.toNat ≤ pos ∧ pos < offset.toNat + buf.length
        · rw [contentAfter_of_mem hin, contentAfter_of_mem hin]
        · rw [houtside _ pos hin, houtside _ pos hin]
      rw [hrun₁, hwrote₀.db_eq hwrote₁ rfl rfl hsame]
    · intro pos hout
      rw [byteAt, byteAt, hcontent₀, houtside _ pos hout]

theorem keepsUnwritten_filled : KeepsUnwritten streamHandle [8] 2 filledDb := by
  apply (keepsUnwritten_iff streamHandle [8] 2 filledDb blocksWF_filledDb (by decide)).mpr
  intro pos hblock hmissing
  have hpos : pos - pos % 4096 = 0 := by
    change 0 < 1 ∧ 2 / 4096 ≤ pos / 4096 ∧ pos / 4096 ≤ (2 + 1 - 1) / 4096 at hblock
    omega
  rw [blockBase, hpos] at hmissing
  exact absurd (Finmap.mem_insert.mpr (.inl rfl)) hmissing

/-- One byte written into an empty file leaves what fresh memory held behind it. -/
theorem new_block_keeps_fresh_memory :
    ¬ ∀ (dh : DbfsHandle) (buf : List UInt8) (offset : UInt64) (db : Db), BlocksWF db →
      buf ≠ [] → offset.toNat + buf.length < 2 ^ 63 → KeepsUnwritten dh buf offset db := by
  intro hlaw
  obtain ⟨db', hruns, -⟩ := hlaw streamHandle [8] 0 fileDb blocksWF_fileDb (by decide)
    (by decide)
  have hcontent : ∀ heap : Heap, content db' 2 4 = some (heap.fresh 0 4) := by
    intro heap
    have hfits : WriteCall.Fits ⟨heap, [8], 0⟩ := show 0 + 1 < 2 ^ 64 by decide
    obtain ⟨db₁, -, hcontent, hrun⟩ :=
      run_dbfsWrite_exactly streamHandle ⟨heap, [8], 0⟩ blocksWF_fileDb hfits
    have hsame : db₁ = db' :=
      congrArg Prod.snd (Option.some.inj (hrun.symm.trans (hruns heap)))
    rw [← hsame]
    have hout : ¬ (0 ≤ 4 ∧ 4 < 0 + 1) := by decide
    have hblock : InBlocksOf 0 1 4 := by decide
    exact (congrFun hcontent 4).trans (contentAfter_of_missing hout rfl hblock)
  have hzero := hcontent plainHeap
  rw [hcontent { plainHeap with fresh := fun _ _ => 1 }] at hzero
  cases hzero

end Mangoo.Dbfs
