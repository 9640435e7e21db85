import Mangoo.Dbfs.Stream

/-!
# File contents

The bytes that the block records of one inode number hold, by position in the
file, and the effect a write of a byte range has on a database: it changes block
records of that number only, and the contents by overlaying the range.
-/

namespace Mangoo.Dbfs

open Mangoo.Foundation

/-- Every block record is 4096 bytes long and starts at a multiple of 4096. -/
def BlocksWF (db : Db) : Prop :=
  ∀ ino offset, ∀ record : List UInt8,
    db.lookup (.block ino offset) = some record →
      record.length = 4096 ∧ offset.toNat % 4096 = 0

theorem BlocksWF.of_lookup {db db' : Db} (hwf : BlocksWF db)
    (hblock : ∀ ino offset record, db'.lookup (.block ino offset) = some record →
      db.lookup (.block ino offset) = some record) : BlocksWF db' :=
  fun ino offset record hrecord =>
    hwf ino offset record (hblock ino offset record hrecord)

theorem BlocksWF.insert_block {db : Db} (hwf : BlocksWF db) {ino offset : UInt64}
    {data : List UInt8} (haligned : offset.toNat % 4096 = 0) (hlength : data.length = 4096) :
    BlocksWF (db.insert (.block ino offset) data) := by
  intro ino' offset' record hrecord
  by_cases hkey : Key.block ino' offset' = Key.block ino offset
  · cases hkey
    rw [Finmap.lookup_insert] at hrecord
    cases hrecord
    exact ⟨hlength, haligned⟩
  · rw [Finmap.lookup_insert_of_ne _ hkey] at hrecord
    exact hwf ino' offset' record hrecord

/-- The offset of the block that holds a position. -/
def blockBase (pos : Nat) : UInt64 := UInt64.ofNat (pos - pos % 4096)

def content (db : Db) (ino : UInt64) : ByteMap := fun pos =>
  if pos < 2 ^ 64 then
    (db.lookup (Key.block ino (blockBase pos)) : Option (List UInt8)).bind
      fun record => record[pos % 4096]?
  else none

theorem toNat_blockBase {pos : Nat} (h : pos < 2 ^ 64) :
    (blockBase pos).toNat = pos - pos % 4096 := by
  rw [blockBase, UInt64.toNat_ofNat_of_lt']
  have hle : pos - pos % 4096 ≤ pos := Nat.sub_le _ _
  exact Nat.lt_of_le_of_lt hle h

theorem blockBase_eq_iff {pos : Nat} {offset : UInt64} (h : pos < 2 ^ 64) :
    blockBase pos = offset ↔ pos - pos % 4096 = offset.toNat := by
  rw [← UInt64.toNat_inj, toNat_blockBase h]

theorem content_of_lookup {db : Db} {ino : UInt64} {pos : Nat} {record : List UInt8}
    (hpos : pos < 2 ^ 64)
    (h : db.lookup (.block ino (blockBase pos)) = some record) :
    content db ino pos = record[pos % 4096]? := by
  simp only [content, if_pos hpos, h, Option.bind_some]

theorem lookup_of_content {db : Db} {ino : UInt64} {pos : Nat} {byte : UInt8}
    (h : content db ino pos = some byte) :
    pos < 2 ^ 64 ∧ ∃ record : List UInt8,
      db.lookup (.block ino (blockBase pos)) = some record ∧
        record[pos % 4096]? = some byte := by
  unfold content at h
  split at h
  · rename_i hpos
    exact ⟨hpos, Option.bind_eq_some_iff.mp h⟩
  · cases h

theorem content_isSome_iff {db : Db} (hwf : BlocksWF db) {ino : UInt64} {pos : Nat}
    (hpos : pos < 2 ^ 64) :
    (content db ino pos).isSome ↔ Key.block ino (blockBase pos) ∈ db := by
  rw [Finmap.mem_iff]
  constructor
  · intro h
    obtain ⟨byte, hbyte⟩ := Option.isSome_iff_exists.mp h
    obtain ⟨-, record, hrecord, -⟩ := lookup_of_content hbyte
    exact ⟨record, hrecord⟩
  · rintro ⟨record, hrecord⟩
    obtain ⟨hlength, -⟩ := hwf _ _ _ hrecord
    have hlt : pos % 4096 < record.length := by
      rw [hlength]
      exact Nat.mod_lt _ (by decide)
    rw [content_of_lookup hpos hrecord, List.getElem?_eq_getElem hlt]
    rfl

theorem content_congr {db db' : Db} {ino : UInt64}
    (h : ∀ offset, db'.lookup (.block ino offset) = db.lookup (.block ino offset)) :
    content db' ino = content db ino := by
  funext pos
  simp only [content, h]

/-! ## Writing a range -/

/-- The block at `offset` meets the byte range of `length` bytes at `off`. -/
def Meets (offset : UInt64) (off length : Nat) : Prop :=
  offset.toNat < off + length ∧ off < offset.toNat + 4096

/-- The effect of writing `bytes` at `off` into the file with number `ino`. -/
structure WroteRange (ino : UInt64) (db db' : Db) (off : Nat) (bytes : List UInt8) :
    Prop where
  frame : ∀ key, (∀ offset, key = .block ino offset → ¬ Meets offset off bytes.length) →
    db'.lookup key = db.lookup key
  wf : BlocksWF db'
  written : ((content db ino).overlay off bytes).Le (content db' ino)

namespace WroteRange

variable {ino : UInt64} {db db' db'' : Db} {off : Nat} {bytes bytes' : List UInt8}

theorem nil (hwf : BlocksWF db) : WroteRange ino db db off [] where
  frame := fun _ _ => rfl
  wf := hwf
  written := by
    rw [ByteMap.overlay_nil]
    exact ByteMap.Le.refl _

theorem trans (h : WroteRange ino db db' off bytes)
    (h' : WroteRange ino db' db'' (off + bytes.length) bytes') :
    WroteRange ino db db'' off (bytes ++ bytes') where
  frame := by
    intro key hkey
    simp only [Meets, List.length_append] at hkey
    rw [h'.frame key, h.frame key]
    · intro offset heq hmeets
      have hnot := hkey offset heq
      simp only [Meets] at hmeets
      omega
    · intro offset heq hmeets
      have hnot := hkey offset heq
      simp only [Meets] at hmeets
      omega
  wf := h'.wf
  written := by
    rw [ByteMap.overlay_append]
    exact (ByteMap.overlay_mono h.written _ _).trans h'.written

end WroteRange

/-! ## The exact contents after a write -/

/-- The position lies in a block that the range has a byte in. -/
def InBlocksOf (off length pos : Nat) : Prop :=
  0 < length ∧ off / 4096 ≤ pos / 4096 ∧ pos / 4096 ≤ (off + length - 1) / 4096

instance (off length pos : Nat) : Decidable (InBlocksOf off length pos) :=
  inferInstanceAs (Decidable (_ ∧ _))

/-- The contents `m` after `bytes` were written at `off`, where the rest of a block that was
missing is left as `fresh` has it. -/
def contentAfter (fresh : Nat → UInt8) (m : ByteMap) (off : Nat) (bytes : List UInt8) :
    ByteMap := fun pos =>
  if off ≤ pos ∧ pos < off + bytes.length then bytes[pos - off]?
  else if m pos = none ∧ InBlocksOf off bytes.length pos then some (fresh pos)
  else m pos

section contentAfter

variable {fresh : Nat → UInt8} {m : ByteMap} {off pos : Nat} {bytes : List UInt8}

theorem contentAfter_of_mem (h : off ≤ pos ∧ pos < off + bytes.length) :
    contentAfter fresh m off bytes pos = bytes[pos - off]? := if_pos h

theorem contentAfter_of_missing (h : ¬ (off ≤ pos ∧ pos < off + bytes.length))
    (hnone : m pos = none) (hblock : InBlocksOf off bytes.length pos) :
    contentAfter fresh m off bytes pos = some (fresh pos) := by
  rw [contentAfter, if_neg h, if_pos ⟨hnone, hblock⟩]

theorem contentAfter_of_apart (hblock : ¬ InBlocksOf off bytes.length pos) :
    contentAfter fresh m off bytes pos = m pos := by
  have hout : ¬ (off ≤ pos ∧ pos < off + bytes.length) := by
    unfold InBlocksOf at hblock
    omega
  rw [contentAfter, if_neg hout, if_neg fun h => hblock h.2]

theorem contentAfter_of_stored (h : ¬ (off ≤ pos ∧ pos < off + bytes.length))
    (hsome : m pos ≠ none) : contentAfter fresh m off bytes pos = m pos := by
  rw [contentAfter, if_neg h, if_neg fun hnone => hsome hnone.1]

theorem contentAfter_nil : contentAfter fresh m off [] = m := by
  funext pos
  apply contentAfter_of_apart
  rintro ⟨hpos, -⟩
  exact absurd hpos (Nat.lt_irrefl 0)

theorem contentAfter_append (first second : List UInt8) :
    contentAfter fresh m off (first ++ second) =
      contentAfter fresh (contentAfter fresh m off first) (off + first.length) second := by
  funext pos
  have hblocks : InBlocksOf off (first ++ second).length pos ↔
      InBlocksOf off first.length pos ∨
        InBlocksOf (off + first.length) second.length pos := by
    unfold InBlocksOf
    rw [List.length_append]
    omega
  by_cases hsecond : off + first.length ≤ pos ∧ pos < off + first.length + second.length
  · rw [contentAfter_of_mem hsecond, contentAfter_of_mem (by rw [List.length_append]; omega),
      List.getElem?_append_right (by omega)]
    congr 1
    omega
  · by_cases hfirst : off ≤ pos ∧ pos < off + first.length
    · have hbyte : contentAfter fresh m off first pos ≠ none := by
        rw [contentAfter_of_mem hfirst, List.getElem?_eq_getElem (by omega)]
        simp
      rw [contentAfter_of_stored hsecond hbyte, contentAfter_of_mem hfirst,
        contentAfter_of_mem (by rw [List.length_append]; omega),
        List.getElem?_append_left (by omega)]
    · have hout : ¬ (off ≤ pos ∧ pos < off + (first ++ second).length) := by
        rw [List.length_append]
        omega
      by_cases hnone : m pos = none
      · by_cases hfill : InBlocksOf off first.length pos
        · rw [contentAfter_of_missing hout hnone (hblocks.mpr (.inl hfill)),
            contentAfter_of_stored hsecond] <;>
            simp [contentAfter_of_missing hfirst hnone hfill]
        · have hkeep : contentAfter fresh m off first pos = m pos := contentAfter_of_apart hfill
          by_cases hfill' : InBlocksOf (off + first.length) second.length pos
          · rw [contentAfter_of_missing hout hnone (hblocks.mpr (.inr hfill')),
              contentAfter_of_missing hsecond (hkeep.trans hnone) hfill']
          · rw [contentAfter_of_apart hfill', hkeep, contentAfter_of_apart]
            exact fun h => (hblocks.mp h).elim hfill hfill'
      · have hkeep : contentAfter fresh m off first pos = m pos :=
          contentAfter_of_stored hfirst hnone
        rw [contentAfter_of_stored hout hnone,
          contentAfter_of_stored hsecond (by rw [hkeep]; exact hnone), hkeep]

end contentAfter

theorem content_insert_block {db : Db} {ino : UInt64} {offset : UInt64}
    {data bytes : List UInt8} {pos : Nat} {fresh : Nat → UInt8}
    (haligned : offset.toNat % 4096 = 0) (hlength : data.length = 4096)
    (hold : db.lookup (.block ino offset) = some data ∨
      db.lookup (.block ino offset) = none ∧
        ∀ x, x < 2 ^ 64 → blockBase x = offset → data[x % 4096]? = some (fresh x))
    (hfits : pos + bytes.length ≤ 4096) (hne : bytes ≠ []) :
    content (db.insert (.block ino offset) (overwrite data pos bytes)) ino =
      contentAfter fresh (content db ino) (offset.toNat + pos) bytes := by
  funext x
  have hpos : 0 < bytes.length := List.length_pos_iff.mpr hne
  have hoffset := offset.toNat_lt
  have hsame : blockBase x = offset ∧ x < 2 ^ 64 ↔
      InBlocksOf (offset.toNat + pos) bytes.length x := by
    unfold InBlocksOf
    constructor
    · rintro ⟨hbase, hx⟩
      have hnat := (blockBase_eq_iff hx).mp hbase
      omega
    · intro hblock
      have hx : x < 2 ^ 64 := by omega
      exact ⟨(blockBase_eq_iff hx).mpr (by omega), hx⟩
  by_cases hblock : InBlocksOf (offset.toNat + pos) bytes.length x
  · obtain ⟨hbase, hx⟩ := hsame.mpr hblock
    have hnat := (blockBase_eq_iff hx).mp hbase
    have hstored : (db.insert (Key.block ino offset) (overwrite data pos bytes)).lookup
        (.block ino (blockBase x)) = some (overwrite data pos bytes) := by
      rw [hbase, Finmap.lookup_insert]
    rw [content_of_lookup hx hstored, getElem?_overwrite (by omega)]
    by_cases hin : offset.toNat + pos ≤ x ∧ x < offset.toNat + pos + bytes.length
    · rw [if_pos (by omega), contentAfter_of_mem hin]
      congr 1
      omega
    · rw [if_neg (by omega)]
      rcases hold with hlookup | ⟨hlookup, hfresh⟩
      · have hbyte : content db ino x = data[x % 4096]? :=
          content_of_lookup hx (by rw [hbase]; exact hlookup)
        rw [contentAfter_of_stored hin, hbyte]
        rw [hbyte, List.getElem?_eq_getElem (by omega)]
        simp
      · have hnone : content db ino x = none := by
          rw [content, if_pos hx, hbase, hlookup]
          rfl
        rw [contentAfter_of_missing hin hnone hblock, hfresh x hx hbase]
  · rw [contentAfter_of_apart hblock]
    unfold content
    split
    · rename_i hx
      have hbase : blockBase x ≠ offset := fun heq => hblock (hsame.mp ⟨heq, hx⟩)
      rw [Finmap.lookup_insert_of_ne _ (by simpa using hbase)]
    · rfl

theorem wroteRange_insert {db : Db} {ino : UInt64} {offset : UInt64}
    {data bytes : List UInt8} {pos : Nat} (hwf : BlocksWF db)
    (haligned : offset.toNat % 4096 = 0) (hlength : data.length = 4096)
    (hold : ∀ record : List UInt8,
      db.lookup (.block ino offset) = some record → record = data)
    (hfits : pos + bytes.length ≤ 4096)
    (hne : bytes ≠ []) :
    WroteRange ino db
      (db.insert (.block ino offset) (overwrite data pos bytes))
      (offset.toNat + pos) bytes := by
  have hover : (overwrite data pos bytes).length = 4096 := by
    rw [length_overwrite (by omega), hlength]
  have hpos : 0 < bytes.length := List.length_pos_iff.mpr hne
  refine ⟨?_, ?_, ?_⟩
  · intro key hkey
    refine Finmap.lookup_insert_of_ne _ ?_
    rintro rfl
    exact hkey offset rfl ⟨by omega, by omega⟩
  · exact hwf.insert_block haligned hover
  · intro x byte hbyte
    have hoffset := offset.toNat_lt
    unfold ByteMap.overlay at hbyte
    split at hbyte
    · rename_i hin
      have hx : x < 2 ^ 64 := by omega
      have hbase : blockBase x = offset := (blockBase_eq_iff hx).mpr (by omega)
      have hstored : (db.insert (Key.block ino offset)
          (overwrite data pos bytes)).lookup (.block ino (blockBase x)) =
            some (overwrite data pos bytes) := by
        rw [hbase, Finmap.lookup_insert]
      rw [content_of_lookup hx hstored, getElem?_overwrite (by omega),
        if_pos (by omega), ← hbyte]
      congr 1
      omega
    · rename_i hout
      obtain ⟨hx, record, hrecord, hget⟩ := lookup_of_content hbyte
      by_cases hbase : blockBase x = offset
      · have hstored : (db.insert (Key.block ino offset)
            (overwrite data pos bytes)).lookup (.block ino (blockBase x)) =
              some (overwrite data pos bytes) := by
          rw [hbase, Finmap.lookup_insert]
        rw [hbase] at hrecord
        have hdata := hold record hrecord
        subst hdata
        have hnat := (blockBase_eq_iff hx).mp hbase
        rw [content_of_lookup hx hstored, getElem?_overwrite (by omega),
          if_neg (by omega), hget]
      · have hkept : (db.insert (Key.block ino offset)
            (overwrite data pos bytes)).lookup (.block ino (blockBase x)) =
              some record := by
          rw [Finmap.lookup_insert_of_ne _ (by simpa using hbase), hrecord]
        rw [content_of_lookup hx hkept, hget]

end Mangoo.Dbfs
