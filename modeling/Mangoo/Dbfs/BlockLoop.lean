import Mangoo.Dbfs.Content

/-!
# The block loop

What `dbfs_readwrite` does, for every outcome of its database calls.  The loop
invariant `RwInv` keeps the key offset at the block of the current position; the
range of each iteration then lies in one block, and the ranges of successive
iterations follow each other.
-/

namespace Mangoo.Dbfs

open Mangoo.Foundation

structure RwInv (l : RwLocals) : Prop where
  fits : l.offset.toNat + l.size.toNat < 2 ^ 64
  aligned : l.size ≠ 0 →
    l.dbkOffset.toNat = l.offset.toNat - l.offset.toNat % 4096
  room : l.size.toNat ≤ l.buf.length
  data : l.data = [] ∨ l.data.length = 4096

@[simp] theorem toNat_dbfsBlksize : dbfsBlksize.toNat = 4096 := rfl

theorem toNat_ne_zero {n : UInt64} (h : n ≠ 0) : n.toNat ≠ 0 :=
  fun heq => h (UInt64.toNat_inj.mp heq)

namespace RwInv

variable {l : RwLocals}

theorem toNat_offinblk (hinv : RwInv l) (hsize : l.size ≠ 0) :
    l.offinblk.toNat = l.offset.toNat % 4096 := by
  have haligned := hinv.aligned hsize
  have hle : l.dbkOffset ≤ l.offset := by
    rw [UInt64.le_iff_toNat_le]
    omega
  rw [RwLocals.offinblk, UInt64.toNat_sub_of_le _ _ hle]
  omega

theorem toNat_sizeinblk (hinv : RwInv l) (hsize : l.size ≠ 0) :
    l.sizeinblk.toNat = min l.size.toNat (4096 - l.offset.toNat % 4096) := by
  have hoff := hinv.toNat_offinblk hsize
  have hfits := hinv.fits
  have hsum : (l.offinblk + l.size).toNat = l.offset.toNat % 4096 + l.size.toNat := by
    rw [UInt64.toNat_add, hoff]
    omega
  have hle : l.offinblk ≤ dbfsBlksize := by
    rw [UInt64.le_iff_toNat_le, hoff, toNat_dbfsBlksize]
    omega
  unfold RwLocals.sizeinblk
  split
  · rename_i hgt
    rw [gt_iff_lt, UInt64.lt_iff_toNat_lt, hsum, toNat_dbfsBlksize] at hgt
    rw [UInt64.toNat_sub_of_le _ _ hle, hoff, toNat_dbfsBlksize]
    omega
  · rename_i hle'
    rw [gt_iff_lt, UInt64.lt_iff_toNat_lt, hsum, toNat_dbfsBlksize] at hle'
    omega

theorem range (hinv : RwInv l) (hsize : l.size ≠ 0) :
    0 < l.sizeinblk.toNat ∧ l.sizeinblk.toNat ≤ l.size.toNat ∧
      l.offinblk.toNat + l.sizeinblk.toNat ≤ 4096 ∧
      l.dbkOffset.toNat % 4096 = 0 ∧
      l.dbkOffset.toNat + l.offinblk.toNat = l.offset.toNat := by
  have hpos := toNat_ne_zero hsize
  have hoff := hinv.toNat_offinblk hsize
  have hn := hinv.toNat_sizeinblk hsize
  have haligned := hinv.aligned hsize
  omega

theorem toNat_next_offset (hinv : RwInv l) (hsize : l.size ≠ 0) :
    l.next.offset.toNat = l.offset.toNat + l.sizeinblk.toNat := by
  have hfits := hinv.fits
  obtain ⟨-, hle, -⟩ := hinv.range hsize
  simp only [RwLocals.next, UInt64.toNat_add]
  omega

theorem toNat_next_size (hinv : RwInv l) (hsize : l.size ≠ 0) :
    l.next.size.toNat = l.size.toNat - l.sizeinblk.toNat := by
  obtain ⟨-, hle, -⟩ := hinv.range hsize
  exact UInt64.toNat_sub_of_le _ _ (UInt64.le_iff_toNat_le.mpr hle)

theorem next (hinv : RwInv l) (hsize : l.size ≠ 0) : RwInv l.next where
  fits := by
    have hfits := hinv.fits
    have hle := (hinv.range hsize).2.1
    rw [hinv.toNat_next_offset hsize, hinv.toNat_next_size hsize]
    omega
  aligned := by
    intro hmore
    have hrest := toNat_ne_zero hmore
    rw [hinv.toNat_next_size hsize] at hrest
    have hn := hinv.toNat_sizeinblk hsize
    have hoffset := hinv.toNat_next_offset hsize
    have hkey : l.next.dbkOffset.toNat = l.next.offset.toNat := rfl
    omega
  room := by
    have hroom := hinv.room
    rw [hinv.toNat_next_size hsize]
    simp only [RwLocals.next, List.length_drop]
    omega
  data := hinv.data

theorem withData (hinv : RwInv l) (done : List UInt8) {data : List UInt8}
    (hdata : data = [] ∨ data.length = 4096) (error : Int) :
    RwInv { l with done := done, data := data, error := error } where
  fits := hinv.fits
  aligned := hinv.aligned
  room := hinv.room
  data := hdata

end RwInv

theorem toNat_and_blksize (offset : UInt64) :
    (offset &&& (dbfsBlksize - 1)).toNat = offset.toNat % 4096 := by
  rw [UInt64.toNat_and]
  exact Nat.and_two_pow_sub_one_eq_mod offset.toNat 12

theorem toNat_blockOffset (offset : UInt64) :
    (offset - (offset &&& (dbfsBlksize - 1))).toNat = offset.toNat - offset.toNat % 4096 := by
  have hle : offset &&& (dbfsBlksize - 1) ≤ offset := by
    rw [UInt64.le_iff_toNat_le, toNat_and_blksize]
    exact Nat.mod_le _ _
  rw [UInt64.toNat_sub_of_le _ _ hle, toNat_and_blksize]

theorem toNat_sub_blockOffset (offset : UInt64) :
    (offset - (offset - (offset &&& (dbfsBlksize - 1)))).toNat = offset.toNat % 4096 := by
  have hkey := toNat_blockOffset offset
  have hle : offset - (offset &&& (dbfsBlksize - 1)) ≤ offset := by
    rw [UInt64.le_iff_toNat_le, hkey]
    omega
  rw [UInt64.toNat_sub_of_le _ _ hle, hkey]
  omega

theorem rwInv_rwStart {buf : List UInt8} {size offset : UInt64}
    (hfits : offset.toNat + size.toNat < 2 ^ 64) (hroom : size.toNat ≤ buf.length) :
    RwInv (rwStart buf size offset) where
  fits := hfits
  aligned := fun _ => toNat_blockOffset offset
  room := hroom
  data := .inl rfl

/-! ## One iteration -/

variable {faulty : Prop} {db db' : Db} {heap : Heap} {ino : UInt64} {l l' : RwLocals}

theorem not_shortBuffer {data record : List UInt8} (hdata : data = [] ∨ data.length = 4096)
    (hlength : record.length = 4096) : ¬ (data ≠ [] ∧ data.length < record.length) := by
  rintro ⟨hne, hlt⟩
  rcases hdata with hnil | hdata
  · exact hne hnil
  · omega

theorem exec_getBlock {offset : UInt64} {data : List UInt8}
    {result : Except Int (List UInt8)} (hwf : BlocksWF db)
    (hdata : data = [] ∨ data.length = 4096)
    (h : Prog.Exec faulty (getBlock ino offset data) db result db') :
    db' = db ∧ ((∃ record : List UInt8, db.lookup (.block ino offset) = some record ∧
        result = .ok record) ∨
      db.lookup (.block ino offset) = none ∧ result = .error dbNotfound ∨
      faulty ∧ ∃ e, Prog.IsFault e ∧ result = .error e) := by
  simp only [getBlock, Prog.exec_bind, Prog.exec_getRec] at h
  obtain ⟨found, mid, ⟨rfl, hfound⟩, hret⟩ := h
  rcases hfound with hfound | ⟨hf, e, he, rfl⟩
  · cases found with
    | ok record =>
        have hlookup := fetch_eq_ok_iff.mp hfound.symm
        obtain ⟨hlength, -⟩ := hwf _ _ _ hlookup
        simp only [if_neg (not_shortBuffer hdata hlength), Prog.exec_pure] at hret
        exact ⟨hret.2, .inl ⟨record, hlookup, hret.1⟩⟩
    | error e =>
        obtain ⟨rfl, hnone⟩ := fetch_eq_error hfound.symm
        rw [Prog.exec_pure] at hret
        exact ⟨hret.2, .inr (.inl ⟨hnone, hret.1⟩)⟩
  · rw [Prog.exec_pure] at hret
    exact ⟨hret.2, .inr (.inr ⟨hf, e, he, hret.1⟩)⟩

theorem length_freshBlock (heap : Heap) (count : Nat) :
    (heap.freshBlock count).length = 4096 :=
  List.length_ofFn

theorem getElem?_freshBlock (heap : Heap) (count pos : Nat) :
    (heap.freshBlock count)[pos % 4096]? = some (heap.fresh count (pos % 4096)) := by
  have hlt : pos % 4096 < dbfsBlksize.toNat := Nat.mod_lt _ (by decide)
  rw [Heap.freshBlock, List.getElem?_ofFn, dif_pos hlt]

theorem exec_writeBlock {goesOn : Bool}
    (h : Prog.Exec faulty (writeBlock ino l) db (goesOn, l') db') :
    ∃ data, data = overwrite l.data l.offinblk.toNat (l.buf.take l.sizeinblk.toNat) ∧
      (goesOn = true ∧ l' = { l.next with data := data, error := 0 } ∧
          db' = db.insert (.block ino l.dbkOffset) data ∨
        faulty ∧ goesOn = false ∧ l' = { l with data := data, error := eio } ∧
          db' = db) := by
  refine ⟨_, rfl, ?_⟩
  simp only [writeBlock, Prog.exec_bind, Prog.exec_putRec] at h
  obtain ⟨code, mid, hput | ⟨hf, hfault, rfl⟩, hret⟩ := h
  · rw [store_overwrite] at hput
    cases hput
    rw [if_neg (by simp), Prog.exec_pure] at hret
    obtain ⟨heq, rfl⟩ := hret
    cases heq
    exact .inl ⟨rfl, rfl, rfl⟩
  · rw [if_pos hfault.1, Prog.exec_pure] at hret
    obtain ⟨heq, rfl⟩ := hret
    cases heq
    exact .inr ⟨hf, rfl, rfl, rfl⟩

/-- The block contents that an iteration of a write copies its bytes into. -/
def blockBefore (heap : Heap) (db : Db) (ino : UInt64) (l : RwLocals) : List UInt8 :=
  (db.lookup (Key.block ino l.dbkOffset) : Option (List UInt8)).getD
    (heap.freshBlock l.count.toNat)

def storedBlock (heap : Heap) (db : Db) (ino : UInt64) (l : RwLocals) : List UInt8 :=
  overwrite (blockBefore heap db ino l) l.offinblk.toNat (l.buf.take l.sizeinblk.toNat)

theorem blockBefore_of_some {record : List UInt8}
    (h : db.lookup (.block ino l.dbkOffset) = some record) :
    blockBefore heap db ino l = record := by
  rw [blockBefore, h, Option.getD_some]

theorem blockBefore_of_none (h : db.lookup (.block ino l.dbkOffset) = none) :
    blockBefore heap db ino l = heap.freshBlock l.count.toNat := by
  rw [blockBefore, h, Option.getD_none]

theorem length_blockBefore (heap : Heap) (ino : UInt64) (l : RwLocals) (hwf : BlocksWF db) :
    (blockBefore heap db ino l).length = 4096 := by
  cases hlookup : db.lookup (Key.block ino l.dbkOffset) with
  | none =>
      rw [blockBefore_of_none hlookup]
      exact length_freshBlock heap _
  | some record =>
      rw [blockBefore_of_some hlookup]
      exact (hwf _ _ _ hlookup).1

theorem length_chunk (hinv : RwInv l) (hsize : l.size ≠ 0) :
    (l.buf.take l.sizeinblk.toNat).length = l.sizeinblk.toNat :=
  List.length_take_of_le ((hinv.range hsize).2.1.trans hinv.room)

theorem chunk_ne_nil (hinv : RwInv l) (hsize : l.size ≠ 0) :
    l.buf.take l.sizeinblk.toNat ≠ [] := by
  rw [← List.length_pos_iff, length_chunk hinv hsize]
  exact (hinv.range hsize).1

theorem length_storedBlock (heap : Heap) (ino : UInt64) (hwf : BlocksWF db) (hinv : RwInv l)
    (hsize : l.size ≠ 0) :
    (storedBlock heap db ino l).length = 4096 := by
  have hlength := length_blockBefore heap ino l hwf
  have hblock := (hinv.range hsize).2.2.1
  rw [storedBlock, length_overwrite (by rw [length_chunk hinv hsize]; omega), hlength]

theorem exec_readwriteBlock_stores {goesOn : Bool} (hwf : BlocksWF db) (hinv : RwInv l)
    (h : Prog.Exec faulty (readwriteBlock heap ino false l) db (goesOn, l') db') :
    goesOn = true ∧
        db' = db.insert (.block ino l.dbkOffset) (storedBlock heap db ino l) ∧
        l' = { l.next with data := storedBlock heap db ino l, error := 0 } ∨
      faulty ∧ goesOn = false ∧ db' = db ∧
        ∃ data, l' = { l with data := data, error := eio } := by
  -- both the fetched and the fresh block contents end in `writeBlock`
  have hwrite : Prog.Exec faulty
      (writeBlock ino { l with data := blockBefore heap db ino l }) db (goesOn, l') db' →
      goesOn = true ∧
          db' = db.insert (.block ino l.dbkOffset) (storedBlock heap db ino l) ∧
          l' = { l.next with data := storedBlock heap db ino l, error := 0 } ∨
        faulty ∧ goesOn = false ∧ db' = db ∧
          ∃ data, l' = { l with data := data, error := eio } := by
    intro hexec
    obtain ⟨data, hdata, ⟨rfl, rfl, rfl⟩ | ⟨hf, rfl, rfl, rfl⟩⟩ := exec_writeBlock hexec
    · have hdata' : data = storedBlock heap db ino l := hdata
      rw [hdata']
      exact .inl ⟨rfl, rfl, rfl⟩
    · exact .inr ⟨hf, rfl, rfl, data, rfl⟩
  simp only [readwriteBlock, Prog.exec_bind] at h
  obtain ⟨result, mid, hget, hrest⟩ := h
  obtain ⟨rfl, ⟨record, hlookup, rfl⟩ | ⟨hnone, rfl⟩ | ⟨hf, e, he, rfl⟩⟩ :=
    exec_getBlock hwf hinv.data hget
  · simp only [Bool.false_eq_true, if_false] at hrest
    apply hwrite
    rw [blockBefore_of_some hlookup]
    exact hrest
  · simp only [ne_eq, not_true_eq_false, Bool.false_eq_true, if_false] at hrest
    apply hwrite
    rw [blockBefore_of_none hnone]
    exact hrest
  · simp only [ne_eq, he.2, not_false_eq_true, if_true, Prog.exec_pure] at hrest
    obtain ⟨heq, rfl⟩ := hrest
    cases heq
    exact .inr ⟨hf, rfl, rfl, l.data, rfl⟩

/-- The byte that a block created by a transfer that began at `origin` has at a position
before the transfer copies its own bytes. -/
def freshAt (heap : Heap) (origin pos : Nat) : UInt8 :=
  heap.fresh (pos - pos % 4096 - origin) (pos % 4096)

/-- The locals belong to a transfer that began at `origin`. -/
structure BeganAt (origin : Nat) (l : RwLocals) : Prop where
  place : l.offset.toNat = origin + l.count.toNat
  later : l.count ≠ 0 → l.size ≠ 0 → l.offset.toNat % 4096 = 0

theorem BeganAt.next {origin : Nat} (h : BeganAt origin l) (hinv : RwInv l)
    (hsize : l.size ≠ 0) : BeganAt origin l.next where
  place := by
    have hoffset := hinv.toNat_next_offset hsize
    have hlt := l.next.offset.toNat_lt
    have hplace := h.place
    have hcount : l.next.count.toNat = l.count.toNat + l.sizeinblk.toNat := by
      simp only [RwLocals.next, UInt64.toNat_add]
      omega
    omega
  later := by
    intro _ hmore
    have haligned := (hinv.next hsize).aligned hmore
    have hkey : l.next.dbkOffset.toNat = l.next.offset.toNat := rfl
    omega

theorem BeganAt.blockStart_sub {origin pos : Nat} (h : BeganAt origin l) (hinv : RwInv l)
    (hsize : l.size ≠ 0) (hlt : pos < 2 ^ 64) (hpos : blockBase pos = l.dbkOffset) :
    pos - pos % 4096 - origin = l.count.toNat := by
  have hplace := h.place
  have hkey := hinv.aligned hsize
  have hbase := (blockBase_eq_iff hlt).mp hpos
  by_cases hcount : l.count = 0
  · have hzero : l.count.toNat = 0 := by rw [hcount, UInt64.toNat_zero]
    omega
  · have haligned := h.later hcount hsize
    omega

theorem wroteRange_storedBlock (heap : Heap) (ino : UInt64) (hwf : BlocksWF db)
    (hinv : RwInv l) (hsize : l.size ≠ 0) :
    WroteRange ino db (db.insert (.block ino l.dbkOffset) (storedBlock heap db ino l))
      l.offset.toNat (l.buf.take l.sizeinblk.toNat) := by
  obtain ⟨-, -, hblock, haligned, hsum⟩ := hinv.range hsize
  rw [← hsum]
  refine wroteRange_insert hwf haligned (length_blockBefore heap ino l hwf) ?_
    (by rw [length_chunk hinv hsize]; exact hblock) (chunk_ne_nil hinv hsize)
  intro record hlookup
  exact (blockBefore_of_some hlookup).symm

theorem content_storedBlock {origin : Nat} (hwf : BlocksWF db) (hinv : RwInv l)
    (hsize : l.size ≠ 0) (hbegan : BeganAt origin l) :
    content (db.insert (.block ino l.dbkOffset) (storedBlock heap db ino l)) ino =
      contentAfter (freshAt heap origin) (content db ino) l.offset.toNat
        (l.buf.take l.sizeinblk.toNat) := by
  obtain ⟨-, -, hblock, haligned, hsum⟩ := hinv.range hsize
  rw [← hsum]
  refine content_insert_block haligned (length_blockBefore heap ino l hwf) ?_
    (by rw [length_chunk hinv hsize]; exact hblock) (chunk_ne_nil hinv hsize)
  cases hlookup : db.lookup (Key.block ino l.dbkOffset) with
  | some record => exact .inl (by rw [blockBefore_of_some hlookup])
  | none =>
      refine .inr ⟨rfl, ?_⟩
      intro x hx hbase
      rw [blockBefore_of_none hlookup, getElem?_freshBlock, freshAt,
        hbegan.blockStart_sub hinv hsize hx hbase]

/-! ## The writing loop -/

/-- A write transfers a prefix of the buffer, all of it unless a call fails, and
the database then differs by that prefix. -/
def Wrote (faulty : Prop) (ino : UInt64) (db db' : Db) (l l' : RwLocals) : Prop :=
  ∃ k, k ≤ l.size.toNat ∧ l'.count = l.count + UInt64.ofNat k ∧
    WroteRange ino db db' l.offset.toNat (l.buf.take k) ∧
    (k = l.size.toNat ∧ l'.error = 0 ∨
      faulty ∧ k < l.size.toNat ∧ l'.error = eio)

/-- The exact contents that a transfer which began at `origin` leaves. -/
def WroteExactly (faulty : Prop) (heap : Heap) (ino : UInt64) (origin : Nat) (db db' : Db)
    (l l' : RwLocals) : Prop :=
  ∃ k, k ≤ l.size.toNat ∧ l'.count = l.count + UInt64.ofNat k ∧
    WroteRange ino db db' l.offset.toNat (l.buf.take k) ∧
    (BeganAt origin l → content db' ino =
      contentAfter (freshAt heap origin) (content db ino) l.offset.toNat (l.buf.take k)) ∧
    (k = l.size.toNat ∧ l'.error = 0 ∨
      faulty ∧ k < l.size.toNat ∧ l'.error = eio)

theorem wroteExactly_of_size_eq_zero {origin : Nat} (hwf : BlocksWF db) (hsize : l.size = 0)
    (herror : l.error = 0) (h : Prog.Exec faulty (pure l) db l' db') :
    WroteExactly faulty heap ino origin db db' l l' := by
  obtain ⟨rfl, rfl⟩ := Prog.exec_pure.mp h
  refine ⟨0, Nat.zero_le _, by simp, ?_, ?_, .inl ⟨by simp [hsize], herror⟩⟩
  · rw [List.take_zero]
    exact .nil hwf
  · intro _
    rw [List.take_zero, contentAfter_nil]

/-- The induction is on the iterations left; each one extends the written range
at its end. -/
theorem exec_readwriteLoop_exactly {fuel origin : Nat} (hwf : BlocksWF db) (hinv : RwInv l)
    (herror : l.error = 0)
    (h : Prog.Exec faulty (readwriteLoop heap ino false fuel l) db l' db') :
    WroteExactly faulty heap ino origin db db' l l' := by
  induction fuel generalizing l db with
  | zero =>
      simp only [readwriteLoop] at h
      split at h
      · rename_i hsize
        exact wroteExactly_of_size_eq_zero hwf hsize herror h
      · exact absurd h Prog.exec_spin
  | succ fuel ih =>
      simp only [readwriteLoop] at h
      split at h
      · rename_i hsize
        exact wroteExactly_of_size_eq_zero hwf hsize herror h
      · rename_i hsize
        have hpos := toNat_ne_zero hsize
        obtain ⟨-, hle, -⟩ := hinv.range hsize
        rw [Prog.exec_bind] at h
        obtain ⟨⟨goesOn, l₁⟩, mid, hblock, hrest⟩ := h
        rcases exec_readwriteBlock_stores hwf hinv hblock with
          ⟨rfl, rfl, rfl⟩ | ⟨hf, rfl, rfl, data, rfl⟩
        · simp only [if_true] at hrest
          have hwrote := wroteRange_storedBlock heap ino hwf hinv hsize
          have hdata := length_storedBlock heap ino hwf hinv hsize
          have hoffset := hinv.toNat_next_offset hsize
          have hsize' := hinv.toNat_next_size hsize
          have hchunk := length_chunk hinv hsize
          obtain ⟨k, hk, hcount, hwrote', hexact, hend⟩ :=
            ih hwrote.wf ((hinv.next hsize).withData _ (.inr hdata) 0) rfl hrest
          change k ≤ l.next.size.toNat at hk
          change k = l.next.size.toNat ∧ _ ∨ _ ∧ k < l.next.size.toNat ∧ _ at hend
          refine ⟨l.sizeinblk.toNat + k, by omega, ?_, ?_, ?_, ?_⟩
          · rw [hcount, UInt64.ofNat_add, UInt64.ofNat_toNat, ← UInt64.add_assoc]
            rfl
          · rw [List.take_add]
            refine hwrote.trans ?_
            rw [hchunk, ← hoffset]
            exact hwrote'
          · intro hbegan
            have hnext := hbegan.next hinv hsize
            rw [List.take_add, contentAfter_append, hchunk, ← hoffset,
              ← content_storedBlock hwf hinv hsize hbegan]
            exact hexact ⟨hnext.place, hnext.later⟩
          · rcases hend with ⟨hk', herror'⟩ | ⟨hf, hk', herror'⟩
            · exact .inl ⟨by omega, herror'⟩
            · exact .inr ⟨hf, by omega, herror'⟩
        · simp only [Bool.false_eq_true, if_false, Prog.exec_pure] at hrest
          obtain ⟨rfl, rfl⟩ := hrest
          refine ⟨0, Nat.zero_le _, by simp, ?_, ?_, .inr ⟨hf, by omega, rfl⟩⟩
          · rw [List.take_zero]
            exact .nil hwf
          · intro _
            rw [List.take_zero, contentAfter_nil]

theorem exec_readwriteLoop_write {fuel : Nat} (hwf : BlocksWF db) (hinv : RwInv l)
    (herror : l.error = 0)
    (h : Prog.Exec faulty (readwriteLoop heap ino false fuel l) db l' db') :
    Wrote faulty ino db db' l l' := by
  have hexactly : WroteExactly faulty heap ino 0 db db' l l' :=
    exec_readwriteLoop_exactly hwf hinv herror h
  obtain ⟨k, hk, hcount, hwrote, -, hend⟩ := hexactly
  exact ⟨k, hk, hcount, hwrote, hend⟩

end Mangoo.Dbfs
