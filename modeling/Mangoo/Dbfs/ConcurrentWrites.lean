import Mangoo.Foundation.Calls
import Mangoo.Foundation.Runs
import Mangoo.Dbfs.NewBlocks

/-!
# Writers at the same time

Any number of threads that each write a range of one file with `dbfs_readwrite`, one
database call at a time in any order.  An iteration fetches its block in one call and
stores it in the next, so a thread that stores the same block in between loses its
bytes, however far apart the ranges are.
-/

namespace Mangoo.Dbfs

open Mangoo.Foundation

variable {db db' : Db} {ino : UInt64} {heap : Heap} {l : RwLocals} {fuel : Nat}

abbrev Moved := Int × UInt64 × List UInt8

/-! ## The program points of a writer -/

def finishTransfer (l : RwLocals) : DbProg Moved :=
  pure (l.error, l.count, l.done ++ l.buf)

def afterBlock (heap : Heap) (ino : UInt64) (fuel : Nat) (next : Bool × RwLocals) :
    DbProg RwLocals :=
  if next.1 then readwriteLoop heap ino false fuel next.2 else pure next.2

def writerLoop (heap : Heap) (ino : UInt64) (fuel : Nat) (l : RwLocals) : DbProg Moved :=
  readwriteLoop heap ino false fuel l >>= finishTransfer

/-- A writer that has the contents of its block and stores them next. -/
def writerPut (heap : Heap) (ino : UInt64) (fuel : Nat) (l : RwLocals) (block : List UInt8) :
    DbProg Moved :=
  (writeBlock ino { l with data := block } >>= afterBlock heap ino fuel) >>= finishTransfer

def writerFetched (heap : Heap) (ino : UInt64) (fuel : Nat) (l : RwLocals) :
    Except Int (List UInt8) → DbProg Moved
  | .ok record =>
      if l.data ≠ [] ∧ l.data.length < record.length then
        finishTransfer { l with error := eio }
      else writerPut heap ino fuel l record
  | .error error =>
      if error ≠ dbNotfound then finishTransfer { l with error := eio }
      else writerPut heap ino fuel l (heap.freshBlock l.count.toNat)

theorem writerLoop_of_size_eq_zero (heap : Heap) (ino : UInt64) (fuel : Nat)
    (hsize : l.size = 0) : writerLoop heap ino fuel l = finishTransfer l := by
  unfold writerLoop
  cases fuel with
  | zero =>
      rw [readwriteLoop, if_pos hsize]
      rfl
  | succ fuel =>
      rw [readwriteLoop, if_pos hsize]
      rfl

theorem writerLoop_eq_get (heap : Heap) (ino : UInt64) (fuel : Nat) (hsize : l.size ≠ 0) :
    writerLoop heap ino (fuel + 1) l =
      .get (.block ino l.dbkOffset) (writerFetched heap ino fuel l) := by
  rw [writerLoop, readwriteLoop, if_neg hsize]
  change Prog.get _ _ = Prog.get _ _
  congr 1
  funext found
  cases found with
  | error error =>
      simp only [writerFetched]
      by_cases herror : error = dbNotfound
      · subst herror
        rfl
      · have hpos : error ≠ dbNotfound := herror
        rw [if_pos hpos]
        change (Prog.bind (Prog.bind (if error ≠ dbNotfound then _ else _) _) _) = _
        rw [if_pos hpos]
        rfl
  | ok record =>
      simp only [writerFetched]
      change (Prog.bind (Prog.bind (Prog.bind (if _ then _ else _) _) _) _) = _
      split
      · rfl
      · rfl

def writerStored (heap : Heap) (ino : UInt64) (fuel : Nat) (l : RwLocals) (data : List UInt8)
    (error : Int) : DbProg Moved :=
  if error ≠ 0 then finishTransfer { l with error := eio }
  else writerLoop heap ino fuel { l.next with data := data, error := 0 }

theorem writerPut_eq_put (heap : Heap) (ino : UInt64) (fuel : Nat) (l : RwLocals)
    (block : List UInt8) :
    writerPut heap ino fuel l block =
      .put (.block ino l.dbkOffset)
        (overwrite block l.offinblk.toNat (l.buf.take l.sizeinblk.toNat)) false
        (writerStored heap ino fuel l
          (overwrite block l.offinblk.toNat (l.buf.take l.sizeinblk.toNat))) := by
  rw [writerPut, writeBlock]
  change Prog.put _ _ _ _ = Prog.put _ _ _ _
  congr 1
  funext error
  change (Prog.bind (Prog.bind (if error ≠ 0 then _ else _) _) _) = _
  unfold writerStored
  split
  · rfl
  · rfl

theorem request_writerLoop (heap : Heap) (ino : UInt64) {fuel : Nat}
    (hfuel : l.size.toNat ≤ fuel) :
    (writerLoop heap ino fuel l).request =
      if l.size = 0 then none else some (.get (.block ino l.dbkOffset)) := by
  by_cases hsize : l.size = 0
  · rw [writerLoop_of_size_eq_zero heap ino fuel hsize, if_pos hsize]
    rfl
  · have hpos := toNat_ne_zero hsize
    obtain ⟨fuel, rfl⟩ := Nat.exists_eq_succ_of_ne_zero (show fuel ≠ 0 by omega)
    rw [if_neg hsize, Nat.succ_eq_add_one, writerLoop_eq_get heap ino fuel hsize]
    rfl

theorem request_writerLoop_ne_put (heap : Heap) (ino : UInt64) {fuel : Nat}
    (hfuel : l.size.toNat ≤ fuel) (key : Key) :
    (writerLoop heap ino fuel l).request ≠ some (.put key) := by
  rw [request_writerLoop heap ino hfuel]
  split <;> simp

theorem request_writerPut (heap : Heap) (ino : UInt64) (fuel : Nat) (l : RwLocals)
    (block : List UInt8) :
    (writerPut heap ino fuel l block).request = some (.put (.block ino l.dbkOffset)) := by
  rw [writerPut_eq_put]
  rfl

/-! ## Writers -/

/-- The bytes `call` has stored so far are those before the locals' position. -/
structure Reached (call : WriteCall) (ino : UInt64) (db : Db) (l : RwLocals) : Prop where
  inv : RwInv l
  error : l.error = 0
  parts : l.done ++ l.buf = call.buf
  place : l.offset.toNat = call.offset.toNat + l.done.length
  left : l.size.toNat = l.buf.length
  landed : (ByteMap.empty.overlay call.offset.toNat l.done).Le (content db ino)

/-- What a writer may have left to do.  One that is about to store a block has its
contents as they still are. -/
inductive Writing (call : WriteCall) (ino : UInt64) (db : Db) : DbProg Moved → Prop
  | looping {fuel : Nat} {l : RwLocals} : Reached call ino db l → l.size.toNat ≤ fuel →
      Writing call ino db (writerLoop call.heap ino fuel l)
  | putting {fuel : Nat} {l : RwLocals} : Reached call ino db l → l.size ≠ 0 →
      l.size.toNat ≤ fuel + 1 → Writing call ino db
        (writerPut call.heap ino fuel l (blockBefore call.heap db ino l))
  | failed {count : UInt64} {out : List UInt8} : Writing call ino db (.ret (eio, count, out))

def writer (ino : UInt64) (call : WriteCall) : DbProg Moved :=
  dbfsReadwrite call.heap ino call.buf call.size call.offset false

variable {call : WriteCall}

theorem writing_writer (ino : UInt64) (db : Db) (hfits : call.Fits) :
    Writing call ino db (writer ino call) := by
  have hsize := WriteCall.toNat_size hfits
  have hinv : RwInv (rwStart call.buf call.size call.offset) :=
    rwInv_rwStart (by rw [hsize]; exact hfits) (by rw [hsize])
  have hlanded : (ByteMap.empty.overlay call.offset.toNat []).Le (content db ino) := by
    rw [ByteMap.overlay_nil]
    exact ByteMap.empty_le _
  have hreached : Reached call ino db (rwStart call.buf call.size call.offset) :=
    ⟨hinv, rfl, rfl, rfl, hsize, hlanded⟩
  exact .looping hreached le_rfl

theorem Reached.next (h : Reached call ino db l) (hwf : BlocksWF db) (hsize : l.size ≠ 0) :
    Reached call ino (db.insert (.block ino l.dbkOffset) (storedBlock call.heap db ino l))
      { l.next with data := storedBlock call.heap db ino l, error := 0 } where
  inv := (h.inv.next hsize).withData _ (.inr (length_storedBlock _ _ hwf h.inv hsize)) 0
  error := rfl
  parts := by
    change (l.done ++ l.buf.take l.sizeinblk.toNat) ++ l.buf.drop l.sizeinblk.toNat = _
    rw [List.append_assoc, List.take_append_drop]
    exact h.parts
  place := by
    have hoffset := h.inv.toNat_next_offset hsize
    have hchunk := length_chunk h.inv hsize
    have hplace := h.place
    change l.next.offset.toNat = _ + (l.done ++ l.buf.take l.sizeinblk.toNat).length
    rw [List.length_append]
    omega
  left := by
    have hleft := h.left
    change l.next.size.toNat = (l.buf.drop l.sizeinblk.toNat).length
    rw [h.inv.toNat_next_size hsize, List.length_drop, hleft]
  landed := by
    have hwrote := wroteRange_storedBlock call.heap ino hwf h.inv hsize
    have hplace := h.place
    change (ByteMap.empty.overlay _ (l.done ++ l.buf.take l.sizeinblk.toNat)).Le _
    rw [ByteMap.overlay_append, ← hplace]
    exact (ByteMap.overlay_mono h.landed _ _).trans hwrote.written

/-! ## A writer's own calls -/

/-- What a call of a writer does to the database: nothing, or it stores the block of the
writer's position. -/
def StoresBlock (call : WriteCall) (ino : UInt64) (db : Db) (request : Option (Request Key))
    (db' : Db) : Prop :=
  db' = db ∨ ∃ l, Reached call ino db l ∧ l.size ≠ 0 ∧
    request = some (.put (.block ino l.dbkOffset)) ∧
    db' = db.insert (.block ino l.dbkOffset) (storedBlock call.heap db ino l)

theorem writerFetched_fetch (hwf : BlocksWF db) (hinv : RwInv l) :
    writerFetched heap ino fuel l (fetch db (.block ino l.dbkOffset)) =
      writerPut heap ino fuel l (blockBefore heap db ino l) := by
  cases hlookup : db.lookup (Key.block ino l.dbkOffset) with
  | none =>
      rw [fetch_of_lookup_none hlookup, blockBefore_of_none hlookup, writerFetched,
        if_neg (by simp)]
  | some record =>
      obtain ⟨hlength, -⟩ := hwf _ _ _ hlookup
      rw [fetch_of_lookup hlookup, blockBefore_of_some hlookup, writerFetched, if_neg]
      rintro ⟨hne, hlt⟩
      rcases hinv.data with hnil | hdata
      · exact hne hnil
      · omega

theorem Writing.step {x x' : DbProg Moved} {failure : Option (Request Key)}
    (hwf : BlocksWF db) (h : Writing call ino db x) (hcall : Prog.Call x db failure x' db') :
    Writing call ino db' x' ∧ StoresBlock call ino db x.request db' ∧
      ∀ key, x'.request = some (.put key) → x.request = some (.get key) := by
  cases h with
  | @looping fuel l hreached hfuel =>
      by_cases hsize : l.size = 0
      · rw [writerLoop_of_size_eq_zero _ _ _ hsize] at hcall
        cases hcall
      · have hpos := toNat_ne_zero hsize
        obtain ⟨fuel, rfl⟩ := Nat.exists_eq_succ_of_ne_zero (show fuel ≠ 0 by omega)
        rw [Nat.succ_eq_add_one, writerLoop_eq_get _ _ _ hsize] at hcall ⊢
        cases hcall with
        | get =>
            rw [writerFetched_fetch hwf hreached.inv, request_writerPut]
            refine ⟨.putting hreached hsize hfuel, .inl rfl, ?_⟩
            intro key hkey
            cases hkey
            rfl
        | @getFault _ _ _ e he =>
            rw [writerFetched, if_pos he.2]
            exact ⟨.failed, .inl rfl, fun key hkey => by cases hkey⟩
  | @putting fuel l hreached hsize hfuel =>
      have hpos := (hreached.inv.range hsize).1
      rw [writerPut_eq_put] at hcall ⊢
      cases hcall with
      | put =>
          have hleft := hreached.inv.toNat_next_size hsize
          have hnext := hreached.next hwf hsize
          have hfuel' : l.next.size.toNat ≤ fuel := by omega
          rw [store_overwrite, writerStored, if_neg (by simp)]
          refine ⟨.looping hnext hfuel', .inr ⟨l, hreached, hsize, rfl, rfl⟩, ?_⟩
          intro key hkey
          refine absurd hkey ?_
          apply request_writerLoop_ne_put
          exact hfuel'
      | @putFault _ _ _ _ _ e he =>
          rw [writerStored, if_pos he.1]
          exact ⟨.failed, .inl rfl, fun key hkey => by cases hkey⟩
  | failed => cases hcall

/-! ## The calls of the others -/

def Apart (call call' : WriteCall) : Prop :=
  ∀ pos, ¬ ((call.offset.toNat ≤ pos ∧ pos < call.stop) ∧
    call'.offset.toNat ≤ pos ∧ pos < call'.stop)

variable {call' : WriteCall} {l' : RwLocals}

theorem Reached.length_done_le (h : Reached call ino db l) :
    l.done.length + l.buf.length = call.buf.length := by
  rw [← h.parts, List.length_append]

theorem Reached.frame (h : Reached call ino db l) (hapart : Apart call call')
    (h' : Reached call' ino db l') (hwf : BlocksWF db) (hsize : l'.size ≠ 0) :
    Reached call ino
      (db.insert (.block ino l'.dbkOffset) (storedBlock call'.heap db ino l')) l where
  inv := h.inv
  error := h.error
  parts := h.parts
  place := h.place
  left := h.left
  landed := by
    have hwrote := wroteRange_storedBlock call'.heap ino hwf h'.inv hsize
    have hchunk := length_chunk h'.inv hsize
    have hle := (h'.inv.range hsize).2.1
    have hplace := h'.place
    have hleft := h'.left
    have hparts := h.length_done_le
    have hparts' := h'.length_done_le
    intro pos byte hbyte
    apply hwrote.written
    unfold ByteMap.overlay at hbyte ⊢
    split at hbyte
    · rename_i hin
      have hout := hapart pos
      unfold WriteCall.stop at hout
      rw [if_neg (by omega)]
      apply h.landed
      rw [ByteMap.overlay, if_pos hin]
      exact hbyte
    · cases hbyte

theorem Writing.frame {x : DbProg Moved} (h : Writing call ino db x) (hapart : Apart call call')
    (h' : Reached call' ino db l') (hwf : BlocksWF db) (hsize : l'.size ≠ 0)
    (hother : x.request ≠ some (.put (.block ino l'.dbkOffset))) :
    Writing call ino
      (db.insert (.block ino l'.dbkOffset) (storedBlock call'.heap db ino l')) x := by
  cases h with
  | looping hreached hfuel => exact .looping (hreached.frame hapart h' hwf hsize) hfuel
  | @putting fuel l hreached hsize' hfuel =>
      rw [request_writerPut] at hother
      have hkey : Key.block ino l.dbkOffset ≠ .block ino l'.dbkOffset :=
        fun heq => hother (by rw [heq])
      have hbefore : blockBefore call.heap
          (db.insert (.block ino l'.dbkOffset) (storedBlock call'.heap db ino l')) ino l =
            blockBefore call.heap db ino l := by
        rw [blockBefore, blockBefore, Finmap.lookup_insert_of_ne _ hkey]
      have hputting := Writing.putting (hreached.frame hapart h' hwf hsize) hsize' hfuel
      rwa [hbefore] at hputting
  | failed => exact .failed

/-! ## All writers -/

section Writers

variable {ι : Type} {calls : ι → WriteCall} {s s' : Pool ι Rec Moved} {i : ι}

def startWriters (ino : UInt64) (calls : ι → WriteCall) (db : Db) : Pool ι Rec Moved where
  threads := fun i => writer ino (calls i)
  db := db

/-- A thread that fetches a block meets no other thread that is about to store it. -/
def Unshared (s : Pool ι Rec Moved) (i : ι) : Prop :=
  ∀ key, (s.threads i).request = some (.get key) →
    ∀ j, j ≠ i → (s.threads j).request ≠ some (.put key)

structure WritersInv (ino : UInt64) (calls : ι → WriteCall) (s : Pool ι Rec Moved) :
    Prop where
  wf : BlocksWF s.db
  writing : ∀ i, Writing (calls i) ino s.db (s.threads i)
  alone : ∀ i j key, i ≠ j → (s.threads i).request = some (.put key) →
    (s.threads j).request ≠ some (.put key)

theorem writersInv_start {db : Db} (ino : UInt64) (hwf : BlocksWF db)
    (hfits : ∀ i, (calls i).Fits) : WritersInv ino calls (startWriters ino calls db) where
  wf := hwf
  writing := fun i => writing_writer ino db (hfits i)
  alone := by
    intro i j key _ hi
    have hnot : (writerLoop (calls i).heap ino (calls i).size.toNat
        (rwStart (calls i).buf (calls i).size (calls i).offset)).request ≠ some (.put key) := by
      apply request_writerLoop_ne_put
      exact le_rfl
    exact absurd hi hnot

variable [DecidableEq ι]

theorem WritersInv.step (hinv : WritersInv ino calls s)
    (hapart : ∀ i j, i ≠ j → Apart (calls i) (calls j)) (hunshared : Unshared s i)
    (h : Pool.Step s i s') : WritersInv ino calls s' := by
  obtain ⟨hcall⟩ := h
  rename_i failure x' db'
  obtain ⟨hwriting, hstores, hrequest⟩ := (hinv.writing i).step hinv.wf hcall
  have hothers : ∀ j, j ≠ i → Function.update s.threads i x' j = s.threads j :=
    fun j hj => Function.update_of_ne hj _ _
  refine ⟨?_, ?_, ?_⟩
  · rcases hstores with heq | ⟨l, hreached, hsize, -, heq⟩
    · rw [heq]
      exact hinv.wf
    · rw [heq]
      exact (wroteRange_storedBlock _ ino hinv.wf hreached.inv hsize).wf
  · intro j
    by_cases hji : j = i
    · subst hji
      simp only [Function.update_self]
      exact hwriting
    · simp only [hothers j hji]
      rcases hstores with heq | ⟨l, hreached, hsize, hput, heq⟩
      · rw [heq]
        exact hinv.writing j
      · rw [heq]
        exact (hinv.writing j).frame (hapart j i hji) hreached hinv.wf hsize
          (hinv.alone i j _ (Ne.symm hji) hput)
  · intro j k key hjk hj
    by_cases hji : j = i
    · subst hji
      simp only [Function.update_self] at hj
      simp only [hothers k (Ne.symm hjk)]
      exact hunshared key (hrequest key hj) k (Ne.symm hjk)
    · simp only [hothers j hji] at hj
      by_cases hki : k = i
      · subst hki
        simp only [Function.update_self]
        intro hk
        exact hunshared key (hrequest key hk) j hji hj
      · simp only [hothers k hki]
        exact hinv.alone j k key hjk hj

theorem Writing.landed_of_ret {x : DbProg Moved} {count : UInt64} {out : List UInt8}
    (h : Writing call ino db x) (hret : x = .ret (0, count, out)) :
    (ByteMap.empty.overlay call.offset.toNat call.buf).Le (content db ino) := by
  cases h with
  | @looping fuel l hreached hfuel =>
      have hrequest := request_writerLoop call.heap ino hfuel
      rw [hret] at hrequest
      by_cases hsize : l.size = 0
      · have hparts := hreached.parts
        have hnil : l.buf = [] := by
          rw [← List.length_eq_zero_iff, ← hreached.left, hsize, UInt64.toNat_zero]
        rw [hnil, List.append_nil] at hparts
        rw [← hparts]
        exact hreached.landed
      · rw [if_neg hsize] at hrequest
        cases hrequest
  | putting hreached hsize hfuel =>
      rw [writerPut_eq_put] at hret
      cases hret
  | failed => cases hret

omit [DecidableEq ι] in
theorem WritersInv.landed (hinv : WritersInv ino calls s) {count : UInt64} {out : List UInt8}
    (hret : s.threads i = .ret (0, count, out)) {pos : Nat}
    (hlow : (calls i).offset.toNat ≤ pos) (hhigh : pos < (calls i).stop) :
    content s.db ino pos = (calls i).buf[pos - (calls i).offset.toNat]? := by
  have hlanded := (hinv.writing i).landed_of_ret hret
  unfold WriteCall.stop at hhigh
  obtain ⟨k, rfl⟩ := Nat.exists_eq_add_of_le hlow
  rw [Nat.add_sub_cancel_left]
  exact hlanded.byte_of_overlay (by omega)

/-- No block holds positions of both ranges. -/
def BlocksApart (call call' : WriteCall) : Prop :=
  ∀ pos pos', call.offset.toNat ≤ pos → pos < call.stop →
    call'.offset.toNat ≤ pos' → pos' < call'.stop → blockBase pos ≠ blockBase pos'

theorem Reached.dbkOffset_eq (h : Reached call ino db l) (hsize : l.size ≠ 0) :
    call.offset.toNat ≤ l.offset.toNat ∧ l.offset.toNat < call.stop ∧
      blockBase l.offset.toNat = l.dbkOffset := by
  have hplace := h.place
  have hparts := h.length_done_le
  have hleft := h.left
  have hpos := toNat_ne_zero hsize
  have haligned := h.inv.aligned hsize
  refine ⟨by omega, by unfold WriteCall.stop; omega, ?_⟩
  exact (blockBase_eq_iff l.offset.toNat_lt).mpr haligned.symm

theorem Writing.request_eq {x : DbProg Moved} (h : Writing call ino db x) {key : Key}
    (hrequest : x.request = some (.get key) ∨ x.request = some (.put key)) :
    ∃ pos, call.offset.toNat ≤ pos ∧ pos < call.stop ∧ key = .block ino (blockBase pos) := by
  cases h with
  | @looping fuel l hreached hfuel =>
      rw [request_writerLoop call.heap ino hfuel] at hrequest
      by_cases hsize : l.size = 0
      · rw [if_pos hsize] at hrequest
        rcases hrequest with hrequest | hrequest
        · cases hrequest
        · cases hrequest
      · rw [if_neg hsize] at hrequest
        obtain ⟨hlow, hhigh, hbase⟩ := hreached.dbkOffset_eq hsize
        rcases hrequest with hrequest | hrequest
        · cases hrequest
          exact ⟨_, hlow, hhigh, by rw [hbase]⟩
        · cases hrequest
  | @putting fuel l hreached hsize hfuel =>
      rw [request_writerPut] at hrequest
      obtain ⟨hlow, hhigh, hbase⟩ := hreached.dbkOffset_eq hsize
      rcases hrequest with hrequest | hrequest
      · cases hrequest
      · cases hrequest
        exact ⟨_, hlow, hhigh, by rw [hbase]⟩
  | failed =>
      rcases hrequest with hrequest | hrequest
      · cases hrequest
      · cases hrequest

omit [DecidableEq ι] in
theorem WritersInv.unshared (hinv : WritersInv ino calls s)
    (hblocks : ∀ i j, i ≠ j → BlocksApart (calls i) (calls j)) (i : ι) : Unshared s i := by
  intro key hi j hji hj
  obtain ⟨pos, hlow, hhigh, rfl⟩ := (hinv.writing i).request_eq (.inl hi)
  obtain ⟨pos', hlow', hhigh', heq⟩ := (hinv.writing j).request_eq (.inr hj)
  simp only [Key.block.injEq, true_and] at heq
  exact hblocks i j (Ne.symm hji) pos pos' hlow hhigh hlow' hhigh' heq

theorem BlocksApart.apart (h : BlocksApart call call') : Apart call call' :=
  fun pos hpos => h pos pos hpos.1.1 hpos.1.2 hpos.2.1 hpos.2.2 rfl

/-- Writers that share no block never meet another's block, so they land in every order. -/
theorem blocksApart_writes_land (ino : UInt64) {db : Db} {schedule : List ι}
    (hwf : BlocksWF db) (hfits : ∀ i, (calls i).Fits)
    (hblocks : ∀ i j, i ≠ j → BlocksApart (calls i) (calls j))
    (h : Run Pool.Step (startWriters ino calls db) schedule s) {count : UInt64}
    {out : List UInt8} (hret : s.threads i = .ret (0, count, out)) {pos : Nat}
    (hlow : (calls i).offset.toNat ≤ pos) (hhigh : pos < (calls i).stop) :
    content s.db ino pos = (calls i).buf[pos - (calls i).offset.toNat]? := by
  have hinv : WritersInv ino calls s := by
    apply h.invariant (writersInv_start ino hwf hfits)
    intro s i s' hinv hstep
    exact hinv.step (fun i j hij => (hblocks i j hij).apart) (hinv.unshared hblocks i) hstep
  exact hinv.landed hret hlow hhigh

/-- Writers of disjoint ranges whose fetches meet no other thread that is about to store the
block: every one that returned without an error has all its bytes in the file. -/
theorem concurrent_writes_land (ino : UInt64) (calls : ι → WriteCall) (db : Db)
    (schedule : List ι) (s : Pool ι Rec Moved) (hwf : BlocksWF db)
    (hfits : ∀ i, (calls i).Fits) (hapart : ∀ i j, i ≠ j → Apart (calls i) (calls j))
    (h : Run (fun s i s' => Unshared s i ∧ Pool.Step s i s')
      (startWriters ino calls db) schedule s) :
    ∀ i count out, s.threads i = .ret (0, count, out) →
      ∀ pos, (calls i).offset.toNat ≤ pos → pos < (calls i).stop →
        content s.db ino pos = (calls i).buf[pos - (calls i).offset.toNat]? := by
  have hinv : WritersInv ino calls s := by
    apply h.invariant (writersInv_start ino hwf hfits)
    rintro s i s' hinv ⟨hunshared, hstep⟩
    exact hinv.step hapart hunshared hstep
  intro i count out hret pos hlow hhigh
  exact hinv.landed hret hlow hhigh

end Writers

/-! ## Two writers of one byte each -/

theorem call_fetch (hwf : BlocksWF db) (hinv : RwInv l) (hsize : l.size ≠ 0) :
    Prog.Call (writerLoop heap ino (fuel + 1) l) db none
      (writerPut heap ino fuel l (blockBefore heap db ino l)) db := by
  rw [writerLoop_eq_get _ _ _ hsize, ← writerFetched_fetch hwf hinv]
  exact .get

theorem call_store (block : List UInt8) :
    Prog.Call (writerPut heap ino fuel l block) db none
      (writerLoop heap ino fuel { l.next with
        data := overwrite block l.offinblk.toNat (l.buf.take l.sizeinblk.toNat), error := 0 })
      (db.insert (.block ino l.dbkOffset)
        (overwrite block l.offinblk.toNat (l.buf.take l.sizeinblk.toNat))) := by
  rw [writerPut_eq_put]
  exact .put

def byteCalls (second : Bool) : WriteCall :=
  if second then ⟨plainHeap, [2], 1⟩ else ⟨plainHeap, [1], 0⟩

def byteStart (second : Bool) : RwLocals :=
  rwStart (byteCalls second).buf (byteCalls second).size (byteCalls second).offset

/-- A writer of one of the bytes that has `block` as the contents of its block. -/
def bytePut (second : Bool) (block : List UInt8) : DbProg Moved :=
  writerPut plainHeap 2 0 (byteStart second) block

def byteDone (second : Bool) : DbProg Moved := .ret (0, 1, (byteCalls second).buf)

def withByte (second : Bool) (block : List UInt8) : List UInt8 :=
  overwrite block (byteCalls second).offset.toNat (byteCalls second).buf

def bytePool (first second : DbProg Moved) (db : Db) : Pool Bool Rec Moved where
  threads := fun i => if i then second else first
  db := db

theorem fits_byteCalls (second : Bool) : (byteCalls second).Fits := by
  cases second <;> decide

theorem apart_byteCalls (i j : Bool) (h : i ≠ j) : Apart (byteCalls i) (byteCalls j) := by
  intro pos
  cases i <;> cases j
  · exact absurd rfl h
  · change ¬ ((0 ≤ pos ∧ pos < 0 + 1) ∧ 1 ≤ pos ∧ pos < 1 + 1)
    omega
  · change ¬ ((1 ≤ pos ∧ pos < 1 + 1) ∧ 0 ≤ pos ∧ pos < 0 + 1)
    omega
  · exact absurd rfl h

theorem rwInv_byteStart (second : Bool) : RwInv (byteStart second) := by
  have hfits := fits_byteCalls second
  have hsize := WriteCall.toNat_size hfits
  exact rwInv_rwStart (by rw [hsize]; exact hfits) (by rw [hsize])

theorem call_byte_fetch {block : List UInt8} (second : Bool) (hwf : BlocksWF db)
    (h : db.lookup (.block 2 0) = some block) :
    Prog.Call (writer 2 (byteCalls second)) db none (bytePut second block) db := by
  have hsize : (byteStart second).size ≠ 0 := by cases second <;> decide
  have hkey : (byteStart second).dbkOffset = 0 := by cases second <;> decide
  have hcall : Prog.Call (writerLoop plainHeap 2 1 (byteStart second)) db none
      (writerPut plainHeap 2 0 (byteStart second)
        (blockBefore plainHeap db 2 (byteStart second))) db :=
    call_fetch hwf (rwInv_byteStart second) hsize
  rw [blockBefore_of_some (by rw [hkey]; exact h)] at hcall
  cases second <;> exact hcall

theorem call_byte_store (second : Bool) (block : List UInt8) :
    Prog.Call (bytePut second block) db none (byteDone second)
      (db.insert (.block 2 0) (withByte second block)) := by
  cases second <;> exact call_store block

theorem bytePool_eq (x y : DbProg Moved) (db : Db) (threads : Bool → DbProg Moved)
    (hfirst : threads false = x) (hsecond : threads true = y) :
    bytePool x y db = ⟨threads, db⟩ := by
  unfold bytePool
  congr 1
  funext i
  cases i
  · exact hfirst.symm
  · exact hsecond.symm

theorem step_bytePool_first {x x' y : DbProg Moved} (h : Prog.Call x db none x' db') :
    Pool.Step (bytePool x y db) false (bytePool x' y db') := by
  rw [bytePool_eq x' y db' (Function.update (bytePool x y db).threads false x') rfl rfl]
  exact .call h

theorem step_bytePool_second {x y y' : DbProg Moved} (h : Prog.Call y db none y' db') :
    Pool.Step (bytePool x y db) true (bytePool x y' db') := by
  rw [bytePool_eq x y' db' (Function.update (bytePool x y db).threads true y') rfl rfl]
  exact .call h

theorem startWriters_byteCalls (db : Db) : startWriters 2 byteCalls db =
    bytePool (writer 2 (byteCalls false)) (writer 2 (byteCalls true)) db :=
  (bytePool_eq _ _ db _ rfl rfl).symm

theorem lookup_filledDb_block :
    filledDb.lookup (.block 2 0) = some (List.replicate 4096 (7 : UInt8)) :=
  Finmap.lookup_insert _

theorem length_withByte (second : Bool) {block : List UInt8} (h : block.length = 4096) :
    (withByte second block).length = 4096 := by
  cases second <;> exact (length_overwrite (by rw [h]; decide)).trans h

theorem request_writer_byteCalls (second : Bool) :
    (writer 2 (byteCalls second)).request = some (.get (.block 2 0)) := by
  cases second <;> rfl

/-- The writers one after the other. -/
theorem concurrent_writes_land_in_turn : ∃ schedule s,
    Run (fun s i s' => Unshared s i ∧ Pool.Step s i s') (startWriters 2 byteCalls filledDb)
      schedule s ∧ content s.db 2 0 = some 1 ∧ content s.db 2 1 = some 2 := by
  have hwf : BlocksWF (filledDb.insert (.block 2 0)
      (withByte false (List.replicate 4096 (7 : UInt8)))) :=
    blocksWF_filledDb.insert_block (by decide) (length_withByte false List.length_replicate)
  have hfirst := call_byte_fetch false blocksWF_filledDb lookup_filledDb_block
  have hsecond := call_byte_fetch true hwf (Finmap.lookup_insert _)
  have hrun : ∃ schedule db, Run (fun s i s' => Unshared s i ∧ Pool.Step s i s')
      (startWriters 2 byteCalls filledDb) schedule
      (bytePool (byteDone false) (byteDone true) db) := by
    rw [startWriters_byteCalls]
    refine ⟨_, _, .cons ⟨?_, step_bytePool_first hfirst⟩ (.cons
      ⟨?_, step_bytePool_first (call_byte_store false _)⟩ (.cons
        ⟨?_, step_bytePool_second hsecond⟩ (.cons
          ⟨?_, step_bytePool_second (call_byte_store true _)⟩ .nil)))⟩
    · intro key _ j hj
      cases j
      · exact absurd rfl hj
      · change (writer 2 (byteCalls true)).request ≠ _
        rw [request_writer_byteCalls]
        simp
    · intro key hkey
      change (bytePut false _).request = _ at hkey
      rw [bytePut, request_writerPut] at hkey
      cases hkey
    · intro key _ j hj
      cases j
      · intro hput
        cases hput
      · exact absurd rfl hj
    · intro key hkey
      change (bytePut true _).request = _ at hkey
      rw [bytePut, request_writerPut] at hkey
      cases hkey
  obtain ⟨schedule, db, hrun⟩ := hrun
  have hland := concurrent_writes_land 2 byteCalls filledDb schedule _ blocksWF_filledDb
    fits_byteCalls apart_byteCalls hrun
  exact ⟨schedule, _, hrun,
    hland false 1 [1] rfl 0 (Nat.le_refl 0) (Nat.lt_succ_self 0),
    hland true 1 [2] rfl 1 (Nat.le_refl 1) (Nat.lt_succ_self 1)⟩

theorem content_withByte_second (db : Db) :
    content (db.insert (.block 2 0) (withByte true (List.replicate 4096 (7 : UInt8)))) 2 0 =
      some 7 := by
  have haligned : (0 : UInt64).toNat % 4096 = 0 := by decide
  have hfits : 1 + 1 ≤ (List.replicate 4096 (7 : UInt8)).length := by
    rw [List.length_replicate]
    decide
  have hblock := content_block (db.insert (.block 2 0)
    (withByte true (List.replicate 4096 (7 : UInt8)))) 2 haligned (show 0 < 4096 by decide)
  rw [Finmap.lookup_insert, Option.bind_some] at hblock
  refine hblock.trans ?_
  change (overwrite (List.replicate 4096 (7 : UInt8)) 1 [2])[0]? = some 7
  rw [getElem?_overwrite hfits, if_neg (by decide), List.getElem?_replicate,
    if_pos (by decide)]

/-- Both writers fetch the block before either stores it. -/
theorem concurrent_write_lost :
    ¬ ∀ (ino : UInt64) (calls : Bool → WriteCall) (db : Db) (schedule : List Bool)
        (s : Pool Bool Rec Moved), BlocksWF db → (∀ i, (calls i).Fits) →
      (∀ i j, i ≠ j → Apart (calls i) (calls j)) →
      Run Pool.Step (startWriters ino calls db) schedule s →
      (∀ i, ∃ count out, s.threads i = .ret (0, count, out)) →
      ∀ i pos, (calls i).offset.toNat ≤ pos → pos < (calls i).stop →
        content s.db ino pos = (calls i).buf[pos - (calls i).offset.toNat]? := by
  intro hlaw
  have hfirst := call_byte_fetch false blocksWF_filledDb lookup_filledDb_block
  have hsecond := call_byte_fetch true blocksWF_filledDb lookup_filledDb_block
  have hrun := Run.cons (step_bytePool_first hfirst) (.cons (step_bytePool_second hsecond)
    (.cons (step_bytePool_first (call_byte_store false _))
      (.single (step_bytePool_second (call_byte_store true _)))))
  rw [← startWriters_byteCalls] at hrun
  have hbyte := hlaw 2 byteCalls filledDb _ _ blocksWF_filledDb fits_byteCalls
    apart_byteCalls hrun (fun i => by cases i <;> exact ⟨_, _, rfl⟩) false 0
    (Nat.le_refl 0) (Nat.lt_succ_self 0)
  have hold := (content_withByte_second _).symm.trans hbyte
  exact absurd hold (by decide)

end Mangoo.Dbfs
