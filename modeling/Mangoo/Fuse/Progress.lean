import Mangoo.Dbfs.CallBounds
import Mangoo.Fuse.Workers

/-!
# Workers are not held up

A worker is done after a number of calls of its own that its requests alone determine, whatever
the other workers do to the database and whichever calls fail.
-/

namespace Mangoo.Fuse

open Mangoo.Foundation Mangoo.Dbfs

/-- The calls to the database that serving the request makes at most.  Removals and listings have
no bound of this kind. -/
def FuseOp.callBound : FuseOp → Option Nat
  | .mfMkdir _ _ _ => some 1
  | .mfCreate _ _ _ _ _ => some 2
  | .mfOpen _ _ => some 1
  | .mfRead _ buf offset => some (touchedBlocks (offset.toNat % 4096) buf.length)
  | .mfWrite _ buf offset => some (1 + 2 * touchedBlocks (offset.toNat % 4096) buf.length)
  | .mfRelease _ => some 0
  | .mfGetattr _ _ => some 1
  | .mfChmod _ _ => some 2
  | .mfChown _ _ _ => some 2
  | .mfUtime _ _ => some 3
  | .mfTruncate _ _ => some 2
  | .mfRemove _ => none
  | .listDirectory _ => none

theorem within_mfOpen (heap : Heap) (path : CStr) :
    (mfOpen heap path).Within (fun _ => True) 1 := by
  apply (within_dbfsOpen_stream heap path).bind_ret
  rintro ⟨error, handle⟩ _
  cases handle with
  | none => exact Prog.within_pure trivial
  | some dh => exact Prog.within_pure trivial

theorem within_mfCreate (heap openHeap : Heap) (proc : Proc) (dsp : DbfsStore) (path : CStr)
    (mode : UInt32) : (mfCreate heap openHeap proc dsp path mode).Within (fun _ => True) 2 := by
  apply (within_dbfsCreate heap proc dsp path mode .data).bind (n := 1)
  rintro ⟨error, dsp⟩ _
  dsimp only
  split_ifs
  · exact Prog.within_pure trivial
  · apply (within_dbfsOpen_stream openHeap path).bind_ret
    rintro ⟨error, handle⟩ _
    cases handle with
    | none => exact Prog.within_pure trivial
    | some dh => exact Prog.within_pure trivial

theorem within_mfMkdir (heap : Heap) (proc : Proc) (dsp : DbfsStore) (path : CStr)
    (mode : UInt32) : (mfMkdir heap proc dsp path mode).Within (fun _ => True) 1 := by
  apply (within_dbfsCreate heap proc dsp path mode .container).bind_ret
  rintro ⟨error, dsp⟩ _
  dsimp only
  split_ifs
  · exact Prog.within_pure trivial
  · exact Prog.within_pure trivial

theorem toNat_ofNat_length_le (buf : List UInt8) :
    (UInt64.ofNat buf.length).toNat ≤ buf.length := by
  rw [UInt64.toNat_ofNat']
  exact Nat.mod_le _ _

theorem within_mfRead {heap : Heap} (henv : heap.envOpens = true) (fh : Option DbfsHandle)
    (buf : List UInt8) (offset : UInt64) :
    (mfRead heap fh buf (UInt64.ofNat buf.length) offset).Within (fun _ => True)
      (touchedBlocks (offset.toNat % 4096) buf.length) := by
  unfold mfRead
  rw [envOpen_of_opens henv, pure_bind]
  cases fh with
  | none => exact Prog.within_pure trivial
  | some dh =>
      have hread := (within_dbfsRead heap dh buf (UInt64.ofNat buf.length) offset).mono
        (touchedBlocks_mono (toNat_ofNat_length_le buf))
      apply hread.bind_ret
      rintro ⟨error, size, buf⟩ _
      dsimp only
      split_ifs
      · exact Prog.within_pure trivial
      · exact Prog.within_pure trivial

theorem within_mfWrite {heap : Heap} (henv : heap.envOpens = true) (fh : Option DbfsHandle)
    (buf : List UInt8) (offset : UInt64) :
    (mfWrite heap fh buf (UInt64.ofNat buf.length) offset).Within (fun _ => True)
      (1 + 2 * touchedBlocks (offset.toNat % 4096) buf.length) := by
  unfold mfWrite
  rw [envOpen_of_opens henv, pure_bind]
  cases fh with
  | none => exact Prog.within_pure trivial
  | some dh =>
      have hspan : touchedBlocks (offset.toNat % 4096) (UInt64.ofNat buf.length).toNat ≤
          touchedBlocks (offset.toNat % 4096) buf.length :=
        touchedBlocks_mono (toNat_ofNat_length_le buf)
      have hwrite := (within_dbfsWrite heap dh buf (UInt64.ofNat buf.length) offset).mono
        (Nat.add_le_add_left (Nat.mul_le_mul_left 2 hspan) 1)
      apply hwrite.bind_ret
      rintro ⟨error, size, dh⟩ _
      dsimp only
      split_ifs
      · exact Prog.within_pure trivial
      · exact Prog.within_pure trivial

theorem within_mfRelease (fh : Option DbfsHandle) :
    (mfRelease fh).Within (fun _ => True) 0 := by
  cases fh with
  | none => exact Prog.within_pure trivial
  | some dh => exact Prog.within_pure trivial

/-! ## Requests for paths -/

theorem within_mangooOpen (heap : Heap) (fuel : Nat) (path : CStr) :
    ((dbfsCalls heap fuel).mangooOpen path .attr).Within (fun _ => True) 1 := by
  apply (within_dbfsOpen_attr heap path).bind_ret
  rintro ⟨error, handle⟩ _
  cases handle with
  | none => exact Prog.within_pure trivial
  | some dh => exact Prog.within_pure trivial

theorem within_open_then {α : Type} {n : Nat} {next : Except Int DbfsHandle → DbProg α}
    (heap : Heap) (fuel : Nat) (path : CStr)
    (herror : ∀ error, (next (.error error)).Within (fun _ => True) n)
    (hok : ∀ dh, (next (.ok dh)).Within (fun _ => True) n) :
    ((dbfsCalls heap fuel).mangooOpen path .attr >>= next).Within (fun _ => True) (n + 1) := by
  apply (within_mangooOpen heap fuel path).bind
  intro result _
  cases result with
  | error error => exact herror error
  | ok dh => exact hok dh

theorem within_mfGetattr (heap : Heap) (fuel : Nat) (path : CStr) (stbuf : Stat) :
    (mfGetattr (dbfsCalls heap fuel) path stbuf).Within (fun _ => True) 1 := by
  have hswitch : ∀ (dh : DbfsHandle) (stbuf : Stat) (type : UInt32),
      (getattrSwitch (dbfsCalls heap fuel) dh stbuf type).Within (fun _ => True) 0 := by
    intro dh stbuf type
    unfold getattrSwitch
    split
    · exact Prog.within_pure trivial
    · exact Prog.within_pure trivial
    · exact Prog.within_pure trivial
  apply within_open_then heap fuel path
  · exact fun error => Prog.within_pure trivial
  · exact fun dh => hswitch dh _ _

theorem within_mfChmod (heap : Heap) (fuel : Nat) (path : CStr) (mode : UInt32) :
    (mfChmod (dbfsCalls heap fuel) path mode).Within (fun _ => True) 2 := by
  apply within_open_then heap fuel path
  · exact fun error => Prog.within_pure trivial
  · intro dh
    have hset : (dbfsChmod dh mode).Within (fun _ => True) 1 := within_setAttr dh _
    apply hset.bind_ret
    rintro ⟨error, dh⟩ _
    dsimp only
    split_ifs
    · exact Prog.within_pure trivial
    · exact Prog.within_pure trivial

theorem within_mfChown (heap : Heap) (fuel : Nat) (path : CStr) (newuid newgid : UInt32) :
    (mfChown (dbfsCalls heap fuel) path newuid newgid).Within (fun _ => True) 2 := by
  apply within_open_then heap fuel path
  · exact fun error => Prog.within_pure trivial
  · intro dh
    have hset : (dbfsChown dh newuid newgid).Within (fun _ => True) 1 := within_setAttr dh _
    apply hset.bind_ret
    rintro ⟨error, dh⟩ _
    dsimp only
    split_ifs
    · exact Prog.within_pure trivial
    · exact Prog.within_pure trivial

theorem within_mfUtime (heap : Heap) (fuel : Nat) (path : CStr) (utb : Utimbuf) :
    (mfUtime (dbfsCalls heap fuel) path utb).Within (fun _ => True) 3 := by
  apply within_open_then heap fuel path
  · exact fun error => Prog.within_pure trivial
  · intro dh
    have hmtime : (dbfsSetmtime dh utb.modtime.toUInt64).Within (fun _ => True) 1 :=
      within_setAttr dh _
    apply hmtime.bind (n := 1)
    rintro ⟨error, dh⟩ _
    dsimp only
    split_ifs
    · exact Prog.within_pure trivial
    · have hatime : (dbfsSetatime dh utb.actime.toUInt64).Within (fun _ => True) 1 :=
        within_setAttr dh _
      apply hatime.bind_ret
      rintro ⟨error, dh⟩ _
      dsimp only
      split_ifs
      · exact Prog.within_pure trivial
      · exact Prog.within_pure trivial

theorem within_mfTruncate (heap : Heap) (fuel : Nat) (path : CStr) (offset : Int64) :
    (mfTruncate (dbfsCalls heap fuel) path offset).Within (fun _ => True) 2 := by
  apply within_open_then heap fuel path
  · exact fun error => Prog.within_pure trivial
  · intro dh
    have hset : (dbfsSetsize fuel dh offset.toUInt64).Within (fun _ => True) 1 := by
      rw [dbfsSetsize_eq]
      exact within_setAttr dh _
    exact hset.bind_ret fun _ _ => Prog.within_pure trivial

/-! ## Workers -/

variable {n : Nat}

theorem within_serve (call : FuseCall) (dsp : DbfsStore) (files : OpenFiles)
    (henv : call.heap.envOpens = true) (hop : call.op.callBound = some n) :
    (call.serve dsp files).Within (fun _ => True) n := by
  obtain ⟨heap, fuel, op⟩ := call
  cases op with
  | mfRemove | listDirectory => cases hop
  | mfMkdir proc path mode =>
      cases hop
      exact (within_mfMkdir heap proc dsp path mode).bind_ret fun _ _ => Prog.within_pure trivial
  | mfCreate openHeap proc path mode fi =>
      cases hop
      exact (within_mfCreate heap openHeap proc dsp path mode).bind_ret
        fun _ _ => Prog.within_pure trivial
  | mfOpen path fi =>
      cases hop
      exact (within_mfOpen heap path).bind_ret fun _ _ => Prog.within_pure trivial
  | mfRead fi buf offset =>
      cases hop
      exact (within_mfRead henv (files fi) buf offset).bind_ret fun _ _ => Prog.within_pure trivial
  | mfWrite fi buf offset =>
      cases hop
      exact (within_mfWrite henv (files fi) buf offset).bind_ret
        fun _ _ => Prog.within_pure trivial
  | mfRelease fi =>
      cases hop
      exact (within_mfRelease (files fi)).bind_ret fun _ _ => Prog.within_pure trivial
  | mfGetattr path stbuf =>
      cases hop
      exact (within_mfGetattr heap fuel path stbuf).bind_ret fun _ _ => Prog.within_pure trivial
  | mfChmod path mode =>
      cases hop
      exact (within_mfChmod heap fuel path mode).bind_ret fun _ _ => Prog.within_pure trivial
  | mfChown path newuid newgid =>
      cases hop
      exact (within_mfChown heap fuel path newuid newgid).bind_ret
        fun _ _ => Prog.within_pure trivial
  | mfUtime path utb =>
      cases hop
      exact (within_mfUtime heap fuel path utb).bind_ret fun _ _ => Prog.within_pure trivial
  | mfTruncate path offset =>
      cases hop
      exact (within_mfTruncate heap fuel path offset).bind_ret fun _ _ => Prog.within_pure trivial

/-- The calls that serving all requests makes at most. -/
def callBound (requests : List FuseCall) : Option Nat :=
  match requests with
  | [] => some 0
  | call :: requests => do
      let n ← call.op.callBound
      let rest ← callBound requests
      return rest + n

theorem within_serveAll (requests : List FuseCall) (dsp : DbfsStore) (files : OpenFiles)
    (henv : ∀ call ∈ requests, call.heap.envOpens = true)
    (hbound : callBound requests = some n) :
    (serveAll dsp requests files).Within (fun _ => True) n := by
  induction requests generalizing n dsp files with
  | nil => exact Prog.within_pure trivial
  | cons call requests ih =>
      obtain ⟨first, hfirst, hbound⟩ := Option.bind_eq_some_iff.mp hbound
      obtain ⟨rest, hrest, hbound⟩ := Option.bind_eq_some_iff.mp hbound
      cases hbound
      obtain ⟨hcall, henv⟩ := List.forall_mem_cons.mp henv
      apply (within_serve call dsp files hcall hfirst).bind
      intro r _
      apply (ih r.2.1 r.2.2 henv hrest).bind_ret
      exact fun _ _ => Prog.within_pure trivial

variable {ι : Type} [DecidableEq ι]

end Mangoo.Fuse
