import Mangoo.Foundation.Program

/-!
# Frames

Which records a program can touch, read off its syntax: `Changes K` when it
stores and removes under keys of `K` only, `Reads K` when it does neither and
fetches under keys of `K` only.  The records outside stay as they were, and a
reading program returns the same on every store that agrees on `K`.
-/

namespace Mangoo.Foundation

namespace Prog

variable {κ : Type} {β : κ → Type} {α γ : Type} {K : κ → Prop}

def Changes (K : κ → Prop) : Prog β α → Prop
  | .ret _ => True
  | .spin => True
  | .cursor cont => ∀ e, (cont e).Changes K
  | .get _ cont => ∀ r, (cont r).Changes K
  | .next _ cont => ∀ r, (cont r).Changes K
  | .put k _ _ cont => K k ∧ ∀ e, (cont e).Changes K
  | .del k cont => K k ∧ ∀ e, (cont e).Changes K

def Reads (K : κ → Prop) : Prog β α → Prop
  | .ret _ => True
  | .spin => True
  | .cursor cont => ∀ e, (cont e).Reads K
  | .get k cont => K k ∧ ∀ r, (cont r).Reads K
  | .next _ _ => False
  | .put _ _ _ _ => False
  | .del _ _ => False

/-- Every value the program can return, whatever its calls return, satisfies `P`. -/
def Yields (P : α → Prop) : Prog β α → Prop
  | .ret a => P a
  | .spin => True
  | .cursor cont => ∀ e, (cont e).Yields P
  | .get _ cont => ∀ r, (cont r).Yields P
  | .next _ cont => ∀ r, (cont r).Yields P
  | .put _ _ _ cont => ∀ e, (cont e).Yields P
  | .del _ cont => ∀ e, (cont e).Yields P

/-- Whatever its calls return, the program ends with a value that satisfies `P`. -/
def Returns (P : α → Prop) : Prog β α → Prop
  | .ret a => P a
  | .spin => False
  | .cursor cont => ∀ e, (cont e).Returns P
  | .get _ cont => ∀ r, (cont r).Returns P
  | .next _ cont => ∀ r, (cont r).Returns P
  | .put _ _ _ cont => ∀ e, (cont e).Returns P
  | .del _ cont => ∀ e, (cont e).Returns P

/-! ## Composition -/

theorem changes_pure (a : α) : (pure a : Prog β α).Changes K := trivial

theorem changes_spin : (spin : Prog β α).Changes K := trivial

theorem changes_openCursor : (openCursor : Prog β Int).Changes K := fun _ => trivial

theorem changes_getRec (k : κ) : (getRec k : Prog β _).Changes K := fun _ => trivial

theorem changes_putRec {k : κ} (v : β k) (noOverwrite : Bool) (h : K k) :
    (putRec k v noOverwrite).Changes K := ⟨h, fun _ => trivial⟩

theorem Changes.bind {x : Prog β α} {f : α → Prog β γ} (hx : x.Changes K)
    (hf : ∀ a, (f a).Changes K) : (x >>= f).Changes K := by
  change (x.bind f).Changes K
  induction x with
  | ret a => exact hf a
  | spin => trivial
  | cursor cont ih => exact fun e => ih e (hx e)
  | get k cont ih => exact fun r => ih r (hx r)
  | next k cont ih => exact fun r => ih r (hx r)
  | put k v noOverwrite cont ih => exact ⟨hx.1, fun e => ih e (hx.2 e)⟩
  | del k cont ih => exact ⟨hx.1, fun e => ih e (hx.2 e)⟩

theorem reads_pure (a : α) : (pure a : Prog β α).Reads K := trivial

theorem reads_spin : (spin : Prog β α).Reads K := trivial

theorem reads_getRec {k : κ} (h : K k) : (getRec k : Prog β _).Reads K :=
  ⟨h, fun _ => trivial⟩

theorem yields_true (x : Prog β α) : x.Yields fun _ => True := by
  induction x with
  | ret a => trivial
  | spin => trivial
  | cursor cont ih => exact ih
  | get k cont ih => exact ih
  | next k cont ih => exact ih
  | put k v noOverwrite cont ih => exact ih
  | del k cont ih => exact ih

theorem returns_pure {P : α → Prop} {a : α} (h : P a) : (pure a : Prog β α).Returns P := h

theorem returns_getRec (k : κ) : (getRec k : Prog β _).Returns fun _ => True :=
  fun _ => trivial

theorem returns_putRec (k : κ) (v : β k) (noOverwrite : Bool) :
    (putRec k v noOverwrite).Returns fun _ => True := fun _ => trivial

theorem Returns.bind {P : α → Prop} {Q : γ → Prop} {x : Prog β α} {f : α → Prog β γ}
    (hx : x.Returns P) (hf : ∀ a, P a → (f a).Returns Q) : (x >>= f).Returns Q := by
  change (x.bind f).Returns Q
  induction x with
  | ret a => exact hf a hx
  | spin => exact hx.elim
  | cursor cont ih => exact fun e => ih e (hx e)
  | get k cont ih => exact fun r => ih r (hx r)
  | next k cont ih => exact fun r => ih r (hx r)
  | put k v noOverwrite cont ih => exact fun e => ih e (hx e)
  | del k cont ih => exact fun e => ih e (hx e)

theorem Returns.yields {P : α → Prop} {x : Prog β α} (hx : x.Returns P) : x.Yields P := by
  induction x with
  | ret a => exact hx
  | spin => trivial
  | cursor cont ih => exact fun e => ih e (hx e)
  | get k cont ih => exact fun r => ih r (hx r)
  | next k cont ih => exact fun r => ih r (hx r)
  | put k v noOverwrite cont ih => exact fun e => ih e (hx e)
  | del k cont ih => exact fun e => ih e (hx e)

theorem Reads.bind_yields {P : α → Prop} {x : Prog β α} {f : α → Prog β γ}
    (hx : x.Reads K) (hP : x.Yields P) (hf : ∀ a, P a → (f a).Reads K) :
    (x >>= f).Reads K := by
  change (x.bind f).Reads K
  induction x with
  | ret a => exact hf a hP
  | spin => trivial
  | cursor cont ih => exact fun e => ih e (hx e) (hP e)
  | get k cont ih => exact ⟨hx.1, fun r => ih r (hx.2 r) (hP r)⟩
  | next k cont => exact hx.elim
  | put k v noOverwrite cont => exact hx.elim
  | del k cont => exact hx.elim

theorem Reads.bind {x : Prog β α} {f : α → Prog β γ} (hx : x.Reads K)
    (hf : ∀ a, (f a).Reads K) : (x >>= f).Reads K :=
  hx.bind_yields (yields_true x) fun a _ => hf a

theorem Reads.changes (K' : κ → Prop) {x : Prog β α} (hx : x.Reads K) : x.Changes K' := by
  induction x with
  | ret a => trivial
  | spin => trivial
  | cursor cont ih => exact fun e => ih e (hx e)
  | get k cont ih => exact fun r => ih r (hx.2 r)
  | next k cont => exact hx.elim
  | put k v noOverwrite cont => exact hx.elim
  | del k cont => exact hx.elim

/-! ## Frame rules -/

variable [LinearOrder κ] {faulty : Prop} {db db' : Finmap β}

theorem store_lookup_of_ne {k j : κ} (v : β k) (noOverwrite : Bool) (h : j ≠ k) :
    (store db k v noOverwrite).2.lookup j = db.lookup j := by
  unfold store
  split
  · rfl
  · exact Finmap.lookup_insert_of_ne _ h

theorem remove_lookup_of_ne {k j : κ} (h : j ≠ k) :
    (remove db k).2.lookup j = db.lookup j := by
  unfold remove
  split
  · exact Finmap.lookup_erase_ne h
  · rfl

theorem Returns.run {P : α → Prop} {x : Prog β α} (hx : x.Returns P) (db : Finmap β) :
    ∃ a db', x.run db = some (a, db') ∧ P a := by
  induction x generalizing db with
  | ret a => exact ⟨a, db, rfl, hx⟩
  | spin => exact hx.elim
  | cursor cont ih => exact ih _ (hx _) _
  | get k cont ih => exact ih _ (hx _) _
  | next k cont ih => exact ih _ (hx _) _
  | put k v noOverwrite cont ih => exact ih _ (hx _) _
  | del k cont ih => exact ih _ (hx _) _

theorem Exec.frame {x : Prog β α} {a : α} (h : Exec faulty x db a db')
    (hx : x.Changes K) {j : κ} (hj : ¬ K j) : db'.lookup j = db.lookup j := by
  induction h with
  | ret => rfl
  | cursor _ ih => exact ih (hx _)
  | get _ ih => exact ih (hx _)
  | next _ ih => exact ih (hx _)
  | put _ ih =>
      rw [ih (hx.2 _)]
      exact store_lookup_of_ne _ _ fun heq => hj (heq ▸ hx.1)
  | del _ ih =>
      rw [ih (hx.2 _)]
      exact remove_lookup_of_ne fun heq => hj (heq ▸ hx.1)
  | cursorFault _ _ _ ih => exact ih (hx _)
  | getFault _ _ _ ih => exact ih (hx _)
  | nextFault _ _ _ ih => exact ih (hx _)
  | putFault _ _ _ ih => exact ih (hx.2 _)
  | delFault _ _ _ ih => exact ih (hx.2 _)

theorem Exec.unchanged {x : Prog β α} {a : α} (h : Exec faulty x db a db')
    (hx : x.Changes fun _ => False) : db' = db :=
  Finmap.ext_lookup fun _ => h.frame hx not_false

theorem Exec.reads {x : Prog β α} {a : α} (h : Exec faulty x db a db')
    (hx : x.Reads K) : db' = db :=
  Finmap.ext_lookup fun _ => h.frame (hx.changes fun _ => False) not_false

theorem Reads.run_congr {x : Prog β α} (hx : x.Reads K)
    (h : ∀ k, K k → db'.lookup k = db.lookup k) :
    x.run db' = (x.run db).map fun result => (result.1, db') := by
  induction x with
  | ret a => rfl
  | spin => rfl
  | cursor cont ih => exact ih 0 (hx 0)
  | get k cont ih =>
      have hfetch : fetch db' k = fetch db k := by
        rw [fetch, fetch, h k hx.1]
      simp only [run, hfetch]
      exact ih _ (hx.2 _)
  | next k cont => exact hx.elim
  | put k v noOverwrite cont => exact hx.elim
  | del k cont => exact hx.elim

end Prog

end Mangoo.Foundation
