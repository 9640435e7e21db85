import Mangoo.Foundation.OrderedStore

/-!
# Programs over an ordered record store

A program is the tree of the database calls it makes, each followed by what it
does with the result.  One program has several meanings: `run` lets every call
succeed, `Exec` also lets single calls fail and leave the store as it was.
A program that reaches `spin` returns in neither meaning.  It stands for a loop that the
allotted iterations did not end, and for a call that ends the process or has no defined
outcome.
-/

namespace Mangoo.Foundation

inductive Prog {κ : Type} (β : κ → Type) (α : Type) : Type where
  | ret (a : α)
  | spin
  | cursor (cont : Int → Prog β α)
  | get (k : κ) (cont : Except Int (β k) → Prog β α)
  | next (k : κ) (cont : Except Int (Sigma β) → Prog β α)
  | put (k : κ) (v : β k) (noOverwrite : Bool) (cont : Int → Prog β α)
  | del (k : κ) (cont : Int → Prog β α)

namespace Prog

variable {κ : Type} {β : κ → Type} {α γ : Type}

def bind : Prog β α → (α → Prog β γ) → Prog β γ
  | .ret a, f => f a
  | .spin, _ => .spin
  | .cursor cont, f => .cursor fun e => (cont e).bind f
  | .get k cont, f => .get k fun r => (cont r).bind f
  | .next k cont, f => .next k fun r => (cont r).bind f
  | .put k v noOverwrite cont, f => .put k v noOverwrite fun e => (cont e).bind f
  | .del k cont, f => .del k fun e => (cont e).bind f

instance : Monad (Prog β) where
  pure := .ret
  bind := bind

theorem bind_ret (x : Prog β α) : x.bind .ret = x := by
  induction x with
  | ret a => rfl
  | spin => rfl
  | cursor cont ih => exact congrArg _ (funext ih)
  | get k cont ih => exact congrArg _ (funext ih)
  | next k cont ih => exact congrArg _ (funext ih)
  | put k v noOverwrite cont ih => exact congrArg _ (funext ih)
  | del k cont ih => exact congrArg _ (funext ih)

theorem bind_bind {δ : Type} (x : Prog β α) (f : α → Prog β γ) (g : γ → Prog β δ) :
    (x.bind f).bind g = x.bind fun a => (f a).bind g := by
  induction x with
  | ret a => rfl
  | spin => rfl
  | cursor cont ih => exact congrArg _ (funext ih)
  | get k cont ih => exact congrArg _ (funext ih)
  | next k cont ih => exact congrArg _ (funext ih)
  | put k v noOverwrite cont ih => exact congrArg _ (funext ih)
  | del k cont ih => exact congrArg _ (funext ih)

instance : LawfulMonad (Prog β) :=
  LawfulMonad.mk' _ bind_ret (fun _ _ => rfl) bind_bind

def openCursor : Prog β Int := .cursor .ret

def getRec (k : κ) : Prog β (Except Int (β k)) := .get k .ret

def nextRec (k : κ) : Prog β (Except Int (Sigma β)) := .next k .ret

def putRec (k : κ) (v : β k) (noOverwrite : Bool) : Prog β Int :=
  .put k v noOverwrite .ret

def delRec (k : κ) : Prog β Int := .del k .ret

variable [LinearOrder κ]

/-! ## Every call succeeds -/

def run : Prog β α → Finmap β → Option (α × Finmap β)
  | .ret a, db => some (a, db)
  | .spin, _ => none
  | .cursor cont, db => (cont 0).run db
  | .get k cont, db => (cont (fetch db k)).run db
  | .next k cont, db => (cont (advance db k)).run db
  | .put k v noOverwrite cont, db =>
      (cont (store db k v noOverwrite).1).run (store db k v noOverwrite).2
  | .del k cont, db => (cont (remove db k).1).run (remove db k).2

@[simp] theorem run_ret (a : α) (db : Finmap β) :
    (ret a : Prog β α).run db = some (a, db) := rfl

@[simp] theorem run_pure (a : α) (db : Finmap β) :
    (pure a : Prog β α).run db = some (a, db) := rfl

@[simp] theorem run_spin (db : Finmap β) : (spin : Prog β α).run db = none := rfl

@[simp] theorem run_openCursor (db : Finmap β) :
    (openCursor : Prog β Int).run db = some (0, db) := rfl

@[simp] theorem run_getRec (k : κ) (db : Finmap β) :
    (getRec k : Prog β _).run db = some (fetch db k, db) := rfl

@[simp] theorem run_nextRec (k : κ) (db : Finmap β) :
    (nextRec k : Prog β _).run db = some (advance db k, db) := rfl

@[simp] theorem run_putRec (k : κ) (v : β k) (noOverwrite : Bool) (db : Finmap β) :
    (putRec k v noOverwrite).run db = some (store db k v noOverwrite) := rfl

@[simp] theorem run_delRec (k : κ) (db : Finmap β) :
    (delRec k : Prog β Int).run db = some (remove db k) := rfl

@[simp] theorem run_bind (x : Prog β α) (f : α → Prog β γ) (db : Finmap β) :
    (x >>= f).run db = (x.run db).bind fun r => (f r.1).run r.2 := by
  change (x.bind f).run db = _
  induction x generalizing db with
  | ret a => rfl
  | spin => rfl
  | cursor cont ih => exact ih _ _
  | get k cont ih => exact ih _ _
  | next k cont ih => exact ih _ _
  | put k v noOverwrite cont ih => exact ih _ _
  | del k cont ih => exact ih _ _

@[simp] theorem run_map (x : Prog β α) (f : α → γ) (db : Finmap β) :
    (f <$> x).run db = (x.run db).bind fun r => some (f r.1, r.2) := by
  rw [map_eq_pure_bind, run_bind]
  rfl

theorem run_bind_pure {x : Prog β α} {db db' : Finmap β} {a : α}
    (h : x.run db = some (a, db')) (c : γ) :
    (x >>= fun _ => pure c).run db = some (c, db') := by
  simp [h]

/-! ## Calls may fail -/

/-- A failure code: neither success nor the answer that no record matches. -/
def IsFault (e : Int) : Prop := e ≠ 0 ∧ e ≠ dbNotfound

/--
`Exec faulty prog db a db'`: the program can return `a` and leave `db'`.  When
`faulty` holds each call may also fail with any fault code; a failed call leaves
the store unchanged.
-/
inductive Exec (faulty : Prop) :
    Prog β α → Finmap β → α → Finmap β → Prop
  | ret {a db} : Exec faulty (.ret a) db a db
  | cursor {cont db a db'} : Exec faulty (cont 0) db a db' →
      Exec faulty (.cursor cont) db a db'
  | get {k cont db a db'} : Exec faulty (cont (fetch db k)) db a db' →
      Exec faulty (.get k cont) db a db'
  | next {k cont db a db'} : Exec faulty (cont (advance db k)) db a db' →
      Exec faulty (.next k cont) db a db'
  | put {k v noOverwrite cont db a db'} :
      Exec faulty (cont (store db k v noOverwrite).1)
        (store db k v noOverwrite).2 a db' →
      Exec faulty (.put k v noOverwrite cont) db a db'
  | del {k cont db a db'} :
      Exec faulty (cont (remove db k).1) (remove db k).2 a db' →
      Exec faulty (.del k cont) db a db'
  | cursorFault {cont db e a db'} : faulty → IsFault e →
      Exec faulty (cont e) db a db' → Exec faulty (.cursor cont) db a db'
  | getFault {k cont db e a db'} : faulty → IsFault e →
      Exec faulty (cont (.error e)) db a db' → Exec faulty (.get k cont) db a db'
  | nextFault {k cont db e a db'} : faulty → IsFault e →
      Exec faulty (cont (.error e)) db a db' → Exec faulty (.next k cont) db a db'
  | putFault {k v noOverwrite cont db e a db'} : faulty → IsFault e →
      Exec faulty (cont e) db a db' →
      Exec faulty (.put k v noOverwrite cont) db a db'
  | delFault {k cont db e a db'} : faulty → IsFault e →
      Exec faulty (cont e) db a db' → Exec faulty (.del k cont) db a db'

variable {faulty : Prop} {db db' : Finmap β}

@[simp] theorem exec_ret {a b : α} :
    Exec faulty (.ret a : Prog β α) db b db' ↔ b = a ∧ db' = db := by
  constructor
  · rintro ⟨⟩
    exact ⟨rfl, rfl⟩
  · rintro ⟨rfl, rfl⟩
    exact .ret

@[simp] theorem exec_pure {a b : α} :
    Exec faulty (pure a : Prog β α) db b db' ↔ b = a ∧ db' = db := exec_ret

@[simp] theorem exec_spin {b : α} :
    ¬ Exec faulty (.spin : Prog β α) db b db' := by
  rintro ⟨⟩

theorem exec_bind {x : Prog β α} {f : α → Prog β γ} {c : γ} :
    Exec faulty (x >>= f) db c db' ↔
      ∃ a mid, Exec faulty x db a mid ∧ Exec faulty (f a) mid c db' := by
  change Exec faulty (x.bind f) db c db' ↔ _
  constructor
  · intro h
    induction x generalizing db with
    | ret a => exact ⟨a, db, .ret, h⟩
    | spin => cases h
    | cursor cont ih =>
        cases h with
        | cursor h =>
            obtain ⟨a, mid, hx, hf⟩ := ih _ h
            exact ⟨a, mid, .cursor hx, hf⟩
        | cursorFault hf he h =>
            obtain ⟨a, mid, hx, hf'⟩ := ih _ h
            exact ⟨a, mid, .cursorFault hf he hx, hf'⟩
    | get k cont ih =>
        cases h with
        | get h =>
            obtain ⟨a, mid, hx, hf⟩ := ih _ h
            exact ⟨a, mid, .get hx, hf⟩
        | getFault hf he h =>
            obtain ⟨a, mid, hx, hf'⟩ := ih _ h
            exact ⟨a, mid, .getFault hf he hx, hf'⟩
    | next k cont ih =>
        cases h with
        | next h =>
            obtain ⟨a, mid, hx, hf⟩ := ih _ h
            exact ⟨a, mid, .next hx, hf⟩
        | nextFault hf he h =>
            obtain ⟨a, mid, hx, hf'⟩ := ih _ h
            exact ⟨a, mid, .nextFault hf he hx, hf'⟩
    | put k v noOverwrite cont ih =>
        cases h with
        | put h =>
            obtain ⟨a, mid, hx, hf⟩ := ih _ h
            exact ⟨a, mid, .put hx, hf⟩
        | putFault hf he h =>
            obtain ⟨a, mid, hx, hf'⟩ := ih _ h
            exact ⟨a, mid, .putFault hf he hx, hf'⟩
    | del k cont ih =>
        cases h with
        | del h =>
            obtain ⟨a, mid, hx, hf⟩ := ih _ h
            exact ⟨a, mid, .del hx, hf⟩
        | delFault hf he h =>
            obtain ⟨a, mid, hx, hf'⟩ := ih _ h
            exact ⟨a, mid, .delFault hf he hx, hf'⟩
  · rintro ⟨a, mid, hx, hf⟩
    induction hx with
    | ret => exact hf
    | cursor _ ih => exact .cursor (ih hf)
    | get _ ih => exact .get (ih hf)
    | next _ ih => exact .next (ih hf)
    | put _ ih => exact .put (ih hf)
    | del _ ih => exact .del (ih hf)
    | cursorFault hfault he _ ih => exact .cursorFault hfault he (ih hf)
    | getFault hfault he _ ih => exact .getFault hfault he (ih hf)
    | nextFault hfault he _ ih => exact .nextFault hfault he (ih hf)
    | putFault hfault he _ ih => exact .putFault hfault he (ih hf)
    | delFault hfault he _ ih => exact .delFault hfault he (ih hf)

theorem exec_map {x : Prog β α} {f : α → γ} {c : γ} :
    Exec faulty (f <$> x) db c db' ↔ ∃ a, Exec faulty x db a db' ∧ c = f a := by
  rw [map_eq_pure_bind, exec_bind]
  constructor
  · rintro ⟨a, mid, hx, hret⟩
    obtain ⟨rfl, rfl⟩ := exec_pure.mp hret
    exact ⟨a, hx, rfl⟩
  · rintro ⟨a, hx, rfl⟩
    exact ⟨a, db', hx, exec_pure.mpr ⟨rfl, rfl⟩⟩

theorem exec_openCursor {e : Int} :
    Exec faulty (openCursor : Prog β Int) db e db' ↔
      db' = db ∧ (e = 0 ∨ faulty ∧ IsFault e) := by
  constructor
  · intro h
    cases h with
    | cursor h =>
        obtain ⟨rfl, rfl⟩ := exec_ret.mp h
        exact ⟨rfl, .inl rfl⟩
    | cursorFault hf he h =>
        obtain ⟨rfl, rfl⟩ := exec_ret.mp h
        exact ⟨rfl, .inr ⟨hf, he⟩⟩
  · rintro ⟨rfl, rfl | ⟨hf, he⟩⟩
    · exact .cursor .ret
    · exact .cursorFault hf he .ret

theorem exec_getRec {k : κ} {r : Except Int (β k)} :
    Exec faulty (getRec k : Prog β _) db r db' ↔
      db' = db ∧ (r = fetch db k ∨ faulty ∧ ∃ e, IsFault e ∧ r = .error e) := by
  constructor
  · intro h
    cases h with
    | get h =>
        obtain ⟨rfl, rfl⟩ := exec_ret.mp h
        exact ⟨rfl, .inl rfl⟩
    | getFault hf he h =>
        obtain ⟨rfl, rfl⟩ := exec_ret.mp h
        exact ⟨rfl, .inr ⟨hf, _, he, rfl⟩⟩
  · rintro ⟨rfl, rfl | ⟨hf, e, he, rfl⟩⟩
    · exact .get .ret
    · exact .getFault hf he .ret

theorem exec_nextRec {k : κ} {r : Except Int (Sigma β)} :
    Exec faulty (nextRec k : Prog β _) db r db' ↔
      db' = db ∧ (r = advance db k ∨ faulty ∧ ∃ e, IsFault e ∧ r = .error e) := by
  constructor
  · intro h
    cases h with
    | next h =>
        obtain ⟨rfl, rfl⟩ := exec_ret.mp h
        exact ⟨rfl, .inl rfl⟩
    | nextFault hf he h =>
        obtain ⟨rfl, rfl⟩ := exec_ret.mp h
        exact ⟨rfl, .inr ⟨hf, _, he, rfl⟩⟩
  · rintro ⟨rfl, rfl | ⟨hf, e, he, rfl⟩⟩
    · exact .next .ret
    · exact .nextFault hf he .ret

theorem exec_putRec {k : κ} {v : β k} {noOverwrite : Bool} {e : Int} :
    Exec faulty (putRec k v noOverwrite) db e db' ↔
      (e, db') = store db k v noOverwrite ∨ faulty ∧ IsFault e ∧ db' = db := by
  constructor
  · intro h
    cases h with
    | put h =>
        obtain ⟨rfl, rfl⟩ := exec_ret.mp h
        exact .inl rfl
    | putFault hf he h =>
        obtain ⟨rfl, rfl⟩ := exec_ret.mp h
        exact .inr ⟨hf, he, rfl⟩
  · rintro (h | ⟨hf, he, rfl⟩)
    · refine .put ?_
      rw [← h]
      exact .ret
    · exact .putFault hf he .ret

theorem exec_delRec {k : κ} {e : Int} :
    Exec faulty (delRec k : Prog β Int) db e db' ↔
      (e, db') = remove db k ∨ faulty ∧ IsFault e ∧ db' = db := by
  constructor
  · intro h
    cases h with
    | del h =>
        obtain ⟨rfl, rfl⟩ := exec_ret.mp h
        exact .inl rfl
    | delFault hf he h =>
        obtain ⟨rfl, rfl⟩ := exec_ret.mp h
        exact .inr ⟨hf, he, rfl⟩
  · rintro (h | ⟨hf, he, rfl⟩)
    · refine .del ?_
      rw [← h]
      exact .ret
    · exact .delFault hf he .ret

theorem exec_iff_run {x : Prog β α} {a : α} :
    Exec False x db a db' ↔ x.run db = some (a, db') := by
  constructor
  · intro h
    induction h with
    | ret => rfl
    | cursor _ ih => exact ih
    | get _ ih => exact ih
    | next _ ih => exact ih
    | put _ ih => exact ih
    | del _ ih => exact ih
    | cursorFault hf => exact hf.elim
    | getFault hf => exact hf.elim
    | nextFault hf => exact hf.elim
    | putFault hf => exact hf.elim
    | delFault hf => exact hf.elim
  · intro h
    induction x generalizing db with
    | ret b =>
        cases h
        exact .ret
    | spin => cases h
    | cursor cont ih => exact .cursor (ih _ h)
    | get k cont ih => exact .get (ih _ h)
    | next k cont ih => exact .next (ih _ h)
    | put k v noOverwrite cont ih => exact .put (ih _ h)
    | del k cont ih => exact .del (ih _ h)

theorem Exec.weaken {x : Prog β α} {a : α} {weaker : Prop}
    (h : Exec faulty x db a db') (hf : faulty → weaker) :
    Exec weaker x db a db' := by
  induction h with
  | ret => exact .ret
  | cursor _ ih => exact .cursor ih
  | get _ ih => exact .get ih
  | next _ ih => exact .next ih
  | put _ ih => exact .put ih
  | del _ ih => exact .del ih
  | cursorFault hfault he _ ih => exact .cursorFault (hf hfault) he ih
  | getFault hfault he _ ih => exact .getFault (hf hfault) he ih
  | nextFault hfault he _ ih => exact .nextFault (hf hfault) he ih
  | putFault hfault he _ ih => exact .putFault (hf hfault) he ih
  | delFault hfault he _ ih => exact .delFault (hf hfault) he ih

theorem exec_of_run {x : Prog β α} {a : α} (h : x.run db = some (a, db')) :
    Exec faulty x db a db' :=
  (exec_iff_run.mpr h).weaken False.elim

end Prog

end Mangoo.Foundation
