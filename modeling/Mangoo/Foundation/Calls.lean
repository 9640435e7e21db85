import Mangoo.Foundation.Frame
import Mathlib.Logic.Function.Basic

/-!
# Single calls

The meaning of a program one database call at a time.  A program alone gives its
`Outcome`, which also tells the calls that failed; the programs of a pool of threads
take their calls in any order.
-/

namespace Mangoo.Foundation

/-- What a program asks of the store in one call. -/
inductive Request (κ : Type) where
  | cursor
  | get (k : κ)
  | next (k : κ)
  | put (k : κ)
  | del (k : κ)

namespace Prog

variable {κ : Type} {β : κ → Type} {α γ : Type}

def request : Prog β α → Option (Request κ)
  | .ret _ => none
  | .spin => none
  | .cursor _ => some .cursor
  | .get k _ => some (.get k)
  | .next k _ => some (.next k)
  | .put k _ _ _ => some (.put k)
  | .del k _ => some (.del k)

variable [LinearOrder κ]

/-- `Call x db failed x' db'`: the next call of `x` leaves `x'` to do and the store `db'`.
`failed` is the request when the call fails, which leaves the store as it was. -/
inductive Call :
    Prog β α → Finmap β → Option (Request κ) → Prog β α → Finmap β → Prop
  | cursor {cont db} : Call (.cursor cont) db none (cont 0) db
  | get {k cont db} : Call (.get k cont) db none (cont (fetch db k)) db
  | next {k cont db} : Call (.next k cont) db none (cont (advance db k)) db
  | put {k v noOverwrite cont db} : Call (.put k v noOverwrite cont) db none
      (cont (store db k v noOverwrite).1) (store db k v noOverwrite).2
  | del {k cont db} : Call (.del k cont) db none (cont (remove db k).1) (remove db k).2
  | cursorFault {cont db e} : IsFault e → Call (.cursor cont) db (some .cursor) (cont e) db
  | getFault {k cont db e} : IsFault e →
      Call (.get k cont) db (some (.get k)) (cont (.error e)) db
  | nextFault {k cont db e} : IsFault e →
      Call (.next k cont) db (some (.next k)) (cont (.error e)) db
  | putFault {k v noOverwrite cont db e} : IsFault e →
      Call (.put k v noOverwrite cont) db (some (.put k)) (cont e) db
  | delFault {k cont db e} : IsFault e → Call (.del k cont) db (some (.del k)) (cont e) db

/-- The program returns `a` and leaves `db'`; `failed` lists the calls that failed on the
way. -/
inductive Outcome : Prog β α → Finmap β → List (Request κ) → α → Finmap β → Prop
  | ret {a db} : Outcome (.ret a) db [] a db
  | call {x db failed x' mid later a db'} : Call x db failed x' mid →
      Outcome x' mid later a db' → Outcome x db (failed.toList ++ later) a db'

variable {db db' mid : Finmap β} {failed : List (Request κ)}

theorem Call.bind {x x' : Prog β α} {failure : Option (Request κ)}
    (h : Call x db failure x' db') (f : α → Prog β γ) :
    Call (x.bind f) db failure (x'.bind f) db' := by
  cases h with
  | cursor => exact .cursor
  | get => exact .get
  | next => exact .next
  | put => exact .put
  | del => exact .del
  | cursorFault he => exact .cursorFault he
  | getFault he => exact .getFault he
  | nextFault he => exact .nextFault he
  | putFault he => exact .putFault he
  | delFault he => exact .delFault he

theorem Call.bind_inv {x : Prog β α} {f : α → Prog β γ} {y : Prog β γ}
    {failure : Option (Request κ)} (h : Call (x.bind f) db failure y db') :
    (∃ a, x = .ret a) ∨ ∃ x', Call x db failure x' db' ∧ y = x'.bind f := by
  cases x with
  | ret a => exact .inl ⟨a, rfl⟩
  | spin => cases h
  | cursor cont =>
      cases h with
      | cursor => exact .inr ⟨_, .cursor, rfl⟩
      | cursorFault he => exact .inr ⟨_, .cursorFault he, rfl⟩
  | get k cont =>
      cases h with
      | get => exact .inr ⟨_, .get, rfl⟩
      | getFault he => exact .inr ⟨_, .getFault he, rfl⟩
  | next k cont =>
      cases h with
      | next => exact .inr ⟨_, .next, rfl⟩
      | nextFault he => exact .inr ⟨_, .nextFault he, rfl⟩
  | put k v noOverwrite cont =>
      cases h with
      | put => exact .inr ⟨_, .put, rfl⟩
      | putFault he => exact .inr ⟨_, .putFault he, rfl⟩
  | del k cont =>
      cases h with
      | del => exact .inr ⟨_, .del, rfl⟩
      | delFault he => exact .inr ⟨_, .delFault he, rfl⟩

theorem outcome_ret {a b : α} :
    Outcome (.ret a : Prog β α) db failed b db' ↔ failed = [] ∧ b = a ∧ db' = db := by
  constructor
  · intro h
    cases h with
    | ret => exact ⟨rfl, rfl, rfl⟩
    | call hcall => cases hcall
  · rintro ⟨rfl, rfl, rfl⟩
    exact .ret

theorem outcome_pure {a b : α} :
    Outcome (pure a : Prog β α) db failed b db' ↔ failed = [] ∧ b = a ∧ db' = db :=
  outcome_ret

theorem outcome_bind {x : Prog β α} {f : α → Prog β γ} {c : γ} :
    Outcome (x >>= f) db failed c db' ↔ ∃ a mid first second, failed = first ++ second ∧
      Outcome x db first a mid ∧ Outcome (f a) mid second c db' := by
  change Outcome (x.bind f) db failed c db' ↔ _
  constructor
  · intro h
    generalize hprog : x.bind f = y at h
    induction h generalizing x with
    | ret =>
        cases x with
        | ret a =>
            refine ⟨a, _, [], [], rfl, .ret, ?_⟩
            change Outcome (Prog.bind (.ret a) f) _ _ _ _
            rw [hprog]
            exact .ret
        | _ => cases hprog
    | @call y db failure y' mid later c db' hcall hrest ih =>
        subst hprog
        rcases hcall.bind_inv with ⟨a, rfl⟩ | ⟨x', hcall', rfl⟩
        · exact ⟨a, db, [], _, rfl, .ret, .call hcall hrest⟩
        · obtain ⟨a, last, first, second, rfl, hx, hf⟩ := ih rfl
          exact ⟨a, last, _, second, (List.append_assoc ..).symm, .call hcall' hx, hf⟩
  · rintro ⟨a, mid, first, second, rfl, hx, hf⟩
    induction hx with
    | ret => exact hf
    | call hcall _ ih =>
        rw [List.append_assoc]
        exact .call (hcall.bind f) (ih hf)

theorem outcome_getRec {k : κ} {r : Except Int (β k)} :
    Outcome (getRec k) db failed r db' ↔
      failed = [] ∧ r = fetch db k ∧ db' = db ∨
        failed = [.get k] ∧ (∃ e, IsFault e ∧ r = .error e) ∧ db' = db := by
  constructor
  · intro h
    cases h with
    | call hcall hrest =>
        cases hcall with
        | get =>
            obtain ⟨rfl, rfl, rfl⟩ := outcome_ret.mp hrest
            exact .inl ⟨rfl, rfl, rfl⟩
        | getFault he =>
            obtain ⟨rfl, rfl, rfl⟩ := outcome_ret.mp hrest
            exact .inr ⟨rfl, ⟨_, he, rfl⟩, rfl⟩
  · rintro (⟨rfl, rfl, rfl⟩ | ⟨rfl, ⟨e, he, rfl⟩, rfl⟩)
    · exact .call .get .ret
    · exact .call (.getFault he) .ret

theorem outcome_putRec {k : κ} {v : β k} {noOverwrite : Bool} {e : Int} :
    Outcome (putRec k v noOverwrite) db failed e db' ↔
      failed = [] ∧ (e, db') = store db k v noOverwrite ∨
        failed = [.put k] ∧ IsFault e ∧ db' = db := by
  constructor
  · intro h
    cases h with
    | call hcall hrest =>
        cases hcall with
        | put =>
            obtain ⟨rfl, rfl, rfl⟩ := outcome_ret.mp hrest
            exact .inl ⟨rfl, rfl⟩
        | putFault he =>
            obtain ⟨rfl, rfl, rfl⟩ := outcome_ret.mp hrest
            exact .inr ⟨rfl, he, rfl⟩
  · rintro (⟨rfl, h⟩ | ⟨rfl, he, rfl⟩)
    · refine .call .put ?_
      rw [← h]
      exact .ret
    · exact .call (.putFault he) .ret

theorem Outcome.exec {x : Prog β α} {a : α} (h : Outcome x db failed a db') :
    Exec True x db a db' := by
  induction h with
  | ret => exact .ret
  | call hcall _ ih =>
      cases hcall with
      | cursor => exact .cursor ih
      | get => exact .get ih
      | next => exact .next ih
      | put => exact .put ih
      | del => exact .del ih
      | cursorFault he => exact .cursorFault trivial he ih
      | getFault he => exact .getFault trivial he ih
      | nextFault he => exact .nextFault trivial he ih
      | putFault he => exact .putFault trivial he ih
      | delFault he => exact .delFault trivial he ih

theorem Call.changes {K : κ → Prop} {x x' : Prog β α} {failure : Option (Request κ)}
    (h : Call x db failure x' db') (hx : x.Changes K) :
    x'.Changes K ∧ ∀ k, failure = some (.put k) → K k := by
  cases h with
  | cursor => exact ⟨hx _, fun k hk => by cases hk⟩
  | get => exact ⟨hx _, fun k hk => by cases hk⟩
  | next => exact ⟨hx _, fun k hk => by cases hk⟩
  | put => exact ⟨hx.2 _, fun k hk => by cases hk⟩
  | del => exact ⟨hx.2 _, fun k hk => by cases hk⟩
  | cursorFault => exact ⟨hx _, fun k hk => by cases hk⟩
  | getFault => exact ⟨hx _, fun k hk => by cases hk⟩
  | nextFault => exact ⟨hx _, fun k hk => by cases hk⟩
  | putFault =>
      refine ⟨hx.2 _, fun k hk => ?_⟩
      cases hk
      exact hx.1
  | delFault => exact ⟨hx.2 _, fun k hk => by cases hk⟩

theorem Outcome.put_of_changes {K : κ → Prop} {x : Prog β α} {a : α} {k : κ}
    (h : Outcome x db failed a db') (hx : x.Changes K) (hk : Request.put k ∈ failed) : K k := by
  induction h with
  | ret => cases hk
  | call hcall _ ih =>
      obtain ⟨hx', hfailure⟩ := hcall.changes hx
      rcases List.mem_append.mp hk with hfirst | hlater
      · exact hfailure k (by simpa using hfirst)
      · exact ih hx' hlater

end Prog

/-! ## Threads -/

section Threads

variable {κ : Type} {β : κ → Type} {α ι : Type}

/-- What each thread has left to do, over one store. -/
structure Pool (ι : Type) (β : κ → Type) (α : Type) where
  threads : ι → Prog β α
  db : Finmap β

variable [LinearOrder κ] [DecidableEq ι]

/-- The thread `i` makes its next call. -/
inductive Pool.Step : Pool ι β α → ι → Pool ι β α → Prop
  | call {s : Pool ι β α} {i failed x' db'} : Prog.Call (s.threads i) s.db failed x' db' →
      Step s i ⟨Function.update s.threads i x', db'⟩

end Threads

end Mangoo.Foundation
