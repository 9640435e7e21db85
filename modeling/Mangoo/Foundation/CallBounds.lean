import Mangoo.Foundation.RelyGuarantee

/-!
# Bounds on calls

`Within P n x`: whatever its calls return, `x` makes at most `n` of them and returns a value that
satisfies `P`.  A thread that is `Within n` waits for no other thread.
-/

namespace Mangoo.Foundation

variable {κ : Type} {β : κ → Type} {α γ ι : Type}

namespace Prog

inductive Within (P : α → Prop) : Nat → Prog β α → Prop
  | ret {n a} : P a → Within P n (.ret a)
  | cursor {n cont} : (∀ e, Within P n (cont e)) → Within P (n + 1) (.cursor cont)
  | get {n k cont} : (∀ r, Within P n (cont r)) → Within P (n + 1) (.get k cont)
  | next {n k cont} : (∀ r, Within P n (cont r)) → Within P (n + 1) (.next k cont)
  | put {n k v noOverwrite cont} : (∀ e, Within P n (cont e)) →
      Within P (n + 1) (.put k v noOverwrite cont)
  | del {n k cont} : (∀ e, Within P n (cont e)) → Within P (n + 1) (.del k cont)

variable {P : α → Prop} {Q : γ → Prop} {m n : Nat} {x : Prog β α} {k : κ}

theorem within_pure {a : α} (h : P a) : Within P n (pure a : Prog β α) := .ret h

theorem within_getRec (k : κ) : Within (fun _ => True) 1 (getRec k : Prog β _) :=
  .get fun _ => .ret trivial

theorem within_putRec (k : κ) (v : β k) (noOverwrite : Bool) :
    Within (fun _ => True) 1 (putRec k v noOverwrite) := .put fun _ => .ret trivial

theorem Within.succ (h : Within P n x) : Within P (n + 1) x := by
  induction h with
  | ret ha => exact .ret ha
  | cursor _ ih => exact .cursor ih
  | get _ ih => exact .get ih
  | next _ ih => exact .next ih
  | put _ ih => exact .put ih
  | del _ ih => exact .del ih

theorem Within.mono (h : Within P m x) (hle : m ≤ n) : Within P n x := by
  induction hle with
  | refl => exact h
  | step _ ih => exact ih.succ

theorem Within.bind {f : α → Prog β γ} (hx : Within P m x) (hf : ∀ a, P a → Within Q n (f a)) :
    Within Q (n + m) (x >>= f) := by
  change Within Q (n + m) (x.bind f)
  induction hx with
  | ret ha => exact (hf _ ha).mono (Nat.le_add_right _ _)
  | cursor _ ih => exact .cursor ih
  | get _ ih => exact .get ih
  | next _ ih => exact .next ih
  | put _ ih => exact .put ih
  | del _ ih => exact .del ih

theorem Within.bind_ret {f : α → Prog β γ} (hx : Within P m x)
    (hf : ∀ a, P a → Within Q 0 (f a)) : Within Q m (x >>= f) := by
  have hbind := hx.bind hf
  rw [Nat.zero_add] at hbind
  exact hbind

theorem Within.endsWithin [LinearOrder κ] (R : Finmap β → Finmap β → Prop) (h : Within P n x)
    (db : Finmap β) : EndsWithin R n x db := by
  induction h generalizing db with
  | ret => exact endsWithin_ret _ _ _
  | cursor _ ih =>
      refine .inr ⟨nofun, fun mid failed x' db' _ hcall => ?_⟩
      cases hcall with
      | cursor | cursorFault => exact ih _ _
  | get _ ih =>
      refine .inr ⟨nofun, fun mid failed x' db' _ hcall => ?_⟩
      cases hcall with
      | get | getFault => exact ih _ _
  | next _ ih =>
      refine .inr ⟨nofun, fun mid failed x' db' _ hcall => ?_⟩
      cases hcall with
      | next | nextFault => exact ih _ _
  | put _ ih =>
      refine .inr ⟨nofun, fun mid failed x' db' _ hcall => ?_⟩
      cases hcall with
      | put | putFault => exact ih _ _
  | del _ ih =>
      refine .inr ⟨nofun, fun mid failed x' db' _ hcall => ?_⟩
      cases hcall with
      | del | delFault => exact ih _ _

end Prog

/-- A thread with a bound on its calls is done after that many, whatever the other threads do and
whichever calls fail. -/
theorem Pool.within_of_run [LinearOrder κ] [DecidableEq ι] {start s : Pool ι β α}
    {schedule : List ι} {i : ι} {P : α → Prop} {n : Nat} (h : Run Pool.Step start schedule s)
    (hi : Prog.Within P n (start.threads i)) :
    schedule.count i ≤ n ∧ (schedule.count i = n → ∃ a, s.threads i = .ret a) ∧
      ((∃ a, s.threads i = .ret a) ∨ ∃ s', Pool.Step s i s') := by
  have hrun : Run (fun (s : Pool ι β α) j s' => Pool.Step s j s' ∧
      (j ≠ i → (fun _ _ => True) s.db s'.db)) start schedule s :=
    h.mono fun _ _ _ hstep => ⟨hstep, fun _ => trivial⟩
  obtain ⟨m, hcount, hends⟩ := Pool.endsWithin_of_run hrun
    (hi.endsWithin (fun _ _ => True) start.db) (fun _ => trivial) fun _ _ _ _ _ => trivial
  refine ⟨by omega, fun hall => ?_, ?_⟩
  · obtain rfl : m = 0 := by omega
    exact hends
  · rcases hends.can_call with hdone | ⟨x', db', hcall⟩
    · exact .inl hdone
    · exact .inr ⟨_, .call hcall⟩

end Mangoo.Foundation
