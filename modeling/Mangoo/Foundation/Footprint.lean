import Mangoo.Foundation.Calls
import Mangoo.Foundation.Runs

/-!
# Footprints

Programs that keep to records of their own.  Threads with disjoint footprints do to their records
what they would do alone, whatever the order of their calls.
-/

namespace Mangoo.Foundation

variable {κ : Type} {β : κ → Type} {α γ ι : Type}

namespace Prog

variable {K : κ → Prop} {V : ∀ k, β k → Prop} {P : α → Prop} {Q : γ → Prop}

/-- The program asks for keys of `K` only and does not step a cursor.  As long as what it fetches
satisfies `V`, so does what it stores, and it returns values that satisfy `P`. -/
def Uses (K : κ → Prop) (V : ∀ k, β k → Prop) (P : α → Prop) : Prog β α → Prop
  | .ret a => P a
  | .spin => True
  | .cursor cont => ∀ e, (cont e).Uses K V P
  | .get k cont => K k ∧ ∀ r, (∀ v, r = .ok v → V k v) → (cont r).Uses K V P
  | .next _ _ => False
  | .put k v _ cont => K k ∧ V k v ∧ ∀ e, (cont e).Uses K V P
  | .del k cont => K k ∧ ∀ e, (cont e).Uses K V P

/-! ## Composition -/

theorem uses_pure {a : α} (h : P a) : (pure a : Prog β α).Uses K V P := h

theorem uses_spin : (spin : Prog β α).Uses K V P := trivial

theorem uses_getRec {k : κ} (h : K k) :
    (getRec k : Prog β _).Uses K V fun r => ∀ v, r = .ok v → V k v := ⟨h, fun _ hr => hr⟩

theorem uses_putRec {k : κ} {v : β k} (noOverwrite : Bool) (h : K k) (hv : V k v) :
    (putRec k v noOverwrite).Uses K V fun _ => True := ⟨h, hv, fun _ => trivial⟩

theorem uses_delRec {k : κ} (h : K k) : (delRec k : Prog β _).Uses K V fun _ => True :=
  ⟨h, fun _ => trivial⟩

theorem Uses.bind {x : Prog β α} {f : α → Prog β γ} (hx : x.Uses K V P)
    (hf : ∀ a, P a → (f a).Uses K V Q) : (x >>= f).Uses K V Q := by
  change (x.bind f).Uses K V Q
  induction x with
  | ret a => exact hf a hx
  | spin => trivial
  | cursor cont ih => exact fun e => ih e (hx e)
  | get k cont ih => exact ⟨hx.1, fun r hr => ih r (hx.2 r hr)⟩
  | next k cont => exact hx.elim
  | put k v noOverwrite cont ih => exact ⟨hx.1, hx.2.1, fun e => ih e (hx.2.2 e)⟩
  | del k cont ih => exact ⟨hx.1, fun e => ih e (hx.2 e)⟩

/-! ## A call on two stores that agree on the footprint -/

variable [LinearOrder κ] {db db' alone : Finmap β} {x x' : Prog β α} {failed : Option (Request κ)}
  {j k : κ}

def Agree (K : κ → Prop) (db db' : Finmap β) : Prop := ∀ k, K k → db.lookup k = db'.lookup k

def Holding (K : κ → Prop) (V : ∀ k, β k → Prop) (db : Finmap β) : Prop :=
  ∀ k v, K k → db.lookup k = some v → V k v

theorem fetch_congr (h : db.lookup k = alone.lookup k) : fetch db k = fetch alone k := by
  rw [fetch, fetch, h]

theorem store_congr (v : β k) (noOverwrite : Bool) (hk : db.lookup k = alone.lookup k)
    (hj : db.lookup j = alone.lookup j) :
    (store db k v noOverwrite).1 = (store alone k v noOverwrite).1 ∧
      (store db k v noOverwrite).2.lookup j = (store alone k v noOverwrite).2.lookup j := by
  unfold store
  rw [hk]
  split_ifs
  · exact ⟨rfl, hj⟩
  · refine ⟨rfl, ?_⟩
    by_cases hjk : j = k
    · subst hjk
      rw [Finmap.lookup_insert, Finmap.lookup_insert]
    · rw [Finmap.lookup_insert_of_ne _ hjk, Finmap.lookup_insert_of_ne _ hjk, hj]

theorem remove_congr (hk : db.lookup k = alone.lookup k) (hj : db.lookup j = alone.lookup j) :
    (remove db k).1 = (remove alone k).1 ∧
      (remove db k).2.lookup j = (remove alone k).2.lookup j := by
  unfold remove
  rw [hk]
  split_ifs
  · refine ⟨rfl, ?_⟩
    by_cases hjk : j = k
    · subst hjk
      rw [Finmap.lookup_erase, Finmap.lookup_erase]
    · rw [Finmap.lookup_erase_ne hjk, Finmap.lookup_erase_ne hjk, hj]
  · exact ⟨rfl, hj⟩

theorem Holding.of_store {v : β k} (h : Holding K V db) (hv : V k v) (noOverwrite : Bool) :
    Holding K V (store db k v noOverwrite).2 := by
  intro j w hj hw
  by_cases hjk : j = k
  · subst hjk
    unfold store at hw
    split_ifs at hw
    · exact h j w hj hw
    · rw [Finmap.lookup_insert] at hw
      cases hw
      exact hv
  · rw [store_lookup_of_ne v noOverwrite hjk] at hw
    exact h j w hj hw

theorem Holding.of_remove (h : Holding K V db) (k : κ) : Holding K V (remove db k).2 := by
  intro j w hj hw
  by_cases hjk : j = k
  · subst hjk
    unfold remove at hw
    split_ifs at hw
    · rw [Finmap.lookup_erase] at hw
      cases hw
    · exact h j w hj hw
  · rw [remove_lookup_of_ne hjk] at hw
    exact h j w hj hw

theorem Holding.fetched (h : Holding K V db) (hk : K k) :
    ∀ v, fetch db k = .ok v → V k v :=
  fun v hv => h k v hk (fetch_eq_ok_iff.mp hv)

theorem Uses.call (hx : x.Uses K V P) (hdb : Holding K V db) (hagree : Agree K db alone)
    (hcall : Call x db failed x' db') :
    x'.Uses K V P ∧ Holding K V db' ∧ (∀ k, ¬ K k → db'.lookup k = db.lookup k) ∧
      ∃ alone', Call x alone failed x' alone' ∧ Agree K db' alone' ∧
        ∀ k, ¬ K k → alone'.lookup k = alone.lookup k := by
  cases hcall with
  | cursor => exact ⟨hx _, hdb, fun _ _ => rfl, alone, .cursor, hagree, fun _ _ => rfl⟩
  | get =>
      refine ⟨hx.2 _ (hdb.fetched hx.1), hdb, fun _ _ => rfl, alone, ?_, hagree, fun _ _ => rfl⟩
      rw [fetch_congr (hagree _ hx.1)]
      exact .get
  | next => exact hx.elim
  | @put k v noOverwrite cont =>
      have hne : ∀ j, ¬ K j → j ≠ k := fun j hj hjk => hj (hjk ▸ hx.1)
      refine ⟨hx.2.2 _, hdb.of_store hx.2.1 noOverwrite,
        fun j hj => store_lookup_of_ne v noOverwrite (hne j hj), _, ?_,
        fun j hj => (store_congr v noOverwrite (hagree k hx.1) (hagree j hj)).2,
        fun j hj => store_lookup_of_ne v noOverwrite (hne j hj)⟩
      rw [(store_congr v noOverwrite (hagree k hx.1) (hagree k hx.1)).1]
      exact .put
  | @del k cont =>
      have hne : ∀ j, ¬ K j → j ≠ k := fun j hj hjk => hj (hjk ▸ hx.1)
      refine ⟨hx.2 _, hdb.of_remove k, fun j hj => remove_lookup_of_ne (hne j hj), _, ?_,
        fun j hj => (remove_congr (hagree k hx.1) (hagree j hj)).2,
        fun j hj => remove_lookup_of_ne (hne j hj)⟩
      rw [(remove_congr (hagree k hx.1) (hagree k hx.1)).1]
      exact .del
  | cursorFault he =>
      exact ⟨hx _, hdb, fun _ _ => rfl, alone, .cursorFault he, hagree, fun _ _ => rfl⟩
  | getFault he =>
      exact ⟨hx.2 _ nofun, hdb, fun _ _ => rfl, alone, .getFault he, hagree, fun _ _ => rfl⟩
  | nextFault => exact hx.elim
  | putFault he =>
      exact ⟨hx.2.2 _, hdb, fun _ _ => rfl, alone, .putFault he, hagree, fun _ _ => rfl⟩
  | delFault he =>
      exact ⟨hx.2 _, hdb, fun _ _ => rfl, alone, .delFault he, hagree, fun _ _ => rfl⟩

end Prog

/-! ## Threads with disjoint footprints -/

variable [DecidableEq ι]

def failures (log : List (ι × Option (Request κ))) (i : ι) : List (Request κ) :=
  log.filterMap fun entry => if entry.1 = i then entry.2 else none

theorem failures_append (log log' : List (ι × Option (Request κ))) (i : ι) :
    failures (log ++ log') i = failures log i ++ failures log' i := List.filterMap_append

theorem failures_self (i : ι) (failed : Option (Request κ)) :
    failures [(i, failed)] i = failed.toList := by
  cases failed <;> simp [failures]

theorem failures_of_ne {i j : ι} (h : i ≠ j) (failed : Option (Request κ)) :
    failures [(i, failed)] j = [] := by
  simp [failures, h]

variable [LinearOrder κ] {start s : Pool ι β α}
  {log : List (ι × Option (Request κ))}

/-- A step of a pool that tells which request failed. -/
inductive Pool.Logged : Pool ι β α → ι × Option (Request κ) → Pool ι β α → Prop
  | call {s : Pool ι β α} {i failed x' db'} : Prog.Call (s.threads i) s.db failed x' db' →
      Logged s (i, failed) ⟨Function.update s.threads i x', db'⟩

/-- What a thread has done so far it could have done alone, with the same failures. -/
structure AsAlone (K : κ → Prop) (V : ∀ k, β k → Prop) (P : α → Prop) (x : Prog β α)
    (db : Finmap β) (failed : List (Request κ)) (x' : Prog β α) (db' alone : Finmap β) : Prop where
  uses : x'.Uses K V P
  holding : Prog.Holding K V db'
  agree : Prog.Agree K db' alone
  outside : ∀ k, ¬ K k → alone.lookup k = db.lookup k
  outcome : ∀ {later a last}, Prog.Outcome x' alone later a last →
    Prog.Outcome x db (failed ++ later) a last

theorem Pool.asAlone_of_run {K : ι → κ → Prop} {V : ι → ∀ k, β k → Prop} {P : ι → α → Prop}
    (h : Run Pool.Logged start log s) (hdisjoint : ∀ i j k, i ≠ j → K i k → ¬ K j k)
    (huses : ∀ i, (start.threads i).Uses (K i) (V i) (P i))
    (hholding : ∀ i, Prog.Holding (K i) (V i) start.db) :
    (∀ i, ∃ alone, AsAlone (K i) (V i) (P i) (start.threads i) start.db (failures log i)
      (s.threads i) s.db alone) ∧
      ∀ k, (∀ i, ¬ K i k) → s.db.lookup k = start.db.lookup k := by
  apply h.invariant_log (I := fun log s => (∀ i, ∃ alone, AsAlone (K i) (V i) (P i)
    (start.threads i) start.db (failures log i) (s.threads i) s.db alone) ∧
      ∀ k, (∀ i, ¬ K i k) → s.db.lookup k = start.db.lookup k)
  · exact ⟨fun i => ⟨start.db, huses i, hholding i, fun _ _ => rfl, fun _ _ => rfl, id⟩,
      fun _ _ => rfl⟩
  · rintro log s ⟨i, failed⟩ s' ⟨hall, hrest⟩ hstep
    cases hstep with
    | call hcall =>
        obtain ⟨alone, hi⟩ := hall i
        obtain ⟨huses', hholding', hframe, alone', hcall', hagree', houtside'⟩ :=
          hi.uses.call hi.holding hi.agree hcall
        refine ⟨fun j => ?_, fun k hk => (hframe k (hk i)).trans (hrest k hk)⟩
        by_cases hij : j = i
        · subst hij
          refine ⟨alone', ?_, hholding', hagree',
            fun k hk => (houtside' k hk).trans (hi.outside k hk), ?_⟩
          · simpa only [Function.update_self] using huses'
          · intro later a last hout
            have hcalled : Prog.Outcome (s.threads j) alone (failed.toList ++ later) a last :=
              .call hcall' (by simpa only [Function.update_self] using hout)
            rw [failures_append, failures_self, List.append_assoc]
            exact hi.outcome hcalled
        · obtain ⟨alone, hj⟩ := hall j
          have hkeep : ∀ k, K j k → ¬ K i k := fun k hk => hdisjoint j i k hij hk
          rw [failures_append, failures_of_ne (Ne.symm hij), List.append_nil]
          refine ⟨alone, ?_, fun k v hk hv => ?_, fun k hk => ?_, hj.outside, ?_⟩
          · simpa only [Function.update_of_ne hij] using hj.uses
          · exact hj.holding k v hk ((hframe k (hkeep k hk)).symm.trans hv)
          · exact (hframe k (hkeep k hk)).trans (hj.agree k hk)
          · intro later a last hout
            exact hj.outcome (by simpa only [Function.update_of_ne hij] using hout)

end Mangoo.Foundation
