import Mangoo.Foundation.Calls

/-!
# Runs with chosen failures

The run of a program under a schedule that says which of its calls fail and with
which codes.  A program that returns whatever its calls return has such a run under
every schedule, and each run is an outcome.
-/

namespace Mangoo.Foundation

namespace Prog

/-- Call number `n` fails with the code `faults n`, if there is one. -/
abbrev Schedule := Nat → Option Int

def Schedule.Valid (faults : Schedule) : Prop := ∀ n e, faults n = some e → IsFault e

def Schedule.rest (faults : Schedule) : Schedule := fun n => faults (n + 1)

variable {κ : Type} {β : κ → Type} {α : Type} [LinearOrder κ]

/-- The requests that failed, the result and the store afterwards. -/
def runFaulty : Prog β α → Schedule → Finmap β → Option (List (Request κ) × α × Finmap β)
  | .ret a, _, db => some ([], a, db)
  | .spin, _, _ => none
  | .cursor cont, faults, db =>
      match faults 0 with
      | none => (cont 0).runFaulty faults.rest db
      | some e => ((cont e).runFaulty faults.rest db).map fun r => (.cursor :: r.1, r.2)
  | .get k cont, faults, db =>
      match faults 0 with
      | none => (cont (fetch db k)).runFaulty faults.rest db
      | some e => ((cont (.error e)).runFaulty faults.rest db).map fun r => (.get k :: r.1, r.2)
  | .next k cont, faults, db =>
      match faults 0 with
      | none => (cont (advance db k)).runFaulty faults.rest db
      | some e => ((cont (.error e)).runFaulty faults.rest db).map fun r => (.next k :: r.1, r.2)
  | .put k v noOverwrite cont, faults, db =>
      match faults 0 with
      | none =>
          (cont (store db k v noOverwrite).1).runFaulty faults.rest (store db k v noOverwrite).2
      | some e => ((cont e).runFaulty faults.rest db).map fun r => (.put k :: r.1, r.2)
  | .del k cont, faults, db =>
      match faults 0 with
      | none => (cont (remove db k).1).runFaulty faults.rest (remove db k).2
      | some e => ((cont e).runFaulty faults.rest db).map fun r => (.del k :: r.1, r.2)

variable {faults : Schedule}

theorem Schedule.Valid.rest (h : faults.Valid) : faults.rest.Valid :=
  fun n e => h (n + 1) e

theorem Returns.runFaulty {P : α → Prop} {x : Prog β α} (hx : x.Returns P)
    (hfaults : faults.Valid) (db : Finmap β) :
    ∃ failed a db', x.runFaulty faults db = some (failed, a, db') ∧ P a ∧
      Outcome x db failed a db' := by
  induction x generalizing faults db with
  | ret a => exact ⟨[], a, db, rfl, hx, .ret⟩
  | spin => exact hx.elim
  | cursor cont ih =>
      cases hfirst : faults 0 with
      | none =>
          obtain ⟨failed, a, db', hrun, ha, hout⟩ := ih 0 (hx 0) hfaults.rest db
          exact ⟨failed, a, db', by simp [Prog.runFaulty, hfirst, hrun], ha, .call .cursor hout⟩
      | some e =>
          obtain ⟨failed, a, db', hrun, ha, hout⟩ := ih e (hx e) hfaults.rest db
          exact ⟨.cursor :: failed, a, db', by simp [Prog.runFaulty, hfirst, hrun], ha,
            .call (.cursorFault (hfaults 0 e hfirst)) hout⟩
  | get k cont ih =>
      cases hfirst : faults 0 with
      | none =>
          obtain ⟨failed, a, db', hrun, ha, hout⟩ := ih _ (hx (fetch db k)) hfaults.rest db
          exact ⟨failed, a, db', by simp [Prog.runFaulty, hfirst, hrun], ha, .call .get hout⟩
      | some e =>
          obtain ⟨failed, a, db', hrun, ha, hout⟩ := ih _ (hx (.error e)) hfaults.rest db
          exact ⟨.get k :: failed, a, db', by simp [Prog.runFaulty, hfirst, hrun], ha,
            .call (.getFault (hfaults 0 e hfirst)) hout⟩
  | next k cont ih =>
      cases hfirst : faults 0 with
      | none =>
          obtain ⟨failed, a, db', hrun, ha, hout⟩ := ih _ (hx (advance db k)) hfaults.rest db
          exact ⟨failed, a, db', by simp [Prog.runFaulty, hfirst, hrun], ha, .call .next hout⟩
      | some e =>
          obtain ⟨failed, a, db', hrun, ha, hout⟩ := ih _ (hx (.error e)) hfaults.rest db
          exact ⟨.next k :: failed, a, db', by simp [Prog.runFaulty, hfirst, hrun], ha,
            .call (.nextFault (hfaults 0 e hfirst)) hout⟩
  | put k v noOverwrite cont ih =>
      cases hfirst : faults 0 with
      | none =>
          obtain ⟨failed, a, db', hrun, ha, hout⟩ :=
            ih _ (hx (store db k v noOverwrite).1) hfaults.rest (store db k v noOverwrite).2
          exact ⟨failed, a, db', by simp [Prog.runFaulty, hfirst, hrun], ha, .call .put hout⟩
      | some e =>
          obtain ⟨failed, a, db', hrun, ha, hout⟩ := ih e (hx e) hfaults.rest db
          exact ⟨.put k :: failed, a, db', by simp [Prog.runFaulty, hfirst, hrun], ha,
            .call (.putFault (hfaults 0 e hfirst)) hout⟩
  | del k cont ih =>
      cases hfirst : faults 0 with
      | none =>
          obtain ⟨failed, a, db', hrun, ha, hout⟩ :=
            ih _ (hx (remove db k).1) hfaults.rest (remove db k).2
          exact ⟨failed, a, db', by simp [Prog.runFaulty, hfirst, hrun], ha, .call .del hout⟩
      | some e =>
          obtain ⟨failed, a, db', hrun, ha, hout⟩ := ih e (hx e) hfaults.rest db
          exact ⟨.del k :: failed, a, db', by simp [Prog.runFaulty, hfirst, hrun], ha,
            .call (.delFault (hfaults 0 e hfirst)) hout⟩

end Prog

end Mangoo.Foundation
