import Mangoo.Foundation.OrderedStore

/-!
# Scanning with a cursor

The records a cursor passes when it is moved from a key to the end of the store,
as a list.  A scan that stops somewhere resumes with what is left of that list.
-/

namespace Mangoo.Foundation

variable {κ : Type} [LinearOrder κ] {β : κ → Type} {db : Finmap β} {k n : κ}

theorem keys_above_eq_insert (h : nextKey db k = some n) :
    db.keys.filter (k < ·) = insert n (db.keys.filter (n < ·)) := by
  obtain ⟨hmem, hlt, hleast⟩ := nextKey_eq_some_iff.mp h
  ext j
  simp only [Finset.mem_filter, Finset.mem_insert, Finmap.mem_keys]
  constructor
  · rintro ⟨hj, hkj⟩
    rcases eq_or_lt_of_le (hleast j hj hkj) with heq | hnj
    · exact .inl heq.symm
    · exact .inr ⟨hj, hnj⟩
  · rintro (rfl | ⟨hj, hnj⟩)
    · exact ⟨hmem, hlt⟩
    · exact ⟨hj, hlt.trans hnj⟩

theorem card_keys_above_lt (h : nextKey db k = some n) :
    (db.keys.filter (n < ·)).card < (db.keys.filter (k < ·)).card := by
  rw [keys_above_eq_insert h, Finset.card_insert_of_notMem (by simp)]
  exact Nat.lt_succ_self _

theorem nextKey_of_advance {r : Sigma β} (h : advance db k = .ok r) :
    nextKey db k = some r.1 :=
  (advance_eq_ok_iff.mp h).1

/-- The records with larger keys, in key order. -/
def recordsAbove (db : Finmap β) (k : κ) : List (Sigma β) :=
  match h : advance db k with
  | .error _ => []
  | .ok r =>
      have := card_keys_above_lt (nextKey_of_advance h)
      r :: recordsAbove db r.1
termination_by (db.keys.filter (k < ·)).card

theorem recordsAbove_of_error {e : Int} (h : advance db k = .error e) :
    recordsAbove db k = [] := by
  rw [recordsAbove]
  split
  · rfl
  · rename_i hok
    rw [h] at hok
    cases hok

theorem recordsAbove_of_ok {r : Sigma β} (h : advance db k = .ok r) :
    recordsAbove db k = r :: recordsAbove db r.1 := by
  rw [recordsAbove]
  split
  · rename_i herror
    rw [h] at herror
    cases herror
  · rename_i hok
    rw [h] at hok
    cases hok
    rfl

theorem length_recordsAbove_le (db : Finmap β) (k : κ) :
    (recordsAbove db k).length ≤ (db.keys.filter (k < ·)).card := by
  fun_induction recordsAbove db k with
  | case1 k e herror => simp
  | case2 k first hok hlt ih =>
      simp only [List.length_cons]
      omega

theorem mem_recordsAbove_iff {r : Sigma β} :
    r ∈ recordsAbove db k ↔ db.lookup r.1 = some r.2 ∧ k < r.1 := by
  fun_induction recordsAbove db k with
  | case1 k e herror =>
      simp only [List.not_mem_nil, false_iff, not_and]
      intro hlookup
      exact nextKey_eq_none_iff.mp (advance_error herror).2 r.1 (Finmap.mem_iff.mpr ⟨_, hlookup⟩)
  | case2 k first hok hlt ih =>
      obtain ⟨hnext, hfirst⟩ := advance_eq_ok_iff.mp hok
      obtain ⟨-, hbelow, hleast⟩ := nextKey_eq_some_iff.mp hnext
      rw [List.mem_cons, ih]
      constructor
      · rintro (rfl | ⟨hlookup, habove⟩)
        · exact ⟨hfirst, hbelow⟩
        · exact ⟨hlookup, hbelow.trans habove⟩
      · rintro ⟨hlookup, habove⟩
        rcases eq_or_lt_of_le (hleast r.1 (Finmap.mem_iff.mpr ⟨_, hlookup⟩) habove) with
          heq | hbehind
        · left
          obtain ⟨n, v⟩ := r
          obtain ⟨m, w⟩ := first
          dsimp only at heq
          subst heq
          rw [hfirst] at hlookup
          cases hlookup
          rfl
        · exact .inr ⟨hlookup, hbehind⟩

theorem mem_of_mem_recordsAbove {r : Sigma β} (h : r ∈ recordsAbove db k) : r.1 ∈ db :=
  Finmap.mem_iff.mpr ⟨_, (mem_recordsAbove_iff.mp h).1⟩

theorem pairwise_recordsAbove (db : Finmap β) (k : κ) :
    (recordsAbove db k).Pairwise fun r s => r.1 < s.1 := by
  fun_induction recordsAbove db k with
  | case1 k e herror => exact List.Pairwise.nil
  | case2 k first hok hlt ih =>
      refine List.pairwise_cons.mpr ⟨?_, ih⟩
      intro r hr
      exact (mem_recordsAbove_iff.mp hr).2

end Mangoo.Foundation
