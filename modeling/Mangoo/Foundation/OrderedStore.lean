import Mathlib.Data.Finmap
import Mathlib.Data.Finset.Max

/-!
# Ordered record stores

A finite map from linearly ordered keys to records whose type depends on the
key, with the four operations an ordered key/value database offers on it:
fetch by key, step a cursor to the least larger key, store and remove.  Result
codes are C integers, `0` on success.
-/

namespace Mangoo.Foundation

def dbNotfound : Int := -30988

def dbKeyexist : Int := -30994

def dbBufferSmall : Int := -30999

variable {κ : Type} [LinearOrder κ] {β : κ → Type}

/-- The least key of the store above `k`. -/
def nextKey (db : Finmap β) (k : κ) : Option κ :=
  (db.keys.filter (k < ·)).min

def fetch (db : Finmap β) (k : κ) : Except Int (β k) :=
  match db.lookup k with
  | some v => .ok v
  | none => .error dbNotfound

/-- The record a cursor standing on `k` moves to. -/
def advance (db : Finmap β) (k : κ) : Except Int (Sigma β) :=
  match nextKey db k with
  | some n =>
      match db.lookup n with
      | some v => .ok ⟨n, v⟩
      | none => .error dbNotfound
  | none => .error dbNotfound

def store (db : Finmap β) (k : κ) (v : β k) (noOverwrite : Bool) : Int × Finmap β :=
  if noOverwrite = true ∧ (db.lookup k).isSome = true then (dbKeyexist, db)
  else (0, db.insert k v)

def remove (db : Finmap β) (k : κ) : Int × Finmap β :=
  if (db.lookup k).isSome = true then (0, db.erase k) else (dbNotfound, db)

/-! ## Cursor order -/

theorem nextKey_eq_some_iff {db : Finmap β} {k n : κ} :
    nextKey db k = some n ↔
      n ∈ db ∧ k < n ∧ ∀ j ∈ db, k < j → n ≤ j := by
  unfold nextKey
  constructor
  · intro h
    have hmem := Finset.mem_of_min h
    rw [Finset.mem_filter, Finmap.mem_keys] at hmem
    refine ⟨hmem.1, hmem.2, ?_⟩
    intro j hj hkj
    refine Finset.min_le_of_eq ?_ h
    rw [Finset.mem_filter, Finmap.mem_keys]
    exact ⟨hj, hkj⟩
  · rintro ⟨hn, hkn, hleast⟩
    have hmem : n ∈ db.keys.filter (k < ·) := by
      rw [Finset.mem_filter, Finmap.mem_keys]
      exact ⟨hn, hkn⟩
    obtain ⟨m, hm⟩ := Finset.min_of_mem hmem
    have hm' := Finset.mem_of_min hm
    rw [Finset.mem_filter, Finmap.mem_keys] at hm'
    have heq : m = n :=
      le_antisymm (Finset.min_le_of_eq hmem hm) (hleast m hm'.1 hm'.2)
    rw [heq] at hm
    exact hm

theorem nextKey_eq_none_iff {db : Finmap β} {k : κ} :
    nextKey db k = none ↔ ∀ j ∈ db, ¬ k < j := by
  constructor
  · intro h j hj hkj
    have hempty := Finset.min_eq_top.mp h
    have hmem : j ∈ db.keys.filter (k < ·) := by
      rw [Finset.mem_filter, Finmap.mem_keys]
      exact ⟨hj, hkj⟩
    rw [hempty] at hmem
    simp at hmem
  · intro h
    apply Finset.min_eq_top.mpr
    rw [Finset.filter_eq_empty_iff]
    intro j hj
    exact h j (Finmap.mem_keys.mp hj)

theorem advance_of_nextKey_none {db : Finmap β} {k : κ}
    (h : nextKey db k = none) : advance db k = .error dbNotfound := by
  simp [advance, h]

theorem advance_of_nextKey_some {db : Finmap β} {k n : κ} {v : β n}
    (h : nextKey db k = some n) (hv : db.lookup n = some v) :
    advance db k = .ok ⟨n, v⟩ := by
  simp only [advance, h, hv]

theorem advance_eq_ok_iff {db : Finmap β} {k n : κ} {v : β n} :
    advance db k = .ok ⟨n, v⟩ ↔
      nextKey db k = some n ∧ db.lookup n = some v := by
  constructor
  · intro h
    unfold advance at h
    split at h
    · rename_i m hm
      split at h
      · rename_i w hw
        cases h
        exact ⟨hm, hw⟩
      · cases h
    · cases h
  · rintro ⟨hn, hv⟩
    exact advance_of_nextKey_some hn hv

theorem advance_error {db : Finmap β} {k : κ} {e : Int}
    (h : advance db k = .error e) : e = dbNotfound ∧ nextKey db k = none := by
  cases hn : nextKey db k with
  | none =>
      rw [advance_of_nextKey_none hn] at h
      cases h
      exact ⟨rfl, rfl⟩
  | some n =>
      obtain ⟨hmem, -⟩ := nextKey_eq_some_iff.mp hn
      obtain ⟨v, hv⟩ := Finmap.mem_iff.mp hmem
      rw [advance_of_nextKey_some hn hv] at h
      cases h

/-! ## Fetching and changing records -/

@[simp] theorem fetch_of_lookup {db : Finmap β} {k : κ} {v : β k}
    (h : db.lookup k = some v) : fetch db k = .ok v := by
  simp [fetch, h]

theorem fetch_of_lookup_none {db : Finmap β} {k : κ}
    (h : db.lookup k = none) : fetch db k = .error dbNotfound := by
  simp [fetch, h]

theorem fetch_eq_ok_iff {db : Finmap β} {k : κ} {v : β k} :
    fetch db k = .ok v ↔ db.lookup k = some v := by
  unfold fetch
  cases h : db.lookup k <;> simp

theorem fetch_eq_error {db : Finmap β} {k : κ} {e : Int}
    (h : fetch db k = .error e) : e = dbNotfound ∧ db.lookup k = none := by
  unfold fetch at h
  cases hl : db.lookup k with
  | none =>
      simp only [hl] at h
      cases h
      exact ⟨rfl, rfl⟩
  | some v =>
      simp only [hl] at h
      cases h

@[simp] theorem store_overwrite (db : Finmap β) (k : κ) (v : β k) :
    store db k v false = (0, db.insert k v) := by
  simp [store]

theorem store_noOverwrite_of_none {db : Finmap β} {k : κ} (v : β k)
    (h : db.lookup k = none) : store db k v true = (0, db.insert k v) := by
  simp [store, h]

theorem store_noOverwrite_of_some {db : Finmap β} {k : κ} {w : β k} (v : β k)
    (h : db.lookup k = some w) : store db k v true = (dbKeyexist, db) := by
  simp [store, h]

theorem remove_of_mem {db : Finmap β} {k : κ} (h : k ∈ db) :
    remove db k = (0, db.erase k) := by
  rw [remove, if_pos (Finmap.lookup_isSome.mpr h)]

theorem remove_of_notMem {db : Finmap β} {k : κ} (h : k ∉ db) :
    remove db k = (dbNotfound, db) := by
  rw [remove, if_neg fun hsome => h (Finmap.lookup_isSome.mp hsome)]

theorem erase_of_notMem {db : Finmap β} {k : κ} (h : k ∉ db) :
    db.erase k = db := by
  apply Finmap.ext_lookup
  intro j
  by_cases hj : j = k
  · subst hj
    rw [Finmap.lookup_erase, Finmap.lookup_eq_none.mpr h]
  · rw [Finmap.lookup_erase_ne hj]

theorem erase_eq_erase_iff {db : Finmap β} {j k : κ} (h : j ∈ db) :
    db.erase j = db.erase k ↔ j = k := by
  constructor
  · intro heq
    by_contra hne
    have hmem : j ∈ db.erase k := Finmap.mem_erase.mpr ⟨hne, h⟩
    rw [← heq] at hmem
    exact Finmap.notMem_erase_self hmem
  · rintro rfl
    rfl

end Mangoo.Foundation
