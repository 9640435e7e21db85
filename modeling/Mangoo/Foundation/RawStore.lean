import Mangoo.Foundation.Program

/-!
# Stores over raw keys

A database sees keys and records as raw data and keeps them in the order of a comparison
function that the program gives it.  Several raw keys may stand for one key.  When the
function compares them as the keys they stand for, a program has the results on the raw
store that it has on the finite map.
-/

namespace Mangoo.Foundation

variable {ρ δ κ : Type} {β : κ → Type} {α : Type} [LinearOrder κ]

/-- Raw keys and records with the comparison function of the store. -/
structure RawFormat (ρ δ : Type) {κ : Type} [LinearOrder κ] (β : κ → Type) where
  compare : ρ → ρ → Int
  key : ρ → Option κ
  data : (k : κ) → β k → δ
  record : (k : κ) → δ → Option (β k)
  exists_key : ∀ k, ∃ raw, key raw = some k
  compare_lt : ∀ {raw raw' k k'}, key raw = some k → key raw' = some k' →
    (compare raw raw' < 0 ↔ k < k')
  compare_eq : ∀ {raw raw' k k'}, key raw = some k → key raw' = some k' →
    (compare raw raw' = 0 ↔ k = k')
  record_data : ∀ k v, record k (data k v) = some v

abbrev RawDb (ρ δ : Type) := List (ρ × δ)

namespace RawFormat

variable (F : RawFormat ρ δ β)

/-! ## The calls of the database -/

def find (raw : RawDb ρ δ) (key : ρ) : Option (ρ × δ) :=
  raw.find? fun entry => decide (F.compare key entry.1 = 0)

def findNext (raw : RawDb ρ δ) (key : ρ) : Option (ρ × δ) :=
  raw.find? fun entry => decide (F.compare key entry.1 < 0)

/-- A record that is there keeps its raw key. -/
def insert : RawDb ρ δ → ρ → δ → RawDb ρ δ
  | [], key, d => [(key, d)]
  | first :: rest, key, d =>
      if F.compare key first.1 < 0 then (key, d) :: first :: rest
      else if F.compare key first.1 = 0 then (first.1, d) :: rest
      else first :: insert rest key d

def erase (raw : RawDb ρ δ) (key : ρ) : RawDb ρ δ :=
  raw.filter fun entry => decide (F.compare key entry.1 ≠ 0)

def fetch (raw : RawDb ρ δ) (key : ρ) (k : κ) : Except Int (β k) :=
  match F.find raw key with
  | none => .error dbNotfound
  | some entry =>
      match F.record k entry.2 with
      | none => .error dbBufferSmall
      | some v => .ok v

/-- A raw key or record that nothing stands for is no answer to the program. -/
def advance (raw : RawDb ρ δ) (key : ρ) : Except Int (Sigma β) :=
  match F.findNext raw key with
  | none => .error dbNotfound
  | some entry =>
      match F.key entry.1 with
      | none => .error dbBufferSmall
      | some n =>
          match F.record n entry.2 with
          | none => .error dbBufferSmall
          | some v => .ok ⟨n, v⟩

def store (raw : RawDb ρ δ) (key : ρ) (d : δ) (noOverwrite : Bool) : Int × RawDb ρ δ :=
  if noOverwrite = true ∧ (F.find raw key).isSome = true then (dbKeyexist, raw)
  else (0, F.insert raw key d)

def remove (raw : RawDb ρ δ) (key : ρ) : Int × RawDb ρ δ :=
  if (F.find raw key).isSome = true then (0, F.erase raw key) else (dbNotfound, raw)

/-- `Exec` over a raw store.  Each call may pass any raw key that stands for its key. -/
inductive Exec (faulty : Prop) : Prog β α → RawDb ρ δ → α → RawDb ρ δ → Prop
  | ret {a raw} : Exec faulty (.ret a) raw a raw
  | cursor {cont raw a raw'} : Exec faulty (cont 0) raw a raw' →
      Exec faulty (.cursor cont) raw a raw'
  | get {k key cont raw a raw'} : F.key key = some k →
      Exec faulty (cont (F.fetch raw key k)) raw a raw' → Exec faulty (.get k cont) raw a raw'
  | next {k key cont raw a raw'} : F.key key = some k →
      Exec faulty (cont (F.advance raw key)) raw a raw' → Exec faulty (.next k cont) raw a raw'
  | put {k key v noOverwrite cont raw a raw'} : F.key key = some k →
      Exec faulty (cont (F.store raw key (F.data k v) noOverwrite).1)
        (F.store raw key (F.data k v) noOverwrite).2 a raw' →
      Exec faulty (.put k v noOverwrite cont) raw a raw'
  | del {k key cont raw a raw'} : F.key key = some k →
      Exec faulty (cont (F.remove raw key).1) (F.remove raw key).2 a raw' →
      Exec faulty (.del k cont) raw a raw'
  | cursorFault {cont raw e a raw'} : faulty → Prog.IsFault e →
      Exec faulty (cont e) raw a raw' → Exec faulty (.cursor cont) raw a raw'
  | getFault {k cont raw e a raw'} : faulty → Prog.IsFault e →
      Exec faulty (cont (.error e)) raw a raw' → Exec faulty (.get k cont) raw a raw'
  | nextFault {k cont raw e a raw'} : faulty → Prog.IsFault e →
      Exec faulty (cont (.error e)) raw a raw' → Exec faulty (.next k cont) raw a raw'
  | putFault {k v noOverwrite cont raw e a raw'} : faulty → Prog.IsFault e →
      Exec faulty (cont e) raw a raw' → Exec faulty (.put k v noOverwrite cont) raw a raw'
  | delFault {k cont raw e a raw'} : faulty → Prog.IsFault e →
      Exec faulty (cont e) raw a raw' → Exec faulty (.del k cont) raw a raw'

/-! ## What a raw store holds -/

/-- The entries are in order and are the records of the finite map. -/
structure Holds (raw : RawDb ρ δ) (db : Finmap β) : Prop where
  sorted : raw.Pairwise fun a b => F.compare a.1 b.1 < 0
  entry : ∀ e ∈ raw, ∃ k v, F.key e.1 = some k ∧ F.record k e.2 = some v ∧
    db.lookup k = some v
  stored : ∀ k v, db.lookup k = some v →
    ∃ e ∈ raw, F.key e.1 = some k ∧ F.record k e.2 = some v

theorem holds_nil : F.Holds [] ∅ where
  sorted := .nil
  entry := by simp
  stored := by simp

variable {F} {raw raw' : RawDb ρ δ} {db db' : Finmap β} {key : ρ} {k : κ} {d : δ}

theorem Holds.keyed (h : F.Holds raw db) : ∀ e ∈ raw, ∃ k, F.key e.1 = some k := by
  intro e he
  obtain ⟨k, -, hkey, -⟩ := h.entry e he
  exact ⟨k, hkey⟩

theorem Holds.lookup_eq_some (h : F.Holds raw db) {db' : Finmap β} (h' : F.Holds raw db')
    {v : β k} (hlookup : db.lookup k = some v) : db'.lookup k = some v := by
  obtain ⟨e, he, hkey, hrecord⟩ := h.stored k v hlookup
  obtain ⟨k', v', hkey', hrecord', hlookup'⟩ := h'.entry e he
  obtain rfl := Option.some.inj (hkey.symm.trans hkey')
  rw [hlookup', ← hrecord', hrecord]

theorem Holds.unique (h : F.Holds raw db) {db' : Finmap β} (h' : F.Holds raw db') :
    db = db' := by
  apply Finmap.ext_lookup
  intro k
  ext v
  exact ⟨h.lookup_eq_some h', h'.lookup_eq_some h⟩

theorem Holds.find_eq_some (h : F.Holds raw db) (hkey : F.key key = some k) {e : ρ × δ}
    (hfind : F.find raw key = some e) :
    ∃ v, F.record k e.2 = some v ∧ db.lookup k = some v := by
  obtain ⟨k', v, hkey', hrecord, hlookup⟩ := h.entry e (List.mem_of_find?_eq_some hfind)
  have hzero := List.find?_some hfind
  rw [decide_eq_true_eq, F.compare_eq hkey hkey'] at hzero
  subst hzero
  exact ⟨v, hrecord, hlookup⟩

theorem Holds.find_eq_none (h : F.Holds raw db) (hkey : F.key key = some k)
    (hfind : F.find raw key = none) : db.lookup k = none := by
  cases hlookup : db.lookup k with
  | none => rfl
  | some v =>
      obtain ⟨e, he, hkey', -⟩ := h.stored k v hlookup
      have hne := List.find?_eq_none.mp hfind e he
      rw [decide_eq_true_eq] at hne
      exact absurd ((F.compare_eq hkey hkey').mpr rfl) hne

theorem Holds.isSome_find (h : F.Holds raw db) (hkey : F.key key = some k) :
    (F.find raw key).isSome = (db.lookup k).isSome := by
  cases hfind : F.find raw key with
  | none =>
      rw [h.find_eq_none hkey hfind]
      rfl
  | some e =>
      obtain ⟨v, -, hlookup⟩ := h.find_eq_some hkey hfind
      rw [hlookup]
      rfl

theorem Holds.fetch_eq (h : F.Holds raw db) (hkey : F.key key = some k) :
    F.fetch raw key k = Foundation.fetch db k := by
  unfold fetch
  cases hfind : F.find raw key with
  | none => rw [fetch_of_lookup_none (h.find_eq_none hkey hfind)]
  | some e =>
      obtain ⟨v, hrecord, hlookup⟩ := h.find_eq_some hkey hfind
      simp only [hrecord, fetch_of_lookup hlookup]

theorem Holds.findNext_eq_some (h : F.Holds raw db) (hkey : F.key key = some k) {e : ρ × δ}
    (hfind : F.findNext raw key = some e) :
    ∃ n v, F.key e.1 = some n ∧ F.record n e.2 = some v ∧ nextKey db k = some n ∧
      db.lookup n = some v := by
  obtain ⟨hlt, before, after, rfl, hbefore⟩ := List.find?_eq_some_iff_append.mp hfind
  obtain ⟨n, v, hn, hrecord, hlookup⟩ := h.entry e (by simp)
  rw [decide_eq_true_eq, F.compare_lt hkey hn] at hlt
  refine ⟨n, v, hn, hrecord, ?_, hlookup⟩
  rw [nextKey_eq_some_iff]
  refine ⟨Finmap.mem_iff.mpr ⟨v, hlookup⟩, hlt, ?_⟩
  intro j hj hkj
  obtain ⟨w, hw⟩ := Finmap.mem_iff.mp hj
  obtain ⟨e', he', hj', -⟩ := h.stored j w hw
  rw [List.mem_append, List.mem_cons] at he'
  rcases he' with he' | rfl | he'
  · -- everything in front of the entry is not above the key
    have hnot := hbefore e' he'
    rw [Bool.not_eq_true', decide_eq_false_iff_not, F.compare_lt hkey hj'] at hnot
    exact absurd hkj hnot
  · rw [hn] at hj'
    exact le_of_eq (Option.some.inj hj')
  · have hsorted := (List.pairwise_append.mp h.sorted).2.1
    have hafter := (List.pairwise_cons.mp hsorted).1 e' he'
    exact le_of_lt ((F.compare_lt hn hj').mp hafter)

theorem Holds.findNext_eq_none (h : F.Holds raw db) (hkey : F.key key = some k)
    (hfind : F.findNext raw key = none) : nextKey db k = none := by
  rw [nextKey_eq_none_iff]
  intro j hj hkj
  obtain ⟨v, hv⟩ := Finmap.mem_iff.mp hj
  obtain ⟨e, he, hj', -⟩ := h.stored j v hv
  have hnot := List.find?_eq_none.mp hfind e he
  rw [decide_eq_true_eq, F.compare_lt hkey hj'] at hnot
  exact hnot hkj

theorem Holds.advance_eq (h : F.Holds raw db) (hkey : F.key key = some k) :
    F.advance raw key = Foundation.advance db k := by
  unfold advance
  cases hfind : F.findNext raw key with
  | none => rw [advance_of_nextKey_none (h.findNext_eq_none hkey hfind)]
  | some e =>
      obtain ⟨n, v, hn, hrecord, hnext, hlookup⟩ := h.findNext_eq_some hkey hfind
      simp only [hn, hrecord, advance_of_nextKey_some hnext hlookup]

/-! ## Inserting and erasing -/

theorem mem_insert_self (hkey : F.key key = some k)
    (hkeyed : ∀ e ∈ raw, ∃ k, F.key e.1 = some k) :
    ∃ e ∈ F.insert raw key d, F.key e.1 = some k ∧ e.2 = d := by
  induction raw with
  | nil => exact ⟨(key, d), by simp [insert], hkey, rfl⟩
  | cons first rest ih =>
      rw [insert]
      split_ifs with hlt heq
      · exact ⟨(key, d), by simp, hkey, rfl⟩
      · obtain ⟨k', hkey'⟩ := hkeyed first (by simp)
        rw [(F.compare_eq hkey hkey').mp heq]
        exact ⟨(first.1, d), by simp, hkey', rfl⟩
      · obtain ⟨e, he, hself⟩ := ih fun e he => hkeyed e (List.mem_cons_of_mem _ he)
        exact ⟨e, List.mem_cons_of_mem _ he, hself⟩

theorem mem_insert_of_ne {e : ρ × δ} (hkey : F.key key = some k) (he : e ∈ raw)
    (hkeyed : ∃ k', F.key e.1 = some k') (hne : F.key e.1 ≠ some k) :
    e ∈ F.insert raw key d := by
  obtain ⟨k', hkey'⟩ := hkeyed
  induction raw with
  | nil => cases he
  | cons first rest ih =>
      rw [insert]
      rcases List.mem_cons.mp he with rfl | hrest
      · have hcompare : F.compare key e.1 ≠ 0 := by
          rw [Ne, F.compare_eq hkey hkey']
          rintro rfl
          exact hne hkey'
        split_ifs <;> simp
      · split_ifs
        · exact List.mem_cons_of_mem _ he
        · exact List.mem_cons_of_mem _ hrest
        · exact List.mem_cons_of_mem _ (ih hrest)

theorem mem_insert {e : ρ × δ} (hkey : F.key key = some k)
    (hkeyed : ∀ e ∈ raw, ∃ k, F.key e.1 = some k)
    (hsorted : raw.Pairwise fun a b => F.compare a.1 b.1 < 0) (he : e ∈ F.insert raw key d) :
    F.key e.1 = some k ∧ e.2 = d ∨ e ∈ raw ∧ F.key e.1 ≠ some k := by
  induction raw with
  | nil =>
      rw [insert, List.mem_singleton] at he
      subst he
      exact .inl ⟨hkey, rfl⟩
  | cons first rest ih =>
      obtain ⟨k₁, hk₁⟩ := hkeyed first (by simp)
      obtain ⟨hfirst, hrest⟩ := List.pairwise_cons.mp hsorted
      have hkeyedRest : ∀ e ∈ rest, ∃ k, F.key e.1 = some k := fun e he =>
        hkeyed e (List.mem_cons_of_mem _ he)
      -- no entry behind the first has its key or a smaller one
      have habove : ∀ e ∈ rest, k ≤ k₁ → F.key e.1 ≠ some k := by
        intro e he hle hself
        have hlt := (F.compare_lt hk₁ hself).mp (hfirst e he)
        exact absurd hlt (not_lt.mpr hle)
      rw [insert] at he
      split_ifs at he with hlt heq
      · rw [F.compare_lt hkey hk₁] at hlt
        rcases List.mem_cons.mp he with rfl | he
        · exact .inl ⟨hkey, rfl⟩
        · refine .inr ⟨he, ?_⟩
          rcases List.mem_cons.mp he with rfl | he
          · rw [hk₁]
            simpa using ne_of_gt hlt
          · exact habove e he (le_of_lt hlt)
      · rw [F.compare_eq hkey hk₁] at heq
        subst heq
        rcases List.mem_cons.mp he with rfl | he
        · exact .inl ⟨hk₁, rfl⟩
        · exact .inr ⟨List.mem_cons_of_mem _ he, habove e he le_rfl⟩
      · rcases List.mem_cons.mp he with rfl | he
        · refine .inr ⟨by simp, fun hself => heq ?_⟩
          exact (F.compare_eq hkey hself).mpr rfl
        · rcases ih hkeyedRest hrest he with hself | ⟨hmem, hne⟩
          · exact .inl hself
          · exact .inr ⟨List.mem_cons_of_mem _ hmem, hne⟩

theorem pairwise_insert (hkey : F.key key = some k)
    (hkeyed : ∀ e ∈ raw, ∃ k, F.key e.1 = some k)
    (hsorted : raw.Pairwise fun a b => F.compare a.1 b.1 < 0) :
    (F.insert raw key d).Pairwise fun a b => F.compare a.1 b.1 < 0 := by
  induction raw with
  | nil => simp [insert]
  | cons first rest ih =>
      obtain ⟨k₁, hk₁⟩ := hkeyed first (by simp)
      obtain ⟨hfirst, hrest⟩ := List.pairwise_cons.mp hsorted
      have hkeyedRest : ∀ e ∈ rest, ∃ k, F.key e.1 = some k := fun e he =>
        hkeyed e (List.mem_cons_of_mem _ he)
      rw [insert]
      split_ifs with hlt heq
      · refine List.pairwise_cons.mpr ⟨?_, hsorted⟩
        intro e he
        rcases List.mem_cons.mp he with rfl | he
        · exact hlt
        · obtain ⟨k₂, hk₂⟩ := hkeyedRest e he
          have hnext := hfirst e he
          rw [F.compare_lt hk₁ hk₂] at hnext
          rw [F.compare_lt hkey hk₁] at hlt
          exact (F.compare_lt hkey hk₂).mpr (hlt.trans hnext)
      · exact List.pairwise_cons.mpr ⟨hfirst, hrest⟩
      · refine List.pairwise_cons.mpr ⟨?_, ih hkeyedRest hrest⟩
        intro e he
        rcases mem_insert hkey hkeyedRest hrest he with ⟨hself, -⟩ | ⟨hmem, -⟩
        · rw [F.compare_lt hkey hk₁] at hlt
          rw [F.compare_eq hkey hk₁] at heq
          exact (F.compare_lt hk₁ hself).mpr (lt_of_le_of_ne (not_lt.mp hlt) (Ne.symm heq))
        · exact hfirst e hmem

theorem Holds.insert (h : F.Holds raw db) (hkey : F.key key = some k) (v : β k) :
    F.Holds (F.insert raw key (F.data k v)) (db.insert k v) where
  sorted := pairwise_insert hkey h.keyed h.sorted
  entry := by
    intro e he
    rcases mem_insert hkey h.keyed h.sorted he with ⟨hself, hdata⟩ | ⟨hmem, hne⟩
    · exact ⟨k, v, hself, by rw [hdata, F.record_data], Finmap.lookup_insert _⟩
    · obtain ⟨j, w, hj, hrecord, hlookup⟩ := h.entry e hmem
      have hjk : j ≠ k := by
        rintro rfl
        exact hne hj
      exact ⟨j, w, hj, hrecord, by rw [Finmap.lookup_insert_of_ne _ hjk, hlookup]⟩
  stored := by
    intro j w hlookup
    by_cases hjk : j = k
    · subst hjk
      rw [Finmap.lookup_insert] at hlookup
      obtain rfl := Option.some.inj hlookup
      obtain ⟨e, he, hself, hdata⟩ := mem_insert_self (d := F.data j v) hkey h.keyed
      exact ⟨e, he, hself, by rw [hdata, F.record_data]⟩
    · rw [Finmap.lookup_insert_of_ne _ hjk] at hlookup
      obtain ⟨e, he, hj, hrecord⟩ := h.stored j w hlookup
      have hne : F.key e.1 ≠ some k := by
        rw [hj]
        simpa using hjk
      exact ⟨e, mem_insert_of_ne hkey he ⟨j, hj⟩ hne, hj, hrecord⟩

theorem Holds.erase (h : F.Holds raw db) (hkey : F.key key = some k) :
    F.Holds (F.erase raw key) (db.erase k) where
  sorted := h.sorted.filter _
  entry := by
    intro e he
    rw [RawFormat.erase, List.mem_filter, decide_eq_true_eq] at he
    obtain ⟨j, w, hj, hrecord, hlookup⟩ := h.entry e he.1
    have hne : j ≠ k := fun heq => he.2 ((F.compare_eq hkey hj).mpr heq.symm)
    exact ⟨j, w, hj, hrecord, by rw [Finmap.lookup_erase_ne hne, hlookup]⟩
  stored := by
    intro j w hlookup
    have hne : j ≠ k := by
      rintro rfl
      rw [Finmap.lookup_erase] at hlookup
      cases hlookup
    rw [Finmap.lookup_erase_ne hne] at hlookup
    obtain ⟨e, he, hj, hrecord⟩ := h.stored j w hlookup
    refine ⟨e, ?_, hj, hrecord⟩
    rw [RawFormat.erase, List.mem_filter, decide_eq_true_eq]
    exact ⟨he, fun hzero => hne ((F.compare_eq hkey hj).mp hzero).symm⟩

theorem Holds.store (h : F.Holds raw db) (hkey : F.key key = some k) (v : β k)
    (noOverwrite : Bool) :
    (F.store raw key (F.data k v) noOverwrite).1 = (Foundation.store db k v noOverwrite).1 ∧
      F.Holds (F.store raw key (F.data k v) noOverwrite).2
        (Foundation.store db k v noOverwrite).2 := by
  unfold RawFormat.store Foundation.store
  rw [h.isSome_find hkey]
  split_ifs
  · exact ⟨rfl, h⟩
  · exact ⟨rfl, h.insert hkey v⟩

theorem Holds.remove (h : F.Holds raw db) (hkey : F.key key = some k) :
    (F.remove raw key).1 = (Foundation.remove db k).1 ∧
      F.Holds (F.remove raw key).2 (Foundation.remove db k).2 := by
  unfold RawFormat.remove Foundation.remove
  rw [h.isSome_find hkey]
  split_ifs
  · exact ⟨rfl, h.erase hkey⟩
  · exact ⟨rfl, h⟩

/-! ## Programs -/

variable {faulty : Prop} {x : Prog β α} {a : α}

/-- What a program can do on the raw store it can do on the finite map. -/
theorem Holds.exec (h : F.Holds raw db) (hexec : F.Exec faulty x raw a raw') :
    ∃ db', Prog.Exec faulty x db a db' ∧ F.Holds raw' db' := by
  induction hexec generalizing db with
  | ret => exact ⟨db, .ret, h⟩
  | cursor _ ih =>
      obtain ⟨db', hexec, h'⟩ := ih h
      exact ⟨db', .cursor hexec, h'⟩
  | get hkey _ ih =>
      obtain ⟨db', hexec, h'⟩ := ih h
      rw [h.fetch_eq hkey] at hexec
      exact ⟨db', .get hexec, h'⟩
  | next hkey _ ih =>
      obtain ⟨db', hexec, h'⟩ := ih h
      rw [h.advance_eq hkey] at hexec
      exact ⟨db', .next hexec, h'⟩
  | @put k key v noOverwrite _ _ _ _ hkey _ ih =>
      obtain ⟨hcode, hstored⟩ := h.store hkey v noOverwrite
      obtain ⟨db', hexec, h'⟩ := ih hstored
      rw [hcode] at hexec
      exact ⟨db', .put hexec, h'⟩
  | del hkey _ ih =>
      obtain ⟨hcode, hremoved⟩ := h.remove hkey
      obtain ⟨db', hexec, h'⟩ := ih hremoved
      rw [hcode] at hexec
      exact ⟨db', .del hexec, h'⟩
  | cursorFault hf he _ ih =>
      obtain ⟨db', hexec, h'⟩ := ih h
      exact ⟨db', .cursorFault hf he hexec, h'⟩
  | getFault hf he _ ih =>
      obtain ⟨db', hexec, h'⟩ := ih h
      exact ⟨db', .getFault hf he hexec, h'⟩
  | nextFault hf he _ ih =>
      obtain ⟨db', hexec, h'⟩ := ih h
      exact ⟨db', .nextFault hf he hexec, h'⟩
  | putFault hf he _ ih =>
      obtain ⟨db', hexec, h'⟩ := ih h
      exact ⟨db', .putFault hf he hexec, h'⟩
  | delFault hf he _ ih =>
      obtain ⟨db', hexec, h'⟩ := ih h
      exact ⟨db', .delFault hf he hexec, h'⟩

/-- What a program can do on the finite map it can do on the raw store. -/
theorem Holds.raw_exec (h : F.Holds raw db) (hexec : Prog.Exec faulty x db a db') :
    ∃ raw', F.Exec faulty x raw a raw' ∧ F.Holds raw' db' := by
  induction hexec generalizing raw with
  | ret => exact ⟨raw, .ret, h⟩
  | cursor _ ih =>
      obtain ⟨raw', hexec, h'⟩ := ih h
      exact ⟨raw', .cursor hexec, h'⟩
  | @get k _ _ _ _ _ ih =>
      obtain ⟨key, hkey⟩ := F.exists_key k
      obtain ⟨raw', hexec, h'⟩ := ih h
      rw [← h.fetch_eq hkey] at hexec
      exact ⟨raw', .get hkey hexec, h'⟩
  | @next k _ _ _ _ _ ih =>
      obtain ⟨key, hkey⟩ := F.exists_key k
      obtain ⟨raw', hexec, h'⟩ := ih h
      rw [← h.advance_eq hkey] at hexec
      exact ⟨raw', .next hkey hexec, h'⟩
  | @put k v noOverwrite _ _ _ _ _ ih =>
      obtain ⟨key, hkey⟩ := F.exists_key k
      obtain ⟨hcode, hstored⟩ := h.store hkey v noOverwrite
      obtain ⟨raw', hexec, h'⟩ := ih hstored
      rw [← hcode] at hexec
      exact ⟨raw', .put hkey hexec, h'⟩
  | @del k _ _ _ _ _ ih =>
      obtain ⟨key, hkey⟩ := F.exists_key k
      obtain ⟨hcode, hremoved⟩ := h.remove hkey
      obtain ⟨raw', hexec, h'⟩ := ih hremoved
      rw [← hcode] at hexec
      exact ⟨raw', .del hkey hexec, h'⟩
  | cursorFault hf he _ ih =>
      obtain ⟨raw', hexec, h'⟩ := ih h
      exact ⟨raw', .cursorFault hf he hexec, h'⟩
  | getFault hf he _ ih =>
      obtain ⟨raw', hexec, h'⟩ := ih h
      exact ⟨raw', .getFault hf he hexec, h'⟩
  | nextFault hf he _ ih =>
      obtain ⟨raw', hexec, h'⟩ := ih h
      exact ⟨raw', .nextFault hf he hexec, h'⟩
  | putFault hf he _ ih =>
      obtain ⟨raw', hexec, h'⟩ := ih h
      exact ⟨raw', .putFault hf he hexec, h'⟩
  | delFault hf he _ ih =>
      obtain ⟨raw', hexec, h'⟩ := ih h
      exact ⟨raw', .delFault hf he hexec, h'⟩

end RawFormat

end Mangoo.Foundation
