import Mangoo.Foundation.Calls
import Mangoo.Foundation.Runs

/-!
# Rely and guarantee

Rules for a program whose calls other programs interrupt.  `Satisfies R G Q x db`: while the
others change the store by `R` only, every call of `x` changes it by `G`, and the value that
`x` returns satisfies `Q` from then on.
-/

namespace Mangoo.Foundation

variable {κ : Type} {β : κ → Type} {α γ ι : Type}

namespace Prog

/-- What others do that keep an invariant. -/
def Keeps (I : Finmap β → Prop) (db db' : Finmap β) : Prop := I db → I db'

theorem Keeps.refl (I : Finmap β → Prop) (db : Finmap β) : Keeps I db db := id

theorem Keeps.trans {I : Finmap β → Prop} (db₁ db₂ db₃ : Finmap β) (h : Keeps I db₁ db₂)
    (h' : Keeps I db₂ db₃) : Keeps I db₁ db₃ := h' ∘ h

variable [LinearOrder κ]

/-- Calls may fail as in `Call`. -/
def Satisfies (R G : Finmap β → Finmap β → Prop) (Q : α → Finmap β → Prop) :
    Prog β α → Finmap β → Prop
  | .ret a, db => ∀ db', R db db' → Q a db'
  | .spin, _ => True
  | .cursor cont, db => ∀ db', R db db' →
      (cont 0).Satisfies R G Q db' ∧ ∀ e, IsFault e → (cont e).Satisfies R G Q db'
  | .get k cont, db => ∀ db', R db db' →
      (cont (fetch db' k)).Satisfies R G Q db' ∧
        ∀ e, IsFault e → (cont (.error e)).Satisfies R G Q db'
  | .next k cont, db => ∀ db', R db db' →
      (cont (advance db' k)).Satisfies R G Q db' ∧
        ∀ e, IsFault e → (cont (.error e)).Satisfies R G Q db'
  | .put k v noOverwrite cont, db => ∀ db', R db db' →
      G db' (store db' k v noOverwrite).2 ∧
        (cont (store db' k v noOverwrite).1).Satisfies R G Q (store db' k v noOverwrite).2 ∧
          ∀ e, IsFault e → (cont e).Satisfies R G Q db'
  | .del k cont, db => ∀ db', R db db' →
      G db' (remove db' k).2 ∧ (cont (remove db' k).1).Satisfies R G Q (remove db' k).2 ∧
        ∀ e, IsFault e → (cont e).Satisfies R G Q db'

variable {R G : Finmap β → Finmap β → Prop} {Q : α → Finmap β → Prop} {db db' : Finmap β}

/-! ## Rules -/

theorem Satisfies.rely {x : Prog β α} (h : x.Satisfies R G Q db)
    (htrans : ∀ db₁ db₂ db₃, R db₁ db₂ → R db₂ db₃ → R db₁ db₃) (hR : R db db') :
    x.Satisfies R G Q db' := by
  cases x with
  | spin => trivial
  | ret | cursor | get | next | put | del => exact fun mid hmid => h mid (htrans _ _ _ hR hmid)

theorem Satisfies.call {x x' : Prog β α} {failed : Option (Request κ)}
    (h : x.Satisfies R G Q db) (hcall : Call x db failed x' db') (hrefl : ∀ db, R db db)
    (hguarantee : ∀ db, G db db) : G db db' ∧ x'.Satisfies R G Q db' := by
  cases hcall with
  | cursor => exact ⟨hguarantee _, (h _ (hrefl _)).1⟩
  | get => exact ⟨hguarantee _, (h _ (hrefl _)).1⟩
  | next => exact ⟨hguarantee _, (h _ (hrefl _)).1⟩
  | put => exact ⟨(h _ (hrefl _)).1, (h _ (hrefl _)).2.1⟩
  | del => exact ⟨(h _ (hrefl _)).1, (h _ (hrefl _)).2.1⟩
  | cursorFault he => exact ⟨hguarantee _, (h _ (hrefl _)).2 _ he⟩
  | getFault he => exact ⟨hguarantee _, (h _ (hrefl _)).2 _ he⟩
  | nextFault he => exact ⟨hguarantee _, (h _ (hrefl _)).2 _ he⟩
  | putFault he => exact ⟨hguarantee _, (h _ (hrefl _)).2.2 _ he⟩
  | delFault he => exact ⟨hguarantee _, (h _ (hrefl _)).2.2 _ he⟩

theorem Satisfies.bind {P : γ → Finmap β → Prop} {x : Prog β γ} {f : γ → Prog β α}
    (h : x.Satisfies R G P db)
    (hf : ∀ c db, (∀ db', R db db' → P c db') → (f c).Satisfies R G Q db) :
    (x >>= f).Satisfies R G Q db := by
  change (x.bind f).Satisfies R G Q db
  induction x generalizing db with
  | ret c => exact hf c db h
  | spin => trivial
  | cursor cont ih =>
      exact fun mid hmid => ⟨ih _ (h mid hmid).1, fun e he => ih _ ((h mid hmid).2 e he)⟩
  | get k cont ih =>
      exact fun mid hmid => ⟨ih _ (h mid hmid).1, fun e he => ih _ ((h mid hmid).2 e he)⟩
  | next k cont ih =>
      exact fun mid hmid => ⟨ih _ (h mid hmid).1, fun e he => ih _ ((h mid hmid).2 e he)⟩
  | put k v noOverwrite cont ih =>
      exact fun mid hmid => ⟨(h mid hmid).1, ih _ (h mid hmid).2.1,
        fun e he => ih _ ((h mid hmid).2.2 e he)⟩
  | del k cont ih =>
      exact fun mid hmid => ⟨(h mid hmid).1, ih _ (h mid hmid).2.1,
        fun e he => ih _ ((h mid hmid).2.2 e he)⟩

theorem satisfies_true (x : Prog β α) (db : Finmap β) :
    x.Satisfies R (fun _ _ => True) (fun _ _ => True) db := by
  induction x generalizing db with
  | ret => exact fun _ _ => trivial
  | spin => trivial
  | cursor cont ih => exact fun mid _ => ⟨ih _ mid, fun _ _ => ih _ mid⟩
  | get k cont ih => exact fun mid _ => ⟨ih _ mid, fun _ _ => ih _ mid⟩
  | next k cont ih => exact fun mid _ => ⟨ih _ mid, fun _ _ => ih _ mid⟩
  | put k v noOverwrite cont ih => exact fun mid _ => ⟨trivial, ih _ _, fun _ _ => ih _ mid⟩
  | del k cont ih => exact fun mid _ => ⟨trivial, ih _ _, fun _ _ => ih _ mid⟩

theorem satisfies_pure {a : α} (h : ∀ db', R db db' → Q a db') :
    (pure a : Prog β α).Satisfies R G Q db := h

theorem satisfies_openCursor {P : Int → Finmap β → Prop}
    (h : ∀ mid db', R db mid → R mid db' → P 0 db')
    (hfault : ∀ e mid db', R db mid → R mid db' → IsFault e → P e db') :
    (openCursor : Prog β Int).Satisfies R G P db :=
  fun mid hmid => ⟨fun db' hdb' => h mid db' hmid hdb',
    fun e he db' hdb' => hfault e mid db' hmid hdb' he⟩

theorem satisfies_getRec {k : κ} {P : Except Int (β k) → Finmap β → Prop}
    (h : ∀ mid db', R db mid → R mid db' → P (fetch mid k) db')
    (hfault : ∀ e mid db', R db mid → R mid db' → IsFault e → P (.error e) db') :
    (getRec k : Prog β _).Satisfies R G P db :=
  fun mid hmid => ⟨fun db' hdb' => h mid db' hmid hdb',
    fun e he db' hdb' => hfault e mid db' hmid hdb' he⟩

theorem satisfies_nextRec {k : κ} {P : Except Int (Sigma β) → Finmap β → Prop}
    (h : ∀ mid db', R db mid → R mid db' → P (advance mid k) db')
    (hfault : ∀ e mid db', R db mid → R mid db' → IsFault e → P (.error e) db') :
    (nextRec k : Prog β _).Satisfies R G P db :=
  fun mid hmid => ⟨fun db' hdb' => h mid db' hmid hdb',
    fun e he db' hdb' => hfault e mid db' hmid hdb' he⟩

theorem satisfies_putRec {k : κ} {v : β k} {noOverwrite : Bool} {P : Int → Finmap β → Prop}
    (hguarantee : ∀ db, G db (store db k v noOverwrite).2)
    (h : ∀ db db', R (store db k v noOverwrite).2 db' → P (store db k v noOverwrite).1 db')
    (hfault : ∀ e db, IsFault e → P e db) :
    (putRec k v noOverwrite).Satisfies R G P db :=
  fun mid _ => ⟨hguarantee mid, h mid, fun e he _ _ => hfault e _ he⟩

/-! ## Others that keep an invariant -/

section Keeps

variable {I : Finmap β → Prop}

theorem satisfies_openCursor_keeps (h : I db) :
    (openCursor : Prog β Int).Satisfies (Keeps I) G (fun _ db => I db) db :=
  satisfies_openCursor (fun _ _ hmid hdb' => hdb' (hmid h))
    fun _ _ _ hmid hdb' _ => hdb' (hmid h)

theorem satisfies_getRec_keeps (k : κ) (h : I db) :
    (getRec k : Prog β _).Satisfies (Keeps I) G (fun _ db => I db) db :=
  satisfies_getRec (fun _ _ hmid hdb' => hdb' (hmid h)) fun _ _ _ hmid hdb' _ => hdb' (hmid h)

theorem satisfies_nextRec_keeps (k : κ) (h : I db) :
    (nextRec k : Prog β _).Satisfies (Keeps I) G (fun r db => I db ∧
      ((∃ mid, I mid ∧ r = advance mid k) ∨ ∃ e, IsFault e ∧ r = .error e)) db := by
  apply satisfies_nextRec
  · exact fun mid db' hmid hdb' => ⟨hdb' (hmid h), .inl ⟨mid, hmid h, rfl⟩⟩
  · exact fun e mid db' hmid hdb' he => ⟨hdb' (hmid h), .inr ⟨e, he, rfl⟩⟩

end Keeps

/-! ## Bounds on the calls -/

/-- While the others change the store by `R` only, the program returns after at most so many
calls. -/
def EndsWithin (R : Finmap β → Finmap β → Prop) : Nat → Prog β α → Finmap β → Prop
  | 0, x, _ => ∃ a, x = .ret a
  | n + 1, x, db => (∃ a, x = .ret a) ∨ x ≠ .spin ∧ ∀ mid failed x' db',
      R db mid → Call x mid failed x' db' → EndsWithin R n x' db'

variable {m n : Nat} {x : Prog β α}

theorem endsWithin_ret (n : Nat) (a : α) (db : Finmap β) :
    EndsWithin R n (.ret a : Prog β α) db := by
  cases n with
  | zero => exact ⟨a, rfl⟩
  | succ n => exact .inl ⟨a, rfl⟩

theorem EndsWithin.mono (h : EndsWithin R m x db) (hle : m ≤ n) : EndsWithin R n x db := by
  induction m generalizing n x db with
  | zero =>
      obtain ⟨a, rfl⟩ := h
      exact endsWithin_ret n a db
  | succ m ih =>
      cases n with
      | zero => exact absurd hle (Nat.not_succ_le_zero m)
      | succ n =>
          apply h.imp_right
          rintro ⟨hspin, hcalls⟩
          refine ⟨hspin, fun mid failed x' db' hmid hcall => ?_⟩
          exact ih (hcalls mid failed x' db' hmid hcall) (Nat.le_of_succ_le_succ hle)

theorem EndsWithin.rely (h : EndsWithin R n x db)
    (htrans : ∀ db₁ db₂ db₃, R db₁ db₂ → R db₂ db₃ → R db₁ db₃) (hR : R db db') :
    EndsWithin R n x db' := by
  cases n with
  | zero => exact h
  | succ n =>
      apply h.imp_right
      rintro ⟨hspin, hcalls⟩
      exact ⟨hspin, fun mid failed x' db' hmid => hcalls mid failed x' db' (htrans _ _ _ hR hmid)⟩

theorem EndsWithin.call {x' : Prog β α} {failed : Option (Request κ)} (h : EndsWithin R n x db)
    (hcall : Call x db failed x' db') (hrefl : ∀ db, R db db) :
    ∃ m, n = m + 1 ∧ EndsWithin R m x' db' := by
  have hret : ¬ ∃ a, x = .ret a := by
    rintro ⟨a, rfl⟩
    cases hcall
  cases n with
  | zero => exact absurd h hret
  | succ n =>
      obtain ⟨-, hcalls⟩ := h.resolve_left hret
      exact ⟨n, rfl, hcalls db failed x' db' (hrefl db) hcall⟩

theorem EndsWithin.can_call (h : EndsWithin R n x db) :
    (∃ a, x = .ret a) ∨ ∃ x' db', Call x db none x' db' := by
  cases x with
  | ret a => exact .inl ⟨a, rfl⟩
  | spin =>
      cases n with
      | zero =>
          obtain ⟨a, ha⟩ := h
          cases ha
      | succ n =>
          obtain ⟨a, ha⟩ | ⟨hspin, -⟩ := h
          · cases ha
          · exact absurd rfl hspin
  | cursor cont => exact .inr ⟨_, _, .cursor⟩
  | get k cont => exact .inr ⟨_, _, .get⟩
  | next k cont => exact .inr ⟨_, _, .next⟩
  | put k v noOverwrite cont => exact .inr ⟨_, _, .put⟩
  | del k cont => exact .inr ⟨_, _, .del⟩

theorem EndsWithin.bind {P : γ → Finmap β → Prop} {y : Prog β γ} {f : γ → Prog β α}
    (h : EndsWithin R m y db) (hy : y.Satisfies R G P db)
    (htrans : ∀ db₁ db₂ db₃, R db₁ db₂ → R db₂ db₃ → R db₁ db₃) (hrefl : ∀ db, R db db)
    (hguarantee : ∀ db, G db db)
    (hf : ∀ c db, (∀ db', R db db' → P c db') → EndsWithin R n (f c) db) :
    EndsWithin R (m + n) (y >>= f) db := by
  change EndsWithin R (m + n) (y.bind f) db
  induction m generalizing y db with
  | zero =>
      obtain ⟨c, rfl⟩ := h
      rw [Nat.zero_add]
      exact hf c db hy
  | succ m ih =>
      rcases h with ⟨c, rfl⟩ | ⟨hspin, hcalls⟩
      · exact (hf c db hy).mono (Nat.le_add_left n (m + 1))
      · rw [Nat.succ_add]
        by_cases hret : ∃ c, y = .ret c
        · obtain ⟨c, rfl⟩ := hret
          exact (hf c db hy).mono (Nat.le_succ_of_le (Nat.le_add_left n m))
        · refine .inr ⟨?_, fun mid failed x' db' hmid hcall => ?_⟩
          · cases y with
            | ret c => exact absurd ⟨c, rfl⟩ hret
            | spin => exact absurd rfl hspin
            | cursor | get | next | put | del => exact nofun
          · obtain ⟨y', hy', rfl⟩ := hcall.bind_inv.resolve_left hret
            apply ih (hcalls mid failed y' db' hmid hy')
            exact ((hy.rely htrans hmid).call hy' hrefl hguarantee).2

theorem EndsWithin.bind_keeps {I : Finmap β → Prop} {P : γ → Finmap β → Prop} {y : Prog β γ}
    {f : γ → Prog β α} (h : EndsWithin (Keeps I) m y db)
    (hy : y.Satisfies (Keeps I) (fun _ _ => True) P db)
    (hf : ∀ c db, (∀ db', Keeps I db db' → P c db') → EndsWithin (Keeps I) n (f c) db) :
    EndsWithin (Keeps I) (m + n) (y >>= f) db :=
  h.bind hy Keeps.trans (Keeps.refl I) (fun _ => trivial) hf

theorem endsWithin_openCursor : EndsWithin R 1 (openCursor : Prog β Int) db := by
  refine .inr ⟨nofun, fun mid failed x' db' _ hcall => ?_⟩
  cases hcall with
  | cursor | cursorFault => exact ⟨_, rfl⟩

theorem endsWithin_getRec (k : κ) : EndsWithin R 1 (getRec k : Prog β _) db := by
  refine .inr ⟨nofun, fun mid failed x' db' _ hcall => ?_⟩
  cases hcall with
  | get | getFault => exact ⟨_, rfl⟩

theorem endsWithin_nextRec (k : κ) : EndsWithin R 1 (nextRec k : Prog β _) db := by
  refine .inr ⟨nofun, fun mid failed x' db' _ hcall => ?_⟩
  cases hcall with
  | next | nextFault => exact ⟨_, rfl⟩

end Prog

/-! ## Pools -/

section Pools

variable [LinearOrder κ] [DecidableEq ι] {s s' : Pool ι β α} {schedule : List ι}

/-- A thread among others that change the store by `R` only. -/
theorem Pool.satisfies_of_run {R G : Finmap β → Finmap β → Prop} {Q : α → Finmap β → Prop} {i : ι}
    (h : Run (fun (s : Pool ι β α) j s' => Pool.Step s j s' ∧ (j ≠ i → R s.db s'.db)) s schedule s')
    (hi : (s.threads i).Satisfies R G Q s.db) (hrefl : ∀ db, R db db)
    (htrans : ∀ db₁ db₂ db₃, R db₁ db₂ → R db₂ db₃ → R db₁ db₃) (hguarantee : ∀ db, G db db) :
    (s'.threads i).Satisfies R G Q s'.db := by
  apply h.invariant hi
  rintro s j s' hi ⟨hstep, hrely⟩
  cases hstep with
  | call hcall =>
      by_cases hji : j = i
      · subst hji
        simpa only [Function.update_self] using (hi.call hcall hrefl hguarantee).2
      · simpa only [Function.update_of_ne (Ne.symm hji)] using hi.rely htrans (hrely hji)

/-- A thread with a bound on its calls makes no more of them, in whatever order the threads
call. -/
theorem Pool.endsWithin_of_run {R : Finmap β → Finmap β → Prop} {i : ι} {n : Nat}
    (h : Run (fun (s : Pool ι β α) j s' => Pool.Step s j s' ∧ (j ≠ i → R s.db s'.db)) s schedule s')
    (hi : Prog.EndsWithin R n (s.threads i) s.db) (hrefl : ∀ db, R db db)
    (htrans : ∀ db₁ db₂ db₃, R db₁ db₂ → R db₂ db₃ → R db₁ db₃) :
    ∃ m, schedule.count i + m = n ∧ Prog.EndsWithin R m (s'.threads i) s'.db := by
  apply h.invariant_log (I := fun schedule s' =>
    ∃ m, schedule.count i + m = n ∧ Prog.EndsWithin R m (s'.threads i) s'.db)
  · exact ⟨n, by simp, hi⟩
  · rintro schedule s j s' ⟨m, hcount, hends⟩ ⟨hstep, hrely⟩
    cases hstep with
    | call hcall =>
        by_cases hji : j = i
        · subst hji
          obtain ⟨m, rfl, hrest⟩ := hends.call hcall hrefl
          refine ⟨m, ?_, by simpa only [Function.update_self] using hrest⟩
          rw [List.count_append, List.count_singleton_self, Nat.add_assoc, Nat.add_comm 1 m]
          exact hcount
        · refine ⟨m, ?_, ?_⟩
          · rw [List.count_append, List.count_singleton, if_neg (by simpa using hji)]
            exact hcount
          · simpa only [Function.update_of_ne (Ne.symm hji)] using hends.rely htrans (hrely hji)

/-- Threads that keep to one relation between them, each by its guarantee. -/
theorem Pool.all_satisfy_of_run {R : Finmap β → Finmap β → Prop} {Q : ι → α → Finmap β → Prop}
    (h : Run Pool.Step s schedule s') (hall : ∀ i, (s.threads i).Satisfies R R (Q i) s.db)
    (hrefl : ∀ db, R db db) (htrans : ∀ db₁ db₂ db₃, R db₁ db₂ → R db₂ db₃ → R db₁ db₃) :
    R s.db s'.db ∧ ∀ i, (s'.threads i).Satisfies R R (Q i) s'.db := by
  apply h.invariant (I := fun s' => R s.db s'.db ∧ ∀ i, (s'.threads i).Satisfies R R (Q i) s'.db)
    ⟨hrefl _, hall⟩
  rintro mid i s' ⟨hR, hall⟩ hstep
  cases hstep with
  | call hcall =>
      obtain ⟨hchange, hthread⟩ := (hall i).call hcall hrefl hrefl
      refine ⟨htrans _ _ _ hR hchange, fun j => ?_⟩
      by_cases hji : j = i
      · subst hji
        simpa only [Function.update_self] using hthread
      · simpa only [Function.update_of_ne hji] using (hall j).rely htrans hchange

end Pools

end Mangoo.Foundation
