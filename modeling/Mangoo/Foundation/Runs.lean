import Mathlib.Logic.Basic

/-!
# Labelled runs

Finite runs of a labelled step relation, in the order in which their events
happen.  Invariants, guards and the splitting of a run at an event are stated
once here for every system.
-/

namespace Mangoo.Foundation

variable {σ ε : Type}

inductive Run (step : σ → ε → σ → Prop) (start : σ) : List ε → σ → Prop
  | nil : Run step start [] start
  | snoc {events s event s'} : Run step start events s → step s event s' →
      Run step start (events ++ [event]) s'

namespace Run

variable {step : σ → ε → σ → Prop} {start s s' : σ} {events : List ε} {event : ε}

theorem invariant {I : σ → Prop} (h : Run step start events s) (hstart : I start)
    (hstep : ∀ s event s', I s → step s event s' → I s') : I s := by
  induction h with
  | nil => exact hstart
  | snoc _ hs ih => exact hstep _ _ _ ih hs

theorem invariant_log {I : List ε → σ → Prop} (h : Run step start events s)
    (hstart : I [] start)
    (hstep : ∀ events s event s', I events s → step s event s' →
      I (events ++ [event]) s') : I events s := by
  induction h with
  | nil => exact hstart
  | snoc _ hs ih => exact hstep _ _ _ _ ih hs

theorem mono {step' : σ → ε → σ → Prop} (h : Run step start events s)
    (hstep : ∀ s event s', step s event s' → step' s event s') :
    Run step' start events s := by
  induction h with
  | nil => exact .nil
  | snoc _ hs ih => exact .snoc ih (hstep _ _ _ hs)

theorem map {ε' : Type} {step' : σ → ε' → σ → Prop} {f : ε → ε'} (h : Run step start events s)
    (hstep : ∀ s event s', step s event s' → step' s (f event) s') :
    Run step' start (events.map f) s := by
  induction h with
  | nil => exact .nil
  | snoc _ hs ih =>
      rw [List.map_append]
      exact .snoc ih (hstep _ _ _ hs)

theorem with_mem (h : Run step start events s) :
    Run (fun s event s' => event ∈ events ∧ step s event s') start events s := by
  induction h with
  | nil => exact .nil
  | snoc _ hs ih =>
      refine .snoc (ih.mono ?_) ⟨by simp, hs⟩
      rintro s event s' ⟨hmem, hstep⟩
      exact ⟨List.mem_append_left _ hmem, hstep⟩

theorem strengthen {I : σ → Prop} {step' : σ → ε → σ → Prop}
    (h : Run step start events s) (hstart : I start)
    (hstep : ∀ s event s', I s → step s event s' → I s' ∧ step' s event s') :
    Run step' start events s := by
  have hboth : I s ∧ Run step' start events s := by
    induction h with
    | nil => exact ⟨hstart, .nil⟩
    | snoc _ hs ih =>
        obtain ⟨hI, hs'⟩ := hstep _ _ _ ih.1 hs
        exact ⟨hI, .snoc ih.2 hs'⟩
  exact hboth.2

theorem simulate {τ : Type} {R : τ → σ → Prop} {step' : τ → ε → τ → Prop} {start' : τ}
    (h : Run step start events s) (hstart : R start' start)
    (hstep : ∀ t s event s', R t s → step s event s' → ∃ t', step' t event t' ∧ R t' s') :
    ∃ t, Run step' start' events t ∧ R t s := by
  induction h with
  | nil => exact ⟨start', .nil, hstart⟩
  | snoc _ hs ih =>
      obtain ⟨t, hrun, hR⟩ := ih
      obtain ⟨t', ht, hR'⟩ := hstep _ _ _ _ hR hs
      exact ⟨t', .snoc hrun ht, hR'⟩

theorem single (h : step start event s) : Run step start [event] s :=
  .snoc .nil h

theorem append {events' : List ε} (h : Run step start events s)
    (h' : Run step s events' s') : Run step start (events ++ events') s' := by
  induction h' with
  | nil =>
      rw [List.append_nil]
      exact h
  | snoc _ hs ih =>
      rw [← List.append_assoc]
      exact .snoc ih hs

theorem cons (hs : step start event s) (h : Run step s events s') :
    Run step start (event :: events) s' :=
  append (single hs) h

theorem split {pre post : List ε} (h : Run step start (pre ++ post) s) :
    ∃ mid, Run step start pre mid ∧ Run step mid post s := by
  generalize hlog : pre ++ post = log at h
  induction h generalizing post with
  | nil =>
      obtain ⟨rfl, rfl⟩ := List.append_eq_nil_iff.mp hlog
      exact ⟨start, .nil, .nil⟩
  | @snoc events mid event s' hrun hs ih =>
      rcases List.eq_nil_or_concat post with rfl | ⟨front, last, rfl⟩
      · rw [List.append_nil] at hlog
        subst hlog
        exact ⟨s', .snoc hrun hs, .nil⟩
      · rw [List.concat_eq_append, ← List.append_assoc] at hlog
        obtain ⟨hfront, hlast⟩ := List.append_inj' hlog rfl
        cases hlast
        obtain ⟨cut, hpre, hpost⟩ := ih hfront
        rw [List.concat_eq_append]
        exact ⟨cut, hpre, .snoc hpost hs⟩

theorem nil_inv (h : Run step start [] s) : s = start := by
  generalize hlog : ([] : List ε) = log at h
  cases h with
  | nil => rfl
  | snoc _ _ => exact absurd hlog (by simp)

theorem cons_inv (h : Run step start (event :: events) s) :
    ∃ mid, step start event mid ∧ Run step mid events s := by
  have hsplit : Run step start ([event] ++ events) s := h
  obtain ⟨mid, hfirst, hrest⟩ := hsplit.split
  generalize hlog : [event] = log at hfirst
  cases hfirst with
  | nil => exact absurd hlog (by simp)
  | @snoc front s₀ last _ hfront hlast =>
      have hlog' : [] ++ [event] = front ++ [last] := hlog
      obtain ⟨rfl, hevent⟩ := List.append_inj' hlog' rfl
      cases hevent
      rw [hfront.nil_inv] at hlast
      exact ⟨mid, hlast, hrest⟩

theorem single_inv (h : Run step start [event] s) : step start event s := by
  obtain ⟨mid, hstep, hrest⟩ := h.cons_inv
  rw [hrest.nil_inv]
  exact hstep

end Run

end Mangoo.Foundation
