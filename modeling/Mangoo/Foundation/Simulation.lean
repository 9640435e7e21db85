import Mathlib.Logic.Function.Basic
import Mangoo.Foundation.Program

/-!
# Maps that programs implement

An event changes what an abstract map holds at the event's key, so a run shows at each
key only the events of that key.  A program that simulates single events simulates
every list of them.
-/

namespace Mangoo.Foundation

section Keyed

variable {κ α ε : Type} [DecidableEq κ] (key : ε → κ) (change : ε → α → α)

def changeAt (M : κ → α) (event : ε) : κ → α :=
  Function.update M (key event) (change event (M (key event)))

/-- What `k` holds after the events, if it held `a` before them. -/
def historyAt (k : κ) (a : α) (events : List ε) : α :=
  (events.filter fun event => key event = k).foldl (fun a event => change event a) a

theorem foldl_changeAt (M : κ → α) (events : List ε) (k : κ) :
    (events.foldl (changeAt key change) M) k = historyAt key change k (M k) events := by
  unfold historyAt
  induction events generalizing M with
  | nil => rfl
  | cons event events ih =>
      rw [List.foldl_cons, ih]
      by_cases hkey : key event = k
      · subst hkey
        simp [changeAt]
      · simp [changeAt, hkey, Function.update_of_ne (Ne.symm hkey)]

theorem historyAt_of_ne {k : κ} {event : ε} (a : α) (events : List ε)
    (hkey : key event ≠ k) :
    historyAt key change k a (events ++ [event]) = historyAt key change k a events := by
  simp [historyAt, hkey]

theorem historyAt_of_eq {k : κ} {event : ε} (a : α) (events : List ε)
    (hkey : key event = k) :
    historyAt key change k a (events ++ [event]) =
      change event (historyAt key change k a events) := by
  simp [historyAt, hkey]

end Keyed

namespace Prog

variable {κ : Type} {β : κ → Type} [LinearOrder κ] {μ σ ε : Type}

theorem run_foldlM {R : μ → Finmap β → Prop} {prog : σ → ε → Prog β σ} {step : μ → ε → μ}
    (hstep : ∀ M s event db, R M db →
      ∃ s' db', (prog s event).run db = some (s', db') ∧ R (step M event) db')
    {M : μ} {db : Finmap β} (hrel : R M db) (s : σ) (events : List ε) :
    ∃ s' db', (events.foldlM prog s).run db = some (s', db') ∧ R (events.foldl step M) db' := by
  induction events generalizing M s db with
  | nil => exact ⟨s, db, rfl, hrel⟩
  | cons event events ih =>
      obtain ⟨s', mid, hrun, hmid⟩ := hstep M s event db hrel
      obtain ⟨s'', db', hruns, hrel'⟩ := ih hmid s'
      refine ⟨s'', db', ?_, hrel'⟩
      rw [List.foldlM_cons, run_bind, hrun]
      exact hruns

end Prog

end Mangoo.Foundation
