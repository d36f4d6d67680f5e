/-
**Systems that answer requests.**

A *machine* has states, the requests its clients may legally make in a state, and a step function
that answers a request with the next state or with a fault.  Everything that holds initially and
survives every legal step holds in every reachable state; a machine is *safe* in a state when no
legal request faults there.

Main definitions:

* `Machine`, `Machine.Reachable`, `Machine.SafeAt` — machines, reachability and safety;
* `Machine.restrict` — the machine whose clients promise more.

Main results:

* `Machine.Reachable.invariant` — **the induction principle for runs**;
* `Machine.Reachable.mono` — a run of restrained clients is a run.
-/

import Mathlib

set_option relaxedAutoImplicit false
set_option autoImplicit false

/-- A system that answers requests. -/
structure Machine (σ ρ ε : Type) where
  /-- The requests a client may make. -/
  legal : σ → ρ → Prop
  /-- The answer to a request. -/
  step : σ → ρ → Except ε σ

namespace Machine

variable {σ ρ ε : Type}

/-- The states reached by finitely many legal requests. -/
inductive Reachable (M : Machine σ ρ ε) (s₀ : σ) : σ → Prop
  | init : Reachable M s₀ s₀
  | step {s s' : σ} {r : ρ} :
      Reachable M s₀ s → M.legal s r → M.step s r = .ok s' → Reachable M s₀ s'

/-- No legal request faults. -/
def SafeAt (M : Machine σ ρ ε) (s : σ) : Prop := ∀ r, M.legal s r → ∃ s', M.step s r = .ok s'

/-- The machine whose clients only make the requests that `p` allows. -/
def restrict (M : Machine σ ρ ε) (p : σ → ρ → Prop) : Machine σ ρ ε where
  legal s r := M.legal s r ∧ p s r
  step := M.step

/-- **The induction principle for runs.** -/
theorem Reachable.invariant {M : Machine σ ρ ε} {s₀ s : σ} {P : σ → Prop} (h₀ : P s₀)
    (hstep : ∀ s r s', P s → M.legal s r → M.step s r = .ok s' → P s')
    (h : M.Reachable s₀ s) : P s := by
  induction h with
  | init => exact h₀
  | step _ hlegal hs ih => exact hstep _ _ _ ih hlegal hs

theorem Reachable.mono {M : Machine σ ρ ε} {p : σ → ρ → Prop} {s₀ s : σ}
    (h : (M.restrict p).Reachable s₀ s) : M.Reachable s₀ s := by
  induction h with
  | init => exact .init
  | step _ hlegal hs ih => exact ih.step hlegal.1 hs

end Machine
