/-
**Writers that may be stopped.**

A writer hands its characters one by one to a *sink*, which takes a character or stops the writer
from the outside.  A *bounded* sink has room for `N` characters: it takes those before the last and
stops the writer at the last.  Whatever the writer is, a bounded sink ends with the first `N`
characters of the output, or with all of it.

Main definitions:

* `StoppingSink.collect` — the sink that never stops and keeps everything;
* `StoppingSink.countdown` — the loop `while (--n >= 0) put(f(n))`;
* `StoppingSink.Bounded` — sinks with room for `N` characters.

Main results:

* `StoppingSink.foldlM_collect`, `StoppingSink.countdown_eq` — what they write;
* `StoppingSink.Bounded.run_of_lt`, `StoppingSink.Bounded.run_of_ge` — **an output that fits is
  stored, and one that does not is cut where the room ends.**
-/

import Mathlib.Data.List.Basic
import Mathlib.Data.List.TakeDrop

set_option relaxedAutoImplicit false
set_option autoImplicit false

namespace StoppingSink

variable {σ α ε : Type}

/-! ### The sink that keeps everything -/

/-- Everything is kept. -/
def collect (out : List α) (a : α) : Except ε (List α) := .ok (out ++ [a])

theorem foldlM_collect (xs out : List α) :
    xs.foldlM (collect (ε := ε)) out = .ok (out ++ xs) := by
  induction xs generalizing out with
  | nil => simp [pure, Except.pure]
  | cons x xs ih =>
      rw [List.foldlM_cons, collect]
      exact (ih (out ++ [x])).trans (by simp)

/-! ### A loop that counts down -/

/-- `while (--n >= 0) put(f(n))`. -/
def countdown (put : σ → α → Except ε σ) (f : ℕ → α) : ℕ → σ → Except ε σ
  | 0, s => .ok s
  | n + 1, s => put s (f n) >>= countdown put f n

/-- The loop writes `f(n - 1), …, f(0)`. -/
theorem countdown_eq (put : σ → α → Except ε σ) (f : ℕ → α) (n : ℕ) (s : σ) :
    countdown put f n s = ((List.range n).reverse.map f).foldlM put s := by
  induction n generalizing s with
  | zero => rfl
  | succ n ih =>
      rw [List.range_succ, List.reverse_append, List.reverse_singleton, List.singleton_append,
        List.map_cons, List.foldlM_cons, countdown]
      exact congrArg (put s (f n) >>= ·) (funext ih)

/-! ### Sinks with room for `N` characters -/

/-- A sink with room for `N` characters, by what it holds when it has taken a list and when it has
stopped the writer. -/
structure Bounded (put : σ → α → Except ε σ) (N : ℕ) where
  /-- The sink has taken the list. -/
  Stored : List α → σ → Prop
  /-- The sink has stopped the writer at the end of the list. -/
  Full : List α → ε → Prop
  /-- A character before the last is taken. -/
  room {l : List α} {s : σ} (a : α) : Stored l s → l.length + 1 < N →
    ∃ s', put s a = .ok s' ∧ Stored (l ++ [a]) s'
  /-- The last character stops the writer. -/
  full {l : List α} {s : σ} (a : α) : Stored l s → l.length + 1 = N →
    ∃ e, put s a = .error e ∧ Full (l ++ [a]) e

namespace Bounded

variable {put : σ → α → Except ε σ} {N : ℕ}

/-- **An output that fits is stored.** -/
theorem run_of_lt (B : Bounded put N) (xs : List α) {l : List α} {s : σ} (h : B.Stored l s)
    (hlt : (l ++ xs).length < N) :
    ∃ s', xs.foldlM put s = .ok s' ∧ B.Stored (l ++ xs) s' := by
  induction xs generalizing l s with
  | nil => exact ⟨s, rfl, by simpa using h⟩
  | cons x xs ih =>
      have hroom : l.length + 1 < N := by
        simp only [List.length_append, List.length_cons] at hlt
        omega
      obtain ⟨s', hput, hs'⟩ := B.room x h hroom
      obtain ⟨s'', hrun, hs''⟩ := ih hs' (by simpa using hlt)
      refine ⟨s'', ?_, by simpa using hs''⟩
      rw [List.foldlM_cons, hput]
      exact hrun

/-- **An output that does not fit is cut where the room ends.** -/
theorem run_of_ge (B : Bounded put N) (xs : List α) {l : List α} {s : σ} (h : B.Stored l s)
    (hlt : l.length < N) (hge : N ≤ (l ++ xs).length) :
    ∃ e, xs.foldlM put s = .error e ∧ B.Full ((l ++ xs).take N) e := by
  induction xs generalizing l s with
  | nil =>
      rw [List.append_nil] at hge
      omega
  | cons x xs ih =>
      rcases Nat.lt_or_ge (l.length + 1) N with hroom | hlast
      · obtain ⟨s', hput, hs'⟩ := B.room x h hroom
        obtain ⟨e, hrun, he⟩ := ih hs' (by simpa using hroom) (by simpa using hge)
        refine ⟨e, ?_, by simpa using he⟩
        rw [List.foldlM_cons, hput]
        exact hrun
      · have hN : l.length + 1 = N := by omega
        obtain ⟨e, hput, he⟩ := B.full x h hN
        have htake : (l ++ x :: xs).take N = l ++ [x] := by
          rw [← hN, List.take_length_add_append]
          rfl
        refine ⟨e, ?_, htake ▸ he⟩
        rw [List.foldlM_cons, hput]
        rfl

end Bounded

end StoppingSink
