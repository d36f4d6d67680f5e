/-
**A lock of load and store exclusive.**

Several cores share a state, and each of them has a list of tasks, which it does one after the other
in a section of its own: under a lock.  To take it, a core loads the word of the lock exclusively,
and if the word is zero it stores a one exclusively; this fails when another core has stored to the
word since, and may fail at any time.  To give the lock back, a core stores a zero.  Between any two
steps of a core, any other core may take some, and the shared state may change by itself.

With the lock the sections are done in turns, each of them as a whole.

Main definitions:

* `ExclusiveLock.Sections` — what is done under the lock;
* `ExclusiveLock.State`, `ExclusiveLock.Step` — the cores, step by step;
* `ExclusiveLock.Turns`, `ExclusiveLock.Turns.Step` — one section at a time.

Main results:

* `ExclusiveLock.simulates` — **the cores do what can be done in turns**;
* `ExclusiveLock.run_in_turns` — **the induction principle for runs in turns**;
* `ExclusiveLock.can_finish` — the cores never block each other for good.
-/

import Mathlib.Logic.Function.Basic
import Mathlib.Logic.Relation
import Mathlib.Data.Fintype.BigOperators

set_option relaxedAutoImplicit false
set_option autoImplicit false

namespace ExclusiveLock

/-! ### Cores -/

/-- What is done under the lock: sections have local states, and change the shared state step by
step, while it may change by itself, too. -/
structure Sections (σ ℓ τ : Type) where
  enter : τ → ℓ
  work : σ → ℓ → σ → ℓ → Prop
  final : ℓ → Prop
  env : σ → σ → Prop

/-- Where a core is. -/
inductive Place (ℓ : Type)
  /-- At the exclusive load. -/
  | trying
  /-- Behind it, and whether the word was zero. -/
  | loaded (free : Bool)
  | inside (l : ℓ)

/-- The word of the lock, and for each core: whether its exclusive store can succeed, where it is,
and what it has not begun yet. -/
structure State (ι σ ℓ τ : Type) where
  word : BitVec 32
  monitor : ι → Bool
  place : ι → Place ℓ
  todo : ι → List τ
  shared : σ

section Cores

variable {ι σ ℓ τ : Type} [DecidableEq ι]

/-- One step of a core, or of the shared state. -/
inductive Step (S : Sections σ ℓ τ) : State ι σ ℓ τ → State ι σ ℓ τ → Prop
  | load {s : State ι σ ℓ τ} {i : ι} : s.place i = .trying → s.todo i ≠ [] →
      Step S s { s with
        monitor := Function.update s.monitor i true
        place := Function.update s.place i (.loaded (s.word = 0)) }
  /-- The word was not zero. -/
  | again {s : State ι σ ℓ τ} {i : ι} : s.place i = .loaded false →
      Step S s { s with place := Function.update s.place i .trying }
  | storeFails {s : State ι σ ℓ τ} {i : ι} : s.place i = .loaded true →
      Step S s { s with
        monitor := Function.update s.monitor i false
        place := Function.update s.place i .trying }
  | store {s : State ι σ ℓ τ} {i : ι} {t : τ} {ts : List τ} : s.place i = .loaded true →
      s.monitor i = true → s.todo i = t :: ts →
      Step S s { s with
        word := 1
        monitor := fun _ => false
        place := Function.update s.place i (.inside (S.enter t))
        todo := Function.update s.todo i ts }
  | work {s : State ι σ ℓ τ} {i : ι} {l l' : ℓ} {shared : σ} : s.place i = .inside l →
      S.work s.shared l shared l' →
      Step S s { s with place := Function.update s.place i (.inside l'), shared := shared }
  /-- A store takes the word from all other cores that have loaded it exclusively. -/
  | unlock {s : State ι σ ℓ τ} {i : ι} {l : ℓ} : s.place i = .inside l → S.final l →
      Step S s { s with
        word := 0
        monitor := fun j => decide (j = i) && s.monitor j
        place := Function.update s.place i .trying }
  | env {s : State ι σ ℓ τ} {shared : σ} : S.env s.shared shared →
      Step S s { s with shared := shared }

/-- The lock is free, and nobody has begun. -/
structure Start (program : ι → List τ) (shared : σ) (s : State ι σ ℓ τ) : Prop where
  word : s.word = 0
  place : ∀ i, s.place i = .trying
  todo : s.todo = program
  shared : s.shared = shared

/-! ### Turns -/

/-- The core whose turn it is, in its section, and what has not begun yet. -/
structure Turns (ι σ ℓ τ : Type) where
  turn : Option (ι × ℓ)
  todo : ι → List τ
  shared : σ

/-- One section at a time. -/
inductive Turns.Step (S : Sections σ ℓ τ) : Turns ι σ ℓ τ → Turns ι σ ℓ τ → Prop
  | begin {t : Turns ι σ ℓ τ} {i : ι} {a : τ} {as : List τ} : t.turn = none → t.todo i = a :: as →
      Turns.Step S t { t with
        turn := some (i, S.enter a)
        todo := Function.update t.todo i as }
  | work {t : Turns ι σ ℓ τ} {i : ι} {l l' : ℓ} {shared : σ} : t.turn = some (i, l) →
      S.work t.shared l shared l' →
      Turns.Step S t { t with turn := some (i, l'), shared := shared }
  | finish {t : Turns ι σ ℓ τ} {i : ι} {l : ℓ} : t.turn = some (i, l) → S.final l →
      Turns.Step S t { t with turn := none }
  | env {t : Turns ι σ ℓ τ} {shared : σ} : S.env t.shared shared →
      Turns.Step S t { t with shared := shared }

/-- The core that is inside has its turn.  The word is zero when there is none, and also as long as
an exclusive store can succeed that follows a zero. -/
structure Matches (s : State ι σ ℓ τ) (t : Turns ι σ ℓ τ) : Prop where
  todo : s.todo = t.todo
  shared : s.shared = t.shared
  inside : ∀ i l, s.place i = .inside l ↔ t.turn = some (i, l)
  word : s.word = 0 ↔ t.turn = none
  monitor : ∀ i, s.place i = .loaded true → s.monitor i = true → s.word = 0

variable {S : Sections σ ℓ τ} {s s' : State ι σ ℓ τ} {t : Turns ι σ ℓ τ}

/-- A core that is not inside moves, and does not come inside. -/
theorem Matches.moves (h : Matches s t) {i : ι} (hi : ∀ l, s.place i ≠ .inside l) {p : Place ℓ}
    (hp : ∀ l, p ≠ .inside l) {monitor : ι → Bool} (hother : ∀ j, j ≠ i → monitor j = s.monitor j)
    (hword : p = .loaded true → s.word = 0) :
    Matches { s with monitor := monitor, place := Function.update s.place i p } t where
  todo := h.todo
  shared := h.shared
  inside j l := by
    by_cases hj : j = i
    · subst hj
      simp only [Function.update_self]
      rw [← h.inside]
      exact iff_of_false (hp l) (hi l)
    · simp only [Function.update_of_ne hj]
      exact h.inside j l
  word := h.word
  monitor j := by
    by_cases hj : j = i
    · subst hj
      simp only [Function.update_self]
      exact fun hplace _ => hword hplace
    · simp only [Function.update_of_ne hj]
      rw [hother j hj]
      exact h.monitor j

/-- The core that is inside goes on. -/
theorem Matches.inside_turn (h : Matches s t) {i : ι} {l : ℓ} (hi : s.place i = .inside l)
    (l' : ℓ) (j : ι) (k : ℓ) :
    Function.update s.place i (.inside l') j = .inside k ↔
      some (i, l') = some (j, k) := by
  by_cases hj : j = i
  · subst hj
    rw [Function.update_self]
    constructor
    · intro heq
      cases heq
      rfl
    · intro heq
      cases heq
      rfl
  · rw [Function.update_of_ne hj, h.inside, (h.inside i l).mp hi]
    constructor
    · intro heq
      cases heq
      exact absurd rfl hj
    · intro heq
      cases heq
      exact absurd rfl hj

/-- **The cores do what can be done in turns.** -/
theorem simulates (h : Matches s t) (hstep : Step S s s') :
    ∃ t', (t' = t ∨ Turns.Step S t t') ∧ Matches s' t' := by
  cases hstep with
  | @load i hplace htodo =>
      refine ⟨t, .inl rfl, h.moves (by simp [hplace]) (by simp) ?_ (by simp)⟩
      exact fun j hj => Function.update_of_ne hj _ _
  | @again i hplace =>
      exact ⟨t, .inl rfl, h.moves (by simp [hplace]) (by simp) (fun _ _ => rfl) (by simp)⟩
  | @storeFails i hplace =>
      refine ⟨t, .inl rfl, h.moves (by simp [hplace]) (by simp) ?_ (by simp)⟩
      exact fun j hj => Function.update_of_ne hj _ _
  | @store i a as hplace hmonitor htodo =>
      -- the word is still zero, hence nobody is inside
      have hnone : t.turn = none := h.word.mp (h.monitor i hplace hmonitor)
      refine ⟨_, .inr (.begin hnone (h.todo ▸ htodo)), ?_⟩
      refine ⟨by rw [h.todo], h.shared, fun j l => ?_, by simp, by simp⟩
      by_cases hj : j = i
      · subst hj
        simp only [Function.update_self]
        constructor
        · intro heq
          cases heq
          rfl
        · intro heq
          cases heq
          rfl
      · simp only [Function.update_of_ne hj]
        rw [h.inside, hnone]
        constructor
        · intro heq
          cases heq
        · intro heq
          cases heq
          exact absurd rfl hj
  | @work i l l' shared hplace hwork =>
      have hturn := (h.inside i l).mp hplace
      refine ⟨_, .inr (.work hturn (h.shared ▸ hwork)), h.todo, rfl, h.inside_turn hplace l', ?_,
        fun j => ?_⟩
      · rw [h.word, hturn]
        simp
      · by_cases hj : j = i
        · subst hj
          simp
        · simp only [Function.update_of_ne hj]
          exact h.monitor j
  | @unlock i l hplace hfinal =>
      have hturn := (h.inside i l).mp hplace
      refine ⟨_, .inr (.finish hturn hfinal), h.todo, h.shared, fun j k => ?_, by simp, by simp⟩
      by_cases hj : j = i
      · subst hj
        simp
      · simp only [Function.update_of_ne hj]
        rw [h.inside, hturn]
        constructor
        · intro heq
          cases heq
          exact absurd rfl hj
        · intro heq
          cases heq
  | @env shared henv =>
      rw [h.shared] at henv
      exact ⟨_, .inr (.env henv), h.todo, rfl, h.inside, h.word, h.monitor⟩

omit [DecidableEq ι] in
/-- Nobody is inside exactly when it is nobody's turn. -/
theorem Matches.nobody_iff (h : Matches s t) : (∀ i l, s.place i ≠ .inside l) ↔ t.turn = none := by
  constructor
  · intro hnobody
    cases hturn : t.turn with
    | none => rfl
    | some p => exact absurd ((h.inside p.1 p.2).mpr hturn) (hnobody p.1 p.2)
  · intro hturn i l hinside
    have hsome := (h.inside i l).mp hinside
    rw [hturn] at hsome
    cases hsome

/-! ### Runs -/

/-- The tasks of one core, in the order of all tasks. -/
def tasksOf (order : List (ι × τ)) (i : ι) : List τ :=
  (order.filter fun p => p.1 = i).map Prod.snd

theorem tasksOf_concat (order : List (ι × τ)) (i j : ι) (a : τ) :
    tasksOf (order ++ [(i, a)]) j = if i = j then tasksOf order j ++ [a] else tasksOf order j := by
  by_cases hij : i = j
  · simp [tasksOf, hij]
  · simp [tasksOf, hij]

omit [DecidableEq ι] in
theorem Start.matches {program : ι → List τ} {shared : σ} (h : Start program shared s) :
    Matches s ⟨none, program, shared⟩ where
  todo := h.todo
  shared := h.shared
  inside i l := by simp [h.place i]
  word := by simp [h.word]
  monitor i hplace := by simp [h.place i] at hplace

/-- What holds at the start and is kept by every section: of the shared state, the core whose turn
it is, and the tasks that were begun so far. -/
structure InTurns (S : Sections σ ℓ τ) (shared₀ : σ)
    (Φ : σ → Option (ι × ℓ) → List (ι × τ) → Prop) : Prop where
  init : Φ shared₀ none []
  begin : ∀ {x as}, Φ x none as → ∀ i a, Φ x (some (i, S.enter a)) (as ++ [(i, a)])
  work : ∀ {x i l as x' l'}, Φ x (some (i, l)) as → S.work x l x' l' → Φ x' (some (i, l')) as
  finish : ∀ {x i l as}, Φ x (some (i, l)) as → S.final l → Φ x none as
  env : ∀ {x o as x'}, Φ x o as → S.env x x' → Φ x' o as

variable {Φ : σ → Option (ι × ℓ) → List (ι × τ) → Prop} {program : ι → List τ} {shared₀ : σ}
  {s₀ : State ι σ ℓ τ}

/-- **The induction principle for runs in turns.** -/
theorem run_in_turns (hΦ : InTurns S shared₀ Φ) (h₀ : Start program shared₀ s₀)
    (h : Relation.ReflTransGen (Step S) s₀ s) :
    ∃ (t : Turns ι σ ℓ τ) (order : List (ι × τ)), Matches s t ∧ Φ t.shared t.turn order ∧
      ∀ i, tasksOf order i ++ t.todo i = program i := by
  induction h with
  | refl => exact ⟨_, [], h₀.matches, hΦ.init, fun i => rfl⟩
  | tail _ hstep ih =>
      obtain ⟨t, order, hmatch, hold, horder⟩ := ih
      obtain ⟨t', rfl | hturn, hmatch'⟩ := simulates hmatch hstep
      · exact ⟨t', order, hmatch', hold, horder⟩
      · refine ⟨t', ?_⟩
        cases hturn with
        | @begin i a as hnone htodo =>
            rw [hnone] at hold
            refine ⟨order ++ [(i, a)], hmatch', hΦ.begin hold i a, fun j => ?_⟩
            rw [tasksOf_concat, ← horder j]
            by_cases hij : i = j
            · subst hij
              simp [htodo]
            · simp [hij, Function.update_of_ne (Ne.symm hij)]
        | work hsome hw =>
            rw [hsome] at hold
            exact ⟨order, hmatch', hΦ.work hold hw, horder⟩
        | finish hsome hfinal =>
            rw [hsome] at hold
            exact ⟨order, hmatch', hΦ.finish hold hfinal, horder⟩
        | env he => exact ⟨order, hmatch', hΦ.env hold he, horder⟩

/-! ### Nobody is blocked -/

/-- A section alone. -/
inductive Alone (S : Sections σ ℓ τ) : σ × ℓ → σ × ℓ → Prop
  | work {x x' : σ} {l l' : ℓ} : S.work x l x' l' → Alone S (x, l) (x', l')
  | env {x x' : σ} {l : ℓ} : S.env x x' → Alone S (x, l) (x', l)

theorem alone_steps {i : ι} {l : ℓ} (hplace : s.place i = .inside l) {p : σ × ℓ}
    (h : Relation.ReflTransGen (Alone S) (s.shared, l) p) :
    Relation.ReflTransGen (Step S) s
      { s with place := Function.update s.place i (.inside p.2), shared := p.1 } := by
  induction h with
  | refl =>
      have hsame : Function.update s.place i (.inside l) = s.place := by
        rw [← hplace, Function.update_eq_self]
      rw [hsame]
  | tail _ hstep ih =>
      refine ih.tail ?_
      cases hstep with
      | @work x _ l' _ hw =>
          have hstep := Step.work (S := S)
            (s := { s with place := Function.update s.place i (.inside l'), shared := x }) (i := i)
            (Function.update_self i _ s.place) hw
          simpa using hstep
      | env he => exact .env he

/-- The core that is inside comes out, and nobody begins. -/
theorem comes_out {i : ι} {l l' : ℓ} {x : σ} (h : Matches s t) (hplace : s.place i = .inside l)
    (halone : Relation.ReflTransGen (Alone S) (s.shared, l) (x, l')) (hfinal : S.final l') :
    ∃ s', Relation.ReflTransGen (Step S) s s' ∧ s'.todo = s.todo ∧ ∀ j k, s'.place j ≠ .inside k := by
  refine ⟨_, (alone_steps hplace halone).tail (.unlock (Function.update_self i _ _) hfinal), rfl, ?_⟩
  intro j k
  by_cases hj : j = i
  · subst hj
    simp
  · simp only [Function.update_of_ne hj, ne_eq, h.inside, (h.inside i l).mp hplace]
    intro heq
    cases heq
    exact hj rfl

/-- A core that is not inside goes back to the load. -/
theorem goes_back {i : ι} (hplace : ∀ l, s.place i ≠ .inside l) :
    ∃ monitor, Relation.ReflTransGen (Step S) s
      { s with monitor := monitor, place := Function.update s.place i .trying } := by
  cases hi : s.place i with
  | trying =>
      refine ⟨s.monitor, ?_⟩
      rw [← hi, Function.update_eq_self]
  | loaded free =>
      cases free with
      | false => exact ⟨_, .single (.again hi)⟩
      | true => exact ⟨_, .single (.storeFails hi)⟩
  | inside l => exact absurd hi (hplace l)

/-- When nobody is inside, any core can come inside. -/
theorem comes_in (hword : s.word = 0) (hplace : ∀ j l, s.place j ≠ .inside l) {i : ι} {a : τ}
    {as : List τ} (htodo : s.todo i = a :: as) :
    ∃ s', Relation.ReflTransGen (Step S) s s' ∧ s'.todo = Function.update s.todo i as := by
  obtain ⟨monitor, hback⟩ := goes_back (S := S) (hplace i)
  refine ⟨_, (hback.tail (.load (Function.update_self i _ _) ?_)).tail
    (.store (i := i) (t := a) ?_ ?_ htodo), rfl⟩
  · simp [htodo]
  · simp [hword]
  · simp

/-- **The cores never block each other for good**: from wherever they are, all of them can finish,
if every section alone can. -/
theorem can_finish [Fintype ι] (hΦ : InTurns S shared₀ Φ)
    (halone : ∀ {x i l as}, Φ x (some (i, l)) as →
      ∃ x' l', Relation.ReflTransGen (Alone S) (x, l) (x', l') ∧ S.final l')
    (h₀ : Start program shared₀ s₀) (h : Relation.ReflTransGen (Step S) s₀ s) :
    ∃ s', Relation.ReflTransGen (Step S) s s' ∧ (∀ i, s'.todo i = []) ∧
      ∀ i l, s'.place i ≠ .inside l := by
  -- from any state: first the core that is inside comes out
  have hout : ∀ {s : State ι σ ℓ τ}, Relation.ReflTransGen (Step S) s₀ s →
      ∃ s', Relation.ReflTransGen (Step S) s s' ∧ s'.todo = s.todo ∧
        ∀ j k, s'.place j ≠ .inside k := by
    intro s h
    obtain ⟨t, order, hmatch, hold, -⟩ := run_in_turns hΦ h₀ h
    cases hturn : t.turn with
    | none => exact ⟨s, .refl, rfl, hmatch.nobody_iff.mpr hturn⟩
    | some p =>
        rw [hturn, ← hmatch.shared] at hold
        obtain ⟨x', l', hpath, hfinal⟩ := halone hold
        exact comes_out hmatch ((hmatch.inside p.1 p.2).mpr hturn) hpath hfinal
  induction hn : ∑ i, (s.todo i).length generalizing s with
  | zero =>
      obtain ⟨s', hrun, htodo, hplace⟩ := hout h
      refine ⟨s', hrun, fun i => ?_, hplace⟩
      rw [htodo]
      exact List.eq_nil_of_length_eq_zero (Finset.sum_eq_zero_iff.mp hn i (Finset.mem_univ i))
  | succ n ih =>
      obtain ⟨s₁, hrun₁, htodo₁, hplace₁⟩ := hout h
      obtain ⟨i, -, hi⟩ : ∃ i ∈ Finset.univ, (s.todo i).length ≠ 0 :=
        Finset.exists_ne_zero_of_sum_ne_zero (by omega)
      obtain ⟨a, as, has⟩ := List.exists_cons_of_length_pos (Nat.pos_of_ne_zero hi)
      obtain ⟨t, order, hmatch, -, -⟩ := run_in_turns hΦ h₀ (h.trans hrun₁)
      obtain ⟨s₂, hrun₂, htodo₂⟩ := comes_in (hmatch.word.mpr (hmatch.nobody_iff.mp hplace₁)) hplace₁
        (htodo₁ ▸ has)
      have hsum : ∑ j, (s₂.todo j).length = n := by
        have hsplit := Finset.add_sum_erase Finset.univ (fun j => (s.todo j).length)
          (Finset.mem_univ i)
        have hsplit₂ := Finset.add_sum_erase Finset.univ (fun j => (s₂.todo j).length)
          (Finset.mem_univ i)
        have hrest : ∑ j ∈ Finset.univ.erase i, (s₂.todo j).length
            = ∑ j ∈ Finset.univ.erase i, (s.todo j).length := by
          refine Finset.sum_congr rfl fun j hj => ?_
          rw [htodo₂, htodo₁, Function.update_of_ne (Finset.ne_of_mem_erase hj)]
        have hi₂ : s₂.todo i = as := by rw [htodo₂, Function.update_self]
        simp only [has, List.length_cons] at hsplit
        simp only [hrest, hi₂] at hsplit₂
        omega
      obtain ⟨s', hrun', hdone⟩ := ih ((h.trans hrun₁).trans hrun₂) hsum
      exact ⟨s', (hrun₁.trans hrun₂).trans hrun', hdone⟩

end Cores

end ExclusiveLock
