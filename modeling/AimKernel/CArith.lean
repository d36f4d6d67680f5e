/-
**C arithmetic, the macros of `util.h`, and the outcomes of kernel code.**

Machine integers are natural numbers reduced modulo `2 ^ 32` (`int`, `size_t`, pointers) or
`2 ^ 64` (`addr_t`, `lsize_t`) exactly where the source can wrap.  Code that can fail returns an
`Aim.Outcome`: a value, or the fault that stopped the kernel — an assertion, a panic, or a loop
that never ends.

Main definitions:

* `Aim.Fault`, `Aim.Outcome`, `Aim.assert` — faults, outcomes and `assert()`;
* `Aim.shl1`, `Aim.leastShift` — `1 << n` on the i386, and the loops that search for a shift;
* `Aim.divRoundUp`, `Aim.roundUp`, `Aim.roundDown`, `Aim.isPowOf2`, `Aim.isAligned`,
  `Aim.alignAbove`, `Aim.alignBelow` — the rounding macros of `util.h`.

Main results:

* `Aim.bind_eq_ok`, `Aim.assert_bind`, `Aim.foldlM_total` — peeling an outcome apart;
* `Aim.leastShift_lt`, `Aim.leastShift_le` — what the shift loops find;
* `Aim.divRoundUp_eq`, `Aim.roundUp_eq`, `Aim.isPowOf2_iff`, `Aim.isAligned_iff`,
  `Aim.alignAbove_eq`, `Aim.alignBelow_eq` — the macros in plain arithmetic.
-/

import AimKernel.Bits

set_option relaxedAutoImplicit false
set_option autoImplicit false

namespace Aim

/-! ### Outcomes -/

/-- What stops the kernel. -/
inductive Fault
  /-- `assert(condition)` failed. -/
  | assertion (condition : String)
  /-- `panic(fmt, …)` was called. -/
  | panic (fmt : String)
  /-- A loop that never ends. -/
  | hang
  /-- An access to an address that is not mapped. -/
  | pageFault
deriving DecidableEq, Repr

/-- The outcome of kernel code. -/
abbrev Outcome := Except Fault

/-- `assert(condition)`. -/
def assert (c : Prop) [Decidable c] (condition : String) : Outcome Unit :=
  if c then .ok () else .error (.assertion condition)

/-- `EOF`, the return value that signals a failure. -/
def eof : ℤ := -1

theorem bind_eq_ok {ε α β : Type} {x : Except ε α} {f : α → Except ε β} {r : β} :
    (x >>= f) = .ok r ↔ ∃ a, x = .ok a ∧ f a = .ok r := by
  cases x with
  | error e => simp [bind, Except.bind]
  | ok a => simp [bind, Except.bind]

@[simp] theorem ok_bind {ε α β : Type} (a : α) (f : α → Except ε β) :
    (Except.ok a >>= f) = f a := rfl

@[simp] theorem error_bind {ε α β : Type} (e : ε) (f : α → Except ε β) :
    ((Except.error e : Except ε α) >>= f) = .error e := rfl

theorem assert_bind {β : Type} {c : Prop} [Decidable c] (h : c) (condition : String)
    (f : Unit → Outcome β) : (assert c condition >>= f) = f () := by
  simp [assert, h]

theorem assert_eq_ok {c : Prop} [Decidable c] {condition : String} {u : Unit} :
    assert c condition = .ok u ↔ c := by
  unfold assert
  split <;> simp_all

/-- A loop whose every round succeeds under an invariant on what is left to do. -/
theorem foldlM_total {σ α ε : Type} {f : σ → α → Except ε σ} (I : List α → σ → Prop)
    (hstep : ∀ a l s, I (a :: l) s → ∃ s', f s a = .ok s' ∧ I l s') :
    ∀ (l : List α) (s : σ), I l s → ∃ s', l.foldlM f s = .ok s' ∧ I [] s' := by
  intro l
  induction l with
  | nil => exact fun s h => ⟨s, rfl, h⟩
  | cons a l ih =>
      intro s h
      obtain ⟨s₁, hs₁, h₁⟩ := hstep a l s h
      obtain ⟨s', hs', h'⟩ := ih s₁ h₁
      refine ⟨s', ?_, h'⟩
      rw [List.foldlM_cons, hs₁]
      exact hs'

/-! ### Machine integers -/

/-- Reduction to 32 bits. -/
def wrap32 (n : ℕ) : ℕ := n % 2 ^ 32

/-- Reduction to 64 bits. -/
def wrap64 (n : ℕ) : ℕ := n % 2 ^ 64

/-- Subtraction of 32-bit numbers. -/
def sub32 (a b : ℕ) : ℕ := (a + 2 ^ 32 - b) % 2 ^ 32

/-- Subtraction of 64-bit numbers. -/
def sub64 (a b : ℕ) : ℕ := (a + 2 ^ 64 - b) % 2 ^ 64

/-- `-1` as an `addr_t`. -/
def minusOne64 : ℕ := 2 ^ 64 - 1

theorem wrap32_of_lt {n : ℕ} (h : n < 2 ^ 32) : wrap32 n = n := Nat.mod_eq_of_lt h

theorem wrap64_of_lt {n : ℕ} (h : n < 2 ^ 64) : wrap64 n = n := Nat.mod_eq_of_lt h

theorem sub32_of_le {a b : ℕ} (h : b ≤ a) (ha : a < 2 ^ 32) : sub32 a b = a - b := by
  unfold sub32
  omega

theorem sub64_of_le {a b : ℕ} (h : b ≤ a) (ha : a < 2 ^ 64) : sub64 a b = a - b := by
  unfold sub64
  omega

/-- `1 << n` for an `int`: the i386 takes the shift count modulo 32.  The results are compared
and combined with `size_t` values, so they are read as unsigned. -/
def shl1 (n : ℕ) : ℕ := 2 ^ (n % 32)

theorem shl1_of_lt {n : ℕ} (h : n < 32) : shl1 n = 2 ^ n := by
  rw [shl1, Nat.mod_eq_of_lt h]

/-- `for (k = 0; !stop(k); k++);` for a test that only sees `k` through `1 << k`: if no shift
count below 32 stops the loop, none ever does. -/
def leastShift (stop : ℕ → Bool) : Outcome ℕ :=
  match (List.range 32).find? stop with
  | some k => .ok k
  | none => .error .hang

theorem leastShift_eq_ok {stop : ℕ → Bool} {k : ℕ} :
    leastShift stop = .ok k ↔ k < 32 ∧ stop k = true ∧ ∀ j < k, stop j = false := by
  unfold leastShift
  cases h : (List.range 32).find? stop with
  | none =>
      rw [List.find?_range_eq_none] at h
      simp only [reduceCtorEq, false_iff, not_and]
      intro hk hstop
      simpa [hstop] using h k hk
  | some j =>
      rw [List.find?_range_eq_some] at h
      obtain ⟨hj, hmem, hlt⟩ := h
      rw [List.mem_range] at hmem
      simp only [Bool.not_eq_true'] at hlt
      constructor
      · rintro ⟨⟩
        exact ⟨hmem, hj, hlt⟩
      · rintro ⟨-, hstop, hmin⟩
        rcases Nat.lt_trichotomy j k with hjk | rfl | hkj
        · simp [hmin j hjk] at hj
        · rfl
        · simp [hlt k hkj] at hstop

theorem leastShift_eq_hang {stop : ℕ → Bool} :
    leastShift stop = .error .hang ↔ ∀ k < 32, stop k = false := by
  unfold leastShift
  cases h : (List.range 32).find? stop with
  | none =>
      rw [List.find?_range_eq_none] at h
      simpa using h
  | some j =>
      rw [List.find?_range_eq_some] at h
      obtain ⟨hj, hmem, -⟩ := h
      simp only [reduceCtorEq, false_iff, not_forall]
      exact ⟨j, List.mem_range.1 hmem, by simp [hj]⟩

/-- The least order whose blocks have at least `cnt` pages. -/
theorem leastShift_le {cnt : ℕ} (h : cnt ≤ 2 ^ 31) :
    leastShift (fun k => decide (¬ shl1 k < cnt)) = .ok (Nat.clog 2 cnt) := by
  have hclog : Nat.clog 2 cnt ≤ 31 := Nat.clog_le_of_le_pow h
  rw [leastShift_eq_ok]
  refine ⟨by omega, ?_, fun j hj => ?_⟩
  · rw [shl1_of_lt (by omega), decide_eq_true_iff, not_lt]
    exact Nat.le_pow_clog (by decide) cnt
  · rw [shl1_of_lt (by omega), decide_eq_false_iff_not, not_not]
    exact (Nat.lt_clog_iff_pow_lt (by decide)).1 hj

/-- The greatest order whose blocks have at most `cnt` pages. -/
theorem leastShift_lt {cnt : ℕ} (h : cnt < 2 ^ 31) :
    leastShift (fun k => decide (¬ shl1 (k + 1) ≤ cnt)) = .ok (Nat.log 2 cnt) := by
  have hlog : Nat.log 2 cnt < 31 := by
    rcases Nat.eq_zero_or_pos cnt with rfl | hpos
    · simp
    · exact Nat.log_lt_of_lt_pow (by omega) h
  rw [leastShift_eq_ok]
  refine ⟨by omega, ?_, fun j hj => ?_⟩
  · rw [shl1_of_lt (by omega), decide_eq_true_iff, not_le]
    exact Nat.lt_pow_succ_log_self (by decide) cnt
  · have hpos : cnt ≠ 0 := by
      rintro rfl
      simp at hj
    rw [shl1_of_lt (by omega), decide_eq_false_iff_not, not_not]
    exact Nat.pow_le_of_le_log hpos hj

/-! ### The macros of `util.h` -/

/-- `DIV_ROUND_UP(n, d)` in `w`-bit arithmetic. -/
def divRoundUp (w n d : ℕ) : ℕ := (n + d + 2 ^ w - 1) % 2 ^ w / d

/-- `ROUNDUP(x, d)` in `w`-bit arithmetic. -/
def roundUp (w x d : ℕ) : ℕ := divRoundUp w x d * d % 2 ^ w

/-- `ROUNDDOWN(x, d)`. -/
def roundDown (x d : ℕ) : ℕ := x - x % d

/-- `IS_POW_OF_2(x)`. -/
def isPowOf2 (x : ℕ) : Bool := decide (0 < x) && decide (x &&& (x - 1) = 0)

/-- `IS_ALIGNED(x, a)` for an `x` of `w` bits. -/
def isAligned (w x a : ℕ) : Bool := decide (x &&& ((a + 2 ^ w - 1) % 2 ^ w) = 0)

/-- `ALIGN_ABOVE(x, a)` for an `x` of `w` bits. -/
def alignAbove (w x a : ℕ) : ℕ :=
  ((((x + 2 ^ w - 1) % 2 ^ w) ||| ((a + 2 ^ w - 1) % 2 ^ w)) + 1) % 2 ^ w

/-- `ALIGN_BELOW(x, a)` for an `x` of `w` bits. -/
def alignBelow (w x a : ℕ) : ℕ := x &&& (2 ^ w - 1 - (a + 2 ^ w - 1) % 2 ^ w)

/-- `n` decremented in `w`-bit arithmetic. -/
theorem pred_mod {w n : ℕ} (h0 : 0 < n) (hn : n ≤ 2 ^ w) : (n + 2 ^ w - 1) % 2 ^ w = n - 1 := by
  have hpos := Nat.two_pow_pos w
  rw [show n + 2 ^ w - 1 = n - 1 + 2 ^ w by omega, Nat.add_mod_right]
  exact Nat.mod_eq_of_lt (by omega)

theorem divRoundUp_eq {w n d : ℕ} (hd : 0 < d) (h : n + d ≤ 2 ^ w) :
    divRoundUp w n d = (n + d - 1) / d := by
  rw [divRoundUp, pred_mod (by omega) h]

theorem roundUp_eq {w x d : ℕ} (hd : 0 < d) (h : x + d ≤ 2 ^ w) :
    roundUp w x d = (x + d - 1) / d * d := by
  rw [roundUp, divRoundUp_eq hd h]
  exact Nat.mod_eq_of_lt (lt_of_le_of_lt (Nat.div_mul_le_self _ _) (by omega))

theorem roundDown_eq (x d : ℕ) : roundDown x d = x / d * d := by
  have := Nat.div_add_mod' x d
  rw [roundDown]
  omega

theorem roundDown_eq_self_iff {x d : ℕ} : roundDown x d = x ↔ d ∣ x := by
  rw [roundDown_eq, Nat.dvd_iff_div_mul_eq]

theorem isPowOf2_iff {x : ℕ} : isPowOf2 x = true ↔ ∃ k, x = 2 ^ k := by
  rw [isPowOf2, Bool.and_eq_true, decide_eq_true_iff, decide_eq_true_iff, Nat.pos_iff_ne_zero]
  exact Nat.ne_zero_and_sub_one_eq_zero_iff_isPowerOfTwo

theorem isAligned_iff {w x k : ℕ} (hk : k ≤ w) : isAligned w x (2 ^ k) = true ↔ 2 ^ k ∣ x := by
  rw [isAligned, pred_mod (Nat.two_pow_pos k) (Nat.pow_le_pow_right (by decide) hk),
    decide_eq_true_iff, Bits.and_low_mask_eq_zero_iff]

/-- A multiple of `2 ^ k` is not moved by `ALIGN_ABOVE`; anything else moves up to the next one. -/
theorem alignAbove_eq {w x k : ℕ} (hk : k ≤ w) (hx : 0 < x) (h : x + 2 ^ k ≤ 2 ^ w) :
    alignAbove w x (2 ^ k) = (x + 2 ^ k - 1) / 2 ^ k * 2 ^ k := by
  have hpos := Nat.two_pow_pos k
  have hround : (x - 1) / 2 ^ k * 2 ^ k ≤ x - 1 := Nat.div_mul_le_self _ _
  rw [alignAbove, pred_mod hx (by omega), pred_mod hpos (Nat.pow_le_pow_right (by decide) hk),
    Bits.or_low_mask, show x + 2 ^ k - 1 = x - 1 + 2 ^ k by omega, Nat.add_div_right _ hpos,
    Nat.succ_mul]
  rcases Nat.lt_or_ge ((x - 1) / 2 ^ k * 2 ^ k + (2 ^ k - 1) + 1) (2 ^ w) with hlt | hge
  · rw [Nat.mod_eq_of_lt hlt]
    omega
  · omega

/-- Zero is not moved either: the decrement wraps, and so does the increment. -/
theorem alignAbove_zero {w k : ℕ} (hk : k ≤ w) : alignAbove w 0 (2 ^ k) = 0 := by
  have hpos := Nat.two_pow_pos k
  have hle : (2 : ℕ) ^ k ≤ 2 ^ w := Nat.pow_le_pow_right (by decide) hk
  rw [alignAbove, pred_mod hpos hle, Nat.zero_add,
    Nat.mod_eq_of_lt (show 2 ^ w - 1 < 2 ^ w by omega), Nat.or_comm, Bits.or_low_mask,
    Nat.div_eq_of_lt (by omega), Nat.zero_mul, Nat.zero_add, Nat.sub_add_cancel (by omega),
    Nat.mod_self]

/-- `ALIGN_ABOVE` moves up, by less than the alignment. -/
theorem alignAbove_bounds {w x k : ℕ} (hk : k ≤ w) (h : x + 2 ^ k ≤ 2 ^ w) :
    x ≤ alignAbove w x (2 ^ k) ∧ alignAbove w x (2 ^ k) < x + 2 ^ k := by
  have hpos := Nat.two_pow_pos k
  rcases Nat.eq_zero_or_pos x with rfl | hx
  · rw [alignAbove_zero hk]
    omega
  · have := Nat.div_add_mod' (x + 2 ^ k - 1) (2 ^ k)
    have := Nat.mod_lt (x + 2 ^ k - 1) hpos
    rw [alignAbove_eq hk hx h]
    omega

/-- A multiple of the alignment is not moved. -/
theorem alignAbove_of_dvd {w x k : ℕ} (hk : k ≤ w) (hdvd : 2 ^ k ∣ x) (h : x + 2 ^ k ≤ 2 ^ w) :
    alignAbove w x (2 ^ k) = x := by
  have hpos := Nat.two_pow_pos k
  rcases Nat.eq_zero_or_pos x with rfl | hx
  · exact alignAbove_zero hk
  · obtain ⟨q, rfl⟩ := hdvd
    rw [alignAbove_eq hk hx h, Nat.add_sub_assoc hpos, Nat.mul_add_div hpos,
      Nat.div_eq_of_lt (by omega), add_zero, Nat.mul_comm]

theorem alignBelow_eq {w x k : ℕ} (hk : k ≤ w) (hx : x < 2 ^ w) :
    alignBelow w x (2 ^ k) = x / 2 ^ k * 2 ^ k := by
  have hpos := Nat.two_pow_pos k
  have hle : 2 ^ k ≤ 2 ^ w := Nat.pow_le_pow_right (by decide) hk
  rw [alignBelow, pred_mod hpos hle, show 2 ^ w - 1 - (2 ^ k - 1) = 2 ^ w - 2 ^ k by omega,
    Bits.and_high_mask hk hx]

end Aim
