import Mathlib.Algebra.Order.Ring.Nat
import Mathlib.Tactic.Common

/-!
# Computations that may be refused

A fallible computation is an `Except`. This file gives the few operations such code is
written with (a guard, the conversion of an `Option`, fixed-width arithmetic that is
refused when the result does not fit) and, for each, the one lemma that says when it
succeeds and with what. `bind_eq_ok` takes a sequence of them apart. `RefusesOnly` bounds what a
computation may be refused with, by one rule for each operation.
-/

set_option autoImplicit false

namespace TokenPresale.Library

variable {ε α β : Type}

/-- A sequence succeeds exactly when its first part does and the rest succeeds on the
value obtained. -/
theorem bind_eq_ok {x : Except ε α} {f : α → Except ε β} {b : β} :
    x >>= f = .ok b ↔ ∃ a, x = .ok a ∧ f a = .ok b := by
  cases x with
  | error e => simp [bind, Except.bind]
  | ok a => simp [bind, Except.bind]

/-- A sequence is refused when its first part is, or when the rest is. -/
theorem bind_eq_error {x : Except ε α} {f : α → Except ε β} {e : ε} :
    x >>= f = .error e ↔ x = .error e ∨ ∃ a, x = .ok a ∧ f a = .error e := by
  cases x with
  | error e' => simp [bind, Except.bind]
  | ok a => simp [bind, Except.bind]

/-- A pure computation returns its own value and no other. -/
theorem pure_eq_ok {a b : α} : (pure a : Except ε α) = .ok b ↔ a = b := by
  simp [pure, Except.pure]

/-- A pure computation never fails. -/
theorem pure_eq_error {a : α} {e : ε} : (pure a : Except ε α) = .error e ↔ False := by
  simp [pure, Except.pure]

/-- A mapped computation succeeds exactly when the computation does, with the image as its value. -/
theorem map_eq_ok {x : Except ε α} {f : α → β} {b : β} :
    x.map f = .ok b ↔ ∃ a, x = .ok a ∧ f a = b := by
  cases x <;> simp [Except.map]

/-- A refusal is one whatever becomes of the value. -/
theorem map_eq_error {x : Except ε α} {f : α → β} {e : ε} :
    x.map f = .error e ↔ x = .error e := by
  cases x <;> simp [Except.map]

/-- A successful computation has a value. -/
theorem exists_of_isOk {x : Except ε α} (h : x.isOk = true) : ∃ a, x = .ok a := by
  cases x with
  | ok a => exact ⟨a, rfl⟩
  | error e => exact absurd h Bool.false_ne_true

/-- The value `a` when `c` holds, a refusal with `e` otherwise. -/
def assure (c : Prop) [Decidable c] (e : ε) (a : α) : Except ε α :=
  if c then .ok a else .error e

/-- `assure` returns its value exactly when the condition holds. -/
theorem assure_eq_ok {c : Prop} [Decidable c] {e : ε} {a b : α} :
    assure c e a = .ok b ↔ c ∧ a = b := by
  by_cases h : c <;> simp [assure, h]

/-- `assure` fails exactly when the condition does not hold, and with its own error. -/
theorem assure_eq_error {c : Prop} [Decidable c] {e e' : ε} {a : α} :
    assure c e a = .error e' ↔ ¬ c ∧ e = e' := by
  by_cases h : c <;> simp [assure, h]

/-- Refuse with `e` when `c` holds. -/
def failIf (c : Prop) [Decidable c] (e : ε) : Except ε Unit := assure (¬ c) e ()

/-- `failIf` passes exactly when the condition does not hold. -/
theorem failIf_eq_ok {c : Prop} [Decidable c] {e : ε} {u : Unit} :
    failIf c e = .ok u ↔ ¬ c := by
  simp [failIf, assure_eq_ok]

/-- `failIf` fails exactly when the condition holds, and with its own error. -/
theorem failIf_eq_error {c : Prop} [Decidable c] {e e' : ε} :
    failIf c e = .error e' ↔ c ∧ e = e' := by
  simp [failIf, assure_eq_error]

/-- The value of an `Option`, or a refusal with `e`. -/
def okOr (o : Option α) (e : ε) : Except ε α :=
  match o with
  | some a => .ok a
  | none => .error e

/-- `okOr` returns what the option holds. -/
theorem okOr_eq_ok {o : Option α} {e : ε} {a : α} : okOr o e = .ok a ↔ o = some a := by
  cases o <;> simp [okOr]

/-- `okOr` fails exactly on an empty option, and with its own error. -/
theorem okOr_eq_error {o : Option α} {e e' : ε} :
    okOr o e = .error e' ↔ o = none ∧ e = e' := by
  cases o <;> simp [okOr]

/-! ## Arithmetic at a fixed width -/

/-- Addition of `w`-bit numbers, refused with `e` when the sum needs more than `w` bits. -/
def checkedAdd (w : ℕ) (e : ε) (a b : ℕ) : Except ε ℕ := assure (a + b < 2 ^ w) e (a + b)

/-- Subtraction, refused with `e` when it would go below zero. -/
def checkedSub (e : ε) (a b : ℕ) : Except ε ℕ := assure (b ≤ a) e (a - b)

/-- Multiplication of `w`-bit numbers, refused with `e` when the product needs more than
`w` bits. -/
def checkedMul (w : ℕ) (e : ε) (a b : ℕ) : Except ε ℕ := assure (a * b < 2 ^ w) e (a * b)

/-- Division, refused with `e` when the divisor is zero. -/
def checkedDiv (e : ε) (a b : ℕ) : Except ε ℕ := assure (0 < b) e (a / b)

/-- A checked addition returns the sum exactly when the sum fits in the width. -/
theorem checkedAdd_eq_ok {w : ℕ} {e : ε} {a b c : ℕ} :
    checkedAdd w e a b = .ok c ↔ a + b < 2 ^ w ∧ a + b = c := assure_eq_ok

/-- A checked addition fails exactly when the sum overflows the width. -/
theorem checkedAdd_eq_error {w : ℕ} {e e' : ε} {a b : ℕ} :
    checkedAdd w e a b = .error e' ↔ 2 ^ w ≤ a + b ∧ e = e' := by
  rw [checkedAdd, assure_eq_error, Nat.not_lt]

/-- A checked subtraction returns the difference exactly when there is enough to subtract from. -/
theorem checkedSub_eq_ok {e : ε} {a b c : ℕ} :
    checkedSub e a b = .ok c ↔ b ≤ a ∧ a - b = c := assure_eq_ok

/-- A checked subtraction fails exactly when the difference would be negative. -/
theorem checkedSub_eq_error {e e' : ε} {a b : ℕ} :
    checkedSub e a b = .error e' ↔ a < b ∧ e = e' := by
  rw [checkedSub, assure_eq_error, Nat.not_le]

/-- A checked multiplication returns the product exactly when the product fits in the width. -/
theorem checkedMul_eq_ok {w : ℕ} {e : ε} {a b c : ℕ} :
    checkedMul w e a b = .ok c ↔ a * b < 2 ^ w ∧ a * b = c := assure_eq_ok

/-- A checked multiplication fails exactly when the product overflows the width. -/
theorem checkedMul_eq_error {w : ℕ} {e e' : ε} {a b : ℕ} :
    checkedMul w e a b = .error e' ↔ 2 ^ w ≤ a * b ∧ e = e' := by
  rw [checkedMul, assure_eq_error, Nat.not_lt]

/-- A checked division returns the floor of the quotient exactly when the divisor is positive. -/
theorem checkedDiv_eq_ok {e : ε} {a b c : ℕ} :
    checkedDiv e a b = .ok c ↔ 0 < b ∧ a / b = c := assure_eq_ok

/-- A checked division fails exactly when the divisor is zero. -/
theorem checkedDiv_eq_error {e e' : ε} {a b : ℕ} :
    checkedDiv e a b = .error e' ↔ b = 0 ∧ e = e' := by
  rw [checkedDiv, assure_eq_error, Nat.not_lt, Nat.le_zero]

/-! ## What a computation may be refused with -/

/-- Every refusal of `x` meets `S`. -/
def RefusesOnly (S : ε → Prop) (x : Except ε α) : Prop := ∀ e, x = .error e → S e

section Refusals

variable {S : ε → Prop}

/-- A sequence is refused by its first part or by the rest. -/
theorem RefusesOnly.bind {x : Except ε α} {f : α → Except ε β} (first : RefusesOnly S x)
    (rest : ∀ a, RefusesOnly S (f a)) : RefusesOnly S (x >>= f) := by
  intro e h
  rcases bind_eq_error.mp h with hx | ⟨a, -, hf⟩
  · exact first e hx
  · exact rest a e hf

/-- A pure computation refuses with no error at all. -/
theorem RefusesOnly.pure (a : α) : RefusesOnly S (pure a) := by
  intro e h
  exact absurd h (by simp [pure_eq_error])

/-- A conditional refuses only with the errors of its branches. -/
theorem RefusesOnly.ite {c : Prop} [Decidable c] {x y : Except ε α} (yes : RefusesOnly S x)
    (no : RefusesOnly S y) : RefusesOnly S (if c then x else y) := by
  by_cases h : c
  · rwa [if_pos h]
  · rwa [if_neg h]

/-- `assure` refuses only with its own error. -/
theorem RefusesOnly.assure {c : Prop} [Decidable c] {e : ε} {a : α} (h : S e) :
    RefusesOnly S (assure c e a) := by
  intro e' herr
  obtain ⟨-, rfl⟩ := assure_eq_error.mp herr
  exact h

/-- `failIf` refuses only with its own error. -/
theorem RefusesOnly.failIf {c : Prop} [Decidable c] {e : ε} (h : S e) :
    RefusesOnly S (failIf c e) := .assure h

/-- `okOr` refuses only with its own error. -/
theorem RefusesOnly.okOr {o : Option α} {e : ε} (h : S e) : RefusesOnly S (okOr o e) := by
  intro e' herr
  obtain ⟨-, rfl⟩ := okOr_eq_error.mp herr
  exact h

/-- A checked addition refuses only with the overflow error it is given. -/
theorem RefusesOnly.checkedAdd {w : ℕ} {e : ε} {a b : ℕ} (h : S e) :
    RefusesOnly S (checkedAdd w e a b) := .assure h

/-- A checked subtraction refuses only with the error it is given. -/
theorem RefusesOnly.checkedSub {e : ε} {a b : ℕ} (h : S e) : RefusesOnly S (checkedSub e a b) :=
  .assure h

/-- A checked multiplication refuses only with the overflow error it is given. -/
theorem RefusesOnly.checkedMul {w : ℕ} {e : ε} {a b : ℕ} (h : S e) :
    RefusesOnly S (checkedMul w e a b) := .assure h

/-- A checked division refuses only with the error it is given. -/
theorem RefusesOnly.checkedDiv {e : ε} {a b : ℕ} (h : S e) : RefusesOnly S (checkedDiv e a b) :=
  .assure h

end Refusals

end TokenPresale.Library
