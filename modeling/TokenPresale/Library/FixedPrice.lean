import Mathlib.Algebra.Order.Ring.Nat
import Mathlib.Tactic.Ring

/-!
# Filling an order at a fixed price from a finite pool

Goods are sold at `rate` units for one coin. An order of `amount` coins is filled from a
pool: in full while the pool holds more than `rate * amount`, and otherwise with all that is
left, charged at the price rounded down.

Both branches are one clamped fill (`fill_eq_min`). Splitting an order changes nothing
(`fill_add`), and the price is rounded in favour of the buyer only by an order for a pool that
`rate` does not divide (`fill_tokens_le_mul_cost_iff`).
-/

set_option autoImplicit false

namespace TokenPresale.Library

/-- What an order receives and what it is charged. -/
structure Fill where
  tokens : ℕ
  cost : ℕ
deriving DecidableEq, Repr

/-- The fill of an order of `amount` coins. -/
def fill (rate pool amount : ℕ) : Fill :=
  if pool ≤ rate * amount then ⟨pool, pool / rate⟩ else ⟨rate * amount, amount⟩

variable {rate pool amount : ℕ}

/-- An order that reaches the end of the pool takes all of it, for the pool's floor price. -/
theorem fill_of_le (h : pool ≤ rate * amount) : fill rate pool amount = ⟨pool, pool / rate⟩ :=
  if_pos h

/-- An order that stays inside the pool is filled in full, for its own amount. -/
theorem fill_of_lt (h : rate * amount < pool) :
    fill rate pool amount = ⟨rate * amount, amount⟩ :=
  if_neg (Nat.not_le.mpr h)

/-- An order takes no more than the pool. -/
theorem fill_tokens_le : (fill rate pool amount).tokens ≤ pool := by
  rcases Nat.lt_or_ge (rate * amount) pool with h | h
  · rw [fill_of_lt h]
    exact h.le
  · rw [fill_of_le h]

/-- An order costs no more than its amount. -/
theorem fill_cost_le : (fill rate pool amount).cost ≤ amount := by
  rcases Nat.lt_or_ge (rate * amount) pool with h | h
  · rw [fill_of_lt h]
  · rw [fill_of_le h]
    exact Nat.div_le_of_le_mul h

/-- Either the order is filled at the exact price, or it empties the pool. -/
theorem fill_exact_or_drains :
    (fill rate pool amount).tokens = rate * (fill rate pool amount).cost ∨
      (fill rate pool amount).tokens = pool ∧ (fill rate pool amount).cost = pool / rate := by
  rcases Nat.lt_or_ge (rate * amount) pool with h | h
  · rw [fill_of_lt h]
    exact .inl rfl
  · rw [fill_of_le h]
    exact .inr ⟨rfl, rfl⟩

/-- An order's cost at the rate never exceeds the tokens it takes. -/
theorem fill_cost_mul_le :
    rate * (fill rate pool amount).cost ≤ (fill rate pool amount).tokens := by
  have hcases : (fill rate pool amount).tokens = rate * (fill rate pool amount).cost ∨
      (fill rate pool amount).tokens = pool ∧ (fill rate pool amount).cost = pool / rate :=
    fill_exact_or_drains
  rcases hcases with h | ⟨ht, hc⟩
  · exact h.ge
  · rw [ht, hc]
    exact Nat.mul_div_le pool rate

/-! ## The clamped fill -/

/-- An amount that the pool covers at the rate is at most the pool's floor price. -/
theorem le_quotient (hrate : 0 < rate) (h : rate * amount ≤ pool) : amount ≤ pool / rate :=
  (Nat.le_div_iff_mul_le hrate).mpr (Nat.mul_comm rate amount ▸ h)

/-- The two ways to fill an order are one: whatever the order asks for, up to what is left. -/
theorem fill_eq_min (hrate : 0 < rate) :
    fill rate pool amount = ⟨min (rate * amount) pool, min amount (pool / rate)⟩ := by
  rcases Nat.lt_or_ge (rate * amount) pool with h | h
  · have hcost : amount ≤ pool / rate := le_quotient hrate h.le
    rw [fill_of_lt h, Nat.min_eq_left h.le, Nat.min_eq_left hcost]
  · have hcost : pool / rate ≤ amount := Nat.div_le_of_le_mul h
    rw [fill_of_le h, Nat.min_eq_right h, Nat.min_eq_right hcost]

/-- An order that the pool can serve is filled in full, also when it empties the pool. -/
theorem fill_fits (hrate : 0 < rate) (h : rate * amount ≤ pool) :
    fill rate pool amount = ⟨rate * amount, amount⟩ := by
  have hcost : amount ≤ pool / rate := le_quotient hrate h
  rw [fill_eq_min hrate, Nat.min_eq_left h, Nat.min_eq_left hcost]

/-- An order placed in two parts receives and costs what it does in one. -/
theorem fill_add (hrate : 0 < rate) (m n : ℕ) :
    let first := fill rate pool m
    let second := fill rate (pool - first.tokens) n
    fill rate pool (m + n) = ⟨first.tokens + second.tokens, first.cost + second.cost⟩ := by
  have hsum : rate * (m + n) = rate * m + rate * n := Nat.mul_add _ _ _
  rcases Nat.le_total (rate * m) pool with h | h
  · have hcost : m ≤ pool / rate := le_quotient hrate h
    have hrest : (pool - rate * m) / rate = pool / rate - m := Nat.sub_mul_div _ _ _
    simp only [fill_fits hrate h, fill_eq_min hrate, hrest, hsum, Fill.mk.injEq]
    omega
  · have hcost : pool / rate ≤ m := Nat.div_le_of_le_mul h
    simp only [fill_of_le h, fill_eq_min hrate, Nat.sub_self, Nat.zero_div, hsum, Fill.mk.injEq]
    omega

/-- The buyer pays for every unit unless it takes a rest that is no multiple of the price. -/
theorem fill_tokens_le_mul_cost_iff :
    (fill rate pool amount).tokens ≤ (fill rate pool amount).cost * rate ↔
      rate * amount < pool ∨ rate ∣ pool := by
  rcases Nat.lt_or_ge (rate * amount) pool with h | h
  · rw [fill_of_lt h]
    exact iff_of_true (Nat.mul_comm _ _).le (.inl h)
  · rw [fill_of_le h]
    constructor
    · intro hle
      have hexact : pool / rate * rate = pool := le_antisymm (Nat.div_mul_le_self _ _) hle
      exact .inr (Nat.dvd_of_mod_eq_zero (by have := Nat.div_add_mod' pool rate; omega))
    · rintro (hlt | hdvd)
      · exact absurd hlt (Nat.not_lt.mpr h)
      · exact (Nat.div_mul_cancel hdvd).ge

/-- What costs nothing is not sold. -/
theorem fill_free : (fill 0 pool amount).tokens = 0 := by
  rcases Nat.eq_zero_or_pos pool with rfl | hpool
  · exact Nat.le_zero.mp fill_tokens_le
  · have hlt : 0 * amount < pool := by rwa [Nat.zero_mul]
    rw [fill_of_lt hlt, Nat.zero_mul]

/-- An order receives something exactly if it asks for something and there is something. -/
theorem fill_tokens_pos_iff :
    0 < (fill rate pool amount).tokens ↔ 0 < rate * amount ∧ 0 < pool := by
  rcases Nat.lt_or_ge (rate * amount) pool with h | h
  · rw [fill_of_lt h]
    show 0 < rate * amount ↔ _
    omega
  · rw [fill_of_le h]
    show 0 < pool ↔ _
    omega

end TokenPresale.Library
