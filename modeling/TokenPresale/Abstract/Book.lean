import Mathlib.Algebra.BigOperators.Ring.Finset
import Mathlib.Algebra.Order.BigOperators.Group.Finset
import Mathlib.Logic.Relation
import TokenPresale.Library.FixedPrice

/-!
# The order book of a fixed price sale

What the presale is for, without addresses, signatures or records: a pool of `supply` tokens
is sold to its members at `rate` tokens for one coin, and the book keeps for each member what
it has received and paid. Members join at any time, orders are filled by `fill`, and the sale
can be closed, which takes the rest of the pool away.

`Reachable.balanced` says that no token is sold twice, `Reachable.priced` that the price is
rounded at most once, and `Reachable.free` that a sale at rate zero sells nothing.
-/

set_option autoImplicit false

namespace TokenPresale.Abstract

open TokenPresale.Library Finset

/-- The book of a sale to members of type `W`. -/
structure Book (W : Type) where
  pool : ℕ
  members : Finset W
  tokens : W → ℕ
  paid : W → ℕ
  /-- some order was for the whole rest of the pool or more -/
  soldOut : Bool
  closed : Bool

namespace Book

variable {W : Type}

/-- A sale before its first member. -/
def launch (supply : ℕ) : Book W where
  pool := supply
  members := ∅
  tokens := fun _ => 0
  paid := fun _ => 0
  soldOut := false
  closed := false

/-- A new member. -/
def enter [DecidableEq W] (b : Book W) (w : W) : Book W := { b with members := insert w b.members }

/-- An order of `amount` coins by `w`. -/
def sell [DecidableEq W] (rate : ℕ) (b : Book W) (w : W) (amount : ℕ) : Book W :=
  { b with
    pool := b.pool - (fill rate b.pool amount).tokens
    tokens := Function.update b.tokens w (b.tokens w + (fill rate b.pool amount).tokens)
    paid := Function.update b.paid w (b.paid w + (fill rate b.pool amount).cost)
    soldOut := b.soldOut || decide (b.pool ≤ rate * amount) }

/-- The end of the sale. -/
def close (b : Book W) : Book W := { b with pool := 0, closed := true }

/-- The moves of the sale. -/
inductive Step [DecidableEq W] (rate : ℕ) (b : Book W) : Book W → Prop
  | enter {w : W} (new : w ∉ b.members) : Step rate b (b.enter w)
  | sell {w : W} {amount : ℕ} (member : w ∈ b.members) : Step rate b (b.sell rate w amount)
  | close : Step rate b b.close

/-- The books a sale of `supply` tokens at `rate` can reach. -/
def Reachable [DecidableEq W] (rate supply : ℕ) (b : Book W) : Prop :=
  Relation.ReflTransGen (Step rate) (launch supply) b

/-- All tokens sold so far. -/
def sold (b : Book W) : ℕ := ∑ w ∈ b.members, b.tokens w

/-- All coins paid so far. -/
def raised (b : Book W) : ℕ := ∑ w ∈ b.members, b.paid w

/-! ## Every token is in the pool or with a member -/

/-- The tokens of the sale are accounted for. -/
structure Balanced (supply : ℕ) (b : Book W) : Prop where
  outside : ∀ w, w ∉ b.members → b.tokens w = 0 ∧ b.paid w = 0
  exact : b.closed = false → b.sold + b.pool = supply
  bound : b.sold + b.pool ≤ supply
  drained : b.closed = true → b.pool = 0

/-- A new book is balanced. -/
theorem balanced_launch (supply : ℕ) : Balanced supply (launch supply : Book W) where
  outside _ _ := ⟨rfl, rfl⟩
  exact _ := by simp [sold, launch]
  bound := by simp [sold, launch]
  drained h := by simp [launch] at h

/-! ## The price is rounded at most once -/

/-- Every member has received exactly what it paid for. -/
def Exact (rate : ℕ) (b : Book W) : Prop := ∀ w, b.tokens w = rate * b.paid w

/-- The pool is empty, and the member that emptied it received the rest of the supply that no
coin buys. -/
def Rounded (rate supply : ℕ) (b : Book W) : Prop :=
  b.pool = 0 ∧ b.soldOut = true ∧
    ∃ w₀, b.tokens w₀ = rate * b.paid w₀ + supply % rate ∧
      ∀ w, w ≠ w₀ → b.tokens w = rate * b.paid w

/-- The price of every member's tokens, and the coins a sale out of its pool has raised. -/
structure Priced (rate supply : ℕ) (b : Book W) : Prop where
  rounding : Exact rate b ∨ Rounded rate supply b
  drained : b.soldOut = true → b.pool = 0
  raised : b.soldOut = true → b.closed = false → b.raised = supply / rate

/-- In a new book nobody has paid or received anything, so every pair is priced. -/
theorem priced_launch (rate supply : ℕ) : Priced rate supply (launch supply : Book W) where
  rounding := .inl fun _ => by simp [launch]
  drained h := by simp [launch] at h
  raised h := by simp [launch] at h

/-- While everyone has paid exactly, the tokens sold are the rate times what was raised. -/
theorem Exact.sold_eq {rate : ℕ} {b : Book W} (h : Exact rate b) : b.sold = rate * b.raised := by
  rw [sold, Book.raised, mul_sum]
  exact sum_congr rfl fun w _ => h w

/-- While the price is exact, an open sale's pool and supply leave the same rest, and the
coins that the pool still buys complete those that the supply buys. -/
theorem Exact.pool_mod_div {rate supply : ℕ} {b : Book W} (h : Exact rate b)
    (hb : Balanced supply b) (hrate : 0 < rate) (hc : b.closed = false) :
    b.pool % rate = supply % rate ∧ b.raised + b.pool / rate = supply / rate := by
  have hsupply : supply = rate * b.raised + b.pool := by
    rw [← h.sold_eq]
    exact (hb.exact hc).symm
  constructor
  · rw [hsupply, Nat.mul_add_mod]
  · rw [hsupply, Nat.mul_add_div hrate]

/-- A member's tokens exceed what it paid for by less than the price of one coin. -/
theorem Priced.bounds {rate supply : ℕ} {b : Book W} (hp : Priced rate supply b)
    (hrate : 0 < rate) (w : W) :
    rate * b.paid w ≤ b.tokens w ∧ b.tokens w < rate * (b.paid w + 1) := by
  have hmod := Nat.mod_lt supply hrate
  have hexp : rate * (b.paid w + 1) = rate * b.paid w + rate := Nat.mul_succ _ _
  rcases hp.rounding with h | ⟨-, -, w₀, h₀, h⟩
  · have := h w
    omega
  · rcases eq_or_ne w w₀ with rfl | hne
    · omega
    · have := h w hne
      omega

/-- No more has been raised than the price of what was sold. -/
theorem Priced.raised_le {rate supply : ℕ} {b : Book W} (hp : Priced rate supply b)
    (hrate : 0 < rate) : rate * b.raised ≤ b.sold := by
  rw [sold, Book.raised, mul_sum]
  exact sum_le_sum fun w _ => (hp.bounds hrate w).1

/-- At most one wallet of a priced book has been rounded in its favour. -/
theorem Priced.rounded_unique {rate supply : ℕ} {b : Book W} (hp : Priced rate supply b)
    {w w' : W} (hw : b.tokens w ≠ rate * b.paid w) (hw' : b.tokens w' ≠ rate * b.paid w') :
    w = w' := by
  rcases hp.rounding with h | ⟨-, -, w₀, -, h⟩
  · exact absurd (h w) hw
  · have hw₀ : w = w₀ := by_contra fun hne => hw (h w hne)
    have hw₀' : w' = w₀ := by_contra fun hne => hw' (h w' hne)
    rw [hw₀, hw₀']

/-- The wallet that was rounded holds the remainder of the supply on top of what it paid for. -/
theorem Priced.excess {rate supply : ℕ} {b : Book W} (hp : Priced rate supply b) {w : W}
    (hw : b.tokens w ≠ rate * b.paid w) : b.tokens w = rate * b.paid w + supply % rate := by
  rcases hp.rounding with h | ⟨-, -, w₀, h₀, h⟩
  · exact absurd (h w) hw
  · obtain rfl : w = w₀ := by_contra fun hne => hw (h w hne)
    exact h₀

/-! ## Every move keeps both -/

section Moves

variable [DecidableEq W]

/-- Raising one member's entry raises the sum over the members by as much. -/
theorem sum_update_add {s : Finset W} {w : W} (hw : w ∈ s) (f : W → ℕ) (n : ℕ) :
    ∑ v ∈ s, Function.update f w (f w + n) v = ∑ v ∈ s, f v + n := by
  have hrest : ∑ v ∈ s, f v = f w + ∑ v ∈ s.erase w, f v := (add_sum_erase s f hw).symm
  rw [sum_update_of_mem hw, hrest, sdiff_singleton_eq_erase]
  omega

/-- A sale raises the tokens sold by what the order takes. -/
theorem sold_sell {b : Book W} {w : W} (hw : w ∈ b.members) (rate amount : ℕ) :
    (b.sell rate w amount).sold = b.sold + (fill rate b.pool amount).tokens :=
  sum_update_add hw _ _

/-- A sale raises what was raised by what the order costs. -/
theorem raised_sell {b : Book W} {w : W} (hw : w ∈ b.members) (rate amount : ℕ) :
    (b.sell rate w amount).raised = b.raised + (fill rate b.pool amount).cost :=
  sum_update_add hw _ _

/-- An order on an empty pool only marks the book as sold out. -/
theorem sell_of_empty {b : Book W} (h : b.pool = 0) (rate : ℕ) (w : W) (amount : ℕ) :
    b.sell rate w amount = { b with soldOut := true } := by
  have hfill : fill rate b.pool amount = ⟨0, 0⟩ := by
    rw [h, fill_of_le (Nat.zero_le _), Nat.zero_div]
  have hle : b.pool ≤ rate * amount := h ▸ Nat.zero_le _
  simp only [sell, hfill, Nat.sub_zero, Nat.add_zero, Function.update_eq_self, hle, decide_true,
    Bool.or_true]

/-- A member that joins holds nothing yet, so it changes no sum. -/
theorem Balanced.sum_enter {supply : ℕ} {b : Book W} (hb : Balanced supply b) {w : W}
    (new : w ∉ b.members) : (b.enter w).sold = b.sold ∧ (b.enter w).raised = b.raised := by
  obtain ⟨htokens, hpaid⟩ := hb.outside w new
  constructor
  · simp only [sold, enter, sum_insert new, htokens, Nat.zero_add]
  · simp only [raised, enter, sum_insert new, hpaid, Nat.zero_add]

/-- Every step keeps a book balanced. -/
theorem Balanced.step {rate supply : ℕ} {b b' : Book W} (hb : Balanced supply b)
    (h : Step rate b b') : Balanced supply b' := by
  cases h with
  | @enter w new =>
    have hsold := (hb.sum_enter new).1
    refine ⟨fun v hv => hb.outside v fun hmem => hv (mem_insert_of_mem hmem), ?_, ?_, hb.drained⟩
    · intro hc
      rw [hsold]
      exact hb.exact hc
    · rw [hsold]
      exact hb.bound
  | @sell w amount member =>
    have hsold := sold_sell member rate amount
    have hle : (fill rate b.pool amount).tokens ≤ b.pool := fill_tokens_le
    refine ⟨?_, ?_, ?_, ?_⟩
    · intro v hv
      have hne : v ≠ w := fun e => hv (e ▸ member)
      simpa only [Book.sell, Function.update_of_ne hne] using hb.outside v hv
    · intro hc
      have := hb.exact hc
      rw [hsold]
      simp only [Book.sell]
      omega
    · have := hb.bound
      rw [hsold]
      simp only [Book.sell]
      omega
    · intro hc
      have := hb.drained hc
      simp only [Book.sell]
      omega
  | close =>
    have := hb.bound
    refine ⟨hb.outside, fun hc => by simp [Book.close] at hc, ?_, fun _ => rfl⟩
    show b.sold + 0 ≤ supply
    omega

/-- Every reachable book is balanced. -/
theorem Reachable.balanced {rate supply : ℕ} {b : Book W} (h : Reachable rate supply b) :
    Balanced supply b := by
  induction h with
  | refl => exact balanced_launch supply
  | tail _ step ih => exact ih.step step

/-- An order inside the pool keeps a book exact. -/
theorem Exact.sell_part {rate : ℕ} {b : Book W} (h : Exact rate b) {w : W} {amount : ℕ}
    (hlt : rate * amount < b.pool) : Exact rate (b.sell rate w amount) := by
  intro v
  simp only [Book.sell, fill_of_lt hlt]
  rcases eq_or_ne v w with rfl | hv
  · simp only [Function.update_self, h v, Nat.mul_add]
  · simp only [Function.update_of_ne hv, h v]

/-- An order for the whole pool of an open sale receives the rest of the supply. -/
theorem Exact.sell_rest {rate supply : ℕ} {b : Book W} (h : Exact rate b)
    (hb : Balanced supply b) (hrate : 0 < rate) (hc : b.closed = false) {w : W} {amount : ℕ}
    (hle : b.pool ≤ rate * amount) : Rounded rate supply (b.sell rate w amount) := by
  simp only [Rounded, Book.sell, fill_of_le hle]
  refine ⟨Nat.sub_self _, by simp [hle], w, ?_, ?_⟩
  · have hdiv := Nat.div_add_mod b.pool rate
    rw [Function.update_self, Function.update_self, h w, Nat.mul_add,
      ← (h.pool_mod_div hb hrate hc).1]
    omega
  · intro v hv
    rw [Function.update_of_ne hv, Function.update_of_ne hv, h v]

/-- An order on an empty pool keeps a book priced. -/
theorem Priced.sell_empty {rate supply : ℕ} {b : Book W} (hp : Priced rate supply b)
    (hb : Balanced supply b) (hrate : 0 < rate) (hpool : b.pool = 0) {w : W} {amount : ℕ} :
    Priced rate supply (b.sell rate w amount) := by
  rw [sell_of_empty hpool]
  refine ⟨?_, fun _ => hpool, ?_⟩
  · rcases hp.rounding with h | ⟨-, -, hw⟩
    · exact .inl h
    · exact .inr ⟨hpool, rfl, hw⟩
  · intro _ hc
    show b.raised = supply / rate
    rcases hp.rounding with h | ⟨-, hsold, -⟩
    · have := (h.pool_mod_div hb hrate hc).2
      rwa [hpool, Nat.zero_div, Nat.add_zero] at this
    · exact hp.raised hsold hc

/-- Every move keeps the prices. The price is exact until an order takes the whole pool, and
from then on the pool is empty. -/
theorem Priced.step {rate supply : ℕ} {b b' : Book W} (hp : Priced rate supply b)
    (hb : Balanced supply b) (hrate : 0 < rate) (h : Step rate b b') : Priced rate supply b' := by
  cases h with
  | @enter w new =>
    refine ⟨hp.rounding, hp.drained, fun hsold hc => ?_⟩
    rw [(hb.sum_enter new).2]
    exact hp.raised hsold hc
  | @sell w amount member =>
    rcases Nat.eq_zero_or_pos b.pool with hpool | hpool
    · exact hp.sell_empty hb hrate hpool
    have hsold : b.soldOut = false := by
      cases hs : b.soldOut with
      | false => rfl
      | true => exact absurd (hp.drained hs) hpool.ne'
    have hc : b.closed = false := by
      cases hs : b.closed with
      | false => rfl
      | true => exact absurd (hb.drained hs) hpool.ne'
    have hex : Exact rate b := by
      rcases hp.rounding with h | ⟨hzero, -⟩
      · exact h
      · exact absurd hzero hpool.ne'
    rcases Nat.lt_or_ge (rate * amount) b.pool with hlt | hle
    · have hopen : (b.sell rate w amount).soldOut = false := by
        simp [Book.sell, hsold, hlt]
      refine ⟨.inl (hex.sell_part hlt), ?_, ?_⟩
      · intro hs
        simp [hopen] at hs
      · intro hs
        simp [hopen] at hs
    · refine ⟨.inr (hex.sell_rest hb hrate hc hle), ?_, ?_⟩
      · intro _
        exact (hex.sell_rest hb hrate hc hle (w := w)).1
      · intro _ _
        rw [raised_sell member, fill_of_le hle]
        exact (hex.pool_mod_div hb hrate hc).2
  | close =>
    refine ⟨?_, fun _ => rfl, fun _ hc => by simp [Book.close] at hc⟩
    rcases hp.rounding with h | ⟨-, hs, hw⟩
    · exact .inl h
    · exact .inr ⟨rfl, hs, hw⟩

/-- In every reachable book the price is rounded at most once. -/
theorem Reachable.priced {rate supply : ℕ} {b : Book W} (h : Reachable rate supply b)
    (hrate : 0 < rate) : Priced rate supply b := by
  induction h with
  | refl => exact priced_launch rate supply
  | tail reach step ih => exact ih.step (Reachable.balanced reach) hrate step

/-- A sale at rate zero allocates nothing, whatever it takes. -/
theorem Reachable.free {supply : ℕ} {b : Book W} (h : Reachable 0 supply b) (w : W) :
    b.tokens w = 0 := by
  induction h with
  | refl => rfl
  | tail _ step ih =>
    cases step with
    | enter _ => exact ih
    | @sell v _ _ =>
      rcases eq_or_ne w v with rfl | hne
      · simp only [Book.sell, Function.update_self, ih, fill_free]
      · simp only [Book.sell, Function.update_of_ne hne, ih]
    | close => exact ih

end Moves

end Book

end TokenPresale.Abstract
