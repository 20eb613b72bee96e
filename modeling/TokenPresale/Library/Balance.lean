import Mathlib.Algebra.Order.Ring.Nat
import Mathlib.Logic.Function.Basic
import Mathlib.Algebra.BigOperators.Group.Finset.Piecewise
import Mathlib.Algebra.BigOperators.Group.List.Basic
import Mathlib.Data.List.Perm.Basic

/-!
# Moving amounts between balances

`move b src dst n` takes `n` from the balance of `src` and then adds it to that of `dst`,
in this order, so that a transfer from an account to itself changes nothing. Transfers commute
unless one pays what the other charges (`move_comm`). `disburse` pays a list of recipients
out of one account; when none of them is that account, the order of the list does not matter
(`disburse_perm`). Both keep the sum over any set of accounts that contains those they name
(`sum_move`, `sum_disburse`).
-/

set_option autoImplicit false

namespace TokenPresale.Library

variable {K : Type} [DecidableEq K]

/-- Balances after `n` is taken from `src` and then added to `dst`. -/
def move (b : K → ℕ) (src dst : K) (n : ℕ) : K → ℕ :=
  Function.update (Function.update b src (b src - n)) dst
    (Function.update b src (b src - n) dst + n)

/-- A transfer to another account lowers the source by its amount. -/
theorem move_src {b : K → ℕ} {src dst : K} (n : ℕ) (h : src ≠ dst) :
    move b src dst n src = b src - n := by
  simp [move, h]

/-- A transfer from another account raises the destination by its amount. -/
theorem move_dst {b : K → ℕ} {src dst : K} (n : ℕ) (h : src ≠ dst) :
    move b src dst n dst = b dst + n := by
  simp [move, h.symm]

/-- An account that is neither end of a transfer keeps its balance. -/
theorem move_other (b : K → ℕ) {src dst k : K} (n : ℕ) (hs : k ≠ src) (hd : k ≠ dst) :
    move b src dst n k = b k := by
  simp [move, hs, hd]

/-- A covered transfer from an account to itself changes nothing. -/
theorem move_self {b : K → ℕ} {k : K} {n : ℕ} (h : n ≤ b k) : move b k k n = b := by
  funext k'
  rcases eq_or_ne k' k with rfl | hk
  · simp [move, Nat.sub_add_cancel h]
  · simp [move, hk]

/-- A transfer of nothing changes nothing. -/
theorem move_zero (b : K → ℕ) (src dst : K) : move b src dst 0 = b := by
  simp [move]

/-- A transfer lowers no account but its source. -/
theorem le_move (b : K → ℕ) {src k : K} (dst : K) (n : ℕ) (h : k ≠ src) :
    b k ≤ move b src dst n k := by
  rcases eq_or_ne k dst with rfl | hd
  · rw [move_dst n h.symm]
    omega
  · exact Nat.le_of_eq (move_other b n h hd).symm

/-- The source of a transfer loses at most the amount. -/
theorem sub_le_move (b : K → ℕ) (src dst : K) (n : ℕ) :
    b src - n ≤ move b src dst n src := by
  rcases eq_or_ne src dst with rfl | h
  · simp [move]
  · exact Nat.le_of_eq (move_src n h).symm

/-- A covered transfer never raises its source, whatever the destination is. -/
theorem move_src_le {b : K → ℕ} {src : K} (dst : K) {n : ℕ} (h : n ≤ b src) :
    move b src dst n src ≤ b src := by
  rcases eq_or_ne src dst with rfl | hne
  · rw [move_self h]
  · rw [move_src n hne]
    exact Nat.sub_le _ _

/-- Two transfers between the same accounts are one. -/
theorem move_move (b : K → ℕ) {src dst : K} (h : src ≠ dst) (m n : ℕ) :
    move (move b src dst m) src dst n = move b src dst (m + n) := by
  funext k
  rcases eq_or_ne k src with rfl | hs
  · rw [move_src _ h, move_src _ h, move_src _ h, Nat.sub_sub]
  · rcases eq_or_ne k dst with rfl | hd
    · rw [move_dst _ h, move_dst _ h, move_dst _ h, Nat.add_assoc]
    · rw [move_other _ _ hs hd, move_other _ _ hs hd, move_other _ _ hs hd]

/-- The balance of any account after a transfer between two accounts, in one formula. -/
theorem move_apply (b : K → ℕ) {src dst : K} (h : src ≠ dst) (n : ℕ) (k : K) :
    move b src dst n k =
      b k - (if k = src then n else 0) + if k = dst then n else 0 := by
  rcases eq_or_ne k src with rfl | hs
  · rw [move_src n h, if_pos rfl, if_neg h, Nat.add_zero]
  · rcases eq_or_ne k dst with rfl | hd
    · rw [move_dst n h, if_neg hs, if_pos rfl, Nat.sub_zero]
    · rw [move_other b n hs hd, if_neg hs, if_neg hd, Nat.sub_zero, Nat.add_zero]

/-- Two transfers commute when neither pays an account that one of them charges. -/
theorem move_comm (b : K → ℕ) {src src' dst dst' : K} (h : src ≠ dst) (h' : src' ≠ dst')
    (hs : src ≠ dst') (hs' : src' ≠ dst) (m n : ℕ) :
    move (move b src dst m) src' dst' n = move (move b src' dst' n) src dst m := by
  funext k
  simp only [move_apply _ h, move_apply _ h']
  by_cases hdebit : k = src ∨ k = src'
  · have hnot : k ≠ dst ∧ k ≠ dst' := by
      rcases hdebit with rfl | rfl
      · exact ⟨h, hs⟩
      · exact ⟨hs', h'⟩
    simp only [if_neg hnot.1, if_neg hnot.2, Nat.add_zero]
    exact Nat.sub_right_comm _ _ _
  · rw [not_or] at hdebit
    simp only [if_neg hdebit.1, if_neg hdebit.2, Nat.sub_zero]
    exact Nat.add_right_comm _ _ _

/-- Two such transfers are funded in one order if they are in the other. -/
theorem move_funded_comm {b : K → ℕ} {src src' dst dst' : K} {m n : ℕ} (h : src ≠ dst)
    (h' : src' ≠ dst') (hs : src ≠ dst') (hs' : src' ≠ dst) (hm : m ≤ b src)
    (hn : n ≤ move b src dst m src') : n ≤ b src' ∧ m ≤ move b src' dst' n src := by
  rcases eq_or_ne src src' with rfl | hne
  · rw [move_src _ h] at hn
    rw [move_src _ h']
    omega
  · rw [move_other _ _ hne.symm hs'] at hn
    rw [move_other _ _ hne hs]
    exact ⟨hn, hm⟩

/-- Transfers into one account commute. -/
theorem move_right_comm (b : K → ℕ) {src src' dst : K} (h : src ≠ dst) (h' : src' ≠ dst)
    (m n : ℕ) : move (move b src dst m) src' dst n = move (move b src' dst n) src dst m :=
  move_comm b h h' h h' m n

/-! ## Balances that agree on some accounts -/

/-- Two functions that agree where `P` holds still agree there after the same update. -/
theorem update_congr {V : Type} {P : K → Prop} {f g : K → V} (x : K) {v w : V}
    (h : ∀ k, P k → f k = g k) (hv : v = w) :
    ∀ k, P k → Function.update f x v k = Function.update g x w k := by
  intro k hk
  rcases eq_or_ne k x with rfl | hne
  · rw [Function.update_self, Function.update_self, hv]
  · rw [Function.update_of_ne hne, Function.update_of_ne hne, h k hk]

/-- A transfer between accounts on which two balances agree keeps them in agreement. -/
theorem move_congr {P : K → Prop} {b b' : K → ℕ} {src dst : K} {m n : ℕ}
    (h : ∀ k, P k → b k = b' k) (hs : P src) (hd : P dst) (hn : m = n) :
    ∀ k, P k → move b src dst m k = move b' src dst n k := by
  subst hn
  have hsrc : b src - m = b' src - m := by rw [h src hs]
  have debited := update_congr src h hsrc
  have hdst : Function.update b src (b src - m) dst + m =
      Function.update b' src (b' src - m) dst + m := by rw [debited dst hd]
  exact update_congr dst debited hdst

/-! ## Paying a list of recipients -/

/-- Balances after each recipient of the list is paid its amount out of `src`. -/
def disburse (b : K → ℕ) (src : K) (l : List (K × ℕ)) : K → ℕ :=
  l.foldl (fun b p => move b src p.1 p.2) b

/-- Paying an empty list changes nothing. -/
@[simp] theorem disburse_nil (b : K → ℕ) (src : K) : disburse b src [] = b := rfl

/-- A list is paid from its head on. -/
@[simp] theorem disburse_cons (b : K → ℕ) (src : K) (p : K × ℕ) (l : List (K × ℕ)) :
    disburse b src (p :: l) = disburse (move b src p.1 p.2) src l := rfl

/-- The amounts a list pays to one recipient. -/
def paidTo (k : K) (l : List (K × ℕ)) : ℕ := (l.map fun p => if p.1 = k then p.2 else 0).sum

/-- An empty list pays nobody. -/
@[simp] theorem paidTo_nil (k : K) : paidTo k [] = 0 := rfl

/-- What a list pays to an account is what its head pays there and what the rest pays there. -/
@[simp] theorem paidTo_cons (k : K) (p : K × ℕ) (l : List (K × ℕ)) :
    paidTo k (p :: l) = (if p.1 = k then p.2 else 0) + paidTo k l := by
  simp [paidTo]

/-- The source of a list of payments to others ends lower by their sum. -/
theorem disburse_src (b : K → ℕ) (src : K) (l : List (K × ℕ)) (h : ∀ p ∈ l, src ≠ p.1) :
    disburse b src l src = b src - (l.map Prod.snd).sum := by
  induction l generalizing b with
  | nil => simp
  | cons p l ih =>
    rw [disburse_cons, ih _ fun q hq => h q (List.mem_cons_of_mem _ hq),
      move_src _ (h p List.mem_cons_self)]
    simp only [List.map_cons, List.sum_cons]
    omega

/-- Any other account ends higher by what the list pays to it. -/
theorem disburse_of_ne (b : K → ℕ) {src k : K} (l : List (K × ℕ)) (hk : k ≠ src) :
    disburse b src l k = b k + paidTo k l := by
  induction l generalizing b with
  | nil => simp
  | cons p l ih =>
    rw [disburse_cons, ih, paidTo_cons]
    rcases eq_or_ne p.1 k with hp | hp
    · rw [if_pos hp, hp, move_dst _ hk.symm, add_assoc]
    · rw [if_neg hp, move_other _ _ hk hp.symm, Nat.zero_add]

/-- Payments between accounts where two balances agree keep them in agreement there. -/
theorem disburse_congr {P : K → Prop} {b b' : K → ℕ} {src : K} {l : List (K × ℕ)}
    (h : ∀ k, P k → b k = b' k) (hs : P src) (hl : ∀ p ∈ l, P p.1) :
    ∀ k, P k → disburse b src l k = disburse b' src l k := by
  induction l generalizing b b' with
  | nil => exact h
  | cons p l ih =>
    have hp := hl p List.mem_cons_self
    exact ih (move_congr h hs hp rfl) fun q hq => hl q (List.mem_cons_of_mem _ hq)

/-- A list pays nothing to an account it does not name. -/
theorem paidTo_of_notMem {k : K} {l : List (K × ℕ)} (h : k ∉ l.map Prod.fst) :
    paidTo k l = 0 := by
  induction l with
  | nil => rfl
  | cons p l ih =>
    rw [List.map_cons, List.mem_cons, not_or] at h
    rw [paidTo_cons, if_neg (Ne.symm h.1), ih h.2]

/-- The order in which recipients are paid does not matter. -/
theorem disburse_perm (b : K → ℕ) {src : K} {l l' : List (K × ℕ)} (hp : l.Perm l')
    (h : ∀ p ∈ l, src ≠ p.1) : disburse b src l = disburse b src l' := by
  funext k
  have hsum : (l.map Prod.snd).sum = (l'.map Prod.snd).sum := (hp.map _).sum_eq
  have hpaid : paidTo k l = paidTo k l' := (hp.map _).sum_eq
  rcases eq_or_ne k src with rfl | hk
  · rw [disburse_src b k l h, disburse_src b k l' fun p hp' => h p (hp.mem_iff.mpr hp'), hsum]
  · rw [disburse_of_ne b l hk, disburse_of_ne b l' hk, hpaid]

/-! ## Sums over a set of accounts -/

section Sums

variable {S : Finset K}

/-- Changing one summand trades its old value for the new one. -/
theorem sum_update_trade (b : K → ℕ) {x : K} (hx : x ∈ S) (v : ℕ) :
    ∑ k ∈ S, Function.update b x v k + b x = ∑ k ∈ S, b k + v := by
  rw [Finset.sum_update_of_mem hx, ← Finset.add_sum_erase S b hx,
    Finset.sdiff_singleton_eq_erase]
  omega

/-- An update outside a set of accounts leaves their sum alone. -/
theorem sum_update_of_notMem (b : K → ℕ) {x : K} (hx : x ∉ S) (v : ℕ) :
    ∑ k ∈ S, Function.update b x v k = ∑ k ∈ S, b k := by
  apply Finset.sum_congr rfl
  intro k hk
  have hne : k ≠ x := by
    rintro rfl
    exact hx hk
  exact Function.update_of_ne hne _ _

/-- A transfer between two accounts of the set keeps the sum. -/
theorem sum_move {b : K → ℕ} {src dst : K} {n : ℕ} (hs : src ∈ S) (hd : dst ∈ S)
    (hn : n ≤ b src) : ∑ k ∈ S, move b src dst n k = ∑ k ∈ S, b k := by
  have debited := sum_update_trade b hs (b src - n)
  have credited := sum_update_trade (Function.update b src (b src - n)) hd
    (Function.update b src (b src - n) dst + n)
  unfold move
  omega

/-- Paying accounts of the set out of another one keeps the sum. -/
theorem sum_disburse {b : K → ℕ} {src : K} {l : List (K × ℕ)} (hs : src ∈ S)
    (hl : ∀ p ∈ l, p.1 ∈ S ∧ src ≠ p.1) (hn : (l.map Prod.snd).sum ≤ b src) :
    ∑ k ∈ S, disburse b src l k = ∑ k ∈ S, b k := by
  induction l generalizing b with
  | nil => rfl
  | cons p l ih =>
    obtain ⟨hp, hne⟩ := hl p List.mem_cons_self
    rw [List.map_cons, List.sum_cons] at hn
    have hrest : (l.map Prod.snd).sum ≤ move b src p.1 p.2 src := by
      rw [move_src _ hne]
      omega
    rw [disburse_cons, ih (fun q hq => hl q (List.mem_cons_of_mem _ hq)) hrest,
      sum_move hs hp (by omega)]

end Sums

end TokenPresale.Library
