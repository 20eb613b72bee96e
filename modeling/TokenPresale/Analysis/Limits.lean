import TokenPresale.Analysis.CapFlags

/-!
# What the limits of the sale promise

`user_max_buy` is compared with the amount of one call, and the soft cap with what is left in
the pool. This module says exactly which orders nevertheless keep a wallet within its maximum
over the whole sale, and for which orders the soft cap flag speaks of what was sold.
-/

set_option autoImplicit false

namespace TokenPresale.Analysis

open TokenPresale.Library TokenPresale.Model TokenPresale.Interface

/-! ## The maximum of a wallet -/

/-- No account has contributed more than the maximum of the sale. -/
def WithinMax (_ : History) (s : State) : Prop :=
  ∀ p k u, s.presale = some p → s.users.lookup k = some u → u.userSolContributed ≤ p.userMaxBuy

/-- If the step `r` is an order, what its wallet has contributed and the order add up to no more
than the maximum; an order that takes the whole rest of the pool counts for what the rest
costs. -/
def BuysWithinMax (_ : History) (r : Step) : Prop :=
  ∀ cx a amount p u, r.input = .instruction cx (.buyToken a amount) →
    r.before.presale = some p → r.before.users.lookup (.userRole a.authority) = some u →
      u.userSolContributed + amount.toNat ≤ p.userMaxBuy ∨
        p.totalTokenRemained ≤ p.presaleRate * amount.toNat ∧
          u.userSolContributed + p.totalTokenRemained / p.presaleRate ≤ p.userMaxBuy

/-- The condition on an order is about what the order costs. -/
theorem cost_within_iff {p : PresaleAccount} {paid n : ℕ} :
    paid + (fillOf p n).cost ≤ p.userMaxBuy ↔
      paid + n ≤ p.userMaxBuy ∨
        p.totalTokenRemained ≤ p.presaleRate * n ∧
          paid + p.totalTokenRemained / p.presaleRate ≤ p.userMaxBuy := by
  have hle : (fillOf p n).cost ≤ n := fill_cost_le
  constructor
  · intro hcost
    rcases Nat.lt_or_ge (p.presaleRate * n) p.totalTokenRemained with hlt | hrest
    · rw [fillOf, fill_of_lt hlt] at hcost
      exact .inl hcost
    · rw [fillOf, fill_of_le hrest] at hcost
      exact .inr ⟨hrest, hcost⟩
  · rintro (hall | ⟨hrest, hcost⟩)
    · omega
    · rw [fillOf, fill_of_le hrest]
      exact hcost

/-- A quiet step keeps every account within the maximum. -/
theorem Coherent.withinMax_quiet {s s' : State} {h : History} {i : Input} {o : List LogEntry}
    (c : Coherent s) (effect : Effect s i s' o) (same : Quiet s s' i o) (within : WithinMax h s) :
    WithinMax (h ++ [⟨s, i, o⟩]) s' := by
  intro p' k u' hp' hu'
  cases hp : s.presale with
  | none =>
    obtain ⟨cx, a, args, -, -, rfl, -⟩ := launch_of_effect effect hp hp'
    have hnone : s.users.lookup k = none := by rw [c.unlaunched hp]; exact Finmap.lookup_empty k
    exact absurd (hu'.symm.trans hnone) (Option.some_ne_none _)
  | some p =>
    obtain ⟨q, hq, hrecord⟩ := c.record_step effect hp
    obtain rfl := Option.mem_unique hq hp'
    have hmax : q.userMaxBuy = p.userMaxBuy := congrArg Terms.userMaxBuy hrecord.terms_eq
    have hpaid : s'.users.reading UserAccount.userSolContributed k =
        s.users.reading UserAccount.userSolContributed k :=
      congrFun (same.reading (fun _ c => c) rfl) k
    rw [Ledger.reading_of_lookup hu'] at hpaid
    rw [hmax, hpaid]
    cases hu : s.users.lookup k with
    | none => simp [Ledger.reading, hu]
    | some u =>
      rw [Ledger.reading_of_lookup hu]
      exact within p k u hp hu

/-- Where every account is within the maximum, the next step keeps it so exactly when it is no
order past the maximum. -/
theorem withinMax_step {s₀ s s' : State} {h : History} {i : Input} {o : List LogEntry}
    (fresh : Fresh s₀) (run : presale.Run s₀ h s) (within : WithinMax h s)
    (hstep : presale.step s i = .ok (s', o)) :
    WithinMax (h ++ [⟨s, i, o⟩]) s' ↔ BuysWithinMax h ⟨s, i, o⟩ := by
  have effect := effect_of_step hstep
  have c := coherent_of_run fresh run
  cases c.money_step effect with
  | @buy cx a amount p u ok =>
    have horder : BuysWithinMax h ⟨s, .instruction cx (.buyToken a amount),
        buyLog cx a amount.toNat p⟩ ↔
          u.userSolContributed + (fillOf p amount.toNat).cost ≤ p.userMaxBuy := by
      rw [cost_within_iff]
      exact forall_order_iff ok
    rw [horder]
    constructor
    · intro hwithin
      exact hwithin _ _ _ rfl (Finmap.lookup_insert _)
    · intro hcost q k v hq hv
      obtain rfl := Option.some_injective _ hq
      exact Ledger.forall_lookup_insert
        (P := fun _ v => v.userSolContributed ≤ p.userMaxBuy)
        (fun k' v' hv' => within p k' v' ok.presale hv') hcost k v hv
  | refund ok =>
    refine iff_of_true ?_ ?_
    · intro q k v hq hv
      obtain rfl := Option.some_injective _ hq
      have hpaid := within _ k v ok.presale hv
      exact hpaid
    · intro cx a amount p u hi
      exact absurd hi (by simp)
  | quiet same =>
    refine iff_of_true (c.withinMax_quiet effect same within) ?_
    intro cx a amount p u hi
    exact absurd hi (same.ne_buy cx a amount)

/-- In every state of a run all accounts are within the maximum exactly when the run has no
order that takes its wallet past it.
SRC: buy_token.rs:37-86 -/
theorem within_max_iff (e : Execution) :
    presale.Always e.genesis e.history WithinMax ↔ Machine.Steps BuysWithinMax e.history :=
  e.run.always_iff (fun p k u hp => by simp [e.fresh.presale] at hp)
    fun _ _ _ _ _ run within hstep => withinMax_step e.fresh run within hstep

/-- Only the amount of one call is compared with the maximum: with a maximum of 10 Alice pays
20. -/
theorem max_exceeded :
    ¬ ∀ (e : Execution) (p : PresaleAccount) (k : Pubkey) (u : UserAccount),
      e.final.presale = some p → e.final.users.lookup k = some u →
        u.userSolContributed ≤ p.userMaxBuy := by
  intro h
  have hmax : (Sample.play [Sample.launchWith { Sample.args with userMaxBuy := 10 }, Sample.list 1,
      Sample.buy 1 10, Sample.buy 1 10]).final.presale.map PresaleAccount.userMaxBuy =
        some 10 := by decide +kernel
  obtain ⟨p, hp, hten⟩ := Option.map_eq_some_iff.mp hmax
  have hpaid := h _ p (.userRole (.key 1)) ⟨true, 60, 20, 0, .key 1⟩ hp (by decide +kernel)
  rw [hten] at hpaid
  exact absurd hpaid (by decide)

/-! ## The soft cap -/

/-- After an order, and before `withdraw_token` has emptied the pool, the flag says whether the
tokens sold have reached the soft cap. -/
def FlagMeansSold (h : History) (s : State) : Prop :=
  ∀ p, s.presale = some p → bought h = true → tokensWithdrawn h = false →
    (p.isSoftcapped = 1 ↔ p.softCap ≤ p.totalPresaleToken - p.totalTokenRemained)

/-- A pool of `left` tokens lies outside the gap between the soft cap and the supply that the
soft cap leaves: it is below both marks, or at or above both. -/
def OutsideGap (p : PresaleAccount) (left : ℕ) : Prop :=
  left < min p.softCap (p.totalPresaleToken + 1 - p.softCap) ∨
    max p.softCap (p.totalPresaleToken + 1 - p.softCap) ≤ left

/-- If the step `r` is an order before any `withdraw_token`, the pool it leaves lies outside the
gap. -/
def BuysOutsideGap (h : History) (r : Step) : Prop :=
  ∀ cx a amount p, r.input = .instruction cx (.buyToken a amount) → r.before.presale = some p →
    tokensWithdrawn h = false →
      OutsideGap p (p.totalTokenRemained - p.presaleRate * amount.toNat)

/-- An order leaves of the pool what the rate times its amount does not reach. -/
theorem pool_afterBuy (p : PresaleAccount) (u : UserAccount) (n : ℕ) :
    (presaleAfterBuy p u n).totalTokenRemained =
      p.totalTokenRemained - p.presaleRate * n := by
  show p.totalTokenRemained - (fillOf p n).tokens = _
  unfold fillOf
  rcases Nat.lt_or_ge (p.presaleRate * n) p.totalTokenRemained with hlt | hrest
  · rw [fill_of_lt hlt]
  · rw [fill_of_le hrest, Nat.sub_self, Nat.sub_eq_zero_of_le hrest]

/-- After an order the flag means what its name says exactly when the pool lies outside the
gap. -/
theorem flag_means_sold_iff {p : PresaleAccount} (sound : FlagsSound p) (u : UserAccount) {n : ℕ}
    (hbound : p.totalTokenRemained ≤ p.totalPresaleToken) :
    ((presaleAfterBuy p u n).isSoftcapped = 1 ↔
        p.softCap ≤ p.totalPresaleToken - (presaleAfterBuy p u n).totalTokenRemained) ↔
      OutsideGap p (p.totalTokenRemained - p.presaleRate * n) := by
  have hflag := (sound.afterBuy u n).2.soft
  have hcap : (presaleAfterBuy p u n).softCap = p.softCap := rfl
  rw [hflag, hcap, pool_afterBuy]
  unfold OutsideGap
  omega

/-- Where the flag means what its name says, the next step keeps it so exactly when it leaves no
pool inside the gap. -/
theorem flagMeansSold_step {s₀ s s' : State} {h : History} {i : Input} {o : List LogEntry}
    (fresh : Fresh s₀) (run : presale.Run s₀ h s) (means : FlagMeansSold h s)
    (hstep : presale.step s i = .ok (s', o)) :
    FlagMeansSold (h ++ [⟨s, i, o⟩]) s' ↔ BuysOutsideGap h ⟨s, i, o⟩ := by
  have effect := effect_of_step hstep
  unfold FlagMeansSold
  rw [bought_snoc, tokensWithdrawn_snoc]
  cases hp : s.presale with
  | none =>
    refine iff_of_true ?_ ?_
    · intro p' hp' hbought
      obtain ⟨cx, a, args, rfl, -, -, -⟩ := launch_of_effect effect hp hp'
      rw [not_bought_of_none fresh run hp] at hbought
      exact absurd hbought Bool.false_ne_true
    · intro cx a amount p _ hp'
      exact absurd (hp'.symm.trans hp) (Option.some_ne_none _)
  | some p =>
    obtain ⟨p', hp', -⟩ := (coherent_of_run fresh run).record_step effect hp
    simp only [hp', Option.some.injEq, forall_eq']
    cases (coherent_of_run fresh run).pool_step effect hp hp' with
    | @buy cx a amount u =>
      have hbound : p.totalTokenRemained ≤ p.totalPresaleToken :=
        (Nat.le_add_left _ _).trans (book_reachable fresh run hp).balanced.bound
      have hiff := flag_means_sold_iff (flags_sound fresh run hp) u (n := amount.toNat) hbound
      have hsupply : (presaleAfterBuy p u amount.toNat).totalPresaleToken = p.totalPresaleToken :=
        rfl
      have hcap : (presaleAfterBuy p u amount.toNat).softCap = p.softCap := rfl
      rw [hsupply, hcap, hiff]
      simp only [buysAny, Bool.or_true, withdrawsTokens, Bool.or_false, true_imp_iff]
      constructor
      · intro hout cx' a' amount' q hi hq hopen
        obtain ⟨rfl, rfl, rfl⟩ : cx = cx' ∧ a = a' ∧ amount = amount' := by simpa using hi
        obtain rfl := Option.mem_unique hp hq
        exact hout hopen
      · intro hall hopen
        exact hall cx a amount p rfl hp hopen
    | withdraw =>
      refine iff_of_true ?_ ?_
      · intro _ hopen
        exact absurd hopen (by simp [withdrawsTokens])
      · intro cx a amount q hi
        exact absurd hi (by simp)
    | quiet noBuy pool hard soft cap supply =>
      refine iff_of_true ?_ ?_
      · intro hbought hopen
        rw [noBuy, Bool.or_false] at hbought
        rw [Bool.or_eq_false_iff] at hopen
        rw [soft, cap, supply, pool]
        exact means p hp hbought hopen.1
      · intro cx a amount q hi
        simp only at hi
        rw [hi] at noBuy
        exact absurd noBuy (by simp [buysAny])

/-- In every state of a run in which an order and no `withdraw_token` has succeeded, the soft cap
flag says that the soft cap was sold, exactly when no order of the run leaves a pool between the
soft cap and the supply that the soft cap leaves.
SRC: buy_token.rs:87-96, initialize.rs:79-84 -/
theorem softcap_flag_iff (e : Execution) :
    presale.Always e.genesis e.history FlagMeansSold ↔
      Machine.Steps BuysOutsideGap e.history :=
  e.run.always_iff (fun _ _ hbought => absurd hbought Bool.false_ne_true)
    fun _ _ _ _ _ run means hstep => flagMeansSold_step e.fresh run means hstep

/-- The flag is set from what is left: with a soft cap of 25 the sale of 30 tokens out of 100
leaves it unset. -/
theorem softcap_reached_unset :
    ¬ ∀ (e : Execution) (p : PresaleAccount), e.final.presale = some p →
      bought e.history = true → tokensWithdrawn e.history = false →
        (p.isSoftcapped = 1 ↔ p.softCap ≤ p.totalPresaleToken - p.totalTokenRemained) := by
  intro h
  have hstate : (Sample.play [Sample.launchWith { Sample.args with softcapPrecent := 2500 },
      Sample.list 1, Sample.buy 1 10]).final.presale.map (fun p => (p.isSoftcapped, p.softCap,
        p.totalPresaleToken, p.totalTokenRemained)) = some (0, 25, 100, 70) := by decide +kernel
  obtain ⟨p, hp, hfields⟩ := Option.map_eq_some_iff.mp hstate
  simp only [Prod.mk.injEq] at hfields
  obtain ⟨hflag, hcap, hsupply, hpool⟩ := hfields
  have hmeans := h _ p hp (by decide +kernel) (by decide +kernel)
  rw [hflag, hcap, hsupply, hpool] at hmeans
  exact absurd (hmeans.mpr (by decide)) (by decide)

end TokenPresale.Analysis
