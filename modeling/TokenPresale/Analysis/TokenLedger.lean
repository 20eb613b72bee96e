import TokenPresale.Analysis.SaleBook

/-!
# The tokens of the sale, and their price

What the book of the sale says about the records of the program: no token is allocated twice,
so the counters of `buy_token` cannot run over, and the division in its sold-out branch rounds
the price for at most one account of the whole presale.
-/

set_option autoImplicit false

namespace TokenPresale.Analysis

open TokenPresale.Library TokenPresale.Model TokenPresale.Interface TokenPresale.Abstract

/-! ## No token is allocated twice -/

/-- What an account holds and what an order adds to it stay within the supply. -/
theorem allocation_le_supply {s₀ s : State} {h : History} (fresh : Fresh s₀)
    (run : presale.Run s₀ h s) {p : PresaleAccount} (hp : s.presale = some p) {k : Pubkey}
    {u : UserAccount} (hu : s.users.lookup k = some u) (n : ℕ) :
    u.userBuyAmount + (fillOf p n).tokens ≤ p.totalPresaleToken := by
  have hbound := (book_reachable fresh run hp).balanced.bound
  have hu : u.userBuyAmount ≤ (bookOf h s p).sold :=
    Ledger.le_total UserAccount.userBuyAmount hu
  have hfill : (fillOf p n).tokens ≤ p.totalTokenRemained := fill_tokens_le
  calc u.userBuyAmount + (fillOf p n).tokens
      ≤ (bookOf h s p).sold + p.totalTokenRemained := Nat.add_le_add hu hfill
    _ ≤ p.totalPresaleToken := hbound

/-- The presale is never oversold: what the accounts hold and what is left make up the supply
until `withdraw_token` has succeeded, and stay within it afterwards; so the subtraction from
`total_token_remained` and the addition to `user_buy_amount` never fail.
SRC: buy_token.rs:47-96 -/
theorem never_oversold (e : Execution) :
    (∀ p, e.final.presale = some p →
      (tokensWithdrawn e.history = false →
        e.final.users.total UserAccount.userBuyAmount + p.totalTokenRemained =
          p.totalPresaleToken) ∧
      (tokensWithdrawn e.history = true →
        e.final.users.total UserAccount.userBuyAmount + p.totalTokenRemained ≤
          p.totalPresaleToken)) ∧
    ∀ cx a amount,
      buyTokenHandler cx a amount e.final ≠ .error (.panic .totalTokenRemained) ∧
        buyTokenHandler cx a amount e.final ≠ .error (.panic .userBuyAmount) := by
  refine ⟨fun p hp => ?_, fun cx a amount => ⟨fun h => ?_, fun h => ?_⟩⟩
  · have balanced := (book_reachable e.fresh e.run hp).balanced
    exact ⟨balanced.exact, fun _ => balanced.bound⟩
  · exact (buyTokenHandler_panic h).1 rfl
  · obtain ⟨p, u, hp, hu, hover⟩ := (buyTokenHandler_panic h).2 rfl
    have hle := allocation_le_supply e.fresh e.run hp hu amount.toNat
    have hlt := supply_lt e.fresh e.run hp
    omega

/-! ## The price -/

/-- In a run opened with a rate of at least one, every account holds what it paid for, rounded
up by less than one lamport's worth; at most one account is not exact, by the rest of the
supply that no lamport buys; and a sale out of its pool has raised what the supply costs.
SRC: buy_token.rs:49-59 -/
theorem price_ledger (e : Execution) (args : InitializeArgs)
    (launched : LaunchedWith args e.history) (hrate : 1 ≤ args.presaleRate.toNat)
    (p : PresaleAccount) (hp : e.final.presale = some p) :
    (∀ k u, e.final.users.lookup k = some u →
      p.presaleRate * u.userSolContributed ≤ u.userBuyAmount ∧
        u.userBuyAmount < p.presaleRate * (u.userSolContributed + 1)) ∧
    (∀ k k' u u', e.final.users.lookup k = some u → e.final.users.lookup k' = some u' →
      u.userBuyAmount ≠ p.presaleRate * u.userSolContributed →
        u'.userBuyAmount ≠ p.presaleRate * u'.userSolContributed → k = k') ∧
    (∀ k u, e.final.users.lookup k = some u →
      u.userBuyAmount ≠ p.presaleRate * u.userSolContributed →
        u.userBuyAmount =
          p.presaleRate * u.userSolContributed + p.totalPresaleToken % p.presaleRate) ∧
    (p.isHardcapped = 1 → tokensWithdrawn e.history = false →
      e.final.users.total UserAccount.userSolContributed =
        p.totalPresaleToken / p.presaleRate) := by
  obtain ⟨q, hq, hterms⟩ := terms_of_launch e.fresh e.run launched
  obtain rfl := Option.mem_unique hq hp
  have hpos : 0 < q.presaleRate := by
    have : q.presaleRate = args.presaleRate.toNat := congrArg Terms.presaleRate hterms
    omega
  have priced := (book_reachable e.fresh e.run hp).priced hpos
  -- an account's fields are what the book says of its address
  have tokens : ∀ {k u}, e.final.users.lookup k = some u →
      (bookOf e.history e.final q).tokens k = u.userBuyAmount := Ledger.reading_of_lookup
  have paid : ∀ {k u}, e.final.users.lookup k = some u →
      (bookOf e.history e.final q).paid k = u.userSolContributed := Ledger.reading_of_lookup
  refine ⟨?_, ?_, ?_, ?_⟩
  · intro k u hu
    have bounds := priced.bounds hpos k
    rwa [tokens hu, paid hu] at bounds
  · intro k k' u u' hu hu' hk hk'
    rw [← tokens hu, ← paid hu] at hk
    rw [← tokens hu', ← paid hu'] at hk'
    exact priced.rounded_unique hk hk'
  · intro k u hu hk
    rw [← tokens hu, ← paid hu] at hk ⊢
    exact priced.excess hk
  · intro hcap hopen
    exact priced.raised (by simp [bookOf, hcap]) hopen

/-- In the small sale Bob's order takes the rest of the pool: 70 tokens for 23 lamports, one
more than the exact price. -/
theorem price_ledger_small_sale :
    ∃ p, (Sample.play Sample.opening).final.presale = some p ∧
      (Sample.play Sample.opening).final.users.total UserAccount.userSolContributed = 33 := by
  have launched : LaunchedWith Sample.args (Sample.play Sample.opening).history := by
    decide +kernel
  have hrate : 1 ≤ Sample.args.presaleRate.toNat := by decide
  obtain ⟨p, hp, hterms⟩ := terms_of_launch (Sample.play Sample.opening).fresh
    (Sample.play Sample.opening).run launched
  have hcap : ((Sample.play Sample.opening).final.presale.map
      PresaleAccount.isHardcapped) = some 1 := by decide +kernel
  have hopen : tokensWithdrawn (Sample.play Sample.opening).history = false := by decide +kernel
  refine ⟨p, hp, ?_⟩
  rw [hp] at hcap
  have htotal := (price_ledger _ _ launched hrate p hp).2.2.2 (by simpa using hcap) hopen
  rw [htotal]
  have hsupply : p.totalPresaleToken = 100 := congrArg Terms.totalPresaleToken hterms
  have hprice : p.presaleRate = 3 := congrArg Terms.presaleRate hterms
  rw [hsupply, hprice]

end TokenPresale.Analysis
