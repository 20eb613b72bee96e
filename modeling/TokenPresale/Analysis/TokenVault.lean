import TokenPresale.Analysis.SolLedger

/-!
# The token vault

The vault is filled by `deposit_token` and drained by `claim_token` and `withdraw_token`, in
any order, and no instruction compares it with the counter of the sale. The account of it is
kept by the history: the vault holds what was deposited and donated less what was claimed and
withdrawn (`vault_book`), and what was claimed is covered by the allocations of the accounts that
claimed it (`claimed_le_paidOut`). With the law that the sale is not oversold this settles
which claims the vault can pay.

The key that holds a vault is the admin's own. Here it moves the vault's tokens through the program
only: the moves outside the program (`Outside`) have none of its transfers.
-/

set_option autoImplicit false

namespace TokenPresale.Analysis

open TokenPresale.Library TokenPresale.Model TokenPresale.Interface Finset

/-! ## What a step does to a vault -/

section Step

variable {s s' : State} {i : Input} {log : List LogEntry}

/-- A transfer between two accounts changes the vault of `m` by what enters it from another account
and what leaves it for another one. -/
theorem vault_transfer {t : Pubkey → Option TokenAccount} {src dst m : Pubkey} {n : ℕ}
    {a b : TokenAccount} (ha : t src = some a) (hb : t dst = some b) (hle : n ≤ a.amount) :
    tokenAmount (moveTokens t src dst n) (.tokenVault m) +
        sumOf (tokensLeaving m) [.tokens src dst n] =
      tokenAmount t (.tokenVault m) + sumOf (tokensInto m) [.tokens src dst n] := by
  have hamount := tokenAmount_of_some ha
  rw [tokenAmount_moveTokens ha hb]
  simp only [sumOf_cons, sumOf_nil, tokensInto, tokensLeaving, Nat.add_zero]
  rcases eq_or_ne src dst with rfl | hne
  · simp [move_self (hamount ▸ hle)]
  · rcases eq_or_ne dst (.tokenVault m) with rfl | hd
    · simp [move_dst n hne, hne]
    · rcases eq_or_ne src (.tokenVault m) with rfl | hs
      · rw [move_src n hne]
        simp only [hd, hne, ne_eq, not_false_eq_true, and_self, if_true, false_and, if_false]
        omega
      · simp [move_other _ n hs.symm hd.symm, hs, hd]

/-- A vault that a deposit takes tokens from is the vault it puts them into, since both hold the
same mint. -/
theorem Coherent.deposit_source (c : Coherent s) {cx : Context} {a : DepositToken}
    {mint : Pubkey} {n : ℕ} {p : PresaleAccount} {f v : TokenAccount}
    (ok : DepositAccepted cx a mint n s p f v) {m : Pubkey} (hm : a.tokenFrom = .tokenVault m) :
    a.tokenFrom = .tokenVault a.tokenMint := by
  have hfrom := ok.tokenFrom
  rw [hm] at hfrom
  have hsame : m = a.tokenMint := by
    rw [← (c.vaults m f hfrom).mint, ok.sameMint, (c.vaults _ v ok.vault).mint]
  rw [hm, hsame]

/-- A deposit leaves no vault for another account. -/
theorem Coherent.deposit_leaves (c : Coherent s) {cx : Context} {a : DepositToken}
    {mint : Pubkey} {n : ℕ} {p : PresaleAccount} {f v : TokenAccount}
    (ok : DepositAccepted cx a mint n s p f v) (m : Pubkey) :
    sumOf (tokensLeaving m) [.tokens a.tokenFrom (.tokenVault a.tokenMint) n] = 0 := by
  simp only [sumOf_cons, sumOf_nil, tokensLeaving, Nat.add_zero]
  apply if_neg
  rintro ⟨hm, hne⟩
  exact hne (c.deposit_source ok hm)

/-- A payout out of a vault enters no other vault, since both hold the same mint. -/
theorem Coherent.payout_enters (c : Coherent s) {mint dst m : Pubkey} {n : ℕ}
    {v t : TokenAccount} (hv : s.tokens (.tokenVault mint) = some v) (ht : s.tokens dst = some t)
    (hmint : v.mint = t.mint) :
    sumOf (tokensInto m) [.tokens (.tokenVault mint) dst n] = 0 := by
  simp only [sumOf_cons, sumOf_nil, tokensInto, Nat.add_zero]
  apply if_neg
  rintro ⟨rfl, hne⟩
  apply hne
  rw [← (c.vaults mint v hv).mint, ← (c.vaults m t ht).mint, hmint]

/-- A step keeps the book of the vault of `m`. -/
theorem Coherent.vault_step (c : Coherent s) (h : Effect s i s' log) (m : Pubkey) :
    vaultAmount s' m + receipt claimsAny (tokensLeaving m) ⟨s, i, log⟩ +
        receipt withdrawsTokens (tokensLeaving m) ⟨s, i, log⟩ =
      vaultAmount s m + receipt deposits (tokensInto m) ⟨s, i, log⟩ +
        tokenDonation m ⟨s, i, log⟩ := by
  unfold vaultAmount
  cases h with
  | @initializePresale cx a args p ok =>
    simp only [receipt, claimsAny, withdrawsTokens, deposits, Bool.false_eq_true, if_false,
      tokenDonation, Nat.add_zero, afterInitialize]
    rcases eq_or_ne m a.tokenMint with rfl | hne
    · simp [tokenAmount, c.no_vault ok]
    · have hne' := Pubkey.tokenVault_injective.ne hne
      simp [tokenAmount, hne']
  | @deposit cx a mint amount p f v ok =>
    have htransfer := vault_transfer (m := m) ok.tokenFrom ok.vault ok.funded
    rw [c.deposit_leaves ok m, Nat.add_zero] at htransfer
    exact htransfer
  | @claim cx a p u v t ok =>
    have htransfer := vault_transfer (m := m) ok.vault ok.tokenTo ok.backed
    rw [c.payout_enters ok.vault ok.tokenTo ok.sameMint, Nat.add_zero] at htransfer
    exact htransfer
  | @withdrawToken cx a p v t ok =>
    have htransfer := vault_transfer (m := m) ok.vault ok.tokenTo le_rfl
    rw [c.payout_enters ok.vault ok.tokenTo ok.sameMint, Nat.add_zero] at htransfer
    exact htransfer
  | @outside o s' ok =>
    simp only [receipt, claimsAny, withdrawsTokens, deposits, Bool.false_eq_true, if_false,
      Nat.add_zero]
    cases outsideEffect_of_ok ok with
    | payIn | payOut | createMint => rfl
    | openToken hpda =>
      simp only [tokenDonation, tokenAmount, Function.update_of_ne (tokenVault_ne hpda m),
        Nat.add_zero]
    | tokensOut hpda =>
      simp only [tokenDonation, tokenAmount, setTokens,
        Function.update_of_ne (tokenVault_ne hpda m), Nat.add_zero]
    | @tokensIn k n =>
      rcases eq_or_ne k (.tokenVault m) with rfl | hne
      · cases hv : s.tokens (.tokenVault m) <;> simp [tokenAmount, setTokens, tokenDonation, hv]
      · simp [tokenAmount, setTokens, tokenDonation, hne, hne.symm]
  | _ => rfl

/-- A vault was there before the step, with the same holder, or `initialize` has opened it for
the admin. -/
theorem vault_opened (h : Effect s i s' log) {m : Pubkey} {v' : TokenAccount}
    (hv : s'.tokens (.tokenVault m) = some v') :
    (∃ v, s.tokens (.tokenVault m) = some v ∧ v.owner = v'.owner) ∨
      ∃ cx a args p, i = .instruction cx (.initializePresale a args) ∧
        InitializeAccepted cx a args s p ∧ a.tokenMint = m ∧ v'.owner = a.admin := by
  have kept : ∀ {src dst : Pubkey} {n : ℕ},
      moveTokens s.tokens src dst n (.tokenVault m) = some v' →
        ∃ v, s.tokens (.tokenVault m) = some v ∧ v.owner = v'.owner := by
    intro src dst n hmoved
    obtain ⟨v, hv, -, howner⟩ := exists_of_moveTokens hmoved
    exact ⟨v, hv, howner⟩
  cases h with
  | @initializePresale cx a args p ok =>
    rcases eq_or_ne m a.tokenMint with rfl | hne
    · simp only [afterInitialize, Function.update_self, Option.some.injEq] at hv
      exact .inr ⟨cx, a, args, p, rfl, ok, rfl, by rw [← hv]⟩
    · have hne' := Pubkey.tokenVault_injective.ne hne
      simp only [afterInitialize, Function.update_of_ne hne'] at hv
      exact .inl ⟨v', hv, rfl⟩
  | claim ok | deposit ok | withdrawToken ok => exact .inl (kept hv)
  | outside ok =>
    obtain ⟨v, hv', -, howner, -⟩ := (runOutside_frame ok).holder m v' hv
    exact .inl ⟨v, hv', howner⟩
  | _ => exact .inl ⟨v', hv, rfl⟩

/-- No mint is ever closed. -/
theorem mint_kept (h : Effect s i s' log) {m : Pubkey} (hm : s.mints m = true) :
    s'.mints m = true := by
  cases h with
  | outside ok => exact runOutside_mints ok hm
  | _ => exact hm

end Step

/-- The mint of a vault exists. -/
theorem vault_mint {s₀ s : State} {h : History} (fresh : Fresh s₀) (run : presale.Run s₀ h s)
    {m : Pubkey} {v : TokenAccount} (hv : s.tokens (.tokenVault m) = some v) :
    s.mints m = true := by
  refine run.invariant (fun _ s => ∀ v, s.tokens (.tokenVault m) = some v → s.mints m = true)
    ?_ ?_ v hv
  · intro v hv
    exact absurd (hv.symm.trans (fresh.tokens _ rfl)) (Option.some_ne_none _)
  · intro h s i s' o hrun ih hstep v' hv'
    have effect := effect_of_step hstep
    rcases vault_opened effect hv' with ⟨v, hv, -⟩ | ⟨cx, a, args, p, -, ok, rfl, -⟩
    · exact mint_kept effect (ih v hv)
    · exact mint_kept effect ok.mint

/-- The book of the vault of a mint: what it holds and what claims and withdrawals took out of it
for other accounts are together what was deposited into it and what was donated to it. -/
theorem vault_book {s₀ s : State} {h : History} (fresh : Fresh s₀) (run : presale.Run s₀ h s)
    (m : Pubkey) :
    vaultAmount s m + leftVault claimsAny m h + leftVault withdrawsTokens m h =
      depositedInto m h + tally (tokenDonation m) h := by
  refine run.invariant (fun h s =>
    vaultAmount s m + leftVault claimsAny m h + leftVault withdrawsTokens m h =
      depositedInto m h + tally (tokenDonation m) h) ?_ ?_
  · simp [vaultAmount, tokenAmount, fresh.tokens (.tokenVault m) rfl, leftVault, depositedInto]
  · intro h s i s' o hrun ih hstep
    have balance := (coherent_of_run fresh hrun).vault_step (effect_of_step hstep) m
    simp only [leftVault, depositedInto, tally_append, tally_cons, tally_nil, Nat.add_zero]
      at ih ⊢
    omega

/-! ## What the claims were for -/

/-- What the accounts would have received if every claim had paid what they hold now. -/
def paidOut (h : History) (s : State) : ℕ :=
  ∑ k ∈ s.users.keys, claimCalls k h * s.users.reading UserAccount.userBuyAmount k

/-- The allocations of the accounts that no claim has paid. -/
def unpaid (h : History) (s : State) : ℕ :=
  ∑ k ∈ s.users.keys with claimCalls k h = 0, s.users.reading UserAccount.userBuyAmount k

/-- A longer history claims an account once more exactly when its last step does. -/
theorem claimCalls_snoc (k : Pubkey) (h : History) (r : Step) :
    claimCalls k (h ++ [r]) = claimCalls k h + (claims k r.input).toNat := by
  simp [claimCalls]

/-- An account has been claimed at most as often as all accounts together. -/
theorem claimCalls_le (k : Pubkey) (h : History) :
    claimCalls k h ≤ tally (fun r => (claimsAny r.input).toNat) h := by
  apply List.sum_le_sum
  rintro ⟨s, i, o⟩ -
  cases hk : claims k i with
  | false => simp
  | true => rw [claimsAny_of_claims hk]

/-- A claim takes from the vault what the account it is on holds; other steps claim nothing. -/
theorem claim_receipt_le {s s' : State} {i : Input} {log : List LogEntry}
    (h : Effect s i s' log) (m : Pubkey) :
    receipt claimsAny (tokensLeaving m) ⟨s, i, log⟩ ≤ ∑ k ∈ s.users.keys,
      (claims k i).toNat * s.users.reading UserAccount.userBuyAmount k := by
  cases h with
  | @claim cx a p u v t ok =>
    have hmoved : receipt claimsAny (tokensLeaving m)
        ⟨s, .instruction cx (.claimToken a), claimLog cx a u⟩ ≤ u.userBuyAmount := by
      simp only [receipt, claimsAny, if_true, claimLog, sumOf_cons, sumOf_nil, tokensLeaving]
      split_ifs <;> omega
    have hterm : u.userBuyAmount =
        (claims (.userRole a.userTo) (.instruction cx (.claimToken a))).toNat *
          s.users.reading UserAccount.userBuyAmount (.userRole a.userTo) := by
      rw [Ledger.reading_of_lookup ok.user]
      simp [claims, ok.userAccount]
    refine hmoved.trans (hterm.le.trans ?_)
    exact single_le_sum (f := fun k => (claims k (.instruction cx (.claimToken a))).toNat *
      s.users.reading UserAccount.userBuyAmount k) (fun _ _ => Nat.zero_le _)
        (Ledger.mem_keys_of_lookup ok.user)
  | _ => exact Nat.zero_le _

/-- A step raises what was paid out by at least what its claim takes from the vault. -/
theorem Coherent.paidOut_step {s s' : State} {i : Input} {log : List LogEntry}
    (c : Coherent s) (h : Effect s i s' log) (hist : History) (m : Pubkey) :
    paidOut hist s + receipt claimsAny (tokensLeaving m) ⟨s, i, log⟩ ≤
      paidOut (hist ++ [⟨s, i, log⟩]) s' := by
  obtain ⟨hkeys, hgrow⟩ := c.allocations_step h
  calc paidOut hist s + receipt claimsAny (tokensLeaving m) ⟨s, i, log⟩
      ≤ paidOut hist s + ∑ k ∈ s.users.keys,
          (claims k i).toNat * s.users.reading UserAccount.userBuyAmount k :=
        Nat.add_le_add_left (claim_receipt_le h m) _
    _ = ∑ k ∈ s.users.keys, claimCalls k (hist ++ [⟨s, i, log⟩]) *
          s.users.reading UserAccount.userBuyAmount k := by
        rw [paidOut, ← sum_add_distrib]
        apply sum_congr rfl
        intro k _
        rw [claimCalls_snoc, Nat.add_mul]
    _ ≤ ∑ k ∈ s.users.keys, claimCalls k (hist ++ [⟨s, i, log⟩]) *
          s'.users.reading UserAccount.userBuyAmount k :=
        sum_le_sum fun k _ => Nat.mul_le_mul_left _ (hgrow k)
    _ ≤ paidOut (hist ++ [⟨s, i, log⟩]) s' := by
        unfold paidOut
        exact sum_le_sum_of_subset hkeys

/-- What the claims of a run took from a vault is covered by what the accounts that claimed hold
now, counting each as often as it claimed. -/
theorem claimed_le_paidOut {s₀ s : State} {h : History} (fresh : Fresh s₀)
    (run : presale.Run s₀ h s) (m : Pubkey) : leftVault claimsAny m h ≤ paidOut h s := by
  refine run.invariant (fun h s => leftVault claimsAny m h ≤ paidOut h s) ?_ ?_
  · exact Nat.zero_le _
  · intro h s i s' o hrun ih hstep
    have hpaid := (coherent_of_run fresh hrun).paidOut_step (effect_of_step hstep) h m
    simp only [leftVault, tally_append, tally_cons, tally_nil, Nat.add_zero] at ih ⊢
    omega

/-- Where no account has claimed twice, an allocation is paid out or unpaid. -/
theorem paidOut_add_unpaid {h : History} {s : State} (once : ∀ k, claimCalls k h ≤ 1) :
    paidOut h s + unpaid h s = s.users.total UserAccount.userBuyAmount := by
  rw [paidOut, unpaid, sum_filter, ← sum_add_distrib, Ledger.total]
  apply sum_congr rfl
  intro k _
  have := once k
  rcases Nat.eq_zero_or_pos (claimCalls k h) with hzero | hpos
  · rw [hzero, if_pos rfl, Nat.zero_mul, Nat.zero_add]
  · have hone : claimCalls k h = 1 := by omega
    rw [hone, if_neg one_ne_zero, Nat.one_mul, Nat.add_zero]

/-! ## What the vault covers -/

/-- Sold tokens are backed as far as the admin has backed them: in every state of a run in which
no account has claimed twice, and what was deposited into the vault and donated to it, less what
`withdraw_token` has taken out for other accounts, is at least what the accounts hold, the vault
covers the accounts that no claim has paid. The holder of the vault is taken to move no tokens
outside the program.
SRC: buy_token.rs:47-96, deposit_token.rs:39-59, claim_token.rs:52-75, withdraw_token.rs:38-60 -/
theorem vault_backs_unpaid (e : Execution) (m : Pubkey)
    (once : ∀ k, claimCalls k e.history ≤ 1)
    (funded : e.final.users.total UserAccount.userBuyAmount +
        leftVault withdrawsTokens m e.history ≤
      depositedInto m e.history + tally (tokenDonation m) e.history) :
    unpaid e.history e.final ≤ vaultAmount e.final m := by
  have book := vault_book e.fresh e.run m
  have hclaimed := claimed_le_paidOut e.fresh e.run m
  have htotal := paidOut_add_unpaid (s := e.final) once
  omega

/-- After Alice's claim the small sale's vault covers Bob's 70 tokens. -/
theorem vault_backs_bob :
    unpaid (Sample.play (Sample.opening ++ [Sample.finalize 1003 1,
        Sample.claim 1 (.key 11)])).history (Sample.play (Sample.opening ++
          [Sample.finalize 1003 1, Sample.claim 1 (.key 11)])).final ≤
      vaultAmount (Sample.play (Sample.opening ++ [Sample.finalize 1003 1,
        Sample.claim 1 (.key 11)])).final Sample.mint := by
  apply vault_backs_unpaid
  · intro k
    exact (claimCalls_le k _).trans (by decide +kernel)
  · decide +kernel

/-- What the vault holds and what it still has to pay. -/
def backing (e : Execution) (m : Pubkey) : ℕ × ℕ :=
  (vaultAmount e.final m, unpaid e.history e.final)

/-- Nothing makes the admin fund the vault, and `withdraw_token` takes what is owed with the rest:
Alice's 30 tokens are backed by an empty vault in a sale without a deposit, and after the
withdrawal of a full one. Where her order is claimed twice, 40 tokens are left for Bob's 70. -/
theorem sold_tokens_unbacked :
    (¬ ∀ (e : Execution) (m : Pubkey) (v : TokenAccount),
      e.final.tokens (.tokenVault m) = some v → unpaid e.history e.final ≤ v.amount) ∧
    backing (Sample.play [Sample.launch, Sample.list 1, Sample.buy 1 10]) Sample.mint = (0, 30) ∧
    backing (Sample.play (Sample.halfSold ++ [Sample.finalize 1003 1, Sample.withdrawToken]))
      Sample.mint = (0, 30) ∧
    backing (Sample.play [Sample.launch, Sample.deposit 100, Sample.list 1, Sample.list 2,
      Sample.buy 1 10, Sample.buy 2 30, Sample.finalize 1003 1, Sample.claim 1 (.key 11),
        Sample.claim 1 (.key 11)]) Sample.mint = (40, 70) := by
  refine ⟨?_, by decide +kernel, by decide +kernel, by decide +kernel⟩
  intro h
  have hle := h (Sample.play [Sample.launch, Sample.list 1, Sample.buy 1 10]) Sample.mint
    ⟨Sample.mint, .key 0, 0⟩ (by decide +kernel)
  revert hle
  decide +kernel

/-! ## Claims on a funded vault -/

/-- A part of a history tallies to no more than the whole. -/
theorem tally_prefix_le {h₁ h : History} (hpre : h₁ <+: h) (f : Step → ℕ) :
    tally f h₁ ≤ tally f h := by
  obtain ⟨h₂, rfl⟩ := hpre
  rw [tally_append]
  exact Nat.le_add_right _ _

/-- As long as `withdraw_token` has not succeeded it has taken nothing. -/
theorem leftVault_eq_zero {h : History} (hnone : tokensWithdrawn h = false) (m : Pubkey) :
    leftVault withdrawsTokens m h = 0 := by
  unfold leftVault tally
  rw [List.sum_eq_zero_iff]
  intro n hn
  obtain ⟨r, hr, rfl⟩ := List.mem_map.mp hn
  have hno : withdrawsTokens r.input = false := by
    cases hw : withdrawsTokens r.input with
    | false => rfl
    | true =>
      have hany : tokensWithdrawn h = true := List.any_eq_true.mpr ⟨r, hr, hw⟩
      exact absurd (hany.symm.trans hnone) (by decide)
  rw [receipt, hno, if_neg Bool.false_ne_true]

/-- The allocation of an account that has not been claimed is among the unpaid ones. -/
theorem allocation_le_unpaid {h : History} {s : State} {k : Pubkey} {u : UserAccount}
    (hu : s.users.lookup k = some u) (hnone : claimCalls k h = 0) :
    u.userBuyAmount ≤ unpaid h s := by
  rw [← Ledger.reading_of_lookup (f := UserAccount.userBuyAmount) hu]
  exact single_le_sum (f := fun k => s.users.reading UserAccount.userBuyAmount k)
    (fun _ _ => Nat.zero_le _) (mem_filter.mpr ⟨Ledger.mem_keys_of_lookup hu, hnone⟩)

/-- A vault that was funded with the whole supply before the first claim, and from which nothing
was withdrawn and nothing claimed twice, covers the accounts that no claim has paid. -/
theorem funded_vault_covers {s₀ s : State} {h : History} (fresh : Fresh s₀)
    (run : presale.Run s₀ h s) {p : PresaleAccount} (hp : s.presale = some p) (m : Pubkey)
    (funded : p.totalPresaleToken ≤ depositedInto m (beforeClaims h))
    (kept : tokensWithdrawn h = false) (once : ∀ k, claimCalls k h ≤ 1) :
    unpaid h s ≤ vaultAmount s m := by
  have hsold : s.users.total UserAccount.userBuyAmount ≤ p.totalPresaleToken :=
    (Nat.le_add_right _ _).trans (book_reachable fresh run hp).balanced.bound
  have hbefore : depositedInto m (beforeClaims h) ≤ depositedInto m h :=
    tally_prefix_le (List.takeWhile_prefix _) _
  have hnone := leftVault_eq_zero kept m
  have book := vault_book fresh run m
  have hclaimed := claimed_le_paidOut fresh run m
  have htotal := paidOut_add_unpaid (s := s) once
  omega

/-- A call of `claim_token` for the wallet `w` out of the vault of the mint `m`: it names the
accounts of the presale and a token account of that mint, and the holder of the vault signs. -/
structure ClaimCall (cx : Context) (a : ClaimToken) (s : State) (m w : Pubkey)
    (v t : TokenAccount) : Prop where
  tokenMint : a.tokenMint = m
  tokenVault : a.tokenVault = .tokenVault m
  vault : s.tokens (.tokenVault m) = some v
  tokenTo : s.tokens a.tokenTo = some t
  sameMint : t.mint = m
  presaleAccount : a.presaleAccount = .presaleInfo
  userAccount : a.userAccount = .userRole w
  userTo : a.userTo = w
  signed : cx.signed a.authority
  holder : v.owner = a.authority

/-- Claims complete in any order: in a run whose deposits before the first claim cover the
supply, without a withdrawal of tokens and without a second claim on any account, every claim on
a finalized presale for a listed account that holds something and was not claimed before
succeeds, and moves what the account holds from the vault to the token account named.
SRC: claim_token.rs:43-83, buy_token.rs:47-96, deposit_token.rs:39-59 -/
theorem funded_claim_succeeds (e : Execution) (p : PresaleAccount)
    (hp : e.final.presale = some p) (hfin : p.isFinalized = 1) (m : Pubkey)
    (funded : p.totalPresaleToken ≤ depositedInto m (beforeClaims e.history))
    (kept : tokensWithdrawn e.history = false) (once : ∀ k, claimCalls k e.history ≤ 1)
    (w : Pubkey) (u : UserAccount) (hu : e.final.users.lookup (.userRole w) = some u)
    (hnone : claimCalls (.userRole w) e.history = 0) (hlisted : u.isWhitelisted = true)
    (hpos : 0 < u.userBuyAmount) (cx : Context) (a : ClaimToken) (v t : TokenAccount)
    (call : ClaimCall cx a e.final m w v t) :
    claimTokenHandler cx a e.final = .ok (afterClaim a e.final u, claimLog cx a u) ∧
      u.userBuyAmount ≤ v.amount ∧
      (a.tokenTo ≠ a.tokenVault →
        (afterClaim a e.final u).tokens a.tokenVault =
            some { v with amount := v.amount - u.userBuyAmount } ∧
          (afterClaim a e.final u).tokens a.tokenTo =
            some { t with amount := t.amount + u.userBuyAmount }) := by
  obtain ⟨rfl, hvault, hv, ht, hmint, hinfo, huser, rfl, hsigned, hholder⟩ := call
  have hcovers := funded_vault_covers e.fresh e.run hp a.tokenMint funded kept once
  have hbacked : u.userBuyAmount ≤ v.amount := by
    have howed := allocation_le_unpaid hu hnone
    have hamount := tokenAmount_of_some hv
    unfold vaultAmount at hcovers
    omega
  have accepted : ClaimAccepted cx a e.final p u v t := by
    refine ⟨vault_mint e.fresh e.run hv, ht, hvault, hv, hinfo, hp, huser, hu, hsigned, ?_, hpos,
      hlisted, hbacked, ?_, hholder⟩
    · rw [hfin]
      exact one_ne_zero
    · rw [((coherent_of_run e.fresh e.run).vaults _ v hv).mint, hmint]
  refine ⟨claimTokenHandler_eq_ok.mpr ⟨p, u, v, t, accepted, rfl⟩, hbacked, fun helse => ?_⟩
  rw [hvault] at helse ⊢
  exact ⟨moveTokens_src helse.symm hv, moveTokens_dst helse.symm ht⟩

/-- In the small sale Bob's claim succeeds after Alice's, and moves his 70 tokens. -/
theorem funded_claim_small_sale :
    ∃ s, claimTokenHandler (Sample.context 0 1005) (Sample.claimAccounts 2 (.key 12))
        (Sample.play (Sample.opening ++ [Sample.finalize 1003 1,
          Sample.claim 1 (.key 11)])).final = .ok s ∧
      s.1.tokens (.key 12) = some ⟨Sample.mint, .key 2, 70⟩ := by
  have hstate : (Sample.play (Sample.opening ++ [Sample.finalize 1003 1,
      Sample.claim 1 (.key 11)])).final.presale.map
        (fun p => (p.isFinalized, p.totalPresaleToken)) = some (1, 100) := by decide +kernel
  obtain ⟨p, hp, hfields⟩ := Option.map_eq_some_iff.mp hstate
  obtain ⟨hfin, hsupply⟩ := Prod.mk.inj hfields
  have hdeposits : 100 ≤ depositedInto Sample.mint (beforeClaims (Sample.play (Sample.opening ++
      [Sample.finalize 1003 1, Sample.claim 1 (.key 11)])).history) := by decide +kernel
  obtain ⟨hok, -, hmoved⟩ := funded_claim_succeeds _ p hp hfin Sample.mint
    (hsupply.trans_le hdeposits) (by decide +kernel)
    (fun k => (claimCalls_le k _).trans (by decide +kernel)) (.key 2) ⟨true, 70, 23, 0, .key 2⟩
    (by decide +kernel) (by decide +kernel) rfl (by decide) (Sample.context 0 1005)
    (Sample.claimAccounts 2 (.key 12)) ⟨Sample.mint, .key 0, 170⟩ ⟨Sample.mint, .key 2, 0⟩
    ⟨rfl, rfl, by decide +kernel, by decide +kernel, rfl, rfl, rfl, rfl, by decide, rfl⟩
  exact ⟨_, hok, (hmoved (by decide)).2⟩

end TokenPresale.Analysis
