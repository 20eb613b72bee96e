import TokenPresale.Analysis.TokenVault

/-!
# The cash book of the escrow and of the vault

No record says what the escrow and the vault hold, yet in every run both are accounted for to the
last unit: the escrow by the contributions of the user records, the deposit and the donations,
less what refunds, team payments and withdrawals took to other accounts; the vault by the
deposits and donations, less claims and withdrawals.
-/

set_option autoImplicit false

namespace TokenPresale.Analysis

open TokenPresale.Library TokenPresale.Model TokenPresale.Interface

/-! ## The escrow -/

section Step

variable {s s' : State} {i : Input} {log : List LogEntry}

/-- The calls that pay out of the escrow. -/
def escrowOutflow (r : Step) : ℕ :=
  receipt refundsAny (lamportsLeaving .escrowVault) r +
    receipt finalizes (lamportsLeaving .escrowVault) r +
      receipt withdraws (lamportsLeaving .escrowVault) r

/-- A step keeps the book of the escrow. -/
theorem Coherent.escrow_book_step (c : Coherent s) (h : Effect s i s' log) :
    s'.lamports .escrowVault + escrowOutflow ⟨s, i, log⟩ +
        s.users.total UserAccount.userSolContributed =
      s.lamports .escrowVault + receipt launches (lamportsInto .escrowVault) ⟨s, i, log⟩ +
        donation .escrowVault ⟨s, i, log⟩ + s'.users.total UserAccount.userSolContributed := by
  unfold escrowOutflow
  cases h with
  | @initializePresale cx a args p ok =>
    have hlamports : (afterInitialize cx a s p).lamports .escrowVault =
        s.lamports .escrowVault + (cx.rent.minimumBalance (8 + 8) - s.lamports .escrowVault) :=
      ok.lamports (q := (.escrowVault, _)) (by simp [initFunding])
    have hlog : sumOf (lamportsInto .escrowVault) (initializeLog cx a s) =
        cx.rent.minimumBalance (8 + 8) - s.lamports .escrowVault := by
      simp [initializeLog, initFunding, lamportsInto]
    simp only [receipt, launches, if_true, hlog, hlamports, refundsAny, finalizes, withdraws,
      Bool.false_eq_true, if_false, donation, Nat.add_zero]
    rfl
  | @buy cx a amount p u ok =>
    have htotal : (afterBuy a amount.toNat s p u).users.total UserAccount.userSolContributed +
        u.userSolContributed = s.users.total UserAccount.userSolContributed +
          (u.userSolContributed + (fillOf p amount.toNat).cost) :=
      Ledger.total_insert_of_lookup _ _ ok.user
    have hcredit : (afterBuy a amount.toNat s p u).lamports .escrowVault =
        s.lamports .escrowVault + (fillOf p amount.toNat).cost :=
      move_dst _ ok.authority_ne_escrow
    simp only [receipt, launches, refundsAny, finalizes, withdraws, Bool.false_eq_true, if_false,
      donation, Nat.add_zero]
    omega
  | refundNothing => rfl
  | @refund cx a p u ok =>
    have hleft := move_src_add_leaving a.userToRefund ok.funded
    simp only [receipt, launches, refundsAny, finalizes, withdraws, Bool.false_eq_true, if_false,
      if_true, donation, Nat.add_zero]
    exact congrArg (· + _) hleft
  | @finalizePays cx a f p ok =>
    have hleft := move_src_add_leaving a.teamAccount ok.funded
    simp only [receipt, launches, refundsAny, finalizes, withdraws, Bool.false_eq_true, if_false,
      if_true, donation, Nat.add_zero, Nat.zero_add]
    exact congrArg (· + _) hleft
  | @withdraw cx a p ok =>
    have hleft := move_src_add_leaving a.admin (le_refl (s.lamports .escrowVault))
    simp only [receipt, launches, refundsAny, finalizes, withdraws, Bool.false_eq_true, if_false,
      if_true, donation, Nat.add_zero, Nat.zero_add]
    exact congrArg (· + _) hleft
  | @add cx a p ok =>
    have hne : Pubkey.escrowVault ≠ a.admin := (ne_of_signed ok.signed rfl).symm
    have hmove : move s.lamports a.admin (.userRole a.authority) (whitelistFunding cx a s)
        .escrowVault = s.lamports .escrowVault := move_other _ _ hne (by simp)
    have hkept : (afterAdd cx a s p).lamports .escrowVault = s.lamports .escrowVault := hmove
    have htotal : (afterAdd cx a s p).users.total UserAccount.userSolContributed =
        s.users.total UserAccount.userSolContributed :=
      Ledger.total_insert_new _ _ (c.not_listed ok)
    rw [hkept, htotal]
    rfl
  | @claim cx a p u v t ok =>
    have htotal : (afterClaim a s u).users.total UserAccount.userSolContributed =
        s.users.total UserAccount.userSolContributed :=
      Ledger.total_insert_same _ _ ok.user rfl
    rw [htotal]
    rfl
  | @remove cx a p u ok =>
    have htotal : (afterRemove a s p u).users.total UserAccount.userSolContributed =
        s.users.total UserAccount.userSolContributed :=
      Ledger.total_insert_same _ _ ok.user rfl
    rw [htotal]
    rfl
  | @outside o s' ok =>
    rw [(runOutside_frame ok).users]
    cases outsideEffect_of_ok ok with
    | @payIn k n =>
      simp only [receipt, launches, refundsAny, finalizes, withdraws, Bool.false_eq_true, if_false,
        donation, Nat.add_zero]
      rcases eq_or_ne k .escrowVault with rfl | hne
      · rw [Function.update_self, if_pos rfl]
      · rw [Function.update_of_ne hne.symm, if_neg hne, Nat.add_zero]
    | @payOut k n hpda =>
      have hne : Pubkey.escrowVault ≠ k := by
        rintro rfl
        exact hpda rfl
      simp only [Function.update_of_ne hne]
      rfl
    | _ => rfl
  | _ => rfl

end Step

/-- The cash book of the escrow, in every state of every run: what it holds and what refunds, team
payments and withdrawals took out of it for other accounts are together what it held before the
launch, what `initialize` put into it, the contributions of all user records, and the donations.
SRC: initialize.rs:32-41, buy_token.rs:61-83, refund_token.rs:29-48, finalize.rs:45-57,
withdraw.rs:27-38 -/
theorem escrow_cash_book (e : Execution) :
    e.final.lamports .escrowVault + leftEscrow refundsAny e.history +
        leftEscrow finalizes e.history + leftEscrow withdraws e.history =
      e.genesis.lamports .escrowVault + escrowDeposit e.history +
        e.final.users.total UserAccount.userSolContributed +
          tally (donation .escrowVault) e.history := by
  have book : presale.Run e.genesis e.history e.final ∧
      e.final.lamports .escrowVault + tally escrowOutflow e.history =
        e.genesis.lamports .escrowVault + escrowDeposit e.history +
          e.final.users.total UserAccount.userSolContributed +
            tally (donation .escrowVault) e.history := by
    refine e.run.invariant (fun h s => presale.Run e.genesis h s ∧
      s.lamports .escrowVault + tally escrowOutflow h =
        e.genesis.lamports .escrowVault + escrowDeposit h +
          s.users.total UserAccount.userSolContributed + tally (donation .escrowVault) h) ?_ ?_
    · exact ⟨.start, by simp [e.fresh.users, escrowDeposit]⟩
    · rintro h s i s' o hrun ⟨-, ih⟩ hstep
      refine ⟨hrun.next hstep, ?_⟩
      have balance := (coherent_of_run e.fresh hrun).escrow_book_step (effect_of_step hstep)
      simp only [escrowDeposit, tally_append, tally_cons, tally_nil, Nat.add_zero] at ih ⊢
      omega
  have hsplit : ∀ h : History, tally escrowOutflow h =
      leftEscrow refundsAny h + leftEscrow finalizes h + leftEscrow withdraws h := by
    intro h
    unfold leftEscrow
    induction h with
    | nil => rfl
    | cons r h ih =>
      simp only [tally_cons, escrowOutflow, ih]
      omega
  have hbook := book.2
  rw [hsplit] at hbook
  omega

/-! ## The vault -/

/-- The book of the vault of a mint, in every state of every run in which the holder of the vault
moves its tokens through the program only: what the vault holds and what claims and withdrawals
took out of it for other accounts are together what was deposited into it and what was donated to
it.
SRC: deposit_token.rs:39-59, claim_token.rs:43-83, withdraw_token.rs:38-60 -/
theorem vault_token_book (e : Execution) (m : Pubkey) :
    vaultAmount e.final m + leftVault claimsAny m e.history +
        leftVault withdrawsTokens m e.history =
      depositedInto m e.history + tally (tokenDonation m) e.history :=
  vault_book e.fresh e.run m

end TokenPresale.Analysis
