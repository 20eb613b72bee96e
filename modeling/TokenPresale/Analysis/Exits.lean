import TokenPresale.Analysis.SolLedger

/-!
# Ways out of the sale

The conditions for leaving a settled sale are spread over the whitelist, the allocations and two
flags. This module says which contributors have a way out and, for the admin, when the SOL in
the escrow can be withdrawn: the escrow account must not have been empty at the end of a
transaction, since the runtime then hands its address back to the system program.
-/

set_option autoImplicit false

namespace TokenPresale.Analysis

open TokenPresale.Library TokenPresale.Model TokenPresale.Interface

/-! ## The exits of a contributor -/

/-- What `claim_token` checks of the records.
SRC: claim_token.rs:52-62 -/
def PassesClaim (p : PresaleAccount) (u : UserAccount) : Prop :=
  p.isFinalized = 1 ∧ u.isWhitelisted = true ∧ 0 < u.userBuyAmount

/-- What `refund_token` checks of the records.
SRC: refund_token.rs:29-34 -/
def PassesRefund (p : PresaleAccount) (u : UserAccount) : Prop :=
  p.isCancelled = 1 ∧ 0 < u.userSolContributed

/-- Whoever has paid holds tokens exactly if the tokens have a price. -/
theorem holds_iff_of_paid {s₀ s : State} {h : History} (fresh : Fresh s₀)
    (run : presale.Run s₀ h s) {p : PresaleAccount} (hp : s.presale = some p) {k : Pubkey}
    {u : UserAccount} (hu : s.users.lookup k = some u) (hpaid : 0 < u.userSolContributed) :
    0 < u.userBuyAmount ↔ 1 ≤ p.presaleRate := by
  have reached := book_reachable fresh run hp
  have htokens : (bookOf h s p).tokens k = u.userBuyAmount := Ledger.reading_of_lookup hu
  have hcoins : (bookOf h s p).paid k = u.userSolContributed := Ledger.reading_of_lookup hu
  rcases Nat.eq_zero_or_pos p.presaleRate with hzero | hrate
  · -- at rate zero an order takes lamports and allocates nothing
    rw [hzero] at reached ⊢
    have hnothing := reached.free k
    rw [htokens] at hnothing
    omega
  · refine iff_of_true ?_ hrate
    have bounds := ((reached.priced hrate).bounds hrate k).1
    rw [htokens, hcoins] at bounds
    exact (Nat.mul_pos hrate hpaid).trans_le bounds

/-- Who has an exit: in a settled sale, at whatever rate, an account that has contributed passes
the record checks of a payout path exactly when the presale is cancelled, or the account is still
on the whitelist of a sale whose tokens have a price.
SRC: claim_token.rs:52-62, refund_token.rs:29-34, remove_whitelist.rs:28-33, buy_token.rs:49-59 -/
theorem exit_iff (e : Execution) (p : PresaleAccount) (hp : e.final.presale = some p)
    (settled : p.isFinalized = 1 ∨ p.isCancelled = 1) (k : Pubkey) (u : UserAccount)
    (hu : e.final.users.lookup k = some u) (hpaid : 0 < u.userSolContributed) :
    PassesClaim p u ∨ PassesRefund p u ↔
      p.isCancelled = 1 ∨ u.isWhitelisted = true ∧ 1 ≤ p.presaleRate := by
  have hholds := holds_iff_of_paid e.fresh e.run hp hu hpaid
  constructor
  · rintro (⟨-, hlisted, hbought⟩ | ⟨hcan, -⟩)
    · exact .inr ⟨hlisted, hholds.mp hbought⟩
    · exact .inl hcan
  · rintro (hcan | ⟨hlisted, hrate⟩)
    · exact .inr ⟨hcan, hpaid⟩
    · rcases settled with hfin | hcan
      · exact .inl ⟨hfin, hlisted, hholds.mpr hrate⟩
      · exact .inr ⟨hcan, hpaid⟩

/-- Alice, who is on the whitelist, can claim in the finalized small sale. -/
theorem exit_of_alice :
    ∃ p, (Sample.play (Sample.halfSold ++ [Sample.finalize 1003 1])).final.presale = some p ∧
      (PassesClaim p ⟨true, 30, 10, 0, .key 1⟩ ∨ PassesRefund p ⟨true, 30, 10, 0, .key 1⟩) := by
  have hstate : (Sample.play (Sample.halfSold ++ [Sample.finalize 1003 1])).final.presale.map
      (fun p => (p.isFinalized, p.presaleRate)) = some (1, 3) := by decide +kernel
  obtain ⟨p, hp, hfields⟩ := Option.map_eq_some_iff.mp hstate
  obtain ⟨hfin, hrate⟩ := Prod.mk.inj hfields
  have hexit := exit_iff _ p hp (.inl hfin) (.userRole (.key 1)) ⟨true, 30, 10, 0, .key 1⟩
    (by decide +kernel) (by decide)
  exact ⟨p, hp, hexit.mpr (.inr ⟨rfl, by omega⟩)⟩

/-- Two ways to be left without an exit: Alice is taken off the whitelist after her order, or she
pays in a sale at rate zero and receives nothing. -/
theorem contributor_without_exit :
    (¬ ∀ (e : Execution) (p : PresaleAccount) (k : Pubkey) (u : UserAccount),
      e.final.presale = some p → p.isFinalized = 1 ∨ p.isCancelled = 1 →
        e.final.users.lookup k = some u → 0 < u.userSolContributed →
          claimsMoved k e.history = 0 → refundsPaid k e.history = 0 →
            PassesClaim p u ∨ PassesRefund p u) ∧
    ¬ ∀ (e : Execution) (p : PresaleAccount) (k : Pubkey) (u : UserAccount),
      e.final.presale = some p → p.isFinalized = 1 ∨ p.isCancelled = 1 →
        e.final.users.lookup k = some u → 0 < u.userSolContributed → u.isWhitelisted = true →
          claimsMoved k e.history = 0 → refundsPaid k e.history = 0 →
            PassesClaim p u ∨ PassesRefund p u := by
  constructor
  · intro h
    have hstate : (Sample.play (Sample.halfSold ++ [Sample.delist 1,
        Sample.finalize 1003 1])).final.presale.map (fun p => (p.isFinalized, p.isCancelled)) =
          some (1, 0) := by decide +kernel
    obtain ⟨p, hp, hfields⟩ := Option.map_eq_some_iff.mp hstate
    obtain ⟨hfin, hcan⟩ := Prod.mk.inj hfields
    rcases h _ p (.userRole (.key 1)) ⟨false, 30, 10, 0, .key 1⟩ hp (.inl hfin)
      (by decide +kernel) (by decide) (by decide +kernel) (by decide +kernel) with hclaim | hrefund
    · exact absurd hclaim.2.1 Bool.false_ne_true
    · exact absurd (hcan.symm.trans hrefund.1) zero_ne_one
  · intro h
    have hstate : (Sample.play [Sample.launchWith { Sample.args with presaleRate := 0 },
        Sample.list 1, Sample.buy 1 10, Sample.finalize 1003 1]).final.presale.map
          (fun p => (p.isFinalized, p.isCancelled)) = some (1, 0) := by decide +kernel
    obtain ⟨p, hp, hfields⟩ := Option.map_eq_some_iff.mp hstate
    obtain ⟨hfin, hcan⟩ := Prod.mk.inj hfields
    rcases h _ p (.userRole (.key 1)) ⟨true, 0, 10, 0, .key 1⟩ hp (.inl hfin)
      (by decide +kernel) (by decide) rfl (by decide +kernel) (by decide +kernel) with
      hclaim | hrefund
    · exact absurd hclaim.2.2 (lt_irrefl 0)
    · exact absurd (hcan.symm.trans hrefund.1) zero_ne_one

/-! ## The exit of the admin -/

/-- If the step `r` ends a transaction after the launch, the escrow is not empty. -/
def KeepsEscrow (_ : History) (r : Step) : Prop :=
  r.input = .endTransaction → r.before.presale ≠ none → 0 < r.before.lamports .escrowVault

/-- After the launch the program keeps the escrow account through every step but the end of a
transaction that leaves it empty, and never gets it back. -/
theorem Coherent.escrow_owner_step {s s' : State} {i : Input} {log : List LogEntry}
    (c : Coherent s) (h : Effect s i s' log) (hlaunched : s.presale ≠ none) :
    s'.owner .escrowVault = .tokenPresale ↔
      s.owner .escrowVault = .tokenPresale ∧
        (i = .endTransaction → 0 < s.lamports .escrowVault) := by
  have same : s'.owner .escrowVault = s.owner .escrowVault → i ≠ .endTransaction →
      (s'.owner .escrowVault = .tokenPresale ↔ s.owner .escrowVault = .tokenPresale ∧
        (i = .endTransaction → 0 < s.lamports .escrowVault)) := by
    intro heq hi
    rw [heq]
    exact ⟨fun howner => ⟨howner, fun hend => absurd hend hi⟩, And.left⟩
  cases h with
  | initializePresale ok => exact absurd (c.not_launched ok) hlaunched
  | add ok => exact same (by simp [afterAdd]) (by simp)
  | outside ok => exact same (by rw [(runOutside_frame ok).owner]) (by simp)
  | endTransaction =>
    simp only [sweep, true_imp_iff]
    split_ifs with hempty
    · simp [hempty]
    · simp [Nat.pos_of_ne_zero hempty]
  | _ => exact same rfl (by simp)

/-- Before the launch no step can have lost the escrow. -/
theorem keepsEscrow_of_none {s₀ s : State} {h : History} (fresh : Fresh s₀)
    (run : presale.Run s₀ h s) : s.presale = none → Machine.Steps KeepsEscrow h := by
  refine run.invariant (fun h s => s.presale = none → Machine.Steps KeepsEscrow h)
    (fun _ => Machine.steps_nil) ?_
  intro h s i s' o hrun ih hstep hnone
  have hbefore := (coherent_of_run fresh hrun).none_of_step (effect_of_step hstep) hnone
  rw [Machine.steps_snoc]
  exact ⟨ih hbefore, fun _ hlaunched => absurd hbefore hlaunched⟩

/-- After the launch the escrow account is the program's exactly as long as no transaction has
ended with it empty. -/
theorem escrow_owner_iff {s₀ s : State} {h : History} (fresh : Fresh s₀)
    (run : presale.Run s₀ h s) :
    (s.presale = none → Machine.Steps KeepsEscrow h) ∧
      (s.presale ≠ none →
        (s.owner .escrowVault = .tokenPresale ↔ Machine.Steps KeepsEscrow h)) := by
  refine ⟨keepsEscrow_of_none fresh run, ?_⟩
  intro hlaunched
  obtain ⟨p, hp⟩ := Option.ne_none_iff_exists'.mp hlaunched
  refine launched_invariant (fun h s _ =>
    s.owner .escrowVault = .tokenPresale ↔ Machine.Steps KeepsEscrow h) fresh ?_ ?_ run hp
  · intro h s cx a args p hrun hnone ok
    rw [Machine.steps_snoc]
    refine iff_of_true (by simp [afterInitialize]) ⟨keepsEscrow_of_none fresh hrun hnone, ?_⟩
    exact fun _ hlaunched => absurd hnone hlaunched
  · intro h s i s' o p p' hrun effect hp _ _ hiff
    have hlaunched : s.presale ≠ none := by simp [hp]
    have hlast : KeepsEscrow h ⟨s, i, o⟩ ↔ (i = .endTransaction → 0 < s.lamports .escrowVault) := by
      constructor
      · intro hkeeps hend
        exact hkeeps hend hlaunched
      · intro hkeeps hend _
        exact hkeeps hend
    rw [Machine.steps_snoc, (coherent_of_run fresh hrun).escrow_owner_step effect hlaunched, hiff,
      hlast]

/-- A `withdraw` call succeeds and pays the whole escrow to the admin. -/
def WithdrawsAll (cx : Context) (a : Withdraw) (s : State) : Prop :=
  ∃ s' log, withdrawHandler cx a s = .ok (s', log) ∧ s'.lamports .escrowVault = 0 ∧
    s'.lamports a.admin = s.lamports a.admin + s.lamports .escrowVault

/-- In a finalized presale that is not cancelled and has lamports in its escrow, a `withdraw` call
of the super admin succeeds and pays out the whole escrow exactly when no transaction since the
launch has ended with an empty escrow and the admin's balance has room for the lamports.
SRC: withdraw.rs:6-38, buy_token.rs:31-73, initialize.rs:33-41 -/
theorem withdraw_recovers_iff (e : Execution) (p : PresaleAccount)
    (hp : e.final.presale = some p) (hfin : p.isFinalized = 1) (hcan : p.isCancelled = 0)
    (hpos : 0 < e.final.lamports .escrowVault) (cx : Context) (a : Withdraw)
    (call : AdminCall cx a.presaleAccount a.adminAccount a.admin e.final p)
    (hesc : a.escrowAccount = .escrowVault) :
    WithdrawsAll cx a e.final ↔
      Machine.Steps KeepsEscrow e.history ∧
        e.final.lamports a.admin + e.final.lamports .escrowVault < 2 ^ 64 := by
  have hlaunched : e.final.presale ≠ none := by simp [hp]
  rw [← (escrow_owner_iff e.fresh e.run).2 hlaunched]
  constructor
  · rintro ⟨s', log, hok, -⟩
    obtain ⟨q, ok, -⟩ := withdrawHandler_eq_ok.mp hok
    exact ⟨ok.owned hpos, ok.credit⟩
  · rintro ⟨howner, hcredit⟩
    have hne := ne_escrow_of_signed call.signed
    have accepted : WithdrawAccepted cx a e.final p := by
      refine ⟨call, hesc, ?_, ?_, hcredit, fun _ => howner⟩
      · rw [hfin]
        exact one_ne_zero
      · rw [hcan]
        exact zero_ne_one
    refine ⟨_, _, withdrawHandler_eq_ok.mpr ⟨p, accepted, rfl⟩, ?_, ?_⟩
    · simp only [afterWithdraw, move_src _ hne.symm, Nat.sub_self]
    · simp only [afterWithdraw, move_dst _ hne.symm]

/-- In the small sale the admin gets the escrow: transactions end, but none with an empty one. -/
theorem withdraw_recovers_small_sale :
    WithdrawsAll (Sample.context 0 1006) Sample.withdrawAccounts (Sample.play (Sample.halfSold ++
      [.endTransaction, Sample.finalize 1003 1, .endTransaction])).final := by
  have hstate : (Sample.play (Sample.halfSold ++ [.endTransaction, Sample.finalize 1003 1,
      .endTransaction])).final.presale.map (fun p => (p.isFinalized, p.isCancelled)) =
        some (1, 0) := by decide +kernel
  obtain ⟨p, hp, hfields⟩ := Option.map_eq_some_iff.mp hstate
  obtain ⟨hfin, hcan⟩ := Prod.mk.inj hfields
  have hfilled : ∀ r ∈ (Sample.play (Sample.halfSold ++ [.endTransaction,
      Sample.finalize 1003 1, .endTransaction])).history,
        r.input = .endTransaction → 0 < r.before.lamports .escrowVault := by decide +kernel
  refine (withdraw_recovers_iff _ p hp hfin hcan (by decide +kernel) (Sample.context 0 1006)
    Sample.withdrawAccounts (sample_admin_call hp (by decide +kernel) 1006) rfl).mpr ⟨?_, ?_⟩
  · apply Machine.steps_of_forall_mem
    intro r hr _ hend _
    exact hfilled r hr hend
  · decide +kernel

/-- An order after the first withdrawal: the escrow was empty when the transaction ended, so the
lamports of the order, enough for an account of their own, make one of the system program. -/
def strandedSale : Execution :=
  Sample.play (Sample.largeSale ++ [Sample.finalize 1003 1, Sample.withdraw, .endTransaction,
    .instruction (Sample.context 1 1007) (.buyToken (Sample.buyAccounts 1) 1000000),
    .endTransaction])

/-- The lamports of that order are out of the admin's reach: the second withdrawal fails. -/
theorem escrow_stranded :
    ¬ ∀ (e : Execution) (p : PresaleAccount) (cx : Context) (a : Withdraw),
      e.final.presale = some p → p.isFinalized = 1 → p.isCancelled = 0 →
        0 < e.final.lamports .escrowVault →
          AdminCall cx a.presaleAccount a.adminAccount a.admin e.final p →
            a.escrowAccount = .escrowVault → WithdrawsAll cx a e.final := by
  intro hall
  have hstate : strandedSale.final.presale.map (fun p => (p.isFinalized, p.isCancelled)) =
      some (1, 0) := by decide +kernel
  obtain ⟨p, hp, hfields⟩ := Option.map_eq_some_iff.mp hstate
  obtain ⟨hfin, hcan⟩ := Prod.mk.inj hfields
  obtain ⟨s', log, hok, -⟩ := hall strandedSale p (Sample.context 0 1008) Sample.withdrawAccounts hp
    hfin hcan (by decide +kernel) (sample_admin_call hp (by decide +kernel) 1008) rfl
  have hrefused : (withdrawHandler (Sample.context 0 1008) Sample.withdrawAccounts
      strandedSale.final).isOk = false := by decide +kernel
  rw [hok] at hrefused
  exact absurd hrefused.symm Bool.false_ne_true

end TokenPresale.Analysis
