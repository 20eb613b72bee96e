import TokenPresale.Analysis.Custody
import TokenPresale.Analysis.Settlement
import TokenPresale.Analysis.TokenLedger
import TokenPresale.Analysis.TokenVault

/-!
# What cannot happen after settlement

A presale that is cancelled before it is finalized stays so: of the calls that move money or
tokens, `deposit_token`, `add_whitelist` and `refund_token` remain. A presale that is finalized
is less final than it should be, since `buy_token` never looks at `is_finalized`; the second
half of this module says exactly when a buy is still possible.
-/

set_option autoImplicit false

namespace TokenPresale.Analysis

open TokenPresale.Library TokenPresale.Model TokenPresale.Interface

/-! ## After a cancellation -/

/-- The presale is cancelled and not finalized. -/
def Cancelled (s : State) : Prop :=
  ∃ p, s.presale = some p ∧ p.isCancelled = 1 ∧ p.isFinalized = 0

section Step

variable {s s' : State} {i : Input} {log : List LogEntry}

/-- A step that is no order changes no holding and does not raise the total. -/
theorem Coherent.ledger_step (c : Coherent s) (h : Effect s i s' log)
    (hnobuy : buysAny i = false) :
    SameHoldings s s' ∧
      field PresaleAccount.totalSolAmount s' ≤ field PresaleAccount.totalSolAmount s := by
  cases c.money_step h with
  | buy ok => exact absurd hnobuy (by simp [buysAny])
  | refund ok =>
    refine ⟨sameHoldings_of_eq rfl, ?_⟩
    rw [field_of_presale ok.presale]
    exact Nat.sub_le _ _
  | quiet same => exact ⟨same.toSameHoldings, same.totalSol.le⟩

/-- No step leaves the cancelled state. -/
theorem Cancelled.step (cancelled : Cancelled s) (c : Coherent s) (h : Effect s i s' log) :
    Cancelled s' := by
  obtain ⟨p, hp, hcan, hfin⟩ := cancelled
  obtain ⟨p', hp', -⟩ := c.record_step h hp
  rcases c.outcome_step h hp hp' with ⟨-, hfin', hcan'⟩ | ⟨-, hcan', hfin' | ⟨hopen, -⟩⟩
  · exact ⟨p', hp', hcan', hfin'.trans hfin⟩
  · exact ⟨p', hp', hcan'.trans hcan, hfin'.trans hfin⟩
  · omega

/-- The calls that a cancelled presale refuses. -/
theorem Cancelled.refuses (cancelled : Cancelled s) (h : Effect s i s' log) :
    buysAny i = false ∧ claimsAny i = false ∧ withdrawsTokens i = false ∧
      ∀ cx a, i ≠ .instruction cx (.withdraw a) := by
  obtain ⟨p, hp, hcan, hfin⟩ := cancelled
  have same : ∀ {q : PresaleAccount}, s.presale = some q → q = p :=
    fun hq => Option.mem_unique hq hp
  cases h with
  | buy ok => exact absurd (same ok.presale ▸ hcan) ok.notCancelled
  | claim ok => exact absurd (same ok.presale ▸ hfin) ok.finalized
  | withdraw ok => exact absurd (same ok.presale ▸ hcan) ok.notCancelled
  | withdrawToken ok => exact absurd (same ok.presale ▸ hcan) ok.notCancelled
  | _ => exact ⟨rfl, rfl, rfl, fun _ _ => by simp⟩

/-- A step after the cancellation takes no token out of a vault. -/
theorem Cancelled.vault_le (cancelled : Cancelled s) (c : Coherent s) (h : Effect s i s' log)
    (m : Pubkey) : vaultAmount s m ≤ vaultAmount s' m := by
  obtain ⟨-, hclaim, hdraw, -⟩ := cancelled.refuses h
  have hvault := c.vault_step h m
  simp only [receipt, hclaim, hdraw, Bool.false_eq_true, if_false] at hvault
  omega

/-- In a cancelled presale only a refund lowers the escrow. -/
theorem Cancelled.escrow_le (cancelled : Cancelled s) (c : Coherent s) (h : Effect s i s' log)
    (hother : ∀ cx a, i ≠ .instruction cx (.refundToken a)) :
    s.lamports .escrowVault ≤ s'.lamports .escrowVault := by
  have hnobuy := (cancelled.refuses h).1
  obtain ⟨p', hp', -, hfin'⟩ := cancelled.step c h
  obtain ⟨p, hp, -, -⟩ := cancelled
  have hescrow := c.escrow_step h hp hp' hfin'
  cases c.money_step h with
  | buy ok => exact absurd hnobuy (by simp [buysAny])
  | refund ok => exact absurd rfl (hother _ _)
  | quiet same =>
    have htotal := same.totalSol
    rw [field_of_presale hp, field_of_presale hp'] at htotal
    omega

end Step

/-- Cancelling before finalization is final: in every further run of a presale that is cancelled
and not finalized both flags keep their values, no account's allocation or contribution changes,
the calls that sell, claim or withdraw fail, no instruction lowers a vault, and none but
`refund_token` lowers the escrow.
SRC: finalize.rs:31-64, buy_token.rs:31-39, withdraw.rs:27-38, state.rs:107-119 -/
theorem cancellation_final (e : Execution) (p : PresaleAccount) (hp : e.final.presale = some p)
    (hcan : p.isCancelled = 1) (hfin : p.isFinalized = 0) (h : History) (s : State)
    (run : presale.Run e.final h s) :
    Cancelled s ∧ SameHoldings e.final s ∧
    (∀ cx a amount out, buyTokenHandler cx a amount s ≠ .ok out) ∧
    (∀ cx a out, claimTokenHandler cx a s ≠ .ok out) ∧
    (∀ cx a out, withdrawHandler cx a s ≠ .ok out) ∧
    (∀ cx a out, withdrawTokenHandler cx a s ≠ .ok out) ∧
    ∀ cx i s' log, presale.step s (.instruction cx i) = .ok (s', log) →
      (∀ m, vaultAmount s m ≤ vaultAmount s' m) ∧
        ((∀ a, i ≠ .refundToken a) → s.lamports .escrowVault ≤ s'.lamports .escrowVault) := by
  have hrun : Cancelled s ∧ SameHoldings e.final s := by
    refine run.invariant (fun _ s => Cancelled s ∧ SameHoldings e.final s) ?_ ?_
    · exact ⟨⟨p, hp, hcan, hfin⟩, sameHoldings_of_eq rfl⟩
    · rintro h s i s' o hrun ⟨cancelled, same⟩ hstep
      have c := coherent_of_run e.fresh (e.run.append hrun)
      have effect := effect_of_step hstep
      exact ⟨cancelled.step c effect,
        same.trans (c.ledger_step effect (cancelled.refuses effect).1).1⟩
  obtain ⟨cancelled, same⟩ := hrun
  have c := coherent_of_run e.fresh (e.run.append run)
  refine ⟨cancelled, same, ?_, ?_, ?_, ?_, ?_⟩
  · intro cx a amount out hok
    have refused := cancelled.refuses (effect_of_instruction (i := .buyToken a amount) hok)
    exact absurd refused.1.symm Bool.false_ne_true
  · intro cx a out hok
    have refused := cancelled.refuses (effect_of_instruction (i := .claimToken a) hok)
    exact absurd refused.2.1.symm Bool.false_ne_true
  · intro cx a out hok
    have refused := cancelled.refuses (effect_of_instruction (i := .withdraw a) hok)
    exact refused.2.2.2 cx a rfl
  · intro cx a out hok
    have refused := cancelled.refuses (effect_of_instruction (i := .withdrawToken a) hok)
    exact absurd refused.2.2.1.symm Bool.false_ne_true
  · intro cx i s' log hstep
    have effect := effect_of_step hstep
    refine ⟨cancelled.vault_le c effect, fun hother => cancelled.escrow_le c effect ?_⟩
    rintro cx' a hi
    obtain ⟨-, rfl⟩ := Input.instruction.inj hi
    exact hother a rfl

/-- After a cancellation, a refund and a forced `finalize` call the small sale is still cancelled,
and Alice's order is refused. -/
theorem cancellation_final_small_sale :
    Cancelled (presale.exec (Sample.play (Sample.halfSold ++ [Sample.cancel])).final
        [Sample.refund 1 (.key 1), Sample.finalize 1101 1]).2 ∧
      ¬ ∃ out, buyTokenHandler (Sample.context 1 1004) (Sample.buyAccounts 1) 10
        (presale.exec (Sample.play (Sample.halfSold ++ [Sample.cancel])).final
          [Sample.refund 1 (.key 1), Sample.finalize 1101 1]).2 = .ok out := by
  have hstate : (Sample.play (Sample.halfSold ++ [Sample.cancel])).final.presale.map
      (fun p => (p.isCancelled, p.isFinalized)) = some (1, 0) := by decide +kernel
  obtain ⟨p, hp, hfields⟩ := Option.map_eq_some_iff.mp hstate
  obtain ⟨hcan, hfin⟩ := Prod.mk.inj hfields
  have final := cancellation_final _ p hp hcan hfin _ _ (presale.run_exec _
    [Sample.refund 1 (.key 1), Sample.finalize 1101 1])
  exact ⟨final.1, fun ⟨out, hok⟩ => final.2.2.1 _ _ _ out hok⟩

/-! ## After finalization -/

/-- The balance of the escrow, the SOL raised and the contributions fit in 64 bits. -/
structure Fits (s : State) : Prop where
  escrow : s.lamports .escrowVault < 2 ^ 64
  totalSol : field PresaleAccount.totalSolAmount s < 2 ^ 64
  contributed : ∀ k, s.users.reading UserAccount.userSolContributed k < 2 ^ 64

section Step

variable {s s' : State} {i : Input} {log : List LogEntry}

/-- A step keeps the escrow's balance within 64 bits. -/
theorem Fits.escrow_step (fits : Fits s) (h : Effect s i s' log) :
    s'.lamports .escrowVault < 2 ^ 64 := by
  have hbefore := fits.escrow
  cases h with
  | @initializePresale cx a args p ok =>
    have hcredit := ok.credit (.escrowVault, cx.rent.minimumBalance (8 + 8) -
      s.lamports .escrowVault) (by simp [initFunding])
    rwa [← ok.lamports (q := (.escrowVault, _)) (by simp [initFunding])] at hcredit
  | buy ok =>
    simp only [afterBuy, move_dst _ ok.authority_ne_escrow]
    exact ok.credit
  | refund ok => exact (move_src_le _ ok.funded).trans_lt hbefore
  | @add cx a p ok =>
    have hne : Pubkey.escrowVault ≠ a.admin := (ne_of_signed ok.signed rfl).symm
    have hkept : move s.lamports a.admin (.userRole a.authority) (whitelistFunding cx a s)
        .escrowVault = s.lamports .escrowVault := move_other _ _ hne (by simp)
    exact hkept.trans_lt hbefore
  | finalizePays ok => exact (move_src_le _ ok.funded).trans_lt hbefore
  | withdraw ok => exact (move_src_le _ le_rfl).trans_lt hbefore
  | outside ok => exact runOutside_lamports_lt ok hbefore
  | _ => exact hbefore

/-- A step keeps the three amounts within 64 bits. -/
theorem Fits.step (fits : Fits s) (c : Coherent s) (h : Effect s i s' log) : Fits s' := by
  have hescrow := fits.escrow_step h
  have htotal := fits.totalSol
  have hpaid := fits.contributed
  cases c.money_step h with
  | @buy cx a amount p u ok =>
    refine ⟨hescrow, ok.totalSol, fun k => ?_⟩
    rcases eq_or_ne k (.userRole a.authority) with rfl | hne
    · simp only [afterBuy, Ledger.reading_insert_self, userAfterBuy]
      exact ok.userSol
    · simp only [afterBuy, Ledger.reading_insert_of_ne _ _ _ hne]
      exact hpaid k
  | @refund cx a p u ok =>
    rw [field_of_presale ok.presale] at htotal
    exact ⟨hescrow, (Nat.sub_le _ _).trans_lt htotal, hpaid⟩
  | quiet same =>
    refine ⟨hescrow, same.totalSol ▸ htotal, fun k => ?_⟩
    rw [show s'.users.reading UserAccount.userSolContributed =
      s.users.reading UserAccount.userSolContributed from same.reading (fun _ c => c) rfl]
    exact hpaid k

end Step

/-- The three amounts fit in 64 bits in every reachable state. -/
theorem fits_of_run {s₀ s : State} {h : History} (fresh : Fresh s₀) (run : presale.Run s₀ h s) :
    Fits s := by
  refine run.invariant (fun _ s => Fits s) ?_ ?_
  · refine ⟨fresh.lamports _, ?_, fun k => ?_⟩
    · simp [field, fresh.presale]
    · simp [fresh.users, Ledger.reading]
  · intro h s i s' o hrun fits hstep
    exact fits.step (coherent_of_run fresh hrun) (effect_of_step hstep)

/-- The wallet of the record `u` can order: it signs, it is listed, and it holds tokens or the
participant counter has room for it. -/
structure Buyer (p : PresaleAccount) (w : Pubkey) (u : UserAccount) : Prop where
  signs : w.isPda = false
  listed : u.isWhitelisted = true
  counted : u.userBuyAmount = 0 → p.totalParticipants + 1 < 2 ^ 32

/-- At time `t` the presale takes no orders: it is cancelled or outside its window, its pool is
empty and has no price, or it has no buyer. -/
def Shut (t : ℕ) (s : State) : Prop :=
  ∀ p, s.presale = some p → p.isCancelled = 1 ∨ t < p.startTime ∨ p.endTime < t ∨
    (p.totalTokenRemained = 0 ∧ p.presaleRate = 0) ∨
      ∀ w u, s.users.lookup (.userRole w) = some u → ¬ Buyer p w u

/-- An order of nothing by a buyer is accepted, so an open presale with a buyer takes orders. -/
theorem accepts_of_buyer {s₀ s : State} {h : History} (fresh : Fresh s₀)
    (run : presale.Run s₀ h s) {p : PresaleAccount} (hp : s.presale = some p) {w : Pubkey}
    {u : UserAccount} (hu : s.users.lookup (.userRole w) = some u) (buyer : Buyer p w u)
    (hcan : p.isCancelled ≠ 1) (hprice : ¬ (p.totalTokenRemained = 0 ∧ p.presaleRate = 0))
    (cx : Context) (hw : w ∈ cx.signers) (hstart : p.startTime ≤ cx.now)
    (hend : cx.now ≤ p.endTime) :
    BuyAccepted cx ⟨.escrowVault, .presaleInfo, .userRole w, w⟩ 0 s p u := by
  have fits := fits_of_run fresh run
  have hcost : (fillOf p 0).cost = 0 := Nat.le_zero.mp fill_cost_le
  have htotal := fits.totalSol
  have hpaid := fits.contributed (.userRole w)
  rw [field_of_presale hp] at htotal
  rw [Ledger.reading_of_lookup hu] at hpaid
  have hbought := (allocation_le_supply fresh run hp hu 0).trans_lt (supply_lt fresh run hp)
  refine ⟨rfl, rfl, hp, rfl, hu, ⟨hw, buyer.signs⟩, hstart, hend, hcan, buyer.listed,
    Nat.zero_le _, Nat.zero_le _, ?_, ?_, ?_, buyer.counted, ?_, ?_, hbought⟩
  · rw [Nat.mul_zero]
    decide
  · intro hempty
    by_contra hrate
    exact hprice ⟨by omega, by omega⟩
  · rw [hcost]
    exact fits.escrow
  · rwa [hcost]
  · rwa [hcost]

/-- In every reachable state, finalized or not, no `buy_token` call made at the time `t` succeeds
exactly when the presale is shut at `t`. -/
theorem no_order_iff {s₀ s : State} {h : History} (fresh : Fresh s₀) (run : presale.Run s₀ h s)
    (t : UInt64) :
    (∀ cx a amount out, cx.unixTimestamp = t → buyTokenHandler cx a amount s ≠ .ok out) ↔
      Shut t.toNat s := by
  constructor
  · intro hnone p hp
    by_contra hopen
    simp only [not_or, not_lt, not_forall, not_not] at hopen
    obtain ⟨hcan, hstart, hend, hprice, w, u, hu, buyer⟩ := hopen
    have accepted := accepts_of_buyer fresh run hp hu buyer hcan hprice
      ⟨[w], t, ⟨1, Nat.one_pos⟩⟩ (List.mem_singleton_self w) hstart hend
    exact hnone _ _ 0 _ rfl (buyTokenHandler_eq_ok.mpr ⟨p, u, accepted, rfl⟩)
  · rintro shut cx a amount out rfl hok
    obtain ⟨p, u, ok, -⟩ := buyTokenHandler_eq_ok.mp hok
    rcases shut p ok.presale with hcan | hstart | hend | ⟨hempty, hrate⟩ | hnobuyer
    · exact ok.notCancelled hcan
    · exact Nat.not_le.mpr hstart ok.started
    · exact Nat.not_le.mpr hend ok.notEnded
    · have := ok.quotient (by omega)
      omega
    · exact hnobuyer _ u ok.user ⟨ok.signed.2, ok.whitelisted, ok.participants⟩

/-- Every `buy_token` call among the inputs fed from `s` on is made while the presale is shut. -/
def BuysShut (s : State) (inputs : List Input) : Prop :=
  ∀ is cx a amount js, inputs = is ++ .instruction cx (.buyToken a amount) :: js →
    Shut cx.now (presale.exec s is).2

/-- Where every call to buy is made while the presale is shut, none succeeds, and the ledger of
the sale stands still. -/
theorem frozen_of_shut {s₀ s : State} {h : History} (fresh : Fresh s₀) (run : presale.Run s₀ h s)
    {inputs : List Input} (shut : BuysShut s inputs) :
    bought (presale.exec s inputs).1 = false ∧ SameHoldings s (presale.exec s inputs).2 ∧
      field PresaleAccount.totalSolAmount (presale.exec s inputs).2 ≤
        field PresaleAccount.totalSolAmount s := by
  induction inputs generalizing s h with
  | nil => exact ⟨rfl, sameHoldings_of_eq rfl, le_rfl⟩
  | cons i is ih =>
    cases hstep : presale.step s i with
    | error e =>
      have hrest : BuysShut s is := by
        intro is' cx a amount js his
        have hlater := shut (i :: is') cx a amount js (by rw [his, List.cons_append])
        simpa only [Machine.exec, hstep] using hlater
      simpa only [Machine.exec, hstep] using ih run hrest
    | ok out =>
      obtain ⟨s', log⟩ := out
      have effect := effect_of_step hstep
      have hnobuy : buysAny i = false := by
        cases effect with
        | @buy cx a amount p u ok =>
          have hshut := shut [] cx a amount is rfl
          exact absurd hstep ((no_order_iff fresh run cx.unixTimestamp).mpr hshut cx a amount _ rfl)
        | _ => rfl
      have hrest : BuysShut s' is := by
        intro is' cx a amount js his
        have hlater := shut (i :: is') cx a amount js (by rw [his, List.cons_append])
        simpa only [Machine.exec, hstep] using hlater
      obtain ⟨hnone, same, htotal⟩ := ih (run.next hstep) hrest
      obtain ⟨first, hfirst⟩ := (coherent_of_run fresh run).ledger_step effect hnobuy
      simp only [Machine.exec, hstep]
      refine ⟨?_, first.trans same, htotal.trans hfirst⟩
      show (buysAny i || bought (presale.exec s' is).1) = false
      rw [hnobuy, hnone, Bool.or_false]

/-- A finalized presale stays finalized in every further run. -/
theorem finalized_of_run {s₀ s s' : State} {h h' : History} (fresh : Fresh s₀)
    (run : presale.Run s₀ h s) (run' : presale.Run s h' s')
    (hfin : ∃ p, s.presale = some p ∧ p.isFinalized = 1) :
    ∃ p, s'.presale = some p ∧ p.isFinalized = 1 := by
  refine run'.invariant (fun _ s => ∃ p, s.presale = some p ∧ p.isFinalized = 1) hfin ?_
  rintro h' s i s' o hrun ⟨p, hp, hfin⟩ hstep
  have c := coherent_of_run fresh (run.append hrun)
  exact c.finalized_step (effect_of_step hstep) hp hfin

/-- The sale ledger after finalization: in every state of every further run the presale is still
finalized, and at any time all `buy_token` calls fail exactly when the presale is shut; and
where every such call is made while it is shut, none succeeds, no account's allocation or
contribution changes and the total does not grow.
SRC: buy_token.rs:31-96, state.rs:121-129, update_presale_details.rs:19-32 -/
theorem sale_frozen_iff_shut (e : Execution) (p : PresaleAccount)
    (hp : e.final.presale = some p) (hfin : p.isFinalized = 1) :
    (∀ h s, presale.Run e.final h s → (∃ q, s.presale = some q ∧ q.isFinalized = 1) ∧
      ∀ t : UInt64, (∀ cx a amount out, cx.unixTimestamp = t →
        buyTokenHandler cx a amount s ≠ .ok out) ↔ Shut t.toNat s) ∧
    ∀ inputs, BuysShut e.final inputs →
      bought (presale.exec e.final inputs).1 = false ∧
        SameHoldings e.final (presale.exec e.final inputs).2 ∧
          field PresaleAccount.totalSolAmount (presale.exec e.final inputs).2 ≤
            p.totalSolAmount := by
  constructor
  · intro h s run
    exact ⟨finalized_of_run e.fresh e.run run ⟨p, hp, hfin⟩,
      no_order_iff e.fresh (e.run.append run)⟩
  · intro inputs shut
    rw [← field_of_presale (f := PresaleAccount.totalSolAmount) hp]
    exact frozen_of_shut e.fresh e.run shut

/-- One second after its end the finalized small sale refuses Alice's order. -/
theorem sale_frozen_small_sale :
    ¬ ∃ out, buyTokenHandler (Sample.context 1 1101) (Sample.buyAccounts 1) 10
      (Sample.play (Sample.halfSold ++ [Sample.finalize 1002 1])).final = .ok out := by
  have hstate : (Sample.play (Sample.halfSold ++ [Sample.finalize 1002 1])).final.presale.map
      (fun p => (p.isFinalized, p.endTime)) = some (1, 1100) := by decide +kernel
  obtain ⟨p, hp, hfields⟩ := Option.map_eq_some_iff.mp hstate
  obtain ⟨hfin, hend⟩ := Prod.mk.inj hfields
  have shut : Shut (1101 : UInt64).toNat
      (Sample.play (Sample.halfSold ++ [Sample.finalize 1002 1])).final := by
    intro q hq
    obtain rfl := Option.mem_unique hp hq
    exact .inr (.inr (.inl (by rw [hend]; decide)))
  have hnone := (((sale_frozen_iff_shut _ p hp hfin).1 _ _ .start).2 1101).mpr shut
  rintro ⟨out, hok⟩
  exact hnone _ _ _ out rfl hok

/-- Nothing stops an order after a forced `finalize` call: Alice buys 30 tokens more, for lamports
of which the team gets no share. -/
theorem order_after_finalize :
    ¬ ∀ (e : Execution) (p : PresaleAccount), e.final.presale = some p → p.isFinalized = 1 →
      ∀ h s, presale.Run e.final h s → ∀ cx a amount out,
        buyTokenHandler cx a amount s ≠ .ok out := by
  intro hall
  have hstate : (Sample.play (Sample.halfSold ++ [Sample.finalize 1002 1])).final.presale.map
      PresaleAccount.isFinalized = some 1 := by decide +kernel
  obtain ⟨p, hp, hfin⟩ := Option.map_eq_some_iff.mp hstate
  obtain ⟨out, hbuy⟩ : ∃ out, buyTokenHandler (Sample.context 1 1002) (Sample.buyAccounts 1) 10
      (Sample.play (Sample.halfSold ++ [Sample.finalize 1002 1])).final = .ok out :=
    exists_of_isOk (by decide +kernel)
  exact hall _ p hp hfin _ _ .start _ _ _ out hbuy

end TokenPresale.Analysis
