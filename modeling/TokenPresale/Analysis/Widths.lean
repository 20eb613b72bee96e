import TokenPresale.Analysis.SaleBook
import TokenPresale.Model.Storage

/-!
# Every field stays in the range of its type

The handlers compute with checked operations and take their arguments from machine types, so no
run leaves a number in a record, or a balance, that its field cannot hold. What the records of
the model say is therefore what the chain can store.
-/

set_option autoImplicit false

namespace TokenPresale.Analysis

open TokenPresale.Library TokenPresale.Model TokenPresale.Interface

/-- The record of `initialize` is in range.
SRC: initialize.rs:69-84 -/
theorem inRange_of_initial {cx : Context} {args : InitializeArgs} {p : PresaleAccount}
    (h : initialPresale cx args = .ok p) : p.InRange := by
  obtain ⟨hend, hsoft, htokens, rfl⟩ := initialPresale_eq_ok.mp h
  have hpool := (Nat.div_le_self _ 10000).trans_lt htokens
  exact {
    teamPercent := args.teamPercent.toNat_lt
    presaleRate := args.presaleRate.toNat_lt
    totalWhitelistedWallets := Nat.two_pow_pos _
    userMaxBuy := args.userMaxBuy.toNat_lt
    startTime := cx.unixTimestamp.toNat_lt
    endTime := hend
    presaleDuration := args.presaleDuration.toNat_lt
    totalParticipants := Nat.two_pow_pos _
    totalSolAmount := Nat.two_pow_pos _
    totalTokenRemained := hpool
    totalPresaleToken := hpool
    isFinalized := Nat.two_pow_pos _
    isCancelled := Nat.two_pow_pos _
    softCap := (Nat.div_le_self _ _).trans_lt hsoft
    tokenAllocation := args.tokenAllocation.toNat_lt
    isHardcapped := Nat.two_pow_pos _
    isSoftcapped := Nat.two_pow_pos _ }

section Step

variable {s s' : State} {i : Input} {log : List LogEntry}

/-- An accepted order keeps the record in range: its counters and totals are checked, the pool
only falls.
SRC: buy_token.rs:53-96 -/
theorem inRange_afterBuy {cx : Context} {a : BuyToken} {n : ℕ} {p : PresaleAccount}
    {u : UserAccount} (ok : BuyAccepted cx a n s p u) (range : p.InRange) :
    (presaleAfterBuy p u n).InRange := by
  refine { range with
    totalParticipants := ?_, totalSolAmount := ok.totalSol, totalTokenRemained := ?_,
    isHardcapped := ?_, isSoftcapped := ?_ }
  · simp only [presaleAfterBuy]
    split_ifs with hzero
    · exact ok.participants hzero
    · exact range.totalParticipants
  · exact (Nat.sub_le _ _).trans_lt range.totalTokenRemained
  · simp only [presaleAfterBuy]
    split_ifs
    · decide
    · exact range.isHardcapped
  · simp only [presaleAfterBuy]
    split_ifs
    · decide
    · exact range.isSoftcapped
    · exact range.isSoftcapped

/-- The first block of `finalize` sets a flag at most. -/
theorem inRange_closed {p : PresaleAccount} (f : UInt8) (range : p.InRange) :
    (closed f p).InRange := by
  unfold closed
  split_ifs
  · exact { range with isCancelled := Nat.one_lt_two_pow (by decide) }
  · exact range

/-- No step takes the presale record out of range. -/
theorem Coherent.inRange_step (c : Coherent s) (h : Effect s i s' log) {p p' : PresaleAccount}
    (hp : s.presale = some p) (hp' : s'.presale = some p') (range : p.InRange) : p'.InRange := by
  have same : ∀ {q : PresaleAccount}, s.presale = some q → q = p :=
    fun hq => Option.mem_unique hq hp
  cases h with
  | initializePresale ok => exact absurd (c.not_launched ok) (by simp [hp])
  | buy ok =>
    obtain rfl := same ok.presale
    obtain rfl := Option.some_injective _ hp'
    exact inRange_afterBuy ok range
  | refund ok =>
    obtain rfl := same ok.presale
    obtain rfl := Option.some_injective _ hp'
    exact { range with
      totalSolAmount := (Nat.sub_le _ _).trans_lt range.totalSolAmount
      totalParticipants := (Nat.sub_le _ _).trans_lt range.totalParticipants }
  | cancel ok =>
    obtain rfl := same ok.presale
    obtain rfl := Option.some_injective _ hp'
    exact { range with isCancelled := Nat.one_lt_two_pow (by decide) }
  | @update _ _ startTime endTime _ ok =>
    obtain rfl := same ok.presale
    obtain rfl := Option.some_injective _ hp'
    exact { range with startTime := startTime.toNat_lt, endTime := endTime.toNat_lt }
  | add ok =>
    obtain rfl := same ok.presale
    obtain rfl := Option.some_injective _ hp'
    exact { range with totalWhitelistedWallets := ok.counter }
  | remove ok =>
    obtain rfl := same ok.presale
    obtain rfl := Option.some_injective _ hp'
    exact { range with
      totalWhitelistedWallets := (Nat.sub_le _ _).trans_lt range.totalWhitelistedWallets }
  | finalizePays ok =>
    obtain rfl := same ok.presale
    obtain rfl := Option.some_injective _ hp'
    exact { range with isFinalized := Nat.one_lt_two_pow (by decide) }
  | finalizeCancelled ok =>
    obtain rfl := same ok.presale
    obtain rfl := Option.some_injective _ hp'
    exact inRange_closed _ range
  | withdrawToken ok =>
    obtain rfl := same ok.presale
    obtain rfl := Option.some_injective _ hp'
    exact { range with totalTokenRemained := Nat.two_pow_pos _ }
  | outside ok =>
    obtain rfl := same ((runOutside_frame ok).presale ▸ hp')
    exact range
  | _ =>
    obtain rfl := same hp'
    exact range

/-- Nor a user record. -/
theorem userInRange_step (h : Effect s i s' log)
    (range : ∀ k u, s.users.lookup k = some u → u.InRange) :
    ∀ k u, s'.users.lookup k = some u → u.InRange := by
  cases h with
  | buy ok =>
    apply Ledger.forall_lookup_insert range
    exact ⟨ok.userBuy, ok.userSol, (range _ _ ok.user).isClaimed⟩
  | claim ok =>
    apply Ledger.forall_lookup_insert range
    exact { range _ _ ok.user with isClaimed := Nat.one_lt_two_pow (by decide) }
  | add ok =>
    apply Ledger.forall_lookup_insert range
    exact ⟨Nat.two_pow_pos _, Nat.two_pow_pos _, Nat.two_pow_pos _⟩
  | remove ok =>
    apply Ledger.forall_lookup_insert range
    have hu := range _ _ ok.user
    exact ⟨hu.userBuyAmount, hu.userSolContributed, hu.isClaimed⟩
  | outside ok =>
    rw [(runOutside_frame ok).users]
    exact range
  | _ => exact range

/-- A transfer that leaves its destination in range leaves every account in range. -/
theorem move_lt {b : Pubkey → ℕ} {src dst : Pubkey} {n : ℕ} (hle : n ≤ b src)
    (hb : ∀ k, b k < 2 ^ 64) (hdst : move b src dst n dst < 2 ^ 64) (k : Pubkey) :
    move b src dst n k < 2 ^ 64 := by
  rcases eq_or_ne k dst with rfl | hd
  · exact hdst
  · rcases eq_or_ne k src with rfl | hs
    · exact (move_src_le dst hle).trans_lt (hb k)
    · rw [move_other b n hs hd]
      exact hb k

/-- No step takes a balance out of range. -/
theorem lamports_lt_step (h : Effect s i s' log) (range : ∀ k, s.lamports k < 2 ^ 64) :
    ∀ k, s'.lamports k < 2 ^ 64 := by
  cases h with
  | @initializePresale cx a args p ok =>
    intro k
    by_cases hk : k ∈ (initFunding cx a s).map Prod.fst
    · obtain ⟨q, hq, rfl⟩ := List.mem_map.mp hk
      rw [ok.lamports hq]
      exact ok.credit q hq
    · rcases eq_or_ne k a.admin with rfl | hne
      · have hrecipients : ∀ q ∈ initFunding cx a s, a.admin ≠ q.1 := by
          intro q hq heq
          exact hk (heq ▸ List.mem_map_of_mem hq)
        simp only [afterInitialize, disburse_src _ _ _ hrecipients]
        exact (Nat.sub_le _ _).trans_lt (range _)
      · simp only [afterInitialize, disburse_of_ne _ _ hne, paidTo_of_notMem hk, Nat.add_zero]
        exact range k
  | @buy cx a amount p u ok =>
    apply move_lt (fill_cost_le.trans ok.funded) range
    rw [move_dst _ ok.authority_ne_escrow]
    exact ok.credit
  | refund ok => exact move_lt ok.funded range ok.credit
  | @add cx a p ok =>
    apply move_lt ok.payer range
    rw [move_dst _ (ne_of_signed ok.signed rfl)]
    exact ok.credit
  | finalizePays ok => exact move_lt ok.funded range ok.credit
  | @withdraw cx a p ok =>
    apply move_lt le_rfl range
    rw [move_dst _ (ne_escrow_of_signed ok.signed).symm]
    exact ok.credit
  | outside ok => exact fun k => runOutside_lamports_lt ok (range k)
  | _ => exact range

end Step

/-- Every field of the presale record is in range in every reachable state. -/
theorem presale_inRange {s₀ s : State} {h : History} (fresh : Fresh s₀)
    (run : presale.Run s₀ h s) {p : PresaleAccount} (hp : s.presale = some p) : p.InRange := by
  refine launched_invariant (fun _ _ p => p.InRange) fresh ?_ ?_ run hp
  · intro h s cx a args p _ _ ok
    exact inRange_of_initial ok.record
  · intro h s i s' o p p' hrun effect hp hp' _ range
    exact (coherent_of_run fresh hrun).inRange_step effect hp hp' range

/-- Every field of every user record is in range in every reachable state. -/
theorem users_inRange {s₀ s : State} {h : History} (fresh : Fresh s₀)
    (run : presale.Run s₀ h s) : ∀ k u, s.users.lookup k = some u → u.InRange := by
  refine run.invariant (fun _ s => ∀ k u, s.users.lookup k = some u → u.InRange) ?_ ?_
  · intro k u hu
    simp [fresh.users] at hu
  · intro h s i s' o _ range hstep
    exact userInRange_step (effect_of_step hstep) range

/-- In every reachable state every field of every record, and every balance, is in the range of
its type: nothing the program computes is ever truncated when it is stored.
SRC: state.rs:24-55 -/
theorem records_in_range (e : Execution) :
    (∀ p, e.final.presale = some p → p.InRange) ∧
    (∀ k u, e.final.users.lookup k = some u → u.InRange) ∧
    ∀ k, e.final.lamports k < 2 ^ 64 := by
  refine ⟨fun p hp => presale_inRange e.fresh e.run hp, users_inRange e.fresh e.run, ?_⟩
  refine e.run.invariant (fun _ s => ∀ k, s.lamports k < 2 ^ 64) e.fresh.lamports ?_
  intro h s i s' o _ range hstep
  exact lamports_lt_step (effect_of_step hstep) range

end TokenPresale.Analysis
