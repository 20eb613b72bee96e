import TokenPresale.Analysis.SolLedger

/-!
# Refunds and claims, how often and to whom

`refund_token` leaves the user record as it was, `claim_token` sets a flag that nothing reads,
and neither compares the recipient with the wallet of the record. This module says exactly
which runs nevertheless pay every account once, and which calls pay its wallet.
-/

set_option autoImplicit false

namespace TokenPresale.Analysis

open TokenPresale.Library TokenPresale.Model TokenPresale.Interface

/-! ## How often an account is refunded -/

section Step

variable {s s' : State} {i : Input} {log : List LogEntry} {k : Pubkey}

/-- A refund succeeds in a cancelled presale only, and leaves the records of the users. -/
theorem refund_frame (h : Effect s i s' log) (hk : refunds k i = true) :
    field PresaleAccount.isCancelled s ≠ 0 ∧ field PresaleAccount.isCancelled s' ≠ 0 ∧
      s'.users = s.users ∧ k ∈ s.users := by
  cases h with
  | @refundNothing cx a p u ok hzero =>
    obtain rfl : a.userAccount = k := of_decide_eq_true hk
    rw [field_of_presale ok.presale]
    exact ⟨ok.cancelled, ok.cancelled, rfl, Finmap.mem_of_lookup_eq_some ok.user⟩
  | @refund cx a p u ok =>
    obtain rfl : a.userAccount = k := of_decide_eq_true hk
    rw [field_of_presale ok.presale]
    exact ⟨ok.cancelled, ok.cancelled, rfl, Finmap.mem_of_lookup_eq_some ok.user⟩
  | _ => exact absurd hk Bool.false_ne_true

/-- A step on a presale that is not cancelled is no refund. -/
theorem refunds_eq_false (h : Effect s i s' log) (hcan : field PresaleAccount.isCancelled s = 0)
    (k : Pubkey) : refunds k i = false := by
  cases hk : refunds k i with
  | false => rfl
  | true => exact absurd hcan (refund_frame h hk).1

/-- A presale that is not cancelled after a step was not cancelled before it. -/
theorem Coherent.cancelled_step (c : Coherent s) (h : Effect s i s' log)
    (hcan : field PresaleAccount.isCancelled s' = 0) :
    field PresaleAccount.isCancelled s = 0 := by
  cases hp : s.presale with
  | none => rw [field, hp, Option.elim_none]
  | some p =>
    obtain ⟨p', hp', hrecord⟩ := c.record_step h hp
    rw [field_of_presale hp]
    rw [field_of_presale hp'] at hcan
    rcases hrecord.flags.2 with heq | hone <;> omega

/-- A step adds to the refunds paid on an account what the account has contributed, if it is a
refund of that account, and nothing otherwise. -/
theorem Coherent.refund_receipt (c : Coherent s) (h : Effect s i s' log) (k : Pubkey) :
    receipt (refunds k) (lamportsOutOf .escrowVault) ⟨s, i, log⟩ =
      (refunds k i).toNat * s.users.reading UserAccount.userSolContributed k := by
  cases c.money_step h with
  | buy ok => simp [receipt, refunds]
  | @refund cx a p u ok =>
    rcases eq_or_ne a.userAccount k with rfl | hne
    · have hu := Ledger.reading_of_lookup (f := UserAccount.userSolContributed) ok.user
      simp [receipt, refunds, lamportsOutOf, hu]
    · simp [receipt, refunds, hne]
  | quiet same =>
    cases hk : refunds k i with
    | false => simp [receipt, hk]
    | true =>
      have hany := same.noRefund
      rw [receipt, refundsAny_of_refunds hk, if_pos rfl] at hany
      rw [receipt, hk, if_pos rfl, hany, same.noDebt k hk, Nat.mul_zero]

/-- A contribution changes only in a presale that is not cancelled. -/
theorem Coherent.contribution_frozen (c : Coherent s) (h : Effect s i s' log)
    (hcan : field PresaleAccount.isCancelled s = 1) :
    s'.users.reading UserAccount.userSolContributed =
      s.users.reading UserAccount.userSolContributed := by
  cases c.money_step h with
  | buy ok =>
    rw [field_of_presale ok.presale] at hcan
    exact absurd hcan ok.notCancelled
  | refund ok => rfl
  | quiet same => exact same.reading (fun _ c => c) rfl

end Step

/-- A longer history refunds an account once more exactly when its last step does. -/
theorem refundCalls_snoc (k : Pubkey) (h : History) (r : Step) :
    refundCalls k (h ++ [r]) = refundCalls k h + (refunds k r.input).toNat := by
  simp [refundCalls]

/-- The cancellation flag is zero or one. -/
theorem isCancelled_cases {s₀ s : State} {h : History} (fresh : Fresh s₀)
    (run : presale.Run s₀ h s) :
    field PresaleAccount.isCancelled s = 0 ∨ field PresaleAccount.isCancelled s = 1 := by
  cases hp : s.presale with
  | none =>
    rw [field, hp, Option.elim_none]
    exact .inl rfl
  | some p =>
    have hle := (flags_le_one fresh run hp).2
    rw [field_of_presale hp]
    omega

/-- No account is refunded before the presale is cancelled. -/
theorem refundCalls_eq_zero {s₀ s : State} {h : History} (fresh : Fresh s₀)
    (run : presale.Run s₀ h s) (hcan : field PresaleAccount.isCancelled s = 0) (k : Pubkey) :
    refundCalls k h = 0 := by
  refine run.invariant (fun h s => field PresaleAccount.isCancelled s = 0 → refundCalls k h = 0)
    (fun _ => rfl) ?_ hcan
  intro h s i s' o hrun ih hstep hcan
  have effect := effect_of_step hstep
  have hbefore := (coherent_of_run fresh hrun).cancelled_step effect hcan
  rw [refundCalls_snoc, ih hbefore, refunds_eq_false effect hbefore k, Bool.toNat_false]

/-- Before a cancellation nothing has been refunded. -/
theorem allRefundsPaid_eq_zero {s₀ s : State} {h : History} (fresh : Fresh s₀)
    (run : presale.Run s₀ h s) (hcan : field PresaleAccount.isCancelled s = 0) :
    allRefundsPaid h = 0 := by
  refine run.invariant (fun h s => field PresaleAccount.isCancelled s = 0 → allRefundsPaid h = 0)
    (fun _ => rfl) ?_ hcan
  intro h s i s' o hrun ih hstep hcan
  have effect := effect_of_step hstep
  have c := coherent_of_run fresh hrun
  have hbefore := c.cancelled_step effect hcan
  have hnone : receipt refundsAny (lamportsOutOf .escrowVault) ⟨s, i, o⟩ = 0 := by
    cases c.money_step effect with
    | buy ok => rfl
    | refund ok =>
      rw [field_of_presale ok.presale] at hbefore
      exact absurd hbefore ok.cancelled
    | quiet same => exact same.noRefund
  have hsum : allRefundsPaid (h ++ [⟨s, i, o⟩]) = allRefundsPaid h +
      receipt refundsAny (lamportsOutOf .escrowVault) ⟨s, i, o⟩ := by
    simp [allRefundsPaid]
  rw [hsum, ih hbefore, hnone]

/-- Before a cancellation the total is what all accounts have contributed. -/
theorem total_eq_contributed {s₀ s : State} {h : History} (fresh : Fresh s₀)
    (run : presale.Run s₀ h s) {p : PresaleAccount} (hp : s.presale = some p)
    (hcan : p.isCancelled = 0) :
    p.totalSolAmount = s.users.total UserAccount.userSolContributed := by
  have hnone : allRefundsPaid h = 0 :=
    allRefundsPaid_eq_zero fresh run ((field_of_presale hp).trans hcan)
  have balance := total_add_refunds fresh run
  rwa [hnone, Nat.add_zero, field_of_presale hp] at balance

/-- Every refund of an account pays its whole contribution again. -/
theorem refundsPaid_eq {s₀ s : State} {h : History} (fresh : Fresh s₀)
    (run : presale.Run s₀ h s) (k : Pubkey) :
    refundsPaid k h = refundCalls k h * s.users.reading UserAccount.userSolContributed k := by
  refine run.invariant (fun h s => refundsPaid k h =
    refundCalls k h * s.users.reading UserAccount.userSolContributed k) ?_ ?_
  · simp [refundsPaid, refundCalls]
  · intro h s i s' o hrun ih hstep
    have effect := effect_of_step hstep
    have c := coherent_of_run fresh hrun
    have hpaid : refundsPaid k (h ++ [⟨s, i, o⟩]) = refundsPaid k h +
        (refunds k i).toNat * s.users.reading UserAccount.userSolContributed k := by
      rw [← c.refund_receipt effect k]
      simp [refundsPaid]
    rw [hpaid, refundCalls_snoc, ih, ← Nat.add_mul]
    -- either no refund has been made at all, or contributions are frozen
    rcases isCancelled_cases fresh hrun with hcan | hcan
    · rw [refundCalls_eq_zero fresh hrun hcan k, refunds_eq_false effect hcan k, Bool.toNat_false,
        Nat.zero_add, Nat.zero_mul, Nat.zero_mul]
    · rw [c.contribution_frozen effect hcan]

/-- No account has been refunded more than it contributed. -/
def RefundsBounded (h : History) (s : State) : Prop :=
  ∀ k u, s.users.lookup k = some u → refundsPaid k h ≤ u.userSolContributed

/-- The step `r`, taken after the history `h`, does not refund an account that has contributed
and was refunded before. -/
def RefundsOnce (h : History) (r : Step) : Prop :=
  ∀ k, refunds k r.input = true →
    r.before.users.reading UserAccount.userSolContributed k = 0 ∨ refundCalls k h = 0

/-- The bound speaks of the number of refunds of the accounts that have contributed. -/
theorem refundsBounded_iff {s₀ s : State} {h : History} (fresh : Fresh s₀)
    (run : presale.Run s₀ h s) :
    RefundsBounded h s ↔
      ∀ k, s.users.reading UserAccount.userSolContributed k = 0 ∨ refundCalls k h ≤ 1 := by
  constructor
  · intro hb k
    cases hu : s.users.lookup k with
    | none => exact .inl (by simp [Ledger.reading, hu])
    | some u =>
      rcases Nat.eq_zero_or_pos u.userSolContributed with hzero | hpos
      · exact .inl ((Ledger.reading_of_lookup hu).trans hzero)
      · have hle := hb k u hu
        rw [refundsPaid_eq fresh run, Ledger.reading_of_lookup hu] at hle
        exact .inr (Nat.le_of_mul_le_mul_right (by omega) hpos)
  · intro hb k u hu
    rw [refundsPaid_eq fresh run, Ledger.reading_of_lookup hu]
    rcases hb k with hzero | hle
    · rw [Ledger.reading_of_lookup hu] at hzero
      rw [hzero, Nat.mul_zero]
    · exact (Nat.mul_le_mul_right _ hle).trans (Nat.one_mul _).le

/-- Where no account was refunded too much, the next step keeps it so exactly when it refunds no
contributor a second time. -/
theorem refundsBounded_step {s₀ s s' : State} {h : History} {i : Input} {o : List LogEntry}
    (fresh : Fresh s₀) (run : presale.Run s₀ h s) (hb : RefundsBounded h s)
    (hstep : presale.step s i = .ok (s', o)) :
    RefundsBounded (h ++ [⟨s, i, o⟩]) s' ↔ RefundsOnce h ⟨s, i, o⟩ := by
  have effect := effect_of_step hstep
  rw [refundsBounded_iff fresh run] at hb
  rw [refundsBounded_iff fresh (run.next hstep)]
  constructor
  · intro hb' k hk
    have hk' := hb' k
    rw [refundCalls_snoc, hk, Bool.toNat_true, (refund_frame effect hk).2.2.1] at hk'
    rcases hk' with hzero | hle
    · exact .inl hzero
    · exact .inr (by omega)
  · intro honce k
    rw [refundCalls_snoc]
    cases hk : refunds k i with
    | false =>
      rw [Bool.toNat_false, Nat.add_zero]
      -- a step that is no refund of `k` changes its contribution only before any refund
      rcases isCancelled_cases fresh run with hcan | hcan
      · have hnone := refundCalls_eq_zero fresh run hcan k
        exact .inr (by omega)
      · rw [(coherent_of_run fresh run).contribution_frozen effect hcan]
        exact hb k
    | true =>
      rw [(refund_frame effect hk).2.2.1, Bool.toNat_true]
      rcases honce k hk with hzero | hnone
      · exact .inl hzero
      · exact .inr (by omega)

/-- In every state of a run each account has been refunded at most what it contributed exactly
when the run never refunds a contributor a second time.
SRC: refund_token.rs:29-48 -/
theorem refunds_bounded_iff (e : Execution) :
    presale.Always e.genesis e.history RefundsBounded ↔
      Machine.Steps RefundsOnce e.history :=
  e.run.always_iff (fun k u hu => by simp [e.fresh.users] at hu)
    fun _ _ _ _ _ run hb hstep => refundsBounded_step e.fresh run hb hstep

/-- Nothing stops the second refund: Alice, who paid 10 lamports, is refunded twice, the second time
out of what Bob paid. -/
theorem refunds_unbounded :
    ¬ ∀ (e : Execution) (k : Pubkey) (u : UserAccount), e.final.users.lookup k = some u →
      refundsPaid k e.history ≤ u.userSolContributed := by
  intro h
  have hpaid := h (Sample.play (Sample.opening ++ [Sample.cancel, Sample.refund 1 (.key 1),
    Sample.refund 1 (.key 1)])) (.userRole (.key 1)) ⟨true, 30, 10, 0, .key 1⟩
    (by decide +kernel)
  revert hpaid
  decide +kernel

/-! ## How often an account's tokens are claimed -/

section Step

variable {s s' : State} {i : Input} {log : List LogEntry} {k : Pubkey}

/-- A claim on the account `k` moves its whole allocation and sets its flag. -/
structure Claims (s s' : State) (log : List LogEntry) (k : Pubkey) (u : UserAccount) : Prop where
  user : s.users.lookup k = some u
  positive : 0 < u.userBuyAmount
  user' : s'.users.lookup k = some { u with isClaimed := 1 }
  moved : sumOf vaultTokens log = u.userBuyAmount

/-- A successful claim on an account does what a claim should. -/
theorem claims_of_effect (h : Effect s i s' log) (hk : claims k i = true) :
    ∃ u, Claims s s' log k u := by
  cases h with
  | @claim cx a p u v t ok =>
    obtain rfl : a.userAccount = k := of_decide_eq_true hk
    rw [ok.userAccount]
    exact ⟨u, ok.user, ok.positive, Finmap.lookup_insert _, by simp [claimLog, vaultTokens]⟩
  | _ => exact absurd hk Bool.false_ne_true

/-- Any other step keeps the flag of the account. -/
theorem Coherent.isClaimed_step (c : Coherent s) (h : Effect s i s' log)
    (hk : claims k i = false) :
    s'.users.reading UserAccount.isClaimed k = s.users.reading UserAccount.isClaimed k := by
  cases h with
  | buy ok | remove ok =>
    refine congrFun (Ledger.reading_insert_same UserAccount.isClaimed _ ok.user ?_) k
    rfl
  | @claim cx a p u v t ok =>
    have hne : k ≠ .userRole a.userTo := by
      rintro rfl
      exact of_decide_eq_false hk ok.userAccount
    exact Ledger.reading_insert_of_ne _ _ _ hne
  | add ok =>
    refine congrFun (Ledger.reading_insert_new UserAccount.isClaimed _ (c.not_listed ok) ?_) k
    rfl
  | outside ok => rw [(runOutside_frame ok).users]
  | _ => rfl

end Step

/-- A longer history moves by claims what its last step may add. -/
theorem claimsMoved_snoc (k : Pubkey) (h : History) (r : Step) :
    claimsMoved k (h ++ [r]) =
      claimsMoved k h + if claims k r.input then sumOf vaultTokens r.output else 0 := by
  simp [claimsMoved, receipt]

/-- The flag of an account says whether its tokens have been claimed. -/
theorem isClaimed_iff {s₀ s : State} {h : History} (fresh : Fresh s₀) (run : presale.Run s₀ h s)
    (k : Pubkey) : s.users.reading UserAccount.isClaimed k = 0 ↔ claimsMoved k h = 0 := by
  refine run.invariant (fun h s => s.users.reading UserAccount.isClaimed k = 0 ↔
    claimsMoved k h = 0) ?_ ?_
  · simp [fresh.users, Ledger.reading, claimsMoved]
  · intro h s i s' o hrun ih hstep
    have effect := effect_of_step hstep
    rw [claimsMoved_snoc]
    cases hk : claims k i with
    | false =>
      rw [(coherent_of_run fresh hrun).isClaimed_step effect hk, ih, if_neg Bool.false_ne_true,
        Nat.add_zero]
    | true =>
      obtain ⟨u, hclaims⟩ := claims_of_effect effect hk
      have hpos := hclaims.positive
      rw [Ledger.reading_of_lookup hclaims.user', if_pos rfl, hclaims.moved]
      exact ⟨fun hone => absurd hone one_ne_zero, fun hzero => by omega⟩

/-- No account's claims have moved more than its allocation. -/
def ClaimsBounded (h : History) (s : State) : Prop :=
  ∀ k u, s.users.lookup k = some u → claimsMoved k h ≤ u.userBuyAmount

/-- The step `r` does not claim the tokens of an account whose flag is set. -/
def ClaimsOnce (_ : History) (r : Step) : Prop :=
  ∀ k, claims k r.input = true → r.before.users.reading UserAccount.isClaimed k = 0

/-- To bound the claims of the accounts with a record is to bound those of every address. -/
theorem claimsBounded_iff {s₀ s : State} {h : History} (fresh : Fresh s₀)
    (run : presale.Run s₀ h s) :
    ClaimsBounded h s ↔
      ∀ k, claimsMoved k h ≤ s.users.reading UserAccount.userBuyAmount k := by
  constructor
  · intro hb k
    cases hu : s.users.lookup k with
    | none =>
      have hzero : s.users.reading UserAccount.isClaimed k = 0 := by simp [Ledger.reading, hu]
      rw [(isClaimed_iff fresh run k).mp hzero]
      exact Nat.zero_le _
    | some u =>
      rw [Ledger.reading_of_lookup hu]
      exact hb k u hu
  · intro hb k u hu
    rw [← Ledger.reading_of_lookup (f := UserAccount.userBuyAmount) hu]
    exact hb k

/-- Where no account has claimed too much, the next step keeps it so exactly when it claims no
flagged account. -/
theorem claimsBounded_step {s₀ s s' : State} {h : History} {i : Input} {o : List LogEntry}
    (fresh : Fresh s₀) (run : presale.Run s₀ h s) (hb : ClaimsBounded h s)
    (hstep : presale.step s i = .ok (s', o)) :
    ClaimsBounded (h ++ [⟨s, i, o⟩]) s' ↔ ClaimsOnce h ⟨s, i, o⟩ := by
  have effect := effect_of_step hstep
  rw [claimsBounded_iff fresh run] at hb
  rw [claimsBounded_iff fresh (run.next hstep)]
  constructor
  · intro hb' k hk
    obtain ⟨u, hclaims⟩ := claims_of_effect effect hk
    have hle := hb' k
    rw [claimsMoved_snoc, hk, if_pos rfl, hclaims.moved,
      Ledger.reading_of_lookup hclaims.user'] at hle
    change claimsMoved k h + u.userBuyAmount ≤ u.userBuyAmount at hle
    exact (isClaimed_iff fresh run k).mpr (by omega)
  · intro honce k
    rw [claimsMoved_snoc]
    cases hk : claims k i with
    | false =>
      rw [if_neg Bool.false_ne_true, Nat.add_zero]
      exact (hb k).trans (((coherent_of_run fresh run).allocations_step effect).2 k)
    | true =>
      obtain ⟨u, hclaims⟩ := claims_of_effect effect hk
      rw [(isClaimed_iff fresh run k).mp (honce k hk), if_pos rfl, hclaims.moved,
        Ledger.reading_of_lookup hclaims.user', Nat.zero_add]

/-- In every state of a run the claims of each account have moved at most its allocation
exactly when the run never claims an account whose flag `is_claimed` is set.
SRC: claim_token.rs:43-83 -/
theorem claims_bounded_iff (e : Execution) :
    presale.Always e.genesis e.history ClaimsBounded ↔ Machine.Steps ClaimsOnce e.history :=
  e.run.always_iff (fun k u hu => by simp [e.fresh.users] at hu)
    fun _ _ _ _ _ run hb hstep => claimsBounded_step e.fresh run hb hstep

/-- Nothing reads the flag: Alice's 30 tokens are claimed twice. -/
theorem claims_unbounded :
    ¬ ∀ (e : Execution) (k : Pubkey) (u : UserAccount), e.final.users.lookup k = some u →
      claimsMoved k e.history ≤ u.userBuyAmount := by
  intro h
  have hmoved := h (Sample.play (Sample.opening ++ [Sample.finalize 1003 1,
    Sample.claim 1 (.key 11), Sample.claim 1 (.key 11)])) (.userRole (.key 1))
    ⟨true, 30, 10, 1, .key 1⟩ (by decide +kernel)
  revert hmoved
  decide +kernel

/-! ## To whom -/

/-- The escrow pays exactly the contribution of `u`, to the wallet of `u`. -/
def RefundReaches (s s' : State) (u : UserAccount) : Prop :=
  s'.lamports .escrowVault + u.userSolContributed = s.lamports .escrowVault ∧
    s'.lamports u.publicKey = s.lamports u.publicKey + u.userSolContributed

/-- A token account of the wallet of `u` receives exactly the allocation of `u`. -/
def ClaimReaches (s s' : State) (u : UserAccount) : Prop :=
  ∃ k t t', s.tokens k = some t ∧ s'.tokens k = some t' ∧ t'.owner = u.publicKey ∧
    t'.amount = t.amount + u.userBuyAmount

/-- A refund reaches the wallet of the record exactly when the caller passes that wallet. -/
theorem Coherent.refund_reaches_iff {s : State} (c : Coherent s) {cx : Context} {a : RefundToken}
    {u : UserAccount} {out : Outcome} (h : refundTokenHandler cx a s = .ok out)
    (hu : s.users.lookup a.userAccount = some u) (hpos : 0 < u.userSolContributed) :
    RefundReaches s out.1 u ↔ a.userToRefund = u.publicKey := by
  rcases refundTokenHandler_eq_ok.mp h with ⟨p, v, ok, hzero, -⟩ | ⟨p, v, ok, rfl⟩
  · obtain rfl := Option.mem_unique hu ok.user
    omega
  · obtain rfl := Option.mem_unique hu ok.user
    have hbuyer : u.publicKey ≠ .escrowVault := by
      intro he
      have hsigns := (c.users _ u hu).buyer (.inl hpos)
      rw [he] at hsigns
      exact absurd hsigns (by simp [Pubkey.isPda])
    have hfunded := ok.funded
    simp only [RefundReaches, afterRefund]
    constructor
    · rintro ⟨hdebit, hcredit⟩
      by_contra hne
      have hkept := le_move s.lamports a.userToRefund u.userSolContributed hbuyer
      rw [move_other _ _ hbuyer (Ne.symm hne)] at hcredit
      omega
    · intro heq
      rw [heq, move_src _ hbuyer.symm, move_dst _ hbuyer.symm]
      exact ⟨Nat.sub_add_cancel hfunded, rfl⟩

/-- A claim reaches the wallet of the record exactly when the caller passes a token account of
that wallet other than the vault. -/
theorem claim_reaches_iff {s : State} {cx : Context} {a : ClaimToken} {u : UserAccount}
    {out : Outcome} (h : claimTokenHandler cx a s = .ok out)
    (hu : s.users.lookup a.userAccount = some u) :
    ClaimReaches s out.1 u ↔
      (∃ t, s.tokens a.tokenTo = some t ∧ t.owner = u.publicKey) ∧ a.tokenTo ≠ a.tokenVault := by
  obtain ⟨p, v, vault, t, ok, rfl⟩ := claimTokenHandler_eq_ok.mp h
  rw [ok.userAccount] at hu
  obtain rfl := Option.mem_unique hu ok.user
  have hpos := ok.positive
  simp only [ClaimReaches, afterClaim, ok.tokenVault]
  constructor
  · rintro ⟨k, b, b', hb, hb', howner, hamount⟩
    rcases eq_or_ne (.tokenVault a.tokenMint) a.tokenTo with hself | hne
    · -- a transfer into the vault itself credits nobody
      rw [← hself, moveTokens_self ok.vault ok.backed, hb] at hb'
      obtain rfl := Option.some_injective _ hb'
      omega
    rcases eq_or_ne k a.tokenTo with rfl | hk
    · rw [moveTokens_dst hne hb] at hb'
      obtain rfl := Option.some_injective _ hb'
      exact ⟨⟨b, hb, howner⟩, hne.symm⟩
    · rcases eq_or_ne k (.tokenVault a.tokenMint) with rfl | hk'
      · rw [moveTokens_src hne hb] at hb'
        obtain rfl := Option.some_injective _ hb'
        change b.amount - u.userBuyAmount = b.amount + u.userBuyAmount at hamount
        omega
      · rw [moveTokens_other _ _ hk' hk, hb] at hb'
        obtain rfl := Option.some_injective _ hb'
        omega
  · rintro ⟨⟨b, hb, howner⟩, hne⟩
    exact ⟨a.tokenTo, b, _, hb, moveTokens_dst hne.symm hb, howner, rfl⟩

/-- In every reachable state, for every signer and every choice of accounts: a refund that pays
reaches the wallet of its record exactly when `user_to_refund` is that wallet, and a claim
exactly when `token_to` is a token account of that wallet and not the vault.
SRC: refund_token.rs:5-48, claim_token.rs:12-83 -/
theorem payouts_reach_wallet_iff (e : Execution) :
    (∀ cx a u out, refundTokenHandler cx a e.final = .ok out →
      e.final.users.lookup a.userAccount = some u → 0 < u.userSolContributed →
        (RefundReaches e.final out.1 u ↔ a.userToRefund = u.publicKey)) ∧
    (∀ cx a u out, claimTokenHandler cx a e.final = .ok out →
      e.final.users.lookup a.userAccount = some u →
        (ClaimReaches e.final out.1 u ↔
          (∃ t, e.final.tokens a.tokenTo = some t ∧ t.owner = u.publicKey) ∧
            a.tokenTo ≠ a.tokenVault)) :=
  ⟨fun _ _ _ _ h hu hpos =>
      (coherent_of_run e.fresh e.run).refund_reaches_iff h hu hpos,
    fun _ _ _ _ h hu => claim_reaches_iff h hu⟩

/-- In the small sale a refund to Alice's wallet and a claim to her token account reach her. -/
theorem payouts_reach_alice :
    (∃ out, refundTokenHandler (Sample.context 1 1004) (Sample.refundAccounts 1 (.key 1))
        (Sample.play (Sample.opening ++ [Sample.cancel])).final = .ok out ∧
      RefundReaches (Sample.play (Sample.opening ++ [Sample.cancel])).final out.1
        ⟨true, 30, 10, 0, .key 1⟩) ∧
    ∃ out, claimTokenHandler (Sample.context 0 1005) (Sample.claimAccounts 1 (.key 11))
        (Sample.play (Sample.opening ++ [Sample.finalize 1003 1])).final = .ok out ∧
      ClaimReaches (Sample.play (Sample.opening ++ [Sample.finalize 1003 1])).final out.1
        ⟨true, 30, 10, 0, .key 1⟩ := by
  obtain ⟨out, hrefund⟩ : ∃ out, refundTokenHandler (Sample.context 1 1004)
      (Sample.refundAccounts 1 (.key 1))
        (Sample.play (Sample.opening ++ [Sample.cancel])).final = .ok out :=
    exists_of_isOk (by decide +kernel)
  obtain ⟨out', hclaim⟩ : ∃ out, claimTokenHandler (Sample.context 0 1005)
      (Sample.claimAccounts 1 (.key 11))
        (Sample.play (Sample.opening ++ [Sample.finalize 1003 1])).final = .ok out :=
    exists_of_isOk (by decide +kernel)
  refine ⟨⟨out, hrefund, ?_⟩, out', hclaim, ?_⟩
  · exact ((payouts_reach_wallet_iff _).1 _ _ _ _ hrefund (by decide +kernel) (by decide)).mpr rfl
  · exact ((payouts_reach_wallet_iff _).2 _ _ _ _ hclaim (by decide +kernel)).mpr
      ⟨⟨⟨Sample.mint, .key 1, 0⟩, by decide +kernel, rfl⟩, by decide⟩

/-- Nothing compares the recipient with the wallet: Bob takes Alice's refund, and the holder of
the vault sends Alice's tokens to Bob. -/
theorem payouts_redirected :
    (¬ ∀ (e : Execution) (cx : Context) (a : RefundToken) (u : UserAccount) (out : Outcome),
      refundTokenHandler cx a e.final = .ok out →
        e.final.users.lookup a.userAccount = some u → 0 < u.userSolContributed →
          RefundReaches e.final out.1 u) ∧
    ¬ ∀ (e : Execution) (cx : Context) (a : ClaimToken) (u : UserAccount) (out : Outcome),
      claimTokenHandler cx a e.final = .ok out →
        e.final.users.lookup a.userAccount = some u → ClaimReaches e.final out.1 u := by
  constructor
  · intro h
    obtain ⟨out, hrefund⟩ : ∃ out, refundTokenHandler (Sample.context 2 1004)
        ⟨.escrowVault, .presaleInfo, .userRole (.key 1), .key 2, .key 2⟩
          (Sample.play (Sample.opening ++ [Sample.cancel])).final = .ok out :=
      exists_of_isOk (by decide +kernel)
    have hreaches := h _ _ _ ⟨true, 30, 10, 0, .key 1⟩ out hrefund (by decide +kernel) (by decide)
    have c := coherent_of_run (Sample.play (Sample.opening ++ [Sample.cancel])).fresh
      (Sample.play (Sample.opening ++ [Sample.cancel])).run
    have hself := (c.refund_reaches_iff hrefund (by decide +kernel) (by decide)).mp hreaches
    exact absurd hself (by decide)
  · intro h
    obtain ⟨out, hclaim⟩ : ∃ out, claimTokenHandler (Sample.context 0 1005)
        (Sample.claimAccounts 1 (.key 12))
          (Sample.play (Sample.opening ++ [Sample.finalize 1003 1])).final = .ok out :=
      exists_of_isOk (by decide +kernel)
    have hreaches := h _ _ _ ⟨true, 30, 10, 0, .key 1⟩ out hclaim (by decide +kernel)
    obtain ⟨⟨t, ht, howner⟩, -⟩ := (claim_reaches_iff hclaim (by decide +kernel)).mp hreaches
    have hbob : (Sample.play (Sample.opening ++ [Sample.finalize 1003 1])).final.tokens
        (.key 12) = some ⟨Sample.mint, .key 2, 0⟩ := by decide +kernel
    obtain rfl := Option.mem_unique ht hbob
    exact absurd howner (by decide)

end TokenPresale.Analysis
