import TokenPresale.Analysis.Custody

/-!
# The refund phase

After a cancellation the contributors are refunded by independent calls, in any order. Three
invariants carry it: the total is what the accounts have contributed (`total_add_refunds`),
the escrow covers the total (`custody_of_run`), and the participant counter covers the accounts
that still have something to get back (`buyers_le_participants`). Given these, a list of calls
on different accounts succeeds, and its effect has a closed form that does not depend on the
order of the list.
-/

set_option autoImplicit false

namespace TokenPresale.Analysis

open TokenPresale.Library TokenPresale.Model TokenPresale.Interface Finset

/-! ## The participant counter -/

/-- One for an account that has bought or paid something. -/
def active (bought paid : ℕ) : ℕ := if bought = 0 ∧ paid = 0 then 0 else 1

/-- How many accounts have bought or paid something. -/
def buyers (s : State) : ℕ := s.users.total (holding active)

/-- An account counts once at most. -/
theorem active_le_one (bought paid : ℕ) : active bought paid ≤ 1 := by
  unfold active
  split_ifs <;> omega

/-- An account that has paid something counts. -/
theorem active_of_paid {bought paid : ℕ} (h : 0 < paid) : active bought paid = 1 := by
  rw [active, if_neg (by omega)]

/-- A step that refunds nothing raises the participant counter by at least the number of
accounts it makes active. -/
theorem Coherent.participants_step {s s' : State} {i : Input} {log : List LogEntry}
    (c : Coherent s) (h : Effect s i s' log)
    (hnone : receipt refundsAny (lamportsOutOf .escrowVault) ⟨s, i, log⟩ = 0) :
    buyers s' + field PresaleAccount.totalParticipants s ≤
      buyers s + field PresaleAccount.totalParticipants s' := by
  cases c.money_step h with
  | @buy cx a amount p u ok =>
    have htotal : buyers (afterBuy a amount.toNat s p u) + holding active u = buyers s +
        holding active (userAfterBuy u (fillOf p amount.toNat)) :=
      Ledger.total_insert_of_lookup _ _ ok.user
    have hpart : field PresaleAccount.totalParticipants (afterBuy a amount.toNat s p u) =
        if u.userBuyAmount = 0 then p.totalParticipants + 1 else p.totalParticipants := rfl
    have hone := active_le_one (userAfterBuy u (fillOf p amount.toNat)).userBuyAmount
      (userAfterBuy u (fillOf p amount.toNat)).userSolContributed
    rw [field_of_presale ok.presale, hpart]
    rw [holding, holding] at htotal
    by_cases hfirst : u.userBuyAmount = 0
    · rw [if_pos hfirst]
      omega
    · have hactive : active u.userBuyAmount u.userSolContributed = 1 := by
        rw [active, if_neg fun hz => hfirst hz.1]
      rw [if_neg hfirst]
      omega
  | refund ok =>
    rw [receipt_of_refund] at hnone
    exact absurd hnone ok.positive.ne'
  | quiet same =>
    have hbuyers : buyers s' = buyers s := same.total active rfl
    rw [same.participants, hbuyers]

/-- As long as no refund has paid, the participant counter covers the accounts that have bought
or paid something. -/
theorem buyers_le_participants {s₀ s : State} {h : History} (fresh : Fresh s₀)
    (run : presale.Run s₀ h s) (hnone : allRefundsPaid h = 0) :
    buyers s ≤ field PresaleAccount.totalParticipants s := by
  refine run.invariant (fun h s => allRefundsPaid h = 0 →
    buyers s ≤ field PresaleAccount.totalParticipants s) ?_ ?_ hnone
  · simp [buyers, fresh.users]
  · intro h s i s' o hrun ih hstep hnone
    simp only [allRefundsPaid, tally_append, tally_cons, tally_nil, Nat.add_zero,
      Nat.add_eq_zero_iff] at hnone ih
    have hle := ih hnone.1
    have := (coherent_of_run fresh hrun).participants_step (effect_of_step hstep) hnone.2
    omega

/-! ## A list of refunds -/

/-- A call of `refund_token`. -/
structure RefundCall where
  cx : Context
  accounts : RefundToken

namespace RefundCall

/-- The call as an input of the program. -/
def input (c : RefundCall) : Input := .instruction c.cx (.refundToken c.accounts)

/-- The call names the accounts of the presale and a user account that exists, and its
authority has signed. -/
structure WellFormed (s : State) (c : RefundCall) : Prop where
  escrowAccount : c.accounts.escrowAccount = .escrowVault
  presaleAccount : c.accounts.presaleAccount = .presaleInfo
  userAccount : c.accounts.userAccount ∈ s.users
  signed : c.cx.signed c.accounts.authority

/-- What the account of the call has contributed. -/
def owed (s : State) (c : RefundCall) : ℕ :=
  s.users.reading UserAccount.userSolContributed c.accounts.userAccount

/-- The recipient of the call and the lamports it is to receive. -/
def payment (s : State) (c : RefundCall) : Pubkey × ℕ := (c.accounts.userToRefund, c.owed s)

/-- The log of the call: one payment, or none if there is nothing to refund. -/
def log (s : State) (c : RefundCall) : List LogEntry :=
  if c.owed s = 0 then [] else [.lamports .escrowVault c.accounts.userToRefund (c.owed s)]

end RefundCall

/-- The payments that a list of calls makes. -/
def payments (s : State) (calls : List RefundCall) : List (Pubkey × ℕ) :=
  calls.map (RefundCall.payment s)

/-- What a list of calls is to pay in all. -/
def totalOwed (s : State) (calls : List RefundCall) : ℕ := (calls.map (RefundCall.owed s)).sum

/-- How many calls of a list have something to pay. -/
def paying (s : State) (calls : List RefundCall) : ℕ :=
  (calls.map fun c => if c.owed s = 0 then 0 else 1).sum

/-- The state after a list of calls. -/
def afterRefunds (s : State) (p : PresaleAccount) (calls : List RefundCall) : State :=
  { s with
    lamports := disburse s.lamports .escrowVault (payments s calls)
    presale := some { p with totalSolAmount := p.totalSolAmount - totalOwed s calls
                             totalParticipants := p.totalParticipants - paying s calls } }

/-- What a list of calls needs: the presale is cancelled, and the escrow, the counters and the
recipients' balances have room for all its payments. -/
structure Refundable (s : State) (p : PresaleAccount) (calls : List RefundCall) : Prop where
  presale : s.presale = some p
  cancelled : p.isCancelled ≠ 0
  owner : s.owner .escrowVault = .tokenPresale
  wellFormed : ∀ c ∈ calls, c.WellFormed s
  elsewhere : ∀ c ∈ calls, c.accounts.userToRefund ≠ .escrowVault
  funded : totalOwed s calls ≤ s.lamports .escrowVault
  totalSol : totalOwed s calls ≤ p.totalSolAmount
  participants : paying s calls ≤ p.totalParticipants
  fits : ∀ c ∈ calls, s.lamports c.accounts.userToRefund +
    paidTo c.accounts.userToRefund (payments s calls) < 2 ^ 64

/-- The account of a well-formed call has a record that says what it has contributed. -/
theorem RefundCall.WellFormed.record {s : State} {c : RefundCall} (wf : c.WellFormed s) :
    ∃ u, s.users.lookup c.accounts.userAccount = some u ∧ u.userSolContributed = c.owed s := by
  obtain ⟨u, hu⟩ := Finmap.mem_iff.mp wf.userAccount
  exact ⟨u, hu, (Ledger.reading_of_lookup hu).symm⟩

/-- The first call of a list that can be refunded passes its checks. -/
theorem Refundable.accepted {s : State} {p : PresaleAccount} {c : RefundCall}
    {calls : List RefundCall} (r : Refundable s p (c :: calls)) {u : UserAccount}
    (hu : s.users.lookup c.accounts.userAccount = some u) :
    RefundAccepted c.cx c.accounts s p u :=
  have wf := r.wellFormed c List.mem_cons_self
  ⟨wf.escrowAccount, wf.presaleAccount, r.presale, hu, wf.signed, r.cancelled⟩

/-- After a call with nothing to pay the rest can still be refunded. -/
theorem Refundable.tail_of_zero {s : State} {p : PresaleAccount} {c : RefundCall}
    {calls : List RefundCall} (r : Refundable s p (c :: calls)) (hzero : c.owed s = 0) :
    Refundable s p calls := by
  obtain ⟨hp, hcan, hown, hwf, hrec, hfund, hsol, hpart, hfits⟩ := r
  simp only [totalOwed, paying, payments, List.map_cons, List.sum_cons, hzero, if_true,
    Nat.zero_add, RefundCall.payment, paidTo_cons, ite_self] at hfund hsol hpart hfits
  exact ⟨hp, hcan, hown, fun d hd => hwf d (List.mem_cons_of_mem _ hd),
    fun d hd => hrec d (List.mem_cons_of_mem _ hd), hfund, hsol, hpart,
    fun d hd => hfits d (List.mem_cons_of_mem _ hd)⟩

/-- The first call of a refundable list that owes something pays it. -/
theorem Refundable.pays {s : State} {p : PresaleAccount} {c : RefundCall}
    {calls : List RefundCall} (r : Refundable s p (c :: calls)) {u : UserAccount}
    (hu : s.users.lookup c.accounts.userAccount = some u)
    (howed : u.userSolContributed = c.owed s) (hpos : 0 < c.owed s) :
    RefundPays c.cx c.accounts s p u := by
  have hne := (r.elsewhere c List.mem_cons_self).symm
  have hfunded := r.funded
  have hsol := r.totalSol
  have hpart := r.participants
  have hfits := r.fits c List.mem_cons_self
  simp only [totalOwed, paying, payments, List.map_cons, List.sum_cons, if_neg hpos.ne',
    RefundCall.payment, paidTo_cons, if_true] at hfunded hsol hpart hfits
  refine ⟨r.accepted hu, howed ▸ hpos, ?_, ?_, fun _ => r.owner, ?_, ?_⟩
  · omega
  · rw [move_dst _ hne]
    omega
  · omega
  · omega

/-- A list whose first call pays is refundable without it in the state after the payment. -/
theorem Refundable.tail_of_pays {s : State} {p : PresaleAccount} {c : RefundCall}
    {calls : List RefundCall} (r : Refundable s p (c :: calls)) {u : UserAccount}
    (howed : u.userSolContributed = c.owed s) (hpos : 0 < c.owed s) :
    Refundable (afterRefund c.accounts s p u) (presaleAfterRefund p u.userSolContributed)
      calls := by
  have hne := (r.elsewhere c List.mem_cons_self).symm
  obtain ⟨hp, hcan, hown, hwf, hrec, hfund, hsol, hpart, hfits⟩ := r
  simp only [totalOwed, paying, payments, List.map_cons, List.sum_cons, if_neg hpos.ne',
    RefundCall.payment, paidTo_cons] at hfund hsol hpart hfits
  refine ⟨rfl, hcan, hown, ?_, fun d hd => hrec d (List.mem_cons_of_mem _ hd), ?_, ?_, ?_, ?_⟩
  · intro d hd
    have wf := hwf d (List.mem_cons_of_mem _ hd)
    exact ⟨wf.escrowAccount, wf.presaleAccount, wf.userAccount, wf.signed⟩
  · show totalOwed s calls ≤ move s.lamports .escrowVault _ u.userSolContributed .escrowVault
    rw [move_src _ hne, howed, totalOwed]
    omega
  · show totalOwed s calls ≤ p.totalSolAmount - u.userSolContributed
    rw [howed, totalOwed]
    omega
  · show paying s calls ≤ p.totalParticipants - 1
    rw [paying]
    omega
  · intro d hd
    have hd' := List.mem_cons_of_mem c hd
    have hfit := hfits d hd'
    show move s.lamports .escrowVault c.accounts.userToRefund u.userSolContributed
      d.accounts.userToRefund + paidTo d.accounts.userToRefund (payments s calls) < 2 ^ 64
    rcases eq_or_ne c.accounts.userToRefund d.accounts.userToRefund with heq | hother
    · rw [if_pos heq] at hfit
      rw [← heq, move_dst _ hne, heq, howed, payments]
      omega
    · rw [if_neg hother] at hfit
      rw [move_other _ _ (hrec d hd') hother.symm, payments]
      omega

/-- No calls leave the state as it is. -/
theorem afterRefunds_nil {s : State} {p : PresaleAccount} (hp : s.presale = some p) :
    afterRefunds s p [] = s := by
  simp only [afterRefunds, payments, totalOwed, paying, List.map_nil, disburse_nil, List.sum_nil,
    Nat.sub_zero, ← hp]

/-- A call with nothing to pay adds nothing. -/
theorem afterRefunds_cons_zero {s : State} {p : PresaleAccount} {c : RefundCall}
    {calls : List RefundCall} (hzero : c.owed s = 0) :
    afterRefunds s p (c :: calls) = afterRefunds s p calls := by
  simp only [afterRefunds, payments, totalOwed, paying, List.map_cons, List.sum_cons, hzero,
    if_true, Nat.zero_add, RefundCall.payment, disburse_cons, move_zero]

/-- A call that pays is followed by the rest of the list. -/
theorem afterRefunds_cons_pays {s : State} {p : PresaleAccount} {c : RefundCall}
    {calls : List RefundCall} {u : UserAccount} (howed : u.userSolContributed = c.owed s)
    (hpos : 0 < c.owed s) :
    afterRefunds s p (c :: calls) = afterRefunds (afterRefund c.accounts s p u)
      (presaleAfterRefund p u.userSolContributed) calls := by
  simp only [afterRefunds, payments, totalOwed, paying, List.map_cons, List.sum_cons,
    if_neg hpos.ne', RefundCall.payment, disburse_cons, Nat.sub_add_eq]
  rw [← howed]
  rfl

/-- A refundable list succeeds call by call, and this is where it ends and what it logs. -/
theorem drive_refunds {s : State} {p : PresaleAccount} {calls : List RefundCall}
    (r : Refundable s p calls) :
    ∃ h, presale.drive s (calls.map RefundCall.input) = .ok (h, afterRefunds s p calls) ∧
      h.map Record.output = calls.map (RefundCall.log s) := by
  induction calls generalizing s p with
  | nil => exact ⟨[], by rw [afterRefunds_nil r.presale]; rfl, rfl⟩
  | cons c calls ih =>
    obtain ⟨u, hu, howed⟩ := (r.wellFormed c List.mem_cons_self).record
    rcases Nat.eq_zero_or_pos (c.owed s) with hzero | hpos
    · have hstep : presale.step s c.input = .ok (s, []) :=
        refundTokenHandler_eq_ok.mpr (.inl ⟨p, u, r.accepted hu, howed.trans hzero, rfl⟩)
      obtain ⟨h, hdrive, hlog⟩ := ih (r.tail_of_zero hzero)
      refine ⟨⟨s, c.input, []⟩ :: h, ?_, ?_⟩
      · rw [afterRefunds_cons_zero hzero]
        exact Machine.drive_cons hstep hdrive
      · simp only [List.map_cons, hlog, RefundCall.log, if_pos hzero]
    · have hpays := r.pays hu howed hpos
      have hstep : presale.step s c.input = .ok (afterRefund c.accounts s p u,
          [.lamports .escrowVault c.accounts.userToRefund u.userSolContributed]) :=
        refundTokenHandler_eq_ok.mpr (.inr ⟨p, u, hpays, rfl⟩)
      obtain ⟨h, hdrive, hlog⟩ := ih (r.tail_of_pays howed hpos)
      refine ⟨⟨s, c.input, [.lamports .escrowVault c.accounts.userToRefund
        u.userSolContributed]⟩ :: h, ?_, ?_⟩
      · rw [afterRefunds_cons_pays howed hpos]
        exact Machine.drive_cons hstep hdrive
      · simp only [List.map_cons, hlog, RefundCall.log, if_neg hpos.ne', howed]
        rfl

/-- The state after a list of calls does not depend on their order. -/
theorem afterRefunds_perm {s : State} {p : PresaleAccount} {calls calls' : List RefundCall}
    (hperm : calls.Perm calls') (hother : ∀ c ∈ calls, c.accounts.userToRefund ≠ .escrowVault) :
    afterRefunds s p calls = afterRefunds s p calls' := by
  have hlamports : disburse s.lamports .escrowVault (payments s calls) =
      disburse s.lamports .escrowVault (payments s calls') := by
    apply disburse_perm _ (hperm.map _)
    intro q hq
    obtain ⟨c, hc, rfl⟩ := List.mem_map.mp hq
    exact (hother c hc).symm
  have howed : totalOwed s calls = totalOwed s calls' := (hperm.map _).sum_eq
  have hpaying : paying s calls = paying s calls' := (hperm.map _).sum_eq
  rw [afterRefunds, afterRefunds, hlamports, howed, hpaying]

/-- Whether a list of calls can be refunded does not depend on their order. -/
theorem Refundable.perm {s : State} {p : PresaleAccount} {calls calls' : List RefundCall}
    (r : Refundable s p calls) (hperm : calls.Perm calls') : Refundable s p calls' := by
  have howed : totalOwed s calls' = totalOwed s calls := (hperm.symm.map _).sum_eq
  have hpaying : paying s calls' = paying s calls := (hperm.symm.map _).sum_eq
  have hpaid : ∀ k, paidTo k (payments s calls') = paidTo k (payments s calls) :=
    fun k => ((hperm.symm.map _).map _).sum_eq
  refine ⟨r.presale, r.cancelled, r.owner, fun c hc => r.wellFormed c (hperm.mem_iff.mpr hc),
    fun c hc => r.elsewhere c (hperm.mem_iff.mpr hc), howed ▸ r.funded, howed ▸ r.totalSol,
    hpaying ▸ r.participants, fun c hc => ?_⟩
  rw [hpaid]
  exact r.fits c (hperm.mem_iff.mpr hc)

/-! ## Different accounts -/

/-- The accounts of a list of calls. -/
def accountsOf (calls : List RefundCall) : Finset Pubkey :=
  (calls.map fun c => c.accounts.userAccount).toFinset

/-- Well-formed calls are on accounts that have a record. -/
theorem accountsOf_subset {s : State} {calls : List RefundCall}
    (wf : ∀ c ∈ calls, c.WellFormed s) : accountsOf calls ⊆ s.users.keys := by
  intro k hk
  obtain ⟨c, hc, rfl⟩ := List.mem_map.mp (List.mem_toFinset.mp hk)
  exact Finmap.mem_keys.mpr (wf c hc).userAccount

/-- A sum over calls on different accounts is a sum over their accounts. -/
theorem sum_calls {calls : List RefundCall}
    (distinct : (calls.map fun c => c.accounts.userAccount).Nodup) (f : Pubkey → ℕ) :
    (calls.map fun c => f c.accounts.userAccount).sum = ∑ k ∈ accountsOf calls, f k := by
  rw [accountsOf, List.sum_toFinset _ distinct, List.map_map]
  rfl

/-- What is owed to different accounts and what is owed to the others is what all accounts have
contributed. -/
theorem totalOwed_add_rest {s : State} {calls : List RefundCall}
    (wf : ∀ c ∈ calls, c.WellFormed s)
    (distinct : (calls.map fun c => c.accounts.userAccount).Nodup) :
    totalOwed s calls +
        ∑ k ∈ s.users.keys \ accountsOf calls, s.users.reading UserAccount.userSolContributed k =
      s.users.total UserAccount.userSolContributed := by
  have hsum : totalOwed s calls = _ := sum_calls distinct _
  rw [hsum, add_comm]
  exact sum_sdiff (accountsOf_subset wf)

/-- No more calls on different accounts pay than accounts have bought or paid something. -/
theorem paying_le_buyers {s : State} {calls : List RefundCall}
    (wf : ∀ c ∈ calls, c.WellFormed s)
    (distinct : (calls.map fun c => c.accounts.userAccount).Nodup) :
    paying s calls ≤ buyers s := by
  have hsum : paying s calls = _ := sum_calls distinct fun k =>
    if s.users.reading UserAccount.userSolContributed k = 0 then 0 else 1
  rw [hsum, buyers, Ledger.total]
  refine (sum_le_sum fun k _ => ?_).trans (sum_le_sum_of_subset (accountsOf_subset wf))
  cases hu : s.users.lookup k with
  | none => simp [Ledger.reading, hu]
  | some u =>
    rw [Ledger.reading_of_lookup hu, Ledger.reading_of_lookup hu]
    split_ifs with hzero
    · exact Nat.zero_le _
    · exact (active_of_paid (Nat.pos_of_ne_zero hzero)).ge

/-- In a cancelled presale that was not finalized and has refunded nothing, every list of calls
on different accounts is refundable. -/
theorem refundable_of_run {s₀ s : State} {h : History} (fresh : Fresh s₀)
    (run : presale.Run s₀ h s) {p : PresaleAccount} (hp : s.presale = some p)
    (hcan : p.isCancelled = 1) (hfin : p.isFinalized = 0) (hnone : allRefundsPaid h = 0)
    {calls : List RefundCall} (wf : ∀ c ∈ calls, c.WellFormed s)
    (distinct : (calls.map fun c => c.accounts.userAccount).Nodup)
    (hother : ∀ c ∈ calls, c.accounts.userToRefund ≠ .escrowVault)
    (fits : ∀ c ∈ calls, s.lamports c.accounts.userToRefund +
      paidTo c.accounts.userToRefund (payments s calls) < 2 ^ 64) : Refundable s p calls := by
  have htotal := total_add_refunds fresh run
  have hrest := totalOwed_add_rest wf distinct
  have custody := (custody_of_run fresh run).2 p hp hfin
  have hpart := (paying_le_buyers wf distinct).trans (buyers_le_participants fresh run hnone)
  have hcovered := custody.covered
  rw [field_of_presale hp] at htotal hpart
  exact ⟨hp, by omega, custody.owner, wf, hother, by omega, by omega, hpart, fits⟩

/-- The refund phase completes in any order: in every reachable state that is cancelled, not
finalized and without a paid refund, any list of refund calls on different accounts to
recipients other than the escrow succeeds; each call pays its recipient what its account has
contributed; afterwards the total is what the other accounts have contributed; and every order
of the list ends in the same state.
SRC: refund_token.rs:29-48 -/
theorem refund_phase_completes (e : Execution) (p : PresaleAccount)
    (hp : e.final.presale = some p) (hcan : p.isCancelled = 1) (hfin : p.isFinalized = 0)
    (hnone : allRefundsPaid e.history = 0) (calls : List RefundCall)
    (wf : ∀ c ∈ calls, c.WellFormed e.final)
    (distinct : (calls.map fun c => c.accounts.userAccount).Nodup)
    (hother : ∀ c ∈ calls, c.accounts.userToRefund ≠ .escrowVault)
    (fits : ∀ c ∈ calls, e.final.lamports c.accounts.userToRefund +
      paidTo c.accounts.userToRefund (payments e.final calls) < 2 ^ 64) :
    ∃ h s' p', presale.drive e.final (calls.map RefundCall.input) = .ok (h, s') ∧
      h.map Record.output = calls.map (RefundCall.log e.final) ∧
      (∀ k, k ≠ .escrowVault →
        s'.lamports k = e.final.lamports k + paidTo k (payments e.final calls)) ∧
      s'.presale = some p' ∧
      p'.totalSolAmount = ∑ k ∈ e.final.users.keys \ accountsOf calls,
        e.final.users.reading UserAccount.userSolContributed k ∧
      ∀ calls', calls.Perm calls' →
        ∃ h', presale.drive e.final (calls'.map RefundCall.input) = .ok (h', s') := by
  have r := refundable_of_run e.fresh e.run hp hcan hfin hnone wf distinct hother fits
  obtain ⟨h, hdrive, hlog⟩ := drive_refunds r
  refine ⟨h, afterRefunds e.final p calls, _, hdrive, hlog, ?_, rfl, ?_, ?_⟩
  · intro k hk
    exact disburse_of_ne _ _ hk
  · have htotal := total_add_refunds e.fresh e.run
    have hrest := totalOwed_add_rest wf distinct
    rw [field_of_presale hp] at htotal
    show p.totalSolAmount - totalOwed e.final calls = _
    omega
  · intro calls' hperm
    obtain ⟨h', hdrive', -⟩ := drive_refunds (r.perm hperm)
    rw [afterRefunds_perm hperm hother]
    exact ⟨h', hdrive'⟩

/-- The small sale, cancelled. -/
def cancelledSale : Execution := Sample.play (Sample.opening ++ [Sample.cancel])

/-- Alice and Bob get their lamports back. -/
def bothRefunds : List RefundCall :=
  [⟨Sample.context 1 1004, Sample.refundAccounts 1 (.key 1)⟩,
   ⟨Sample.context 2 1004, Sample.refundAccounts 2 (.key 2)⟩]

/-- After both refunds of the small sale Alice and Bob hold what they held before it. -/
theorem refund_phase_small_sale :
    ∃ h s', presale.drive cancelledSale.final (bothRefunds.map RefundCall.input) =
        .ok (h, s') ∧ s'.lamports (.key 1) = 10 ^ 12 ∧ s'.lamports (.key 2) = 10 ^ 12 := by
  have hstate : cancelledSale.final.presale.map (fun p => (p.isCancelled, p.isFinalized)) =
      some (1, 0) := by decide +kernel
  obtain ⟨p, hp, hfields⟩ := Option.map_eq_some_iff.mp hstate
  obtain ⟨hcan, hfin⟩ := Prod.mk.inj hfields
  have haccounts : ∀ c ∈ bothRefunds, c.accounts.escrowAccount = .escrowVault ∧
      c.accounts.presaleAccount = .presaleInfo ∧
        c.accounts.userAccount ∈ cancelledSale.final.users ∧ c.cx.signed c.accounts.authority := by
    decide +kernel
  have hpaid : cancelledSale.final.lamports (.key 1) +
        paidTo (.key 1) (payments cancelledSale.final bothRefunds) = 10 ^ 12 ∧
      cancelledSale.final.lamports (.key 2) +
        paidTo (.key 2) (payments cancelledSale.final bothRefunds) = 10 ^ 12 := by
    decide +kernel
  obtain ⟨h, s', -, hdrive, -, hlamports, -⟩ := refund_phase_completes cancelledSale p hp hcan hfin
    (by decide +kernel) bothRefunds
    (fun c hc => ⟨(haccounts c hc).1, (haccounts c hc).2.1, (haccounts c hc).2.2.1,
      (haccounts c hc).2.2.2⟩)
    (by decide) (by decide) (by decide +kernel)
  exact ⟨h, s', hdrive, (hlamports (.key 1) nofun).trans hpaid.1,
    (hlamports (.key 2) nofun).trans hpaid.2⟩

end TokenPresale.Analysis
