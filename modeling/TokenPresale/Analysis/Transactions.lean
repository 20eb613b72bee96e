import TokenPresale.Analysis.Custody
import TokenPresale.Analysis.Shares
import TokenPresale.Model.Chain

/-!
# What holds from transaction to transaction

A chain of transactions is a run of the program, so whatever holds of every run holds of every
chain. More holds between transactions than between calls: there an account without lamports is
no longer the program's. So the escrow, once a transaction has emptied it, is closed for good:
nothing takes lamports out of it again, and what reaches it later stays there. One transaction
settles the whole sale and closes the escrow so, when `finalize` and `withdraw` come together.
-/

set_option autoImplicit false

namespace TokenPresale.Analysis

open TokenPresale.Library TokenPresale.Model TokenPresale.Interface

/-! ## Chains are runs -/

/-- A chain of transactions is a run of the program: its calls are those of the transactions that
succeeded, in order, each transaction followed by its end; it has their logs and ends in the same
state. A transaction with a call that fails leaves nothing. -/
theorem run_of_chain {genesis s : State} {h : ChainHistory} (run : chain.Run genesis h s) :
    ∃ g : History, presale.Run genesis g s ∧
      g.map Record.input = h.flatMap (fun r => r.input.inputs) ∧
      g.map Record.output = h.flatMap Record.output :=
  Machine.run_of_batch run

/-- The second transaction fails at its second call, so its first call leaves nothing either. -/
example : (chain.exec Sample.genesis [Sample.alone Sample.launch,
    .transaction ⟨Sample.context 0 1001,
      [.addWhitelist ⟨.presaleInfo, .userRole (.key 1), .key 1, .adminRole (.key 0), .key 0⟩,
       .withdraw Sample.withdrawAccounts]⟩]).2.users.lookup (.userRole (.key 1)) = none := by
  decide +kernel

/-! ## Between transactions -/

/-- Of the accounts the program derives, one without lamports belongs to the system program. -/
def Swept (s : State) : Prop :=
  ∀ k, k.isPda = true → s.lamports k = 0 → s.owner k = .system

/-- The end of a transaction hands every empty account back. -/
theorem swept_of_sweep (s : State) : Swept (sweep s) := by
  intro k _ hzero
  exact if_pos hzero

/-- A move outside the program empties no derived account. -/
theorem Swept.outside {s s' : State} {o : Outside} (swept : Swept s)
    (h : runOutside s o = .ok s') : Swept s' := by
  intro k hk hzero
  have frame := runOutside_frame h
  rw [frame.owner]
  exact swept k hk (Nat.le_zero.mp (hzero ▸ frame.lamports k hk))

/-- A transaction ends in such a state, and a move outside keeps it. -/
theorem swept_step {s s' : State} {i : ChainInput} {o : List (List LogEntry)} (swept : Swept s)
    (hstep : chain.step s i = .ok (s', o)) : Swept s' := by
  obtain ⟨h, hd, -⟩ := Machine.batch_step_eq_ok.mp hstep
  cases i with
  | transaction t =>
    obtain ⟨h₁, m, h₂, -, hlast, -⟩ := Machine.drive_append_eq_ok.mp hd
    obtain ⟨m', o', h', hend, hrest, -⟩ := Machine.drive_cons_eq_ok.mp hlast
    obtain ⟨rfl, -⟩ := Prod.mk.inj (Except.ok.inj hend)
    obtain ⟨-, rfl⟩ : [] = h' ∧ sweep m = s' := by simpa [Machine.drive] using hrest
    exact swept_of_sweep m
  | outside o =>
    obtain ⟨m', o', h', hmove, hrest, -⟩ := Machine.drive_cons_eq_ok.mp hd
    obtain ⟨-, rfl⟩ : [] = h' ∧ m' = s' := by simpa [Machine.drive] using hrest
    cases effect_of_step hmove with
    | outside ok => exact swept.outside ok

/-- It is so after every transaction. -/
theorem swept_of_chain {genesis s : State} {h : ChainHistory} (fresh : Fresh genesis)
    (run : chain.Run genesis h s) : Swept s := by
  refine run.invariant (fun _ s => Swept s) (fun k hk _ => fresh.owner k hk) ?_
  intro _ _ _ _ _ _ ih hstep
  exact swept_step ih hstep

/-! ## The escrow, once emptied -/

/-- The presale is launched, and its escrow is not the program's any more. -/
structure EscrowGone (s : State) : Prop where
  launched : s.presale ≠ none
  owner : s.owner .escrowVault = .system

/-- No step brings it back or takes lamports out of it. -/
theorem EscrowGone.step {s s' : State} {i : Input} {log : List LogEntry} (gone : EscrowGone s)
    (c : Coherent s) (h : Effect s i s' log) :
    EscrowGone s' ∧ s.lamports .escrowVault ≤ s'.lamports .escrowVault := by
  have hlaunched : s'.presale ≠ none := fun hnone => gone.launched (c.none_of_step h hnone)
  have notOwned : s.owner .escrowVault ≠ .tokenPresale := by simp [gone.owner]
  cases h with
  | initializePresale ok => exact absurd (c.not_launched ok) gone.launched
  | buy ok =>
    refine ⟨⟨hlaunched, gone.owner⟩, ?_⟩
    exact le_move s.lamports .escrowVault _ ok.authority_ne_escrow.symm
  | refund ok =>
    -- a refund that pays another account would have to own the escrow
    have hself := not_imp_comm.mp ok.owned notOwned
    refine ⟨⟨hlaunched, gone.owner⟩, ?_⟩
    simp only [afterRefund, hself, move_self ok.funded, le_refl]
  | @add cx a p ok =>
    refine ⟨⟨hlaunched, ?_⟩, ?_⟩
    · simp only [afterAdd, ne_eq, reduceCtorEq, not_false_eq_true, Function.update_of_ne,
        gone.owner]
    · have hne := (ne_escrow_of_signed ok.signed).symm
      exact le_move s.lamports (.userRole a.authority) (whitelistFunding cx a s) hne
  | finalizePays ok =>
    exact ⟨⟨hlaunched, gone.owner⟩, Nat.not_lt.mp fun hless => notOwned (ok.owned hless)⟩
  | withdraw ok =>
    have hzero : s.lamports .escrowVault = 0 :=
      Nat.eq_zero_of_not_pos fun hpos => notOwned (ok.owned hpos)
    rw [hzero]
    exact ⟨⟨hlaunched, gone.owner⟩, Nat.zero_le _⟩
  | outside ok =>
    have frame := runOutside_frame ok
    exact ⟨⟨hlaunched, frame.owner ▸ gone.owner⟩, frame.lamports _ rfl⟩
  | endTransaction =>
    refine ⟨⟨hlaunched, ?_⟩, le_rfl⟩
    simp only [sweep, gone.owner, ite_self]
  | _ => exact ⟨⟨hlaunched, gone.owner⟩, le_rfl⟩

/-- An escrow that is gone stays gone in every further run and never pays. -/
theorem EscrowGone.run {s₀ s s' : State} {h h' : History} (fresh : Fresh s₀)
    (run : presale.Run s₀ h s) (run' : presale.Run s h' s') (gone : EscrowGone s) :
    EscrowGone s' ∧ s.lamports .escrowVault ≤ s'.lamports .escrowVault := by
  refine (run'.invariant (fun h' s' => presale.Run s h' s' ∧ EscrowGone s' ∧
    s.lamports .escrowVault ≤ s'.lamports .escrowVault) ?_ ?_).2
  · exact ⟨.start, gone, le_rfl⟩
  · rintro h₁ t i t' o run₁ ⟨-, hgone, hle⟩ hstep
    have c := coherent_of_run fresh (run.append run₁)
    obtain ⟨hnext, hle'⟩ := hgone.step c (effect_of_step hstep)
    exact ⟨run₁.next hstep, hnext, hle.trans hle'⟩

/-- Once a transaction has emptied the escrow of a launched presale, nothing takes lamports out of
it again: over every later chain of transactions its balance never falls, whoever signs, so what
orders and donations pay into it from then on is neither refunded nor withdrawn.
SRC: refund_token.rs:29-48, finalize.rs:45-57, withdraw.rs:27-38 -/
theorem emptied_escrow_closed (genesis : State) (fresh : Fresh genesis) (h : ChainHistory)
    (s : State) (run : chain.Run genesis h s) (launched : s.presale ≠ none)
    (emptied : s.lamports .escrowVault = 0) (h' h'' : ChainHistory) (s' s'' : State)
    (run' : chain.Run s h' s') (run'' : chain.Run s' h'' s'') :
    s'.lamports .escrowVault ≤ s''.lamports .escrowVault := by
  obtain ⟨g, first, -⟩ := run_of_chain run
  obtain ⟨g', second, -⟩ := run_of_chain run'
  obtain ⟨g'', third, -⟩ := run_of_chain run''
  have gone : EscrowGone s := ⟨launched, swept_of_chain fresh run _ rfl emptied⟩
  have later := (gone.run fresh first second).1
  exact (later.run fresh (first.append second) third).2

/-- The lamports of an order after the settlement of the large sale are lost to everyone. -/
theorem emptied_escrow_large_sale :
    1000000 ≤ (chain.exec (chain.exec (chain.exec Sample.genesis
        ((Sample.largeSale.map Sample.alone) ++ [Sample.settle])).2
          [Sample.alone (Sample.buy 1 1000000)]).2
        ([Sample.withdraw, Sample.cancel, Sample.refund 1 (.key 1)].map Sample.alone)).2.lamports
          .escrowVault := by
  have hstate : (chain.exec Sample.genesis
      ((Sample.largeSale.map Sample.alone) ++ [Sample.settle])).2.presale ≠ none ∧
    (chain.exec Sample.genesis
      ((Sample.largeSale.map Sample.alone) ++ [Sample.settle])).2.lamports .escrowVault = 0 := by
    decide +kernel
  have hpaid : (chain.exec (chain.exec Sample.genesis
      ((Sample.largeSale.map Sample.alone) ++ [Sample.settle])).2
        [Sample.alone (Sample.buy 1 1000000)]).2.lamports .escrowVault = 1000000 := by
    decide +kernel
  have hkept := emptied_escrow_closed Sample.genesis Sample.fresh _ _
    (Machine.run_exec chain _ _) hstate.1 hstate.2 _ _ _ _
    (Machine.run_exec chain _ [Sample.alone (Sample.buy 1 1000000)])
    (Machine.run_exec chain _
      ([Sample.withdraw, Sample.cancel, Sample.refund 1 (.key 1)].map Sample.alone))
  rwa [hpaid] at hkept

/-! ## The settlement -/

/-- The transaction that settles the sale: the team's share, then the rest for the admin. -/
def settlement (cx : Context) (a : Finalize) (f : UInt8) (w : Withdraw) : ChainInput :=
  .transaction ⟨cx, [.finalize a f, .withdraw w]⟩

/-- What the settlement of the sale `p` pays to the account `k`. -/
def settlementPay (a : Finalize) (w : Withdraw) (s : State) (p : PresaleAccount) (k : Pubkey) : ℕ :=
  (if k = a.teamAccount then teamShare p else 0) +
    if k = w.admin then s.lamports .escrowVault - teamShare p else 0

section Settlement

variable {cx : Context} {a : Finalize} {f : UInt8} {w : Withdraw} {s s' : State}
  {p : PresaleAccount}

/-- A sale that a `finalize` call cancels is not withdrawn from in the same transaction. -/
theorem settlement_eq_ok (hp : s.presale = some p) (hcan : p.isCancelled = 0) :
    (∃ o, chain.step s (settlement cx a f w) = .ok (s', o)) ↔
      FinalizePays cx a f s p ∧
        WithdrawAccepted cx w (afterFinalize a s p) { p with isFinalized := 1 } ∧
          sweep (afterWithdraw w (afterFinalize a s p)) = s' := by
  constructor
  · rintro ⟨o, hstep⟩
    obtain ⟨h, hd, -⟩ := Machine.batch_step_eq_ok.mp hstep
    obtain ⟨s₁, o₁, h₁, hfinalize, hd₁, -⟩ := Machine.drive_cons_eq_ok.mp hd
    obtain ⟨s₂, o₂, h₂, hwithdraw, hd₂, -⟩ := Machine.drive_cons_eq_ok.mp hd₁
    obtain ⟨s₃, o₃, h₃, hend, hd₃, -⟩ := Machine.drive_cons_eq_ok.mp hd₂
    obtain ⟨rfl, -⟩ := Prod.mk.inj (Except.ok.inj hend)
    obtain ⟨-, rfl⟩ : [] = h₃ ∧ sweep s₂ = s' := by simpa [Machine.drive] using hd₃
    cases effect_of_step hfinalize with
    | @finalizePays _ _ _ q ok =>
      obtain rfl := Option.mem_unique hp ok.presale
      cases effect_of_step hwithdraw with
      | @withdraw _ _ q' ok' =>
        obtain rfl := Option.some_injective _ ok'.presale
        exact ⟨ok, ok', rfl⟩
    | @finalizeCancelled _ _ _ q ok hclosed =>
      obtain rfl := Option.mem_unique hp ok.presale
      cases effect_of_step hwithdraw with
      | @withdraw _ _ q' ok' =>
        obtain rfl := Option.some_injective _ ok'.presale
        have hopen := ok'.notCancelled
        unfold closed at hclosed hopen
        split_ifs at hclosed hopen
        · exact absurd rfl hopen
        · exact absurd hcan hclosed
  · rintro ⟨pays, accepted, rfl⟩
    have hfinalize := finalizeHandler_eq_ok.mpr (.inl ⟨p, pays, rfl⟩)
    have hwithdraw := withdrawHandler_eq_ok.mpr ⟨_, accepted, rfl⟩
    have hd : presale.drive s (settlement cx a f w).inputs = .ok _ :=
      Machine.drive_cons hfinalize (Machine.drive_cons hwithdraw (Machine.drive_cons rfl rfl))
    exact ⟨_, Machine.batch_step_eq_ok.mpr ⟨_, hd, rfl⟩⟩

/-- `finalize` leaves a sale open that is forced or has reached a cap. -/
theorem closed_open_iff (hcan : p.isCancelled = 0) :
    (closed f p).isCancelled = 0 ↔ (f = 0 → p.isSoftcapped ≠ 0 ∨ p.isHardcapped ≠ 0) := by
  unfold closed
  split_ifs with hc
  · simp [hc]
  · rw [not_and, not_and_or] at hc
    exact iff_of_true hcan hc

/-- A payment of the team raises its account by the share and no other but the escrow's. -/
theorem afterFinalize_lamports {k : Pubkey} (hteam : a.teamAccount ≠ .escrowVault)
    (hk : k ≠ .escrowVault) :
    (afterFinalize a s p).lamports k =
      s.lamports k + if k = a.teamAccount then teamShare p else 0 := by
  split_ifs with heq
  · rw [heq]
    exact move_dst _ hteam.symm
  · exact move_other _ _ hk heq

/-- After the settlement everyone but the escrow has their pay. -/
theorem settled_lamports {k : Pubkey} (hteam : a.teamAccount ≠ .escrowVault)
    (hadmin : w.admin ≠ .escrowVault) (hk : k ≠ .escrowVault) :
    (afterWithdraw w (afterFinalize a s p)).lamports k =
      s.lamports k + settlementPay a w s p k := by
  have hrest : (afterFinalize a s p).lamports .escrowVault =
      s.lamports .escrowVault - teamShare p := move_src _ hteam.symm
  rw [settlementPay, ← Nat.add_assoc, ← afterFinalize_lamports hteam hk, ← hrest]
  split_ifs with heq
  · rw [heq]
    exact move_dst _ hadmin.symm
  · exact move_other _ _ hk heq

/-- Both transfers of the settlement stay in range exactly when everyone has room for their pay. -/
theorem settlement_credit_iff (hteam : a.teamAccount ≠ .escrowVault)
    (hadmin : w.admin ≠ .escrowVault) :
    (afterFinalize a s p).lamports a.teamAccount < 2 ^ 64 ∧
      (afterFinalize a s p).lamports w.admin + (afterFinalize a s p).lamports .escrowVault <
        2 ^ 64 ↔
    ∀ k, k = a.teamAccount ∨ k = w.admin → s.lamports k + settlementPay a w s p k < 2 ^ 64 := by
  have hrest : (afterFinalize a s p).lamports w.admin +
      (afterFinalize a s p).lamports .escrowVault =
        s.lamports w.admin + settlementPay a w s p w.admin := by
    rw [← settled_lamports hteam hadmin hadmin]
    exact (move_dst _ hadmin.symm).symm
  rw [hrest, afterFinalize_lamports hteam hteam, if_pos rfl]
  constructor
  · rintro ⟨hshare, hrest⟩ k (rfl | rfl)
    · rcases eq_or_ne a.teamAccount w.admin with heq | hne
      · rw [heq]
        exact hrest
      · rw [settlementPay, if_pos rfl, if_neg hne]
        exact hshare
    · exact hrest
  · intro hroom
    refine ⟨?_, hroom _ (.inr rfl)⟩
    have hpay := hroom _ (.inl rfl)
    rw [settlementPay, if_pos rfl] at hpay
    omega

end Settlement

/-- Settling takes one transaction: on a reachable presale that is neither finalized nor cancelled,
`finalize` and then `withdraw`, both called by the super admin and with a team account that is not
the escrow, succeed together exactly when the call is not early, the sale is not one that
`finalize` cancels, and the products and balances fit in 64 bits. Then the escrow is empty and
closed, the team has its share, the admin the rest, and no other account's lamports change. What
the runtime asks of rent at the end of a transaction is left aside (`Model.Chain`).
SRC: finalize.rs:30-65, withdraw.rs:25-38 -/
theorem settlement_completes (e : Execution) (p : PresaleAccount)
    (hp : e.final.presale = some p) (hfin : p.isFinalized = 0) (hcan : p.isCancelled = 0)
    (hpercent : p.teamPercent ≤ 10000) (cx : Context) (a : Finalize) (f : UInt8) (w : Withdraw)
    (call : AdminCall cx a.presaleAccount a.adminAccount a.admin e.final p)
    (call' : AdminCall cx w.presaleAccount w.adminAccount w.admin e.final p)
    (hesc : a.escrowAccount = .escrowVault) (hesc' : w.escrowAccount = .escrowVault)
    (hteam : a.teamAccount ≠ .escrowVault) :
    ((∃ s' o, chain.step e.final (settlement cx a f w) = .ok (s', o)) ↔
      (f = 0 → (p.endTime ≤ cx.now ∨ p.isHardcapped ≠ 0) ∧
        (p.isSoftcapped ≠ 0 ∨ p.isHardcapped ≠ 0)) ∧
      p.teamPercent * p.totalSolAmount < 2 ^ 64 ∧
      ∀ k, k = a.teamAccount ∨ k = w.admin →
        e.final.lamports k + settlementPay a w e.final p k < 2 ^ 64) ∧
    ∀ s' o, chain.step e.final (settlement cx a f w) = .ok (s', o) →
      s'.presale = some { p with isFinalized := 1 } ∧ s'.lamports .escrowVault = 0 ∧
      s'.owner .escrowVault = .system ∧
      ∀ k, k ≠ .escrowVault →
        s'.lamports k = e.final.lamports k + settlementPay a w e.final p k := by
  have hadmin : w.admin ≠ .escrowVault := ne_escrow_of_signed call'.signed
  have custody := (custody_of_run e.fresh e.run).2 p hp hfin
  have hfunded : teamShare p ≤ e.final.lamports .escrowVault := by
    have hshare := teamShare_le hpercent
    have hcovered := custody.covered
    omega
  constructor
  · rw [← settlement_credit_iff hteam hadmin]
    constructor
    · rintro ⟨s', hok⟩
      obtain ⟨pays, accepted, -⟩ := (settlement_eq_ok hp hcan).mp hok
      refine ⟨?_, pays.product, pays.credit, accepted.credit⟩
      intro hf
      refine ⟨?_, (closed_open_iff hcan).mp pays.notCancelled hf⟩
      have hnot := pays.notEarly
      rw [not_and, not_and_or, Nat.not_lt] at hnot
      exact hnot hf
    · rintro ⟨hready, hproduct, hshare, hrest⟩
      have pays : FinalizePays cx a f e.final p := by
        refine ⟨⟨call, hesc, ?_⟩, (closed_open_iff hcan).mpr fun hf => (hready hf).2, hproduct,
          hfunded, hshare, fun _ => custody.owner⟩
        rintro ⟨hf, hearly, hhard⟩
        exact (hready hf).1.elim (Nat.not_le.mpr hearly) (absurd hhard)
      have accepted : WithdrawAccepted cx w (afterFinalize a e.final p)
          { p with isFinalized := 1 } := by
        refine ⟨⟨call'.presaleAccount, rfl, call'.record, call'.signed⟩, hesc', one_ne_zero, ?_,
          hrest, fun _ => custody.owner⟩
        simp [hcan]
      exact ⟨_, (settlement_eq_ok hp hcan).mpr ⟨pays, accepted, rfl⟩⟩
  · intro s' o hok
    obtain ⟨pays, accepted, rfl⟩ := (settlement_eq_ok hp hcan).mp ⟨o, hok⟩
    have hempty : (afterWithdraw w (afterFinalize a e.final p)).lamports .escrowVault = 0 := by
      simp only [afterWithdraw, move_src _ hadmin.symm, Nat.sub_self]
    refine ⟨rfl, hempty, if_pos hempty, ?_⟩
    intro k hk
    exact settled_lamports hteam hadmin hk

/-- The small sale is sold out: the team gets 3 of its 33 lamports and the escrow is closed. -/
theorem settlement_completes_small_sale :
    ∃ s' o, chain.step (Sample.play Sample.opening).final (settlement (Sample.context 0 1101)
        Sample.finalizeAccounts 0 Sample.withdrawAccounts) = .ok (s', o) ∧
      s'.lamports (.key 9) = (Sample.play Sample.opening).final.lamports (.key 9) + 3 ∧
      s'.lamports .escrowVault = 0 ∧ s'.owner .escrowVault = .system := by
  have hstate : (Sample.play Sample.opening).final.presale.map (fun p => (p.isFinalized,
      p.isCancelled, p.teamPercent, p.totalSolAmount, p.isHardcapped)) =
        some (0, 0, 1000, 33, 1) := by decide +kernel
  obtain ⟨p, hp, hfields⟩ := Option.map_eq_some_iff.mp hstate
  simp only [Prod.mk.injEq] at hfields
  obtain ⟨hfin, hcan, hpercent, htotal, hhard⟩ := hfields
  have hhard' : p.isHardcapped ≠ 0 := by omega
  have hshare : teamShare p = 3 := by rw [teamShare, hpercent, htotal]
  have hadmin := sample_admin_call hp (by decide +kernel) 1101
  have settles := settlement_completes _ p hp hfin hcan (by omega) (Sample.context 0 1101)
    Sample.finalizeAccounts 0 Sample.withdrawAccounts hadmin hadmin rfl rfl (by decide)
  have hlamports : (Sample.play Sample.opening).final.lamports (.key 9) + 3 < 2 ^ 64 ∧
      (Sample.play Sample.opening).final.lamports (.key 0) +
        ((Sample.play Sample.opening).final.lamports .escrowVault - 3) < 2 ^ 64 := by decide +kernel
  have hteam : settlementPay Sample.finalizeAccounts Sample.withdrawAccounts
      (Sample.play Sample.opening).final p (.key 9) = 3 := by
    rw [settlementPay, hshare, if_pos (by decide), if_neg (by decide)]
  obtain ⟨s', o, hok⟩ := settles.1.mpr ⟨fun _ => ⟨.inr hhard', .inr hhard'⟩, by
    rw [hpercent, htotal]; decide, by
    rintro k (rfl | rfl)
    · exact hteam ▸ hlamports.1
    · rw [settlementPay, hshare, if_neg (by decide), if_pos rfl, Nat.zero_add]
      exact hlamports.2⟩
  obtain ⟨-, hempty, howner, hpaid⟩ := settles.2 s' o hok
  exact ⟨s', o, hok, by rw [hpaid _ (by decide), hteam], hempty, howner⟩

end TokenPresale.Analysis
