import TokenPresale.Analysis.Custody
import TokenPresale.Analysis.Payouts

/-!
# Percentages, and the first settlement

Three amounts of the presale are percentages, written in hundredths of a percent: the soft cap
and the supply, which `initialize` computes, and the share of the team, which `finalize` pays.
Each is the floor of a product over 10000, and each is computed exactly or not at all: the
product has to fit in 64 bits. When the share can be computed, the first `finalize` call on a
presale that is not cancelled can pay it, since the escrow still covers all that was raised.
-/

set_option autoImplicit false

namespace TokenPresale.Analysis

open TokenPresale.Library TokenPresale.Model TokenPresale.Interface

/-! ## Computing the shares -/

/-- The accounts of an `initialize` call are those of a program that has none yet, and its payer
can fund them; nothing is said of the parameters.
SRC: initialize.rs:6-55 -/
structure LaunchReady (cx : Context) (a : Initialize) (s : State) : Prop where
  mint : s.mints a.tokenMint = true
  signed : cx.signed a.admin
  tokenVault : a.tokenVault = .tokenVault a.tokenMint
  adminAccount : a.adminAccount = .adminRole a.admin
  escrowAccount : a.escrowAccount = .escrowVault
  presaleAccount : a.presaleAccount = .presaleInfo
  vaultUnused : s.owner (.tokenVault a.tokenMint) = .system
  adminUnused : s.owner (.adminRole a.admin) = .system
  escrowUnused : s.owner .escrowVault = .system
  presaleUnused : s.owner .presaleInfo = .system
  payer : ((initFunding cx a s).map Prod.snd).sum ≤ s.lamports a.admin
  credit : ∀ q ∈ initFunding cx a s, s.lamports q.1 + q.2 < 2 ^ 64

/-- A launch that is ready is accepted as soon as its record can be made. -/
theorem LaunchReady.accepted {cx : Context} {a : Initialize} {args : InitializeArgs} {s : State}
    {p : PresaleAccount} (ready : LaunchReady cx a s) (hrecord : initialPresale cx args = .ok p) :
    InitializeAccepted cx a args s p :=
  ⟨ready.mint, ready.signed, ready.tokenVault, ready.adminAccount, ready.escrowAccount,
    ready.presaleAccount, ready.vaultUnused, ready.adminUnused, ready.escrowUnused,
    ready.presaleUnused, ready.payer, ready.credit, hrecord⟩

/-- The presale record holds the two shares of `initialize`, rounded down. -/
structure SharesExact (args : InitializeArgs) (p : PresaleAccount) : Prop where
  softCap : p.softCap = args.totalTokenAmount.toNat * args.softcapPrecent.toNat / 10000
  supply :
    p.totalPresaleToken = args.totalTokenAmount.toNat * args.tokenAllocation.toNat / 10000
  pool : p.totalTokenRemained = args.totalTokenAmount.toNat * args.tokenAllocation.toNat / 10000

/-- `initialize` completes with the exact shares exactly when both products fit. -/
theorem initialize_shares_iff {cx : Context} {a : Initialize} {args : InitializeArgs} {s : State}
    (ready : LaunchReady cx a s) (hend : cx.now + args.presaleDuration.toNat < 2 ^ 64) :
    (∃ s' log p, initializeHandler cx a args s = .ok (s', log) ∧ s'.presale = some p ∧
      SharesExact args p) ↔
        args.totalTokenAmount.toNat * args.softcapPrecent.toNat < 2 ^ 64 ∧
          args.totalTokenAmount.toNat * args.tokenAllocation.toNat < 2 ^ 64 := by
  constructor
  · rintro ⟨s', log, p, h, -, -⟩
    obtain ⟨q, ok, -⟩ := initializeHandler_eq_ok.mp h
    obtain ⟨-, hsoft, hsupply, -⟩ := initialPresale_eq_ok.mp ok.record
    exact ⟨hsoft, hsupply⟩
  · rintro ⟨hsoft, hsupply⟩
    have hrecord := initialPresale_eq_ok.mpr ⟨hend, hsoft, hsupply, rfl⟩
    have hok := initializeHandler_eq_ok.mpr ⟨_, ready.accepted hrecord, rfl⟩
    exact ⟨_, _, _, hok, rfl, rfl, rfl, rfl⟩

/-- A `finalize` call that is to pay computes the team's share exactly when its product fits. -/
theorem finalize_share_iff {cx : Context} {a : Finalize} {f : UInt8} {s : State}
    {p : PresaleAccount} (ok : FinalizeAccepted cx a f s p)
    (hopen : (closed f p).isCancelled = 0) :
    (finalizeHandler cx a f s ≠ .error (.panic .teamAmount) ∧
      ∀ out, finalizeHandler cx a f s = .ok out →
        (afterFinalize a s p, finalizeLog cx a p) = out) ↔
          p.teamPercent * p.totalSolAmount < 2 ^ 64 := by
  have hpanic : finalizeHandler cx a f s = .error (.panic .teamAmount) ↔
      2 ^ 64 ≤ p.teamPercent * p.totalSolAmount := by
    rw [finalizeHandler_eq_error ok.toAdminCall ok.escrowAccount]
    simp only [moveLamports_eq_error, hopen, ok.notEarly, not_false_eq_true, true_and, reduceCtorEq,
      and_false, false_or, or_false, and_true, ProgramError.panic.injEq]
  rw [ne_eq, hpanic, Nat.not_le]
  constructor
  · exact fun h => h.1
  · intro hproduct
    refine ⟨hproduct, ?_⟩
    intro out hout
    rcases finalizeHandler_eq_ok.mp hout with ⟨q, pays, heq⟩ | ⟨q, ok', hcancelled, -⟩
    · obtain rfl := Option.mem_unique ok.presale pays.presale
      exact heq
    · obtain rfl := Option.mem_unique ok.presale ok'.presale
      exact absurd hopen hcancelled

/-- The percentages are computed exactly or not at all, in every state and at every time. An
`initialize` call on a fresh program completes and stores both its shares exactly when both products
fit in 64 bits; a `finalize` call that is to pay computes the share of the team without aborting
exactly when its product fits.
SRC: initialize.rs:69-86, finalize.rs:45-52 -/
theorem shares_exact_iff (cx : Context) (s : State) :
    (∀ a args, LaunchReady cx a s → cx.now + args.presaleDuration.toNat < 2 ^ 64 →
      ((∃ s' log p, initializeHandler cx a args s = .ok (s', log) ∧ s'.presale = some p ∧
        SharesExact args p) ↔
          args.totalTokenAmount.toNat * args.softcapPrecent.toNat < 2 ^ 64 ∧
            args.totalTokenAmount.toNat * args.tokenAllocation.toNat < 2 ^ 64)) ∧
    ∀ a f p, FinalizeAccepted cx a f s p → (closed f p).isCancelled = 0 →
      ((finalizeHandler cx a f s ≠ .error (.panic .teamAmount) ∧
        ∀ out, finalizeHandler cx a f s = .ok out →
          (afterFinalize a s p, finalizeLog cx a p) = out) ↔
            p.teamPercent * p.totalSolAmount < 2 ^ 64) :=
  ⟨fun _ _ => initialize_shares_iff, fun _ _ _ => finalize_share_iff⟩

/-- The accounts of the launch of a small sale. -/
def launchAccounts : Initialize :=
  ⟨Sample.mint, .tokenVault Sample.mint, .adminRole (.key 0), .escrowVault, .presaleInfo, .key 0⟩

/-- The launch of the small sale is ready. -/
theorem sample_launchReady : LaunchReady (Sample.context 0 1000) launchAccounts Sample.genesis :=
  ⟨rfl, ⟨List.mem_singleton_self _, rfl⟩, rfl, rfl, rfl, rfl, rfl, rfl, rfl, rfl,
    by decide +kernel, by decide +kernel⟩

/-- The small sale is launched with both shares of its 100 tokens, and the share of its 33 lamports
can be computed. -/
theorem shares_exact_small_sale :
    (∃ s' log p, initializeHandler (Sample.context 0 1000) launchAccounts Sample.args
      Sample.genesis = .ok (s', log) ∧ s'.presale = some p ∧ SharesExact Sample.args p) ∧
    finalizeHandler (Sample.context 0 1101) Sample.finalizeAccounts 0
      (Sample.play Sample.opening).final ≠ .error (.panic .teamAmount) := by
  have hstate : (Sample.play Sample.opening).final.presale.map (fun p => (p.isHardcapped,
      p.isCancelled, p.teamPercent, p.totalSolAmount)) = some (1, 0, 1000, 33) := by decide +kernel
  obtain ⟨p, hp, hfields⟩ := Option.map_eq_some_iff.mp hstate
  simp only [Prod.mk.injEq] at hfields
  obtain ⟨hhard, hcan, hpercent, htotal⟩ := hfields
  constructor
  · exact ((shares_exact_iff _ _).1 _ _ sample_launchReady (by decide)).mpr (by decide)
  · have call := sample_admin_call hp (by decide +kernel) 1101
    have ok : FinalizeAccepted (Sample.context 0 1101) Sample.finalizeAccounts 0
        (Sample.play Sample.opening).final p := by
      refine ⟨call, rfl, ?_⟩
      rintro ⟨-, -, hzero⟩
      omega
    have hopen : (closed 0 p).isCancelled = 0 := by
      rw [closed, if_neg]
      · exact hcan
      · rintro ⟨-, -, hzero⟩
        omega
    refine (((shares_exact_iff _ _).2 _ _ _ ok hopen).mpr ?_).1
    rw [hpercent, htotal]
    decide

/-- The product overflows long before the share does: with `2 ^ 64 - 1` tokens and a soft cap of all
of them `initialize` aborts. -/
theorem shares_overflow :
    ¬ ∀ (cx : Context) (a : Initialize) (args : InitializeArgs) (s : State),
      LaunchReady cx a s → cx.now + args.presaleDuration.toNat < 2 ^ 64 →
        args.tokenAllocation.toNat ≤ 10000 → args.softcapPrecent.toNat ≤ 10000 →
          ∃ s' log p, initializeHandler cx a args s = .ok (s', log) ∧ s'.presale = some p ∧
            SharesExact args p := by
  intro h
  obtain ⟨s', log, p, hok, -, -⟩ := h (Sample.context 0 1000) launchAccounts
    { Sample.args with totalTokenAmount := 18446744073709551615, softcapPrecent := 10000 }
    Sample.genesis sample_launchReady (by decide) (by decide) (by decide)
  obtain ⟨q, ok, -⟩ := initializeHandler_eq_ok.mp hok
  have hproduct := (initialPresale_eq_ok.mp ok.record).2.1
  exact absurd hproduct (by decide)

/-! ## Paying the team -/

/-- With a percentage in range the team's share is part of what was raised. -/
theorem teamShare_le {p : PresaleAccount} (hpercent : p.teamPercent ≤ 10000) :
    teamShare p ≤ p.totalSolAmount :=
  Nat.div_le_of_le_mul (Nat.mul_le_mul_right _ hpercent)

/-- On a presale that is neither finalized nor cancelled, and whose team gets no more than all of
it, a `finalize` call of the super admin never lacks the lamports for the team's share. Its debit
stays within the escrow, so lamports overflow only at the team account; and if the call pays, the
team account gains exactly the share, and the escrow keeps the rest of its opening balance and the
total, which covers the rest of all contributions.
SRC: finalize.rs:31-64, buy_token.rs:61-83, refund_token.rs:29-47 -/
theorem first_finalize_pays (e : Execution) (p : PresaleAccount) (hp : e.final.presale = some p)
    (hfin : p.isFinalized = 0) (hcan : p.isCancelled = 0) (hpercent : p.teamPercent ≤ 10000)
    (cx : Context) (a : Finalize) (f : UInt8)
    (call : AdminCall cx a.presaleAccount a.adminAccount a.admin e.final p)
    (hesc : a.escrowAccount = .escrowVault) (hteam : a.teamAccount ≠ .escrowVault) :
    finalizeHandler cx a f e.final ≠ .error (.program .NoEnoughSol) ∧
    teamShare p ≤ e.final.lamports .escrowVault ∧
    (finalizeHandler cx a f e.final = .error (.panic .lamports) →
      2 ^ 64 ≤ e.final.lamports a.teamAccount + teamShare p) ∧
    (∀ s' log n, finalizeHandler cx a f e.final = .ok (s', log) →
      .lamports .escrowVault a.teamAccount n ∈ log →
        n = p.teamPercent * p.totalSolAmount / 10000 ∧
          s'.lamports a.teamAccount = e.final.lamports a.teamAccount + n ∧
          escrowOpening e.history + p.totalSolAmount - n ≤ s'.lamports .escrowVault) ∧
    e.final.users.total UserAccount.userSolContributed - teamShare p ≤
      escrowOpening e.history + p.totalSolAmount - teamShare p := by
  have custody := (custody_of_opening e.fresh e.run).2 p hp hfin
  have hshare := teamShare_le hpercent
  have hcovered := custody.covered
  have hfunded : teamShare p ≤ e.final.lamports .escrowVault := by omega
  refine ⟨?_, hfunded, ?_, ?_, ?_⟩
  · rw [ne_eq, finalizeHandler_eq_error call hesc]
    simp only [moveLamports_ne_program, reduceCtorEq, and_false, and_true, or_false,
      ProgramError.program.injEq, Nat.not_lt.mpr hfunded, not_false_eq_true]
  · intro hpanic
    rw [finalizeHandler_eq_error call hesc] at hpanic
    simp only [moveLamports_eq_error, move_dst _ hteam.symm, reduceCtorEq, and_false, and_true,
      or_false, false_or, ProgramError.panic.injEq, Nat.not_lt.mpr hfunded] at hpanic
    omega
  · intro s' log n hok hpaid
    rcases finalizeHandler_eq_ok.mp hok with ⟨q, pays, hout⟩ | ⟨q, -, -, hout⟩
    · obtain rfl := Option.mem_unique hp pays.presale
      obtain ⟨rfl, rfl⟩ := Prod.mk.inj hout
      have hn : n = teamShare p := by simpa [finalizeLog] using hpaid
      rw [hn]
      refine ⟨rfl, move_dst _ hteam.symm, ?_⟩
      simp only [afterFinalize, move_src _ hteam.symm]
      omega
    · obtain ⟨-, rfl⟩ := Prod.mk.inj hout
      exact absurd hpaid List.not_mem_nil
  · rw [← total_eq_contributed e.fresh e.run hp hcan]
    omega

/-- The team of the small sale is paid 3 of its 33 lamports. -/
theorem first_finalize_small_sale :
    ∃ s' log, finalizeHandler (Sample.context 0 1101) Sample.finalizeAccounts 0
        (Sample.play Sample.opening).final = .ok (s', log) ∧
      s'.lamports (.key 9) = (Sample.play Sample.opening).final.lamports (.key 9) + 3 := by
  have hstate : (Sample.play Sample.opening).final.presale.map (fun p => (p.isFinalized,
      p.isCancelled, p.teamPercent)) = some (0, 0, 1000) := by decide +kernel
  obtain ⟨p, hp, hfields⟩ := Option.map_eq_some_iff.mp hstate
  simp only [Prod.mk.injEq] at hfields
  obtain ⟨hfin, hcan, hpercent⟩ := hfields
  have call := sample_admin_call hp (by decide +kernel) 1101
  have hlog : (finalizeHandler (Sample.context 0 1101) Sample.finalizeAccounts 0
      (Sample.play Sample.opening).final).map Prod.snd =
        .ok [.lamports .escrowVault (.key 9) 3, .presaleFinalized 33 1101] := by decide +kernel
  obtain ⟨⟨s', log⟩, hok, rfl⟩ := map_eq_ok.mp hlog
  have pays := first_finalize_pays _ p hp hfin hcan (by omega) _ Sample.finalizeAccounts 0 call rfl
    (by decide)
  exact ⟨s', _, hok, (pays.2.2.2.1 s' _ 3 hok List.mem_cons_self).2.1⟩

end TokenPresale.Analysis
