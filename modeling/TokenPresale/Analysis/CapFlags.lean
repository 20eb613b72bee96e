import TokenPresale.Analysis.Custody

/-!
# The cap flags and the pool

`finalize` never looks at the pool: it reads two flags that earlier orders wrote. Every order
leaves both in step with the pool, and between orders the pool stands still, so once an order
has been filled, and until `withdraw_token` empties the pool, the flags say what the pool says.
The outcome of an ordinary `finalize` call is therefore decided by the pool.
-/

set_option autoImplicit false

namespace TokenPresale.Analysis

open TokenPresale.Library TokenPresale.Model TokenPresale.Interface

/-! ## What a step does to the pool -/

/-- An order and `withdraw_token` change the pool; any other call leaves it and the flags. -/
inductive PoolStep (p : PresaleAccount) : Input → PresaleAccount → Prop
  | buy {cx : Context} {a : BuyToken} {amount : UInt64} (u : UserAccount) :
      PoolStep p (.instruction cx (.buyToken a amount)) (presaleAfterBuy p u amount.toNat)
  | withdraw {cx : Context} {a : WithdrawToken} :
      PoolStep p (.instruction cx (.withdrawToken a)) { p with totalTokenRemained := 0 }
  | quiet {i : Input} {p' : PresaleAccount} (noBuy : buysAny i = false)
      (pool : p'.totalTokenRemained = p.totalTokenRemained)
      (hard : p'.isHardcapped = p.isHardcapped) (soft : p'.isSoftcapped = p.isSoftcapped)
      (cap : p'.softCap = p.softCap) (supply : p'.totalPresaleToken = p.totalPresaleToken) :
      PoolStep p i p'

/-- Every step does one of these to the pool and the flags. -/
theorem Coherent.pool_step {s s' : State} {i : Input} {log : List LogEntry} (c : Coherent s)
    (h : Effect s i s' log) {p p' : PresaleAccount} (hp : s.presale = some p)
    (hp' : s'.presale = some p') : PoolStep p i p' := by
  have same : ∀ {q : PresaleAccount}, s.presale = some q → q = p :=
    fun hq => Option.mem_unique hq hp
  cases h with
  | initializePresale ok => exact absurd (c.not_launched ok) (by simp [hp])
  | buy ok =>
    obtain rfl := same ok.presale
    obtain rfl := Option.some_injective _ hp'
    exact .buy _
  | withdrawToken ok =>
    obtain rfl := same ok.presale
    obtain rfl := Option.some_injective _ hp'
    exact .withdraw
  | refund ok | cancel ok | update ok | add ok | remove ok | finalizePays ok =>
    obtain rfl := same ok.presale
    obtain rfl := Option.some_injective _ hp'
    exact .quiet rfl rfl rfl rfl rfl rfl
  | @finalizeCancelled _ _ f _ ok _ =>
    obtain rfl := same ok.presale
    obtain rfl := Option.some_injective _ hp'
    unfold closed
    split_ifs <;> exact .quiet rfl rfl rfl rfl rfl rfl
  | outside ok =>
    obtain rfl := same ((runOutside_frame ok).presale ▸ hp')
    exact .quiet rfl rfl rfl rfl rfl rfl
  | _ =>
    obtain rfl := same hp'
    exact .quiet rfl rfl rfl rfl rfl rfl

/-! ## The flags -/

/-- A flag that is set says so of the pool. -/
structure FlagsSound (p : PresaleAccount) : Prop where
  hard : p.isHardcapped ≤ 1 ∧ (p.isHardcapped = 1 → p.totalTokenRemained = 0)
  soft : p.isSoftcapped ≤ 1 ∧ (p.isSoftcapped = 1 → p.totalTokenRemained < p.softCap)

/-- The flags say exactly what the pool says. -/
structure FlagsExact (p : PresaleAccount) : Prop where
  hard : p.isHardcapped = 1 ↔ p.totalTokenRemained = 0
  soft : p.isSoftcapped = 1 ↔ p.totalTokenRemained < p.softCap

/-- An order brings both flags in step with the pool it leaves.
SRC: buy_token.rs:53-59, 87-96 -/
theorem FlagsSound.afterBuy {p : PresaleAccount} (sound : FlagsSound p) (u : UserAccount)
    (n : ℕ) : FlagsSound (presaleAfterBuy p u n) ∧ FlagsExact (presaleAfterBuy p u n) := by
  obtain ⟨⟨hhard, hdrained⟩, hsoft, hsold⟩ := sound
  have hpool : p.totalTokenRemained - (fillOf p n).tokens = 0 ↔
      p.totalTokenRemained ≤ p.presaleRate * n := by
    unfold fillOf
    by_cases hle : p.totalTokenRemained ≤ p.presaleRate * n
    · simp [fill_of_le hle, hle]
    · rw [fill_of_lt (Nat.not_le.mp hle)]
      show p.totalTokenRemained - p.presaleRate * n = 0 ↔ _
      omega
  have hhard' : (presaleAfterBuy p u n).isHardcapped ≤ 1 ∧
      ((presaleAfterBuy p u n).isHardcapped = 1 ↔
        p.totalTokenRemained - (fillOf p n).tokens = 0) := by
    show (if p.totalTokenRemained ≤ p.presaleRate * n then 1 else p.isHardcapped) ≤ 1 ∧
      ((if p.totalTokenRemained ≤ p.presaleRate * n then 1 else p.isHardcapped) = 1 ↔ _)
    rw [hpool]
    split_ifs with hle
    · exact ⟨le_rfl, iff_of_true rfl hle⟩
    · refine ⟨hhard, iff_of_false ?_ hle⟩
      intro hone
      have := hdrained hone
      omega
  have hsoft' : (presaleAfterBuy p u n).isSoftcapped ≤ 1 ∧
      ((presaleAfterBuy p u n).isSoftcapped = 1 ↔
        p.totalTokenRemained - (fillOf p n).tokens < p.softCap) := by
    simp only [presaleAfterBuy]
    split_ifs with hlt hzero
    · exact ⟨le_rfl, iff_of_true rfl hlt⟩
    · exact ⟨hsoft, iff_of_true (by omega) hlt⟩
    · refine ⟨hsoft, iff_of_false ?_ hlt⟩
      intro hone
      have := hsold hone
      omega
  exact ⟨⟨⟨hhard'.1, hhard'.2.mp⟩, hsoft'.1, hsoft'.2.mp⟩, hhard'.2, hsoft'.2⟩

/-- The cap flags are sound in every reachable state. -/
theorem flags_sound {s₀ s : State} {h : History} (fresh : Fresh s₀) (run : presale.Run s₀ h s)
    {p : PresaleAccount} (hp : s.presale = some p) : FlagsSound p := by
  apply record_invariant (P := FlagsSound) ?_ ?_ fresh run hp
  · intro cx args p hrec
    obtain ⟨-, -, -, rfl⟩ := initialPresale_eq_ok.mp hrec
    exact ⟨⟨Nat.zero_le _, fun h => absurd h Nat.zero_ne_one⟩, Nat.zero_le _,
      fun h => absurd h Nat.zero_ne_one⟩
  · intro p p' hrecord sound
    cases hrecord with
    | buy u n => exact (sound.afterBuy u n).1
    | withdraw =>
      refine ⟨⟨sound.hard.1, fun _ => rfl⟩, sound.soft.1, ?_⟩
      intro hone
      exact (Nat.zero_le _).trans_lt (sound.soft.2 hone)
    | _ => exact ⟨sound.hard, sound.soft⟩

/-- Before the launch no order has succeeded. -/
theorem not_bought_of_none {s₀ s : State} {h : History} (fresh : Fresh s₀)
    (run : presale.Run s₀ h s) : s.presale = none → bought h = false := by
  apply any_eq_false_of_none fresh run
  intro s s' i log effect hs
  cases effect with
  | buy ok => exact absurd (ok.presale.symm.trans hs) (Option.some_ne_none _)
  | _ => rfl

/-- Once an order has been filled, and as long as `withdraw_token` has not emptied the pool, the
flags are exact. -/
theorem flags_exact {s₀ s : State} {h : History} (fresh : Fresh s₀) (run : presale.Run s₀ h s)
    {p : PresaleAccount} (hp : s.presale = some p) (hbought : bought h = true)
    (hopen : tokensWithdrawn h = false) : FlagsExact p := by
  refine launched_invariant (fun h _ p => bought h = true → tokensWithdrawn h = false →
    FlagsExact p) fresh ?_ ?_ run hp hbought hopen
  · intro h s cx a args p hrun hnone _ hbought
    rw [bought_snoc, not_bought_of_none fresh hrun hnone] at hbought
    exact absurd hbought Bool.false_ne_true
  · intro h s i s' o p p' hrun effect hp hp' _ exact_ hbought hopen
    rw [bought_snoc] at hbought
    rw [tokensWithdrawn_snoc, Bool.or_eq_false_iff] at hopen
    cases (coherent_of_run fresh hrun).pool_step effect hp hp' with
    | buy u => exact ((flags_sound fresh hrun hp).afterBuy u _).2
    | withdraw => exact absurd hopen.2 (by simp [withdrawsTokens])
    | quiet noBuy pool hard soft cap _ =>
      rw [noBuy, Bool.or_false] at hbought
      have before := exact_ hbought hopen.1
      constructor
      · rw [hard, pool]
        exact before.hard
      · rw [soft, pool, cap]
        exact before.soft

/-! ## An ordinary `finalize` call -/

/-- `withdraw_token` succeeds on a finalized presale only, and the flag stays. -/
theorem finalized_of_withdrawn {s₀ s : State} {h : History} (fresh : Fresh s₀)
    (run : presale.Run s₀ h s) {p : PresaleAccount} (hp : s.presale = some p)
    (hdrawn : tokensWithdrawn h = true) : p.isFinalized ≠ 0 := by
  refine launched_invariant (fun h _ p => tokensWithdrawn h = true → p.isFinalized ≠ 0) fresh
    ?_ ?_ run hp hdrawn
  · intro h s cx a args p hrun hnone _ hdrawn
    rw [tokensWithdrawn_snoc, not_withdrawn_of_none fresh hrun hnone] at hdrawn
    exact absurd hdrawn Bool.false_ne_true
  · intro h s i s' o p p' hrun effect hp hp' hrecord finalized hdrawn
    rw [tokensWithdrawn_snoc, Bool.or_eq_true] at hdrawn
    have hkept : p.isFinalized ≠ 0 → p'.isFinalized ≠ 0 := by
      intro hfin
      rcases hrecord.flags.1 with heq | hone <;> omega
    apply hkept
    rcases hdrawn with hdrawn | hdrawn
    · exact finalized hdrawn
    · cases effect with
      | withdrawToken ok =>
        obtain rfl := Option.mem_unique hp ok.presale
        exact ok.finalized
      | _ => exact absurd hdrawn Bool.false_ne_true

/-- The sale is not over yet: neither its end has come nor is the pool empty. -/
def StillOpen (cx : Context) (p : PresaleAccount) : Prop :=
  cx.now < p.endTime ∧ 0 < p.totalTokenRemained

/-- The pool has not been sold down to below the soft cap. -/
def Unsold (p : PresaleAccount) : Prop :=
  0 < p.totalTokenRemained ∧ p.softCap ≤ p.totalTokenRemained

/-- The team's share can be computed and paid: its product fits, the escrow covers it, and the
team account has room for it. -/
structure ShareFits (a : Finalize) (s : State) (p : PresaleAccount) : Prop where
  product : p.teamPercent * p.totalSolAmount < 2 ^ 64
  funded : teamShare p ≤ s.lamports .escrowVault
  credit : move s.lamports .escrowVault a.teamAccount (teamShare p) a.teamAccount < 2 ^ 64

/-- The flags of a sale that `withdraw_token` has not touched decide what the first block of an
ordinary `finalize` call does. -/
theorem FlagsExact.closed_eq {p : PresaleAccount} (agree : FlagsExact p)
    (sound : FlagsSound p) :
    (Unsold p → closed 0 p = { p with isCancelled := 1 }) ∧
      (¬ Unsold p → closed 0 p = p) := by
  have hhard := sound.hard.1
  have hsoft := sound.soft.1
  have hpool := agree.hard
  have hcap := agree.soft
  constructor
  · intro hunsold
    unfold Unsold at hunsold
    exact if_pos ⟨rfl, by omega, by omega⟩
  · intro hsold
    apply if_neg
    rintro ⟨-, hsoft₀, hhard₀⟩
    apply hsold
    constructor <;> omega

/-- The pool decides an ordinary `finalize` call: on a presale that is neither finalized nor
cancelled and has filled an order, the flags agree with the pool; a call of the super admin is
rejected as too early exactly while the sale is still open; otherwise it cancels an unsold sale
without moving anything, and on any other sale it pays the team and finalizes, provided the
share can be paid.
SRC: finalize.rs:31-64, buy_token.rs:52-96 -/
theorem ordinary_finalize_outcome (e : Execution) (p : PresaleAccount)
    (hp : e.final.presale = some p) (hfin : p.isFinalized = 0) (hcan : p.isCancelled = 0)
    (hbought : bought e.history = true) (cx : Context) (a : Finalize)
    (call : AdminCall cx a.presaleAccount a.adminAccount a.admin e.final p)
    (hesc : a.escrowAccount = .escrowVault) :
    ((p.isHardcapped = 1 ↔ p.totalTokenRemained = 0) ∧
      (p.isSoftcapped = 1 ↔ p.totalTokenRemained < p.softCap)) ∧
    (finalizeHandler cx a 0 e.final = .error (.program .PresaleNotFinished) ↔ StillOpen cx p) ∧
    (¬ StillOpen cx p →
      (Unsold p → finalizeHandler cx a 0 e.final =
        .ok ({ e.final with presale := some { p with isCancelled := 1 } }, [])) ∧
      (¬ Unsold p → ∀ out, finalizeHandler cx a 0 e.final = .ok out ↔
        ShareFits a e.final p ∧ (afterFinalize a e.final p, finalizeLog cx a p) = out)) := by
  have hopen : tokensWithdrawn e.history = false := by
    by_contra hdrawn
    exact finalized_of_withdrawn e.fresh e.run hp (Bool.eq_true_of_not_eq_false hdrawn) hfin
  have agree := flags_exact e.fresh e.run hp hbought hopen
  have sound := flags_sound e.fresh e.run hp
  have hclosed := agree.closed_eq sound
  have hearly : (0 : UInt8) = 0 ∧ cx.now < p.endTime ∧ p.isHardcapped = 0 ↔ StillOpen cx p := by
    have hle := sound.hard.1
    have hpool := agree.hard
    unfold StillOpen
    simp only [true_and]
    apply and_congr_right
    intro _
    omega
  refine ⟨⟨agree.hard, agree.soft⟩, ?_, ?_⟩
  · rw [finalizeHandler_eq_notFinished call hesc, hearly]
  · intro hover
    have accepted : FinalizeAccepted cx a 0 e.final p := ⟨call, hesc, hearly.not.mpr hover⟩
    constructor
    · intro hunsold
      apply finalizeHandler_eq_ok.mpr
      refine .inr ⟨p, accepted, ?_, ?_⟩
      · rw [hclosed.1 hunsold]
        exact one_ne_zero
      · rw [hclosed.1 hunsold]
    · intro hsold out
      rw [finalizeHandler_eq_ok]
      constructor
      · rintro (⟨q, pays, rfl⟩ | ⟨q, ok, hcancelled, -⟩)
        · obtain rfl := Option.mem_unique hp pays.presale
          exact ⟨⟨pays.product, pays.funded, pays.credit⟩, rfl⟩
        · obtain rfl := Option.mem_unique hp ok.presale
          rw [hclosed.2 hsold] at hcancelled
          exact absurd hcan hcancelled
      · rintro ⟨fits, rfl⟩
        have custody := (custody_of_run e.fresh e.run).2 p hp hfin
        refine .inl ⟨p, ⟨accepted, ?_, fits.product, fits.funded, fits.credit, ?_⟩, rfl⟩
        · rw [hclosed.2 hsold]
          exact hcan
        · exact fun _ => custody.owner

/-- With 70 of its 100 tokens unsold at the end, and a soft cap of 50, the small sale is
cancelled; the same call one second before the end is too early. -/
theorem ordinary_finalize_small_sale :
    ∃ s, finalizeHandler (Sample.context 0 1101) Sample.finalizeAccounts 0
        (Sample.play Sample.halfSold).final = .ok (s, []) ∧
      s.presale.map PresaleAccount.isCancelled = some 1 ∧
      finalizeHandler (Sample.context 0 1099) Sample.finalizeAccounts 0
        (Sample.play Sample.halfSold).final = .error (.program .PresaleNotFinished) := by
  have hstate : (Sample.play Sample.halfSold).final.presale.map
      (fun p => (p.isFinalized, p.isCancelled, p.endTime, p.totalTokenRemained, p.softCap)) =
        some (0, 0, 1100, 70, 50) := by decide +kernel
  obtain ⟨p, hp, hfields⟩ := Option.map_eq_some_iff.mp hstate
  simp only [Prod.mk.injEq] at hfields
  obtain ⟨hfin, hcan, hend, hpool, hcap⟩ := hfields
  have hbought : bought (Sample.play Sample.halfSold).history = true := by decide +kernel
  have call := sample_admin_call hp (by decide +kernel)
  have outcome := fun t => ordinary_finalize_outcome (Sample.play Sample.halfSold) p hp hfin hcan
    hbought (Sample.context 0 t) Sample.finalizeAccounts (call t) rfl
  have hover : ¬ StillOpen (Sample.context 0 1101) p := by
    rw [StillOpen, hend]
    exact fun hopen => absurd hopen.1 (by decide)
  have hunsold : Unsold p := by
    rw [Unsold, hpool, hcap]
    decide
  refine ⟨_, ((outcome 1101).2.2 hover).1 hunsold, rfl, (outcome 1099).2.1.mpr ?_⟩
  rw [StillOpen, hend, hpool]
  decide

/-! ## The last second of a sale -/

/-- While `buy_token` is open on a sale that is not sold out, an ordinary `finalize` call of the
super admin is rejected as too early, except in the second in which the sale ends: that one belongs
to the sale and to its settlement.
SRC: state.rs:121-129, finalize.rs:34-37 -/
theorem live_sale_not_finished_iff (e : Execution) (p : PresaleAccount)
    (hhard : p.isHardcapped = 0) (cx : Context) (hlive : isPresaleLive cx p = .ok ())
    (a : Finalize) (call : AdminCall cx a.presaleAccount a.adminAccount a.admin e.final p)
    (hesc : a.escrowAccount = .escrowVault) :
    finalizeHandler cx a 0 e.final = .error (.program .PresaleNotFinished) ↔
      cx.now ≠ p.endTime := by
  have hend := (isPresaleLive_eq_ok.mp hlive).2
  rw [finalizeHandler_eq_notFinished call hesc]
  constructor
  · rintro ⟨-, hearly, -⟩
    exact hearly.ne
  · intro hne
    exact ⟨rfl, lt_of_le_of_ne hend hne, hhard⟩

/-- With 30 of its tokens sold the small sale is neither sold out nor cancelled; it runs from time
1000 to 1100. -/
theorem sample_halfSold :
    ∃ p, (Sample.play Sample.halfSold).final.presale = some p ∧ p.isHardcapped = 0 ∧
      p.isCancelled = 0 ∧ p.startTime = 1000 ∧ p.endTime = 1100 := by
  have hstate : (Sample.play Sample.halfSold).final.presale.map
      (fun p => (p.isHardcapped, p.isCancelled, p.startTime, p.endTime)) =
        some (0, 0, 1000, 1100) := by decide +kernel
  obtain ⟨p, hp, hfields⟩ := Option.map_eq_some_iff.mp hstate
  simp only [Prod.mk.injEq] at hfields
  exact ⟨p, hp, hfields⟩

/-- One second before its end the small sale cannot be finalized. -/
theorem live_sale_not_finished_before_end :
    finalizeHandler (Sample.context 0 1099) Sample.finalizeAccounts 0
      (Sample.play Sample.halfSold).final = .error (.program .PresaleNotFinished) := by
  obtain ⟨p, hp, hhard, -, hstart, hend⟩ := sample_halfSold
  have hlive : isPresaleLive (Sample.context 0 1099) p = .ok () := by
    rw [isPresaleLive_eq_ok, hstart, hend]
    decide
  have hiff := live_sale_not_finished_iff _ p hhard _ hlive Sample.finalizeAccounts
    (sample_admin_call hp (by decide +kernel) 1099) rfl
  rw [hiff, hend]
  decide

/-- In its last second Alice may still buy, and the same small sale may be cancelled. -/
theorem live_sale_cancelled_at_end :
    (¬ ∀ (e : Execution) (p : PresaleAccount) (cx : Context) (a : Finalize),
      e.final.presale = some p → p.isHardcapped = 0 → p.isCancelled = 0 →
        isPresaleLive cx p = .ok () →
          AdminCall cx a.presaleAccount a.adminAccount a.admin e.final p →
            a.escrowAccount = .escrowVault →
              finalizeHandler cx a 0 e.final = .error (.program .PresaleNotFinished)) ∧
    (buyTokenHandler (Sample.context 1 1100) (Sample.buyAccounts 1) 10
      (Sample.play Sample.halfSold).final).isOk = true := by
  refine ⟨?_, by decide +kernel⟩
  intro h
  obtain ⟨p, hp, hhard, hcan, hstart, hend⟩ := sample_halfSold
  have hlive : isPresaleLive (Sample.context 0 1100) p = .ok () := by
    rw [isPresaleLive_eq_ok, hstart, hend]
    decide
  have hearly := h _ p (Sample.context 0 1100) Sample.finalizeAccounts hp hhard hcan hlive
    (sample_admin_call hp (by decide +kernel) 1100) rfl
  have hcancelled : ((finalizeHandler (Sample.context 0 1100) Sample.finalizeAccounts 0
      (Sample.play Sample.halfSold).final).map fun out =>
        out.1.presale.map PresaleAccount.isCancelled) = .ok (some 1) := by decide +kernel
  obtain ⟨out, hok, -⟩ := map_eq_ok.mp hcancelled
  exact absurd (hok.symm.trans hearly) (by simp)

end TokenPresale.Analysis
