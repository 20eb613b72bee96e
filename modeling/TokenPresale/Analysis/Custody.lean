import TokenPresale.Analysis.SolLedger

/-!
# The escrow before settlement

Until the presale is finalized the escrow account belongs to the program and holds what
`initialize` left in it and the SOL raised. Every other debit of the escrow, the team's share
and the admin's withdrawal, sits behind the flag `is_finalized`.
-/

set_option autoImplicit false

namespace TokenPresale.Analysis

open TokenPresale.Library TokenPresale.Model TokenPresale.Interface

section Step

variable {s s' : State} {i : Input} {log : List LogEntry}

/-- As long as the presale is not finalized, a step lowers the escrow by no more than it lowers
the total. -/
theorem Coherent.escrow_step (c : Coherent s) (h : Effect s i s' log) {p p' : PresaleAccount}
    (hp : s.presale = some p) (hp' : s'.presale = some p') (hfin : p'.isFinalized = 0) :
    s.lamports .escrowVault + p'.totalSolAmount ≤
      s'.lamports .escrowVault + p.totalSolAmount := by
  have same : ∀ {q : PresaleAccount}, s.presale = some q → q = p :=
    fun hq => Option.mem_unique hq hp
  cases h with
  | initializePresale ok => exact absurd (c.not_launched ok) (by simp [hp])
  | buy ok =>
    obtain rfl := same ok.presale
    obtain rfl := Option.some_injective _ hp'
    simp only [afterBuy, presaleAfterBuy, move_dst _ ok.authority_ne_escrow]
    omega
  | @refund _ a _ u ok =>
    obtain rfl := same ok.presale
    obtain rfl := Option.some_injective _ hp'
    have htotal := ok.totalSol
    have hfunded := ok.funded
    have hescrow := sub_le_move s.lamports .escrowVault a.userToRefund u.userSolContributed
    simp only [afterRefund, presaleAfterRefund]
    omega
  | @add cx a _ ok =>
    obtain rfl := same ok.presale
    obtain rfl := Option.some_injective _ hp'
    have hne : Pubkey.escrowVault ≠ a.admin := (ne_of_signed ok.signed rfl).symm
    exact Nat.add_le_add_right
      (le_move s.lamports (.userRole a.authority) (whitelistFunding cx a s) hne) _
  | finalizePays ok =>
    obtain rfl := Option.some_injective _ hp'
    exact absurd hfin one_ne_zero
  | @finalizeCancelled _ _ f _ ok _ =>
    obtain rfl := same ok.presale
    obtain rfl := Option.some_injective _ hp'
    unfold closed
    split_ifs <;> exact le_rfl
  | withdraw ok =>
    obtain rfl := same ok.presale
    obtain rfl := same hp'
    exact absurd hfin ok.finalized
  | outside ok =>
    obtain rfl := same ((runOutside_frame ok).presale ▸ hp')
    exact Nat.add_le_add_right ((runOutside_frame ok).lamports _ rfl) _
  | cancel ok | update ok | remove ok | withdrawToken ok =>
    obtain rfl := same ok.presale
    obtain rfl := Option.some_injective _ hp'
    exact le_rfl
  | _ =>
    obtain rfl := same hp'
    exact le_rfl

end Step

/-- The escrow belongs to the program and covers the deposit and the SOL raised. It is never
empty: `init` left the rent in it, of which the deposit may be a part only. -/
structure Custody (deposit : ℕ) (s : State) (p : PresaleAccount) : Prop where
  owner : s.owner .escrowVault = .tokenPresale
  covered : deposit + p.totalSolAmount ≤ s.lamports .escrowVault
  nonempty : p.totalSolAmount < s.lamports .escrowVault

/-- Custody of a deposit is custody of any smaller one. -/
theorem Custody.mono {d d' : ℕ} {s : State} {p : PresaleAccount} (custody : Custody d' s p)
    (hle : d ≤ d') : Custody d s p :=
  ⟨custody.owner, (Nat.add_le_add_right hle _).trans custody.covered, custody.nonempty⟩

/-- After `initialize` the escrow holds its opening balance, as its log says. -/
theorem opening_of_launch {cx : Context} {a : Initialize} {args : InitializeArgs} {s : State}
    {p : PresaleAccount} (ok : InitializeAccepted cx a args s p) :
    openingOf ⟨s, .instruction cx (.initializePresale a args), initializeLog cx a s⟩ =
      (afterInitialize cx a s p).lamports .escrowVault := by
  have hlamports : (afterInitialize cx a s p).lamports .escrowVault = s.lamports .escrowVault +
      (cx.rent.minimumBalance (8 + 8) - s.lamports .escrowVault) :=
    ok.lamports (q := (.escrowVault, _)) (by simp [initFunding])
  rw [hlamports]
  simp [openingOf, launches, initializeLog, initFunding, lamportsInto]

/-- After `initialize` the escrow is in custody, with all it holds as its deposit. -/
theorem custody_of_launch {cx : Context} {a : Initialize} {args : InitializeArgs} {s : State}
    {p : PresaleAccount} (ok : InitializeAccepted cx a args s p) :
    Custody ((afterInitialize cx a s p).lamports .escrowVault) (afterInitialize cx a s p) p := by
  have hfunded := ok.funded (k := .escrowVault) (by simp [initFunding])
  have htotal : p.totalSolAmount = 0 := by
    obtain ⟨-, -, -, rfl⟩ := initialPresale_eq_ok.mp ok.record
    rfl
  refine ⟨by simp [afterInitialize], ?_, ?_⟩
  · rw [htotal, Nat.add_zero]
  · rw [htotal]
    exact hfunded

/-- A step that does not finalize the presale keeps custody. -/
theorem Custody.step {deposit : ℕ} {s s' : State} {i : Input} {log : List LogEntry}
    {p p' : PresaleAccount} (custody : Custody deposit s p) (c : Coherent s)
    (h : Effect s i s' log) (hp : s.presale = some p) (hp' : s'.presale = some p')
    (hfin : p'.isFinalized = 0) : Custody deposit s' p' := by
  have hescrow := c.escrow_step h hp hp' hfin
  obtain ⟨howner, hcovered, hnonempty⟩ := custody
  have hkept : s'.owner .escrowVault = s.owner .escrowVault :=
    h.owner_eq (howner ▸ nofun) (by omega)
  exact ⟨hkept.trans howner, by omega, by omega⟩

/-- Only the launch of the presale opens the escrow. -/
theorem opening_eq_zero {s s' : State} {i : Input} {log : List LogEntry}
    (h : Effect s i s' log) (hl : s.presale ≠ none ∨ s'.presale = none) (c : Coherent s) :
    openingOf ⟨s, i, log⟩ = 0 := by
  cases h with
  | initializePresale ok =>
    rcases hl with hsome | hnone
    · exact absurd (c.not_launched ok) hsome
    · exact absurd hnone nofun
  | _ => rfl

/-- A longer history opens the escrow with what its last step may add. -/
theorem escrowOpening_snoc (h : History) (r : Step) :
    escrowOpening (h ++ [r]) = escrowOpening h + openingOf r := by
  simp [escrowOpening]

/-- Before the launch the escrow has not been opened. -/
theorem escrowOpening_of_none {s₀ s : State} {h : History} (fresh : Fresh s₀)
    (run : presale.Run s₀ h s) : s.presale = none → escrowOpening h = 0 := by
  refine run.invariant (fun h s => s.presale = none → escrowOpening h = 0) (fun _ => rfl) ?_
  intro h s i s' o hrun ih hstep hnone
  have effect := effect_of_step hstep
  have c := coherent_of_run fresh hrun
  rw [escrowOpening_snoc, ih (c.none_of_step effect hnone), opening_eq_zero effect (.inr hnone) c]

/-- In every run, as long as the presale is not finalized the escrow is in the program's
custody, which covers its opening balance; before the launch there is none. -/
theorem custody_of_opening {s₀ s : State} {h : History} (fresh : Fresh s₀)
    (run : presale.Run s₀ h s) :
    (s.presale = none → escrowOpening h = 0) ∧
      ∀ p, s.presale = some p → p.isFinalized = 0 → Custody (escrowOpening h) s p := by
  refine ⟨escrowOpening_of_none fresh run, ?_⟩
  intro p hp
  refine launched_invariant (fun h s p => p.isFinalized = 0 → Custody (escrowOpening h) s p) fresh
    ?_ ?_ run hp
  · intro h s cx a args p hrun hnone ok _
    rw [escrowOpening_snoc, escrowOpening_of_none fresh hrun hnone, Nat.zero_add,
      opening_of_launch ok]
    exact custody_of_launch ok
  · intro h s i s' o p p' hrun effect hp hp' hrecord custody hfin
    have c := coherent_of_run fresh hrun
    have hlaunched : s.presale ≠ none := by simp [hp]
    rw [escrowOpening_snoc, opening_eq_zero effect (.inl hlaunched) c, Nat.add_zero]
    have hbefore : p.isFinalized = 0 := by
      rcases hrecord.flags.1 with heq | hone <;> omega
    exact (custody hbefore).step c effect hp hp' hfin

/-- The opening balance includes what `initialize` put into the escrow. -/
theorem custody_of_run {s₀ s : State} {h : History} (fresh : Fresh s₀)
    (run : presale.Run s₀ h s) :
    (s.presale = none → escrowDeposit h = 0) ∧
      ∀ p, s.presale = some p → p.isFinalized = 0 → Custody (escrowDeposit h) s p := by
  have hle := escrowDeposit_le_opening h
  obtain ⟨hnone, hsome⟩ := custody_of_opening fresh run
  refine ⟨?_, ?_⟩
  · intro hp
    have := hnone hp
    omega
  · intro p hp hfin
    exact (hsome p hp hfin).mono hle

/-- Until the presale is finalized, the escrow holds at least what `initialize` put into it and
the SOL raised, whatever happened to it in between.
SRC: buy_token.rs:61-83, refund_token.rs:29-48, finalize.rs:45-63, withdraw.rs:27-38 -/
theorem escrow_solvent (e : Execution) (p : PresaleAccount) (hp : e.final.presale = some p)
    (hfin : p.isFinalized = 0) :
    escrowDeposit e.history + p.totalSolAmount ≤ e.final.lamports .escrowVault :=
  ((custody_of_run e.fresh e.run).2 p hp hfin).covered

/-- A donation of 5 lamports and two orders later, and after a refund into the escrow itself,
the bound still holds. -/
theorem escrow_solvent_small_sale :
    ∃ p, (Sample.play (Sample.opening ++ [.outside (.payIn .escrowVault 5), Sample.cancel,
        Sample.refund 1 .escrowVault])).final.presale = some p ∧ p.totalSolAmount = 23 ∧
      1002240 + p.totalSolAmount ≤ (Sample.play (Sample.opening ++
        [.outside (.payIn .escrowVault 5), Sample.cancel,
          Sample.refund 1 .escrowVault])).final.lamports .escrowVault := by
  have hdeposit : escrowDeposit (Sample.play (Sample.opening ++
      [.outside (.payIn .escrowVault 5), Sample.cancel,
        Sample.refund 1 .escrowVault])).history = 1002240 := by decide +kernel
  have hstate : (Sample.play (Sample.opening ++ [.outside (.payIn .escrowVault 5), Sample.cancel,
      Sample.refund 1 .escrowVault])).final.presale.map
        (fun p => (p.isFinalized, p.totalSolAmount)) = some (0, 23) := by decide +kernel
  obtain ⟨p, hp, hfields⟩ := Option.map_eq_some_iff.mp hstate
  obtain ⟨hfin, htotal⟩ := Prod.mk.inj hfields
  refine ⟨p, hp, htotal, ?_⟩
  rw [← hdeposit]
  exact escrow_solvent _ p hp hfin

end TokenPresale.Analysis
