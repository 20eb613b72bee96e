import TokenPresale.Analysis.SaleBook

/-!
# The two outcomes and the team's share

A presale ends finalized or cancelled, and the team is meant to be paid once. Neither
`cancel_presale` nor `finalize` looks at `is_finalized`, so both can happen after the other.
This module gives the exact conditions on the calls under which the outcomes exclude each
other and under which `finalize` moves nothing once the presale is finalized.
-/

set_option autoImplicit false

namespace TokenPresale.Analysis

open TokenPresale.Library TokenPresale.Model TokenPresale.Interface

/-! ## Finalized and cancelled -/

/-- Whether an input cancels the presale whose record is `p`: `cancel_presale` does, and so does
an ordinary `finalize` of a sale that has neither cap flag.
SRC: cancel_presale.rs:21-30, finalize.rs:39-43 -/
def cancels (p : PresaleAccount) : Input → Bool
  | .instruction _ (.cancelPresale _) => true
  | .instruction _ (.finalize _ f) => f = 0 ∧ p.isSoftcapped = 0 ∧ p.isHardcapped = 0
  | _ => false

/-- A step that cancels sets one flag and leaves the other; any other step sets `is_finalized`
at most, and only on a presale that is not cancelled. -/
theorem Coherent.outcome_step {s s' : State} {i : Input} {log : List LogEntry} (c : Coherent s)
    (h : Effect s i s' log) {p p' : PresaleAccount} (hp : s.presale = some p)
    (hp' : s'.presale = some p') :
    (cancels p i = true ∧ p'.isFinalized = p.isFinalized ∧ p'.isCancelled = 1) ∨
      (cancels p i = false ∧ p'.isCancelled = p.isCancelled ∧
        (p'.isFinalized = p.isFinalized ∨ p.isCancelled = 0 ∧ p'.isFinalized = 1)) := by
  have same : ∀ {q : PresaleAccount}, s.presale = some q → q = p :=
    fun hq => Option.mem_unique hq hp
  cases h with
  | initializePresale ok => exact absurd (c.not_launched ok) (by simp [hp])
  | buy ok | refund ok | update ok | add ok | remove ok | withdrawToken ok =>
    obtain rfl := same ok.presale
    obtain rfl := Option.some_injective _ hp'
    exact .inr ⟨rfl, rfl, .inl rfl⟩
  | cancel ok =>
    obtain rfl := same ok.presale
    obtain rfl := Option.some_injective _ hp'
    exact .inl ⟨rfl, rfl, rfl⟩
  | @finalizePays _ _ f _ ok =>
    obtain rfl := same ok.presale
    obtain rfl := Option.some_injective _ hp'
    have hkept := closed_of_notCancelled ok.notCancelled
    have hcan := ok.notCancelled
    rw [hkept] at hcan
    refine .inr ⟨decide_eq_false fun hcaps => ?_, rfl, .inr ⟨hcan, rfl⟩⟩
    have hset := ok.notCancelled
    rw [closed, if_pos hcaps] at hset
    exact absurd hset one_ne_zero
  | @finalizeCancelled _ _ f _ ok _ =>
    obtain rfl := same ok.presale
    obtain rfl := Option.some_injective _ hp'
    unfold closed
    split_ifs with hcaps
    · exact .inl ⟨decide_eq_true hcaps, rfl, rfl⟩
    · exact .inr ⟨decide_eq_false hcaps, rfl, .inl rfl⟩
  | outside ok =>
    obtain rfl := same ((runOutside_frame ok).presale ▸ hp')
    exact .inr ⟨rfl, rfl, .inl rfl⟩
  | _ =>
    obtain rfl := same hp'
    exact .inr ⟨rfl, rfl, .inl rfl⟩

/-- The presale is not finalized and cancelled at once. -/
def Exclusive (_ : History) (s : State) : Prop :=
  ∀ p, s.presale = some p → ¬ (p.isFinalized = 1 ∧ p.isCancelled = 1)

/-- The step `r` does not cancel a presale that is finalized. -/
def CancelsOpen (_ : History) (r : Step) : Prop :=
  ∀ p, r.before.presale = some p → cancels p r.input = true → p.isFinalized = 0

/-- Where the outcomes exclude each other, the next step keeps it so exactly when it does not
cancel a finalized presale. -/
theorem exclusive_step {s₀ s s' : State} {h : History} {i : Input} {o : List LogEntry}
    (fresh : Fresh s₀) (run : presale.Run s₀ h s) (hex : Exclusive h s)
    (hstep : presale.step s i = .ok (s', o)) :
    Exclusive (h ++ [⟨s, i, o⟩]) s' ↔ CancelsOpen h ⟨s, i, o⟩ := by
  have effect := effect_of_step hstep
  have c := coherent_of_run fresh run
  cases hp : s.presale with
  | none =>
    refine iff_of_true (fun p' hp' => ?_) fun p' hp' _ => ?_
    · obtain ⟨cx, a, args, -, ok, -, -⟩ := launch_of_effect effect hp hp'
      obtain ⟨-, -, -, rfl⟩ := initialPresale_eq_ok.mp ok.record
      simp [PresaleAccount.zeroed]
    · simp [hp] at hp'
  | some p =>
    obtain ⟨p', hp', -⟩ := c.record_step effect hp
    have hle := (flags_le_one fresh run hp).1
    have hbefore := hex p hp
    have hafter : Exclusive (h ++ [⟨s, i, o⟩]) s' ↔
        ¬ (p'.isFinalized = 1 ∧ p'.isCancelled = 1) := by
      simp only [Exclusive, hp', Option.some.injEq, forall_eq']
    have hopen : CancelsOpen h ⟨s, i, o⟩ ↔ (cancels p i = true → p.isFinalized = 0) := by
      simp only [CancelsOpen, hp, Option.some.injEq, forall_eq']
    rw [hafter, hopen]
    rcases c.outcome_step effect hp hp' with ⟨hset, hfin, hcan⟩ | ⟨hset, hcan, hfin⟩
    · rw [hset, hfin, hcan]
      refine ⟨fun hnot _ => by omega, fun himp hboth => ?_⟩
      have hzero := himp rfl
      omega
    · rw [hset, hcan]
      refine iff_of_true ?_ (by simp)
      rcases hfin with hfin | ⟨hzero, -⟩
      · rwa [hfin]
      · omega

/-- In every state of a run the presale is not both finalized and cancelled exactly when no step
of the run cancels a finalized presale.
SRC: finalize.rs:30-65, cancel_presale.rs:21-30 -/
theorem outcomes_exclusive_iff (e : Execution) :
    presale.Always e.genesis e.history Exclusive ↔ Machine.Steps CancelsOpen e.history :=
  e.run.always_iff (fun p hp => by simp [e.fresh.presale] at hp)
    fun _ _ _ _ _ run hex hstep => exclusive_step e.fresh run hex hstep

/-- Nothing stops `cancel_presale` after `finalize`. -/
theorem outcomes_overlap :
    ¬ ∀ (e : Execution) (p : PresaleAccount), e.final.presale = some p →
      ¬ (p.isFinalized = 1 ∧ p.isCancelled = 1) := by
  intro h
  have hflags : (Sample.play (Sample.opening ++ [Sample.finalize 1002 1,
      Sample.cancel])).final.presale.map (fun p => (p.isFinalized, p.isCancelled)) =
        some (1, 1) := by decide +kernel
  obtain ⟨p, hp, hfields⟩ := Option.map_eq_some_iff.mp hflags
  exact h _ p hp (Prod.mk.inj hfields)

/-! ## The team's share -/

/-- The call and the state in which `finalize` takes a share out of the escrow: the admin calls
it on the presale's accounts, the sale is over or the call is forced, the presale is not
cancelled and, unless the call is forced, has a cap flag; the share is at least one lamport,
the escrow covers it, and it goes to another account that can hold it.
SRC: finalize.rs:3-57 -/
structure TakesShare (cx : Context) (a : Finalize) (f : UInt8) (s : State)
    (p : PresaleAccount) : Prop
    extends FinalizeAccepted cx a f s p where
  notCancelled : p.isCancelled = 0
  capped : f = 0 → p.isSoftcapped ≠ 0 ∨ p.isHardcapped ≠ 0
  share : 10000 ≤ p.teamPercent * p.totalSolAmount
  product : p.teamPercent * p.totalSolAmount < 2 ^ 64
  funded : p.teamPercent * p.totalSolAmount / 10000 ≤ s.lamports .escrowVault
  elsewhere : a.teamAccount ≠ .escrowVault
  credit : s.lamports a.teamAccount + p.teamPercent * p.totalSolAmount / 10000 < 2 ^ 64
  owned : s.owner .escrowVault = .tokenPresale

/-- A presale stays open to payment through the first block of `finalize` when it is not
cancelled and the call is forced or a cap flag is set. -/
theorem closed_isCancelled {f : UInt8} {p : PresaleAccount} :
    (closed f p).isCancelled = 0 ↔
      p.isCancelled = 0 ∧ (f = 0 → p.isSoftcapped ≠ 0 ∨ p.isHardcapped ≠ 0) := by
  unfold closed
  split_ifs with hcaps
  · simp only [false_iff, not_and]
    intro _ hsome
    rcases hsome hcaps.1 with hsoft | hhard
    · exact hsoft hcaps.2.1
    · exact hhard hcaps.2.2
  · refine ⟨fun hzero => ⟨hzero, fun hf => ?_⟩, fun hboth => hboth.1⟩
    by_contra hnone
    rw [not_or, not_not, not_not] at hnone
    exact hcaps ⟨hf, hnone⟩

/-- A call that meets the condition pays the team. -/
theorem TakesShare.pays {cx : Context} {a : Finalize} {f : UInt8} {s : State}
    {p : PresaleAccount} (h : TakesShare cx a f s p) : FinalizePays cx a f s p where
  toFinalizeAccepted := h.toFinalizeAccepted
  notCancelled := closed_isCancelled.mpr ⟨h.notCancelled, h.capped⟩
  product := h.product
  funded := h.funded
  credit := by
    rw [move_dst _ h.elsewhere.symm]
    exact h.credit
  owned _ := h.owned

/-- A call that pays a share to another account than the escrow meets the condition. -/
theorem takesShare_of_pays {cx : Context} {a : Finalize} {f : UInt8} {s : State}
    {p : PresaleAccount} (h : FinalizePays cx a f s p) (hpos : 0 < teamShare p)
    (helse : a.teamAccount ≠ .escrowVault) : TakesShare cx a f s p := by
  obtain ⟨hcan, hcap⟩ := closed_isCancelled.mp h.notCancelled
  have hcredit := h.credit
  have howned := h.owned
  rw [move_dst _ helse.symm] at hcredit
  rw [move_src _ helse.symm] at howned
  have hfunded := h.funded
  refine ⟨h.toFinalizeAccepted, hcan, hcap, ?_, h.product, h.funded, helse, hcredit,
    howned (by omega)⟩
  by_contra hlt
  exact hpos.ne' (Nat.div_eq_of_lt (Nat.not_le.mp hlt))

/-- A call of `finalize` leaves the escrow as it is, or fails, exactly when it takes no share. -/
theorem finalize_keeps_escrow_iff {cx : Context} {a : Finalize} {f : UInt8} {s : State}
    {p : PresaleAccount} (hp : s.presale = some p) :
    (∀ out, finalizeHandler cx a f s = .ok out →
      out.1.lamports .escrowVault = s.lamports .escrowVault) ↔ ¬ TakesShare cx a f s p := by
  constructor
  · intro hkeeps htakes
    have hpays := htakes.pays
    have hkept := hkeeps _ (finalizeHandler_eq_ok.mpr (.inl ⟨p, hpays, rfl⟩))
    simp only [afterFinalize, move_src _ htakes.elsewhere.symm] at hkept
    have hfunded := hpays.funded
    have hpos : 0 < teamShare p := Nat.div_pos htakes.share (by omega)
    omega
  · intro hnot out hout
    rcases finalizeHandler_eq_ok.mp hout with ⟨q, hpays, rfl⟩ | ⟨q, -, -, rfl⟩
    · obtain rfl := Option.mem_unique hp hpays.presale
      simp only [afterFinalize]
      rcases eq_or_ne a.teamAccount .escrowVault with heq | helse
      · rw [heq, move_self hpays.funded]
      · rcases Nat.eq_zero_or_pos (teamShare p) with hzero | hpos
        · rw [hzero, move_zero]
        · exact absurd (takesShare_of_pays hpays hpos helse) hnot
    · rfl

/-- How many `finalize` calls of a history moved a share out of the escrow. -/
def teamPayments (h : History) : ℕ := tally (fun r => if teamPaid r = 0 then 0 else 1) h

/-- The step `r` does not take a share on a presale that is finalized. -/
def TakesShareOnce (_ : History) (r : Step) : Prop :=
  ∀ p cx a f, r.before.presale = some p → p.isFinalized = 1 →
    r.input = .instruction cx (.finalize a f) → ¬ TakesShare cx a f r.before p

/-- Only a `finalize` call that takes a share moves lamports to the team, and it leaves the
presale finalized. -/
theorem takesShare_of_teamPaid {s s' : State} {i : Input} {log : List LogEntry}
    (h : Effect s i s' log) (hpaid : teamPaid ⟨s, i, log⟩ ≠ 0) :
    ∃ cx a f p p', i = .instruction cx (.finalize a f) ∧ s.presale = some p ∧
      TakesShare cx a f s p ∧ s'.presale = some p' ∧ p'.isFinalized = 1 := by
  cases h with
  | @finalizePays cx a f p ok =>
    have hleaves : teamPaid ⟨s, .instruction cx (.finalize a f), finalizeLog cx a p⟩ =
        if a.teamAccount ≠ .escrowVault then teamShare p else 0 := by
      simp [teamPaid, receipt, finalizes, finalizeLog, lamportsLeaving]
    rw [hleaves] at hpaid
    have helse : a.teamAccount ≠ .escrowVault := fun heq => hpaid (if_neg (not_not.mpr heq))
    rw [if_pos helse] at hpaid
    exact ⟨cx, a, f, p, _, rfl, ok.presale,
      takesShare_of_pays ok (Nat.pos_of_ne_zero hpaid) helse, rfl, rfl⟩
  | _ => exact absurd rfl hpaid

/-- A finalized presale stays finalized through a step. -/
theorem Coherent.finalized_step {s s' : State} {i : Input} {log : List LogEntry}
    (c : Coherent s) (h : Effect s i s' log) {p : PresaleAccount} (hp : s.presale = some p)
    (hfin : p.isFinalized = 1) : ∃ p', s'.presale = some p' ∧ p'.isFinalized = 1 := by
  obtain ⟨p', hp', hrecord⟩ := c.record_step h hp
  refine ⟨p', hp', ?_⟩
  rcases hrecord.flags.1 with heq | hone
  · rw [heq, hfin]
  · exact hone

/-- In a run without a second share the team is paid at most once, and only when the presale is
finalized. -/
theorem teamPayments_le_one {s₀ s : State} {h : History} (fresh : Fresh s₀)
    (run : presale.Run s₀ h s) (once : Machine.Steps TakesShareOnce h) :
    teamPayments h ≤ 1 ∧
      ((¬ ∃ p, s.presale = some p ∧ p.isFinalized = 1) → teamPayments h = 0) := by
  refine run.invariant (fun h s => Machine.Steps TakesShareOnce h → teamPayments h ≤ 1 ∧
    ((¬ ∃ p, s.presale = some p ∧ p.isFinalized = 1) → teamPayments h = 0)) ?_ ?_ once
  · exact fun _ => ⟨Nat.zero_le _, fun _ => rfl⟩
  · intro h s i s' o hrun ih hstep once
    obtain ⟨hbefore, hlast⟩ := Machine.steps_snoc.mp once
    obtain ⟨hle, hzero⟩ := ih hbefore
    have effect := effect_of_step hstep
    have hcount : teamPayments (h ++ [⟨s, i, o⟩]) =
        teamPayments h + if teamPaid ⟨s, i, o⟩ = 0 then 0 else 1 := by
      simp [teamPayments]
    rw [hcount]
    by_cases hpaid : teamPaid ⟨s, i, o⟩ = 0
    · rw [if_pos hpaid, Nat.add_zero]
      refine ⟨hle, fun hnot => hzero fun hfin => hnot ?_⟩
      obtain ⟨p, hp, hone⟩ := hfin
      exact (coherent_of_run fresh hrun).finalized_step effect hp hone
    · obtain ⟨cx, a, f, p, p', hi, hp, htakes, hp', hone⟩ := takesShare_of_teamPaid effect hpaid
      have hnotyet : ¬ ∃ q, s.presale = some q ∧ q.isFinalized = 1 := by
        rintro ⟨q, hq, hfin⟩
        obtain rfl := Option.mem_unique hp hq
        exact hlast p cx a f hp hfin hi htakes
      rw [if_neg hpaid, hzero hnotyet]
      exact ⟨le_rfl, fun hnot => absurd ⟨p', hp', hone⟩ hnot⟩

/-- On a finalized presale a `finalize` call leaves the escrow as it is, or fails, exactly when
it takes no share; and in a run in which no call takes a share from a finalized presale, at
most one call moves a share out of the escrow.
SRC: finalize.rs:30-65 -/
theorem team_paid_once_iff (e : Execution) :
    (∀ p cx a f, e.final.presale = some p → p.isFinalized = 1 →
      ((∀ out, finalizeHandler cx a f e.final = .ok out →
        out.1.lamports .escrowVault = e.final.lamports .escrowVault) ↔
          ¬ TakesShare cx a f e.final p)) ∧
    (Machine.Steps TakesShareOnce e.history → teamPayments e.history ≤ 1) :=
  ⟨fun _ _ _ _ hp _ => finalize_keeps_escrow_iff hp,
    fun once => (teamPayments_le_one e.fresh e.run once).1⟩

/-- A small sale that is finalized once pays the team once. -/
theorem team_paid_once_small_sale :
    teamPayments (Sample.play (Sample.opening ++ [Sample.finalize 1002 1])).history ≤ 1 := by
  have hopen : ∀ r ∈ (Sample.play (Sample.opening ++ [Sample.finalize 1002 1])).history,
      r.before.presale.map PresaleAccount.isFinalized ≠ some 1 := by decide +kernel
  apply (team_paid_once_iff _).2
  apply Machine.steps_of_forall_mem
  intro r hr _ p cx a f hp hfin _
  refine absurd ?_ (hopen r hr)
  rw [hp, Option.map_some, hfin]

/-- Nothing stops the second payment: two forced calls pay the team twice. -/
theorem team_paid_twice :
    ¬ ∀ e : Execution, teamPayments e.history ≤ 1 := by
  intro h
  have htwice := h (Sample.play (Sample.opening ++ [Sample.finalize 1002 1,
    Sample.finalize 1003 1]))
  revert htwice
  decide +kernel

end TokenPresale.Analysis
