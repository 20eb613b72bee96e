import TokenPresale.Analysis.Settlement
import TokenPresale.Analysis.SolLedger

/-!
# What the events tell

A client that follows the program sees its events and not its records. From the events of
`buy_token` it can rebuild what every wallet has contributed; the event of `finalize` tells
exactly whether the presale is finalized. A cancellation is told only when it comes from
`cancel_presale`: the one that `finalize` makes is silent, and so are refunds.
-/

set_option autoImplicit false

namespace TokenPresale.Analysis

open TokenPresale.Library TokenPresale.Model TokenPresale.Interface

/-! ## Reading events -/

/-- The lamports that an entry announces as spent by `w`. -/
def announcedFor (w : Pubkey) : LogEntry → ℕ
  | .userBought user n _ => if user = w then n else 0
  | _ => 0

/-- The lamports that an entry announces as spent by anyone. -/
def announcedAny : LogEntry → ℕ
  | .userBought _ n _ => n
  | _ => 0

/-- The tokens that an entry announces as claimed. -/
def announcedClaim : LogEntry → ℕ
  | .userClaimed _ n _ => n
  | _ => 0

/-- The sum of what the events of a history announce. -/
def announced (f : LogEntry → ℕ) (h : History) : ℕ := tally (fun r => sumOf f r.output) h

/-- An entry that announces the finalization. -/
def tellsFinalized : LogEntry → Bool
  | .presaleFinalized _ _ => true
  | _ => false

/-- An entry that announces the cancellation. -/
def tellsCancelled : LogEntry → Bool
  | .presaleCancelled _ _ => true
  | _ => false

/-- Some event of the history meets `c`. -/
def emitted (c : LogEntry → Bool) (h : History) : Bool := h.any fun r => r.output.any c

/-- A longer history has emitted such an event if it had before or the last step does. -/
@[simp] theorem emitted_snoc (c : LogEntry → Bool) (h : History) (r : Step) :
    emitted c (h ++ [r]) = (emitted c h || r.output.any c) := by
  simp [emitted]

/-- The total that an entry announces at the end of a sale. -/
def totalTold : LogEntry → Option ℕ
  | .presaleFinalized n _ => some n
  | .presaleCancelled n _ => some n
  | _ => none

/-- A `finalize` call that cancels: nothing tells of it. -/
def cancelsSilently (r : Step) : Bool :=
  match r.input with
  | .instruction _ (.finalize _ _) => r.before.presale.elim false fun p => cancels p r.input
  | _ => false

/-! ## One step -/

section Step

variable {s s' : State} {i : Input} {log : List LogEntry}

/-- What a step announces for a wallet is what the wallet's own order takes from it. -/
theorem announcedFor_step (h : Effect s i s' log) (w : Pubkey) :
    sumOf (announcedFor w) log = receipt (buysFor w) (lamportsOutOf w) ⟨s, i, log⟩ := by
  cases h with
  | @initializePresale cx a args p ok =>
    simp [receipt, buysFor, initializeLog, initFunding, announcedFor]
  | @buy cx a amount p u ok =>
    by_cases hw : a.authority = w
    · simp [receipt, buysFor, buyLog, announcedFor, lamportsOutOf, hw]
    · simp [receipt, buysFor, buyLog, announcedFor, hw]
  | _ => simp [receipt, buysFor, announcedFor, claimLog, finalizeLog]

/-- What a step announces as spent is what the records of all wallets gain. -/
theorem Coherent.announcedAny_step (c : Coherent s) (h : Effect s i s' log) :
    s'.users.total UserAccount.userSolContributed =
      s.users.total UserAccount.userSolContributed + sumOf announcedAny log := by
  have hquiet : (∀ cx a amount, i ≠ .instruction cx (.buyToken a amount)) →
      sumOf announcedAny log = 0 := by
    intro hno
    cases h with
    | buy ok => exact absurd rfl (hno _ _ _)
    | _ => simp [announcedAny, initializeLog, initFunding, claimLog, finalizeLog]
  cases c.money_step h with
  | @buy cx a amount p u ok =>
    have htotal : (afterBuy a amount.toNat s p u).users.total UserAccount.userSolContributed +
        u.userSolContributed = s.users.total UserAccount.userSolContributed +
          (u.userSolContributed + (fillOf p amount.toNat).cost) :=
      Ledger.total_insert_of_lookup _ _ ok.user
    have hlog : sumOf announcedAny (buyLog cx a amount.toNat p) = (fillOf p amount.toNat).cost := by
      simp [buyLog, announcedAny]
    omega
  | refund ok => rfl
  | quiet same =>
    rw [hquiet same.ne_buy, Nat.add_zero]
    exact same.total (fun _ c => c) rfl

/-- What a step announces as claimed is what its claim transfers from a vault. -/
theorem announcedClaim_step (h : Effect s i s' log) :
    sumOf announcedClaim log = receipt claimsAny vaultTokens ⟨s, i, log⟩ := by
  cases h with
  | _ => simp [receipt, claimsAny, announcedClaim, claimLog, vaultTokens, initializeLog,
      initFunding, buyLog, finalizeLog]

/-- The presale is finalized by the step that tells of it. -/
theorem Coherent.finalized_told_step (c : Coherent s) (h : Effect s i s' log) :
    field PresaleAccount.isFinalized s' ≠ 0 ↔
      field PresaleAccount.isFinalized s ≠ 0 ∨ log.any tellsFinalized = true := by
  cases h with
  | @initializePresale cx a args p ok =>
    obtain ⟨-, -, -, rfl⟩ := initialPresale_eq_ok.mp ok.record
    simp [field, afterInitialize, c.not_launched ok, initializeLog, initFunding, tellsFinalized,
      PresaleAccount.zeroed]
  | buy ok | refund ok | cancel ok | update ok | add ok | remove ok | withdrawToken ok =>
    rw [field_of_presale ok.presale]
    simp [field, afterBuy, presaleAfterBuy, afterRefund, presaleAfterRefund, afterAdd, afterRemove,
      afterWithdrawToken, buyLog, tellsFinalized]
  | finalizePays ok => simp [field, afterFinalize, finalizeLog, tellsFinalized]
  | @finalizeCancelled cx a f p ok _ =>
    have hsame : (closed f p).isFinalized = p.isFinalized := by
      unfold closed
      split_ifs <;> rfl
    rw [field_of_presale ok.presale, field_of_presale (p := closed f p) rfl, hsame]
    simp
  | outside ok =>
    rw [field, (runOutside_frame ok).presale]
    simp [field]
  | _ => simp [field, afterClaim, afterWithdraw, claimLog, sweep, tellsFinalized]

/-- The presale is cancelled by the step that tells of it, or by a silent one. -/
theorem Coherent.cancelled_told_step (c : Coherent s) (h : Effect s i s' log) :
    field PresaleAccount.isCancelled s' ≠ 0 ↔
      field PresaleAccount.isCancelled s ≠ 0 ∨ log.any tellsCancelled = true ∨
        cancelsSilently ⟨s, i, log⟩ = true := by
  cases h with
  | @initializePresale cx a args p ok =>
    obtain ⟨-, -, -, rfl⟩ := initialPresale_eq_ok.mp ok.record
    simp [field, afterInitialize, c.not_launched ok, initializeLog, initFunding, tellsCancelled,
      cancelsSilently, PresaleAccount.zeroed]
  | buy ok | refund ok | update ok | add ok | remove ok | withdrawToken ok =>
    rw [field_of_presale ok.presale]
    simp [field, afterBuy, presaleAfterBuy, afterRefund, presaleAfterRefund, afterAdd, afterRemove,
      afterWithdrawToken, buyLog, tellsCancelled, cancelsSilently]
  | cancel ok => simp [field, tellsCancelled]
  | @finalizePays cx a f p ok =>
    have hcan := ok.notCancelled
    have hcaps : cancels p (.instruction cx (.finalize a f)) = false := by
      apply decide_eq_false
      intro hset
      rw [closed, if_pos hset] at hcan
      exact absurd hcan one_ne_zero
    rw [closed_of_notCancelled hcan] at hcan
    simp [field, afterFinalize, ok.presale, finalizeLog, tellsCancelled, cancelsSilently, hcaps,
      hcan]
  | @finalizeCancelled cx a f p ok hcan =>
    have hsilent : cancelsSilently ⟨s, .instruction cx (.finalize a f), []⟩ =
        decide (f = 0 ∧ p.isSoftcapped = 0 ∧ p.isHardcapped = 0) := by
      simp [cancelsSilently, ok.presale, cancels]
    rw [field_of_presale ok.presale, field_of_presale (p := closed f p) rfl, hsilent]
    by_cases hcaps : f = 0 ∧ p.isSoftcapped = 0 ∧ p.isHardcapped = 0
    · rw [decide_eq_true hcaps]
      exact iff_of_true hcan (.inr (.inr rfl))
    · rw [closed, if_neg hcaps] at hcan ⊢
      simp [hcan]
  | outside ok =>
    rw [field, (runOutside_frame ok).presale]
    simp [field, cancelsSilently]
  | _ => simp [field, afterClaim, afterWithdraw, claimLog, sweep, tellsCancelled, cancelsSilently]

/-- The total that a step tells is the total of the record before it. -/
theorem totalTold_step (h : Effect s i s' log) {n : ℕ} (hn : ∃ x ∈ log, totalTold x = some n) :
    field PresaleAccount.totalSolAmount s = n := by
  obtain ⟨x, hx, htold⟩ := hn
  cases h with
  | @cancel cx a p ok =>
    obtain rfl := List.mem_singleton.mp hx
    rw [field_of_presale ok.presale]
    exact Option.some_injective _ htold
  | @finalizePays cx a f p ok =>
    rw [field_of_presale ok.presale]
    rcases List.mem_pair.mp hx with rfl | rfl
    · exact absurd htold (by simp [totalTold])
    · exact Option.some_injective _ htold
  | @initializePresale cx a args p ok =>
    obtain ⟨q, -, rfl⟩ := List.mem_map.mp hx
    exact absurd htold (by simp [totalTold])
  | buy ok | claim ok =>
    rcases List.mem_pair.mp hx with rfl | rfl <;> exact absurd htold (by simp [totalTold])
  | refund ok | add ok | deposit ok | withdrawToken ok | withdraw ok =>
    obtain rfl := List.mem_singleton.mp hx
    exact absurd htold (by simp [totalTold])
  | _ => exact absurd hx (by simp)

end Step

/-! ## Every run -/

/-- A total is told right: with the refunds paid before, it is what was announced as spent. -/
def TellsTotal (h : History) (r : Step) : Prop :=
  ∀ n, (∃ x ∈ r.output, totalTold x = some n) → n + allRefundsPaid h = announced announcedAny h

/-- What the events of a run tell. The orders announced for a wallet add up to what its record has
contributed, and the claims announced to the amounts that `claim_token` transferred, one paid into
the vault itself included; a total is told as announced, less the refunds; the presale is finalized
exactly if an event has told so, and cancelled exactly if an event has told so or a `finalize` call
has cancelled it silently.
SRC: state.rs:57-95, buy_token.rs:98-102, claim_token.rs:77-81, finalize.rs:58-62,
cancel_presale.rs:24-28 -/
theorem events_tell (e : Execution) :
    (∀ w, announced (announcedFor w) e.history =
      e.final.users.reading UserAccount.userSolContributed (.userRole w)) ∧
    announced announcedAny e.history = e.final.users.total UserAccount.userSolContributed ∧
    announced announcedClaim e.history = tally (receipt claimsAny vaultTokens) e.history ∧
    Machine.Steps TellsTotal e.history ∧
    (field PresaleAccount.isFinalized e.final ≠ 0 ↔ emitted tellsFinalized e.history = true) ∧
    (field PresaleAccount.isCancelled e.final ≠ 0 ↔
      emitted tellsCancelled e.history = true ∨ e.history.any cancelsSilently = true) := by
  have key := e.run.invariant (fun h s => presale.Run e.genesis h s ∧
    (∀ w, announced (announcedFor w) h = spentBy w h) ∧
    announced announcedAny h = s.users.total UserAccount.userSolContributed ∧
    announced announcedClaim h = tally (receipt claimsAny vaultTokens) h ∧
    Machine.Steps TellsTotal h ∧
    (field PresaleAccount.isFinalized s ≠ 0 ↔ emitted tellsFinalized h = true) ∧
    (field PresaleAccount.isCancelled s ≠ 0 ↔
      emitted tellsCancelled h = true ∨ h.any cancelsSilently = true)) ?_ ?_
  · obtain ⟨-, hwallet, hrest⟩ := key
    refine ⟨fun w => ?_, hrest⟩
    rw [hwallet, contributed_eq_spent e.fresh e.run]
  · refine ⟨.start, fun _ => rfl, ?_, rfl, Machine.steps_nil, ?_, ?_⟩
    · simp [announced, e.fresh.users]
    · simp [field, e.fresh.presale, emitted]
    · simp [field, e.fresh.presale, emitted]
  · rintro h s i s' o hrun ⟨-, hwallet, hany, hclaim, htotal, hfin, hcan⟩ hstep
    have effect := effect_of_step hstep
    have c := coherent_of_run e.fresh hrun
    refine ⟨hrun.next hstep, fun w => ?_, ?_, ?_, Machine.steps_snoc.mpr ⟨htotal, ?_⟩, ?_, ?_⟩
    · have hold := hwallet w
      have hnew := announcedFor_step effect w
      simp only [announced, spentBy, tally_append, tally_cons, tally_nil, Nat.add_zero] at hold ⊢
      omega
    · have hnew := c.announcedAny_step effect
      simp only [announced, tally_append, tally_cons, tally_nil, Nat.add_zero] at hany ⊢
      omega
    · have hnew := announcedClaim_step effect
      simp only [announced, tally_append, tally_cons, tally_nil, Nat.add_zero] at hclaim ⊢
      omega
    · intro n hn
      have hfield := totalTold_step effect hn
      have hbalance := total_add_refunds e.fresh hrun
      omega
    · rw [c.finalized_told_step effect, hfin, emitted_snoc, Bool.or_eq_true]
    · rw [c.cancelled_told_step effect, hcan, emitted_snoc, List.any_append, Bool.or_eq_true,
        Bool.or_eq_true, List.any_cons, List.any_nil, Bool.or_false]
      exact or_or_or_comm

/-- The first `finalize` call after the end of the small sale cancels it, and no event tells so. -/
example : ((Sample.play (Sample.halfSold ++ [Sample.finalize 1101 0])).history.any cancelsSilently,
    emitted tellsCancelled (Sample.play (Sample.halfSold ++ [Sample.finalize 1101 0])).history) =
      (true, false) := by
  decide +kernel

end TokenPresale.Analysis
