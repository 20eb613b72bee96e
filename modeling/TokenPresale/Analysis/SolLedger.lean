import TokenPresale.Analysis.SaleBook

/-!
# The SOL ledger

Who paid what, against the history. `Coherent.money_step` splits the steps of the program into
buys, refunds that pay, and quiet steps, after which all accounts hold what they held and the
counters of the presale stand as they stood. From it follow the ledger of each wallet and, with
the refunds that were paid, the ledger of the whole presale.
-/

set_option autoImplicit false

namespace TokenPresale.Analysis

open TokenPresale.Library TokenPresale.Model TokenPresale.Interface

/-! ## Steps that change no holding -/

/-- A number that depends on what an account has bought and paid. -/
def holding (f : ℕ → ℕ → ℕ) (u : UserAccount) : ℕ := f u.userBuyAmount u.userSolContributed

/-- No account has been deleted, and all hold what they held; new accounts hold nothing. -/
structure SameHoldings (s s' : State) : Prop where
  lookup : ∀ k u, s.users.lookup k = some u → ∃ u', s'.users.lookup k = some u' ∧
    u'.userBuyAmount = u.userBuyAmount ∧ u'.userSolContributed = u.userSolContributed
  reading : ∀ f, f 0 0 = 0 → s'.users.reading (holding f) = s.users.reading (holding f)
  total : ∀ f, f 0 0 = 0 → s'.users.total (holding f) = s.users.total (holding f)

/-- Two stretches that change no holding make one. -/
theorem SameHoldings.trans {s s' s'' : State} (first : SameHoldings s s')
    (second : SameHoldings s' s'') : SameHoldings s s'' where
  lookup k u hu := by
    obtain ⟨u', hu', hbuy, hsol⟩ := first.lookup k u hu
    obtain ⟨u'', hu'', hbuy', hsol'⟩ := second.lookup k u' hu'
    exact ⟨u'', hu'', hbuy'.trans hbuy, hsol'.trans hsol⟩
  reading f hf := (second.reading f hf).trans (first.reading f hf)
  total f hf := (second.total f hf).trans (first.total f hf)

section Step

variable {s s' : State} {i : Input} {log : List LogEntry}

/-- A step that leaves the user records alone changes no holding. -/
theorem sameHoldings_of_eq (h : s'.users = s.users) : SameHoldings s s' := by
  constructor
  · rw [h]
    exact fun k u hu => ⟨u, hu, rfl, rfl⟩
  · rw [h]
    exact fun _ _ => rfl
  · rw [h]
    exact fun _ _ => rfl

/-- Rewriting a record without touching what it bought and paid changes no holding. -/
theorem sameHoldings_of_rewrite {k : Pubkey} {u u' : UserAccount}
    (h : s'.users = s.users.insert k u') (hu : s.users.lookup k = some u)
    (hbuy : u'.userBuyAmount = u.userBuyAmount)
    (hsol : u'.userSolContributed = u.userSolContributed) : SameHoldings s s' := by
  have hf : ∀ f, holding f u' = holding f u := by
    intro f
    rw [holding, holding, hbuy, hsol]
  refine ⟨?_, ?_, ?_⟩
  · intro k' v hv
    rw [h]
    rcases eq_or_ne k' k with rfl | hne
    · obtain rfl := Option.mem_unique hv hu
      exact ⟨u', Finmap.lookup_insert _, hbuy, hsol⟩
    · exact ⟨v, by rw [Finmap.lookup_insert_of_ne _ hne, hv], rfl, rfl⟩
  · intro f _
    rw [h, Ledger.reading_insert_same _ _ hu (hf f)]
  · intro f _
    rw [h, Ledger.total_insert_same _ _ hu (hf f)]

/-- A new record that has bought and paid nothing changes no holding. -/
theorem sameHoldings_of_new {k : Pubkey} {u : UserAccount} (h : s'.users = s.users.insert k u)
    (hu : s.users.lookup k = none) (hbuy : u.userBuyAmount = 0) (hsol : u.userSolContributed = 0) :
    SameHoldings s s' := by
  have hf : ∀ f : ℕ → ℕ → ℕ, f 0 0 = 0 → holding f u = 0 := by
    intro f h0
    rw [holding, hbuy, hsol, h0]
  refine ⟨?_, ?_, ?_⟩
  · intro k' v hv
    have hne : k' ≠ k := by
      rintro rfl
      exact absurd (hv.symm.trans hu) (Option.some_ne_none _)
    rw [h]
    exact ⟨v, by rw [Finmap.lookup_insert_of_ne _ hne, hv], rfl, rfl⟩
  · intro f h0
    rw [h, Ledger.reading_insert_new _ _ hu (hf f h0)]
  · intro f h0
    rw [h, Ledger.total_insert_new _ _ hu, hf f h0, Nat.add_zero]

/-! ## Buys, refunds and quiet steps -/

/-- The field `f` of the presale record, zero before there is one. -/
def field (f : PresaleAccount → ℕ) (s : State) : ℕ := s.presale.elim 0 f

/-- Once there is a presale record, its field is read from it. -/
theorem field_of_presale {f : PresaleAccount → ℕ} {p : PresaleAccount}
    (hp : s.presale = some p) : field f s = f p := by
  rw [field, hp, Option.elim_some]

/-- To know a field of the presale record wherever there is one is to know the field. -/
theorem forall_presale_iff {f : PresaleAccount → ℕ} {n : ℕ} {s : State}
    (hnone : s.presale = none → n = 0) :
    (∀ p, s.presale = some p → f p = n) ↔ field f s = n := by
  cases hp : s.presale with
  | none =>
    have hfield : field f s = 0 := by rw [field, hp, Option.elim_none]
    refine iff_of_true ?_ (hfield.trans (hnone hp).symm)
    intro p hp'
    exact absurd hp'.symm (Option.some_ne_none _)
  | some p =>
    rw [field_of_presale hp]
    constructor
    · intro hall
      exact hall p rfl
    · intro heq q hq
      obtain rfl := Option.some_injective _ hq
      exact heq

/-- A step that neither sells nor pays a refund. A refund it may make is to an account that
contributed nothing. -/
structure Quiet (s s' : State) (i : Input) (log : List LogEntry) : Prop
    extends SameHoldings s s' where
  noBuy : ∀ w, buysFor w i = false
  noRefund : receipt refundsAny (lamportsOutOf .escrowVault) ⟨s, i, log⟩ = 0
  noDebt : ∀ k, refunds k i = true → s.users.reading UserAccount.userSolContributed k = 0
  totalSol : field PresaleAccount.totalSolAmount s' = field PresaleAccount.totalSolAmount s
  participants :
    field PresaleAccount.totalParticipants s' = field PresaleAccount.totalParticipants s

/-- What a step does to the money of the presale. -/
inductive MoneyStep (s : State) : Input → State → List LogEntry → Prop
  | buy {cx : Context} {a : BuyToken} {amount : UInt64} {p : PresaleAccount} {u : UserAccount}
      (ok : BuyAccepted cx a amount.toNat s p u) :
      MoneyStep s (.instruction cx (.buyToken a amount)) (afterBuy a amount.toNat s p u)
        (buyLog cx a amount.toNat p)
  | refund {cx : Context} {a : RefundToken} {p : PresaleAccount} {u : UserAccount}
      (ok : RefundPays cx a s p u) :
      MoneyStep s (.instruction cx (.refundToken a)) (afterRefund a s p u)
        [.lamports .escrowVault a.userToRefund u.userSolContributed]
  | quiet {i : Input} {s' : State} {log : List LogEntry} (same : Quiet s s' i log) :
      MoneyStep s i s' log

/-- A quiet step is no order. -/
theorem Quiet.ne_buy (same : Quiet s s' i log) (cx : Context) (a : BuyToken) (amount : UInt64) :
    i ≠ .instruction cx (.buyToken a amount) := by
  rintro rfl
  have hbuy := same.noBuy a.authority
  simp [buysFor] at hbuy

/-- What is said of every order that an accepted order is, is said of that order. -/
theorem forall_order_iff {Q : UInt64 → PresaleAccount → UserAccount → Prop} {cx : Context}
    {a : BuyToken} {amount : UInt64} {p : PresaleAccount} {u : UserAccount}
    (ok : BuyAccepted cx a amount.toNat s p u) :
    (∀ cx' a' amount' p' u',
      Input.instruction cx (.buyToken a amount) = .instruction cx' (.buyToken a' amount') →
        s.presale = some p' → s.users.lookup (.userRole a'.authority) = some u' →
          Q amount' p' u') ↔ Q amount p u := by
  constructor
  · intro hall
    exact hall cx a amount p u rfl ok.presale ok.user
  · intro hone cx' a' amount' p' u' hi hp' hu'
    obtain ⟨rfl, rfl, rfl⟩ : cx = cx' ∧ a = a' ∧ amount = amount' := by simpa using hi
    obtain rfl := Option.mem_unique ok.presale hp'
    obtain rfl := Option.mem_unique ok.user hu'
    exact hone

/-- A refund on one account is a refund. -/
theorem refundsAny_of_refunds {k : Pubkey} (h : refunds k i = true) : refundsAny i = true := by
  unfold refunds at h
  split at h
  · rfl
  · exact absurd h Bool.false_ne_true

/-- A step of another kind that rewrites neither counter is quiet. -/
theorem quiet_of_same (same : SameHoldings s s') (hbuy : ∀ w, buysFor w i = false)
    (hrefund : refundsAny i = false) {p p' : PresaleAccount} (hp : s.presale = some p)
    (hp' : s'.presale = some p') (hsol : p'.totalSolAmount = p.totalSolAmount)
    (hpart : p'.totalParticipants = p.totalParticipants) : Quiet s s' i log where
  toSameHoldings := same
  noBuy := hbuy
  noRefund := by rw [receipt, hrefund, if_neg Bool.false_ne_true]
  noDebt k hk := absurd (hrefund.symm.trans (refundsAny_of_refunds hk)) Bool.false_ne_true
  totalSol := by rw [field_of_presale hp, field_of_presale hp', hsol]
  participants := by rw [field_of_presale hp, field_of_presale hp', hpart]

/-- A step of another kind that leaves the presale record alone is quiet. -/
theorem quiet_of_presale_eq (same : SameHoldings s s') (hbuy : ∀ w, buysFor w i = false)
    (hrefund : refundsAny i = false) (hp : s'.presale = s.presale) : Quiet s s' i log where
  toSameHoldings := same
  noBuy := hbuy
  noRefund := by rw [receipt, hrefund, if_neg Bool.false_ne_true]
  noDebt k hk := absurd (hrefund.symm.trans (refundsAny_of_refunds hk)) Bool.false_ne_true
  totalSol := by rw [field, field, hp]
  participants := by rw [field, field, hp]

/-- The launch is quiet: both counters start at zero. -/
theorem Coherent.quiet_launch (c : Coherent s) {cx : Context} {a : Initialize}
    {args : InitializeArgs} {p : PresaleAccount} (ok : InitializeAccepted cx a args s p) :
    Quiet s (afterInitialize cx a s p) (.instruction cx (.initializePresale a args)) log := by
  obtain ⟨-, -, -, rfl⟩ := initialPresale_eq_ok.mp ok.record
  have hnone := c.not_launched ok
  refine ⟨sameHoldings_of_eq rfl, fun _ => rfl, rfl, nofun, ?_, ?_⟩ <;>
    simp [field, hnone, afterInitialize, PresaleAccount.zeroed]

/-- Every step is a buy, a refund that pays, or quiet. -/
theorem Coherent.money_step (c : Coherent s) (h : Effect s i s' log) : MoneyStep s i s' log := by
  cases h with
  | initializePresale ok => exact .quiet (c.quiet_launch ok)
  | buy ok => exact .buy ok
  | refund ok => exact .refund ok
  | @refundNothing _ a _ u ok hzero =>
    refine .quiet ⟨sameHoldings_of_eq rfl, fun _ => rfl, rfl, fun k hk => ?_, rfl, rfl⟩
    obtain rfl : a.userAccount = k := of_decide_eq_true hk
    rw [Ledger.reading_of_lookup ok.user, hzero]
  | claim ok =>
    exact .quiet (quiet_of_presale_eq (sameHoldings_of_rewrite rfl ok.user rfl rfl)
      (fun _ => rfl) rfl rfl)
  | cancel ok | update ok | finalizePays ok | withdrawToken ok =>
    exact .quiet (quiet_of_same (sameHoldings_of_eq rfl) (fun _ => rfl) rfl ok.presale rfl rfl rfl)
  | add ok =>
    exact .quiet (quiet_of_same (sameHoldings_of_new rfl (c.not_listed ok) rfl rfl)
      (fun _ => rfl) rfl ok.presale rfl rfl rfl)
  | remove ok =>
    exact .quiet (quiet_of_same (sameHoldings_of_rewrite rfl ok.user rfl rfl)
      (fun _ => rfl) rfl ok.presale rfl rfl rfl)
  | @finalizeCancelled _ _ f p ok _ =>
    have hsame : (closed f p).totalSolAmount = p.totalSolAmount ∧
        (closed f p).totalParticipants = p.totalParticipants := by
      unfold closed
      split_ifs <;> exact ⟨rfl, rfl⟩
    exact .quiet (quiet_of_same (sameHoldings_of_eq rfl) (fun _ => rfl) rfl ok.presale rfl
      hsame.1 hsame.2)
  | outside ok =>
    exact .quiet (quiet_of_presale_eq (sameHoldings_of_eq (runOutside_frame ok).users)
      (fun _ => rfl) rfl (runOutside_frame ok).presale)
  | _ =>
    exact .quiet (quiet_of_presale_eq (sameHoldings_of_eq rfl) (fun _ => rfl) rfl rfl)

/-- The accounts and what they hold only grow. -/
theorem Coherent.allocations_step (c : Coherent s) (h : Effect s i s' log) :
    s.users.keys ⊆ s'.users.keys ∧ ∀ k, s.users.reading UserAccount.userBuyAmount k ≤
      s'.users.reading UserAccount.userBuyAmount k := by
  cases c.money_step h with
  | @buy cx a amount p u ok =>
    refine ⟨(Ledger.keys_insert_of_lookup _ ok.user).ge, fun k => ?_⟩
    rcases eq_or_ne k (.userRole a.authority) with rfl | hne
    · have hu := Ledger.reading_of_lookup (f := UserAccount.userBuyAmount) ok.user
      simp only [afterBuy, Ledger.reading_insert_self, userAfterBuy, hu]
      exact Nat.le_add_right _ _
    · simp only [afterBuy, Ledger.reading_insert_of_ne _ _ _ hne]
      exact le_rfl
  | refund ok => exact ⟨Finset.Subset.rfl, fun _ => le_rfl⟩
  | quiet same =>
    refine ⟨fun k hk => ?_, fun k => ?_⟩
    · obtain ⟨u, hu⟩ := Finmap.mem_iff.mp (Finmap.mem_keys.mp hk)
      obtain ⟨u', hu', -⟩ := same.lookup k u hu
      exact Ledger.mem_keys_of_lookup hu'
    · exact (congrFun (same.reading (fun b _ => b) rfl) k).ge

/-- An order leaves the record of any other wallet alone. -/
theorem lookup_afterBuy_of_ne {a : BuyToken} {n : ℕ} {p : PresaleAccount} {u : UserAccount}
    {w : Pubkey} (hw : w ≠ a.authority) :
    (afterBuy a n s p u).users.lookup (.userRole w) = s.users.lookup (.userRole w) :=
  Finmap.lookup_insert_of_ne _ fun e => hw (Pubkey.userRole.inj e)

/-! ## The ledger of one wallet -/

/-- A step adds to what a wallet's account has contributed exactly what the wallet's own order
took from the wallet. -/
theorem Coherent.contributed_step (c : Coherent s) (h : Effect s i s' log) (w : Pubkey) :
    s'.users.reading UserAccount.userSolContributed (.userRole w) =
      s.users.reading UserAccount.userSolContributed (.userRole w) +
        receipt (buysFor w) (lamportsOutOf w) ⟨s, i, log⟩ := by
  cases c.money_step h with
  | @buy cx a amount p u ok =>
    rcases eq_or_ne w a.authority with rfl | hw
    · have hu := Ledger.reading_of_lookup (f := UserAccount.userSolContributed) ok.user
      simp [afterBuy, Ledger.reading_insert_self, userAfterBuy, hu, receipt, buysFor, buyLog,
        lamportsOutOf]
    · have hne : a.authority ≠ w := hw.symm
      simp [Ledger.reading, lookup_afterBuy_of_ne hw, receipt, buysFor, hne]
  | refund ok => rfl
  | quiet same =>
    rw [receipt, same.noBuy w, if_neg Bool.false_ne_true, Nat.add_zero]
    exact congrFun (same.reading (fun _ c => c) rfl) _

/-- What a wallet's record has contributed is what its orders took from the wallet. -/
theorem contributed_eq_spent {s₀ : State} {h : History} (fresh : Fresh s₀)
    (run : presale.Run s₀ h s) (w : Pubkey) :
    s.users.reading UserAccount.userSolContributed (.userRole w) = spentBy w h := by
  refine run.invariant (fun h s =>
    s.users.reading UserAccount.userSolContributed (.userRole w) = spentBy w h) ?_ ?_
  · simp [fresh.users, Ledger.reading, spentBy]
  · intro h s i s' o hrun ih hstep
    rw [(coherent_of_run fresh hrun).contributed_step (effect_of_step hstep) w, ih]
    simp [spentBy]

/-- A record only changes what it has bought and paid in an order its wallet signs, and only
upwards. -/
theorem Coherent.holding_step (c : Coherent s) (h : Effect s i s' log) {w : Pubkey}
    {u : UserAccount} (hu : s.users.lookup (.userRole w) = some u) :
    ∃ u', s'.users.lookup (.userRole w) = some u' ∧
      u.userSolContributed ≤ u'.userSolContributed ∧
      (u'.userSolContributed ≠ u.userSolContributed ∨ u'.userBuyAmount ≠ u.userBuyAmount →
        ∃ cx a amount, i = .instruction cx (.buyToken a amount) ∧ a.authority = w ∧
          cx.signed w) := by
  cases c.money_step h with
  | @buy cx a amount p v ok =>
    rcases eq_or_ne w a.authority with rfl | hw
    · obtain rfl := Option.mem_unique hu ok.user
      exact ⟨_, Finmap.lookup_insert _, Nat.le_add_right _ _,
        fun _ => ⟨cx, a, amount, rfl, rfl, ok.signed⟩⟩
    · refine ⟨u, by rw [lookup_afterBuy_of_ne hw, hu], le_rfl, ?_⟩
      rintro (hne | hne) <;> exact absurd rfl hne
  | refund ok =>
    refine ⟨u, hu, le_rfl, ?_⟩
    rintro (hne | hne) <;> exact absurd rfl hne
  | quiet same =>
    obtain ⟨u', hu', hbuy, hsol⟩ := same.lookup _ _ hu
    refine ⟨u', hu', hsol.ge, ?_⟩
    rintro (hne | hne)
    · exact absurd hsol hne
    · exact absurd hbuy hne

/-! ## The log and the balances -/

/-- What a payment takes out of its source for another account is what the source has less. -/
theorem move_src_add_leaving {b : Pubkey → ℕ} {src : Pubkey} (dst : Pubkey) {n : ℕ}
    (hn : n ≤ b src) :
    move b src dst n src + sumOf (lamportsLeaving src) [.lamports src dst n] = b src := by
  simp only [sumOf_cons, sumOf_nil, lamportsLeaving, true_and, Nat.add_zero]
  rcases eq_or_ne dst src with rfl | hne
  · rw [move_self hn, if_neg (not_not_intro rfl), Nat.add_zero]
  · rw [move_src n hne.symm, if_pos hne, Nat.sub_add_cancel hn]

/-- An order takes from the wallet that signs it what its log says. -/
theorem order_debits (h : Effect s i s' log) {w : Pubkey} (hw : buysFor w i = true) :
    s'.lamports w + sumOf (lamportsOutOf w) log = s.lamports w := by
  cases h with
  | @buy cx a amount p u ok =>
    obtain rfl : a.authority = w := of_decide_eq_true hw
    have hcost : (fillOf p amount.toNat).cost ≤ s.lamports a.authority :=
      fill_cost_le.trans ok.funded
    have hlog : sumOf (lamportsOutOf a.authority) (buyLog cx a amount.toNat p) =
        (fillOf p amount.toNat).cost := by simp [buyLog, lamportsOutOf]
    have hmoved : (afterBuy a amount.toNat s p u).lamports =
        settle s.lamports (buyLog cx a amount.toNat p) := (Effect.buy ok).lamports_of_log
    rw [hmoved, hlog]
    simp only [buyLog, settle, List.foldl_cons, List.foldl_nil,
      move_src _ ok.authority_ne_escrow, Nat.sub_add_cancel hcost]
  | _ => exact absurd hw Bool.false_ne_true

/-- A refund takes from the escrow what its log says it pays to another account. -/
theorem refund_debits (h : Effect s i s' log) (hi : refundsAny i = true) :
    s'.lamports .escrowVault + sumOf (lamportsLeaving .escrowVault) log =
      s.lamports .escrowVault := by
  cases h with
  | refundNothing ok hzero => rfl
  | @refund cx a p u ok =>
    have hmoved := (Effect.refund ok).lamports_of_log
    rw [hmoved]
    exact move_src_add_leaving a.userToRefund ok.funded
  | _ => exact absurd hi Bool.false_ne_true

/-! ## The ledger of the presale -/

/-- What a refund that pays takes out of the escrow, as its log says. -/
theorem receipt_of_refund (s : State) (cx : Context) (a : RefundToken) (n : ℕ) :
    receipt refundsAny (lamportsOutOf .escrowVault)
      ⟨s, .instruction cx (.refundToken a), [.lamports .escrowVault a.userToRefund n]⟩ = n := by
  simp [receipt, refundsAny, lamportsOutOf]

/-- A step keeps the total and the contributions in balance, counting what it refunds. -/
theorem Coherent.total_step (c : Coherent s) (h : Effect s i s' log) :
    field PresaleAccount.totalSolAmount s' +
        receipt refundsAny (lamportsOutOf .escrowVault) ⟨s, i, log⟩ +
          s.users.total UserAccount.userSolContributed =
      field PresaleAccount.totalSolAmount s + s'.users.total UserAccount.userSolContributed := by
  cases c.money_step h with
  | @buy cx a amount p u ok =>
    have htotal : (afterBuy a amount.toNat s p u).users.total UserAccount.userSolContributed +
        u.userSolContributed = s.users.total UserAccount.userSolContributed +
          (u.userSolContributed + (fillOf p amount.toNat).cost) :=
      Ledger.total_insert_of_lookup _ _ ok.user
    have hreceipt : receipt refundsAny (lamportsOutOf .escrowVault)
        ⟨s, .instruction cx (.buyToken a amount), buyLog cx a amount.toNat p⟩ = 0 := rfl
    have hsol : field PresaleAccount.totalSolAmount (afterBuy a amount.toNat s p u) =
        p.totalSolAmount + (fillOf p amount.toNat).cost := rfl
    rw [field_of_presale ok.presale, hreceipt, hsol]
    omega
  | @refund cx a p u ok =>
    have hsol : field PresaleAccount.totalSolAmount (afterRefund a s p u) =
        p.totalSolAmount - u.userSolContributed := rfl
    rw [field_of_presale ok.presale, receipt_of_refund, hsol, Nat.sub_add_cancel ok.totalSol]
    rfl
  | quiet same =>
    have htotal : s'.users.total UserAccount.userSolContributed =
        s.users.total UserAccount.userSolContributed := same.total (fun _ c => c) rfl
    rw [same.noRefund, same.totalSol, htotal, Nat.add_zero]

end Step

/-- The total of the presale and the refunds paid so far are together what the accounts have
contributed. -/
theorem total_add_refunds {s₀ s : State} {h : History} (fresh : Fresh s₀)
    (run : presale.Run s₀ h s) :
    field PresaleAccount.totalSolAmount s + allRefundsPaid h =
      s.users.total UserAccount.userSolContributed := by
  refine run.invariant (fun h s => field PresaleAccount.totalSolAmount s + allRefundsPaid h =
    s.users.total UserAccount.userSolContributed) ?_ ?_
  · simp [field, fresh.presale, fresh.users, allRefundsPaid]
  · intro h s i s' o hrun ih hstep
    have balance := (coherent_of_run fresh hrun).total_step (effect_of_step hstep)
    simp only [allRefundsPaid, tally_append, tally_cons, tally_nil, Nat.add_zero] at ih ⊢
    omega

/-- The SOL ledger: every account's contribution is what its wallet's own orders took from the
wallet, a step changes a contribution or an allocation only in an order that the wallet signs,
and contributions never fall; what the logs of orders and refunds say is what the balances of the
wallet and of the escrow have less; and the total and the refunds paid are together what all
accounts have contributed, so refunds never exceed contributions.
SRC: buy_token.rs:4-105, refund_token.rs:29-48 -/
theorem sol_ledger (e : Execution) :
    (∀ k u, e.final.users.lookup k = some u →
      k = .userRole u.publicKey ∧ u.userSolContributed = spentBy u.publicKey e.history) ∧
    (∀ w u i s' log, e.final.users.lookup (.userRole w) = some u →
      presale.step e.final i = .ok (s', log) →
        ∃ u', s'.users.lookup (.userRole w) = some u' ∧
          u.userSolContributed ≤ u'.userSolContributed ∧
          (u'.userSolContributed ≠ u.userSolContributed ∨ u'.userBuyAmount ≠ u.userBuyAmount →
            ∃ cx a amount, i = .instruction cx (.buyToken a amount) ∧ a.authority = w ∧
              cx.signed w)) ∧
    (∀ i s' log, presale.step e.final i = .ok (s', log) →
      (∀ w, buysFor w i = true →
        s'.lamports w + sumOf (lamportsOutOf w) log = e.final.lamports w) ∧
      (refundsAny i = true →
        s'.lamports .escrowVault + sumOf (lamportsLeaving .escrowVault) log =
          e.final.lamports .escrowVault)) ∧
    (∀ p, e.final.presale = some p →
      p.totalSolAmount + allRefundsPaid e.history =
        e.final.users.total UserAccount.userSolContributed) ∧
    allRefundsPaid e.history ≤ e.final.users.total UserAccount.userSolContributed := by
  have c := coherent_of_run e.fresh e.run
  have balance := total_add_refunds e.fresh e.run
  refine ⟨?_, ?_, ?_, ?_, ?_⟩
  · intro k u hu
    refine ⟨(c.users k u hu).key, ?_⟩
    rw [← contributed_eq_spent e.fresh e.run, ← (c.users k u hu).key, Ledger.reading_of_lookup hu]
  · intro w u i s' log hu hstep
    exact c.holding_step (effect_of_step hstep) hu
  · intro i s' log hstep
    have effect := effect_of_step hstep
    exact ⟨fun w hw => order_debits effect hw, fun hi => refund_debits effect hi⟩
  · intro p hp
    rw [← balance, field_of_presale hp]
  · omega

end TokenPresale.Analysis
