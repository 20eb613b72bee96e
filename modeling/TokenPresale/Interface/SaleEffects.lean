import TokenPresale.Model.Sale

/-!
# What buying, refunding and claiming do

For each handler, the checks it makes, as a structure on the state before the call, the state
and the log it leaves, and the lemma that it succeeds exactly when the checks pass and then
leaves that state.
-/

set_option autoImplicit false

namespace TokenPresale.Interface

open TokenPresale.Library TokenPresale.Model

/-- A key that has signed is not the escrow. -/
theorem ne_escrow_of_signed {cx : Context} {k : Pubkey} (h : cx.signed k) :
    k ≠ .escrowVault := by
  rintro rfl
  simp [Context.signed, Pubkey.isPda] at h

/-! ## `buy_token` -/

/-- An order succeeds unless its product overflows or it divides by a zero rate, and it is
then filled at the fixed price from the remaining pool.
SRC: buy_token.rs:49-59 -/
theorem order_eq_ok {p : PresaleAccount} {n : ℕ} {r : Fill × ℕ} :
    order p n = .ok r ↔
      p.presaleRate * n < 2 ^ 64 ∧
        (p.totalTokenRemained ≤ p.presaleRate * n → 0 < p.presaleRate) ∧
          (fill p.presaleRate p.totalTokenRemained n,
            if p.totalTokenRemained ≤ p.presaleRate * n then 1 else p.isHardcapped) = r := by
  unfold order
  simp only [bind_eq_ok, checkedMul_eq_ok]
  by_cases h : p.totalTokenRemained ≤ p.presaleRate * n
  · rw [fill_of_le h]
    constructor
    · rintro ⟨_, ⟨hprod, rfl⟩, hrest⟩
      simp only [if_pos h, bind_eq_ok, checkedDiv_eq_ok, pure_eq_ok] at hrest ⊢
      obtain ⟨_, ⟨hrate, rfl⟩, rfl⟩ := hrest
      exact ⟨hprod, fun _ => hrate, rfl⟩
    · rintro ⟨hprod, hrate, rfl⟩
      refine ⟨_, ⟨hprod, rfl⟩, ?_⟩
      simp only [if_pos h, bind_eq_ok, checkedDiv_eq_ok, pure_eq_ok]
      exact ⟨_, ⟨hrate h, rfl⟩, rfl⟩
  · rw [fill_of_lt (Nat.not_le.mp h)]
    constructor
    · rintro ⟨_, ⟨hprod, rfl⟩, hrest⟩
      simp only [if_neg h, pure_eq_ok] at hrest ⊢
      exact ⟨hprod, fun hle => absurd hle h, hrest⟩
    · rintro ⟨hprod, -, rfl⟩
      refine ⟨_, ⟨hprod, rfl⟩, ?_⟩
      simp only [if_neg h, pure_eq_ok]

/-- The participant counter goes up for a buyer without tokens, unless it is full.
SRC: buy_token.rs:75-77 -/
theorem countParticipant_eq_ok {p : PresaleAccount} {u : UserAccount} {n : ℕ} :
    countParticipant p u = .ok n ↔
      (u.userBuyAmount = 0 → p.totalParticipants + 1 < 2 ^ 32) ∧
        (if u.userBuyAmount = 0 then p.totalParticipants + 1 else p.totalParticipants) = n := by
  by_cases h : u.userBuyAmount = 0 <;> simp [countParticipant, h, checkedAdd_eq_ok]

/-- An order is refused when its product overflows, or when it divides by a zero rate.
SRC: buy_token.rs:49-55 -/
theorem order_eq_error {p : PresaleAccount} {n : ℕ} {e : ProgramError} :
    order p n = .error e ↔
      2 ^ 64 ≤ p.presaleRate * n ∧ .panic .tokensToAllocate = e ∨
        p.presaleRate * n < 2 ^ 64 ∧ p.totalTokenRemained ≤ p.presaleRate * n ∧
          p.presaleRate = 0 ∧ .panic .solToTransfer = e := by
  unfold order
  simp only [bind_eq_error, checkedMul_eq_error, checkedMul_eq_ok]
  apply or_congr_right
  constructor
  · rintro ⟨_, ⟨hprod, rfl⟩, hrest⟩
    by_cases h : p.totalTokenRemained ≤ p.presaleRate * n
    · simp only [if_pos h, bind_eq_error, checkedDiv_eq_error, pure_eq_error, and_false,
        exists_false, or_false] at hrest
      exact ⟨hprod, h, hrest⟩
    · simp only [if_neg h, pure_eq_error] at hrest
  · rintro ⟨hprod, h, hrate⟩
    refine ⟨_, ⟨hprod, rfl⟩, ?_⟩
    simp only [if_pos h, bind_eq_error, checkedDiv_eq_error]
    exact .inl hrate

/-- Counting a participant fails exactly on a first purchase at the largest count. -/
theorem countParticipant_eq_error {p : PresaleAccount} {u : UserAccount} {e : ProgramError} :
    countParticipant p u = .error e ↔
      u.userBuyAmount = 0 ∧ 2 ^ 32 ≤ p.totalParticipants + 1 ∧
        .panic .totalParticipants = e := by
  by_cases h : u.userBuyAmount = 0 <;> simp [countParticipant, h, checkedAdd_eq_error]

/-- What an order of `n` lamports is filled with in the state of the record `p`. -/
def fillOf (p : PresaleAccount) (n : ℕ) : Fill := fill p.presaleRate p.totalTokenRemained n

/-- The checks of `buy_token` on an order of `n` lamports.
SRC: buy_token.rs:4-96 -/
structure BuyAccepted (cx : Context) (a : BuyToken) (n : ℕ) (s : State) (p : PresaleAccount)
    (u : UserAccount) : Prop where
  escrowAccount : a.escrowAccount = .escrowVault
  presaleAccount : a.presaleAccount = .presaleInfo
  presale : s.presale = some p
  userAccount : a.userAccount = .userRole a.authority
  user : s.users.lookup (.userRole a.authority) = some u
  signed : cx.signed a.authority
  started : p.startTime ≤ cx.now
  notEnded : cx.now ≤ p.endTime
  notCancelled : p.isCancelled ≠ 1
  whitelisted : u.isWhitelisted = true
  withinMax : n ≤ p.userMaxBuy
  funded : n ≤ s.lamports a.authority
  product : p.presaleRate * n < 2 ^ 64
  quotient : p.totalTokenRemained ≤ p.presaleRate * n → 0 < p.presaleRate
  credit : s.lamports .escrowVault + (fillOf p n).cost < 2 ^ 64
  participants : u.userBuyAmount = 0 → p.totalParticipants + 1 < 2 ^ 32
  totalSol : p.totalSolAmount + (fillOf p n).cost < 2 ^ 64
  userSol : u.userSolContributed + (fillOf p n).cost < 2 ^ 64
  userBuy : u.userBuyAmount + (fillOf p n).tokens < 2 ^ 64

/-- The presale record after an order of `n` lamports by the holder of `u`.
SRC: buy_token.rs:53-96 -/
def presaleAfterBuy (p : PresaleAccount) (u : UserAccount) (n : ℕ) : PresaleAccount :=
  { p with
    totalParticipants :=
      if u.userBuyAmount = 0 then p.totalParticipants + 1 else p.totalParticipants
    totalSolAmount := p.totalSolAmount + (fillOf p n).cost
    totalTokenRemained := p.totalTokenRemained - (fillOf p n).tokens
    isHardcapped := if p.totalTokenRemained ≤ p.presaleRate * n then 1 else p.isHardcapped
    isSoftcapped :=
      if p.totalTokenRemained - (fillOf p n).tokens < p.softCap then
        if p.isSoftcapped = 0 then 1 else p.isSoftcapped
      else p.isSoftcapped }

/-- The user record after an order filled with `f`.
SRC: buy_token.rs:83-86 -/
def userAfterBuy (u : UserAccount) (f : Fill) : UserAccount :=
  { u with userSolContributed := u.userSolContributed + f.cost
           userBuyAmount := u.userBuyAmount + f.tokens }

/-- The state after `buy_token`: the price paid into the escrow and both records written. -/
def afterBuy (a : BuyToken) (n : ℕ) (s : State) (p : PresaleAccount) (u : UserAccount) : State :=
  { s with
    lamports := move s.lamports a.authority .escrowVault (fillOf p n).cost
    presale := some (presaleAfterBuy p u n)
    users := s.users.insert (.userRole a.authority) (userAfterBuy u (fillOf p n)) }

/-- The log of `buy_token`: the payment of the price and the event. -/
def buyLog (cx : Context) (a : BuyToken) (n : ℕ) (p : PresaleAccount) : List LogEntry :=
  [.lamports a.authority .escrowVault (fillOf p n).cost,
   .userBought a.authority (fillOf p n).cost cx.timeStamp]

/-- A buyer, having signed, is not the escrow. -/
theorem BuyAccepted.authority_ne_escrow {cx : Context} {a : BuyToken} {n : ℕ} {s : State}
    {p : PresaleAccount} {u : UserAccount} (h : BuyAccepted cx a n s p u) :
    a.authority ≠ .escrowVault :=
  ne_escrow_of_signed h.signed

/-- `buy_token` succeeds exactly on the orders it accepts.
SRC: buy_token.rs:31-105 -/
theorem buyTokenHandler_eq_ok {cx : Context} {a : BuyToken} {amount : UInt64} {s : State}
    {out : Outcome} :
    buyTokenHandler cx a amount s = .ok out ↔
      ∃ p u, BuyAccepted cx a amount.toNat s p u ∧
        (afterBuy a amount.toNat s p u, buyLog cx a amount.toNat p) = out := by
  unfold buyTokenHandler
  simp only [bind_eq_ok, requireSeeds_eq_ok, loadPresale_eq_ok, loadUser_eq_ok,
    requireSigner_eq_ok, isPresaleLive_eq_ok, failIf_eq_ok, order_eq_ok, systemTransfer_eq_ok,
    countParticipant_eq_ok, checkedAdd_eq_ok, checkedSub_eq_ok, pure_eq_ok, exists_const]
  constructor
  · rintro ⟨hesc, p, ⟨hpre, hp⟩, huser, u, hu, hsig, ⟨hstart, hend⟩, hcan, hwl, hmax, hfund,
      _, ⟨hprod, hquo, rfl⟩, _, ⟨hle, hcredit, rfl⟩, _, ⟨htp, rfl⟩, _, ⟨htot, rfl⟩, _,
      ⟨hus, rfl⟩, _, ⟨hub, rfl⟩, _, ⟨-, rfl⟩, rfl⟩
    rw [hesc] at hcredit
    rw [huser] at hu
    have hne : a.authority ≠ .escrowVault := ne_escrow_of_signed hsig
    rw [move_dst _ hne] at hcredit
    refine ⟨p, u, ⟨hesc, hpre, hp, huser, hu, hsig, hstart, hend, hcan, ?_, Nat.not_lt.mp hmax,
      Nat.not_lt.mp hfund, hprod, hquo, hcredit, htp, htot, hus, hub⟩, ?_⟩
    · simpa using hwl
    · rw [hesc, huser]
      rfl
  · rintro ⟨p, u, h, rfl⟩
    have hne := h.authority_ne_escrow
    refine ⟨h.escrowAccount, p, ⟨h.presaleAccount, h.presale⟩, h.userAccount, u,
      by rw [h.userAccount]; exact h.user, h.signed, ⟨h.started, h.notEnded⟩, h.notCancelled,
      by simp [h.whitelisted], Nat.not_lt.mpr h.withinMax, Nat.not_lt.mpr h.funded,
      _, ⟨h.product, h.quotient, rfl⟩, _,
      ⟨fill_cost_le.trans h.funded, ?_, rfl⟩, _, ⟨h.participants, rfl⟩, _, ⟨h.totalSol, rfl⟩, _,
      ⟨h.userSol, rfl⟩, _, ⟨h.userBuy, rfl⟩, _, ⟨fill_tokens_le, rfl⟩, ?_⟩
    · rw [h.escrowAccount, move_dst _ hne]
      exact h.credit
    · rw [h.escrowAccount, h.userAccount]
      rfl

/-- The subtraction from the pool never underflows, and the addition to the buyer's tokens
overflows only on a record and a fill whose sum does not fit.
SRC: buy_token.rs:85-87 -/
theorem buyTokenHandler_panic {cx : Context} {a : BuyToken} {amount : UInt64} {s : State}
    {e : Arith} (h : buyTokenHandler cx a amount s = .error (.panic e)) :
    e ≠ .totalTokenRemained ∧ (e = .userBuyAmount → ∃ p u, s.presale = some p ∧
      s.users.lookup a.userAccount = some u ∧
        2 ^ 64 ≤ u.userBuyAmount + (fillOf p amount.toNat).tokens) := by
  unfold buyTokenHandler at h
  simp only [bind_eq_error, requireSeeds_eq_error, requireSeeds_eq_ok,
    loadPresale_eq_error, loadPresale_eq_ok, loadUser_eq_error, loadUser_eq_ok,
    requireSigner_eq_error, requireSigner_eq_ok, isPresaleLive_eq_error, isPresaleLive_eq_ok,
    failIf_eq_error, failIf_eq_ok, order_eq_error, order_eq_ok, systemTransfer_eq_error,
    systemTransfer_eq_ok, countParticipant_eq_error, countParticipant_eq_ok,
    checkedAdd_eq_error, checkedAdd_eq_ok, checkedSub_eq_error, checkedSub_eq_ok, pure_eq_error,
    exists_const, reduceCtorEq, and_false, false_or, or_false, ProgramError.panic.injEq] at h
  obtain ⟨-, p, ⟨-, hp⟩, -, u, hu, -, -, -, -, -, -, hbody⟩ := h
  rcases hbody with (⟨-, rfl⟩ | ⟨-, -, -, rfl⟩) | ⟨_, ⟨-, -, rfl⟩, _, -, hbody⟩
  · simp
  · simp
  rcases hbody with ⟨-, -, rfl⟩ | ⟨_, -, hbody⟩
  · simp
  rcases hbody with ⟨-, rfl⟩ | ⟨_, -, hbody⟩
  · simp
  rcases hbody with ⟨-, rfl⟩ | ⟨_, -, hbody⟩
  · simp
  rcases hbody with ⟨hover, rfl⟩ | ⟨_, -, hunder, -⟩
  · exact ⟨by simp, fun _ => ⟨p, u, hp, hu, hover⟩⟩
  · exact absurd fill_tokens_le (Nat.not_le.mpr hunder)

/-- The system program never refuses the transfer for lack of funds: the price of an order is at
most the amount that was offered, and the buyer was seen to have that.
SRC: buy_token.rs:43-73 -/
theorem buyTokenHandler_ne_negative {cx : Context} {a : BuyToken} {amount : UInt64} {s : State} :
    buyTokenHandler cx a amount s ≠ .error (.runtime .ResultWithNegativeLamports) := by
  intro h
  unfold buyTokenHandler at h
  simp only [bind_eq_error, requireSeeds_eq_error, requireSeeds_eq_ok,
    loadPresale_eq_error, loadPresale_eq_ok, loadUser_eq_error, loadUser_eq_ok,
    requireSigner_eq_error, requireSigner_eq_ok, isPresaleLive_eq_error, isPresaleLive_eq_ok,
    failIf_eq_error, failIf_eq_ok, order_eq_error, order_eq_ok, systemTransfer_eq_error,
    systemTransfer_eq_ok, countParticipant_eq_error, countParticipant_eq_ok,
    checkedAdd_eq_error, checkedAdd_eq_ok, checkedSub_eq_error, checkedSub_eq_ok, pure_eq_error,
    exists_const, reduceCtorEq, and_false, false_or, or_false, exists_false, and_true,
    ProgramError.runtime.injEq] at h
  obtain ⟨-, p, -, -, u, -, -, -, -, -, -, hfunded, _, ⟨-, -, rfl⟩, hpoor⟩ := h
  have hcost : (fill p.presaleRate p.totalTokenRemained amount.toNat).cost ≤ amount.toNat :=
    fill_cost_le
  exact absurd hpoor (Nat.not_lt.mpr (hcost.trans (Nat.not_lt.mp hfunded)))

/-! ## `refund_token` -/

/-- The checks every `refund_token` call makes.
SRC: refund_token.rs:4-32 -/
structure RefundAccepted (cx : Context) (a : RefundToken) (s : State) (p : PresaleAccount)
    (u : UserAccount) : Prop where
  escrowAccount : a.escrowAccount = .escrowVault
  presaleAccount : a.presaleAccount = .presaleInfo
  presale : s.presale = some p
  user : s.users.lookup a.userAccount = some u
  signed : cx.signed a.authority
  cancelled : p.isCancelled ≠ 0

/-- The checks of a `refund_token` call that pays.
SRC: refund_token.rs:33-46 -/
structure RefundPays (cx : Context) (a : RefundToken) (s : State) (p : PresaleAccount)
    (u : UserAccount) : Prop extends RefundAccepted cx a s p u where
  positive : 0 < u.userSolContributed
  funded : u.userSolContributed ≤ s.lamports .escrowVault
  credit :
    move s.lamports .escrowVault a.userToRefund u.userSolContributed a.userToRefund < 2 ^ 64
  owned : a.userToRefund ≠ .escrowVault → s.owner .escrowVault = .tokenPresale
  totalSol : u.userSolContributed ≤ p.totalSolAmount
  participants : 0 < p.totalParticipants

/-- The presale record after a refund of `n` lamports. The user record stays as it was.
SRC: refund_token.rs:45-46 -/
def presaleAfterRefund (p : PresaleAccount) (n : ℕ) : PresaleAccount :=
  { p with totalSolAmount := p.totalSolAmount - n
           totalParticipants := p.totalParticipants - 1 }

/-- The state after `refund_token`: the contribution paid out, and the sale's total and its
participants lowered. -/
def afterRefund (a : RefundToken) (s : State) (p : PresaleAccount) (u : UserAccount) : State :=
  { s with
    lamports := move s.lamports .escrowVault a.userToRefund u.userSolContributed
    presale := some (presaleAfterRefund p u.userSolContributed) }

/-- The runtime's rule on debits only matters for a debit that is not undone by the credit. -/
theorem debit_rule_iff {b : Pubkey → ℕ} {src dst : Pubkey} {n : ℕ} {q : Prop} (hn : 0 < n)
    (hle : n ≤ b src) : (move b src dst n src < b src → q) ↔ (dst ≠ src → q) := by
  rcases eq_or_ne dst src with rfl | hne
  · simp [move_self hle]
  · rw [move_src n hne.symm]
    have : b src - n < b src := by omega
    simp [this, hne]

/-- `refund_token` succeeds without paying on a record that contributed nothing, and
otherwise exactly when the checks of a paying call pass.
SRC: refund_token.rs:29-48 -/
theorem refundTokenHandler_eq_ok {cx : Context} {a : RefundToken} {s : State} {out : Outcome} :
    refundTokenHandler cx a s = .ok out ↔
      (∃ p u, RefundAccepted cx a s p u ∧ u.userSolContributed = 0 ∧ (s, []) = out) ∨
        ∃ p u, RefundPays cx a s p u ∧
          (afterRefund a s p u,
            [.lamports .escrowVault a.userToRefund u.userSolContributed]) = out := by
  unfold refundTokenHandler
  simp only [bind_eq_ok, requireSeeds_eq_ok, loadPresale_eq_ok,
    loadUser_eq_ok, requireSigner_eq_ok, failIf_eq_ok, exists_const]
  constructor
  · rintro ⟨hesc, p, ⟨hpre, hp⟩, u, hu, hsig, hcan, hpay⟩
    have hacc : RefundAccepted cx a s p u := ⟨hesc, hpre, hp, hu, hsig, hcan⟩
    rw [hesc] at hpay
    by_cases hzero : u.userSolContributed = 0
    · rw [if_pos hzero, pure_eq_ok] at hpay
      exact .inl ⟨p, u, hacc, hzero, hpay⟩
    · simp only [if_neg hzero, bind_eq_ok, failIf_eq_ok, moveLamports_eq_ok, checkedSub_eq_ok,
        pure_eq_ok, exists_const] at hpay
      obtain ⟨-, _, ⟨hle, hcredit, hown, rfl⟩, _, ⟨htot, rfl⟩, _, ⟨hpart, rfl⟩, rfl⟩ := hpay
      have hpos := Nat.pos_of_ne_zero hzero
      exact .inr ⟨p, u, ⟨hacc, hpos, hle, hcredit, (debit_rule_iff hpos hle).mp hown, htot,
        hpart⟩, rfl⟩
  · rintro (⟨p, u, h, hzero, rfl⟩ | ⟨p, u, h, rfl⟩)
    · refine ⟨h.escrowAccount, p, ⟨h.presaleAccount, h.presale⟩, u, h.user, h.signed,
        h.cancelled, ?_⟩
      rw [if_pos hzero]
      rfl
    · refine ⟨h.escrowAccount, p, ⟨h.presaleAccount, h.presale⟩, u, h.user, h.signed,
        h.cancelled, ?_⟩
      simp only [h.escrowAccount, if_neg h.positive.ne', bind_eq_ok, failIf_eq_ok,
        moveLamports_eq_ok, checkedSub_eq_ok, pure_eq_ok, exists_const]
      exact ⟨Nat.not_lt.mpr h.funded, _, ⟨h.funded, h.credit,
        (debit_rule_iff h.positive h.funded).mpr h.owned, rfl⟩, _, ⟨h.totalSol, rfl⟩, _,
        ⟨h.participants, rfl⟩, rfl⟩

/-! ## `claim_token` -/

/-- The checks of `claim_token`.
SRC: claim_token.rs:4-74 -/
structure ClaimAccepted (cx : Context) (a : ClaimToken) (s : State) (p : PresaleAccount)
    (u : UserAccount) (v t : TokenAccount) : Prop where
  mint : s.mints a.tokenMint = true
  tokenTo : s.tokens a.tokenTo = some t
  tokenVault : a.tokenVault = .tokenVault a.tokenMint
  vault : s.tokens (.tokenVault a.tokenMint) = some v
  presaleAccount : a.presaleAccount = .presaleInfo
  presale : s.presale = some p
  userAccount : a.userAccount = .userRole a.userTo
  user : s.users.lookup (.userRole a.userTo) = some u
  signed : cx.signed a.authority
  finalized : p.isFinalized ≠ 0
  positive : 0 < u.userBuyAmount
  whitelisted : u.isWhitelisted = true
  backed : u.userBuyAmount ≤ v.amount
  sameMint : v.mint = t.mint
  holder : v.owner = a.authority

/-- The state after a claim: the flag is set, the allocation stays.
SRC: claim_token.rs:64-75 -/
def afterClaim (a : ClaimToken) (s : State) (u : UserAccount) : State :=
  { s with
    tokens := moveTokens s.tokens (.tokenVault a.tokenMint) a.tokenTo u.userBuyAmount
    users := s.users.insert (.userRole a.userTo) { u with isClaimed := 1 } }

/-- The log of `claim_token`: the transfer of the tokens and the event. -/
def claimLog (cx : Context) (a : ClaimToken) (u : UserAccount) : List LogEntry :=
  [.tokens (.tokenVault a.tokenMint) a.tokenTo u.userBuyAmount,
   .userClaimed a.authority u.userBuyAmount cx.timeStamp]

/-- `claim_token` succeeds exactly when its checks pass.
SRC: claim_token.rs:43-83 -/
theorem claimTokenHandler_eq_ok {cx : Context} {a : ClaimToken} {s : State} {out : Outcome} :
    claimTokenHandler cx a s = .ok out ↔
      ∃ p u v t, ClaimAccepted cx a s p u v t ∧
        (afterClaim a s u, claimLog cx a u) = out := by
  unfold claimTokenHandler
  simp only [bind_eq_ok, loadMint_eq_ok, loadToken_eq_ok, requireSeeds_eq_ok,
    loadPresale_eq_ok, loadUser_eq_ok, requireSigner_eq_ok, isFinalized_eq_ok, failIf_eq_ok,
    tokenTransfer_eq_ok, pure_eq_ok, exists_const]
  constructor
  · rintro ⟨hmint, t, hto, hvk, v, hv, p, ⟨hpre, hp⟩, huk, u, hu, hsig, hfin, hpos, hwl, hback,
      _, ⟨f, t', hf, ht, -, hsame, hown, rfl⟩, rfl⟩
    obtain rfl : v = f := Option.mem_unique hv hf
    obtain rfl : t = t' := Option.mem_unique hto ht
    rw [hvk] at hv
    rw [huk] at hu
    refine ⟨p, u, v, t, ⟨hmint, hto, hvk, hv, hpre, hp, huk, hu, hsig, hfin,
      Nat.pos_of_ne_zero hpos, by simpa using hwl, Nat.not_lt.mp hback, hsame, hown⟩, ?_⟩
    rw [hvk, huk]
    rfl
  · rintro ⟨p, u, v, t, h, rfl⟩
    have hv : s.tokens a.tokenVault = some v := by rw [h.tokenVault]; exact h.vault
    have hu : s.users.lookup a.userAccount = some u := by rw [h.userAccount]; exact h.user
    refine ⟨h.mint, t, h.tokenTo, h.tokenVault, v, hv, p, ⟨h.presaleAccount, h.presale⟩,
      h.userAccount, u, hu, h.signed, h.finalized, h.positive.ne', by simp [h.whitelisted],
      Nat.not_lt.mpr h.backed, _,
      ⟨v, t, hv, h.tokenTo, h.backed, h.sameMint, h.holder, rfl⟩, ?_⟩
    rw [h.tokenVault, h.userAccount]
    rfl

end TokenPresale.Interface
