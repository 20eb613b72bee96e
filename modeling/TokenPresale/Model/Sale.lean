import TokenPresale.Model.Runtime

/-!
# Buying, refunding and claiming

The three instructions a buyer's money goes through: `buy_token`, `refund_token` and
`claim_token`, with the checks of `state.rs` they use. A handler first makes the account
checks of its `Accounts` structure, then runs its body.

The account checks stand in the order of the fields. Anchor makes them in rounds (it loads all the
accounts before it compares the first seeds), so on a call that fails several of them the error
here may be another one of Anchor's. Which calls pass them, and which error of the program itself
comes after them, does not depend on the order.
-/

set_option autoImplicit false

namespace TokenPresale.Model

open TokenPresale.Library

/-- What a handler returns: the state it leaves and its log. -/
abbrev Outcome := State × List LogEntry

/-! ## Checks of `state.rs` -/

/-- SRC: state.rs:97-105 -/
def isAdmin (adminAccount : AdminAccount) (signer : Pubkey) : Except ProgramError Unit :=
  failIf (adminAccount.superAdmin ≠ signer) (.program .AccessDenied)

/-- SRC: state.rs:107-112 -/
def isFinalized (presaleAccount : PresaleAccount) : Except ProgramError Unit :=
  failIf (presaleAccount.isFinalized = 0) (.program .PresaleNotFinished)

/-- No handler calls this check; each has its own test of the flag.
SRC: state.rs:114-119 -/
def isCancelled (presaleAccount : PresaleAccount) : Except ProgramError Unit :=
  failIf (presaleAccount.isCancelled ≠ 1) (.program .PresaleNotCancelled)

/-- SRC: state.rs:121-129 -/
def isPresaleLive (cx : Context) (presaleAccount : PresaleAccount) : Except ProgramError Unit := do
  failIf (presaleAccount.startTime > cx.now) (.program .PresaleNotStarted)
  failIf (presaleAccount.endTime < cx.now) (.program .PresaleAlreadyEnded)

/-- The admin check passes exactly for the recorded admin. -/
theorem isAdmin_eq_ok {a : AdminAccount} {k : Pubkey} {u : Unit} :
    isAdmin a k = .ok u ↔ a.superAdmin = k := by
  simp [isAdmin, failIf_eq_ok]

/-- The admin check denies everyone but the recorded admin. -/
theorem isAdmin_eq_error {a : AdminAccount} {k : Pubkey} {e : ProgramError} :
    isAdmin a k = .error e ↔ a.superAdmin ≠ k ∧ .program .AccessDenied = e :=
  failIf_eq_error

/-- The finalization check passes exactly when the flag is set. -/
theorem isFinalized_eq_ok {p : PresaleAccount} {u : Unit} :
    isFinalized p = .ok u ↔ p.isFinalized ≠ 0 := failIf_eq_ok

/-- The cancellation check passes exactly when the flag is one. -/
theorem isCancelled_eq_ok {p : PresaleAccount} {u : Unit} :
    isCancelled p = .ok u ↔ p.isCancelled = 1 := by
  simp [isCancelled, failIf_eq_ok]

/-- The sale is live exactly inside its window, both ends included. -/
theorem isPresaleLive_eq_ok {cx : Context} {p : PresaleAccount} {u : Unit} :
    isPresaleLive cx p = .ok u ↔ p.startTime ≤ cx.now ∧ cx.now ≤ p.endTime := by
  simp [isPresaleLive, bind_eq_ok, failIf_eq_ok]

/-- A buy outside the window of the sale is told which side of it it is on. -/
theorem isPresaleLive_eq_error {cx : Context} {p : PresaleAccount} {e : ProgramError} :
    isPresaleLive cx p = .error e ↔
      cx.now < p.startTime ∧ .program .PresaleNotStarted = e ∨
        p.startTime ≤ cx.now ∧ p.endTime < cx.now ∧ .program .PresaleAlreadyEnded = e := by
  simp [isPresaleLive, bind_eq_error, failIf_eq_error, failIf_eq_ok]

/-! ## `buy_token` -/

/-- SRC: buy_token.rs:4-28 -/
structure BuyToken where
  escrowAccount : Pubkey
  presaleAccount : Pubkey
  userAccount : Pubkey
  authority : Pubkey
deriving DecidableEq, Repr

/-- The tokens to allocate, the lamports to transfer and the hard cap flag: an order for the
whole pool or more gets the rest of the pool, at the price rounded down.
SRC: buy_token.rs:49-59 -/
def order (p : PresaleAccount) (amount : ℕ) : Except ProgramError (Fill × ℕ) := do
  let tokensToAllocate ← checkedMul 64 (.panic .tokensToAllocate) p.presaleRate amount
  if p.totalTokenRemained ≤ tokensToAllocate then
    let solToTransfer ← checkedDiv (.panic .solToTransfer) p.totalTokenRemained p.presaleRate
    return (⟨p.totalTokenRemained, solToTransfer⟩, 1)
  else
    return (⟨tokensToAllocate, amount⟩, p.isHardcapped)

/-- A buyer without tokens counts as a new participant.
SRC: buy_token.rs:75-77 -/
def countParticipant (p : PresaleAccount) (u : UserAccount) : Except ProgramError ℕ :=
  if u.userBuyAmount = 0 then
    checkedAdd 32 (.panic .totalParticipants) p.totalParticipants 1
  else .ok p.totalParticipants

/-- SRC: buy_token.rs:31-105 -/
def buyTokenHandler (cx : Context) (a : BuyToken) (amount : UInt64) (s : State) :
    Except ProgramError Outcome := do
  requireSeeds a.escrowAccount .escrowVault
  let p ← loadPresale s a.presaleAccount
  requireSeeds a.userAccount (.userRole a.authority)
  let u ← loadUser s a.userAccount
  requireSigner cx a.authority
  isPresaleLive cx p
  failIf (p.isCancelled = 1) (.program .PresaleCancelled)
  failIf (u.isWhitelisted = false) (.program .NotInWhiteList)
  failIf (p.userMaxBuy < amount.toNat) (.program .MaxBuyAmountExceeded)
  failIf (s.lamports a.authority < amount.toNat) (.program .NoEnoughSol)
  let (f, isHardcapped) ← order p amount.toNat
  let s ← systemTransfer a.authority a.escrowAccount f.cost s
  let totalParticipants ← countParticipant p u
  let totalSolAmount ← checkedAdd 64 (.panic .totalSolAmount) p.totalSolAmount f.cost
  let userSolContributed ←
    checkedAdd 64 (.panic .userSolContributed) u.userSolContributed f.cost
  let userBuyAmount ← checkedAdd 64 (.panic .userBuyAmount) u.userBuyAmount f.tokens
  let totalTokenRemained ←
    checkedSub (.panic .totalTokenRemained) p.totalTokenRemained f.tokens
  let isSoftcapped :=
    if totalTokenRemained < p.softCap then
      if p.isSoftcapped = 0 then 1 else p.isSoftcapped
    else p.isSoftcapped
  let p' := { p with totalParticipants, totalSolAmount, totalTokenRemained, isHardcapped,
                     isSoftcapped }
  let u' := { u with userSolContributed, userBuyAmount }
  return ({ s with presale := some p', users := s.users.insert a.userAccount u' },
    [.lamports a.authority a.escrowAccount f.cost,
     .userBought a.authority f.cost cx.timeStamp])

/-! ## `refund_token` -/

/-- `user_account` and `user_to_refund` have no constraint besides their types.
SRC: refund_token.rs:4-27 -/
structure RefundToken where
  escrowAccount : Pubkey
  presaleAccount : Pubkey
  userAccount : Pubkey
  authority : Pubkey
  userToRefund : Pubkey
deriving DecidableEq, Repr

/-- SRC: refund_token.rs:29-48 -/
def refundTokenHandler (cx : Context) (a : RefundToken) (s : State) :
    Except ProgramError Outcome := do
  requireSeeds a.escrowAccount .escrowVault
  let p ← loadPresale s a.presaleAccount
  let u ← loadUser s a.userAccount
  requireSigner cx a.authority
  failIf (p.isCancelled = 0) (.program .PresaleNotCancelled)
  let amount := u.userSolContributed
  if amount = 0 then
    return (s, [])
  else
    failIf (s.lamports a.escrowAccount < amount) (.program .NoEnoughSol)
    let s ← moveLamports a.escrowAccount a.userToRefund amount s
    let totalSolAmount ← checkedSub (.panic .totalSolAmount) p.totalSolAmount amount
    let totalParticipants ← checkedSub (.panic .totalParticipants) p.totalParticipants 1
    return ({ s with presale := some { p with totalSolAmount, totalParticipants } },
      [.lamports a.escrowAccount a.userToRefund amount])

/-! ## `claim_token` -/

/-- `user_account` is the record of `user_to`; `token_to` is any token account.
SRC: claim_token.rs:4-41 -/
structure ClaimToken where
  tokenMint : Pubkey
  tokenTo : Pubkey
  tokenVault : Pubkey
  presaleAccount : Pubkey
  userAccount : Pubkey
  userTo : Pubkey
  authority : Pubkey
deriving DecidableEq, Repr

/-- SRC: claim_token.rs:43-83 -/
def claimTokenHandler (cx : Context) (a : ClaimToken) (s : State) :
    Except ProgramError Outcome := do
  loadMint s a.tokenMint
  let _ ← loadToken s a.tokenTo
  requireSeeds a.tokenVault (.tokenVault a.tokenMint)
  let vault ← loadToken s a.tokenVault
  let p ← loadPresale s a.presaleAccount
  requireSeeds a.userAccount (.userRole a.userTo)
  let u ← loadUser s a.userAccount
  requireSigner cx a.authority
  isFinalized p
  let amount := u.userBuyAmount
  failIf (u.userBuyAmount = 0) (.program .NoClaimableToken)
  failIf (u.isWhitelisted = false) (.program .NotInWhiteList)
  failIf (vault.amount < amount) (.program .PresaleNotEnoughToken)
  let s ← tokenTransfer a.tokenVault a.tokenTo a.authority amount s
  return ({ s with users := s.users.insert a.userAccount { u with isClaimed := 1 } },
    [.tokens a.tokenVault a.tokenTo amount,
     .userClaimed a.authority amount cx.timeStamp])

end TokenPresale.Model
