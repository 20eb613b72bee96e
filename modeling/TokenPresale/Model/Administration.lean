import TokenPresale.Model.Sale

/-!
# Setting up and settling the presale

The instructions of the admin: `initialize`, the whitelist, `cancel_presale`,
`update_presale_details`, `finalize`, and the deposit and the withdrawals. All but
`initialize` are guarded by `is_admin` on an admin record that the caller passes.
-/

set_option autoImplicit false

namespace TokenPresale.Model

open TokenPresale.Library

/-! ## `initialize` -/

/-- SRC: initialize.rs:6-55 -/
structure Initialize where
  tokenMint : Pubkey
  tokenVault : Pubkey
  adminAccount : Pubkey
  escrowAccount : Pubkey
  presaleAccount : Pubkey
  admin : Pubkey
deriving DecidableEq, Repr

/-- SRC: initialize.rs:59-65 -/
structure InitializeArgs where
  teamPercent : UInt32
  presaleRate : UInt64
  userMaxBuy : UInt64
  presaleDuration : UInt64
  totalTokenAmount : UInt64
  tokenAllocation : UInt32
  softcapPrecent : UInt32
deriving DecidableEq, Repr

/-- The four `init` constraints, each paid for by `admin`.
SRC: initialize.rs:14-49 -/
def createAccounts (cx : Context) (a : Initialize) (s : State) : Except ProgramError Outcome := do
  requireSeeds a.tokenVault (.tokenVault a.tokenMint)
  let vault ← initAccount cx a.admin a.tokenVault tokenAccountSize .splToken s
  requireSeeds a.adminAccount (.adminRole a.admin)
  let admin ← initAccount cx a.admin a.adminAccount adminAccountSize .tokenPresale vault.1
  requireSeeds a.escrowAccount .escrowVault
  let escrow ← initAccount cx a.admin a.escrowAccount (8 + 8) .tokenPresale admin.1
  requireSeeds a.presaleAccount .presaleInfo
  let presale ← initAccount cx a.admin a.presaleAccount presaleAccountSize .tokenPresale escrow.1
  return (presale.1,
    [.lamports a.admin a.tokenVault vault.2, .lamports a.admin a.adminAccount admin.2,
     .lamports a.admin a.escrowAccount escrow.2, .lamports a.admin a.presaleAccount presale.2])

/-- The record `initialize` leaves: the fields it does not assign keep the zero of the new
account.
SRC: initialize.rs:69-84 -/
def initialPresale (cx : Context) (args : InitializeArgs) : Except ProgramError PresaleAccount := do
  let startTime := cx.now
  let endTime ← checkedAdd 64 (.panic .endTime) startTime args.presaleDuration.toNat
  let softCap ←
    checkedMul 64 (.panic .softCap) args.totalTokenAmount.toNat args.softcapPrecent.toNat
  let totalTokenRemained ←
    checkedMul 64 (.panic .tokenAllocation) args.totalTokenAmount.toNat args.tokenAllocation.toNat
  return { PresaleAccount.zeroed with
    teamPercent := args.teamPercent.toNat
    presaleRate := args.presaleRate.toNat
    totalWhitelistedWallets := 0
    userMaxBuy := args.userMaxBuy.toNat
    presaleDuration := args.presaleDuration.toNat
    startTime
    endTime
    isFinalized := 0
    isCancelled := 0
    softCap := softCap / 10000
    tokenAllocation := args.tokenAllocation.toNat
    totalTokenRemained := totalTokenRemained / 10000
    totalPresaleToken := totalTokenRemained / 10000
    isSoftcapped := 0
    isHardcapped := 0 }

/-- SRC: initialize.rs:57-86 -/
def initializeHandler (cx : Context) (a : Initialize) (args : InitializeArgs) (s : State) :
    Except ProgramError Outcome := do
  loadMint s a.tokenMint
  requireSigner cx a.admin
  let (s, log) ← createAccounts cx a s
  let p ← initialPresale cx args
  return ({ s with
    tokens := Function.update s.tokens a.tokenVault (some ⟨a.tokenMint, a.admin, 0⟩)
    admins := Function.update s.admins a.adminAccount (some ⟨a.admin⟩)
    presale := some p }, log)

/-! ## The whitelist -/

/-- The accounts of `add_whitelist` and `remove_whitelist`; `authority` is the wallet that is
listed or removed, it does not sign.
SRC: add_whitelist.rs:3-28, remove_whitelist.rs:3-26 -/
structure Whitelist where
  presaleAccount : Pubkey
  userAccount : Pubkey
  authority : Pubkey
  adminAccount : Pubkey
  admin : Pubkey
deriving DecidableEq, Repr

/-- SRC: add_whitelist.rs:30-41 -/
def addWhitelistHandler (cx : Context) (a : Whitelist) (s : State) :
    Except ProgramError Outcome := do
  let p ← loadPresale s a.presaleAccount
  let adminAccount ← loadAdmin s a.adminAccount
  requireSigner cx a.admin
  requireSeeds a.userAccount (.userRole a.authority)
  let (s, funded) ← initAccount cx a.admin a.userAccount userAccountSize .tokenPresale s
  isAdmin adminAccount a.admin
  let u : UserAccount :=
    { isWhitelisted := true
      userBuyAmount := 0
      userSolContributed := 0
      isClaimed := 0
      publicKey := a.authority }
  let totalWhitelistedWallets ←
    checkedAdd 32 (.panic .totalWhitelistedWallets) p.totalWhitelistedWallets 1
  return ({ s with presale := some { p with totalWhitelistedWallets },
                   users := s.users.insert a.userAccount u },
    [.lamports a.admin a.userAccount funded])

/-- SRC: remove_whitelist.rs:28-33 -/
def removeWhitelistHandler (cx : Context) (a : Whitelist) (s : State) :
    Except ProgramError Outcome := do
  let p ← loadPresale s a.presaleAccount
  requireSeeds a.userAccount (.userRole a.authority)
  let u ← loadUser s a.userAccount
  let adminAccount ← loadAdmin s a.adminAccount
  requireSigner cx a.admin
  isAdmin adminAccount a.admin
  let totalWhitelistedWallets ←
    checkedSub (.panic .totalWhitelistedWallets) p.totalWhitelistedWallets 1
  return ({ s with presale := some { p with totalWhitelistedWallets },
                   users := s.users.insert a.userAccount { u with isWhitelisted := false } }, [])

/-! ## `cancel_presale`, `update_presale_details` and `finalize` -/

/-- The accounts of `cancel_presale` and `update_presale_details`.
SRC: cancel_presale.rs:3-19, update_presale_details.rs:3-17 -/
structure AdminOnly where
  presaleAccount : Pubkey
  adminAccount : Pubkey
  admin : Pubkey
deriving DecidableEq, Repr

/-- SRC: cancel_presale.rs:21-30 -/
def cancelPresaleHandler (cx : Context) (a : AdminOnly) (s : State) :
    Except ProgramError Outcome := do
  let p ← loadPresale s a.presaleAccount
  let adminAccount ← loadAdmin s a.adminAccount
  requireSigner cx a.admin
  isAdmin adminAccount a.admin
  return ({ s with presale := some { p with isCancelled := 1 } },
    [.presaleCancelled p.totalSolAmount cx.timeStamp])

/-- SRC: update_presale_details.rs:19-32 -/
def updatePresaleDetailsHandler (cx : Context) (a : AdminOnly) (startTime endTime : UInt64)
    (s : State) : Except ProgramError Outcome := do
  let p ← loadPresale s a.presaleAccount
  let adminAccount ← loadAdmin s a.adminAccount
  requireSigner cx a.admin
  isAdmin adminAccount a.admin
  failIf (cx.now > endTime.toNat ∨ startTime.toNat ≥ endTime.toNat) (.program .WrongTimePeriod)
  return ({ s with presale := some { p with startTime := startTime.toNat,
                                            endTime := endTime.toNat } }, [])

/-- SRC: finalize.rs:3-28 -/
structure Finalize where
  escrowAccount : Pubkey
  teamAccount : Pubkey
  presaleAccount : Pubkey
  adminAccount : Pubkey
  admin : Pubkey
deriving DecidableEq, Repr

/-- The record after the first block of `finalize`: an ordinary call before the end of an
unfilled sale is rejected, and one on a sale with neither cap flag set cancels it.
SRC: finalize.rs:34-44 -/
def closeSale (cx : Context) (forcibleFinalize : UInt8) (p : PresaleAccount) :
    Except ProgramError PresaleAccount := do
  if forcibleFinalize = 0 then
    failIf (p.endTime > cx.now ∧ p.isHardcapped = 0) (.program .PresaleNotFinished)
    if p.isSoftcapped = 0 ∧ p.isHardcapped = 0 then
      return { p with isCancelled := 1 }
    else return p
  else return p

/-- SRC: finalize.rs:30-65 -/
def finalizeHandler (cx : Context) (a : Finalize) (forcibleFinalize : UInt8) (s : State) :
    Except ProgramError Outcome := do
  requireSeeds a.escrowAccount .escrowVault
  let p ← loadPresale s a.presaleAccount
  let adminAccount ← loadAdmin s a.adminAccount
  requireSigner cx a.admin
  isAdmin adminAccount a.admin
  let p ← closeSale cx forcibleFinalize p
  if p.isCancelled = 0 then
    let product ← checkedMul 64 (.panic .teamAmount) p.teamPercent p.totalSolAmount
    let teamAmount := product / 10000
    let amount := s.lamports a.escrowAccount
    failIf (amount < teamAmount) (.program .NoEnoughSol)
    let s ← moveLamports a.escrowAccount a.teamAccount teamAmount s
    return ({ s with presale := some { p with isFinalized := 1 } },
      [.lamports a.escrowAccount a.teamAccount teamAmount,
       .presaleFinalized p.totalSolAmount cx.timeStamp])
  else
    return ({ s with presale := some p }, [])

/-! ## The deposit and the withdrawals -/

/-- SRC: deposit_token.rs:4-37 -/
structure DepositToken where
  tokenMint : Pubkey
  tokenFrom : Pubkey
  tokenVault : Pubkey
  presaleAccount : Pubkey
  adminAccount : Pubkey
  admin : Pubkey
deriving DecidableEq, Repr

/-- SRC: deposit_token.rs:39-59 -/
def depositTokenHandler (cx : Context) (a : DepositToken) (mint : Pubkey) (amount : UInt64)
    (s : State) : Except ProgramError Outcome := do
  loadMint s a.tokenMint
  failIf (a.tokenMint ≠ mint) (.anchor .ConstraintAddress)
  let _ ← loadToken s a.tokenFrom
  requireSeeds a.tokenVault (.tokenVault a.tokenMint)
  let _ ← loadToken s a.tokenVault
  let _ ← loadPresale s a.presaleAccount
  let adminAccount ← loadAdmin s a.adminAccount
  requireSigner cx a.admin
  isAdmin adminAccount a.admin
  let s ← tokenTransfer a.tokenFrom a.tokenVault a.admin amount.toNat s
  return (s, [.tokens a.tokenFrom a.tokenVault amount.toNat])

/-- SRC: withdraw_token.rs:4-36 -/
structure WithdrawToken where
  tokenMint : Pubkey
  tokenTo : Pubkey
  tokenVault : Pubkey
  presaleAccount : Pubkey
  adminAccount : Pubkey
  admin : Pubkey
deriving DecidableEq, Repr

/-- Of two `access_control` attributes the lower one runs first.
SRC: withdraw_token.rs:38-60 -/
def withdrawTokenHandler (cx : Context) (a : WithdrawToken) (s : State) :
    Except ProgramError Outcome := do
  loadMint s a.tokenMint
  let _ ← loadToken s a.tokenTo
  requireSeeds a.tokenVault (.tokenVault a.tokenMint)
  let vault ← loadToken s a.tokenVault
  let p ← loadPresale s a.presaleAccount
  let adminAccount ← loadAdmin s a.adminAccount
  requireSigner cx a.admin
  isFinalized p
  isAdmin adminAccount a.admin
  failIf (p.isCancelled = 1) (.program .PresaleCancelled)
  let amount := vault.amount
  let s ← tokenTransfer a.tokenVault a.tokenTo a.admin amount s
  return ({ s with presale := some { p with totalTokenRemained := 0 } },
    [.tokens a.tokenVault a.tokenTo amount])

/-- SRC: withdraw.rs:4-25 -/
structure Withdraw where
  escrowAccount : Pubkey
  presaleAccount : Pubkey
  adminAccount : Pubkey
  admin : Pubkey
deriving DecidableEq, Repr

/-- SRC: withdraw.rs:27-38 -/
def withdrawHandler (cx : Context) (a : Withdraw) (s : State) : Except ProgramError Outcome := do
  requireSeeds a.escrowAccount .escrowVault
  let p ← loadPresale s a.presaleAccount
  let adminAccount ← loadAdmin s a.adminAccount
  requireSigner cx a.admin
  isFinalized p
  isAdmin adminAccount a.admin
  failIf (p.isCancelled = 1) (.program .PresaleCancelled)
  let amount := s.lamports a.escrowAccount
  let s ← moveLamports a.escrowAccount a.admin amount s
  return (s, [.lamports a.escrowAccount a.admin amount])

end TokenPresale.Model
