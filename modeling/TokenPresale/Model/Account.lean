import TokenPresale.Library.Ledger

/-!
# Accounts, records and errors

The data of the program: the addresses it derives, the three records it stores
(`state.rs`), the token accounts of the SPL program it moves tokens between, its error codes
(`errors.rs`), and the state of the chain as far as the program can see it.

An unsigned field of the source is a natural number here; the handlers perform every
addition, subtraction, multiplication and division on it as a checked operation, since the
build sets `overflow-checks = true`. Arguments keep their machine types.
-/

set_option autoImplicit false

namespace TokenPresale.Model

open TokenPresale.Library

/-- An address. `key n` is any address that this program does not derive: a wallet, a token
account, another program's address. The others are the program derived addresses of the seed
lists of `state.rs`; the byte strings of these five lists differ in length (20, 12, 10 + 32,
9 + 32 and 32 + 11 bytes), so no two of them share an address.
SRC: state.rs:3-7 -/
inductive Pubkey
  | key (n : ℕ)
  /-- seeds `[SOL_VAULT_SEED]` -/
  | escrowVault
  /-- seeds `[PRESALE_INFO_SEED]` -/
  | presaleInfo
  /-- seeds `[ADMIN_MANAGE_SEED, admin]` -/
  | adminRole (admin : Pubkey)
  /-- seeds `[USER_ACCOUNT_SEED, authority]` -/
  | userRole (authority : Pubkey)
  /-- seeds `[token_mint, TOKEN_VAULT_SEED]` -/
  | tokenVault (tokenMint : Pubkey)
deriving DecidableEq, Repr

/-- Whether an address is derived by this program. The program signs for none of them after
it has created them, so they carry no signature. -/
def Pubkey.isPda : Pubkey → Bool
  | key _ => false
  | _ => true

/-- Vaults of different mints have different addresses. -/
theorem Pubkey.tokenVault_injective : Function.Injective Pubkey.tokenVault :=
  fun _ _ => Pubkey.tokenVault.inj

/-- The owner of an account: the only program that may lower its lamports. -/
inductive ProgramId
  | system
  | splToken
  | tokenPresale
  | other (n : ℕ)
deriving DecidableEq, Repr

/-! ## Records -/

/-- SRC: state.rs:14-18 -/
def adminAccountSize : ℕ := 8 + 32

/-- The space of a user record, its discriminator included. -/
def userAccountSize : ℕ := 8 + 1 + 8 + 8 + 1 + 32

/-- The space of the presale record, its discriminator included. -/
def presaleAccountSize : ℕ :=
  8 + 4 + 8 + 4 + 8 + 8 + 8 + 8 + 4 + 8 + 8 + 8 + 1 + 1 + 8 + 4 + 1 + 1

/-- The size of an SPL token account. -/
def tokenAccountSize : ℕ := 165

/-- SRC: state.rs:19-22 -/
structure AdminAccount where
  superAdmin : Pubkey
deriving DecidableEq, Repr

/-- SRC: state.rs:24-32 -/
structure UserAccount where
  isWhitelisted : Bool
  userBuyAmount : ℕ
  userSolContributed : ℕ
  isClaimed : ℕ
  publicKey : Pubkey
deriving DecidableEq, Repr

/-- SRC: state.rs:34-55 -/
structure PresaleAccount where
  teamPercent : ℕ
  presaleRate : ℕ
  totalWhitelistedWallets : ℕ
  userMaxBuy : ℕ
  startTime : ℕ
  endTime : ℕ
  presaleDuration : ℕ
  totalParticipants : ℕ
  totalSolAmount : ℕ
  totalTokenRemained : ℕ
  totalPresaleToken : ℕ
  isFinalized : ℕ
  isCancelled : ℕ
  softCap : ℕ
  tokenAllocation : ℕ
  isHardcapped : ℕ
  isSoftcapped : ℕ
deriving DecidableEq, Repr

/-- The record read from a newly created account, whose data is zero-filled. -/
def PresaleAccount.zeroed : PresaleAccount where
  teamPercent := 0
  presaleRate := 0
  totalWhitelistedWallets := 0
  userMaxBuy := 0
  startTime := 0
  endTime := 0
  presaleDuration := 0
  totalParticipants := 0
  totalSolAmount := 0
  totalTokenRemained := 0
  totalPresaleToken := 0
  isFinalized := 0
  isCancelled := 0
  softCap := 0
  tokenAllocation := 0
  isHardcapped := 0
  isSoftcapped := 0

/-- A token account of the SPL program; `owner` is the authority that may move its tokens. -/
structure TokenAccount where
  mint : Pubkey
  owner : Pubkey
  amount : ℕ
deriving DecidableEq, Repr

/-! ## Errors -/

/-- SRC: errors.rs:4-37 -/
inductive ErrorCode
  | InvalidAuthority
  | AccessDenied
  | InvalidAmount
  | NoEnoughSol
  | PresaleNotFinished
  | PresaleCancelled
  | PresaleNotCancelled
  | PresaleNotStarted
  | PresaleAlreadyEnded
  | PresaleNotEnoughToken
  | NoClaimableToken
  | WrongTimePeriod
  | NotInWhiteList
  | MaxBuyAmountExceeded
  | NotEnoughTokenInVault
  | SoftCapNotReached
deriving DecidableEq, Repr

/-- The text each error code carries.
SRC: errors.rs:5-36 -/
def ErrorCode.msg : ErrorCode → String
  | InvalidAuthority => "Invalid authority"
  | AccessDenied => "Access Denied"
  | InvalidAmount => "Invalid withdraw amount"
  | NoEnoughSol => "There is no enuough sol in vault."
  | PresaleNotFinished => "This presale is not finished yet."
  | PresaleCancelled => "This presale is cancelled."
  | PresaleNotCancelled => "This presale is not cancelled."
  | PresaleNotStarted => "This presale is not started yet."
  | PresaleAlreadyEnded => "This presale is already ended."
  | PresaleNotEnoughToken => "There is no enough token in this presale."
  | NoClaimableToken => "User does not have any claimable tokens."
  | WrongTimePeriod => "Wrong Time Period."
  | NotInWhiteList => "You are not in white list."
  | MaxBuyAmountExceeded => "Maximum buying amount exceeded."
  | NotEnoughTokenInVault => "Token balance in token vault is not enough."
  | SoftCapNotReached => "Presale did not reach the softcap."

/-- Every error code, in the order of the source. -/
def ErrorCode.all : List ErrorCode :=
  [InvalidAuthority, AccessDenied, InvalidAmount, NoEnoughSol, PresaleNotFinished,
   PresaleCancelled, PresaleNotCancelled, PresaleNotStarted, PresaleAlreadyEnded,
   PresaleNotEnoughToken, NoClaimableToken, WrongTimePeriod, NotInWhiteList,
   MaxBuyAmountExceeded, NotEnoughTokenInVault, SoftCapNotReached]

/-- The list of error codes leaves none out. -/
theorem ErrorCode.mem_all (c : ErrorCode) : c ∈ ErrorCode.all := by
  cases c <;> decide

/-- A client can tell the error codes apart by their texts. -/
theorem ErrorCode.msg_injective : Function.Injective ErrorCode.msg := by
  have hnodup : (ErrorCode.all.map ErrorCode.msg).Nodup := by decide +kernel
  intro a b h
  exact List.inj_on_of_nodup_map hnodup a.mem_all b.mem_all h

/-- Refusals of the account checks that Anchor derives from the `Accounts` structures. -/
inductive AnchorError
  | ConstraintAddress
  | ConstraintSeeds
  | AccountNotInitialized
  | AccountNotSigner
deriving DecidableEq, Repr

/-- Refusals of the runtime and of the system program. -/
inductive RuntimeError
  | AccountAlreadyInUse
  | ResultWithNegativeLamports
  | ArithmeticOverflow
  | ExternalAccountLamportSpend
deriving DecidableEq, Repr

/-- Refusals of a transfer by the SPL token program. -/
inductive TokenError
  | InsufficientFunds
  | MintMismatch
  | OwnerMismatch
deriving DecidableEq, Repr

/-- The arithmetic expressions of the handlers; each aborts its instruction when its result
is out of range. -/
inductive Arith
  /-- `start_time + presale_duration` -/
  | endTime
  /-- `total_token_amount * softcap_precent` -/
  | softCap
  /-- `total_token_amount * token_allocation` -/
  | tokenAllocation
  /-- `total_whitelisted_wallets += 1` and `-= 1` -/
  | totalWhitelistedWallets
  /-- `presale_rate * amount` -/
  | tokensToAllocate
  /-- `total_token_remained / presale_rate` -/
  | solToTransfer
  /-- `total_participants += 1` and `-= 1` -/
  | totalParticipants
  /-- `total_sol_amount += …` and `-= …` -/
  | totalSolAmount
  /-- `user_sol_contributed += …` -/
  | userSolContributed
  /-- `user_buy_amount += …` -/
  | userBuyAmount
  /-- `total_token_remained -= …` -/
  | totalTokenRemained
  /-- `team_percent * total_sol_amount` -/
  | teamAmount
  /-- `**account.try_borrow_mut_lamports()? -= …` and `+= …` -/
  | lamports
deriving DecidableEq, Repr

/-- Why an instruction fails. -/
inductive ProgramError
  | program (code : ErrorCode)
  | anchor (e : AnchorError)
  | runtime (e : RuntimeError)
  | token (e : TokenError)
  | panic (a : Arith)
deriving DecidableEq, Repr

/-! ## State and log -/

/-- The chain as the program sees it. Records are kept by the address of their account. -/
structure State where
  lamports : Pubkey → ℕ
  owner : Pubkey → ProgramId
  mints : Pubkey → Bool
  tokens : Pubkey → Option TokenAccount
  /-- the record at `presaleInfo` -/
  presale : Option PresaleAccount
  admins : Pubkey → Option AdminAccount
  users : Ledger Pubkey UserAccount

/-- What an instruction leaves in the transaction: the lamports and tokens it moved, and the
events it emitted.
SRC: state.rs:57-95 -/
inductive LogEntry
  | lamports (src dst : Pubkey) (amount : ℕ)
  | tokens (src dst : Pubkey) (amount : ℕ)
  | userBought (user : Pubkey) (amount timeStamp : ℕ)
  | userClaimed (user : Pubkey) (amount timeStamp : ℕ)
  | presaleFinalized (totalAmount timeStamp : ℕ)
  | presaleCancelled (totalAmount timeStamp : ℕ)
deriving DecidableEq, Repr

/-- The `Rent` sysvar. -/
structure Rent where
  lamportsPerByte : ℕ
  positive : 0 < lamportsPerByte
deriving DecidableEq

/-- `Rent::minimum_balance`: every account is charged for 128 bytes besides its data. -/
def Rent.minimumBalance (r : Rent) (space : ℕ) : ℕ := (128 + space) * r.lamportsPerByte

/-- An account topped up to the minimum is not empty, whatever it held before. -/
theorem Rent.topped_up_pos (r : Rent) (space b : ℕ) : 0 < b + (r.minimumBalance space - b) := by
  have : 0 < r.minimumBalance space := Nat.mul_pos (by omega) r.positive
  omega

/-- What the runtime hands to an instruction: the keys that signed the transaction, the
clock, as the source reads it (`Clock::get().unwrap().unix_timestamp as u64`), and the
rent. -/
structure Context where
  signers : List Pubkey
  unixTimestamp : UInt64
  rent : Rent
deriving DecidableEq

/-- Anchor's `Signer`. Only an address the program does not derive can sign. -/
def Context.signed (cx : Context) (k : Pubkey) : Prop := k ∈ cx.signers ∧ k.isPda = false

/-- Whether a key has signed is decided by looking it up among the signers. -/
instance (cx : Context) (k : Pubkey) : Decidable (cx.signed k) :=
  inferInstanceAs (Decidable (_ ∧ _))

/-- `unix_timestamp as u64`. -/
def Context.now (cx : Context) : ℕ := cx.unixTimestamp.toNat

/-- `unix_timestamp as u32`, the time stamp of the events. -/
def Context.timeStamp (cx : Context) : ℕ := cx.now % 2 ^ 32

end TokenPresale.Model
