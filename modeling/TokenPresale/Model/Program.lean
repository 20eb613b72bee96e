import TokenPresale.Library.Machine
import TokenPresale.Model.Administration

/-!
# The program as a machine

An input is an instruction of the program with the context the runtime gives it, a move made
outside the program, or the end of a transaction. A transaction may hold several
instructions; one that fails undoes its transaction, so what the chain keeps is a sequence of
successful inputs. `Execution` is such a sequence from a state in which the program has no
account yet.
-/

set_option autoImplicit false

namespace TokenPresale.Model

open TokenPresale.Library

/-- SRC: lib.rs:14-87 -/
inductive Instruction
  | initializePresale (a : Initialize) (args : InitializeArgs)
  | buyToken (a : BuyToken) (amount : UInt64)
  | refundToken (a : RefundToken)
  | claimToken (a : ClaimToken)
  | cancelPresale (a : AdminOnly)
  | updatePresaleDetails (a : AdminOnly) (startTime endTime : UInt64)
  | addWhitelist (a : Whitelist)
  | removeWhitelist (a : Whitelist)
  | finalize (a : Finalize) (forcibleFinalize : UInt8)
  | depositToken (a : DepositToken) (mint : Pubkey) (amount : UInt64)
  | withdrawToken (a : WithdrawToken)
  | withdraw (a : Withdraw)
deriving DecidableEq, Repr

/-- The dispatch of `lib.rs`.
SRC: lib.rs:17-86 -/
def runInstruction (cx : Context) (s : State) : Instruction → Except ProgramError Outcome
  | .initializePresale a args => initializeHandler cx a args s
  | .buyToken a amount => buyTokenHandler cx a amount s
  | .refundToken a => refundTokenHandler cx a s
  | .claimToken a => claimTokenHandler cx a s
  | .cancelPresale a => cancelPresaleHandler cx a s
  | .updatePresaleDetails a startTime endTime =>
    updatePresaleDetailsHandler cx a startTime endTime s
  | .addWhitelist a => addWhitelistHandler cx a s
  | .removeWhitelist a => removeWhitelistHandler cx a s
  | .finalize a forcibleFinalize => finalizeHandler cx a forcibleFinalize s
  | .depositToken a mint amount => depositTokenHandler cx a mint amount s
  | .withdrawToken a => withdrawTokenHandler cx a s
  | .withdraw a => withdrawHandler cx a s

/-- What happens to lamports and tokens outside this program. Anyone may pay in anywhere;
lamports leave, and tokens leave, only accounts at addresses the program does not derive.

For lamports this is a rule of the runtime. For the token vaults it is an assumption: the key that
holds a vault is the admin's own, and could transfer or burn its tokens, or close it when it is
empty, without this program. Whatever is said of vaults here is said of runs in which it makes no
such move. -/
inductive Outside
  | payIn (k : Pubkey) (n : ℕ)
  | payOut (k : Pubkey) (n : ℕ)
  | createMint (k : Pubkey)
  | openToken (k mint owner : Pubkey)
  | tokensIn (k : Pubkey) (n : ℕ)
  | tokensOut (k : Pubkey) (n : ℕ)
deriving DecidableEq, Repr

/-- Set the amount of the token account at `k`. -/
def setTokens (s : State) (k : Pubkey) (f : ℕ → ℕ) : State :=
  let changed := (s.tokens k).map fun t => { t with amount := f t.amount }
  { s with tokens := Function.update s.tokens k changed }

/-- The effect of an outside move. What would take tokens out of a vault is refused, by the
assumption on the key that holds it (`Outside`). -/
def runOutside (s : State) : Outside → Except ProgramError State
  | .payIn k n => do
    let lamports ← checkedAdd 64 (.runtime .ArithmeticOverflow) (s.lamports k) n
    return { s with lamports := Function.update s.lamports k lamports }
  | .payOut k n => do
    failIf (k.isPda = true) (.runtime .ExternalAccountLamportSpend)
    let lamports ← checkedSub (.runtime .ResultWithNegativeLamports) (s.lamports k) n
    return { s with lamports := Function.update s.lamports k lamports }
  | .createMint k => .ok { s with mints := Function.update s.mints k true }
  | .openToken k mint owner => do
    failIf (k.isPda = true) (.runtime .AccountAlreadyInUse)
    return { s with tokens := Function.update s.tokens k (some ⟨mint, owner, 0⟩) }
  | .tokensIn k n => .ok (setTokens s k (· + n))
  | .tokensOut k n => do
    failIf (k.isPda = true) (.token .OwnerMismatch)
    return setTokens s k (· - n)

/-- At the end of a transaction an account without lamports is deleted: whatever arrives at
its address later makes an account of the system program. Records are not touched here,
since an account that holds one always has lamports (`Analysis.Coherent`). -/
def sweep (s : State) : State :=
  { s with owner := fun k => if s.lamports k = 0 then .system else s.owner k }

/-- One input of the machine. -/
inductive Input
  | instruction (cx : Context) (i : Instruction)
  | outside (o : Outside)
  | endTransaction
deriving DecidableEq

/-- The effect of one input. -/
def step (s : State) : Input → Except ProgramError Outcome
  | .instruction cx i => runInstruction cx s i
  | .outside o => do
    let s ← runOutside s o
    return (s, [])
  | .endTransaction => .ok (sweep s, [])

/-- The program and its surroundings as a machine. -/
def presale : Machine State Input (List LogEntry) ProgramError where
  step := step

/-- A successful step: the state before it, the input and the log. -/
abbrev Step := Record State Input (List LogEntry)

/-- The history of a run. -/
abbrev History := List Step

/-- A state in which the program has no account. -/
structure Fresh (s : State) : Prop where
  presale : s.presale = none
  admins : ∀ k, s.admins k = none
  users : s.users = ∅
  owner : ∀ k, k.isPda = true → s.owner k = .system
  tokens : ∀ k, k.isPda = true → s.tokens k = none
  lamports : ∀ k, s.lamports k < 2 ^ 64

/-- A run of the program from before its first instruction. -/
structure Execution where
  genesis : State
  fresh : Fresh genesis
  history : History
  final : State
  run : presale.Run genesis history final

/-- The execution that a list of inputs makes; inputs that fail are skipped. -/
def Execution.replay (genesis : State) (fresh : Fresh genesis) (inputs : List Input) :
    Execution where
  genesis := genesis
  fresh := fresh
  history := (presale.exec genesis inputs).1
  final := (presale.exec genesis inputs).2
  run := presale.run_exec genesis inputs

/-! ## A small sale

A presale of 100 tokens at 3 tokens for a lamport, with 10% of the lamports for the team. The
admin holds `key 0` and the buyers hold `key 1` and `key 2`. The token account of the wallet
`key n` is `key (10 + n)`, and `key 100` is the mint.
-/

namespace Sample

/-- The mint of the sample sale. -/
def mint : Pubkey := .key 100

/-- The chain before the sale: the admin holds all the tokens. -/
def genesis : State where
  lamports k := if k.isPda then 0 else 10 ^ 12
  owner _ := .system
  mints k := k = mint
  tokens
    | .key 10 => some ⟨mint, .key 0, 1000⟩
    | .key 11 => some ⟨mint, .key 1, 0⟩
    | .key 12 => some ⟨mint, .key 2, 0⟩
    | _ => none
  presale := none
  admins _ := none
  users := ∅

/-- The sample genesis is a state in which the program has no account yet. -/
theorem fresh : Fresh genesis where
  presale := rfl
  admins _ := rfl
  users := rfl
  owner _ _ := rfl
  tokens k hk := by cases k <;> first | rfl | simp [Pubkey.isPda] at hk
  lamports k := by
    simp only [genesis]
    split_ifs <;> decide

/-- The runtime's part of a call signed by wallet `w` at time `t`. -/
def context (w : ℕ) (t : UInt64) : Context := ⟨[.key w], t, ⟨6960, by decide⟩⟩

/-- The arguments of the sample initialization. -/
def args : InitializeArgs where
  teamPercent := 1000
  presaleRate := 3
  userMaxBuy := 1000
  presaleDuration := 100
  totalTokenAmount := 100
  tokenAllocation := 10000
  softcapPrecent := 5000

/-- The sale opens at time 1000 and ends at time 1100. -/
def launch : Input :=
  .instruction (context 0 1000) (.initializePresale
    { tokenMint := mint
      tokenVault := .tokenVault mint
      adminAccount := .adminRole (.key 0)
      escrowAccount := .escrowVault
      presaleAccount := .presaleInfo
      admin := .key 0 } args)

/-- The same launch with other parameters. -/
def launchWith (args : InitializeArgs) : Input :=
  .instruction (context 0 1000) (.initializePresale
    ⟨mint, .tokenVault mint, .adminRole (.key 0), .escrowVault, .presaleInfo, .key 0⟩ args)

/-- A wallet may offer `10 ^ 12` lamports, at `10 ^ 8` tokens for one. -/
def largeOrders : InitializeArgs :=
  { args with presaleRate := 100000000, userMaxBuy := 1000000000000 }

/-- The accounts of an instruction that only the admin may call. -/
def adminOnly : AdminOnly := ⟨.presaleInfo, .adminRole (.key 0), .key 0⟩

/-- The admin lists a wallet. -/
def list (w : ℕ) : Input :=
  .instruction (context 0 1001) (.addWhitelist
    ⟨.presaleInfo, .userRole (.key w), .key w, .adminRole (.key 0), .key 0⟩)

/-- The admin removes a wallet from the list. -/
def delist (w : ℕ) : Input :=
  .instruction (context 0 1002) (.removeWhitelist
    ⟨.presaleInfo, .userRole (.key w), .key w, .adminRole (.key 0), .key 0⟩)

/-- A wallet orders for an amount of lamports. -/
def buy (w : ℕ) (amount : UInt64) : Input :=
  .instruction (context w 1002) (.buyToken
    ⟨.escrowVault, .presaleInfo, .userRole (.key w), .key w⟩ amount)

/-- The accounts of a wallet's order. -/
def buyAccounts (w : ℕ) : BuyToken := ⟨.escrowVault, .presaleInfo, .userRole (.key w), .key w⟩

/-- The admin cancels the sale. -/
def cancel : Input := .instruction (context 0 1003) (.cancelPresale adminOnly)

/-- The sale is finalized at a time, by force or not. -/
def finalize (t : UInt64) (forcible : UInt8) : Input :=
  .instruction (context 0 t) (.finalize
    ⟨.escrowVault, .key 9, .presaleInfo, .adminRole (.key 0), .key 0⟩ forcible)

/-- The accounts of the sample finalization. -/
def finalizeAccounts : Finalize :=
  ⟨.escrowVault, .key 9, .presaleInfo, .adminRole (.key 0), .key 0⟩

/-- A refund of wallet `w`'s contribution to the account `dst`, called by wallet `w`. -/
def refundAccounts (w : ℕ) (dst : Pubkey) : RefundToken :=
  ⟨.escrowVault, .presaleInfo, .userRole (.key w), .key w, dst⟩

/-- A wallet asks for its refund, to be paid to a destination. -/
def refund (w : ℕ) (dst : Pubkey) : Input :=
  .instruction (context w 1004) (.refundToken (refundAccounts w dst))

/-- A claim of wallet `w`'s tokens to the token account `dst`; the holder of the vault signs. -/
def claimAccounts (w : ℕ) (dst : Pubkey) : ClaimToken :=
  ⟨mint, dst, .tokenVault mint, .presaleInfo, .userRole (.key w), .key w, .key 0⟩

/-- A wallet claims its tokens into a token account. -/
def claim (w : ℕ) (dst : Pubkey) : Input :=
  .instruction (context 0 1005) (.claimToken (claimAccounts w dst))

/-- The admin deposits tokens into the vault. -/
def deposit (amount : UInt64) : Input :=
  .instruction (context 0 1001) (.depositToken
    ⟨mint, .key 10, .tokenVault mint, .presaleInfo, .adminRole (.key 0), .key 0⟩ mint amount)

/-- The admin's withdrawals of the escrow's lamports and of the vault's tokens. -/
def withdrawAccounts : Withdraw := ⟨.escrowVault, .presaleInfo, .adminRole (.key 0), .key 0⟩

/-- The admin withdraws the escrow. -/
def withdraw : Input := .instruction (context 0 1006) (.withdraw withdrawAccounts)

/-- The admin withdraws the tokens of the vault. -/
def withdrawToken : Input :=
  .instruction (context 0 1006) (.withdrawToken
    ⟨mint, .key 10, .tokenVault mint, .presaleInfo, .adminRole (.key 0), .key 0⟩)

/-- Alice (`key 1`) buys 30 tokens for 10 lamports, then Bob (`key 2`) orders the rest. -/
def opening : List Input := [launch, deposit 200, list 1, list 2, buy 1 10, buy 2 30]

/-- Only Alice buys: 70 tokens stay in the pool. -/
def halfSold : List Input := [launch, deposit 200, list 1, buy 1 10]

/-- A sale of `10 ^ 9` tokens in which Alice orders for `10 ^ 6` lamports, more than the rent-exempt
minimum of an account without data. -/
def largeSale : List Input :=
  [launchWith { args with userMaxBuy := 1000000, totalTokenAmount := 1000000000 }, list 1,
    buy 1 1000000]

/-- Both are listed and only Alice has bought: 70 tokens, no multiple of the rate, are left. -/
def bobNext : List Input := [launch, deposit 200, list 1, list 2, buy 1 10]

/-- The run that `inputs` makes. -/
def play (inputs : List Input) : Execution := .replay genesis fresh inputs

end Sample

end TokenPresale.Model
