import TokenPresale.Model.Program
import TokenPresale.Model.Storage

/-!
# The program over accounts of bytes

What the runtime keeps of an account is its lamports, its owner and its data. It hands an
instruction the accounts of its `Accounts` structure and no others; Anchor reads the records
among them, the handler runs, and Anchor writes the records back into the data of the writable
ones. `onAccounts` is the program run in this way, `presale` the same program with its records
at hand.
-/

set_option autoImplicit false

namespace TokenPresale.Model

open TokenPresale.Library

/-! ## The accounts of an instruction -/

/-- The accounts that an instruction may write: those declared `mut` or `init`.
SRC: the `Accounts` structures of instructions/ -/
def Instruction.writable : Instruction → List Pubkey
  | .initializePresale a _ =>
    [a.tokenMint, a.tokenVault, a.adminAccount, a.escrowAccount, a.presaleAccount, a.admin]
  | .buyToken a _ => [a.escrowAccount, a.presaleAccount, a.userAccount, a.authority]
  | .refundToken a =>
    [a.escrowAccount, a.presaleAccount, a.userAccount, a.authority, a.userToRefund]
  | .claimToken a =>
    [a.tokenMint, a.tokenTo, a.tokenVault, a.presaleAccount, a.userAccount, a.userTo]
  | .cancelPresale a => [a.presaleAccount, a.adminAccount, a.admin]
  | .updatePresaleDetails a _ _ => [a.presaleAccount, a.adminAccount, a.admin]
  | .addWhitelist a => [a.presaleAccount, a.userAccount, a.authority, a.adminAccount, a.admin]
  | .removeWhitelist a => [a.presaleAccount, a.userAccount, a.authority, a.adminAccount, a.admin]
  | .finalize a _ => [a.escrowAccount, a.teamAccount, a.presaleAccount, a.adminAccount, a.admin]
  | .depositToken a _ _ => [a.tokenFrom, a.tokenVault, a.presaleAccount, a.adminAccount, a.admin]
  | .withdrawToken a =>
    [a.tokenMint, a.tokenTo, a.tokenVault, a.presaleAccount, a.adminAccount, a.admin]
  | .withdraw a => [a.escrowAccount, a.presaleAccount, a.adminAccount, a.admin]

/-- The accounts that an instruction only reads. -/
def Instruction.readOnly : Instruction → List Pubkey
  | .claimToken a => [a.authority]
  | .depositToken a _ _ => [a.tokenMint]
  | _ => []

/-- The accounts that an instruction names, besides the programs and sysvars. -/
def Instruction.accounts (i : Instruction) : List Pubkey := i.writable ++ i.readOnly

/-- The space of the accounts that `init` makes for this program. The token vault belongs to the
SPL program, which keeps its data. -/
def Instruction.space (k : Pubkey) : Instruction → Option ℕ
  | .initializePresale a _ =>
    if k = a.adminAccount then some adminAccountSize
    else if k = a.escrowAccount then some (8 + 8)
    else if k = a.presaleAccount then some presaleAccountSize
    else none
  | .addWhitelist a => if k = a.userAccount then some userAccountSize else none
  | _ => none

/-- The record of the account at `k`. -/
def State.recordAt (s : State) (k : Pubkey) : Option StoredRecord :=
  match s.users.lookup k with
  | some u => some (.user u)
  | none =>
    match s.admins k with
    | some a => some (.admin a)
    | none => if k = .presaleInfo then s.presale.map .presale else none

/-! ## Accounts of bytes -/

/-- The chain as the runtime keeps it. Mints and token accounts are as the SPL program reads
them. -/
structure AccountStore where
  lamports : Pubkey → ℕ
  owner : Pubkey → ProgramId
  data : Pubkey → List UInt8
  mints : Pubkey → Bool
  tokens : Pubkey → Option TokenAccount

namespace AccountStore

/-- Anchor's `Account<T>`: the account belongs to the program, and its data holds a record
behind the discriminator of `T`. -/
def read {α : Type} (r : AccountStore) (c : Codec α) (discriminator : List UInt8) (k : Pubkey) :
    Option α :=
  if r.owner k = .tokenPresale then c.fetch discriminator (r.data k) else none

/-- The presale record read from an account, if the account holds one. -/
def readPresale (r : AccountStore) (k : Pubkey) : Option PresaleAccount :=
  r.read presaleLayout presaleDiscriminator k

variable (keys : KeyCodec)

/-- The admin record read from an account, if the account holds one. -/
def readAdmin (r : AccountStore) (k : Pubkey) : Option AdminAccount :=
  r.read (adminLayout keys) adminDiscriminator k

/-- The user record read from an account, if the account holds one. -/
def readUser (r : AccountStore) (k : Pubkey) : Option UserAccount :=
  r.read (userLayout keys) userDiscriminator k

/-- The user records among the accounts named. -/
def readUsers (r : AccountStore) : List Pubkey → Ledger Pubkey UserAccount
  | [] => ∅
  | k :: named =>
    match r.readUser keys k with
    | some u => (r.readUsers named).insert k u
    | none => r.readUsers named

/-- What the handler of an instruction sees: the accounts named, and nothing else. -/
def view (r : AccountStore) (named : List Pubkey) : State where
  lamports k := if k ∈ named then r.lamports k else 0
  owner k := if k ∈ named then r.owner k else .system
  mints k := if k ∈ named then r.mints k else false
  tokens k := if k ∈ named then r.tokens k else none
  presale := if .presaleInfo ∈ named then r.readPresale .presaleInfo else none
  admins k := if k ∈ named then r.readAdmin keys k else none
  users := r.readUsers keys named

/-- The data of an account when the handler starts: zeros where `init` has just made it. -/
def allocated (r : AccountStore) (i : Instruction) (k : Pubkey) : List UInt8 :=
  match i.space k with
  | some space => List.replicate space 0
  | none => r.data k

/-- Write the record that the handler left at `k`, if any, into the account's data. -/
def writeRecord (s : State) (k : Pubkey) (data : List UInt8) : Option (List UInt8) :=
  match s.recordAt k with
  | some x => x.store keys data
  | none => some data

/-- The accounts after the handler has left the state `s`; it fails when an account has no room
for its record. -/
def commit (r : AccountStore) (i : Instruction) (s : State) : Option AccountStore :=
  if ∀ k ∈ i.writable, (writeRecord keys s k (r.allocated i k)).isSome = true then
    some { r with
      lamports := fun k => if k ∈ i.writable then s.lamports k else r.lamports k
      owner := fun k => if k ∈ i.writable then s.owner k else r.owner k
      data := fun k =>
        if k ∈ i.writable then (writeRecord keys s k (r.allocated i k)).getD [] else r.data k
      tokens := fun k => if k ∈ i.writable then s.tokens k else r.tokens k }
  else none

/-- The accounts without the records of the program. -/
def bare (r : AccountStore) : State where
  lamports := r.lamports
  owner := r.owner
  mints := r.mints
  tokens := r.tokens
  presale := none
  admins _ := none
  users := ∅

/-- At the end of a transaction the accounts without lamports are deleted, with their data. -/
def sweep (r : AccountStore) : AccountStore :=
  { r with
    owner := fun k => if r.lamports k = 0 then .system else r.owner k
    data := fun k => if r.lamports k = 0 then [] else r.data k }

end AccountStore

/-- Why an input fails over accounts: the instruction does, or a record has no room. -/
inductive AccountError
  | program (e : ProgramError)
  | AccountDidNotSerialize
deriving DecidableEq, Repr

/-- The effect of one input on the accounts. -/
def accountStep (keys : KeyCodec) (r : AccountStore) :
    Input → Except AccountError (AccountStore × List LogEntry)
  | .instruction cx i =>
    match runInstruction cx (r.view keys i.accounts) i with
    | .ok (s, log) => (okOr (r.commit keys i s) .AccountDidNotSerialize).map fun r' => (r', log)
    | .error e => .error (.program e)
  | .outside o =>
    match runOutside r.bare o with
    | .ok s => .ok ({ r with lamports := s.lamports, mints := s.mints, tokens := s.tokens }, [])
    | .error e => .error (.program e)
  | .endTransaction => .ok (r.sweep, [])

/-- The program over accounts as a machine. -/
def onAccounts (keys : KeyCodec) : Machine AccountStore Input (List LogEntry) AccountError where
  step := accountStep keys

end TokenPresale.Model
