import TokenPresale.Model.Program

/-!
# What a history says was paid

Quantities read off a history: each looks at the inputs of one kind and adds up what their
logs say was moved. They are the totals that no record of the program keeps.

A payment from an account to itself is read in two ways. `lamportsOutOf` and `vaultTokens` are the
amounts of the payments charged to an account, whoever receives them; `lamportsLeaving` and
`tokensLeaving` leave out what comes back to the account at once, so they are what its balance has
less.
-/

set_option autoImplicit false

namespace TokenPresale.Interface

open TokenPresale.Library TokenPresale.Model

/-! ## Reading a log -/

/-- The amount of a payment charged to `src`, also one to `src` itself. -/
def lamportsOutOf (src : Pubkey) : LogEntry → ℕ
  | .lamports src' _ n => if src' = src then n else 0
  | _ => 0

/-- The lamports by which an entry lowers the balance of `src`: a payment to another account. -/
def lamportsLeaving (src : Pubkey) : LogEntry → ℕ
  | .lamports src' dst n => if src' = src ∧ dst ≠ src then n else 0
  | _ => 0

/-- The amount of a payment to `dst`, also one from `dst` itself. -/
def lamportsInto (dst : Pubkey) : LogEntry → ℕ
  | .lamports _ dst' n => if dst' = dst then n else 0
  | _ => 0

/-- The amount of a transfer charged to a vault, also one to the vault itself. -/
def vaultTokens : LogEntry → ℕ
  | .tokens (.tokenVault _) _ n => n
  | _ => 0

/-- The tokens by which an entry raises the vault of the mint `m`: a transfer from another
account. -/
def tokensInto (m : Pubkey) : LogEntry → ℕ
  | .tokens src dst n => if dst = .tokenVault m ∧ src ≠ dst then n else 0
  | _ => 0

/-- The tokens by which an entry lowers the vault of the mint `m`: a transfer to another
account. -/
def tokensLeaving (m : Pubkey) : LogEntry → ℕ
  | .tokens src dst n => if src = .tokenVault m ∧ src ≠ dst then n else 0
  | _ => 0

/-- The sum of `f` over the entries of a log. -/
def sumOf (f : LogEntry → ℕ) (log : List LogEntry) : ℕ := (log.map f).sum

/-- The empty log sums to zero. -/
@[simp] theorem sumOf_nil (f : LogEntry → ℕ) : sumOf f [] = 0 := rfl

/-- A log sums to its first entry and the sum of the rest. -/
@[simp] theorem sumOf_cons (f : LogEntry → ℕ) (e : LogEntry) (log : List LogEntry) :
    sumOf f (e :: log) = f e + sumOf f log := by
  simp [sumOf]

/-! ## Kinds of inputs -/

/-- A `refund_token` call on the account `k`. -/
def refunds (k : Pubkey) : Input → Bool
  | .instruction _ (.refundToken a) => a.userAccount = k
  | _ => false

/-- A `refund_token` call. -/
def refundsAny : Input → Bool
  | .instruction _ (.refundToken _) => true
  | _ => false

/-- A `claim_token` call on the account `k`. -/
def claims (k : Pubkey) : Input → Bool
  | .instruction _ (.claimToken a) => a.userAccount = k
  | _ => false

/-- A `claim_token` call. -/
def claimsAny : Input → Bool
  | .instruction _ (.claimToken _) => true
  | _ => false

/-- A claim on one account is a claim. -/
theorem claimsAny_of_claims {k : Pubkey} {i : Input} (h : claims k i = true) :
    claimsAny i = true := by
  unfold claims at h
  split at h
  · rfl
  · exact absurd h Bool.false_ne_true

/-- A `deposit_token` call. -/
def deposits : Input → Bool
  | .instruction _ (.depositToken _ _ _) => true
  | _ => false

/-- A `buy_token` call. -/
def buysAny : Input → Bool
  | .instruction _ (.buyToken _ _) => true
  | _ => false

/-- A `buy_token` call signed by `w`. -/
def buysFor (w : Pubkey) : Input → Bool
  | .instruction _ (.buyToken a _) => a.authority = w
  | _ => false

/-- An `initialize` call. -/
def launches : Input → Bool
  | .instruction _ (.initializePresale _ _) => true
  | _ => false

/-- An `initialize` call with the arguments `args`. -/
def launchesWith (args : InitializeArgs) : Input → Bool
  | .instruction _ (.initializePresale _ args') => args' = args
  | _ => false

/-- An input that launches with `args` is an `initialize` call with them. -/
theorem eq_of_launchesWith {args : InitializeArgs} {i : Input}
    (h : launchesWith args i = true) :
    ∃ cx a, i = .instruction cx (.initializePresale a args) := by
  match i, h with
  | .instruction cx (.initializePresale a args'), h =>
    obtain rfl : args' = args := of_decide_eq_true h
    exact ⟨cx, a, rfl⟩

/-- A `finalize` call. -/
def finalizes : Input → Bool
  | .instruction _ (.finalize _ _) => true
  | _ => false

/-- A `withdraw` call. -/
def withdraws : Input → Bool
  | .instruction _ (.withdraw _) => true
  | _ => false

/-- A `withdraw_token` call. -/
def withdrawsTokens : Input → Bool
  | .instruction _ (.withdrawToken _) => true
  | _ => false

/-! ## Totals of a history -/

/-- What a step that meets `c` moved, as `f` reads it off the log. -/
def receipt (c : Input → Bool) (f : LogEntry → ℕ) (r : Step) : ℕ :=
  if c r.input then sumOf f r.output else 0

/-- The amounts that all `refund_token` calls on the account `k` pay out of the escrow, whoever
receives them. -/
def refundsPaid (k : Pubkey) (h : History) : ℕ :=
  tally (receipt (refunds k) (lamportsOutOf .escrowVault)) h

/-- The amounts that all `refund_token` calls pay out of the escrow, whoever receives them. -/
def allRefundsPaid (h : History) : ℕ :=
  tally (receipt refundsAny (lamportsOutOf .escrowVault)) h

/-- The amounts that all `claim_token` calls on the account `k` transfer from a vault, whoever
receives them. -/
def claimsMoved (k : Pubkey) (h : History) : ℕ :=
  tally (receipt (claims k) vaultTokens) h

/-- The lamports debited from `w` by its own `buy_token` calls; none of them pays `w` itself. -/
def spentBy (w : Pubkey) (h : History) : ℕ :=
  tally (receipt (buysFor w) (lamportsOutOf w)) h

/-- The lamports that `initialize` put into the escrow. -/
def escrowDeposit (h : History) : ℕ :=
  tally (receipt launches (lamportsInto .escrowVault)) h

/-- What the escrow holds after the step `r`, if that is `initialize`: what it held before, and what
the call put into it. -/
def openingOf (r : Step) : ℕ :=
  if launches r.input then
    r.before.lamports .escrowVault + sumOf (lamportsInto .escrowVault) r.output
  else 0

/-- The lamports that the escrow held when `initialize` had succeeded. -/
def escrowOpening (h : History) : ℕ := tally openingOf h

/-- What `initialize` puts into the escrow is part of what the escrow then holds. -/
theorem escrowDeposit_le_opening (h : History) : escrowDeposit h ≤ escrowOpening h := by
  unfold escrowDeposit escrowOpening
  induction h with
  | nil => exact le_rfl
  | cons r h ih =>
    have hle : receipt launches (lamportsInto .escrowVault) r ≤ openingOf r := by
      unfold receipt openingOf
      split_ifs
      · exact Nat.le_add_left _ _
      · exact le_rfl
    rw [tally_cons, tally_cons]
    exact Nat.add_le_add hle ih

/-- The lamports by which a `finalize` step lowered the escrow. -/
def teamPaid (r : Step) : ℕ := receipt finalizes (lamportsLeaving .escrowVault) r

/-- How many `refund_token` calls on the account `k` succeeded. -/
def refundCalls (k : Pubkey) (h : History) : ℕ := tally (fun r => (refunds k r.input).toNat) h

/-- How many `claim_token` calls on the account `k` succeeded. -/
def claimCalls (k : Pubkey) (h : History) : ℕ := tally (fun r => (claims k r.input).toNat) h

/-- How many `initialize` calls succeeded. -/
def launchCalls (h : History) : ℕ := tally (fun r => (launches r.input).toNat) h

/-- How many `buy_token` calls succeeded. -/
def buyCalls (h : History) : ℕ := tally (fun r => (buysAny r.input).toNat) h

/-- The tokens by which all `deposit_token` calls raised the vault of the mint `m`. -/
def depositedInto (m : Pubkey) (h : History) : ℕ := tally (receipt deposits (tokensInto m)) h

/-- The lamports by which calls that meet `c` lowered the escrow. -/
def leftEscrow (c : Input → Bool) (h : History) : ℕ :=
  tally (receipt c (lamportsLeaving .escrowVault)) h

/-- The tokens by which calls that meet `c` lowered the vault of the mint `m`. -/
def leftVault (c : Input → Bool) (m : Pubkey) (h : History) : ℕ :=
  tally (receipt c (tokensLeaving m)) h

/-- The lamports that an input pays to `k` from outside the program. -/
def donation (k : Pubkey) (r : Step) : ℕ :=
  match r.input with
  | .outside (.payIn k' n) => if k' = k then n else 0
  | _ => 0

/-- The tokens that an input pays into the vault of the mint `m` from outside the program. -/
def tokenDonation (m : Pubkey) (r : Step) : ℕ :=
  match r.input with
  | .outside (.tokensIn k n) =>
    if k = .tokenVault m ∧ (r.before.tokens k).isSome = true then n else 0
  | _ => 0

/-- The part of a history before its first `claim_token` call. -/
def beforeClaims (h : History) : History := h.takeWhile fun r => !claimsAny r.input

/-- Whether a `buy_token` call has succeeded. -/
def bought (h : History) : Bool := h.any fun r => buysAny r.input

/-- Whether a `withdraw_token` call has succeeded. -/
def tokensWithdrawn (h : History) : Bool := h.any fun r => withdrawsTokens r.input

/-- An order has succeeded in a longer history if it had before or the last step is one. -/
@[simp] theorem bought_snoc (h : History) (r : Step) :
    bought (h ++ [r]) = (bought h || buysAny r.input) := by
  simp [bought]

/-- The tokens have been withdrawn in a longer history if they had been before or the last step does
it. -/
@[simp] theorem tokensWithdrawn_snoc (h : History) (r : Step) :
    tokensWithdrawn (h ++ [r]) = (tokensWithdrawn h || withdrawsTokens r.input) := by
  simp [tokensWithdrawn]

/-- The history contains an `initialize` call with these arguments. -/
def LaunchedWith (args : InitializeArgs) (h : History) : Prop :=
  ∃ r ∈ h, launchesWith args r.input = true

/-- Whether a history has such a launch is decided by searching it. -/
instance (args : InitializeArgs) (h : History) : Decidable (LaunchedWith args h) :=
  inferInstanceAs (Decidable (∃ r ∈ h, launchesWith args r.input = true))

end TokenPresale.Interface
