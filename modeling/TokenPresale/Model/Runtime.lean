import TokenPresale.Library.Balance
import TokenPresale.Library.Checked
import TokenPresale.Library.FixedPrice
import TokenPresale.Model.Account

/-!
# What the handlers call

The account checks Anchor derives from the `Accounts` structures, account creation, the
system program's transfer, the handlers' own moves of lamports, and the SPL token transfer.
Each comes with the lemma that says when it succeeds and with what.
-/

set_option autoImplicit false

namespace TokenPresale.Model

open TokenPresale.Library

/-! ## Account checks -/

/-- The `seeds` constraint: the account given is the derived one. -/
def requireSeeds (given derived : Pubkey) : Except ProgramError Unit :=
  failIf (given ≠ derived) (.anchor .ConstraintSeeds)

/-- The `Signer` type. -/
def requireSigner (cx : Context) (k : Pubkey) : Except ProgramError Unit :=
  failIf (¬ cx.signed k) (.anchor .AccountNotSigner)

/-- `Account<PresaleAccount>` with `seeds = [PRESALE_INFO_SEED]`. -/
def loadPresale (s : State) (k : Pubkey) : Except ProgramError PresaleAccount := do
  requireSeeds k .presaleInfo
  okOr s.presale (.anchor .AccountNotInitialized)

/-- `Account<UserAccount>`: any account that holds a user record. -/
def loadUser (s : State) (k : Pubkey) : Except ProgramError UserAccount :=
  okOr (s.users.lookup k) (.anchor .AccountNotInitialized)

/-- `Account<AdminAccount>`: any account that holds an admin record; it has no `seeds`. -/
def loadAdmin (s : State) (k : Pubkey) : Except ProgramError AdminAccount :=
  okOr (s.admins k) (.anchor .AccountNotInitialized)

/-- `Account<Mint>`. -/
def loadMint (s : State) (k : Pubkey) : Except ProgramError Unit :=
  failIf (s.mints k = false) (.anchor .AccountNotInitialized)

/-- `Account<TokenAccount>`. -/
def loadToken (s : State) (k : Pubkey) : Except ProgramError TokenAccount :=
  okOr (s.tokens k) (.anchor .AccountNotInitialized)

/-- A seeds check passes exactly on the derived address. -/
theorem requireSeeds_eq_ok {given derived : Pubkey} {u : Unit} :
    requireSeeds given derived = .ok u ↔ given = derived := by
  simp [requireSeeds, failIf_eq_ok]

/-- A signer check passes exactly on a key that has signed. -/
theorem requireSigner_eq_ok {cx : Context} {k : Pubkey} {u : Unit} :
    requireSigner cx k = .ok u ↔ cx.signed k := by
  simp [requireSigner, failIf_eq_ok]

/-- The presale record is loaded exactly from its own address, when it exists. -/
theorem loadPresale_eq_ok {s : State} {k : Pubkey} {p : PresaleAccount} :
    loadPresale s k = .ok p ↔ k = .presaleInfo ∧ s.presale = some p := by
  simp [loadPresale, bind_eq_ok, requireSeeds_eq_ok, okOr_eq_ok]

/-- A user record is loaded exactly when it exists. -/
theorem loadUser_eq_ok {s : State} {k : Pubkey} {u : UserAccount} :
    loadUser s k = .ok u ↔ s.users.lookup k = some u := okOr_eq_ok

/-- An admin record is loaded exactly when it exists. -/
theorem loadAdmin_eq_ok {s : State} {k : Pubkey} {a : AdminAccount} :
    loadAdmin s k = .ok a ↔ s.admins k = some a := okOr_eq_ok

/-- The refusals of the account checks are Anchor's. -/
theorem requireSeeds_eq_error {given derived : Pubkey} {e : ProgramError} :
    requireSeeds given derived = .error e ↔ given ≠ derived ∧ .anchor .ConstraintSeeds = e :=
  failIf_eq_error

/-- A signer check fails exactly on a key that has not signed. -/
theorem requireSigner_eq_error {cx : Context} {k : Pubkey} {e : ProgramError} :
    requireSigner cx k = .error e ↔ ¬ cx.signed k ∧ .anchor .AccountNotSigner = e :=
  failIf_eq_error

/-- The presale record is refused for a foreign address or because it does not exist. -/
theorem loadPresale_eq_error {s : State} {k : Pubkey} {e : ProgramError} :
    loadPresale s k = .error e ↔
      k ≠ .presaleInfo ∧ .anchor .ConstraintSeeds = e ∨
        k = .presaleInfo ∧ s.presale = none ∧ .anchor .AccountNotInitialized = e := by
  simp [loadPresale, bind_eq_error, requireSeeds_eq_error, requireSeeds_eq_ok, okOr_eq_error]

/-- A user record is refused exactly when it does not exist. -/
theorem loadUser_eq_error {s : State} {k : Pubkey} {e : ProgramError} :
    loadUser s k = .error e ↔
      s.users.lookup k = none ∧ .anchor .AccountNotInitialized = e := okOr_eq_error

/-- An admin record is refused exactly when it does not exist. -/
theorem loadAdmin_eq_error {s : State} {k : Pubkey} {e : ProgramError} :
    loadAdmin s k = .error e ↔ s.admins k = none ∧ .anchor .AccountNotInitialized = e :=
  okOr_eq_error

/-- A mint is loaded exactly when it exists. -/
theorem loadMint_eq_ok {s : State} {k : Pubkey} {u : Unit} :
    loadMint s k = .ok u ↔ s.mints k = true := by
  simp [loadMint, failIf_eq_ok]

/-- A token account is loaded exactly when it exists. -/
theorem loadToken_eq_ok {s : State} {k : Pubkey} {t : TokenAccount} :
    loadToken s k = .ok t ↔ s.tokens k = some t := okOr_eq_ok

/-! ## Lamports -/

/-- The system program's transfer, signed for by `src`. -/
def systemTransfer (src dst : Pubkey) (amount : ℕ) (s : State) : Except ProgramError State := do
  failIf (s.lamports src < amount) (.runtime .ResultWithNegativeLamports)
  failIf (2 ^ 64 ≤ move s.lamports src dst amount dst) (.runtime .ArithmeticOverflow)
  return { s with lamports := move s.lamports src dst amount }

/-- A system transfer succeeds exactly when the source covers it and the destination does not
overflow. -/
theorem systemTransfer_eq_ok {src dst : Pubkey} {amount : ℕ} {s s' : State} :
    systemTransfer src dst amount s = .ok s' ↔
      amount ≤ s.lamports src ∧ move s.lamports src dst amount dst < 2 ^ 64 ∧
        { s with lamports := move s.lamports src dst amount } = s' := by
  simp only [systemTransfer, bind_eq_ok, failIf_eq_ok, pure_eq_ok, exists_const, Nat.not_lt,
    Nat.not_le]

/-- A system transfer fails for want of lamports or for an overflow at the destination. -/
theorem systemTransfer_eq_error {src dst : Pubkey} {amount : ℕ} {s : State} {e : ProgramError} :
    systemTransfer src dst amount s = .error e ↔
      s.lamports src < amount ∧ .runtime .ResultWithNegativeLamports = e ∨
        amount ≤ s.lamports src ∧ 2 ^ 64 ≤ move s.lamports src dst amount dst ∧
          .runtime .ArithmeticOverflow = e := by
  simp only [systemTransfer, bind_eq_error, failIf_eq_error, failIf_eq_ok, pure_eq_error,
    exists_const, Nat.not_lt, Nat.not_le, and_false, or_false]

/-- `**src.try_borrow_mut_lamports()? -= amount; **dst.try_borrow_mut_lamports()? += amount;`
When the instruction ends, the runtime rejects it if the balance of an account that the
program does not own has fallen. -/
def moveLamports (src dst : Pubkey) (amount : ℕ) (s : State) : Except ProgramError State := do
  let debited ← checkedSub (.panic .lamports) (s.lamports src) amount
  let lamports₁ := Function.update s.lamports src debited
  let credited ← checkedAdd 64 (.panic .lamports) (lamports₁ dst) amount
  let lamports₂ := Function.update lamports₁ dst credited
  failIf (s.owner src ≠ .tokenPresale ∧ lamports₂ src < s.lamports src)
    (.runtime .ExternalAccountLamportSpend)
  return { s with lamports := lamports₂ }

/-- A program moves lamports exactly when the source covers them, the destination does not overflow,
and a source that is debited belongs to the program. -/
theorem moveLamports_eq_ok {src dst : Pubkey} {amount : ℕ} {s s' : State} :
    moveLamports src dst amount s = .ok s' ↔
      amount ≤ s.lamports src ∧ move s.lamports src dst amount dst < 2 ^ 64 ∧
        (move s.lamports src dst amount src < s.lamports src → s.owner src = .tokenPresale) ∧
          { s with lamports := move s.lamports src dst amount } = s' := by
  simp only [moveLamports, bind_eq_ok, checkedSub_eq_ok, checkedAdd_eq_ok, failIf_eq_ok,
    pure_eq_ok, move, Function.update_self]
  constructor
  · rintro ⟨_, ⟨hle, rfl⟩, _, ⟨hfit, rfl⟩, _, hown, rfl⟩
    exact ⟨hle, hfit, fun hlt => by_contra fun hne => hown ⟨hne, hlt⟩, rfl⟩
  · rintro ⟨hle, hfit, hown, rfl⟩
    exact ⟨_, ⟨hle, rfl⟩, _, ⟨hfit, rfl⟩, (), fun hboth => hboth.1 (hown hboth.2), rfl⟩

/-- A move of lamports fails when the source has too little, when the balance of the destination
overflows, or when the runtime rejects the debit. -/
theorem moveLamports_eq_error {src dst : Pubkey} {amount : ℕ} {s : State} {e : ProgramError} :
    moveLamports src dst amount s = .error e ↔
      s.lamports src < amount ∧ .panic .lamports = e ∨
        amount ≤ s.lamports src ∧ (2 ^ 64 ≤ move s.lamports src dst amount dst ∧
            .panic .lamports = e ∨
          move s.lamports src dst amount dst < 2 ^ 64 ∧
            (s.owner src ≠ .tokenPresale ∧ move s.lamports src dst amount src < s.lamports src) ∧
              .runtime .ExternalAccountLamportSpend = e) := by
  simp only [moveLamports, bind_eq_error, checkedSub_eq_error, checkedSub_eq_ok,
    checkedAdd_eq_error, checkedAdd_eq_ok, failIf_eq_error, pure_eq_error, and_false, or_false,
    exists_false, move, Function.update_self]
  apply or_congr_right
  constructor
  · rintro ⟨_, ⟨hle, rfl⟩, hover | ⟨_, ⟨hfit, rfl⟩, hdebit⟩⟩
    · exact ⟨hle, .inl hover⟩
    · exact ⟨hle, .inr ⟨hfit, hdebit⟩⟩
  · rintro ⟨hle, hover | ⟨hfit, hdebit⟩⟩
    · exact ⟨_, ⟨hle, rfl⟩, .inl hover⟩
    · exact ⟨_, ⟨hle, rfl⟩, .inr ⟨_, ⟨hfit, rfl⟩, hdebit⟩⟩

/-- The runtime's own refusals of a move of lamports are no errors of the program. -/
theorem moveLamports_ne_program {src dst : Pubkey} {n : ℕ} {s : State} {c : ErrorCode} :
    moveLamports src dst n s ≠ .error (.program c) := by
  simp only [ne_eq, moveLamports_eq_error, reduceCtorEq, and_false, or_false, not_false_eq_true]

/-- Anchor's `init`: the account must still belong to the system program; `payer` tops it up
to the rent-exempt minimum, and it is handed to `program`. The result carries what the payer
paid. -/
def initAccount (cx : Context) (payer k : Pubkey) (space : ℕ) (program : ProgramId) (s : State) :
    Except ProgramError (State × ℕ) := do
  failIf (s.owner k ≠ .system) (.runtime .AccountAlreadyInUse)
  let required := cx.rent.minimumBalance space - s.lamports k
  let s ← systemTransfer payer k required s
  return ({ s with owner := Function.update s.owner k program }, required)

/-- An account is created exactly when its address is unused and the payer covers the missing rent,
and the payer is charged that rent. -/
theorem initAccount_eq_ok {cx : Context} {payer k : Pubkey} {space : ℕ} {program : ProgramId}
    {s s' : State} {n : ℕ} :
    initAccount cx payer k space program s = .ok (s', n) ↔
      s.owner k = .system ∧ cx.rent.minimumBalance space - s.lamports k = n ∧
        n ≤ s.lamports payer ∧ move s.lamports payer k n k < 2 ^ 64 ∧
          { s with lamports := move s.lamports payer k n,
                   owner := Function.update s.owner k program } = s' := by
  simp only [initAccount, bind_eq_ok, failIf_eq_ok, systemTransfer_eq_ok, pure_eq_ok,
    Prod.mk.injEq, not_not]
  constructor
  · rintro ⟨_, hown, _, ⟨hle, hfit, rfl⟩, rfl, rfl⟩
    exact ⟨hown, rfl, hle, hfit, rfl⟩
  · rintro ⟨hown, rfl, hle, hfit, rfl⟩
    exact ⟨(), hown, _, ⟨hle, hfit, rfl⟩, rfl, rfl⟩

/-! ## Tokens -/

/-- Token accounts after `n` tokens are taken from `src` and then added to `dst`. -/
def moveTokens (t : Pubkey → Option TokenAccount) (src dst : Pubkey) (n : ℕ) :
    Pubkey → Option TokenAccount :=
  let debited := Function.update t src
    ((t src).map fun a => { a with amount := a.amount - n })
  Function.update debited dst ((debited dst).map fun a => { a with amount := a.amount + n })

/-- `token::transfer`, `authority` being an account that has signed. The supply of a mint
fits in 64 bits, so the credit cannot overflow. -/
def tokenTransfer (src dst authority : Pubkey) (amount : ℕ) (s : State) :
    Except ProgramError State := do
  let from_ ← loadToken s src
  let to_ ← loadToken s dst
  failIf (from_.amount < amount) (.token .InsufficientFunds)
  failIf (from_.mint ≠ to_.mint) (.token .MintMismatch)
  failIf (from_.owner ≠ authority) (.token .OwnerMismatch)
  return { s with tokens := moveTokens s.tokens src dst amount }

/-- A token transfer succeeds exactly between two accounts of one mint, with enough tokens and under
the source's own authority. -/
theorem tokenTransfer_eq_ok {src dst authority : Pubkey} {amount : ℕ} {s s' : State} :
    tokenTransfer src dst authority amount s = .ok s' ↔
      ∃ f t, s.tokens src = some f ∧ s.tokens dst = some t ∧ amount ≤ f.amount ∧
        f.mint = t.mint ∧ f.owner = authority ∧
          { s with tokens := moveTokens s.tokens src dst amount } = s' := by
  simp only [tokenTransfer, bind_eq_ok, loadToken_eq_ok, failIf_eq_ok, pure_eq_ok, exists_const,
    Nat.not_lt, not_not, exists_and_left]

/-- A token transfer from another account raises the destination by its amount. -/
theorem moveTokens_dst {t : Pubkey → Option TokenAccount} {src dst : Pubkey} {n : ℕ}
    {a : TokenAccount} (h : src ≠ dst) (ha : t dst = some a) :
    moveTokens t src dst n dst = some { a with amount := a.amount + n } := by
  simp [moveTokens, h.symm, ha]

/-- A token transfer to another account lowers the source by its amount. -/
theorem moveTokens_src {t : Pubkey → Option TokenAccount} {src dst : Pubkey} {n : ℕ}
    {a : TokenAccount} (h : src ≠ dst) (ha : t src = some a) :
    moveTokens t src dst n src = some { a with amount := a.amount - n } := by
  simp [moveTokens, h, ha]

/-- A token account that is neither end of a transfer is untouched. -/
theorem moveTokens_other (t : Pubkey → Option TokenAccount) {src dst k : Pubkey} (n : ℕ)
    (hs : k ≠ src) (hd : k ≠ dst) : moveTokens t src dst n k = t k := by
  simp [moveTokens, hs, hd]

/-- Token accounts that agree where `P` holds still agree there after equal transfers between such
accounts. -/
theorem moveTokens_congr {P : Pubkey → Prop} {t t' : Pubkey → Option TokenAccount}
    {src dst : Pubkey} {m n : ℕ} (h : ∀ k, P k → t k = t' k) (hs : P src) (hd : P dst)
    (hn : m = n) : ∀ k, P k → moveTokens t src dst m k = moveTokens t' src dst n k := by
  subst hn
  have debited := update_congr src h
    (congrArg (Option.map fun a : TokenAccount => { a with amount := a.amount - m }) (h src hs))
  exact update_congr dst debited
    (congrArg (Option.map fun a : TokenAccount => { a with amount := a.amount + m })
      (debited dst hd))

/-- A transfer of tokens from an account to itself changes nothing. -/
theorem moveTokens_self {t : Pubkey → Option TokenAccount} {k : Pubkey} {n : ℕ}
    {a : TokenAccount} (ha : t k = some a) (hn : n ≤ a.amount) : moveTokens t k k n = t := by
  funext k'
  rcases eq_or_ne k' k with rfl | hk
  · simp [moveTokens, ha, Nat.sub_add_cancel hn]
  · simp [moveTokens, hk]

/-- The amount of the token account at `k`, zero when there is none. -/
def tokenAmount (t : Pubkey → Option TokenAccount) (k : Pubkey) : ℕ :=
  (t k).elim 0 TokenAccount.amount

/-- The balance at an address is the amount of the account there. -/
theorem tokenAmount_of_some {t : Pubkey → Option TokenAccount} {k : Pubkey} {a : TokenAccount}
    (ha : t k = some a) : tokenAmount t k = a.amount := by
  rw [tokenAmount, ha, Option.elim_some]

/-- Between two existing accounts tokens move as lamports do. -/
theorem tokenAmount_moveTokens {t : Pubkey → Option TokenAccount} {src dst : Pubkey} {n : ℕ}
    {a b : TokenAccount} (ha : t src = some a) (hb : t dst = some b) :
    tokenAmount (moveTokens t src dst n) = move (tokenAmount t) src dst n := by
  funext k
  rcases eq_or_ne src dst with rfl | hne
  · rcases eq_or_ne k src with rfl | hk
    · simp [tokenAmount, moveTokens, move, ha]
    · simp [tokenAmount, moveTokens, move, hk]
  · rcases eq_or_ne k dst with rfl | hd
    · rw [move_dst n hne, tokenAmount_of_some (moveTokens_dst hne hb), tokenAmount_of_some hb]
    · rcases eq_or_ne k src with rfl | hs
      · rw [move_src n hne, tokenAmount_of_some (moveTokens_src hne ha), tokenAmount_of_some ha]
      · rw [move_other _ n hs hd, tokenAmount, moveTokens_other t n hs hd, tokenAmount]

/-- A transfer keeps the mint and the owner of every token account. -/
theorem moveTokens_holder (t : Pubkey → Option TokenAccount) (src dst k : Pubkey) (n : ℕ) :
    (moveTokens t src dst n k).map (fun a => (a.mint, a.owner)) =
      (t k).map fun a => (a.mint, a.owner) := by
  rcases eq_or_ne k dst with rfl | hd <;> rcases eq_or_ne k src with rfl | hs <;>
    simp [moveTokens, Function.comp_def, *]

/-- A token account after a transfer was there before it, with the same mint and owner. -/
theorem exists_of_moveTokens {t : Pubkey → Option TokenAccount} {src dst k : Pubkey} {n : ℕ}
    {a' : TokenAccount} (h : moveTokens t src dst n k = some a') :
    ∃ a, t k = some a ∧ a.mint = a'.mint ∧ a.owner = a'.owner := by
  have hold := moveTokens_holder t src dst k n
  rw [h, Option.map_some, eq_comm, Option.map_eq_some_iff] at hold
  obtain ⟨a, ha, heq⟩ := hold
  obtain ⟨hmint, howner⟩ := Prod.mk.inj heq
  exact ⟨a, ha, hmint, howner⟩

end TokenPresale.Model
