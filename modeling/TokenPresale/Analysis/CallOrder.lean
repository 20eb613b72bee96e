import TokenPresale.Analysis.OrderLists

/-!
# What the order of calls decides

Who gets the last tokens of the sale depends on who orders first, but how much is sold and raised
does not: whatever orders are accepted, the record of the presale and the escrow end as if their
sum had been ordered at once, also when the pool runs out among them. The claims of a finalized
presale may change places altogether.
-/

set_option autoImplicit false

namespace TokenPresale.Analysis

open TokenPresale.Library TokenPresale.Model TokenPresale.Interface

/-! ## Orders -/

/-- The record after orders of `amount` lamports in all, which leave `n` participants. -/
def afterOrders (p : PresaleAccount) (amount n : ℕ) : PresaleAccount :=
  { p with
    totalParticipants := n
    totalSolAmount := p.totalSolAmount + min amount (p.totalTokenRemained / p.presaleRate)
    totalTokenRemained := p.totalTokenRemained - p.presaleRate * amount
    isHardcapped := if p.totalTokenRemained ≤ p.presaleRate * amount then 1 else p.isHardcapped
    isSoftcapped :=
      if p.totalTokenRemained - p.presaleRate * amount < p.softCap ∧ p.isSoftcapped = 0 then 1
      else p.isSoftcapped }

section Orders

variable {p : PresaleAccount} {m n k l : ℕ}

/-- One order leaves the record of orders. -/
theorem presaleAfterBuy_eq (hrate : 0 < p.presaleRate) (u : UserAccount) (n : ℕ) :
    presaleAfterBuy p u n = afterOrders p n
      (if u.userBuyAmount = 0 then p.totalParticipants + 1 else p.totalParticipants) := by
  have hrest : p.totalTokenRemained - min (p.presaleRate * n) p.totalTokenRemained =
      p.totalTokenRemained - p.presaleRate * n := by omega
  simp only [presaleAfterBuy, afterOrders, fillOf, fill_eq_min hrate, hrest, ite_and]

/-- More orders leave the record of all of them. -/
theorem afterOrders_add (p : PresaleAccount) (m n k l : ℕ) :
    afterOrders (afterOrders p m k) n l = afterOrders p (m + n) l := by
  have hsum : p.presaleRate * (m + n) = p.presaleRate * m + p.presaleRate * n := Nat.mul_add _ _ _
  have hquot : (p.totalTokenRemained - p.presaleRate * m) / p.presaleRate =
      p.totalTokenRemained / p.presaleRate - m := Nat.sub_mul_div _ _ _
  have hempty : p.totalTokenRemained - p.presaleRate * m ≤ p.presaleRate * n ↔
      p.totalTokenRemained ≤ p.presaleRate * m + p.presaleRate * n := by omega
  simp only [afterOrders, hquot, hsum, hempty, Nat.sub_sub, PresaleAccount.mk.injEq, true_and]
  refine ⟨by omega, ?_, ?_⟩
  · split_ifs <;> omega
  · split_ifs <;> omega

/-- The state after orders of `m` lamports in all, placed when the record was `p`, the escrow held
`escrow` lamports and `bought` tokens were allocated. -/
structure Ordered (p : PresaleAccount) (escrow bought : ℕ) (s : State) (m k : ℕ) : Prop where
  presale : s.presale = some (afterOrders p m k)
  escrow : s.lamports .escrowVault = escrow + min m (p.totalTokenRemained / p.presaleRate)
  bought : s.users.total UserAccount.userBuyAmount =
    bought + min (p.presaleRate * m) p.totalTokenRemained

/-- One order that succeeds leaves what an order of its amount should. -/
theorem ordered_of_buy {cx : Context} {a : BuyToken} {s : State} {u : UserAccount}
    (hrate : 0 < p.presaleRate) (ok : BuyAccepted cx a n s p u) :
    Ordered p (s.lamports .escrowVault) (s.users.total UserAccount.userBuyAmount)
      (afterBuy a n s p u) n
        (if u.userBuyAmount = 0 then p.totalParticipants + 1 else p.totalParticipants) where
  presale := congrArg some (presaleAfterBuy_eq hrate u n)
  escrow := by
    have hpaid : (afterBuy a n s p u).lamports .escrowVault =
        s.lamports .escrowVault + (fillOf p n).cost := move_dst _ ok.authority_ne_escrow
    rw [hpaid, fillOf, fill_eq_min hrate]
  bought := by
    have hbought : (afterBuy a n s p u).users.total UserAccount.userBuyAmount + u.userBuyAmount =
        s.users.total UserAccount.userBuyAmount + (u.userBuyAmount + (fillOf p n).tokens) :=
      Ledger.total_insert_of_lookup _ _ ok.user
    rw [fillOf, fill_eq_min hrate] at hbought
    dsimp only at hbought
    omega

/-- Further orders are orders for the rest of the pool. -/
theorem Ordered.add {escrow bought : ℕ} {s t : State} (first : Ordered p escrow bought s m k)
    (second : Ordered (afterOrders p m k) (s.lamports .escrowVault)
      (s.users.total UserAccount.userBuyAmount) t n l) :
    Ordered p escrow bought t (m + n) l where
  presale := second.presale.trans (congrArg some (afterOrders_add p m n k l))
  escrow := by
    have hrest : t.lamports .escrowVault = s.lamports .escrowVault +
        min n ((p.totalTokenRemained - p.presaleRate * m) / p.presaleRate) := second.escrow
    rw [Nat.sub_mul_div] at hrest
    have hfirst := first.escrow
    omega
  bought := by
    have hrest : t.users.total UserAccount.userBuyAmount =
        s.users.total UserAccount.userBuyAmount +
          min (p.presaleRate * n) (p.totalTokenRemained - p.presaleRate * m) := second.bought
    have hfirst := first.bought
    rw [Nat.mul_add]
    omega

/-- A list of orders adds its sum to the orders before it, and at most one participant for each
call. -/
theorem ordered_of_drive (hrate : 0 < p.presaleRate) {escrow bought : ℕ} {calls : List BuyCall} :
    ∀ {s t : State} {h : History} {m k : ℕ}, Ordered p escrow bought s m k →
      presale.drive s (calls.map BuyCall.input) = .ok (h, t) →
        ∃ n, Ordered p escrow bought t (m + offered calls) n ∧ k ≤ n ∧ n ≤ k + calls.length := by
  induction calls with
  | nil =>
    intro s t h m k ordered hdrive
    obtain ⟨-, rfl⟩ : [] = h ∧ s = t := by simpa [Machine.drive] using hdrive
    exact ⟨k, ordered, le_rfl, le_rfl⟩
  | cons c calls ih =>
    intro s t h m k ordered hdrive
    obtain ⟨s₁, o, h₁, hstep, hrest, -⟩ := Machine.drive_cons_eq_ok.mp hdrive
    obtain ⟨q, u, ok, hout⟩ := buyCall_step_eq_ok.mp hstep
    obtain ⟨rfl, -⟩ := Prod.mk.inj hout
    obtain rfl := Option.mem_unique ordered.presale ok.presale
    have next := ordered.add (ordered_of_buy (p := afterOrders p m k) hrate ok)
    obtain ⟨n, hn, hlow, hhigh⟩ := ih next hrest
    rw [offered_cons, ← Nat.add_assoc, List.length_cons]
    have hcounted : (afterOrders p m k).totalParticipants = k := rfl
    rw [hcounted] at hlow hhigh
    refine ⟨n, hn, ?_, ?_⟩
    · split_ifs at hlow <;> omega
    · split_ifs at hhigh <;> omega

end Orders

/-- What the sale sells and raises does not depend on the order of the orders: whatever orders are
accepted one after another, by whichever wallets, the record and the escrow end as if their sum had
been ordered at once, also when the pool runs out among them, and the tokens allocated are those of
the sum. Only the count of participants depends on more than the sum.
SRC: buy_token.rs:31-105 -/
theorem orders_add_up (e : Execution) (p : PresaleAccount) (hp : e.final.presale = some p)
    (hrate : 1 ≤ p.presaleRate) (calls : List BuyCall) (hne : calls ≠ []) (hist : History)
    (s' : State) (h : presale.drive e.final (calls.map BuyCall.input) = .ok (hist, s')) :
    ∃ n, p.totalParticipants ≤ n ∧ n ≤ p.totalParticipants + calls.length ∧
      s'.presale = some (afterOrders p (offered calls) n) ∧
      s'.lamports .escrowVault = e.final.lamports .escrowVault +
        min (offered calls) (p.totalTokenRemained / p.presaleRate) ∧
      s'.users.total UserAccount.userBuyAmount =
        e.final.users.total UserAccount.userBuyAmount +
          min (p.presaleRate * offered calls) p.totalTokenRemained := by
  cases calls with
  | nil => exact absurd rfl hne
  | cons c calls =>
    obtain ⟨s₁, o, h₁, hstep, hrest, -⟩ := Machine.drive_cons_eq_ok.mp h
    obtain ⟨q, u, ok, hout⟩ := buyCall_step_eq_ok.mp hstep
    obtain ⟨rfl, -⟩ := Prod.mk.inj hout
    obtain rfl := Option.mem_unique hp ok.presale
    obtain ⟨n, ordered, hlow, hhigh⟩ := ordered_of_drive hrate (ordered_of_buy hrate ok) hrest
    rw [offered_cons, List.length_cons]
    refine ⟨n, ?_, ?_, ordered.presale, ordered.escrow, ordered.bought⟩
    · split_ifs at hlow <;> omega
    · split_ifs at hhigh <;> omega

/-- Orders of 35 lamports for the last 70 tokens, at 3 for a lamport, raise 23 in any order. -/
theorem orders_add_up_small_sale :
    ∃ hist s', presale.drive (Sample.play Sample.bobNext).final
        [Sample.buy 2 20, Sample.buy 1 10, Sample.buy 2 5] = .ok (hist, s') ∧
      s'.lamports .escrowVault =
        (Sample.play Sample.bobNext).final.lamports .escrowVault + 23 := by
  obtain ⟨p, hp, hrate, hpool⟩ := sample_bobNext
  have hok : (presale.drive (Sample.play Sample.bobNext).final
      [Sample.buy 2 20, Sample.buy 1 10, Sample.buy 2 5]).isOk = true := by decide +kernel
  obtain ⟨⟨hist, s'⟩, hdrive⟩ := exists_of_isOk hok
  obtain ⟨n, -, -, -, hescrow, -⟩ := orders_add_up _ p hp (by omega)
    [sampleOrder 2 20, sampleOrder 1 10, sampleOrder 2 5] (List.cons_ne_nil _ _) hist s' hdrive
  have hraised : min (offered [sampleOrder 2 20, sampleOrder 1 10, sampleOrder 2 5])
      (p.totalTokenRemained / p.presaleRate) = 23 := by
    rw [hrate, hpool]
    decide
  rw [hraised] at hescrow
  exact ⟨hist, s', hdrive, hescrow⟩

/-! ## Claims -/

/-- A call of `claim_token` as an input of the program. -/
def claimInput (c : Context × ClaimToken) : Input := .instruction c.1 (.claimToken c.2)

/-- The mint and the owner of the token account at `k`. -/
def tokenHolders (t : Pubkey → Option TokenAccount) (k : Pubkey) : Option (Pubkey × Pubkey) :=
  (t k).map fun a => (a.mint, a.owner)

/-- Token accounts are what their mints, owners and amounts are. -/
theorem tokens_ext {t t' : Pubkey → Option TokenAccount}
    (hholders : tokenHolders t = tokenHolders t') (hamount : tokenAmount t = tokenAmount t') :
    t = t' := by
  funext k
  have hsame := congrFun hholders k
  have hequal := congrFun hamount k
  unfold tokenHolders at hsame
  unfold tokenAmount at hequal
  cases hk : t k with
  | none =>
    rw [hk, Option.map_none, eq_comm, Option.map_eq_none_iff] at hsame
    exact hsame.symm
  | some a =>
    rw [hk, Option.map_some, eq_comm, Option.map_eq_some_iff] at hsame
    obtain ⟨⟨mint, owner, amount⟩, hk', heq⟩ := hsame
    obtain ⟨rfl, rfl⟩ := Prod.mk.inj heq
    rw [hk, hk', Option.elim_some, Option.elim_some] at hequal
    rw [hk']
    exact congrArg (fun n => some (⟨a.mint, a.owner, n⟩ : TokenAccount)) hequal

/-- A token transfer opens no account and changes neither mint nor owner of one. -/
theorem tokenHolders_moveTokens (t : Pubkey → Option TokenAccount) (src dst : Pubkey) (n : ℕ) :
    tokenHolders (moveTokens t src dst n) = tokenHolders t :=
  funext fun k => moveTokens_holder t src dst k n

/-- Every token account exists after a transfer if it did before. -/
theorem exists_moveTokens {t : Pubkey → Option TokenAccount} (src dst : Pubkey) (n : ℕ)
    {k : Pubkey} {x : TokenAccount} (h : t k = some x) :
    ∃ x', moveTokens t src dst n k = some x' := by
  have hkept := moveTokens_holder t src dst k n
  rw [h, Option.map_some, Option.map_eq_some_iff] at hkept
  obtain ⟨x', hx', -⟩ := hkept
  exact ⟨x', hx'⟩

/-- Transfers of tokens commute when neither pays an account that one of them charges. -/
theorem moveTokens_comm {t : Pubkey → Option TokenAccount} {src src' dst dst' : Pubkey}
    {x y x' y' : TokenAccount} (hx : t src = some x) (hy : t dst = some y)
    (hx' : t src' = some x') (hy' : t dst' = some y') (h : src ≠ dst) (h' : src' ≠ dst')
    (hs : src ≠ dst') (hs' : src' ≠ dst) (m n : ℕ) :
    moveTokens (moveTokens t src dst m) src' dst' n =
      moveTokens (moveTokens t src' dst' n) src dst m := by
  obtain ⟨_, hx₁⟩ := exists_moveTokens src' dst' n hx
  obtain ⟨_, hy₁⟩ := exists_moveTokens src' dst' n hy
  obtain ⟨_, hx₂⟩ := exists_moveTokens src dst m hx'
  obtain ⟨_, hy₂⟩ := exists_moveTokens src dst m hy'
  apply tokens_ext
  · simp only [tokenHolders_moveTokens]
  · rw [tokenAmount_moveTokens hx₂ hy₂, tokenAmount_moveTokens hx hy,
      tokenAmount_moveTokens hx₁ hy₁, tokenAmount_moveTokens hx' hy', move_comm _ h h' hs hs']

section Claims

variable {cx cx' : Context} {a b : ClaimToken} {s : State} {p p' : PresaleAccount}
  {u u' : UserAccount} {v v' t t' : TokenAccount}

/-- The records of a wallet before and after a claim. -/
def SameClaim (u u' : UserAccount) : Prop := { u' with isClaimed := 1 } = { u with isClaimed := 1 }

/-- A claim stays acceptable in every state with the same record, the same holders of token
accounts and enough tokens in the vault. -/
theorem claimAccepted_of_same (ok : ClaimAccepted cx a s p u v t) {s' : State}
    (hu' : s'.users.lookup (.userRole a.userTo) = some u') (same : SameClaim u u')
    (hmints : s'.mints = s.mints) (hpresale : s'.presale = s.presale)
    (hholders : tokenHolders s'.tokens = tokenHolders s.tokens)
    (hbacked : u'.userBuyAmount ≤ tokenAmount s'.tokens (.tokenVault a.tokenMint)) :
    ∃ v' t', ClaimAccepted cx a s' p u' v' t' := by
  have hbuy : u'.userBuyAmount = u.userBuyAmount := congrArg (·.userBuyAmount) same
  have hlisted : u'.isWhitelisted = u.isWhitelisted := congrArg (·.isWhitelisted) same
  have hvault := congrFun hholders (.tokenVault a.tokenMint)
  have hto := congrFun hholders a.tokenTo
  unfold tokenHolders at hvault hto
  rw [ok.vault, Option.map_some, Option.map_eq_some_iff] at hvault
  rw [ok.tokenTo, Option.map_some, Option.map_eq_some_iff] at hto
  obtain ⟨v', hv', hvsame⟩ := hvault
  obtain ⟨t', ht', htsame⟩ := hto
  obtain ⟨hvmint, hvowner⟩ := Prod.mk.inj hvsame
  obtain ⟨htmint, -⟩ := Prod.mk.inj htsame
  rw [tokenAmount_of_some hv'] at hbacked
  exact ⟨v', t', hmints ▸ ok.mint, ht', ok.tokenVault, hv', ok.presaleAccount,
    hpresale.trans ok.presale, ok.userAccount, hu', ok.signed, ok.finalized,
    hbuy ▸ ok.positive, hlisted.trans ok.whitelisted, hbacked,
    hvmint.trans (ok.sameMint.trans htmint.symm), hvowner.trans ok.holder⟩

/-- The records a claim finds are those before an earlier claim. -/
theorem exists_record_before (hu : s.users.lookup (.userRole a.userTo) = some u) {k : Pubkey}
    (hu' : (afterClaim a s u).users.lookup k = some u') :
    ∃ u₀, s.users.lookup k = some u₀ ∧ SameClaim u' u₀ := by
  rcases eq_or_ne k (.userRole a.userTo) with rfl | hne
  · obtain rfl := Option.some_injective _ ((Finmap.lookup_insert _).symm.trans hu')
    exact ⟨u, hu, rfl⟩
  · exact ⟨u', (Finmap.lookup_insert_of_ne _ hne).symm.trans hu', rfl⟩

/-- The state after two claims does not depend on their order. -/
theorem afterClaim_comm {u₀ u₁ : UserAccount} {f g f' g' : TokenAccount}
    (hu : s.users.lookup (.userRole a.userTo) = some u)
    (hu₀ : s.users.lookup (.userRole b.userTo) = some u₀) (same : SameClaim u₀ u')
    (same₁ : SameClaim u u₁) (hf : s.tokens (.tokenVault a.tokenMint) = some f)
    (hg : s.tokens a.tokenTo = some g) (hf' : s.tokens (.tokenVault b.tokenMint) = some f')
    (hg' : s.tokens b.tokenTo = some g') (ha : ∀ m, a.tokenTo ≠ .tokenVault m)
    (hb : ∀ m, b.tokenTo ≠ .tokenVault m) :
    afterClaim b (afterClaim a s u) u' = afterClaim a (afterClaim b s u₀) u₁ := by
  have hbuy : u'.userBuyAmount = u₀.userBuyAmount := congrArg (·.userBuyAmount) same
  have hbuy₁ : u₁.userBuyAmount = u.userBuyAmount := congrArg (·.userBuyAmount) same₁
  unfold SameClaim at same same₁
  unfold afterClaim
  rw [same, same₁, hbuy, hbuy₁, moveTokens_comm hf hg hf' hg' (ha _).symm (hb _).symm (hb _).symm
    (ha _).symm]
  by_cases hkeys : Pubkey.userRole b.userTo = .userRole a.userTo
  · rw [hkeys] at hu₀ ⊢
    obtain rfl := Option.mem_unique hu hu₀
    rfl
  · rw [Finmap.insert_insert_of_ne _ hkeys]

end Claims

/-- Two claims that pay no vault may change places. -/
theorem claims_swap {c d : Context × ClaimToken} (hc : ∀ m, c.2.tokenTo ≠ .tokenVault m)
    (hd : ∀ m, d.2.tokenTo ≠ .tokenVault m) : presale.Swaps (claimInput c) (claimInput d) := by
  intro s s₁ s₂ o₁ o₂ first second
  obtain ⟨p, u, v, t, ok, hout⟩ := claimTokenHandler_eq_ok.mp first
  obtain ⟨rfl, rfl⟩ := Prod.mk.inj hout
  obtain ⟨p', u', v', t', ok', hout'⟩ := claimTokenHandler_eq_ok.mp second
  obtain ⟨rfl, rfl⟩ := Prod.mk.inj hout'
  obtain ⟨u₀, hu₀, same⟩ := exists_record_before ok.user ok'.user
  have hbuy : u'.userBuyAmount = u₀.userBuyAmount := congrArg (·.userBuyAmount) same.symm
  -- both vaults hold enough for both claims
  have hfirst : u.userBuyAmount ≤ tokenAmount s.tokens (.tokenVault c.2.tokenMint) := by
    rw [tokenAmount_of_some ok.vault]
    exact ok.backed
  have hsecond : u₀.userBuyAmount ≤ move (tokenAmount s.tokens) (.tokenVault c.2.tokenMint)
      c.2.tokenTo u.userBuyAmount (.tokenVault d.2.tokenMint) := by
    rw [← tokenAmount_moveTokens ok.vault ok.tokenTo, ← hbuy]
    exact ok'.backed.trans (tokenAmount_of_some ok'.vault).ge
  obtain ⟨hback₀, hback₁⟩ := move_funded_comm (hc _).symm (hd _).symm (hd _).symm (hc _).symm
    hfirst hsecond
  obtain ⟨v₀, t₀, ok₀⟩ := claimAccepted_of_same ok' hu₀ same rfl rfl
    (tokenHolders_moveTokens _ _ _ _).symm hback₀
  have hset : SameClaim u₀ { u₀ with isClaimed := 1 } := rfl
  have hrefl : ∀ u, SameClaim u u := fun _ => rfl
  obtain ⟨u₁, hu₁, same₁⟩ := Ledger.exists_lookup_insert hrefl hu₀ hset ok.user
  have hrecord : (afterClaim d.2 s u₀).users.lookup (.userRole c.2.userTo) = some u₁ := hu₁
  have hbuy₁ : u₁.userBuyAmount = u.userBuyAmount := congrArg (·.userBuyAmount) same₁
  rw [← tokenAmount_moveTokens ok₀.vault ok₀.tokenTo, ← hbuy₁] at hback₁
  obtain ⟨v₁, t₁, ok₁⟩ := claimAccepted_of_same ok hrecord same₁ rfl rfl
    (tokenHolders_moveTokens _ _ _ _) hback₁
  refine ⟨afterClaim d.2 s u₀, claimTokenHandler_eq_ok.mpr ⟨_, _, _, _, ok₀, ?_⟩,
    claimTokenHandler_eq_ok.mpr ⟨_, _, _, _, ok₁, ?_⟩⟩
  · rw [claimLog, claimLog, hbuy]
  · rw [claimLog, claimLog, hbuy₁, afterClaim_comm ok.user hu₀ same.symm same₁ ok.vault ok.tokenTo
      ok₀.vault ok₀.tokenTo hc hd]

/-- The claims of a list may come in any order, as long as none is paid into a vault: they succeed
in every order if they do in one, with the same payments and events, and leave the same records and
the same token accounts.
SRC: claim_token.rs:43-83 -/
theorem claims_any_order (s s' : State) (calls calls' : List (Context × ClaimToken))
    (hperm : calls.Perm calls') (hto : ∀ c ∈ calls, ∀ m, c.2.tokenTo ≠ .tokenVault m)
    (hist : History) (h : presale.drive s (calls.map claimInput) = .ok (hist, s')) :
    ∃ hist', presale.drive s (calls'.map claimInput) = .ok (hist', s') ∧
      (Machine.told hist').Perm (Machine.told hist) := by
  refine Machine.drive_perm_of_swaps (hperm.map claimInput) ?_ h
  intro i hi j hj
  obtain ⟨c, hc, rfl⟩ := List.mem_map.mp hi
  obtain ⟨d, hd, rfl⟩ := List.mem_map.mp hj
  exact claims_swap (hto c hc) (hto d hd)

/-- A claim of wallet `key w` in the small sale, paid to the token account `dst`. -/
def sampleClaim (w : ℕ) (dst : Pubkey) : Context × ClaimToken :=
  ⟨Sample.context 0 1005, Sample.claimAccounts w dst⟩

/-- Alice's and Bob's claims, in one order and in the other. -/
theorem claims_any_order_small_sale :
    ∃ hist hist' s',
      presale.drive (Sample.play (Sample.opening ++ [Sample.finalize 1101 0])).final
        [Sample.claim 1 (.key 11), Sample.claim 2 (.key 12)] = .ok (hist, s') ∧
      presale.drive (Sample.play (Sample.opening ++ [Sample.finalize 1101 0])).final
        [Sample.claim 2 (.key 12), Sample.claim 1 (.key 11)] = .ok (hist', s') := by
  have hok : (presale.drive (Sample.play (Sample.opening ++ [Sample.finalize 1101 0])).final
      [Sample.claim 1 (.key 11), Sample.claim 2 (.key 12)]).isOk = true := by decide +kernel
  obtain ⟨⟨hist, s'⟩, hdrive⟩ := exists_of_isOk hok
  have hto : ∀ c ∈ [sampleClaim 1 (.key 11), sampleClaim 2 (.key 12)],
      ∀ m, c.2.tokenTo ≠ .tokenVault m := by
    intro c hc m
    simp only [List.mem_cons, List.not_mem_nil, or_false] at hc
    rcases hc with rfl | rfl <;> simp [sampleClaim, Sample.claimAccounts]
  have hperm := List.Perm.swap (sampleClaim 2 (.key 12)) (sampleClaim 1 (.key 11)) []
  obtain ⟨hist', hdrive', -⟩ := claims_any_order _ s' _ _ hperm hto hist hdrive
  exact ⟨hist, hist', s', hdrive, hdrive'⟩

end TokenPresale.Analysis
