import TokenPresale.Analysis.CapFlags
import TokenPresale.Analysis.Payouts
import TokenPresale.Analysis.TokenLedger

/-!
# One order

What a single `buy_token` call does, in any reachable state. It is the clamped order: it sells
what it is asked for up to what is left, and charges what it is offered up to what the rest
costs. The price is rounded in the buyer's favour only by an order that takes a rest the rate
does not divide, and of the arithmetic of the call only the product of the rate and the amount,
and a rate of zero, can stop an order that has passed the guards.
-/

set_option autoImplicit false

namespace TokenPresale.Analysis

open TokenPresale.Library TokenPresale.Model TokenPresale.Interface TokenPresale.Abstract

/-! ## The clamped order -/

/-- What an order of `n` lamports should receive and cost. -/
def clampedFill (p : PresaleAccount) (n : ℕ) : Fill where
  tokens := min (p.presaleRate * n) p.totalTokenRemained
  cost := min n (p.totalTokenRemained / p.presaleRate)

/-- What the presale record should be after the order. -/
def clampedPresale (p : PresaleAccount) (u : UserAccount) (n : ℕ) : PresaleAccount :=
  let left := p.totalTokenRemained - (clampedFill p n).tokens
  { p with
    totalParticipants := p.totalParticipants + if u.userBuyAmount = 0 then 1 else 0
    totalSolAmount := p.totalSolAmount + (clampedFill p n).cost
    totalTokenRemained := left
    isHardcapped := if p.isHardcapped = 1 ∨ left = 0 then 1 else 0
    isSoftcapped := if p.isSoftcapped = 1 ∨ left < p.softCap then 1 else 0 }

/-- What the state should be after the order of the wallet `w`. -/
def clampedBuy (w : Pubkey) (n : ℕ) (s : State) (p : PresaleAccount) (u : UserAccount) : State :=
  { s with
    lamports := move s.lamports w .escrowVault (clampedFill p n).cost
    presale := some (clampedPresale p u n)
    users := s.users.insert (.userRole w)
      { u with userSolContributed := u.userSolContributed + (clampedFill p n).cost
               userBuyAmount := u.userBuyAmount + (clampedFill p n).tokens } }

/-- At a rate of at least one the two branches of the handler fill what the clamp does. -/
theorem fillOf_eq_clamped {p : PresaleAccount} (hrate : 0 < p.presaleRate) (n : ℕ) :
    fillOf p n = clampedFill p n :=
  fill_eq_min hrate

/-- On flags that are sound the record after an order is the clamped one. -/
theorem FlagsSound.presaleAfterBuy_eq {p : PresaleAccount} (sound : FlagsSound p)
    (hrate : 0 < p.presaleRate) (u : UserAccount) (n : ℕ) :
    presaleAfterBuy p u n = clampedPresale p u n := by
  have hfill := fillOf_eq_clamped hrate n
  have hpool : p.totalTokenRemained - (clampedFill p n).tokens = 0 ↔
      p.totalTokenRemained ≤ p.presaleRate * n := by
    show p.totalTokenRemained - min (p.presaleRate * n) p.totalTokenRemained = 0 ↔ _
    omega
  obtain ⟨⟨hhard, -⟩, hsoft, -⟩ := sound
  unfold presaleAfterBuy clampedPresale
  simp only [hfill, hpool, PresaleAccount.mk.injEq, true_and]
  refine ⟨?_, ?_, ?_⟩
  all_goals split_ifs <;> omega

/-- An order accepted in a state whose flags are sound leaves the clamped state. -/
theorem afterBuy_eq_clamped {p : PresaleAccount} (sound : FlagsSound p)
    (hrate : 0 < p.presaleRate) (a : BuyToken) (n : ℕ) (s : State) (u : UserAccount) :
    afterBuy a n s p u = clampedBuy a.authority n s p u := by
  unfold afterBuy clampedBuy
  rw [sound.presaleAfterBuy_eq hrate, fillOf_eq_clamped hrate]
  rfl

/-- An order that succeeds, on a presale whose rate is not zero, leaves exactly the clamped state:
it costs no more than was offered, moves its price from the wallet to the escrow, and touches no
other balance and no other account; and the transfer is never refused for lack of funds.
SRC: buy_token.rs:31-105 -/
theorem buy_is_clamped (e : Execution) (p : PresaleAccount) (hp : e.final.presale = some p)
    (hrate : 1 ≤ p.presaleRate) (cx : Context) (a : BuyToken) (amount : UInt64) :
    (∀ s' log, buyTokenHandler cx a amount e.final = .ok (s', log) →
      ∃ u, e.final.users.lookup (.userRole a.authority) = some u ∧
        s' = clampedBuy a.authority amount.toNat e.final p u ∧
        (clampedFill p amount.toNat).cost ≤ amount.toNat ∧
        e.final.lamports a.authority =
          s'.lamports a.authority + (clampedFill p amount.toNat).cost ∧
        s'.lamports .escrowVault =
          e.final.lamports .escrowVault + (clampedFill p amount.toNat).cost ∧
        (∀ k, k ≠ a.authority → k ≠ .escrowVault → s'.lamports k = e.final.lamports k) ∧
        ∀ k, k ≠ .userRole a.authority → s'.users.lookup k = e.final.users.lookup k) ∧
    buyTokenHandler cx a amount e.final ≠ .error (.runtime .ResultWithNegativeLamports) := by
  refine ⟨?_, buyTokenHandler_ne_negative⟩
  intro s' log h
  obtain ⟨q, u, ok, hout⟩ := buyTokenHandler_eq_ok.mp h
  obtain rfl := Option.mem_unique ok.presale hp
  obtain ⟨rfl, -⟩ := Prod.mk.inj hout
  have hne := ok.authority_ne_escrow
  have hcost : (clampedFill q amount.toNat).cost ≤ amount.toNat := Nat.min_le_left _ _
  rw [afterBuy_eq_clamped (flags_sound e.fresh e.run hp) hrate]
  refine ⟨u, ok.user, rfl, hcost, ?_, ?_, ?_, ?_⟩
  · simp only [clampedBuy, move_src _ hne]
    exact (Nat.sub_add_cancel (hcost.trans ok.funded)).symm
  · exact move_dst _ hne
  · intro k hw hesc
    exact move_other _ _ hw hesc
  · intro k hk
    exact Finmap.lookup_insert_of_ne _ hk

/-- Before Bob's order 70 tokens of the small sale are left, at 3 for a lamport. -/
theorem sample_bobNext :
    ∃ p, (Sample.play Sample.bobNext).final.presale = some p ∧ p.presaleRate = 3 ∧
      p.totalTokenRemained = 70 := by
  have hstate : (Sample.play Sample.bobNext).final.presale.map
      (fun p => (p.presaleRate, p.totalTokenRemained)) = some (3, 70) := by decide +kernel
  obtain ⟨p, hp, hfields⟩ := Option.map_eq_some_iff.mp hstate
  exact ⟨p, hp, Prod.mk.inj hfields⟩

/-- Bob's order of 30 lamports, more than the last 70 tokens cost, succeeds. -/
theorem sample_last_order :
    ∃ s' log, buyTokenHandler (Sample.context 2 1002) (Sample.buyAccounts 2) 30
      (Sample.play Sample.bobNext).final = .ok (s', log) := by
  have hok : (buyTokenHandler (Sample.context 2 1002) (Sample.buyAccounts 2) 30
      (Sample.play Sample.bobNext).final).isOk = true := by decide +kernel
  obtain ⟨⟨s', log⟩, hout⟩ := exists_of_isOk hok
  exact ⟨s', log, hout⟩

/-- Bob's order of 30 lamports for the last 70 tokens of the small sale costs him 23. -/
theorem buy_is_clamped_last_order :
    ∃ p u s' log, (Sample.play Sample.bobNext).final.presale = some p ∧
      buyTokenHandler (Sample.context 2 1002) (Sample.buyAccounts 2) 30
        (Sample.play Sample.bobNext).final = .ok (s', log) ∧
      s' = clampedBuy (.key 2) 30 (Sample.play Sample.bobNext).final p u ∧
      clampedFill p 30 = ⟨70, 23⟩ := by
  obtain ⟨p, hp, hrate, hpool⟩ := sample_bobNext
  obtain ⟨s', log, hout⟩ := sample_last_order
  have clamped := buy_is_clamped _ p hp (by omega) (Sample.context 2 1002)
    (Sample.buyAccounts 2) 30
  obtain ⟨u, -, hs', -⟩ := clamped.1 s' log hout
  refine ⟨p, u, s', log, hp, hout, hs', ?_⟩
  rw [clampedFill, hrate, hpool]
  decide

/-! ## The rounding of the price -/

/-- The lamports that the wallet `w` has paid between two states. -/
def charged (s s' : State) (w : Pubkey) : ℕ := s.lamports w - s'.lamports w

/-- The tokens that the wallet `w` has received between two states. -/
def credited (s s' : State) (w : Pubkey) : ℕ :=
  s'.users.reading UserAccount.userBuyAmount (.userRole w) -
    s.users.reading UserAccount.userBuyAmount (.userRole w)

/-- The buyer pays the cost of the fill and is credited its tokens. -/
theorem charged_credited {cx : Context} {a : BuyToken} {n : ℕ} {s : State}
    {p : PresaleAccount} {u : UserAccount} (ok : BuyAccepted cx a n s p u) :
    charged s (afterBuy a n s p u) a.authority = (fillOf p n).cost ∧
      credited s (afterBuy a n s p u) a.authority = (fillOf p n).tokens := by
  have hcost : (fillOf p n).cost ≤ n := fill_cost_le
  have hfunded := ok.funded
  constructor
  · simp only [charged, afterBuy, move_src _ ok.authority_ne_escrow]
    omega
  · have hu := Ledger.reading_of_lookup (f := UserAccount.userBuyAmount) ok.user
    simp only [credited, afterBuy, Ledger.reading_insert_self, userAfterBuy, hu]
    omega

/-- The lamports charged cover the tokens credited exactly when the order leaves something in the
pool or the rate divides what was in it.
SRC: buy_token.rs:47-59 -/
theorem price_covers_tokens_iff (s : State) (p : PresaleAccount) (hp : s.presale = some p)
    (cx : Context) (a : BuyToken) (amount : UInt64) (s' : State) (log : List LogEntry)
    (h : buyTokenHandler cx a amount s = .ok (s', log)) :
    credited s s' a.authority ≤ charged s s' a.authority * p.presaleRate ↔
      p.presaleRate * amount.toNat < p.totalTokenRemained ∨
        p.presaleRate ∣ p.totalTokenRemained := by
  obtain ⟨q, u, ok, hout⟩ := buyTokenHandler_eq_ok.mp h
  obtain rfl := Option.mem_unique ok.presale hp
  obtain ⟨rfl, -⟩ := Prod.mk.inj hout
  rw [(charged_credited ok).1, (charged_credited ok).2]
  exact fill_tokens_le_mul_cost_iff

/-- Bob's 10 lamports buy 30 tokens of a pool that keeps some. -/
theorem price_covers_part :
    ∃ s' log, buyTokenHandler (Sample.context 2 1002) (Sample.buyAccounts 2) 10
        (Sample.play Sample.bobNext).final = .ok (s', log) ∧
      credited (Sample.play Sample.bobNext).final s' (.key 2) ≤
        charged (Sample.play Sample.bobNext).final s' (.key 2) * 3 := by
  obtain ⟨p, hp, hrate, hpool⟩ := sample_bobNext
  have hok : (buyTokenHandler (Sample.context 2 1002) (Sample.buyAccounts 2) 10
      (Sample.play Sample.bobNext).final).isOk = true := by decide +kernel
  obtain ⟨⟨s', log⟩, hout⟩ := exists_of_isOk hok
  have hiff := price_covers_tokens_iff _ p hp _ _ _ s' log hout
  rw [hrate, hpool] at hiff
  exact ⟨s', log, hout, hiff.mpr (.inl (by decide))⟩

/-- The rest of the pool is priced downwards: Bob gets 70 tokens for 23 lamports, one token more
than 23 lamports buy. -/
theorem price_below_tokens :
    ¬ ∀ (e : Execution) (p : PresaleAccount) (cx : Context) (a : BuyToken) (amount : UInt64)
      (s' : State) (log : List LogEntry), e.final.presale = some p → 1 ≤ p.presaleRate →
        buyTokenHandler cx a amount e.final = .ok (s', log) →
          credited e.final s' a.authority ≤ charged e.final s' a.authority * p.presaleRate := by
  intro h
  obtain ⟨p, hp, hrate, -⟩ := sample_bobNext
  have hok : (buyTokenHandler (Sample.context 2 1002) (Sample.buyAccounts 2) 30
      (Sample.play Sample.bobNext).final).map (fun out =>
        (credited (Sample.play Sample.bobNext).final out.1 (.key 2),
          charged (Sample.play Sample.bobNext).final out.1 (.key 2))) = .ok (70, 23) := by
    decide +kernel
  obtain ⟨out, hout, hfill⟩ := map_eq_ok.mp hok
  obtain ⟨hcredited, hcharged⟩ := Prod.mk.inj hfill
  have hle := h _ p _ _ _ out.1 out.2 hp (by omega) hout
  rw [hrate] at hle
  exact absurd (hcredited.ge.trans (hle.trans (Nat.mul_le_mul_right 3 hcharged.le))) (by decide)

/-! ## Orders that the guards admit -/

/-- The guards of `buy_token` on an order of `n` lamports: everything it checks before it
computes.
SRC: buy_token.rs:4-45 -/
structure BuyAdmitted (cx : Context) (a : BuyToken) (n : ℕ) (s : State) (p : PresaleAccount)
    (u : UserAccount) : Prop where
  escrowAccount : a.escrowAccount = .escrowVault
  presaleAccount : a.presaleAccount = .presaleInfo
  presale : s.presale = some p
  userAccount : a.userAccount = .userRole a.authority
  user : s.users.lookup (.userRole a.authority) = some u
  signed : cx.signed a.authority
  started : p.startTime ≤ cx.now
  notEnded : cx.now ≤ p.endTime
  notCancelled : p.isCancelled ≠ 1
  whitelisted : u.isWhitelisted = true
  withinMax : n ≤ p.userMaxBuy
  funded : n ≤ s.lamports a.authority

/-- The sums of an order of `n` lamports that is filled with `f` fit their fields.
SRC: buy_token.rs:47-87 -/
structure SumsFit (f : Fill) (n : ℕ) (s : State) (p : PresaleAccount) (u : UserAccount) : Prop where
  product : p.presaleRate * n < 2 ^ 64
  credit : s.lamports .escrowVault + f.cost < 2 ^ 64
  participants : u.userBuyAmount = 0 → p.totalParticipants + 1 < 2 ^ 32
  totalSol : p.totalSolAmount + f.cost < 2 ^ 64
  userSol : u.userSolContributed + f.cost < 2 ^ 64
  userBuy : u.userBuyAmount + f.tokens < 2 ^ 64

/-- At a rate that is not zero an order is accepted exactly when the guards admit it and its sums
fit. -/
theorem accepted_iff {cx : Context} {a : BuyToken} {n : ℕ} {s : State} {p : PresaleAccount}
    {u : UserAccount} (hrate : 0 < p.presaleRate) :
    BuyAccepted cx a n s p u ↔ BuyAdmitted cx a n s p u ∧ SumsFit (fillOf p n) n s p u := by
  constructor
  · rintro ⟨hesc, hpre, hp, huser, hu, hsigned, hstart, hend, hcan, hlisted, hmax, hfunded, hprod,
      -, hcredit, hpart, htotal, hsol, hbuy⟩
    exact ⟨⟨hesc, hpre, hp, huser, hu, hsigned, hstart, hend, hcan, hlisted, hmax, hfunded⟩,
      ⟨hprod, hcredit, hpart, htotal, hsol, hbuy⟩⟩
  · rintro ⟨⟨hesc, hpre, hp, huser, hu, hsigned, hstart, hend, hcan, hlisted, hmax, hfunded⟩,
      ⟨hprod, hcredit, hpart, htotal, hsol, hbuy⟩⟩
    exact ⟨hesc, hpre, hp, huser, hu, hsigned, hstart, hend, hcan, hlisted, hmax, hfunded, hprod,
      fun _ => hrate, hcredit, hpart, htotal, hsol, hbuy⟩

/-- The wallet `key w` passes the guards of a small sale. -/
theorem sample_admitted {s : State} {p : PresaleAccount} {u : UserAccount} {w n : ℕ} {t : UInt64}
    (hp : s.presale = some p) (hu : s.users.lookup (.userRole (.key w)) = some u)
    (hlive : p.startTime ≤ t.toNat ∧ t.toNat ≤ p.endTime) (hcan : p.isCancelled ≠ 1)
    (hlisted : u.isWhitelisted = true) (hmax : n ≤ p.userMaxBuy)
    (hfunded : n ≤ s.lamports (.key w)) :
    BuyAdmitted (Sample.context w t) (Sample.buyAccounts w) n s p u :=
  ⟨rfl, rfl, hp, rfl, hu, ⟨List.mem_singleton_self _, rfl⟩, hlive.1, hlive.2, hcan, hlisted, hmax,
    hfunded⟩

/-- No more participants are counted than orders have succeeded. -/
theorem participants_le_buys {s₀ s : State} {h : History} (fresh : Fresh s₀)
    (run : presale.Run s₀ h s) : field PresaleAccount.totalParticipants s ≤ buyCalls h := by
  refine run.invariant (fun h s => field PresaleAccount.totalParticipants s ≤ buyCalls h) ?_ ?_
  · simp [field, fresh.presale]
  · intro h s i s' o hrun ih hstep
    have hcalls : buyCalls (h ++ [⟨s, i, o⟩]) = buyCalls h + (buysAny i).toNat := by
      simp [buyCalls]
    rw [hcalls]
    cases (coherent_of_run fresh hrun).money_step (effect_of_step hstep) with
    | @buy cx a amount p u ok =>
      rw [field_of_presale ok.presale] at ih
      have hcount : (if u.userBuyAmount = 0 then p.totalParticipants + 1
          else p.totalParticipants) ≤ p.totalParticipants + 1 := by
        split_ifs <;> omega
      exact hcount.trans (Nat.add_le_add_right ih 1)
    | @refund cx a p u ok =>
      rw [field_of_presale ok.presale] at ih
      exact (Nat.sub_le _ _).trans (ih.trans (Nat.le_add_right _ _))
    | quiet same =>
      rw [same.participants]
      exact ih.trans (Nat.le_add_right _ _)

/-- At a rate of at least one, the total raised and the price of one more order stay within the
supply: every lamport has bought a token. -/
theorem total_add_cost_le {s₀ s : State} {h : History} (fresh : Fresh s₀)
    (run : presale.Run s₀ h s) {p : PresaleAccount} (hp : s.presale = some p)
    (hcan : p.isCancelled = 0) (hrate : 0 < p.presaleRate) (n : ℕ) :
    p.totalSolAmount + (fillOf p n).cost ≤ p.totalPresaleToken := by
  have reachable := book_reachable fresh run hp
  have hraised : p.presaleRate * p.totalSolAmount ≤ (bookOf h s p).sold := by
    rw [total_eq_contributed fresh run hp hcan]
    exact (reachable.priced hrate).raised_le hrate
  have hcost : p.presaleRate * (fillOf p n).cost ≤ (fillOf p n).tokens := fill_cost_mul_le
  have hfill : (fillOf p n).tokens ≤ p.totalTokenRemained := fill_tokens_le
  calc p.totalSolAmount + (fillOf p n).cost
      ≤ p.presaleRate * (p.totalSolAmount + (fillOf p n).cost) := Nat.le_mul_of_pos_left _ hrate
    _ = p.presaleRate * p.totalSolAmount + p.presaleRate * (fillOf p n).cost := Nat.mul_add _ _ _
    _ ≤ (bookOf h s p).sold + p.totalTokenRemained :=
        Nat.add_le_add hraised (hcost.trans hfill)
    _ ≤ p.totalPresaleToken := reachable.balanced.bound

/-- The arithmetic of an order of `n` lamports that can fail: the product of the rate and the
amount, and at a rate of zero the division by it and the total. -/
structure OrderFits (p : PresaleAccount) (n : ℕ) : Prop where
  product : p.presaleRate * n < 2 ^ 64
  free : p.presaleRate = 0 → 0 < p.totalTokenRemained ∧ p.totalSolAmount + n < 2 ^ 64

/-- The arithmetic of an order that succeeds fits. -/
theorem orderFits_of_accepted {cx : Context} {a : BuyToken} {n : ℕ} {s : State}
    {p : PresaleAccount} {u : UserAccount} (ok : BuyAccepted cx a n s p u) : OrderFits p n := by
  refine ⟨ok.product, ?_⟩
  intro hzero
  have hproduct : p.presaleRate * n = 0 := by rw [hzero, Nat.zero_mul]
  have hpool : p.presaleRate * n < p.totalTokenRemained := by
    by_contra hle
    have := ok.quotient (Nat.not_lt.mp hle)
    omega
  have htotal := ok.totalSol
  rw [fillOf, fill_of_lt hpool] at htotal
  exact ⟨by omega, htotal⟩

/-- The total raised has room for an order that fits. -/
theorem OrderFits.totalSol_lt {s₀ s : State} {h : History} (fresh : Fresh s₀)
    (run : presale.Run s₀ h s) {p : PresaleAccount} (hp : s.presale = some p)
    (hcan : p.isCancelled = 0) {n : ℕ} (fits : OrderFits p n) :
    p.totalSolAmount + (fillOf p n).cost < 2 ^ 64 := by
  rcases Nat.eq_zero_or_pos p.presaleRate with hzero | hrate
  · have hcost : (fillOf p n).cost ≤ n := fill_cost_le
    have := (fits.free hzero).2
    omega
  · exact (total_add_cost_le fresh run hp hcan hrate n).trans_lt (supply_lt fresh run hp)

/-- An admitted order whose product fits passes every check of `buy_token`, if the two balances
together and the number of orders fit. -/
theorem accepted_of_fits {s₀ s : State} {h : History} (fresh : Fresh s₀)
    (run : presale.Run s₀ h s) {cx : Context} {a : BuyToken} {n : ℕ} {p : PresaleAccount}
    {u : UserAccount} (admitted : BuyAdmitted cx a n s p u)
    (hlamports : s.lamports a.authority + s.lamports .escrowVault < 2 ^ 64)
    (hbuys : buyCalls h + 1 < 2 ^ 32) (fits : OrderFits p n) : BuyAccepted cx a n s p u := by
  obtain ⟨hesc, hpre, hp, huser, hu, hsigned, hstart, hend, hcan, hlisted, hmax, hfunded⟩ :=
    admitted
  have hopen : p.isCancelled = 0 := by
    have := (flags_le_one fresh run hp).2
    omega
  have hcost : (fillOf p n).cost ≤ n := fill_cost_le
  have htotal := fits.totalSol_lt fresh run hp hopen
  have hpaid : u.userSolContributed ≤ p.totalSolAmount := by
    rw [total_eq_contributed fresh run hp hopen]
    exact Ledger.le_total UserAccount.userSolContributed hu
  have hcount : p.totalParticipants ≤ buyCalls h := by
    rw [← field_of_presale (f := PresaleAccount.totalParticipants) hp]
    exact participants_le_buys fresh run
  refine ⟨hesc, hpre, hp, huser, hu, hsigned, hstart, hend, hcan, hlisted, hmax, hfunded,
    fits.product, ?_, ?_, ?_, htotal, ?_, ?_⟩
  · intro hle
    by_contra hzero
    have hpool := (fits.free (by omega)).1
    rw [Nat.eq_zero_of_not_pos hzero, Nat.zero_mul] at hle
    omega
  · omega
  · intro _
    omega
  · omega
  · exact (allocation_le_supply fresh run hp hu n).trans_lt (supply_lt fresh run hp)

/-- Where the lamports of the two accounts fit in 64 bits and fewer than `2 ^ 32` orders have been
made, an order that passes the guards completes, and sells the whole rest when it asks for that
or more, exactly when the product of the rate and the amount fits, and, at a rate of zero, there
is something left and the total has room for the amount.
SRC: buy_token.rs:34-96 -/
theorem admitted_completes_iff (e : Execution) (p : PresaleAccount) (u : UserAccount)
    (cx : Context) (a : BuyToken) (amount : UInt64)
    (admitted : BuyAdmitted cx a amount.toNat e.final p u)
    (hlamports : e.final.lamports a.authority + e.final.lamports .escrowVault < 2 ^ 64)
    (hbuys : buyCalls e.history + 1 < 2 ^ 32) :
    (∃ s' log p', buyTokenHandler cx a amount e.final = .ok (s', log) ∧ s'.presale = some p' ∧
      (p.totalTokenRemained ≤ p.presaleRate * amount.toNat → p'.totalTokenRemained = 0)) ↔
        OrderFits p amount.toNat := by
  constructor
  · rintro ⟨s', log, p', h, -⟩
    obtain ⟨q, v, ok, -⟩ := buyTokenHandler_eq_ok.mp h
    obtain rfl := Option.mem_unique ok.presale admitted.presale
    exact orderFits_of_accepted ok
  · intro fits
    have ok := accepted_of_fits e.fresh e.run admitted hlamports hbuys fits
    refine ⟨_, _, _, buyTokenHandler_eq_ok.mpr ⟨p, u, ok, rfl⟩, rfl, ?_⟩
    intro hrest
    show p.totalTokenRemained - (fillOf p amount.toNat).tokens = 0
    rw [fillOf, fill_of_le hrest, Nat.sub_self]

/-- Bob's order of 30 lamports passes the guards and its product fits, so it completes. -/
theorem admitted_completes_small_sale :
    ∃ s' log p', buyTokenHandler (Sample.context 2 1002) (Sample.buyAccounts 2) 30
        (Sample.play Sample.bobNext).final = .ok (s', log) ∧ s'.presale = some p' ∧
      p'.totalTokenRemained = 0 := by
  have hstate : (Sample.play Sample.bobNext).final.presale.map (fun p => (p.presaleRate,
      p.totalTokenRemained, p.startTime, p.endTime, p.isCancelled, p.userMaxBuy)) =
        some (3, 70, 1000, 1100, 0, 1000) := by decide +kernel
  obtain ⟨p, hp, hfields⟩ := Option.map_eq_some_iff.mp hstate
  simp only [Prod.mk.injEq] at hfields
  obtain ⟨hrate, hpool, hstart, hend, hcan, hmax⟩ := hfields
  have admitted : BuyAdmitted (Sample.context 2 1002) (Sample.buyAccounts 2) (30 : UInt64).toNat
      (Sample.play Sample.bobNext).final p ⟨true, 0, 0, 0, .key 2⟩ := by
    refine sample_admitted hp (by decide +kernel) ?_ ?_ rfl ?_ (by decide +kernel)
    · rw [hstart, hend]
      decide
    · rw [hcan]
      decide
    · rw [hmax]
      decide
  have hiff := admitted_completes_iff (Sample.play Sample.bobNext) p _ _ _ 30 admitted
    (by decide +kernel) (by decide +kernel)
  have fits : OrderFits p (30 : UInt64).toNat := by
    refine ⟨?_, ?_⟩
    · rw [hrate]
      decide
    · rw [hrate]
      exact fun hzero => absurd hzero (by decide)
  obtain ⟨s', log, p', hok, hp', hsold⟩ := hiff.mpr fits
  refine ⟨s', log, p', hok, hp', hsold ?_⟩
  rw [hrate, hpool]
  decide

/-- The product is formed before the order is cut down to what is left: at a rate of `10 ^ 8`
Alice may offer `10 ^ 12` lamports for a pool of 100 tokens, and the call aborts. -/
theorem admitted_aborts :
    ¬ ∀ (e : Execution) (p : PresaleAccount) (u : UserAccount) (cx : Context) (a : BuyToken)
      (amount : UInt64), BuyAdmitted cx a amount.toNat e.final p u →
        e.final.lamports a.authority + e.final.lamports .escrowVault < 2 ^ 64 →
          buyCalls e.history + 1 < 2 ^ 32 →
            ∃ out, buyTokenHandler cx a amount e.final = .ok out := by
  intro h
  have hstate : (Sample.play [Sample.launchWith Sample.largeOrders,
      Sample.list 1]).final.presale.map (fun p => (p.startTime, p.endTime, p.isCancelled,
        p.userMaxBuy)) = some (1000, 1100, 0, 10 ^ 12) := by decide +kernel
  obtain ⟨p, hp, hfields⟩ := Option.map_eq_some_iff.mp hstate
  simp only [Prod.mk.injEq] at hfields
  obtain ⟨hstart, hend, hcan, hmax⟩ := hfields
  have hamount : (1000000000000 : UInt64).toNat = 10 ^ 12 := rfl
  have admitted : BuyAdmitted (Sample.context 1 1002) (Sample.buyAccounts 1)
      (1000000000000 : UInt64).toNat (Sample.play [Sample.launchWith Sample.largeOrders,
        Sample.list 1]).final p ⟨true, 0, 0, 0, .key 1⟩ := by
    refine sample_admitted hp (by decide +kernel) ?_ ?_ rfl ?_ (by decide +kernel)
    · rw [hstart, hend]
      decide
    · rw [hcan]
      decide
    · rw [hmax, hamount]
  obtain ⟨out, hout⟩ := h _ p _ _ _ _ admitted (by decide +kernel) (by decide +kernel)
  have herror : (buyTokenHandler (Sample.context 1 1002) (Sample.buyAccounts 1) 1000000000000
      (Sample.play [Sample.launchWith Sample.largeOrders, Sample.list 1]).final).isOk = false := by
    decide +kernel
  rw [hout] at herror
  exact absurd herror.symm Bool.false_ne_true

end TokenPresale.Analysis
