import TokenPresale.Analysis.Orders

/-!
# Lists of orders

Two laws of the order book survive the checks, flags and counters of `buy_token`. An order may
be placed in parts: whatever the parts, they leave the state that the whole order leaves, also
when the pool runs out among them. And orders that the pool can serve in full may be placed in
any order. Both go by induction, on the list and on the permutation, from a lemma about two
orders in a row.
-/

set_option autoImplicit false

namespace TokenPresale.Analysis

open TokenPresale.Library TokenPresale.Model TokenPresale.Interface

/-- A call of `buy_token`. -/
structure BuyCall where
  cx : Context
  accounts : BuyToken
  amount : UInt64

namespace BuyCall

/-- The call as an input of the program. -/
def input (c : BuyCall) : Input := .instruction c.cx (.buyToken c.accounts c.amount)

/-- The lamports the call offers. -/
def offer (c : BuyCall) : ℕ := c.amount.toNat

end BuyCall

/-- An order of the wallet `key w` in a small sale. -/
def sampleOrder (w : ℕ) (amount : UInt64) : BuyCall :=
  ⟨Sample.context w 1002, Sample.buyAccounts w, amount⟩

/-- The lamports that all calls of a list offer. -/
def offered (calls : List BuyCall) : ℕ := (calls.map BuyCall.offer).sum

/-- A list of calls offers what its first call offers and what the rest offer. -/
@[simp] theorem offered_cons (c : BuyCall) (calls : List BuyCall) :
    offered (c :: calls) = c.offer + offered calls := by
  simp [offered]

/-- What a list of calls offers does not depend on their order. -/
theorem offered_perm {calls calls' : List BuyCall} (h : calls.Perm calls') :
    offered calls = offered calls' :=
  (h.map _).sum_eq

/-- A `buy_token` call succeeds exactly when its checks pass. -/
theorem buyCall_step_eq_ok {c : BuyCall} {s : State} {out : Outcome} :
    presale.step s c.input = .ok out ↔
      ∃ p u, BuyAccepted c.cx c.accounts c.offer s p u ∧
        (afterBuy c.accounts c.offer s p u, buyLog c.cx c.accounts c.offer p) = out :=
  buyTokenHandler_eq_ok

/-- A `buy_token` call whose checks pass succeeds. -/
theorem step_of_accepted {c : BuyCall} {s : State} {p : PresaleAccount} {u : UserAccount}
    (ok : BuyAccepted c.cx c.accounts c.offer s p u) :
    presale.step s c.input =
      .ok (afterBuy c.accounts c.offer s p u, buyLog c.cx c.accounts c.offer p) :=
  buyCall_step_eq_ok.mpr ⟨p, u, ok, rfl⟩

/-! ## An order in parts -/

section Parts

variable {s : State} {p : PresaleAccount} {u : UserAccount} {a : BuyToken} {m n : ℕ}

/-- The fill of an order is that of its first part and that of the rest, placed afterwards. -/
theorem fillOf_add (hrate : 0 < p.presaleRate) (m n : ℕ) :
    fillOf p (m + n) =
      ⟨(fillOf p m).tokens + (fillOf (presaleAfterBuy p u m) n).tokens,
        (fillOf p m).cost + (fillOf (presaleAfterBuy p u m) n).cost⟩ :=
  fill_add hrate m n

/-- An order by a wallet for which something is left, or that holds something, leaves it holding
something. -/
theorem userBuy_pos (hrate : 0 < p.presaleRate) (hm : 0 < m)
    (hsome : 0 < p.totalTokenRemained ∨ 0 < u.userBuyAmount) :
    0 < (userAfterBuy u (fillOf p m)).userBuyAmount := by
  show 0 < u.userBuyAmount + (fillOf p m).tokens
  rcases hsome with hpool | hheld
  · have htokens : 0 < (fillOf p m).tokens :=
      fill_tokens_pos_iff.mpr ⟨Nat.mul_pos hrate hm, hpool⟩
    omega
  · omega

/-- Two orders leave the record of their sum, but for the participants, which each order counts by
its own account. -/
theorem presaleAfterBuy_two (hrate : 0 < p.presaleRate) (u v : UserAccount) (m n : ℕ) :
    presaleAfterBuy (presaleAfterBuy p u m) v n =
      { presaleAfterBuy p u (m + n) with
        totalParticipants :=
          if v.userBuyAmount = 0 then (presaleAfterBuy p u m).totalParticipants + 1
          else (presaleAfterBuy p u m).totalParticipants } := by
  have hsum : p.presaleRate * (m + n) = p.presaleRate * m + p.presaleRate * n := Nat.mul_add _ _ _
  have hfill := fillOf_add (u := u) hrate m n
  have hle : (fillOf p m).tokens = min (p.presaleRate * m) p.totalTokenRemained := by
    rw [fillOf_eq_clamped hrate]
    rfl
  generalize hfirst : fillOf p m = first at *
  generalize hsecond : fillOf (presaleAfterBuy p u m) n = second at *
  unfold presaleAfterBuy at hsecond ⊢
  simp only [hfirst] at hsecond
  simp only [hfirst, hsecond, hfill, PresaleAccount.mk.injEq, true_and, Nat.add_assoc, Nat.sub_sub]
  refine ⟨?_, ?_⟩
  all_goals split_ifs <;> omega

/-- The records after two parts are those after the whole. -/
theorem presaleAfterBuy_add (hrate : 0 < p.presaleRate)
    (hheld : 0 < (userAfterBuy u (fillOf p m)).userBuyAmount) :
    presaleAfterBuy (presaleAfterBuy p u m) (userAfterBuy u (fillOf p m)) n =
      presaleAfterBuy p u (m + n) := by
  rw [presaleAfterBuy_two hrate, if_neg hheld.ne']
  rfl

/-- The state after two parts is that after the whole. -/
theorem afterBuy_add (hne : a.authority ≠ .escrowVault) (hrate : 0 < p.presaleRate) (hm : 0 < m)
    (hsome : 0 < p.totalTokenRemained ∨ 0 < u.userBuyAmount) :
    afterBuy a n (afterBuy a m s p u) (presaleAfterBuy p u m) (userAfterBuy u (fillOf p m)) =
      afterBuy a (m + n) s p u := by
  have hfill := fillOf_add (u := u) hrate m n
  unfold afterBuy
  rw [presaleAfterBuy_add hrate (userBuy_pos hrate hm hsome), Finmap.insert_insert,
    move_move _ hne, hfill]
  simp only [userAfterBuy, Nat.add_assoc]

/-- The guards admit another order of the same wallet exactly when they admitted it before, and the
wallet can fund both. -/
theorem admitted_again_iff {cx : Context} (ha : a.authority ≠ .escrowVault)
    (hp : s.presale = some p) (hu : s.users.lookup (.userRole a.authority) = some u)
    (hcost : (fillOf p m).cost ≤ s.lamports a.authority) :
    BuyAdmitted cx a n (afterBuy a m s p u) (presaleAfterBuy p u m) (userAfterBuy u (fillOf p m)) ↔
      BuyAdmitted cx a n s p u ∧ (fillOf p m).cost + n ≤ s.lamports a.authority := by
  have hwallet : (afterBuy a m s p u).lamports a.authority =
      s.lamports a.authority - (fillOf p m).cost := move_src _ ha
  constructor
  · rintro ⟨hesc, hpre, -, huser, -, hsigned, hstart, hend, hcan, hlisted, hmax, hfunded⟩
    rw [hwallet] at hfunded
    exact ⟨⟨hesc, hpre, hp, huser, hu, hsigned, hstart, hend, hcan, hlisted, hmax, by omega⟩,
      by omega⟩
  · rintro ⟨⟨hesc, hpre, -, huser, -, hsigned, hstart, hend, hcan, hlisted, hmax, -⟩, hboth⟩
    refine ⟨hesc, hpre, rfl, huser, Finmap.lookup_insert _, hsigned, hstart, hend, hcan, hlisted,
      hmax, ?_⟩
    rw [hwallet]
    omega

/-- Both parts of an accepted order are accepted. -/
theorem accepted_parts {cx : Context} (ok : BuyAccepted cx a (m + n) s p u)
    (hrate : 0 < p.presaleRate) (hm : 0 < m)
    (hsome : 0 < p.totalTokenRemained ∨ 0 < u.userBuyAmount) :
    BuyAccepted cx a m s p u ∧
      BuyAccepted cx a n (afterBuy a m s p u) (presaleAfterBuy p u m)
        (userAfterBuy u (fillOf p m)) := by
  have hne := ok.authority_ne_escrow
  have hheld := userBuy_pos (u := u) hrate hm hsome
  have hcost : (fillOf p m).cost ≤ m := fill_cost_le
  obtain ⟨guards, sums⟩ := (accepted_iff hrate).mp ok
  obtain ⟨hesc, hpre, hp, huser, hu, hsigned, hstart, hend, hcan, hlisted, hmax, hfunded⟩ := guards
  rw [fillOf_add (u := u) hrate m n] at sums
  obtain ⟨hprod, hcredit, hpart, htotal, hsol, hbuy⟩ := sums
  rw [Nat.mul_add] at hprod
  simp only [← Nat.add_assoc] at hcredit htotal hsol hbuy
  constructor
  · refine (accepted_iff hrate).mpr ⟨⟨hesc, hpre, hp, huser, hu, hsigned, hstart, hend, hcan,
      hlisted, by omega, by omega⟩, ⟨by omega, by omega, hpart, by omega, by omega, by omega⟩⟩
  · refine (accepted_iff (p := presaleAfterBuy p u m) hrate).mpr ⟨?_, ⟨?_, ?_, ?_, htotal, hsol,
      hbuy⟩⟩
    · refine (admitted_again_iff hne hp hu (by omega)).mpr ⟨⟨hesc, hpre, hp, huser, hu, hsigned,
        hstart, hend, hcan, hlisted, by omega, by omega⟩, by omega⟩
    · exact (Nat.le_add_left _ _).trans_lt hprod
    · simp only [afterBuy, move_dst _ hne]
      exact hcredit
    · intro hzero
      exact absurd hzero hheld.ne'

end Parts

/-- Of the context a call only reads the clock and the signature of its wallet. -/
theorem accepted_of_now {cx cx' : Context} {a : BuyToken} {n : ℕ} {s : State} {p : PresaleAccount}
    {u : UserAccount} (ok : BuyAccepted cx a n s p u) (hnow : cx'.unixTimestamp = cx.unixTimestamp)
    (hsigned : cx'.signed a.authority) : BuyAccepted cx' a n s p u := by
  have heq : cx'.now = cx.now := congrArg UInt64.toNat hnow
  exact { ok with
    signed := hsigned
    started := heq ▸ ok.started
    notEnded := heq ▸ ok.notEnded }

/-- The call `c` is a part of an order of the accounts `a`, placed at the same time. -/
structure PartOf (cx : Context) (a : BuyToken) (c : BuyCall) : Prop where
  accounts : c.accounts = a
  clock : c.cx.unixTimestamp = cx.unixTimestamp
  signed : c.cx.signed a.authority
  positive : 0 < c.offer

/-- The parts of an accepted order are accepted one after another, and leave its state. -/
theorem drive_parts {cx : Context} {a : BuyToken} {calls : List BuyCall} (hne : calls ≠ [])
    (parts : ∀ c ∈ calls, PartOf cx a c) {s : State} {p : PresaleAccount} {u : UserAccount}
    (ok : BuyAccepted cx a (offered calls) s p u) (hrate : 0 < p.presaleRate)
    (hsome : 0 < p.totalTokenRemained ∨ 0 < u.userBuyAmount) :
    ∃ h, presale.drive s (calls.map BuyCall.input) =
      .ok (h, afterBuy a (offered calls) s p u) := by
  induction calls generalizing s p u with
  | nil => exact absurd rfl hne
  | cons c rest ih =>
    obtain ⟨rfl, hclock, hsigned, hpos⟩ := parts c List.mem_cons_self
    have hparts : ∀ d ∈ rest, PartOf cx c.accounts d := fun d hd =>
      parts d (List.mem_cons_of_mem c hd)
    cases rest with
    | nil =>
      have hoffer : offered [c] = c.offer := by simp [offered]
      rw [hoffer] at ok ⊢
      exact ⟨_, Machine.drive_cons (step_of_accepted (accepted_of_now ok hclock hsigned)) rfl⟩
    | cons d rest =>
      rw [offered_cons] at ok ⊢
      obtain ⟨hfirst, hthen⟩ := accepted_parts ok hrate hpos hsome
      have hheld := userBuy_pos (p := p) (u := u) hrate hpos hsome
      obtain ⟨h, hdrive⟩ := ih (List.cons_ne_nil d rest) hparts hthen hrate (.inr hheld)
      rw [afterBuy_add ok.authority_ne_escrow hrate hpos hsome] at hdrive
      have hstep := step_of_accepted (accepted_of_now hfirst hclock hsigned)
      exact ⟨_, Machine.drive_cons hstep hdrive⟩

/-- An order placed in parts, one after another at the same time, succeeds whenever the whole order
does, and leaves the same state: the same records and the same balances, also when the pool runs
out among the parts.
SRC: buy_token.rs:31-105 -/
theorem split_order (e : Execution) (p : PresaleAccount) (u : UserAccount)
    (hp : e.final.presale = some p) (hrate : 1 ≤ p.presaleRate) (cx : Context) (a : BuyToken)
    (amount : UInt64) (hu : e.final.users.lookup (.userRole a.authority) = some u)
    (hsome : 0 < p.totalTokenRemained ∨ 0 < u.userBuyAmount) (calls : List BuyCall)
    (hne : calls ≠ []) (parts : ∀ c ∈ calls, PartOf cx a c)
    (hsum : offered calls = amount.toNat) (s' : State) (log : List LogEntry)
    (h : buyTokenHandler cx a amount e.final = .ok (s', log)) :
    ∃ hist, presale.drive e.final (calls.map BuyCall.input) = .ok (hist, s') := by
  obtain ⟨q, v, ok, hout⟩ := buyTokenHandler_eq_ok.mp h
  obtain rfl := Option.mem_unique ok.presale hp
  obtain rfl := Option.mem_unique ok.user hu
  obtain ⟨rfl, -⟩ := Prod.mk.inj hout
  rw [← hsum] at ok ⊢
  exact drive_parts hne parts ok hrate hsome

/-- Bob's order of 30 lamports for the last 70 tokens in three parts: the second leaves one token,
which the third gets for nothing. -/
theorem split_order_last_order :
    ∃ s' log hist,
      buyTokenHandler (Sample.context 2 1002) (Sample.buyAccounts 2) 30
        (Sample.play Sample.bobNext).final = .ok (s', log) ∧
      presale.drive (Sample.play Sample.bobNext).final
        [Sample.buy 2 10, Sample.buy 2 13, Sample.buy 2 7] = .ok (hist, s') := by
  obtain ⟨p, hp, hrate, hpool⟩ := sample_bobNext
  obtain ⟨s', log, hout⟩ := sample_last_order
  have hparts : ∀ c ∈ [sampleOrder 2 10, sampleOrder 2 13, sampleOrder 2 7],
      PartOf (Sample.context 2 1002) (Sample.buyAccounts 2) c := by
    intro c hc
    simp only [List.mem_cons, List.not_mem_nil, or_false] at hc
    rcases hc with rfl | rfl | rfl <;>
      exact ⟨rfl, rfl, ⟨List.mem_singleton_self _, rfl⟩, by decide⟩
  obtain ⟨hist, hdrive⟩ := split_order _ p ⟨true, 0, 0, 0, .key 2⟩ hp (by omega) _ _ 30
    (by decide +kernel) (.inl (by omega)) _ (List.cons_ne_nil _ _) hparts rfl s' log hout
  exact ⟨s', log, hist, hout, hdrive⟩

/-! ## Orders that fit -/

section Fitting

variable {s : State} {p : PresaleAccount} {u v : UserAccount} {a b : BuyToken} {m n : ℕ}

/-- Two orders that the pool can serve together are both served in full. -/
theorem fillOf_fits (hrate : 0 < p.presaleRate)
    (hfit : p.presaleRate * (m + n) ≤ p.totalTokenRemained) (u : UserAccount) :
    fillOf p m = ⟨p.presaleRate * m, m⟩ ∧
      fillOf (presaleAfterBuy p u m) n = ⟨p.presaleRate * n, n⟩ := by
  rw [Nat.mul_add] at hfit
  have hfirst : fillOf p m = ⟨p.presaleRate * m, m⟩ := fill_fits hrate (by omega)
  refine ⟨hfirst, fill_fits hrate ?_⟩
  show p.presaleRate * n ≤ p.totalTokenRemained - (fillOf p m).tokens
  rw [hfirst]
  exact Nat.le_sub_of_add_le' hfit

/-- The records after two orders of different accounts do not depend on their order. -/
theorem presaleAfterBuy_comm (hrate : 0 < p.presaleRate) (u v : UserAccount) (m n : ℕ) :
    presaleAfterBuy (presaleAfterBuy p u m) v n = presaleAfterBuy (presaleAfterBuy p v n) u m := by
  rw [presaleAfterBuy_two hrate, presaleAfterBuy_two hrate, Nat.add_comm n m]
  unfold presaleAfterBuy
  simp only [PresaleAccount.mk.injEq, true_and, and_true]
  split_ifs <;> rfl

/-- Two orders of different wallets that fit in the pool commute. -/
theorem afterBuy_comm (hab : a.authority ≠ b.authority) (ha : a.authority ≠ .escrowVault)
    (hb : b.authority ≠ .escrowVault) (hrate : 0 < p.presaleRate)
    (hfit : p.presaleRate * (m + n) ≤ p.totalTokenRemained) (u v : UserAccount) :
    afterBuy b n (afterBuy a m s p u) (presaleAfterBuy p u m) v =
      afterBuy a m (afterBuy b n s p v) (presaleAfterBuy p v n) u := by
  obtain ⟨hm₁, hn₂⟩ := fillOf_fits hrate hfit u
  obtain ⟨hn₁, hm₂⟩ := fillOf_fits hrate (Nat.add_comm m n ▸ hfit) v
  have hkeys : Pubkey.userRole b.authority ≠ .userRole a.authority :=
    fun heq => hab (Pubkey.userRole.inj heq).symm
  unfold afterBuy
  rw [hm₁, hn₁, hm₂, hn₂, presaleAfterBuy_comm hrate, move_right_comm _ ha hb,
    Finmap.insert_insert_of_ne _ hkeys]

/-- The guards admit an order of another wallet exactly when they admitted it before. -/
theorem admitted_other_iff {cx : Context} (hba : b.authority ≠ a.authority)
    (hb : b.authority ≠ .escrowVault) (hp : s.presale = some p) :
    BuyAdmitted cx b n (afterBuy a m s p u) (presaleAfterBuy p u m) v ↔
      BuyAdmitted cx b n s p v := by
  have hlamports : (afterBuy a m s p u).lamports b.authority = s.lamports b.authority :=
    move_other _ _ hba hb
  constructor
  · rintro ⟨hesc, hpre, -, huser, hv, hsigned, hstart, hend, hcan, hlisted, hmax, hfunded⟩
    rw [lookup_afterBuy_of_ne hba] at hv
    rw [hlamports] at hfunded
    exact ⟨hesc, hpre, hp, huser, hv, hsigned, hstart, hend, hcan, hlisted, hmax, hfunded⟩
  · rintro ⟨hesc, hpre, -, huser, hv, hsigned, hstart, hend, hcan, hlisted, hmax, hfunded⟩
    exact ⟨hesc, hpre, rfl, huser, (lookup_afterBuy_of_ne hba).trans hv, hsigned, hstart, hend,
      hcan, hlisted, hmax, hfunded.trans hlamports.ge⟩

/-- Two orders of different wallets that fit together are accepted in either order. -/
theorem accepted_comm {cx cx' : Context} (hab : a.authority ≠ b.authority)
    (ok : BuyAccepted cx a m s p u)
    (ok' : BuyAccepted cx' b n (afterBuy a m s p u) (presaleAfterBuy p u m) v)
    (hrate : 0 < p.presaleRate) (hfit : p.presaleRate * (m + n) ≤ p.totalTokenRemained) :
    BuyAccepted cx' b n s p v ∧
      BuyAccepted cx a m (afterBuy b n s p v) (presaleAfterBuy p v n) u := by
  have ha := ok.authority_ne_escrow
  have hb := ok'.authority_ne_escrow
  have hp := ok.presale
  obtain ⟨hm₁, hn₂⟩ := fillOf_fits hrate hfit u
  obtain ⟨hn₁, hm₂⟩ := fillOf_fits hrate (Nat.add_comm m n ▸ hfit) v
  rw [accepted_iff hrate, hm₁] at ok
  rw [accepted_iff (p := presaleAfterBuy p u m) hrate, hn₂,
    admitted_other_iff hab.symm hb hp] at ok'
  rw [accepted_iff hrate, accepted_iff (p := presaleAfterBuy p v n) hrate, hn₁, hm₂,
    admitted_other_iff hab ha hp]
  obtain ⟨guards, hprod, hcredit, hpart, htotal, hsol, hbuy⟩ := ok
  obtain ⟨guards', hprod', hcredit', hpart', htotal', hsol', hbuy'⟩ := ok'
  -- the escrow and the total grow by both offers in either order
  simp only [afterBuy, move_dst _ ha, presaleAfterBuy, hm₁] at hcredit' hpart' htotal'
  refine ⟨⟨guards', hprod', ?_, ?_, ?_, hsol', hbuy'⟩, guards, hprod, ?_, ?_, ?_, hsol, hbuy⟩
  · show s.lamports .escrowVault + n < 2 ^ 64
    omega
  · intro hnew
    have := hpart' hnew
    split_ifs at this <;> omega
  · show p.totalSolAmount + n < 2 ^ 64
    omega
  · simp only [afterBuy, move_dst _ hb, hn₁]
    omega
  · intro hnew
    have hone := hpart hnew
    rw [if_pos hnew] at hpart'
    show (if v.userBuyAmount = 0 then p.totalParticipants + 1 else p.totalParticipants) + 1 < 2 ^ 32
    split_ifs with hother
    · exact hpart' hother
    · exact hone
  · simp only [presaleAfterBuy, hn₁]
    omega

/-- Two orders of one wallet that fit together are accepted in either order. -/
theorem accepted_swap {cx cx' : Context} (ok : BuyAccepted cx a m s p u)
    (ok' : BuyAccepted cx' a n (afterBuy a m s p u) (presaleAfterBuy p u m)
      (userAfterBuy u (fillOf p m)))
    (hrate : 0 < p.presaleRate) (hn : 0 < n)
    (hfit : p.presaleRate * (m + n) ≤ p.totalTokenRemained) :
    BuyAccepted cx' a n s p u ∧
      BuyAccepted cx a m (afterBuy a n s p u) (presaleAfterBuy p u n)
        (userAfterBuy u (fillOf p n)) := by
  have ha := ok.authority_ne_escrow
  have hp := ok.presale
  have hu := ok.user
  obtain ⟨hm₁, hn₂⟩ := fillOf_fits hrate hfit u
  obtain ⟨hn₁, hm₂⟩ := fillOf_fits hrate (Nat.add_comm m n ▸ hfit) u
  have hnpos : 0 < p.presaleRate * n := Nat.mul_pos hrate hn
  have hcost : (fillOf p m).cost ≤ s.lamports a.authority := fill_cost_le.trans ok.funded
  rw [accepted_iff hrate, hm₁] at ok
  rw [accepted_iff (p := presaleAfterBuy p u m) hrate, hn₂,
    admitted_again_iff ha hp hu hcost] at ok'
  obtain ⟨guards, hprod, hcredit, hpart, htotal, hsol, hbuy⟩ := ok
  obtain ⟨⟨guards', hboth⟩, hprod', hcredit', -, htotal', hsol', hbuy'⟩ := ok'
  have hcost' : (fillOf p n).cost ≤ s.lamports a.authority := fill_cost_le.trans guards'.funded
  rw [accepted_iff hrate, accepted_iff (p := presaleAfterBuy p u n) hrate, hm₂,
    admitted_again_iff ha hp hu hcost']
  simp only [afterBuy, move_dst _ ha, presaleAfterBuy, userAfterBuy, hm₁, hn₁] at *
  have hfirst : s.lamports .escrowVault + n < 2 ^ 64 ∧ p.totalSolAmount + n < 2 ^ 64 ∧
      u.userSolContributed + n < 2 ^ 64 ∧ u.userBuyAmount + p.presaleRate * n < 2 ^ 64 := by
    omega
  have hboth' : n + m ≤ s.lamports a.authority := by omega
  rw [Nat.add_right_comm] at hcredit' htotal' hsol' hbuy'
  obtain ⟨hescrow, hraised, hpaid, hheld⟩ := hfirst
  refine ⟨⟨guards', hprod', hescrow, hpart, hraised, hpaid, hheld⟩, ⟨guards, hboth'⟩, hprod, ?_, ?_,
    htotal', hsol', hbuy'⟩
  · simp only [move_dst _ ha]
    exact hcredit'
  · intro hnone
    dsimp only at hnone
    omega

/-- The accounts of an accepted order are determined by its wallet. -/
theorem accounts_eq {cx cx' : Context} {s' : State} {p' : PresaleAccount}
    (ok : BuyAccepted cx a m s p u) (ok' : BuyAccepted cx' b n s' p' v)
    (hab : a.authority = b.authority) : b = a := by
  obtain ⟨escrow, presaleAccount, userAccount, authority⟩ := a
  obtain ⟨escrow', presaleAccount', userAccount', authority'⟩ := b
  have h₁ : escrow' = escrow := ok'.escrowAccount.trans ok.escrowAccount.symm
  have h₂ : presaleAccount' = presaleAccount := ok'.presaleAccount.trans ok.presaleAccount.symm
  have h₃ : userAccount = .userRole authority := ok.userAccount
  have h₄ : userAccount' = .userRole authority' := ok'.userAccount
  have h₅ : authority = authority' := hab
  rw [h₁, h₂, h₄, h₃, h₅]

/-- Two calls in a row that fit together may change places. -/
theorem steps_comm {c d : BuyCall} (hp : s.presale = some p) (hrate : 0 < p.presaleRate)
    (hc : 0 < c.offer) (hd : 0 < d.offer)
    (hfit : p.presaleRate * (c.offer + d.offer) ≤ p.totalTokenRemained) {s₁ s₂ : State}
    {o₁ o₂ : List LogEntry} (first : presale.step s c.input = .ok (s₁, o₁))
    (second : presale.step s₁ d.input = .ok (s₂, o₂)) :
    ∃ t o o', presale.step s d.input = .ok (t, o) ∧ presale.step t c.input = .ok (s₂, o') := by
  obtain ⟨q, u, ok, hout⟩ := buyCall_step_eq_ok.mp first
  obtain ⟨rfl, -⟩ := Prod.mk.inj hout
  obtain ⟨q', v, ok', hout'⟩ := buyCall_step_eq_ok.mp second
  obtain ⟨rfl, -⟩ := Prod.mk.inj hout'
  obtain rfl := Option.mem_unique ok.presale hp
  obtain rfl := Option.some_injective _ ok'.presale
  have ha := ok.authority_ne_escrow
  by_cases hab : c.accounts.authority = d.accounts.authority
  · have haccounts := accounts_eq ok ok' hab
    rw [haccounts] at ok' ⊢
    obtain rfl := Option.mem_unique (Finmap.lookup_insert _) ok'.user
    have hpool : 0 < q.totalTokenRemained :=
      (Nat.mul_pos hrate (Nat.add_pos_left hc _)).trans_le hfit
    have hstate : afterBuy c.accounts d.offer (afterBuy c.accounts c.offer s q u)
        (presaleAfterBuy q u c.offer) (userAfterBuy u (fillOf q c.offer)) =
          afterBuy c.accounts c.offer (afterBuy c.accounts d.offer s q u)
            (presaleAfterBuy q u d.offer) (userAfterBuy u (fillOf q d.offer)) := by
      rw [afterBuy_add ha hrate hc (.inl hpool), afterBuy_add ha hrate hd (.inl hpool),
        Nat.add_comm]
    obtain ⟨okd, okc⟩ := accepted_swap ok ok' hrate hd hfit
    rw [← haccounts] at okd
    have hfirst := step_of_accepted okd
    have hsecond := step_of_accepted okc
    rw [haccounts] at hfirst
    rw [← hstate] at hsecond
    exact ⟨_, _, _, hfirst, hsecond⟩
  · obtain ⟨okd, okc⟩ := accepted_comm hab ok ok' hrate hfit
    have hsecond := step_of_accepted okc
    rw [← afterBuy_comm hab ha ok'.authority_ne_escrow hrate hfit] at hsecond
    exact ⟨_, _, _, step_of_accepted okd, hsecond⟩

/-- Of a list that fits, the rest fits after the first call. -/
theorem offered_le_afterBuy (hrate : 0 < p.presaleRate)
    (hfit : p.presaleRate * (m + n) ≤ p.totalTokenRemained) (u : UserAccount) :
    p.presaleRate * n ≤ (presaleAfterBuy p u m).totalTokenRemained := by
  show p.presaleRate * n ≤ p.totalTokenRemained - (fillOf p m).tokens
  rw [(fillOf_fits hrate hfit u).1]
  rw [Nat.mul_add] at hfit
  exact Nat.le_sub_of_add_le' hfit

end Fitting

/-- A list of calls that fit together leaves the same state in any order. -/
theorem drive_perm {calls calls' : List BuyCall} (hperm : calls.Perm calls') :
    ∀ {s t : State} {p : PresaleAccount} {h : History}, s.presale = some p →
      0 < p.presaleRate → (∀ c ∈ calls, 0 < c.offer) →
        p.presaleRate * offered calls ≤ p.totalTokenRemained →
          presale.drive s (calls.map BuyCall.input) = .ok (h, t) →
            ∃ h', presale.drive s (calls'.map BuyCall.input) = .ok (h', t) := by
  induction hperm with
  | nil =>
    intro s t p h _ _ _ _ hdrive
    exact ⟨h, hdrive⟩
  | @cons c rest rest' _ ih =>
    intro s t p h hp hrate hpos hfit hdrive
    rw [offered_cons] at hfit
    obtain ⟨s₁, o, h₁, hstep, hrest, -⟩ := Machine.drive_cons_eq_ok.mp hdrive
    obtain ⟨q, u, ok, hout⟩ := buyCall_step_eq_ok.mp hstep
    obtain ⟨rfl, -⟩ := Prod.mk.inj hout
    obtain rfl := Option.mem_unique ok.presale hp
    have hrestpos : ∀ d ∈ rest, 0 < d.offer := fun d hd => hpos d (List.mem_cons_of_mem c hd)
    obtain ⟨h', hdrive'⟩ := ih (p := presaleAfterBuy q u c.offer) rfl hrate hrestpos
      (offered_le_afterBuy hrate hfit u) hrest
    exact ⟨_, Machine.drive_cons hstep hdrive'⟩
  | swap d c rest =>
    intro s t p h hp hrate hpos hfit hdrive
    rw [offered_cons, offered_cons, ← Nat.add_assoc, Nat.mul_add] at hfit
    obtain ⟨s₁, o, h₁, hstep, hrest, -⟩ := Machine.drive_cons_eq_ok.mp hdrive
    obtain ⟨s₂, o', h₂, hstep', hrest', -⟩ := Machine.drive_cons_eq_ok.mp hrest
    have hc := hpos c List.mem_cons_self
    have hd := hpos d (List.mem_cons_of_mem c List.mem_cons_self)
    obtain ⟨s₃, o₁, o₂, hfirst, hsecond⟩ :=
      steps_comm hp hrate hc hd ((Nat.le_add_right _ _).trans hfit) hstep hstep'
    exact ⟨_, Machine.drive_cons hfirst (Machine.drive_cons hsecond hrest')⟩
  | trans hfirst _ ih ih' =>
    intro s t p h hp hrate hpos hfit hdrive
    obtain ⟨h', hdrive'⟩ := ih hp hrate hpos hfit hdrive
    rw [offered_perm hfirst] at hfit
    exact ih' hp hrate (fun c hc => hpos c (hfirst.mem_iff.mpr hc)) hfit hdrive'

/-- Orders that the pool can serve together in full, by any wallets, succeed in every order if they
do in one, and leave the same state: the same records, accounts and balances. The calls need not
even be made at the same time.
SRC: buy_token.rs:31-105 -/
theorem fitting_orders_perm (e : Execution) (p : PresaleAccount)
    (hp : e.final.presale = some p) (hrate : 1 ≤ p.presaleRate) (calls calls' : List BuyCall)
    (hpos : ∀ c ∈ calls, 0 < c.offer)
    (hfit : p.presaleRate * offered calls ≤ p.totalTokenRemained) (hist : History) (s' : State)
    (h : presale.drive e.final (calls.map BuyCall.input) = .ok (hist, s'))
    (hperm : calls.Perm calls') :
    ∃ hist', presale.drive e.final (calls'.map BuyCall.input) = .ok (hist', s') :=
  drive_perm hperm hp hrate hpos hfit h

/-- Alice, Bob and Alice again, in one order and in another. -/
theorem fitting_orders_small_sale :
    ∃ hist hist' s',
      presale.drive (Sample.play Sample.bobNext).final
        [Sample.buy 1 5, Sample.buy 2 8, Sample.buy 1 10] = .ok (hist, s') ∧
      presale.drive (Sample.play Sample.bobNext).final
        [Sample.buy 2 8, Sample.buy 1 5, Sample.buy 1 10] = .ok (hist', s') := by
  obtain ⟨p, hp, hrate, hpool⟩ := sample_bobNext
  have hok : (presale.drive (Sample.play Sample.bobNext).final
      [Sample.buy 1 5, Sample.buy 2 8, Sample.buy 1 10]).isOk = true := by decide +kernel
  obtain ⟨⟨hist, s'⟩, hdrive⟩ := exists_of_isOk hok
  have hfit : p.presaleRate * offered [sampleOrder 1 5, sampleOrder 2 8, sampleOrder 1 10] ≤
      p.totalTokenRemained := by
    rw [hrate, hpool]
    decide
  have hperm := List.Perm.swap (sampleOrder 2 8) (sampleOrder 1 5) [sampleOrder 1 10]
  obtain ⟨hist', hdrive'⟩ := fitting_orders_perm _ p hp (by omega) _ _ (by decide) hfit hist s'
    hdrive hperm
  exact ⟨hist, hist', s', hdrive, hdrive'⟩

end TokenPresale.Analysis
