import TokenPresale.Analysis.Payouts

/-!
# The two counters

`total_participants` and `total_whitelisted_wallets` are kept beside the accounts they count.
Each instruction that changes a counter looks at something else than what is counted: an order
at what its wallet held before, a removal at nothing. So both counters are exact in every run
in which no order of a newcomer comes to nothing, and no wallet is removed twice.
-/

set_option autoImplicit false

namespace TokenPresale.Analysis

open TokenPresale.Library TokenPresale.Model TokenPresale.Interface

/-! ## Participants -/

/-- How many accounts hold tokens of the sale. -/
def holders (s : State) : ℕ := s.users.count fun u => 0 < u.userBuyAmount

/-- One for an account that holds tokens. -/
def holds (bought _ : ℕ) : ℕ := (decide (0 < bought)).toNat

/-- Counting the holders is a total over the accounts. -/
theorem holders_eq_total (s : State) : holders s = s.users.total (holding holds) :=
  Ledger.count_eq_total _ _

/-- As long as no refund has been paid, the counter is the number of accounts that hold tokens. -/
def ParticipantsExact (h : History) (s : State) : Prop :=
  ∀ p, s.presale = some p → allRefundsPaid h = 0 → p.totalParticipants = holders s

/-- If the step `r` is an order, its wallet holds tokens already, or the order asks for some and
there are some. -/
def BuysSomething (_ : History) (r : Step) : Prop :=
  ∀ cx a amount p u, r.input = .instruction cx (.buyToken a amount) →
    r.before.presale = some p → r.before.users.lookup (.userRole a.authority) = some u →
      0 < u.userBuyAmount ∨ 0 < p.presaleRate * amount.toNat ∧ 0 < p.totalTokenRemained

section Step

variable {s s' : State} {i : Input} {log : List LogEntry}

/-- Without a presale there is nothing to count. -/
theorem Coherent.participantsExact_iff (c : Coherent s) {h : History} :
    ParticipantsExact h s ↔
      (allRefundsPaid h = 0 → field PresaleAccount.totalParticipants s = holders s) := by
  have hcounts := forall_presale_iff (f := PresaleAccount.totalParticipants) (s := s)
    (n := holders s) fun hnone => by simp [holders_eq_total, c.unlaunched hnone]
  rw [← hcounts]
  constructor
  · intro hexact hzero p hp
    exact hexact p hp hzero
  · intro hexact p hp hzero
    exact hexact hzero p hp

/-- An order adds its wallet to the holders, if it did not hold anything and now does. -/
theorem holders_afterBuy {cx : Context} {a : BuyToken} {n : ℕ} {p : PresaleAccount}
    {u : UserAccount} (ok : BuyAccepted cx a n s p u) :
    holders (afterBuy a n s p u) + holds u.userBuyAmount 0 =
      holders s + holds (u.userBuyAmount + (fillOf p n).tokens) 0 := by
  rw [holders_eq_total, holders_eq_total]
  exact Ledger.total_insert_of_lookup (holding holds) (userAfterBuy u (fillOf p n)) ok.user

/-- Where the counter is exact, an order keeps it so exactly when its wallet holds tokens before
or after it. -/
theorem participants_afterBuy_iff {cx : Context} {a : BuyToken} {n : ℕ} {p : PresaleAccount}
    {u : UserAccount} (ok : BuyAccepted cx a n s p u) (hexact : p.totalParticipants = holders s) :
    (presaleAfterBuy p u n).totalParticipants = holders (afterBuy a n s p u) ↔
      0 < u.userBuyAmount ∨ 0 < p.presaleRate * n ∧ 0 < p.totalTokenRemained := by
  have hholders := holders_afterBuy ok
  have hcredit : 0 < (fillOf p n).tokens ↔ 0 < p.presaleRate * n ∧ 0 < p.totalTokenRemained :=
    fill_tokens_pos_iff
  rw [← hcredit]
  show (if u.userBuyAmount = 0 then p.totalParticipants + 1 else p.totalParticipants) = _ ↔ _
  unfold holds at hholders
  by_cases hnew : u.userBuyAmount = 0
  · by_cases hsome : 0 < (fillOf p n).tokens
    · simp only [hnew, hsome, Nat.lt_irrefl, decide_false, Bool.toNat_false, Nat.zero_add,
        decide_true, Bool.toNat_true] at hholders
      simp only [hnew, hsome, if_true, or_true, iff_true]
      omega
    · simp only [hnew, hsome, Nat.lt_irrefl, decide_false, Bool.toNat_false, Nat.zero_add]
        at hholders
      simp only [hnew, hsome, if_true, Nat.lt_irrefl, or_false, iff_false]
      omega
  · have hpos : 0 < u.userBuyAmount := Nat.pos_of_ne_zero hnew
    have hpos' : 0 < u.userBuyAmount + (fillOf p n).tokens := Nat.add_pos_left hpos _
    simp only [hpos, hpos', decide_true, Bool.toNat_true] at hholders
    simp only [if_neg hnew, hpos, true_or, iff_true]
    omega

/-- Where the counter is exact, the next step keeps it so exactly when it is no order that comes to
nothing. -/
theorem participantsExact_step {s₀ : State} {h : History} {o : List LogEntry} (fresh : Fresh s₀)
    (run : presale.Run s₀ h s) (exact_ : ParticipantsExact h s)
    (hstep : presale.step s i = .ok (s', o)) :
    ParticipantsExact (h ++ [⟨s, i, o⟩]) s' ↔ BuysSomething h ⟨s, i, o⟩ := by
  have effect := effect_of_step hstep
  have c := coherent_of_run fresh run
  have hpaid : allRefundsPaid (h ++ [⟨s, i, o⟩]) = allRefundsPaid h +
      receipt refundsAny (lamportsOutOf .escrowVault) ⟨s, i, o⟩ := by
    simp [allRefundsPaid]
  rw [(c.step effect).participantsExact_iff, hpaid]
  cases c.money_step effect with
  | @buy cx a amount p u ok =>
    have hopen : p.isCancelled = 0 := by
      have hle := (flags_le_one fresh run ok.presale).2
      have hne := ok.notCancelled
      omega
    have hnone : allRefundsPaid h = 0 :=
      allRefundsPaid_eq_zero fresh run ((field_of_presale ok.presale).trans hopen)
    have horder : BuysSomething h ⟨s, .instruction cx (.buyToken a amount),
        buyLog cx a amount.toNat p⟩ ↔
          0 < u.userBuyAmount ∨ 0 < p.presaleRate * amount.toNat ∧ 0 < p.totalTokenRemained :=
      forall_order_iff ok
    rw [horder, ← participants_afterBuy_iff ok (exact_ p ok.presale hnone)]
    constructor
    · intro hafter
      exact hafter (by rw [hnone]; rfl)
    · intro hcount _
      exact hcount
  | @refund cx a p u ok =>
    rw [receipt_of_refund]
    refine iff_of_true ?_ ?_
    · intro hzero
      have := ok.positive
      omega
    · intro cx' a' amount p u hi
      exact absurd hi (by simp)
  | quiet same =>
    rw [same.noRefund, Nat.add_zero, same.participants, holders_eq_total,
      same.total holds rfl, ← holders_eq_total]
    refine iff_of_true (c.participantsExact_iff.mp exact_) ?_
    intro cx a amount p u hi
    exact absurd hi (same.ne_buy cx a amount)

end Step

/-- In every state of a run before the first refund the counter is the number of accounts that hold
tokens, exactly when no order of the run comes to nothing for a wallet that holds nothing.
SRC: buy_token.rs:49-87, refund_token.rs:45-46 -/
theorem participants_exact_iff (e : Execution) :
    presale.Always e.genesis e.history ParticipantsExact ↔
      Machine.Steps BuysSomething e.history :=
  e.run.always_iff (fun _ hp => absurd (hp.symm.trans e.fresh.presale) (Option.some_ne_none _))
    fun _ _ _ _ _ run exact_ hstep => participantsExact_step e.fresh run exact_ hstep

/-- Alice orders for 0 lamports: she is counted and holds nothing. -/
theorem participants_overcounted :
    ¬ ∀ (e : Execution) (p : PresaleAccount), e.final.presale = some p →
      allRefundsPaid e.history = 0 → p.totalParticipants = holders e.final := by
  intro h
  have hcount : (Sample.play [Sample.launch, Sample.list 1, Sample.buy 1 0]).final.presale.map
      PresaleAccount.totalParticipants = some 1 := by decide +kernel
  obtain ⟨p, hp, hone⟩ := Option.map_eq_some_iff.mp hcount
  have hexact := h _ p hp (by decide +kernel)
  rw [hone] at hexact
  exact absurd hexact (by decide +kernel)

/-! ## The whitelist -/

/-- How many accounts are whitelisted. -/
def whitelisted (s : State) : ℕ := s.users.count UserAccount.isWhitelisted

/-- Counting the listed accounts is a total over the accounts. -/
theorem whitelisted_eq_total (s : State) :
    whitelisted s = s.users.total fun u => u.isWhitelisted.toNat :=
  Ledger.count_eq_total _ _

/-- The counter is the number of whitelisted accounts, so the removal of one never aborts on it. -/
def WhitelistExact (_ : History) (s : State) : Prop :=
  ∀ p, s.presale = some p → p.totalWhitelistedWallets = whitelisted s ∧
    ∀ cx a u, s.users.lookup a.userAccount = some u → u.isWhitelisted = true →
      removeWhitelistHandler cx a s ≠ .error (.panic .totalWhitelistedWallets)

/-- If the step `r` removes a wallet from the whitelist, the wallet is on it. -/
def RemovesListed (_ : History) (r : Step) : Prop :=
  ∀ cx a u, r.input = .instruction cx (.removeWhitelist a) →
    r.before.users.lookup (.userRole a.authority) = some u → u.isWhitelisted = true

section Step

variable {s s' : State} {i : Input} {log : List LogEntry}

/-- On an exact counter the removal of a whitelisted account does not abort. -/
theorem removal_never_aborts {p : PresaleAccount} (hp : s.presale = some p)
    (hexact : p.totalWhitelistedWallets = whitelisted s) {k : Pubkey} {u : UserAccount}
    (hu : s.users.lookup k = some u) (hlisted : u.isWhitelisted = true) (cx : Context)
    (a : Whitelist) :
    removeWhitelistHandler cx a s ≠ .error (.panic .totalWhitelistedWallets) := by
  intro habort
  obtain ⟨q, hq, hzero⟩ := removeWhitelistHandler_panic habort
  obtain rfl := Option.mem_unique hp hq
  have hle := Ledger.le_total (fun u : UserAccount => u.isWhitelisted.toNat) hu
  rw [hlisted, Bool.toNat_true, ← whitelisted_eq_total, ← hexact, hzero] at hle
  exact absurd hle (Nat.not_succ_le_zero 0)

/-- The whitelist is exact when the counter is, for then no removal of a listed account aborts. -/
theorem Coherent.whitelistExact_iff (c : Coherent s) {h : History} :
    WhitelistExact h s ↔ field PresaleAccount.totalWhitelistedWallets s = whitelisted s := by
  have hcounts := forall_presale_iff (f := PresaleAccount.totalWhitelistedWallets) (s := s)
    (n := whitelisted s) fun hnone => by simp [whitelisted_eq_total, c.unlaunched hnone]
  rw [← hcounts]
  constructor
  · intro hexact p hp
    exact (hexact p hp).1
  · intro hexact p hp
    exact ⟨hexact p hp, fun cx a u hu hlisted =>
      removal_never_aborts hp (hexact p hp) hu hlisted cx a⟩

/-- What a step does to the whitelist. -/
inductive ListStep (s : State) : Input → State → Prop
  | add {cx : Context} {a : Whitelist} {p : PresaleAccount} (ok : AddAccepted cx a s p) :
      ListStep s (.instruction cx (.addWhitelist a)) (afterAdd cx a s p)
  | remove {cx : Context} {a : Whitelist} {p : PresaleAccount} {u : UserAccount}
      (ok : RemoveAccepted cx a s p u) :
      ListStep s (.instruction cx (.removeWhitelist a)) (afterRemove a s p u)
  | quiet {i : Input} {s' : State} (other : ∀ cx a, i ≠ .instruction cx (.removeWhitelist a))
      (counter : field PresaleAccount.totalWhitelistedWallets s' =
        field PresaleAccount.totalWhitelistedWallets s)
      (listed : whitelisted s' = whitelisted s) : ListStep s i s'

/-- Rewriting an account without touching its place on the whitelist changes no count. -/
theorem whitelisted_of_rewrite {k : Pubkey} {u u' : UserAccount}
    (h : s'.users = s.users.insert k u') (hu : s.users.lookup k = some u)
    (hsame : u'.isWhitelisted = u.isWhitelisted) : whitelisted s' = whitelisted s := by
  rw [whitelisted_eq_total, whitelisted_eq_total, h]
  exact Ledger.total_insert_same _ _ hu (congrArg Bool.toNat hsame)

/-- Every step does one of these to the whitelist. -/
theorem Coherent.list_step (c : Coherent s) (h : Effect s i s' log) : ListStep s i s' := by
  have field_eq : ∀ {p p' : PresaleAccount}, s.presale = some p → s'.presale = some p' →
      p'.totalWhitelistedWallets = p.totalWhitelistedWallets →
        field PresaleAccount.totalWhitelistedWallets s' =
          field PresaleAccount.totalWhitelistedWallets s := by
    intro p p' hp hp' heq
    rw [field_of_presale hp, field_of_presale hp', heq]
  cases h with
  | add ok => exact .add ok
  | remove ok => exact .remove ok
  | initializePresale ok =>
    obtain ⟨-, -, -, rfl⟩ := initialPresale_eq_ok.mp ok.record
    refine .quiet (by simp) ?_ rfl
    simp [field, c.not_launched ok, afterInitialize, PresaleAccount.zeroed]
  | buy ok =>
    exact .quiet (by simp) (field_eq ok.presale rfl rfl) (whitelisted_of_rewrite rfl ok.user rfl)
  | claim ok => exact .quiet (by simp) rfl (whitelisted_of_rewrite rfl ok.user rfl)
  | refund ok | cancel ok | update ok | finalizePays ok | withdrawToken ok =>
    exact .quiet (by simp) (field_eq ok.presale rfl rfl) rfl
  | @finalizeCancelled _ _ f _ ok _ =>
    refine .quiet (by simp) (field_eq ok.presale rfl ?_) rfl
    unfold closed
    split_ifs <;> rfl
  | outside ok =>
    refine .quiet (by simp) ?_ ?_
    · rw [field, (runOutside_frame ok).presale, field]
    · rw [whitelisted, (runOutside_frame ok).users, whitelisted]
  | _ => exact .quiet (by simp) rfl rfl

/-- A wallet that is added is one whitelisted account more. -/
theorem Coherent.whitelisted_afterAdd (c : Coherent s) {cx : Context} {a : Whitelist}
    {p : PresaleAccount} (ok : AddAccepted cx a s p) :
    whitelisted (afterAdd cx a s p) = whitelisted s + 1 := by
  rw [whitelisted_eq_total, whitelisted_eq_total]
  exact Ledger.total_insert_new (fun u : UserAccount => u.isWhitelisted.toNat)
    (newUser a.authority) (c.not_listed ok)

/-- A wallet that is removed is one whitelisted account less, if it was one. -/
theorem whitelisted_afterRemove {cx : Context} {a : Whitelist} {p : PresaleAccount}
    {u : UserAccount} (ok : RemoveAccepted cx a s p u) :
    whitelisted (afterRemove a s p u) + u.isWhitelisted.toNat = whitelisted s := by
  rw [whitelisted_eq_total, whitelisted_eq_total]
  exact Ledger.total_insert_of_lookup (fun u : UserAccount => u.isWhitelisted.toNat)
    { u with isWhitelisted := false } ok.user

/-- Where the counter is exact, the next step keeps it so exactly when it removes no wallet that is
not whitelisted. -/
theorem whitelistExact_step {s₀ : State} {h : History} {o : List LogEntry} (fresh : Fresh s₀)
    (run : presale.Run s₀ h s) (exact_ : WhitelistExact h s)
    (hstep : presale.step s i = .ok (s', o)) :
    WhitelistExact (h ++ [⟨s, i, o⟩]) s' ↔ RemovesListed h ⟨s, i, o⟩ := by
  have effect := effect_of_step hstep
  have c := coherent_of_run fresh run
  have hcount := c.whitelistExact_iff.mp exact_
  rw [(c.step effect).whitelistExact_iff]
  cases c.list_step effect with
  | @add cx a p ok =>
    rw [field_of_presale ok.presale] at hcount
    refine iff_of_true ?_ ?_
    · show p.totalWhitelistedWallets + 1 = whitelisted (afterAdd cx a s p)
      rw [c.whitelisted_afterAdd ok, hcount]
    · intro cx' a' u hi
      exact absurd hi (by simp)
  | @remove cx a p u ok =>
    rw [field_of_presale ok.presale] at hcount
    have hafter := whitelisted_afterRemove ok
    have hpos := ok.counter
    have hlisted : RemovesListed h ⟨s, .instruction cx (.removeWhitelist a), o⟩ ↔
        u.isWhitelisted = true := by
      constructor
      · intro hall
        exact hall cx a u rfl ok.user
      · intro hu cx' a' u' hi hu'
        obtain ⟨rfl, rfl⟩ : cx = cx' ∧ a = a' := by simpa using hi
        obtain rfl := Option.mem_unique ok.user hu'
        exact hu
    rw [hlisted]
    show p.totalWhitelistedWallets - 1 = whitelisted (afterRemove a s p u) ↔ _
    cases hu : u.isWhitelisted with
    | true =>
      rw [hu, Bool.toNat_true] at hafter
      refine iff_of_true ?_ rfl
      omega
    | false =>
      rw [hu, Bool.toNat_false] at hafter
      refine iff_of_false ?_ Bool.false_ne_true
      omega
  | quiet other counter listed =>
    refine iff_of_true ?_ ?_
    · rw [counter, listed]
      exact hcount
    · intro cx a u hi
      exact absurd hi (other cx a)

end Step

/-- In every state of a run the counter is the number of whitelisted accounts, and no removal of
one of them aborts on it, exactly when the run never removes a wallet that is not whitelisted.
SRC: add_whitelist.rs:30-41, remove_whitelist.rs:28-33 -/
theorem whitelist_exact_iff (e : Execution) :
    presale.Always e.genesis e.history WhitelistExact ↔
      Machine.Steps RemovesListed e.history :=
  e.run.always_iff (fun _ hp => absurd (hp.symm.trans e.fresh.presale) (Option.some_ne_none _))
    fun _ _ _ _ _ run exact_ hstep => whitelistExact_step e.fresh run exact_ hstep

/-- Alice is removed twice: the counter says zero while Bob is whitelisted, and he can no longer be
removed. -/
theorem whitelist_undercounted :
    (¬ ∀ (e : Execution) (p : PresaleAccount), e.final.presale = some p →
      p.totalWhitelistedWallets = whitelisted e.final) ∧
    ¬ ∀ (e : Execution) (cx : Context) (a : Whitelist) (u : UserAccount),
      e.final.users.lookup a.userAccount = some u → u.isWhitelisted = true →
        removeWhitelistHandler cx a e.final ≠ .error (.panic .totalWhitelistedWallets) := by
  constructor
  · intro h
    have hcount : (Sample.play [Sample.launch, Sample.list 1, Sample.list 2, Sample.delist 1,
        Sample.delist 1]).final.presale.map PresaleAccount.totalWhitelistedWallets = some 0 := by
      decide +kernel
    obtain ⟨p, hp, hzero⟩ := Option.map_eq_some_iff.mp hcount
    have hexact := h _ p hp
    rw [hzero] at hexact
    exact absurd hexact (by decide +kernel)
  · intro h
    have hbob := h (Sample.play [Sample.launch, Sample.list 1, Sample.list 2, Sample.delist 1,
      Sample.delist 1]) (Sample.context 0 1002)
      ⟨.presaleInfo, .userRole (.key 2), .key 2, .adminRole (.key 0), .key 0⟩
      ⟨true, 0, 0, 0, .key 2⟩ (by decide +kernel) rfl
    have habort : (removeWhitelistHandler (Sample.context 0 1002)
        ⟨.presaleInfo, .userRole (.key 2), .key 2, .adminRole (.key 0), .key 0⟩
        (Sample.play [Sample.launch, Sample.list 1, Sample.list 2, Sample.delist 1,
          Sample.delist 1]).final).map (fun _ => ()) =
            .error (.panic .totalWhitelistedWallets) := by decide +kernel
    rw [map_eq_error] at habort
    exact hbob habort

end TokenPresale.Analysis
