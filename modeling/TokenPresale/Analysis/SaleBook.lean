import TokenPresale.Abstract.Book
import TokenPresale.Analysis.Coherence
import TokenPresale.Interface.Receipts

/-!
# The presale keeps the book of a fixed price sale

The records of the program are read as a `Book`, with the user accounts as its members.
Every step of the program is a move of the book or leaves it as it is, so whatever holds of
every reachable book holds in every state of the program. The terms of the sale (its rate and
its supply among them) are set by `initialize` and never change.
-/

set_option autoImplicit false

namespace TokenPresale.Analysis

open TokenPresale.Library TokenPresale.Model TokenPresale.Interface TokenPresale.Abstract

/-! ## Terms -/

/-- The fields of the presale record that only `initialize` assigns.
SRC: initialize.rs:69-84 -/
structure Terms where
  teamPercent : ℕ
  presaleRate : ℕ
  userMaxBuy : ℕ
  presaleDuration : ℕ
  totalPresaleToken : ℕ
  softCap : ℕ
  tokenAllocation : ℕ

/-- The terms of a presale record. -/
def termsOf (p : PresaleAccount) : Terms where
  teamPercent := p.teamPercent
  presaleRate := p.presaleRate
  userMaxBuy := p.userMaxBuy
  presaleDuration := p.presaleDuration
  totalPresaleToken := p.totalPresaleToken
  softCap := p.softCap
  tokenAllocation := p.tokenAllocation

/-- The terms that `initialize` makes of its arguments. -/
def termsFrom (args : InitializeArgs) : Terms where
  teamPercent := args.teamPercent.toNat
  presaleRate := args.presaleRate.toNat
  userMaxBuy := args.userMaxBuy.toNat
  presaleDuration := args.presaleDuration.toNat
  totalPresaleToken := args.totalTokenAmount.toNat * args.tokenAllocation.toNat / 10000
  softCap := args.totalTokenAmount.toNat * args.softcapPrecent.toNat / 10000
  tokenAllocation := args.tokenAllocation.toNat

/-- The record of `initialize` has the terms of its arguments. -/
theorem termsOf_initial {cx : Context} {args : InitializeArgs} {p : PresaleAccount}
    (h : initialPresale cx args = .ok p) : termsOf p = termsFrom args := by
  obtain ⟨-, -, -, rfl⟩ := initialPresale_eq_ok.mp h
  rfl

section Step

variable {s s' : State} {i : Input} {log : List LogEntry}

/-- What a step can do to a presale record that exists. -/
inductive RecordStep (p : PresaleAccount) : PresaleAccount → Prop
  | same : RecordStep p p
  | buy (u : UserAccount) (n : ℕ) : RecordStep p (presaleAfterBuy p u n)
  | refund (n : ℕ) : RecordStep p (presaleAfterRefund p n)
  | window (startTime endTime : ℕ) : RecordStep p { p with startTime, endTime }
  | listed (totalWhitelistedWallets : ℕ) : RecordStep p { p with totalWhitelistedWallets }
  | cancel : RecordStep p { p with isCancelled := 1 }
  | finalize : RecordStep p { p with isFinalized := 1 }
  | withdraw : RecordStep p { p with totalTokenRemained := 0 }

/-- The first block of `finalize` cancels the record or leaves it. -/
theorem RecordStep.closed (f : UInt8) (p : PresaleAccount) : RecordStep p (closed f p) := by
  unfold Interface.closed
  split_ifs
  · exact .cancel
  · exact .same

/-- The presale record is never deleted, and changes in these ways only. -/
theorem Coherent.record_step (c : Coherent s) (h : Effect s i s' log) {p : PresaleAccount}
    (hp : s.presale = some p) : ∃ p', s'.presale = some p' ∧ RecordStep p p' := by
  -- every writer of the record has read it, so it wrote a variant of `p`
  have same : ∀ {q : PresaleAccount}, s.presale = some q → q = p :=
    fun hq => Option.mem_unique hq hp
  cases h with
  | initializePresale ok => exact absurd (c.not_launched ok) (by simp [hp])
  | buy ok => exact ⟨_, rfl, same ok.presale ▸ .buy _ _⟩
  | refund ok => exact ⟨_, rfl, same ok.presale ▸ .refund _⟩
  | cancel ok => exact ⟨_, rfl, same ok.presale ▸ .cancel⟩
  | update ok => exact ⟨_, rfl, same ok.presale ▸ .window _ _⟩
  | add ok | remove ok => exact ⟨_, rfl, same ok.presale ▸ .listed _⟩
  | finalizePays ok => exact ⟨_, rfl, same ok.presale ▸ .finalize⟩
  | finalizeCancelled ok => exact ⟨_, rfl, same ok.presale ▸ .closed _ _⟩
  | withdrawToken ok => exact ⟨_, rfl, same ok.presale ▸ .withdraw⟩
  | outside ok => exact ⟨p, (runOutside_frame ok).presale.trans hp, .same⟩
  | _ => exact ⟨p, hp, .same⟩

/-- The presale record is never closed. -/
theorem Coherent.none_of_step (c : Coherent s) (h : Effect s i s' log)
    (hnone : s'.presale = none) : s.presale = none := by
  cases hp : s.presale with
  | none => rfl
  | some p =>
    obtain ⟨p', hp', -⟩ := c.record_step h hp
    exact absurd (hp'.symm.trans hnone) (Option.some_ne_none _)

/-- No step changes the terms. -/
theorem RecordStep.terms_eq {p p' : PresaleAccount} (h : RecordStep p p') :
    termsOf p' = termsOf p := by
  cases h <;> rfl

/-- The flags `is_finalized` and `is_cancelled` are only ever set. -/
theorem RecordStep.flags {p p' : PresaleAccount} (h : RecordStep p p') :
    (p'.isFinalized = p.isFinalized ∨ p'.isFinalized = 1) ∧
      (p'.isCancelled = p.isCancelled ∨ p'.isCancelled = 1) := by
  cases h with
  | cancel => exact ⟨.inl rfl, .inr rfl⟩
  | finalize => exact ⟨.inr rfl, .inl rfl⟩
  | _ => exact ⟨.inl rfl, .inl rfl⟩

end Step

/-- The induction rule for the presale record: what holds of it once `initialize` has made it, and
is kept by every step that changes it, holds of it in every run. -/
theorem launched_invariant (P : History → State → PresaleAccount → Prop) {s₀ : State}
    (fresh : Fresh s₀)
    (launch : ∀ h s cx a args p, presale.Run s₀ h s → s.presale = none →
      InitializeAccepted cx a args s p →
        P (h ++ [⟨s, .instruction cx (.initializePresale a args), initializeLog cx a s⟩])
          (afterInitialize cx a s p) p)
    (next : ∀ h s i s' o p p', presale.Run s₀ h s → Effect s i s' o → s.presale = some p →
      s'.presale = some p' → RecordStep p p' → P h s p → P (h ++ [⟨s, i, o⟩]) s' p')
    {s : State} {h : History} (run : presale.Run s₀ h s) {p : PresaleAccount}
    (hp : s.presale = some p) : P h s p := by
  refine run.invariant (fun h s => ∀ p, s.presale = some p → P h s p) ?_ ?_ p hp
  · intro p hp
    exact absurd (hp.symm.trans fresh.presale) (Option.some_ne_none _)
  · intro h s i s' o hrun ih hstep p' hp'
    have effect := effect_of_step hstep
    cases hp : s.presale with
    | none =>
      obtain ⟨cx, a, args, rfl, ok, rfl, rfl⟩ := launch_of_effect effect hp hp'
      exact launch h s cx a args p' hrun hp ok
    | some p =>
      obtain ⟨q, hq, hrecord⟩ := (coherent_of_run fresh hrun).record_step effect hp
      obtain rfl := Option.mem_unique hq hp'
      exact next h s i s' o p q hrun effect hp hq hrecord (ih p hp)

/-- What `initialize` establishes of the presale record, and every change of it keeps, holds of
it in every run. -/
theorem record_invariant {P : PresaleAccount → Prop}
    (launch : ∀ cx args p, initialPresale cx args = .ok p → P p)
    (change : ∀ p p', RecordStep p p' → P p → P p') {s₀ s : State} {h : History}
    (fresh : Fresh s₀) (run : presale.Run s₀ h s) {p : PresaleAccount}
    (hp : s.presale = some p) : P p := by
  refine launched_invariant (fun _ _ p => P p) fresh ?_ ?_ run hp
  · intro h s cx a args p _ _ ok
    exact launch cx args p ok.record
  · intro h s i s' o p p' _ _ _ _ hrecord holds
    exact change p p' hrecord holds

/-- The flags `is_finalized` and `is_cancelled` are zero or one. -/
theorem flags_le_one {s₀ s : State} {h : History} (fresh : Fresh s₀) (run : presale.Run s₀ h s)
    {p : PresaleAccount} (hp : s.presale = some p) : p.isFinalized ≤ 1 ∧ p.isCancelled ≤ 1 := by
  refine record_invariant (P := fun p => p.isFinalized ≤ 1 ∧ p.isCancelled ≤ 1) ?_ ?_ fresh run hp
  · intro cx args p hrec
    obtain ⟨-, -, -, rfl⟩ := initialPresale_eq_ok.mp hrec
    simp [PresaleAccount.zeroed]
  · intro p p' hrecord hle
    have := hrecord.flags
    omega

/-- The supply fits in 64 bits, since `initialize` computes it with a checked product.
SRC: initialize.rs:81-82 -/
theorem supply_lt {s₀ s : State} {h : History} (fresh : Fresh s₀) (run : presale.Run s₀ h s)
    {p : PresaleAccount} (hp : s.presale = some p) : p.totalPresaleToken < 2 ^ 64 := by
  refine record_invariant (P := fun p => p.totalPresaleToken < 2 ^ 64) ?_ ?_ fresh run hp
  · intro cx args p hrec
    obtain ⟨-, -, hprod, rfl⟩ := initialPresale_eq_ok.mp hrec
    exact (Nat.div_le_self _ _).trans_lt hprod
  · intro p p' hrecord hlt
    have hsupply : p'.totalPresaleToken = p.totalPresaleToken :=
      congrArg Terms.totalPresaleToken hrecord.terms_eq
    rwa [hsupply]

/-! ## The book -/

section Step

variable {s s' : State} {i : Input} {log : List LogEntry}

/-- The records of a state, after the history `h`, as the book of a sale. -/
def bookOf (h : History) (s : State) (p : PresaleAccount) : Book Pubkey where
  pool := p.totalTokenRemained
  members := s.users.keys
  tokens := s.users.reading UserAccount.userBuyAmount
  paid := s.users.reading UserAccount.userSolContributed
  soldOut := decide (p.isHardcapped ≠ 0)
  closed := tokensWithdrawn h

/-- An accepted order is a sale to the buyer's account. -/
theorem bookOf_afterBuy {h h' : History} {cx : Context} {a : BuyToken} {n : ℕ}
    {p : PresaleAccount} {u : UserAccount} (ok : BuyAccepted cx a n s p u)
    (hh : tokensWithdrawn h' = tokensWithdrawn h) :
    bookOf h' (afterBuy a n s p u) (presaleAfterBuy p u n) =
      (bookOf h s p).sell p.presaleRate (.userRole a.authority) n := by
  have hsold : decide ((presaleAfterBuy p u n).isHardcapped ≠ 0) =
      (decide (p.isHardcapped ≠ 0) || decide (p.totalTokenRemained ≤ p.presaleRate * n)) := by
    by_cases hle : p.totalTokenRemained ≤ p.presaleRate * n <;> simp [presaleAfterBuy, hle]
  have htokens := Ledger.reading_of_lookup (f := UserAccount.userBuyAmount) ok.user
  have hpaid := Ledger.reading_of_lookup (f := UserAccount.userSolContributed) ok.user
  simp only [bookOf, Book.sell, hsold, hh, htokens, hpaid, afterBuy,
    Ledger.keys_insert_of_lookup _ ok.user, Ledger.reading_insert]
  rfl

/-- A step that rewrites neither a user record nor the pool leaves the book as it is. -/
theorem bookOf_same {h h' : History} {p p' : PresaleAccount} (hs : s'.users = s.users)
    (hpool : p'.totalTokenRemained = p.totalTokenRemained)
    (hcap : p'.isHardcapped = p.isHardcapped) (hh : tokensWithdrawn h' = tokensWithdrawn h) :
    bookOf h' s' p' = bookOf h s p := by
  simp only [bookOf, hs, hpool, hcap, hh]

/-- An instruction that rewrites a user record without touching what it bought and paid
leaves the book as it is. -/
theorem bookOf_insert_same {h h' : History} {p p' : PresaleAccount} {k : Pubkey}
    {u u' : UserAccount} (hs : s'.users = s.users.insert k u') (hu : s.users.lookup k = some u)
    (hbuy : u'.userBuyAmount = u.userBuyAmount)
    (hsol : u'.userSolContributed = u.userSolContributed)
    (hpool : p'.totalTokenRemained = p.totalTokenRemained)
    (hcap : p'.isHardcapped = p.isHardcapped) (hh : tokensWithdrawn h' = tokensWithdrawn h) :
    bookOf h' s' p' = bookOf h s p := by
  simp only [bookOf, hs, hpool, hcap, hh, Ledger.keys_insert_of_lookup _ hu,
    Ledger.reading_insert_same _ _ hu hbuy, Ledger.reading_insert_same _ _ hu hsol]

/-- `add_whitelist` enters the new wallet in the book. -/
theorem bookOf_afterAdd {h h' : History} {cx : Context} {a : Whitelist} {p : PresaleAccount}
    (hnew : s.users.lookup (.userRole a.authority) = none)
    (hh : tokensWithdrawn h' = tokensWithdrawn h) :
    bookOf h' (afterAdd cx a s p)
        { p with totalWhitelistedWallets := p.totalWhitelistedWallets + 1 } =
      (bookOf h s p).enter (.userRole a.authority) := by
  have htokens := Ledger.reading_insert_new UserAccount.userBuyAmount (newUser a.authority) hnew rfl
  have hpaid :=
    Ledger.reading_insert_new UserAccount.userSolContributed (newUser a.authority) hnew rfl
  simp only [bookOf, Book.enter, afterAdd, hh, Ledger.keys_insert, htokens, hpaid]

/-- `withdraw_token` closes the book. -/
theorem bookOf_afterWithdrawToken {h h' : History} {a : WithdrawToken} {p : PresaleAccount}
    {v : TokenAccount} (hh : tokensWithdrawn h' = true) :
    bookOf h' (afterWithdrawToken a s p v) { p with totalTokenRemained := 0 } =
      (bookOf h s p).close := by
  simp only [bookOf, Book.close, hh, afterWithdrawToken]

/-- Every step of the program is a move of the book or leaves it as it is. -/
theorem Coherent.book_step (c : Coherent s) (h : Effect s i s' log) (hist : History)
    {p p' : PresaleAccount} (hp : s.presale = some p) (hp' : s'.presale = some p') :
    bookOf (hist ++ [⟨s, i, log⟩]) s' p' = bookOf hist s p ∨
      Book.Step p.presaleRate (bookOf hist s p) (bookOf (hist ++ [⟨s, i, log⟩]) s' p') := by
  have same : ∀ {q : PresaleAccount}, s.presale = some q → q = p :=
    fun hq => Option.mem_unique hq hp
  have hh : withdrawsTokens i = false →
      tokensWithdrawn (hist ++ [⟨s, i, log⟩]) = tokensWithdrawn hist := by
    intro hi
    rw [tokensWithdrawn_snoc, hi, Bool.or_false]
  cases h with
  | initializePresale ok => exact absurd (c.not_launched ok) (by simp [hp])
  | buy ok =>
    obtain rfl := same ok.presale
    obtain rfl := Option.some_injective _ hp'
    right
    rw [bookOf_afterBuy (h := hist) ok (hh rfl)]
    exact .sell (Ledger.mem_keys_of_lookup ok.user)
  | refund ok | cancel ok | update ok | finalizePays ok =>
    obtain rfl := same ok.presale
    obtain rfl := Option.some_injective _ hp'
    exact .inl (bookOf_same rfl rfl rfl (hh rfl))
  | claim ok =>
    obtain rfl := same hp'
    exact .inl (bookOf_insert_same rfl ok.user rfl rfl rfl rfl (hh rfl))
  | @add cx a q ok =>
    obtain rfl := same ok.presale
    obtain rfl := Option.some_injective _ hp'
    have hnew := c.not_listed ok
    rw [bookOf_afterAdd (h := hist) hnew (hh rfl)]
    exact .inr (.enter (Ledger.notMem_keys_of_lookup hnew))
  | remove ok =>
    obtain rfl := same ok.presale
    obtain rfl := Option.some_injective _ hp'
    exact .inl (bookOf_insert_same rfl ok.user rfl rfl rfl rfl (hh rfl))
  | @finalizeCancelled _ _ f _ ok _ =>
    obtain rfl := same ok.presale
    obtain rfl := Option.some_injective _ hp'
    refine .inl (bookOf_same rfl ?_ ?_ (hh rfl)) <;>
    · unfold closed
      split_ifs <;> rfl
  | withdrawToken ok =>
    obtain rfl := same ok.presale
    obtain rfl := Option.some_injective _ hp'
    rw [bookOf_afterWithdrawToken (h := hist) (by simp [withdrawsTokens])]
    exact .inr .close
  | outside ok =>
    obtain rfl := same ((runOutside_frame ok).presale ▸ hp')
    exact .inl (bookOf_same (runOutside_frame ok).users rfl rfl (hh rfl))
  | _ =>
    obtain rfl := same hp'
    exact .inl (bookOf_same rfl rfl rfl (hh rfl))

end Step

/-! ## Every run is a sale -/

/-- Calls that need the presale record do not succeed before there is one. -/
theorem any_eq_false_of_none {s₀ s : State} {h : History} (fresh : Fresh s₀)
    (run : presale.Run s₀ h s) {c : Input → Bool}
    (needs : ∀ s s' i log, Effect s i s' log → s.presale = none → c i = false) :
    s.presale = none → (h.any fun r => c r.input) = false := by
  refine run.invariant (fun h s => s.presale = none → (h.any fun r => c r.input) = false)
    (fun _ => rfl) ?_
  intro h s i s' o hrun ih hstep hnone
  have effect := effect_of_step hstep
  have hs := (coherent_of_run fresh hrun).none_of_step effect hnone
  simp [ih hs, needs s s' i o effect hs]

/-- Before the launch no tokens have been withdrawn. -/
theorem not_withdrawn_of_none {s₀ s : State} {h : History} (fresh : Fresh s₀)
    (run : presale.Run s₀ h s) : s.presale = none → tokensWithdrawn h = false := by
  apply any_eq_false_of_none fresh run
  intro s s' i log effect hs
  cases effect with
  | withdrawToken ok => exact absurd (ok.presale.symm.trans hs) (Option.some_ne_none _)
  | _ => rfl

/-- After `initialize` the book is at its start: the whole supply in the pool, and no
members. -/
theorem bookOf_launch {s₀ s : State} {h : History} (fresh : Fresh s₀)
    (run : presale.Run s₀ h s) {cx : Context} {a : Initialize} {args : InitializeArgs}
    {p : PresaleAccount} (ok : InitializeAccepted cx a args s p) (r : Step)
    (hr : withdrawsTokens r.input = false) :
    bookOf (h ++ [r]) (afterInitialize cx a s p) p = .launch p.totalPresaleToken := by
  have c := coherent_of_run fresh run
  have hnone := c.not_launched ok
  have hclosed := not_withdrawn_of_none fresh run hnone
  obtain ⟨-, -, -, rfl⟩ := initialPresale_eq_ok.mp ok.record
  simp [bookOf, Book.launch, afterInitialize, c.unlaunched hnone, hclosed, hr,
    PresaleAccount.zeroed, Ledger.reading, funext_iff]

/-- The program refines the abstract sale: in every state of every run the records are a book
that a sale with the terms of the record reaches. -/
theorem book_reachable {s₀ s : State} {h : History} (fresh : Fresh s₀)
    (run : presale.Run s₀ h s) {p : PresaleAccount} (hp : s.presale = some p) :
    Book.Reachable p.presaleRate p.totalPresaleToken (bookOf h s p) := by
  refine launched_invariant (fun h s p =>
    Book.Reachable p.presaleRate p.totalPresaleToken (bookOf h s p)) fresh ?_ ?_ run hp
  · intro h s cx a args p hrun _ ok
    rw [bookOf_launch fresh hrun ok _ rfl]
    exact .refl
  · intro h s i s' o p p' hrun effect hp hp' hrecord reached
    have hrate : p'.presaleRate = p.presaleRate := congrArg Terms.presaleRate hrecord.terms_eq
    have hsupply : p'.totalPresaleToken = p.totalPresaleToken :=
      congrArg Terms.totalPresaleToken hrecord.terms_eq
    rw [hrate, hsupply]
    rcases (coherent_of_run fresh hrun).book_step effect h hp hp' with heq | hmove
    · exact heq ▸ reached
    · exact reached.tail hmove

/-- The terms of the sale are those of the one `initialize` call of the run. -/
theorem terms_of_launch {s₀ s : State} {h : History} (fresh : Fresh s₀)
    (run : presale.Run s₀ h s) {args : InitializeArgs} (launched : LaunchedWith args h) :
    ∃ p, s.presale = some p ∧ termsOf p = termsFrom args := by
  obtain ⟨⟨b, i, o⟩, hr, hargs⟩ := launched
  obtain ⟨cx, a, rfl⟩ := eq_of_launchesWith hargs
  obtain ⟨h₁, h₂, rfl⟩ := List.append_of_mem hr
  obtain ⟨m, hrun, hstep, hrest⟩ := run.record
  have start : ∃ p, m.presale = some p ∧ termsOf p = termsFrom args := by
    obtain ⟨p, ok, hout⟩ := initializeHandler_eq_ok.mp hstep
    obtain ⟨rfl, -⟩ := Prod.mk.inj hout
    exact ⟨p, rfl, termsOf_initial ok.record⟩
  refine hrest.invariant (fun _ s => ∃ p, s.presale = some p ∧ termsOf p = termsFrom args)
    start ?_
  rintro h s i s' o hrun' ⟨p, hp, hterms⟩ hstep'
  have c := coherent_of_run fresh ((hrun.next hstep).append hrun')
  obtain ⟨p', hp', hrecord⟩ := c.record_step (effect_of_step hstep') hp
  exact ⟨p', hp', hrecord.terms_eq.trans hterms⟩

end TokenPresale.Analysis
