import TokenPresale.Analysis.Coherence

/-!
# What becomes of a record

A user record is never deleted, never changes its wallet, and its sums only grow. A wallet that
is taken off the whitelist stays off it, and its record stays as it is from then on: no later
call buys or claims for it, and none lists it again. The accounts that hold the records keep the
rent-exempt minimum they were made with, so the end of a transaction never deletes one; and so does
the token vault, as long as the key that holds it does not close it outside the program.
-/

set_option autoImplicit false

namespace TokenPresale.Analysis

open TokenPresale.Library TokenPresale.Model TokenPresale.Interface

/-! ## Growth -/

/-- What can become of a user record. -/
structure Grows (u u' : UserAccount) : Prop where
  publicKey : u'.publicKey = u.publicKey
  bought : u.userBuyAmount ≤ u'.userBuyAmount
  contributed : u.userSolContributed ≤ u'.userSolContributed
  claimed : u'.isClaimed = u.isClaimed ∨ u'.isClaimed = 1
  frozen : u.isWhitelisted = false → u' = u

/-- A record that stays as it is has grown. -/
theorem grows_refl (u : UserAccount) : Grows u u where
  publicKey := rfl
  bought := le_rfl
  contributed := le_rfl
  claimed := .inl rfl
  frozen _ := rfl

/-- Growth upon growth is growth. -/
theorem grows_trans {u v w : UserAccount} (first : Grows u v) (second : Grows v w) :
    Grows u w where
  publicKey := second.publicKey.trans first.publicKey
  bought := first.bought.trans second.bought
  contributed := first.contributed.trans second.contributed
  claimed := by
    rcases second.claimed with hsame | hset
    · rw [hsame]
      exact first.claimed
    · exact .inr hset
  frozen hout := by
    obtain rfl := first.frozen hout
    exact second.frozen hout

/-- An order lets the buyer's record grow, since the buyer is listed. -/
theorem grows_of_buy {cx : Context} {a : BuyToken} {n : ℕ} {s : State} {p : PresaleAccount}
    {u : UserAccount} (ok : BuyAccepted cx a n s p u) (f : Fill) :
    Grows u (userAfterBuy u f) where
  publicKey := rfl
  bought := Nat.le_add_right _ _
  contributed := Nat.le_add_right _ _
  claimed := .inl rfl
  frozen hout := absurd ok.whitelisted (by simp [hout])

/-- A claim lets the claimed record grow, since its wallet is listed. -/
theorem grows_of_claim {cx : Context} {a : ClaimToken} {s : State} {p : PresaleAccount}
    {u : UserAccount} {v t : TokenAccount} (ok : ClaimAccepted cx a s p u v t) :
    Grows u { u with isClaimed := 1 } where
  publicKey := rfl
  bought := le_rfl
  contributed := le_rfl
  claimed := .inr rfl
  frozen hout := absurd ok.whitelisted (by simp [hout])

/-- Removing a wallet twice is removing it once. -/
theorem grows_of_remove (u : UserAccount) : Grows u { u with isWhitelisted := false } where
  publicKey := rfl
  bought := le_rfl
  contributed := le_rfl
  claimed := .inl rfl
  frozen hout := by rw [← hout]

section Step

variable {s s' : State} {i : Input} {log : List LogEntry}

/-- A step keeps every user record, and lets it grow at most. -/
theorem Coherent.records_step (c : Coherent s) (h : Effect s i s' log) {k : Pubkey}
    {u : UserAccount} (hu : s.users.lookup k = some u) :
    ∃ u', s'.users.lookup k = some u' ∧ Grows u u' := by
  have same : ∃ u', s.users.lookup k = some u' ∧ Grows u u' := ⟨u, hu, grows_refl u⟩
  cases h with
  | @buy cx a amount p v ok =>
    exact Ledger.exists_lookup_insert grows_refl ok.user (grows_of_buy ok _) hu
  | claim ok => exact Ledger.exists_lookup_insert grows_refl ok.user (grows_of_claim ok) hu
  | remove ok => exact Ledger.exists_lookup_insert grows_refl ok.user (grows_of_remove _) hu
  | @add cx a p ok =>
    have hne : k ≠ .userRole a.authority := by
      rintro rfl
      rw [c.not_listed ok] at hu
      exact absurd hu (by simp)
    exact ⟨u, (Finmap.lookup_insert_of_ne _ hne).trans hu, grows_refl u⟩
  | outside ok =>
    rw [(runOutside_frame ok).users]
    exact same
  | _ => exact same

end Step

/-- Over a whole run a record stays, and grows at most. -/
theorem records_grow {s₀ s s' : State} {h h' : History} (fresh : Fresh s₀)
    (run : presale.Run s₀ h s) (run' : presale.Run s h' s') {k : Pubkey} {u : UserAccount}
    (hu : s.users.lookup k = some u) : ∃ u', s'.users.lookup k = some u' ∧ Grows u u' := by
  refine (run'.invariant (fun h' s' => presale.Run s h' s' ∧
    ∃ u', s'.users.lookup k = some u' ∧ Grows u u') ?_ ?_).2
  · exact ⟨.start, u, hu, grows_refl u⟩
  · rintro h₁ t i t' o run₁ ⟨-, v, hv, hgrown⟩ hstep
    refine ⟨run₁.next hstep, ?_⟩
    have c := coherent_of_run fresh (run.append run₁)
    obtain ⟨w, hw, hnext⟩ := c.records_step (effect_of_step hstep) hv
    exact ⟨w, hw, grows_trans hgrown hnext⟩

/-! ## Delisting -/

/-- The input buys or claims for the user account at `k`, or makes it. -/
def serves (k : Pubkey) : Input → Bool
  | .instruction _ (.buyToken a _) => a.userAccount = k
  | .instruction _ (.claimToken a) => a.userAccount = k
  | .instruction _ (.addWhitelist a) => a.userAccount = k
  | _ => false

/-- No call serves a wallet that has been taken off the whitelist. -/
theorem Coherent.not_served {s s' : State} {i : Input} {log : List LogEntry} (c : Coherent s)
    (h : Effect s i s' log) {k : Pubkey} {u : UserAccount} (hu : s.users.lookup k = some u)
    (hout : u.isWhitelisted = false) : serves k i = false := by
  have refused : ∀ {v : UserAccount}, s.users.lookup k = some v → v.isWhitelisted ≠ true := by
    intro v hv
    obtain rfl := Option.mem_unique hu hv
    simp [hout]
  cases h with
  | buy ok | claim ok =>
    apply decide_eq_false
    rintro rfl
    exact refused (ok.userAccount ▸ ok.user) ok.whitelisted
  | add ok =>
    apply decide_eq_false
    rintro rfl
    rw [ok.userAccount, c.not_listed ok] at hu
    exact absurd hu (by simp)
  | _ => rfl

/-- Taking a wallet off the whitelist is final. Whatever calls follow, in any order and by any
signers, its record stays exactly as it was, and no call buys for it, claims for it or lists it
again.
SRC: add_whitelist.rs:11-36, remove_whitelist.rs:28-33, buy_token.rs:37-39, claim_token.rs:59-61 -/
theorem delisting_final (e : Execution) (k : Pubkey) (u : UserAccount)
    (hu : e.final.users.lookup k = some u) (hout : u.isWhitelisted = false) (h : History)
    (s : State) (run : presale.Run e.final h s) :
    s.users.lookup k = some u ∧ ∀ r ∈ h, serves k r.input = false := by
  have kept : ∀ {h' : History} {s' : State}, presale.Run e.final h' s' →
      s'.users.lookup k = some u := by
    intro h' s' run'
    obtain ⟨u', hu', hgrown⟩ := records_grow e.fresh e.run run' hu
    rw [hu', hgrown.frozen hout]
  refine ⟨kept run, fun r hr => ?_⟩
  obtain ⟨h₁, h₂, rfl⟩ := List.append_of_mem hr
  obtain ⟨m, run₁, hstep, -⟩ := run.record
  have c := coherent_of_run e.fresh (e.run.append run₁)
  exact c.not_served (effect_of_step hstep) (kept run₁) hout

/-- Alice is taken off the list after her order; her later order and claim change nothing. -/
theorem delisting_final_small_sale :
    (presale.exec (Sample.play (Sample.halfSold ++ [Sample.delist 1])).final
      [Sample.buy 1 10, Sample.list 1, Sample.finalize 1003 1,
        Sample.claim 1 (.key 11)]).2.users.lookup (.userRole (.key 1)) =
          some ⟨false, 30, 10, 0, .key 1⟩ :=
  (delisting_final (Sample.play (Sample.halfSold ++ [Sample.delist 1])) (.userRole (.key 1))
    ⟨false, 30, 10, 0, .key 1⟩ (by decide +kernel) rfl _ _ (presale.run_exec _ _)).1

/-! ## Rent -/

/-- An account that an instruction opens: its owner and the minimum it is topped up to. -/
structure Opened where
  key : Pubkey
  program : ProgramId
  minimum : ℕ

/-- The accounts that an input opens by `init`.
SRC: initialize.rs:14-49, add_whitelist.rs:11-18 -/
def opens : Input → List Opened
  | .instruction cx (.initializePresale a _) =>
    [⟨.tokenVault a.tokenMint, .splToken, cx.rent.minimumBalance tokenAccountSize⟩,
     ⟨.adminRole a.admin, .tokenPresale, cx.rent.minimumBalance adminAccountSize⟩,
     ⟨.escrowVault, .tokenPresale, cx.rent.minimumBalance (8 + 8)⟩,
     ⟨.presaleInfo, .tokenPresale, cx.rent.minimumBalance presaleAccountSize⟩]
  | .instruction cx (.addWhitelist a) =>
    [⟨.userRole a.authority, .tokenPresale, cx.rent.minimumBalance userAccountSize⟩]
  | _ => []

/-- An account that is opened has a derived address, a program and a rent to reach. -/
theorem opens_spec {i : Input} {q : Opened} (hq : q ∈ opens i) :
    q.key.isPda = true ∧ q.program ≠ .system ∧ 0 < q.minimum := by
  have hpos : ∀ (cx : Context) (space : ℕ), 0 < cx.rent.minimumBalance space :=
    fun cx space => Nat.mul_pos (by omega) cx.rent.positive
  unfold opens at hq
  split at hq
  · simp only [List.mem_cons, List.not_mem_nil, or_false] at hq
    rcases hq with rfl | rfl | rfl | rfl
    · exact ⟨rfl, by simp, hpos _ _⟩
    · exact ⟨rfl, by simp, hpos _ _⟩
    · exact ⟨rfl, by simp, hpos _ _⟩
    · exact ⟨rfl, by simp, hpos _ _⟩
  · obtain rfl := List.mem_singleton.mp hq
    exact ⟨rfl, by simp, hpos _ _⟩
  · exact absurd hq (by simp)

/-- The account belongs to its program and holds its minimum. -/
structure RentExempt (s : State) (q : Opened) : Prop where
  owner : s.owner q.key = q.program
  minimum : q.minimum ≤ s.lamports q.key

section Step

variable {s s' : State} {i : Input} {log : List LogEntry}

/-- What a step opens is rent exempt after it. -/
theorem rentExempt_of_opens (h : Effect s i s' log) : ∀ q ∈ opens i, RentExempt s' q := by
  intro q hq
  cases h with
  | @initializePresale cx a args p ok =>
    simp only [opens, List.mem_cons, List.not_mem_nil, or_false] at hq
    have paid : ∀ x ∈ initFunding cx a s,
        (afterInitialize cx a s p).lamports x.1 = s.lamports x.1 + x.2 := fun x => ok.lamports
    simp only [initFunding, List.mem_cons, List.not_mem_nil, or_false, forall_eq_or_imp,
      forall_eq] at paid
    obtain ⟨hv, ha, he, hp⟩ := paid
    rcases hq with rfl | rfl | rfl | rfl
    · exact ⟨by simp [afterInitialize], by rw [hv]; exact le_add_tsub⟩
    · exact ⟨by simp [afterInitialize], by rw [ha]; exact le_add_tsub⟩
    · exact ⟨by simp [afterInitialize], by rw [he]; exact le_add_tsub⟩
    · exact ⟨by simp [afterInitialize], by rw [hp]; exact le_add_tsub⟩
  | @add cx a p ok =>
    obtain rfl := List.mem_singleton.mp hq
    have hne : a.admin ≠ .userRole a.authority := ne_of_signed ok.signed rfl
    refine ⟨by simp [afterAdd], ?_⟩
    simp only [afterAdd, move_dst _ hne, whitelistFunding]
    omega
  | _ => exact absurd hq (by simp [opens])

/-- A rent-exempt account other than the escrow stays so. -/
theorem RentExempt.step (h : Effect s i s' log) {q : Opened} (exempt : RentExempt s q)
    {j : Input} (hq : q ∈ opens j) (hesc : q.key ≠ .escrowVault) : RentExempt s' q := by
  obtain ⟨hpda, hprog, hpos⟩ := opens_spec hq
  have live : Alive s q.key q.program := ⟨exempt.owner, hpos.trans_le exempt.minimum⟩
  exact ⟨(live.step h hprog hpda hesc).owner, exempt.minimum.trans (h.lamports_le hpda hesc)⟩

end Step

/-- Every account that the program has opened, the escrow apart, still belongs to the program it was
made for and holds the rent-exempt minimum it was made with, in every state of every run. So no
record is ever deleted, and no vault either, as the key that holds it is taken to make no move on it
outside the program (`Outside`).
SRC: initialize.rs:14-49, add_whitelist.rs:11-18 -/
theorem rent_exemption_kept (e : Execution) :
    ∀ r ∈ e.history, ∀ q ∈ opens r.input, q.key ≠ .escrowVault → RentExempt e.final q := by
  refine e.run.invariant (fun h s => ∀ r ∈ h, ∀ q ∈ opens r.input, q.key ≠ .escrowVault →
    RentExempt s q) ?_ ?_
  · intro r hr
    exact absurd hr (by simp)
  · intro h s i s' o _ ih hstep r hr q hq hesc
    have effect := effect_of_step hstep
    rcases List.mem_append.mp hr with hold | hnew
    · exact (ih r hold q hq hesc).step effect hq hesc
    · obtain rfl := List.mem_singleton.mp hnew
      exact rentExempt_of_opens effect q hq

/-- Alice's record keeps its minimum through the whole small sale. -/
theorem rent_exemption_small_sale :
    ∃ r ∈ (Sample.play (Sample.halfSold ++ [Sample.cancel, Sample.refund 1 (.key 1)])).history,
      ∃ q ∈ opens r.input, q.key = .userRole (.key 1) ∧
        RentExempt (Sample.play (Sample.halfSold ++
          [Sample.cancel, Sample.refund 1 (.key 1)])).final q := by
  have hopened : ∃ r ∈ (Sample.play (Sample.halfSold ++
      [Sample.cancel, Sample.refund 1 (.key 1)])).history,
        ∃ q ∈ opens r.input, q.key = .userRole (.key 1) := by
    have hlisted : ∃ i ∈ (Sample.play (Sample.halfSold ++
        [Sample.cancel, Sample.refund 1 (.key 1)])).history.map Record.input,
          (opens i).any (fun q => q.key = .userRole (.key 1)) = true := by decide +kernel
    obtain ⟨i, hi, hany⟩ := hlisted
    obtain ⟨r, hr, rfl⟩ := List.mem_map.mp hi
    obtain ⟨q, hq, hkey⟩ := List.any_eq_true.mp hany
    exact ⟨r, hr, q, hq, of_decide_eq_true hkey⟩
  obtain ⟨r, hr, q, hq, hkey⟩ := hopened
  exact ⟨r, hr, q, hq, hkey, rent_exemption_kept _ r hr q hq (by rw [hkey]; simp)⟩

end TokenPresale.Analysis
