import TokenPresale.Interface.Effects
import TokenPresale.Model.Accounts

/-!
# An instruction sees and writes the accounts it names

A handler reads the chain only at the accounts of its `Accounts` structure and changes it only at
those that the structure declares writable: two states that agree on the accounts named are
taken to states that agree there (`local_of_ok`), and everything else stays as it was
(`frame_of_ok`).
-/

set_option autoImplicit false

namespace TokenPresale.Interface

open TokenPresale.Library TokenPresale.Model

/-- Two states agree on the accounts named. -/
structure Agree (named : List Pubkey) (s t : State) : Prop where
  lamports : ∀ k, k ∈ named → s.lamports k = t.lamports k
  owner : ∀ k, k ∈ named → s.owner k = t.owner k
  mints : ∀ k, k ∈ named → s.mints k = t.mints k
  tokens : ∀ k, k ∈ named → s.tokens k = t.tokens k
  admins : ∀ k, k ∈ named → s.admins k = t.admins k
  users : ∀ k, k ∈ named → s.users.lookup k = t.users.lookup k
  presale : .presaleInfo ∈ named → s.presale = t.presale

/-- Nothing but the accounts named has changed. -/
structure Frame (named : List Pubkey) (s s' : State) : Prop where
  lamports : ∀ k, k ∉ named → s'.lamports k = s.lamports k
  owner : ∀ k, k ∉ named → s'.owner k = s.owner k
  mints : s'.mints = s.mints
  tokens : ∀ k, k ∉ named → s'.tokens k = s.tokens k
  admins : ∀ k, k ∉ named → s'.admins k = s.admins k
  users : ∀ k, k ∉ named → s'.users.lookup k = s.users.lookup k
  presale : .presaleInfo ∉ named → s'.presale = s.presale

/-- Agreement does not depend on the order of the two states. -/
theorem Agree.symm {named : List Pubkey} {s t : State} (agree : Agree named s t) :
    Agree named t s where
  lamports k hk := (agree.lamports k hk).symm
  owner k hk := (agree.owner k hk).symm
  mints k hk := (agree.mints k hk).symm
  tokens k hk := (agree.tokens k hk).symm
  admins k hk := (agree.admins k hk).symm
  users k hk := (agree.users k hk).symm
  presale hk := (agree.presale hk).symm

/-! ## What is read -/

section Reads

variable {named : List Pubkey} {s t : State}

/-- Two ledgers that agree where `P` holds still agree there with the same record stored in both. -/
theorem lookup_insert_congr {P : Pubkey → Prop} {m m' : Ledger Pubkey UserAccount} {x : Pubkey}
    {u : UserAccount} (h : ∀ k, P k → m.lookup k = m'.lookup k) :
    ∀ k, P k → Finmap.lookup k (m.insert x u) = Finmap.lookup k (m'.insert x u) := by
  intro k hk
  rcases eq_or_ne k x with rfl | hne
  · rw [Finmap.lookup_insert, Finmap.lookup_insert]
  · rw [Finmap.lookup_insert_of_ne m hne, Finmap.lookup_insert_of_ne m' hne, h k hk]

/-- The admin's checks pass alike on two states that agree on the accounts read. -/
theorem AdminCall.congr (agree : Agree named s t) {cx : Context} {k a admin : Pubkey}
    {p : PresaleAccount} (call : AdminCall cx k a admin s p) (hk : k ∈ named) (ha : a ∈ named) :
    AdminCall cx k a admin t p where
  presaleAccount := call.presaleAccount
  presale := by rw [← agree.presale (call.presaleAccount ▸ hk), call.presale]
  record := by rw [← agree.admins a ha, call.record]
  signed := call.signed

/-- The same move of lamports, out of the escrow or out of a payer, on two states that agree. -/
theorem Agree.pay (agree : Agree named s t) {src dst : Pubkey} {m n : ℕ} (hs : src ∈ named)
    (hd : dst ∈ named) (hn : m = n) :
    Agree named { s with lamports := move s.lamports src dst m }
      { t with lamports := move t.lamports src dst n } :=
  { agree with lamports := move_congr agree.lamports hs hd hn }

/-- The same move of tokens on two states that agree. -/
theorem Agree.transfer (agree : Agree named s t) {src dst : Pubkey} {m n : ℕ} (hs : src ∈ named)
    (hd : dst ∈ named) (hn : m = n) :
    Agree named { s with tokens := moveTokens s.tokens src dst m }
      { t with tokens := moveTokens t.tokens src dst n } :=
  { agree with tokens := moveTokens_congr agree.tokens hs hd hn }

/-- The same presale record written to two states that agree. -/
theorem Agree.setPresale (agree : Agree named s t) (p : Option PresaleAccount) :
    Agree named { s with presale := p } { t with presale := p } :=
  { agree with presale := fun _ => rfl }

/-- The same user record written to two states that agree. -/
theorem Agree.setUser (agree : Agree named s t) (k : Pubkey) (u : UserAccount) :
    Agree named { s with users := s.users.insert k u } { t with users := t.users.insert k u } :=
  { agree with users := lookup_insert_congr agree.users }

end Reads

/-- The four accounts `initialize` makes are paid for alike. -/
theorem initFunding_congr {cx : Context} {a : Initialize} {s t : State}
    (h : ∀ k ∈ [.tokenVault a.tokenMint, .adminRole a.admin, .escrowVault, .presaleInfo],
      s.lamports k = t.lamports k) : initFunding cx a s = initFunding cx a t := by
  simp only [List.mem_cons, List.not_mem_nil, or_false, forall_eq_or_imp, forall_eq] at h
  obtain ⟨hv, ha, he, hp⟩ := h
  simp only [initFunding, hv, ha, he, hp]

/-- The accounts that `initialize` funds are the four it makes. -/
theorem mem_initFunding {cx : Context} {a : Initialize} {s : State} {k : Pubkey} :
    k ∈ (initFunding cx a s).map Prod.fst ↔
      k ∈ [.tokenVault a.tokenMint, .adminRole a.admin, .escrowVault, .presaleInfo] := by
  simp [initFunding]

/-! ## An instruction reads the accounts it names -/

section Local

variable {s t s' : State} {cx : Context} {log : List LogEntry}

/-- `i` succeeds from `t` too, with the same log, and leaves a state that agrees with `s'`. -/
def SucceedsAlike (cx : Context) (i : Instruction) (t s' : State) (log : List LogEntry) : Prop :=
  ∃ t', runInstruction cx t i = .ok (t', log) ∧ Agree i.accounts s' t'

/-- `initialize` succeeds alike on states that agree on its accounts. -/
theorem initialize_local {a : Initialize} {args : InitializeArgs} {p : PresaleAccount}
    (agree : Agree (Instruction.initializePresale a args).accounts s t)
    (ok : InitializeAccepted cx a args s p) :
    SucceedsAlike cx (.initializePresale a args) t (afterInitialize cx a s p)
      (initializeLog cx a s) := by
  have hnamed : ∀ k ∈ [.tokenVault a.tokenMint, .adminRole a.admin, .escrowVault, .presaleInfo],
      k ∈ (Instruction.initializePresale a args).accounts := by
    simp [Instruction.accounts, Instruction.writable, ok.tokenVault, ok.adminAccount,
      ok.escrowAccount, ok.presaleAccount]
  have hmint : a.tokenMint ∈ (Instruction.initializePresale a args).accounts := by
    simp [Instruction.accounts, Instruction.writable]
  have hadmin : a.admin ∈ (Instruction.initializePresale a args).accounts := by
    simp [Instruction.accounts, Instruction.writable]
  have hfunding : initFunding cx a s = initFunding cx a t :=
    initFunding_congr fun k hk => agree.lamports k (hnamed k hk)
  have accepted : InitializeAccepted cx a args t p :=
    { ok with
      mint := by rw [← agree.mints _ hmint, ok.mint]
      vaultUnused := by rw [← agree.owner _ (hnamed _ (by simp)), ok.vaultUnused]
      adminUnused := by rw [← agree.owner _ (hnamed _ (by simp)), ok.adminUnused]
      escrowUnused := by rw [← agree.owner _ (hnamed _ (by simp)), ok.escrowUnused]
      presaleUnused := by rw [← agree.owner _ (hnamed _ (by simp)), ok.presaleUnused]
      payer := by
        rw [← hfunding, ← agree.lamports _ hadmin]
        exact ok.payer
      credit := by
        intro q hq
        rw [← hfunding] at hq
        rw [← agree.lamports _ (hnamed _ (mem_initFunding.mp (List.mem_map_of_mem hq)))]
        exact ok.credit q hq }
  refine ⟨afterInitialize cx a t p, ?_, ?_⟩
  · rw [initializeLog, hfunding]
    exact initializeHandler_eq_ok.mpr ⟨p, accepted, rfl⟩
  · refine { agree with lamports := ?_, owner := ?_, tokens := ?_, admins := ?_, presale := ?_ }
    · simp only [afterInitialize, hfunding]
      apply disburse_congr agree.lamports hadmin
      exact fun q hq => hnamed _ (mem_initFunding.mp (List.mem_map_of_mem hq))
    · exact update_congr _ (update_congr _ (update_congr _ (update_congr _ agree.owner rfl) rfl)
        rfl) rfl
    · exact update_congr _ agree.tokens rfl
    · exact update_congr _ agree.admins rfl
    · exact fun _ => rfl

/-- `buy_token` succeeds alike on states that agree on its accounts. -/
theorem buy_local {a : BuyToken} {amount : UInt64} {p : PresaleAccount} {u : UserAccount}
    (agree : Agree (Instruction.buyToken a amount).accounts s t)
    (ok : BuyAccepted cx a amount.toNat s p u) :
    SucceedsAlike cx (.buyToken a amount) t (afterBuy a amount.toNat s p u)
      (buyLog cx a amount.toNat p) := by
  have hescrow : .escrowVault ∈ (Instruction.buyToken a amount).accounts := by
    simp [Instruction.accounts, Instruction.writable, ok.escrowAccount]
  have hpresale : .presaleInfo ∈ (Instruction.buyToken a amount).accounts := by
    simp [Instruction.accounts, Instruction.writable, ok.presaleAccount]
  have huser : .userRole a.authority ∈ (Instruction.buyToken a amount).accounts := by
    simp [Instruction.accounts, Instruction.writable, ok.userAccount]
  have hbuyer : a.authority ∈ (Instruction.buyToken a amount).accounts := by
    simp [Instruction.accounts, Instruction.writable]
  have accepted : BuyAccepted cx a amount.toNat t p u :=
    { ok with
      presale := by rw [← agree.presale hpresale, ok.presale]
      user := by rw [← agree.users _ huser, ok.user]
      funded := by
        rw [← agree.lamports _ hbuyer]
        exact ok.funded
      credit := by
        rw [← agree.lamports _ hescrow]
        exact ok.credit }
  refine ⟨afterBuy a amount.toNat t p u, buyTokenHandler_eq_ok.mpr ⟨p, u, accepted, rfl⟩, ?_⟩
  exact ((agree.pay hbuyer hescrow rfl).setPresale _).setUser _ _

/-- `refund_token` succeeds alike on states that agree on its accounts. -/
theorem refund_local {a : RefundToken}
    (agree : Agree (Instruction.refundToken a).accounts s t)
    (h : refundTokenHandler cx a s = .ok (s', log)) :
    SucceedsAlike cx (.refundToken a) t s' log := by
  have huser : a.userAccount ∈ (Instruction.refundToken a).accounts := by
    simp [Instruction.accounts, Instruction.writable]
  have hpayee : a.userToRefund ∈ (Instruction.refundToken a).accounts := by
    simp [Instruction.accounts, Instruction.writable]
  have accepted : ∀ {p u}, RefundAccepted cx a s p u → RefundAccepted cx a t p u ∧
      .escrowVault ∈ (Instruction.refundToken a).accounts := by
    intro p u ok
    have hpresale : .presaleInfo ∈ (Instruction.refundToken a).accounts := by
      simp [Instruction.accounts, Instruction.writable, ok.presaleAccount]
    refine ⟨{ ok with presale := ?_, user := ?_ }, ?_⟩
    · rw [← agree.presale hpresale, ok.presale]
    · rw [← agree.users _ huser, ok.user]
    · simp [Instruction.accounts, Instruction.writable, ok.escrowAccount]
  rcases refundTokenHandler_eq_ok.mp h with ⟨p, u, ok, hzero, hout⟩ | ⟨p, u, ok, hout⟩
  · obtain ⟨rfl, rfl⟩ := Prod.mk.inj hout
    exact ⟨t, refundTokenHandler_eq_ok.mpr (.inl ⟨p, u, (accepted ok).1, hzero, rfl⟩), agree⟩
  · obtain ⟨rfl, rfl⟩ := Prod.mk.inj hout
    obtain ⟨ok', hescrow⟩ := accepted ok.toRefundAccepted
    have pays : RefundPays cx a t p u :=
      { ok with
        toRefundAccepted := ok'
        funded := by
          rw [← agree.lamports _ hescrow]
          exact ok.funded
        credit := by
          rw [← move_congr agree.lamports hescrow hpayee rfl _ hpayee]
          exact ok.credit
        owned := by
          rw [← agree.owner _ hescrow]
          exact ok.owned }
    refine ⟨afterRefund a t p u, refundTokenHandler_eq_ok.mpr (.inr ⟨p, u, pays, rfl⟩), ?_⟩
    exact (agree.pay hescrow hpayee rfl).setPresale _

/-- `claim_token` succeeds alike on states that agree on its accounts. -/
theorem claim_local {a : ClaimToken} {p : PresaleAccount} {u : UserAccount}
    {v d : TokenAccount} (agree : Agree (Instruction.claimToken a).accounts s t)
    (ok : ClaimAccepted cx a s p u v d) :
    SucceedsAlike cx (.claimToken a) t (afterClaim a s u) (claimLog cx a u) := by
  have hmint : a.tokenMint ∈ (Instruction.claimToken a).accounts := by
    simp [Instruction.accounts, Instruction.writable]
  have hto : a.tokenTo ∈ (Instruction.claimToken a).accounts := by
    simp [Instruction.accounts, Instruction.writable]
  have hvault : .tokenVault a.tokenMint ∈ (Instruction.claimToken a).accounts := by
    simp [Instruction.accounts, Instruction.writable, ok.tokenVault]
  have hpresale : .presaleInfo ∈ (Instruction.claimToken a).accounts := by
    simp [Instruction.accounts, Instruction.writable, ok.presaleAccount]
  have huser : .userRole a.userTo ∈ (Instruction.claimToken a).accounts := by
    simp [Instruction.accounts, Instruction.writable, ok.userAccount]
  have accepted : ClaimAccepted cx a t p u v d :=
    { ok with
      mint := by rw [← agree.mints _ hmint, ok.mint]
      tokenTo := by rw [← agree.tokens _ hto, ok.tokenTo]
      vault := by rw [← agree.tokens _ hvault, ok.vault]
      presale := by rw [← agree.presale hpresale, ok.presale]
      user := by rw [← agree.users _ huser, ok.user] }
  refine ⟨afterClaim a t u, claimTokenHandler_eq_ok.mpr ⟨p, u, v, d, accepted, rfl⟩, ?_⟩
  exact (agree.transfer hvault hto rfl).setUser _ _

/-- The two accounts that an admin's call reads are among those it names. -/
theorem adminOnly_mem {a : AdminOnly} {i : Instruction}
    (hi : i.accounts = [a.presaleAccount, a.adminAccount, a.admin]) :
    a.presaleAccount ∈ i.accounts ∧ a.adminAccount ∈ i.accounts := by
  simp [hi]

/-- `add_whitelist` succeeds alike on states that agree on its accounts. -/
theorem add_local {a : Whitelist} {p : PresaleAccount}
    (agree : Agree (Instruction.addWhitelist a).accounts s t) (ok : AddAccepted cx a s p) :
    SucceedsAlike cx (.addWhitelist a) t (afterAdd cx a s p)
      [.lamports a.admin (.userRole a.authority) (whitelistFunding cx a s)] := by
  have huser : .userRole a.authority ∈ (Instruction.addWhitelist a).accounts := by
    simp [Instruction.accounts, Instruction.writable, ok.userAccount]
  have hadmin : a.admin ∈ (Instruction.addWhitelist a).accounts := by
    simp [Instruction.accounts, Instruction.writable]
  have hfunding : whitelistFunding cx a s = whitelistFunding cx a t := by
    rw [whitelistFunding, whitelistFunding, agree.lamports _ huser]
  have accepted : AddAccepted cx a t p :=
    { ok with
      toAdminCall := AdminCall.congr agree ok.toAdminCall
        (by simp [Instruction.accounts, Instruction.writable])
        (by simp [Instruction.accounts, Instruction.writable])
      unused := by rw [← agree.owner _ huser, ok.unused]
      payer := by
        rw [← hfunding, ← agree.lamports _ hadmin]
        exact ok.payer
      credit := by
        rw [← hfunding, ← agree.lamports _ huser]
        exact ok.credit }
  refine ⟨afterAdd cx a t p, ?_, ?_⟩
  · rw [hfunding]
    exact addWhitelistHandler_eq_ok.mpr ⟨p, accepted, rfl⟩
  · refine { ((agree.pay hadmin huser hfunding).setPresale _).setUser _ _ with owner := ?_ }
    exact update_congr _ agree.owner rfl

/-- `remove_whitelist` succeeds alike on states that agree on its accounts. -/
theorem remove_local {a : Whitelist} {p : PresaleAccount} {u : UserAccount}
    (agree : Agree (Instruction.removeWhitelist a).accounts s t)
    (ok : RemoveAccepted cx a s p u) :
    SucceedsAlike cx (.removeWhitelist a) t (afterRemove a s p u) [] := by
  have huser : .userRole a.authority ∈ (Instruction.removeWhitelist a).accounts := by
    simp [Instruction.accounts, Instruction.writable, ok.userAccount]
  have accepted : RemoveAccepted cx a t p u :=
    { ok with
      toAdminCall := AdminCall.congr agree ok.toAdminCall
        (by simp [Instruction.accounts, Instruction.writable])
        (by simp [Instruction.accounts, Instruction.writable])
      user := by rw [← agree.users _ huser, ok.user] }
  refine ⟨afterRemove a t p u, removeWhitelistHandler_eq_ok.mpr ⟨p, u, accepted, rfl⟩, ?_⟩
  have written := agree.setPresale
    (some { p with totalWhitelistedWallets := p.totalWhitelistedWallets - 1 })
  exact written.setUser (.userRole a.authority) { u with isWhitelisted := false }

/-- `finalize` succeeds alike on states that agree on its accounts, paying the team or not. -/
theorem finalize_local {a : Finalize} {f : UInt8}
    (agree : Agree (Instruction.finalize a f).accounts s t)
    (h : finalizeHandler cx a f s = .ok (s', log)) :
    SucceedsAlike cx (.finalize a f) t s' log := by
  have hteam : a.teamAccount ∈ (Instruction.finalize a f).accounts := by
    simp [Instruction.accounts, Instruction.writable]
  have accepted : ∀ {p}, FinalizeAccepted cx a f s p → FinalizeAccepted cx a f t p ∧
      .escrowVault ∈ (Instruction.finalize a f).accounts := by
    intro p ok
    refine ⟨{ ok with toAdminCall := AdminCall.congr agree ok.toAdminCall ?_ ?_ }, ?_⟩
    · simp [Instruction.accounts, Instruction.writable]
    · simp [Instruction.accounts, Instruction.writable]
    · simp [Instruction.accounts, Instruction.writable, ok.escrowAccount]
  rcases finalizeHandler_eq_ok.mp h with ⟨p, ok, hout⟩ | ⟨p, ok, hcan, hout⟩
  · obtain ⟨rfl, rfl⟩ := Prod.mk.inj hout
    obtain ⟨ok', hescrow⟩ := accepted ok.toFinalizeAccepted
    have moved := move_congr (n := teamShare p) agree.lamports hescrow hteam rfl
    have pays : FinalizePays cx a f t p :=
      { ok with
        toFinalizeAccepted := ok'
        funded := by
          rw [← agree.lamports _ hescrow]
          exact ok.funded
        credit := by
          rw [← moved _ hteam]
          exact ok.credit
        owned := by
          rw [← moved _ hescrow, ← agree.lamports _ hescrow, ← agree.owner _ hescrow]
          exact ok.owned }
    refine ⟨afterFinalize a t p, finalizeHandler_eq_ok.mpr (.inl ⟨p, pays, rfl⟩), ?_⟩
    exact (agree.pay hescrow hteam rfl).setPresale _
  · obtain ⟨rfl, rfl⟩ := Prod.mk.inj hout
    exact ⟨_, finalizeHandler_eq_ok.mpr (.inr ⟨p, (accepted ok).1, hcan, rfl⟩),
      agree.setPresale _⟩

/-- `deposit_token` succeeds alike on states that agree on its accounts. -/
theorem deposit_local {a : DepositToken} {mint : Pubkey} {amount : UInt64} {p : PresaleAccount}
    {f v : TokenAccount} (agree : Agree (Instruction.depositToken a mint amount).accounts s t)
    (ok : DepositAccepted cx a mint amount.toNat s p f v) :
    SucceedsAlike cx (.depositToken a mint amount) t
      { s with tokens := moveTokens s.tokens a.tokenFrom (.tokenVault a.tokenMint) amount.toNat }
      [.tokens a.tokenFrom (.tokenVault a.tokenMint) amount.toNat] := by
  have hmint : a.tokenMint ∈ (Instruction.depositToken a mint amount).accounts := by
    simp [Instruction.accounts, Instruction.readOnly]
  have hfrom : a.tokenFrom ∈ (Instruction.depositToken a mint amount).accounts := by
    simp [Instruction.accounts, Instruction.writable]
  have hvault : .tokenVault a.tokenMint ∈
      (Instruction.depositToken a mint amount).accounts := by
    simp [Instruction.accounts, Instruction.writable, ok.tokenVault]
  have accepted : DepositAccepted cx a mint amount.toNat t p f v :=
    { ok with
      toAdminCall := AdminCall.congr agree ok.toAdminCall
        (by simp [Instruction.accounts, Instruction.writable])
        (by simp [Instruction.accounts, Instruction.writable])
      mintExists := by rw [← agree.mints _ hmint, ok.mintExists]
      tokenFrom := by rw [← agree.tokens _ hfrom, ok.tokenFrom]
      vault := by rw [← agree.tokens _ hvault, ok.vault] }
  exact ⟨_, depositTokenHandler_eq_ok.mpr ⟨p, f, v, accepted, rfl⟩,
    agree.transfer hfrom hvault rfl⟩

/-- `withdraw_token` succeeds alike on states that agree on its accounts. -/
theorem withdrawToken_local {a : WithdrawToken} {p : PresaleAccount} {v d : TokenAccount}
    (agree : Agree (Instruction.withdrawToken a).accounts s t)
    (ok : WithdrawTokenAccepted cx a s p v d) :
    SucceedsAlike cx (.withdrawToken a) t (afterWithdrawToken a s p v)
      [.tokens (.tokenVault a.tokenMint) a.tokenTo v.amount] := by
  have hmint : a.tokenMint ∈ (Instruction.withdrawToken a).accounts := by
    simp [Instruction.accounts, Instruction.writable]
  have hto : a.tokenTo ∈ (Instruction.withdrawToken a).accounts := by
    simp [Instruction.accounts, Instruction.writable]
  have hvault : .tokenVault a.tokenMint ∈ (Instruction.withdrawToken a).accounts := by
    simp [Instruction.accounts, Instruction.writable, ok.tokenVault]
  have accepted : WithdrawTokenAccepted cx a t p v d :=
    { ok with
      toAdminCall := AdminCall.congr agree ok.toAdminCall
        (by simp [Instruction.accounts, Instruction.writable])
        (by simp [Instruction.accounts, Instruction.writable])
      mint := by rw [← agree.mints _ hmint, ok.mint]
      tokenTo := by rw [← agree.tokens _ hto, ok.tokenTo]
      vault := by rw [← agree.tokens _ hvault, ok.vault] }
  refine ⟨afterWithdrawToken a t p v,
    withdrawTokenHandler_eq_ok.mpr ⟨p, v, d, accepted, rfl⟩, ?_⟩
  exact (agree.transfer hvault hto rfl).setPresale _

/-- `withdraw` succeeds alike on states that agree on its accounts. -/
theorem withdraw_local {a : Withdraw} {p : PresaleAccount}
    (agree : Agree (Instruction.withdraw a).accounts s t) (ok : WithdrawAccepted cx a s p) :
    SucceedsAlike cx (.withdraw a) t (afterWithdraw a s)
      [.lamports .escrowVault a.admin (s.lamports .escrowVault)] := by
  have hescrow : .escrowVault ∈ (Instruction.withdraw a).accounts := by
    simp [Instruction.accounts, Instruction.writable, ok.escrowAccount]
  have hadmin : a.admin ∈ (Instruction.withdraw a).accounts := by
    simp [Instruction.accounts, Instruction.writable]
  have hbalance := agree.lamports _ hescrow
  have accepted : WithdrawAccepted cx a t p :=
    { ok with
      toAdminCall := AdminCall.congr agree ok.toAdminCall
        (by simp [Instruction.accounts, Instruction.writable])
        (by simp [Instruction.accounts, Instruction.writable])
      credit := by
        rw [← agree.lamports _ hadmin, ← hbalance]
        exact ok.credit
      owned := by
        rw [← hbalance, ← agree.owner _ hescrow]
        exact ok.owned }
  refine ⟨afterWithdraw a t, ?_, agree.pay hescrow hadmin hbalance⟩
  rw [hbalance]
  exact withdrawHandler_eq_ok.mpr ⟨p, accepted, rfl⟩

/-- Locality: an instruction that succeeds does so, with the same log and the same effect on the
accounts it names, from every state that agrees on these accounts. -/
theorem local_of_ok {i : Instruction} (agree : Agree i.accounts s t)
    (h : runInstruction cx s i = .ok (s', log)) : SucceedsAlike cx i t s' log := by
  cases i with
  | initializePresale a args =>
    obtain ⟨p, ok, hout⟩ := initializeHandler_eq_ok.mp h
    obtain ⟨rfl, rfl⟩ := Prod.mk.inj hout
    exact initialize_local agree ok
  | buyToken a amount =>
    obtain ⟨p, u, ok, hout⟩ := buyTokenHandler_eq_ok.mp h
    obtain ⟨rfl, rfl⟩ := Prod.mk.inj hout
    exact buy_local agree ok
  | refundToken a => exact refund_local agree h
  | claimToken a =>
    obtain ⟨p, u, v, d, ok, hout⟩ := claimTokenHandler_eq_ok.mp h
    obtain ⟨rfl, rfl⟩ := Prod.mk.inj hout
    exact claim_local agree ok
  | cancelPresale a =>
    obtain ⟨p, ok, hout⟩ := cancelPresaleHandler_eq_ok.mp h
    obtain ⟨rfl, rfl⟩ := Prod.mk.inj hout
    obtain ⟨hpresale, hadmin⟩ := adminOnly_mem (a := a) (i := .cancelPresale a) rfl
    exact ⟨_, cancelPresaleHandler_eq_ok.mpr ⟨p, AdminCall.congr agree ok hpresale hadmin, rfl⟩,
      agree.setPresale _⟩
  | updatePresaleDetails a startTime endTime =>
    obtain ⟨p, ok, hend, hstart, hout⟩ := updatePresaleDetailsHandler_eq_ok.mp h
    obtain ⟨rfl, rfl⟩ := Prod.mk.inj hout
    obtain ⟨hpresale, hadmin⟩ :=
      adminOnly_mem (a := a) (i := .updatePresaleDetails a startTime endTime) rfl
    exact ⟨_, updatePresaleDetailsHandler_eq_ok.mpr
      ⟨p, AdminCall.congr agree ok hpresale hadmin, hend, hstart, rfl⟩, agree.setPresale _⟩
  | addWhitelist a =>
    obtain ⟨p, ok, hout⟩ := addWhitelistHandler_eq_ok.mp h
    obtain ⟨rfl, rfl⟩ := Prod.mk.inj hout
    exact add_local agree ok
  | removeWhitelist a =>
    obtain ⟨p, u, ok, hout⟩ := removeWhitelistHandler_eq_ok.mp h
    obtain ⟨rfl, rfl⟩ := Prod.mk.inj hout
    exact remove_local agree ok
  | finalize a f => exact finalize_local agree h
  | depositToken a mint amount =>
    obtain ⟨p, f, v, ok, hout⟩ := depositTokenHandler_eq_ok.mp h
    obtain ⟨rfl, rfl⟩ := Prod.mk.inj hout
    exact deposit_local agree ok
  | withdrawToken a =>
    obtain ⟨p, v, d, ok, hout⟩ := withdrawTokenHandler_eq_ok.mp h
    obtain ⟨rfl, rfl⟩ := Prod.mk.inj hout
    exact withdrawToken_local agree ok
  | withdraw a =>
    obtain ⟨p, ok, hout⟩ := withdrawHandler_eq_ok.mp h
    obtain ⟨rfl, rfl⟩ := Prod.mk.inj hout
    exact withdraw_local agree ok

/-- The outcome is the same from every state that agrees: success with the same log, and success
from one only if from the other. -/
theorem ok_iff_of_agree {i : Instruction} (agree : Agree i.accounts s t) :
    (∃ s', runInstruction cx s i = .ok (s', log)) ↔
      ∃ t', runInstruction cx t i = .ok (t', log) := by
  constructor
  · rintro ⟨s', h⟩
    obtain ⟨t', h', -⟩ := local_of_ok agree h
    exact ⟨t', h'⟩
  · rintro ⟨t', h⟩
    obtain ⟨s', h', -⟩ := local_of_ok agree.symm h
    exact ⟨s', h'⟩

end Local

/-! ## An instruction writes the writable accounts -/

section Writes

variable {named : List Pubkey} {s₀ s s' : State} {cx : Context} {log : List LogEntry}

/-- Doing nothing changes nothing. -/
theorem Frame.refl (named : List Pubkey) (s : State) : Frame named s s where
  lamports _ _ := rfl
  owner _ _ := rfl
  mints := rfl
  tokens _ _ := rfl
  admins _ _ := rfl
  users _ _ := rfl
  presale _ := rfl

/-- A key outside a list differs from every key on it. -/
theorem ne_of_notMem {x k : Pubkey} (hx : x ∈ named) (hk : k ∉ named) : k ≠ x := by
  rintro rfl
  exact hk hx

/-- A payment between accounts that are named changes nothing else. -/
theorem Frame.pay (frame : Frame named s₀ s) {src dst : Pubkey} (n : ℕ) (hs : src ∈ named)
    (hd : dst ∈ named) :
    Frame named s₀ { s with lamports := move s.lamports src dst n } :=
  { frame with
    lamports := by
      intro k hk
      exact (move_other _ n (ne_of_notMem hs hk) (ne_of_notMem hd hk)).trans
        (frame.lamports k hk) }

/-- A token transfer between accounts that are named changes nothing else. -/
theorem Frame.transfer (frame : Frame named s₀ s) {src dst : Pubkey} (n : ℕ) (hs : src ∈ named)
    (hd : dst ∈ named) :
    Frame named s₀ { s with tokens := moveTokens s.tokens src dst n } :=
  { frame with
    tokens := by
      intro k hk
      exact (moveTokens_other _ n (ne_of_notMem hs hk) (ne_of_notMem hd hk)).trans
        (frame.tokens k hk) }

/-- Writing the presale record changes nothing else, when its address is named. -/
theorem Frame.setPresale (frame : Frame named s₀ s) (p : Option PresaleAccount)
    (hk : .presaleInfo ∈ named) : Frame named s₀ { s with presale := p } :=
  { frame with presale := fun hno => absurd hk hno }

/-- Writing a user record that is named changes nothing else. -/
theorem Frame.setUser (frame : Frame named s₀ s) {x : Pubkey} (u : UserAccount)
    (hx : x ∈ named) : Frame named s₀ { s with users := s.users.insert x u } :=
  { frame with
    users := by
      intro k hk
      exact (Finmap.lookup_insert_of_ne _ (ne_of_notMem hx hk)).trans (frame.users k hk) }

/-- Handing an account that is named to a program changes nothing else. -/
theorem Frame.setOwner (frame : Frame named s₀ s) {x : Pubkey} (program : ProgramId)
    (hx : x ∈ named) : Frame named s₀ { s with owner := Function.update s.owner x program } :=
  { frame with
    owner := by
      intro k hk
      exact (Function.update_of_ne (ne_of_notMem hx hk) _ _).trans (frame.owner k hk) }

/-- `initialize` writes its four accounts and pays for them. -/
theorem initialize_frame {a : Initialize} {args : InitializeArgs} {p : PresaleAccount}
    (ok : InitializeAccepted cx a args s p) :
    Frame (Instruction.initializePresale a args).writable s (afterInitialize cx a s p) := by
  have hnamed : ∀ k ∈ [.tokenVault a.tokenMint, .adminRole a.admin, .escrowVault, .presaleInfo],
      k ∈ (Instruction.initializePresale a args).writable := by
    simp [Instruction.writable, ok.tokenVault, ok.adminAccount, ok.escrowAccount,
      ok.presaleAccount]
  have hadmin : a.admin ∈ (Instruction.initializePresale a args).writable := by
    simp [Instruction.writable]
  have owned := ((((Frame.refl _ s).setOwner .splToken
    (hnamed (.tokenVault a.tokenMint) (by simp))).setOwner .tokenPresale
      (hnamed (.adminRole a.admin) (by simp))).setOwner .tokenPresale
        (hnamed .escrowVault (by simp))).setOwner .tokenPresale (hnamed .presaleInfo (by simp))
  refine ⟨?_, owned.owner, rfl, ?_, ?_, fun _ _ => rfl, ?_⟩
  · intro k hk
    have hpaid : paidTo k (initFunding cx a s) = 0 :=
      paidTo_of_notMem fun hmem => hk (hnamed k (mem_initFunding.mp hmem))
    simp only [afterInitialize, disburse_of_ne _ _ (ne_of_notMem hadmin hk), hpaid, Nat.add_zero]
  · intro k hk
    exact Function.update_of_ne (ne_of_notMem (hnamed _ (by simp)) hk) _ _
  · intro k hk
    exact Function.update_of_ne (ne_of_notMem (hnamed _ (by simp)) hk) _ _
  · intro hk
    exact absurd (hnamed _ (by simp)) hk

/-- Frame: an instruction changes no account but those its structure declares writable. -/
theorem frame_of_ok {i : Instruction} (h : runInstruction cx s i = .ok (s', log)) :
    Frame i.writable s s' := by
  cases effect_of_instruction h with
  | initializePresale ok => exact initialize_frame ok
  | @buy _ a amount p u ok =>
    have hescrow : .escrowVault ∈ (Instruction.buyToken a amount).writable := by
      simp [Instruction.writable, ok.escrowAccount]
    have hpresale : .presaleInfo ∈ (Instruction.buyToken a amount).writable := by
      simp [Instruction.writable, ok.presaleAccount]
    have huser : .userRole a.authority ∈ (Instruction.buyToken a amount).writable := by
      simp [Instruction.writable, ok.userAccount]
    have hbuyer : a.authority ∈ (Instruction.buyToken a amount).writable := by
      simp [Instruction.writable]
    have paid := (Frame.refl (Instruction.buyToken a amount).writable s).pay
      (fillOf p amount.toNat).cost hbuyer hescrow
    exact (paid.setPresale (some (presaleAfterBuy p u amount.toNat)) hpresale).setUser
      (userAfterBuy u (fillOf p amount.toNat)) huser
  | refundNothing => exact Frame.refl _ _
  | @refund _ a p u ok =>
    have hescrow : .escrowVault ∈ (Instruction.refundToken a).writable := by
      simp [Instruction.writable, ok.escrowAccount]
    have hto : a.userToRefund ∈ (Instruction.refundToken a).writable := by
      simp [Instruction.writable]
    have paid := (Frame.refl (Instruction.refundToken a).writable s).pay
      u.userSolContributed hescrow hto
    exact paid.setPresale _ (by simp [Instruction.writable, ok.presaleAccount])
  | @claim _ a p u v d ok =>
    have hvault : .tokenVault a.tokenMint ∈ (Instruction.claimToken a).writable := by
      simp [Instruction.writable, ok.tokenVault]
    have huser : .userRole a.userTo ∈ (Instruction.claimToken a).writable := by
      simp [Instruction.writable, ok.userAccount]
    have hto : a.tokenTo ∈ (Instruction.claimToken a).writable := by
      simp [Instruction.writable]
    have moved := (Frame.refl (Instruction.claimToken a).writable s).transfer
      u.userBuyAmount hvault hto
    exact moved.setUser { u with isClaimed := 1 } huser
  | cancel ok | update ok =>
    exact (Frame.refl _ s).setPresale _ (by simp [Instruction.writable, ok.presaleAccount])
  | finalizeCancelled ok =>
    exact (Frame.refl _ s).setPresale _ (by simp [Instruction.writable, ok.presaleAccount])
  | @add _ a p ok =>
    have huser : .userRole a.authority ∈ (Instruction.addWhitelist a).writable := by
      simp [Instruction.writable, ok.userAccount]
    have hadmin : a.admin ∈ (Instruction.addWhitelist a).writable := by
      simp [Instruction.writable]
    have paid := (Frame.refl (Instruction.addWhitelist a).writable s).pay
      (whitelistFunding cx a s) hadmin huser
    have written := (paid.setOwner .tokenPresale huser).setPresale
      (some { p with totalWhitelistedWallets := p.totalWhitelistedWallets + 1 })
      (by simp [Instruction.writable, ok.presaleAccount])
    exact written.setUser (newUser a.authority) huser
  | @remove _ a p u ok =>
    have huser : .userRole a.authority ∈ (Instruction.removeWhitelist a).writable := by
      simp [Instruction.writable, ok.userAccount]
    have written := (Frame.refl (Instruction.removeWhitelist a).writable s).setPresale
      (some { p with totalWhitelistedWallets := p.totalWhitelistedWallets - 1 })
      (by simp [Instruction.writable, ok.presaleAccount])
    exact written.setUser { u with isWhitelisted := false } huser
  | @finalizePays _ a f p ok =>
    have hescrow : .escrowVault ∈ (Instruction.finalize a f).writable := by
      simp [Instruction.writable, ok.escrowAccount]
    have hteam : a.teamAccount ∈ (Instruction.finalize a f).writable := by
      simp [Instruction.writable]
    have paid := (Frame.refl (Instruction.finalize a f).writable s).pay
      (teamShare p) hescrow hteam
    exact paid.setPresale _ (by simp [Instruction.writable, ok.presaleAccount])
  | @deposit _ a mint amount _ _ _ ok =>
    exact (Frame.refl _ s).transfer _ (by simp [Instruction.writable])
      (by simp [Instruction.writable, ok.tokenVault])
  | @withdrawToken _ a p v d ok =>
    have hvault : .tokenVault a.tokenMint ∈ (Instruction.withdrawToken a).writable := by
      simp [Instruction.writable, ok.tokenVault]
    have hto : a.tokenTo ∈ (Instruction.withdrawToken a).writable := by
      simp [Instruction.writable]
    have moved := (Frame.refl (Instruction.withdrawToken a).writable s).transfer
      v.amount hvault hto
    exact moved.setPresale _ (by simp [Instruction.writable, ok.presaleAccount])
  | @withdraw _ a p ok =>
    exact (Frame.refl _ s).pay _ (by simp [Instruction.writable, ok.escrowAccount])
      (by simp [Instruction.writable])

end Writes

end TokenPresale.Interface
