import TokenPresale.Interface.SaleEffects
import TokenPresale.Model.Administration

/-!
# What the instructions of the admin do

The checks of each handler of `Model.Administration`, and the state it leaves.
-/

set_option autoImplicit false

namespace TokenPresale.Interface

open TokenPresale.Library TokenPresale.Model

/-- The checks all admin instructions but `initialize` share: the presale record exists, and
the signer is the super admin of the admin record that was passed.
SRC: state.rs:97-105 -/
structure AdminCall (cx : Context) (presaleAccount adminAccount admin : Pubkey) (s : State)
    (p : PresaleAccount) : Prop where
  presaleAccount : presaleAccount = .presaleInfo
  presale : s.presale = some p
  record : s.admins adminAccount = some ⟨admin⟩
  signed : cx.signed admin

/-- A record that names `admin` is the record `⟨admin⟩`. -/
theorem admin_record {s : State} {k admin : Pubkey} {r : AdminAccount}
    (hr : s.admins k = some r) (ha : r.superAdmin = admin) : s.admins k = some ⟨admin⟩ := by
  rw [hr, ← ha]

/-! ## `initialize` -/

/-- What `initialize` pays into each of its four accounts. -/
def initFunding (cx : Context) (a : Initialize) (s : State) : List (Pubkey × ℕ) :=
  [(.tokenVault a.tokenMint, cx.rent.minimumBalance tokenAccountSize -
      s.lamports (.tokenVault a.tokenMint)),
   (.adminRole a.admin, cx.rent.minimumBalance adminAccountSize - s.lamports (.adminRole a.admin)),
   (.escrowVault, cx.rent.minimumBalance (8 + 8) - s.lamports .escrowVault),
   (.presaleInfo, cx.rent.minimumBalance presaleAccountSize - s.lamports .presaleInfo)]

/-- The parameters `initialize` accepts, and the record it makes of them.
SRC: initialize.rs:69-84 -/
theorem initialPresale_eq_ok {cx : Context} {args : InitializeArgs} {p : PresaleAccount} :
    initialPresale cx args = .ok p ↔
      cx.now + args.presaleDuration.toNat < 2 ^ 64 ∧
      args.totalTokenAmount.toNat * args.softcapPrecent.toNat < 2 ^ 64 ∧
      args.totalTokenAmount.toNat * args.tokenAllocation.toNat < 2 ^ 64 ∧
      { PresaleAccount.zeroed with
        teamPercent := args.teamPercent.toNat
        presaleRate := args.presaleRate.toNat
        userMaxBuy := args.userMaxBuy.toNat
        startTime := cx.now
        endTime := cx.now + args.presaleDuration.toNat
        presaleDuration := args.presaleDuration.toNat
        totalTokenRemained := args.totalTokenAmount.toNat * args.tokenAllocation.toNat / 10000
        totalPresaleToken := args.totalTokenAmount.toNat * args.tokenAllocation.toNat / 10000
        softCap := args.totalTokenAmount.toNat * args.softcapPrecent.toNat / 10000
        tokenAllocation := args.tokenAllocation.toNat } = p := by
  unfold initialPresale
  simp only [bind_eq_ok, checkedAdd_eq_ok, checkedMul_eq_ok, pure_eq_ok]
  constructor
  · rintro ⟨_, ⟨hend, rfl⟩, _, ⟨hsoft, rfl⟩, _, ⟨htok, rfl⟩, rfl⟩
    exact ⟨hend, hsoft, htok, rfl⟩
  · rintro ⟨hend, hsoft, htok, rfl⟩
    exact ⟨_, ⟨hend, rfl⟩, _, ⟨hsoft, rfl⟩, _, ⟨htok, rfl⟩, rfl⟩

/-- The checks of `initialize`.
SRC: initialize.rs:6-55 -/
structure InitializeAccepted (cx : Context) (a : Initialize) (args : InitializeArgs) (s : State)
    (p : PresaleAccount) : Prop where
  mint : s.mints a.tokenMint = true
  signed : cx.signed a.admin
  tokenVault : a.tokenVault = .tokenVault a.tokenMint
  adminAccount : a.adminAccount = .adminRole a.admin
  escrowAccount : a.escrowAccount = .escrowVault
  presaleAccount : a.presaleAccount = .presaleInfo
  vaultUnused : s.owner (.tokenVault a.tokenMint) = .system
  adminUnused : s.owner (.adminRole a.admin) = .system
  escrowUnused : s.owner .escrowVault = .system
  presaleUnused : s.owner .presaleInfo = .system
  payer : ((initFunding cx a s).map Prod.snd).sum ≤ s.lamports a.admin
  credit : ∀ q ∈ initFunding cx a s, s.lamports q.1 + q.2 < 2 ^ 64
  record : initialPresale cx args = .ok p

/-- The state after `initialize`: four new accounts, paid for by the admin, with their records. -/
def afterInitialize (cx : Context) (a : Initialize) (s : State) (p : PresaleAccount) : State :=
  { s with
    lamports := disburse s.lamports a.admin (initFunding cx a s)
    owner := Function.update (Function.update (Function.update
      (Function.update s.owner (.tokenVault a.tokenMint) .splToken)
        (.adminRole a.admin) .tokenPresale) .escrowVault .tokenPresale) .presaleInfo .tokenPresale
    tokens := Function.update s.tokens (.tokenVault a.tokenMint) (some ⟨a.tokenMint, a.admin, 0⟩)
    admins := Function.update s.admins (.adminRole a.admin) (some ⟨a.admin⟩)
    presale := some p }

/-- The log of `initialize`: one payment of rent for each account it makes. -/
def initializeLog (cx : Context) (a : Initialize) (s : State) : List LogEntry :=
  (initFunding cx a s).map fun q => .lamports a.admin q.1 q.2

/-- A key that has signed is not a derived address. -/
theorem ne_of_signed {cx : Context} {k d : Pubkey} (h : cx.signed k) (hd : d.isPda = true) :
    k ≠ d := by
  rintro rfl
  simp [h.2] at hd

/-- `initialize` makes its four accounts exactly when none of them exists and the admin can pay for
all of them.
SRC: initialize.rs:14-55 -/
theorem createAccounts_eq_ok {cx : Context} {a : Initialize} {s : State} {out : Outcome}
    (hsigned : cx.signed a.admin) :
    createAccounts cx a s = .ok out ↔
      (a.tokenVault = .tokenVault a.tokenMint ∧ a.adminAccount = .adminRole a.admin ∧
        a.escrowAccount = .escrowVault ∧ a.presaleAccount = .presaleInfo) ∧
      (s.owner (.tokenVault a.tokenMint) = .system ∧ s.owner (.adminRole a.admin) = .system ∧
        s.owner .escrowVault = .system ∧ s.owner .presaleInfo = .system) ∧
      ((initFunding cx a s).map Prod.snd).sum ≤ s.lamports a.admin ∧
      (∀ q ∈ initFunding cx a s, s.lamports q.1 + q.2 < 2 ^ 64) ∧
      ({ s with
        lamports := disburse s.lamports a.admin (initFunding cx a s)
        owner := Function.update (Function.update (Function.update (Function.update s.owner
          (.tokenVault a.tokenMint) .splToken) (.adminRole a.admin) .tokenPresale) .escrowVault
            .tokenPresale) .presaleInfo .tokenPresale }, initializeLog cx a s) = out := by
  obtain ⟨tokenMint, tokenVault, adminAccount, escrowAccount, presaleAccount, admin⟩ := a
  have n₁ : admin ≠ .tokenVault tokenMint := ne_of_signed hsigned rfl
  have n₂ : admin ≠ .adminRole admin := ne_of_signed hsigned rfl
  have n₃ : admin ≠ .escrowVault := ne_of_signed hsigned rfl
  have n₄ : admin ≠ .presaleInfo := ne_of_signed hsigned rfl
  simp only [createAccounts, bind_eq_ok, requireSeeds_eq_ok, pure_eq_ok, exists_const,
    Prod.exists, initAccount_eq_ok, existsAndEq, true_and, and_true, initFunding, List.map_cons,
    List.map_nil, List.sum_cons, List.sum_nil, List.forall_mem_cons, List.not_mem_nil,
    false_implies, implies_true]
  -- the four accounts differ from each other and from the payer, so each is funded from
  -- the balance it had before the call
  constructor
  · rintro ⟨rfl, ⟨hv, hvp, hvc⟩, rfl, ⟨ha, hap, hac⟩, rfl, ⟨he, hep, hec⟩, rfl, ⟨hp, hpp, hpc⟩,
      rfl⟩
    simp only [move_src, move_dst, move_other, ne_eq, n₁, n₂, n₃, n₄, n₂.symm, n₃.symm, n₄.symm,
      not_false_eq_true, reduceCtorEq, Function.update_of_ne] at *
    refine ⟨⟨trivial, trivial, trivial, trivial⟩, ⟨hv, ha, he, hp⟩, ?_, ⟨hvc, hac, hec, hpc⟩, rfl⟩
    omega
  · rintro ⟨⟨rfl, rfl, rfl, rfl⟩, ⟨hv, ha, he, hp⟩, hpay, ⟨hvc, hac, hec, hpc⟩, rfl⟩
    simp only [move_src, move_dst, move_other, ne_eq, n₁, n₂, n₃, n₄, n₂.symm, n₃.symm, n₄.symm,
      not_false_eq_true, reduceCtorEq, Function.update_of_ne, hv, ha, he, hp, hvc, hac, hec, hpc,
      true_and, and_true]
    refine ⟨?_, ?_, ?_, ?_, rfl⟩ <;> omega

/-- `initialize` succeeds exactly when its checks pass.
SRC: initialize.rs:57-86 -/
theorem initializeHandler_eq_ok {cx : Context} {a : Initialize} {args : InitializeArgs}
    {s : State} {out : Outcome} :
    initializeHandler cx a args s = .ok out ↔
      ∃ p, InitializeAccepted cx a args s p ∧
        (afterInitialize cx a s p, initializeLog cx a s) = out := by
  unfold initializeHandler
  simp only [bind_eq_ok, loadMint_eq_ok, requireSigner_eq_ok, pure_eq_ok, exists_const]
  constructor
  · rintro ⟨hmint, hsigned, made, hmade, p, hrecord, rfl⟩
    obtain ⟨⟨hvault, hadmin, hescrow, hpresale⟩, ⟨hv, ha, he, hp⟩, hpay, hcredit, rfl⟩ :=
      (createAccounts_eq_ok hsigned).mp hmade
    refine ⟨p, ⟨hmint, hsigned, hvault, hadmin, hescrow, hpresale, hv, ha, he, hp, hpay, hcredit,
      hrecord⟩, ?_⟩
    rw [hvault, hadmin]
    rfl
  · rintro ⟨p, ok, rfl⟩
    have hmade := (createAccounts_eq_ok ok.signed).mpr
      ⟨⟨ok.tokenVault, ok.adminAccount, ok.escrowAccount, ok.presaleAccount⟩,
        ⟨ok.vaultUnused, ok.adminUnused, ok.escrowUnused, ok.presaleUnused⟩, ok.payer, ok.credit,
        rfl⟩
    refine ⟨ok.mint, ok.signed, _, hmade, p, ok.record, ?_⟩
    rw [ok.tokenVault, ok.adminAccount]
    rfl

/-- Each of the four new accounts holds what it held before and what the admin paid for it. -/
theorem InitializeAccepted.lamports {cx : Context} {a : Initialize} {args : InitializeArgs}
    {s : State} {p : PresaleAccount} (ok : InitializeAccepted cx a args s p) {q : Pubkey × ℕ}
    (hq : q ∈ initFunding cx a s) :
    (afterInitialize cx a s p).lamports q.1 = s.lamports q.1 + q.2 := by
  have hpaid : q.1.isPda = true ∧ paidTo q.1 (initFunding cx a s) = q.2 := by
    simp only [initFunding, List.mem_cons, List.not_mem_nil, or_false] at hq
    rcases hq with rfl | rfl | rfl | rfl <;> exact ⟨rfl, by simp [initFunding]⟩
  have hne := (ne_of_signed ok.signed hpaid.1).symm
  simp only [afterInitialize, disburse_of_ne _ _ hne, hpaid.2]

/-- The four new accounts are rent exempt, so none of them is empty. -/
theorem InitializeAccepted.funded {cx : Context} {a : Initialize} {args : InitializeArgs}
    {s : State} {p : PresaleAccount} (ok : InitializeAccepted cx a args s p) {k : Pubkey}
    (hk : k ∈ (initFunding cx a s).map Prod.fst) : 0 < (afterInitialize cx a s p).lamports k := by
  obtain ⟨q, hq, rfl⟩ := List.mem_map.mp hk
  rw [ok.lamports hq]
  simp only [initFunding, List.mem_cons, List.not_mem_nil, or_false] at hq
  rcases hq with rfl | rfl | rfl | rfl <;> exact cx.rent.topped_up_pos _ _

/-! ## The whitelist -/

/-- What `add_whitelist` pays into the new user account. -/
def whitelistFunding (cx : Context) (a : Whitelist) (s : State) : ℕ :=
  cx.rent.minimumBalance userAccountSize - s.lamports (.userRole a.authority)

/-- The checks of `add_whitelist`.
SRC: add_whitelist.rs:3-38 -/
structure AddAccepted (cx : Context) (a : Whitelist) (s : State) (p : PresaleAccount) : Prop
    extends AdminCall cx a.presaleAccount a.adminAccount a.admin s p where
  userAccount : a.userAccount = .userRole a.authority
  unused : s.owner (.userRole a.authority) = .system
  payer : whitelistFunding cx a s ≤ s.lamports a.admin
  credit : s.lamports (.userRole a.authority) + whitelistFunding cx a s < 2 ^ 64
  counter : p.totalWhitelistedWallets + 1 < 2 ^ 32

/-- The record of a wallet that has just been listed.
SRC: add_whitelist.rs:32-36 -/
def newUser (authority : Pubkey) : UserAccount where
  isWhitelisted := true
  userBuyAmount := 0
  userSolContributed := 0
  isClaimed := 0
  publicKey := authority

/-- The state after `add_whitelist`: a new listed record, its rent paid, and one more wallet
counted. -/
def afterAdd (cx : Context) (a : Whitelist) (s : State) (p : PresaleAccount) : State :=
  { s with
    lamports := move s.lamports a.admin (.userRole a.authority) (whitelistFunding cx a s)
    owner := Function.update s.owner (.userRole a.authority) .tokenPresale
    presale := some { p with totalWhitelistedWallets := p.totalWhitelistedWallets + 1 }
    users := s.users.insert (.userRole a.authority) (newUser a.authority) }

/-- `add_whitelist` succeeds exactly when its checks pass.
SRC: add_whitelist.rs:30-41 -/
theorem addWhitelistHandler_eq_ok {cx : Context} {a : Whitelist} {s : State} {out : Outcome} :
    addWhitelistHandler cx a s = .ok out ↔
      ∃ p, AddAccepted cx a s p ∧
        (afterAdd cx a s p,
          [.lamports a.admin (.userRole a.authority) (whitelistFunding cx a s)]) = out := by
  unfold addWhitelistHandler
  simp only [bind_eq_ok, loadPresale_eq_ok, loadAdmin_eq_ok,
    requireSigner_eq_ok, requireSeeds_eq_ok, isAdmin_eq_ok, checkedAdd_eq_ok, pure_eq_ok,
    exists_const, Prod.exists, initAccount_eq_ok]
  constructor
  · rintro ⟨p, ⟨hpre, hp⟩, r, hr, hsig, huk, _, _, ⟨hown, rfl, hpay, hcredit, rfl⟩, hadm, _,
      ⟨hcount, rfl⟩, rfl⟩
    rw [huk] at hown hpay hcredit
    have hne : a.admin ≠ .userRole a.authority := ne_of_signed hsig rfl
    rw [move_dst _ hne] at hcredit
    refine ⟨p, ⟨⟨hpre, hp, admin_record hr hadm, hsig⟩, huk, hown, hpay, hcredit, hcount⟩, ?_⟩
    rw [huk]
    rfl
  · rintro ⟨p, h, rfl⟩
    have hne : a.admin ≠ .userRole a.authority := ne_of_signed h.signed rfl
    have hown : s.owner a.userAccount = .system := by rw [h.userAccount]; exact h.unused
    have hpay : cx.rent.minimumBalance userAccountSize - s.lamports a.userAccount ≤
        s.lamports a.admin := by
      rw [h.userAccount]
      exact h.payer
    have hcredit : move s.lamports a.admin a.userAccount
        (cx.rent.minimumBalance userAccountSize - s.lamports a.userAccount) a.userAccount <
          2 ^ 64 := by
      rw [h.userAccount, move_dst _ hne]
      exact h.credit
    refine ⟨p, ⟨h.presaleAccount, h.presale⟩, _, h.record, h.signed, h.userAccount, _, _,
      ⟨hown, rfl, hpay, hcredit, rfl⟩, rfl, _, ⟨h.counter, rfl⟩, ?_⟩
    rw [h.userAccount]
    rfl

/-- The checks of `remove_whitelist`.
SRC: remove_whitelist.rs:3-31 -/
structure RemoveAccepted (cx : Context) (a : Whitelist) (s : State) (p : PresaleAccount)
    (u : UserAccount) : Prop
    extends AdminCall cx a.presaleAccount a.adminAccount a.admin s p where
  userAccount : a.userAccount = .userRole a.authority
  user : s.users.lookup (.userRole a.authority) = some u
  counter : 0 < p.totalWhitelistedWallets

/-- The state after `remove_whitelist`: the record is no longer listed, and one wallet fewer is
counted. -/
def afterRemove (a : Whitelist) (s : State) (p : PresaleAccount) (u : UserAccount) : State :=
  { s with
    presale := some { p with totalWhitelistedWallets := p.totalWhitelistedWallets - 1 }
    users := s.users.insert (.userRole a.authority) { u with isWhitelisted := false } }

/-- `remove_whitelist` succeeds exactly when its checks pass.
SRC: remove_whitelist.rs:28-33 -/
theorem removeWhitelistHandler_eq_ok {cx : Context} {a : Whitelist} {s : State} {out : Outcome} :
    removeWhitelistHandler cx a s = .ok out ↔
      ∃ p u, RemoveAccepted cx a s p u ∧ (afterRemove a s p u, []) = out := by
  unfold removeWhitelistHandler
  simp only [bind_eq_ok, loadPresale_eq_ok, loadAdmin_eq_ok,
    loadUser_eq_ok, requireSigner_eq_ok, requireSeeds_eq_ok, isAdmin_eq_ok, checkedSub_eq_ok,
    pure_eq_ok, exists_const]
  constructor
  · rintro ⟨p, ⟨hpre, hp⟩, huk, u, hu, r, hr, hsig, hadm, _, ⟨hcount, rfl⟩, rfl⟩
    rw [huk] at hu
    refine ⟨p, u, ⟨⟨hpre, hp, admin_record hr hadm, hsig⟩, huk, hu, hcount⟩, ?_⟩
    rw [huk]
    rfl
  · rintro ⟨p, u, h, rfl⟩
    refine ⟨p, ⟨h.presaleAccount, h.presale⟩, h.userAccount, u,
      by rw [h.userAccount]; exact h.user, _, h.record, h.signed, rfl, _, ⟨h.counter, rfl⟩, ?_⟩
    rw [h.userAccount]
    rfl

/-- The only arithmetic of `remove_whitelist` fails only on a counter that is zero.
SRC: remove_whitelist.rs:28-33 -/
theorem removeWhitelistHandler_panic {cx : Context} {a : Whitelist} {s : State} {e : Arith}
    (h : removeWhitelistHandler cx a s = .error (.panic e)) :
    ∃ p, s.presale = some p ∧ p.totalWhitelistedWallets = 0 := by
  unfold removeWhitelistHandler at h
  simp only [bind_eq_error, loadPresale_eq_error, loadPresale_eq_ok, requireSeeds_eq_error,
    requireSeeds_eq_ok, loadUser_eq_error, loadUser_eq_ok, loadAdmin_eq_error, loadAdmin_eq_ok,
    requireSigner_eq_error, requireSigner_eq_ok, isAdmin_eq_error, isAdmin_eq_ok,
    checkedSub_eq_error, pure_eq_error, exists_const, reduceCtorEq, and_false, false_or,
    or_false] at h
  obtain ⟨p, ⟨-, hp⟩, -, u, -, r, -, -, -, hzero, -⟩ := h
  exact ⟨p, hp, Nat.lt_one_iff.mp hzero⟩

/-! ## `cancel_presale`, `update_presale_details` and `finalize` -/

/-- `cancel_presale` succeeds for the super admin, whatever the presale's state.
SRC: cancel_presale.rs:21-30 -/
theorem cancelPresaleHandler_eq_ok {cx : Context} {a : AdminOnly} {s : State} {out : Outcome} :
    cancelPresaleHandler cx a s = .ok out ↔
      ∃ p, AdminCall cx a.presaleAccount a.adminAccount a.admin s p ∧
        ({ s with presale := some { p with isCancelled := 1 } },
          [.presaleCancelled p.totalSolAmount cx.timeStamp]) = out := by
  unfold cancelPresaleHandler
  simp only [bind_eq_ok, loadPresale_eq_ok, loadAdmin_eq_ok,
    requireSigner_eq_ok, isAdmin_eq_ok, pure_eq_ok, exists_const]
  constructor
  · rintro ⟨p, ⟨hpre, hp⟩, r, hr, hsig, hadm, rfl⟩
    exact ⟨p, ⟨hpre, hp, admin_record hr hadm, hsig⟩, rfl⟩
  · rintro ⟨p, h, rfl⟩
    exact ⟨p, ⟨h.presaleAccount, h.presale⟩, _, h.record, h.signed, rfl, rfl⟩

/-- `update_presale_details` succeeds for the super admin on a window that is not empty and
not over.
SRC: update_presale_details.rs:19-32 -/
theorem updatePresaleDetailsHandler_eq_ok {cx : Context} {a : AdminOnly}
    {startTime endTime : UInt64} {s : State} {out : Outcome} :
    updatePresaleDetailsHandler cx a startTime endTime s = .ok out ↔
      ∃ p, AdminCall cx a.presaleAccount a.adminAccount a.admin s p ∧
        cx.now ≤ endTime.toNat ∧ startTime.toNat < endTime.toNat ∧
          ({ s with presale := some { p with startTime := startTime.toNat,
                                             endTime := endTime.toNat } }, []) = out := by
  unfold updatePresaleDetailsHandler
  simp only [bind_eq_ok, loadPresale_eq_ok, loadAdmin_eq_ok,
    requireSigner_eq_ok, isAdmin_eq_ok, failIf_eq_ok, pure_eq_ok, exists_const, not_or,
    Nat.not_lt, Nat.not_le, gt_iff_lt, ge_iff_le]
  constructor
  · rintro ⟨p, ⟨hpre, hp⟩, r, hr, hsig, hadm, ⟨hend, hstart⟩, rfl⟩
    exact ⟨p, ⟨hpre, hp, admin_record hr hadm, hsig⟩, hend, hstart, rfl⟩
  · rintro ⟨p, h, hend, hstart, rfl⟩
    exact ⟨p, ⟨h.presaleAccount, h.presale⟩, _, h.record, h.signed, rfl, ⟨hend, hstart⟩, rfl⟩

/-- The presale record after the first block of `finalize`.
SRC: finalize.rs:39-43 -/
def closed (forcibleFinalize : UInt8) (p : PresaleAccount) : PresaleAccount :=
  if forcibleFinalize = 0 ∧ p.isSoftcapped = 0 ∧ p.isHardcapped = 0 then
    { p with isCancelled := 1 }
  else p

/-- The first block of `finalize` only stops an ordinary call before the end of a sale that
is not sold out.
SRC: finalize.rs:34-44 -/
theorem closeSale_eq_ok {cx : Context} {f : UInt8} {p q : PresaleAccount} :
    closeSale cx f p = .ok q ↔
      ¬ (f = 0 ∧ cx.now < p.endTime ∧ p.isHardcapped = 0) ∧ closed f p = q := by
  by_cases hf : f = 0
  · subst hf
    by_cases hcap : p.isSoftcapped = 0 ∧ p.isHardcapped = 0
    · simp only [closeSale, ↓reduceIte, bind_eq_ok, failIf_eq_ok, if_pos hcap, pure_eq_ok,
        exists_const, closed, true_and, gt_iff_lt]
    · simp only [closeSale, ↓reduceIte, bind_eq_ok, failIf_eq_ok, if_neg hcap, pure_eq_ok,
        exists_const, closed, true_and, gt_iff_lt]
  · simp only [closeSale, pure_eq_ok, closed, hf, false_and, not_false_eq_true,
      true_and, if_false]

/-- The first block of `finalize` fails exactly on an unforced call before the end of a sale that
has not sold out. -/
theorem closeSale_eq_error {cx : Context} {f : UInt8} {p : PresaleAccount} {e : ProgramError} :
    closeSale cx f p = .error e ↔
      (f = 0 ∧ cx.now < p.endTime ∧ p.isHardcapped = 0) ∧ .program .PresaleNotFinished = e := by
  unfold closeSale
  by_cases hf : f = 0
  · subst hf
    by_cases hcap : p.isSoftcapped = 0 ∧ p.isHardcapped = 0
    · simp only [↓reduceIte, bind_eq_error, failIf_eq_error, if_pos hcap, pure_eq_error,
        exists_false, and_false, or_false, true_and, gt_iff_lt]
    · simp only [↓reduceIte, bind_eq_error, failIf_eq_error, if_neg hcap, pure_eq_error,
        exists_false, and_false, or_false, true_and, gt_iff_lt]
  · simp only [pure_eq_error, hf, false_and, if_false]

/-- The team's share of the SOL that was raised.
SRC: finalize.rs:46-48 -/
def teamShare (p : PresaleAccount) : ℕ := p.teamPercent * p.totalSolAmount / 10000

/-- The checks every `finalize` call makes.
SRC: finalize.rs:3-44 -/
structure FinalizeAccepted (cx : Context) (a : Finalize) (f : UInt8) (s : State)
    (p : PresaleAccount) : Prop
    extends AdminCall cx a.presaleAccount a.adminAccount a.admin s p where
  escrowAccount : a.escrowAccount = .escrowVault
  notEarly : ¬ (f = 0 ∧ cx.now < p.endTime ∧ p.isHardcapped = 0)

/-- The checks of a `finalize` call that pays the team.
SRC: finalize.rs:45-57 -/
structure FinalizePays (cx : Context) (a : Finalize) (f : UInt8) (s : State)
    (p : PresaleAccount) : Prop extends FinalizeAccepted cx a f s p where
  notCancelled : (closed f p).isCancelled = 0
  product : p.teamPercent * p.totalSolAmount < 2 ^ 64
  funded : teamShare p ≤ s.lamports .escrowVault
  credit : move s.lamports .escrowVault a.teamAccount (teamShare p) a.teamAccount < 2 ^ 64
  owned :
    move s.lamports .escrowVault a.teamAccount (teamShare p) .escrowVault <
      s.lamports .escrowVault → s.owner .escrowVault = .tokenPresale

/-- A sale that the first block leaves uncancelled is left as it was. -/
theorem closed_of_notCancelled {f : UInt8} {p : PresaleAccount}
    (h : (closed f p).isCancelled = 0) : closed f p = p := by
  by_cases hc : f = 0 ∧ p.isSoftcapped = 0 ∧ p.isHardcapped = 0
  · rw [closed, if_pos hc] at h
    exact absurd h one_ne_zero
  · exact if_neg hc

/-- The state after a `finalize` that pays the team. -/
def afterFinalize (a : Finalize) (s : State) (p : PresaleAccount) : State :=
  { s with
    lamports := move s.lamports .escrowVault a.teamAccount (teamShare p)
    presale := some { p with isFinalized := 1 } }

/-- The log of a `finalize` that pays the team: the payment and the event. -/
def finalizeLog (cx : Context) (a : Finalize) (p : PresaleAccount) : List LogEntry :=
  [.lamports .escrowVault a.teamAccount (teamShare p),
   .presaleFinalized p.totalSolAmount cx.timeStamp]

/-- `finalize` either pays the team and sets the flag, or, on a sale that is cancelled or that
it cancels, leaves the record its first block made.
SRC: finalize.rs:30-65 -/
theorem finalizeHandler_eq_ok {cx : Context} {a : Finalize} {f : UInt8} {s : State}
    {out : Outcome} :
    finalizeHandler cx a f s = .ok out ↔
      (∃ p, FinalizePays cx a f s p ∧ (afterFinalize a s p, finalizeLog cx a p) = out) ∨
        ∃ p, FinalizeAccepted cx a f s p ∧ (closed f p).isCancelled ≠ 0 ∧
          ({ s with presale := some (closed f p) }, []) = out := by
  unfold finalizeHandler
  simp only [bind_eq_ok, requireSeeds_eq_ok, loadPresale_eq_ok, loadAdmin_eq_ok,
    requireSigner_eq_ok, isAdmin_eq_ok, closeSale_eq_ok, exists_const]
  constructor
  · rintro ⟨hesc, p, ⟨hpre, hp⟩, r, hr, hsig, hadm, _, ⟨hover, rfl⟩, hpay⟩
    have hacc : FinalizeAccepted cx a f s p :=
      ⟨⟨hpre, hp, admin_record hr hadm, hsig⟩, hesc, hover⟩
    by_cases hc : (closed f p).isCancelled = 0
    · rw [if_pos hc, closed_of_notCancelled hc] at hpay
      simp only [bind_eq_ok, checkedMul_eq_ok, failIf_eq_ok, moveLamports_eq_ok, pure_eq_ok,
        exists_const, hesc] at hpay
      obtain ⟨_, ⟨hprod, rfl⟩, -, _, ⟨hfund, hcredit, hown, rfl⟩, rfl⟩ := hpay
      exact .inl ⟨p, ⟨hacc, hc, hprod, hfund, hcredit, hown⟩, rfl⟩
    · rw [if_neg hc, pure_eq_ok] at hpay
      exact .inr ⟨p, hacc, hc, hpay⟩
  · rintro (⟨p, h, rfl⟩ | ⟨p, h, hc, rfl⟩)
    · refine ⟨h.escrowAccount, p, ⟨h.presaleAccount, h.presale⟩, _, h.record, h.signed, rfl, _,
        ⟨h.notEarly, rfl⟩, ?_⟩
      rw [if_pos h.notCancelled, closed_of_notCancelled h.notCancelled]
      simp only [bind_eq_ok, checkedMul_eq_ok, failIf_eq_ok, moveLamports_eq_ok, pure_eq_ok,
        exists_const, h.escrowAccount]
      exact ⟨_, ⟨h.product, rfl⟩, Nat.not_lt.mpr h.funded, _,
        ⟨h.funded, h.credit, h.owned, rfl⟩, rfl⟩
    · refine ⟨h.escrowAccount, p, ⟨h.presaleAccount, h.presale⟩, _, h.record, h.signed, rfl, _,
        ⟨h.notEarly, rfl⟩, ?_⟩
      rw [if_neg hc]
      rfl

/-- Why a call of the super admin fails: it is too early, or, on a sale that is not cancelled, the
team's share cannot be computed, is not covered, or cannot be moved.
SRC: finalize.rs:34-60 -/
theorem finalizeHandler_eq_error {cx : Context} {a : Finalize} {f : UInt8} {s : State}
    {p : PresaleAccount} (call : AdminCall cx a.presaleAccount a.adminAccount a.admin s p)
    (hesc : a.escrowAccount = .escrowVault) {e : ProgramError} :
    finalizeHandler cx a f s = .error e ↔
      (f = 0 ∧ cx.now < p.endTime ∧ p.isHardcapped = 0) ∧ .program .PresaleNotFinished = e ∨
        ¬ (f = 0 ∧ cx.now < p.endTime ∧ p.isHardcapped = 0) ∧ (closed f p).isCancelled = 0 ∧
          (2 ^ 64 ≤ p.teamPercent * p.totalSolAmount ∧ .panic .teamAmount = e ∨
            p.teamPercent * p.totalSolAmount < 2 ^ 64 ∧
              (s.lamports .escrowVault < teamShare p ∧ .program .NoEnoughSol = e ∨
                teamShare p ≤ s.lamports .escrowVault ∧
                  moveLamports .escrowVault a.teamAccount (teamShare p) s = .error e)) := by
  obtain ⟨escrowAccount, teamAccount, presaleAccount, adminAccount, admin⟩ := a
  obtain ⟨hpre, hp, hrecord, hsigned⟩ := call
  dsimp only at hesc hpre hp hrecord hsigned
  subst hesc hpre
  unfold finalizeHandler
  simp only [bind_eq_error, requireSeeds_eq_error, requireSeeds_eq_ok, loadPresale_eq_error,
    loadPresale_eq_ok, loadAdmin_eq_error, loadAdmin_eq_ok, requireSigner_eq_error,
    requireSigner_eq_ok, isAdmin_eq_error, isAdmin_eq_ok, closeSale_eq_error, closeSale_eq_ok,
    exists_const, hp, hrecord, hsigned, ne_eq, not_true_eq_false, false_and, true_and, false_or,
    Option.some.injEq, reduceCtorEq, exists_eq_left', and_assoc, exists_and_left]
  apply or_congr_right
  apply and_congr_right
  intro _
  by_cases hc : (closed f p).isCancelled = 0
  · have hsame := closed_of_notCancelled hc
    rw [hsame] at hc ⊢
    rw [if_pos hc, and_iff_right hc]
    simp only [bind_eq_error, checkedMul_eq_error, checkedMul_eq_ok, failIf_eq_error,
      failIf_eq_ok, pure_eq_error, exists_const, and_false, or_false, exists_false, Nat.not_lt,
      and_assoc, exists_and_left, exists_eq_left', teamShare]
  · rw [if_neg hc]
    simp only [pure_eq_error, hc, false_and]

/-- A call of the super admin is rejected as too early exactly when it is ordinary, before the
end, and on a sale that is not sold out.
SRC: finalize.rs:34-37 -/
theorem finalizeHandler_eq_notFinished {cx : Context} {a : Finalize} {f : UInt8} {s : State}
    {p : PresaleAccount} (call : AdminCall cx a.presaleAccount a.adminAccount a.admin s p)
    (hesc : a.escrowAccount = .escrowVault) :
    finalizeHandler cx a f s = .error (.program .PresaleNotFinished) ↔
      f = 0 ∧ cx.now < p.endTime ∧ p.isHardcapped = 0 := by
  simp only [finalizeHandler_eq_error call hesc, moveLamports_ne_program, and_true, reduceCtorEq,
    and_false, or_false, ProgramError.program.injEq]

/-! ## The deposit and the withdrawals -/

/-- The checks of `deposit_token`.
SRC: deposit_token.rs:4-50 -/
structure DepositAccepted (cx : Context) (a : DepositToken) (mint : Pubkey) (n : ℕ) (s : State)
    (p : PresaleAccount) (f v : TokenAccount) : Prop
    extends AdminCall cx a.presaleAccount a.adminAccount a.admin s p where
  mintExists : s.mints a.tokenMint = true
  mintGiven : a.tokenMint = mint
  tokenFrom : s.tokens a.tokenFrom = some f
  tokenVault : a.tokenVault = .tokenVault a.tokenMint
  vault : s.tokens (.tokenVault a.tokenMint) = some v
  funded : n ≤ f.amount
  sameMint : f.mint = v.mint
  holder : f.owner = a.admin

/-- `deposit_token` succeeds exactly when its checks pass; only tokens move.
SRC: deposit_token.rs:39-59 -/
theorem depositTokenHandler_eq_ok {cx : Context} {a : DepositToken} {mint : Pubkey}
    {amount : UInt64} {s : State} {out : Outcome} :
    depositTokenHandler cx a mint amount s = .ok out ↔
      ∃ p f v, DepositAccepted cx a mint amount.toNat s p f v ∧
        ({ s with tokens :=
             moveTokens s.tokens a.tokenFrom (.tokenVault a.tokenMint) amount.toNat },
          [.tokens a.tokenFrom (.tokenVault a.tokenMint) amount.toNat]) = out := by
  unfold depositTokenHandler
  simp only [bind_eq_ok, loadMint_eq_ok, failIf_eq_ok, loadToken_eq_ok,
    requireSeeds_eq_ok, loadPresale_eq_ok, loadAdmin_eq_ok, requireSigner_eq_ok, isAdmin_eq_ok,
    tokenTransfer_eq_ok, pure_eq_ok, exists_const, not_not]
  constructor
  · rintro ⟨hmint, hgiven, f, hf, hvk, v, hv, p, ⟨hpre, hp⟩, r, hr, hsig, hadm, _,
      ⟨f', v', hf', hv', hle, hsame, hown, rfl⟩, rfl⟩
    obtain rfl : f = f' := Option.mem_unique hf hf'
    obtain rfl : v = v' := Option.mem_unique hv hv'
    rw [hvk] at hv
    refine ⟨p, f, v, ⟨⟨hpre, hp, admin_record hr hadm, hsig⟩, hmint, hgiven, hf, hvk, hv, hle,
      hsame, hown⟩, ?_⟩
    rw [hvk]
  · rintro ⟨p, f, v, h, rfl⟩
    have hv : s.tokens a.tokenVault = some v := by rw [h.tokenVault]; exact h.vault
    refine ⟨h.mintExists, h.mintGiven, f, h.tokenFrom, h.tokenVault, v, hv, p,
      ⟨h.presaleAccount, h.presale⟩, _, h.record, h.signed, rfl, _,
      ⟨f, v, h.tokenFrom, hv, h.funded, h.sameMint, h.holder, rfl⟩, ?_⟩
    rw [h.tokenVault]

/-- The checks of `withdraw_token`.
SRC: withdraw_token.rs:4-56 -/
structure WithdrawTokenAccepted (cx : Context) (a : WithdrawToken) (s : State)
    (p : PresaleAccount) (v t : TokenAccount) : Prop
    extends AdminCall cx a.presaleAccount a.adminAccount a.admin s p where
  mint : s.mints a.tokenMint = true
  tokenTo : s.tokens a.tokenTo = some t
  tokenVault : a.tokenVault = .tokenVault a.tokenMint
  vault : s.tokens (.tokenVault a.tokenMint) = some v
  finalized : p.isFinalized ≠ 0
  notCancelled : p.isCancelled ≠ 1
  sameMint : v.mint = t.mint
  holder : v.owner = a.admin

/-- The state after `withdraw_token`: the vault's whole amount has moved, and the pool's
counter is zero.
SRC: withdraw_token.rs:45-58 -/
def afterWithdrawToken (a : WithdrawToken) (s : State) (p : PresaleAccount) (v : TokenAccount) :
    State :=
  { s with
    tokens := moveTokens s.tokens (.tokenVault a.tokenMint) a.tokenTo v.amount
    presale := some { p with totalTokenRemained := 0 } }

/-- `withdraw_token` succeeds exactly when its checks pass.
SRC: withdraw_token.rs:38-60 -/
theorem withdrawTokenHandler_eq_ok {cx : Context} {a : WithdrawToken} {s : State}
    {out : Outcome} :
    withdrawTokenHandler cx a s = .ok out ↔
      ∃ p v t, WithdrawTokenAccepted cx a s p v t ∧
        (afterWithdrawToken a s p v,
          [.tokens (.tokenVault a.tokenMint) a.tokenTo v.amount]) = out := by
  unfold withdrawTokenHandler
  simp only [bind_eq_ok, loadMint_eq_ok, loadToken_eq_ok,
    requireSeeds_eq_ok, loadPresale_eq_ok, loadAdmin_eq_ok, requireSigner_eq_ok,
    isFinalized_eq_ok, isAdmin_eq_ok, failIf_eq_ok, tokenTransfer_eq_ok, pure_eq_ok, exists_const]
  constructor
  · rintro ⟨hmint, t, ht, hvk, v, hv, p, ⟨hpre, hp⟩, r, hr, hsig, hfin, hadm, hcan, _,
      ⟨v', t', hv', ht', -, hsame, hown, rfl⟩, rfl⟩
    obtain rfl : v = v' := Option.mem_unique hv hv'
    obtain rfl : t = t' := Option.mem_unique ht ht'
    rw [hvk] at hv
    refine ⟨p, v, t, ⟨⟨hpre, hp, admin_record hr hadm, hsig⟩, hmint, ht, hvk, hv, hfin, hcan,
      hsame, hown⟩, ?_⟩
    rw [hvk]
    rfl
  · rintro ⟨p, v, t, h, rfl⟩
    have hv : s.tokens a.tokenVault = some v := by rw [h.tokenVault]; exact h.vault
    refine ⟨h.mint, t, h.tokenTo, h.tokenVault, v, hv, p, ⟨h.presaleAccount, h.presale⟩, _,
      h.record, h.signed, h.finalized, rfl, h.notCancelled, _,
      ⟨v, t, hv, h.tokenTo, le_rfl, h.sameMint, h.holder, rfl⟩, ?_⟩
    rw [h.tokenVault]
    rfl

/-- The checks of `withdraw`.
SRC: withdraw.rs:4-35 -/
structure WithdrawAccepted (cx : Context) (a : Withdraw) (s : State) (p : PresaleAccount) : Prop
    extends AdminCall cx a.presaleAccount a.adminAccount a.admin s p where
  escrowAccount : a.escrowAccount = .escrowVault
  finalized : p.isFinalized ≠ 0
  notCancelled : p.isCancelled ≠ 1
  credit : s.lamports a.admin + s.lamports .escrowVault < 2 ^ 64
  owned : 0 < s.lamports .escrowVault → s.owner .escrowVault = .tokenPresale

/-- The state after `withdraw`: the admin holds the whole balance of the escrow.
SRC: withdraw.rs:33-35 -/
def afterWithdraw (a : Withdraw) (s : State) : State :=
  { s with lamports := move s.lamports .escrowVault a.admin (s.lamports .escrowVault) }

/-- `withdraw` succeeds exactly when its checks pass.
SRC: withdraw.rs:27-38 -/
theorem withdrawHandler_eq_ok {cx : Context} {a : Withdraw} {s : State} {out : Outcome} :
    withdrawHandler cx a s = .ok out ↔
      ∃ p, WithdrawAccepted cx a s p ∧
        (afterWithdraw a s,
          [.lamports .escrowVault a.admin (s.lamports .escrowVault)]) = out := by
  unfold withdrawHandler
  simp only [bind_eq_ok, requireSeeds_eq_ok, loadPresale_eq_ok, loadAdmin_eq_ok,
    requireSigner_eq_ok, isFinalized_eq_ok, isAdmin_eq_ok, failIf_eq_ok, moveLamports_eq_ok,
    pure_eq_ok, exists_const]
  constructor
  · rintro ⟨hesc, p, ⟨hpre, hp⟩, r, hr, hsig, hfin, hadm, hcan, _, ⟨-, hcredit, hown, rfl⟩, rfl⟩
    have hne := ne_escrow_of_signed hsig
    rw [hesc] at hcredit hown
    rw [move_dst _ hne.symm] at hcredit
    rw [move_src _ hne.symm, Nat.sub_self] at hown
    refine ⟨p, ⟨⟨hpre, hp, admin_record hr hadm, hsig⟩, hesc, hfin, hcan, hcredit, hown⟩, ?_⟩
    rw [hesc]
    rfl
  · rintro ⟨p, h, rfl⟩
    have hne := ne_escrow_of_signed h.signed
    refine ⟨h.escrowAccount, p, ⟨h.presaleAccount, h.presale⟩, _, h.record, h.signed, h.finalized,
      rfl, h.notCancelled, _, ⟨le_rfl, ?_, ?_, rfl⟩, ?_⟩
    · rw [h.escrowAccount, move_dst _ hne.symm]
      exact h.credit
    · rw [h.escrowAccount, move_src _ hne.symm, Nat.sub_self]
      exact h.owned
    · rw [h.escrowAccount]
      rfl

end TokenPresale.Interface
