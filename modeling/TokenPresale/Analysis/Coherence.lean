import TokenPresale.Interface.Effects

/-!
# Records sit at their own addresses

The first invariant of every run: a record sits at the address derived from what it says, the
account that holds it belongs to the right program and has lamports, and before `initialize`
there are no records at all. Hence `init` fails on an account that exists, `initialize`
succeeds once, and a transaction's end deletes no record.
-/

set_option autoImplicit false

namespace TokenPresale.Analysis

open TokenPresale.Library TokenPresale.Model TokenPresale.Interface

/-- The account at `k` belongs to `program` and has lamports. -/
structure Alive (s : State) (k : Pubkey) (program : ProgramId) : Prop where
  owner : s.owner k = program
  funded : 0 < s.lamports k

/-- A live account of a program stays alive; only the escrow can be drained. -/
theorem Alive.step {s s' : State} {i : Input} {log : List LogEntry} {k : Pubkey}
    {program : ProgramId} (h : Effect s i s' log) (live : Alive s k program)
    (hprog : program ≠ .system) (hk : k.isPda = true) (hesc : k ≠ .escrowVault) :
    Alive s' k program where
  owner := by rw [h.owner_eq (live.owner ▸ hprog) live.funded, live.owner]
  funded := live.funded.trans_le (h.lamports_le hk hesc)

/-- The record of a wallet sits at the address derived from it, and only a wallet that can
sign has bought anything. -/
structure UserRecord (s : State) (k : Pubkey) (u : UserAccount) : Prop where
  key : k = .userRole u.publicKey
  live : Alive s k .tokenPresale
  buyer : 0 < u.userSolContributed ∨ 0 < u.userBuyAmount → u.publicKey.isPda = false

/-- The record of an admin sits at the address derived from it. -/
structure AdminRecord (s : State) (k : Pubkey) (r : AdminAccount) : Prop where
  key : k = .adminRole r.superAdmin
  live : Alive s k .tokenPresale

/-- A vault holds tokens of its own mint. -/
structure Vault (s : State) (m : Pubkey) (t : TokenAccount) : Prop where
  mint : t.mint = m
  live : Alive s (.tokenVault m) .splToken

/-- The invariant of this module. -/
structure Coherent (s : State) : Prop where
  users : ∀ k u, s.users.lookup k = some u → UserRecord s k u
  admins : ∀ k r, s.admins k = some r → AdminRecord s k r
  vaults : ∀ m t, s.tokens (.tokenVault m) = some t → Vault s m t
  presale : ∀ p, s.presale = some p → Alive s .presaleInfo .tokenPresale
  unlaunched : s.presale = none → s.users = ∅

/-- Before the program has made an account there is nothing to be coherent about. -/
theorem coherent_of_fresh {s : State} (h : Fresh s) : Coherent s where
  users k u hu := by simp [h.users] at hu
  admins k r hr := by simp [h.admins k] at hr
  vaults m t ht := by simp [h.tokens (.tokenVault m) rfl] at ht
  presale p hp := by simp [h.presale] at hp
  unlaunched _ := h.users

/-- The record at the address of a wallet is that wallet's. -/
theorem Coherent.publicKey_eq {s : State} (c : Coherent s) {w : Pubkey} {u : UserAccount}
    (hu : s.users.lookup (.userRole w) = some u) : u.publicKey = w :=
  (Pubkey.userRole.inj (c.users _ u hu).key).symm

section Step

variable {s s' : State} {i : Input} {log : List LogEntry}

/-- A user record that stays as it is keeps its address and its lamports. -/
theorem UserRecord.step (h : Effect s i s' log) {k : Pubkey} {u : UserAccount}
    (r : UserRecord s k u) : UserRecord s' k u where
  key := r.key
  live := by
    have hk := r.key
    subst hk
    exact r.live.step h nofun rfl nofun
  buyer := r.buyer

/-- An admin record that stays as it is keeps its address and its lamports. -/
theorem AdminRecord.step (h : Effect s i s' log) {k : Pubkey} {r : AdminAccount}
    (rec : AdminRecord s k r) : AdminRecord s' k r where
  key := rec.key
  live := by
    have hk := rec.key
    subst hk
    exact rec.live.step h nofun rfl nofun

/-- A vault keeps its mint and its lamports. -/
theorem Vault.step (h : Effect s i s' log) {m : Pubkey} {t : TokenAccount} (v : Vault s m t) :
    Vault s' m t where
  mint := v.mint
  live := v.live.step h nofun rfl nofun

/-- The record that `add_whitelist` makes is that of the wallet listed. -/
theorem userRecord_of_add {cx : Context} {a : Whitelist} {p : PresaleAccount}
    (ok : AddAccepted cx a s p) :
    UserRecord (afterAdd cx a s p) (.userRole a.authority) (newUser a.authority) where
  key := rfl
  live :=
    { owner := by simp [afterAdd]
      funded := by
        have hne : a.admin ≠ .userRole a.authority := ne_of_signed ok.signed rfl
        simp only [afterAdd, move_dst _ hne]
        exact cx.rent.topped_up_pos _ _ }
  buyer := by simp [newUser]

/-- Every user record stays in its place through a step. -/
theorem Coherent.users_step (c : Coherent s) (h : Effect s i s' log) :
    ∀ k u, s'.users.lookup k = some u → UserRecord s' k u := by
  have kept : ∀ k u, s.users.lookup k = some u → UserRecord s' k u :=
    fun k u hu => (c.users k u hu).step h
  cases h with
  | @buy cx a amount p u ok =>
    apply Ledger.forall_lookup_insert kept
    have hu := kept _ _ ok.user
    exact ⟨hu.key, hu.live, fun _ => c.publicKey_eq ok.user ▸ ok.signed.2⟩
  | add ok => exact Ledger.forall_lookup_insert kept (userRecord_of_add ok)
  | claim ok | remove ok =>
    apply Ledger.forall_lookup_insert kept
    have hu := kept _ _ ok.user
    exact ⟨hu.key, hu.live, hu.buyer⟩
  | outside ok =>
    rw [(runOutside_frame ok).users]
    exact kept
  | _ => exact kept

/-- Every admin record stays in its place through a step. -/
theorem Coherent.admins_step (c : Coherent s) (h : Effect s i s' log) :
    ∀ k r, s'.admins k = some r → AdminRecord s' k r := by
  have kept : ∀ k r, s.admins k = some r → AdminRecord s' k r :=
    fun k r hr => (c.admins k r hr).step h
  cases h with
  | @initializePresale cx a args p ok =>
    intro k r hr
    rcases eq_or_ne k (.adminRole a.admin) with rfl | hne
    · simp only [afterInitialize, Function.update_self, Option.some.injEq] at hr
      subst hr
      exact ⟨rfl, by simp [afterInitialize],
        ok.funded (by simp [initFunding])⟩
    · simp only [afterInitialize, Function.update_of_ne hne] at hr
      exact kept k r hr
  | outside ok =>
    rw [(runOutside_frame ok).admins]
    exact kept
  | _ => exact kept

/-- A transfer of tokens opens no vault and changes no vault's mint. -/
theorem vaults_of_moveTokens {src dst : Pubkey} {n : ℕ}
    (kept : ∀ m t, s.tokens (.tokenVault m) = some t → Vault s' m t) :
    ∀ m t, moveTokens s.tokens src dst n (.tokenVault m) = some t → Vault s' m t := by
  intro m t ht
  obtain ⟨t', ht', hmint, -⟩ := exists_of_moveTokens ht
  have hv := kept m t' ht'
  exact ⟨hmint ▸ hv.mint, hv.live⟩

/-- Every vault stays in its place through a step. -/
theorem Coherent.vaults_step (c : Coherent s) (h : Effect s i s' log) :
    ∀ m t, s'.tokens (.tokenVault m) = some t → Vault s' m t := by
  have kept : ∀ m t, s.tokens (.tokenVault m) = some t → Vault s' m t :=
    fun m t ht => (c.vaults m t ht).step h
  cases h with
  | @initializePresale cx a args p ok =>
    intro m t ht
    rcases eq_or_ne m a.tokenMint with rfl | hne
    · simp only [afterInitialize, Function.update_self, Option.some.injEq] at ht
      subst ht
      exact ⟨rfl, by simp [afterInitialize],
        ok.funded (by simp [initFunding])⟩
    · have hne' := Pubkey.tokenVault_injective.ne hne
      simp only [afterInitialize, Function.update_of_ne hne'] at ht
      exact kept m t ht
  | claim ok | deposit ok | withdrawToken ok => exact vaults_of_moveTokens kept
  | outside ok =>
    intro m t ht
    obtain ⟨t', ht', hmint, -⟩ := (runOutside_frame ok).holder m t ht
    have hv := kept m t' ht'
    exact ⟨hmint ▸ hv.mint, hv.live⟩
  | _ => exact kept

/-- The presale record stays alive through a step. -/
theorem Coherent.presale_step (c : Coherent s) (h : Effect s i s' log) :
    ∀ p, s'.presale = some p → Alive s' .presaleInfo .tokenPresale := by
  have kept : ∀ p, s.presale = some p → Alive s' .presaleInfo .tokenPresale :=
    fun p hp => (c.presale p hp).step h nofun rfl nofun
  cases h with
  | @initializePresale cx a args p ok =>
    intro _ _
    exact ⟨by simp [afterInitialize],
      ok.funded (by simp [initFunding])⟩
  | buy ok | refund ok | cancel ok | update ok | add ok | remove ok | finalizePays ok
  | finalizeCancelled ok | withdrawToken ok =>
    -- who writes the record has read it
    intro _ _
    exact kept _ ok.presale
  | outside ok =>
    rw [(runOutside_frame ok).presale]
    exact kept
  | _ => exact kept

/-- No instruction deletes the presale record, and none but `initialize` succeeds without it. -/
theorem Coherent.unlaunched_step (c : Coherent s) (h : Effect s i s' log) :
    s'.presale = none → s'.users = ∅ := by
  cases h with
  | claim ok => exact fun hnone => by simp [afterClaim, ok.presale] at hnone
  | outside ok =>
    rw [(runOutside_frame ok).presale, (runOutside_frame ok).users]
    exact c.unlaunched
  | _ => first | exact c.unlaunched | exact nofun

/-- Every step keeps a state coherent. -/
theorem Coherent.step (c : Coherent s) (h : Effect s i s' log) : Coherent s' where
  users := c.users_step h
  admins := c.admins_step h
  vaults := c.vaults_step h
  presale := c.presale_step h
  unlaunched := c.unlaunched_step h

/-- Only `initialize` makes the presale record. -/
theorem launch_of_effect (h : Effect s i s' log) (hnone : s.presale = none) {p : PresaleAccount}
    (hp : s'.presale = some p) :
    ∃ cx a args, i = .instruction cx (.initializePresale a args) ∧
      InitializeAccepted cx a args s p ∧ s' = afterInitialize cx a s p ∧
        log = initializeLog cx a s := by
  cases h with
  | @initializePresale cx a args q ok =>
    obtain rfl := Option.some_injective _ hp
    exact ⟨cx, a, args, rfl, ok, rfl, rfl⟩
  | buy ok | refund ok | cancel ok | update ok | add ok | remove ok | finalizePays ok
  | finalizeCancelled ok | withdrawToken ok =>
    exact absurd (ok.presale.symm.trans hnone) (Option.some_ne_none _)
  | outside ok =>
    rw [(runOutside_frame ok).presale] at hp
    exact absurd (hp.symm.trans hnone) (Option.some_ne_none _)
  | _ => exact absurd (hp.symm.trans hnone) (Option.some_ne_none _)

end Step

/-- Every state a run reaches is coherent. -/
theorem coherent_of_run {s₀ s : State} {h : History} (fresh : Fresh s₀)
    (run : presale.Run s₀ h s) : Coherent s := by
  refine run.invariant (fun _ s => Coherent s) (coherent_of_fresh fresh) ?_
  intro h s i s' o _ c hstep
  exact c.step (effect_of_step hstep)

/-- `initialize` succeeds only before the presale exists, so it succeeds once. -/
theorem Coherent.not_launched {s : State} (c : Coherent s) {cx : Context} {a : Initialize}
    {args : InitializeArgs} {p : PresaleAccount} (ok : InitializeAccepted cx a args s p) :
    s.presale = none := by
  cases hp : s.presale with
  | none => rfl
  | some q =>
    have hown := (c.presale q hp).owner
    rw [ok.presaleUnused] at hown
    exact absurd hown nofun

/-- `initialize` opens its vault only where there was none. -/
theorem Coherent.no_vault {s : State} (c : Coherent s) {cx : Context} {a : Initialize}
    {args : InitializeArgs} {p : PresaleAccount} (ok : InitializeAccepted cx a args s p) :
    s.tokens (.tokenVault a.tokenMint) = none := by
  cases hv : s.tokens (.tokenVault a.tokenMint) with
  | none => rfl
  | some v =>
    have howner := (c.vaults _ v hv).live.owner
    rw [ok.vaultUnused] at howner
    exact absurd howner nofun

/-- `add_whitelist` succeeds only for a wallet without a record. -/
theorem Coherent.not_listed {s : State} (c : Coherent s) {cx : Context} {a : Whitelist}
    {p : PresaleAccount} (ok : AddAccepted cx a s p) :
    s.users.lookup (.userRole a.authority) = none := by
  cases hu : s.users.lookup (.userRole a.authority) with
  | none => rfl
  | some u =>
    have hown := (c.users _ u hu).live.owner
    rw [ok.unused] at hown
    exact absurd hown nofun

end TokenPresale.Analysis
