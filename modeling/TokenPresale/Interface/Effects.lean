import TokenPresale.Interface.AdminEffects
import TokenPresale.Model.Program

/-!
# What one step of the program can do

`Effect s i s' log` lists every way an input `i` can succeed in the state `s`: the checks it
passed, the state `s'` and the log it leaves. `effect_of_step` says that the list is complete.
Every invariant is proved from this list, so no later proof opens a handler.

The second half states the frame of a step: what can lose lamports, which accounts stay alive,
and that the log accounts for the lamports and the tokens that moved.
-/

set_option autoImplicit false

namespace TokenPresale.Interface

open TokenPresale.Library TokenPresale.Model

/-- The ways an input succeeds. -/
inductive Effect (s : State) : Input → State → List LogEntry → Prop
  | initializePresale {cx : Context} {a : Initialize} {args : InitializeArgs}
      {p : PresaleAccount} (ok : InitializeAccepted cx a args s p) :
      Effect s (.instruction cx (.initializePresale a args)) (afterInitialize cx a s p)
        (initializeLog cx a s)
  | buy {cx : Context} {a : BuyToken} {amount : UInt64} {p : PresaleAccount} {u : UserAccount}
      (ok : BuyAccepted cx a amount.toNat s p u) :
      Effect s (.instruction cx (.buyToken a amount)) (afterBuy a amount.toNat s p u)
        (buyLog cx a amount.toNat p)
  | refundNothing {cx : Context} {a : RefundToken} {p : PresaleAccount} {u : UserAccount}
      (ok : RefundAccepted cx a s p u) (zero : u.userSolContributed = 0) :
      Effect s (.instruction cx (.refundToken a)) s []
  | refund {cx : Context} {a : RefundToken} {p : PresaleAccount} {u : UserAccount}
      (ok : RefundPays cx a s p u) :
      Effect s (.instruction cx (.refundToken a)) (afterRefund a s p u)
        [.lamports .escrowVault a.userToRefund u.userSolContributed]
  | claim {cx : Context} {a : ClaimToken} {p : PresaleAccount} {u : UserAccount}
      {v t : TokenAccount} (ok : ClaimAccepted cx a s p u v t) :
      Effect s (.instruction cx (.claimToken a)) (afterClaim a s u) (claimLog cx a u)
  | cancel {cx : Context} {a : AdminOnly} {p : PresaleAccount}
      (ok : AdminCall cx a.presaleAccount a.adminAccount a.admin s p) :
      Effect s (.instruction cx (.cancelPresale a))
        { s with presale := some { p with isCancelled := 1 } }
        [.presaleCancelled p.totalSolAmount cx.timeStamp]
  | update {cx : Context} {a : AdminOnly} {startTime endTime : UInt64} {p : PresaleAccount}
      (ok : AdminCall cx a.presaleAccount a.adminAccount a.admin s p)
      (notOver : cx.now ≤ endTime.toNat) (nonempty : startTime.toNat < endTime.toNat) :
      Effect s (.instruction cx (.updatePresaleDetails a startTime endTime))
        { s with presale := some { p with startTime := startTime.toNat,
                                          endTime := endTime.toNat } } []
  | add {cx : Context} {a : Whitelist} {p : PresaleAccount} (ok : AddAccepted cx a s p) :
      Effect s (.instruction cx (.addWhitelist a)) (afterAdd cx a s p)
        [.lamports a.admin (.userRole a.authority) (whitelistFunding cx a s)]
  | remove {cx : Context} {a : Whitelist} {p : PresaleAccount} {u : UserAccount}
      (ok : RemoveAccepted cx a s p u) :
      Effect s (.instruction cx (.removeWhitelist a)) (afterRemove a s p u) []
  | finalizePays {cx : Context} {a : Finalize} {f : UInt8} {p : PresaleAccount}
      (ok : FinalizePays cx a f s p) :
      Effect s (.instruction cx (.finalize a f)) (afterFinalize a s p) (finalizeLog cx a p)
  | finalizeCancelled {cx : Context} {a : Finalize} {f : UInt8} {p : PresaleAccount}
      (ok : FinalizeAccepted cx a f s p) (cancelled : (closed f p).isCancelled ≠ 0) :
      Effect s (.instruction cx (.finalize a f)) { s with presale := some (closed f p) } []
  | deposit {cx : Context} {a : DepositToken} {mint : Pubkey} {amount : UInt64}
      {p : PresaleAccount} {f v : TokenAccount}
      (ok : DepositAccepted cx a mint amount.toNat s p f v) :
      Effect s (.instruction cx (.depositToken a mint amount))
        { s with tokens :=
            moveTokens s.tokens a.tokenFrom (.tokenVault a.tokenMint) amount.toNat }
        [.tokens a.tokenFrom (.tokenVault a.tokenMint) amount.toNat]
  | withdrawToken {cx : Context} {a : WithdrawToken} {p : PresaleAccount} {v t : TokenAccount}
      (ok : WithdrawTokenAccepted cx a s p v t) :
      Effect s (.instruction cx (.withdrawToken a)) (afterWithdrawToken a s p v)
        [.tokens (.tokenVault a.tokenMint) a.tokenTo v.amount]
  | withdraw {cx : Context} {a : Withdraw} {p : PresaleAccount} (ok : WithdrawAccepted cx a s p) :
      Effect s (.instruction cx (.withdraw a)) (afterWithdraw a s)
        [.lamports .escrowVault a.admin (s.lamports .escrowVault)]
  | outside {o : Outside} {s' : State} (ok : runOutside s o = .ok s') :
      Effect s (.outside o) s' []
  | endTransaction : Effect s .endTransaction (sweep s) []

/-- Every successful instruction has one of the effects. -/
theorem effect_of_instruction {s s' : State} {cx : Context} {i : Instruction}
    {log : List LogEntry} (h : runInstruction cx s i = .ok (s', log)) :
    Effect s (.instruction cx i) s' log := by
  cases i with
  | initializePresale a args =>
    obtain ⟨p, ok, hout⟩ := initializeHandler_eq_ok.mp h
    obtain ⟨rfl, rfl⟩ := Prod.mk.inj hout
    exact .initializePresale ok
  | buyToken a amount =>
    obtain ⟨p, u, ok, hout⟩ := buyTokenHandler_eq_ok.mp h
    obtain ⟨rfl, rfl⟩ := Prod.mk.inj hout
    exact .buy ok
  | refundToken a =>
    rcases refundTokenHandler_eq_ok.mp h with ⟨p, u, ok, hzero, hout⟩ | ⟨p, u, ok, hout⟩
    · obtain ⟨rfl, rfl⟩ := Prod.mk.inj hout
      exact .refundNothing ok hzero
    · obtain ⟨rfl, rfl⟩ := Prod.mk.inj hout
      exact .refund ok
  | claimToken a =>
    obtain ⟨p, u, v, t, ok, hout⟩ := claimTokenHandler_eq_ok.mp h
    obtain ⟨rfl, rfl⟩ := Prod.mk.inj hout
    exact .claim ok
  | cancelPresale a =>
    obtain ⟨p, ok, hout⟩ := cancelPresaleHandler_eq_ok.mp h
    obtain ⟨rfl, rfl⟩ := Prod.mk.inj hout
    exact .cancel ok
  | updatePresaleDetails a startTime endTime =>
    obtain ⟨p, ok, hend, hstart, hout⟩ := updatePresaleDetailsHandler_eq_ok.mp h
    obtain ⟨rfl, rfl⟩ := Prod.mk.inj hout
    exact .update ok hend hstart
  | addWhitelist a =>
    obtain ⟨p, ok, hout⟩ := addWhitelistHandler_eq_ok.mp h
    obtain ⟨rfl, rfl⟩ := Prod.mk.inj hout
    exact .add ok
  | removeWhitelist a =>
    obtain ⟨p, u, ok, hout⟩ := removeWhitelistHandler_eq_ok.mp h
    obtain ⟨rfl, rfl⟩ := Prod.mk.inj hout
    exact .remove ok
  | finalize a f =>
    rcases finalizeHandler_eq_ok.mp h with ⟨p, ok, hout⟩ | ⟨p, ok, hcan, hout⟩
    · obtain ⟨rfl, rfl⟩ := Prod.mk.inj hout
      exact .finalizePays ok
    · obtain ⟨rfl, rfl⟩ := Prod.mk.inj hout
      exact .finalizeCancelled ok hcan
  | depositToken a mint amount =>
    obtain ⟨p, f, v, ok, hout⟩ := depositTokenHandler_eq_ok.mp h
    obtain ⟨rfl, rfl⟩ := Prod.mk.inj hout
    exact .deposit ok
  | withdrawToken a =>
    obtain ⟨p, v, t, ok, hout⟩ := withdrawTokenHandler_eq_ok.mp h
    obtain ⟨rfl, rfl⟩ := Prod.mk.inj hout
    exact .withdrawToken ok
  | withdraw a =>
    obtain ⟨p, ok, hout⟩ := withdrawHandler_eq_ok.mp h
    obtain ⟨rfl, rfl⟩ := Prod.mk.inj hout
    exact .withdraw ok

/-- Every successful step is in the list. -/
theorem effect_of_step {s s' : State} {i : Input} {log : List LogEntry}
    (h : presale.step s i = .ok (s', log)) : Effect s i s' log := by
  cases i with
  | instruction cx i => exact effect_of_instruction h
  | outside o =>
    simp only [presale, step, bind_eq_ok, pure_eq_ok, Prod.mk.injEq] at h
    obtain ⟨_, ho, rfl, rfl⟩ := h
    exact .outside ho
  | endTransaction =>
    obtain ⟨rfl, rfl⟩ := Prod.mk.inj (Except.ok.inj h)
    exact .endTransaction

/-- The calls that `key 0` signs are the admin's in a small sale. -/
theorem sample_admin_call {s : State} {p : PresaleAccount} (hp : s.presale = some p)
    (hrecord : s.admins (.adminRole (.key 0)) = some ⟨.key 0⟩) (t : UInt64) :
    AdminCall (Sample.context 0 t) .presaleInfo (.adminRole (.key 0)) (.key 0) s p :=
  ⟨rfl, hp, hrecord, List.mem_singleton_self _, rfl⟩

/-! ## Frames -/

/-- The ways an outside move succeeds. -/
inductive OutsideEffect (s : State) : Outside → State → Prop
  | payIn {k : Pubkey} {n : ℕ} (fits : s.lamports k + n < 2 ^ 64) :
      OutsideEffect s (.payIn k n)
        { s with lamports := Function.update s.lamports k (s.lamports k + n) }
  | payOut {k : Pubkey} {n : ℕ} (unowned : ¬ k.isPda = true) :
      OutsideEffect s (.payOut k n)
        { s with lamports := Function.update s.lamports k (s.lamports k - n) }
  | createMint {k : Pubkey} :
      OutsideEffect s (.createMint k) { s with mints := Function.update s.mints k true }
  | openToken {k mint owner : Pubkey} (unowned : ¬ k.isPda = true) :
      OutsideEffect s (.openToken k mint owner)
        { s with tokens := Function.update s.tokens k (some ⟨mint, owner, 0⟩) }
  | tokensIn {k : Pubkey} {n : ℕ} : OutsideEffect s (.tokensIn k n) (setTokens s k (· + n))
  | tokensOut {k : Pubkey} {n : ℕ} (unowned : ¬ k.isPda = true) :
      OutsideEffect s (.tokensOut k n) (setTokens s k (· - n))

/-- Every move from outside has one of the effects outside. -/
theorem outsideEffect_of_ok {s s' : State} {o : Outside} (h : runOutside s o = .ok s') :
    OutsideEffect s o s' := by
  cases o with
  | payIn k n =>
    simp only [runOutside, bind_eq_ok, checkedAdd_eq_ok, pure_eq_ok] at h
    obtain ⟨_, ⟨hfit, rfl⟩, rfl⟩ := h
    exact .payIn hfit
  | payOut k n =>
    simp only [runOutside, bind_eq_ok, failIf_eq_ok, checkedSub_eq_ok, pure_eq_ok] at h
    obtain ⟨_, hk, _, ⟨-, rfl⟩, rfl⟩ := h
    exact .payOut hk
  | createMint k =>
    obtain rfl := Except.ok.inj h
    exact .createMint
  | openToken k mint owner =>
    simp only [runOutside, bind_eq_ok, failIf_eq_ok, pure_eq_ok] at h
    obtain ⟨_, hk, rfl⟩ := h
    exact .openToken hk
  | tokensIn k n =>
    obtain rfl := Except.ok.inj h
    exact .tokensIn
  | tokensOut k n =>
    simp only [runOutside, bind_eq_ok, failIf_eq_ok, pure_eq_ok] at h
    obtain ⟨_, hk, rfl⟩ := h
    exact .tokensOut hk

/-- What an outside move leaves alone: the records and the owners of the accounts. -/
structure OutsideFrame (s s' : State) : Prop where
  presale : s'.presale = s.presale
  users : s'.users = s.users
  admins : s'.admins = s.admins
  owner : s'.owner = s.owner
  lamports : ∀ k, k.isPda = true → s.lamports k ≤ s'.lamports k
  holder : ∀ m t, s'.tokens (.tokenVault m) = some t →
    ∃ t', s.tokens (.tokenVault m) = some t' ∧ t'.mint = t.mint ∧ t'.owner = t.owner ∧
      t'.amount ≤ t.amount

/-- An account that the program does not derive is no vault. -/
theorem tokenVault_ne {k : Pubkey} (hk : ¬ k.isPda = true) (m : Pubkey) :
    Pubkey.tokenVault m ≠ k := by
  rintro rfl
  exact hk rfl

/-- A move outside the program takes nothing from the accounts the program derives. -/
theorem runOutside_frame {s s' : State} {o : Outside} (h : runOutside s o = .ok s') :
    OutsideFrame s s' := by
  cases outsideEffect_of_ok h with
  | @payIn k n fits =>
    refine ⟨rfl, rfl, rfl, rfl, fun k' _ => ?_, fun m t ht => ⟨t, ht, rfl, rfl, le_rfl⟩⟩
    rcases eq_or_ne k' k with rfl | hk
    · simp
    · simp [hk]
  | @payOut k n hk =>
    refine ⟨rfl, rfl, rfl, rfl, fun k' hk' => ?_, fun m t ht => ⟨t, ht, rfl, rfl, le_rfl⟩⟩
    have hne : k' ≠ k := by
      rintro rfl
      exact hk hk'
    simp [hne]
  | createMint =>
    exact ⟨rfl, rfl, rfl, rfl, fun _ _ => le_rfl, fun m t ht => ⟨t, ht, rfl, rfl, le_rfl⟩⟩
  | openToken hk =>
    refine ⟨rfl, rfl, rfl, rfl, fun _ _ => le_rfl, fun m t ht => ⟨t, ?_, rfl, rfl, le_rfl⟩⟩
    simpa [tokenVault_ne hk] using ht
  | @tokensIn k n =>
    refine ⟨rfl, rfl, rfl, rfl, fun _ _ => le_rfl, fun m t ht => ?_⟩
    rcases eq_or_ne (Pubkey.tokenVault m) k with rfl | hne
    · simp only [setTokens, Function.update_self, Option.map_eq_some_iff] at ht
      obtain ⟨t', ht', rfl⟩ := ht
      exact ⟨t', ht', rfl, rfl, Nat.le_add_right _ _⟩
    · exact ⟨t, by simpa [setTokens, hne] using ht, rfl, rfl, le_rfl⟩
  | tokensOut hk =>
    refine ⟨rfl, rfl, rfl, rfl, fun _ _ => le_rfl, fun m t ht => ⟨t, ?_, rfl, rfl, le_rfl⟩⟩
    simpa [setTokens, tokenVault_ne hk] using ht

/-- The amount of the vault of the mint `m`. -/
def vaultAmount (s : State) (m : Pubkey) : ℕ := tokenAmount s.tokens (.tokenVault m)

/-- Nor does it take tokens from a vault. -/
theorem runOutside_vaultAmount {s s' : State} {o : Outside} (h : runOutside s o = .ok s')
    (m : Pubkey) : vaultAmount s m ≤ vaultAmount s' m := by
  unfold vaultAmount
  cases outsideEffect_of_ok h with
  | payIn | payOut | createMint => exact le_rfl
  | openToken hk => simp [tokenAmount, tokenVault_ne hk]
  | @tokensIn k n =>
    rcases eq_or_ne (Pubkey.tokenVault m) k with rfl | hne
    · cases hv : s.tokens (.tokenVault m) <;> simp [tokenAmount, setTokens, hv]
    · simp [tokenAmount, setTokens, hne]
  | tokensOut hk => simp [tokenAmount, setTokens, tokenVault_ne hk]

/-- A move from outside keeps a balance within 64 bits. -/
theorem runOutside_lamports_lt {s s' : State} {o : Outside} (h : runOutside s o = .ok s')
    {k : Pubkey} (hk : s.lamports k < 2 ^ 64) : s'.lamports k < 2 ^ 64 := by
  cases outsideEffect_of_ok h with
  | @payIn k' n hfit =>
    rcases eq_or_ne k k' with rfl | hne
    · simpa using hfit
    · simpa [hne] using hk
  | @payOut k' n _ =>
    rcases eq_or_ne k k' with rfl | hne
    · simpa using (Nat.sub_le _ _).trans_lt hk
    · simpa [hne] using hk
  | _ => exact hk

/-- A move from outside removes no mint. -/
theorem runOutside_mints {s s' : State} {o : Outside} (h : runOutside s o = .ok s') {m : Pubkey}
    (hm : s.mints m = true) : s'.mints m = true := by
  cases outsideEffect_of_ok h with
  | @createMint k =>
    rcases eq_or_ne m k with rfl | hne
    · simp
    · simp [hne, hm]
  | _ => exact hm

/-- Of the accounts the program derives, only the escrow ever loses lamports. -/
theorem Effect.lamports_le {s s' : State} {i : Input} {log : List LogEntry}
    (h : Effect s i s' log) {k : Pubkey} (hk : k.isPda = true) (hesc : k ≠ .escrowVault) :
    s.lamports k ≤ s'.lamports k := by
  cases h with
  | initializePresale ok =>
    have hne := (ne_of_signed ok.signed hk).symm
    simp only [afterInitialize, disburse_of_ne _ _ hne]
    exact Nat.le_add_right _ _
  | buy ok => exact le_move _ _ _ (ne_of_signed ok.signed hk).symm
  | refund ok => exact le_move _ _ _ hesc
  | add ok => exact le_move _ _ _ (ne_of_signed ok.signed hk).symm
  | finalizePays ok => exact le_move _ _ _ hesc
  | withdraw ok => exact le_move _ _ _ hesc
  | outside ok => exact (runOutside_frame ok).lamports k hk
  | _ => exact le_rfl

/-- An account that a program owns keeps its owner as long as it has lamports: `init` takes
only accounts of the system program, and the end of a transaction only empty ones. -/
theorem Effect.owner_eq {s s' : State} {i : Input} {log : List LogEntry}
    (h : Effect s i s' log) {k : Pubkey} (hown : s.owner k ≠ .system) (hpos : 0 < s.lamports k) :
    s'.owner k = s.owner k := by
  cases h with
  | initializePresale ok =>
    have n₁ : k ≠ .tokenVault _ := fun e => hown (e ▸ ok.vaultUnused)
    have n₂ : k ≠ .adminRole _ := fun e => hown (e ▸ ok.adminUnused)
    have n₃ : k ≠ .escrowVault := fun e => hown (e ▸ ok.escrowUnused)
    have n₄ : k ≠ .presaleInfo := fun e => hown (e ▸ ok.presaleUnused)
    simp only [afterInitialize, Function.update_of_ne n₁, Function.update_of_ne n₂,
      Function.update_of_ne n₃, Function.update_of_ne n₄]
  | add ok =>
    have hne : k ≠ .userRole _ := fun e => hown (e ▸ ok.unused)
    simp only [afterAdd, Function.update_of_ne hne]
  | outside ok => rw [(runOutside_frame ok).owner]
  | endTransaction => simp [sweep, hpos.ne']
  | _ => rfl

/-! ## The log accounts for what moved -/

/-- Balances after the lamports a log records have moved, in order. -/
def settle (b : Pubkey → ℕ) (log : List LogEntry) : Pubkey → ℕ :=
  log.foldl (fun b e => match e with
    | .lamports src dst n => move b src dst n
    | _ => b) b

/-- Token accounts after the tokens a log records have moved, in order. -/
def settleTokens (t : Pubkey → Option TokenAccount) (log : List LogEntry) :
    Pubkey → Option TokenAccount :=
  log.foldl (fun t e => match e with
    | .tokens src dst n => moveTokens t src dst n
    | _ => t) t

/-- A log of payments by one account is a disbursement. -/
theorem settle_payments (b : Pubkey → ℕ) (src : Pubkey) (l : List (Pubkey × ℕ)) :
    settle b (l.map fun q => .lamports src q.1 q.2) = disburse b src l := by
  induction l generalizing b with
  | nil => rfl
  | cons q l ih => exact ih _

/-- An instruction moves exactly the lamports its log records. -/
theorem Effect.lamports_of_log {s s' : State} {cx : Context} {i : Instruction}
    {log : List LogEntry} (h : Effect s (.instruction cx i) s' log) :
    s'.lamports = settle s.lamports log := by
  cases h with
  | initializePresale ok => exact (settle_payments _ _ _).symm
  | _ => rfl

/-- An instruction moves exactly the tokens its log records; `initialize` only opens the
vault. -/
theorem Effect.tokens_of_log {s s' : State} {cx : Context} {i : Instruction}
    {log : List LogEntry} (h : Effect s (.instruction cx i) s' log)
    (hi : ∀ a args, i ≠ .initializePresale a args) :
    s'.tokens = settleTokens s.tokens log := by
  cases h with
  | initializePresale ok => exact absurd rfl (hi _ _)
  | _ => rfl

end TokenPresale.Interface
