import TokenPresale.Analysis.TokenVault

/-!
# One admin

The instructions of the admin take the admin record from the caller and compare the signer with
the key in it, so they are as safe as the records are few. `initialize` creates singleton
accounts and succeeds once; hence there is one admin record, its key is the signer of that call,
and it is also the key that holds the vault. Whatever only the admin may change is unchanged in
every run in which that key does not sign.
-/

set_option autoImplicit false

namespace TokenPresale.Analysis

open TokenPresale.Library TokenPresale.Model TokenPresale.Interface

/-- An `initialize` call of `admin`, who signs it. -/
def launchedBy (admin : Pubkey) (i : Input) : Prop :=
  ∃ cx a args, i = .instruction cx (.initializePresale a args) ∧ a.admin = admin ∧
    cx.signed admin

/-- Before the launch there is neither an admin nor a vault. -/
structure Unruled (h : History) (s : State) : Prop where
  unlaunched : s.presale = none
  never : launchCalls h = 0
  admins : ∀ k, s.admins k = none
  vaults : ∀ m, s.tokens (.tokenVault m) = none

/-- The key `admin` signed the one launch, and it is the key of the one admin record and the
holder of every vault. -/
structure Ruled (admin : Pubkey) (h : History) (s : State) : Prop where
  launched : s.presale ≠ none
  once : launchCalls h = 1
  launch : ∃ r ∈ h, launchedBy admin r.input
  admins : ∀ k r, s.admins k = some r ↔ k = .adminRole admin ∧ r = ⟨admin⟩
  vaults : ∀ m v, s.tokens (.tokenVault m) = some v → v.owner = admin

/-- The instructions that `is_admin` guards.
SRC: state.rs:97-105 -/
def privileged : Instruction → Bool
  | .cancelPresale _ | .updatePresaleDetails _ _ _ | .addWhitelist _ | .removeWhitelist _
  | .finalize _ _ | .depositToken _ _ _ | .withdrawToken _ | .withdraw _ => true
  | _ => false

/-- What only the admin sets of the presale record. -/
def settings (p : PresaleAccount) : Terms × ℕ × ℕ × ℕ × ℕ :=
  (termsOf p, p.isFinalized, p.isCancelled, p.startTime, p.endTime)

/-- Nothing that is the admin's has been touched: the settings and the whitelist are as they
were, and no vault has lost tokens. -/
structure Untouched (s s' : State) : Prop where
  settings : s'.presale.map settings = s.presale.map settings
  listed : ∀ k, (s'.users.lookup k).map UserAccount.isWhitelisted =
    (s.users.lookup k).map UserAccount.isWhitelisted
  vault : ∀ m, vaultAmount s m ≤ vaultAmount s' m

/-- A longer history launches once more exactly when its last step does. -/
theorem launchCalls_snoc (h : History) (r : Step) :
    launchCalls (h ++ [r]) = launchCalls h + (launches r.input).toNat := by
  simp [launchCalls]

section Step

variable {s s' : State} {i : Input} {log : List LogEntry} {h : History} {admin : Pubkey}

/-- Only `initialize` creates an admin record. -/
theorem admins_kept (effect : Effect s i s' log) (hi : launches i = false) :
    s'.admins = s.admins := by
  cases effect with
  | initializePresale ok => exact absurd hi (by simp [launches])
  | outside ok => exact (runOutside_frame ok).admins
  | _ => rfl

/-- The launch makes its signer the admin. -/
theorem Unruled.launch (unruled : Unruled h s) {cx : Context} {a : Initialize}
    {args : InitializeArgs} {p : PresaleAccount} (ok : InitializeAccepted cx a args s p) :
    Ruled a.admin (h ++ [⟨s, .instruction cx (.initializePresale a args),
      initializeLog cx a s⟩]) (afterInitialize cx a s p) where
  launched := by simp [afterInitialize]
  once := by rw [launchCalls_snoc, unruled.never]; rfl
  launch := ⟨_, List.mem_append_right _ (List.mem_singleton_self _), cx, a, args, rfl, rfl,
    ok.signed⟩
  admins k r := by
    rcases eq_or_ne k (.adminRole a.admin) with rfl | hne
    · simp [afterInitialize, eq_comm]
    · simp [afterInitialize, hne, unruled.admins]
  vaults m v hv := by
    rcases eq_or_ne m a.tokenMint with rfl | hne
    · simp only [afterInitialize, Function.update_self, Option.some.injEq] at hv
      rw [← hv]
    · have hne' := Pubkey.tokenVault_injective.ne hne
      simp [afterInitialize, hne', unruled.vaults] at hv

/-- Before the launch a step either launches the presale or leaves it without an admin. -/
theorem Unruled.step (unruled : Unruled h s) (effect : Effect s i s' log) :
    Unruled (h ++ [⟨s, i, log⟩]) s' ∨ ∃ admin, Ruled admin (h ++ [⟨s, i, log⟩]) s' := by
  cases hi : launches i with
  | true =>
    cases effect with
    | initializePresale ok => exact .inr ⟨_, unruled.launch ok⟩
    | _ => exact absurd hi Bool.false_ne_true
  | false =>
    refine .inl ⟨?_, ?_, ?_, ?_⟩
    · cases hp' : s'.presale with
      | none => rfl
      | some p' =>
        obtain ⟨cx, a, args, rfl, -⟩ := launch_of_effect effect unruled.unlaunched hp'
        exact absurd hi (by simp [launches])
    · rw [launchCalls_snoc, unruled.never, hi, Bool.toNat_false]
    · rw [admins_kept effect hi]
      exact unruled.admins
    · intro m
      cases hv' : s'.tokens (.tokenVault m) with
      | none => rfl
      | some v' =>
        rcases vault_opened effect hv' with ⟨v, hv, -⟩ | ⟨cx, a, args, p, rfl, -⟩
        · exact absurd (hv.symm.trans (unruled.vaults m)) (Option.some_ne_none _)
        · exact absurd hi (by simp [launches])

/-- The launch is not repeated, so the admin stays. -/
theorem Ruled.step (ruled : Ruled admin h s) (c : Coherent s) (effect : Effect s i s' log) :
    Ruled admin (h ++ [⟨s, i, log⟩]) s' := by
  have hi : launches i = false := by
    cases effect with
    | initializePresale ok => exact absurd (c.not_launched ok) ruled.launched
    | _ => rfl
  obtain ⟨p, hp⟩ := Option.ne_none_iff_exists'.mp ruled.launched
  obtain ⟨p', hp', -⟩ := c.record_step effect hp
  refine ⟨by simp [hp'], ?_, ?_, ?_, ?_⟩
  · rw [launchCalls_snoc, ruled.once, hi, Bool.toNat_false]
  · obtain ⟨r, hr, hlaunch⟩ := ruled.launch
    exact ⟨r, List.mem_append_left _ hr, hlaunch⟩
  · rw [admins_kept effect hi]
    exact ruled.admins
  · intro m v' hv'
    rcases vault_opened effect hv' with ⟨v, hv, howner⟩ | ⟨cx, a, args, p, rfl, -⟩
    · rw [← howner]
      exact ruled.vaults m v hv
    · exact absurd hi (by simp [launches])

/-- An admin instruction is let in by an admin record whose key has signed. -/
theorem record_of_privileged {cx : Context} {i : Instruction}
    (effect : Effect s (.instruction cx i) s' log) (hi : privileged i = true) :
    ∃ k signer, s.admins k = some ⟨signer⟩ ∧ cx.signed signer := by
  cases effect with
  | cancel ok | update ok | add ok | remove ok | finalizePays ok | finalizeCancelled ok
  | deposit ok | withdrawToken ok | withdraw ok => exact ⟨_, _, ok.record, ok.signed⟩
  | _ => exact absurd hi Bool.false_ne_true

/-- Every admin instruction that succeeds is signed by the admin. -/
theorem Ruled.signs (ruled : Ruled admin h s) {cx : Context} {i : Instruction}
    (effect : Effect s (.instruction cx i) s' log) (hi : privileged i = true) :
    cx.signed admin := by
  obtain ⟨k, signer, hrecord, hsigned⟩ := record_of_privileged effect hi
  obtain rfl := AdminAccount.mk.inj ((ruled.admins k _).mp hrecord).2
  exact hsigned

/-- A step that the admin does not sign touches nothing that is the admin's. -/
theorem Ruled.untouched (ruled : Ruled admin h s) (c : Coherent s)
    (effect : Effect s i s' log) (hno : ∀ cx i', i = .instruction cx i' → ¬ cx.signed admin) :
    Untouched s s' := by
  have hpriv : ∀ cx i', i = .instruction cx i' → privileged i' = false := by
    rintro cx i' rfl
    cases hp : privileged i' with
    | false => rfl
    | true => exact absurd (ruled.signs effect hp) (hno cx i' rfl)
  cases effect with
  | initializePresale ok => exact absurd (c.not_launched ok) ruled.launched
  | buy ok =>
    refine ⟨?_, Ledger.map_lookup_insert_same _ _ ok.user rfl, fun _ => le_rfl⟩
    rw [ok.presale]
    rfl
  | refundNothing ok => exact ⟨rfl, fun _ => rfl, fun _ => le_rfl⟩
  | refund ok =>
    refine ⟨?_, fun _ => rfl, fun _ => le_rfl⟩
    rw [ok.presale]
    rfl
  | claim ok =>
    have hholder := ruled.vaults _ _ ok.vault
    rw [ok.holder] at hholder
    exact absurd (hholder ▸ ok.signed) (hno _ _ rfl)
  | outside ok =>
    refine ⟨?_, fun k => ?_, fun m => runOutside_vaultAmount ok m⟩
    · rw [(runOutside_frame ok).presale]
    · rw [(runOutside_frame ok).users]
  | endTransaction => exact ⟨rfl, fun _ => rfl, fun _ => le_rfl⟩
  | _ => exact absurd (hpriv _ _ rfl) (by simp [privileged])

end Step

/-- After every run the presale is either not launched or ruled by one admin. -/
theorem ruled_of_run {s₀ s : State} {h : History} (fresh : Fresh s₀) (run : presale.Run s₀ h s) :
    Unruled h s ∨ ∃ admin, Ruled admin h s := by
  refine run.invariant (fun h s => Unruled h s ∨ ∃ admin, Ruled admin h s) ?_ ?_
  · exact .inl ⟨fresh.presale, rfl, fresh.admins, fun m => fresh.tokens _ rfl⟩
  · rintro h s i s' o hrun (unruled | ⟨admin, ruled⟩) hstep
    · exact unruled.step (effect_of_step hstep)
    · exact .inr ⟨admin, ruled.step (coherent_of_run fresh hrun) (effect_of_step hstep)⟩

/-- The admin of a launched presale rules it in every further run. -/
theorem Ruled.run {s₀ s s' : State} {h h' : History} {admin : Pubkey} (fresh : Fresh s₀)
    (run : presale.Run s₀ h s) (run' : presale.Run s h' s') (ruled : Ruled admin h s) :
    Ruled admin (h ++ h') s' := by
  refine run'.invariant (fun h' s' => Ruled admin (h ++ h') s') ?_ ?_
  · rwa [List.append_nil]
  · intro h' s i s' o hrun ih hstep
    rw [← List.append_assoc]
    exact ih.step (coherent_of_run fresh (run.append hrun)) (effect_of_step hstep)

/-- No instruction of the history is signed by `k`. -/
def Unsigned (k : Pubkey) (h : History) : Prop :=
  ∀ r ∈ h, ∀ cx i, r.input = .instruction cx i → ¬ cx.signed k

/-- Two stretches that touch nothing of the admin's make one. -/
theorem Untouched.trans {s s' s'' : State} (first : Untouched s s') (second : Untouched s' s'') :
    Untouched s s'' where
  settings := second.settings.trans first.settings
  listed k := (second.listed k).trans (first.listed k)
  vault m := (first.vault m).trans (second.vault m)

/-- A run that the admin does not sign touches nothing that is the admin's. -/
theorem Ruled.untouched_run {s₀ s s' : State} {h h' : History} {admin : Pubkey}
    (fresh : Fresh s₀) (run : presale.Run s₀ h s) (run' : presale.Run s h' s')
    (ruled : Ruled admin h s) (hno : Unsigned admin h') : Untouched s s' := by
  refine run'.invariant (fun h' s' => Unsigned admin h' → Untouched s s') ?_ ?_ hno
  · exact fun _ => ⟨rfl, fun _ => rfl, fun _ => le_rfl⟩
  · intro h' m i s' o hrun ih hstep hno
    have first := ih fun r hr => hno r (List.mem_append_left _ hr)
    have hlast := hno _ (List.mem_append_right _ (List.mem_singleton_self _))
    have second := (ruled.run fresh run hrun).untouched (coherent_of_run fresh (run.append hrun))
      (effect_of_step hstep) hlast
    exact first.trans second

/-- There is one admin: `initialize` succeeds at most once; there is at most one admin record,
its key signed that call, and it stays for ever; every other instruction of the admin that
succeeds is signed by that key, and there is none before the launch; and in every further run
that the key does not sign, the settings and the whitelist stay as they are and no vault loses
tokens.
SRC: state.rs:97-105, initialize.rs:6-67, claim_token.rs:43-74 -/
theorem single_admin (e : Execution) :
    launchCalls e.history ≤ 1 ∧
    (∀ k k' r r', e.final.admins k = some r → e.final.admins k' = some r' → k = k' ∧ r = r') ∧
    ((∀ k, e.final.admins k = none) → ∀ cx i out, privileged i = true →
      runInstruction cx e.final i ≠ .ok out) ∧
    ∀ k r, e.final.admins k = some r →
      (∃ step ∈ e.history, launchedBy r.superAdmin step.input) ∧
      (∀ h s, presale.Run e.final h s → s.admins k = some r) ∧
      (∀ cx i out, privileged i = true → runInstruction cx e.final i = .ok out →
        cx.signed r.superAdmin) ∧
      ∀ h s, presale.Run e.final h s → Unsigned r.superAdmin h → Untouched e.final s := by
  refine ⟨?_, ?_, ?_, ?_⟩
  · rcases ruled_of_run e.fresh e.run with unruled | ⟨admin, ruled⟩
    · exact unruled.never.trans_le (Nat.zero_le _)
    · exact ruled.once.le
  · intro k k' r r' hr hr'
    rcases ruled_of_run e.fresh e.run with unruled | ⟨admin, ruled⟩
    · exact absurd (hr.symm.trans (unruled.admins k)) (Option.some_ne_none _)
    · obtain ⟨rfl, rfl⟩ := (ruled.admins k r).mp hr
      obtain ⟨rfl, rfl⟩ := (ruled.admins k' r').mp hr'
      exact ⟨rfl, rfl⟩
  · intro hnone cx i out hi hok
    obtain ⟨k, signer, hrecord, -⟩ := record_of_privileged (effect_of_instruction hok) hi
    exact absurd (hrecord.symm.trans (hnone k)) (Option.some_ne_none _)
  · intro k r hr
    rcases ruled_of_run e.fresh e.run with unruled | ⟨admin, ruled⟩
    · exact absurd (hr.symm.trans (unruled.admins k)) (Option.some_ne_none _)
    · obtain ⟨rfl, rfl⟩ := (ruled.admins k r).mp hr
      refine ⟨ruled.launch, ?_, ?_, ?_⟩
      · intro h s run
        exact ((ruled.run e.fresh e.run run).admins _ _).mpr ⟨rfl, rfl⟩
      · intro cx i out hi hok
        exact ruled.signs (effect_of_instruction hok) hi
      · intro h s run hno
        exact ruled.untouched_run e.fresh e.run run hno

/-- In the small sale `key 0` signed the launch, and a refused order and a refund of Alice touch
nothing that is the admin's. -/
theorem single_admin_small_sale :
    (∃ r ∈ (Sample.play (Sample.halfSold ++ [Sample.cancel])).history,
      launchedBy (.key 0) r.input) ∧
    Untouched (Sample.play (Sample.halfSold ++ [Sample.cancel])).final
      (presale.exec (Sample.play (Sample.halfSold ++ [Sample.cancel])).final
        [Sample.buy 1 10, Sample.refund 1 (.key 1)]).2 := by
  obtain ⟨-, -, -, hadmin⟩ := single_admin (Sample.play (Sample.halfSold ++ [Sample.cancel]))
  obtain ⟨hlaunch, -, -, huntouched⟩ := hadmin (.adminRole (.key 0)) ⟨.key 0⟩ (by decide +kernel)
  refine ⟨hlaunch, huntouched _ _ (presale.run_exec _ _) ?_⟩
  -- the order is refused in a cancelled presale, so the refund is the whole history
  have hinputs : (presale.exec (Sample.play (Sample.halfSold ++ [Sample.cancel])).final
      [Sample.buy 1 10, Sample.refund 1 (.key 1)]).1.map Record.input =
        [Sample.refund 1 (.key 1)] := by decide +kernel
  intro r hr cx i hi
  have hrefund : r.input = Sample.refund 1 (.key 1) := by
    simpa [hinputs] using List.mem_map_of_mem (f := Record.input) hr
  obtain ⟨rfl, -⟩ := Input.instruction.inj (hi.symm.trans hrefund)
  decide

end TokenPresale.Analysis
