import TokenPresale.Analysis.Coherence
import TokenPresale.Interface.Locality

/-!
# The program neither makes nor destroys money

Over any set of accounts that contains the writable ones of the instructions of a run, the
lamports change only by what comes in and goes out outside the program, and so do the tokens of
every mint: each transfer debits as much as it credits, no transfer changes the mint of what it
moves, and `initialize` opens no vault that holds something.
-/

set_option autoImplicit false

namespace TokenPresale.Analysis

open TokenPresale.Library TokenPresale.Model TokenPresale.Interface

/-- The set contains the accounts that the input may write. -/
def WritesWithin (S : Finset Pubkey) : Input → Prop
  | .instruction _ i => ∀ k ∈ i.writable, k ∈ S
  | _ => True

/-- Whether an input writes within a set is decided by its list of writable accounts. -/
instance (S : Finset Pubkey) (i : Input) : Decidable (WritesWithin S i) :=
  match i with
  | .instruction _ i => inferInstanceAs (Decidable (∀ k ∈ i.writable, k ∈ S))
  | .outside _ => inferInstanceAs (Decidable True)
  | .endTransaction => inferInstanceAs (Decidable True)

/-- The set contains the accounts that the instructions of the history may write. -/
def Covers (S : Finset Pubkey) (h : History) : Prop := ∀ r ∈ h, WritesWithin S r.input

/-- Whether a set covers a history is decided step by step. -/
instance (S : Finset Pubkey) (h : History) : Decidable (Covers S h) :=
  inferInstanceAs (Decidable (∀ r ∈ h, WritesWithin S r.input))

/-- A set covers a longer history if it covers the shorter one and the last input. -/
theorem covers_snoc {S : Finset Pubkey} {h : History} {r : Step} :
    Covers S (h ++ [r]) ↔ Covers S h ∧ WritesWithin S r.input := by
  simp only [Covers, List.mem_append, List.mem_singleton, or_imp, forall_and, forall_eq]

/-! ## Lamports -/

/-- The lamports an input pays into the set from outside the program. -/
def lamportsEntering (S : Finset Pubkey) (r : Step) : ℕ :=
  match r.input with
  | .outside (.payIn k n) => if k ∈ S then n else 0
  | _ => 0

/-- The lamports an input takes out of the set outside the program. -/
def lamportsExiting (S : Finset Pubkey) (r : Step) : ℕ :=
  match r.input with
  | .outside (.payOut k n) => if k ∈ S then n else 0
  | _ => 0

section Step

variable {S : Finset Pubkey} {s s' : State} {log : List LogEntry}

/-- An instruction keeps the lamports of every set that contains its writable accounts. -/
theorem lamports_instruction {cx : Context} {i : Instruction}
    (h : Effect s (.instruction cx i) s' log) (hS : ∀ k ∈ i.writable, k ∈ S) :
    ∑ k ∈ S, s'.lamports k = ∑ k ∈ S, s.lamports k := by
  cases h with
  | @initializePresale _ a args p ok =>
    have hnamed : ∀ k ∈ [.tokenVault a.tokenMint, .adminRole a.admin, .escrowVault, .presaleInfo],
        k ∈ (Instruction.initializePresale a args).writable := by
      simp [Instruction.writable, ok.tokenVault, ok.adminAccount, ok.escrowAccount,
        ok.presaleAccount]
    apply sum_disburse (hS _ (by simp [Instruction.writable])) _ ok.payer
    intro q hq
    have hmem := mem_initFunding.mp (List.mem_map_of_mem hq)
    have hpda : q.1.isPda = true := by
      simp only [List.mem_cons, List.not_mem_nil, or_false] at hmem
      rcases hmem with hq | hq | hq | hq <;> (rw [hq]; rfl)
    exact ⟨hS _ (hnamed _ hmem), ne_of_signed ok.signed hpda⟩
  | @buy _ a amount p u ok =>
    have hescrow : .escrowVault ∈ (Instruction.buyToken a amount).writable := by
      simp [Instruction.writable, ok.escrowAccount]
    exact sum_move (hS _ (by simp [Instruction.writable])) (hS _ hescrow)
      (fill_cost_le.trans ok.funded)
  | @refund _ a p u ok =>
    have hescrow : .escrowVault ∈ (Instruction.refundToken a).writable := by
      simp [Instruction.writable, ok.escrowAccount]
    exact sum_move (hS _ hescrow) (hS _ (by simp [Instruction.writable])) ok.funded
  | @add _ a p ok =>
    have huser : .userRole a.authority ∈ (Instruction.addWhitelist a).writable := by
      simp [Instruction.writable, ok.userAccount]
    exact sum_move (hS _ (by simp [Instruction.writable])) (hS _ huser) ok.payer
  | @finalizePays _ a f p ok =>
    have hescrow : .escrowVault ∈ (Instruction.finalize a f).writable := by
      simp [Instruction.writable, ok.escrowAccount]
    exact sum_move (hS _ hescrow) (hS _ (by simp [Instruction.writable])) ok.funded
  | @withdraw _ a p ok =>
    have hescrow : .escrowVault ∈ (Instruction.withdraw a).writable := by
      simp [Instruction.writable, ok.escrowAccount]
    exact sum_move (hS _ hescrow) (hS _ (by simp [Instruction.writable])) le_rfl
  | _ => rfl

/-- An outside move changes the lamports of a set by what enters and what exits. -/
theorem lamports_outside {o : Outside} (h : runOutside s o = .ok s') :
    ∑ k ∈ S, s'.lamports k + lamportsExiting S ⟨s, .outside o, log⟩ =
      ∑ k ∈ S, s.lamports k + lamportsEntering S ⟨s, .outside o, log⟩ := by
  cases o with
  | payIn x n =>
    simp only [runOutside, bind_eq_ok, checkedAdd_eq_ok, pure_eq_ok] at h
    obtain ⟨_, ⟨-, rfl⟩, rfl⟩ := h
    simp only [lamportsExiting, lamportsEntering]
    split_ifs with hx
    · have htrade := sum_update_trade s.lamports hx (s.lamports x + n)
      omega
    · rw [sum_update_of_notMem s.lamports hx]
  | payOut x n =>
    simp only [runOutside, bind_eq_ok, failIf_eq_ok, checkedSub_eq_ok, pure_eq_ok] at h
    obtain ⟨_, -, _, ⟨hle, rfl⟩, rfl⟩ := h
    simp only [lamportsExiting, lamportsEntering]
    split_ifs with hx
    · have htrade := sum_update_trade s.lamports hx (s.lamports x - n)
      omega
    · rw [sum_update_of_notMem s.lamports hx]
  | createMint | openToken | tokensIn | tokensOut =>
    have hkept : s'.lamports = s.lamports := by
      cases outsideEffect_of_ok h
      rfl
    simp only [hkept, lamportsExiting, lamportsEntering]

/-- One step changes the lamports of a covering set only by what crosses its border. -/
theorem lamports_step {i : Input} (h : Effect s i s' log)
    (hS : WritesWithin S i) :
    ∑ k ∈ S, s'.lamports k + lamportsExiting S ⟨s, i, log⟩ =
      ∑ k ∈ S, s.lamports k + lamportsEntering S ⟨s, i, log⟩ := by
  cases i with
  | instruction cx j =>
    simp only [lamportsExiting, lamportsEntering, Nat.add_zero]
    exact lamports_instruction h hS
  | outside o =>
    cases h with
    | outside ok => exact lamports_outside ok
  | endTransaction =>
    cases h
    rfl

end Step

/-- The lamports of a run are conserved: over every set of accounts that contains those the run's
instructions may write, what is there at the end and what went out outside the program is what was
there at the start and what came in. -/
theorem lamports_conserved (e : Execution) (S : Finset Pubkey) (hS : Covers S e.history) :
    ∑ k ∈ S, e.final.lamports k + tally (lamportsExiting S) e.history =
      ∑ k ∈ S, e.genesis.lamports k + tally (lamportsEntering S) e.history := by
  refine e.run.invariant (fun h s => Covers S h → ∑ k ∈ S, s.lamports k +
    tally (lamportsExiting S) h = ∑ k ∈ S, e.genesis.lamports k + tally (lamportsEntering S) h)
      (fun _ => rfl) ?_ hS
  intro h s i s' o _ ih hstep hcovers
  obtain ⟨hbefore, hlast⟩ := covers_snoc.mp hcovers
  have balance := lamports_step (effect_of_step hstep) hlast
  have before := ih hbefore
  simp only [tally_append, tally_cons, tally_nil, Nat.add_zero]
  omega

/-- The accounts of the small sale. -/
def sampleSet : Finset Pubkey :=
  {.key 0, .key 1, .key 2, .key 9, .key 10, .key 11, .key 12, Sample.mint, .escrowVault,
    .presaleInfo, .adminRole (.key 0), .userRole (.key 1), .userRole (.key 2),
    .tokenVault Sample.mint}

/-- The small sale with a donation of 5 lamports, a payment of 7 by Alice to a stranger, a refund
of Alice and a claim that is refused. -/
def sampleTraffic : List Input :=
  Sample.opening ++ [.outside (.payIn .escrowVault 5), .outside (.payOut (.key 1) 7),
    Sample.cancel, Sample.refund 1 (.key 1), Sample.claim 1 (.key 11)]

/-- In a small sale with traffic from outside, what entered is 5 and what left is 7. -/
theorem lamports_conserved_small_sale :
    ∑ k ∈ sampleSet, (Sample.play sampleTraffic).final.lamports k + 7 =
      ∑ k ∈ sampleSet, Sample.genesis.lamports k + 5 := by
  have hout : tally (lamportsExiting sampleSet) (Sample.play sampleTraffic).history = 7 := by
    decide +kernel
  have hin : tally (lamportsEntering sampleSet) (Sample.play sampleTraffic).history = 5 := by
    decide +kernel
  have conserved := lamports_conserved (Sample.play sampleTraffic) sampleSet (by decide +kernel)
  rwa [hout, hin] at conserved

/-! ## Tokens -/

/-- The tokens of the mint `m` in the account at `k`. -/
def mintBalance (m : Pubkey) (t : Pubkey → Option TokenAccount) (k : Pubkey) : ℕ :=
  (t k).elim 0 fun a => if a.mint = m then a.amount else 0

/-- The tokens of the mint `m` that an input pays into the set from outside the program. -/
def tokensEntering (m : Pubkey) (S : Finset Pubkey) (r : Step) : ℕ :=
  match r.input with
  | .outside (.tokensIn k n) =>
    if k ∈ S ∧ (r.before.tokens k).map TokenAccount.mint = some m then n else 0
  | _ => 0

/-- The tokens of the mint `m` that an input takes out of the set outside the program; opening an
account anew takes what it held. -/
def tokensExiting (m : Pubkey) (S : Finset Pubkey) (r : Step) : ℕ :=
  match r.input with
  | .outside (.tokensOut k n) => if k ∈ S then min n (mintBalance m r.before.tokens k) else 0
  | .outside (.openToken k _ _) => if k ∈ S then mintBalance m r.before.tokens k else 0
  | _ => 0

/-- Setting a token account sets its balance in the mint. -/
theorem mintBalance_update (m : Pubkey) (t : Pubkey → Option TokenAccount) (x : Pubkey)
    (v : Option TokenAccount) :
    mintBalance m (Function.update t x v) =
      Function.update (mintBalance m t) x
        (v.elim 0 fun a => if a.mint = m then a.amount else 0) := by
  funext k
  rcases eq_or_ne k x with rfl | hne
  · rw [Function.update_self, mintBalance, Function.update_self]
  · rw [Function.update_of_ne hne, mintBalance, mintBalance, Function.update_of_ne hne]

/-- The balance in a mint of an account that exists is its amount, if it is of that mint. -/
theorem mintBalance_of_some {m : Pubkey} {t : Pubkey → Option TokenAccount} {k : Pubkey}
    {a : TokenAccount} (ha : t k = some a) :
    mintBalance m t k = if a.mint = m then a.amount else 0 := by
  rw [mintBalance, ha, Option.elim_some]

/-- Between two accounts of one mint, tokens of this mint move as lamports do, and no tokens of
another mint move. -/
theorem mintBalance_moveTokens {m : Pubkey} {t : Pubkey → Option TokenAccount} {src dst : Pubkey}
    {n : ℕ} {a b : TokenAccount} (ha : t src = some a) (hb : t dst = some b)
    (hmint : a.mint = b.mint) (hn : n ≤ a.amount) :
    mintBalance m (moveTokens t src dst n) =
      if a.mint = m then move (mintBalance m t) src dst n else mintBalance m t := by
  have hsrc := mintBalance_of_some (m := m) ha
  have hdst := mintBalance_of_some (m := m) hb
  rcases eq_or_ne src dst with rfl | hne
  · rw [moveTokens_self ha hn]
    split_ifs with hm
    · rw [if_pos hm] at hsrc
      rw [move_self (by omega)]
    · rfl
  · have hmoved : moveTokens t src dst n =
        Function.update (Function.update t src (some { a with amount := a.amount - n })) dst
          (some { b with amount := b.amount + n }) := by
      simp [moveTokens, ha, hb, hne.symm]
    rw [hmoved, mintBalance_update, mintBalance_update, Option.elim_some, Option.elim_some]
    rw [← hmint] at hdst ⊢
    split_ifs at hsrc hdst ⊢ with hm
    · rw [move, Function.update_of_ne hne.symm, hsrc, hdst]
    · rw [← hsrc, Function.update_eq_self, hsrc, ← hdst, Function.update_eq_self]

/-- A transfer between accounts of the set keeps the tokens of every mint. -/
theorem sum_mintBalance_moveTokens {m : Pubkey} {S : Finset Pubkey}
    {t : Pubkey → Option TokenAccount} {src dst : Pubkey} {n : ℕ} {a b : TokenAccount}
    (hs : src ∈ S) (hd : dst ∈ S) (ha : t src = some a) (hb : t dst = some b)
    (hmint : a.mint = b.mint) (hn : n ≤ a.amount) :
    ∑ k ∈ S, mintBalance m (moveTokens t src dst n) k = ∑ k ∈ S, mintBalance m t k := by
  rw [mintBalance_moveTokens ha hb hmint hn]
  split_ifs with hm
  · apply sum_move hs hd
    rw [mintBalance_of_some ha, if_pos hm]
    exact hn
  · rfl

/-- Rewriting one account changes the sum by what it holds. -/
theorem sum_mintBalance_update {m : Pubkey} {S : Finset Pubkey} (t : Pubkey → Option TokenAccount)
    {x : Pubkey} (hx : x ∈ S) (v : Option TokenAccount) :
    ∑ k ∈ S, mintBalance m (Function.update t x v) k + mintBalance m t x =
      ∑ k ∈ S, mintBalance m t k + v.elim 0 fun a => if a.mint = m then a.amount else 0 := by
  rw [mintBalance_update]
  exact sum_update_trade _ hx _

/-- Setting a token account outside a set leaves the set's tokens alone. -/
theorem sum_mintBalance_update_of_notMem {m : Pubkey} {S : Finset Pubkey}
    (t : Pubkey → Option TokenAccount) {x : Pubkey} (hx : x ∉ S) (v : Option TokenAccount) :
    ∑ k ∈ S, mintBalance m (Function.update t x v) k = ∑ k ∈ S, mintBalance m t k := by
  rw [mintBalance_update]
  exact sum_update_of_notMem _ hx _

section Step

variable {S : Finset Pubkey} {s s' : State} {log : List LogEntry}

/-- An instruction keeps the tokens of every mint. -/
theorem Coherent.tokens_instruction (c : Coherent s) {cx : Context} {i : Instruction}
    (h : Effect s (.instruction cx i) s' log) (hS : ∀ k ∈ i.writable, k ∈ S) (m : Pubkey) :
    ∑ k ∈ S, mintBalance m s'.tokens k = ∑ k ∈ S, mintBalance m s.tokens k := by
  cases h with
  | @initializePresale _ a args p ok =>
    have hvault : .tokenVault a.tokenMint ∈ S := by
      apply hS
      simp [Instruction.writable, ok.tokenVault]
    have htrade := sum_mintBalance_update (m := m) s.tokens hvault (some ⟨a.tokenMint, a.admin, 0⟩)
    simp only [mintBalance, c.no_vault ok, Option.elim_none, Option.elim_some, ite_self,
      Nat.add_zero] at htrade
    exact htrade
  | @claim _ a p u v t ok =>
    have hvault : .tokenVault a.tokenMint ∈ (Instruction.claimToken a).writable := by
      simp [Instruction.writable, ok.tokenVault]
    exact sum_mintBalance_moveTokens (hS _ hvault) (hS _ (by simp [Instruction.writable]))
      ok.vault ok.tokenTo ok.sameMint ok.backed
  | @deposit _ a mint amount p f v ok =>
    have hvault : .tokenVault a.tokenMint ∈
        (Instruction.depositToken a mint amount).writable := by
      simp [Instruction.writable, ok.tokenVault]
    exact sum_mintBalance_moveTokens (hS _ (by simp [Instruction.writable])) (hS _ hvault)
      ok.tokenFrom ok.vault ok.sameMint ok.funded
  | @withdrawToken _ a p v t ok =>
    have hvault : .tokenVault a.tokenMint ∈ (Instruction.withdrawToken a).writable := by
      simp [Instruction.writable, ok.tokenVault]
    exact sum_mintBalance_moveTokens (hS _ hvault) (hS _ (by simp [Instruction.writable]))
      ok.vault ok.tokenTo ok.sameMint le_rfl
  | _ => rfl

/-- An outside move changes the tokens of a set by what enters and what exits. -/
theorem tokens_outside {o : Outside} (h : runOutside s o = .ok s') (m : Pubkey) :
    ∑ k ∈ S, mintBalance m s'.tokens k + tokensExiting m S ⟨s, .outside o, log⟩ =
      ∑ k ∈ S, mintBalance m s.tokens k + tokensEntering m S ⟨s, .outside o, log⟩ := by
  cases outsideEffect_of_ok h with
  | payIn | payOut | createMint => rfl
  | @openToken x mint owner =>
    simp only [tokensExiting, tokensEntering]
    split_ifs with hx
    · have htrade := sum_mintBalance_update (m := m) s.tokens hx (some ⟨mint, owner, 0⟩)
      simpa only [Option.elim_some, ite_self] using htrade
    · rw [sum_mintBalance_update_of_notMem s.tokens hx]
  | @tokensIn x n =>
    simp only [tokensExiting, tokensEntering, setTokens]
    by_cases hx : x ∈ S
    · cases ht : s.tokens x with
      | none =>
        have hsame : Function.update s.tokens x none = s.tokens := by
          rw [← ht, Function.update_eq_self]
        simp [hsame]
      | some t =>
        have htrade := sum_mintBalance_update (m := m) s.tokens hx
          (some { t with amount := t.amount + n })
        rw [mintBalance_of_some ht] at htrade
        simp only [Option.map_some, Option.elim_some] at htrade ⊢
        by_cases hm : t.mint = m
        · simp only [hm, hx, if_true, and_self] at htrade ⊢
          omega
        · simp only [hm, if_false] at htrade
          simpa [hm] using htrade
    · rw [sum_mintBalance_update_of_notMem s.tokens hx, if_neg fun hboth => hx hboth.1]
  | @tokensOut x n hpda =>
    simp only [tokensExiting, tokensEntering, setTokens]
    split_ifs with hx
    · cases ht : s.tokens x with
      | none =>
        have hsame : Function.update s.tokens x none = s.tokens := by
          rw [← ht, Function.update_eq_self]
        simp [hsame, mintBalance, ht]
      | some t =>
        have htrade := sum_mintBalance_update (m := m) s.tokens hx
          (some { t with amount := t.amount - n })
        rw [mintBalance_of_some ht] at htrade ⊢
        simp only [Option.map_some, Option.elim_some] at htrade ⊢
        split_ifs at htrade ⊢ <;> omega
    · rw [sum_mintBalance_update_of_notMem s.tokens hx]

/-- One step changes the tokens of a covering set only by what crosses its border. -/
theorem Coherent.tokens_step (c : Coherent s) {i : Input} (h : Effect s i s' log)
    (hS : WritesWithin S i) (m : Pubkey) :
    ∑ k ∈ S, mintBalance m s'.tokens k + tokensExiting m S ⟨s, i, log⟩ =
      ∑ k ∈ S, mintBalance m s.tokens k + tokensEntering m S ⟨s, i, log⟩ := by
  cases i with
  | instruction cx j =>
    simp only [tokensExiting, tokensEntering, Nat.add_zero]
    exact c.tokens_instruction h hS m
  | outside o =>
    cases h with
    | outside ok => exact tokens_outside ok m
  | endTransaction =>
    cases h
    rfl

end Step

/-- The tokens of every mint are conserved: over every set of accounts that contains those the run's
instructions may write, what is there at the end and what went out outside the program is what was
there at the start and what came in. So no instruction pays tokens of one mint for those of
another.
SRC: deposit_token.rs:39-59, claim_token.rs:43-83, withdraw_token.rs:38-60 -/
theorem tokens_conserved (e : Execution) (S : Finset Pubkey) (hS : Covers S e.history)
    (m : Pubkey) :
    ∑ k ∈ S, mintBalance m e.final.tokens k + tally (tokensExiting m S) e.history =
      ∑ k ∈ S, mintBalance m e.genesis.tokens k + tally (tokensEntering m S) e.history := by
  refine (e.run.invariant (fun h s => presale.Run e.genesis h s ∧ (Covers S h →
    ∑ k ∈ S, mintBalance m s.tokens k + tally (tokensExiting m S) h =
      ∑ k ∈ S, mintBalance m e.genesis.tokens k + tally (tokensEntering m S) h))
        ⟨.start, fun _ => rfl⟩ ?_).2 hS
  rintro h s i s' o hrun ⟨-, ih⟩ hstep
  refine ⟨hrun.next hstep, fun hcovers => ?_⟩
  obtain ⟨hbefore, hlast⟩ := covers_snoc.mp hcovers
  have c := coherent_of_run e.fresh hrun
  have balance := c.tokens_step (effect_of_step hstep) hlast m
  have before := ih hbefore
  simp only [tally_append, tally_cons, tally_nil, Nat.add_zero]
  omega

/-- The small sale to its end: a forced settlement, both claims and the withdrawal of the rest. -/
def sampleSettled : List Input :=
  Sample.opening ++ [Sample.finalize 1101 1, Sample.claim 1 (.key 11), Sample.claim 2 (.key 12),
    .outside (.tokensOut (.key 11) 4), Sample.withdrawToken]

/-- In a settled small sale the 4 tokens that Alice spends elsewhere are all that left. -/
theorem tokens_conserved_small_sale :
    ∑ k ∈ sampleSet, mintBalance Sample.mint (Sample.play sampleSettled).final.tokens k + 4 =
      ∑ k ∈ sampleSet, mintBalance Sample.mint Sample.genesis.tokens k := by
  have hout : tally (tokensExiting Sample.mint sampleSet) (Sample.play sampleSettled).history =
      4 := by decide +kernel
  have hin : tally (tokensEntering Sample.mint sampleSet) (Sample.play sampleSettled).history =
      0 := by decide +kernel
  have conserved := tokens_conserved (Sample.play sampleSettled) sampleSet (by decide +kernel)
    Sample.mint
  rwa [hout, hin] at conserved

end TokenPresale.Analysis
