import TokenPresale.Analysis.Refusals
import TokenPresale.Analysis.Settlement

/-!
# The phases of a presale

The two flags of the record put a presale in one of four phases after its launch. The table of
this file says which entry points a phase admits and what phases they can lead to, and it is
exact: every passage of the table happens in some run, and no run makes another. From the table:
which phases can follow which, whatever the calls and their order.
-/

set_option autoImplicit false

namespace TokenPresale.Analysis

open TokenPresale.Library TokenPresale.Model TokenPresale.Interface

/-! ## Phases -/

/-- Where a presale stands. -/
inductive Phase
  | unlaunched
  | selling
  | finalized
  | cancelled
  | finalizedCancelled
deriving DecidableEq

/-- The phases. -/
def Phase.all : List Phase := [unlaunched, selling, finalized, cancelled, finalizedCancelled]

/-- The list of phases leaves none out. -/
theorem Phase.mem_all (a : Phase) : a ∈ Phase.all := by
  cases a <;> decide

/-- The phase of a presale record: its flags as the handlers test them, against zero. -/
def phaseOfRecord (p : PresaleAccount) : Phase :=
  if p.isCancelled = 0 then
    if p.isFinalized = 0 then .selling else .finalized
  else
    if p.isFinalized = 0 then .cancelled else .finalizedCancelled

/-- The phase of a state. -/
def phaseOf (s : State) : Phase := s.presale.elim .unlaunched phaseOfRecord

/-- Once there is a presale record, the phase is that of the record. -/
theorem phaseOf_of_some {s : State} {p : PresaleAccount} (hp : s.presale = some p) :
    phaseOf s = phaseOfRecord p := by
  rw [phaseOf, hp, Option.elim_some]

/-- The check of `state.rs` that no handler calls and the test that `refund_token` makes in its
place agree after every run, though one compares with one and the other with zero.
SRC: state.rs:114-119, refund_token.rs:30-32 -/
theorem cancelled_tests_agree {s₀ s : State} {h : History} (fresh : Fresh s₀)
    (run : presale.Run s₀ h s) {p : PresaleAccount} (hp : s.presale = some p) :
    isCancelled p = .ok () ↔ p.isCancelled ≠ 0 := by
  have := (flags_le_one fresh run hp).2
  rw [isCancelled_eq_ok]
  omega

/-- The phases that a call of an entry point can lead to. -/
def EntryPoint.next (k : EntryPoint) : Phase → List Phase
  | .unlaunched => if k = .initializePresale then [.selling] else []
  | .selling =>
    match k with
    | buyToken | updatePresaleDetails | addWhitelist | removeWhitelist | depositToken => [.selling]
    | cancelPresale => [.cancelled]
    | finalize => [.finalized, .cancelled]
    | _ => []
  | .finalized =>
    match k with
    | buyToken | claimToken | updatePresaleDetails | addWhitelist | removeWhitelist
    | depositToken | withdrawToken | withdraw => [.finalized]
    | cancelPresale => [.finalizedCancelled]
    | finalize => [.finalized, .finalizedCancelled]
    | _ => []
  | .cancelled =>
    match k with
    | refundToken | cancelPresale | updatePresaleDetails | addWhitelist | removeWhitelist
    | finalize | depositToken => [.cancelled]
    | _ => []
  | .finalizedCancelled =>
    match k with
    | refundToken | claimToken | cancelPresale | updatePresaleDetails | addWhitelist
    | removeWhitelist | finalize | depositToken => [.finalizedCancelled]
    | _ => []

/-- The phases that can follow a phase, itself included. -/
def Phase.later : Phase → List Phase
  | unlaunched => [unlaunched, selling, finalized, cancelled, finalizedCancelled]
  | selling => [selling, finalized, cancelled, finalizedCancelled]
  | finalized => [finalized, finalizedCancelled]
  | cancelled => [cancelled]
  | finalizedCancelled => [finalizedCancelled]

/-! ## No other passage -/

section Passages

variable {s s' : State} {cx : Context} {i : Instruction} {log : List LogEntry}

/-- A call that leaves both flags as they are leaves the phase as it is. -/
theorem phase_same {k : EntryPoint} {p p' : PresaleAccount} (hp : s.presale = some p)
    (hp' : s'.presale = some p') (hfin : p'.isFinalized = p.isFinalized)
    (hcan : p'.isCancelled = p.isCancelled) (h : phaseOfRecord p ∈ k.next (phaseOfRecord p)) :
    phaseOf s' ∈ k.next (phaseOf s) := by
  have hsame : phaseOfRecord p' = phaseOfRecord p := by
    rw [phaseOfRecord, hfin, hcan, phaseOfRecord]
  rwa [phaseOf_of_some hp, phaseOf_of_some hp', hsame]

/-- The calls that every phase of a launched presale admits. -/
theorem phase_kept (p : PresaleAccount) :
    ∀ k ∈ [EntryPoint.updatePresaleDetails, .addWhitelist, .removeWhitelist, .depositToken],
      phaseOfRecord p ∈ k.next (phaseOfRecord p) := by
  intro k hk
  simp only [List.mem_cons, List.not_mem_nil, or_false] at hk
  unfold phaseOfRecord
  rcases hk with rfl | rfl | rfl | rfl <;> split_ifs <;> decide

/-- A sale that is not cancelled admits orders. -/
theorem phase_kept_open {p : PresaleAccount} (hcan : p.isCancelled = 0) :
    phaseOfRecord p ∈ EntryPoint.buyToken.next (phaseOfRecord p) := by
  rw [phaseOfRecord, if_pos hcan]
  by_cases hfin : p.isFinalized = 0
  · rw [if_pos hfin]
    decide
  · rw [if_neg hfin]
    decide

/-- A cancelled one refunds. -/
theorem phase_kept_shut {p : PresaleAccount} (hcan : p.isCancelled ≠ 0) :
    phaseOfRecord p ∈ EntryPoint.refundToken.next (phaseOfRecord p) := by
  rw [phaseOfRecord, if_neg hcan]
  by_cases hfin : p.isFinalized = 0
  · rw [if_pos hfin]
    decide
  · rw [if_neg hfin]
    decide

/-- A finalized one, cancelled or not, hands out tokens. -/
theorem phase_kept_finalized {p : PresaleAccount} (hfin : p.isFinalized ≠ 0) :
    phaseOfRecord p ∈ EntryPoint.claimToken.next (phaseOfRecord p) := by
  rw [phaseOfRecord, if_neg hfin, if_neg hfin]
  by_cases hcan : p.isCancelled = 0
  · rw [if_pos hcan]
    decide
  · rw [if_neg hcan]
    decide

/-- A finalized one that is not cancelled pays out to the admin. -/
theorem phase_kept_settled {p : PresaleAccount} (hfin : p.isFinalized ≠ 0)
    (hcan : p.isCancelled = 0) :
    ∀ k ∈ [EntryPoint.withdrawToken, .withdraw], phaseOfRecord p ∈ k.next (phaseOfRecord p) := by
  rw [phaseOfRecord, if_pos hcan, if_neg hfin]
  decide

/-- `cancel_presale` leads from each phase to where the table says. -/
theorem phase_of_cancel (p : PresaleAccount) :
    phaseOfRecord { p with isCancelled := 1 } ∈
      EntryPoint.cancelPresale.next (phaseOfRecord p) := by
  unfold phaseOfRecord
  split_ifs <;> first | decide | contradiction

/-- `finalize` on a presale that it pays for. -/
theorem phase_of_finalize {p : PresaleAccount} (hcan : p.isCancelled = 0) :
    phaseOfRecord { p with isFinalized := 1 } ∈ EntryPoint.finalize.next (phaseOfRecord p) := by
  unfold phaseOfRecord
  rw [if_pos hcan, if_pos hcan, if_neg one_ne_zero]
  split_ifs <;> decide

/-- `finalize` on a presale that it does not pay for leaves it cancelled. -/
theorem phase_of_closed {f : UInt8} {p : PresaleAccount} (hcan : (closed f p).isCancelled ≠ 0) :
    phaseOfRecord (closed f p) ∈ EntryPoint.finalize.next (phaseOfRecord p) := by
  have hfin : (closed f p).isFinalized = p.isFinalized := by
    unfold closed
    split_ifs <;> rfl
  unfold phaseOfRecord
  rw [if_neg hcan, hfin]
  split_ifs <;> decide

/-- One call, from a state whose records are where they belong and whose flags are zero or one. -/
theorem Coherent.phase_step (c : Coherent s)
    (hflags : ∀ p, s.presale = some p → p.isFinalized ≤ 1 ∧ p.isCancelled ≤ 1)
    (h : Effect s (.instruction cx i) s' log) :
    phaseOf s' ∈ (entryPoint i).next (phaseOf s) := by
  -- the tests against one and against zero are the same on these flags
  have hzero : ∀ {p}, s.presale = some p → p.isCancelled ≠ 1 → p.isCancelled = 0 := by
    intro p hp hne
    have := (hflags p hp).2
    omega
  cases h with
  | @initializePresale _ a args p ok =>
    obtain ⟨-, -, -, hrecord⟩ := initialPresale_eq_ok.mp ok.record
    have hnew : phaseOf (afterInitialize cx a s p) = .selling := by
      rw [phaseOf_of_some (p := p) rfl, ← hrecord]
      rfl
    rw [hnew, phaseOf, c.not_launched ok, Option.elim_none]
    exact List.mem_singleton_self _
  | buy ok =>
    exact phase_same ok.presale rfl rfl rfl
      (phase_kept_open (hzero ok.presale ok.notCancelled))
  | refundNothing ok _ =>
    exact phase_same ok.presale ok.presale rfl rfl (phase_kept_shut ok.cancelled)
  | refund ok => exact phase_same ok.presale rfl rfl rfl (phase_kept_shut ok.cancelled)
  | claim ok => exact phase_same ok.presale ok.presale rfl rfl (phase_kept_finalized ok.finalized)
  | @cancel _ a p ok =>
    rw [phaseOf_of_some ok.presale, phaseOf_of_some (p := { p with isCancelled := 1 }) rfl]
    exact phase_of_cancel p
  | update ok | add ok | remove ok =>
    exact phase_same ok.presale rfl rfl rfl (phase_kept _ _ (by simp [entryPoint]))
  | @finalizePays _ a f p ok =>
    have hcan := ok.notCancelled
    rw [closed_of_notCancelled hcan] at hcan
    rw [phaseOf_of_some ok.presale, phaseOf_of_some (p := { p with isFinalized := 1 }) rfl]
    exact phase_of_finalize hcan
  | @finalizeCancelled _ a f p ok hcan =>
    rw [phaseOf_of_some ok.presale, phaseOf_of_some (p := closed f p) rfl]
    exact phase_of_closed hcan
  | deposit ok =>
    exact phase_same ok.presale ok.presale rfl rfl (phase_kept _ _ (by simp [entryPoint]))
  | withdrawToken ok =>
    exact phase_same ok.presale rfl rfl rfl (phase_kept_settled ok.finalized
      (hzero ok.presale ok.notCancelled) _ (by simp [entryPoint]))
  | withdraw ok =>
    exact phase_same ok.presale ok.presale rfl rfl (phase_kept_settled ok.finalized
      (hzero ok.presale ok.notCancelled) _ (by simp [entryPoint]))

/-- Whatever is not a call leaves the phase as it is. -/
theorem phase_elsewhere {i : Input} (h : Effect s i s' log)
    (hno : ∀ cx i', i ≠ .instruction cx i') : phaseOf s' = phaseOf s := by
  cases h with
  | outside ok => rw [phaseOf, (runOutside_frame ok).presale, phaseOf]
  | endTransaction => rfl
  | _ => exact absurd rfl (hno _ _)

/-- A call leads to a later phase, or leaves the phase as it is. -/
theorem EntryPoint.next_later (k : EntryPoint) (a : Phase) : ∀ b ∈ k.next a, b ∈ a.later := by
  cases k <;> cases a <;> decide

/-- Every phase is as late as itself. -/
theorem Phase.later_refl (a : Phase) : a ∈ a.later := by
  cases a <;> decide

/-- Later than later is later. -/
theorem Phase.later_trans (a : Phase) : ∀ b ∈ a.later, ∀ c ∈ b.later, c ∈ a.later := by
  cases a <;> decide

/-- A run only goes to later phases. -/
theorem phase_later {s₀ : State} {h h' : History} (fresh : Fresh s₀) (run : presale.Run s₀ h s)
    (run' : presale.Run s h' s') : phaseOf s' ∈ (phaseOf s).later := by
  refine (run'.invariant (fun h' s' => presale.Run s h' s' ∧ phaseOf s' ∈ (phaseOf s).later)
    ?_ ?_).2
  · exact ⟨.start, (phaseOf s).later_refl⟩
  · rintro h₁ t i t' o run₁ ⟨-, ih⟩ hstep
    refine ⟨run₁.next hstep, ?_⟩
    have whole := run.append run₁
    have effect := effect_of_step hstep
    cases i with
    | instruction cx i =>
      have hnext := (coherent_of_run fresh whole).phase_step
        (fun p hp => flags_le_one fresh whole hp) effect
      exact (phaseOf s).later_trans _ ih _ (EntryPoint.next_later _ _ _ hnext)
    | outside o =>
      rw [phase_elsewhere effect (by simp)]
      exact ih
    | endTransaction =>
      rw [phase_elsewhere effect (by simp)]
      exact ih

end Passages

/-! ## Every passage of the table -/

namespace Sample

open Model.Sample

/-- Runs of the small sale, one to each phase. -/
def stages : List (List Input) :=
  [[], halfSold, closed, halfSold ++ [cancel], closed ++ [cancel]]

/-- A call of every entry point, and a second one of `finalize`, after the end of the sale. -/
def calls : List Input :=
  [launch, buy 1 10, refund 1 (.key 1), claim 1 (.key 11), cancel,
   .instruction (context 0 1003) (.updatePresaleDetails adminOnly 1000 1200), list 2, delist 1,
   finalize 1004 1, finalize 1101 0, deposit 10, withdrawToken, withdraw]

end Sample

/-- The passage that an input makes, if it is a call and succeeds. -/
def passage (inputs : List Input) : Input → Option (EntryPoint × Phase × Phase)
  | .instruction cx i =>
    match runInstruction cx (Sample.play inputs).final i with
    | .ok (s', _) => some (entryPoint i, phaseOf (Sample.play inputs).final, phaseOf s')
    | .error _ => none
  | _ => none

/-- The passages that the calls make from the ends of the runs. -/
def passages : List (EntryPoint × Phase × Phase) :=
  Sample.stages.flatMap fun inputs => Sample.calls.filterMap (passage inputs)

/-- The calls make every passage of the table. -/
theorem mem_passages {k : EntryPoint} {a b : Phase} (h : b ∈ k.next a) :
    (k, a, b) ∈ passages := by
  have hall : ∀ k ∈ EntryPoint.all, ∀ a ∈ Phase.all, ∀ b ∈ k.next a, (k, a, b) ∈ passages := by
    decide +kernel
  exact hall k k.mem_all a a.mem_all b h

/-- What a passage of the list is. -/
theorem passage_of_mem {k : EntryPoint} {a b : Phase} (h : (k, a, b) ∈ passages) :
    ∃ (e : Execution) (cx : Context) (i : Instruction) (s' : State) (log : List LogEntry),
      entryPoint i = k ∧ phaseOf e.final = a ∧ runInstruction cx e.final i = .ok (s', log) ∧
        phaseOf s' = b := by
  obtain ⟨inputs, -, hmem⟩ := List.mem_flatMap.mp h
  obtain ⟨i, -, hpass⟩ := List.mem_filterMap.mp hmem
  cases i with
  | instruction cx i =>
    cases hrun : runInstruction cx (Sample.play inputs).final i with
    | error e => simp [passage, hrun] at hpass
    | ok out =>
      obtain ⟨s', log⟩ := out
      simp only [passage, hrun, Option.some.injEq, Prod.mk.injEq] at hpass
      obtain ⟨hk, ha, hb⟩ := hpass
      exact ⟨Sample.play inputs, cx, i, s', log, hk, ha, hrun, hb⟩
  | _ => simp [passage] at hpass

/-- The phase table is exact. After some run of the program a call of the entry point `k` takes a
presale from the phase `a` to the phase `b` if and only if the table lists `b`.
SRC: the tests and assignments of `is_finalized` and `is_cancelled` in instructions/ -/
theorem phase_table (k : EntryPoint) (a b : Phase) :
    (∃ (e : Execution) (cx : Context) (i : Instruction) (s' : State) (log : List LogEntry),
      entryPoint i = k ∧ phaseOf e.final = a ∧ runInstruction cx e.final i = .ok (s', log) ∧
        phaseOf s' = b) ↔ b ∈ k.next a := by
  constructor
  · rintro ⟨e, cx, i, s', log, rfl, rfl, h, rfl⟩
    exact (coherent_of_run e.fresh e.run).phase_step
      (fun p hp => flags_le_one e.fresh e.run hp) (effect_of_instruction h)
  · intro hb
    exact passage_of_mem (mem_passages hb)

/-- Which phases follow which over whole runs: from a reachable state in the phase `a` some run goes
on to the phase `b` if and only if `b` is later. A cancelled presale that was not finalized stays
so, and no presale returns to an earlier phase. -/
theorem phases_reachable (a b : Phase) :
    (∃ (e : Execution) (h : History) (s : State), phaseOf e.final = a ∧
      presale.Run e.final h s ∧ phaseOf s = b) ↔ b ∈ a.later := by
  constructor
  · rintro ⟨e, h, s, rfl, run, rfl⟩
    exact phase_later e.fresh e.run run
  · intro hb
    have hall : ∀ a ∈ Phase.all, ∀ b ∈ a.later, ∃ first ∈ Sample.stages,
        ∃ rest ∈ Sample.stages, phaseOf (Sample.play first).final = a ∧
          phaseOf (presale.exec (Sample.play first).final (rest.drop first.length)).2 = b := by
      decide +kernel
    obtain ⟨first, -, rest, -, ha, hb⟩ := hall a a.mem_all b hb
    exact ⟨Sample.play first, _, _, ha, presale.run_exec _ _, hb⟩

end TokenPresale.Analysis
