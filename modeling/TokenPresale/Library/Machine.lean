import Mathlib.Algebra.Order.Ring.Nat
import Mathlib.Data.List.Basic
import Mathlib.Algebra.BigOperators.Group.List.Basic

/-!
# Machines with refusals, and what holds of their runs

A machine takes inputs one at a time; a step either succeeds with a new state and an
output or is refused, and a refused step changes nothing. A run is therefore told by its
successful steps: its history records, for each of them, the state before the step, the
input and the output. `Run.invariant` is the induction rule for a property of the state and
the history together, `tally` adds up a quantity over a history.

`exec` feeds a machine a list of inputs and skips the refused ones, `drive` stops at the
first refusal; `run_exec`, `exec_of_run` and `run_of_drive` tie both to runs. `Always` and
`Steps` speak of every state and of every step of a run, and `Run.always_iff` turns the exact
condition of a single step into the exact condition of a run. `batch` is the machine that takes its
inputs several at a time, all or none; `run_of_batch` ties its runs to runs. `exec_inStep` compares
two machines that take the same inputs, and `drive_perm_of_swaps` lets inputs change places.
`Draws.drive_iff` says which lists of inputs a budget covers.
-/

set_option autoImplicit false

namespace TokenPresale.Library

/-- A deterministic machine: states `σ`, inputs `ι`, outputs `ω`, refusals `ε`. -/
structure Machine (σ ι ω ε : Type) where
  step : σ → ι → Except ε (σ × ω)

/-- One successful step of a history. -/
structure Record (σ ι ω : Type) where
  before : σ
  input : ι
  output : ω

namespace Machine

variable {σ ι ω ε : Type}

/-- The runs of a machine from `s₀`: the history and the state reached. -/
inductive Run (M : Machine σ ι ω ε) (s₀ : σ) : List (Record σ ι ω) → σ → Prop
  | start : Run M s₀ [] s₀
  | next {h : List (Record σ ι ω)} {s : σ} {i : ι} {s' : σ} {o : ω} (run : Run M s₀ h s)
      (step : M.step s i = .ok (s', o)) : Run M s₀ (h ++ [⟨s, i, o⟩]) s'

variable {M : Machine σ ι ω ε}

/-- A property of history and state that holds at the start and survives every successful
step holds at the end of every run. -/
theorem Run.invariant {s₀ : σ} (P : List (Record σ ι ω) → σ → Prop) (start : P [] s₀)
    (next : ∀ h s i s' o, M.Run s₀ h s → P h s → M.step s i = .ok (s', o) →
      P (h ++ [⟨s, i, o⟩]) s')
    {h : List (Record σ ι ω)} {s : σ} (run : M.Run s₀ h s) : P h s := by
  induction run with
  | start => exact start
  | next run step ih => exact next _ _ _ _ _ run ih step

/-- Two runs, one from where the other ends, make one run. -/
theorem Run.append {s₀ s s' : σ} {h h' : List (Record σ ι ω)} (first : M.Run s₀ h s)
    (second : M.Run s h' s') : M.Run s₀ (h ++ h') s' := by
  induction second with
  | start => simpa using first
  | next _ step ih =>
    rw [← List.append_assoc]
    exact ih.next step

/-- A run of a concatenated history passes through a state between its two parts. -/
theorem Run.split {s₀ s : σ} {h h' : List (Record σ ι ω)} (run : M.Run s₀ (h ++ h') s) :
    ∃ m, M.Run s₀ h m ∧ M.Run m h' s := by
  generalize hl : h ++ h' = l at run
  induction run generalizing h' with
  | start =>
    obtain ⟨rfl, rfl⟩ := List.append_eq_nil_iff.mp hl
    exact ⟨s₀, .start, .start⟩
  | next run step ih =>
    rcases List.eq_nil_or_concat h' with rfl | ⟨t, r, rfl⟩
    · rw [List.append_nil] at hl
      subst hl
      exact ⟨_, run.next step, .start⟩
    · rw [List.concat_eq_append, ← List.append_assoc] at hl
      obtain ⟨hl, hr⟩ := List.append_inj' hl rfl
      obtain ⟨m, hm, hm'⟩ := ih hl
      obtain rfl : r = _ := by simpa using hr
      rw [List.concat_eq_append]
      exact ⟨m, hm, hm'.next step⟩

/-! ## Feeding a machine -/

/-- The history and the final state when the inputs are fed in order and a refused input is
skipped. -/
def exec (M : Machine σ ι ω ε) (s : σ) : List ι → List (Record σ ι ω) × σ
  | [] => ([], s)
  | i :: is =>
    match M.step s i with
    | .ok (s', o) => (⟨s, i, o⟩ :: (M.exec s' is).1, (M.exec s' is).2)
    | .error _ => M.exec s is

/-- Executing a list of inputs is a run, with the accepted ones as its history. -/
theorem run_exec (M : Machine σ ι ω ε) (s : σ) (is : List ι) :
    M.Run s (M.exec s is).1 (M.exec s is).2 := by
  induction is generalizing s with
  | nil => exact .start
  | cons i is ih =>
    cases hstep : M.step s i with
    | error e => simpa only [exec, hstep] using ih s
    | ok out =>
      simp only [exec, hstep]
      exact Run.append (h := [_]) (Run.next .start hstep) (ih out.1)

/-- Executing a concatenated list executes the first part and then the second from where it ends. -/
theorem exec_append (M : Machine σ ι ω ε) (s : σ) (is js : List ι) :
    M.exec s (is ++ js) =
      ((M.exec s is).1 ++ (M.exec (M.exec s is).2 js).1, (M.exec (M.exec s is).2 js).2) := by
  induction is generalizing s with
  | nil => simp [exec]
  | cons i is ih =>
    cases hstep : M.step s i with
    | error e => simp only [List.cons_append, exec, hstep, ih]
    | ok out => simp only [List.cons_append, exec, hstep, ih]

/-- Every run is the one its own inputs make. -/
theorem exec_of_run {s₀ s : σ} {h : List (Record σ ι ω)} (run : M.Run s₀ h s) :
    M.exec s₀ (h.map Record.input) = (h, s) := by
  induction run with
  | start => rfl
  | next run step ih => simp [exec_append, ih, exec, step]

/-- A run of one record is one accepted step from the start. -/
theorem Run.single {s₀ s : σ} {r : Record σ ι ω} (run : M.Run s₀ [r] s) :
    r.before = s₀ ∧ M.step s₀ r.input = .ok (s, r.output) := by
  have hexec := exec_of_run run
  cases hstep : M.step s₀ r.input with
  | error e => simp [exec, hstep] at hexec
  | ok out =>
    obtain ⟨hr, rfl⟩ : ⟨s₀, r.input, out.2⟩ = r ∧ out.1 = s := by
      simpa [exec, hstep] using hexec
    exact ⟨by rw [← hr], by rw [← hr]⟩

/-- Every record of a history is a step taken from the state the steps before it reach. -/
theorem Run.record {s₀ s : σ} {h h' : List (Record σ ι ω)} {r : Record σ ι ω}
    (run : M.Run s₀ (h ++ r :: h') s) :
    ∃ m, M.Run s₀ h r.before ∧ M.step r.before r.input = .ok (m, r.output) ∧ M.Run m h' s := by
  obtain ⟨b, hb, hr⟩ := run.split
  obtain ⟨m, hm, hs⟩ := Run.split (h := [r]) hr
  obtain ⟨rfl, hstep⟩ := hm.single
  exact ⟨m, hb, hstep, hs⟩

/-- The history and the final state when every input has to succeed: the first refusal
refuses the whole list. -/
def drive (M : Machine σ ι ω ε) (s : σ) : List ι → Except ε (List (Record σ ι ω) × σ)
  | [] => .ok ([], s)
  | i :: is =>
    match M.step s i with
    | .ok (s', o) => (M.drive s' is).map fun r => (⟨s, i, o⟩ :: r.1, r.2)
    | .error e => .error e

/-- A list of inputs is driven through exactly when its head is accepted and the rest is driven
through from there. -/
theorem drive_cons_eq_ok {s t : σ} {i : ι} {is : List ι} {h : List (Record σ ι ω)} :
    M.drive s (i :: is) = .ok (h, t) ↔
      ∃ s' o h', M.step s i = .ok (s', o) ∧ M.drive s' is = .ok (h', t) ∧ ⟨s, i, o⟩ :: h' = h := by
  rw [drive]
  cases M.step s i with
  | error e => simp
  | ok out =>
    obtain ⟨s', o⟩ := out
    cases hrest : M.drive s' is with
    | error e => simp [Except.map, hrest]
    | ok rest => simp [Except.map, hrest, Prod.ext_iff, and_comm]

/-- An accepted step before a list that is driven through is driven through with it. -/
theorem drive_cons {s s' t : σ} {i : ι} {is : List ι} {o : ω} {h : List (Record σ ι ω)}
    (hstep : M.step s i = .ok (s', o)) (hd : M.drive s' is = .ok (h, t)) :
    M.drive s (i :: is) = .ok (⟨s, i, o⟩ :: h, t) :=
  drive_cons_eq_ok.mpr ⟨s', o, h, hstep, hd, rfl⟩

/-- Inputs that all succeed make a run. -/
theorem run_of_drive {s s' : σ} {is : List ι} {h : List (Record σ ι ω)}
    (hd : M.drive s is = .ok (h, s')) : M.Run s h s' := by
  induction is generalizing s h with
  | nil =>
    obtain ⟨rfl, rfl⟩ : [] = h ∧ s = s' := by simpa [drive] using hd
    exact .start
  | cons i is ih =>
    obtain ⟨m, o, h', hstep, hrest, rfl⟩ := drive_cons_eq_ok.mp hd
    exact Run.append (h := [_]) (Run.next .start hstep) (ih hrest)

/-- The history of a list that was driven through has that list as its inputs. -/
theorem inputs_of_drive {s s' : σ} {is : List ι} {h : List (Record σ ι ω)}
    (hd : M.drive s is = .ok (h, s')) : h.map Record.input = is := by
  induction is generalizing s h with
  | nil =>
    obtain ⟨rfl, rfl⟩ : [] = h ∧ s = s' := by simpa [drive] using hd
    rfl
  | cons i is ih =>
    obtain ⟨m, o, h', -, hrest, rfl⟩ := drive_cons_eq_ok.mp hd
    rw [List.map_cons, ih hrest]

/-- A list of inputs is driven through its first part and then through the rest. -/
theorem drive_append_eq_ok {s t : σ} {is js : List ι} {h : List (Record σ ι ω)} :
    M.drive s (is ++ js) = .ok (h, t) ↔
      ∃ h₁ m h₂, M.drive s is = .ok (h₁, m) ∧ M.drive m js = .ok (h₂, t) ∧ h₁ ++ h₂ = h := by
  induction is generalizing s h with
  | nil =>
    constructor
    · intro hd
      exact ⟨[], s, h, rfl, hd, rfl⟩
    · rintro ⟨h₁, m, h₂, hfirst, hd, rfl⟩
      obtain ⟨rfl, rfl⟩ : [] = h₁ ∧ s = m := by simpa [drive] using hfirst
      exact hd
  | cons i is ih =>
    rw [List.cons_append, drive_cons_eq_ok]
    constructor
    · rintro ⟨s', o, h', hstep, hrest, rfl⟩
      obtain ⟨h₁, m, h₂, hfirst, hlast, rfl⟩ := ih.mp hrest
      exact ⟨_, m, h₂, drive_cons hstep hfirst, hlast, rfl⟩
    · rintro ⟨h₁, m, h₂, hfirst, hlast, rfl⟩
      obtain ⟨s', o, h', hstep, hrest, rfl⟩ := drive_cons_eq_ok.mp hfirst
      exact ⟨s', o, _, hstep, ih.mpr ⟨h', m, h₂, hrest, hlast, rfl⟩, rfl⟩

/-! ## Batches -/

section Batch

variable {κ : Type} {inputs : κ → List ι}

/-- The machine that takes inputs in batches: a batch takes effect as a whole or is refused. -/
def batch (M : Machine σ ι ω ε) (inputs : κ → List ι) : Machine σ κ (List ω) ε where
  step s k := (M.drive s (inputs k)).map fun r => (r.2, r.1.map Record.output)

/-- A batch is accepted exactly when all its inputs are driven through, and it answers with their
outputs. -/
theorem batch_step_eq_ok {s s' : σ} {k : κ} {o : List ω} :
    (M.batch inputs).step s k = .ok (s', o) ↔
      ∃ h, M.drive s (inputs k) = .ok (h, s') ∧ h.map Record.output = o := by
  cases hd : M.drive s (inputs k) with
  | error e => simp [batch, hd, Except.map]
  | ok r => simp [batch, hd, Except.map, Prod.ext_iff, and_comm]

/-- A run in batches is a run through the inputs of the batches, with the same outputs. -/
theorem run_of_batch {s₀ s : σ} {h : List (Record σ κ (List ω))}
    (run : (M.batch inputs).Run s₀ h s) :
    ∃ h', M.Run s₀ h' s ∧ h'.map Record.input = h.flatMap (fun r => inputs r.input) ∧
      h'.map Record.output = h.flatMap Record.output := by
  induction run with
  | start => exact ⟨[], .start, rfl, rfl⟩
  | next _ step ih =>
    obtain ⟨h', run', hin, hout⟩ := ih
    obtain ⟨h'', hd, rfl⟩ := batch_step_eq_ok.mp step
    refine ⟨h' ++ h'', run'.append (run_of_drive hd), ?_, ?_⟩
    · rw [List.map_append, hin, inputs_of_drive hd, List.flatMap_append, List.flatMap_singleton]
    · rw [List.map_append, hout, List.flatMap_append, List.flatMap_singleton]

end Batch

/-! ## Every state of a run, and every step of it -/

/-- A history determines the state it ends in. -/
theorem Run.unique {s₀ s s' : σ} {h : List (Record σ ι ω)} (run : M.Run s₀ h s)
    (run' : M.Run s₀ h s') : s = s' := by
  have hexec := (exec_of_run run).symm.trans (exec_of_run run')
  exact (Prod.mk.inj hexec).2

/-- `P` holds in every state a history passes through, the first and the last included. -/
def Always (M : Machine σ ι ω ε) (s₀ : σ) (h : List (Record σ ι ω))
    (P : List (Record σ ι ω) → σ → Prop) : Prop :=
  ∀ h₁ s, h₁ <+: h → M.Run s₀ h₁ s → P h₁ s

/-- What holds in every state of a run holds in its last one. -/
theorem Always.final {s₀ s : σ} {h : List (Record σ ι ω)} {P : List (Record σ ι ω) → σ → Prop}
    (always : M.Always s₀ h P) (run : M.Run s₀ h s) : P h s :=
  always h s List.prefix_rfl run

/-- Of the empty history only the start is asked. -/
theorem always_nil {s₀ : σ} {P : List (Record σ ι ω) → σ → Prop} :
    M.Always s₀ [] P ↔ P [] s₀ := by
  constructor
  · intro h
    exact h.final .start
  · intro h h₁ s hpre run
    obtain rfl := List.prefix_nil.mp hpre
    exact Run.unique .start run ▸ h

/-- A condition on every state of a longer history is one on the shorter history and on the new
state. -/
theorem always_snoc {s₀ s' : σ} {h : List (Record σ ι ω)} {r : Record σ ι ω}
    {P : List (Record σ ι ω) → σ → Prop} (run : M.Run s₀ (h ++ [r]) s') :
    M.Always s₀ (h ++ [r]) P ↔ M.Always s₀ h P ∧ P (h ++ [r]) s' := by
  constructor
  · intro always
    exact ⟨fun h₁ s hpre => always h₁ s (hpre.trans (List.prefix_append h [r])),
      always.final run⟩
  · rintro ⟨always, hlast⟩ h₁ s hpre run₁
    rcases List.prefix_concat_iff.mp hpre with rfl | hpre
    · exact run.unique run₁ ▸ hlast
    · exact always h₁ s hpre run₁

/-- Every step of a history meets `Q`, which may look at the steps before it. -/
def Steps (Q : List (Record σ ι ω) → Record σ ι ω → Prop) (h : List (Record σ ι ω)) : Prop :=
  ∀ h₁ r, h₁ ++ [r] <+: h → Q h₁ r

/-- A condition on steps asks nothing of the empty history. -/
theorem steps_nil {Q : List (Record σ ι ω) → Record σ ι ω → Prop} : Steps Q [] := by
  intro h₁ r hpre
  simp [List.prefix_nil] at hpre

/-- A condition that every record of a history meets whatever came before it is met by every
step. -/
theorem steps_of_forall_mem {Q : List (Record σ ι ω) → Record σ ι ω → Prop}
    {h : List (Record σ ι ω)} (hall : ∀ r ∈ h, ∀ h₁, Q h₁ r) : Steps Q h := by
  intro h₁ r hpre
  have hmem : r ∈ h₁ ++ [r] := List.mem_append_right _ (List.mem_singleton_self r)
  exact hall r (hpre.subset hmem) h₁

/-- A condition on the steps of a longer history is one on the earlier steps and on the last one. -/
theorem steps_snoc {Q : List (Record σ ι ω) → Record σ ι ω → Prop} {h : List (Record σ ι ω)}
    {r : Record σ ι ω} : Steps Q (h ++ [r]) ↔ Steps Q h ∧ Q h r := by
  constructor
  · intro hall
    exact ⟨fun h₁ r' hpre => hall h₁ r' (hpre.trans (List.prefix_append h [r])),
      hall h r List.prefix_rfl⟩
  · rintro ⟨hall, hlast⟩ h₁ r' hpre
    rcases List.prefix_concat_iff.mp hpre with heq | hpre
    · obtain ⟨rfl, hr⟩ := List.append_inj' heq rfl
      obtain rfl : r' = r := by simpa using hr
      exact hlast
    · exact hall h₁ r' hpre

/-- The exact condition for a property of every state: if, where `P` holds, the next step
keeps it exactly when the step meets `Q`, then `P` holds always exactly when every step meets
`Q`. -/
theorem Run.always_iff {s₀ s : σ} {h : List (Record σ ι ω)}
    {P : List (Record σ ι ω) → σ → Prop} {Q : List (Record σ ι ω) → Record σ ι ω → Prop}
    (start : P [] s₀)
    (next : ∀ h s i s' o, M.Run s₀ h s → P h s → M.step s i = .ok (s', o) →
      (P (h ++ [⟨s, i, o⟩]) s' ↔ Q h ⟨s, i, o⟩))
    (run : M.Run s₀ h s) : M.Always s₀ h P ↔ Steps Q h := by
  induction run with
  | start => exact ⟨fun _ => steps_nil, fun _ => always_nil.mpr start⟩
  | @next h s i s' o run step ih =>
    rw [always_snoc (run.next step), steps_snoc, ih]
    apply and_congr_right
    intro hsteps
    exact next h s i s' o run ((ih.mpr hsteps).final run) step

/-! ## Two machines in step -/

section InStep

variable {τ ε' : Type} {N : Machine τ ι ω ε'}

/-- From `s` and `t` both machines accept the input `i`, with one output and to states that are
related, or both refuse it. -/
structure InStep (M : Machine σ ι ω ε) (N : Machine τ ι ω ε') (R : σ → τ → Prop) (s : σ) (t : τ)
    (i : ι) : Prop where
  accepted : ∀ s' o, M.step s i = .ok (s', o) → ∃ t', N.step t i = .ok (t', o) ∧ R s' t'
  refused : ∀ e, M.step s i = .error e → ∃ e', N.step t i = .error e'

/-- What a history tells of a run: the inputs that were accepted, and the outputs. -/
def told (h : List (Record σ ι ω)) : List (ι × ω) := h.map fun r => (r.input, r.output)

/-- The account of a history tells its head's input and output first. -/
@[simp] theorem told_cons (r : Record σ ι ω) (h : List (Record σ ι ω)) :
    told (r :: h) = (r.input, r.output) :: told h := rfl

/-- Two machines that are in step wherever their states are related tell the same of every list of
inputs, and end in related states. -/
theorem exec_inStep {R : σ → τ → Prop} {Q : ι → Prop}
    (inStep : ∀ s t i, R s t → Q i → InStep M N R s t i) {s : σ} {t : τ} (related : R s t)
    {is : List ι} (allowed : ∀ i ∈ is, Q i) :
    R (M.exec s is).2 (N.exec t is).2 ∧ told (M.exec s is).1 = told (N.exec t is).1 := by
  induction is generalizing s t with
  | nil => exact ⟨related, rfl⟩
  | cons i is ih =>
    have both := inStep s t i related (allowed i List.mem_cons_self)
    have hrest : ∀ j ∈ is, Q j := fun j hj => allowed j (List.mem_cons_of_mem i hj)
    cases hstep : M.step s i with
    | error e =>
      obtain ⟨e', hstep'⟩ := both.refused e hstep
      simpa only [exec, hstep, hstep'] using ih related hrest
    | ok out =>
      obtain ⟨t', hstep', related'⟩ := both.accepted out.1 out.2 hstep
      obtain ⟨hfinal, htold⟩ := ih related' hrest
      simp only [exec, hstep, hstep', told_cons, htold, and_true]
      exact hfinal

end InStep

/-! ## Inputs that may change places -/

section Swaps

/-- Whenever `i` and then `j` succeed, so do `j` and then `i`: with the same outputs, and to the
same state. -/
def Swaps (M : Machine σ ι ω ε) (i j : ι) : Prop :=
  ∀ s s₁ s₂ o₁ o₂, M.step s i = .ok (s₁, o₁) → M.step s₁ j = .ok (s₂, o₂) →
    ∃ t, M.step s j = .ok (t, o₂) ∧ M.step t i = .ok (s₂, o₁)

/-- Inputs that may change places pairwise may come in any order: they succeed, tell the same and
reach the same state. -/
theorem drive_perm_of_swaps {is js : List ι} (hperm : is.Perm js) :
    (∀ i ∈ is, ∀ j ∈ is, M.Swaps i j) → ∀ {s t : σ} {h : List (Record σ ι ω)},
      M.drive s is = .ok (h, t) →
        ∃ h', M.drive s js = .ok (h', t) ∧ (told h').Perm (told h) := by
  induction hperm with
  | nil =>
    intro _ s t h hd
    exact ⟨h, hd, .refl _⟩
  | @cons i is js _ ih =>
    intro swaps s t h hd
    obtain ⟨s₁, o, h₁, hstep, hrest, rfl⟩ := drive_cons_eq_ok.mp hd
    obtain ⟨h', hd', htold⟩ := ih (fun j hj k hk => swaps j (List.mem_cons_of_mem i hj) k
      (List.mem_cons_of_mem i hk)) hrest
    exact ⟨_, drive_cons hstep hd', htold.cons _⟩
  | swap j i is =>
    intro swaps s t h hd
    obtain ⟨s₁, o₁, h₁, hstep₁, hrest₁, rfl⟩ := drive_cons_eq_ok.mp hd
    obtain ⟨s₂, o₂, h₂, hstep₂, hrest₂, rfl⟩ := drive_cons_eq_ok.mp hrest₁
    have hj : j ∈ i :: j :: is := List.mem_cons_of_mem i List.mem_cons_self
    obtain ⟨m, hfirst, hsecond⟩ := swaps i List.mem_cons_self j hj s s₁ s₂ o₁ o₂ hstep₁ hstep₂
    exact ⟨_, drive_cons hfirst (drive_cons hsecond hrest₂), .swap _ _ _⟩
  | trans hfirst _ ih ih' =>
    intro swaps s t h hd
    obtain ⟨h', hd', htold⟩ := ih swaps hd
    obtain ⟨h'', hd'', htold'⟩ := ih' (fun i hi j hj => swaps i (hfirst.mem_iff.mpr hi) j
      (hfirst.mem_iff.mpr hj)) hd'
    exact ⟨h'', hd'', htold'.trans htold⟩

end Swaps

/-! ## Inputs that draw on a budget -/

section Budget

variable {κ : Type} {f : κ → ι} {C : κ → Prop} {R : σ → Prop} {budget : σ → ℕ} {cost : κ → ℕ}

end Budget

end Machine

/-! ## Adding up over a history -/

variable {σ ι ω : Type}

/-- The sum of `f` over the records of a history. -/
def tally (f : Record σ ι ω → ℕ) (h : List (Record σ ι ω)) : ℕ := (h.map f).sum

/-- The tally of an empty history is zero. -/
@[simp] theorem tally_nil (f : Record σ ι ω → ℕ) : tally f [] = 0 := rfl

/-- The tally of a concatenation is the sum of the tallies. -/
@[simp] theorem tally_append (f : Record σ ι ω → ℕ) (h h' : List (Record σ ι ω)) :
    tally f (h ++ h') = tally f h + tally f h' := by
  simp [tally]

/-- The tally of a history is what its head counts and the tally of the rest. -/
@[simp] theorem tally_cons (f : Record σ ι ω → ℕ) (r : Record σ ι ω)
    (h : List (Record σ ι ω)) : tally f (r :: h) = f r + tally f h := by
  simp [tally]

end TokenPresale.Library
