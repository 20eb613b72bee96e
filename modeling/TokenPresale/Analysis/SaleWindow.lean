import TokenPresale.Analysis.Coherence

/-!
# The window of the sale

The window in force is the last that was set: by `initialize`, from its clock and the duration,
or by `update_presale_details`. The record always holds this window, no window is over when it is
set, and every order of every run is placed inside the window in force at its time.
-/

set_option autoImplicit false

namespace TokenPresale.Analysis

open TokenPresale.Library TokenPresale.Model TokenPresale.Interface

/-! ## Windows -/

/-- A sale is open from the first of two times to the second, both included. -/
structure Window where
  startTime : ℕ
  endTime : ℕ
deriving DecidableEq

/-- The window is open at the time `t`. -/
def Window.Holds (w : Window) (t : ℕ) : Prop := w.startTime ≤ t ∧ t ≤ w.endTime

/-- Whether a window is open is decided by two comparisons. -/
instance (w : Window) (t : ℕ) : Decidable (w.Holds t) := inferInstanceAs (Decidable (_ ∧ _))

/-- The window of the presale record. -/
def windowOf (p : PresaleAccount) : Window := ⟨p.startTime, p.endTime⟩

/-- The window that an input sets.
SRC: initialize.rs:73-76, update_presale_details.rs:25-29 -/
def windowSet : Input → Option Window
  | .instruction cx (.initializePresale _ args) =>
    some ⟨cx.now, cx.now + args.presaleDuration.toNat⟩
  | .instruction _ (.updatePresaleDetails _ startTime endTime) =>
    some ⟨startTime.toNat, endTime.toNat⟩
  | _ => none

/-- The window in force after a history: the last that was set. -/
def windowInForce (h : History) : Option Window :=
  (h.filterMap fun r => windowSet r.input).getLast?

/-- A step that sets a window puts it in force, and any other leaves the one that was. -/
theorem windowInForce_snoc (h : History) (r : Step) :
    windowInForce (h ++ [r]) = (windowSet r.input).or (windowInForce h) := by
  unfold windowInForce
  cases hset : windowSet r.input with
  | none => simp [List.filterMap_append, hset]
  | some w => simp [List.filterMap_append, hset]

/-- An order is placed inside the window in force. -/
def OrderInWindow (h : History) (r : Step) : Prop :=
  ∀ cx a amount, r.input = .instruction cx (.buyToken a amount) →
    ∃ w, windowInForce h = some w ∧ w.Holds cx.now

/-- A window is set by a call that comes before its end, and does not end before it starts. -/
def SetsOpenWindow (_ : History) (r : Step) : Prop :=
  ∀ cx i w, r.input = .instruction cx i → windowSet r.input = some w →
    cx.now ≤ w.endTime ∧ w.startTime ≤ w.endTime

/-! ## One step -/

section Step

variable {s s' : State} {i : Input} {log : List LogEntry}

/-- The record holds the window that the step sets, or else the one it held. -/
theorem window_step (h : Effect s i s' log) :
    s'.presale.map windowOf = (windowSet i).or (s.presale.map windowOf) := by
  cases h with
  | @initializePresale cx a args p ok =>
    obtain ⟨-, -, -, rfl⟩ := initialPresale_eq_ok.mp ok.record
    rfl
  | update ok => rfl
  | buy ok | refund ok | cancel ok | add ok | remove ok | finalizePays ok | withdrawToken ok =>
    rw [ok.presale]
    rfl
  | @finalizeCancelled cx a f p ok _ =>
    have hsame : windowOf (closed f p) = windowOf p := by
      unfold closed
      split_ifs <;> rfl
    rw [ok.presale, Option.map_some, Option.map_some, hsame]
    rfl
  | outside ok =>
    rw [(runOutside_frame ok).presale]
    rfl
  | _ => rfl

/-- An order succeeds only inside the window of the record, which is the one in force. -/
theorem orderInWindow_step (h : Effect s i s' log) {hist : History}
    (hwindow : s.presale.map windowOf = windowInForce hist) :
    OrderInWindow hist ⟨s, i, log⟩ := by
  rintro cx a amount rfl
  cases h with
  | @buy _ _ _ p u ok =>
    refine ⟨windowOf p, ?_, ok.started, ok.notEnded⟩
    rw [← hwindow, ok.presale, Option.map_some]

/-- A call that sets a window sets one that is still open and not empty. -/
theorem setsOpenWindow_step (h : Effect s i s' log) (hist : History) :
    SetsOpenWindow hist ⟨s, i, log⟩ := by
  rintro cx i' w rfl hset
  cases h with
  | initializePresale ok =>
    obtain rfl := Option.some_injective _ hset
    exact ⟨Nat.le_add_right _ _, Nat.le_add_right _ _⟩
  | update ok hend hstart =>
    obtain rfl := Option.some_injective _ hset
    exact ⟨hend, hstart.le⟩
  | _ => exact absurd hset (by simp [windowSet])

end Step

/-! ## Every run -/

/-- The window of the sale over whole runs: the record holds the window that was set last, every
window is set before it is over and is not empty, and every order is placed inside the window in
force when it is placed.
SRC: initialize.rs:73-76, update_presale_details.rs:19-32, state.rs:121-129 -/
theorem sale_window (e : Execution) :
    e.final.presale.map windowOf = windowInForce e.history ∧
    Machine.Steps SetsOpenWindow e.history ∧ Machine.Steps OrderInWindow e.history := by
  refine e.run.invariant (fun h s => s.presale.map windowOf = windowInForce h ∧
    Machine.Steps SetsOpenWindow h ∧ Machine.Steps OrderInWindow h) ?_ ?_
  · refine ⟨?_, Machine.steps_nil, Machine.steps_nil⟩
    rw [e.fresh.presale]
    rfl
  · rintro h s i s' o - ⟨hwindow, hsets, horders⟩ hstep
    have effect := effect_of_step hstep
    refine ⟨?_, Machine.steps_snoc.mpr ⟨hsets, setsOpenWindow_step effect h⟩,
      Machine.steps_snoc.mpr ⟨horders, orderInWindow_step effect hwindow⟩⟩
    rw [windowInForce_snoc, ← hwindow, window_step effect]

/-- The small sale is open from 1000 to 1100. -/
example : windowInForce (Sample.play Sample.halfSold).history = some ⟨1000, 1100⟩ := by
  decide +kernel

end TokenPresale.Analysis
