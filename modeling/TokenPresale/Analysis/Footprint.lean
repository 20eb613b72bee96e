import TokenPresale.Interface.Locality

/-!
# What happens elsewhere does not matter

An instruction reads the accounts it names and writes the writable ones among them. So a move
outside the program on an account that no instruction of a list names may as well happen after
the whole list as before it: every instruction is accepted or refused as before, with the same
log, and the chain ends in the same state.
-/

set_option autoImplicit false

namespace TokenPresale.Analysis

open TokenPresale.Library TokenPresale.Model TokenPresale.Interface
open Machine (InStep told exec_inStep)

/-! ## Agreement, one account at a time -/

section Agreement

variable {named : List Pubkey} {s t u : State}

/-- Agreement on a list of accounts is transitive. -/
theorem agree_trans (first : Agree named s t) (second : Agree named t u) : Agree named s u where
  lamports k hk := (first.lamports k hk).trans (second.lamports k hk)
  owner k hk := (first.owner k hk).trans (second.owner k hk)
  mints k hk := (first.mints k hk).trans (second.mints k hk)
  tokens k hk := (first.tokens k hk).trans (second.tokens k hk)
  admins k hk := (first.admins k hk).trans (second.admins k hk)
  users k hk := (first.users k hk).trans (second.users k hk)
  presale hk := (first.presale hk).trans (second.presale hk)

/-- States that agree on a list of accounts agree on each of them. -/
theorem agree_at (agree : Agree named s t) {x : Pubkey} (hx : x ∈ named) : Agree [x] s t := by
  have hsub : ∀ k, k ∈ [x] → k ∈ named := by
    intro k hk
    rwa [List.mem_singleton.mp hk]
  exact ⟨fun k hk => agree.lamports k (hsub k hk), fun k hk => agree.owner k (hsub k hk),
    fun k hk => agree.mints k (hsub k hk), fun k hk => agree.tokens k (hsub k hk),
    fun k hk => agree.admins k (hsub k hk), fun k hk => agree.users k (hsub k hk),
    fun hk => agree.presale (hsub _ hk)⟩

/-- What is framed agrees with what was there before. -/
theorem agree_of_frame (frame : Frame named s t) {x : Pubkey} (hx : x ∉ named) :
    Agree [x] s t := by
  have hout : ∀ k, k ∈ [x] → k ∉ named := by
    intro k hk
    rwa [List.mem_singleton.mp hk]
  exact ⟨fun k hk => (frame.lamports k (hout k hk)).symm,
    fun k hk => (frame.owner k (hout k hk)).symm, fun k _ => (congrFun frame.mints k).symm,
    fun k hk => (frame.tokens k (hout k hk)).symm, fun k hk => (frame.admins k (hout k hk)).symm,
    fun k hk => (frame.users k (hout k hk)).symm, fun hk => (frame.presale (hout _ hk)).symm⟩

/-- Two states that agree on every account are the same. -/
theorem eq_of_agree (agree : ∀ x, Agree [x] s t) : s = t := by
  have self : ∀ x : Pubkey, x ∈ [x] := fun x => List.mem_singleton_self x
  have hlamports : s.lamports = t.lamports := funext fun k => (agree k).lamports k (self k)
  have howner : s.owner = t.owner := funext fun k => (agree k).owner k (self k)
  have hmints : s.mints = t.mints := funext fun k => (agree k).mints k (self k)
  have htokens : s.tokens = t.tokens := funext fun k => (agree k).tokens k (self k)
  have hadmins : s.admins = t.admins := funext fun k => (agree k).admins k (self k)
  have husers : s.users = t.users := Finmap.ext_lookup fun k => (agree k).users k (self k)
  have hpresale : s.presale = t.presale := (agree .presaleInfo).presale (self _)
  cases s
  cases t
  simp_all only

end Agreement

/-! ## Moves outside the program -/

/-- The account that a move outside the program is about. -/
def touched : Outside → Pubkey
  | .payIn k _ | .payOut k _ | .createMint k | .openToken k _ _ | .tokensIn k _
  | .tokensOut k _ => k

section Moves

variable {s s' t : State} {o : Outside}

/-- An update outside a list of keys leaves agreement on the list. -/
theorem update_agree {α : Type} {f g : Pubkey → α} {k : Pubkey} {a : α} {named : List Pubkey}
    (h : ∀ x, x ∈ named → f x = g x) (hk : k ∉ named) :
    ∀ x, x ∈ named → f x = Function.update g k a x := by
  intro x hx
  have hne : x ≠ k := by
    rintro rfl
    exact hk hx
  rw [Function.update_of_ne hne, h x hx]

/-- A move outside the program changes one account. -/
theorem outside_agree (h : runOutside s o = .ok t) {named : List Pubkey}
    (ho : touched o ∉ named) : Agree named s t := by
  have same : Agree named s s :=
    ⟨fun _ _ => rfl, fun _ _ => rfl, fun _ _ => rfl, fun _ _ => rfl, fun _ _ => rfl,
      fun _ _ => rfl, fun _ => rfl⟩
  cases outsideEffect_of_ok h with
  | payIn | payOut => exact { same with lamports := update_agree same.lamports ho }
  | createMint => exact { same with mints := update_agree same.mints ho }
  | openToken | tokensIn | tokensOut =>
    exact { same with tokens := update_agree same.tokens ho }

/-- What a move does depends on its account only. -/
theorem outside_local (agree : Agree [touched o] s s') (h : runOutside s o = .ok t) :
    ∃ t', runOutside s' o = .ok t' ∧ Agree [touched o] t t' := by
  have self : touched o ∈ [touched o] := List.mem_singleton_self _
  cases o with
  | payIn k n =>
    have hk : s.lamports k = s'.lamports k := agree.lamports k self
    simp only [runOutside, bind_eq_ok, checkedAdd_eq_ok, pure_eq_ok] at h ⊢
    obtain ⟨_, ⟨hfit, rfl⟩, rfl⟩ := h
    refine ⟨_, ⟨_, ⟨hk ▸ hfit, rfl⟩, rfl⟩, { agree with lamports := ?_ }⟩
    exact update_congr k agree.lamports (by rw [hk])
  | payOut k n =>
    have hk : s.lamports k = s'.lamports k := agree.lamports k self
    simp only [runOutside, bind_eq_ok, failIf_eq_ok, checkedSub_eq_ok, pure_eq_ok] at h ⊢
    obtain ⟨_, hpda, _, ⟨hle, rfl⟩, rfl⟩ := h
    refine ⟨_, ⟨(), hpda, _, ⟨hk ▸ hle, rfl⟩, rfl⟩, { agree with lamports := ?_ }⟩
    exact update_congr k agree.lamports (by rw [hk])
  | createMint k =>
    obtain rfl := Except.ok.inj h
    exact ⟨_, rfl, { agree with mints := update_congr k agree.mints rfl }⟩
  | openToken k mint owner =>
    simp only [runOutside, bind_eq_ok, failIf_eq_ok, pure_eq_ok] at h ⊢
    obtain ⟨_, hpda, rfl⟩ := h
    exact ⟨_, ⟨(), hpda, rfl⟩, { agree with tokens := update_congr k agree.tokens rfl }⟩
  | tokensIn k n =>
    obtain rfl := Except.ok.inj h
    refine ⟨_, rfl, { agree with tokens := update_congr k agree.tokens ?_ }⟩
    exact congrArg _ (agree.tokens k self)
  | tokensOut k n =>
    simp only [runOutside, bind_eq_ok, failIf_eq_ok, pure_eq_ok] at h ⊢
    obtain ⟨_, hpda, rfl⟩ := h
    refine ⟨_, ⟨(), hpda, rfl⟩, { agree with tokens := update_congr k agree.tokens ?_ }⟩
    exact congrArg _ (agree.tokens k self)

end Moves

/-! ## The footprint of an instruction -/

/-- The footprint of an instruction, over every state: what it leaves alone is everything but the
accounts that its structure declares writable, and it succeeds alike, with the same log and the
same effect on the accounts it names, from every state that agrees on these accounts.
SRC: the `Accounts` structures of instructions/ -/
theorem instruction_footprint (cx : Context) (i : Instruction) (s t : State)
    (agree : Agree i.accounts s t) (s' : State) (log : List LogEntry)
    (h : runInstruction cx s i = .ok (s', log)) :
    Frame i.writable s s' ∧
      ∃ t', runInstruction cx t i = .ok (t', log) ∧ Agree i.accounts s' t' ∧
        Frame i.writable t t' := by
  obtain ⟨t', ht, hagree⟩ := local_of_ok agree h
  exact ⟨frame_of_ok h, t', ht, hagree, frame_of_ok ht⟩

/-- The lamports of a stranger make no difference to Alice's order. -/
theorem instruction_footprint_small_sale :
    ∃ s' log, runInstruction (Sample.context 1 1002)
        (Sample.play [Sample.launch, Sample.deposit 200, Sample.list 1]).final
          (.buyToken (Sample.buyAccounts 1) 10) = .ok (s', log) ∧
      ∃ t', runInstruction (Sample.context 1 1002)
          { (Sample.play [Sample.launch, Sample.deposit 200, Sample.list 1]).final with
            lamports := Function.update
              (Sample.play [Sample.launch, Sample.deposit 200, Sample.list 1]).final.lamports
                (.key 7) 0 }
            (.buyToken (Sample.buyAccounts 1) 10) = .ok (t', log) := by
  have hok : (runInstruction (Sample.context 1 1002)
      (Sample.play [Sample.launch, Sample.deposit 200, Sample.list 1]).final
        (.buyToken (Sample.buyAccounts 1) 10)).isOk = true := by decide +kernel
  obtain ⟨⟨s', log⟩, hrun⟩ := exists_of_isOk hok
  have hne : ∀ k, k ∈ (Instruction.buyToken (Sample.buyAccounts 1) 10).accounts →
      k ≠ .key 7 := by decide
  have agree : Agree (Instruction.buyToken (Sample.buyAccounts 1) 10).accounts
      (Sample.play [Sample.launch, Sample.deposit 200, Sample.list 1]).final
      { (Sample.play [Sample.launch, Sample.deposit 200, Sample.list 1]).final with
        lamports := Function.update
          (Sample.play [Sample.launch, Sample.deposit 200, Sample.list 1]).final.lamports
            (.key 7) 0 } :=
    ⟨fun k hk => (Function.update_of_ne (hne k hk) _ _).symm, fun _ _ => rfl, fun _ _ => rfl,
      fun _ _ => rfl, fun _ _ => rfl, fun _ _ => rfl, fun _ => rfl⟩
  obtain ⟨-, t', ht, -⟩ := instruction_footprint _ _ _ _ agree s' log hrun
  exact ⟨s', log, hrun, t', ht⟩

/-! ## Any order -/

section Order

variable {s s' t : State} {cx : Context} {i : Instruction} {o : Outside} {log : List LogEntry}

/-- The square of an instruction and a move outside the program on an account it does not name:
both orders end in the same state. -/
theorem square (ho : runOutside s o = .ok t) (hfree : touched o ∉ i.accounts)
    (h : runInstruction cx s i = .ok (s', log)) :
    ∃ t', runInstruction cx t i = .ok (t', log) ∧ runOutside s' o = .ok t' := by
  have hwritable : ∀ x, x ∉ i.accounts → x ∉ i.writable :=
    fun x hx hw => hx (List.mem_append_left _ hw)
  obtain ⟨t', ht, hagree⟩ := local_of_ok (outside_agree ho hfree) h
  -- the move sees at its account what it saw before the instruction
  obtain ⟨u, hu, hsame⟩ :=
    outside_local (agree_of_frame (frame_of_ok h) (hwritable _ hfree)) ho
  have heq : u = t' := by
    apply eq_of_agree
    intro x
    rcases eq_or_ne x (touched o) with rfl | hne
    · exact agree_trans hsame.symm (agree_of_frame (frame_of_ok ht) (hwritable _ hfree))
    · have hx : touched o ∉ [x] := fun hmem => hne (List.mem_singleton.mp hmem).symm
      have hback : Agree [x] u s' := (outside_agree hu hx).symm
      by_cases hnamed : x ∈ i.accounts
      · exact agree_trans hback (agree_at hagree hnamed)
      · have hs : Agree [x] s' s := (agree_of_frame (frame_of_ok h) (hwritable x hnamed)).symm
        have ht' : Agree [x] t t' := agree_of_frame (frame_of_ok ht) (hwritable x hnamed)
        exact agree_trans hback (agree_trans hs (agree_trans (outside_agree ho hx) ht'))
  exact ⟨t', ht, heq ▸ hu⟩

/-- The input is an instruction that does not name the account `k`. -/
def Avoids (k : Pubkey) (i : Input) : Prop :=
  ∃ cx i', i = .instruction cx i' ∧ k ∉ i'.accounts

/-- From the states before and after the move the program is in step. -/
theorem outside_inStep (ho : runOutside s o = .ok t) {i : Input} (avoids : Avoids (touched o) i) :
    InStep presale presale (fun s t => runOutside s o = .ok t) s t i := by
  obtain ⟨cx, i', rfl, hfree⟩ := avoids
  constructor
  · intro s' log h
    exact square ho hfree h
  · intro e h
    cases hstep : presale.step t (.instruction cx i') with
    | error e' => exact ⟨e', rfl⟩
    | ok out =>
      obtain ⟨s', hs⟩ := (ok_iff_of_agree (outside_agree ho hfree)).mpr ⟨out.1, hstep⟩
      rw [show presale.step s (.instruction cx i') = .ok (s', out.2) from hs] at h
      exact absurd h (by simp)

end Order

/-- A move outside the program on an account that no instruction of a list names can be made before
the list or after it: the same instructions are accepted, with the same logs, and the chain ends in
the same state. -/
theorem outside_commutes (s t : State) (o : Outside) (ho : runOutside s o = .ok t)
    (inputs : List Input) (avoids : ∀ i ∈ inputs, Avoids (touched o) i) :
    runOutside (presale.exec s inputs).2 o = .ok (presale.exec t inputs).2 ∧
      told (presale.exec s inputs).1 = told (presale.exec t inputs).1 :=
  exec_inStep (fun _ _ _ related allowed => outside_inStep related allowed) ho avoids

/-- A gift to a stranger before or after the listing and the order of Alice. -/
theorem outside_commutes_small_sale :
    ∃ t, runOutside (Sample.play [Sample.launch, Sample.deposit 200]).final
        (.payIn (.key 7) 5) = .ok t ∧
      runOutside (presale.exec (Sample.play [Sample.launch, Sample.deposit 200]).final
        [Sample.list 1, Sample.buy 1 10]).2 (.payIn (.key 7) 5) =
          .ok (presale.exec t [Sample.list 1, Sample.buy 1 10]).2 := by
  have hok : (runOutside (Sample.play [Sample.launch, Sample.deposit 200]).final
      (.payIn (.key 7) 5)).isOk = true := by decide +kernel
  obtain ⟨t, ht⟩ := exists_of_isOk hok
  refine ⟨t, ht, (outside_commutes _ _ _ ht _ ?_).1⟩
  intro i hi
  rcases List.mem_pair.mp hi with rfl | rfl
  · exact ⟨_, _, rfl, by decide⟩
  · exact ⟨_, _, rfl, by decide⟩

end TokenPresale.Analysis
