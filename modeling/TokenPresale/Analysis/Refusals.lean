import TokenPresale.Model.Program

/-!
# Which errors a call can end in

The error codes of `errors.rs` that each of the twelve entry points can answer with. The table is
exact: no call answers with another code from any state, and each code of the table is the answer
of a call after some run. Four of the sixteen codes are never used.
-/

set_option autoImplicit false

namespace TokenPresale.Analysis

open TokenPresale.Library TokenPresale.Model

/-! ## The table -/

/-- The entry points of the program.
SRC: lib.rs:14-87 -/
inductive EntryPoint
  | initializePresale
  | buyToken
  | refundToken
  | claimToken
  | cancelPresale
  | updatePresaleDetails
  | addWhitelist
  | removeWhitelist
  | finalize
  | depositToken
  | withdrawToken
  | withdraw
deriving DecidableEq

/-- The entry points. -/
def EntryPoint.all : List EntryPoint :=
  [initializePresale, buyToken, refundToken, claimToken, cancelPresale, updatePresaleDetails,
   addWhitelist, removeWhitelist, finalize, depositToken, withdrawToken, withdraw]

/-- The list of entry points leaves none out. -/
theorem EntryPoint.mem_all (k : EntryPoint) : k ∈ EntryPoint.all := by
  cases k <;> decide

/-- The entry point that an instruction calls. -/
def entryPoint : Instruction → EntryPoint
  | .initializePresale _ _ => .initializePresale
  | .buyToken _ _ => .buyToken
  | .refundToken _ => .refundToken
  | .claimToken _ => .claimToken
  | .cancelPresale _ => .cancelPresale
  | .updatePresaleDetails _ _ _ => .updatePresaleDetails
  | .addWhitelist _ => .addWhitelist
  | .removeWhitelist _ => .removeWhitelist
  | .finalize _ _ => .finalize
  | .depositToken _ _ _ => .depositToken
  | .withdrawToken _ => .withdrawToken
  | .withdraw _ => .withdraw

/-- The codes an entry point can answer with. -/
def EntryPoint.codes : EntryPoint → List ErrorCode
  | initializePresale => []
  | buyToken =>
    [.PresaleNotStarted, .PresaleAlreadyEnded, .PresaleCancelled, .NotInWhiteList,
     .MaxBuyAmountExceeded, .NoEnoughSol]
  | refundToken => [.PresaleNotCancelled, .NoEnoughSol]
  | claimToken => [.PresaleNotFinished, .NoClaimableToken, .NotInWhiteList, .PresaleNotEnoughToken]
  | cancelPresale => [.AccessDenied]
  | updatePresaleDetails => [.AccessDenied, .WrongTimePeriod]
  | addWhitelist => [.AccessDenied]
  | removeWhitelist => [.AccessDenied]
  | finalize => [.AccessDenied, .PresaleNotFinished, .NoEnoughSol]
  | depositToken => [.AccessDenied]
  | withdrawToken => [.PresaleNotFinished, .AccessDenied, .PresaleCancelled]
  | withdraw => [.PresaleNotFinished, .AccessDenied, .PresaleCancelled]

/-! ## No other code -/

/-- If the error is one of the program's own, its code is listed. -/
def Listed (codes : List ErrorCode) (e : ProgramError) : Prop :=
  ∀ c, e = .program c → c ∈ codes

section Sound

variable {codes : List ErrorCode}

/-- A code on the list is listed. -/
theorem listed_program {c : ErrorCode} (h : c ∈ codes) : Listed codes (.program c) := by
  rintro c' heq
  obtain rfl := ProgramError.program.inj heq
  exact h

/-- The errors of Anchor, of the runtime, of the token program and of the arithmetic are none of
the program's own. -/
theorem listed_of_ne {e : ProgramError} (h : ∀ c, e ≠ .program c) : Listed codes e :=
  fun c heq => absurd heq (h c)

/-- An error of Anchor is none of the program's own. -/
theorem listed_anchor (x : AnchorError) : Listed codes (.anchor x) := listed_of_ne (by simp)

/-- An error of the runtime is none of the program's own. -/
theorem listed_runtime (x : RuntimeError) : Listed codes (.runtime x) := listed_of_ne (by simp)

/-- An error of the token program is none of the program's own. -/
theorem listed_token (x : TokenError) : Listed codes (.token x) := listed_of_ne (by simp)

/-- A failed check of the arithmetic is none of the program's own. -/
theorem listed_panic (x : Arith) : Listed codes (.panic x) := listed_of_ne (by simp)

/-! What the handlers call. -/

variable {s : State} {cx : Context} {k : Pubkey}

/-- A seeds check answers with no code of the program. -/
theorem requireSeeds_refuses {d : Pubkey} : RefusesOnly (Listed codes) (requireSeeds k d) :=
  .failIf (listed_anchor _)

/-- A signer check answers with no code of the program. -/
theorem requireSigner_refuses : RefusesOnly (Listed codes) (requireSigner cx k) :=
  .failIf (listed_anchor _)

/-- Loading the presale record answers with no code of the program. -/
theorem loadPresale_refuses : RefusesOnly (Listed codes) (loadPresale s k) :=
  .bind requireSeeds_refuses fun _ => .okOr (listed_anchor _)

/-- Loading a user record answers with no code of the program. -/
theorem loadUser_refuses : RefusesOnly (Listed codes) (loadUser s k) := .okOr (listed_anchor _)

/-- Loading an admin record answers with no code of the program. -/
theorem loadAdmin_refuses : RefusesOnly (Listed codes) (loadAdmin s k) := .okOr (listed_anchor _)

/-- Loading a mint answers with no code of the program. -/
theorem loadMint_refuses : RefusesOnly (Listed codes) (loadMint s k) := .failIf (listed_anchor _)

/-- Loading a token account answers with no code of the program. -/
theorem loadToken_refuses : RefusesOnly (Listed codes) (loadToken s k) := .okOr (listed_anchor _)

/-- A system transfer answers with no code of the program. -/
theorem systemTransfer_refuses {src dst : Pubkey} {n : ℕ} :
    RefusesOnly (Listed codes) (systemTransfer src dst n s) :=
  .bind (.failIf (listed_runtime _)) fun _ => .bind (.failIf (listed_runtime _)) fun _ => .pure _

/-- A move of lamports by the program itself answers with no code of the program. -/
theorem moveLamports_refuses {src dst : Pubkey} {n : ℕ} :
    RefusesOnly (Listed codes) (moveLamports src dst n s) :=
  .bind (.checkedSub (listed_panic _)) fun _ => .bind (.checkedAdd (listed_panic _)) fun _ =>
    .bind (.failIf (listed_runtime _)) fun _ => .pure _

/-- Creating an account answers with no code of the program. -/
theorem initAccount_refuses {payer : Pubkey} {space : ℕ} {program : ProgramId} :
    RefusesOnly (Listed codes) (initAccount cx payer k space program s) :=
  .bind (.failIf (listed_runtime _)) fun _ => .bind systemTransfer_refuses fun _ => .pure _

/-- A token transfer answers with no code of the program. -/
theorem tokenTransfer_refuses {src dst authority : Pubkey} {n : ℕ} :
    RefusesOnly (Listed codes) (tokenTransfer src dst authority n s) :=
  .bind loadToken_refuses fun _ => .bind loadToken_refuses fun _ =>
    .bind (.failIf (listed_token _)) fun _ => .bind (.failIf (listed_token _)) fun _ =>
      .bind (.failIf (listed_token _)) fun _ => .pure _

/-- The admin check answers `AccessDenied` only. -/
theorem isAdmin_refuses {a : AdminAccount} (h : .AccessDenied ∈ codes) :
    RefusesOnly (Listed codes) (isAdmin a k) := .failIf (listed_program h)

/-- The finalization check answers `PresaleNotFinished` only. -/
theorem isFinalized_refuses {p : PresaleAccount} (h : .PresaleNotFinished ∈ codes) :
    RefusesOnly (Listed codes) (isFinalized p) := .failIf (listed_program h)

/-- The window check answers its two codes only. -/
theorem isPresaleLive_refuses {p : PresaleAccount} (started : .PresaleNotStarted ∈ codes)
    (ended : .PresaleAlreadyEnded ∈ codes) : RefusesOnly (Listed codes) (isPresaleLive cx p) :=
  .bind (.failIf (listed_program started)) fun _ => .failIf (listed_program ended)

/-- The arithmetic of an order answers with no code of the program. -/
theorem order_refuses {p : PresaleAccount} {n : ℕ} : RefusesOnly (Listed codes) (order p n) :=
  .bind (.checkedMul (listed_panic _)) fun _ =>
    .ite (.bind (.checkedDiv (listed_panic _)) fun _ => .pure _) (.pure _)

/-- The participant counter answers with no code of the program. -/
theorem countParticipant_refuses {p : PresaleAccount} {u : UserAccount} :
    RefusesOnly (Listed codes) (countParticipant p u) :=
  .ite (.checkedAdd (listed_panic _)) (.pure _)

/-- The arithmetic of `initialize` answers with no code of the program. -/
theorem initialPresale_refuses {args : InitializeArgs} :
    RefusesOnly (Listed codes) (initialPresale cx args) :=
  .bind (.checkedAdd (listed_panic _)) fun _ => .bind (.checkedMul (listed_panic _)) fun _ =>
    .bind (.checkedMul (listed_panic _)) fun _ => .pure _

/-- The first block of `finalize` answers `PresaleNotFinished` only. -/
theorem closeSale_refuses {f : UInt8} {p : PresaleAccount} (h : .PresaleNotFinished ∈ codes) :
    RefusesOnly (Listed codes) (closeSale cx f p) :=
  .ite (.bind (.failIf (listed_program h)) fun _ => .ite (.pure _) (.pure _)) (.pure _)

/-! The handlers. -/

/-- `initialize` answers with no code of the program. -/
theorem initializePresale_refuses {a : Initialize} {args : InitializeArgs} :
    RefusesOnly (Listed []) (initializeHandler cx a args s) := by
  have created : RefusesOnly (Listed []) (createAccounts cx a s) := by
    refine .bind requireSeeds_refuses fun _ => .bind initAccount_refuses fun _ => ?_
    refine .bind requireSeeds_refuses fun _ => .bind initAccount_refuses fun _ => ?_
    refine .bind requireSeeds_refuses fun _ => .bind initAccount_refuses fun _ => ?_
    exact .bind requireSeeds_refuses fun _ => .bind initAccount_refuses fun _ => .pure _
  refine .bind loadMint_refuses fun _ => .bind requireSigner_refuses fun _ => ?_
  exact .bind created fun _ => .bind initialPresale_refuses fun _ => .pure _

/-- `buy_token` answers only with the codes listed for it. -/
theorem buyToken_refuses {a : BuyToken} {amount : UInt64} :
    RefusesOnly (Listed EntryPoint.buyToken.codes) (buyTokenHandler cx a amount s) := by
  refine .bind requireSeeds_refuses fun _ => .bind loadPresale_refuses fun p => ?_
  refine .bind requireSeeds_refuses fun _ => .bind loadUser_refuses fun u => ?_
  refine .bind requireSigner_refuses fun _ => .bind (isPresaleLive_refuses ?_ ?_) fun _ => ?_
  · decide
  · decide
  refine .bind (.failIf (listed_program (by decide))) fun _ => ?_
  refine .bind (.failIf (listed_program (by decide))) fun _ => ?_
  refine .bind (.failIf (listed_program (by decide))) fun _ => ?_
  refine .bind (.failIf (listed_program (by decide))) fun _ => .bind order_refuses fun _ => ?_
  refine .bind systemTransfer_refuses fun _ => .bind countParticipant_refuses fun _ => ?_
  refine .bind (.checkedAdd (listed_panic _)) fun _ => ?_
  refine .bind (.checkedAdd (listed_panic _)) fun _ => ?_
  refine .bind (.checkedAdd (listed_panic _)) fun _ => ?_
  exact .bind (.checkedSub (listed_panic _)) fun _ => .pure _

/-- `refund_token` answers only with the codes listed for it. -/
theorem refundToken_refuses {a : RefundToken} :
    RefusesOnly (Listed EntryPoint.refundToken.codes) (refundTokenHandler cx a s) := by
  refine .bind requireSeeds_refuses fun _ => .bind loadPresale_refuses fun p => ?_
  refine .bind loadUser_refuses fun u => .bind requireSigner_refuses fun _ => ?_
  refine .bind (.failIf (listed_program (by decide))) fun _ => .ite (.pure _) ?_
  refine .bind (.failIf (listed_program (by decide))) fun _ => ?_
  refine .bind moveLamports_refuses fun _ => .bind (.checkedSub (listed_panic _)) fun _ => ?_
  exact .bind (.checkedSub (listed_panic _)) fun _ => .pure _

/-- `claim_token` answers only with the codes listed for it. -/
theorem claimToken_refuses {a : ClaimToken} :
    RefusesOnly (Listed EntryPoint.claimToken.codes) (claimTokenHandler cx a s) := by
  refine .bind loadMint_refuses fun _ => .bind loadToken_refuses fun _ => ?_
  refine .bind requireSeeds_refuses fun _ => .bind loadToken_refuses fun _ => ?_
  refine .bind loadPresale_refuses fun p => .bind requireSeeds_refuses fun _ => ?_
  refine .bind loadUser_refuses fun u => .bind requireSigner_refuses fun _ => ?_
  refine .bind (isFinalized_refuses (by decide)) fun _ => ?_
  refine .bind (.failIf (listed_program (by decide))) fun _ => ?_
  refine .bind (.failIf (listed_program (by decide))) fun _ => ?_
  refine .bind (.failIf (listed_program (by decide))) fun _ => ?_
  exact .bind tokenTransfer_refuses fun _ => .pure _

/-- `cancel_presale` answers only with the codes listed for it. -/
theorem cancelPresale_refuses {a : AdminOnly} :
    RefusesOnly (Listed EntryPoint.cancelPresale.codes) (cancelPresaleHandler cx a s) := by
  refine .bind loadPresale_refuses fun _ => .bind loadAdmin_refuses fun _ => ?_
  exact .bind requireSigner_refuses fun _ => .bind (isAdmin_refuses (by decide)) fun _ => .pure _

/-- `update_presale_details` answers only with the codes listed for it. -/
theorem updatePresaleDetails_refuses {a : AdminOnly} {startTime endTime : UInt64} :
    RefusesOnly (Listed EntryPoint.updatePresaleDetails.codes)
      (updatePresaleDetailsHandler cx a startTime endTime s) := by
  refine .bind loadPresale_refuses fun _ => .bind loadAdmin_refuses fun _ => ?_
  refine .bind requireSigner_refuses fun _ => .bind (isAdmin_refuses (by decide)) fun _ => ?_
  exact .bind (.failIf (listed_program (by decide))) fun _ => .pure _

/-- `add_whitelist` answers only with the codes listed for it. -/
theorem addWhitelist_refuses {a : Whitelist} :
    RefusesOnly (Listed EntryPoint.addWhitelist.codes) (addWhitelistHandler cx a s) := by
  refine .bind loadPresale_refuses fun _ => .bind loadAdmin_refuses fun _ => ?_
  refine .bind requireSigner_refuses fun _ => .bind requireSeeds_refuses fun _ => ?_
  refine .bind initAccount_refuses fun _ => .bind (isAdmin_refuses (by decide)) fun _ => ?_
  exact .bind (.checkedAdd (listed_panic _)) fun _ => .pure _

/-- `remove_whitelist` answers only with the codes listed for it. -/
theorem removeWhitelist_refuses {a : Whitelist} :
    RefusesOnly (Listed EntryPoint.removeWhitelist.codes) (removeWhitelistHandler cx a s) := by
  refine .bind loadPresale_refuses fun _ => .bind requireSeeds_refuses fun _ => ?_
  refine .bind loadUser_refuses fun _ => .bind loadAdmin_refuses fun _ => ?_
  refine .bind requireSigner_refuses fun _ => .bind (isAdmin_refuses (by decide)) fun _ => ?_
  exact .bind (.checkedSub (listed_panic _)) fun _ => .pure _

/-- `finalize` answers only with the codes listed for it. -/
theorem finalize_refuses {a : Finalize} {f : UInt8} :
    RefusesOnly (Listed EntryPoint.finalize.codes) (finalizeHandler cx a f s) := by
  refine .bind requireSeeds_refuses fun _ => .bind loadPresale_refuses fun _ => ?_
  refine .bind loadAdmin_refuses fun _ => .bind requireSigner_refuses fun _ => ?_
  refine .bind (isAdmin_refuses (by decide)) fun _ => ?_
  refine .bind (closeSale_refuses (by decide)) fun _ => .ite ?_ (.pure _)
  refine .bind (.checkedMul (listed_panic _)) fun _ => ?_
  refine .bind (.failIf (listed_program (by decide))) fun _ => ?_
  exact .bind moveLamports_refuses fun _ => .pure _

/-- `deposit_token` answers only with the codes listed for it. -/
theorem depositToken_refuses {a : DepositToken} {mint : Pubkey} {amount : UInt64} :
    RefusesOnly (Listed EntryPoint.depositToken.codes)
      (depositTokenHandler cx a mint amount s) := by
  refine .bind loadMint_refuses fun _ => .bind (.failIf (listed_anchor _)) fun _ => ?_
  refine .bind loadToken_refuses fun _ => .bind requireSeeds_refuses fun _ => ?_
  refine .bind loadToken_refuses fun _ => .bind loadPresale_refuses fun _ => ?_
  refine .bind loadAdmin_refuses fun _ => .bind requireSigner_refuses fun _ => ?_
  exact .bind (isAdmin_refuses (by decide)) fun _ => .bind tokenTransfer_refuses fun _ => .pure _

/-- `withdraw_token` answers only with the codes listed for it. -/
theorem withdrawToken_refuses {a : WithdrawToken} :
    RefusesOnly (Listed EntryPoint.withdrawToken.codes) (withdrawTokenHandler cx a s) := by
  refine .bind loadMint_refuses fun _ => .bind loadToken_refuses fun _ => ?_
  refine .bind requireSeeds_refuses fun _ => .bind loadToken_refuses fun _ => ?_
  refine .bind loadPresale_refuses fun _ => .bind loadAdmin_refuses fun _ => ?_
  refine .bind requireSigner_refuses fun _ => .bind (isFinalized_refuses (by decide)) fun _ => ?_
  refine .bind (isAdmin_refuses (by decide)) fun _ => ?_
  refine .bind (.failIf (listed_program (by decide))) fun _ => ?_
  exact .bind tokenTransfer_refuses fun _ => .pure _

/-- `withdraw` answers only with the codes listed for it. -/
theorem withdraw_refuses {a : Withdraw} :
    RefusesOnly (Listed EntryPoint.withdraw.codes) (withdrawHandler cx a s) := by
  refine .bind requireSeeds_refuses fun _ => .bind loadPresale_refuses fun _ => ?_
  refine .bind loadAdmin_refuses fun _ => .bind requireSigner_refuses fun _ => ?_
  refine .bind (isFinalized_refuses (by decide)) fun _ => ?_
  refine .bind (isAdmin_refuses (by decide)) fun _ => ?_
  refine .bind (.failIf (listed_program (by decide))) fun _ => ?_
  exact .bind moveLamports_refuses fun _ => .pure _

/-- From every state, reachable or not, a call answers with a code of its table at most. -/
theorem instruction_refuses (i : Instruction) :
    RefusesOnly (Listed (entryPoint i).codes) (runInstruction cx s i) := by
  cases i with
  | initializePresale => exact initializePresale_refuses
  | buyToken => exact buyToken_refuses
  | refundToken => exact refundToken_refuses
  | claimToken => exact claimToken_refuses
  | cancelPresale => exact cancelPresale_refuses
  | updatePresaleDetails => exact updatePresaleDetails_refuses
  | addWhitelist => exact addWhitelist_refuses
  | removeWhitelist => exact removeWhitelist_refuses
  | finalize => exact finalize_refuses
  | depositToken => exact depositToken_refuses
  | withdrawToken => exact withdrawToken_refuses
  | withdraw => exact withdraw_refuses

end Sound

/-! ## Every code of the table -/

/-- A call after some inputs on the chain of the small sale. -/
structure Attempt where
  inputs : List Input
  cx : Context
  call : Instruction

/-- The program's own code in a refusal. -/
def codeOf (x : Except ProgramError Outcome) : Option ErrorCode :=
  match x with
  | .error (.program c) => some c
  | _ => none

/-- The code in an answer is that of the refusal. -/
theorem codeOf_eq_some {x : Except ProgramError Outcome} {c : ErrorCode} :
    codeOf x = some c ↔ x = .error (.program c) := by
  cases x with
  | ok out => simp [codeOf]
  | error e => cases e <;> simp [codeOf]

/-- What the call of an attempt answers. -/
def Attempt.answer (t : Attempt) : Option ErrorCode :=
  codeOf (runInstruction t.cx (Sample.play t.inputs).final t.call)

namespace Sample

open Model.Sample

/-- The accounts of the admin's calls when the holder of `key 1` signs instead. -/
def stranger : AdminOnly := ⟨.presaleInfo, .adminRole (.key 0), .key 1⟩

/-- The same for the call that lists a wallet. -/
def strangerLists (w : ℕ) : Whitelist :=
  ⟨.presaleInfo, .userRole (.key w), .key w, .adminRole (.key 0), .key 1⟩

/-- The sale of Alice alone, closed by the admin. -/
def closed : List Input := halfSold ++ [finalize 1003 1]

/-- One attempt for each code of each entry point. -/
def attempts : List Attempt :=
  [⟨halfSold, context 1 999, .buyToken (buyAccounts 1) 10⟩,
   ⟨halfSold, context 1 1101, .buyToken (buyAccounts 1) 10⟩,
   ⟨halfSold ++ [cancel], context 1 1002, .buyToken (buyAccounts 1) 10⟩,
   ⟨halfSold ++ [delist 1], context 1 1002, .buyToken (buyAccounts 1) 10⟩,
   ⟨halfSold, context 1 1002, .buyToken (buyAccounts 1) 1001⟩,
   ⟨halfSold ++ [.outside (.payOut (.key 1) (10 ^ 12 - 20))], context 1 1002,
     .buyToken (buyAccounts 1) 20⟩,
   ⟨halfSold, context 1 1004, .refundToken (refundAccounts 1 (.key 1))⟩,
   ⟨closed ++ [withdraw, cancel], context 1 1007, .refundToken (refundAccounts 1 (.key 1))⟩,
   ⟨halfSold, context 0 1005, .claimToken (claimAccounts 1 (.key 11))⟩,
   ⟨closed ++ [list 2], context 0 1005, .claimToken (claimAccounts 2 (.key 12))⟩,
   ⟨closed ++ [delist 1], context 0 1005, .claimToken (claimAccounts 1 (.key 11))⟩,
   ⟨[launch, list 1, buy 1 10, finalize 1003 1], context 0 1005,
     .claimToken (claimAccounts 1 (.key 11))⟩,
   ⟨halfSold, context 1 1003, .cancelPresale stranger⟩,
   ⟨halfSold, context 1 1003, .updatePresaleDetails stranger 1000 1200⟩,
   ⟨halfSold, context 0 1003, .updatePresaleDetails adminOnly 1200 1200⟩,
   ⟨halfSold, context 1 1003, .addWhitelist (strangerLists 3)⟩,
   ⟨halfSold, context 1 1003, .removeWhitelist (strangerLists 1)⟩,
   ⟨halfSold, context 1 1003,
     .finalize ⟨.escrowVault, .key 9, .presaleInfo, .adminRole (.key 0), .key 1⟩ 1⟩,
   ⟨halfSold, context 0 1003, .finalize finalizeAccounts 0⟩,
   ⟨closed ++ [withdraw], context 0 1007, .finalize finalizeAccounts 1⟩,
   ⟨halfSold, context 1 1003,
     .depositToken ⟨mint, .key 11, .tokenVault mint, .presaleInfo, .adminRole (.key 0), .key 1⟩
       mint 0⟩,
   ⟨halfSold, context 0 1006,
     .withdrawToken ⟨mint, .key 10, .tokenVault mint, .presaleInfo, .adminRole (.key 0), .key 0⟩⟩,
   ⟨closed, context 1 1006,
     .withdrawToken ⟨mint, .key 11, .tokenVault mint, .presaleInfo, .adminRole (.key 0), .key 1⟩⟩,
   ⟨closed ++ [cancel], context 0 1006,
     .withdrawToken ⟨mint, .key 10, .tokenVault mint, .presaleInfo, .adminRole (.key 0), .key 0⟩⟩,
   ⟨halfSold, context 0 1006, .withdraw withdrawAccounts⟩,
   ⟨closed, context 1 1006,
     .withdraw ⟨.escrowVault, .presaleInfo, .adminRole (.key 0), .key 1⟩⟩,
   ⟨closed ++ [cancel], context 0 1006, .withdraw withdrawAccounts⟩]

end Sample

/-- The answers of the attempts, each with its entry point. -/
def answers : List (EntryPoint × ErrorCode) :=
  Sample.attempts.filterMap fun t => t.answer.map fun c => (entryPoint t.call, c)

/-- The attempts get every code of the table. -/
theorem mem_answers {k : EntryPoint} {c : ErrorCode} (h : c ∈ k.codes) : (k, c) ∈ answers := by
  have hall : ∀ k ∈ EntryPoint.all, ∀ c ∈ k.codes, (k, c) ∈ answers := by decide +kernel
  exact hall k k.mem_all c h

/-- The error table is exact. A code of `errors.rs` is the answer of some call of an entry point,
after some run of the program, if and only if the table lists it.
SRC: errors.rs:4-37, and every `require` of instructions/ and state.rs -/
theorem error_table (k : EntryPoint) (c : ErrorCode) :
    (∃ (e : Execution) (cx : Context) (i : Instruction),
      entryPoint i = k ∧ runInstruction cx e.final i = .error (.program c)) ↔ c ∈ k.codes := by
  constructor
  · rintro ⟨e, cx, i, rfl, h⟩
    exact instruction_refuses i (.program c) h c rfl
  · intro hc
    obtain ⟨t, -, ht⟩ := List.mem_filterMap.mp (mem_answers hc)
    obtain ⟨c', hanswer, hpair⟩ := Option.map_eq_some_iff.mp ht
    obtain ⟨hentry, rfl⟩ := Prod.mk.inj hpair
    exact ⟨Sample.play t.inputs, t.cx, t.call, hentry, codeOf_eq_some.mp hanswer⟩

/-- Twelve of the sixteen codes are in use. -/
theorem unused_codes (c : ErrorCode) :
    (∀ k : EntryPoint, c ∉ k.codes) ↔
      c ∈ [ErrorCode.InvalidAuthority, .InvalidAmount, .NotEnoughTokenInVault,
        .SoftCapNotReached] := by
  constructor
  · intro h
    have hlisted : ∀ c : ErrorCode, c ∈ [ErrorCode.InvalidAuthority, .InvalidAmount,
        .NotEnoughTokenInVault, .SoftCapNotReached] ∨
          c ∈ EntryPoint.buyToken.codes ++ EntryPoint.refundToken.codes ++
            EntryPoint.claimToken.codes ++ EntryPoint.updatePresaleDetails.codes := by
      intro c
      cases c <;> decide
    rcases hlisted c with hunused | hused
    · exact hunused
    · simp only [List.mem_append] at hused
      rcases hused with ((hbuy | hrefund) | hclaim) | hupdate
      · exact absurd hbuy (h _)
      · exact absurd hrefund (h _)
      · exact absurd hclaim (h _)
      · exact absurd hupdate (h _)
  · intro hc k
    simp only [List.mem_cons, List.not_mem_nil, or_false] at hc
    rcases hc with rfl | rfl | rfl | rfl <;> cases k <;> decide

end TokenPresale.Analysis
