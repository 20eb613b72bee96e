import TokenPresale.Model.Program

/-!
# The program in transactions

What clients send are transactions: lists of calls that are signed together and take effect
together. A call that fails undoes its transaction, and at the end of one that succeeds the
accounts without lamports are deleted. `chain` is the program that takes transactions, `presale`
the program that takes calls.

The runtime also refuses a transaction that leaves an account it has written with some lamports but
fewer than its rent-exempt minimum. This check is no part of `chain`: such a transaction succeeds
here.
-/

set_option autoImplicit false

namespace TokenPresale.Model

open TokenPresale.Library

/-- Calls that are signed and take effect together. -/
structure Transaction where
  cx : Context
  calls : List Instruction

/-- What reaches the chain: a transaction, or a move that does not concern the program. -/
inductive ChainInput
  | transaction (t : Transaction)
  | outside (o : Outside)

/-- The inputs of the program behind one input of the chain. -/
def ChainInput.inputs : ChainInput → List Input
  | .transaction t => t.calls.map (.instruction t.cx) ++ [.endTransaction]
  | .outside o => [.outside o]

/-- The program and its surroundings, one transaction at a time. -/
def chain : Machine State ChainInput (List (List LogEntry)) ProgramError :=
  presale.batch ChainInput.inputs

/-- The history of a run in transactions. -/
abbrev ChainHistory := List (Record State ChainInput (List (List LogEntry)))

namespace Sample

/-- A transaction of one call. -/
def alone : Input → ChainInput
  | .instruction cx i => .transaction ⟨cx, [i]⟩
  | .outside o => .outside o
  | .endTransaction => .transaction ⟨context 0 0, []⟩

/-- The admin finalizes and takes the escrow in one transaction. -/
def settle : ChainInput :=
  .transaction ⟨context 0 1003, [.finalize finalizeAccounts 1, .withdraw withdrawAccounts]⟩

end Sample

end TokenPresale.Model
