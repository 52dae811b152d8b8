import WordMachine.ConditionCodes

/-!
# Branch conditions

A branch looks at the condition codes and at nothing else.  After a comparison
the conditions from `greaterOrEqual` to `lessOrEqual` order signed numbers, and
`higher` and `lowerOrSame` order unsigned ones.
-/

namespace WordMachine

inductive Condition where
  | always
  | notEqual
  | equal
  | greaterOrEqual
  | lessThan
  | greaterThan
  | lessOrEqual
  | plus
  | minus
  | higher
  | lowerOrSame
  | overflowClear
  | overflowSet
  | carryClear
  | carrySet
deriving DecidableEq, Repr

namespace Condition

def holds (condition : Condition) (codes : ConditionCodes) : Bool :=
  match condition with
  | always => true
  | notEqual => !codes.z
  | equal => codes.z
  | greaterOrEqual => !(codes.n ^^ codes.v)
  | lessThan => codes.n ^^ codes.v
  | greaterThan => !(codes.z || (codes.n ^^ codes.v))
  | lessOrEqual => codes.z || (codes.n ^^ codes.v)
  | plus => !codes.n
  | minus => codes.n
  | higher => !codes.c && !codes.z
  | lowerOrSame => codes.c || codes.z
  | overflowClear => !codes.v
  | overflowSet => codes.v
  | carryClear => !codes.c
  | carrySet => codes.c

end Condition

/-- Where a branch leads.  The displacement counts words and has no sign, so a
branch leads forward only, around the end of the address range if it is far
enough. -/
def branchTarget (pc : Word) (displacement : Byte) : Word :=
  pc + displacement.setWidth 16 * 2

end WordMachine
