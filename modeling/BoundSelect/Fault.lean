/-!
# Faults

What can go wrong when a statement is made, checked or run, by cause. The wording of every fault is
in one place, so that two functions that fail for the same cause fail with the same words.
-/

set_option autoImplicit false

namespace BoundSelect

/-- What a database driver reports instead of an answer. Its causes are the driver's own, and only
its wording is known here. -/
structure DriverFault where
  message : String
  deriving DecidableEq

/-- A fault, by cause. -/
inductive Fault where
  /-- The text names no operator. -/
  | unknownOperator (text : String)
  /-- The operator takes operands of another shape. -/
  | unsuitedOperand (operator expected : String)
  /-- Something is not of the form that its place needs. -/
  | malformed (detail : String)
  /-- The text names no dialect. -/
  | unknownDialect (text : String)
  /-- A statement is for another dialect than the one who runs it expects. -/
  | foreignDialect (expected found : String)
  /-- The driver reported a fault. -/
  | query (fault : DriverFault)
  /-- No connection could be had. -/
  | noConnection (reason : String)
  deriving DecidableEq

namespace Fault

/-- The wording of a fault. -/
def message : Fault → String
  | .unknownOperator text => "Invalid operator: '" ++ text ++ "'"
  | .unsuitedOperand operator expected =>
    "Invalid operand for " ++ operator ++ ": expected " ++ expected
  | .malformed detail => "Type mismatch: " ++ detail
  | .unknownDialect text => "Unknown dialect: '" ++ text ++ "'"
  | .foreignDialect expected found =>
    "Dialect mismatch: executor expects " ++ expected ++ ", statement was built for " ++ found
  | .query fault => "Query error: " ++ fault.message
  | .noConnection reason => "Pool error: " ++ reason

/-- Whether the cause is a text that names no operator. -/
def isUnknownOperator : Fault → Bool
  | .unknownOperator _ => true
  | _ => false

/-- Whether the cause is the shape of an operand. -/
def isUnsuitedOperand : Fault → Bool
  | .unsuitedOperand .. => true
  | _ => false

/-- Whether the cause is something of the wrong form. -/
def isMalformed : Fault → Bool
  | .malformed _ => true
  | _ => false

end Fault

end BoundSelect
