import BoundSelect.Fault
import BoundSelect.Text.Blank

/-!
# Comparison operators

The operators that a comparison may use form a closed list. Each has a spelling in statements and a
name in texts: the words that a text is to have, in any ASCII case. Each operator takes operands of
one shape.
-/

set_option autoImplicit false

namespace BoundSelect

/-- An operator of a comparison. -/
inductive Operator where
  | equal
  | greater
  | less
  | atLeast
  | atMost
  | different
  | unequal
  | like
  | likeAnyCase
  | member
  | nonMember
  | between
  | existence
  deriving DecidableEq

/-- The shapes of the operands that operators take. -/
inductive OperandShape where
  | single
  | list
  | pair
  | query
  deriving DecidableEq

/-- The shape in words. -/
def OperandShape.words : OperandShape → String
  | .single => "a single value"
  | .list => "a list of values or a subquery"
  | .pair => "a two-element list [low, high]"
  | .query => "a subquery"

namespace Operator

/-- All operators. -/
def all : List Operator :=
  [.equal, .greater, .less, .atLeast, .atMost, .different, .unequal, .like, .likeAnyCase, .member,
    .nonMember, .between, .existence]

/-- The spelling of an operator in a statement. Two operators say that two values differ. -/
def symbol : Operator → String
  | .equal => "="
  | .greater => ">"
  | .less => "<"
  | .atLeast => ">="
  | .atMost => "<="
  | .different => "!="
  | .unequal => "<>"
  | .like => "LIKE"
  | .likeAnyCase => "ILIKE"
  | .member => "IN"
  | .nonMember => "NOT IN"
  | .between => "BETWEEN"
  | .existence => "EXISTS"

/-- The shape of the operands that an operator takes. -/
def shape : Operator → OperandShape
  | .member | .nonMember => .list
  | .between => .pair
  | .existence => .query
  | _ => .single

/-- The operator that words in capitals, with single spaces between them, are the name of. -/
def ofWords? : String → Option Operator
  | "=" => some .equal
  | ">" => some .greater
  | "<" => some .less
  | ">=" => some .atLeast
  | "<=" => some .atMost
  | "!=" => some .different
  | "<>" => some .unequal
  | "LIKE" => some .like
  | "ILIKE" => some .likeAnyCase
  | "IN" => some .member
  | "NOT IN" => some .nonMember
  | "BETWEEN" => some .between
  | "EXISTS" => some .existence
  | _ => none

/-- The operator that a text names. Blanks around and between words are evened out, so that
`not  in` is `NOT IN`. -/
def parse? (s : String) : Option Operator :=
  ofWords? (String.ofList ((Text.spaced s.toList).map Char.toUpper))

/-- The operator that a text names, or the fault that it names none. -/
def parse (s : String) : Except Fault Operator :=
  match parse? s with
  | some o => .ok o
  | none => .error (.unknownOperator s)

end Operator

end BoundSelect
