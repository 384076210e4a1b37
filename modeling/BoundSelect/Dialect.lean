import BoundSelect.Text.Quoted

/-!
# Dialects

A dialect says how the placeholder of the n-th parameter is written and how names are quoted. The
placeholder need not show its number: where it does not, only the order of the parameters tells
which value is bound to which place.
-/

set_option autoImplicit false

namespace BoundSelect

/-- A way of writing placeholders and quoted names. Parameters are counted from one. -/
structure Dialect where
  name : String
  placeholder : Nat → String
  quoteName : String → String

namespace Dialect

/-- Numbered placeholders and names in double quotes. -/
def postgres : Dialect where
  name := "postgres"
  placeholder n := "$" ++ toString n
  quoteName s := String.ofList (Text.quoteName '"' s.toList)

/-- Placeholders that are all alike and names between backticks. -/
def mysql : Dialect where
  name := "mysql"
  placeholder _ := "?"
  quoteName s := String.ofList (Text.quoteName '\x60' s.toList)

end Dialect

end BoundSelect
