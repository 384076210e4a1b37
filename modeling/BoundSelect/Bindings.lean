import BoundSelect.Dialect
import BoundSelect.Value

/-!
# Bindings

The values that are bound already, for a dialect. Values are only ever added at the end, and a value
is given its placeholder when it is bound: the placeholder of its place.
-/

set_option autoImplicit false

namespace BoundSelect

/-- Values bound so far, for a dialect. -/
structure Bindings where
  dialect : Dialect
  values : List Value := []

namespace Bindings

/-- Binds one value and gives its placeholder. -/
def bind (b : Bindings) (v : Value) : String × Bindings :=
  let values := b.values ++ [v]
  (b.dialect.placeholder values.length, { b with values })

/-- Binds values one after the other and gives their placeholders. -/
def bindAll (b : Bindings) : List Value → List String × Bindings
  | [] => ([], b)
  | v :: vs =>
    let (token, b) := b.bind v
    let (tokens, b) := b.bindAll vs
    (token :: tokens, b)

end Bindings

end BoundSelect
