import BoundSelect.Dialect
import BoundSelect.Fault
import BoundSelect.Json.Library

/-!
# Database engines

The engines whose dialects come with the library, and their names. A name in JSON has to be written
exactly; a name given as text may be in any ASCII case and have blanks around it.
-/

set_option autoImplicit false

namespace BoundSelect

/-- A database engine. -/
inductive Engine where
  | postgres
  | mysql
  deriving DecidableEq

instance : Inhabited Engine := ⟨.postgres⟩

namespace Engine

/-- The name of an engine. -/
def name : Engine → String
  | .postgres => "postgres"
  | .mysql => "mysql"

/-- The dialect of an engine. -/
def dialect : Engine → Dialect
  | .postgres => .postgres
  | .mysql => .mysql

/-! ## Names in JSON -/

/-- All engines. -/
def all : List Engine :=
  [.postgres, .mysql]

/-- The name of an engine as a value of its type. -/
def variant : Engine → String
  | .postgres => "Postgres"
  | .mysql => "MySql"

/-- The name of an engine in JSON: that of the value in lower case. -/
def jsonName (e : Engine) : String :=
  String.ofList (e.variant.toList.map Char.toLower)

/-- The further names that JSON may give to an engine. -/
def aliases : Engine → List String
  | .postgres => ["postgresql", "pg"]
  | .mysql => ["mariadb"]

/-- How engines are put in JSON. -/
def form (library : Json.Library) : library.Form Engine :=
  library.oneOf all jsonName aliases

/-- The text of an engine in JSON. -/
def jsonText (library : Json.Library) (e : Engine) : String :=
  library.write (form library) e

/-- The engine that a JSON text names. -/
def ofJsonText? (library : Json.Library) (text : String) : Option Engine :=
  library.read? (form library) text

/-! ## Names as texts -/

/-- The engine that is called by a name in lower case. -/
def ofLowerName? : String → Option Engine
  | "postgres" | "postgresql" | "pg" => some .postgres
  | "mysql" | "mariadb" => some .mysql
  | _ => none

/-- The engine that a text names. -/
def parse (s : String) : Except Fault Engine :=
  match ofLowerName? (String.ofList ((Text.trim s.toList).map Char.toLower)) with
  | some e => .ok e
  | none => .error (.unknownDialect s)

end Engine

end BoundSelect
