import BoundSelect.Json.Printer
import BoundSelect.Select.Render
import BoundSelect.Text.Clip

/-!
# Queries and what is logged of them

A query is a written statement: its text, the parameters that its placeholders stand for, and the
name of the dialect it was written for. Placeholder `k` stands for the `k`-th parameter. Writing a
statement logs one event; an event shows the front of the text only.
-/

set_option autoImplicit false

namespace BoundSelect

/-- A written statement. -/
structure Query where
  sql : String
  params : List Value
  dialect : String

/-- One event in the log. -/
structure LogEvent where
  level : String
  message : String
  dialect : String
  params : Nat
  truncated : Bool
  sql : String
  deriving DecidableEq

namespace LogEvent

/-- The number of bytes of a text that an event shows at most. -/
def shownBytes : Nat := 200

/-- What happened to a query. Values are never logged, only how many there are. -/
def about (message : String) (q : Query) : LogEvent :=
  let shown := Text.clip shownBytes q.sql
  { level := "DEBUG"
    message := message
    dialect := q.dialect
    params := q.params.length
    truncated := shown.utf8ByteSize < q.sql.utf8ByteSize
    sql := shown }

end LogEvent

namespace Query

/-- Equality of text, parameters and dialect. -/
def same (p q : Query) : Bool :=
  p.sql == q.sql && Value.sameAll p.params q.params && p.dialect == q.dialect

/-- The query in JSON, without its dialect. -/
def toJson (q : Query) : Json :=
  .object [("sql", .string q.sql), ("params", .array (Value.allToJson q.params))]

/-- Checks that the query is for a dialect. -/
def ensureDialect (q : Query) (expected : String) : Except Fault Unit :=
  if q.dialect = expected then .ok () else .error (.foreignDialect expected q.dialect)

end Query

namespace Select

/-- The written statement, and the events of writing it. -/
def build (s : Select) : Query × List LogEvent :=
  let (sql, bindings) := s.render ⟨s.dialect, []⟩
  let q : Query := ⟨sql, bindings.values, s.dialect.name⟩
  (q, [LogEvent.about "built statement" q])

/-- The written statement. -/
def query (s : Select) : Query := s.build.1

end Select

end BoundSelect
