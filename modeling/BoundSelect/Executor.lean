import BoundSelect.Query
import BoundSelect.Select.Count

/-!
# Executors

An executor runs queries somewhere: it has a state, and can note an event in its log, ask for rows,
or make a change. Running a query checks its dialect first, before anything else happens; then one
event is noted, and the text and the parameters are passed on as they are.

Rows are the matter of the driver that answers with them. They are handed on as they come, and only
a count looks into one.
-/

set_option autoImplicit false

namespace BoundSelect

/-- What is used of a database driver: its rows, and how a column of one is read as a whole number
of eight bytes. Columns are counted from zero. -/
structure Driver where
  Row : Type
  int8 : Row → Nat → Except DriverFault Int64

/-- Something that runs queries through a driver, with states `σ`. -/
structure Executor (driver : Driver) (σ : Type) where
  note : LogEvent → σ → σ
  query : String → List Value → σ → Except Fault (List driver.Row) × σ
  execute : String → List Value → σ → Except Fault UInt64 × σ

/-- The dialect that executors understand. -/
def executorDialect : String := "postgres"

variable {driver : Driver} {σ : Type}

/-- Notes events in order. -/
def Executor.noteAll (ex : Executor driver σ) (events : List LogEvent) (state : σ) : σ :=
  events.foldl (fun state e => ex.note e state) state

namespace Query

/-- All rows of the answer. -/
def fetchAll (ex : Executor driver σ) (q : Query) (state : σ) :
    Except Fault (List driver.Row) × σ :=
  match q.ensureDialect executorDialect with
  -- a foreign query leaves no trace, not even in the log
  | .error e => (.error e, state)
  | .ok () => ex.query q.sql q.params (ex.note (LogEvent.about "executing query" q) state)

/-- The first row of the answer, if there is one. -/
def fetchFirst (ex : Executor driver σ) (q : Query) (state : σ) :
    Except Fault (Option driver.Row) × σ :=
  let (rows, state) := q.fetchAll ex state
  (rows.map List.head?, state)

/-- Makes the change and gives the number of rows it affected. -/
def execute (ex : Executor driver σ) (q : Query) (state : σ) : Except Fault UInt64 × σ :=
  match q.ensureDialect executorDialect with
  | .error e => (.error e, state)
  | .ok () => ex.execute q.sql q.params (ex.note (LogEvent.about "executing statement" q) state)

end Query

namespace Select

/-- The written statement, with the events of writing it noted. -/
def buildOn (ex : Executor driver σ) (s : Select) (state : σ) : Query × σ :=
  let (q, events) := s.build
  (q, ex.noteAll events state)

/-- All rows of a statement. -/
def fetchAll (ex : Executor driver σ) (s : Select) (state : σ) :
    Except Fault (List driver.Row) × σ :=
  let (q, state) := s.buildOn ex state
  q.fetchAll ex state

/-- The first row of a statement, if there is one. -/
def fetchFirst (ex : Executor driver σ) (s : Select) (state : σ) :
    Except Fault (Option driver.Row) × σ :=
  let (q, state) := s.buildOn ex state
  q.fetchFirst ex state

/-- The number of rows of a statement, counted by the database: the first column of the first row.
An answer without rows counts as zero. -/
def fetchCount (ex : Executor driver σ) (s : Select) (state : σ) : Except Fault Int64 × σ :=
  let (rows, state) := s.count.fetchAll ex state
  match rows with
  | .error e => (.error e, state)
  | .ok [] => (.ok 0, state)
  | .ok (row :: _) => ((driver.int8 row 0).mapError .query, state)

end Select

end BoundSelect
