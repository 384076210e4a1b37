import BoundSelect.Executor
import BoundSelect.Proofs.Clipping
import BoundSelect.Proofs.Counting

/-!
# What reaches an executor

There are six ways to run a statement, on itself or on the query that it was written as. All of them
write it, check its dialect, and then make one demand of the executor, with the text and the
parameters as they were written (`Method.run_recorded`). Nothing is assumed of the executor and its
driver: they may have any states and rows, and answer or fail as they like.

To say what happens on the way, an executor is put behind a recorder, which writes down what is
noted and demanded and changes nothing else. What an event has to tell of a query is said without
the function that makes events (`LogEvent.Tells`).
-/

set_option autoImplicit false

namespace BoundSelect

/-! ## Demands -/

/-- What can be demanded of an executor. -/
inductive Demand where
  | rows
  | change
  deriving DecidableEq

namespace Demand

/-- What an executor answers to a demand. -/
def Answer (driver : Driver) : Demand → Type
  | rows => List driver.Row
  | change => UInt64

/-- What is noted before a demand is made. -/
def message : Demand → String
  | rows => "executing query"
  | change => "executing statement"

end Demand

/-- What an executor sees of a run. -/
inductive Action where
  | noted (event : LogEvent)
  | demanded (demand : Demand) (sql : String) (params : List Value)

/-- An event tells with its message which query it is about: its dialect, the number of its
parameters, and the longest front of its text that takes no more than two hundred bytes. -/
structure LogEvent.Tells (message : String) (q : Query) (event : LogEvent) : Prop where
  level : event.level = "DEBUG"
  message_eq : event.message = message
  dialect : event.dialect = q.dialect
  params : event.params = q.params.length
  sql : Text.IsLongestFront 200 q.sql event.sql
  truncated : event.truncated = true ↔ 200 < q.sql.utf8ByteSize

theorem LogEvent.tells_about (message : String) (q : Query) :
    Tells message q (about message q) where
  level := rfl
  message_eq := rfl
  dialect := rfl
  params := rfl
  sql := Text.isLongestFront_clip 200 q.sql
  truncated := truncated_about message q

namespace Executor

variable {driver : Driver} {σ : Type}

/-- Makes a demand of an executor. -/
def meet (ex : Executor driver σ) :
    (demand : Demand) → String → List Value → σ → Except Fault (demand.Answer driver) × σ
  | .rows => ex.query
  | .change => ex.execute

/-- The executor behind a recorder, which keeps what the executor has seen, in order. -/
def recorded (ex : Executor driver σ) : Executor driver (σ × List Action) where
  note event seen := (ex.note event seen.1, seen.2 ++ [.noted event])
  query sql params seen :=
    let (answer, state) := ex.query sql params seen.1
    (answer, state, seen.2 ++ [.demanded .rows sql params])
  execute sql params seen :=
    let (answer, state) := ex.execute sql params seen.1
    (answer, state, seen.2 ++ [.demanded .change sql params])

theorem note_recorded (ex : Executor driver σ) (event : LogEvent) (seen : σ × List Action) :
    ex.recorded.note event seen = (ex.note event seen.1, seen.2 ++ [.noted event]) := rfl

theorem meet_recorded (ex : Executor driver σ) (demand : Demand) (sql : String)
    (params : List Value) (seen : σ × List Action) :
    ex.recorded.meet demand sql params seen =
      ((ex.meet demand sql params seen.1).1, (ex.meet demand sql params seen.1).2,
        seen.2 ++ [.demanded demand sql params]) := by
  cases demand <;> rfl

end Executor

/-! ## Ways to run a statement -/

/-- The ways to run a statement. Three of them run the query that it was written as. -/
inductive Method where
  | fetchAll
  | fetchFirst
  | fetchCount
  | queryFetchAll
  | queryFetchFirst
  | queryExecute
  deriving DecidableEq

namespace Method

/-- What comes of a run. -/
def Result (driver : Driver) : Method → Type
  | fetchAll | queryFetchAll => List driver.Row
  | fetchFirst | queryFetchFirst => Option driver.Row
  | fetchCount => Int64
  | queryExecute => UInt64

variable {driver : Driver} {σ : Type}

/-- Runs a statement. -/
def run (ex : Executor driver σ) (s : Select) (state : σ) :
    (m : Method) → Except Fault (m.Result driver) × σ
  | fetchAll => s.fetchAll ex state
  | fetchFirst => s.fetchFirst ex state
  | fetchCount => s.fetchCount ex state
  | queryFetchAll =>
    let (q, state) := s.buildOn ex state
    q.fetchAll ex state
  | queryFetchFirst =>
    let (q, state) := s.buildOn ex state
    q.fetchFirst ex state
  | queryExecute =>
    let (q, state) := s.buildOn ex state
    q.execute ex state

/-- The statement that is written: to count rows, the count. -/
def written (s : Select) : Method → Select
  | fetchCount => s.count
  | _ => s

/-- What is demanded of the executor. -/
def demand : Method → Demand
  | queryExecute => .change
  | _ => .rows

/-- What is made of the answer. A count is what the driver reads in the first column of the first
row, and is zero if there is no row. -/
def read : (m : Method) → m.demand.Answer driver → Except Fault (m.Result driver)
  | fetchAll, rows => .ok rows
  | fetchFirst, rows => .ok (List.head? rows)
  | fetchCount, [] => .ok (0 : Int64)
  | fetchCount, (row : driver.Row) :: _ =>
    match driver.int8 row 0 with
    | .ok n => .ok n
    | .error fault => .error (.query fault)
  | queryFetchAll, rows => .ok rows
  | queryFetchFirst, rows => .ok (List.head? rows)
  | queryExecute, affected => .ok affected

end Method

/-! ## Running and recording -/

section

variable {driver : Driver} {σ : Type} (ex : Executor driver σ)

namespace Query

/-- Makes a demand of an executor with a query. -/
def make (q : Query) : (demand : Demand) → σ → Except Fault (demand.Answer driver) × σ
  | .rows => q.fetchAll ex
  | .change => q.execute ex

/-- Only a query in the dialect of executors reaches one. -/
theorem make_eq (q : Query) (demand : Demand) (state : σ) :
    q.make ex demand state =
      if q.dialect = "postgres" then
        ex.meet demand q.sql q.params (ex.note (.about demand.message q) state)
      else (.error (.foreignDialect "postgres" q.dialect), state) := by
  by_cases h : q.dialect = "postgres"
  · have hcheck : q.ensureDialect executorDialect = .ok () := if_pos h
    rw [if_pos h]
    cases demand with
    | rows => simp only [make, fetchAll, hcheck]; rfl
    | change => simp only [make, execute, hcheck]; rfl
  · have hcheck : q.ensureDialect executorDialect =
        .error (.foreignDialect "postgres" q.dialect) := if_neg h
    rw [if_neg h]
    cases demand with
    | rows => simp only [make, fetchAll, hcheck]; rfl
    | change => simp only [make, execute, hcheck]; rfl

end Query

/-- Writing a statement is noted once. -/
theorem Select.buildOn_eq (s : Select) (state : σ) :
    s.buildOn ex state = (s.query, ex.note (.about "built statement" s.query) state) := rfl

namespace Method

/-- A statement and its count are written in one dialect. -/
theorem dialect_query_written (m : Method) (s : Select) :
    (m.written s).query.dialect = s.dialect.name := by
  cases m with
  | fetchCount => exact congrArg Dialect.name s.dialect_count
  | _ => rfl

/-- Every run writes one statement, makes one demand with it and reads the answer. -/
theorem run_eq_read (m : Method) (s : Select) (state : σ) :
    m.run ex s state =
      let q := (m.written s).query
      let made := q.make ex m.demand (ex.note (.about "built statement" q) state)
      (made.1 >>= m.read, made.2) := by
  cases m with
  | fetchAll =>
      simp only [run, Select.fetchAll, Select.buildOn_eq, written, demand, Query.make]
      rcases s.query.fetchAll ex (ex.note _ state) with ⟨_ | rows, state'⟩ <;> rfl
  | fetchFirst =>
      simp only [run, Select.fetchFirst, Select.buildOn_eq, Query.fetchFirst, written, demand,
        Query.make]
      rcases s.query.fetchAll ex (ex.note _ state) with ⟨_ | rows, state'⟩ <;> rfl
  | fetchCount =>
      simp only [run, Select.fetchCount, Select.fetchAll, Select.buildOn_eq, written, demand,
        Query.make]
      rcases s.count.query.fetchAll ex (ex.note _ state) with ⟨_ | (_ | ⟨row, rows⟩), state'⟩
      · rfl
      · rfl
      -- the driver reads the row, or cannot
      · simp only [bind, Except.bind, read]
        cases driver.int8 row 0 <;> rfl
  | queryFetchAll =>
      simp only [run, Select.buildOn_eq, written, demand, Query.make]
      rcases s.query.fetchAll ex (ex.note _ state) with ⟨_ | rows, state'⟩ <;> rfl
  | queryFetchFirst =>
      simp only [run, Select.buildOn_eq, Query.fetchFirst, written, demand, Query.make]
      rcases s.query.fetchAll ex (ex.note _ state) with ⟨_ | rows, state'⟩ <;> rfl
  | queryExecute =>
      simp only [run, Select.buildOn_eq, written, demand, Query.make]
      rcases s.query.execute ex (ex.note _ state) with ⟨_ | affected, state'⟩ <;> rfl

/-- The demand is made once, with the query that was written, if this is in the dialect of
executors. -/
theorem run_eq (m : Method) (s : Select) (state : σ) :
    m.run ex s state =
      let q := (m.written s).query
      let built := ex.note (.about "built statement" q) state
      if s.dialect.name = "postgres" then
        let met := ex.meet m.demand q.sql q.params (ex.note (.about m.demand.message q) built)
        (met.1 >>= m.read, met.2)
      else (.error (.foreignDialect "postgres" s.dialect.name), built) := by
  rw [run_eq_read]
  simp only [Query.make_eq, dialect_query_written]
  by_cases h : s.dialect.name = "postgres"
  · rw [if_pos h, if_pos h]
  · rw [if_neg h, if_neg h]
    rfl

/-- Running a statement, whatever the executor and its driver are. It is noted that a query was
written. In another dialect than that of executors, the run ends there with a fault that names both
dialects. Otherwise it is noted that the query is run, and the executor gets one demand with the
text and the parameters of the query; its fault is passed on, and its answer is read. The query is
that of the statement, or of its count, and the two events tell of it and differ in their messages
only. The recorder that shows this changes nothing. -/
theorem run_recorded (m : Method) (s : Select) (state : σ) (before : List Action) :
    let q := (m.written s).query
    ∃ built running : LogEvent, built.Tells "built statement" q ∧
      running.Tells m.demand.message q ∧ running = { built with message := m.demand.message } ∧
      (s.dialect.name ≠ "postgres" → m.run ex.recorded s (state, before) =
        (.error (.foreignDialect "postgres" s.dialect.name), ex.note built state,
          before ++ [.noted built])) ∧
      (s.dialect.name = "postgres" → m.run ex.recorded s (state, before) =
        let met := ex.meet m.demand q.sql q.params (ex.note running (ex.note built state))
        (met.1 >>= m.read, met.2,
          before ++ [.noted built, .noted running, .demanded m.demand q.sql q.params])) ∧
      m.run ex s state = ((m.run ex.recorded s (state, before)).1,
        (m.run ex.recorded s (state, before)).2.1) := by
  refine ⟨.about "built statement" (m.written s).query, .about m.demand.message (m.written s).query,
    LogEvent.tells_about _ _, LogEvent.tells_about _ _, rfl, ?_, ?_, ?_⟩
  · intro hforeign
    rw [run_eq]
    simp only [if_neg hforeign, Executor.note_recorded]
  · intro hnative
    rw [run_eq]
    simp only [if_pos hnative, Executor.note_recorded, Executor.meet_recorded, List.append_assoc]
    rfl
  · rw [run_eq, run_eq]
    by_cases h : s.dialect.name = "postgres"
    · simp only [if_pos h, Executor.note_recorded, Executor.meet_recorded]
    · simp only [if_neg h, Executor.note_recorded]

/-- A driver whose rows have one column: a number, or a text that cannot be read as one. -/
def oneColumn : Driver where
  Row := Int64 ⊕ String
  int8
    | .inl n, 0 => .ok n
    | .inr _, 0 => .error ⟨"error deserializing column 0"⟩
    | _, column => .error ⟨"invalid column " ++ toString column⟩

/-- An executor that answers every query with the same rows and keeps no state. -/
def answering (rows : List oneColumn.Row) : Executor oneColumn Unit where
  note _ _ := ()
  query _ _ _ := (.ok rows, ())
  execute _ _ _ := (.ok 0, ())

/-- The users of an age and above. The age is a parameter. -/
def adults : Select :=
  { Select.ofTable .postgres "users" none with
    filter := Filter.empty.push .and (.compare "age" .atLeast (.int 18)) }

/-- The text that counts these users. -/
def adultsCount : String := "SELECT COUNT(*) FROM users WHERE age >= $1"

/-- Counting the users where the first row has a number, and where the driver cannot read it. Both
times the executor sees two events and a demand with the text of the count. -/
theorem run_recorded_count :
    (∃ built running : LogEvent, built.message = "built statement" ∧ built.sql = adultsCount ∧
      running.message = "executing query" ∧ running.sql = adultsCount ∧
      fetchCount.run (answering [.inl 3, .inr "x"]).recorded adults ((), []) =
        (.ok (3 : Int64), (),
          [.noted built, .noted running, .demanded .rows adultsCount [.int 18]])) ∧
    ∃ trace, fetchCount.run (answering [.inr "x", .inl 3]).recorded adults ((), []) =
      (.error (.query ⟨"error deserializing column 0"⟩), (), trace) := by
  have hquery : adults.count.query = ⟨adultsCount, [.int 18], "postgres"⟩ := by rfl
  have hfits : adultsCount.utf8ByteSize ≤ 200 := by decide
  constructor
  · obtain ⟨built, running, hbuilt, hrunning, -, -, hrun, -⟩ :=
      run_recorded (answering [.inl 3, .inr "x"]) fetchCount adults () []
    simp only [written, hquery] at hbuilt hrunning hrun
    exact ⟨built, running, hbuilt.message_eq, hbuilt.sql.eq_of_le hfits, hrunning.message_eq,
      hrunning.sql.eq_of_le hfits, hrun rfl⟩
  · obtain ⟨built, running, -, -, -, -, hrun, -⟩ :=
      run_recorded (answering [.inr "x", .inl 3]) fetchCount adults () []
    exact ⟨_, hrun rfl⟩

end Method

end

end BoundSelect
