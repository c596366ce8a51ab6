import Cohort.Engine.Evaluate
import Cohort.Assoc
import Cohort.Sorting

/-!
# The engine

The engine holds the transactions and the output tables. It can be told to fail, and
how long a query takes.

## Main definitions

* `Engine` — transactions, tables and switches
* `Engine.beginQuery`, `Engine.endQuery` — a query that takes its time
* `Engine.readTable`, `Engine.writeTable`, `Engine.dropTable` — output tables
-/

namespace Cohort

/-- Transactions, output tables, and the switches for failures. -/
structure Engine where
  transactions : List Transaction := []
  tables : List (String × Dataset) := []
  /-- Queries find no data. -/
  failQueries : Bool := false
  /-- Queries end the process that runs them. -/
  crashQueries : Bool := false
  /-- The tables that cannot be written. -/
  failingWrites : List String := []
  /-- The tables that cannot be dropped. -/
  failingDrops : List String := []
  /-- Milliseconds that a query takes. -/
  queryDelay : Nat := 0
  /-- Queries in progress. -/
  activeQueries : Nat := 0
  /-- The most queries that were in progress at once. -/
  peakQueries : Nat := 0
  /-- The number of written tables. -/
  writes : Nat := 0
  deriving Repr

namespace Engine

/-- A query begins. -/
def beginQuery (e : Engine) : Engine :=
  { e with
    activeQueries := e.activeQueries + 1
    peakQueries := max e.peakQueries (e.activeQueries + 1) }

/-- The outcome of a query on the present transactions. -/
def answer (e : Engine) (q : Query) : Except EngineFailure Dataset :=
  if e.crashQueries then .error (.processExited 1)
  else if e.failQueries then .error .noResult
  else .ok (q.evaluate e.transactions)

/-- A query ends with its outcome. -/
def endQuery (e : Engine) (q : Query) : Except EngineFailure Dataset × Engine :=
  (e.answer q, { e with activeQueries := e.activeQueries - 1 })

/-- The rows of a table. -/
def table? (e : Engine) (name : String) : Option Dataset := Assoc.get? name e.tables

/-- Reads a table, which must be there. -/
def readTable (e : Engine) (name : String) : Except EngineFailure Dataset :=
  match e.table? name with
  | some rows => .ok rows
  | none => .error (.tableNotFound name)

/-- Sets the rows of a table. -/
def putTable (e : Engine) (name : String) (rows : Dataset) : Engine :=
  { e with tables := Assoc.put name rows e.tables }

/-- Writes a table and says how many rows it has. -/
def writeTable (e : Engine) (name : String) (rows : Dataset) : Except EngineFailure Nat × Engine :=
  if e.failingWrites.contains name then (.error (.writeRefused name), e)
  else (.ok rows.length, { e.putTable name rows with writes := e.writes + 1 })

/-- Drops a table. -/
def dropTable (e : Engine) (name : String) : Except EngineFailure Unit × Engine :=
  if e.failingDrops.contains name then (.error (.writeRefused name), e)
  else (.ok (), { e with tables := Assoc.erase name e.tables })

/-- The known users of a table, in the order of their names. -/
def usersOf (e : Engine) (name : String) : List String :=
  sortBy (fun a b => !decide (b < a)) (((e.table? name).getD []).filterMap UserRow.user)

end Engine

end Cohort
