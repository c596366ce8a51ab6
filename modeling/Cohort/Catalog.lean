import Cohort.Entry
import Cohort.Assoc
import Cohort.Sorting

/-!
# The catalogue

The catalogue holds one row per rule. Names of rules are unique, which an index from
names to identifiers watches over. A row is replaced only by someone who has seen its
present version, so that no change is lost.

## Main definitions

* `Catalog` — rows, name index and the next free identifier
* `Catalog.get?`, `Catalog.list` — reading
* `Catalog.insert`, `Catalog.replace`, `Catalog.remove` — changing rows
* `Catalog.recordRefresh`, `Catalog.recordRun` — what runs leave behind
-/

namespace Cohort

/-- The rows of all rules. -/
structure Catalog where
  rows : List (RuleId × Entry) := []
  names : List (String × RuleId) := []
  nextId : RuleId := RuleId.ofNat 1
  deriving DecidableEq, Repr

/-- The outcome of writing an output table. -/
structure Refresh where
  rowCount : Nat
  refreshedAt : Instant
  dataAsOf : Instant
  deriving DecidableEq, Repr

/-- The entry with the outcome of a run written into its segment. -/
def Entry.refreshed (e : Entry) (r : Refresh) : Entry :=
  { e with
    segment :=
      { e.segment with
        rowCount := r.rowCount
        lastRefreshedAt := some r.refreshedAt
        dataAsOf := some r.dataAsOf }
    version := e.version + 1 }

/-- The entry with the times of its last and its next run. -/
def Entry.ran (e : Entry) (last next : Instant) : Entry :=
  { e with
    rule := { e.rule with lastRunAt := some last, nextRunAt := some next }
    version := e.version + 1 }

namespace Catalog

/-- The row of a rule. -/
def get? (c : Catalog) (id : RuleId) : Option Entry := Assoc.get? id c.rows

/-- All rows by ascending identifier. -/
def list (c : Catalog) : List Entry :=
  sortBy (fun a b => RuleId.le a.id b.id) (c.rows.map (·.2))

/-- All rules by ascending identifier. -/
def rules (c : Catalog) : List Rule := c.list.map Entry.rule

/-- Takes the next free identifier. -/
def allocate (c : Catalog) : RuleId × Catalog := (c.nextId, { c with nextId := ⟨c.nextId.val + 1⟩ })

/-- Adds a row, which gets version one. The name is taken first, and it is free again if the
identifier turns out to be in use. -/
def insert (c : Catalog) (e : Entry) : Except Failure Entry × Catalog :=
  match e.validate with
  | .error failure => (.error failure, c)
  | .ok () =>
    if Assoc.has e.rule.name c.names then (.error (.nameTaken e.rule.name), c)
    else
      let names := Assoc.put e.rule.name e.id c.names
      if Assoc.has e.id c.rows then
        (.error (.catalog (.alreadyExists e.id)),
          { c with names := Assoc.erase e.rule.name names })
      else
        let stored := { e with version := 1 }
        (.ok stored, { c with rows := Assoc.put e.id stored c.rows, names := names })

/-- Replaces a row whose present version is `expected`; the new row gets the next version. -/
def replace (c : Catalog) (e : Entry) (expected : Nat) : Except Failure Entry × Catalog :=
  match e.validate with
  | .error failure => (.error failure, c)
  | .ok () =>
    match c.get? e.id with
    | none => (.error (.ruleNotFound e.id), c)
    | some current =>
      if current.version ≠ expected then
        (.error (.versionConflict e.id expected current.version), c)
      else if current.rule.name ≠ e.rule.name ∧ Assoc.has e.rule.name c.names then
        (.error (.nameTaken e.rule.name), c)
      else
        let stored := { e with version := expected + 1 }
        let names :=
          if current.rule.name = e.rule.name then c.names
          else Assoc.erase current.rule.name (Assoc.put e.rule.name e.id c.names)
        (.ok stored, { c with rows := Assoc.put e.id stored c.rows, names := names })

/-- Removes a row and frees its name. -/
def remove (c : Catalog) (id : RuleId) : Except Failure Entry × Catalog :=
  match c.get? id with
  | none => (.error (.ruleNotFound id), c)
  | some e =>
    (.ok e, { c with rows := Assoc.erase id c.rows, names := Assoc.erase e.rule.name c.names })

/-- Changes a row in place. -/
def modify (c : Catalog) (id : RuleId) (f : Entry → Entry) : Except Failure Unit × Catalog :=
  match c.get? id with
  | none => (.error (.ruleNotFound id), c)
  | some e => (.ok (), { c with rows := Assoc.put id (f e) c.rows })

/-- Writes down that an output table was computed. -/
def recordRefresh (c : Catalog) (id : RuleId) (r : Refresh) : Except Failure Unit × Catalog :=
  c.modify id fun e => e.refreshed r

/-- Writes down the times of the last and the next run. -/
def recordRun (c : Catalog) (id : RuleId) (last next : Instant) :
    Except Failure Unit × Catalog :=
  c.modify id fun e => e.ran last next

end Catalog

end Cohort
