import StingDB.Execution.Executors
import StingDB.Lib.Machine

/-!
# Connections

`network/connection.h`: what a connection reads, what the server does about it and what it answers.
A connection keeps nothing from one read to the next, so a server that is sent commands one after
another, over whatever connections, is a machine whose state is the instance.

A command is recognised by how it begins and the rest of it is not looked at: the only table is
`users`, an INSERT inserts one row, and a SELECT counts.
-/

set_option autoImplicit false

namespace StingDB

/-- The bytes of a text in ASCII. -/
def bytes (text : String) : List UInt8 := text.toList.map fun c ↦ .ofNat c.toNat

/-! ## Commands and answers -/

/-- The branch of `DoRead` that a query is for. -/
inductive Command where
  | createTable
  | insert
  | select
  | begin
  | unsupported
  deriving DecidableEq

/-- The tests of `DoRead`, in order. -/
def Command.ofQuery (query : List UInt8) : Command :=
  if (bytes "CREATE TABLE").isPrefixOf query then .createTable
  else if (bytes "INSERT").isPrefixOf query then .insert
  else if (bytes "SELECT").isPrefixOf query then .select
  else if (bytes "BEGIN").isPrefixOf query then .begin
  else .unsupported

/-- `response` -/
inductive Response where
  | created
  | inserted
  | selected (count : ℕ)
  | begun (txnId : TxnId)
  | unsupported
  | error (what : String)
  deriving DecidableEq

/-- The text of a response. -/
def Response.text : Response → String
  | .created => "Success: Table 'users' created.\n"
  | .inserted => "Success: 1 row inserted into 'users'.\n"
  | .selected count => "Success: " ++ toString count ++ " rows selected from 'users'.\n"
  | .begun txnId => "Success: Transaction " ++ toString txnId ++ " started.\n"
  | .unsupported => "Error: Unsupported statement. Try CREATE TABLE or BEGIN.\n"
  | .error what => "Error: " ++ what ++ "\n"

/-! ## `DoRead` -/

namespace Connection

/-- `cols` -/
def usersColumns : List Column := [.create "id" .integer 4, .create "name" .varchar 255]

/-- A `DummyValues`, which gives one batch of one row. -/
def dummyValues : List ℕ := [1]

/-- `CREATE TABLE` -/
def createTable (s : StingInstance) : Response × StingInstance :=
  match s.catalogManager.bindCreateTable "users" usersColumns with
  | .ok catalogManager => (.created, { s with catalogManager })
  | .error what => (.error what, s)

/-- `INSERT`.  An `Init` that throws leaves the transaction as it has begun. -/
def insert (s : StingInstance) : Option (Response × StingInstance) := do
  let (txn, s) := s.begin .snapshotIsolation
  let insertExec : InsertExecutor :=
    { txn := some txn.txnId, child := dummyValues, tableName := "users" }
  match insertExec.init s with
  | .error what => some (.error what, s)
  | .ok insertExec =>
    let (_, s) ← insertExec.next s
    let s ← s.commit txn.txnId
    some (.inserted, s)

/-- `SELECT` -/
def select (s : StingInstance) : Option (Response × StingInstance) := do
  let (txn, s) := s.begin .snapshotIsolation
  let scanExec : SeqScanExecutor := { tableName := "users" }
  match scanExec.init s with
  | .error what => some (.error what, s)
  | .ok scanExec =>
    let (count, bpm) ← scanExec.count SeqScanExecutor.countFuel s.bpm
    let s ← { s with bpm }.commit txn.txnId
    some (.selected count, s)

/-- `BEGIN` -/
def begin (s : StingInstance) : Response × StingInstance :=
  let (txn, s) := s.begin .snapshotIsolation
  (.begun txn.txnId, s)

/-- `DoRead`, of a query that is read at once: the response and the instance, or `none` if the
server does not survive. -/
def doRead (s : StingInstance) (query : List UInt8) : Option (Response × StingInstance) :=
  match Command.ofQuery query with
  | .createTable => some (createTable s)
  | .insert => insert s
  | .select => select s
  | .begin => some (begin s)
  | .unsupported => some (.unsupported, s)

end Connection

end StingDB
