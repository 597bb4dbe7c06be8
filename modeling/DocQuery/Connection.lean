import DocQuery.Message
import DocQuery.Query.Basic
import DocQuery.Session

/-!
# Connections

A `Connection` owns at most one client of the store. Connecting makes a client unless one is held;
closing forgets it, even where the store fails to close it. Collections are looked up through the
client that is held. `Connection.Step.run` says what a step does.
-/

namespace DocQuery

structure Connection where
  url : Value
  database : Value
  clientOptions : Entries
  /-- The number of the client that is held. -/
  client : Option Nat := none
  /-- How many clients have been made. -/
  created : Nat := 0
deriving Inhabited

namespace Connection

/-- What a new connection is told; further options go to the client under their own names. -/
structure Settings where
  url : Value := .text "mongodb://localhost:27017"
  database : Value := .null
  selectionTimeout : Value := .int 5000
  connectTimeout : Value := .int 10000
  further : Entries := []
deriving Inhabited

def ofSettings (s : Settings) : Connection where
  url := s.url
  database := s.database
  clientOptions := Entries.update
    [(.text "serverSelectionTimeoutMS", s.selectionTimeout),
      (.text "connectTimeoutMS", s.connectTimeout)] s.further

inductive Step where
  | connect
  | enter
  | leave
  | close
  | client
  | databaseName
  | healthCheck
  /-- Looks up a collection; null stands for the connection's database. -/
  | collection (name database : Value)
  | query (name database : Value)
deriving Inhabited

inductive Answer where
  | itself
  | client (number : Nat)
  | collection (c : Collection)
  | query (q : Query)
  | value (v : Value)
deriving Inhabited

structure Replies where
  failure : Option Failure := none
  /-- The driver of the store cannot be loaded. -/
  driverMissing : Bool := false
deriving Inhabited

structure Outcome where
  answer : Except Fault Answer
  session : Session Connection

open Run

/-- The fault of a connection whose client could not be made. -/
def creationFault : Fault → Fault
  | .raised e => match e.origin with
    | .driver | .arguments => .connection (.clientFailed e.message)
    | .elsewhere => .raised e
  | fault => fault

/-- The call that makes a client. -/
def creationCall (c : Connection) : Call :=
  { name := "AsyncIOMotorClient", arguments := [c.url], options := c.clientOptions }

def closingName (number : Nat) : String :=
  "close " ++ String.ofList (Text.decimal number)

/-- The call that closes a client. -/
def closingCall (number : Nat) : Call :=
  { name := closingName number, client := some number }

def pingCall (number : Nat) : Call :=
  { name := "command", arguments := [.text "ping"], client := some number }

def databaseCall (number : Nat) (database : Value) : Call :=
  { name := "get_database", arguments := [database], client := some number }

def collectionCall (number : Nat) (name : Value) : Call :=
  { name := "get_collection", arguments := [name], client := some number }

def create (r : Replies) : Run Connection Nat := do
  let c ← subject
  if r.driverMissing then throw (.connection .driverMissing)
  tryCatch (call r.failure c.creationCall) fun fault => throw (creationFault fault)
  let number := c.created + 1
  setSubject { c with client := some number, created := number }
  logNamed "DEBUG Motor client created (database=" c.database ")"
  pure number

/-- The client that is held, or else a new one. -/
def connect (r : Replies) : Run Connection Nat := do
  match (← subject).client with
  | some number => pure number
  | none => create r

def heldClient (c : Connection) : Except Fault Nat :=
  match c.client with
  | some number => pure number
  | none => throw (.connection .notConnected)

/-- The given name of a database, or else the connection's, which must be set. -/
def databaseOr (c : Connection) (database : Value) : Except Fault Value :=
  if database.truthy then pure database
  else if c.database.truthy then pure c.database
  else throw (.connection .noDatabaseName)

def lookUp (r : Replies) (name database : Value) : Run Connection Collection := do
  let c ← subject
  let number ← orFail c.heldClient
  let database ← orFail (c.databaseOr database)
  call r.failure (databaseCall number database)
  call r.failure (collectionCall number name)
  pure { name := some name, database := some database }

/-- Begins a query; its database is settled before its collection is looked up. -/
def beginQuery (r : Replies) (name database : Value) : Run Connection Query := do
  let database ← orFail ((← subject).databaseOr database)
  let collection ← lookUp r name database
  pure { collection, database }

/-- Forgets the client, then closes it. -/
def close (r : Replies) : Run Connection Unit := do
  let c ← subject
  match c.client with
  | none => pure ()
  | some number =>
    setSubject { c with client := none }
    call r.failure (closingCall number)
    log "DEBUG Motor client closed"

/-- Whether a client is held that reaches its server; an error of the driver means that it does
not. -/
def healthCheck (r : Replies) : Run Connection Bool := do
  match (← subject).client with
  | none => pure false
  | some number =>
    tryCatch
      (do
        call r.failure (pingCall number)
        pure true)
      fun
        | .raised e =>
          if e.origin = .driver then do
            log ("WARNING MongoDB health check failed: " ++ e.message)
            pure false
          else throw (.raised e)
        | fault => throw fault

namespace Step

def action (r : Replies) : Step → Run Connection Answer
  | connect => do return .client (← Connection.connect r)
  | enter => do
    let _ ← Connection.connect r
    pure .itself
  | leave | close => do
    Connection.close r
    pure (.value .null)
  | client => do return .client (← orFail (← subject).heldClient)
  | databaseName => do return .value (← orFail ((← subject).databaseOr .null))
  | healthCheck => do return .value (.bool (← Connection.healthCheck r))
  | collection name database => do return .collection (← lookUp r name database)
  | query name database => do return .query (← beginQuery r name database)

def run (step : Step) (r : Replies) (c : Connection) : Outcome :=
  let (answer, session) := (step.action r).run { subject := c }
  { answer, session }

end Step

end Connection

end DocQuery
