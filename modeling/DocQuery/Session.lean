import DocQuery.Value.Written

/-!
# Sessions with the store

A `Session` holds what it is about together with the calls that have gone to the store and the lines
that have been logged. An action on a session may fail, and what it did before stays done: that is
`Run`. A store that is to fail has its error ready in a `Failure`.
-/

namespace DocQuery

structure Call where
  name : String
  arguments : List Value := []
  options : Entries := []
  /-- The number of the client that the call goes through, where it goes through one. -/
  client : Option Nat := none
deriving Inhabited

/-- An error that the store has ready, for the call of a name or for the first one. -/
structure Failure where
  error : StoreError
  call : Option String := none
deriving Inhabited

/-- Whether a call fails, given whether it is the first. -/
def Failure.strikes (f : Failure) (name : String) (isFirst : Bool) : Bool :=
  match f.call with
  | some target => target == name
  | none => isFirst

structure Session (σ : Type) where
  subject : σ
  calls : List Call := []
  logs : List Text := []
deriving Inhabited

abbrev Run (σ : Type) := ExceptT Fault (StateM (Session σ))

namespace Run

variable {σ α : Type}

def subject : Run σ σ := do
  pure (← get).subject

def setSubject (a : σ) : Run σ Unit :=
  modify fun s => { s with subject := a }

def orFail : Except Fault α → Run σ α
  | .ok a => pure a
  | .error fault => throw fault

def log (line : Text) : Run σ Unit :=
  modify fun s => { s with logs := s.logs ++ [line] }

/-- Logs a line with a name in it; where the name cannot be written, there is no line. -/
def logNamed (before : Text) (name : Value) (after : Text := "") : Run σ Unit :=
  match name.plain with
  | .ok s => log (before ++ s ++ after)
  | .error _ => pure ()

/-- Sends a call, which is on record even where it fails. -/
def call (failure : Option Failure) (c : Call) : Run σ Unit := do
  let s ← get
  set { s with calls := s.calls ++ [c] }
  match failure with
  | some f => if f.strikes c.name s.calls.isEmpty then throw (.raised f.error) else pure ()
  | none => pure ()

/-- Options go to the store by name, so their keys must be text. -/
def checkOptionNames (options : Entries) : Run σ Unit :=
  if options.all fun e => e.1.isText then pure () else throw .wrongType

/-- Does an action and then changes the subject, also where the action has failed. -/
def andThen (action : Run σ α) (f : σ → σ) : Run σ α :=
  ExceptT.mk do
    let outcome ← action.run
    modify fun s => { s with subject := f s.subject }
    pure outcome

end Run

end DocQuery
