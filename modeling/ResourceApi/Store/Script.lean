import ResourceApi.Store.Program

/-!
# Scripted stores

A `Script` answers calls from a list of prepared replies and keeps a log of what it was asked.
A reply that is left to the script, or is missing, is a plausible success: nothing is found,
every identifier exists, one row is changed, and created rows are answered as given, with the
next number as primary key where they have none.
-/

namespace ResourceApi

/-- A prepared reply. -/
inductive ScriptedReply where
  /-- The reply is left to the script. -/
  | byDefault
  | failure (e : StoreError)
  /-- The parts of an answer; a call takes the part that it is answered with. -/
  | given (rows : List Object) (row : Object) (count : Option Nat) (ids : List Json)
  deriving Repr

/-- What a scripted store notes down. -/
inductive LogEntry where
  | called (c : Call)
  /-- An open transaction was given up. -/
  | dropped
  deriving Repr

/-- A store that answers from a list of replies. -/
structure Script where
  replies : List ScriptedReply
  /-- What happened, in order. -/
  log : List LogEntry := []
  /-- The next primary key. -/
  nextKey : Nat := 1
  /-- The number of transactions that have begun and not ended. -/
  openCount : Nat := 0
  /-- The number of identifiers drawn. -/
  drawn : Nat := 0
  deriving Repr

namespace Script

/-- Gives a row the next number as primary key, if it has no key. -/
def keyed (schema : Schema) (row : Object) : StateM Script Object :=
  if row.has schema.idField then return row
  else do
    let s ← get
    set { s with nextKey := s.nextKey + 1 }
    return row.insert schema.idField (.int s.nextKey)

/-- The answer that is left to the script. -/
def defaultAnswer : (o : Operation) → StateM Script o.Answer
  | .find .. => return []
  | .count .. => return 0
  | .create schema row => keyed schema row
  | .bulkCreate schema rows => rows.mapM (keyed schema)
  | .update .. => return 1
  | .destroy .. => return 1
  | .addLinks .. => return ()
  | .setLinks .. => return ()
  | .existingIds _ ids => return ids

/-- The answer that is made up of prepared parts. -/
def givenAnswer (rows : List Object) (row : Object) (count : Option Nat) (ids : List Json) :
    (o : Operation) → o.Answer
  | .find .. => rows
  | .count .. => count.getD 0
  | .create .. => row
  | .bulkCreate .. => rows
  | .update .. => count.getD 1
  | .destroy .. => count.getD 1
  | .addLinks .. => ()
  | .setLinks .. => ()
  | .existingIds .. => ids

/-- The next reply. -/
def nextReply : StateM Script ScriptedReply := modifyGet fun s =>
  match s.replies with
  | [] => (.byDefault, s)
  | reply :: rest => (reply, { s with replies := rest })

/-- Notes what happened. -/
def note (entry : LogEntry) : StateM Script Unit :=
  modify fun s => { s with log := s.log ++ [entry] }

/-- The reply to an operation. -/
def perform (o : Operation) : StateM Script (Except StoreError o.Answer) := do
  match ← nextReply with
  | .byDefault => return .ok (← defaultAnswer o)
  | .failure e => return .error e
  | .given rows row count ids => return .ok (givenAnswer rows row count ids o)

/-- The reply to a call that begins or ends a transaction. -/
def control : StateM Script (Except StoreError Unit) := do
  match ← nextReply with
  | .failure e => return .error e
  | _ => return .ok ()

/-- Counts a transaction that has begun. -/
def opened : StateM Script Unit := modify fun s => { s with openCount := s.openCount + 1 }

/-- Counts a transaction that has ended. -/
def closed : StateM Script Unit := modify fun s => { s with openCount := s.openCount - 1 }

/-- The reply to a call. A transaction ends even if the reply to its end is a failure. -/
def reply : (c : Call) → StateM Script c.Reply
  | .perform _ o => perform o
  | .begin => do
    let begun ← control
    if begun matches .ok _ then opened
    return begun
  | .commit => do
    closed
    control
  | .rollback => do
    closed
    control

/-- Notes a call and answers it. -/
def answer (c : Call) : StateM Script c.Reply := do
  note (.called c)
  reply c

/-- Gives up the open transaction. -/
def drop : StateM Script Unit := do
  if 0 < (← get).openCount then
    closed
    note .dropped

/-- The next identifier of a supply. -/
def fresh (supply : Nat → String) : StateM Script String :=
  modifyGet fun s => (supply s.drawn, { s with drawn := s.drawn + 1 })

/-- Runs a program against the script. -/
def run {α : Type} (supply : Nat → String) (p : Program α) : StateM Script α :=
  p.interpret (fresh supply) answer

end Script

end ResourceApi
