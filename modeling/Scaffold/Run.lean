import Scaffold.Failure
import Scaffold.Log
import Scaffold.Tree

/-!
# Runs

A run reads and writes the files of a project, reports events and may end in a failure. What it did
before a failure stays done.

* **The session** holds the tree, the working directory and the log.
* **A failure is a value.** `Run.perform` gives it beside the session that the run left.
-/

namespace Scaffold

/-- What a run works on. -/
structure Session where
  /-- the files -/
  tree : Tree
  /-- the working directory -/
  here : List String
  /-- the events so far, in order -/
  log : List Event

/-- A computation on a session that may fail and keeps the session when it does. -/
abbrev Run := ExceptT Failure (StateM Session)

/-- Performs a run: its outcome and the session after it. -/
def Run.perform {α : Type} (r : Run α) (s : Session) : Except Failure α × Session :=
  StateT.run (ExceptT.run r) s

/-- Reports an event. -/
def report (e : Event) : Run Unit :=
  modify fun s => { s with log := s.log ++ [e] }

/-- Fails. -/
def failWith {α : Type} (f : Failure) : Run α := throw f

/-- The value of a computation that fails for one kind of cause. -/
def orFail {ε α : Type} (f : ε → Failure) : Except ε α → Run α
  | .ok a => pure a
  | .error e => throw (f e)

end Scaffold
