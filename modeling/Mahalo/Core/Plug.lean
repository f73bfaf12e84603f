/-
Plugs, pipelines and controllers.

An async function is a program that may wait for answers of type `Ω` from anything
outside (a clock, a database, another task) before it returns, so a plug may do
what it likes with the `Conn` it is given.
-/
import Mahalo.Core.Conn
import Mahalo.Lib.Prog

namespace Mahalo

open Interactive

/-- An async function's body: it waits for answers, and returns. -/
abbrev Async (Ω X : Type) := Prog Unit (fun _ => Ω) X

/-- The `Plug` trait.  `callSync` returns `ok` if it has handled the `Conn`, and `error` to give it back. -/
structure Plug (A Ω : Type) where
  call : Conn A → Async Ω (Conn A)
  callSync : Conn A → Async Ω (Except (Conn A) (Conn A)) := fun conn => pure (.error conn)

namespace Plug

variable {A Ω : Type}

/-- `plug_fn` -/
def plugFn (f : Conn A → Async Ω (Conn A)) : Plug A Ω := { call := f }

/-- `sync_plug_fn` -/
def syncPlugFn (f : Conn A → Conn A) : Plug A Ω :=
  { call := fun conn => pure (f conn), callSync := fun conn => pure (.ok (f conn)) }

/-- Try `call_sync`, and fall back to `call`. -/
def run (plug : Plug A Ω) (conn : Conn A) : Async Ω (Conn A) := do
  match ← plug.callSync conn with
  | .ok c => return c
  | .error c => plug.call c

end Plug

/-- The `Controller` trait. -/
structure Controller (A Ω : Type) where
  index : Conn A → Async Ω (Conn A) := fun conn => pure (conn.putStatus statusNotFound)
  «show» : Conn A → Async Ω (Conn A) := fun conn => pure (conn.putStatus statusNotFound)
  create : Conn A → Async Ω (Conn A) := fun conn => pure (conn.putStatus statusNotFound)
  update : Conn A → Async Ω (Conn A) := fun conn => pure (conn.putStatus statusNotFound)
  delete : Conn A → Async Ω (Conn A) := fun conn => pure (conn.putStatus statusNotFound)

/-- `Controller::call_action` -/
def Controller.callAction {A Ω : Type} (c : Controller A Ω) (action : String) (conn : Conn A) :
    Async Ω (Conn A) :=
  if action = "index" then c.index conn
  else if action = "show" then c.show conn
  else if action = "create" then c.create conn
  else if action = "update" then c.update conn
  else if action = "delete" then c.delete conn
  else pure (conn.putStatus statusNotFound)

structure Pipeline (A Ω : Type) where
  name : String
  plugs : List (Plug A Ω)

namespace Pipeline

variable {A Ω : Type}

def new (name : String) : Pipeline A Ω := { name, plugs := [] }

def plug (p : Pipeline A Ω) (plug : Plug A Ω) : Pipeline A Ω := { p with plugs := p.plugs ++ [plug] }

/-- The loop of `Pipeline::execute`. -/
def executeEach : List (Plug A Ω) → Conn A → Async Ω (Conn A)
  | [], conn => pure conn
  | plug :: rest, conn => if conn.halted then pure conn else plug.run conn >>= executeEach rest

def execute (p : Pipeline A Ω) (conn : Conn A) : Async Ω (Conn A) := executeEach p.plugs conn

end Pipeline

end Mahalo
