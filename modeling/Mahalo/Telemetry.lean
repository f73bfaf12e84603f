/-
`mahalo-telemetry`: handlers attached by the names of events, and events executed.

What a handler does with its own clone of the `Telemetry` may be another thing each time that it
is called, so a piece of code is the calls that it makes, and with each call of `execute` what
the handlers that it invokes do in their turn.  A run keeps a log; the measurements and metadata
of events, and the closures that are attached, are parameters.  So is the clock, which `execute`
reads first, and which gives nothing if it is before the epoch.
-/
import Mahalo.Lib.RefCell

namespace Mahalo

structure TelemetryEvent (M N : Type) where
  name : List String
  measurements : M
  metadata : N
  timestamp : Nat
  deriving DecidableEq, Repr

structure HandlerEntry (H : Type) where
  namePrefix : List String
  handler : H
  deriving DecidableEq, Repr

/-- `event_matches` -/
def eventMatches (name namePrefix : List String) : Bool :=
  if name.length < namePrefix.length then false else name.take namePrefix.length == namePrefix

/-- What is seen of a run. -/
inductive Logged (H M N : Type) where
  | attached (entry : HandlerEntry H)
  | began (event : TelemetryEvent M N)
  | invoked (entry : HandlerEntry H)
  | ended
  deriving DecidableEq, Repr

/-- The handlers, that all clones share, and the log. -/
structure Telemetry (H M N : Type) where
  handlers : RefCell (List (HandlerEntry H))
  log : List (Logged H M N)
  deriving DecidableEq, Repr

namespace Telemetry

/-- What a call panics with: a borrow, or the clock. -/
inductive Panic where
  | borrow (e : BorrowError)
  | clock
  deriving DecidableEq, Repr

/-- `now_ms` -/
def nowMs (clock : Option Nat) : Except Panic Nat :=
  match clock with
  | some ms => .ok ms
  | none => .error .clock

/-- The calls that a piece of code makes one after the other.  To `execute` belong what the clock gives, and
the code of the first handler invoked, of the second and so on. -/
inductive Code (H M N : Type) where
  | done
  | attach (eventName : List String) (handler : H) (rest : Code H M N)
  | execute (eventName : List String) (measurements : M) (metadata : N) (clock : Option Nat)
      (handlers : Nat → Code H M N) (rest : Code H M N)

variable {H M N : Type}

def new : Telemetry H M N := { handlers := .new [], log := [] }

def logged (t : Telemetry H M N) (x : Logged H M N) : Telemetry H M N := { t with log := t.log ++ [x] }

def attach (t : Telemetry H M N) (eventName : List String) (handler : H) : Except Panic (Telemetry H M N) := do
  let entry := { namePrefix := eventName, handler }
  let handlers ← t.handlers.borrowMut.mapError .borrow
  return { t with handlers := handlers.releaseMut (handlers.value ++ [entry]) }.logged (.attached entry)

/-- The loop of `execute`; `call` is what the `i`-th handler invoked does. -/
def dispatch (event : TelemetryEvent M N) (call : Nat → Telemetry H M N → Except Panic (Telemetry H M N)) :
    Nat → List (HandlerEntry H) → Telemetry H M N → Except Panic (Telemetry H M N)
  | _, [], t => .ok t
  | i, entry :: rest, t =>
      if eventMatches event.name entry.namePrefix then do
        let t ← call i (t.logged (.invoked entry))
        dispatch event call (i + 1) rest t
      else dispatch event call i rest t

def execute (t : Telemetry H M N) (eventName : List String) (measurements : M) (metadata : N) (clock : Option Nat)
    (call : Nat → Telemetry H M N → Except Panic (Telemetry H M N)) :
    Except Panic (Telemetry H M N) := do
  let timestamp ← nowMs clock
  let event := { name := eventName, measurements, metadata, timestamp }
  let handlers ← t.handlers.borrow.mapError .borrow
  let t ← dispatch event call 0 handlers.value ({ t with handlers }.logged (.began event))
  return { t with handlers := t.handlers.release }.logged .ended

/-- A piece of code run to its end, or to the first panic. -/
def Code.run : Code H M N → Telemetry H M N → Except Panic (Telemetry H M N)
  | .done, t => .ok t
  | .attach eventName handler rest, t => do
      let t ← t.attach eventName handler
      rest.run t
  | .execute eventName measurements metadata clock handlers rest, t => do
      let t ← t.execute eventName measurements metadata clock fun i => (handlers i).run
      rest.run t

end Telemetry

end Mahalo
