/-
The store as it runs: worker threads, the tasks of the channels and the price thread.

A label is one step of one of them.  A step holds a lock at most once, so anything else
may come between two steps; where the source broadcasts after it has given up the lock,
the broadcast is a step of its own.  How a panic ends depends on the build: a release
build aborts the process, in a debug build the mutex that was held is poisoned and the
others go on.  A debug build also panics where an integer overflows.

`broadcasts` is a record: what was broadcast, in the order in which the PubSub server is
sent it.
-/
import Mahalo.Lib.Lts
import Mahalo.TestApp.Channels

namespace Mahalo.TestApp

open Channels (topicMatches)
open RustStd (Profile asI64 signed unsigned)

/-- What a run is given: the libraries, the build, and the price thread's seed. -/
structure Env where
  serde : SerdeJson
  formatPrice : Nat → String
  profile : Profile
  startupSeed : Nat

structure App where
  data : StoreData
  simulations : List Simulation
  /-- what some thread has yet to broadcast -/
  outgoing : List PubSubMessage
  broadcasts : List PubSubMessage
  /-- the variable of the price thread -/
  tick : Nat
  /-- the price thread runs -/
  pricing : Bool
  /-- some thread has panicked -/
  panicked : Bool

def App.init : App where
  data := .new
  simulations := []
  outgoing := []
  broadcasts := []
  tick := 0
  pricing := true
  panicked := false

/-! ### Prices -/

/-- The price that a tick gives to a flavor. -/
def newPrice (env : Env) (tick idx priceCents : Nat) : Option Nat := do
  let n ← unsigned env.profile (tick * 7 + idx * 13 + env.startupSeed)
  let delta : Int := (n % 51 : Nat) - 25
  let price ← signed env.profile (asI64 priceCents + delta)
  return (max price 200).toNat

/-- What a tick does under the lock: the flavor it gives a new price. -/
def fluctuate (env : Env) (tick : Nat) (rows : List Flavor) : Option (List Flavor × Flavor) :=
  -- the index of no flavors is a remainder by zero
  match rows[tick % rows.length]? with
  | none => none
  | some flavor =>
      (newPrice env tick (tick % rows.length) flavor.priceCents).map fun price =>
        (rows.set (tick % rows.length) (flavor.setPrice price), flavor.setPrice price)

def pricesChanged (env : Env) (f : Flavor) : PubSubMessage where
  topic := "prices"
  event := "price_updated"
  payload := priceUpdatePayload env.formatPrice f.id f.name f.priceCents

/-- One round of the price thread's loop, up to its broadcast. -/
def App.priceTick (env : Env) (s : App) : App :=
  match unsigned env.profile (s.tick + 1) with
  | none => { s with pricing := false, panicked := true }
  | some tick =>
      match s.data.flavors.locked (fluctuate env tick) with
      | (flavors, some flavor) =>
          { s with data := { s.data with flavors }, tick, outgoing := s.outgoing ++ [pricesChanged env flavor] }
      | (flavors, none) => { s with data := { s.data with flavors }, tick, pricing := false, panicked := true }

/-! ### The tasks of the order channel -/

/-- The next step of a task: to broadcast a status, or to set the next one. -/
def App.simulate (s : App) (i : Nat) : Option App :=
  match s.simulations[i]? with
  | none => none
  | some sim =>
      match sim.announcing, sim.todo with
      | some status, _ =>
          some { s with
            simulations := s.simulations.set i { sim with announcing := none }
            broadcasts := s.broadcasts ++ [statusChanged sim.topic sim.orderId status] }
      | none, status :: todo =>
          match s.data.orders.lockedOk fun rows =>
              (Table.update orders.id sim.orderId (Order.setStatus status) rows, ()) with
          | (orders, some ()) =>
              some { s with
                data := { s.data with orders }
                simulations := s.simulations.set i { sim with todo, announcing := some status } }
          | (orders, none) =>
              some { s with
                data := { s.data with orders }
                simulations := s.simulations.set i { sim with todo := [] }
                panicked := true }
      | none, [] => none

/-! ### The system -/

inductive Label (A : Type) where
  /-- a worker runs an action of a controller, with what the clock gives it and its telemetry -/
  | flavors (action : Action) (clock : Option Nat) (conn : Conn A)
  | orders (action : Action) (secs clock : Option Nat) (conn : Conn A)
  /-- a connection's process runs a callback -/
  | joinOrder (topic : String) (payload : Value)
  | orderIn (topic event : String) (payload : Value)
  | joinStore (payload : Value)
  | storeIn (event : String) (payload : Value)
  | simulate (i : Nat)
  | tick
  /-- a thread broadcasts what it has yet to -/
  | broadcast (i : Nat)

/-- What a step under the lock of the flavors leaves, and what it broadcasts. -/
def App.withFlavors (s : App) : Mutex (List Flavor) × Option (List PubSubMessage) → App
  | (flavors, some broadcasts) =>
      { s with data := { s.data with flavors }, broadcasts := s.broadcasts ++ broadcasts }
  | (flavors, none) => { s with data := { s.data with flavors }, panicked := true }

def App.withOrders (s : App) : Mutex (List Order) × Option (List PubSubMessage) → App
  | (orders, some broadcasts) =>
      { s with data := { s.data with orders }, broadcasts := s.broadcasts ++ broadcasts }
  | (orders, none) => { s with data := { s.data with orders }, panicked := true }

variable {A : Type}

def App.run (env : Env) (s : App) : Label A → Option App
  | .flavors action clock conn =>
      some (s.withFlavors ((FlavorController.call env.serde env.profile clock conn s.data.flavors action).map id
        (Option.map fun _ => [])))
  | .orders action secs clock conn =>
      match OrderController.call env.serde env.profile secs clock conn s.data.orders action with
      | (orders, some (_, broadcast)) =>
          some { s with data := { s.data with orders }, outgoing := s.outgoing ++ broadcast.toList }
      | (orders, none) => some { s with data := { s.data with orders }, panicked := true }
  | .joinOrder topic payload =>
      if topicMatches "order:*" topic then
        match OrderChannel.join topic payload s.data.orders with
        | (orders, some (_, sim)) =>
            some { s with data := { s.data with orders }, simulations := s.simulations ++ sim.toList }
        | (orders, none) => some { s with data := { s.data with orders }, panicked := true }
      else none
  | .orderIn topic event payload =>
      if topicMatches "order:*" topic then
        some (s.withOrders
          ((OrderChannel.handleIn event payload topic s.data.orders).map id (Option.map (·.broadcasts))))
      else none
  | .joinStore payload =>
      some { s with broadcasts := s.broadcasts ++ (StoreChannel.join "store:lobby" payload).broadcasts }
  | .storeIn event payload =>
      some (s.withFlavors ((StoreChannel.handleIn env.formatPrice event payload "store:lobby" s.data.flavors).map id
        (Option.map (·.broadcasts))))
  | .simulate i => s.simulate i
  | .tick => if s.pricing then some (s.priceTick env) else none
  | .broadcast i =>
      match s.outgoing[i]? with
      | some msg => some { s with outgoing := s.outgoing.eraseIdx i, broadcasts := s.broadcasts ++ [msg] }
      | none => none

/-- A release build is gone after a panic. -/
def App.step (env : Env) (s : App) (l : Label A) : Option App :=
  if s.panicked && env.profile = .release then none else s.run env l

def system (A : Type) (env : Env) : Lts.System App (Label A) where
  init := App.init
  step := App.step env

end Mahalo.TestApp
