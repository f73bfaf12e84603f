/-
The channels of the store: orders and the lobby.

A callback that touches the store holds a lock while it does, and what it broadcasts
under the lock is broadcast in the same step.  Joining the topic of a pending order
spawns a task that takes the order through its statuses; each time it sets a status
under the lock, and broadcasts it after the lock is gone.

A price is written with floating point, which is a parameter.
-/
import Mahalo.Channel.Channel
import Mahalo.TestApp.Store

namespace Mahalo.TestApp

open Channels (Reply topicMatches)

/-- What a callback returns, with what it broadcasts and pushes to its client. -/
structure Handled (X : Type) where
  result : X
  broadcasts : List PubSubMessage := []
  pushes : List (String × Value) := []

/-! ### The order channel -/

/-- The task of `OrderChannel::join`: the statuses to come, and one that is set and not yet broadcast. -/
structure Simulation where
  orderId : Nat
  topic : String
  todo : List String
  announcing : Option String
  deriving DecidableEq, Repr

def statuses : List String := ["preparing", "ready", "delivered"]

def Simulation.start (orderId : Nat) (topic : String) : Simulation :=
  { orderId, topic, todo := statuses, announcing := none }

def statusChanged (topic : String) (orderId : Nat) (status : String) : PubSubMessage where
  topic := topic
  event := "status_changed"
  payload := .object [("order_id", .ofNat orderId), ("status", .string status)]

def Order.setStatus (status : String) (o : Order) : Order := { o with status }

def Order.addItem (item : OrderItem) (o : Order) : Order := { o with items := o.items ++ [item] }

namespace OrderChannel

/-- `OrderChannel::join`, with the task it spawns. -/
def join (topic : String) (payload : Value) (m : Mutex (List Order)) :
    Mutex (List Order) × Option (Handled Value × Option Simulation) :=
  let customer := ((payload.get "customer_name").asStr).getD "Guest"
  let orderId := parseOrderId topic
  m.lockedOk fun rows =>
    let status := ((Table.lookup orders.id rows orderId).map (·.status)).getD "not_found"
    (rows, { result := .object [("status", .string status), ("customer", .string customer)] },
      if status = "pending" then some (.start orderId topic) else none)

/-- `OrderChannel::handle_in` -/
def handleIn (event : String) (payload : Value) (topic : String) (m : Mutex (List Order)) :
    Mutex (List Order) × Option (Handled (Option Reply)) :=
  let orderId := parseOrderId topic
  if event = "update_status" then
    let newStatus := ((payload.get "status").asStr).getD "unknown"
    m.lockedOk fun rows =>
      (Table.update orders.id orderId (Order.setStatus newStatus) rows,
        { result := some (.ok (.object [("updated", .bool true)]))
          broadcasts := [statusChanged topic orderId newStatus] })
  else if event = "add_item" then
    match parseOrderItem payload with
    | none =>
        (m, some { result := some (.error (.object [("error", .string "at least 1 scoop flavor required")])) })
    | some item =>
        m.lockedOk fun rows =>
          match Table.lookup orders.id rows orderId with
          | some _ =>
              (Table.update orders.id orderId (Order.addItem item) rows,
                { result := some (.ok (.object [("added", .bool true)]))
                  broadcasts := [{
                    topic
                    event := "item_added"
                    payload := .object [("order_id", .ofNat orderId), ("item", item.toValue)] }] })
          | none => (rows, { result := some (.error (.object [("error", .string "order not found")])) })
  else (m, some { result := none })

end OrderChannel

/-! ### The lobby -/

section

variable (formatPrice : Nat → String)

def priceUpdatePayload (flavorId : Nat) (flavorName : String) (priceCents : Nat) : Value :=
  .object [("flavor_id", .ofNat flavorId), ("price", .string (formatPrice priceCents)),
    ("flavor_name", .string flavorName)]

def Flavor.setPrice (priceCents : Nat) (f : Flavor) : Flavor := { f with priceCents }

namespace StoreChannel

/-- `StoreChannel::join` -/
def join (topic : String) (payload : Value) : Handled Value :=
  let customer := ((payload.get "customer_name").asStr).getD "Guest"
  { result := .object [("message", .string ("Welcome to the Mahalo Ice Cream Store, " ++ customer ++ "!"))]
    broadcasts := [{
      topic, event := "customer_arrived", payload := .object [("customer", .string customer)] }] }

/-- What `request_menu` pushes. -/
def menu (rows : List Flavor) : Value :=
  .object [("flavors", .array ((rows.filter (·.inStock)).map fun f =>
    .object [("name", .string f.name), ("price", .string (formatPrice f.priceCents))]))]

/-- `StoreChannel::handle_in` -/
def handleIn (event : String) (payload : Value) (topic : String) (m : Mutex (List Flavor)) :
    Mutex (List Flavor) × Option (Handled (Option Reply)) :=
  if event = "announcement" then
    let message := ((payload.get "message").asStr).getD "No message"
    (m, some {
      result := some (.ok (.object [("announced", .bool true)]))
      broadcasts := [{ topic, event := "store_announcement", payload := .object [("message", .string message)] }] })
  else if event = "request_menu" then
    m.lockedOk fun rows =>
      (rows, {
        result := some (.ok (.object [("sent", .bool true)]))
        pushes := [("menu", menu formatPrice rows)] })
  else if event = "update_price" then
    let flavorId := ((payload.get "flavor_id").asU64).getD 0
    let newPriceCents := ((payload.get "price_cents").asU64).getD 0
    m.lockedOk fun rows =>
      match Table.lookup flavors.id rows flavorId with
      | some flavor =>
          (Table.update flavors.id flavorId (Flavor.setPrice newPriceCents) rows, {
            result := some (.ok (.object [("updated", .bool true)]))
            broadcasts := [{
              topic
              event := "price_updated"
              payload := priceUpdatePayload formatPrice flavorId flavor.name newPriceCents }] })
      | none => (rows, { result := some (.error (.object [("error", .string "flavor not found")])) })
  else (m, some { result := none })

end StoreChannel

end

end Mahalo.TestApp
