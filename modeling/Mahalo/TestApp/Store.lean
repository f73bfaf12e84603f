/-
The ice cream store: its data, and the two controllers over them.

Flavors and orders are two tables, each behind a mutex that every worker thread, the
tasks of the channels and the price thread share.  A controller's action parses what the
request carries, holds the lock once, and answers with what it saw under it.  The two
controllers differ in their rows and in the text of an error, a new row is told to the
telemetry when the lock is gone, and a new order is broadcast after that.

`serde_json` is a parameter, and so is the clock, which gives nothing if it is before the
epoch.  The ids are integers of 64 bits.
-/
import Mahalo.Core.Conn
import Mahalo.Lib.Mutex
import Mahalo.Lib.Overflow
import Mahalo.Lib.Table
import Mahalo.PubSub
import Mahalo.Telemetry

namespace Mahalo

/-! ### Looking into a JSON value -/

namespace Value

/-- `value[key]`: `Null` where there is nothing. -/
def get (v : Value) (key : String) : Value :=
  match v with
  | .object fields => ((fields.find? fun field => field.1 == key).map (·.2)).getD .null
  | _ => .null

def asStr : Value → Option String
  | .string s => some s
  | _ => none

def asBool : Value → Option Bool
  | .bool b => some b
  | _ => none

def asArray : Value → Option (List Value)
  | .array items => some items
  | _ => none

/-- `as_u64`: a number that is written as an integer and fits. -/
def asU64 : Value → Option Nat
  | .number text => if text.toList.all (·.isDigit) then RustStd.parseUsize text.toList else none
  | _ => none

def ofNat (n : Nat) : Value := .number (toString n)

end Value

namespace TestApp

open RustStd (asBytes Profile unsigned)

/-- `serde_json::from_slice` and `serde_json::to_string` at `Value`. -/
structure SerdeJson where
  fromSlice : List UInt8 → Option Value
  toText : Value → String

def statusCreated : Nat := 201
def statusBadRequest : Nat := 400
def statusUnauthorized : Nat := 401

/-! ### Data models -/

structure Flavor where
  id : Nat
  name : String
  summary : String
  description : String
  priceCents : Nat
  inStock : Bool
  deriving DecidableEq, Repr

structure OrderItem where
  scoopFlavors : List Nat
  vessel : String
  toppings : List String
  deriving DecidableEq, Repr

structure Order where
  id : Nat
  customerName : String
  items : List OrderItem
  status : String
  createdAt : String
  deriving DecidableEq, Repr

/-- `derive(Serialize)`, for each of the three. -/
def Flavor.toValue (f : Flavor) : Value :=
  .object [("id", .ofNat f.id), ("name", .string f.name), ("summary", .string f.summary),
    ("description", .string f.description), ("price_cents", .ofNat f.priceCents), ("in_stock", .bool f.inStock)]

def OrderItem.toValue (item : OrderItem) : Value :=
  .object [("scoop_flavors", .array (item.scoopFlavors.map .ofNat)), ("vessel", .string item.vessel),
    ("toppings", .array (item.toppings.map .string))]

def Order.toValue (o : Order) : Value :=
  .object [("id", .ofNat o.id), ("customer_name", .string o.customerName),
    ("items", .array (o.items.map (·.toValue))), ("status", .string o.status), ("created_at", .string o.createdAt)]

structure StoreData where
  flavors : Mutex (List Flavor)
  orders : Mutex (List Order)

/-- `StoreData::new` -/
def StoreData.new : StoreData where
  flavors := .new [
    { id := 1
      name := "Coconut Dream"
      summary := "Creamy coconut with toasted flakes"
      description :=
          "We source our coconuts from a small grove in Moloa\u2018a on Kaua\u2018i\u2019s north " ++
          "shore, where the trees catch the trade winds rolling off Kalihiwai Ridge. The meat is " ++
          "hand-pressed the same morning it\u2019s picked, then slow-churned with a pinch of " ++
          "Hawaiian sea salt from Hanapepe. Each scoop is finished with toasted coconut flakes " ++
          "roasted low and slow at our shop in Kapa\u2018a\u2014crunchy, buttery, and impossible " ++
          "to stop eating."
      priceCents := 450
      inStock := true },
    { id := 2
      name := "Pineapple Paradise"
      summary := "Tangy pineapple sorbet"
      description :=
          "This bright, dairy-free sorbet starts with Sugarloaf pineapples grown on the red dirt " ++
          "hillsides above Po\u2018ip\u016b. They\u2019re sweeter and less acidic than anything " ++
          "you\u2019ll find on the mainland, with a floral perfume that hits you the second we " ++
          "crack one open. We juice them whole\u2014core and all\u2014and freeze the base fast " ++
          "to lock in that just-picked tang. It tastes like standing barefoot in a Kaua\u2018i " ++
          "pineapple field with the sun on your shoulders."
      priceCents := 400
      inStock := true },
    { id := 3
      name := "Passion Fruit Swirl"
      summary := "Tart passion fruit with vanilla swirl"
      description :=
          "Liliko\u2018i vines grow wild along the fences and trailheads all over Kaua\u2018i, " ++
          "and our neighbors in Kilauea drop off bags of ripe fruit at our back door every week. " ++
          "We strain the seeds out (mostly) and fold that electric-yellow pulp into a tart, " ++
          "custardy base. The vanilla swirl comes from real Tahitian vanilla beans\u2014the same " ++
          "variety that thrives in Kaua\u2018i\u2019s humid valleys. One bite and you\u2019ll " ++
          "taste the wild, untamed side of the Garden Isle."
      priceCents := 500
      inStock := true },
    { id := 4
      name := "Guava Sunset"
      summary := "Sweet guava with a hint of lime"
      description :=
          "Pink guava trees line the back roads from Wailua to Anahola, dropping fruit so ripe " ++
          "it perfumes the whole neighborhood. We collect ours from a family farm tucked behind " ++
          "Sleeping Giant, where the volcanic soil gives the fruit an almost candy-like " ++
          "sweetness. A squeeze of fresh lime from our own trees in Kapa\u2018a cuts through the " ++
          "richness and keeps every spoonful bright. The color is a deep sunset pink\u2014no dye " ++
          "needed, just pure Kaua\u2018i guava doing its thing."
      priceCents := 475
      inStock := true },
    { id := 5
      name := "Mango Tango"
      summary := "Rich mango with chili flakes"
      description :=
          "Every summer, the Hayden and Rapoza mango trees across Kaua\u2018i go absolutely " ++
          "wild, and we stockpile the best of the harvest from orchards along the Coconut Coast. " ++
          "The base is thick, almost chewy with real mango fiber\u2014none of that thin, syrupy " ++
          "stuff. We finish each batch with a dusting of dried Hawaiian chili flakes from a " ++
          "small farm in Hanapepe Valley. The heat sneaks up on you after the sweetness fades, " ++
          "like the afternoon sun breaking through the clouds over Waimea Canyon."
      priceCents := 450
      inStock := true },
    { id := 6
      name := "Lychee Blossom"
      summary := "Delicate lychee with rose water"
      description :=
          "Kaua\u2018i\u2019s lychee season is short and frantic\u2014the trees around " ++
          "\u2018\u014clelo and Kalaheo burst with fruit for just a few weeks in June, and " ++
          "everyone races to pick before the birds get them all. We peel and pit each one by " ++
          "hand, keeping that translucent, floral sweetness intact. A few drops of rose water " ++
          "made from Damask roses grown at a small botanical garden near Princeville give it an " ++
          "almost perfume-like elegance. This is our most delicate flavor, and regulars plan " ++
          "their visits around lychee season."
      priceCents := 525
      inStock := true },
    { id := 7
      name := "Papaya Cream"
      summary := "Smooth papaya with coconut cream"
      description :=
          "Sunrise papayas from the east side of Kaua\u2018i are the heart of this " ++
          "flavor\u2014smaller and sweeter than the big ones you see at the supermarket, with " ++
          "salmon-orange flesh that melts on your tongue. We blend them with rich coconut cream " ++
          "from the same Moloa\u2018a grove that supplies our Coconut Dream, creating something " ++
          "silky and tropical that tastes like breakfast on a lanai overlooking Kalapak\u012b " ++
          "Bay. When it\u2019s in stock, it goes fast\u2014so grab a scoop while you can."
      priceCents := 450
      inStock := false }]
  orders := .new []

/-! ### Parsing -/

variable {A : Type}

def parseIdParam (conn : Conn A) : Nat :=
  ((conn.pathParam "id").bind fun s => RustStd.parseUsize s.toList).getD 0

/-- The order's id in a topic such as `order:42`. -/
def parseOrderId (topic : String) : Nat :=
  ((RustStd.stripPrefix topic.toList "order:".toList).bind RustStd.parseUsize).getD 0

/-- `chrono_now`, with the seconds since the epoch. -/
def chronoNow (secs : Option Nat) : Option String := secs.map fun secs => toString secs ++ "s"

def maxScoops : Nat := 3

def parseOrderItem (item : Value) : Option OrderItem :=
  let scoopFlavors := (((item.get "scoop_flavors").asArray).map fun a => a.filterMap Value.asU64).getD []
  if scoopFlavors.isEmpty then none
  else some {
    scoopFlavors := scoopFlavors.take maxScoops
    vessel := if (item.get "vessel").asStr = some "cone" then "cone" else "cup"
    toppings := (((item.get "toppings").asArray).map fun a => a.filterMap Value.asStr).getD [] }

/-! ### Telemetry -/

abbrev Metadata := List (String × Value)

/-- `make_telemetry`; the handlers only trace. -/
def makeTelemetry : Except Telemetry.Panic (Telemetry Unit Unit Metadata) := do
  let telemetry ← Telemetry.new.attach ["mahalo"] ()
  telemetry.attach ["ice_cream"] ()

/-- `telemetry.execute` of a worker; nothing comes of a panic. -/
def emit (clock : Option Nat) (eventName : List String) (metadata : Metadata) : Option Unit :=
  (makeTelemetry >>= fun telemetry =>
    telemetry.execute eventName () metadata clock fun _ telemetry => .ok telemetry).toOption.map fun _ => ()

/-! ### What the controllers share -/

/-- The rows of a table, and how they are sent and missed. -/
structure Resource (R : Type) where
  id : R → Nat
  toValue : R → Value
  notFound : String

inductive Action where
  | index
  | «show»
  | create
  | update
  | delete
  deriving DecidableEq, Repr

variable {R : Type}

def respond (conn : Conn A) (status : Nat) (body : String) : Conn A :=
  (conn.putStatus status).putRespBody (asBytes body)

def invalidJson (conn : Conn A) : Conn A :=
  respond conn statusBadRequest "\x7b\"error\":\"invalid JSON\"\x7d"

namespace Resource

variable (res : Resource R) (serde : SerdeJson) (conn : Conn A)

def missing : Conn A := respond conn statusNotFound ("\x7b\"error\":\"" ++ res.notFound ++ "\"\x7d")

def index (rows : List R) : List R × Conn A :=
  (rows, respond conn statusOk (serde.toText (.array (rows.map res.toValue))))

def «show» (rows : List R) : List R × Conn A :=
  (rows,
    match Table.lookup res.id rows (parseIdParam conn) with
    | some row => respond conn statusOk (serde.toText (res.toValue row))
    | none => res.missing conn)

/-- A row that is made under the lock, from the next id.  Nothing comes of a panic there. -/
def create (profile : Profile) (make : Nat → Option R) (rows : List R) : Option (List R × R × Conn A) := do
  let nextId ← unsigned profile (Table.nextId res.id rows)
  let row ← make nextId
  return (rows ++ [row], row, respond conn statusCreated (serde.toText (res.toValue row)))

def update (change : R → R) (rows : List R) : List R × Conn A :=
  match Table.lookup res.id rows (parseIdParam conn) with
  | some row =>
      (Table.update res.id (parseIdParam conn) change rows,
        respond conn statusOk (serde.toText (res.toValue (change row))))
  | none => (rows, res.missing conn)

def delete (rows : List R) : List R × Conn A :=
  let rest := Table.delete res.id rows (parseIdParam conn)
  (rest, if rest.length < rows.length then respond conn statusOk "\x7b\"deleted\":true\x7d" else res.missing conn)

end Resource

/-! ### Flavors -/

def flavors : Resource Flavor := { id := (·.id), toValue := Flavor.toValue, notFound := "flavor not found" }

/-- The flavor that `create` makes of a body. -/
def newFlavor (body : Value) (nextId : Nat) : Flavor where
  id := nextId
  name := ((body.get "name").asStr).getD "Unknown"
  summary := ((body.get "summary").asStr).getD ""
  description := ((body.get "description").asStr).getD ""
  priceCents := ((body.get "price_cents").asU64).getD 0
  inStock := ((body.get "in_stock").asBool).getD true

/-- What `update` sets, where the body has it. -/
def Flavor.set (body : Value) (f : Flavor) : Flavor :=
  { f with
    name := ((body.get "name").asStr).getD f.name
    summary := ((body.get "summary").asStr).getD f.summary
    description := ((body.get "description").asStr).getD f.description
    priceCents := ((body.get "price_cents").asU64).getD f.priceCents
    inStock := ((body.get "in_stock").asBool).getD f.inStock }

/-- `FlavorController`; nothing is answered by an action that panics. -/
def FlavorController.call (serde : SerdeJson) (profile : Profile) (clock : Option Nat) (conn : Conn A)
    (m : Mutex (List Flavor)) : Action → Mutex (List Flavor) × Option (Conn A)
  | .index => m.lockedOk (flavors.index serde conn)
  | .show => m.lockedOk (flavors.show serde conn)
  | .create =>
      match serde.fromSlice conn.body with
      | some body =>
          match m.locked (flavors.create serde conn profile fun nextId => some (newFlavor body nextId)) with
          | (m, some (_, conn)) => (m, (emit clock ["ice_cream", "flavor", "created"] []).map fun _ => conn)
          | (m, none) => (m, none)
      | none => (m, some (invalidJson conn))
  | .update =>
      match serde.fromSlice conn.body with
      | some body => m.lockedOk (flavors.update serde conn (Flavor.set body))
      | none => (m, some (invalidJson conn))
  | .delete => m.lockedOk (flavors.delete conn)

/-! ### Orders -/

def orders : Resource Order := { id := (·.id), toValue := Order.toValue, notFound := "order not found" }

def newOrder (body : Value) (createdAt : String) (nextId : Nat) : Order where
  id := nextId
  customerName := ((body.get "customer_name").asStr).getD "Guest"
  items := (((body.get "items").asArray).map fun a => a.filterMap parseOrderItem).getD []
  status := "pending"
  createdAt := createdAt

def Order.set (body : Value) (o : Order) : Order := { o with status := ((body.get "status").asStr).getD o.status }

/-- What is broadcast for a new order. -/
def orderCreated (id : Nat) : PubSubMessage where
  topic := "order:" ++ toString id
  event := "order_created"
  payload := .object [("order_id", .ofNat id)]

/-- `OrderController`, with what it has yet to broadcast.  The clock is read under the lock, and then by the
telemetry. -/
def OrderController.call (serde : SerdeJson) (profile : Profile) (secs clock : Option Nat) (conn : Conn A)
    (m : Mutex (List Order)) : Action → Mutex (List Order) × Option (Conn A × Option PubSubMessage)
  | .index => (m.lockedOk (orders.index serde conn)).map id (Option.map (·, none))
  | .show => (m.lockedOk (orders.show serde conn)).map id (Option.map (·, none))
  | .create =>
      match serde.fromSlice conn.body with
      | some body =>
          match m.locked (orders.create serde conn profile fun nextId =>
              (chronoNow secs).map fun now => newOrder body now nextId) with
          | (m, some (order, conn)) =>
              (m, (emit clock ["ice_cream", "order", "placed"] [("order_id", .ofNat order.id)]).map fun _ =>
                (conn, some (orderCreated order.id)))
          | (m, none) => (m, none)
      | none => (m, some (invalidJson conn, none))
  | .update =>
      match serde.fromSlice conn.body with
      | some body => (m.lockedOk (orders.update serde conn (Order.set body))).map id (Option.map (·, none))
      | none => (m, some (invalidJson conn, none))
  | .delete => (m.lockedOk (orders.delete conn)).map id (Option.map (·, none))

end TestApp

end Mahalo
