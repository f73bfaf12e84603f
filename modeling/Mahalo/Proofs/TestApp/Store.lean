/-
What the store holds, and what its controllers answer.

A request to a controller is one request to its table, so over any sequence of requests
the controller answers as a map from ids to rows does, while there are ids left and the
clock is not before the epoch.  The tables stay as they should be in every run of the whole
program: whatever the workers, the channels' tasks and the price thread do, and in whatever
order.
-/
import Mahalo.Proofs.Telemetry
import Mahalo.TestApp.App

namespace Mahalo.TestApp

open RustStd (Profile unsigned unsigned_of_lt)
open Table (Request Answer MapStep)

variable {A R : Type}

/-! ### A controller is its table -/

/-- What an action asks of a table; nothing, if the body it needs is no JSON. -/
def request (serde : SerdeJson) (make : Value → Nat → R) (set : Value → R → R) (conn : Conn A) :
    Action → Option (Request R)
  | .index => some .index
  | .show => some (.read (parseIdParam conn))
  | .create => (serde.fromSlice conn.body).map fun body => .create (make body)
  | .update => (serde.fromSlice conn.body).map fun body => .update (parseIdParam conn) (set body)
  | .delete => some (.delete (parseIdParam conn))

/-- What is sent for the answer of a table. -/
def Resource.render (res : Resource R) (serde : SerdeJson) (conn : Conn A) (action : Action) : Answer R → Conn A
  | .rows rows => respond conn statusOk (serde.toText (.array (rows.map res.toValue)))
  | .row row =>
      respond conn (if action = .create then statusCreated else statusOk) (serde.toText (res.toValue row))
  | .deleted => respond conn statusOk "\x7b\"deleted\":true\x7d"
  | .notFound => res.missing conn

/-- A call of an action, with what the clock gives it under the lock, and its telemetry. -/
structure Arrival (A : Type) where
  secs : Option Nat
  clock : Option Nat
  action : Action
  conn : Conn A

/-- The clock is not before the epoch. -/
structure Arrival.InTime (call : Arrival A) : Prop where
  secs : call.secs.isSome = true
  clock : call.clock.isSome = true

/-- A map that is asked through one request after the other, and what is sent for its answers. -/
inductive Served (res : Resource R) (serde : SerdeJson) (ask : Arrival A → Option (Request R)) :
    (Nat → Option R) → List (Arrival A) → List (Conn A) → (Nat → Option R) → Prop
  | nil (m : Nat → Option R) : Served res serde ask m [] [] m
  | invalid {m m' : Nat → Option R} {call : Arrival A} {calls : List (Arrival A)} {responses : List (Conn A)} :
      ask call = none → Served res serde ask m calls responses m' →
      Served res serde ask m (call :: calls) (invalidJson call.conn :: responses) m'
  | asked {m m' m'' : Nat → Option R} {call : Arrival A} {q : Request R} {a : Answer R} {calls : List (Arrival A)}
      {responses : List (Conn A)} : ask call = some q → MapStep res.id m q a m' →
      Served res serde ask m' calls responses m'' →
      Served res serde ask m (call :: calls) (res.render serde call.conn call.action a :: responses) m''

/-- Calls one after the other, by whichever worker. -/
def callAll {T Q X : Type} (run : Q → T → T × Option X) : T → List Q → T × List (Option X)
  | state, [] => (state, [])
  | state, q :: rest => ((callAll run (run q state).1 rest).1, (run q state).2 :: (callAll run (run q state).1 rest).2)

/-- A controller that does to a table what a request asks, and sends the answer, while there is an id left. -/
def Asks (res : Resource R) (serde : SerdeJson) (ask : Arrival A → Option (Request R))
    (run : Arrival A → Mutex (List R) → Mutex (List R) × Option (Conn A)) : Prop :=
  ∀ call (m : Mutex (List R)), call.InTime → m.poisoned = false → Table.nextId res.id m.value < 2 ^ 64 → run call m =
    match ask call with
    | some q =>
        ({ m with value := (Table.serve res.id m.value q).1 },
          some (res.render serde call.conn call.action (Table.serve res.id m.value q).2))
    | none => (m, some (invalidJson call.conn))

theorem served_of_asks {res : Resource R} {serde : SerdeJson} {ask : Arrival A → Option (Request R)}
    {run : Arrival A → Mutex (List R) → Mutex (List R) × Option (Conn A)}
    (hrun : Asks res serde ask run) (hkeeps : ∀ call q, ask call = some q → q.Keeps res.id)
    (calls : List (Arrival A)) : (∀ call ∈ calls, call.InTime) → ∀ m : Mutex (List R), m.poisoned = false →
    Table.Valid res.id m.value → Table.nextId res.id m.value + calls.length ≤ 2 ^ 64 →
    ∃ responses, (callAll run m calls).2 = responses.map some ∧ (callAll run m calls).1.poisoned = false ∧
      Table.Valid res.id (callAll run m calls).1.value ∧
      Served res serde ask (Table.lookup res.id m.value) calls responses
        (Table.lookup res.id (callAll run m calls).1.value) := by
  induction calls with
  | nil =>
      intro _ m hm hv _
      exact ⟨[], rfl, hm, hv, .nil _⟩
  | cons call rest ih =>
      intro htime m hm hv hroom
      obtain ⟨hnow, hlater⟩ := List.forall_mem_cons.mp htime
      rw [List.length_cons] at hroom
      have hcall := hrun call m hnow hm (by omega)
      unfold callAll
      cases hask : ask call with
      | none =>
          rw [hask] at hcall
          obtain ⟨responses, hresponses, hm', hv', hserved⟩ := ih hlater m hm hv (by omega)
          rw [hcall]
          refine ⟨invalidJson call.conn :: responses, ?_, hm', hv', .invalid hask hserved⟩
          rw [List.map_cons, hresponses]
      | some q =>
          rw [hask] at hcall
          obtain ⟨hstep, hvalid⟩ := Table.serve_refines hv (hkeeps call q hask)
          have hnext : Table.nextId res.id (Table.serve res.id m.value q).1 ≤ _ :=
            Table.nextId_serve m.value (hkeeps call q hask)
          obtain ⟨responses, hresponses, hm', hv', hserved⟩ :=
            ih hlater { m with value := (Table.serve res.id m.value q).1 } hm hvalid (by dsimp only; omega)
          rw [hcall]
          refine ⟨_ :: responses, ?_, hm', hv', .asked hask hstep hserved⟩
          rw [List.map_cons, hresponses]

theorem request_keeps {serde : SerdeJson} {id : R → Nat} {make : Value → Nat → R} {set : Value → R → R}
    (hmake : ∀ body k, id (make body k) = k) (hset : ∀ body r, id (set body r) = id r) {action : Action}
    {conn : Conn A} {q : Request R} (h : request serde make set conn action = some q) : q.Keeps id := by
  unfold request at h
  cases action with
  | index | «show» | delete =>
      obtain rfl := Option.some.inj h
      trivial
  | create =>
      obtain ⟨body, -, rfl⟩ := Option.map_eq_some_iff.mp h
      exact hmake body
  | update =>
      obtain ⟨body, -, rfl⟩ := Option.map_eq_some_iff.mp h
      exact hset body

/-! ### What a controller's section does -/

section

variable (res : Resource R) (serde : SerdeJson) (conn : Conn A) (rows : List R)

theorem index_eq : res.index serde conn rows
    = ((Table.serve res.id rows .index).1, res.render serde conn .index (Table.serve res.id rows .index).2) := rfl

theorem show_eq : res.show serde conn rows
    = ((Table.serve res.id rows (.read (parseIdParam conn))).1,
      res.render serde conn .show (Table.serve res.id rows (.read (parseIdParam conn))).2) := by
  unfold Resource.show Table.serve
  dsimp only
  cases Table.lookup res.id rows (parseIdParam conn) <;> rfl

/-- A row is made with the next id if there is one. -/
theorem create_eq {profile : Profile} {make : Nat → Option R} {row : R}
    (hid : Table.nextId res.id rows < 2 ^ 64) (hmake : make (Table.nextId res.id rows) = some row) :
    res.create serde conn profile make rows
      = some (rows ++ [row], row, respond conn statusCreated (serde.toText (res.toValue row))) := by
  unfold Resource.create
  rw [unsigned_of_lt hid, Option.bind_eq_bind, Option.bind_some, hmake]
  rfl

/-- No row is made if the id overflows in a debug build, or nothing can be made with it. -/
theorem create_eq_none {profile : Profile} {make : Nat → Option R} : res.create serde conn profile make rows = none ↔
    (profile = .dev ∧ 2 ^ 64 ≤ Table.nextId res.id rows) ∨
      ∃ k, unsigned profile (Table.nextId res.id rows) = some k ∧ make k = none := by
  unfold Resource.create
  cases hk : unsigned profile (Table.nextId res.id rows) with
  | none => exact iff_of_true rfl (Or.inl (RustStd.unsigned_eq_none.mp hk))
  | some k =>
      rw [Option.bind_eq_bind, Option.bind_some]
      cases hmake : make k with
      | none => exact iff_of_true rfl (Or.inr ⟨k, rfl, hmake⟩)
      | some row =>
          refine iff_of_false (Option.some_ne_none _) ?_
          rintro (hover | ⟨k', hk', hnone⟩)
          · cases hk.symm.trans (RustStd.unsigned_eq_none.mpr hover)
          · cases hk'
            cases hmake.symm.trans hnone

theorem update_eq (change : R → R) : res.update serde conn change rows
    = ((Table.serve res.id rows (.update (parseIdParam conn) change)).1,
      res.render serde conn .update (Table.serve res.id rows (.update (parseIdParam conn) change)).2) := by
  unfold Resource.update Table.serve
  dsimp only
  cases Table.lookup res.id rows (parseIdParam conn) <;> rfl

theorem delete_eq : res.delete conn rows
    = ((Table.serve res.id rows (.delete (parseIdParam conn))).1,
      res.render serde conn .delete (Table.serve res.id rows (.delete (parseIdParam conn))).2) := by
  unfold Resource.delete Table.serve
  dsimp only
  split_ifs <;> rfl

end

theorem locked_ok {T X : Type} {m : Mutex T} (h : m.poisoned = false) {f : T → Option (T × X)} {value : T} {x : X}
    (hf : f m.value = some (value, x)) : m.locked f = ({ m with value }, some x) := by
  unfold Mutex.locked
  rw [h, hf]
  rfl

theorem lockedOk_ok {T X : Type} {m : Mutex T} (h : m.poisoned = false) (f : T → T × X) :
    m.lockedOk f = ({ m with value := (f m.value).1 }, some (f m.value).2) := by
  rw [Mutex.lockedOk_eq, h]
  rfl

/-- The workers' telemetry panics only before the epoch. -/
theorem emit_eq (clock : Option Nat) (eventName : List String) (metadata : Metadata) :
    emit clock eventName metadata = clock.map fun _ => () := by
  cases clock with
  | none => rfl
  | some ms =>
      obtain ⟨telemetry, hmade, hwriting⟩ :
          ∃ telemetry, makeTelemetry = .ok telemetry ∧ telemetry.handlers.writing = false := ⟨_, rfl, rfl⟩
      obtain ⟨telemetry', hexecute⟩ : ∃ telemetry',
          telemetry.execute eventName () metadata (some ms) (fun _ telemetry => .ok telemetry) = .ok telemetry' :=
        Telemetry.execute_of_each (P := fun _ _ => True) (fun _ t t' _ h => by cases h; exact .refl t)
          (fun _ t _ _ => ⟨t, rfl⟩) hwriting rfl fun _ _ => trivial
      have hran : (makeTelemetry >>= fun telemetry =>
          telemetry.execute eventName () metadata (some ms) fun _ telemetry => .ok telemetry) = .ok telemetry' := by
        rw [hmade]
        exact hexecute
      unfold emit
      rw [hran]
      rfl

theorem emit_ok {clock : Option Nat} (h : clock.isSome = true) (eventName : List String) (metadata : Metadata) :
    emit clock eventName metadata = some () := by
  obtain ⟨ms, rfl⟩ := Option.isSome_iff_exists.mp h
  exact emit_eq ..

/-- What a call asks of the flavors, and of the orders. -/
def askFlavors (serde : SerdeJson) (call : Arrival A) : Option (Request Flavor) :=
  request serde newFlavor Flavor.set call.conn call.action

def askOrders (serde : SerdeJson) (call : Arrival A) : Option (Request Order) :=
  request serde (fun body => newOrder body ((chronoNow call.secs).getD "")) Order.set call.conn call.action

/-- A call of the controllers. -/
def callFlavors (serde : SerdeJson) (profile : Profile) (call : Arrival A) (m : Mutex (List Flavor)) :
    Mutex (List Flavor) × Option (Conn A) := FlavorController.call serde profile call.clock call.conn m call.action

def callOrders (serde : SerdeJson) (profile : Profile) (call : Arrival A) (m : Mutex (List Order)) :
    Mutex (List Order) × Option (Conn A) :=
  (OrderController.call serde profile call.secs call.clock call.conn m call.action).map id (Option.map (·.1))

theorem askFlavors_keeps (serde : SerdeJson) (call : Arrival A) (q : Request Flavor)
    (h : askFlavors serde call = some q) : q.Keeps flavors.id := by
  refine request_keeps ?_ ?_ h
  · intro body k
    rfl
  · intro body r
    rfl

theorem askOrders_keeps (serde : SerdeJson) (call : Arrival A) (q : Request Order)
    (h : askOrders serde call = some q) : q.Keeps orders.id := by
  refine request_keeps ?_ ?_ h
  · intro body k
    rfl
  · intro body r
    rfl

theorem flavors_asks (serde : SerdeJson) (profile : Profile) :
    Asks (A := A) flavors serde (askFlavors serde) (callFlavors serde profile) := by
  intro call m htime hm hroom
  unfold callFlavors FlavorController.call askFlavors request
  cases call.action with
  | index => exact (lockedOk_ok hm _).trans (by rw [index_eq])
  | «show» => exact (lockedOk_ok hm _).trans (by rw [show_eq])
  | create =>
      cases serde.fromSlice call.conn.body with
      | none => rfl
      | some body =>
          dsimp only
          rw [locked_ok hm (create_eq flavors serde call.conn m.value hroom rfl), emit_ok htime.clock]
          rfl
  | update =>
      cases serde.fromSlice call.conn.body with
      | none => rfl
      | some body => exact (lockedOk_ok hm _).trans (by rw [update_eq]; rfl)
  | delete => exact (lockedOk_ok hm _).trans (by rw [delete_eq])

theorem orders_asks (serde : SerdeJson) (profile : Profile) :
    Asks (A := A) orders serde (askOrders serde) (callOrders serde profile) := by
  intro call m htime hm hroom
  unfold callOrders OrderController.call askOrders request
  cases call.action with
  | index =>
      dsimp only
      rw [lockedOk_ok hm, index_eq]
      rfl
  | «show» =>
      dsimp only
      rw [lockedOk_ok hm, show_eq]
      rfl
  | create =>
      dsimp only
      cases serde.fromSlice call.conn.body with
      | none => rfl
      | some body =>
          obtain ⟨secs, hsecs⟩ := Option.isSome_iff_exists.mp htime.secs
          dsimp only
          rw [hsecs, locked_ok hm (create_eq orders serde call.conn m.value hroom rfl)]
          dsimp only
          rw [emit_ok htime.clock]
          rfl
  | update =>
      dsimp only
      cases serde.fromSlice call.conn.body with
      | none => rfl
      | some body =>
          dsimp only [Option.map_some]
          rw [lockedOk_ok hm, update_eq]
          rfl
  | delete =>
      dsimp only
      rw [lockedOk_ok hm, delete_eq]
      rfl

/-- A table that is open to so many calls: no one has panicked with it, its ids rise, and there are as many left. -/
structure Open (res : Resource R) (m : Mutex (List R)) (calls : Nat) : Prop where
  free : m.poisoned = false
  valid : Table.Valid res.id m.value
  room : Table.nextId res.id m.value + calls ≤ 2 ^ 64

/--
**The controllers answer as maps do.**  Over every sequence of calls, by whichever
workers, in either build, while the clock is not before the epoch, and from any tables with
rising ids, with room for as many more, and mutexes that are not poisoned: no call panics,
and the responses are those of a map from ids to rows that is read, written and listed,
where a new row gets an id above all that are in the map.
-/
theorem controllers_refine (serde : SerdeJson) (profile : Profile) (data : StoreData) (calls : List (Arrival A))
    (htime : ∀ call ∈ calls, call.InTime) (hflavors : Open flavors data.flavors calls.length)
    (horders : Open orders data.orders calls.length) :
    (∃ responses, (callAll (callFlavors serde profile) data.flavors calls).2 = responses.map some ∧
      Served flavors serde (askFlavors serde) (Table.lookup flavors.id data.flavors.value) calls responses
        (Table.lookup flavors.id (callAll (callFlavors serde profile) data.flavors calls).1.value)) ∧
    ∃ responses, (callAll (callOrders serde profile) data.orders calls).2 = responses.map some ∧
      Served orders serde (askOrders serde) (Table.lookup orders.id data.orders.value) calls responses
        (Table.lookup orders.id (callAll (callOrders serde profile) data.orders calls).1.value) := by
  obtain ⟨ofFlavors, hofFlavors, -, -, hflavors⟩ :=
    served_of_asks (flavors_asks serde profile) (askFlavors_keeps serde) calls htime data.flavors hflavors.free
      hflavors.valid hflavors.room
  obtain ⟨ofOrders, hofOrders, -, -, horders⟩ :=
    served_of_asks (orders_asks serde profile) (askOrders_keeps serde) calls htime data.orders horders.free
      horders.valid horders.room
  exact ⟨⟨ofFlavors, hofFlavors, hflavors⟩, ofOrders, hofOrders, horders⟩

/-- The store as it is opened. -/
theorem new_valid : Table.Valid flavors.id StoreData.new.flavors.value ∧
    Table.Valid orders.id StoreData.new.orders.value :=
  ⟨⟨by decide, by decide⟩, Table.valid_nil⟩

/-- A request for a row. -/
def forRow (method : Method) (k : Nat) : Conn Unit :=
  { Conn.new method { path := "/api/flavors/" ++ toString k, query := none } with
    pathParams := [("id", toString k)] }

/-- `serde_json`, as far as bodies are empty. -/
def emptySerde : SerdeJson := { fromSlice := fun _ => none, toText := fun _ => "" }

theorem controllers_refine_deleted :
    let calls : List (Arrival Unit) :=
      [⟨some 0, some 0, .delete, forRow .delete 3⟩, ⟨some 0, some 0, .delete, forRow .delete 3⟩,
        ⟨some 0, some 0, .show, forRow .get 3⟩,
        ⟨some 1, some 1000, .create, Conn.new .post { path := "/api/flavors", query := none }⟩]
    (callAll (callFlavors emptySerde .dev) StoreData.new.flavors calls).2.map (Option.map (·.status))
      = [some 200, some 404, some 404, some 400] ∧
    ∃ responses, (callAll (callFlavors emptySerde .dev) StoreData.new.flavors calls).2 = responses.map some ∧
      Served flavors emptySerde (askFlavors emptySerde) (Table.lookup flavors.id StoreData.new.flavors.value) calls
        responses
        (Table.lookup flavors.id (callAll (callFlavors emptySerde .dev) StoreData.new.flavors calls).1.value) := by
  refine ⟨by decide +kernel, (controllers_refine emptySerde .dev .new _ ?_ ?_ ?_).1⟩
  · intro call hcall
    simp only [List.mem_cons, List.not_mem_nil, or_false] at hcall
    rcases hcall with rfl | rfl | rfl | rfl <;> exact ⟨rfl, rfl⟩
  · exact ⟨rfl, new_valid.1, by decide⟩
  · exact ⟨rfl, new_valid.2, by decide⟩

end Mahalo.TestApp
