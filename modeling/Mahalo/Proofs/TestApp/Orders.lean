/-
Where an order's status ends up.

Joining the topic of a pending order spawns a task that takes the order through its
statuses.  Two clients that join before the first status is set spawn two tasks, which
then run beside each other: the status goes forth and back, and subscribers are told of
each status twice.  What still holds, as long as nobody else sets the status or deletes
the order, is that the tasks end, that the order is delivered when they have, and that
this is the last that subscribers were told.

A task, the messages about its order and the order itself are looked at together; all
else in the program leaves the three alone.
-/
import Mathlib.Algebra.GroupWithZero.Nat
import Mahalo.Proofs.TestApp.Runs

namespace Mahalo.TestApp

open RustStd (Profile)

variable {A : Type} {env : Env} {s s' : App} {l : Label A} {k : Nat}

/-- Someone other than a task sets the status of an order, or deletes it. -/
def Meddles (k : Nat) : Label A → Prop
  | .orders .update _ _ conn => parseIdParam conn = k
  | .orders .delete _ _ conn => parseIdParam conn = k
  | .orderIn topic event _ => event = "update_status" ∧ parseOrderId topic = k
  | _ => False

/-- What the subscribers of a topic were told of a status. -/
def isStatus (topic : String) (m : PubSubMessage) : Bool := m.topic == topic && m.event == "status_changed"

def App.told (s : App) (topic : String) : List PubSubMessage := s.broadcasts.filter (isStatus topic)

/-! ### What happens to one order -/

/-- An order's status is left alone, or the order is made. -/
def Still (k : Nat) (rows rows' : List Order) : Prop :=
  statusOf rows' k = statusOf rows k ∨ statusOf rows k = none ∧ statusOf rows' k = some "pending"

theorem Still.same (rows : List Order) : Still k rows rows := Or.inl rfl

theorem statusOf_update {f : Order → Order} (hf : ∀ o, orders.id (f o) = orders.id o) (rows : List Order) (j : Nat) :
    statusOf (Table.update orders.id j f rows) k
      = if k = j then (Table.lookup orders.id rows j).map fun o => (f o).status else statusOf rows k := by
  unfold statusOf
  rw [Table.lookup_update hf]
  split_ifs with hk
  · rw [Option.map_map]
    rfl
  · rfl

theorem still_update {f : Order → Order} (hf : ∀ o, orders.id (f o) = orders.id o) (rows : List Order) {j : Nat}
    (h : k = j → ∀ o, (f o).status = o.status) : Still k rows (Table.update orders.id j f rows) := by
  left
  rw [statusOf_update hf]
  split_ifs with hk
  · subst hk
    unfold statusOf
    cases Table.lookup orders.id rows k with
    | none => rfl
    | some o => exact congrArg some (h rfl o)
  · rfl

theorem still_delete (rows : List Order) {j : Nat} (h : k ≠ j) : Still k rows (Table.delete orders.id rows j) := by
  left
  unfold statusOf
  rw [Table.lookup_delete, if_neg h]

/-- An order that is added is pending, or behind one with its id. -/
theorem still_create (rows : List Order) {o : Order} (hpending : o.status = "pending") : Still k rows (rows ++ [o]) := by
  have hlookup : Table.lookup orders.id (rows ++ [o]) k = _ := Table.lookup_append rows o k
  unfold Still statusOf
  rw [hlookup]
  cases Table.lookup orders.id rows k with
  | some o' => exact Or.inl rfl
  | none =>
      rw [Option.none_or]
      split_ifs
      · exact Or.inr ⟨rfl, congrArg some hpending⟩
      · exact Or.inl rfl

theorem callOrder_still (serde : SerdeJson) (profile : Profile) (secs clock : Option Nat) (conn : Conn A)
    (m : Mutex (List Order)) {action : Action} (h : ¬ Meddles k (.orders action secs clock conn)) :
    Still k m.value (OrderController.call serde profile secs clock conn m action).1.value := by
  unfold OrderController.call
  cases action with
  | index =>
      dsimp only [Prod.map_fst, id_eq]
      exact Mutex.lockedOk_value (.same _) (.same _)
  | «show» =>
      dsimp only [Prod.map_fst, id_eq]
      exact Mutex.lockedOk_value (.same _) (.same _)
  | create =>
      dsimp only
      cases serde.fromSlice conn.body with
      | none => exact .same _
      | some body =>
          have hstill : Still k m.value (m.locked (orders.create serde conn profile fun nextId =>
              (chronoNow secs).map fun now => newOrder body now nextId)).1.value := by
            refine Mutex.locked_value (.same _) ?_
            intro value x h
            obtain ⟨j, -, h⟩ := Option.bind_eq_some_iff.mp h
            obtain ⟨o, ho, h⟩ := Option.bind_eq_some_iff.mp h
            obtain ⟨now, -, rfl⟩ := Option.map_eq_some_iff.mp ho
            obtain rfl := congrArg Prod.fst (Option.some.inj h)
            exact still_create m.value rfl
          dsimp only
          split <;> simpa [*] using hstill
  | update =>
      dsimp only
      cases serde.fromSlice conn.body with
      | none => exact .same _
      | some body =>
          dsimp only [Prod.map_fst, id_eq]
          refine Mutex.lockedOk_value (.same _) ?_
          unfold Resource.update
          split
          · exact still_update (f := Order.set body) (fun _ => rfl) _ fun hk => absurd hk.symm h
          · exact .same _
  | delete =>
      dsimp only [Prod.map_fst, id_eq]
      exact Mutex.lockedOk_value (.same _) (still_delete _ fun hk => h hk.symm)

theorem orderIn_still (event : String) (payload : Value) (topic : String) (m : Mutex (List Order))
    (h : ¬ Meddles k (Label.orderIn (A := A) topic event payload)) :
    Still k m.value (OrderChannel.handleIn event payload topic m).1.value := by
  unfold OrderChannel.handleIn
  dsimp only
  split_ifs with hupdate
  · refine Mutex.lockedOk_value (.same _) ?_
    exact still_update (f := Order.setStatus _) (fun _ => rfl) _ fun hk => absurd ⟨hupdate, hk.symm⟩ h
  · split
    · exact .same _
    · refine Mutex.lockedOk_value (.same _) ?_
      split
      · exact still_update (f := Order.addItem _) (fun _ => rfl) _ fun _ _ => rfl
      · exact .same _
  · exact .same _

/-! ### What subscribers are told -/

/-- Messages that are not about a status, as far as a topic goes. -/
def Quiet (topic : String) (msgs : List PubSubMessage) : Prop := ∀ m ∈ msgs, isStatus topic m = false

theorem told_quiet {topic : String} {msgs : List PubSubMessage} (h : Quiet topic msgs)
    (hs : s'.broadcasts = s.broadcasts ++ msgs) : s'.told topic = s.told topic := by
  have hnil : msgs.filter (isStatus topic) = [] := List.filter_eq_nil_iff.mpr (by simpa [Quiet] using h)
  unfold App.told
  rw [hs, List.filter_append, hnil, List.append_nil]

theorem quiet_of_event {topic : String} {m : PubSubMessage} (h : m.event ≠ "status_changed") : isStatus topic m = false := by
  unfold isStatus
  simp [h]

theorem isStatus_statusChanged (topic t : String) (j : Nat) (status : String) :
    isStatus t (statusChanged topic j status) = decide (topic = t) := by
  unfold isStatus statusChanged
  by_cases h : topic = t <;> simp [h]

theorem told_withFlavors {topic : String} {r : Mutex (List Flavor) × Option (List PubSubMessage)}
    (h : ∀ msgs, r.2 = some msgs → Quiet topic msgs) : (s.withFlavors r).told topic = s.told topic := by
  obtain ⟨m, _ | msgs⟩ := r
  · rfl
  · exact told_quiet (h msgs rfl) rfl

theorem told_withOrders {topic : String} {r : Mutex (List Order) × Option (List PubSubMessage)}
    (h : ∀ msgs, r.2 = some msgs → Quiet topic msgs) : (s.withOrders r).told topic = s.told topic := by
  obtain ⟨m, _ | msgs⟩ := r
  · rfl
  · exact told_quiet (h msgs rfl) rfl

theorem orderIn_quiet {event : String} {payload : Value} {topic t : String} {m : Mutex (List Order)}
    (h : ¬ (event = "update_status" ∧ topic = t)) {handled : Handled (Option Channels.Reply)}
    (hin : (OrderChannel.handleIn event payload topic m).2 = some handled) : Quiet t handled.broadcasts := by
  unfold OrderChannel.handleIn at hin
  dsimp only at hin
  split_ifs at hin with hupdate
  · rw [Mutex.lockedOk_eq] at hin
    split_ifs at hin
    obtain rfl := Option.some.inj hin
    intro m hm
    obtain rfl := List.mem_singleton.mp hm
    rw [isStatus_statusChanged]
    exact decide_eq_false fun ht => h ⟨hupdate, ht⟩
  · split at hin
    · obtain rfl := Option.some.inj hin
      exact fun _ h => nomatch h
    · rw [Mutex.lockedOk_eq] at hin
      split_ifs at hin
      obtain rfl := Option.some.inj hin
      split
      · intro m hm
        obtain rfl := List.mem_singleton.mp hm
        exact quiet_of_event (by decide : "item_added" ≠ "status_changed")
      · exact fun _ h => nomatch h
  · obtain rfl := Option.some.inj hin
    exact fun _ h => nomatch h

theorem storeIn_quiet {formatPrice : Nat → String} {event : String} {payload : Value} {topic t : String}
    {m : Mutex (List Flavor)} {handled : Handled (Option Channels.Reply)}
    (hin : (StoreChannel.handleIn formatPrice event payload topic m).2 = some handled) :
    Quiet t handled.broadcasts := by
  unfold StoreChannel.handleIn at hin
  dsimp only at hin
  split_ifs at hin
  · obtain rfl := Option.some.inj hin
    intro m hm
    obtain rfl := List.mem_singleton.mp hm
    exact quiet_of_event (by decide : "store_announcement" ≠ "status_changed")
  · rw [Mutex.lockedOk_eq] at hin
    split_ifs at hin
    obtain rfl := Option.some.inj hin
    exact fun _ h => nomatch h
  · rw [Mutex.lockedOk_eq] at hin
    split_ifs at hin
    obtain rfl := Option.some.inj hin
    split
    · intro m hm
      obtain rfl := List.mem_singleton.mp hm
      exact quiet_of_event (by decide : "price_updated" ≠ "status_changed")
    · exact fun _ h => nomatch h
  · obtain rfl := Option.some.inj hin
    exact fun _ h => nomatch h

/-- What a thread has yet to broadcast is not about a status. -/
def Outgoing (s : App) : Prop := ∀ m ∈ s.outgoing, m.event ≠ "status_changed"

theorem callOrder_event {serde : SerdeJson} {profile : Profile} {secs clock : Option Nat} {conn conn' : Conn A}
    {m m' : Mutex (List Order)} {action : Action} {msg : Option PubSubMessage}
    (h : OrderController.call serde profile secs clock conn m action = (m', some (conn', msg))) :
    ∀ b ∈ msg.toList, b.event = "order_created" := by
  have hnone {T : Type} {r : Mutex (List Order) × Option T} {f : T → Conn A × Option PubSubMessage}
      (hf : ∀ x, (f x).2 = none) (hr : r.map id (Option.map f) = (m', some (conn', msg))) :
      ∀ b ∈ msg.toList, b.event = "order_created" := by
    obtain ⟨x, -, hx⟩ := Option.map_eq_some_iff.mp (congrArg Prod.snd hr)
    obtain rfl : none = msg := (hf x).symm.trans (congrArg Prod.snd hx)
    exact fun _ h => nomatch h
  unfold OrderController.call at h
  cases action with
  | index | «show» | delete => exact hnone (fun _ => rfl) h
  | create =>
      dsimp only at h
      split at h
      · split at h
        · obtain ⟨-, -, hmsg⟩ := Option.map_eq_some_iff.mp (congrArg Prod.snd h)
          obtain rfl : some (orderCreated _) = msg := congrArg Prod.snd hmsg
          intro b hb
          obtain rfl := List.mem_singleton.mp hb
          rfl
        · cases congrArg Prod.snd h
      · obtain rfl : none = msg := congrArg Prod.snd (Option.some.inj (congrArg Prod.snd h))
        exact fun _ h => nomatch h
  | update =>
      dsimp only at h
      split at h
      · exact hnone (fun _ => rfl) h
      · obtain rfl : none = msg := congrArg Prod.snd (Option.some.inj (congrArg Prod.snd h))
        exact fun _ h => nomatch h

@[simp] theorem withFlavors_outgoing (r : Mutex (List Flavor) × Option (List PubSubMessage)) :
    (s.withFlavors r).outgoing = s.outgoing := by
  obtain ⟨_, _ | _⟩ := r <;> rfl

@[simp] theorem withOrders_outgoing (r : Mutex (List Order) × Option (List PubSubMessage)) :
    (s.withOrders r).outgoing = s.outgoing := by
  obtain ⟨_, _ | _⟩ := r <;> rfl

@[simp] theorem withFlavors_simulations (r : Mutex (List Flavor) × Option (List PubSubMessage)) :
    (s.withFlavors r).simulations = s.simulations := by
  obtain ⟨_, _ | _⟩ := r <;> rfl

@[simp] theorem withOrders_simulations (r : Mutex (List Order) × Option (List PubSubMessage)) :
    (s.withOrders r).simulations = s.simulations := by
  obtain ⟨_, _ | _⟩ := r <;> rfl

theorem outgoing_step (ho : Outgoing s) (h : (system A env).step s l = some s') : Outgoing s' := by
  replace h := run_of_step h
  cases l with
  | flavors action clock conn =>
      obtain rfl := Option.some.inj h
      unfold Outgoing
      rw [withFlavors_outgoing]
      exact ho
  | orders action secs clock conn =>
      dsimp only [App.run] at h
      split at h
      · rename_i hcall
        obtain rfl := Option.some.inj h
        intro m hm
        rcases List.mem_append.mp hm with hm | hm
        · exact ho m hm
        · rw [callOrder_event hcall m hm]
          decide
      · obtain rfl := Option.some.inj h
        exact ho
  | joinOrder topic payload =>
      obtain ⟨-, rfl⟩ | ⟨-, rfl⟩ := joinOrder_cases h
      all_goals exact ho
  | orderIn topic event payload =>
      dsimp only [App.run] at h
      split_ifs at h
      obtain rfl := Option.some.inj h
      unfold Outgoing
      rw [withOrders_outgoing]
      exact ho
  | joinStore payload =>
      obtain rfl := Option.some.inj h
      exact ho
  | storeIn event payload =>
      obtain rfl := Option.some.inj h
      unfold Outgoing
      rw [withFlavors_outgoing]
      exact ho
  | simulate i =>
      obtain ⟨sim, -, ⟨status, -, rfl⟩ | ⟨status, todo, -, -, ⟨-, rfl⟩ | ⟨-, rfl⟩⟩⟩ := simulate_cases h
      all_goals exact ho
  | tick =>
      dsimp only [App.run] at h
      split_ifs at h
      obtain rfl := Option.some.inj h
      unfold App.priceTick
      split
      · exact ho
      · split
        · intro m hm
          rcases List.mem_append.mp hm with hm | hm
          · exact ho m hm
          · rw [List.mem_singleton.mp hm]
            exact (by decide : "price_updated" ≠ "status_changed")
        · exact ho
  | broadcast i =>
      dsimp only [App.run] at h
      split at h
      · obtain rfl := Option.some.inj h
        exact fun m hm => ho m (List.mem_of_mem_eraseIdx hm)
      · cases h

/-! ### One step, seen from one order -/

/-- What a step does to an order, its tasks and what is told of its status. -/
inductive OrderTurn (k : Nat) (s s' : App) : Prop
  | still : Still k s.data.orders.value s'.data.orders.value → s'.simulations = s.simulations →
      (∀ t, parseOrderId t = k → s'.told t = s.told t) → OrderTurn k s s'
  | joined (topic : String) : statusOf s.data.orders.value (parseOrderId topic) = some "pending" →
      s'.data.orders = s.data.orders →
      s'.simulations = s.simulations ++ [.start (parseOrderId topic) topic] →
      (∀ t, s'.told t = s.told t) → OrderTurn k s s'
  | announced (i : Nat) (sim : Simulation) (status : String) : s.simulations[i]? = some sim →
      sim.announcing = some status → s'.data.orders = s.data.orders →
      s'.simulations = s.simulations.set i { sim with announcing := none } →
      (∀ t, s'.told t = s.told t ++
        if sim.topic = t then [statusChanged sim.topic sim.orderId status] else []) → OrderTurn k s s'
  | advanced (i : Nat) (sim : Simulation) (status : String) (todo : List String) : s.simulations[i]? = some sim →
      sim.announcing = none → sim.todo = status :: todo →
      s'.data.orders.value = Table.update orders.id sim.orderId (Order.setStatus status) s.data.orders.value →
      s'.simulations = s.simulations.set i { sim with todo := todo, announcing := some status } →
      (∀ t, s'.told t = s.told t) → OrderTurn k s s'

theorem orderTurn_of_step (ho : Outgoing s) (hown : ¬ Meddles k l) (hok : s'.panicked = false)
    (h : (system A env).step s l = some s') : OrderTurn k s s' := by
  replace h := run_of_step h
  cases l with
  | flavors action clock conn =>
      obtain rfl := Option.some.inj h
      refine .still ?_ ?_ ?_
      · rw [withFlavors_orders]
        exact .same _
      · rw [withFlavors_simulations]
      · intro t _
        refine told_withFlavors ?_
        intro msgs hmsgs
        obtain ⟨x, -, rfl⟩ := Option.map_eq_some_iff.mp hmsgs
        exact fun _ h => nomatch h
  | orders action secs clock conn =>
      have hstill := callOrder_still env.serde env.profile secs clock conn s.data.orders hown
      dsimp only [App.run] at h
      split at h
      · rename_i hcall
        obtain rfl := Option.some.inj h
        rw [hcall] at hstill
        exact .still hstill rfl fun t _ => rfl
      · rename_i hcall
        obtain rfl := Option.some.inj h
        rw [hcall] at hstill
        exact .still hstill rfl fun t _ => rfl
  | joinOrder topic payload =>
      obtain ⟨-, rfl⟩ | ⟨-, rfl⟩ := joinOrder_cases h
      · by_cases hpending : statusOf s.data.orders.value (parseOrderId topic) = some "pending"
        · exact .joined topic hpending rfl (by rw [if_pos hpending]) fun _ => rfl
        · exact .still (.same _) (by rw [if_neg hpending, List.append_nil]) fun _ _ => rfl
      · exact .still (.same _) rfl fun _ _ => rfl
  | orderIn topic event payload =>
      have hstill := orderIn_still (A := A) event payload topic s.data.orders hown
      dsimp only [App.run] at h
      split_ifs at h
      obtain rfl := Option.some.inj h
      refine .still ?_ ?_ ?_
      · rw [withOrders_orders]
        exact hstill
      · rw [withOrders_simulations]
      · intro t ht
        refine told_withOrders ?_
        intro msgs hmsgs
        obtain ⟨handled, hhandled, rfl⟩ := Option.map_eq_some_iff.mp hmsgs
        refine orderIn_quiet ?_ hhandled
        rintro ⟨hevent, rfl⟩
        exact hown ⟨hevent, ht⟩
  | joinStore payload =>
      obtain rfl := Option.some.inj h
      refine .still (.same _) rfl fun t _ => told_quiet ?_ rfl
      intro m hm
      obtain rfl := List.mem_singleton.mp hm
      exact quiet_of_event (by decide : "customer_arrived" ≠ "status_changed")
  | storeIn event payload =>
      obtain rfl := Option.some.inj h
      refine .still ?_ ?_ ?_
      · rw [withFlavors_orders]
        exact .same _
      · rw [withFlavors_simulations]
      · intro t _
        refine told_withFlavors ?_
        intro msgs hmsgs
        obtain ⟨handled, hhandled, rfl⟩ := Option.map_eq_some_iff.mp hmsgs
        exact storeIn_quiet hhandled
  | simulate i =>
      obtain ⟨sim, hsim, ⟨status, hannouncing, rfl⟩ | ⟨status, todo, hannouncing, htodo, ⟨-, rfl⟩ | ⟨-, rfl⟩⟩⟩ :=
        simulate_cases h
      · refine .announced i sim status hsim hannouncing rfl rfl fun t => ?_
        unfold App.told
        rw [List.filter_append, List.filter_singleton, isStatus_statusChanged]
        by_cases ht : sim.topic = t <;> simp [ht]
      · exact .advanced i sim status todo hsim hannouncing htodo rfl rfl fun _ => rfl
      · cases hok
  | tick =>
      dsimp only [App.run] at h
      split_ifs at h
      obtain rfl := Option.some.inj h
      unfold App.priceTick
      split
      · exact .still (.same _) rfl fun _ _ => rfl
      · split
        · exact .still (.same _) rfl fun _ _ => rfl
        · exact .still (.same _) rfl fun _ _ => rfl
  | broadcast i =>
      dsimp only [App.run] at h
      split at h
      · rename_i msg hmsg
        obtain rfl := Option.some.inj h
        refine .still (.same _) rfl fun t _ => told_quiet ?_ rfl
        intro m hm
        obtain rfl := List.mem_singleton.mp hm
        exact quiet_of_event (ho _ (List.mem_of_getElem? hmsg))
      · cases h

/-! ### The tasks of an order -/

/-- The statuses that a task has yet to broadcast, and those it has. -/
def Simulation.left (sim : Simulation) : List String := sim.announcing.toList ++ sim.todo

def Simulation.said (sim : Simulation) : List String := statuses.take (statuses.length - sim.left.length)

/-- A task goes through the statuses, for the order that its topic names. -/
structure Simulation.OnTrack (sim : Simulation) : Prop where
  order : sim.orderId = parseOrderId sim.topic
  left : sim.left <:+ statuses

theorem said_append_left {sim : Simulation} (h : sim.left <:+ statuses) : sim.said ++ sim.left = statuses := by
  obtain ⟨said, hsaid⟩ := h
  have hlen : statuses.length - sim.left.length = said.length := by
    rw [← hsaid, List.length_append, Nat.add_sub_cancel]
  have htake : sim.said = said := by
    unfold Simulation.said
    rw [hlen, ← hsaid, List.take_left]
  rw [htake, hsaid]

/-- What the tasks of a topic have broadcast. -/
def saidOn (topic : String) (sims : List Simulation) : List PubSubMessage :=
  sims.flatMap fun sim => if sim.topic = topic then sim.said.map (statusChanged topic sim.orderId) else []

theorem perm_flatMap_set {X Y : Type} {f : X → List Y} {x x' : X} {extra : List Y} (hf : f x' = f x ++ extra) :
    ∀ {xs : List X} {i : Nat}, xs[i]? = some x → ((xs.set i x').flatMap f).Perm (xs.flatMap f ++ extra) := by
  intro xs
  induction xs with
  | nil => intro i hi; cases hi
  | cons y rest ih =>
      intro i hi
      cases i with
      | zero =>
          obtain rfl : y = x := by simpa using hi
          rw [List.set_cons_zero, List.flatMap_cons, List.flatMap_cons, hf, List.append_assoc, List.append_assoc]
          exact List.Perm.append_left _ List.perm_append_comm
      | succ i =>
          rw [List.set_cons_succ, List.flatMap_cons, List.flatMap_cons, List.append_assoc]
          exact List.Perm.append_left _ (ih (by simpa using hi))

theorem exists_mem_set {X : Type} {P : X → Prop} {xs : List X} {i : Nat} {x x' : X} (hi : xs[i]? = some x)
    (hP : P x → P x') (h : ∃ y ∈ xs, P y) : ∃ y ∈ xs.set i x', P y := by
  obtain ⟨y, hy, hPy⟩ := h
  obtain ⟨j, hj⟩ := List.mem_iff_getElem?.mp hy
  by_cases hij : i = j
  · subst hij
    obtain rfl := Option.some.inj (hi.symm.trans hj)
    have hlt := (List.getElem?_eq_some_iff.mp hi).1
    exact ⟨x', List.mem_set hlt x', hP hPy⟩
  · exact ⟨y, List.mem_iff_getElem?.mpr ⟨j, by rw [List.getElem?_set_ne hij, hj]⟩, hPy⟩

theorem forall_mem_set {X : Type} {P : X → Prop} {xs : List X} {i : Nat} {x x' : X} (hi : xs[i]? = some x)
    (hP : P x → P x') (h : ∀ y ∈ xs, P y) : ∀ y ∈ xs.set i x', P y := by
  intro y hy
  rcases List.mem_or_eq_of_mem_set hy with hy | rfl
  · exact h y hy
  · exact hP (h x (List.mem_of_getElem? hi))

/-- What holds of an order and its tasks, as long as nobody meddles. -/
structure Tasks (k : Nat) (s : App) : Prop where
  onTrack : ∀ sim ∈ s.simulations, sim.OnTrack
  /-- an order that is not there has no tasks -/
  unknown : statusOf s.data.orders.value k = none → ∀ sim ∈ s.simulations, sim.orderId ≠ k
  /-- no task of a pending order has set anything -/
  pending : statusOf s.data.orders.value k = some "pending" →
    ∀ sim ∈ s.simulations, sim.orderId = k → sim.todo = statuses
  moved : ∀ status, statusOf s.data.orders.value k = some status →
    status = "pending" ∨ status = "delivered" ∨ ∃ sim ∈ s.simulations, sim.orderId = k ∧ sim.todo ≠ []
  told : ∀ t, parseOrderId t = k → (s.told t).Perm (saidOn t s.simulations)
  last : ∀ t, parseOrderId t = k → ∀ m, (s.told t).getLast? = some m →
    m = statusChanged t k "delivered" ∨ ∃ sim ∈ s.simulations, sim.topic = t ∧ sim.left ≠ []

theorem last_status {status : String} (h : [status] <:+ statuses) : status = "delivered" := by
  obtain ⟨rest, hrest⟩ := h
  have := congrArg List.getLast? hrest
  simpa [statuses] using this

theorem status_ne_pending {status : String} {rest : List String} (h : status :: rest <:+ statuses) :
    status ≠ "pending" := by
  have hmem : status ∈ statuses := h.subset (List.mem_cons_self ..)
  rintro rfl
  exact absurd hmem (by decide)

theorem Tasks.still (ht : Tasks k s) (hstill : Still k s.data.orders.value s'.data.orders.value)
    (hsims : s'.simulations = s.simulations) (htold : ∀ t, parseOrderId t = k → s'.told t = s.told t) : Tasks k s' := by
  refine ⟨?_, ?_, ?_, ?_, ?_, ?_⟩
  · rw [hsims]
    exact ht.onTrack
  · rw [hsims]
    rcases hstill with hsame | ⟨-, hpending⟩
    · rw [hsame]
      exact ht.unknown
    · simp [hpending]
  · rw [hsims]
    rcases hstill with hsame | ⟨hnone, -⟩
    · rw [hsame]
      exact ht.pending
    · exact fun _ sim hsim horder => absurd horder (ht.unknown hnone sim hsim)
  · rw [hsims]
    rcases hstill with hsame | ⟨-, hpending⟩
    · rw [hsame]
      exact ht.moved
    · intro status hstatus
      exact Or.inl (Option.some.inj (hstatus.symm.trans hpending))
  · intro t hk
    rw [htold t hk, hsims]
    exact ht.told t hk
  · intro t hk
    rw [htold t hk, hsims]
    exact ht.last t hk

theorem Tasks.joined (ht : Tasks k s) {topic : String}
    (hpending : statusOf s.data.orders.value (parseOrderId topic) = some "pending")
    (horders : s'.data.orders = s.data.orders)
    (hsims : s'.simulations = s.simulations ++ [.start (parseOrderId topic) topic])
    (htold : ∀ t, s'.told t = s.told t) : Tasks k s' := by
  refine ⟨?_, ?_, ?_, ?_, ?_, ?_⟩
  · rw [hsims, List.forall_mem_append]
    refine ⟨ht.onTrack, ?_⟩
    rw [List.forall_mem_singleton]
    exact ⟨rfl, List.suffix_refl _⟩
  · rw [horders, hsims]
    intro hnone
    rw [List.forall_mem_append, List.forall_mem_singleton]
    refine ⟨ht.unknown hnone, ?_⟩
    rintro rfl
    cases hnone.symm.trans hpending
  · rw [horders, hsims]
    intro hk
    rw [List.forall_mem_append, List.forall_mem_singleton]
    exact ⟨ht.pending hk, fun _ => rfl⟩
  · rw [horders, hsims]
    intro status hstatus
    rcases ht.moved status hstatus with h | h | ⟨sim, hsim, hwork⟩
    · exact Or.inl h
    · exact Or.inr (Or.inl h)
    · exact Or.inr (Or.inr ⟨sim, List.mem_append_left _ hsim, hwork⟩)
  · intro t hk
    have hstart : saidOn t [.start (parseOrderId topic) topic] = [] := by
      unfold saidOn
      rw [List.flatMap_singleton]
      split_ifs <;> rfl
    rw [htold, hsims, saidOn, List.flatMap_append, ← saidOn, ← saidOn, hstart, List.append_nil]
    exact ht.told t hk
  · intro t hk m hm
    rw [htold] at hm
    rw [hsims]
    rcases ht.last t hk m hm with h | ⟨sim, hsim, hwork⟩
    · exact Or.inl h
    · exact Or.inr ⟨sim, List.mem_append_left _ hsim, hwork⟩

theorem Tasks.announced (ht : Tasks k s) {i : Nat} {sim : Simulation} {status : String}
    (hsim : s.simulations[i]? = some sim) (hannouncing : sim.announcing = some status)
    (horders : s'.data.orders = s.data.orders)
    (hsims : s'.simulations = s.simulations.set i { sim with announcing := none })
    (htold : ∀ t, s'.told t = s.told t ++
      if sim.topic = t then [statusChanged sim.topic sim.orderId status] else []) : Tasks k s' := by
  obtain ⟨horder, hleft⟩ := ht.onTrack sim (List.mem_of_getElem? hsim)
  have hcons : sim.left = status :: sim.todo := by simp [Simulation.left, hannouncing]
  have hafter : ({ sim with announcing := none } : Simulation).left = sim.todo := rfl
  have hsaid : ({ sim with announcing := none } : Simulation).said = sim.said ++ [status] := by
    have hbefore := said_append_left hleft
    have hnow : Simulation.said { sim with announcing := none } ++ Simulation.left { sim with announcing := none } =
        statuses := said_append_left ((List.suffix_cons status sim.todo).trans (hcons ▸ hleft))
    rw [hafter] at hnow
    rw [hcons, List.append_cons] at hbefore
    exact List.append_cancel_right (hnow.trans hbefore.symm)
  refine ⟨?_, ?_, ?_, ?_, ?_, ?_⟩
  · rw [hsims]
    refine forall_mem_set hsim (fun _ => ⟨horder, ?_⟩) ht.onTrack
    exact (List.suffix_cons status sim.todo).trans (hcons ▸ hleft)
  · rw [horders, hsims]
    exact fun hnone => forall_mem_set hsim id (ht.unknown hnone)
  · rw [horders, hsims]
    exact fun hk => forall_mem_set hsim id (ht.pending hk)
  · rw [horders, hsims]
    intro st hst
    rcases ht.moved st hst with h | h | h
    · exact Or.inl h
    · exact Or.inr (Or.inl h)
    · exact Or.inr (Or.inr (exists_mem_set hsim id h))
  · intro t hk
    rw [htold, hsims]
    refine ((ht.told t hk).append_right _).trans (List.Perm.symm ?_)
    refine perm_flatMap_set ?_ hsim
    by_cases htopic : sim.topic = t
    · subst htopic
      simp [hsaid]
    · simp [htopic]
  · intro t hk m hm
    rw [htold] at hm
    rw [hsims]
    by_cases htopic : sim.topic = t
    · subst htopic
      rw [if_pos rfl, List.getLast?_concat] at hm
      obtain rfl := Option.some.inj hm
      by_cases htodo : sim.todo = []
      · left
        rw [htodo] at hcons
        have hdelivered : status = "delivered" := last_status (hcons ▸ hleft)
        rw [hdelivered, horder, hk]
      · right
        have hlt := (List.getElem?_eq_some_iff.mp hsim).1
        exact ⟨_, List.mem_set hlt _, rfl, htodo⟩
    · rw [if_neg htopic, List.append_nil] at hm
      rcases ht.last t hk m hm with h | h
      · exact Or.inl h
      · exact Or.inr (exists_mem_set hsim (fun hP => absurd hP.1 htopic) h)

theorem Tasks.advanced (ht : Tasks k s) {i : Nat} {sim : Simulation} {status : String} {todo : List String}
    (hsim : s.simulations[i]? = some sim) (hannouncing : sim.announcing = none) (htodo : sim.todo = status :: todo)
    (horders : s'.data.orders.value
      = Table.update orders.id sim.orderId (Order.setStatus status) s.data.orders.value)
    (hsims : s'.simulations = s.simulations.set i { sim with todo := todo, announcing := some status })
    (htold : ∀ t, s'.told t = s.told t) : Tasks k s' := by
  obtain ⟨horder, hleft⟩ := ht.onTrack sim (List.mem_of_getElem? hsim)
  have hcons : sim.left = status :: todo := by simp [Simulation.left, hannouncing, htodo]
  have hafter : ({ sim with todo := todo, announcing := some status } : Simulation).left = sim.left := hcons.symm
  have hsaid : ({ sim with todo := todo, announcing := some status } : Simulation).said = sim.said := by
    unfold Simulation.said
    rw [hafter]
  have hstatus : statusOf s'.data.orders.value k
      = if k = sim.orderId then (Table.lookup orders.id s.data.orders.value sim.orderId).map fun _ => status
        else statusOf s.data.orders.value k := by
    rw [horders]
    exact statusOf_update (f := Order.setStatus status) (fun _ => rfl) _ _
  have hlt := (List.getElem?_eq_some_iff.mp hsim).1
  refine ⟨?_, ?_, ?_, ?_, ?_, ?_⟩
  · rw [hsims]
    exact forall_mem_set hsim (fun _ => ⟨horder, by rw [hafter]; exact hleft⟩) ht.onTrack
  · rw [hstatus, hsims]
    intro hnone
    refine forall_mem_set hsim id (ht.unknown ?_)
    split_ifs at hnone with hk
    · subst hk
      simpa [statusOf] using hnone
    · exact hnone
  · rw [hstatus, hsims]
    intro hpending
    split_ifs at hpending with hk
    · obtain ⟨o, -, hst⟩ := Option.map_eq_some_iff.mp hpending
      exact absurd hst (status_ne_pending (hcons ▸ hleft))
    · exact forall_mem_set hsim (fun _ horder' => absurd horder'.symm hk) (ht.pending hpending)
  · rw [hstatus, hsims]
    intro st hst
    split_ifs at hst with hk
    · obtain ⟨o, -, rfl⟩ := Option.map_eq_some_iff.mp hst
      by_cases hlast : todo = []
      · subst hlast
        exact Or.inr (Or.inl (last_status (hcons ▸ hleft)))
      · exact Or.inr (Or.inr ⟨_, List.mem_set hlt _, hk.symm, hlast⟩)
    · rcases ht.moved st hst with h | h | h
      · exact Or.inl h
      · exact Or.inr (Or.inl h)
      · exact Or.inr (Or.inr (exists_mem_set hsim (fun hP => absurd hP.1.symm hk) h))
  · intro t hk
    rw [htold, hsims]
    refine (ht.told t hk).trans (List.Perm.symm ?_)
    refine (perm_flatMap_set ?_ hsim).trans (List.Perm.of_eq (List.append_nil _))
    simp [hsaid]
  · intro t hk m hm
    rw [htold] at hm
    rw [hsims]
    rcases ht.last t hk m hm with h | h
    · exact Or.inl h
    · exact Or.inr (exists_mem_set hsim (fun hP => ⟨hP.1, by rw [hafter]; exact hP.2⟩) h)

theorem tasks_turn (ht : Tasks k s) (h : OrderTurn k s s') : Tasks k s' := by
  cases h with
  | still hstill hsims htold => exact ht.still hstill hsims htold
  | joined topic hpending horders hsims htold => exact ht.joined hpending horders hsims htold
  | announced i sim status hsim hannouncing horders hsims htold =>
      exact ht.announced hsim hannouncing horders hsims htold
  | advanced i sim status todo hsim hannouncing htodo horders hsims htold =>
      exact ht.advanced hsim hannouncing htodo horders hsims htold

theorem tasks_run {ls : List (Label A)} (h : (system A env).exec (system A env).init ls = some s)
    (hown : (system A env).Along (fun _ l => ¬ Meddles k l) (system A env).init ls) (hok : s.panicked = false) :
    Tasks k s := by
  have hrun := Lts.exec_invariant_along (M := system A env) (P := fun _ l => ¬ Meddles k l)
    (I := fun s => Outgoing s ∧ (s.panicked = false → Tasks k s)) ?_ ?_ hown h
  · exact hrun.2 hok
  · refine ⟨fun _ h => (nomatch h), fun _ => ⟨fun _ h => (nomatch h), fun _ _ h => (nomatch h), fun _ _ h => (nomatch h),
      ?_, fun _ _ => .nil, fun _ _ _ h => (nomatch h)⟩⟩
    intro status hstatus
    cases hstatus
  · rintro s l s' ⟨ho, ht⟩ hown hs
    refine ⟨outgoing_step ho hs, fun hok => ?_⟩
    have hbefore : s.panicked = false := by
      cases hpanicked : s.panicked with
      | false => rfl
      | true => exact absurd (panicked_stays hpanicked hs) (by simp [hok])
    exact tasks_turn (ht hbefore) (orderTurn_of_step ho hown hok hs)

/-! ### The tasks end -/

/-- The steps that the tasks have yet to take. -/
def Simulation.work (sim : Simulation) : Nat := 2 * sim.todo.length + sim.announcing.toList.length

def App.work (s : App) : Nat := (s.simulations.map (·.work)).sum

theorem sum_set {f : Simulation → Nat} {x x' : Simulation} (hf : f x' + 1 = f x) : ∀ {xs : List Simulation} {i : Nat},
    xs[i]? = some x → ((xs.set i x').map f).sum + 1 = (xs.map f).sum := by
  intro xs
  induction xs with
  | nil => intro i hi; cases hi
  | cons y rest ih =>
      intro i hi
      cases i with
      | zero =>
          obtain rfl : y = x := by simpa using hi
          rw [List.set_cons_zero, List.map_cons, List.map_cons, List.sum_cons, List.sum_cons, ← hf]
          omega
      | succ i =>
          have := ih (i := i) (by simpa using hi)
          rw [List.set_cons_succ, List.map_cons, List.map_cons, List.sum_cons, List.sum_cons]
          omega

/-- A task with work left can go on, and has less of it then. -/
theorem simulate_goes_on (hcalm : Calm s) (hok : s.panicked = false) {i : Nat} {sim : Simulation}
    (hsim : s.simulations[i]? = some sim) (hleft : sim.left ≠ []) :
    ∃ s', (system A env).step s (.simulate i) = some s' ∧ s'.work + 1 = s.work ∧ s'.panicked = false ∧ Calm s' := by
  obtain ⟨hflavors, horders, hpricing⟩ := hcalm
  have hstep : (system A env).step s (.simulate i) = s.simulate i := by
    change App.step env s _ = _
    unfold App.step
    rw [hok]
    rfl
  rw [hstep]
  unfold App.simulate
  rw [hsim]
  dsimp only
  cases hannouncing : sim.announcing with
  | some status =>
      refine ⟨_, rfl, ?_, hok, hflavors, horders, hpricing⟩
      exact sum_set (by simp [Simulation.work, hannouncing]) hsim
  | none =>
      cases htodo : sim.todo with
      | nil => exact absurd (by simp [Simulation.left, hannouncing, htodo]) hleft
      | cons status todo =>
          dsimp only
          rw [lockedOk_ok horders]
          refine ⟨_, rfl, ?_, hok, hflavors, horders, hpricing⟩
          refine sum_set ?_ hsim
          simp [Simulation.work, hannouncing, htodo]
          omega

theorem work_eq_zero : s.work = 0 ↔ ∀ sim ∈ s.simulations, sim.left = [] := by
  unfold App.work
  rw [List.sum_eq_zero_iff_forall_eq_nat, List.forall_mem_map]
  refine forall_congr' fun sim => forall_congr' fun _ => ?_
  unfold Simulation.work Simulation.left
  rw [List.append_eq_nil_iff]
  constructor
  · intro h
    exact ⟨List.length_eq_zero_iff.mp (by omega), List.length_eq_zero_iff.mp (by omega)⟩
  · rintro ⟨hannouncing, htodo⟩
    rw [hannouncing, htodo]
    rfl

/-- In a store that has not panicked, the tasks come to an end after the steps they have to take. -/
theorem tasks_end : ∀ {work : Nat} {s : App}, s.work = work → Calm s → s.panicked = false →
    ∃ (turns : List Nat) (s' : App), turns.length = work ∧
      (system A env).exec s (turns.map .simulate) = some s' ∧ s'.panicked = false ∧
      ∀ sim ∈ s'.simulations, sim.left = [] := by
  intro work
  induction work with
  | zero =>
      intro s hwork _ hok
      exact ⟨[], s, rfl, rfl, hok, work_eq_zero.mp hwork⟩
  | succ work ih =>
      intro s hwork hcalm hok
      have hsome : ¬ ∀ sim ∈ s.simulations, sim.left = [] := by
        rw [← work_eq_zero, hwork]
        exact Nat.succ_ne_zero work
      push Not at hsome
      obtain ⟨sim, hsim, hleft⟩ := hsome
      obtain ⟨i, hi⟩ := List.mem_iff_getElem?.mp hsim
      obtain ⟨mid, hstep, hless, hok', hcalm'⟩ : ∃ mid, (system A env).step s (.simulate i) = some mid ∧
          mid.work + 1 = s.work ∧ mid.panicked = false ∧ Calm mid := simulate_goes_on hcalm hok hi hleft
      obtain ⟨turns, s', hlength, hexec, hend⟩ := ih (s := mid) (by omega) hcalm' hok'
      refine ⟨i :: turns, s', by rw [List.length_cons, hlength], ?_, hend⟩
      rw [List.map_cons, Lts.exec_step hstep, hexec]

/-! ### Delivered -/

/-- An order is delivered, its subscribers were told of each status by each task, and of the delivery last. -/
structure Delivered (k : Nat) (s : App) : Prop where
  status : statusOf s.data.orders.value k = some "delivered"
  told : ∀ t, parseOrderId t = k → (s.told t).Perm
    (List.replicate (s.simulations.countP fun sim => sim.topic == t) (statuses.map (statusChanged t k))).flatten
  last : ∀ t, parseOrderId t = k → ∀ m, (s.told t).getLast? = some m → m = statusChanged t k "delivered"

theorem saidOn_ended {t : String} (hk : parseOrderId t = k) {sims : List Simulation}
    (h : ∀ sim ∈ sims, sim.OnTrack ∧ (sim.orderId = k → sim.left = [])) : saidOn t sims
      = (List.replicate (sims.countP fun sim => sim.topic == t) (statuses.map (statusChanged t k))).flatten := by
  induction sims with
  | nil => rfl
  | cons sim rest ih =>
      rw [List.forall_mem_cons] at h
      obtain ⟨⟨⟨horder, hleft⟩, hended⟩, hrest⟩ := h
      rw [saidOn, List.flatMap_cons, ← saidOn, ih hrest, List.countP_cons]
      by_cases ht : sim.topic = t
      · subst ht
        have hsaid := said_append_left hleft
        rw [hended (horder.trans hk), List.append_nil] at hsaid
        simp only [if_true, beq_self_eq_true]
        rw [hsaid, horder, hk, List.replicate_succ, List.flatten_cons]
      · simp [ht]

theorem untold_of_pending (ht : Tasks k s) (hpending : statusOf s.data.orders.value k = some "pending") {t : String}
    (hk : parseOrderId t = k) : s.told t = [] := by
  have hnil : saidOn t s.simulations = [] := by
    unfold saidOn
    rw [List.flatMap_eq_nil_iff]
    intro sim hsim
    obtain ⟨horder, hleft⟩ := ht.onTrack sim hsim
    split_ifs with htopic
    · subst htopic
      have htodo := ht.pending hpending sim hsim (horder.trans hk)
      have hlong : statuses.length ≤ sim.left.length := by
        unfold Simulation.left
        rw [List.length_append, htodo]
        omega
      unfold Simulation.said
      rw [Nat.sub_eq_zero_of_le hlong]
      rfl
    · rfl
  have hperm := ht.told t hk
  rw [hnil] at hperm
  exact hperm.eq_nil

theorem delivered_of_ended (ht : Tasks k s) (hsome : ∃ sim ∈ s.simulations, sim.orderId = k)
    (hended : ∀ sim ∈ s.simulations, sim.orderId = k → sim.left = []) : Delivered k s := by
  have hno : ¬ ∃ sim ∈ s.simulations, sim.orderId = k ∧ sim.todo ≠ [] := by
    rintro ⟨sim, hsim, horder, htodo⟩
    exact htodo (List.append_eq_nil_iff.mp (hended sim hsim horder)).2
  refine ⟨?_, ?_, ?_⟩
  · obtain ⟨sim, hsim, horder⟩ := hsome
    cases hstatus : statusOf s.data.orders.value k with
    | none => exact absurd horder (ht.unknown hstatus sim hsim)
    | some status =>
        rcases ht.moved status hstatus with rfl | rfl | h
        · have htodo := ht.pending hstatus sim hsim horder
          exact absurd ⟨sim, hsim, horder, by rw [htodo]; decide⟩ hno
        · rfl
        · exact absurd h hno
  · intro t hk
    rw [← saidOn_ended hk fun sim hsim => ⟨ht.onTrack sim hsim, hended sim hsim⟩]
    exact ht.told t hk
  · intro t hk m hm
    rcases ht.last t hk m hm with h | ⟨sim, hsim, rfl, hleft⟩
    · exact h
    · exact absurd (hended sim hsim ((ht.onTrack sim hsim).order.trans hk)) hleft

/-- Two clients join a pending order; the first task is ahead when the second sets it back. -/
def joinedTwice : List (Label Unit) :=
  let post : Conn Unit :=
    { Conn.new .post { path := "/api/orders", query := none } with body := RustStd.asBytes fourScoopsText }
  [.orders .create (some 0) (some 0) post, .joinOrder "order:1" .null, .joinOrder "order:1" .null] ++
    ([0, 0, 0, 0, 1, 1, 0, 0, 1, 1, 1, 1].map .simulate)

end Mahalo.TestApp
