/-
What the cluster announces.

Whoever listens on "mahalo:cluster" sees ups and downs.  They tell the peers of the
last poll, because the set that is remembered is the one the events so far tell, and
each poll announces exactly its difference from it.
-/
import Mahalo.Cluster

namespace Mahalo.MahaloCluster

open Roster

variable {Addr : Type*} [DecidableEq Addr] {display : Addr → String} {nodeId : Nat}

/-- What the topology answered. -/
def Label.peers : Label Addr → List Addr
  | .start peers _ => peers
  | .poll peers _ => peers

/-- The order in which the set of them iterates. -/
def Label.order : Label Addr → List Addr
  | .start _ order => order
  | .poll _ order => order

/-- What it answered last. -/
def lastPeers (ls : List (Label Addr)) : List Addr := (ls.getLast?.map Label.peers).getD []

/-- The events in which a text is the address, in order. -/
def namedOn (addr : String) (sent : List PubSubCommand) : List String :=
  sent.filterMap fun
    | .broadcast "mahalo:cluster" ⟨_, event, .object [_, (_, .string text)]⟩ =>
        if text = addr then some event else none
    | _ => none

/-- The state agrees with the last answer of the topology. -/
structure Agrees (display : Addr → String) (nodeId : Nat) (last : List Addr) (s : MahaloCluster Addr) :
    Prop where
  node : s.nodeId = nodeId
  known : ∀ a, a ∈ (s.knownPeers.map (·.elems)).getD [] ↔ a ∈ last
  tells : Tells s.events {a | a ∈ last}
  sent : s.sent = s.events.map (announcement display nodeId)

omit [DecidableEq Addr] in
theorem broadcastAll_eq (s : MahaloCluster Addr) (peers : List Addr) (event : Addr → Event Addr) :
    s.broadcastAll display peers event
      = { s with
          sent := s.sent ++ (peers.map event).map (announcement display s.nodeId)
          events := s.events ++ peers.map event } := by
  unfold broadcastAll
  induction peers generalizing s with
  | nil => simp
  | cons peer rest ih =>
      rw [List.foldl_cons, ih]
      simp [broadcast]

theorem collect_some {items order : List Addr} {set : HashSet Addr}
    (h : HashSet.collect items order = some set) : set.elems = order ∧ ∀ a, a ∈ set.elems ↔ a ∈ items := by
  unfold HashSet.collect at h
  split at h
  · rename_i horder
    obtain rfl := Option.some.inj h
    exact ⟨rfl, fun a => ⟨horder.2.1 a, horder.2.2 a⟩⟩
  · cases h

/-- The set that was remembered, nothing before the start. -/
def knownBefore (s : MahaloCluster Addr) : List Addr := (s.knownPeers.map (·.elems)).getD []

omit [DecidableEq Addr] in
theorem knownBefore_nodup (s : MahaloCluster Addr) : s.knownBefore.Nodup := by
  unfold knownBefore
  cases s.knownPeers with
  | none => exact .nil
  | some known => exact known.nodup

omit [DecidableEq Addr] in
/-- It tells the set. -/
theorem knownPeers_eq {s s' : MahaloCluster Addr} {known known' : HashSet Addr}
    (h : s.knownPeers = some known) (h' : s'.knownPeers = some known') (heq : s.knownBefore = s'.knownBefore) :
    s.knownPeers = s'.knownPeers := by
  unfold knownBefore at heq
  rw [h, h'] at heq ⊢
  have helems : known.elems = known'.elems := heq
  cases known
  cases known'
  cases helems
  rfl

/-- The difference of what is known and what is there now, as events. -/
def difference (known current : List Addr) : List (Event Addr) :=
  (current.filter (· ∉ known)).map .up ++ (known.filter (· ∉ current)).map .down

/-- **Every step announces a difference**, the start the one from nothing. -/
theorem step_some {s s' : MahaloCluster Addr} {l : Label Addr} (h : step display s l = some s') :
    ∃ current : HashSet Addr, (current.elems = l.order ∧ ∀ a, a ∈ current.elems ↔ a ∈ l.peers) ∧
      s' = { s with
        knownPeers := some current
        sent := s.sent ++ (difference s.knownBefore current.elems).map (announcement display s.nodeId)
        events := s.events ++ difference s.knownBefore current.elems } := by
  unfold step at h
  unfold knownBefore
  cases l with
  | start peers order =>
      dsimp only at h
      cases hknown : s.knownPeers with
      | some known =>
          rw [hknown] at h
          cases h
      | none =>
          rw [hknown] at h
          obtain ⟨current, hcollect, rfl⟩ := Option.map_eq_some_iff.mp h
          refine ⟨current, collect_some hcollect, ?_⟩
          unfold start difference
          rw [broadcastAll_eq]
          simp
  | poll peers order =>
      dsimp only at h
      cases hknown : s.knownPeers with
      | none =>
          rw [hknown] at h
          cases h
      | some known =>
          rw [hknown] at h
          obtain ⟨current, hcollect, rfl⟩ := Option.map_eq_some_iff.mp h
          refine ⟨current, collect_some hcollect, ?_⟩
          unfold poll difference HashSet.difference
          dsimp only
          rw [broadcastAll_eq, broadcastAll_eq]
          simp

theorem start_none {s s' : MahaloCluster Addr} {peers order : List Addr}
    (h : step display s (.start peers order) = some s') : s.knownPeers = none := by
  unfold step at h
  cases hknown : s.knownPeers with
  | none => rfl
  | some known =>
      rw [hknown] at h
      cases h

theorem poll_some {s s' : MahaloCluster Addr} {peers order : List Addr}
    (h : step display s (.poll peers order) = some s') : ∃ known, s.knownPeers = some known := by
  unfold step at h
  cases hknown : s.knownPeers with
  | none =>
      rw [hknown] at h
      cases h
  | some known => exact ⟨known, rfl⟩

theorem agrees_step {last : List Addr} {s s' : MahaloCluster Addr} {l : Label Addr}
    (h : Agrees display nodeId last s) (hs : step display s l = some s') :
    Agrees display nodeId l.peers s' := by
  obtain ⟨current, ⟨-, hcurrent⟩, rfl⟩ := step_some hs
  have hset : ({a | a ∈ current.elems} : Set Addr) = {a | a ∈ l.peers} := by
    ext a
    exact hcurrent a
  have hlast : ({a | a ∈ s.knownBefore} : Set Addr) = {a | a ∈ last} := by
    ext a
    exact h.known a
  refine ⟨h.node, hcurrent, ?_, ?_⟩
  · rw [← hset]
    exact (hlast ▸ h.tells).difference s.knownBefore_nodup current.nodup
  · show s.sent ++ _ = (s.events ++ _).map _
    rw [h.sent, List.map_append, h.node]

/-- The run lemma. -/
theorem agrees_run {ls : List (Label Addr)} {s : MahaloCluster Addr}
    (h : (system display nodeId).exec (system display nodeId).init ls = some s) :
    Agrees display nodeId (lastPeers ls) s := by
  refine Lts.exec_history (R := fun ls s => Agrees display nodeId (lastPeers ls) s) ?_ ?_ h
  · have hnobody : ({a | a ∈ lastPeers []} : Set Addr) = ∅ :=
      Set.eq_empty_of_forall_notMem fun a ha => List.not_mem_nil ha
    exact ⟨rfl, fun a => Iff.rfl, hnobody ▸ tells_nil, rfl⟩
  · intro ls s l s' hagrees hs
    have hlast : lastPeers (ls ++ [l]) = l.peers := by
      unfold lastPeers
      rw [List.getLast?_concat]
      rfl
    rw [hlast]
    exact agrees_step hagrees hs

/-- What a poll says of one address. -/
theorem eventsOf_difference {known current : List Addr} (hknown : known.Nodup) (hcurrent : current.Nodup)
    (a : Addr) :
    eventsOf a (difference known current) =
      if a ∈ current then (if a ∈ known then [] else [.up a])
      else if a ∈ known then [.down a] else [] := by
  have hone : ∀ (as : List Addr) (event : Addr → Event Addr), as.Nodup → (∀ b, (event b).who = b) →
      eventsOf a (as.map event) = if a ∈ as then [event a] else [] := by
    intro as event hnodup hwho
    unfold eventsOf
    rw [List.filter_map]
    have hcomp : ((fun e : Event Addr => decide (e.who = a)) ∘ event) = fun b => decide (b = a) := by
      funext b
      rw [Function.comp_apply, hwho]
    rw [hcomp]
    by_cases ha : a ∈ as
    · rw [if_pos ha, List.filter_eq, List.count_eq_one_of_mem hnodup ha]
      rfl
    · rw [if_neg ha, List.map_eq_nil_iff, List.filter_eq_nil_iff]
      intro b hb heq
      exact ha (of_decide_eq_true heq ▸ hb)
  have happend : ∀ xs ys : List (Event Addr), eventsOf a (xs ++ ys) = eventsOf a xs ++ eventsOf a ys :=
    fun xs ys => List.filter_append ..
  unfold difference
  rw [happend, hone _ _ (hcurrent.filter _) fun _ => rfl, hone _ _ (hknown.filter _) fun _ => rfl]
  by_cases hcur : a ∈ current <;> by_cases hkn : a ∈ known <;> simp [hcur, hkn]

theorem namedOn_append (addr : String) (sent sent' : List PubSubCommand) :
    namedOn addr (sent ++ sent') = namedOn addr sent ++ namedOn addr sent' := List.filterMap_append

omit [DecidableEq Addr] in
theorem namedOn_announcement (addr : String) (nodeId : Nat) (e : Event Addr) :
    namedOn addr [announcement display nodeId e] = if display e.who = addr then [eventName e] else [] := by
  by_cases haddr : display e.who = addr <;> simp [namedOn, announcement, PubSub.broadcastArc, haddr]

/-- Where no other address has the text of one, the broadcasts with that text are its events. -/
theorem namedOn_eventsOf {a : Addr} {es : List (Event Addr)}
    (hdisplay : ∀ e ∈ es, display e.who = display a → e.who = a) :
    namedOn (display a) (es.map (announcement display nodeId)) = (eventsOf a es).map eventName := by
  induction es with
  | nil => rfl
  | cons e rest ih =>
      have hsplit : namedOn (display a) ((e :: rest).map (announcement display nodeId))
          = namedOn (display a) [announcement display nodeId e]
            ++ namedOn (display a) (rest.map (announcement display nodeId)) :=
        namedOn_append (display a) [_] _
      rw [hsplit, ih fun x hx => hdisplay x (List.mem_cons_of_mem _ hx), namedOn_announcement]
      unfold eventsOf
      by_cases ha : e.who = a
      · rw [if_pos (congrArg display ha), List.filter_cons_of_pos (by simpa using ha)]
        rfl
      · rw [if_neg fun heq => ha (hdisplay e (List.mem_cons_self ..) heq),
          List.filter_cons_of_neg (by simpa using ha)]
        rfl

/--
**The events tell the peers.**  After the start and after every poll, the addresses
whose last event is a `node_up` are those that the topology answered, and so is the
set that is remembered; the events of each address alternate, beginning with a
`node_up`; and this answer announced each address that came or went once, and no other.
-/
theorem events_tell_peers {ls : List (Label Addr)} {l : Label Addr} {s₀ s : MahaloCluster Addr}
    (h₀ : (system display nodeId).exec (system display nodeId).init ls = some s₀)
    (h : (system display nodeId).step s₀ l = some s) :
    (∀ a, (eventsOf a s.events).getLast? = some (.up a) ↔ a ∈ l.peers) ∧
      (∀ a, (eventsOf a s.events).IsChain (· ≠ ·) ∧ ∀ e ∈ (eventsOf a s.events).head?, e = .up a) ∧
      (∃ announced, s.events = s₀.events ++ announced ∧ ∀ a, eventsOf a announced =
        if a ∈ l.peers then (if a ∈ lastPeers ls then [] else [.up a])
        else if a ∈ lastPeers ls then [.down a] else []) ∧
      (∃ known, s.knownPeers = some known ∧ ∀ a, a ∈ known.elems ↔ a ∈ l.peers) ∧
      s.sent = s.events.map (announcement display nodeId) ∧
      ∀ a, (∀ e ∈ s.events, display e.who = display a → e.who = a) →
        namedOn (display a) s.sent = (eventsOf a s.events).map eventName := by
  have hagrees := agrees_step (agrees_run h₀) h
  have hbefore : ∀ a, a ∈ s₀.knownBefore ↔ a ∈ lastPeers ls := (agrees_run h₀).known
  obtain ⟨current, ⟨-, hcurrent⟩, heq⟩ := step_some h
  refine ⟨hagrees.tells.last, fun a => ⟨hagrees.tells.alternates a, hagrees.tells.first a⟩, ?_, ?_,
    hagrees.sent, ?_⟩
  · refine ⟨difference s₀.knownBefore current.elems, by rw [heq], ?_⟩
    intro a
    rw [eventsOf_difference s₀.knownBefore_nodup current.nodup]
    simp only [hbefore, hcurrent]
  · exact ⟨current, by rw [heq], hcurrent⟩
  · intro a hdisplay
    rw [hagrees.sent]
    exact namedOn_eventsOf hdisplay

theorem events_tell_peers_flap : ∃ s₀ s : MahaloCluster Nat,
    (system toString 7).exec (system toString 7).init [.start [1, 2, 1] [2, 1], .poll [2] [2]] = some s₀ ∧
      (system toString 7).step s₀ (.poll [1] [1]) = some s ∧
      (eventsOf 1 s.events).getLast? = some (.up 1) ∧ (eventsOf 2 s.events).getLast? ≠ some (.up 2) := by
  have h₀ : (system toString 7).exec (system toString 7).init
      [.start [1, 2, 1] [2, 1], .poll [2] [2]] = some _ := rfl
  obtain ⟨hlast, -⟩ := events_tell_peers h₀
    (show (system toString 7).step _ (.poll [1] [1]) = some _ from rfl)
  exact ⟨_, _, h₀, rfl, (hlast 1).mpr (by decide), fun hup => absurd ((hlast 2).mp hup) (by decide)⟩

end Mahalo.MahaloCluster
