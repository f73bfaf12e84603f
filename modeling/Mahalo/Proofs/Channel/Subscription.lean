/-
What the handlers spawn, as long as no topic is left or joined again.

`handle_join` spawns a forwarder for every join that returns `Ok`, and
`handle_leave` stops none.  So the forwarders of a connection count its joins, not
its joined topics.  The contract `steady` lets a handler count on no joined topic
being joined again, and each handler that does not leave a joined topic keeps one
forwarder for each topic of the map.
-/
import Mahalo.Proofs.Channel.Connection

namespace Mahalo.Channels

open Interactive PubSub

variable {α Ω : Type}

/-! ### What a log says -/

/-- How many forwarders were spawned on `t`. -/
def spawned (t : String) (log : List (Event α Ω)) : Nat :=
  log.countP fun
    | .spawnForwarder t' _ => t' == t
    | _ => false

/-- The broadcasts `handle_info` was called with, as the channel joined as `t`. -/
def infoCalls (t : String) (log : List (Event α Ω)) : List PubSubMessage :=
  log.filterMap fun
    | .call (.handleInfo .pubsub msg) t' => if t' = t then some msg else none
    | _ => none

/-- The event is a call of `handle_info` with a broadcast. -/
def Event.IsInfo : Event α Ω → Prop
  | .call (.handleInfo .pubsub _) _ => True
  | _ => False

/-- An event that neither spawns a forwarder nor changes the map, nor passes a broadcast on. -/
def Event.Still : Event α Ω → Prop
  | .spawnForwarder .. | .joined _ | .call (.handleInfo .pubsub _) _ => False
  | _ => True

theorem spawned_concat (t : String) (log : List (Event α Ω)) (e : Event α Ω) :
    spawned t (log ++ [e]) = spawned t log + spawned t [e] := List.countP_append

theorem infoCalls_concat (t : String) (log : List (Event α Ω)) (e : Event α Ω) :
    infoCalls t (log ++ [e]) = infoCalls t log ++ infoCalls t [e] := List.filterMap_append

theorem spawned_single_ne {t : String} {e : Event α Ω} (he : ∀ rx, e ≠ .spawnForwarder t rx) :
    spawned t [e] = 0 := by
  cases e with
  | spawnForwarder t' rx =>
      have : t' ≠ t := by rintro rfl; exact he rx rfl
      simp [spawned, this]
  | _ => rfl

theorem infoCalls_single_ne {t : String} {e : Event α Ω} (he : ¬e.IsInfo) : infoCalls t [e] = [] := by
  cases e with
  | call c t' =>
      cases c with
      | handleInfo source msg =>
          cases source with
          | timer => rfl
          | pubsub => exact absurd trivial he
      | _ => rfl
  | _ => rfl

/-! ### The contract -/

/-- A log, the topic last subscribed to, and the receiver that came back for it. -/
structure Track (α Ω : Type) where
  log : List (Event α Ω)
  asked : Option String
  got : Option (String × Nat)

def Track.next (τ : Track α Ω) (e : Event α Ω) (a : Answer Ω) : Track α Ω where
  log := τ.log ++ [e]
  asked :=
    match e with
    | .subscribe t => some t
    | _ => τ.asked
  got :=
    match e with
    | .subscribe _ => none
    | .recvReply => τ.asked.bind fun t => a.rx.map fun rx => (t, rx)
    | _ => τ.got

@[simp] theorem Track.next_log (τ : Track α Ω) (e : Event α Ω) (a : Answer Ω) :
    (τ.next e a).log = τ.log ++ [e] := rfl

/--
A forwarder is spawned on a topic that has none, with the receiver that came back
for it.  In return no join of a joined topic returns `Ok`, and the PubSub server
answers.
-/
def steady : Contract (Event α Ω) (fun _ => Answer Ω) (Track α Ω) where
  allows := fun τ e => ¬e.IsInfo ∧
    ∀ t rx, e = .spawnForwarder t rx → τ.got = some (t, rx) ∧ spawned t τ.log = 0
  answers := fun τ e a =>
    (∀ t, e = .joinReturned t true → t ∉ joinedOf τ.log) ∧ (∀ t, e = .subscribe t → a.sent = true) ∧
      (e = .recvReply → a.rx.isSome = true)
  next := Track.next

@[simp] theorem steady_next_log (τ : Track α Ω) (e : Event α Ω) (a : Answer Ω) :
    (steady.next τ e a).log = τ.log ++ [e] := rfl

/-- One forwarder for each topic of the map `j`, which is the joined one. -/
structure Even (j : Joined α Ω) (τ : Track α Ω) : Prop where
  map : joinedOf τ.log = j
  spawned : ∀ t, spawned t τ.log = if t ∈ j then 1 else 0

/-- What a handler leaves. -/
def Balanced (τ : Track α Ω) (_ : Unit) : Prop := Even (joinedOf τ.log) τ

variable {j : Joined α Ω} {τ : Track α Ω}

theorem Even.balanced (he : Even j τ) (u : Unit) : Balanced τ u := by
  have hmap := he.map
  subst hmap
  exact he

theorem Even.append (he : Even j τ) {e : Event α Ω} (hstill : e.Still) {τ' : Track α Ω}
    (hlog : τ'.log = τ.log ++ [e]) : Even j τ' where
  map := by
    rw [hlog, joinedOf_concat, he.map]
    cases e <;> first | rfl | exact hstill.elim
  spawned := by
    intro t
    have hnone : Channels.spawned t [e] = 0 := by
      refine spawned_single_ne ?_
      rintro rx rfl
      exact hstill
    rw [hlog, spawned_concat, hnone, Nat.add_zero]
    exact he.spawned t

theorem Even.still (he : Even j τ) {e : Event α Ω} (hstill : e.Still) (a : Answer Ω) :
    Even j (τ.next e a) :=
  he.append hstill rfl

theorem allows_still {e : Event α Ω} (hstill : e.Still) : steady.allows τ e := by
  refine ⟨?_, ?_⟩
  · intro hinfo
    cases e with
    | call c t =>
        cases c with
        | handleInfo source msg =>
            cases source with
            | timer => exact hinfo
            | pubsub => exact hstill
        | _ => exact hinfo
    | _ => exact hinfo
  · rintro t rx rfl
    exact hstill.elim

theorem keeps_still {e : Event α Ω} (hstill : e.Still) : Keeps steady (Even j) e :=
  fun _ he => ⟨allows_still hstill, fun a _ => he.still hstill a⟩

theorem wp_still {e : Event α Ω} (hstill : e.Still) (he : Even j τ) :
    Prog.wp steady τ (emit e) fun τ' _ => Even j τ' :=
  (keeps_still hstill).wp_emit he

theorem wp_await_even {A : Type} (c : Callback Ω A) (he : Even j τ) :
    Prog.wp steady τ (await c) fun τ' _ => Even j τ' :=
  Prog.wp_mono (fun _ _ h => h.1)
    (Keeps.wp_await (Prog.returns_true c) (fun _ => keeps_still trivial) he)

theorem wp_replyTo_even (socket : ChannelSocket α) (msgRef : Option String) (origin : Origin)
    (reply : Reply) (he : Even j τ) :
    Prog.wp steady τ (replyTo (Ω := Ω) socket msgRef origin reply) fun τ' _ => Even j τ' :=
  Keeps.wp_replyTo (fun _ _ => keeps_still trivial) socket msgRef origin reply he

theorem wp_replyTo_balanced (socket : ChannelSocket α) (msgRef : Option String) (origin : Origin)
    (reply : Reply) (he : Even j τ) :
    Prog.wp steady τ (replyTo (Ω := Ω) socket msgRef origin reply) Balanced :=
  Prog.wp_mono (fun _ u he => he.balanced u) (wp_replyTo_even socket msgRef origin reply he)

theorem sameTopics_insert {t : String} {entry : Channel α Ω × ChannelSocket α}
    (hlookup : j.lookup t = some entry) (entry' : Channel α Ω × ChannelSocket α) (t' : String) :
    t' ∈ j.insert t entry' ↔ t' ∈ j := by
  have hmem : t ∈ j := AList.lookup_isSome.mp (by rw [hlookup]; rfl)
  rw [AList.mem_insert]
  constructor
  · rintro (rfl | h)
    · exact hmem
    · exact h
  · exact Or.inr

theorem spawned_joined (t : String) (j' : Joined α Ω) : spawned t [.joined j'] = 0 := rfl

theorem allows_joined (j' : Joined α Ω) : steady.allows τ (.joined j') := by
  refine ⟨id, ?_⟩
  rintro t rx ⟨⟩

/-- The map is replaced by one with the same topics. -/
theorem Even.joined (he : Even j τ) {j' : Joined α Ω} (hsame : ∀ t, t ∈ j' ↔ t ∈ j) (a : Answer Ω) :
    Even j' (τ.next (.joined j') a) where
  map := by rw [Track.next_log, joinedOf_concat]; rfl
  spawned := by
    intro t
    rw [Track.next_log, spawned_concat, spawned_joined, Nat.add_zero,
      he.spawned t]
    simp only [hsame]

/-! ### The handlers -/

/-- Subscribing and forwarding spawns the forwarder of a topic that has none. -/
theorem wp_subscribe_forward_even {t : String} (he : Even j τ) (ht : t ∉ j) :
    Prog.wp steady τ (subscribe (Ω := Ω) t >>= forward t) fun τ' _ =>
      joinedOf τ'.log = j ∧ ∀ t', spawned t' τ'.log = if t' = t ∨ t' ∈ j then 1 else 0 := by
  rw [Prog.wp_bind]
  refine ⟨allows_still trivial, ?_⟩
  rintro a ⟨-, hsent, -⟩
  simp only [hsent t rfl, if_true]
  have he1 := he.still (e := .subscribe t) trivial a
  refine ⟨allows_still trivial, ?_⟩
  rintro a' ⟨-, -, hrx⟩
  have he2 := he1.still (e := .recvReply) trivial a'
  obtain ⟨rx, hrx⟩ := Option.isSome_iff_exists.mp (hrx rfl)
  have hgot : ((τ.next (.subscribe t) a).next .recvReply a').got = some (t, rx) := by
    simp only [Track.next, Option.bind_some, hrx, Option.map_some]
  show Prog.wp steady ((τ.next (.subscribe t) a).next .recvReply a') (forward t a'.rx) _
  rw [hrx]
  generalize (τ.next (.subscribe t) a).next .recvReply a' = τ at he2 hgot
  refine ⟨⟨id, ?_⟩, ?_⟩
  · rintro t' rx' ⟨⟩
    exact ⟨hgot, by rw [he2.spawned, if_neg ht]⟩
  · intro a'' _
    refine ⟨by rw [steady_next_log, joinedOf_concat]; exact he2.map, ?_⟩
    intro t'
    rw [steady_next_log, spawned_concat, he2.spawned]
    by_cases htt : t' = t
    · subst htt
      rw [if_neg ht, if_pos (Or.inl rfl)]
      simp [Channels.spawned]
    · rw [spawned_single_ne (by rintro rx' ⟨⟩; exact htt rfl)]
      simp [htt]

theorem wp_handleJoin_even [EmptyCollection α] (msg : PhoenixMessage) (channel : Channel α Ω)
    (he : Even j τ) : Prog.wp steady τ (handleJoin msg channel j) Balanced := by
  unfold handleJoin
  rw [Prog.wp_bind]
  refine Prog.wp_mono ?_ (wp_still trivial he)
  rintro τ - he
  rw [Prog.wp_bind]
  refine Prog.wp_mono ?_ (wp_await_even _ he)
  rintro τ ⟨result, socket⟩ he
  cases result with
  | error e =>
      simp only [Prog.wp_bind]
      refine Prog.wp_mono ?_ (wp_still trivial he)
      rintro τ - he
      exact wp_replyTo_balanced _ _ _ _ he
  | ok resp =>
      simp only [Prog.wp_bind]
      refine ⟨allows_still trivial, ?_⟩
      rintro a ⟨hfresh, -, -⟩
      have ht : msg.topic ∉ j := by
        rw [← he.map]
        exact hfresh msg.topic rfl
      show Prog.wp steady (τ.next (.joinReturned msg.topic true) a)
        (replyTo socket msg.msgRef (.joinOk msg.topic) (.ok resp)) _
      refine Prog.wp_mono ?_ (wp_replyTo_even _ _ _ _
        (he.still (e := .joinReturned msg.topic true) trivial a))
      rintro τ - he
      refine Prog.wp_mono ?_ (wp_still trivial he)
      rintro τ - he
      refine Prog.wp_mono ?_ (wp_await_even (channel.started socket) he)
      rintro τ socket' he
      have hsub := wp_subscribe_forward_even he ht
      rw [Prog.wp_bind] at hsub
      refine Prog.wp_mono ?_ hsub
      intro τ rx hwp
      refine Prog.wp_mono ?_ hwp
      rintro τ - ⟨hmap, hspawned⟩
      refine ⟨allows_joined _, ?_⟩
      intro a _
      refine Even.balanced (j := j.insert msg.topic (channel, socket')) ⟨?_, ?_⟩ ()
      · rw [steady_next_log, joinedOf_concat]
        rfl
      · intro t
        rw [steady_next_log, spawned_concat, spawned_joined, Nat.add_zero,
          hspawned]
        simp only [AList.mem_insert]

theorem wp_dispatchEvent_even (msg : PhoenixMessage) (he : Even j τ) :
    Prog.wp steady τ (dispatchEvent (Ω := Ω) msg j) Balanced := by
  unfold dispatchEvent
  cases hlookup : j.lookup msg.topic with
  | none => exact he.balanced ()
  | some entry =>
      obtain ⟨channel, socket⟩ := entry
      simp only [Prog.wp_bind]
      refine Prog.wp_mono ?_ (wp_still trivial he)
      rintro τ - he
      refine Prog.wp_mono ?_ (wp_await_even _ he)
      rintro τ ⟨result, socket'⟩ he
      refine ⟨allows_joined _, ?_⟩
      intro a _
      have he' := he.joined (sameTopics_insert hlookup (channel, socket')) a
      rcases result with e | _ | reply
      · show Prog.wp steady _ (replyTo socket' msg.msgRef .dispatch _) Balanced
        exact wp_replyTo_balanced _ _ _ _ he'
      · exact he'.balanced ()
      · show Prog.wp steady _ (replyTo socket' msg.msgRef .dispatch reply) Balanced
        exact wp_replyTo_balanced _ _ _ _ he'

/-- A `phx_leave` of a topic that is not joined does nothing. -/
theorem wp_handleLeave_even {msg : PhoenixMessage} (he : Even j τ) (hleft : msg.topic ∉ j) :
    Prog.wp steady τ (handleLeave (Ω := Ω) msg j) fun τ' _ => Even j τ' := by
  unfold handleLeave
  rw [AList.lookup_eq_none.mpr hleft]
  exact he

/-- The request is a `phx_leave` of a joined topic. -/
def LeavesJoined (serde : SerdeJson) (request : String) (j : Joined α Ω) : Prop :=
  ∃ msg, serde.phoenixFromStr request = some msg ∧ msg.event = phxLeave ∧ msg.topic ∈ j

theorem wp_handleCast_even [EmptyCollection α] {serde : SerdeJson} (router : ChannelRouter α Ω)
    {request : String} (he : Even j τ) (hstays : ¬LeavesJoined serde request j) :
    Prog.wp steady τ (handleCast serde router request j) Balanced := by
  unfold handleCast
  split
  · exact he.balanced ()
  · rename_i msg hmsg
    by_cases hjoin : msg.event = phxJoin
    · rw [if_pos hjoin]
      cases hfind : router.find msg.topic with
      | none => exact he.balanced ()
      | some channel => exact wp_handleJoin_even msg channel he
    · rw [if_neg hjoin]
      by_cases hleave : msg.event = phxLeave
      · rw [if_pos hleave]
        have hleft : msg.topic ∉ j := fun hmem => hstays ⟨msg, hmsg, hleave, hmem⟩
        rw [Prog.wp_bind]
        refine Prog.wp_mono ?_ (wp_handleLeave_even he hleft)
        rintro τ - he
        exact Prog.wp_mono (fun _ u he => he.balanced u) (wp_still trivial he)
      · rw [if_neg hleave]
        by_cases hbeat : msg.event = heartbeat
        · rw [if_pos hbeat]
          exact Prog.wp_mono (fun _ u he => he.balanced u) (wp_still trivial he)
        · rw [if_neg hbeat]
          exact wp_dispatchEvent_even msg he

/-- The rest of `callInfo`, behind its call. -/
theorem wp_callInfo_rest {t : String} {channel : Channel α Ω} {socket : ChannelSocket α}
    (msg : PubSubMessage) (hlookup : j.lookup t = some (channel, socket)) (he : Even j τ) :
    Prog.wp steady τ (do
      let (_, socket) ← await (channel.handleInfo msg socket)
      emit (.joined (j.insert t (channel, socket))) : Handler α Ω Unit) Balanced := by
  rw [Prog.wp_bind]
  refine Prog.wp_mono ?_ (wp_await_even _ he)
  rintro τ ⟨-, socket'⟩ he
  refine ⟨allows_joined _, ?_⟩
  intro a _
  exact (he.joined (sameTopics_insert hlookup (channel, socket')) a).balanced ()

theorem wp_callInfo_timer (msg : PubSubMessage) (he : Even j τ) :
    Prog.wp steady τ (callInfo (Ω := Ω) .timer msg j) Balanced := by
  unfold callInfo
  cases hlookup : j.lookup msg.topic with
  | none => exact he.balanced ()
  | some entry =>
      obtain ⟨channel, socket⟩ := entry
      rw [Prog.wp_bind]
      refine Prog.wp_mono ?_ (wp_still trivial he)
      rintro τ - he
      exact wp_callInfo_rest msg hlookup he

/-- What `handleInfo` may do next: keep the contract, or first pass on the broadcast at hand. -/
inductive Handling (τ : Track α Ω) : Handler α Ω Unit → Prop
  | keeps {p : Handler α Ω Unit} (hwp : Prog.wp steady τ p Balanced) : Handling τ p
  | calls {msg : PubSubMessage} {t : String} {k : Answer Ω → Handler α Ω Unit}
      (hwp : ∀ a, Prog.wp steady (τ.next (.call (.handleInfo .pubsub msg) t) a) (k a) Balanced) :
      Handling τ (.emit (.call (.handleInfo .pubsub msg) t) k)

end Mahalo.Channels
