/-
What a synthetic event does.

`send_event` is to be like a broadcast, but casts its message as a client's, and a client's
message is for `handle_in`, or joins, leaves or is answered.  So it is never like a broadcast on
a joined topic; on another it does nothing, as a broadcast does, unless its event joins that
topic or asks for a heartbeat.
-/
import Mahalo.Proofs.Channel.Lifecycle
import Mahalo.Proofs.Channel.Timers

namespace Mahalo.Channels

open Interactive

variable {α Ω : Type} [EmptyCollection α] {serde : SerdeJson} {router : ChannelRouter α Ω}
  {topic event : String} {payload : Value} {joined : Joined α Ω}

/-- `serde_json` writes the message, and reads it back but for its payload. -/
def SerdeJson.Casts (serde : SerdeJson) (msg : PhoenixMessage) : Prop :=
  ∃ request payload, serde.phoenixToString msg = some request ∧
    serde.phoenixFromStr request = some { msg with payload }

/-- The event that marks the end of a `phx_leave`, which nothing outside sees. -/
def Event.IsLeft (e : Event α Ω) : Prop := ∃ t, e = .left t

/--
A synthetic event is put in the mailbox of the process, and leads it where a broadcast of the same
message leads it, and to do nothing where the topic is not joined.
-/
def LikeBroadcast (serde : SerdeJson) (router : ChannelRouter α Ω) (topic event : String) (payload : Value)
    (c : Conn α Ω) : Prop :=
  ∃ request info c₁ c₂,
    (∀ s : Sys α Ω, s.effect serde (ChannelAddr.sendEvent topic event payload)
      = { s with casts := s.casts ++ [request] }) ∧
    serde.pubsubToString { topic, event, payload } = some info ∧
    c.step serde router (.cast request) = some c₁ ∧ c.step serde router (.info info) = some c₂ ∧
    (topic ∈ c.joined → c₁ = c₂) ∧
    (topic ∉ c.joined → ∀ p, c₁.todo = some p → p.Always Event.IsLeft)

/-- The events that do nothing where their topic is not joined. -/
def Inert (router : ChannelRouter α Ω) (topic event : String) : Prop :=
  event ≠ heartbeat ∧ (event = phxJoin → router.find topic = none)

/-- Taken as a client's, a message on a joined topic is not handed to `handle_info`. -/
theorem handleCast_ne_callInfo {request : String} {msg : PhoenixMessage}
    (hread : serde.phoenixFromStr request = some msg) (hmem : msg.topic ∈ joined) {info : PubSubMessage}
    (htopic : info.topic = msg.topic) :
    handleCast serde router request joined ≠ callInfo .pubsub info joined := by
  obtain ⟨entry, hlookup⟩ := Option.isSome_iff_exists.mp (AList.lookup_isSome.mpr hmem)
  unfold handleCast callInfo
  rw [hread, htopic, hlookup]
  simp only
  intro h
  split at h
  · split at h
    · injection h with hcall
      injection hcall with hcall
      cases hcall
    · cases h
  · split at h
    · unfold handleLeave at h
      rw [hlookup] at h
      injection h with hjoined
      cases hjoined
    · split at h
      · injection h with hsend
        cases hsend
      · unfold dispatchEvent at h
        rw [hlookup] at h
        injection h with hcall
        injection hcall with hcall
        cases hcall

/-- On a topic that is not joined, it does nothing exactly if its event is inert. -/
theorem handleCast_always_left {request : String} {msg : PhoenixMessage}
    (hread : serde.phoenixFromStr request = some msg) (hnot : msg.topic ∉ joined) :
    (handleCast serde router request joined).Always Event.IsLeft ↔ Inert router msg.topic msg.event := by
  have hlookup : joined.lookup msg.topic = none := AList.lookup_eq_none.mpr hnot
  unfold handleCast Inert
  rw [hread]
  simp only
  split
  · rename_i hjoin
    have hbeat : msg.event ≠ heartbeat := by
      rw [hjoin]
      decide
    cases hfind : router.find msg.topic with
    | none => exact iff_of_true trivial ⟨hbeat, fun _ => rfl⟩
    | some channel =>
        refine iff_of_false ?_ fun hinert => by cases hinert.2 hjoin
        rintro ⟨⟨t, ht⟩, -⟩
        cases ht
  · rename_i hjoin
    split
    · rename_i hleave
      have hbeat : msg.event ≠ heartbeat := by
        rw [hleave]
        decide
      unfold handleLeave
      rw [hlookup]
      exact iff_of_true ⟨⟨msg.topic, rfl⟩, fun _ => trivial⟩ ⟨hbeat, fun heq => absurd heq hjoin⟩
    · split
      · rename_i hbeat
        refine iff_of_false ?_ fun hinert => hinert.1 hbeat
        rintro ⟨⟨t, ht⟩, -⟩
        cases ht
      · rename_i hbeat
        unfold dispatchEvent
        rw [hlookup]
        exact iff_of_true trivial ⟨hbeat, fun heq => absurd heq hjoin⟩

omit [EmptyCollection α] in
/-- The request that a synthetic event puts in the mailbox. -/
theorem sendEvent_request (hcasts : serde.Casts { topic, event, payload, msgRef := none }) :
    ∃ request payload', (∀ s : Sys α Ω, s.effect serde (ChannelAddr.sendEvent topic event payload)
      = { s with casts := s.casts ++ [request] }) ∧
    serde.phoenixFromStr request = some { topic, event, payload := payload', msgRef := none } := by
  obtain ⟨request, payload', hwrite, hread⟩ := hcasts
  refine ⟨request, payload', ?_, hread⟩
  intro s
  simp only [ChannelAddr.sendEvent, Sys.effect, hwrite, Option.toList_some]

/-- What the two steps of a connection that waits lead to. -/
theorem likeBroadcast_iff {c : Conn α Ω} (hwaiting : c.waiting = true)
    (hrelays : serde.Relays { topic, event, payload }) {request : String}
    (hsend : ∀ s : Sys α Ω, s.effect serde (ChannelAddr.sendEvent topic event payload)
      = { s with casts := s.casts ++ [request] }) :
    LikeBroadcast serde router topic event payload c ↔
      (topic ∈ c.joined → handleCast serde router request c.joined
        = callInfo .pubsub (serde.carry { topic, event, payload }) c.joined) ∧
      (topic ∉ c.joined → (handleCast serde router request c.joined).Always Event.IsLeft) := by
  obtain ⟨info, hinfo, -⟩ := id hrelays
  have htaken : handleInfo serde info c.joined = _ := handleInfo_broadcast hrelays hinfo
  have hcast : c.step serde router (.cast request)
      = some { c with todo := some (handleCast serde router request c.joined) } := by
    simp only [Conn.step, hwaiting, if_true]
  have htold : c.step serde router (.info info)
      = some { c with todo := some (callInfo .pubsub (serde.carry { topic, event, payload }) c.joined) } := by
    simp only [Conn.step, hwaiting, if_true, htaken]
  constructor
  · rintro ⟨request', info', c₁, c₂, hsend', hinfo', hc₁, hc₂, hlike, hnothing⟩
    have hcasts := congrArg Sys.casts ((hsend Sys.init).symm.trans (hsend' Sys.init))
    obtain rfl : request = request' := List.singleton_injective hcasts
    obtain rfl := Option.some.inj (hinfo.symm.trans hinfo')
    obtain rfl := Option.some.inj (hcast.symm.trans hc₁)
    obtain rfl := Option.some.inj (htold.symm.trans hc₂)
    exact ⟨fun hmem => Option.some.inj (congrArg Conn.todo (hlike hmem)), fun hnot => hnothing hnot _ rfl⟩
  · rintro ⟨hlike, hnothing⟩
    refine ⟨request, info, _, _, hsend, hinfo, hcast, htold, ?_, ?_⟩
    · intro hmem
      rw [hlike hmem]
    · rintro hnot p hp
      obtain rfl := Option.some.inj hp
      exact hnothing hnot

/--
**When a synthetic event is like a broadcast.**  In whatever state the process takes it, exactly if
its topic is not joined, and its event neither joins it nor asks for a heartbeat.
-/
theorem sendEvent_like_broadcast_iff {c : Conn α Ω} (hwaiting : c.waiting = true)
    (hcasts : serde.Casts { topic, event, payload, msgRef := none })
    (hrelays : serde.Relays { topic, event, payload }) :
    LikeBroadcast serde router topic event payload c ↔ topic ∉ c.joined ∧ Inert router topic event := by
  obtain ⟨request, payload', hsend, hread⟩ := sendEvent_request (α := α) (Ω := Ω) hcasts
  rw [likeBroadcast_iff hwaiting hrelays hsend]
  by_cases hmem : topic ∈ c.joined
  · obtain ⟨_, _, _, _, htopic, _⟩ := hrelays
    have hne : handleCast serde router request c.joined ≠ _ := handleCast_ne_callInfo hread hmem htopic
    exact iff_of_false (fun h => hne (h.1 hmem)) fun h => h.1 hmem
  · rw [handleCast_always_left hread hmem]
    exact ⟨fun h => ⟨hmem, h.2 hmem⟩, fun h => ⟨fun hin => absurd hin hmem, fun _ => h.2⟩⟩

/-! ### A room that is left -/

/-- The texts of an event of the room without a payload, as a client's and as a broadcast. -/
def clientText (event : String) : String :=
  "\x7b\"topic\":\"room:1\",\"event\":\"" ++ event ++ "\",\"payload\":null,\"ref\":null\x7d"
def broadcastText (event : String) : String :=
  "\x7b\"topic\":\"room:1\",\"event\":\"" ++ event ++ "\",\"payload\":null\x7d"

def eventSerde : SerdeJson where
  phoenixToString := fun msg =>
    match msg with
    | { topic := "room:1", event, payload := .null, msgRef := none } => some (clientText event)
    | _ => roomSerde.phoenixToString msg
  phoenixFromStr := fun text =>
    match ["news", phxLeave].find? fun event => clientText event == text with
    | some event => some { topic := "room:1", event, payload := .null, msgRef := none }
    | none => roomSerde.phoenixFromStr text
  pubsubToString := fun msg =>
    match msg with
    | { topic := "room:1", event, payload := .null } => some (broadcastText event)
    | _ => none
  pubsubFromStr := fun text =>
    (["news", phxLeave].find? fun event => broadcastText event == text).map fun event =>
      { topic := "room:1", event, payload := .null }

theorem sendEvent_like_broadcast_iff_news :
    LikeBroadcast eventSerde echoRouter "room:1" "news" .null (Conn.init : Conn (List Nat) Unit) := by
  refine (sendEvent_like_broadcast_iff rfl ⟨clientText "news", .null, rfl, rfl⟩
    ⟨broadcastText "news", rfl, rfl, rfl, rfl, rfl⟩).mpr ⟨?_, by decide, nofun⟩
  exact List.not_mem_nil

/-- A synthetic `phx_leave` takes the connection out of a room. -/
theorem sendEvent_leaves :
    ∃ c c' : Conn (List Nat) Unit, (connSystem eventSerde echoRouter).exec Conn.init joinOnce = some c ∧
      c.joined.keys = ["room:1"] ∧
      (connSystem eventSerde echoRouter).exec c [.cast (clientText phxLeave), runOne, runOne, runOne, .finish]
        = some c' ∧ c'.joined.keys = [] ∧
      ¬LikeBroadcast eventSerde echoRouter "room:1" phxLeave .null c := by
  obtain ⟨c, c', hrun, hkeys, hwaiting, hrun', hleft⟩ :
      ∃ c c' : Conn (List Nat) Unit, (connSystem eventSerde echoRouter).exec Conn.init joinOnce = some c ∧
        c.joined.keys = ["room:1"] ∧ c.waiting = true ∧
        (connSystem eventSerde echoRouter).exec c [.cast (clientText phxLeave), runOne, runOne, runOne, .finish]
          = some c' ∧ c'.joined.keys = [] := ⟨_, _, rfl, rfl, rfl, rfl, rfl⟩
  refine ⟨c, c', hrun, hkeys, hrun', hleft, ?_⟩
  have hmem : "room:1" ∈ c.joined := by
    show _ ∈ c.joined.keys
    rw [hkeys]
    exact List.mem_cons_self ..
  have hrelays : eventSerde.Relays { topic := "room:1", event := phxLeave, payload := .null } :=
    ⟨broadcastText phxLeave, rfl, rfl, rfl, rfl, rfl⟩
  have hsend : ∀ s : Sys (List Nat) Unit,
      s.effect eventSerde (ChannelAddr.sendEvent "room:1" phxLeave .null)
        = { s with casts := s.casts ++ [clientText phxLeave] } := fun _ => rfl
  have hread : eventSerde.phoenixFromStr (clientText phxLeave)
      = some { topic := "room:1", event := phxLeave, payload := .null, msgRef := none } := rfl
  intro hlike
  rw [likeBroadcast_iff hwaiting hrelays hsend] at hlike
  exact handleCast_ne_callInfo hread hmem rfl (hlike.1 hmem)

end Mahalo.Channels
