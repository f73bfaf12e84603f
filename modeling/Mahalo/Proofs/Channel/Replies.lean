/-
Replies and the refs they carry.

A request is handled by a program, and what it sends for one list of answers is
read off the program: `Runs` says which events it emits.  Each handler ends a
client's message with at most one `phx_reply`; a join of a topic that is routed
nowhere and a leave of one that is not joined end without any.

Over a whole run the refs of the replies are some of those the requests carried,
in their order and none of them twice: `once` lets a handler use its message's
ref a single time.
-/
import Mahalo.Proofs.Channel.Handlers
import Mahalo.Proofs.Channel.Socket

namespace Mahalo.Channels

open Interactive

variable {α Ω : Type}

/-- The topic and the ref of a `phx_reply` that carries one. -/
def PhoenixMessage.refReply (msg : PhoenixMessage) : Option (String × String) :=
  if msg.event = phxReply then msg.msgRef.map fun r => (msg.topic, r) else none

def Effect.refReply : Effect → Option (String × String)
  | .send msg => msg.refReply
  | _ => none

def Event.refReply : Event α Ω → Option (String × String)
  | .send _ msg => msg.refReply
  | .effect e => e.refReply
  | _ => none

/-- The replies of a log that carry a ref. -/
def refReplies (es : List (Event α Ω)) : List (String × String) := es.filterMap Event.refReply

/-- No callback calls `socket.reply`. -/
structure Channel.NeverReplies (channel : Channel α Ω) : Prop where
  join : ∀ topic payload socket,
    (channel.join topic payload socket).Always fun e => e.refReply = none
  handleIn : ∀ event payload socket,
    (channel.handleIn event payload socket).Always fun e => e.refReply = none
  handleInfo : ∀ msg socket, (channel.handleInfo msg socket).Always fun e => e.refReply = none
  started : ∀ socket, (channel.started socket).Always fun e => e.refReply = none
  stopping : ∀ socket, (channel.stopping socket).Always fun e => e.refReply = none
  terminate : ∀ reason socket, (channel.terminate reason socket).Always fun e => e.refReply = none

/-- No callback leaves a socket with another topic, not even the last. -/
structure Channel.KeepsTopicToEnd (channel : Channel α Ω) : Prop extends channel.KeepsTopic where
  terminate : ∀ reason socket, (channel.terminate reason socket).Returns fun s => s.topic = socket.topic

/-! ### What the parts of a handler send -/

section

variable {es : List (Event α Ω)} {xs : List (Answer Ω)} {A : Type}

theorem refReplies_append (es es' : List (Event α Ω)) :
    refReplies (es ++ es') = refReplies es ++ refReplies es' := List.filterMap_append

theorem refReplies_eq_nil (h : ∀ e ∈ es, e.refReply = none) : refReplies es = [] :=
  List.filterMap_eq_nil_iff.mpr h

@[simp] theorem refReply_replyMessage (socket : ChannelSocket α) (r : String) (reply : Reply) :
    (socket.replyMessage r reply).refReply = some (socket.topic, r) := by
  simp [PhoenixMessage.refReply, ChannelSocket.replyMessage]

theorem runs_emit {e : Event α Ω} {u : Unit} (h : Prog.Runs (emit e) xs es u) : es = [e] := by
  cases h with
  | emit h =>
      obtain ⟨-, rfl, -⟩ := Prog.runs_ret h
      rfl

theorem runs_emit_then {e : Event α Ω} {f : Unit → Handler α Ω A} {a : A}
    (h : Prog.Runs (emit e >>= f) xs es a) :
    ∃ x rest es', xs = x :: rest ∧ es = e :: es' ∧ Prog.Runs (f ()) rest es' a := by
  cases h with
  | emit h => exact ⟨_, _, _, rfl, rfl, h⟩

/-- An event that is no reply, in front of the rest of a handler. -/
theorem refReplies_emit_then {e : Event α Ω} (he : e.refReply = none) {f : Unit → Handler α Ω A} {a : A}
    (h : Prog.Runs (emit e >>= f) xs es a) :
    ∃ x rest es', xs = x :: rest ∧ refReplies es = refReplies es' ∧ Prog.Runs (f ()) rest es' a := by
  obtain ⟨x, rest, es', rfl, rfl, hrest⟩ := runs_emit_then h
  exact ⟨x, rest, es', rfl, List.filterMap_cons_none he, hrest⟩

/-- A callback that never replies, in front of the rest of a handler. -/
theorem refReplies_await {c : Callback Ω A} (hc : c.Always fun e => e.refReply = none) {B : Type}
    {f : A → Handler α Ω B} {b : B} (h : Prog.Runs (await c >>= f) xs es b) :
    ∃ xs₁ xs₂ effects es' a, xs = xs₁ ++ xs₂ ∧ refReplies es = refReplies es' ∧
      Prog.Runs c (xs₁.map Answer.effect) effects a ∧ Prog.Runs (f a) xs₂ es' b := by
  obtain ⟨xs₁, xs₂, es₁, es₂, a, rfl, rfl, hawait, hf⟩ := Prog.runs_bind h
  obtain ⟨effects, rfl, hcallback⟩ := Prog.runs_lift hawait
  refine ⟨xs₁, xs₂, effects, es₂, a, rfl, ?_, hcallback, hf⟩
  have hnone : refReplies (effects.map (Event.effect : Effect → Event α Ω)) = [] := by
    refine refReplies_eq_nil fun e he => ?_
    obtain ⟨effect, heffect, rfl⟩ := List.mem_map.mp he
    exact Prog.runs_always hc hcallback effect heffect
  rw [refReplies_append, hnone, List.nil_append]

theorem refReplies_replyTo {socket : ChannelSocket α} {msgRef : Option String} {origin : Origin}
    {reply : Reply} {u : Unit} (h : Prog.Runs (replyTo socket msgRef origin reply) xs es u) :
    refReplies es = (msgRef.map fun r => (socket.topic, r)).toList := by
  cases msgRef with
  | none =>
      obtain ⟨-, rfl, -⟩ := Prog.runs_ret h
      rfl
  | some r =>
      obtain rfl := runs_emit h
      simp [refReplies, Event.refReply]

theorem refReplies_subscribe {topic : String} {rx : Option Nat}
    (h : Prog.Runs (subscribe topic) xs es rx) : refReplies es = [] := by
  cases h with
  | @emit _ _ a xs es _ h =>
      obtain ⟨ω, sent, got⟩ := a
      cases sent with
      | false =>
          obtain ⟨-, rfl, -⟩ := Prog.runs_ret h
          rfl
      | true =>
          cases h with
          | emit h =>
              obtain ⟨-, rfl, -⟩ := Prog.runs_ret h
              rfl

theorem refReplies_forward {topic : String} {rx : Option Nat} {u : Unit}
    (h : Prog.Runs (forward topic rx) xs es u) : refReplies es = [] := by
  cases rx with
  | none =>
      obtain ⟨-, rfl, -⟩ := Prog.runs_ret h
      rfl
  | some rx =>
      obtain rfl := runs_emit h
      rfl

/-! ### What a handler sends -/

variable {j : Joined α Ω} {msg : PhoenixMessage} {router : ChannelRouter α Ω}

/-- The reply to a message, if it carries a ref. -/
def PhoenixMessage.answer (msg : PhoenixMessage) (topic : String) : List (String × String) :=
  (msg.msgRef.map fun r => (topic, r)).toList

theorem refReplies_handleJoin [EmptyCollection α] {channel : Channel α Ω}
    (hkeeps : channel.KeepsTopicToEnd) (hsilent : channel.NeverReplies)
    (h : Prog.Runs (handleJoin msg channel j) xs es ()) : refReplies es = msg.answer msg.topic := by
  unfold handleJoin at h
  obtain ⟨_, _, _, -, heq, h⟩ := refReplies_emit_then rfl h
  obtain ⟨_, _, _, _, ⟨result, socket⟩, -, heq', hjoin, h⟩ := refReplies_await (hsilent.join _ _ _) h
  have htopic : socket.topic = msg.topic := Prog.runs_returns (hkeeps.join _ _ _) hjoin
  rw [heq, heq']
  cases result with
  | error e =>
      obtain ⟨_, _, _, -, heq, h⟩ := refReplies_emit_then rfl h
      rw [heq, refReplies_replyTo h, htopic]
      rfl
  | ok resp =>
      obtain ⟨_, _, _, -, heq, h⟩ := refReplies_emit_then rfl h
      obtain ⟨_, _, es₁, es₂, _, -, hes, hreply, h⟩ := Prog.runs_bind h
      have hsent := refReplies_replyTo hreply
      obtain ⟨_, _, _, -, heq₁, h⟩ := refReplies_emit_then rfl h
      obtain ⟨_, _, _, _, _, -, heq₂, -, h⟩ := refReplies_await (hsilent.started _) h
      obtain ⟨_, _, es₃, es₄, _, -, hes', hsub, h⟩ := Prog.runs_bind h
      obtain ⟨_, _, es₅, es₆, _, -, hes'', hforward, h⟩ := Prog.runs_bind h
      obtain rfl := runs_emit h
      have hlast : refReplies es₂ = [] := by
        rw [heq₁, heq₂, hes', refReplies_append, refReplies_subscribe hsub, hes'', refReplies_append,
          refReplies_forward hforward]
        rfl
      rw [heq, hes, refReplies_append, hsent, hlast, List.append_nil, htopic]
      rfl

theorem refReplies_handleLeave (hj : EntriesRouted router j)
    (hkeeps : ∀ p ∈ router.routes, p.2.KeepsTopicToEnd) (hsilent : ∀ p ∈ router.routes, p.2.NeverReplies)
    (h : Prog.Runs (handleLeave msg j) xs es ()) :
    refReplies es = if msg.topic ∈ j then msg.answer msg.topic else [] := by
  unfold handleLeave at h
  cases hlookup : j.lookup msg.topic with
  | none =>
      rw [hlookup] at h
      obtain ⟨-, rfl, -⟩ := Prog.runs_ret h
      rw [if_neg (AList.lookup_eq_none.mp hlookup)]
      rfl
  | some entry =>
      obtain ⟨channel, socket⟩ := entry
      rw [hlookup] at h
      obtain ⟨htopic, hfind⟩ := hj _ _ _ hlookup
      obtain ⟨pattern, hmem⟩ := find_mem hfind
      obtain ⟨_, _, _, -, heq, h⟩ := refReplies_emit_then rfl h
      obtain ⟨_, _, _, -, heq', h⟩ := refReplies_emit_then rfl h
      obtain ⟨_, _, _, _, socket', -, heq'', hterminate, h⟩ :=
        refReplies_await ((hsilent _ hmem).terminate _ _) h
      have htopic' : socket'.topic = socket.topic :=
        Prog.runs_returns ((hkeeps _ hmem).terminate _ _) hterminate
      rw [if_pos (AList.lookup_isSome.mp (by rw [hlookup]; rfl)), heq, heq', heq'',
        refReplies_replyTo h, htopic', htopic]
      rfl

theorem refReplies_handleHeartbeat (h : Prog.Runs (handleHeartbeat msg : Handler α Ω Unit) xs es ()) :
    refReplies es = msg.answer "phoenix" := by
  obtain rfl := runs_emit h
  cases hr : msg.msgRef <;>
    simp [refReplies, Event.refReply, PhoenixMessage.refReply, PhoenixMessage.answer, hr]

/-- What `handle_in` returns asks for a reply. -/
def wantsReply : Except ChannelError (Option Reply) → Bool
  | .ok none => false
  | _ => true

/-- `handle_in` was called on the joined socket, was given these answers, and returned this. -/
def HandledIn (j : Joined α Ω) (msg : PhoenixMessage) (xs : List (Answer Ω))
    (outcome : Except ChannelError (Option Reply)) : Prop :=
  ∃ channel socket first given rest effects socket', j.lookup msg.topic = some (channel, socket) ∧
    xs = first :: given ++ rest ∧
    Prog.Runs (channel.handleIn msg.event msg.payload socket) (given.map Answer.effect) effects
      (outcome, socket')

theorem refReplies_dispatchEvent (hj : EntriesRouted router j)
    (hkeeps : ∀ p ∈ router.routes, p.2.KeepsTopicToEnd) (hsilent : ∀ p ∈ router.routes, p.2.NeverReplies)
    (h : Prog.Runs (dispatchEvent msg j) xs es ()) :
    (msg.topic ∉ j ∧ refReplies es = []) ∨
      ∃ outcome, HandledIn j msg xs outcome ∧
        refReplies es = if wantsReply outcome then msg.answer msg.topic else [] := by
  unfold dispatchEvent at h
  cases hlookup : j.lookup msg.topic with
  | none =>
      rw [hlookup] at h
      obtain ⟨-, rfl, -⟩ := Prog.runs_ret h
      exact Or.inl ⟨AList.lookup_eq_none.mp hlookup, rfl⟩
  | some entry =>
      obtain ⟨channel, socket⟩ := entry
      rw [hlookup] at h
      obtain ⟨htopic, hfind⟩ := hj _ _ _ hlookup
      obtain ⟨pattern, hmem⟩ := find_mem hfind
      obtain ⟨first, rest, _, rfl, heq, h⟩ := refReplies_emit_then rfl h
      obtain ⟨given, rest, effects, _, ⟨outcome, socket'⟩, rfl, heq', hhandle, h⟩ :=
        refReplies_await ((hsilent _ hmem).handleIn _ _ _) h
      have htopic' : socket'.topic = socket.topic :=
        Prog.runs_returns ((hkeeps _ hmem).handleIn _ _ _) hhandle
      obtain ⟨_, _, _, -, heq'', h⟩ := refReplies_emit_then rfl h
      refine Or.inr ⟨outcome, ⟨channel, socket, first, given, rest, effects, socket', hlookup, rfl,
        hhandle⟩, ?_⟩
      rw [heq, heq', heq'']
      rcases outcome with e | _ | reply
      · rw [refReplies_replyTo h, htopic', htopic]
        rfl
      · obtain ⟨-, rfl, -⟩ := Prog.runs_ret h
        rfl
      · rw [refReplies_replyTo h, htopic', htopic]
        rfl

/-! ### One message -/

/-- What a client is owed for a message with the ref `r`, once it has been handled. -/
def Answered (j : Joined α Ω) (msg : PhoenixMessage) (r : String) (xs : List (Answer Ω))
    (es : List (Event α Ω)) : Prop :=
  if msg.event = phxJoin ∨ msg.event = phxLeave then refReplies es = [(msg.topic, r)]
  else if msg.event = heartbeat then refReplies es = [("phoenix", r)]
  else (msg.topic ∉ j ∧ refReplies es = []) ∨
    ∃ outcome, HandledIn j msg xs outcome ∧
      refReplies es = if wantsReply outcome then [(msg.topic, r)] else []

/-- A topic that is joined has a channel, and one that is left is joined. -/
def Known (router : ChannelRouter α Ω) (j : Joined α Ω) (msg : PhoenixMessage) : Prop :=
  (msg.event = phxJoin → (router.find msg.topic).isSome) ∧ (msg.event = phxLeave → msg.topic ∈ j)

theorem PhoenixMessage.answer_eq {r : String} (hr : msg.msgRef = some r) (topic : String) :
    msg.answer topic = [(topic, r)] := by
  unfold PhoenixMessage.answer
  rw [hr]
  rfl

theorem answered_iff_known [EmptyCollection α] {serde : SerdeJson} (hj : EntriesRouted router j)
    (hkeeps : ∀ p ∈ router.routes, p.2.KeepsTopicToEnd) (hsilent : ∀ p ∈ router.routes, p.2.NeverReplies)
    {request r : String} (hmsg : serde.phoenixFromStr request = some msg) (hr : msg.msgRef = some r)
    (h : Prog.Runs (handleCast serde router request j) xs es ()) :
    Answered j msg r xs es ↔ Known router j msg := by
  unfold handleCast at h
  rw [hmsg] at h
  unfold Answered Known
  by_cases hjoin : msg.event = phxJoin
  · have hleave : msg.event ≠ phxLeave := by rw [hjoin]; decide
    simp only [if_pos hjoin] at h
    rw [if_pos (Or.inl hjoin)]
    cases hfind : router.find msg.topic with
    | none =>
        rw [hfind] at h
        obtain ⟨-, rfl, -⟩ := Prog.runs_ret h
        constructor
        · intro hnil
          cases hnil
        · intro hknown
          cases hknown.1 hjoin
    | some channel =>
        rw [hfind] at h
        obtain ⟨pattern, hmem⟩ := find_mem hfind
        rw [refReplies_handleJoin (hkeeps _ hmem) (hsilent _ hmem) h, PhoenixMessage.answer_eq hr]
        exact ⟨fun _ => ⟨fun _ => rfl, fun hl => absurd hl hleave⟩, fun _ => rfl⟩
  · simp only [if_neg hjoin] at h
    by_cases hleave : msg.event = phxLeave
    · simp only [if_pos hleave] at h
      rw [if_pos (Or.inr hleave)]
      obtain ⟨_, _, es₁, es₂, _, -, rfl, hrun, hleft⟩ := Prog.runs_bind h
      obtain rfl := runs_emit hleft
      have hsent := refReplies_handleLeave hj hkeeps hsilent hrun
      rw [refReplies_append, hsent, PhoenixMessage.answer_eq hr]
      by_cases hmem : msg.topic ∈ j
      · rw [if_pos hmem]
        exact ⟨fun _ => ⟨fun h => absurd h hjoin, fun _ => hmem⟩, fun _ => rfl⟩
      · rw [if_neg hmem]
        constructor
        · intro hnil
          cases hnil
        · intro hknown
          exact absurd (hknown.2 hleave) hmem
    · simp only [if_neg hleave] at h
      have hknown : (msg.event = phxJoin → (router.find msg.topic).isSome) ∧
          (msg.event = phxLeave → msg.topic ∈ j) :=
        ⟨fun h => absurd h hjoin, fun h => absurd h hleave⟩
      rw [if_neg (not_or.mpr ⟨hjoin, hleave⟩)]
      refine iff_of_true ?_ hknown
      by_cases hbeat : msg.event = heartbeat
      · simp only [if_pos hbeat] at h
        rw [if_pos hbeat, refReplies_handleHeartbeat h, PhoenixMessage.answer_eq hr]
      · simp only [if_neg hbeat] at h
        rw [if_neg hbeat]
        have hsent := refReplies_dispatchEvent hj hkeeps hsilent h
        rw [PhoenixMessage.answer_eq hr] at hsent
        exact hsent

/-- A request that is handled to its end, one event after the other. -/
theorem exec_answers [EmptyCollection α] {serde : SerdeJson} (answers : List (Answer Ω)) :
    ∀ {c c' : Conn α Ω} {p : Handler α Ω Unit}, c.todo = some p →
      (connSystem serde router).exec c (answers.map .run ++ [.finish]) = some c' →
      ∃ es, Prog.Runs p answers es () ∧ c'.log = c.log ++ es ++ [.idle] := by
  induction answers with
  | nil =>
      intro c c' p htodo hexec
      obtain ⟨mid, hmid, hstep⟩ := Lts.exec_concat hexec
      cases hmid
      simp only [connSystem, Conn.step, htodo] at hstep
      cases p with
      | ret u =>
          cases hstep
          exact ⟨[], .ret (), by simp⟩
      | emit e k => cases hstep
  | cons a rest ih =>
      intro c c' p htodo hexec
      rw [List.map_cons, List.cons_append, Lts.exec_cons] at hexec
      obtain ⟨mid, hstep, hrest⟩ := Option.bind_eq_some_iff.mp hexec
      simp only [connSystem, Conn.step, htodo] at hstep
      cases p with
      | ret u => cases hstep
      | emit e k =>
          cases hstep
          obtain ⟨es, hruns, hlog⟩ := ih (p := k a) rfl hrest
          refine ⟨e :: es, .emit hruns, ?_⟩
          rw [hlog]
          simp [Conn.emits]

end

/-! ### Every ref once -/

/-- The ref that a handler may still use, and uses up with a reply. -/
def once : Contract (Event α Ω) (fun _ => Answer Ω) (Option String) where
  allows := fun ref e => ∀ topic r, e.refReply = some (topic, r) → ref = some r
  answers := fun _ _ _ => True
  next := fun ref e _ => if e.refReply.isSome then none else ref

/-- The ref a request carries. -/
def SerdeJson.requestRef (serde : SerdeJson) (request : String) : Option String :=
  (serde.phoenixFromStr request).bind PhoenixMessage.msgRef

section

variable {A : Type} {ref : Option String} {j : Joined α Ω} {router : ChannelRouter α Ω}

/-- An event that is no reply. -/
def Event.Silent (e : Event α Ω) : Prop := e.refReply = none

theorem wp_silent {p : Handler α Ω A} (hp : p.Always Event.Silent) :
    Prog.wp once ref p fun ref' _ => ref' = ref := by
  refine Prog.wp_always (I := fun ref' => ref' = ref) ?_ hp rfl
  rintro ref' e he rfl
  refine ⟨?_, fun _ => ?_⟩
  · intro topic r hreply
    rw [he] at hreply
    cases hreply
  · show (if e.refReply.isSome then none else ref') = ref'
    rw [he]
    rfl

/-- A silent part in front of the rest of a handler. -/
theorem wp_silent_bind {B : Type} {p : Handler α Ω A} (hp : p.Always Event.Silent)
    {f : A → Handler α Ω B} {Q : Option String → B → Prop} (hf : ∀ a, Prog.wp once ref (f a) Q) :
    Prog.wp once ref (p >>= f) Q := by
  refine Prog.wp_bind.mpr (Prog.wp_mono ?_ (wp_silent hp))
  rintro ref' a rfl
  exact hf a

theorem wp_replyTo_once (socket : ChannelSocket α) (origin : Origin) (reply : Reply) :
    Prog.wp (once (α := α) (Ω := Ω)) ref (replyTo socket ref origin reply) fun _ _ => True := by
  cases ref with
  | none => trivial
  | some r =>
      refine ⟨?_, fun _ _ => trivial⟩
      intro topic r' hreply
      simp only [Event.refReply, refReply_replyMessage, Option.some.injEq, Prod.mk.injEq] at hreply
      rw [hreply.2]

theorem emit_silent {e : Event α Ω} (he : e.refReply = none) : (emit e).Always Event.Silent :=
  ⟨he, fun _ => trivial⟩

theorem await_silent {c : Callback Ω A} (hc : c.Always fun e => e.refReply = none) :
    (await c : Handler α Ω A).Always Event.Silent :=
  Prog.always_lift (P := fun e : Effect => e.refReply = none) (fun _ he => he) hc

theorem subscribe_silent (topic : String) : (subscribe topic : Handler α Ω _).Always Event.Silent := by
  refine ⟨rfl, fun a => ?_⟩
  obtain ⟨ω, sent, rx⟩ := a
  cases sent with
  | false => trivial
  | true => exact ⟨rfl, fun _ => trivial⟩

theorem forward_silent (topic : String) (rx : Option Nat) :
    (forward topic rx : Handler α Ω Unit).Always Event.Silent := by
  cases rx with
  | none => trivial
  | some rx => exact emit_silent rfl

theorem wp_handleJoin_once [EmptyCollection α] {msg : PhoenixMessage} {channel : Channel α Ω}
    (hsilent : channel.NeverReplies) :
    Prog.wp once msg.msgRef (handleJoin msg channel j) fun _ _ => True := by
  unfold handleJoin
  refine wp_silent_bind (emit_silent rfl) fun _ => ?_
  refine wp_silent_bind (await_silent (hsilent.join _ _ _)) ?_
  rintro ⟨result, socket⟩
  cases result with
  | error e =>
      refine wp_silent_bind (emit_silent rfl) fun _ => ?_
      exact wp_replyTo_once socket _ _
  | ok resp =>
      refine wp_silent_bind (emit_silent rfl) fun _ => ?_
      refine Prog.wp_bind.mpr (Prog.wp_mono ?_ (wp_replyTo_once socket _ _))
      intro ref _ _
      -- nothing behind the reply is one
      refine Prog.wp_mono (fun _ _ _ => trivial) (wp_silent ?_)
      refine Prog.always_bind (emit_silent rfl) fun _ => ?_
      refine Prog.always_bind (await_silent (hsilent.started _)) fun _ => ?_
      refine Prog.always_bind (subscribe_silent _) fun rx => ?_
      exact Prog.always_bind (forward_silent _ rx) fun _ => emit_silent rfl

theorem wp_handleLeave_once (hj : EntriesRouted router j)
    (hsilent : ∀ p ∈ router.routes, p.2.NeverReplies) (msg : PhoenixMessage) :
    Prog.wp once msg.msgRef (handleLeave msg j) fun _ _ => True := by
  unfold handleLeave
  cases hlookup : j.lookup msg.topic with
  | none => trivial
  | some entry =>
      obtain ⟨channel, socket⟩ := entry
      obtain ⟨pattern, hmem⟩ := find_mem (hj _ _ _ hlookup).2
      refine wp_silent_bind (emit_silent rfl) fun _ => ?_
      refine wp_silent_bind (emit_silent rfl) fun _ => ?_
      refine wp_silent_bind (await_silent ((hsilent _ hmem).terminate _ _)) fun socket' => ?_
      exact wp_replyTo_once socket' _ _

theorem wp_handleHeartbeat_once (msg : PhoenixMessage) :
    Prog.wp (once (α := α) (Ω := Ω)) msg.msgRef (handleHeartbeat msg) fun _ _ => True := by
  refine ⟨?_, fun _ _ => trivial⟩
  intro topic r hreply
  cases hr : msg.msgRef with
  | none => simp [Event.refReply, PhoenixMessage.refReply, hr] at hreply
  | some r' =>
      simp only [Event.refReply, PhoenixMessage.refReply, hr, if_true, Option.map_some,
        Option.some.injEq, Prod.mk.injEq] at hreply
      rw [hreply.2]

theorem wp_dispatchEvent_once (hj : EntriesRouted router j)
    (hsilent : ∀ p ∈ router.routes, p.2.NeverReplies) (msg : PhoenixMessage) :
    Prog.wp once msg.msgRef (dispatchEvent msg j) fun _ _ => True := by
  unfold dispatchEvent
  cases hlookup : j.lookup msg.topic with
  | none => trivial
  | some entry =>
      obtain ⟨channel, socket⟩ := entry
      obtain ⟨pattern, hmem⟩ := find_mem (hj _ _ _ hlookup).2
      refine wp_silent_bind (emit_silent rfl) fun _ => ?_
      refine wp_silent_bind (await_silent ((hsilent _ hmem).handleIn _ _ _)) ?_
      rintro ⟨outcome, socket'⟩
      refine wp_silent_bind (emit_silent rfl) fun _ => ?_
      rcases outcome with e | _ | reply
      · exact wp_replyTo_once socket' _ _
      · trivial
      · exact wp_replyTo_once socket' _ _

theorem wp_handleCast_once [EmptyCollection α] (serde : SerdeJson) (hj : EntriesRouted router j)
    (hsilent : ∀ p ∈ router.routes, p.2.NeverReplies) (request : String) :
    Prog.wp once (serde.requestRef request) (handleCast serde router request j) fun _ _ => True := by
  unfold handleCast SerdeJson.requestRef
  cases serde.phoenixFromStr request with
  | none => trivial
  | some msg =>
      simp only [Option.bind_some]
      by_cases hjoin : msg.event = phxJoin
      · rw [if_pos hjoin]
        cases hfind : router.find msg.topic with
        | none => trivial
        | some channel =>
            obtain ⟨pattern, hmem⟩ := find_mem hfind
            exact wp_handleJoin_once (hsilent _ hmem)
      · rw [if_neg hjoin]
        by_cases hleave : msg.event = phxLeave
        · rw [if_pos hleave]
          refine Prog.wp_bind.mpr (Prog.wp_mono ?_ (wp_handleLeave_once hj hsilent msg))
          intro ref _ _
          exact Prog.wp_mono (fun _ _ _ => trivial) (wp_silent (emit_silent rfl))
        · rw [if_neg hleave]
          by_cases hbeat : msg.event = heartbeat
          · rw [if_pos hbeat]
            exact wp_handleHeartbeat_once msg
          · rw [if_neg hbeat]
            exact wp_dispatchEvent_once hj hsilent msg

/-! ### What is not a message of the client -/

theorem callInfo_silent (hj : EntriesRouted router j)
    (hsilent : ∀ p ∈ router.routes, p.2.NeverReplies) (source : InfoSource) (msg : PubSubMessage) :
    (callInfo source msg j).Always Event.Silent := by
  unfold callInfo
  cases hlookup : j.lookup msg.topic with
  | none => trivial
  | some entry =>
      obtain ⟨channel, socket⟩ := entry
      obtain ⟨pattern, hmem⟩ := find_mem (hj _ _ _ hlookup).2
      refine Prog.always_bind (emit_silent rfl) fun _ => ?_
      exact Prog.always_bind (await_silent ((hsilent _ hmem).handleInfo _ _)) fun _ => emit_silent rfl

theorem handleInfo_silent (serde : SerdeJson) (hj : EntriesRouted router j)
    (hsilent : ∀ p ∈ router.routes, p.2.NeverReplies) (msg : String) :
    (handleInfo serde msg j).Always Event.Silent := by
  unfold handleInfo
  split
  · split
    · exact callInfo_silent hj hsilent _ _
    · trivial
  · split
    · exact callInfo_silent hj hsilent _ _
    · trivial

theorem terminateEach_silent (reason : String)
    (entries : List (String × Channel α Ω × ChannelSocket α))
    (hentries : ∀ entry ∈ entries, entry.2.1.NeverReplies) :
    (terminateEach reason entries).Always Event.Silent := by
  induction entries with
  | nil => trivial
  | cons entry rest ih =>
      obtain ⟨t, channel, socket⟩ := entry
      have hsilent := hentries _ (List.mem_cons_self ..)
      have hrest := ih fun entry hentry => hentries entry (List.mem_cons_of_mem _ hentry)
      refine Prog.always_bind (emit_silent rfl) fun _ => ?_
      refine Prog.always_bind (await_silent (hsilent.stopping _)) ?_
      rintro ⟨verdict, socket'⟩
      cases verdict with
      | yes =>
          refine Prog.always_bind (emit_silent rfl) fun _ => ?_
          exact Prog.always_bind (await_silent (hsilent.terminate _ _)) fun _ => hrest
      | no => exact hrest

theorem terminate_silent (reason : String) (keys : List String) (hj : EntriesRouted router j)
    (hsilent : ∀ p ∈ router.routes, p.2.NeverReplies) :
    (terminate reason keys j).Always Event.Silent := by
  unfold terminate
  refine Prog.always_bind (emit_silent rfl) fun _ => terminateEach_silent reason _ ?_
  intro entry hentry
  obtain ⟨t, -, hmap⟩ := List.mem_filterMap.mp hentry
  obtain ⟨⟨channel, socket⟩, hlookup, rfl⟩ := Option.map_eq_some_iff.mp hmap
  obtain ⟨pattern, hmem⟩ := find_mem (hj _ _ _ hlookup).2
  exact hsilent _ hmem

/-! ### The process -/

/-- The ref of a label, where it is a request that carries one. -/
def sentRef (serde : SerdeJson) : ConnLabel Ω → Option String
  | .cast request => serde.requestRef request
  | _ => none

/-- The refs that were used, and the one that may still be, are some of those that were sent. -/
structure Spent (serde : SerdeJson) (labels : List (ConnLabel Ω)) (ref : Option String)
    (c : Conn α Ω) : Prop where
  handling : ∀ p, c.todo = some p → Prog.wp once ref p fun _ _ => True
  used : ((refReplies c.log).map Prod.snd ++ ref.toList).Sublist (labels.filterMap (sentRef serde))

variable {serde : SerdeJson} {labels : List (ConnLabel Ω)} {c c' : Conn α Ω}

theorem Spent.drop (hs : Spent serde labels ref c) :
    ((refReplies c.log).map Prod.snd).Sublist (labels.filterMap (sentRef serde)) :=
  (List.sublist_append_left _ _).trans hs.used

/-- A request that carries no ref is taken up, or the process does nothing. -/
theorem spent_silent (hs : Spent serde labels ref c) {l : ConnLabel Ω} (hl : sentRef serde l = none)
    {todo : Option (Handler α Ω Unit)} (htodo : ∀ p, todo = some p → p.Always Event.Silent)
    {stopped : Bool} {joined : Joined α Ω} :
    Spent serde (labels ++ [l]) none { joined, todo, stopped, log := c.log } where
  handling := fun p hp => Prog.wp_mono (fun _ _ _ => trivial) (wp_silent (htodo p hp))
  used := by
    rw [List.filterMap_append, List.filterMap_cons_none hl, List.filterMap_nil, Option.toList_none,
      List.append_nil, List.append_nil]
    exact hs.drop

theorem spent_cast [EmptyCollection α] (hs : Spent serde labels ref c)
    (hj : EntriesRouted router c.joined) (hsilent : ∀ p ∈ router.routes, p.2.NeverReplies)
    (request : String) :
    Spent serde (labels ++ [.cast request]) (serde.requestRef request)
      { c with todo := some (handleCast serde router request c.joined) } where
  handling := by
    intro p hp
    cases hp
    exact wp_handleCast_once serde hj hsilent request
  used := by
    rw [List.filterMap_append]
    refine hs.drop.append ?_
    show (serde.requestRef request).toList.Sublist ([ConnLabel.cast request].filterMap (sentRef serde))
    cases href : serde.requestRef request with
    | none => exact List.nil_sublist _
    | some r => simp [sentRef, href]

theorem spent_run (hs : Spent serde labels ref c) {e : Event α Ω} {k : Answer Ω → Handler α Ω Unit}
    (htodo : c.todo = some (.emit e k)) (a : Answer Ω) :
    ∃ ref', Spent serde (labels ++ [.run a]) ref' (c.emits e (k a)) := by
  obtain ⟨hallow, hnext⟩ := hs.handling _ htodo
  refine ⟨if e.refReply.isSome then none else ref, ?_, ?_⟩
  · intro p hp
    cases hp
    exact hnext a trivial
  · have hlabels : (labels ++ [ConnLabel.run a]).filterMap (sentRef serde)
        = labels.filterMap (sentRef serde) := by
      rw [List.filterMap_append]
      exact List.append_nil _
    rw [hlabels]
    show ((refReplies (c.log ++ [e])).map Prod.snd ++ _).Sublist _
    rw [refReplies_append, List.map_append]
    cases hreply : e.refReply with
    | none =>
        have hnone : refReplies [e] = [] := refReplies_eq_nil (by simpa using hreply)
        rw [hnone, List.map_nil, List.append_nil]
        exact hs.used
    | some reply =>
        obtain ⟨topic, r⟩ := reply
        have hone : refReplies [e] = [(topic, r)] := by
          unfold refReplies
          rw [List.filterMap_cons_some hreply]
          rfl
        have hused := hs.used
        rw [hallow topic r hreply] at hused
        rw [hone]
        simpa using hused

theorem spent_finish (hs : Spent serde labels ref c) :
    Spent serde (labels ++ [.finish]) none { c with todo := none, log := c.log ++ [.idle] } := by
  refine ⟨?_, ?_⟩
  · intro p hp
    cases hp
  · have hdrop := hs.drop
    show ((refReplies (c.log ++ [Event.idle])).map Prod.snd ++ _).Sublist _
    have hidle : refReplies [(.idle : Event α Ω)] = [] := rfl
    have hlabels : (labels ++ [ConnLabel.finish]).filterMap (sentRef serde)
        = labels.filterMap (sentRef serde) := by
      rw [List.filterMap_append]
      exact List.append_nil _
    rw [hlabels, refReplies_append, hidle, List.append_nil, Option.toList_none, List.append_nil]
    exact hdrop

theorem spent_step [EmptyCollection α] (hg : Gated router c)
    (hsilent : ∀ p ∈ router.routes, p.2.NeverReplies) (hs : Spent serde labels ref c)
    {l : ConnLabel Ω} (hstep : Conn.step serde router c l = some c') :
    ∃ ref', Spent serde (labels ++ [l]) ref' c' := by
  cases Conn.step_move hstep with
  | @cast request _ => exact ⟨_, spent_cast hs hg.entries hsilent request⟩
  | @info msg _ =>
      refine ⟨none, spent_silent hs rfl ?_⟩
      intro p hp
      cases hp
      exact handleInfo_silent serde hg.entries hsilent msg
  | @run a _ _ htodo => exact spent_run hs htodo a
  | finish _ => exact ⟨none, spent_finish hs⟩
  | @stop reason keys _ _ =>
      refine ⟨none, spent_silent hs rfl ?_⟩
      intro p hp
      cases hp
      exact terminate_silent reason keys hg.entries hsilent
  | kill =>
      refine ⟨none, spent_silent hs rfl ?_⟩
      intro p hp
      cases hp

/--
**Each message is answered as it should be exactly when its topic is known.**  For
every channel router whose channels never call `socket.reply` and leave their
sockets' topics alone, and every run of the process: a message with a ref that is
handled to its end gets the one reply it is owed, or the none, if and only if it
is no join of a topic that is routed nowhere, and no leave of one that is not
joined; and the refs of all replies are some of those that were sent, in their
order and none more often than it was sent.
-/
theorem replies_correlate [EmptyCollection α] (serde : SerdeJson) (router : ChannelRouter α Ω)
    (hkeeps : ∀ p ∈ router.routes, p.2.KeepsTopicToEnd)
    (hsilent : ∀ p ∈ router.routes, p.2.NeverReplies) :
    (∀ (before : List (ConnLabel Ω)) (request : String) (answers : List (Answer Ω)) (c : Conn α Ω),
      (connSystem serde router).exec Conn.init
        (before ++ .cast request :: (answers.map .run ++ [.finish])) = some c →
      ∀ msg r, serde.phoenixFromStr request = some msg → msg.msgRef = some r →
        ∃ c₀ es, (connSystem serde router).exec Conn.init before = some c₀ ∧
          c.log = c₀.log ++ es ++ [.idle] ∧
          (Answered c₀.joined msg r answers es ↔ Known router c₀.joined msg)) ∧
    ∀ labels c, (connSystem serde router).exec Conn.init labels = some c →
      ((refReplies c.log).map Prod.snd).Sublist (labels.filterMap (sentRef serde)) := by
  have hgated : ∀ labels c, (connSystem serde router).exec Conn.init labels = some c →
      Gated router c := fun labels c hrun =>
    Lts.exec_invariant (M := connSystem serde router) gated_init
      (fun _ _ _ hg hstep => gated_step serde (fun p hp => (hkeeps p hp).toKeepsTopic) hg hstep) hrun
  constructor
  · intro before request answers c hrun msg r hmsg hr
    rw [Lts.exec_append] at hrun
    obtain ⟨c₀, hbefore, hrun⟩ := Option.bind_eq_some_iff.mp hrun
    rw [Lts.exec_cons] at hrun
    obtain ⟨c₁, hstep, hrun⟩ := Option.bind_eq_some_iff.mp hrun
    have hmove : c₀.Move serde router (.cast request) c₁ := Conn.step_move hstep
    cases hmove with
    | cast _ =>
        obtain ⟨es, hruns, hlog⟩ := exec_answers answers rfl hrun
        exact ⟨c₀, es, hbefore, hlog, answered_iff_known (hgated before c₀ hbefore).entries hkeeps
          hsilent hmsg hr hruns⟩
  · intro labels c hrun
    have hspent : Gated router c ∧ ∃ ref, Spent serde labels ref c := by
      refine Lts.exec_history (M := connSystem serde router)
        (R := fun labels c => Gated router c ∧ ∃ ref, Spent serde labels ref c) ?_ ?_ hrun
      · refine ⟨gated_init, none, ?_, List.nil_sublist _⟩
        intro p hp
        cases hp
      · rintro labels c l c' ⟨hg, ref, hs⟩ hstep
        exact ⟨gated_step serde (fun p hp => (hkeeps p hp).toKeepsTopic) hg hstep,
          spent_step hg hsilent hs hstep⟩
    obtain ⟨-, ref, hs⟩ := hspent
    exact hs.drop

end

/-! ### Runs -/

theorem echo_keepsTopicToEnd : ∀ p ∈ echoRouter.routes, p.2.KeepsTopicToEnd := by
  intro p hp
  refine { echo_keepsTopic p hp with terminate := ?_ }
  obtain rfl := List.mem_singleton.mp hp
  exact fun _ _ => rfl

theorem echo_neverReplies : ∀ p ∈ echoRouter.routes, p.2.NeverReplies := by
  intro p hp
  obtain rfl := List.mem_singleton.mp hp
  refine ⟨fun _ _ _ => trivial, fun _ _ _ => trivial, ?_, fun _ => trivial, fun _ => trivial,
    fun _ _ => trivial⟩
  -- the default `handle_info` pushes, and a push carries no ref
  exact fun _ _ => ⟨by simp [Effect.refReply, PhoenixMessage.refReply], fun _ => trivial⟩

/-- The answers to the events of a join. -/
def joinAnswers : List (Answer Unit) := List.replicate 8 { effect := (), sent := true, rx := some 0 }

theorem replies_correlate_join :
    ∃ c es, (connSystem roomSerde echoRouter).exec Conn.init
        ([] ++ .cast joinText :: (joinAnswers.map .run ++ [.finish])) = some c ∧
      c.log = es ++ [.idle] ∧ refReplies es = [("room:1", "1")] := by
  have hrun : ∃ c, (connSystem roomSerde echoRouter).exec Conn.init
      ([] ++ .cast joinText :: (joinAnswers.map .run ++ [.finish])) = some c := ⟨_, rfl⟩
  obtain ⟨c, hexec⟩ := hrun
  obtain ⟨c₀, es, hinit, hlog, hanswered⟩ :=
    (replies_correlate roomSerde echoRouter echo_keepsTopicToEnd echo_neverReplies).1 [] joinText
      joinAnswers c hexec { topic := "room:1", event := phxJoin, payload := .null, msgRef := some "1" }
      "1" rfl rfl
  cases hinit
  have hreplies := hanswered.mpr ⟨fun _ => rfl, fun h => absurd h (by decide)⟩
  exact ⟨c, es, hexec, hlog, hreplies⟩

/-- A join of a topic that is routed nowhere and a leave of one that is not joined: no reply. -/
theorem unknown_unanswered :
    (∃ c es, (connSystem roomSerde (ChannelRouter.new : ChannelRouter (List Nat) Unit)).exec Conn.init
          [.cast joinText, .finish] = some c ∧ c.log = es ++ [.idle] ∧
        (roomSerde.phoenixFromStr joinText).map (fun msg => (msg.event, msg.msgRef))
          = some (phxJoin, some "1") ∧ refReplies es = []) ∧
      ∃ c es, (connSystem roomSerde echoRouter).exec Conn.init
          [.cast leaveText, runOne, .finish] = some c ∧ c.log = es ++ [.idle] ∧
        (roomSerde.phoenixFromStr leaveText).map (fun msg => (msg.event, msg.msgRef))
          = some (phxLeave, some "3") ∧ refReplies es = [] :=
  ⟨⟨_, [], rfl, rfl, rfl, rfl⟩, ⟨_, [.left "room:1"], rfl, rfl, rfl, rfl⟩⟩

end Mahalo.Channels
