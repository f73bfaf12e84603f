/-
The calls of a bridge.

A call of `broadcast` reaches its own local PubSub once, and along every link at most
once, because the calls that have had the lock form a list without repetitions and a
link carries what that list has had since the link was made: all of it as long as the
receiver is there, a first part of it after that.  A relay takes from its channel in
order and puts what it takes into a queue, never into a peer list, so nothing is
relayed twice.  The invariant says this of the local queues (`Local`), the calls
(`Calls`), the links (`Carries`) and the relays (`Relays`); a call and its lock keep it.
-/
import Mahalo.Bridge
import Mahalo.Proofs.PubSub

namespace Mahalo.Bridge

open History

variable {N : Type*}

/-! ### What is looked at -/

/-- The calls whose messages came along a link, in order. -/
def carried (l : Nat) (envs : List Envelope) : List Nat :=
  (envs.filter (·.link = l)).map (·.call)

/-- The calls whose messages were relayed from a link. -/
def relayedOn (l : Nat) (arrivals : List Arrival) : List Nat :=
  arrivals.filterMap fun x =>
    match x.origin with
    | .relayed link call => if link = l then some call else none
    | _ => none

/-- What the local half of a call put into a queue. -/
def ownOn (c : Nat) (arrivals : List Arrival) : List PubSubCommand :=
  (arrivals.filter (·.origin = .own c)).map (·.cmd)

/-- The command that broadcasts a message. -/
def command (msg : PubSubMessage) : PubSubCommand := .broadcast msg.topic msg

/-- The call that the fan-out of a node has yet to send on a link. -/
def pending (s : Bridge N) (a : N) (l : Nat) : List Nat :=
  match s.fanout a with
  | some f => if l ∈ f.rest.map (·.link) then [f.call] else []
  | none => []

/-- The senders of a node, in a fan-out those that are not pruned. -/
def senders (s : Bridge N) (a : N) : List Peer :=
  match s.fanout a with
  | some f => f.kept ++ f.rest
  | none => s.peers a

theorem pending_some {s : Bridge N} {a : N} {f : Fanout} (hf : s.fanout a = some f) (l : Nat) :
    s.pending a l = if l ∈ f.rest.map (·.link) then [f.call] else [] := by
  unfold pending
  rw [hf]

theorem pending_none {s : Bridge N} {a : N} (hf : s.fanout a = none) (l : Nat) : s.pending a l = [] := by
  unfold pending
  rw [hf]

theorem senders_some {s : Bridge N} {a : N} {f : Fanout} (hf : s.fanout a = some f) :
    s.senders a = f.kept ++ f.rest := by
  unfold senders
  rw [hf]

theorem senders_none {s : Bridge N} {a : N} (hf : s.fanout a = none) : s.senders a = s.peers a := by
  unfold senders
  rw [hf]

theorem senders_congr {s s' : Bridge N} {a : N} (hf : s'.fanout a = s.fanout a)
    (hp : s'.peers a = s.peers a) : s'.senders a = s.senders a := by
  unfold senders
  rw [hf, hp]

theorem pending_congr {s s' : Bridge N} {a : N} (hf : s'.fanout a = s.fanout a) (l : Nat) :
    s'.pending a l = s.pending a l := by
  unfold pending
  rw [hf]

def sentOn (s : Bridge N) (chan : Nat) : List Envelope := Mpsc.sentOn s.chans chan

theorem sentOn_congr {s s' : Bridge N} (h : s'.chans = s.chans) : s'.sentOn = s.sentOn := by
  unfold sentOn
  rw [h]

theorem carried_append (l : Nat) (envs envs' : List Envelope) :
    carried l (envs ++ envs') = carried l envs ++ carried l envs' := by
  unfold carried
  rw [List.filter_append, List.map_append]

theorem carried_single (l : Nat) (env : Envelope) :
    carried l [env] = if env.link = l then [env.call] else [] := by
  unfold carried
  by_cases hl : env.link = l <;> simp [hl]

theorem relayedOn_append (l : Nat) (xs ys : List Arrival) :
    relayedOn l (xs ++ ys) = relayedOn l xs ++ relayedOn l ys := List.filterMap_append

theorem ownOn_append (c : Nat) (xs ys : List Arrival) :
    ownOn c (xs ++ ys) = ownOn c xs ++ ownOn c ys := by
  unfold ownOn
  rw [List.filter_append, List.map_append]

theorem relayedOn_single (l : Nat) (x : Arrival) :
    relayedOn l [x] = match x.origin with
      | .relayed link call => if link = l then [call] else []
      | _ => [] := by
  obtain ⟨origin, cmd⟩ := x
  cases origin with
  | relayed link call => by_cases hl : link = l <;> simp [relayedOn, hl]
  | own call => rfl
  | client => rfl

theorem ownOn_single (c : Nat) (x : Arrival) :
    ownOn c [x] = if x.origin = .own c then [x.cmd] else [] := by
  unfold ownOn
  by_cases hc : x.origin = .own c <;> simp [hc]

/-! ### The local queues -/

/-- The queue of a local PubSub has what arrived, and the server runs. -/
structure Local (server : PubSub.Server) (arrivals : List Arrival) : Prop where
  enqueued : server.enqueued = arrivals.map (·.cmd)
  running : server.phase ≠ .stopped
  kept : PubSubCommand.shutdown ∉ server.queue

theorem Local.enqueue {server : PubSub.Server} {arrivals : List Arrival} (h : Local server arrivals)
    {x : Arrival} (hcmd : x.cmd ≠ .shutdown) : Local (server.enqueue x.cmd) (arrivals ++ [x]) := by
  unfold PubSub.Server.enqueue
  rw [if_neg h.running]
  refine ⟨?_, h.running, ?_⟩
  · show server.enqueued ++ [x.cmd] = _
    rw [h.enqueued, List.map_append]
    rfl
  · intro hmem
    rcases List.mem_append.mp hmem with hold | hnew
    · exact h.kept hold
    · exact hcmd (List.mem_singleton.mp hnew).symm

theorem Local.serve {server server' : PubSub.Server} {arrivals : List Arrival}
    (h : Local server arrivals) (hserve : server.serve = some server') : Local server' arrivals := by
  rcases PubSub.serve_cases hserve with ⟨-, -, rfl⟩ | ⟨cmd, queue, -, hqueue, rfl⟩
  · exact ⟨h.enqueued, nofun, h.kept⟩
  · have hkept := h.kept
    rw [hqueue, List.mem_cons, not_or] at hkept
    obtain ⟨hframe, -, henqueued, hstop⟩ := PubSub.handleCommand_frame cmd
      { server with queue, handled := server.handled ++ [cmd] }
    refine ⟨henqueued.trans h.enqueued, ?_, ?_⟩
    · show (if _ then PubSub.Phase.stopped else .drain) ≠ .stopped
      rw [if_neg fun h => hkept.1 (hstop.mp h).symm]
      nofun
    · show PubSubCommand.shutdown ∉ (PubSub.handleCommand cmd _).1.queue
      rw [hframe]
      exact hkept.2

/-! ### The calls -/

variable [DecidableEq N]

structure Calls (s : Bridge N) : Prop where
  /-- the local half of a call went into the queue of its node, and into no other -/
  own : ∀ c call, s.calls[c]? = some call →
    ∀ a, ownOn c (s.arrivals a) = if call.node = a then [command call.msg] else []
  none : ∀ c, s.calls[c]? = none → ∀ a, ownOn c (s.arrivals a) = []
  once : ∀ a, (s.fanouts a).Nodup
  /-- the calls that no longer wait have had the lock of their node -/
  fanned : ∀ a c, c ∈ s.fanouts a ↔ ∃ call, s.calls[c]? = some call ∧ call.node = a ∧ call.waiting = false

/-! ### What is on the links -/

structure Carries (s : Bridge N) : Prop where
  made : ∀ (l : Nat) link, s.links[l]? = some link → link.chan < s.chans.length ∧
    link.since ≤ (s.fanouts link.owner).length
  distinct : ∀ a, ((s.senders a).map (·.link)).Nodup
  /-- a sender in a peer list is a link of that node -/
  registered : ∀ a, ∀ tx ∈ s.senders a, ∃ since,
    s.links[tx.link]? = some { owner := a, chan := tx.chan, since }
  /-- a link whose receiver is there is in the peer list -/
  listed : ∀ (l : Nat) link, s.links[l]? = some link → Mpsc.aliveAt s.chans link.chan = true →
    { link := l, chan := link.chan } ∈ s.senders link.owner
  current : ∀ a f, s.fanout a = some f → ∃ call, s.calls[f.call]? = some call ∧ call.msg = f.msg
  /-- what is on a channel came by a link to it, and is the message of its call -/
  genuine : ∀ chan, ∀ env ∈ s.sentOn chan,
    (∃ link, s.links[env.link]? = some link ∧ link.chan = chan) ∧
      ∃ call, s.calls[env.call]? = some call ∧ call.msg = env.msg
  live : ∀ (l : Nat) link, s.links[l]? = some link → Mpsc.aliveAt s.chans link.chan = true →
    carried l (s.sentOn link.chan) ++ s.pending link.owner l = (s.fanouts link.owner).drop link.since
  dead : ∀ (l : Nat) link, s.links[l]? = some link →
    carried l (s.sentOn link.chan) <+: (s.fanouts link.owner).drop link.since

/-! ### What the relays have taken -/

structure Relays (s : Bridge N) : Prop where
  taken : ∀ chan, s.taken chan ≤ (s.sentOn chan).length
  idle : ∀ chan, s.relay chan = none → s.taken chan = 0
  /-- a node has of a link what its relay has taken from the channel, if it reads the channel -/
  relayed : ∀ (l : Nat) link, s.links[l]? = some link → ∀ b, relayedOn l (s.arrivals b) =
    if s.relay link.chan = some b then carried l ((s.sentOn link.chan).take (s.taken link.chan)) else []
  /-- what was relayed is the message of a call -/
  faithful : ∀ b, ∀ x ∈ s.arrivals b, ∀ l c, x.origin = .relayed l c →
    (∃ link, s.links[l]? = some link) ∧ ∃ call, s.calls[c]? = some call ∧ x.cmd = command call.msg

structure Wired (s : Bridge N) : Prop where
  queues : ∀ a, Local (s.localPubSub a) (s.arrivals a)
  calls : Calls s
  carries : Carries s
  relays : Relays s

theorem wired_start : Wired (start : Bridge N) where
  queues := fun _ => ⟨rfl, nofun, List.not_mem_nil⟩
  calls := {
    own := fun c call h => by simp [start] at h
    none := fun _ _ _ => rfl
    once := fun _ => .nil
    fanned := fun a c => iff_of_false List.not_mem_nil (by simp [start]) }
  carries := {
    made := fun l link h => by simp [start] at h
    distinct := fun _ => .nil
    registered := fun a tx h => absurd h List.not_mem_nil
    listed := fun l link h => by simp [start] at h
    current := fun a f h => nomatch h
    genuine := fun chan env h => absurd h List.not_mem_nil
    live := fun l link h => by simp [start] at h
    dead := fun l link h => by simp [start] at h }
  relays := {
    taken := fun _ => Nat.le_refl 0
    idle := fun _ _ => rfl
    relayed := fun l link h => by simp [start] at h
    faithful := fun b x h => absurd h List.not_mem_nil }

/-! ### Where nothing is relayed -/

/-- The calls that were there are there, with the same messages. -/
def Keeps (s s' : Bridge N) : Prop :=
  ∀ (c : Nat) call, s.calls[c]? = some call → ∃ call', s'.calls[c]? = some call' ∧ call'.msg = call.msg

/-- What has arrived since was relayed from no link. -/
def Unrelayed (s s' : Bridge N) : Prop :=
  ∀ b, ∃ new, s'.arrivals b = s.arrivals b ++ new ∧ ∀ x ∈ new, ∀ l c, x.origin ≠ .relayed l c

omit [DecidableEq N] in
theorem unrelayed_of_eq {s s' : Bridge N} (h : s'.arrivals = s.arrivals) : Unrelayed s s' := by
  intro b
  refine ⟨[], ?_, fun x hx => absurd hx List.not_mem_nil⟩
  rw [h, List.append_nil]

omit [DecidableEq N] in
theorem Unrelayed.relayedOn {s s' : Bridge N} (h : Unrelayed s s') (l : Nat) (b : N) :
    relayedOn l (s'.arrivals b) = relayedOn l (s.arrivals b) := by
  obtain ⟨new, hnew, hplain⟩ := h b
  have hnil : Bridge.relayedOn l new = [] := by
    unfold Bridge.relayedOn
    rw [List.filterMap_eq_nil_iff]
    intro x hx
    cases horigin : x.origin with
    | relayed link call => exact absurd horigin (hplain x hx link call)
    | own call => rfl
    | client => rfl
  rw [hnew, relayedOn_append, hnil, List.append_nil]

/-- Where nothing is relayed and nothing sent, what was relayed stays right. -/
theorem Relays.frame {s s' : Bridge N} (h : Relays s) (hkeeps : Keeps s s') (hnone : Unrelayed s s')
    (hlinks : s'.links = s.links) (hsent : s'.sentOn = s.sentOn) (hrelay : s'.relay = s.relay)
    (htaken : s'.taken = s.taken) : Relays s' := by
  refine ⟨?_, ?_, ?_, ?_⟩
  · rw [htaken, hsent]
    exact h.taken
  · rw [hrelay, htaken]
    exact h.idle
  · intro l link hl b
    rw [hlinks] at hl
    rw [hnone.relayedOn, hrelay, hsent, htaken]
    exact h.relayed l link hl b
  · intro b x hx l c horigin
    obtain ⟨new, hnew, hplain⟩ := hnone b
    rw [hnew] at hx
    rcases List.mem_append.mp hx with hold | hx
    · obtain ⟨hlink, call, hc, hcmd⟩ := h.faithful b x hold l c horigin
      obtain ⟨call', hc', hsame⟩ := hkeeps c call hc
      rw [hlinks]
      exact ⟨hlink, call', hc', hcmd.trans (by rw [hsame])⟩
    · exact absurd horigin (hplain x hx l c)

/-! ### A command that arrives -/

@[simp] theorem enqueue_arrivals (s : Bridge N) (a b : N) (origin : Origin) (cmd : PubSubCommand) :
    (s.enqueue a origin cmd).arrivals b
      = s.arrivals b ++ if b = a then [Arrival.mk origin cmd] else [] := by
  show Function.update s.arrivals a _ b = _
  rw [Function.update_apply]
  by_cases hb : b = a
  · rw [if_pos hb, if_pos hb, hb]
  · rw [if_neg hb, if_neg hb, List.append_nil]

theorem enqueue_queues {s : Bridge N} (h : ∀ b, Local (s.localPubSub b) (s.arrivals b)) (a : N)
    (origin : Origin) {cmd : PubSubCommand} (hcmd : cmd ≠ .shutdown) (b : N) :
    Local ((s.enqueue a origin cmd).localPubSub b) ((s.enqueue a origin cmd).arrivals b) := by
  rw [enqueue_arrivals]
  show Local (Function.update s.localPubSub a _ b) _
  rw [Function.update_apply]
  by_cases hb : b = a
  · rw [if_pos hb, if_pos hb, hb]
    exact (h a).enqueue (x := { origin, cmd }) hcmd
  · rw [if_neg hb, if_neg hb, List.append_nil]
    exact h b

theorem ownOn_enqueue (s : Bridge N) (a b : N) (origin : Origin) (cmd : PubSubCommand) (c : Nat) :
    ownOn c ((s.enqueue a origin cmd).arrivals b)
      = ownOn c (s.arrivals b) ++ if origin = .own c ∧ b = a then [cmd] else [] := by
  rw [enqueue_arrivals, ownOn_append]
  by_cases hb : b = a
  · rw [if_pos hb, ownOn_single]
    exact congrArg (_ ++ ·) (if_congr (and_iff_left hb).symm rfl rfl)
  · rw [if_neg hb, if_neg fun hboth => hb hboth.2]
    rfl

/-- A command of no call is no call's. -/
theorem calls_enqueue {s : Bridge N} (h : Calls s) (a : N) (origin : Origin)
    (horigin : ∀ c, origin ≠ .own c) (cmd : PubSubCommand) : Calls (s.enqueue a origin cmd) := by
  have hown : ∀ c b, ownOn c ((s.enqueue a origin cmd).arrivals b) = ownOn c (s.arrivals b) := by
    intro c b
    rw [ownOn_enqueue, if_neg fun hboth => horigin c hboth.1, List.append_nil]
  refine { h with own := ?_, none := ?_ }
  · intro c call hc b
    rw [hown]
    exact h.own c call hc b
  · intro c hc b
    rw [hown]
    exact h.none c hc b

theorem unrelayed_enqueue (s : Bridge N) (a : N) (origin : Origin) (horigin : ∀ l c, origin ≠ .relayed l c)
    (cmd : PubSubCommand) : Unrelayed s (s.enqueue a origin cmd) := by
  intro b
  refine ⟨_, enqueue_arrivals s a b origin cmd, ?_⟩
  intro x hx
  by_cases hb : b = a
  · rw [if_pos hb] at hx
    rw [List.mem_singleton.mp hx]
    exact horigin
  · rw [if_neg hb] at hx
    cases hx

/-- A command of no call and of no link changes nothing that the invariant counts. -/
theorem wired_client {s : Bridge N} (h : Wired s) (a : N) {cmd : PubSubCommand} (hcmd : cmd ≠ .shutdown) :
    Wired (s.enqueue a .client cmd) where
  queues := enqueue_queues h.queues a .client hcmd
  calls := calls_enqueue h.calls a .client nofun cmd
  carries := { h.carries with }
  relays := h.relays.frame (fun _ call hc => ⟨call, hc, rfl⟩) (unrelayed_enqueue s a .client nofun cmd)
    rfl rfl rfl rfl

/-! ### A call of `broadcast` -/

theorem calls_broadcast {s : Bridge N} (h : Calls s) (a : N) (topic event : String) (payload : Value) :
    Calls (s.broadcast a topic event payload) := by
  have hcalls : (s.broadcast a topic event payload).calls
      = s.calls ++ [{ node := a, msg := { topic, event, payload }, waiting := true }] := rfl
  have hown : ∀ c b, ownOn c ((s.broadcast a topic event payload).arrivals b)
      = ownOn c (s.arrivals b) ++
        if c = s.calls.length ∧ b = a then [command { topic, event, payload }] else [] := by
    intro c b
    refine (ownOn_enqueue s a b (.own s.calls.length) _ c).trans ?_
    refine congrArg (_ ++ ·) (if_congr (and_congr_left' ?_) rfl rfl)
    exact ⟨fun heq => (Origin.own.inj heq).symm, fun heq => by rw [heq]⟩
  refine { h with own := ?_, none := ?_, fanned := ?_ }
  · intro c call hc b
    rw [hcalls] at hc
    rw [hown]
    rcases of_getElem?_concat hc with hold | ⟨rfl, rfl⟩
    · have hnot : ¬(c = s.calls.length ∧ b = a) := fun hboth =>
        Nat.ne_of_lt (List.getElem?_eq_some_iff.mp hold).1 hboth.1
      rw [h.own c call hold b, if_neg hnot, List.append_nil]
    · rw [h.none _ (List.getElem?_eq_none (Nat.le_refl _)) b, List.nil_append]
      exact if_congr (by rw [and_iff_right rfl, eq_comm]) rfl rfl
  · intro c hc b
    have hle : s.calls.length + 1 ≤ c := by
      simpa [hcalls] using hc
    rw [hown, h.none c (List.getElem?_eq_none (Nat.le_of_succ_le hle)) b,
      if_neg fun hboth => Nat.ne_of_gt hle hboth.1]
    rfl
  · intro b c
    rw [show (s.broadcast a topic event payload).fanouts b = s.fanouts b from rfl, h.fanned, hcalls]
    constructor
    · rintro ⟨call, hc, hrest⟩
      exact ⟨call, getElem?_concat hc, hrest⟩
    · rintro ⟨call, hc, hnode, hdone⟩
      rcases of_getElem?_concat hc with hold | ⟨-, rfl⟩
      · exact ⟨call, hold, hnode, hdone⟩
      · -- the new call has yet to wait for the lock
        cases hdone

theorem wired_broadcast {s : Bridge N} (h : Wired s) (a : N) (topic event : String) (payload : Value) :
    Wired (s.broadcast a topic event payload) := by
  have hkeeps : Keeps s (s.broadcast a topic event payload) := fun _ call hc =>
    ⟨call, getElem?_concat hc, rfl⟩
  refine ⟨enqueue_queues h.queues a _ nofun, calls_broadcast h.calls a topic event payload,
    { h.carries with current := ?_, genuine := ?_ },
    h.relays.frame hkeeps (unrelayed_enqueue s a (.own s.calls.length) nofun _) rfl rfl rfl rfl⟩
  · intro b f hf
    obtain ⟨call, hc, hmsg⟩ := h.carries.current b f hf
    exact ⟨call, getElem?_concat hc, hmsg⟩
  · intro chan env henv
    obtain ⟨hlink, call, hc, hmsg⟩ := h.carries.genuine chan env henv
    exact ⟨hlink, call, getElem?_concat hc, hmsg⟩

/-! ### The lock -/

/-- What a call that gets the lock changes. -/
structure Locked (s s' : Bridge N) (c : Nat) (call : Call N) : Prop where
  was : s.calls[c]? = some call
  waiting : call.waiting = true
  free : s.fanout call.node = none
  calls : ∀ c' : Nat, s'.calls[c']? = if c' = c then some { call with waiting := false } else s.calls[c']?
  fanout : ∀ b, s'.fanout b = if b = call.node then
    some { call := c, msg := call.msg, kept := [], rest := s.peers call.node } else s.fanout b
  fanouts : ∀ b, s'.fanouts b = s.fanouts b ++ if b = call.node then [c] else []
  frame : s' = { s with fanout := s'.fanout, calls := s'.calls, fanouts := s'.fanouts }

theorem lock_some {s s' : Bridge N} {c : Nat} (h : s.lock c = some s') : ∃ call, Locked s s' c call := by
  unfold lock at h
  split at h
  · rename_i call hcall
    obtain ⟨⟨hwaiting, hfree⟩, h⟩ := Option.ite_none_right_eq_some.mp h
    obtain rfl := Option.some.inj h
    refine ⟨call, hcall, hwaiting, Option.isNone_iff_eq_none.mp hfree, ?_, ?_, ?_, rfl⟩
    · intro c'
      show (s.calls.set c _)[c']? = _
      rw [List.getElem?_set]
      by_cases hc : c' = c
      · rw [if_pos hc.symm, if_pos hc, if_pos (List.getElem?_eq_some_iff.mp hcall).1]
      · rw [if_neg (Ne.symm hc), if_neg hc]
    · intro b
      exact Function.update_apply ..
    · intro b
      show Function.update s.fanouts call.node _ b = _
      rw [Function.update_apply]
      by_cases hb : b = call.node
      · rw [if_pos hb, if_pos hb, hb]
      · rw [if_neg hb, if_neg hb, List.append_nil]
  · cases h

/-- A call keeps its message and its node. -/
theorem Locked.back {s s' : Bridge N} {c c' : Nat} {call call' : Call N} (hl : Locked s s' c call)
    (hc' : s'.calls[c']? = some call') :
    ∃ call'' : Call N, s.calls[c']? = some call'' ∧ call''.msg = call'.msg ∧ call''.node = call'.node := by
  rw [hl.calls] at hc'
  by_cases hc : c' = c
  · rw [if_pos hc] at hc'
    obtain rfl := Option.some.inj hc'
    exact ⟨call, hc ▸ hl.was, rfl, rfl⟩
  · rw [if_neg hc] at hc'
    exact ⟨call', hc', rfl, rfl⟩

theorem Locked.keeps {s s' : Bridge N} {c : Nat} {call : Call N} (hl : Locked s s' c call) : Keeps s s' := by
  intro c' call' hc'
  rw [hl.calls]
  by_cases hc : c' = c
  · rw [hc, hl.was] at hc'
    obtain rfl := Option.some.inj hc'
    exact ⟨_, if_pos hc, rfl⟩
  · exact ⟨call', (if_neg hc).trans hc', rfl⟩

theorem Locked.senders {s s' : Bridge N} {c : Nat} {call : Call N} (hl : Locked s s' c call) (b : N) :
    s'.senders b = s.senders b := by
  have hpeers : s'.peers = s.peers := by rw [hl.frame]
  by_cases hb : b = call.node
  · rw [senders_some ((hl.fanout b).trans (if_pos hb)), hb, senders_none hl.free]
    rfl
  · exact senders_congr ((hl.fanout b).trans (if_neg hb)) (by rw [hpeers])

theorem calls_lock {s s' : Bridge N} (h : Calls s) {c : Nat} {call : Call N} (hl : Locked s s' c call) :
    Calls s' := by
  have harrivals : s'.arrivals = s.arrivals := by rw [hl.frame]
  have hnew : c ∉ s.fanouts call.node := by
    intro hmem
    obtain ⟨call', hcall', -, hdone⟩ := (h.fanned call.node c).mp hmem
    rw [hl.was] at hcall'
    obtain rfl := Option.some.inj hcall'
    rw [hl.waiting] at hdone
    cases hdone
  refine ⟨?_, ?_, ?_, ?_⟩
  · intro c' call' hc' b
    obtain ⟨call'', hold, hmsg, hnode⟩ := hl.back hc'
    rw [harrivals, h.own c' call'' hold b, hmsg, hnode]
  · intro c' hc' b
    rw [hl.calls] at hc'
    rw [harrivals]
    by_cases hc : c' = c
    · rw [if_pos hc] at hc'
      cases hc'
    · rw [if_neg hc] at hc'
      exact h.none c' hc' b
  · intro b
    rw [hl.fanouts]
    by_cases hb : b = call.node
    · rw [if_pos hb, hb, ← List.concat_eq_append]
      exact (h.once call.node).concat hnew
    · rw [if_neg hb, List.append_nil]
      exact h.once b
  · intro b c'
    rw [hl.fanouts, hl.calls, List.mem_append, h.fanned]
    by_cases hc : c' = c
    · have hold : (∃ call', s.calls[c]? = some call' ∧ call'.node = b ∧ call'.waiting = false) ↔ False := by
        rw [hl.was, iff_false]
        rintro ⟨call', heq, -, hdone⟩
        obtain rfl := Option.some.inj heq
        rw [hl.waiting] at hdone
        cases hdone
      rw [if_pos hc, hc, hold, false_or]
      by_cases hb : b = call.node
      · rw [if_pos hb]
        exact iff_of_true (List.mem_singleton_self _) ⟨_, rfl, hb.symm, rfl⟩
      · rw [if_neg hb]
        refine iff_of_false List.not_mem_nil ?_
        rintro ⟨call', heq, hnode, -⟩
        obtain rfl := Option.some.inj heq
        exact hb hnode.symm
    · rw [if_neg hc]
      refine or_iff_left ?_
      intro hmem
      by_cases hb : b = call.node
      · rw [if_pos hb] at hmem
        exact hc (List.mem_singleton.mp hmem)
      · rw [if_neg hb] at hmem
        cases hmem

theorem carries_lock {s s' : Bridge N} (h : Carries s) {c : Nat} {call : Call N} (hl : Locked s s' c call) :
    Carries s' := by
  have hlinks : s'.links = s.links := by rw [hl.frame]
  have hchans : s'.chans = s.chans := by rw [hl.frame]
  have hsent := sentOn_congr hchans
  refine ⟨?_, ?_, ?_, ?_, ?_, ?_, ?_, ?_⟩
  · intro l link hlink
    rw [hlinks] at hlink
    obtain ⟨hlt, hsince⟩ := h.made l link hlink
    rw [hchans, hl.fanouts, List.length_append]
    exact ⟨hlt, Nat.le_add_right_of_le hsince⟩
  · intro b
    rw [hl.senders]
    exact h.distinct b
  · intro b
    rw [hl.senders, hlinks]
    exact h.registered b
  · intro l link
    rw [hlinks, hchans, hl.senders]
    exact h.listed l link
  · intro b f hf
    rw [hl.fanout] at hf
    by_cases hb : b = call.node
    · rw [if_pos hb] at hf
      obtain rfl := Option.some.inj hf
      exact ⟨_, (hl.calls c).trans (if_pos rfl), rfl⟩
    · rw [if_neg hb] at hf
      obtain ⟨call', hc', hmsg⟩ := h.current b f hf
      obtain ⟨call'', hc'', hsame⟩ := hl.keeps f.call call' hc'
      exact ⟨call'', hc'', hsame.trans hmsg⟩
  · intro chan env henv
    rw [hsent] at henv
    obtain ⟨hlink, call', hc', hmsg⟩ := h.genuine chan env henv
    obtain ⟨call'', hc'', hsame⟩ := hl.keeps env.call call' hc'
    rw [hlinks]
    exact ⟨hlink, call'', hc'', hsame.trans hmsg⟩
  · intro l link hlink hlive
    rw [hlinks] at hlink
    rw [hchans] at hlive
    have hbefore := h.live l link hlink hlive
    have hlisted := h.listed l link hlink hlive
    rw [hsent, hl.fanouts]
    by_cases hb : link.owner = call.node
    · rw [hb, senders_none hl.free] at hlisted
      rw [hb, pending_none hl.free, List.append_nil] at hbefore
      rw [pending_some ((hl.fanout _).trans (if_pos hb)), if_pos hb,
        List.drop_append_of_le_length (h.made l link hlink).2, hb, hbefore,
        if_pos (List.mem_map.mpr ⟨_, hlisted, rfl⟩)]
    · rw [pending_congr ((hl.fanout _).trans (if_neg hb)), if_neg hb, List.append_nil]
      exact hbefore
  · intro l link hlink
    rw [hlinks] at hlink
    rw [hsent, hl.fanouts, List.drop_append_of_le_length (h.made l link hlink).2]
    exact (h.dead l link hlink).trans (List.prefix_append _ _)

theorem wired_lock {s s' : Bridge N} (h : Wired s) {c : Nat} (hlock : s.lock c = some s') : Wired s' := by
  obtain ⟨call, hl⟩ := lock_some hlock
  have hchans : s'.chans = s.chans := by rw [hl.frame]
  have harrivals : s'.arrivals = s.arrivals := by rw [hl.frame]
  have hlocal : s'.localPubSub = s.localPubSub := by rw [hl.frame]
  refine ⟨?_, calls_lock h.calls hl, carries_lock h.carries hl, h.relays.frame hl.keeps
    (unrelayed_of_eq harrivals) (by rw [hl.frame]) (sentOn_congr hchans) (by rw [hl.frame]) (by rw [hl.frame])⟩
  rw [hlocal, harrivals]
  exact h.queues

end Mahalo.Bridge
