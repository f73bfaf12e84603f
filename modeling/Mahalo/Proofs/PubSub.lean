/-
Exactly once and in order, per topic.

What a receiver should have been sent is a function of the commands handled so
far: the broadcasts on its topic behind its own `Subscribe`.  `Tracks` says that
the server's state agrees with that history, and every turn of a client, of the
server or of a receiver keeps it.  Senders are pruned while a broadcast is sent,
so a topic's senders are only a sublist of its subscriptions, but one that has
every live receiver.  What the commands do to the topics and channels is what the
operations of a hub do, so to agree with a history is to be a hub that follows it.
-/
import Mahalo.Lib.Hub
import Mahalo.PubSub

namespace Mahalo.PubSub

open History

/-! ### What the history asks for -/

/-- The topics subscribed to, in the order in which the server handled the commands. -/
def subscriptions (h : List PubSubCommand) : List String :=
  h.filterMap fun
    | .subscribe topic _ => some topic
    | _ => none

/-- The messages broadcast on a topic. -/
def broadcastsOn (t : String) (h : List PubSubCommand) : List PubSubMessage :=
  h.filterMap fun
    | .broadcast topic msg => if topic = t then some msg else none
    | _ => none

/-- The channels subscribed to a topic, in the order of their `Subscribe` commands. -/
def subscribersOf (t : String) (h : List PubSubCommand) : List Nat := positions t (subscriptions h)

def Server.senders (s : Server) (t : String) : List Nat := (s.topics.lookup t).getD []

abbrev aliveAt (chans : List Chan) (id : Nat) : Bool := Mpsc.aliveAt chans id

theorem broadcastsOn_append (t : String) (h h' : List PubSubCommand) :
    broadcastsOn t (h ++ h') = broadcastsOn t h ++ broadcastsOn t h' := List.filterMap_append

/-- The topics and channels agree with a history `h` of handled commands. -/
structure Agrees (topics : Topics) (chans : List Chan) (h : List PubSubCommand) : Prop where
  inhabited : ∀ t ids, topics.lookup t = some ids → ids ≠ []
  count : chans.length = (subscriptions h).length
  pruned : ∀ t, ((topics.lookup t).getD []).Sublist (subscribersOf t h)
  listed : ∀ t, ∀ i ∈ subscribersOf t h, aliveAt chans i = true → i ∈ (topics.lookup t).getD []
  sent : ∀ pre t r post, h = pre ++ .subscribe t r :: post →
    ∃ c, chans[(subscriptions pre).length]? = some c ∧ c.sent <+: broadcastsOn t post ∧
      (c.alive = true → c.sent = broadcastsOn t post)

/-! ### The server as a hub -/

/-- The hub that some topics and channels are. -/
def hubOf (topics : Topics) (chans : List Chan) : Hub.State String PubSubMessage :=
  Hub.view chans fun t => (topics.lookup t).getD []

/-- What the commands ask of the hub. -/
def hubEvents (h : List PubSubCommand) : List (Hub.Event String PubSubMessage) :=
  h.filterMap fun
    | .subscribe topic _ => some (.subscribe topic)
    | .broadcast topic msg => some (.publish topic msg)
    | _ => none

theorem hubEvents_append (h h' : List PubSubCommand) :
    hubEvents (h ++ h') = hubEvents h ++ hubEvents h' := List.filterMap_append

theorem subscriptions_hubEvents (h : List PubSubCommand) :
    Hub.subscriptions (hubEvents h) = subscriptions h := by
  unfold Hub.subscriptions hubEvents subscriptions
  rw [List.filterMap_filterMap]
  refine List.filterMap_congr fun cmd _ => ?_
  cases cmd <;> rfl

theorem published_hubEvents (t : String) (h : List PubSubCommand) :
    Hub.published t (hubEvents h) = broadcastsOn t h := by
  unfold Hub.published hubEvents broadcastsOn
  rw [List.filterMap_filterMap]
  refine List.filterMap_congr fun cmd _ => ?_
  cases cmd <;> rfl

theorem subscribersOf_hubEvents (t : String) (h : List PubSubCommand) :
    Hub.subscribersOf t (hubEvents h) = subscribersOf t h := by
  unfold Hub.subscribersOf subscribersOf
  rw [subscriptions_hubEvents]

/-- A subscription that the hub sees is a `Subscribe` of the history. -/
theorem split_hubEvents {h : List PubSubCommand} {pre post : List (Hub.Event String PubSubMessage)}
    {t : String} (hsplit : hubEvents h = pre ++ .subscribe t :: post) :
    ∃ pre' r post', h = pre' ++ .subscribe t r :: post' ∧ hubEvents pre' = pre ∧ hubEvents post' = post := by
  obtain ⟨front, back, rfl, hfront, hback⟩ := List.filterMap_eq_append_iff.mp hsplit
  obtain ⟨skipped, cmd, post', rfl, hskipped, hcmd, hpost⟩ := List.filterMap_eq_cons_iff.mp hback
  cases cmd with
  | subscribe topic r =>
      obtain rfl : topic = t := by simpa using hcmd
      refine ⟨front ++ skipped, r, post', (List.append_assoc ..).symm, ?_, hpost⟩
      rw [hubEvents_append, ← hfront, show hubEvents skipped = [] from List.filterMap_eq_nil_iff.mpr hskipped]
      exact List.append_nil _
  | broadcast topic msg => cases hcmd
  | unsubscribe topic => cases hcmd
  | shutdown => cases hcmd

theorem alive_hubOf (topics : Topics) (chans : List Chan) (i : Nat) :
    (hubOf topics chans).alive i = aliveAt chans i := rfl

theorem sent_hubOf (topics : Topics) {chans : List Chan} {i : Nat} {c : Chan} (hc : chans[i]? = some c) :
    (hubOf topics chans).sent i = c.sent := Mpsc.sentOn_eq hc

/-- **To agree with a history is to be a hub that follows it.** -/
theorem agrees_iff {topics : Topics} {chans : List Chan} {h : List PubSubCommand} :
    Agrees topics chans h ↔ (∀ t ids, topics.lookup t = some ids → ids ≠ []) ∧
      Hub.Follows (hubOf topics chans) (hubEvents h) := by
  have hcount : (hubOf topics chans).count = chans.length := rfl
  constructor
  · intro ha
    refine ⟨ha.inhabited, ?_, ?_, ?_, ?_⟩
    · rw [hcount, subscriptions_hubEvents]
      exact ha.count
    · intro t
      rw [subscribersOf_hubEvents]
      exact ha.pruned t
    · intro t i hi hlive
      rw [subscribersOf_hubEvents] at hi
      rw [alive_hubOf] at hlive
      exact ha.listed t i hi hlive
    · intro pre t post hsplit
      obtain ⟨pre, r, post, rfl, rfl, rfl⟩ := split_hubEvents hsplit
      obtain ⟨c, hc, hfront, hall⟩ := ha.sent pre t r post rfl
      rw [subscriptions_hubEvents, published_hubEvents, sent_hubOf topics hc, alive_hubOf]
      exact ⟨hfront, fun hlive => hall ((Mpsc.aliveAt_eq hc).symm.trans hlive)⟩
  · rintro ⟨hinhabited, hf⟩
    refine ⟨hinhabited, ?_, ?_, ?_, ?_⟩
    · rw [← hcount, hf.count, subscriptions_hubEvents]
    · intro t
      rw [← subscribersOf_hubEvents]
      exact hf.pruned t
    · intro t i hi hlive
      rw [← subscribersOf_hubEvents] at hi
      exact hf.listed t i hi ((alive_hubOf ..).trans hlive)
    · rintro pre t r post rfl
      have hevents : hubEvents (pre ++ .subscribe t r :: post)
          = hubEvents pre ++ .subscribe t :: hubEvents post := hubEvents_append pre _
      have hlt := Hub.subscriptions_lt (hubEvents pre) t (hubEvents post)
      obtain ⟨hfront, hall⟩ := hf.sent _ t _ hevents
      rw [← hevents, ← hf.count, hcount, subscriptions_hubEvents] at hlt
      have hc := List.getElem?_eq_getElem hlt
      rw [subscriptions_hubEvents, published_hubEvents, sent_hubOf topics hc] at hfront hall
      rw [alive_hubOf] at hall
      exact ⟨_, hc, hfront, fun hlive => hall ((Mpsc.aliveAt_eq hc).trans hlive)⟩

/-! ### What the operations do to the hub -/

theorem handleCommand_broadcast {s : Server} {topic : String} {ids : List Nat}
    (hlookup : s.topics.lookup topic = some ids) (msg : PubSubMessage) :
    handleCommand (.broadcast topic msg) s = ({ s with
      topics := if (Mpsc.retainSend msg s.chans ids).2.isEmpty then s.topics.erase topic
        else s.topics.insert topic (Mpsc.retainSend msg s.chans ids).2
      chans := (Mpsc.retainSend msg s.chans ids).1 }, false) := by
  unfold handleCommand
  simp only [hlookup]

theorem handleCommand_broadcast_none {s : Server} {topic : String}
    (hlookup : s.topics.lookup topic = none) (msg : PubSubMessage) :
    handleCommand (.broadcast topic msg) s = (s, false) := by
  unfold handleCommand
  simp only [hlookup]

/-- Erasing a topic that is not there changes nothing. -/
theorem handleCommand_unsubscribe (topic : String) (s : Server) :
    handleCommand (.unsubscribe topic) s = ({ s with topics := s.topics.erase topic }, false) := by
  unfold handleCommand
  cases hlookup : s.topics.lookup topic with
  | none =>
      have herase : s.topics.erase topic = s.topics := by
        refine AList.ext ?_
        rw [AList.lookup_eq_none, AList.mem_keys] at hlookup
        exact List.kerase_of_notMem_keys hlookup
      simp only [hlookup, herase]
  | some ids => simp only [hlookup]

def Server.hub (s : Server) : Hub.State String PubSubMessage := hubOf s.topics s.chans

theorem hub_subscribe (s : Server) (topic : String) (reply : Nat) :
    (handleCommand (.subscribe topic reply) s).1.hub = s.hub.subscribe topic :=
  Hub.view_open fun _ => Hub.getD_lookup_insert ..

/-- A topic that is left without senders is erased, which the hub does not see. -/
theorem getD_lookup_pruned (topics : Topics) (topic t : String) (kept : List Nat) :
    ((if kept.isEmpty then topics.erase topic else topics.insert topic kept).lookup t).getD []
      = if t = topic then kept else (topics.lookup t).getD [] := by
  by_cases hkept : kept.isEmpty = true
  · rw [if_pos hkept]
    by_cases ht : t = topic
    · rw [if_pos ht, ht, AList.lookup_erase, List.isEmpty_iff.mp hkept, Option.getD_none]
    · rw [if_neg ht, AList.lookup_erase_ne ht]
  · rw [if_neg hkept, Hub.getD_lookup_insert]

theorem hub_broadcast {s : Server} {topic : String} (msg : PubSubMessage)
    (hnodup : (s.hub.senders topic).Nodup) :
    (handleCommand (.broadcast topic msg) s).1.hub = s.hub.publish topic msg := by
  cases hlookup : s.topics.lookup topic with
  | none =>
      rw [handleCommand_broadcast_none hlookup]
      refine (Hub.publish_nobody ?_ msg).symm
      show (s.topics.lookup topic).getD [] = []
      rw [hlookup, Option.getD_none]
  | some ids =>
      obtain rfl : ids = s.hub.senders topic := by
        show ids = (s.topics.lookup topic).getD []
        rw [hlookup, Option.getD_some]
      rw [handleCommand_broadcast hlookup]
      exact Hub.view_retainSend msg hnodup fun _ => getD_lookup_pruned ..

theorem hub_drop (s : Server) (id : Nat) : (s.drop id).hub = s.hub.drop id := Hub.view_drop ..

theorem hub_unsubscribe (s : Server) (topic : String) :
    (handleCommand (.unsubscribe topic) s).1.hub = s.hub.close topic := by
  rw [handleCommand_unsubscribe]
  refine Hub.State.ext rfl ?_ rfl rfl
  funext t
  show ((s.topics.erase topic).lookup t).getD [] = if t = topic then [] else (s.topics.lookup t).getD []
  by_cases ht : t = topic
  · rw [if_pos ht, ht, AList.lookup_erase, Option.getD_none]
  · rw [if_neg ht, AList.lookup_erase_ne ht]

/-- A dropped receiver is none of the others. -/
theorem aliveAt_drop {s : Server} {id j : Nat} (hne : id ≠ j) (h : aliveAt s.chans j = true) :
    aliveAt (s.drop id).chans j = true := by
  rw [← alive_hubOf s.topics] at h ⊢
  show (s.drop id).hub.alive j = true
  rw [hub_drop]
  exact (if_neg (Ne.symm hne)).trans h

/-- A server that agrees with a history has each channel once among the senders of a topic. -/
theorem Agrees.nodup {s : Server} {h : List PubSubCommand} (hs : Agrees s.topics s.chans h) (t : String) :
    (s.hub.senders t).Nodup := (agrees_iff.mp hs).2.nodup t

/-- No command leaves a topic without a sender. -/
theorem inhabited_handleCommand {s : Server} (hs : ∀ t ids, s.topics.lookup t = some ids → ids ≠ [])
    (cmd : PubSubCommand) :
    ∀ t ids, (handleCommand cmd s).1.topics.lookup t = some ids → ids ≠ [] := by
  -- a topic that is not the command's is as it was
  have hinsert : ∀ (topic : String) (senders : List Nat), senders ≠ [] →
      ∀ t ids, (s.topics.insert topic senders).lookup t = some ids → ids ≠ [] := by
    intro topic senders hne t ids hids
    by_cases ht : t = topic
    · rw [ht, AList.lookup_insert] at hids
      exact Option.some.inj hids ▸ hne
    · rw [AList.lookup_insert_ne ht] at hids
      exact hs t ids hids
  have herase : ∀ topic t ids, (s.topics.erase topic).lookup t = some ids → ids ≠ [] := by
    intro topic t ids hids
    by_cases ht : t = topic
    · rw [ht, AList.lookup_erase] at hids
      cases hids
    · rw [AList.lookup_erase_ne ht] at hids
      exact hs t ids hids
  cases cmd with
  | subscribe topic reply => exact hinsert topic _ (by simp)
  | broadcast topic msg =>
      cases hlookup : s.topics.lookup topic with
      | none =>
          rw [handleCommand_broadcast_none hlookup]
          exact hs
      | some ids =>
          rw [handleCommand_broadcast hlookup]
          dsimp only
          split
          · exact herase topic
          · rename_i hkept
            exact hinsert topic _ (by simpa using hkept)
  | unsubscribe topic =>
      rw [handleCommand_unsubscribe]
      exact herase topic
  | shutdown => exact hs

/-- A command keeps the state in agreement with the history, but an `Unsubscribe` only
where none of the topic's receivers is left. -/
theorem agrees_handleCommand {s : Server} {h : List PubSubCommand} {cmd : PubSubCommand}
    (hs : Agrees s.topics s.chans h)
    (hcmd : ∀ t, cmd = .unsubscribe t → ∀ i ∈ s.senders t, aliveAt s.chans i = false) :
    Agrees (handleCommand cmd s).1.topics (handleCommand cmd s).1.chans (h ++ [cmd]) := by
  obtain ⟨hinhabited, hf⟩ := agrees_iff.mp hs
  refine agrees_iff.mpr ⟨inhabited_handleCommand hinhabited cmd, ?_⟩
  rw [hubEvents_append]
  show Hub.Follows (handleCommand cmd s).1.hub _
  cases cmd with
  | subscribe topic reply =>
      rw [hub_subscribe]
      exact hf.subscribe topic
  | broadcast topic msg =>
      rw [hub_broadcast msg (hs.nodup topic)]
      exact hf.publish topic msg
  | unsubscribe topic =>
      rw [hub_unsubscribe, show hubEvents [.unsubscribe topic] = [] from rfl, List.append_nil]
      refine hf.close ?_
      intro i hi
      rw [alive_hubOf]
      exact hcmd topic rfl i hi
  | shutdown =>
      rw [show hubEvents [.shutdown] = [] from rfl, List.append_nil]
      exact hf

/-! ### The invariant -/

/-- The server's state agrees with the commands it has handled, in runs without `Unsubscribe`. -/
structure Tracks (s : Server) : Prop where
  plain : ∀ cmd ∈ s.queue, ∀ t, cmd ≠ .unsubscribe t
  fifo : s.enqueued = s.handled ++ s.queue
  shutdownLast : ∀ pre post, s.handled = pre ++ .shutdown :: post → post = [] ∧ s.phase = .stopped
  inhabited : ∀ t ids, s.topics.lookup t = some ids → ids ≠ []
  count : s.chans.length = (subscriptions s.handled).length
  pruned : ∀ t, (s.senders t).Sublist (subscribersOf t s.handled)
  listed : ∀ t, ∀ i ∈ subscribersOf t s.handled, aliveAt s.chans i = true → i ∈ s.senders t
  sent : ∀ pre t r post, s.handled = pre ++ .subscribe t r :: post →
    ∃ c, s.chans[(subscriptions pre).length]? = some c ∧ c.sent <+: broadcastsOn t post ∧
      (c.alive = true → c.sent = broadcastsOn t post)

theorem tracks_start : Tracks Server.start where
  plain := by intro cmd h; cases h
  fifo := rfl
  shutdownLast := by intro pre post h; exact absurd h.symm (by simp [Server.start])
  inhabited := by intro t ids h; cases h
  count := rfl
  pruned := by intro t; exact List.nil_sublist _
  listed := by intro t i h; cases h
  sent := by intro pre t r post h; exact absurd h.symm (by simp [Server.start])

theorem tracks_enqueue {s : Server} (hs : Tracks s) {cmd : PubSubCommand}
    (hcmd : ∀ t, cmd ≠ .unsubscribe t) : Tracks (s.enqueue cmd) := by
  unfold Server.enqueue
  by_cases hstop : s.phase = .stopped
  · rw [if_pos hstop]; exact hs
  · rw [if_neg hstop]
    refine { hs with plain := ?_, fifo := ?_ }
    · intro c hc
      rcases List.mem_append.mp hc with hc | hc
      · exact hs.plain c hc
      · rw [List.mem_singleton.mp hc]; exact hcmd
    · show s.enqueued ++ [cmd] = s.handled ++ (s.queue ++ [cmd])
      rw [hs.fifo, List.append_assoc]

/-- A split of the history of a server that has just handled `cmd`. -/
theorem shutdown_not_handled {s : Server} (hs : Tracks s) (hrun : s.phase ≠ .stopped) :
    PubSubCommand.shutdown ∉ s.handled := by
  intro hmem
  obtain ⟨pre, post, hsplit⟩ := List.append_of_mem hmem
  exact hrun (hs.shutdownLast pre post hsplit).2

/-- What is left of the queue, and the history with the command that was taken out of it. -/
theorem serve_cases {s s' : Server} (h : s.serve = some s') :
    (s.phase = .drain ∧ s.queue = [] ∧ s' = { s with phase := .recv }) ∨
    ∃ cmd queue, s.phase ≠ .stopped ∧ s.queue = cmd :: queue ∧
      s' = { (handleCommand cmd { s with queue, handled := s.handled ++ [cmd] }).1 with
        phase := if (handleCommand cmd { s with queue, handled := s.handled ++ [cmd] }).2
          then .stopped else .drain } := by
  unfold Server.serve at h
  split at h
  · cases h
  · cases h
  · rename_i hphase hqueue
    cases h
    exact Or.inl ⟨hphase, hqueue, rfl⟩
  · rename_i cmd queue hqueue hstop
    cases h
    exact Or.inr ⟨cmd, queue, hstop, hqueue, rfl⟩

/-- The fields a command leaves alone. -/
theorem handleCommand_frame (cmd : PubSubCommand) (s : Server) :
    (handleCommand cmd s).1.queue = s.queue ∧ (handleCommand cmd s).1.handled = s.handled ∧
    (handleCommand cmd s).1.enqueued = s.enqueued ∧
    ((handleCommand cmd s).2 = true ↔ cmd = .shutdown) := by
  cases cmd with
  | subscribe topic reply => exact ⟨rfl, rfl, rfl, nofun, nofun⟩
  | broadcast topic msg =>
      cases hlookup : s.topics.lookup topic with
      | none =>
          rw [handleCommand_broadcast_none hlookup]
          exact ⟨rfl, rfl, rfl, nofun, nofun⟩
      | some ids =>
          rw [handleCommand_broadcast hlookup]
          exact ⟨rfl, rfl, rfl, nofun, nofun⟩
  | unsubscribe topic =>
      rw [handleCommand_unsubscribe]
      exact ⟨rfl, rfl, rfl, nofun, nofun⟩
  | shutdown => exact ⟨rfl, rfl, rfl, fun _ => rfl, fun _ => rfl⟩

theorem tracks_agrees {s : Server} (hs : Tracks s) : Agrees s.topics s.chans s.handled :=
  ⟨hs.inhabited, hs.count, hs.pruned, hs.listed, hs.sent⟩

theorem agrees_drop {s : Server} {h : List PubSubCommand} (hs : Agrees s.topics s.chans h) (id : Nat) :
    Agrees (s.drop id).topics (s.drop id).chans h := by
  obtain ⟨hinhabited, hf⟩ := agrees_iff.mp hs
  refine agrees_iff.mpr ⟨hinhabited, ?_⟩
  show Hub.Follows (s.drop id).hub (hubEvents h)
  rw [hub_drop]
  exact hf.drop id

theorem tracks_drop {s : Server} (hs : Tracks s) (id : Nat) : Tracks (s.drop id) := by
  have hagrees := agrees_drop (tracks_agrees hs) id
  exact { hs with count := hagrees.count, listed := hagrees.listed, sent := hagrees.sent }

theorem tracks_serve {s s' : Server} (hs : Tracks s) (h : s.serve = some s') : Tracks s' := by
  rcases serve_cases h with ⟨hphase, hqueue, rfl⟩ | ⟨cmd, queue, hrun, hqueue, rfl⟩
  · refine { hs with shutdownLast := ?_ }
    intro pre post hsplit
    have hstop := (hs.shutdownLast pre post hsplit).2
    rw [hphase] at hstop
    cases hstop
  · have hplain := hs.plain
    have hfifo := hs.fifo
    rw [hqueue] at hplain hfifo
    obtain ⟨hq, hh, he, hstop⟩ :=
      handleCommand_frame cmd { s with queue, handled := s.handled ++ [cmd] }
    obtain ⟨h1, h2, h3, h4, h5⟩ := agrees_handleCommand (h := s.handled)
      (s := { s with queue, handled := s.handled ++ [cmd] }) (tracks_agrees hs)
      (fun t ht => absurd ht (hplain cmd (List.mem_cons_self ..) t))
    generalize handleCommand cmd { s with queue, handled := s.handled ++ [cmd] } = out at *
    refine ⟨?_, ?_, ?_, h1, ?_, ?_, ?_, ?_⟩
    · show ∀ c ∈ out.1.queue, _
      rw [hq]
      exact fun c hc => hplain c (List.mem_cons_of_mem _ hc)
    · show out.1.enqueued = out.1.handled ++ out.1.queue
      rw [he, hh, hq]
      show s.enqueued = (s.handled ++ [cmd]) ++ queue
      rw [hfifo, List.append_assoc]
      rfl
    · intro pre post hsplit
      have hsplit : s.handled ++ [cmd] = pre ++ .shutdown :: post := hh.symm.trans hsplit
      rcases concat_eq_split hsplit with ⟨rfl, hcmd, -⟩ | ⟨post', rfl, hold⟩
      · exact ⟨rfl, if_pos (hstop.mpr hcmd.symm)⟩
      · exact absurd (by rw [hold]; simp) (shutdown_not_handled hs hrun)
    · show out.1.chans.length = (subscriptions out.1.handled).length
      rw [hh]; exact h2
    · show ∀ t, ((out.1.topics.lookup t).getD []).Sublist (subscribersOf t out.1.handled)
      rw [hh]; exact h3
    · show ∀ t, ∀ i ∈ subscribersOf t out.1.handled, aliveAt out.1.chans i = true →
        i ∈ (out.1.topics.lookup t).getD []
      rw [hh]; exact h4
    · show ∀ pre t r post, out.1.handled = pre ++ .subscribe t r :: post → _
      rw [hh]; exact h5

theorem tracks_hangup {s s' : Server} (hs : Tracks s) (h : s.hangup = some s') : Tracks s' := by
  unfold Server.hangup at h
  split at h
  · cases h
    exact { hs with shutdownLast := fun pre post hsplit => ⟨(hs.shutdownLast pre post hsplit).1, rfl⟩ }
  · cases h

/-! ### Replies and receivers -/

/-- Only a `Subscribe` is answered, with the channel it has made. -/
theorem handleCommand_replies (cmd : PubSubCommand) (s : Server) :
    (handleCommand cmd s).1.replies = s.replies ++
      match cmd with
      | .subscribe _ reply => [(reply, s.chans.length)]
      | _ => [] := by
  cases cmd with
  | subscribe topic reply => rfl
  | broadcast topic msg =>
      cases hlookup : s.topics.lookup topic with
      | none => rw [handleCommand_broadcast_none hlookup]; exact (List.append_nil _).symm
      | some ids => rw [handleCommand_broadcast hlookup]; exact (List.append_nil _).symm
  | unsubscribe topic =>
      rw [handleCommand_unsubscribe]
      exact (List.append_nil _).symm
  | shutdown => exact (List.append_nil _).symm

/-- No command drops a receiver, and that of a new channel lives. -/
theorem aliveAt_handleCommand {s : Server} {h : List PubSubCommand} {cmd : PubSubCommand}
    (hs : Agrees s.topics s.chans h) {id : Nat} (halive : aliveAt s.chans id = true) :
    aliveAt (handleCommand cmd s).1.chans id = true := by
  rw [← alive_hubOf s.topics] at halive
  rw [← alive_hubOf (handleCommand cmd s).1.topics]
  show (handleCommand cmd s).1.hub.alive id = true
  cases cmd with
  | subscribe topic reply =>
      rw [hub_subscribe]
      show (if id = s.hub.count then true else s.hub.alive id) = true
      exact (if_congr Iff.rfl rfl halive).trans (ite_self _)
  | broadcast topic msg =>
      rw [hub_broadcast msg (hs.nodup topic)]
      exact halive
  | unsubscribe topic =>
      rw [handleCommand_unsubscribe]
      exact halive
  | shutdown => exact halive

theorem aliveAt_new (topic : String) (reply : Nat) (s : Server) :
    aliveAt (handleCommand (.subscribe topic reply) s).1.chans s.chans.length = true :=
  (Mpsc.aliveAt_open ..).trans (if_pos rfl)

/-! ### Every run -/

theorem tracks_run {labels : List Label} {s : Server}
    (hplain : ∀ t, Label.client (.unsubscribe t) ∉ labels)
    (h : system.exec system.init labels = some s) : Tracks s := by
  have halong : system.Along (fun _ l => ∀ t, l ≠ Label.client (.unsubscribe t)) system.init labels :=
    Lts.along_of_mem fun l hl t hlt => hplain t (by rw [← hlt]; exact hl)
  refine Lts.exec_invariant_along tracks_start ?_ halong h
  intro s l s' hs hl hstep
  cases l with
  | client cmd =>
      cases hstep
      exact tracks_enqueue hs fun t hcmd => hl t (by rw [hcmd])
  | serve => exact tracks_serve hs hstep
  | hangup => exact tracks_hangup hs hstep
  | drop id =>
      cases hstep
      exact tracks_drop hs id

/-- Every subscription is that of a command. -/
theorem exists_subscribe {h : List PubSubCommand} {id : Nat} (hid : id < (subscriptions h).length) :
    ∃ pre t r post, h = pre ++ .subscribe t r :: post ∧ (subscriptions pre).length = id := by
  induction h generalizing id with
  | nil => exact absurd hid (Nat.not_lt_zero id)
  | cons cmd rest ih =>
      by_cases hsub : ∃ t r, cmd = .subscribe t r
      · obtain ⟨t, r, rfl⟩ := hsub
        cases id with
        | zero => exact ⟨[], t, r, rest, rfl, rfl⟩
        | succ id =>
            obtain ⟨pre, t', r', post, rfl, hlen⟩ := ih (Nat.lt_of_succ_lt_succ hid)
            exact ⟨.subscribe t r :: pre, t', r', post, rfl, congrArg Nat.succ hlen⟩
      · have hskip : ∀ h, subscriptions (cmd :: h) = subscriptions h := by
          intro h
          cases cmd with
          | subscribe t r => exact absurd ⟨t, r, rfl⟩ hsub
          | _ => rfl
        rw [hskip] at hid
        obtain ⟨pre, t', r', post, rfl, hlen⟩ := ih hid
        exact ⟨cmd :: pre, t', r', post, rfl, by rw [hskip, hlen]⟩

/-- What is on a channel was broadcast. -/
theorem Tracks.enqueued_of_sent {s : Server} (hs : Tracks s) {id : Nat} {c : Chan} {msg : PubSubMessage}
    (hc : s.chans[id]? = some c) (hmsg : msg ∈ c.sent) : ∃ t, .broadcast t msg ∈ s.enqueued := by
  have hlt := (List.getElem?_eq_some_iff.mp hc).1
  rw [hs.count] at hlt
  obtain ⟨pre, t, r, post, hsplit, rfl⟩ := exists_subscribe hlt
  obtain ⟨c', hc', hsent, -⟩ := hs.sent pre t r post hsplit
  obtain rfl := Option.some.inj (hc.symm.trans hc')
  obtain ⟨cmd, hcmd, heq⟩ := List.mem_filterMap.mp (hsent.subset hmsg)
  refine ⟨t, ?_⟩
  rw [hs.fifo, hsplit]
  split at heq
  · split at heq
    · rename_i htopic
      obtain rfl := Option.some.inj heq
      subst htopic
      simp [hcmd]
    · cases heq
  · cases heq

/--
**PubSub delivers exactly once, in order, per topic.**  In every interleaving of
clients, server and dropped receivers, without `Unsubscribe`: the commands are
handled in the order the queue took them in, and none behind a `Shutdown`; every
`Subscribe` handled has a channel of its own, on which exactly the broadcasts on
its topic since then were sent, as long as its receiver lives, and the first of
them if it is gone; a topic's live senders are its live subscribers, in the order
they came; and no topic is left without a sender.
-/
theorem delivers_exactly_once {labels : List Label} {s : Server}
    (hplain : ∀ t, Label.client (.unsubscribe t) ∉ labels)
    (h : system.exec system.init labels = some s) :
    s.handled <+: s.enqueued ∧
    (∀ pre post, s.handled = pre ++ .shutdown :: post → post = []) ∧
    s.chans.length = (subscriptions s.handled).length ∧
    (∀ pre t r post, s.handled = pre ++ .subscribe t r :: post →
      ∃ c, s.chans[(subscriptions pre).length]? = some c ∧ c.sent <+: broadcastsOn t post ∧
        (c.alive = true → c.sent = broadcastsOn t post)) ∧
    (∀ t, (s.senders t).filter (aliveAt s.chans)
      = (subscribersOf t s.handled).filter (aliveAt s.chans)) ∧
    (∀ t ids, s.topics.lookup t = some ids → ids ≠ []) := by
  have hs := tracks_run hplain h
  refine ⟨?_, fun pre post hsplit => (hs.shutdownLast pre post hsplit).1, hs.count, hs.sent, ?_,
    hs.inhabited⟩
  · rw [hs.fifo]
    exact List.prefix_append _ _
  · intro t
    exact filter_eq_of_sublist (hs.pruned t) (positions_nodup _ _) (hs.listed t)

/-- Two subscribers of one topic, the second of which leaves between two broadcasts. -/
def twoSubscribers : List Label :=
  [.client (subscribe "room:1" 0), .serve, .client (subscribe "room:1" 1),
    .client (broadcastArc "room:1" "a" .null), .serve, .serve, .drop 1,
    .client (broadcastArc "room:1" "b" .null), .client (broadcastArc "room:2" "c" .null), .serve,
    .serve, .client shutdown, .client (broadcastArc "room:1" "d" .null), .serve]

theorem delivers_exactly_once_twoSubscribers :
    ∃ s, system.exec system.init twoSubscribers = some s ∧
      s.chans.map (fun c => (c.alive, c.sent.map (·.event))) = [(true, ["a", "b"]), (false, ["a"])] ∧
      s.chans.length = (subscriptions s.handled).length := by
  have hplain : ∀ t, Label.client (.unsubscribe t) ∉ twoSubscribers := by
    intro t
    simp [twoSubscribers, subscribe, broadcastArc, shutdown]
  refine ⟨_, rfl, rfl, ?_⟩
  exact (delivers_exactly_once hplain rfl).2.2.1

/-! ### Unsubscribe -/

/-- An `Unsubscribe` that the server takes out removes no sender whose receiver is alive. -/
def SparesLive (s : Server) (l : Label) : Prop :=
  l = .serve → ∀ t, s.queue.head? = some (.unsubscribe t) → ∀ s', s.serve = some s' →
    ∀ i ∈ s.senders t, aliveAt s.chans i = true → i ∈ s'.senders t

/-- When the server takes an `Unsubscribe` out, no receiver of its topic is left. -/
def Deserted (s : Server) (l : Label) : Prop :=
  l = .serve → ∀ t, s.queue.head? = some (.unsubscribe t) →
    ∀ i ∈ s.senders t, aliveAt s.chans i = false

/-- Every subscriber whose receiver is alive was sent each broadcast on its topic since then. -/
def StillServed (s : Server) : Prop :=
  ∀ pre t r post, s.handled = pre ++ .subscribe t r :: post →
    ∃ c, s.chans[(subscriptions pre).length]? = some c ∧
      (c.alive = true → c.sent = broadcastsOn t post)

/-- What is left of a topic's senders after its `Unsubscribe`. -/
theorem senders_unsubscribe {s s' : Server} {t : String} (hhead : s.queue.head? = some (.unsubscribe t))
    (h : s.serve = some s') : s'.senders t = [] := by
  rcases serve_cases h with ⟨-, hqueue, -⟩ | ⟨cmd, queue, -, hqueue, rfl⟩
  · rw [hqueue] at hhead
    cases hhead
  · obtain rfl : cmd = .unsubscribe t := by simpa [hqueue] using hhead
    rw [handleCommand_unsubscribe]
    show ((s.topics.erase t).lookup t).getD [] = []
    rw [AList.lookup_erase, Option.getD_none]

/-- A step spares the live exactly when there are none. -/
theorem sparesLive_iff {s s' : Server} {l : Label} (h : system.step s l = some s') :
    SparesLive s l ↔ Deserted s l := by
  constructor
  · intro hspares hl t hhead i hi
    subst hl
    by_contra halive
    have hleft := hspares rfl t hhead s' h i hi (by simpa using halive)
    rw [senders_unsubscribe hhead h] at hleft
    cases hleft
  · intro hdeserted hl t hhead s'' _ i hi halive
    rw [hdeserted hl t hhead i hi] at halive
    cases halive

/-- `Deserted`, as a test of the next command. -/
def nextDeserted (s : Server) : Bool :=
  match s.queue with
  | .unsubscribe t :: _ => (s.senders t).all fun i => !aliveAt s.chans i
  | _ => true

theorem deserted_of_next {s : Server} (l : Label) (h : nextDeserted s = true) : Deserted s l := by
  intro _ t hhead i hi
  obtain ⟨queue, hqueue⟩ := List.head?_eq_some_iff.mp hhead
  unfold nextDeserted at h
  rw [hqueue] at h
  simpa using List.all_eq_true.mp h i hi

theorem agrees_serve {s s' : Server} (hs : Agrees s.topics s.chans s.handled)
    (hdeserted : Deserted s .serve) (h : s.serve = some s') : Agrees s'.topics s'.chans s'.handled := by
  rcases serve_cases h with ⟨-, -, rfl⟩ | ⟨cmd, queue, -, hqueue, rfl⟩
  · exact hs
  · obtain ⟨-, hhandled, -, -⟩ := handleCommand_frame cmd { s with queue, handled := s.handled ++ [cmd] }
    show Agrees (handleCommand cmd _).1.topics (handleCommand cmd _).1.chans (handleCommand cmd _).1.handled
    rw [hhandled]
    refine agrees_handleCommand (s := { s with queue, handled := s.handled ++ [cmd] }) hs ?_
    intro t ht
    exact hdeserted rfl t (by rw [hqueue, ht]; rfl)

/-- Where every `Unsubscribe` comes to a deserted topic, the server agrees with its history. -/
theorem agrees_run {labels : List Label} {s : Server} (h : system.exec system.init labels = some s)
    (hdeserted : system.Along Deserted system.init labels) : Agrees s.topics s.chans s.handled := by
  refine Lts.exec_invariant_along (I := fun s => Agrees s.topics s.chans s.handled)
    (tracks_agrees tracks_start) ?_ hdeserted h
  intro s l s' hs hl hstep
  cases l with
  | client cmd =>
      cases hstep
      unfold Server.enqueue
      by_cases hstop : s.phase = .stopped
      · rw [if_pos hstop]
        exact hs
      · rw [if_neg hstop]
        exact hs
  | serve => exact agrees_serve hs hl hstep
  | hangup =>
      have hstep : s.hangup = some s' := hstep
      unfold Server.hangup at hstep
      split at hstep
      · cases hstep
        exact hs
      · cases hstep
  | drop id =>
      cases hstep
      exact agrees_drop hs id

/--
**When an `Unsubscribe` cuts nobody off.**  In every interleaving of clients, server
and dropped receivers: the `Unsubscribe` commands remove no sender whose receiver is
alive, and every live subscriber has been sent each later broadcast on its topic, if
and only if each `Unsubscribe` is taken out when no receiver of its topic is left.
-/
theorem unsubscribe_spares_iff {labels : List Label} {s : Server}
    (h : system.exec system.init labels = some s) :
    system.Along SparesLive system.init labels ∧ StillServed s ↔
      system.Along Deserted system.init labels := by
  constructor
  · rintro ⟨hspares, -⟩
    exact Lts.along_mono (fun s l s' hstep => (sparesLive_iff hstep).mp) h hspares
  · intro hdeserted
    refine ⟨Lts.along_mono (fun s l s' hstep => (sparesLive_iff hstep).mpr) h hdeserted, ?_⟩
    intro pre t r post hsplit
    obtain ⟨c, hc, -, hall⟩ := (agrees_run h hdeserted).sent pre t r post hsplit
    exact ⟨c, hc, hall⟩

/-- A topic that is unsubscribed when its only receiver is gone, and subscribed to again. -/
def lastOneLeaves : List Label :=
  [.client (subscribe "room:1" 0), .serve, .drop 0, .client (unsubscribe "room:1"), .serve,
    .client (subscribe "room:1" 1), .client (broadcastArc "room:1" "a" .null), .serve, .serve]

theorem unsubscribe_spares_iff_lastOneLeaves :
    ∃ s, system.exec system.init lastOneLeaves = some s ∧
      system.Along SparesLive system.init lastOneLeaves ∧ StillServed s :=
  ⟨_, rfl, (unsubscribe_spares_iff rfl).mpr (Lts.along_of_check (fun _ l => deserted_of_next l) rfl)⟩

/-- Two subscribers of one topic, the second of which leaves and unsubscribes. -/
def oneLeaves : List Label :=
  [.client (subscribe "room:1" 0), .serve, .client (subscribe "room:1" 1), .serve, .drop 1,
    .client (unsubscribe "room:1"), .serve, .client (broadcastArc "room:1" "a" .null), .serve]

/-- The first one is alive, and is not sent the broadcast that follows. -/
theorem unsubscribe_cuts_off : ∃ s, system.exec system.init oneLeaves = some s ∧
    s.chans.map (fun c => (c.alive, c.sent.length)) = [(true, 0), (false, 0)] ∧
    (broadcastsOn "room:1" s.handled).length = 1 ∧ ¬StillServed s ∧
    ¬system.Along SparesLive system.init oneLeaves := by
  refine ⟨_, rfl, rfl, rfl, ?_, ?_⟩
  · intro hserved
    obtain ⟨c, hc, hall⟩ := hserved [] "room:1" 0 _ rfl
    obtain rfl := Option.some.inj hc
    exact absurd (congrArg List.length (hall rfl)) (by decide)
  · intro hspares
    obtain ⟨-, h1⟩ := hspares
    obtain ⟨-, h2⟩ := h1 _ rfl
    obtain ⟨-, h3⟩ := h2 _ rfl
    obtain ⟨-, h4⟩ := h3 _ rfl
    obtain ⟨-, h5⟩ := h4 _ rfl
    obtain ⟨-, h6⟩ := h5 _ rfl
    obtain ⟨h7, -⟩ := h6 _ rfl
    exact absurd (h7 rfl "room:1" rfl _ rfl 0 (by decide) rfl) (by decide)

end Mahalo.PubSub
