/-
The broadcasts between the reply to a join and its `Subscribe`.

`handle_join` replies, calls `started`, and only then subscribes.  Nothing holds
back the server or another publisher meanwhile, so a broadcast that is enqueued in
this window finds the connection told that it has joined, and no subscription to
put the message on.  That is the only way to lose one: in a run with no broadcast
in a window, everything the server has handled since a reply is on a subscription
of the connection, in order.
-/
import Mahalo.Proofs.Channel.Connection

namespace Mahalo.Channels

open History PubSub

variable {α Ω : Type}

/-- The connection was told that it has joined `t`, and has not subscribed to it yet. -/
def InWindow (h : List (Event α Ω ⊕ PubSubCommand)) (t : String) : Prop :=
  (∃ msg, .inl (.send (.joinOk t) msg) ∈ h) ∧ .inl (.subscribe t) ∉ h

/-- The step enqueues a broadcast on `t`: another publisher's, or one by a channel of the connection. -/
def Sys.Publishes (s : Sys α Ω) (l : SysLabel Ω) (t : String) : Prop :=
  (∃ event payload, l = .publish t event payload) ∨
    ∃ ω event payload k, l = .run ω ∧ s.conn.todo = some (.emit (.effect (.broadcast t event payload)) k)

/-- No broadcast is enqueued in a window. -/
def Sys.Quiet (s : Sys α Ω) (l : SysLabel Ω) : Prop :=
  ∀ t, s.Publishes l t → ¬InWindow s.history t

/-- What was broadcast on `t` behind the first `n` commands is on a subscription of the connection. -/
def Sys.Delivers (s : Sys α Ω) (t : String) (n : Nat) : Prop :=
  broadcastsOn t (s.pubsub.handled.drop n) = [] ∨
    ∃ k id c, (t, k) ∈ s.own ∧ s.pubsub.replies.lookup k = some id ∧
      s.pubsub.chans[id]? = some c ∧ c.alive = true ∧
      broadcastsOn t (s.pubsub.handled.drop n) <:+ c.sent

/-- Every reply to a join is followed by deliveries alone. -/
def Sys.LosesNothing (s : Sys α Ω) : Prop :=
  ∀ pre t msg post, s.history = pre ++ .inl (.send (.joinOk t) msg) :: post →
    s.Delivers t (commands pre).length

/-! ### The history -/

/-- A broadcast is not in a window. -/
def OutsideWindow (h : List (Event α Ω ⊕ PubSubCommand)) (e : Event α Ω ⊕ PubSubCommand) : Prop :=
  ∀ t m, e = .inr (.broadcast t m) → ¬InWindow h t

theorem inWindow_effect {h : List (Event α Ω ⊕ PubSubCommand)} {e : Effect} {t : String}
    (hw : InWindow (h ++ [.inl (.effect e)]) t) : InWindow h t := by
  obtain ⟨⟨msg, hmem⟩, hsub⟩ := hw
  refine ⟨⟨msg, ?_⟩, fun hmem => hsub (List.mem_append_left _ hmem)⟩
  rcases List.mem_append.mp hmem with hmem | hmem
  · exact hmem
  · cases List.mem_singleton.mp hmem

section

variable [EmptyCollection α] {serde : SerdeJson} {router : ChannelRouter α Ω} {s s' : Sys α Ω}

omit [EmptyCollection α] in
theorem guarded_event {h : List (Event α Ω ⊕ PubSubCommand)} (hg : Guarded OutsideWindow h)
    (e : Event α Ω) : Guarded OutsideWindow (h ++ [.inl e]) :=
  guarded_concat hg nofun

theorem guarded_turn (hg : Guarded OutsideWindow s.history) {l : SysLabel Ω}
    (hquiet : s.Quiet l) (h : Turn serde router s l s') : Guarded OutsideWindow s'.history := by
  cases h with
  | @run ω e k s1 a htodo hacts =>
      have hrec := guarded_event hg e
      cases hacts with
      | subscribe t => exact guarded_concat hrec nofun
      | broadcast topic event payload =>
          refine guarded_concat hrec ?_
          rintro t m ⟨⟩ hin
          exact hquiet topic (Or.inr ⟨ω, event, payload, k, rfl, htodo⟩) (inWindow_effect hin)
      | _ => exact hrec
  | finish htodo => exact guarded_event hg .idle
  | publish topic event payload =>
      refine guarded_concat hg ?_
      rintro t m ⟨⟩
      exact hquiet topic (Or.inl ⟨event, payload, rfl⟩)
  | subscribeOther topic => exact guarded_concat hg nofun
  | _ => exact hg

/-! ### What the history gives -/

omit [EmptyCollection α] in
/-- The broadcasts on a topic start at the first of them. -/
theorem first_broadcast (t : String) (cmds : List PubSubCommand) :
    broadcastsOn t cmds = [] ∨ ∃ before m after, cmds = before ++ .broadcast t m :: after ∧
      broadcastsOn t before = [] := by
  induction cmds with
  | nil => exact Or.inl rfl
  | cons cmd rest ih =>
      have hcons : broadcastsOn t (cmd :: rest) = broadcastsOn t [cmd] ++ broadcastsOn t rest :=
        broadcastsOn_append t [cmd] rest
      by_cases hcmd : ∃ m, cmd = .broadcast t m
      · obtain ⟨m, rfl⟩ := hcmd
        exact Or.inr ⟨[], m, rest, rfl, rfl⟩
      have hnone : broadcastsOn t [cmd] = [] := by
        cases cmd with
        | broadcast t' m =>
            have : t' ≠ t := by rintro rfl; exact hcmd ⟨m, rfl⟩
            simp [broadcastsOn, this]
        | _ => rfl
      rcases ih with ih | ⟨before, m, after, rfl, hbefore⟩
      · exact Or.inl (by rw [hcons, hnone, ih]; rfl)
      · refine Or.inr ⟨cmd :: before, m, after, rfl, ?_⟩
        have : broadcastsOn t (cmd :: before) = broadcastsOn t [cmd] ++ broadcastsOn t before :=
          broadcastsOn_append t [cmd] before
        rw [this, hnone, hbefore]
        rfl

omit [EmptyCollection α] in
/-- A command of the queue in the history. -/
theorem split_commands {h : List (Event α Ω ⊕ PubSubCommand)} {before after : List PubSubCommand}
    {cmd : PubSubCommand} (hcmds : commands h = before ++ cmd :: after) :
    ∃ pre post, h = pre ++ .inr cmd :: post ∧ commands pre = before := by
  obtain ⟨pre, rest, rfl, hpre, hrest⟩ := List.filterMap_eq_append_iff.mp hcmds
  obtain ⟨events, x, post, rfl, hevents, hx, -⟩ := List.filterMap_eq_cons_iff.mp hrest
  cases x with
  | inl e => cases hx
  | inr cmd' =>
      cases hx
      refine ⟨pre ++ events, post, by rw [List.append_assoc], ?_⟩
      rw [commands_append]
      show commands pre ++ events.filterMap _ = before
      rw [List.filterMap_eq_nil_iff.mpr hevents, List.append_nil]
      exact hpre

omit [EmptyCollection α] in
/-- Of two marks in a history, the one with fewer commands before it comes first. -/
theorem mem_of_fewer_commands {pre post pre' post' : List (Event α Ω ⊕ PubSubCommand)}
    {x : Event α Ω ⊕ PubSubCommand} {cmd : PubSubCommand} (hne : x ≠ .inr cmd)
    (h : pre ++ x :: post = pre' ++ .inr cmd :: post')
    (hle : (commands pre).length ≤ (commands pre').length) : x ∈ pre' := by
  rcases List.append_eq_append_iff.mp h with ⟨mid, rfl, hmid⟩ | ⟨mid, rfl, hmid⟩
  · cases mid with
    | nil => exact absurd (List.cons.inj hmid).1 hne
    | cons y mid =>
        obtain ⟨rfl, -⟩ := List.cons.inj hmid
        exact List.mem_append_right _ (List.mem_cons_self ..)
  · cases mid with
    | nil => exact absurd (List.cons.inj hmid).1.symm hne
    | cons y mid =>
        obtain ⟨rfl, -⟩ := List.cons.inj hmid
        rw [commands_append, List.length_append] at hle
        have : commands (.inr cmd :: mid : List (Event α Ω ⊕ PubSubCommand)) = cmd :: commands mid :=
          rfl
        rw [this, List.length_cons] at hle
        omega

omit [EmptyCollection α] in
theorem losesNothing_of_guarded (hw : s.Wired) (hg : Guarded OutsideWindow s.history)
    (hrunning : s.conn.stopped = false) : s.LosesNothing := by
  intro pre t msg post hreply
  rcases first_broadcast t (s.pubsub.handled.drop (commands pre).length) with
    hnone | ⟨before, m, after, hsplit, hbefore⟩
  · exact Or.inl hnone
  -- the first broadcast behind the reply, in the history
  have hhandled : s.pubsub.handled
      = (s.pubsub.handled.take (commands pre).length ++ before) ++ .broadcast t m :: after := by
    rw [List.append_assoc, ← hsplit, List.take_append_drop]
  have hlen : (commands pre).length
      ≤ (s.pubsub.handled.take (commands pre).length ++ before).length := by
    have := congrArg List.length hsplit
    rw [List.length_drop, List.length_append, List.length_cons] at this
    rw [List.length_append, List.length_take]
    omega
  have hcmds : commands s.history
      = (s.pubsub.handled.take (commands pre).length ++ before) ++
        .broadcast t m :: (after ++ s.pubsub.queue) := by
    rw [← hw.commands, hw.tracks.fifo]
    conv_lhs => rw [hhandled]
    rw [List.append_assoc, List.cons_append]
  generalize s.pubsub.handled.take (commands pre).length ++ before = front at *
  obtain ⟨hist, rest, hhist, rfl⟩ := split_commands hcmds
  have hmem : .inl (.send (.joinOk t) msg) ∈ hist :=
    mem_of_fewer_commands nofun (hreply.symm.trans hhist) hlen
  -- it is not in a window, so the connection has subscribed by then
  have hsub : .inl (.subscribe t) ∈ hist := by
    by_contra hnot
    exact hg hist _ rest hhist t m rfl ⟨⟨msg, hmem⟩, hnot⟩
  obtain ⟨a, b, rfl⟩ := List.append_of_mem hsub
  obtain ⟨hown, post', hpost'⟩ := hw.asked a t (b ++ .inr (.broadcast t m) :: rest)
    (by rw [hhist, List.append_assoc]; rfl)
  have hlt : (commands a).length + 1 ≤ (commands (a ++ .inl (.subscribe t) :: b)).length := by
    cases b with
    | nil => cases hpost'
    | cons x b =>
        obtain ⟨rfl, -⟩ := List.cons.inj hpost'
        rw [commands_append, List.length_append]
        exact Nat.add_le_add_left (Nat.le_add_left ..) _
  generalize commands (a ++ .inl (.subscribe t) :: b) = front at *
  have hdrop : s.pubsub.handled.drop front.length = .broadcast t m :: after := by
    rw [hhandled, List.drop_left]
  obtain ⟨id, c, hid, hc, halive, hsent⟩ := subscription_sent hw hrunning hown (by
    rw [hhandled, List.length_append, List.length_cons]
    omega)
  refine Or.inr ⟨_, id, c, hown, hid, hc, halive, ?_⟩
  rw [hsent, hsplit, broadcastsOn_append, hbefore, List.nil_append, ← hdrop]
  exact (List.drop_suffix_drop_left _ hlt).filterMap _

end

/--
**No broadcast is lost outside the window.**  In every run in which no broadcast
on a topic is enqueued between the connection's `ok` reply to a join of it and its
`Subscribe`, and in every state reached with the connection still there: all that
was broadcast on the topic behind such a reply, and that the server has handled,
is on a subscription of the connection, in order and at its end.
-/
theorem broadcasts_delivered [EmptyCollection α] (serde : SerdeJson) (router : ChannelRouter α Ω)
    {labels : List (SysLabel Ω)} {s : Sys α Ω}
    (hquiet : (sysSystem serde router).Along Sys.Quiet Sys.init labels)
    (hrun : (sysSystem serde router).exec Sys.init labels = some s)
    (hrunning : s.conn.stopped = false) : s.LosesNothing := by
  have hinv : s.Wired ∧ Guarded OutsideWindow s.history :=
    Lts.exec_invariant_along (M := sysSystem serde router)
      (I := fun s => s.Wired ∧ Guarded OutsideWindow s.history) ⟨wired_init, guarded_nil _⟩
      (fun s l s' hs hq hstep =>
        have hturn := step_turn hs.1.running hstep
        ⟨wired_turn hs.1 hturn, guarded_turn hs.2 hq hturn⟩) hquiet hrun
  exact losesNothing_of_guarded hinv.1 hinv.2 hrunning

/-! ### Two runs -/

/-- A step that publishes on no topic, or on one the connection has subscribed to. -/
def Sys.quiet (s : Sys α Ω) (l : SysLabel Ω) : Bool :=
  let subscribed (t : String) := s.history.any fun
    | .inl (.subscribe t') => t' == t
    | _ => false
  match l with
  | .publish topic .. => subscribed topic
  | .run _ =>
      match s.conn.todo with
      | some (.emit (.effect (.broadcast topic ..)) _) => subscribed topic
      | _ => true
  | _ => true

theorem quiet_of_test (s : Sys α Ω) (l : SysLabel Ω) (h : s.quiet l = true) : s.Quiet l := by
  have hsub : ∀ t, (s.history.any fun
      | .inl (.subscribe t') => t' == t
      | _ => false) = true → ¬InWindow s.history t := by
    rintro t hany ⟨-, hnot⟩
    obtain ⟨x, hmem, hx⟩ := List.any_eq_true.mp hany
    split at hx
    · rw [beq_iff_eq.mp hx] at hmem
      exact hnot hmem
    · cases hx
  rintro t (⟨event, payload, rfl⟩ | ⟨ω, event, payload, k, rfl, htodo⟩)
  · exact hsub t h
  · unfold Sys.quiet at h
    rw [htodo] at h
    exact hsub t h

theorem broadcasts_delivered_afterJoin :
    ∃ s, (sysSystem roomSerde echoRouter).exec Sys.init
        (joinRoom ++ [.publish "room:1" "news" .null, .serve]) = some s ∧
      (broadcastsOn "room:1" s.pubsub.handled).length = 1 ∧ s.LosesNothing := by
  have hquiet : (sysSystem roomSerde echoRouter).Along Sys.Quiet Sys.init
      (joinRoom ++ [.publish "room:1" "news" .null, .serve]) :=
    Lts.along_of_check quiet_of_test rfl
  obtain ⟨s, hrun, hrunning, hone⟩ : ∃ s, (sysSystem roomSerde echoRouter).exec Sys.init
      (joinRoom ++ [.publish "room:1" "news" .null, .serve]) = some s ∧ s.conn.stopped = false ∧
      (broadcastsOn "room:1" s.pubsub.handled).length = 1 := ⟨_, rfl, rfl, rfl⟩
  exact ⟨s, hrun, hone, broadcasts_delivered roomSerde echoRouter hquiet hrun hrunning⟩

/-- A channel that greets the room when it has started. -/
def greeter : Channel (List Nat) Unit :=
  { echo with
    started := fun socket => do
      let _ ← socket.broadcast "news" .null
      return socket }

def greeterRouter : ChannelRouter (List Nat) Unit := ChannelRouter.new.channel "room:*" greeter

/-- The client has its reply and the server has handled the greeting, which is on no subscription. -/
theorem greeting_lost :
    ∃ s, (sysSystem roomSerde greeterRouter).exec Sys.init
        [.receive joinText, .cast, .run (), .run (), .run (), .run (), .run (), .run (), .serve,
          .serve, .run (), .run (), .run (), .finish] = some s ∧
      s.conn.stopped = false ∧ s.conn.joined.keys = ["room:1"] ∧
      s.out = [replyText "null" "1"] ∧ s.pubsub.queue.length = 0 ∧ ¬s.LosesNothing := by
  refine ⟨_, rfl, rfl, rfl, rfl, rfl, ?_⟩
  intro hnothing
  rcases hnothing [_, _] "room:1" _ _ rfl with hnone | ⟨k, id, c, -, -, hc, -, hsuffix⟩
  · cases hnone
  · cases id with
    | zero =>
        cases hc
        exact absurd hsuffix.length_le (by decide)
    | succ id => cases hc

end Mahalo.Channels
