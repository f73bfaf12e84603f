/-
One forwarder per joined topic, and one `handle_info` per broadcast.

Over a whole run, and only as long as no joined topic is left or joined again.  A
broadcast on its way through a connection is on the channel of the `Subscribe`,
then in the mailbox, then at hand, then handed to the callback; `Sys.passed` is
what has come off the channel so far, wherever it is now, and it is always the
beginning of what was broadcast.
-/
import Mahalo.Proofs.Channel.Subscription

namespace Mahalo.Channels

open Interactive PubSub

variable {α Ω : Type}

/-! ### The way of a broadcast -/

/-- A broadcast, as it is read back from its text. -/
def SerdeJson.carry (serde : SerdeJson) (msg : PubSubMessage) : PubSubMessage :=
  ((serde.pubsubToString msg).bind serde.pubsubFromStr).getD msg

/-- `serde_json` writes the message, not as a timer's key, and reads it back with its topic. -/
def SerdeJson.Carries (serde : SerdeJson) (msg : PubSubMessage) : Prop :=
  ∃ text, serde.pubsubToString msg = some text ∧
    serde.pubsubFromStr text = some (serde.carry msg) ∧ (serde.carry msg).topic = msg.topic ∧
    RustStd.stripPrefix text.toList timerPrefix.toList = none

/-- A text of the mailbox, if `handle_info` takes it as a broadcast on `t`. -/
def SerdeJson.infoOn (serde : SerdeJson) (t text : String) : Option PubSubMessage :=
  match RustStd.stripPrefix text.toList timerPrefix.toList with
  | some _ => none
  | none => (serde.pubsubFromStr text).filter fun msg => msg.topic == t

/-- The broadcast that a handler is about to pass on. -/
def inHand (t : String) : Option (Handler α Ω Unit) → List PubSubMessage
  | some (.emit (.call (.handleInfo .pubsub msg) t') _) => if t' = t then [msg] else []
  | _ => []

/-- What has come off the channels of a topic: handed on, at hand, or in the mailbox. -/
def Sys.passed (serde : SerdeJson) (s : Sys α Ω) (t : String) : List PubSubMessage :=
  infoCalls t s.conn.log ++ inHand t s.conn.todo ++ s.infos.filterMap (serde.infoOn t)

/-- The forwarders the connection has on a topic. -/
def Sys.forwardersOn (s : Sys α Ω) (t : String) : List Forwarder :=
  s.forwarders.filter fun f => f.running && f.topic == t

/-- What was broadcast on a topic since the `Subscribe` with reply channel `k`. -/
def Sys.sinceSubscribe (s : Sys α Ω) (t : String) (k : Nat) : List PubSubMessage :=
  broadcastsOn t (s.pubsub.handled.drop (k + 1))

/-- No joined topic is left in this step, and none is joined again. -/
def Sys.Steadily (serde : SerdeJson) (s : Sys α Ω) : SysLabel Ω → Prop
  | .cast => ∀ request casts, s.casts = request :: casts → ¬LeavesJoined serde request s.conn.joined
  | .run _ => ∀ t k, s.conn.todo = some (.emit (.joinReturned t true) k) → t ∉ s.conn.joined
  | _ => True

theorem inHand_keeps {τ : Track α Ω} {p : Handler α Ω Unit} {Q : Track α Ω → Unit → Prop}
    (hwp : Prog.wp steady τ p Q) (t : String) : inHand t (some p) = [] := by
  unfold inHand
  split
  · rename_i heq
    cases heq
    exact absurd trivial hwp.1.1
  · rfl

/-- An event moves a broadcast from the hand to the callback, or none. -/
theorem handling_event {τ : Track α Ω} {e : Event α Ω} {k : Answer Ω → Handler α Ω Unit}
    (hh : Handling τ (.emit e k)) {a : Answer Ω} (ha : steady.answers τ e a) (t : String) :
    infoCalls t [e] ++ inHand t (some (k a)) = inHand t (some (.emit e k)) := by
  cases hh with
  | keeps hwp =>
      rw [inHand_keeps hwp, inHand_keeps (hwp.2 a ha), infoCalls_single_ne hwp.1.1]
      rfl
  | @calls msg t' _ hwp =>
      rw [inHand_keeps (hwp a), List.append_nil]
      by_cases ht : t' = t <;> simp [infoCalls, inHand, ht]

theorem handling_next {τ : Track α Ω} {e : Event α Ω} {k : Answer Ω → Handler α Ω Unit}
    (hh : Handling τ (.emit e k)) {a : Answer Ω} (ha : steady.answers τ e a) :
    Prog.wp steady (τ.next e a) (k a) Balanced := by
  cases hh with
  | keeps hwp => exact hwp.2 a ha
  | calls hwp => exact hwp a

theorem infoOn_timer (serde : SerdeJson) {key : String}
    (hkey : (RustStd.stripPrefix key.toList timerPrefix.toList).isSome = true) (t : String) :
    serde.infoOn t key = none := by
  obtain ⟨rest, hrest⟩ := Option.isSome_iff_exists.mp hkey
  unfold SerdeJson.infoOn
  rw [hrest]

theorem stripPrefix_timerKey (topic event : String) :
    (RustStd.stripPrefix (timerKey topic event).toList timerPrefix.toList).isSome = true := by
  have hkey : (timerKey topic event).toList
      = timerPrefix.toList ++ (topic ++ String.singleton timerSep ++ event).toList := by
    unfold timerKey
    simp only [String.toList_append, List.append_assoc]
  rw [RustStd.stripPrefix_eq_some.mpr hkey]
  rfl

/-- The text of a broadcast, in the mailbox. -/
theorem infoOn_carried {serde : SerdeJson} {msg : PubSubMessage} (hc : serde.Carries msg)
    {text : String} (htext : serde.pubsubToString msg = some text) (t : String) :
    serde.infoOn t text = if msg.topic = t then some (serde.carry msg) else none := by
  obtain ⟨text', htext', hread, htopic, hstrip⟩ := hc
  rw [htext] at htext'
  cases htext'
  unfold SerdeJson.infoOn
  rw [hstrip]
  simp only [hread, Option.filter_some, htopic]
  by_cases h : msg.topic = t <;> simp [h]

/-! ### The invariant -/

/-- What the handler knows of its subscriptions is so. -/
structure Track.Valid (τ : Track α Ω) (s : Sys α Ω) : Prop where
  log : τ.log = s.conn.log
  asked : ∀ t, τ.asked = some t → ∃ k, s.own.getLast? = some (t, k)
  got : ∀ t rx, τ.got = some (t, rx) →
    ∃ k, (t, k) ∈ s.own ∧ s.pubsub.replies.lookup k = some rx

structure Steady (serde : SerdeJson) (s : Sys α Ω) : Prop where
  map : s.conn.joined = joinedOf s.conn.log
  handling : ∃ τ : Track α Ω, τ.Valid s ∧ (∀ p, s.conn.todo = some p → Handling τ p) ∧
    (s.conn.todo = none → Balanced τ ())
  running : ∀ f ∈ s.forwarders, f.running = true
  counted : ∀ t, (s.forwarders.map (·.topic)).count t = spawned t s.conn.log
  single : ∀ t, spawned t s.conn.log ≤ 1
  timers : ∀ p ∈ s.timers, (RustStd.stripPrefix p.1.toList timerPrefix.toList).isSome = true
  relayed : ∀ f ∈ s.forwarders, ∃ k, (f.topic, k) ∈ s.own ∧
    s.pubsub.replies.lookup k = some f.rx ∧ f.read ≤ (s.sinceSubscribe f.topic k).length ∧
    s.passed serde f.topic = ((s.sinceSubscribe f.topic k).take f.read).map serde.carry
  silent : ∀ t, spawned t s.conn.log = 0 → s.passed serde t = []

variable {serde : SerdeJson} {s s' : Sys α Ω}

theorem steady_init : Steady serde (Sys.init : Sys α Ω) where
  map := rfl
  handling := ⟨{ log := [], asked := none, got := none }, ⟨rfl, nofun, nofun⟩, nofun, fun _ =>
    ⟨rfl, fun _ => rfl⟩⟩
  running := nofun
  counted := fun _ => rfl
  single := fun _ => Nat.zero_le _
  timers := nofun
  relayed := nofun
  silent := fun _ _ => rfl

/-- No two forwarders are on one topic. -/
theorem Steady.topics_nodup (hs : Steady serde s) : (s.forwarders.map (·.topic)).Nodup := by
  refine List.nodup_iff_count_le_one.mpr fun t => ?_
  rw [hs.counted]
  exact hs.single t

/-- A step that the forwarders, the timers and the subscriptions do not see. -/
structure Sys.Unmoved (serde : SerdeJson) (s s' : Sys α Ω) : Prop where
  forwarders : s'.forwarders = s.forwarders
  timers : ∀ p ∈ s'.timers, p ∈ s.timers ∨ ∃ topic event, p.1 = timerKey topic event
  spawned : ∀ t, spawned t s'.conn.log = spawned t s.conn.log
  passed : ∀ t, s'.passed serde t = s.passed serde t
  own : ∀ p ∈ s.own, p ∈ s'.own
  replies : ∀ k id, s.pubsub.replies.lookup k = some id → s'.pubsub.replies.lookup k = some id
  handled : s.pubsub.handled <+: s'.pubsub.handled

/-- The reply to a `Subscribe` comes when it is handled. -/
theorem sinceSubscribe_grows (hw : s.Wired) (hhandled : s.pubsub.handled <+: s'.pubsub.handled)
    {t : String} {k id : Nat} (hreply : s.pubsub.replies.lookup k = some id) :
    s.sinceSubscribe t k <+: s'.sinceSubscribe t k := by
  obtain ⟨_, hk, -⟩ := (hw.replies k id).mp hreply
  have hlt := (List.getElem?_eq_some_iff.mp hk).1
  obtain ⟨more, hmore⟩ := hhandled
  refine ⟨broadcastsOn t more, ?_⟩
  unfold Sys.sinceSubscribe
  rw [← broadcastsOn_append, ← hmore, List.drop_append_of_le_length hlt]

theorem Steady.unmoved (hw : s.Wired) (hs : Steady serde s) (hu : s.Unmoved serde s')
    (hmap : s'.conn.joined = joinedOf s'.conn.log)
    (hhandling : ∃ τ : Track α Ω, τ.Valid s' ∧ (∀ p, s'.conn.todo = some p → Handling τ p) ∧
      (s'.conn.todo = none → Balanced τ ())) : Steady serde s' where
  map := hmap
  handling := hhandling
  running := by rw [hu.forwarders]; exact hs.running
  counted := by intro t; rw [hu.forwarders, hu.spawned]; exact hs.counted t
  single := by intro t; rw [hu.spawned]; exact hs.single t
  timers := by
    intro p hp
    rcases hu.timers p hp with hp | ⟨topic, event, hp⟩
    · exact hs.timers p hp
    · rw [hp]
      exact stripPrefix_timerKey topic event
  relayed := by
    intro f hf
    rw [hu.forwarders] at hf
    obtain ⟨k, hown, hreply, hread, hpassed⟩ := hs.relayed f hf
    obtain ⟨more, hmore⟩ := sinceSubscribe_grows (t := f.topic) hw hu.handled hreply
    refine ⟨k, hu.own _ hown, hu.replies k _ hreply, ?_, ?_⟩
    · rw [← hmore, List.length_append]
      omega
    · rw [hu.passed, hpassed, ← hmore, List.take_append_of_le_length hread]
  silent := by intro t ht; rw [hu.spawned] at ht; rw [hu.passed]; exact hs.silent t ht

/-! ### The steps -/

theorem enqueue_keeps (p : Server) (cmd : PubSubCommand) :
    (∀ k id, p.replies.lookup k = some id → (p.enqueue cmd).replies.lookup k = some id) ∧
      p.handled <+: (p.enqueue cmd).handled := by
  unfold Server.enqueue
  split <;> exact ⟨fun _ _ => id, List.prefix_rfl⟩

/-- The server's turn only adds to what it has handled and answered. -/
theorem serve_grows {p p' : Server} (h : p.serve = some p') :
    p.handled <+: p'.handled ∧ p'.enqueued = p.enqueued ∧
      ∀ k id, p.replies.lookup k = some id → p'.replies.lookup k = some id := by
  rcases serve_cases h with ⟨-, -, rfl⟩ | ⟨cmd, queue, -, -, rfl⟩
  · exact ⟨List.prefix_rfl, rfl, fun _ _ hk => hk⟩
  · obtain ⟨-, hh, he, -⟩ :=
      handleCommand_frame cmd { p with queue, handled := p.handled ++ [cmd] }
    have hr := handleCommand_replies cmd { p with queue, handled := p.handled ++ [cmd] }
    refine ⟨?_, he, ?_⟩
    · show p.handled <+: (handleCommand _ _).1.handled
      rw [hh]
      exact List.prefix_append _ _
    · intro k id hk
      show (handleCommand _ _).1.replies.lookup k = some id
      rw [hr, List.lookup_append, hk]
      rfl

/-- The process takes a text of the mailbox, whose topic is joined. -/
theorem handleInfo_spec {j : Joined α Ω} {τ : Track α Ω} (he : Even j τ) {text : String}
    (hjoined : ∀ t msg, serde.infoOn t text = some msg → t ∈ j) :
    Handling τ (handleInfo serde text j) ∧
      ∀ t, inHand t (some (handleInfo serde text j)) = (serde.infoOn t text).toList := by
  have hkeeps : ∀ {p : Handler α Ω Unit}, Prog.wp steady τ p Balanced →
      (∀ t, serde.infoOn t text = none) →
      Handling τ p ∧ ∀ t, inHand t (some p) = (serde.infoOn t text).toList := by
    intro p hwp hnone
    refine ⟨.keeps hwp, fun t => ?_⟩
    rw [inHand_keeps hwp, hnone]
    rfl
  unfold handleInfo
  cases hstrip : RustStd.stripPrefix text.toList timerPrefix.toList with
  | some rest =>
      have hnone : ∀ t, serde.infoOn t text = none := infoOn_timer serde (by rw [hstrip]; rfl)
      cases hsplit : RustStd.splitAtChar rest timerSep with
      | none =>
          simp only [hsplit]
          exact hkeeps (he.balanced ()) hnone
      | some parts =>
          simp only [hsplit]
          exact hkeeps (wp_callInfo_timer _ he) hnone
  | none =>
      have hinfo : ∀ t, serde.infoOn t text
          = (serde.pubsubFromStr text).filter fun msg => msg.topic == t := by
        intro t
        unfold SerdeJson.infoOn
        rw [hstrip]
      cases hread : serde.pubsubFromStr text with
      | none =>
          refine hkeeps (he.balanced ()) fun t => ?_
          rw [hinfo, hread]
          rfl
      | some msg =>
          have hmem : msg.topic ∈ j := hjoined msg.topic msg (by
            rw [hinfo, hread]
            simp)
          obtain ⟨entry, hlookup⟩ := Option.isSome_iff_exists.mp (AList.lookup_isSome.mpr hmem)
          obtain ⟨channel, socket⟩ := entry
          simp only [callInfo, hlookup]
          refine ⟨.calls fun a => wp_callInfo_rest msg hlookup ?_, fun t => ?_⟩
          · exact
              { map := by rw [Track.next_log, joinedOf_concat]; exact he.map
                spawned := by
                  intro t
                  rw [Track.next_log, spawned_concat,
                    spawned_single_ne (e := .call (.handleInfo .pubsub msg) msg.topic) nofun]
                  exact he.spawned t }
          · rw [hinfo, hread]
            show (if msg.topic = t then [msg] else []) = _
            rw [Option.filter_some]
            by_cases ht : msg.topic = t <;> simp [ht]

/-- Between two requests nothing is known of a subscription. -/
def Track.between (s : Sys α Ω) : Track α Ω := { log := s.conn.log, asked := none, got := none }

theorem Steady.even (hs : Steady serde s) (hwaiting : s.conn.waiting = true) :
    s.conn.todo = none ∧ s.conn.stopped = false ∧ Even s.conn.joined (Track.between s) := by
  obtain ⟨hidle, hlive⟩ := Bool.and_eq_true_iff.mp hwaiting
  have htodo : s.conn.todo = none := Option.isNone_iff_eq_none.mp hidle
  obtain ⟨τ, hvalid, -, hbalanced⟩ := hs.handling
  refine ⟨htodo, by simpa using hlive, hs.map.symm, ?_⟩
  intro t
  have := (hbalanced htodo).spawned t
  rw [hvalid.log, ← hs.map] at this
  exact this

section

variable [EmptyCollection α] {router : ChannelRouter α Ω}

theorem steady_cast (hw : s.Wired) (hs : Steady serde s) {request : String} {casts : List String}
    (hwaiting : s.conn.waiting = true) (hstays : ¬LeavesJoined serde request s.conn.joined) :
    Steady serde { s with
      casts
      conn := { s.conn with todo := some (handleCast serde router request s.conn.joined) } } := by
  obtain ⟨htodo, -, heven⟩ := hs.even hwaiting
  have hwp := wp_handleCast_even router heven hstays
  have hpassed : ∀ t, inHand t (some (handleCast serde router request s.conn.joined))
      = inHand t s.conn.todo := by
    intro t
    rw [inHand_keeps hwp, htodo]
    rfl
  refine hs.unmoved hw ⟨rfl, fun _ => Or.inl, fun _ => rfl, ?_, fun _ => id, fun _ _ => id,
    List.prefix_rfl⟩ hs.map ?_
  · intro t
    unfold Sys.passed
    rw [hpassed]
  · refine ⟨Track.between s, ⟨rfl, nofun, nofun⟩, ?_, nofun⟩
    rintro p ⟨⟩
    exact .keeps hwp

omit [EmptyCollection α] in
theorem steady_info (hw : s.Wired) (hs : Steady serde s) {text : String} {infos : List String}
    (hinfos : s.infos = text :: infos) (hwaiting : s.conn.waiting = true) :
    Steady serde { s with
      infos, conn := { s.conn with todo := some (handleInfo serde text s.conn.joined) } } := by
  obtain ⟨htodo, -, heven⟩ := hs.even hwaiting
  have hjoined : ∀ t msg, serde.infoOn t text = some msg → t ∈ s.conn.joined := by
    intro t msg hinfo
    by_contra hnot
    -- a topic that is not joined has no forwarder, so nothing of it is in the mailbox
    have hnone := hs.silent t (by
      have := heven.spawned t
      rw [if_neg hnot] at this
      exact this)
    unfold Sys.passed at hnone
    rw [hinfos, List.filterMap_cons_some hinfo] at hnone
    simp at hnone
  obtain ⟨hhandling, hhand⟩ := handleInfo_spec heven hjoined
  refine hs.unmoved hw ⟨rfl, fun _ => Or.inl, fun _ => rfl, ?_, fun _ => id, fun _ _ => id,
    List.prefix_rfl⟩ hs.map ?_
  · intro t
    unfold Sys.passed
    rw [hhand, htodo, hinfos]
    cases hinfo : serde.infoOn t text with
    | none => rw [List.filterMap_cons_none hinfo]; rfl
    | some msg => rw [List.filterMap_cons_some hinfo]; simp [inHand]
  · refine ⟨Track.between s, ⟨rfl, nofun, nofun⟩, ?_, nofun⟩
    rintro p ⟨⟩
    exact hhandling

omit [EmptyCollection α] in
/-- The answers the process gets are those the contract lets it count on. -/
theorem acts_answers {ω : Ω} {e : Event α Ω} {a : Answer Ω} (h : Acts serde s ω e s' a)
    {τ : Track α Ω} (hfresh : ∀ t, e = .joinReturned t true → t ∉ joinedOf τ.log) :
    steady.answers τ e a := by
  refine ⟨hfresh, ?_, ?_⟩
  · rintro t rfl
    cases h with
    | subscribe => rfl
    | other _ _ _ hsub => exact absurd rfl (hsub t)
  · rintro rfl
    cases h with
    | recvReply => rfl
    | other _ _ _ _ _ hwait => exact absurd rfl hwait

omit [EmptyCollection α] in
theorem valid_next {ω : Ω} {e : Event α Ω} {a : Answer Ω} (h : Acts serde s ω e s' a)
    {τ : Track α Ω} (hv : τ.Valid s) {conn : Conn α Ω} (hlog : conn.log = s.conn.log ++ [e]) :
    (τ.next e a).Valid { s' with conn } := by
  have hl : (τ.next e a).log = conn.log := by rw [Track.next_log, hv.log, hlog]
  cases h with
  | subscribe t =>
      refine ⟨hl, ?_, nofun⟩
      rintro t' ⟨⟩
      exact ⟨_, List.getLast?_concat⟩
  | recvReply hlast hreply =>
      refine ⟨hl, hv.asked, ?_⟩
      intro t' rx hgot
      simp only [Track.next] at hgot
      obtain ⟨t'', hasked, hpair⟩ := Option.bind_eq_some_iff.mp hgot
      cases hpair
      obtain ⟨k', hlast'⟩ := hv.asked t' hasked
      rw [hlast] at hlast'
      cases hlast'
      exact ⟨_, List.mem_of_getLast? hlast, hreply⟩
  | spawnForwarder t rx => exact ⟨hl, hv.asked, hv.got⟩
  | broadcast topic event payload =>
      refine ⟨hl, hv.asked, ?_⟩
      intro t rx hgot
      obtain ⟨k, hown, hreply⟩ := hv.got t rx hgot
      exact ⟨k, hown, (enqueue_keeps _ _).1 k rx hreply⟩
  | other _ _ _ hsub _ hwait =>
      have hasked : (τ.next e { effect := ω, sent := true, rx := none }).asked = τ.asked := by
        cases e with
        | subscribe t => exact absurd rfl (hsub t)
        | _ => rfl
      have hgot : (τ.next e { effect := ω, sent := true, rx := none }).got = τ.got := by
        cases e with
        | subscribe t => exact absurd rfl (hsub t)
        | recvReply => exact absurd rfl hwait
        | _ => rfl
      refine ⟨hl, ?_, ?_⟩
      · rw [hasked]; exact hv.asked
      · rw [hgot]; exact hv.got

omit [EmptyCollection α] in
/-- An event of a handler, other than the spawning of a forwarder. -/
theorem unmoved_acts {ω : Ω} {e : Event α Ω} {a : Answer Ω} (h : Acts serde s ω e s' a)
    (hspawn : ∀ t rx, e ≠ .spawnForwarder t rx) {k : Answer Ω → Handler α Ω Unit}
    (htodo : s.conn.todo = some (.emit e k)) {τ : Track α Ω} (hh : Handling τ (.emit e k))
    (ha : steady.answers τ e a) :
    s.Unmoved serde { s' with conn := s.conn.emits e (k a) } := by
  have hlog : ∀ t, spawned t (s.conn.log ++ [e]) = spawned t s.conn.log := by
    intro t
    rw [spawned_concat, spawned_single_ne (hspawn t)]
    rfl
  have hpassed : ∀ t, infoCalls t (s.conn.log ++ [e]) ++ inHand t (some (k a))
      = infoCalls t s.conn.log ++ inHand t s.conn.todo := by
    intro t
    rw [infoCalls_concat, List.append_assoc, handling_event hh ha, htodo]
  cases h with
  | subscribe t =>
      exact ⟨rfl, fun _ => Or.inl, hlog, fun t => congrArg (· ++ _) (hpassed t),
        fun _ => List.mem_append_left _, (enqueue_keeps _ _).1, (enqueue_keeps _ _).2⟩
  | broadcast topic event payload =>
      exact ⟨rfl, fun _ => Or.inl, hlog, fun t => congrArg (· ++ _) (hpassed t), fun _ => id,
        (enqueue_keeps _ _).1, (enqueue_keeps _ _).2⟩
  | spawnForwarder t rx => exact absurd rfl (hspawn t rx)
  | recvReply hlast hreply =>
      exact ⟨rfl, fun _ => Or.inl, hlog, fun t => congrArg (· ++ _) (hpassed t), fun _ => id,
        fun _ _ => id, List.prefix_rfl⟩
  | other _ _ _ _ _ _ htimers =>
      exact ⟨rfl, htimers, hlog, fun t => congrArg (· ++ _) (hpassed t), fun _ => id,
        fun _ _ => id, List.prefix_rfl⟩

omit [EmptyCollection α] in
/-- A forwarder is spawned, on a topic of which nothing has come through yet. -/
theorem steady_spawn (hs : Steady serde s) {t : String} {rx : Nat}
    {conn : Conn α Ω} (hlog : conn.log = s.conn.log ++ [.spawnForwarder t rx])
    (hmap : conn.joined = joinedOf conn.log) (hfirst : spawned t s.conn.log = 0)
    (hhand : ∀ t, inHand t conn.todo = inHand t s.conn.todo)
    (hgot : ∃ k, (t, k) ∈ s.own ∧ s.pubsub.replies.lookup k = some rx)
    (hhandling : ∃ τ : Track α Ω,
      τ.Valid { s.record (.spawnForwarder t rx) with
        forwarders := s.forwarders ++ [{ topic := t, rx, read := 0, running := true }], conn } ∧
      (∀ p, conn.todo = some p → Handling τ p) ∧ (conn.todo = none → Balanced τ ())) :
    Steady serde { s.record (.spawnForwarder t rx) with
      forwarders := s.forwarders ++ [{ topic := t, rx, read := 0, running := true }], conn } := by
  have hcount : ∀ t', spawned t' conn.log
      = spawned t' s.conn.log + if t = t' then 1 else 0 := by
    intro t'
    rw [hlog, spawned_concat]
    by_cases h : t = t' <;> simp [spawned, h]
  have hpassed : ∀ t', Sys.passed serde { s.record (.spawnForwarder t rx) with
      forwarders := s.forwarders ++ [{ topic := t, rx, read := 0, running := true }], conn } t'
        = s.passed serde t' := by
    intro t'
    unfold Sys.passed
    rw [hlog, infoCalls_concat, infoCalls_single_ne (e := .spawnForwarder t rx) id, hhand,
      List.append_nil]
    rfl
  refine ⟨hmap, hhandling, ?_, ?_, ?_, hs.timers, ?_, ?_⟩
  · intro f hf
    rcases List.mem_append.mp hf with hf | hf
    · exact hs.running f hf
    · rw [List.mem_singleton.mp hf]
  · intro t'
    show ((s.forwarders ++ [_]).map _).count t' = spawned t' conn.log
    rw [hcount, ← hs.counted, List.map_append, List.count_append, List.map_singleton,
      List.count_singleton]
    simp only [beq_iff_eq]
  · intro t'
    rw [hcount]
    by_cases h : t = t'
    · rw [← h, hfirst, if_pos rfl]
    · rw [if_neg h]
      exact hs.single t'
  · intro f hf
    rcases List.mem_append.mp hf with hf | hf
    · rw [hpassed]
      exact hs.relayed f hf
    · obtain rfl := List.mem_singleton.mp hf
      obtain ⟨k, hown, hreply⟩ := hgot
      refine ⟨k, hown, hreply, Nat.zero_le _, ?_⟩
      rw [hpassed, hs.silent t hfirst]
      rfl
  · intro t' ht'
    rw [hcount] at ht'
    rw [hpassed]
    exact hs.silent t' (by omega)

omit [EmptyCollection α] in
theorem steady_run (hw : s.Wired) (hs : Steady serde s) {ω : Ω} {e : Event α Ω}
    {k : Answer Ω → Handler α Ω Unit} {a : Answer Ω} (htodo : s.conn.todo = some (.emit e k))
    (hacts : Acts serde s ω e s' a) (hfresh : ∀ t, e = .joinReturned t true → t ∉ s.conn.joined) :
    Steady serde { s' with conn := s.conn.emits e (k a) } := by
  obtain ⟨τ, hvalid, hhandling, -⟩ := hs.handling
  have hh := hhandling _ htodo
  have ha : steady.answers τ e a := acts_answers hacts (by
    intro t he
    rw [hvalid.log, ← hs.map]
    exact hfresh t he)
  have hmap : (s.conn.emits e (k a)).joined = joinedOf (s.conn.emits e (k a)).log := by
    show e.joinedAfter s.conn.joined = joinedOf (s.conn.log ++ [e])
    rw [joinedOf_concat, hs.map]
  have hnext : ∃ τ' : Track α Ω, τ'.Valid { s' with conn := s.conn.emits e (k a) } ∧
      (∀ p, (s.conn.emits e (k a)).todo = some p → Handling τ' p) ∧
      ((s.conn.emits e (k a)).todo = none → Balanced τ' ()) := by
    refine ⟨τ.next e a, valid_next hacts hvalid rfl, ?_, nofun⟩
    rintro p ⟨⟩
    exact .keeps (handling_next hh ha)
  by_cases hspawn : ∃ t rx, e = .spawnForwarder t rx
  · obtain ⟨t, rx, rfl⟩ := hspawn
    cases hh with
    | keeps hwp =>
        obtain ⟨hgot, hfirst⟩ := hwp.1.2 t rx rfl
        rw [hvalid.log] at hfirst
        have hhand : ∀ t', inHand t' (some (k a)) = inHand t' s.conn.todo := by
          intro t'
          rw [htodo, inHand_keeps hwp, inHand_keeps (hwp.2 a ha)]
        cases hacts with
        | spawnForwarder => exact steady_spawn hs rfl hmap hfirst hhand (hvalid.got t rx hgot) hnext
        | other _ _ _ _ hnot => exact absurd rfl (hnot t rx)
  · exact hs.unmoved hw (unmoved_acts hacts (fun t rx he => hspawn ⟨t, rx, he⟩) htodo hh ha) hmap
      hnext

omit [EmptyCollection α] in
theorem mem_broadcastsOn {t : String} {cmds : List PubSubCommand} {msg : PubSubMessage}
    (h : msg ∈ broadcastsOn t cmds) : .broadcast t msg ∈ cmds := by
  obtain ⟨cmd, hmem, hcmd⟩ := List.mem_filterMap.mp h
  cases cmd with
  | broadcast t' m =>
      simp only at hcmd
      split at hcmd
      · rename_i ht
        cases hcmd
        rw [← ht]
        exact hmem
      · cases hcmd
  | _ => cases hcmd

omit [EmptyCollection α] in
/-- What a forwarder finds on its receiver is the next broadcast since its `Subscribe`. -/
theorem next_broadcast (hw : s.Wired) (hlive : s.conn.stopped = false) {f : Forwarder} {k : Nat}
    (hown : (f.topic, k) ∈ s.own) (hreply : s.pubsub.replies.lookup k = some f.rx) :
    (s.pubsub.chans[f.rx]?).bind (·.sent[f.read]?) = (s.sinceSubscribe f.topic k)[f.read]? := by
  obtain ⟨_, hk, -⟩ := (hw.replies k _).mp hreply
  obtain ⟨id, c, hid, hc, -, hsent⟩ :=
    subscription_sent hw hlive hown (List.getElem?_eq_some_iff.mp hk).1
  rw [hreply] at hid
  cases hid
  rw [hc, Option.bind_some, hsent]
  rfl

/-- A forwarder that moves on keeps its topic. -/
theorem topics_set {fs : List Forwarder} {i : Nat} {f g : Forwarder} (hf : fs[i]? = some f)
    (hg : g.topic = f.topic) : (fs.set i g).map (·.topic) = fs.map (·.topic) := by
  refine List.ext_getElem? fun n => ?_
  rw [List.getElem?_map, List.getElem?_set, List.getElem?_map]
  by_cases h : i = n
  · rw [if_pos h, if_pos (List.getElem?_eq_some_iff.mp hf).1, ← h, hf, Option.map_some, Option.map_some, hg]
  · rw [if_neg h]

omit [EmptyCollection α] in
/-- What a forwarder puts into the mailbox is passed on its own topic. -/
theorem passed_carried {msg : PubSubMessage} {json : String} (hcarries : serde.Carries msg)
    (hjson : serde.pubsubToString msg = some json) (fs : List Forwarder) (t : String) :
    Sys.passed serde { s with forwarders := fs, infos := s.infos ++ [json] } t
      = s.passed serde t ++ if msg.topic = t then [serde.carry msg] else [] := by
  unfold Sys.passed
  rw [List.filterMap_append, ← List.append_assoc]
  congr 1
  have hinfo := infoOn_carried hcarries hjson t
  by_cases h : msg.topic = t <;> simp [hinfo, h]

omit [EmptyCollection α] in
/-- A forwarder sends the next broadcast to the mailbox. -/
theorem steady_take (hw : s.Wired) (hs : Steady serde s) (hlive : s.conn.stopped = false) {i : Nat}
    {f : Forwarder} {msg : PubSubMessage} {json : String} (hf : s.forwarders[i]? = some f)
    (hmsg : (s.pubsub.chans[f.rx]?).bind (·.sent[f.read]?) = some msg)
    (hjson : serde.pubsubToString msg = some json)
    (hcarries : ∀ t m, .broadcast t m ∈ s.pubsub.enqueued → serde.Carries m) :
    Steady serde { s with
      forwarders := s.forwarders.set i { f with read := f.read + 1 }
      infos := s.infos ++ [json] } := by
  have hmem : f ∈ s.forwarders := List.mem_of_getElem? hf
  have hi : i < s.forwarders.length := (List.getElem?_eq_some_iff.mp hf).1
  obtain ⟨k, hown, hreply, hread, hpassed⟩ := hs.relayed f hmem
  rw [next_broadcast hw hlive hown hreply] at hmsg
  have hin : .broadcast f.topic msg ∈ s.pubsub.enqueued := by
    rw [hw.tracks.fifo]
    exact List.mem_append_left _
      (List.mem_of_mem_drop (mem_broadcastsOn (List.mem_of_getElem? hmsg)))
  have htopic : msg.topic = f.topic := hw.topics _ _ hin
  have hpass : ∀ t, Sys.passed serde { s with
      forwarders := s.forwarders.set i { f with read := f.read + 1 }
      infos := s.infos ++ [json] } t
        = s.passed serde t ++ if f.topic = t then [serde.carry msg] else [] := by
    rw [← htopic]
    exact passed_carried (hcarries _ _ hin) hjson _
  have htopics : (s.forwarders.set i { f with read := f.read + 1 }).map (·.topic)
      = s.forwarders.map (·.topic) := topics_set hf rfl
  have hspawned : spawned f.topic s.conn.log ≠ 0 := by
    rw [← hs.counted]
    exact (List.count_pos_iff.mpr (List.mem_map_of_mem hmem)).ne'
  refine ⟨hs.map, ?_, ?_, ?_, hs.single, hs.timers, ?_, ?_⟩
  · obtain ⟨τ, hv, hhandling, hbalanced⟩ := hs.handling
    exact ⟨τ, ⟨hv.log, hv.asked, hv.got⟩, hhandling, hbalanced⟩
  · intro g hg
    rcases List.mem_or_eq_of_mem_set hg with hg | rfl
    · exact hs.running g hg
    · exact hs.running f hmem
  · intro t
    show ((s.forwarders.set i _).map _).count t = _
    rw [htopics]
    exact hs.counted t
  · intro g hg
    rw [hpass]
    by_cases ht : f.topic = g.topic
    · obtain rfl : g = { f with read := f.read + 1 } :=
        List.inj_on_of_nodup_map (by rw [htopics]; exact hs.topics_nodup) hg
          (List.mem_set hi _) ht.symm
      refine ⟨k, hown, hreply, (List.getElem?_eq_some_iff.mp hmsg).1, ?_⟩
      show s.passed serde f.topic ++ _ = ((s.sinceSubscribe f.topic k).take (f.read + 1)).map _
      rw [if_pos rfl, hpassed, List.take_add_one, hmsg]
      simp
    · rcases List.mem_or_eq_of_mem_set hg with hg | rfl
      · rw [if_neg ht, List.append_nil]
        exact hs.relayed g hg
      · exact absurd rfl ht
  · intro t ht
    rw [hpass, if_neg (by rintro rfl; exact hspawned ht), List.append_nil]
    exact hs.silent t ht

omit [EmptyCollection α] in
/-- Any other step moves no broadcast, and leaves the handler where it is. -/
theorem steady_unseen (hw : s.Wired) (hs : Steady serde s) (hu : s.Unmoved serde s')
    (hconn : s'.conn = s.conn) (hown : s'.own = s.own) : Steady serde s' := by
  refine hs.unmoved hw hu (by rw [hconn]; exact hs.map) ?_
  obtain ⟨τ, hv, hhandling, hbalanced⟩ := hs.handling
  refine ⟨τ, ⟨by rw [hconn]; exact hv.log, by rw [hown]; exact hv.asked, ?_⟩, ?_, ?_⟩
  · intro t rx hgot
    obtain ⟨k, hmem, hreply⟩ := hv.got t rx hgot
    exact ⟨k, by rw [hown]; exact hmem, hu.replies k rx hreply⟩
  · rw [hconn]; exact hhandling
  · rw [hconn]; exact hbalanced

omit [EmptyCollection α] in
/-- A handler that returns leaves its record even. -/
theorem steady_finish (hw : s.Wired) (hs : Steady serde s) (htodo : s.conn.todo = some (.ret ())) :
    Steady serde { s.record .idle with
      conn := { s.conn with todo := none, log := s.conn.log ++ [.idle] } } := by
  obtain ⟨τ, hv, hhandling, -⟩ := hs.handling
  cases hhandling _ htodo with
  | keeps hwp =>
      have heven : Even (joinedOf τ.log) τ := hwp
      refine hs.unmoved hw ⟨rfl, fun _ => Or.inl, ?_, ?_, fun _ => id, fun _ _ => id,
        List.prefix_rfl⟩ ?_ ?_
      · intro t
        show spawned t (s.conn.log ++ [.idle]) = _
        rw [spawned_concat]
        rfl
      · intro t
        unfold Sys.passed
        rw [htodo, inHand_keeps hwp, infoCalls_concat]
        exact congrArg (· ++ _) (List.append_nil _)
      · show s.conn.joined = joinedOf (s.conn.log ++ [.idle])
        rw [joinedOf_concat]
        exact hs.map
      · refine ⟨{ τ with log := τ.log ++ [.idle] }, ⟨by rw [hv.log], hv.asked, hv.got⟩, nofun, ?_⟩
        intro _
        exact (heven.append (e := .idle) trivial rfl).balanced ()

omit [EmptyCollection α] in
theorem steady_fire (hw : s.Wired) (hs : Steady serde s) {i : Nat} {key : String} {recurring : Bool}
    (hkey : s.timers[i]? = some (key, recurring)) :
    Steady serde { s with
      infos := s.infos ++ [key]
      timers := if recurring then s.timers else s.timers.eraseIdx i } := by
  refine steady_unseen hw hs ⟨rfl, ?_, fun _ => rfl, ?_, fun _ => id, fun _ _ => id,
    List.prefix_rfl⟩ rfl rfl
  · intro p hp
    refine Or.inl ?_
    cases recurring with
    | true => exact hp
    | false => exact List.mem_of_mem_eraseIdx hp
  · intro t
    have hnone := infoOn_timer serde (hs.timers _ (List.mem_of_getElem? hkey)) t
    unfold Sys.passed
    rw [List.filterMap_append, List.filterMap_cons_none hnone]
    simp

theorem steady_turn (hw : s.Wired) (hs : Steady serde s) {l : SysLabel Ω}
    (hcalm : s.Steadily serde l) (h : Turn serde router s l s') (hlive : s'.conn.stopped = false)
    (hcarries : ∀ t m, .broadcast t m ∈ s.pubsub.enqueued → serde.Carries m) :
    Steady serde s' := by
  cases h with
  | cast hcasts hwaiting => exact steady_cast hw hs hwaiting (hcalm _ _ hcasts)
  | info hinfos hwaiting => exact steady_info hw hs hinfos hwaiting
  | run htodo hacts =>
      refine steady_run hw hs htodo hacts ?_
      rintro t rfl
      exact hcalm t _ htodo
  | finish htodo => exact steady_finish hw hs htodo
  | stop _ => cases hlive
  | kill => cases hlive
  | serve hserve =>
      obtain ⟨hhandled, -, hreplies⟩ := serve_grows hserve
      exact steady_unseen hw hs ⟨rfl, fun _ => Or.inl, fun _ => rfl, fun _ => rfl, fun _ => id,
        hreplies, hhandled⟩ rfl rfl
  | publish topic event payload =>
      exact steady_unseen hw hs ⟨rfl, fun _ => Or.inl, fun _ => rfl, fun _ => rfl, fun _ => id,
        (enqueue_keeps _ _).1, (enqueue_keeps _ _).2⟩ rfl rfl
  | subscribeOther topic =>
      exact steady_unseen hw hs ⟨rfl, fun _ => Or.inl, fun _ => rfl, fun _ => rfl, fun _ => id,
        (enqueue_keeps _ _).1, (enqueue_keeps _ _).2⟩ rfl rfl
  | take hf hmsg hjson hlive => exact steady_take hw hs hlive hf hmsg hjson hcarries
  | @skip i f msg hf hmsg hjson =>
      obtain ⟨k, hown, hreply, -⟩ := hs.relayed f (List.mem_of_getElem? hf)
      rw [next_broadcast hw hlive hown hreply] at hmsg
      obtain ⟨text, htext, -⟩ := hcarries f.topic msg (by
        rw [hw.tracks.fifo]
        exact List.mem_append_left _
          (List.mem_of_mem_drop (mem_broadcastsOn (List.mem_of_getElem? hmsg))))
      rw [hjson] at htext
      cases htext
  | broken hstopped =>
      have : s.conn.stopped = false := hlive
      rw [hstopped] at this
      cases this
  | fireLast hstopped =>
      have : s.conn.stopped = false := hlive
      rw [hstopped] at this
      cases this
  | @fire i key recurring hkey => exact steady_fire hw hs hkey
  | _ =>
      exact steady_unseen hw hs ⟨rfl, fun _ => Or.inl, fun _ => rfl, fun _ => rfl, fun _ => id,
        fun _ _ => id, List.prefix_rfl⟩ rfl rfl

end

/-! ### The run -/

section

variable [EmptyCollection α] {router : ChannelRouter α Ω}

omit [EmptyCollection α] in
/-- A command that is enqueued stays enqueued. -/
theorem enqueued_grows (p : Server) (cmd : PubSubCommand) :
    p.enqueued <+: (p.enqueue cmd).enqueued := by
  unfold Server.enqueue
  split
  · exact List.prefix_rfl
  · exact List.prefix_append _ _

omit [EmptyCollection α] in
theorem acts_enqueued {ω : Ω} {e : Event α Ω} {a : Answer Ω} (h : Acts serde s ω e s' a) :
    s.pubsub.enqueued <+: s'.pubsub.enqueued := by
  cases h with
  | subscribe t => exact enqueued_grows _ _
  | broadcast topic event payload => exact enqueued_grows _ _
  | _ => exact List.prefix_rfl

theorem turn_keeps {l : SysLabel Ω} (h : Turn serde router s l s') :
    s.pubsub.enqueued <+: s'.pubsub.enqueued ∧ (s'.conn.stopped = false → s.conn.stopped = false) := by
  cases h with
  | run htodo hacts =>
      have henqueued := acts_enqueued hacts
      exact ⟨henqueued, id⟩
  | stop _ => exact ⟨List.prefix_rfl, nofun⟩
  | kill => exact ⟨List.prefix_rfl, nofun⟩
  | serve hserve => exact ⟨(serve_grows hserve).2.1 ▸ List.prefix_rfl, id⟩
  | publish topic event payload => exact ⟨enqueued_grows _ _, id⟩
  | subscribeOther topic => exact ⟨enqueued_grows _ _, id⟩
  | _ => exact ⟨List.prefix_rfl, id⟩

end

/--
**One subscription per joined topic, one call per broadcast.**  In every run in
which no joined topic is left and none is joined again, whenever the process is
between two requests: the connection has one forwarder on each joined topic and
none on any other, and the calls of `handle_info`, the texts in the mailbox and
what is still on the channel are together, in order, all that was broadcast on
the topic since its `Subscribe`.
-/
theorem one_subscription_per_topic [EmptyCollection α] (serde : SerdeJson)
    (router : ChannelRouter α Ω) {labels : List (SysLabel Ω)} {s : Sys α Ω}
    (hsteady : (sysSystem serde router).Along (Sys.Steadily serde) Sys.init labels)
    (hrun : (sysSystem serde router).exec Sys.init labels = some s)
    (hserde : ∀ t m, .broadcast t m ∈ s.pubsub.enqueued → serde.Carries m)
    (hwaiting : s.conn.waiting = true) (t : String) :
    (s.forwardersOn t).length = (if t ∈ s.conn.joined then 1 else 0) ∧
    ∀ f ∈ s.forwardersOn t, ∃ pre k post c, s.pubsub.handled = pre ++ .subscribe t k :: post ∧
      s.pubsub.replies.lookup k = some f.rx ∧ s.pubsub.chans[f.rx]? = some c ∧ c.alive = true ∧
      infoCalls t s.conn.log ++ s.infos.filterMap (serde.infoOn t) ++
        (c.sent.drop f.read).map serde.carry = (broadcastsOn t post).map serde.carry := by
  have hinv : s.Wired ∧ (s.conn.stopped = false →
      (∀ t m, .broadcast t m ∈ s.pubsub.enqueued → serde.Carries m) → Steady serde s) := by
    refine Lts.exec_invariant_along (M := sysSystem serde router)
      (I := fun s => s.Wired ∧ (s.conn.stopped = false →
        (∀ t m, .broadcast t m ∈ s.pubsub.enqueued → serde.Carries m) → Steady serde s))
      ⟨wired_init, fun _ _ => steady_init⟩ ?_ hsteady hrun
    rintro s l s' ⟨hw, hs⟩ hcalm hstep
    have hturn := step_turn hw.running hstep
    obtain ⟨henqueued, hstopped⟩ := turn_keeps hturn
    refine ⟨wired_turn hw hturn, fun hlive hcarries => ?_⟩
    have hcarries' : ∀ t m, .broadcast t m ∈ s.pubsub.enqueued → serde.Carries m :=
      fun t m hm => hcarries t m (henqueued.subset hm)
    exact steady_turn hw (hs (hstopped hlive) hcarries') hcalm hturn hlive hcarries'
  obtain ⟨hw, hs⟩ := hinv
  obtain ⟨hidle, hnot⟩ := Bool.and_eq_true_iff.mp hwaiting
  have hlive : s.conn.stopped = false := by simpa using hnot
  have hs := hs hlive hserde
  obtain ⟨htodo, -, heven⟩ := hs.even hwaiting
  constructor
  · have hcount : (s.forwardersOn t).length = (s.forwarders.map (·.topic)).count t := by
      unfold Sys.forwardersOn
      rw [← List.countP_eq_length_filter, List.count, List.countP_map]
      refine List.countP_congr fun f hf => ?_
      simp [hs.running f hf]
    rw [hcount, hs.counted]
    exact heven.spawned t
  · intro f hf
    obtain ⟨hmem, hft⟩ := List.mem_filter.mp hf
    have hft : f.topic = t := by
      obtain ⟨-, h⟩ := Bool.and_eq_true_iff.mp hft
      exact beq_iff_eq.mp h
    subst hft
    obtain ⟨k, hown, hreply, hread, hpassed⟩ := hs.relayed f hmem
    obtain ⟨_, hk, -⟩ := (hw.replies k _).mp hreply
    obtain ⟨hlt, hget⟩ := List.getElem?_eq_some_iff.mp hk
    obtain ⟨id, c, hid, hc, halive, hsent⟩ := subscription_sent hw hlive hown hlt
    rw [hreply] at hid
    cases hid
    have hkt : s.pubsub.handled[k]? = some (.subscribe f.topic k) := by
      have hk := hw.owned _ _ hown
      rw [hw.tracks.fifo, List.getElem?_append_left hlt] at hk
      exact hk
    refine ⟨s.pubsub.handled.take k, k, s.pubsub.handled.drop (k + 1), c, ?_, hreply, hc, halive, ?_⟩
    · rw [← (List.getElem?_eq_some_iff.mp hkt).2, ← List.drop_eq_getElem_cons hlt,
        List.take_append_drop]
    · unfold Sys.passed at hpassed
      rw [htodo] at hpassed
      have hpassed' : infoCalls f.topic s.conn.log ++ s.infos.filterMap (serde.infoOn f.topic)
          = ((s.sinceSubscribe f.topic k).take f.read).map serde.carry := by
        rw [← hpassed]
        simp [inHand]
      rw [hpassed', hsent, ← List.map_append]
      exact congrArg _ (List.take_append_drop _ _)

/-! ### Runs -/

/-- A test for `Sys.Steadily`. -/
def Sys.steadily (serde : SerdeJson) (s : Sys α Ω) : SysLabel Ω → Bool
  | .cast =>
      match s.casts.head?.bind serde.phoenixFromStr with
      | some msg => !(msg.event == phxLeave && s.conn.joined.keys.contains msg.topic)
      | none => true
  | .run _ =>
      match s.conn.todo with
      | some (.emit (.joinReturned t true) _) => !s.conn.joined.keys.contains t
      | _ => true
  | _ => true

theorem steadily_of_test (serde : SerdeJson) (s : Sys α Ω) (l : SysLabel Ω)
    (h : s.steadily serde l = true) : s.Steadily serde l := by
  have hkeys : ∀ t, t ∈ s.conn.joined → s.conn.joined.keys.contains t = true :=
    fun t ht => List.contains_iff_mem.mpr ht
  cases l with
  | cast =>
      rintro request casts hcasts ⟨msg, hmsg, hevent, hmem⟩
      unfold Sys.steadily at h
      simp only [hcasts, List.head?_cons, Option.bind_some, hmsg, hevent, hkeys _ hmem] at h
      cases h
  | run ω =>
      intro t k htodo hmem
      unfold Sys.steadily at h
      simp only [htodo, hkeys _ hmem] at h
      cases h
  | _ => trivial

/-- The next broadcast goes from a forwarder to the callback of a joined channel. -/
def handOn (i : Nat) : List (SysLabel Unit) :=
  [.forward i, .info, .run (), .run (), .run (), .finish]

def deliverNews : List (SysLabel Unit) := [.publish "room:1" "news" .null, .serve] ++ handOn 0

theorem one_subscription_per_topic_news :
    ∃ s, (sysSystem roomSerde echoRouter).exec Sys.init (joinRoom ++ deliverNews) = some s ∧
      (s.forwardersOn "room:1").length = 1 ∧ (infoCalls "room:1" s.conn.log).length = 1 ∧
      ∀ f ∈ s.forwardersOn "room:1", ∃ c, s.pubsub.chans[f.rx]? = some c ∧ c.alive = true := by
  have hsteady : (sysSystem roomSerde echoRouter).Along (Sys.Steadily roomSerde) Sys.init
      (joinRoom ++ deliverNews) := Lts.along_of_check (steadily_of_test roomSerde) rfl
  obtain ⟨s, hrun, hwaiting, hcmds, hcalls, hjoined⟩ :
      ∃ s, (sysSystem roomSerde echoRouter).exec Sys.init (joinRoom ++ deliverNews) = some s ∧
        s.conn.waiting = true ∧
        s.pubsub.enqueued = [.subscribe "room:1" 0, broadcastArc "room:1" "news" .null] ∧
        (infoCalls "room:1" s.conn.log).length = 1 ∧ "room:1" ∈ s.conn.joined.keys :=
    ⟨_, rfl, rfl, rfl, rfl, by decide⟩
  have hserde : ∀ t m, .broadcast t m ∈ s.pubsub.enqueued → roomSerde.Carries m := by
    intro t m hm
    rw [hcmds] at hm
    simp only [broadcastArc, List.mem_cons, List.not_mem_nil, or_false, reduceCtorEq, false_or] at hm
    cases hm
    exact ⟨newsText, rfl, rfl, rfl, rfl⟩
  obtain ⟨hcount, hforwarders⟩ :=
    one_subscription_per_topic roomSerde echoRouter hsteady hrun hserde hwaiting "room:1"
  refine ⟨s, hrun, ?_, hcalls, ?_⟩
  · exact hcount.trans (if_pos hjoined)
  · intro f hf
    obtain ⟨_, _, _, c, -, -, hc, halive, -⟩ := hforwarders f hf
    exact ⟨c, hc, halive⟩

/--
A topic joined twice has two forwarders, and one broadcast is handed on twice; a
topic that was left keeps its forwarder.
-/
theorem forwarders_pile_up :
    (∃ s, (sysSystem roomSerde echoRouter).exec Sys.init
        (joinRoom ++ joinRoom ++ deliverNews ++ handOn 1) = some s ∧
      s.conn.waiting = true ∧ (s.forwardersOn "room:1").length = 2 ∧
      (broadcastsOn "room:1" s.pubsub.handled).length = 1 ∧
      (infoCalls "room:1" s.conn.log).length = 2) ∧
    ∃ s, (sysSystem roomSerde echoRouter).exec Sys.init
        (joinRoom ++ [.receive leaveText, .cast, .run (), .run (), .run (), .run (), .finish]) = some s ∧
      s.conn.waiting = true ∧ s.conn.joined.keys = [] ∧ (s.forwardersOn "room:1").length = 1 :=
  ⟨⟨_, rfl, rfl, rfl, rfl, rfl⟩, ⟨_, rfl, rfl, rfl, rfl⟩⟩

end Mahalo.Channels
