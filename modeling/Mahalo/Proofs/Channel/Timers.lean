/-
Which channel a timer comes back to.

The process has one mailbox for timers and broadcasts, and a text of it says by itself what it
is.  A timer's text names the topic that the socket had when the timer was set.  A channel may
have changed it, and the text is cut at its first NUL, so that a topic that has one is cut in
two: the event goes to the channel of another topic, or is lost.  What each text was written
from, and whose callback wrote it, is recorded beside the run; it is what `handle_info` takes
it for, exactly if none of that happened.
-/
import Mahalo.Proofs.Channel.Delivery
import Mathlib.Data.List.InsertIdx

namespace Mahalo.Channels

open Interactive PubSub

variable {α Ω : Type}

/-! ### Where a text comes from -/

/-- A timer, set in a callback of the channel joined as `home`, on what its socket's topic was. -/
structure Timer where
  home : String
  topic : String
  event : String
  deriving DecidableEq, Repr

def Timer.key (t : Timer) : String := timerKey t.topic t.event

/-- What a text of the mailbox was written from. -/
inductive Mail where
  | timer (t : Timer)
  | broadcast (msg : PubSubMessage)

def Mail.source : Mail → InfoSource
  | .timer _ => .timer
  | .broadcast _ => .pubsub

/-- The message that `handle_info` has to be called with. -/
def Mail.message (serde : SerdeJson) : Mail → PubSubMessage
  | .timer t => { topic := t.home, event := t.event, payload := .null }
  | .broadcast msg => serde.carry msg

def Mail.text (serde : SerdeJson) : Mail → Option String
  | .timer t => some t.key
  | .broadcast msg => serde.pubsubToString msg

/-- The timers that were set, and what the texts of the mailbox were written from. -/
structure Post where
  timers : List Timer
  mail : List Mail

/-- The channel whose callback is called in an event, or else was called before it. -/
def Event.home (home : String) : Event α Ω → String
  | .call _ topic => topic
  | _ => home

/-- The channel whose callback was called last. -/
def homeOf (es : List (Event α Ω)) : String := es.foldl Event.home ""

/-- The timer that an event sets, in a callback of a channel. -/
def Event.timer? (home : String) : Event α Ω → Option Timer
  | .effect (.runLater topic event) => some { home, topic, event }
  | .effect (.runInterval topic event) => some { home, topic, event }
  | _ => none

/-- The broadcast that a forwarder finds. -/
def Sys.found (s : Sys α Ω) (i : Nat) : Option PubSubMessage :=
  s.forwarders[i]?.bind fun f => (s.pubsub.chans[f.rx]?).bind (·.sent[f.read]?)

/-- What a step adds to the record, and takes from it. -/
def Post.next (serde : SerdeJson) (s : Sys α Ω) (l : SysLabel Ω) (post : Post) : Post :=
  match l with
  | .info => { post with mail := post.mail.tail }
  | .run _ =>
      match s.conn.todo with
      | some (.emit e _) => { post with timers := post.timers ++ (e.timer? (homeOf s.conn.log)).toList }
      | _ => post
  | .forward i =>
      if s.conn.stopped then post
      else
        let relayed := (s.found i).filter fun msg => (serde.pubsubToString msg).isSome
        { post with mail := post.mail ++ relayed.toList.map .broadcast }
  | .fire i =>
      if s.conn.stopped then { post with timers := post.timers.eraseIdx i }
      else
        { timers := if s.timers[i]?.any (·.2) then post.timers else post.timers.eraseIdx i
          mail := post.mail ++ (post.timers[i]?).toList.map .timer }
  | _ => post

/-- The record agrees with the timers and the mailbox. -/
structure Aligned (serde : SerdeJson) (s : Sys α Ω) (post : Post) : Prop where
  timers : s.timers.map (·.1) = post.timers.map Timer.key
  infos : s.infos.map some = post.mail.map (Mail.text serde)
  broadcasts : ∀ msg, .broadcast msg ∈ post.mail → ∃ t, .broadcast t msg ∈ s.pubsub.enqueued

variable {serde : SerdeJson} {s s' : Sys α Ω} {post : Post}

theorem perform_post {ω : Ω} {e : Event α Ω} {a : Answer Ω} (home : String)
    (h : s.perform serde ω e = some (s', a)) :
    s'.timers.map (·.1) = s.timers.map (·.1) ++ (e.timer? home).toList.map Timer.key ∧ s'.infos = s.infos := by
  have henqueue : ∀ cmd, (s.enqueue cmd).timers = s.timers ∧ (s.enqueue cmd).infos = s.infos := by
    intro cmd
    unfold Sys.enqueue
    split <;> exact ⟨rfl, rfl⟩
  cases e with
  | subscribe t =>
      simp only [Sys.perform] at h
      split at h
      · cases h
        simp [Event.timer?]
      · cases h
        simp [Event.timer?, henqueue]
  | recvReply =>
      simp only [Sys.perform] at h
      split at h
      · cases h
      · split at h
        · cases h
          simp [Event.timer?]
        · split at h
          · cases h
            simp [Event.timer?]
          · cases h
  | effect e =>
      cases h
      cases e with
      | broadcast topic event payload => simp [Event.timer?, Sys.effect, henqueue]
      | _ => simp [Event.timer?, Timer.key, Sys.effect, Sys.sendWs]
  | _ =>
      cases h
      simp [Event.timer?, Sys.sendWs]

theorem found_eq {i : Nat} {f : Forwarder} {msg : PubSubMessage} (hf : s.forwarders[i]? = some f)
    (hmsg : (s.pubsub.chans[f.rx]?).bind (·.sent[f.read]?) = some msg) : s.found i = some msg := by
  unfold Sys.found
  rw [hf]
  exact hmsg

theorem found_enqueued (hw : s.Wired) {i : Nat} {msg : PubSubMessage} (h : s.found i = some msg) :
    ∃ t, .broadcast t msg ∈ s.pubsub.enqueued := by
  obtain ⟨f, -, h⟩ := Option.bind_eq_some_iff.mp h
  obtain ⟨c, hc, hmsg⟩ := Option.bind_eq_some_iff.mp h
  exact hw.tracks.enqueued_of_sent hc (List.mem_of_getElem? hmsg)

section

variable [EmptyCollection α] {router : ChannelRouter α Ω}

omit [EmptyCollection α] in
/-- A step that neither the timers nor the mailbox see. -/
theorem Aligned.unmoved (ha : Aligned serde s post) (htimers : s'.timers = s.timers) (hinfos : s'.infos = s.infos)
    (henqueued : s.pubsub.enqueued <+: s'.pubsub.enqueued) : Aligned serde s' post where
  timers := by rw [htimers, ha.timers]
  infos := by rw [hinfos, ha.infos]
  broadcasts := by
    intro msg hmsg
    obtain ⟨t, ht⟩ := ha.broadcasts msg hmsg
    exact ⟨t, henqueued.subset ht⟩

theorem aligned_run {ω : Ω} (hw : s.Wired) (ha : Aligned serde s post)
    (h : s.step serde router (.run ω) = some s') :
    Aligned serde s' (post.next serde s (.run ω)) := by
  have henqueued := (turn_keeps (step_turn hw.running h)).1
  simp only [Sys.step] at h
  split at h
  · rename_i e k htodo
    obtain ⟨⟨s₁, a⟩, hperform, hconn⟩ := Option.bind_eq_some_iff.mp h
    obtain ⟨c, -, rfl⟩ := connStep_move hconn
    obtain ⟨htimers, hinfos⟩ := perform_post (homeOf s.conn.log) hperform
    have hnext : post.next serde s (.run ω)
        = { post with timers := post.timers ++ (e.timer? (homeOf s.conn.log)).toList } := by
      simp only [Post.next, htodo]
    rw [hnext]
    refine ⟨?_, hinfos.trans rfl ▸ ha.infos, ?_⟩
    · show s₁.timers.map (·.1) = _
      rw [htimers, List.map_append, ← ha.timers]
      rfl
    · intro msg hmsg
      obtain ⟨t, ht⟩ := ha.broadcasts msg hmsg
      exact ⟨t, henqueued.subset ht⟩
  · cases h

omit [EmptyCollection α] in
theorem aligned_take (ha : Aligned serde s post) {i : Nat} {f : Forwarder} {msg : PubSubMessage} {json : String}
    (hw : s.Wired) (hf : s.forwarders[i]? = some f)
    (hmsg : (s.pubsub.chans[f.rx]?).bind (·.sent[f.read]?) = some msg)
    (hjson : serde.pubsubToString msg = some json) (hlive : s.conn.stopped = false) (forwarders : List Forwarder) :
    Aligned serde { s with forwarders, infos := s.infos ++ [json] }
      (post.next serde s (.forward i : SysLabel Ω)) := by
  have hfound := found_eq hf hmsg
  have hnext : post.next serde s (.forward i : SysLabel Ω)
      = { post with mail := post.mail ++ [.broadcast msg] } := by
    simp [Post.next, hlive, hfound, hjson]
  rw [hnext]
  refine ⟨ha.timers, ?_, ?_⟩
  · rw [List.map_append, List.map_append, ha.infos]
    exact congrArg (_ ++ [·]) hjson.symm
  · intro m hm
    rcases List.mem_append.mp hm with hm | hm
    · exact ha.broadcasts m hm
    · obtain rfl := Mail.broadcast.inj (List.mem_singleton.mp hm)
      exact found_enqueued hw hfound

omit [EmptyCollection α] in
theorem aligned_fire (ha : Aligned serde s post) {i : Nat} {key : String} {recurring : Bool}
    (hkey : s.timers[i]? = some (key, recurring)) (hlive : s.conn.stopped = false) :
    Aligned serde { s with
        infos := s.infos ++ [key]
        timers := if recurring then s.timers else s.timers.eraseIdx i }
      (post.next serde s (.fire i : SysLabel Ω)) := by
  have hat := congrArg (·[i]?) ha.timers
  simp only [List.getElem?_map, hkey, Option.map_some] at hat
  obtain ⟨t, htimer, htext⟩ := Option.map_eq_some_iff.mp hat.symm
  have hnext : post.next serde s (.fire i : SysLabel Ω) =
      { timers := if recurring then post.timers else post.timers.eraseIdx i
        mail := post.mail ++ [.timer t] } := by
    simp [Post.next, hlive, hkey, htimer]
  rw [hnext]
  refine ⟨?_, ?_, ?_⟩
  · cases recurring with
    | true => exact ha.timers
    | false =>
        show (s.timers.eraseIdx i).map (·.1) = _
        rw [← List.eraseIdx_map, ha.timers, List.eraseIdx_map]
        rfl
  · rw [List.map_append, List.map_append, ha.infos]
    exact congrArg (fun text => _ ++ [some text]) htext.symm
  · intro m hm
    rcases List.mem_append.mp hm with hm | hm
    · exact ha.broadcasts m hm
    · cases List.mem_singleton.mp hm

/-- **The record stays true.** -/
theorem aligned_step (hw : s.Wired) (ha : Aligned serde s post) {l : SysLabel Ω}
    (h : s.step serde router l = some s') : Aligned serde s' (post.next serde s l) := by
  have hturn := step_turn hw.running h
  have henqueued := (turn_keeps hturn).1
  cases hturn with
  | run htodo hacts => exact aligned_run hw ha h
  | info hinfos hwaiting =>
      refine ⟨ha.timers, ?_, fun msg hmsg => ha.broadcasts msg (List.mem_of_mem_tail hmsg)⟩
      have htail := congrArg List.tail ha.infos
      rw [hinfos] at htail
      rw [List.map_cons, List.tail_cons] at htail
      rw [htail, ← List.map_tail]
      rfl
  | take hf hmsg hjson hlive => exact aligned_take ha hw hf hmsg hjson hlive _
  | @skip i f msg hf hmsg hjson =>
      have hfound := found_eq hf hmsg
      have hnext : post.next serde s (.forward i : SysLabel Ω) = post := by
        simp [Post.next, hfound, Option.filter, hjson]
      rw [hnext]
      exact ha.unmoved rfl rfl henqueued
  | @broken i f hstopped =>
      have hnext : post.next serde s (.forward i : SysLabel Ω) = post := by
        simp [Post.next, hstopped]
      rw [hnext]
      exact ha.unmoved rfl rfl henqueued
  | fire hkey hlive => exact aligned_fire ha hkey hlive
  | @fireLast i hstopped =>
      have hnext : post.next serde s (.fire i : SysLabel Ω) = { post with timers := post.timers.eraseIdx i } := by
        simp [Post.next, hstopped]
      rw [hnext]
      refine ⟨?_, ha.infos, ha.broadcasts⟩
      show (s.timers.eraseIdx i).map (·.1) = _
      rw [← List.eraseIdx_map, ha.timers, List.eraseIdx_map]
  | _ => exact ha.unmoved rfl rfl henqueued

end

/-! ### What a text is taken for -/

/-- The callbacks that are called in some events, and the topics of their sockets. -/
def calls (es : List (Event α Ω)) : List (Call × String) :=
  es.filterMap fun
    | .call c t => some (c, t)
    | _ => none

def Mail.topic : Mail → String
  | .timer t => t.home
  | .broadcast msg => msg.topic

def Mail.event : Mail → String
  | .timer t => t.event
  | .broadcast msg => msg.event

/-- The handler makes the one call that is due: of the channel of that topic, if it is joined. -/
structure HandedOver (serde : SerdeJson) (m : Mail) (joined : Joined α Ω) (p : Handler α Ω Unit) : Prop where
  handler : p = callInfo m.source (m.message serde) joined
  topic : (m.message serde).topic = m.topic
  event : (m.message serde).event = m.event
  once : ∀ xs es, p.Runs xs es () →
    calls es = if m.topic ∈ joined then [(.handleInfo m.source (m.message serde), m.topic)] else []

/-- What stands before the first NUL of the topic that a timer was set on. -/
def Timer.front (t : Timer) : List Char := t.topic.toList.takeWhile (· != timerSep)

/-- A timer that is set on the topic that its socket is joined as, and on one without a NUL. -/
def Timer.Plain (t : Timer) : Prop := t.topic = t.home ∧ timerSep ∉ t.topic.toList

/-- A timer is not plain, and its channel is joined, or another one is under what its text names. -/
def Timer.Strays (t : Timer) (joined : Joined α Ω) : Prop :=
  ¬t.Plain ∧ (t.home ∈ joined ∨ String.ofList t.front ∈ joined)

/-- `serde_json` writes the message as an object, and reads it back with its topic and event. -/
def SerdeJson.Relays (serde : SerdeJson) (msg : PubSubMessage) : Prop :=
  ∃ text, serde.pubsubToString msg = some text ∧ text.toList.head? = some '\x7b' ∧
    serde.pubsubFromStr text = some (serde.carry msg) ∧
    (serde.carry msg).topic = msg.topic ∧ (serde.carry msg).event = msg.event

variable {joined : Joined α Ω}

theorem calls_append (es es' : List (Event α Ω)) : calls (es ++ es') = calls es ++ calls es' :=
  List.filterMap_append

theorem calls_await {A : Type} {c : Callback Ω A} {xs : List (Answer Ω)} {es : List (Event α Ω)} {a : A}
    (h : (await c).Runs xs es a) : calls es = [] := by
  obtain ⟨effects, rfl, -⟩ := Prog.runs_lift h
  unfold calls
  rw [List.filterMap_map]
  exact List.filterMap_eq_nil_iff.mpr fun _ _ => rfl

/-- One call, whatever the channel does in it. -/
theorem calls_callInfo {source : InfoSource} {msg : PubSubMessage} {xs : List (Answer Ω)}
    {es : List (Event α Ω)} (h : (callInfo source msg joined).Runs xs es ()) :
    calls es = if msg.topic ∈ joined then [(.handleInfo source msg, msg.topic)] else [] := by
  unfold callInfo at h
  cases hlookup : joined.lookup msg.topic with
  | none =>
      rw [hlookup] at h
      obtain ⟨-, rfl, -⟩ := Prog.runs_ret h
      rw [if_neg (AList.lookup_eq_none.mp hlookup)]
      rfl
  | some entry =>
      have hmem : msg.topic ∈ joined := AList.lookup_isSome.mp (by rw [hlookup]; rfl)
      rw [hlookup] at h
      rw [if_pos hmem]
      obtain ⟨xs₁, xs₂, es₁, es₂, _, rfl, rfl, hcall, hrest⟩ := Prog.runs_bind h
      obtain ⟨xs₃, xs₄, es₃, es₄, result, rfl, rfl, hawait, hjoined⟩ := Prog.runs_bind hrest
      rw [calls_append, calls_append, calls_await hawait]
      cases hcall with
      | emit hcall =>
          cases hcall
          cases hjoined with
          | emit hjoined =>
              cases hjoined
              rfl

/-- Two messages are taken the same way only if they are the same, or neither topic is joined. -/
theorem callInfo_eq_iff {source : InfoSource} {msg msg' : PubSubMessage} :
    callInfo source msg joined = callInfo source msg' joined ↔
      msg = msg' ∨ (msg.topic ∉ joined ∧ msg'.topic ∉ joined) := by
  unfold callInfo
  rw [← AList.lookup_eq_none, ← AList.lookup_eq_none]
  constructor
  · intro h
    cases hlookup : joined.lookup msg.topic with
    | none =>
        cases hlookup' : joined.lookup msg'.topic with
        | none => exact Or.inr ⟨rfl, rfl⟩
        | some entry =>
            rw [hlookup, hlookup'] at h
            cases h
    | some entry =>
        cases hlookup' : joined.lookup msg'.topic with
        | none =>
            rw [hlookup, hlookup'] at h
            cases h
        | some entry' =>
            rw [hlookup, hlookup'] at h
            injection h with hevent
            injection hevent with hcall
            injection hcall with _ hmsg
            exact Or.inl hmsg
  · rintro (rfl | ⟨hnone, hnone'⟩)
    · rfl
    · rw [hnone, hnone']

/-- A timer's text is taken for what its first NUL separates. -/
theorem handleInfo_timer {topic event : String} {before behind : List Char}
    (hsplit : topic.toList ++ timerSep :: event.toList = before ++ timerSep :: behind)
    (hnot : timerSep ∉ before) :
    handleInfo serde (timerKey topic event) joined =
      callInfo .timer { topic := .ofList before, event := .ofList behind, payload := .null } joined := by
  have hkey : (timerKey topic event).toList = timerPrefix.toList ++ (before ++ timerSep :: behind) := by
    unfold timerKey
    rw [← hsplit]
    simp [String.toList_append]
  unfold handleInfo
  rw [RustStd.stripPrefix_eq_some.mpr hkey]
  simp only
  rw [RustStd.splitAtChar_eq_some.mpr ⟨rfl, hnot⟩]

theorem handleInfo_broadcast {msg : PubSubMessage} {text : String} (hrelays : serde.Relays msg)
    (htext : serde.pubsubToString msg = some text) :
    handleInfo serde text joined = callInfo .pubsub (serde.carry msg) joined := by
  obtain ⟨text', htext', hhead, hread, -⟩ := hrelays
  obtain rfl := Option.some.inj (htext.symm.trans htext')
  have hstrip : RustStd.stripPrefix text.toList timerPrefix.toList = none := by
    rw [Option.eq_none_iff_forall_ne_some]
    intro rest hrest
    have hfirst : (timerPrefix.toList ++ rest).head? = some '_' := rfl
    rw [RustStd.stripPrefix_eq_some.mp hrest, hfirst] at hhead
    exact absurd hhead (by decide)
  unfold handleInfo
  rw [hstrip]
  simp only [hread]

theorem handedOver_of_eq {m : Mail} {p : Handler α Ω Unit} (h : p = callInfo m.source (m.message serde) joined)
    (htopic : (m.message serde).topic = m.topic) (hevent : (m.message serde).event = m.event) :
    HandedOver serde m joined p where
  handler := h
  topic := htopic
  event := hevent
  once := by
    intro xs es hruns
    rw [h] at hruns
    rw [calls_callInfo hruns, htopic]

/-- A timer's text is cut behind its front, and there its own topic and event are read if it is plain. -/
theorem timer_cut (t : Timer) : ∃ behind, t.topic.toList ++ timerSep :: t.event.toList = t.front ++ timerSep :: behind ∧
    timerSep ∉ t.front ∧ ((t.front = t.home.toList ∧ behind = t.event.toList) ↔ t.Plain) := by
  by_cases hmem : timerSep ∈ t.topic.toList
  · obtain ⟨before, rest, htopic, hnot⟩ := List.eq_append_cons_of_mem hmem
    have hfront : t.front = before := by
      have hall : ∀ x ∈ before, (x != timerSep) = true := by
        intro x hx
        simpa using fun heq : x = timerSep => hnot (heq ▸ hx)
      unfold Timer.front
      rw [htopic, List.takeWhile_append_of_pos hall, List.takeWhile_cons_of_neg (by simp), List.append_nil]
    refine ⟨rest ++ timerSep :: t.event.toList, by rw [hfront, htopic]; simp, by rw [hfront]; exact hnot, ?_⟩
    refine iff_of_false ?_ fun hplain => hplain.2 hmem
    rintro ⟨-, hbehind⟩
    have hlen := congrArg List.length hbehind
    simp only [List.length_append, List.length_cons] at hlen
    omega
  · have hfront : t.front = t.topic.toList := by
      refine List.takeWhile_eq_self_iff.mpr fun x hx => ?_
      simpa using fun heq : x = timerSep => hmem (heq ▸ hx)
    refine ⟨t.event.toList, by rw [hfront], by rw [hfront]; exact hmem, ?_⟩
    rw [hfront]
    constructor
    · rintro ⟨hhome, -⟩
      exact ⟨String.toList_inj.mp hhome, hmem⟩
    · rintro ⟨hhome, -⟩
      exact ⟨by rw [hhome], rfl⟩

/-- **A timer's text is taken for its own topic and event, unless it strays.** -/
theorem handedOver_timer_iff {t : Timer} :
    HandedOver serde (.timer t) joined (handleInfo serde t.key joined) ↔ ¬t.Strays joined := by
  obtain ⟨behind, htext, hnot, hread⟩ := timer_cut t
  have htaken : handleInfo serde t.key joined = _ := handleInfo_timer htext hnot
  have hsame : ({ topic := .ofList t.front, event := .ofList behind, payload := .null } : PubSubMessage)
      = Mail.message serde (.timer t) ↔ t.Plain := by
    rw [← hread]
    unfold Mail.message
    rw [PubSubMessage.mk.injEq]
    simp only [and_true]
    rw [← String.toList_inj, ← String.toList_inj, String.toList_ofList, String.toList_ofList]
  have hcall : handleInfo serde t.key joined = callInfo .timer (Mail.message serde (.timer t)) joined ↔
      ¬t.Strays joined := by
    rw [htaken, callInfo_eq_iff, hsame]
    unfold Timer.Strays
    have hhome : (Mail.message serde (.timer t)).topic = t.home := rfl
    rw [hhome]
    tauto
  exact ⟨fun h => hcall.mp h.handler, fun h => handedOver_of_eq (hcall.mpr h) rfl rfl⟩

theorem handedOver_broadcast {msg : PubSubMessage} {text : String} (hrelays : serde.Relays msg)
    (htext : serde.pubsubToString msg = some text) :
    HandedOver serde (.broadcast msg) joined (handleInfo serde text joined) := by
  obtain ⟨_, _, _, _, htopic, hevent⟩ := id hrelays
  exact handedOver_of_eq (handleInfo_broadcast hrelays htext) htopic hevent

/-! ### Whole runs -/

section

variable [EmptyCollection α] (serde : SerdeJson) (router : ChannelRouter α Ω)

/-- The record of a run. -/
def postOf (labels : List (SysLabel Ω)) : Post :=
  (sysSystem serde router).record (Post.next serde) Sys.init { timers := [], mail := [] } labels

/-- Each text that the process takes is handed over as what it was written from. -/
def ComeBack (labels : List (SysLabel Ω)) : Prop :=
  ∀ before behind s s', labels = before ++ .info :: behind →
    (sysSystem serde router).exec Sys.init before = some s → s.step serde router .info = some s' →
    ∃ m rest p, (postOf serde router before).mail = m :: rest ∧ s'.conn.todo = some p ∧
      HandedOver serde m s.conn.joined p

/-- No timer is taken that strays. -/
def NeverStrays (labels : List (SysLabel Ω)) : Prop :=
  ∀ before behind s t rest, labels = before ++ .info :: behind →
    (sysSystem serde router).exec Sys.init before = some s →
    (postOf serde router before).mail = .timer t :: rest → ¬t.Strays s.conn.joined

variable {serde router}

omit [EmptyCollection α] in
theorem aligned_init : Aligned serde (Sys.init : Sys α Ω) { timers := [], mail := [] } where
  timers := rfl
  infos := rfl
  broadcasts := nofun

theorem aligned_exec {labels : List (SysLabel Ω)} {s : Sys α Ω}
    (h : (sysSystem serde router).exec Sys.init labels = some s) :
    s.Wired ∧ Aligned serde s (postOf serde router labels) :=
  Lts.exec_record (M := sysSystem serde router) (I := fun s post => s.Wired ∧ Aligned serde s post)
    (fun _ _ _ _ hI hstep => ⟨wired_step hI.1 hstep, aligned_step hI.1 hI.2 hstep⟩)
    ⟨wired_init, aligned_init⟩ h

/-- What every step only adds to, a run only adds to. -/
theorem grows_exec {X : Type} {f : Sys α Ω → List X}
    (hf : ∀ s l s', Turn serde router s l s' → f s <+: f s') {labels : List (SysLabel Ω)} {s t : Sys α Ω}
    (hw : s.Wired) (h : (sysSystem serde router).exec s labels = some t) : f s <+: f t := by
  refine (Lts.exec_keeps (M := sysSystem serde router) (I := fun t => t.Wired ∧ f s <+: f t) ?_
    ⟨hw, List.prefix_rfl⟩ h).2
  rintro t l t' ⟨hw, hgrows⟩ hstep
  exact ⟨wired_step hw hstep, hgrows.trans (hf t l t' (step_turn hw.running hstep))⟩

theorem info_step {s s' : Sys α Ω} (h : s.step serde router .info = some s') :
    ∃ text infos, s.infos = text :: infos ∧ s'.conn.todo = some (handleInfo serde text s.conn.joined) := by
  simp only [Sys.step] at h
  split at h
  · rename_i text infos hinfos
    obtain ⟨c, hmove, rfl⟩ := connStep_move h
    cases hmove with
    | info hwaiting => exact ⟨text, infos, hinfos, rfl⟩
  · cases h

/-- The timers that were set in some events, behind a callback of `home`. -/
def timersFrom : String → List (Event α Ω) → List Timer
  | _, [] => []
  | home, e :: es => (e.timer? home).toList ++ timersFrom (e.home home) es

/-- The timers that a connection has set. -/
def timersSet (es : List (Event α Ω)) : List Timer := timersFrom "" es

omit [EmptyCollection α] in
theorem timersFrom_append (es es' : List (Event α Ω)) : ∀ home,
    timersFrom home (es ++ es') = timersFrom home es ++ timersFrom (es.foldl Event.home home) es' := by
  induction es with
  | nil => exact fun _ => rfl
  | cons e es ih =>
      intro home
      rw [List.cons_append, timersFrom, timersFrom, ih, List.append_assoc]
      rfl

omit [EmptyCollection α] in
theorem timersSet_concat (es : List (Event α Ω)) (e : Event α Ω) :
    timersSet (es ++ [e]) = timersSet es ++ (e.timer? (homeOf es)).toList := by
  unfold timersSet
  rw [timersFrom_append, timersFrom, timersFrom, List.append_nil]
  rfl

omit [EmptyCollection α] in
theorem timersSet_mono {es es' : List (Event α Ω)} (h : es <+: es') : timersSet es <+: timersSet es' := by
  obtain ⟨more, rfl⟩ := h
  unfold timersSet
  rw [timersFrom_append]
  exact List.prefix_append _ _

/-- What the record says of timers was set. -/
def Post.WasSet (post : Post) (s : Sys α Ω) : Prop :=
  post.timers ⊆ timersSet s.conn.log ∧ ∀ t, .timer t ∈ post.mail → t ∈ timersSet s.conn.log

omit [EmptyCollection α] in
/-- A step that sets no timer notes no new one. -/
theorem next_known {s : Sys α Ω} {post : Post} {l : SysLabel Ω} (hl : ∀ ω, l ≠ .run ω) :
    (post.next serde s l).timers ⊆ post.timers ∧ ∀ t, .timer t ∈ (post.next serde s l).mail →
      .timer t ∈ post.mail ∨ t ∈ post.timers := by
  cases l with
  | run ω => exact absurd rfl (hl ω)
  | info => exact ⟨List.Subset.refl _, fun _ hm => .inl (List.mem_of_mem_tail hm)⟩
  | forward i =>
      have hmail : ∀ t, .timer t ∈ (post.next serde s (.forward i : SysLabel Ω)).mail → .timer t ∈ post.mail := by
        intro t hm
        by_cases hstopped : s.conn.stopped = true <;> simpa [Post.next, hstopped] using hm
      refine ⟨?_, fun t hm => .inl (hmail t hm)⟩
      by_cases hstopped : s.conn.stopped = true <;> simp [Post.next, hstopped]
  | fire i =>
      cases hstopped : s.conn.stopped with
      | true =>
          have hnext : post.next serde s (.fire i : SysLabel Ω)
              = { post with timers := post.timers.eraseIdx i } := by
            simp [Post.next, hstopped]
          rw [hnext]
          exact ⟨List.eraseIdx_subset, fun _ => .inl⟩
      | false =>
          constructor
          · by_cases hrecurs : s.timers[i]?.any (·.2) = true
            · simp [Post.next, hstopped, hrecurs]
            · simp [Post.next, hstopped, hrecurs, List.eraseIdx_subset]
          · intro t hm
            simp only [Post.next, hstopped] at hm
            rcases List.mem_append.mp hm with hm | hm
            · exact .inl hm
            · obtain ⟨timer, htimer, heq⟩ := List.mem_map.mp hm
              cases heq
              exact .inr (List.mem_of_getElem? (Option.mem_toList.mp htimer))
  | _ => exact ⟨List.Subset.refl _, fun _ => .inl⟩

theorem log_grows {s s' : Sys α Ω} {l : SysLabel Ω} (h : Turn serde router s l s') :
    s.conn.log <+: s'.conn.log := by
  cases h with
  | run htodo hacts => exact List.prefix_append _ _
  | finish htodo => exact List.prefix_append _ _
  | _ => exact List.prefix_rfl

theorem wasSet_step {s s' : Sys α Ω} {post : Post} (hw : s.Wired) (hset : post.WasSet s) {l : SysLabel Ω}
    (h : s.step serde router l = some s') : (post.next serde s l).WasSet s' := by
  obtain ⟨htimers, hmail⟩ := hset
  have hturn := step_turn hw.running h
  have hgrows : timersSet s.conn.log ⊆ timersSet s'.conn.log := (timersSet_mono (log_grows hturn)).subset
  by_cases hl : ∃ ω, l = .run ω
  · obtain ⟨ω, rfl⟩ := hl
    cases hturn with
    | @run _ e k s₁ a htodo hacts =>
        have hnext : post.next serde s (.run ω)
            = { post with timers := post.timers ++ (e.timer? (homeOf s.conn.log)).toList } := by
          simp only [Post.next, htodo]
        have hset : (e.timer? (homeOf s.conn.log)).toList ⊆ timersSet (s.conn.log ++ [e]) := by
          rw [timersSet_concat]
          exact List.subset_append_right _ _
        rw [hnext]
        exact ⟨List.append_subset.mpr ⟨List.Subset.trans htimers hgrows, hset⟩,
          fun t hm => hgrows (hmail t hm)⟩
  · have hother : ∀ ω, l ≠ .run ω := fun ω hω => hl ⟨ω, hω⟩
    obtain ⟨hknown, hknown'⟩ := @next_known α Ω serde s post l hother
    refine ⟨List.Subset.trans hknown (List.Subset.trans htimers hgrows), ?_⟩
    intro t hm
    rcases hknown' t hm with hm | hm
    · exact hgrows (hmail t hm)
    · exact hgrows (htimers hm)

/-- Where all timers that are set are plain, none strays. -/
theorem neverStrays_of_plain {labels : List (SysLabel Ω)} {s : Sys α Ω}
    (hrun : (sysSystem serde router).exec Sys.init labels = some s)
    (hplain : ∀ t ∈ timersSet s.conn.log, t.Plain) : NeverStrays serde router labels := by
  rintro before behind mid t rest rfl hmid hmail ⟨hstrays, -⟩
  rw [Lts.exec_append, hmid] at hrun
  have hw := (aligned_exec hmid).1
  have hset : (postOf serde router before).WasSet mid :=
    (Lts.exec_record (M := sysSystem serde router) (I := fun s post => s.Wired ∧ Post.WasSet post s)
      (fun _ _ _ _ hI hstep => ⟨wired_step hI.1 hstep, wasSet_step hI.1 hI.2 hstep⟩)
      ⟨wired_init, List.nil_subset _, fun _ hm => absurd hm List.not_mem_nil⟩ hmid).2
  have hgrows : mid.conn.log <+: s.conn.log :=
    grows_exec (f := fun s => s.conn.log) (fun _ _ _ => log_grows) hw hrun
  refine hstrays (hplain t ((timersSet_mono hgrows).subset (hset.2 t ?_)))
  rw [hmail]
  exact List.mem_cons_self ..

/--
**When timers come back to their channels.**  In every run, every timer that the process takes is
handed to the channel that set it with its event, once and to no other, and every broadcast is
taken for the broadcast it is, exactly if no timer is taken that was set on a topic with a NUL, or
on another than its socket is joined as, while its channel is joined, or one is under what its
text names.
-/
theorem timers_come_back_iff {labels : List (SysLabel Ω)} {s : Sys α Ω}
    (hrun : (sysSystem serde router).exec Sys.init labels = some s)
    (hserde : ∀ t msg, .broadcast t msg ∈ s.pubsub.enqueued → serde.Relays msg) :
    ComeBack serde router labels ↔ NeverStrays serde router labels := by
  constructor
  · rintro hback before behind mid t rest rfl hmid hmail
    rw [Lts.exec_append] at hrun
    obtain ⟨mid', hmid', hrest⟩ := Option.bind_eq_some_iff.mp hrun
    obtain rfl := Option.some.inj (hmid.symm.trans hmid')
    rw [Lts.exec_cons] at hrest
    obtain ⟨after, hstep, -⟩ := Option.bind_eq_some_iff.mp hrest
    obtain ⟨m, rest', p, hmail', htodo, hhanded⟩ := hback before behind mid after rfl hmid hstep
    obtain ⟨text, infos, hinfos, htodo'⟩ := info_step hstep
    obtain rfl := (List.cons.inj (hmail.symm.trans hmail')).1
    obtain rfl := Option.some.inj (htodo'.symm.trans htodo)
    have halign := (aligned_exec hmid).2.infos
    rw [hinfos, hmail, List.map_cons, List.map_cons] at halign
    obtain rfl : text = t.key := Option.some.inj (List.cons.inj halign).1
    exact handedOver_timer_iff.mp hhanded
  · rintro hnever before behind mid after rfl hmid hstep
    obtain ⟨hw, halign⟩ := aligned_exec hmid
    obtain ⟨text, infos, hinfos, htodo⟩ := info_step hstep
    have hinfos' := halign.infos
    rw [hinfos, List.map_cons] at hinfos'
    obtain ⟨m, rest, hmail, htext, -⟩ := List.map_eq_cons_iff.mp hinfos'.symm
    refine ⟨m, rest, _, hmail, htodo, ?_⟩
    cases m with
    | timer t =>
        obtain rfl : t.key = text := Option.some.inj htext
        exact handedOver_timer_iff.mpr (hnever before behind mid t rest rfl hmid hmail)
    | broadcast msg =>
        obtain ⟨t, ht⟩ := halign.broadcasts msg (by rw [hmail]; exact List.mem_cons_self ..)
        rw [Lts.exec_append, hmid] at hrun
        have hgrows := grows_exec (f := fun s => s.pubsub.enqueued) (fun _ _ _ h => (turn_keeps h).1) hw hrun
        exact handedOver_broadcast (hserde t msg (hgrows.subset ht)) htext

end

/-! ### Runs -/

/-- A channel that sets a timer when someone joins. -/
def ticker : Channel (List Nat) Unit where
  join := fun _ _ socket => do
    socket.runLater "tick"
    pure (.ok .null, socket)
  handleIn := fun _ payload socket => pure (.ok (some (.ok payload)), socket)

def tickerRouter : ChannelRouter (List Nat) Unit := ChannelRouter.new.channel "room:*" ticker

/-- A client joins, with a reference or without one; then the timer fires, and is taken. -/
def joinAndTick (text : String) (events : Nat) (i : Nat) : List (SysLabel Unit) :=
  [.receive text, .cast] ++ List.replicate events (.run ()) ++
    [.serve, .run (), .run (), .run (), .finish, .fire i, .info]

theorem timers_come_back_iff_tick :
    ∃ s p, (sysSystem roomSerde tickerRouter).exec Sys.init (joinAndTick joinText 6 0) = some s ∧
      s.conn.todo = some p ∧ ComeBack roomSerde tickerRouter (joinAndTick joinText 6 0) := by
  obtain ⟨s, p, hrun, htodo, hcmds, htimers⟩ :
      ∃ s p, (sysSystem roomSerde tickerRouter).exec Sys.init (joinAndTick joinText 6 0) = some s ∧
        s.conn.todo = some p ∧ s.pubsub.enqueued = [.subscribe "room:1" 0] ∧
        timersSet s.conn.log = [{ home := "room:1", topic := "room:1", event := "tick" }] :=
    ⟨_, _, rfl, rfl, rfl, rfl⟩
  refine ⟨s, p, hrun, htodo, (timers_come_back_iff hrun ?_).mpr (neverStrays_of_plain hrun ?_)⟩
  · intro t msg hmsg
    rw [hcmds] at hmsg
    simp at hmsg
  · rw [htimers]
    unfold Timer.Plain
    decide

/-- A client joins a room whose name has a NUL. -/
def nulJoinText : String :=
  "\x7b\"topic\":\"room:1\\u0000b\",\"event\":\"phx_join\",\"payload\":null,\"ref\":null\x7d"

def nulSerde : SerdeJson :=
  { roomSerde with
    phoenixFromStr := fun text =>
      if text = nulJoinText then
        some { topic := "room:1\x00b", event := phxJoin, payload := .null, msgRef := none }
      else roomSerde.phoenixFromStr text }

/-- The timer that is set when it is joined. -/
def nulTimer : Timer := { home := "room:1\x00b", topic := "room:1\x00b", event := "tick" }

/-- The client joins "room:1", and then that room; the timer that is set there fires. -/
def tornRun : List (SysLabel Unit) :=
  joinAndTick joinText 6 0 ++ [.run (), .run (), .run (), .finish] ++ (joinAndTick nulJoinText 5 0).dropLast

/-- It comes back to the channel of the other room, with another event. -/
theorem torn_timer_strays :
    (∃ s s' : Sys (List Nat) Unit, (sysSystem nulSerde tickerRouter).exec Sys.init tornRun = some s ∧
      s.step nulSerde tickerRouter .info = some s' ∧
      (postOf nulSerde tickerRouter tornRun).mail = [.timer nulTimer] ∧
      s'.conn.todo = some (callInfo .timer
        { topic := "room:1", event := "b\x00tick", payload := .null } s.conn.joined)) ∧
    ¬ComeBack nulSerde tickerRouter (tornRun ++ [.info]) := by
  obtain ⟨s, s', hrun, hstep, hmail, hkeys, htodo, htaken⟩ :
      ∃ s s' : Sys (List Nat) Unit, (sysSystem nulSerde tickerRouter).exec Sys.init tornRun = some s ∧
        s.step nulSerde tickerRouter .info = some s' ∧
        (postOf nulSerde tickerRouter tornRun).mail = [.timer nulTimer] ∧
        s.conn.joined.keys = ["room:1\x00b", "room:1"] ∧
        s'.conn.todo = some (handleInfo nulSerde nulTimer.key s.conn.joined) ∧
        s'.conn.todo = some (callInfo .timer
          { topic := "room:1", event := "b\x00tick", payload := .null } s.conn.joined) :=
    ⟨_, _, rfl, rfl, rfl, rfl, rfl, rfl⟩
  refine ⟨⟨s, s', hrun, hstep, hmail, htaken⟩, ?_⟩
  intro hback
  obtain ⟨m, rest, p, hmail', htodo', hhanded⟩ := hback tornRun [] s s' rfl hrun hstep
  obtain ⟨rfl, -⟩ := List.cons.inj (hmail.symm.trans hmail')
  obtain rfl := Option.some.inj (htodo.symm.trans htodo')
  refine handedOver_timer_iff.mp hhanded ⟨fun hplain => hplain.2 (by decide), .inl ?_⟩
  show _ ∈ s.conn.joined.keys
  rw [hkeys]
  exact List.mem_cons_self ..

end Mahalo.Channels
