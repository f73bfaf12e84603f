/-
A join gates every callback of its channel.

`Gate` says which events a connection may emit after a log: the callbacks of a
topic only since a join that returned `Ok`, a changed `joined_channels` only with
the right entries, and after a failed join nothing but its reply.  Each handler
is checked against it once, by `wp`, with arbitrary channels; a connection that
runs the handlers one event at a time then keeps it, whatever it receives and
whatever runs in between.
-/
import Mahalo.Proofs.Channel.Handlers
import Mahalo.Lib.History
import Mathlib.Data.List.TakeWhile

namespace Mahalo.Channels

open Interactive History

variable {α Ω : Type}

/-! ### What a log says -/

/-- A join of `t` returned `Ok`, and no leave of `t` has been processed since. -/
def JoinedSince (h : List (Event α Ω)) (t : String) : Prop :=
  ∃ pre post, h = pre ++ .joinReturned t true :: post ∧ .left t ∉ post

/-- The request being handled is a join that returned `Err`. -/
def FailedJoin (h : List (Event α Ω)) : Prop :=
  ∃ pre t post, h = pre ++ .joinReturned t false :: post ∧ .idle ∉ post

/-- `joined_channels` after the events of a log. -/
def joinedOf (h : List (Event α Ω)) : Joined α Ω := h.foldl (fun j e => e.joinedAfter j) ∅

@[simp] theorem joinedOf_concat (h : List (Event α Ω)) (e : Event α Ω) :
    joinedOf (h ++ [e]) = e.joinedAfter (joinedOf h) := by
  unfold joinedOf
  rw [List.foldl_append]
  rfl

theorem joinedSince_concat {h : List (Event α Ω)} {e : Event α Ω} {t : String} :
    JoinedSince (h ++ [e]) t ↔ e = .joinReturned t true ∨ (JoinedSince h t ∧ e ≠ .left t) := by
  constructor
  · rintro ⟨pre, post, hsplit, hleft⟩
    rcases concat_eq_split hsplit with ⟨-, rfl, -⟩ | ⟨post', rfl, rfl⟩
    · exact Or.inl rfl
    · simp only [List.mem_append, List.mem_singleton, not_or] at hleft
      exact Or.inr ⟨⟨pre, post', rfl, hleft.1⟩, Ne.symm hleft.2⟩
  · rintro (rfl | ⟨⟨pre, post, rfl, hleft⟩, hne⟩)
    · exact ⟨h, [], rfl, by simp⟩
    · exact ⟨pre, post ++ [e], by simp, by simp [hleft, Ne.symm hne]⟩

theorem failedJoin_concat {h : List (Event α Ω)} {e : Event α Ω} :
    FailedJoin (h ++ [e]) ↔ (∃ t, e = .joinReturned t false) ∨ (FailedJoin h ∧ e ≠ .idle) := by
  constructor
  · rintro ⟨pre, t, post, hsplit, hidle⟩
    rcases concat_eq_split hsplit with ⟨-, rfl, -⟩ | ⟨post', rfl, rfl⟩
    · exact Or.inl ⟨t, rfl⟩
    · simp only [List.mem_append, List.mem_singleton, not_or] at hidle
      exact Or.inr ⟨⟨pre, t, post', rfl, hidle.1⟩, Ne.symm hidle.2⟩
  · rintro (⟨t, rfl⟩ | ⟨⟨pre, t, post, rfl, hidle⟩, hne⟩)
    · exact ⟨h, t, [], rfl, by simp⟩
    · exact ⟨pre, t, post ++ [e], by simp, by simp [hidle, Ne.symm hne]⟩

/-! ### The channel of a topic -/

/-- The channel of the first pattern, in the order of registration, that matches a topic. -/
def ChannelRouter.FirstMatch (router : ChannelRouter α Ω) (topic : String) (channel : Channel α Ω) : Prop :=
  ∃ before pattern after, router.routes = before ++ (pattern, channel) :: after ∧
    topicMatches pattern topic = true ∧ ∀ route ∈ before, topicMatches route.1 topic = false

theorem ChannelRouter.find_eq_some {router : ChannelRouter α Ω} {topic : String} {channel : Channel α Ω} :
    router.find topic = some channel ↔ router.FirstMatch topic channel := by
  unfold find
  rw [Option.map_eq_some_iff]
  constructor
  · rintro ⟨⟨pattern, _⟩, hfind, rfl⟩
    obtain ⟨hmatch, before, after, hroutes, hbefore⟩ := List.find?_eq_some_iff_append.mp hfind
    exact ⟨before, pattern, after, hroutes, hmatch, fun route hmem => by simpa using hbefore route hmem⟩
  · rintro ⟨before, pattern, after, hroutes, hmatch, hbefore⟩
    refine ⟨(pattern, channel), List.find?_eq_some_iff_append.mpr ⟨hmatch, before, after, hroutes, ?_⟩, rfl⟩
    intro route hmem
    simp [hbefore route hmem]

/-! ### The contract -/

/-- The callbacks that a join gates. -/
def Call.Gated : Call → Prop
  | .handleIn .. | .handleInfo .. | .terminate _ => True
  | .join | .started | .stopping => False

/-- Every entry is the channel its topic is routed to, with a socket of that topic. -/
def EntriesRouted (router : ChannelRouter α Ω) (j : Joined α Ω) : Prop :=
  ∀ t channel socket, j.lookup t = some (channel, socket) →
    socket.topic = t ∧ router.find t = some channel

structure Gate (router : ChannelRouter α Ω) (h : List (Event α Ω)) (e : Event α Ω) : Prop where
  calls : ∀ call t, e = .call call t → call.Gated → JoinedSince h t
  entries : ∀ j, e = .joined j → EntriesRouted router j
  failed : FailedJoin h → (∃ origin msg, e = .send origin msg) ∨ e = .idle

def gate (router : ChannelRouter α Ω) :
    Contract (Event α Ω) (fun _ => Answer Ω) (List (Event α Ω)) where
  allows := Gate router
  answers := fun _ _ _ => True
  next := fun h e _ => h ++ [e]

/-- No callback leaves a socket with another topic. -/
structure Channel.KeepsTopic (channel : Channel α Ω) : Prop where
  join : ∀ topic payload socket,
    (channel.join topic payload socket).Returns fun r => r.2.topic = socket.topic
  handleIn : ∀ event payload socket,
    (channel.handleIn event payload socket).Returns fun r => r.2.topic = socket.topic
  handleInfo : ∀ msg socket, (channel.handleInfo msg socket).Returns fun r => r.2.topic = socket.topic
  started : ∀ socket, (channel.started socket).Returns fun s => s.topic = socket.topic

/-- Between the events of a handler: what is joined is `j`, each of it since a join, and no join failed. -/
structure Live (j : Joined α Ω) (h : List (Event α Ω)) : Prop where
  map : joinedOf h = j
  since : ∀ t ∈ j, JoinedSince h t
  running : ¬FailedJoin h

/-- An event that is none of the marks the invariant looks at. -/
def Event.Plain : Event α Ω → Prop
  | .joinReturned .. | .joined _ | .left _ | .idle => False
  | _ => True

variable {j : Joined α Ω} {h : List (Event α Ω)}

theorem joinedSince_plain {e : Event α Ω} (he : e.Plain) {t : String} (hs : JoinedSince h t) :
    JoinedSince (h ++ [e]) t := by
  refine joinedSince_concat.mpr (Or.inr ⟨hs, ?_⟩)
  rintro rfl
  exact he

theorem Live.plain (hl : Live j h) {e : Event α Ω} (he : e.Plain) : Live j (h ++ [e]) where
  map := by
    rw [joinedOf_concat, hl.map]
    cases e <;> first | rfl | exact he.elim
  since := fun t ht => joinedSince_plain he (hl.since t ht)
  running := by
    rw [failedJoin_concat]
    rintro (⟨t, rfl⟩ | ⟨hfail, -⟩)
    · exact he
    · exact hl.running hfail

/-- An event of a handler in which no join has failed, other than a gated call or a changed map. -/
theorem gate_of_live {router : ChannelRouter α Ω} (hl : ¬FailedJoin h) {e : Event α Ω}
    (hcall : ∀ call t, e = .call call t → call.Gated → JoinedSince h t)
    (hentries : ∀ m, e = .joined m → EntriesRouted router m) : Gate router h e :=
  ⟨hcall, hentries, fun hf => absurd hf hl⟩

/-- An event that is neither a callback nor a changed map. -/
def Event.Ungated : Event α Ω → Prop
  | .call .. | .joined _ => False
  | _ => True

theorem gate_ungated {router : ChannelRouter α Ω} (hl : ¬FailedJoin h) {e : Event α Ω}
    (he : e.Ungated) : Gate router h e := by
  refine gate_of_live hl ?_ ?_
  · rintro call t rfl
    exact he.elim
  · rintro m rfl
    exact he.elim

theorem gate_call {router : ChannelRouter α Ω} (hl : ¬FailedJoin h) {call : Call} {t : String}
    (hs : call.Gated → JoinedSince h t) : Gate router h (.call call t) := by
  refine gate_of_live hl ?_ ?_
  · rintro call' t' ⟨⟩
    exact hs
  · rintro m ⟨⟩

theorem gate_joined {router : ChannelRouter α Ω} (hl : ¬FailedJoin h) {m : Joined α Ω}
    (hm : EntriesRouted router m) : Gate router h (.joined m) := by
  refine gate_of_live hl ?_ ?_
  · rintro call t ⟨⟩
  · rintro m' ⟨⟩
    exact hm

theorem joinedSince_keep {e : Event α Ω} {t : String} (hs : JoinedSince h t) (hne : e ≠ .left t) :
    JoinedSince (h ++ [e]) t :=
  joinedSince_concat.mpr (Or.inr ⟨hs, hne⟩)

/-! ### The handlers -/

section

variable {router : ChannelRouter α Ω}

theorem wp_emit_event {e : Event α Ω} {Q : List (Event α Ω) → Unit → Prop} :
    Prog.wp (gate router) h (emit e) Q ↔ Gate router h e ∧ (Answer Ω → True → Q (h ++ [e]) ()) :=
  Iff.rfl

theorem wp_emit_then {A : Type} {e : Event α Ω} {f : Unit → Handler α Ω A}
    {Q : List (Event α Ω) → A → Prop} :
    Prog.wp (gate router) h (emit e >>= f) Q ↔
      Gate router h e ∧ (Answer Ω → True → Prog.wp (gate router) (h ++ [e]) (f ()) Q) :=
  Iff.rfl

/-- What plain events keep, and what has no failed join in it. -/
theorem keeps_plain {I : List (Event α Ω) → Prop} (hI : ∀ h, I h → ¬FailedJoin h)
    (hplain : ∀ h (e : Event α Ω), e.Plain → I h → I (h ++ [e])) {e : Event α Ω}
    (he : e.Plain) (hfree : e.Ungated) : Keeps (gate router) I e :=
  fun h hh => ⟨gate_ungated (hI h hh) hfree, fun _ _ => hplain h e he hh⟩

/-- A callback keeps what plain events keep. -/
theorem wp_await {A : Type} {c : Callback Ω A} {P : A → Prop} (hc : c.Returns P)
    {I : List (Event α Ω) → Prop} (hI : ∀ h, I h → ¬FailedJoin h)
    (hplain : ∀ h (e : Event α Ω), e.Plain → I h → I (h ++ [e])) (h0 : I h) :
    Prog.wp (gate router) h (await c) fun h' a => I h' ∧ P a :=
  Keeps.wp_await hc (fun _ => keeps_plain hI hplain trivial trivial) h0

/-- A reply keeps what plain events keep. -/
theorem wp_replyTo {I : List (Event α Ω) → Prop}
    (hplain : ∀ h (e : Event α Ω), e.Plain → I h → I (h ++ [e])) (socket : ChannelSocket α)
    (msgRef : Option String) (origin : Origin) (reply : Reply) (h0 : I h) :
    Prog.wp (gate router) h (replyTo socket msgRef origin reply) fun h' _ => I h' := by
  refine Keeps.wp_replyTo ?_ socket msgRef origin reply h0
  intro origin msg h hh
  exact ⟨⟨nofun, nofun, fun _ => Or.inl ⟨_, _, rfl⟩⟩, fun _ _ => hplain h _ trivial hh⟩

variable (router) in
theorem wp_subscribe_forward {I : List (Event α Ω) → Prop} (hI : ∀ h, I h → ¬FailedJoin h)
    (hplain : ∀ h (e : Event α Ω), e.Plain → I h → I (h ++ [e])) (topic : String) (h0 : I h) :
    Prog.wp (gate router) h (subscribe topic >>= forward topic) fun h' _ => I h' := by
  have hkeeps : ∀ {e : Event α Ω}, e.Plain → e.Ungated → Keeps (gate router) I e :=
    fun he hfree => keeps_plain hI hplain he hfree
  rw [Prog.wp_bind]
  refine Prog.wp_mono ?_ (Keeps.wp_subscribe (hkeeps trivial trivial) (hkeeps trivial trivial) h0)
  intro h' rx hh
  exact Keeps.wp_forward (fun _ => hkeeps trivial trivial) rx hh

/-- What a handler leaves: every joined topic since its join. -/
def Settled (h : List (Event α Ω)) (_ : Unit) : Prop := ∀ t ∈ joinedOf h, JoinedSince h t

theorem Live.settled (hl : Live j h) (u : Unit) : Settled h u := by
  intro t ht
  rw [hl.map] at ht
  exact hl.since t ht

/-- The map after an insert, where the topic is joined. -/
theorem settled_insert (hl : Live j h) {t : String} (ht : JoinedSince h t)
    (entry : Channel α Ω × ChannelSocket α) (u : Unit) :
    Settled (h ++ [.joined (j.insert t entry)]) u := by
  intro t' ht'
  rw [joinedOf_concat] at ht'
  refine joinedSince_keep ?_ (by simp)
  rcases (AList.mem_insert _).mp ht' with rfl | hmem
  · exact ht
  · exact hl.since t' hmem

theorem live_insert (hl : Live j h) {t : String} (ht : JoinedSince h t)
    (entry : Channel α Ω × ChannelSocket α) :
    Live (j.insert t entry) (h ++ [.joined (j.insert t entry)]) where
  map := by rw [joinedOf_concat]; rfl
  since := by
    intro t' ht'
    refine joinedSince_keep ?_ (by simp)
    rcases (AList.mem_insert _).mp ht' with rfl | hmem
    · exact ht
    · exact hl.since t' hmem
  running := by
    rw [failedJoin_concat]
    rintro (⟨t, hbad⟩ | ⟨hfail, -⟩)
    · cases hbad
    · exact hl.running hfail

theorem entriesRouted_insert (hj : EntriesRouted router j) {t : String} {channel : Channel α Ω}
    {socket : ChannelSocket α} (htopic : socket.topic = t) (hfind : router.find t = some channel) :
    EntriesRouted router (j.insert t (channel, socket)) := by
  intro t' channel' socket' hlookup
  by_cases ht : t' = t
  · rw [ht, AList.lookup_insert] at hlookup
    cases hlookup
    exact ⟨htopic.trans ht.symm, by rw [ht]; exact hfind⟩
  · rw [AList.lookup_insert_ne ht] at hlookup
    exact hj t' channel' socket' hlookup

theorem wp_handleJoin [EmptyCollection α] {msg : PhoenixMessage} {channel : Channel α Ω}
    (hj : EntriesRouted router j) (hfind : router.find msg.topic = some channel)
    (hkeeps : channel.KeepsTopic) (hl : Live j h) :
    Prog.wp (gate router) h (handleJoin msg channel j) Settled := by
  unfold handleJoin
  rw [Prog.wp_bind, wp_emit_event]
  refine ⟨gate_call hl.running fun hg => hg.elim, ?_⟩
  intro _ _
  have hl := hl.plain (e := .call .join msg.topic) trivial
  generalize h ++ [.call .join msg.topic] = h at hl
  rw [Prog.wp_bind]
  refine Prog.wp_mono ?_ (wp_await (hkeeps.join msg.topic msg.payload (.newWithPid msg.topic))
    (fun _ hl => Live.running hl) (fun _ _ he hl => Live.plain hl he) hl)
  rintro h ⟨result, socket⟩ ⟨hl, htopic⟩
  cases result with
  | error e =>
      simp only [Prog.wp_bind, wp_emit_event]
      refine ⟨gate_ungated hl.running trivial, ?_⟩
      intro _ _
      -- the reply of a failed join leaves the map and its joins as they are
      refine wp_replyTo (I := fun h => Settled h ()) ?_ _ _ _ _ ?_
      · intro h e he hs t ht
        have : joinedOf (h ++ [e]) = joinedOf h := by
          rw [joinedOf_concat]
          cases e <;> first | rfl | exact he.elim
        rw [this] at ht
        exact joinedSince_plain he (hs t ht)
      · intro t ht
        rw [joinedOf_concat] at ht
        exact joinedSince_keep (hl.settled () t ht) (by simp)
  | ok resp =>
      simp only [Prog.wp_bind, wp_emit_event]
      refine ⟨gate_ungated hl.running trivial, ?_⟩
      intro _ _
      have hl : Live j (h ++ [.joinReturned msg.topic true]) :=
        { map := by rw [joinedOf_concat]; exact hl.map
          since := fun t ht => joinedSince_keep (hl.since t ht) (by simp)
          running := by
            rw [failedJoin_concat]
            rintro (⟨t, hbad⟩ | ⟨hfail, -⟩)
            · cases hbad
            · exact hl.running hfail }
      have hs : JoinedSince (h ++ [.joinReturned msg.topic true]) msg.topic :=
        joinedSince_concat.mpr (Or.inl rfl)
      generalize h ++ [.joinReturned msg.topic true] = h at hl hs
      -- from here on only plain events, until the map is changed
      have hplain : ∀ h (e : Event α Ω), e.Plain → Live j h ∧ JoinedSince h msg.topic →
          Live j (h ++ [e]) ∧ JoinedSince (h ++ [e]) msg.topic :=
        fun h e he hh => ⟨hh.1.plain he, joinedSince_plain he hh.2⟩
      refine Prog.wp_mono ?_ (wp_replyTo hplain _ _ _ _ ⟨hl, hs⟩)
      rintro h - hh
      refine ⟨gate_call hh.1.running fun hg => hg.elim, ?_⟩
      intro _ _
      refine Prog.wp_mono ?_ (wp_await (hkeeps.started socket) (fun _ hh => hh.1.running) hplain
        (hplain h _ trivial hh))
      rintro h socket' ⟨hh, htopic'⟩
      have hsub := wp_subscribe_forward router (fun _ hh => hh.1.running) hplain
        msg.topic hh
      rw [Prog.wp_bind] at hsub
      refine Prog.wp_mono ?_ hsub
      intro h rx hwp
      refine Prog.wp_mono ?_ hwp
      rintro h - ⟨hl, hs⟩
      refine ⟨gate_joined hl.running ?_, fun _ _ => settled_insert hl hs _ _⟩
      exact entriesRouted_insert hj (htopic'.trans htopic) hfind

theorem live_lookup (hl : Live j h) {t : String} {entry : Channel α Ω × ChannelSocket α}
    (hlookup : j.lookup t = some entry) : JoinedSince h t :=
  hl.since t (AList.lookup_isSome.mp (by rw [hlookup]; rfl))

theorem lookup_of_erase {t t' : String} {entry : Channel α Ω × ChannelSocket α}
    (h : (j.erase t).lookup t' = some entry) : j.lookup t' = some entry := by
  by_cases ht : t' = t
  · rw [ht, AList.lookup_erase] at h
    cases h
  · rwa [AList.lookup_erase_ne ht] at h

theorem entriesRouted_erase (hj : EntriesRouted router j) (t : String) :
    EntriesRouted router (j.erase t) :=
  fun t' channel socket hlookup => hj t' channel socket (lookup_of_erase hlookup)

/-- A map with some of the joined topics. -/
theorem live_joined (hl : Live j h) (j' : Joined α Ω) (hsub : ∀ t ∈ j', t ∈ j) :
    Live j' (h ++ [.joined j']) where
  map := by rw [joinedOf_concat]; rfl
  since := fun t ht => joinedSince_keep (hl.since t (hsub t ht)) (by simp)
  running := by
    rw [failedJoin_concat]
    rintro (⟨t, hbad⟩ | ⟨hfail, -⟩)
    · cases hbad
    · exact hl.running hfail

theorem wp_handleLeave {msg : PhoenixMessage} (hj : EntriesRouted router j) (hl : Live j h) :
    Prog.wp (gate router) h (handleLeave msg j) fun h' _ => ∃ j', Live j' h' ∧ msg.topic ∉ j' := by
  unfold handleLeave
  cases hlookup : j.lookup msg.topic with
  | none => exact ⟨j, hl, AList.lookup_eq_none.mp hlookup⟩
  | some entry =>
      obtain ⟨channel, socket⟩ := entry
      have hs := live_lookup hl hlookup
      refine wp_emit_then.mpr ⟨gate_joined hl.running ?_, ?_⟩
      · exact entriesRouted_erase hj msg.topic
      intro _ _
      have hl' := live_joined hl (j.erase msg.topic) fun t ht => (AList.mem_erase.mp ht).2
      have hs' : JoinedSince (h ++ [.joined (j.erase msg.topic)]) msg.topic :=
        joinedSince_keep hs (by simp)
      refine wp_emit_then.mpr
        ⟨gate_call hl'.running fun _ => hs', ?_⟩
      intro _ _
      refine Prog.wp_bind.mpr (Prog.wp_mono ?_ (wp_await (Prog.returns_true _)
        (fun _ hl => Live.running hl) (fun _ _ he hl => Live.plain hl he)
        (hl'.plain (e := .call (.terminate "leave") msg.topic) trivial)))
      rintro h socket' ⟨hl, -⟩
      refine Prog.wp_mono ?_ (wp_replyTo (I := Live (j.erase msg.topic))
        (fun _ _ he hl => Live.plain hl he) _ _ _ _ hl)
      intro h _ hl
      exact ⟨j.erase msg.topic, hl, fun hmem => (AList.mem_erase.mp hmem).1 rfl⟩

theorem wp_handleHeartbeat {msg : PhoenixMessage} (hl : Live j h) :
    Prog.wp (gate router) h (handleHeartbeat msg) Settled :=
  wp_emit_event.mpr ⟨gate_ungated hl.running trivial, fun _ _ => (hl.plain (by trivial)).settled ()⟩

theorem find_mem {t : String} {channel : Channel α Ω} (h : router.find t = some channel) :
    ∃ pattern, (pattern, channel) ∈ router.routes := by
  unfold ChannelRouter.find at h
  rw [Option.map_eq_some_iff] at h
  obtain ⟨⟨pattern, channel'⟩, hfind, rfl⟩ := h
  exact ⟨pattern, List.mem_of_find?_eq_some hfind⟩

theorem wp_dispatchEvent (hkeeps : ∀ p ∈ router.routes, p.2.KeepsTopic) {msg : PhoenixMessage}
    (hj : EntriesRouted router j) (hl : Live j h) :
    Prog.wp (gate router) h (dispatchEvent msg j) Settled := by
  unfold dispatchEvent
  cases hlookup : j.lookup msg.topic with
  | none => exact hl.settled ()
  | some entry =>
      obtain ⟨channel, socket⟩ := entry
      have hs := live_lookup hl hlookup
      obtain ⟨htopic, hfind⟩ := hj _ _ _ hlookup
      obtain ⟨pattern, hmem⟩ := find_mem hfind
      refine wp_emit_then.mpr ⟨gate_call hl.running fun _ => hs, ?_⟩
      intro _ _
      refine Prog.wp_bind.mpr (Prog.wp_mono ?_ (wp_await
        ((hkeeps _ hmem).handleIn msg.event msg.payload socket)
        (I := fun h => Live j h ∧ JoinedSince h msg.topic) (fun _ hh => hh.1.running)
        (fun _ _ he hh => ⟨hh.1.plain he, joinedSince_plain he hh.2⟩)
        ⟨hl.plain (by trivial), joinedSince_plain (by trivial) hs⟩))
      rintro h ⟨result, socket'⟩ ⟨⟨hl, hs⟩, hkept⟩
      refine wp_emit_then.mpr ⟨gate_joined hl.running ?_, ?_⟩
      · exact entriesRouted_insert hj (hkept.trans htopic) hfind
      intro _ _
      have hl' := live_insert hl hs (channel, socket')
      have hreply : ∀ (ref : Option String) (reply : Reply), Prog.wp (gate router) _
          (replyTo socket' ref .dispatch reply) Settled := fun ref reply =>
        Prog.wp_mono (fun _ u hl => Live.settled hl u)
          (wp_replyTo (I := Live (j.insert msg.topic (channel, socket')))
            (fun _ _ he hl => Live.plain hl he) socket' ref .dispatch reply hl')
      rcases result with e | _ | reply
      · exact hreply _ _
      · exact hl'.settled ()
      · exact hreply _ _

theorem wp_handleCast [EmptyCollection α] (serde : SerdeJson)
    (hkeeps : ∀ p ∈ router.routes, p.2.KeepsTopic) (request : String) (hj : EntriesRouted router j)
    (hl : Live j h) : Prog.wp (gate router) h (handleCast serde router request j) Settled := by
  unfold handleCast
  cases serde.phoenixFromStr request with
  | none => exact hl.settled ()
  | some msg =>
      simp only
      split
      · cases hfind : router.find msg.topic with
        | none => exact hl.settled ()
        | some channel =>
            obtain ⟨pattern, hmem⟩ := find_mem hfind
            exact wp_handleJoin hj hfind (hkeeps _ hmem) hl
      · split
        · refine Prog.wp_bind.mpr (Prog.wp_mono ?_ (wp_handleLeave hj hl))
          rintro h - ⟨j', hl', hnot⟩
          refine wp_emit_event.mpr ⟨gate_ungated hl'.running trivial, ?_⟩
          intro _ _ t ht
          rw [joinedOf_concat] at ht
          have ht' : t ∈ j' := by rw [← hl'.map]; exact ht
          refine joinedSince_concat.mpr (Or.inr ⟨hl'.since t ht', ?_⟩)
          rintro ⟨⟩
          exact hnot ht'
        · split
          · exact wp_handleHeartbeat hl
          · exact wp_dispatchEvent hkeeps hj hl

theorem wp_callInfo (hkeeps : ∀ p ∈ router.routes, p.2.KeepsTopic) (source : InfoSource)
    (msg : PubSubMessage) (hj : EntriesRouted router j) (hl : Live j h) :
    Prog.wp (gate router) h (callInfo source msg j) Settled := by
  unfold callInfo
  cases hlookup : j.lookup msg.topic with
  | none => exact hl.settled ()
  | some entry =>
      obtain ⟨channel, socket⟩ := entry
      have hs := live_lookup hl hlookup
      obtain ⟨htopic, hfind⟩ := hj _ _ _ hlookup
      obtain ⟨pattern, hmem⟩ := find_mem hfind
      refine wp_emit_then.mpr ⟨gate_call hl.running fun _ => hs, ?_⟩
      intro _ _
      refine Prog.wp_bind.mpr (Prog.wp_mono ?_ (wp_await ((hkeeps _ hmem).handleInfo msg socket)
        (I := fun h => Live j h ∧ JoinedSince h msg.topic) (fun _ hh => hh.1.running)
        (fun _ _ he hh => ⟨hh.1.plain he, joinedSince_plain he hh.2⟩)
        ⟨hl.plain (by trivial), joinedSince_plain (by trivial) hs⟩))
      rintro h ⟨result, socket'⟩ ⟨⟨hl, hs⟩, hkept⟩
      refine ⟨gate_joined hl.running ?_, fun _ _ => settled_insert hl hs _ _⟩
      exact entriesRouted_insert hj (hkept.trans htopic) hfind

theorem wp_handleInfo (serde : SerdeJson) (hkeeps : ∀ p ∈ router.routes, p.2.KeepsTopic)
    (msg : String) (hj : EntriesRouted router j) (hl : Live j h) :
    Prog.wp (gate router) h (handleInfo serde msg j) Settled := by
  unfold handleInfo
  split
  · split
    · exact wp_callInfo hkeeps _ _ hj hl
    · exact hl.settled ()
  · split
    · exact wp_callInfo hkeeps _ _ hj hl
    · exact hl.settled ()

/-- Draining the map calls only what was joined. -/
theorem wp_terminateEach (reason : String) :
    ∀ (entries : List (String × Channel α Ω × ChannelSocket α)) {h : List (Event α Ω)},
      Live ∅ h → (∀ entry ∈ entries, JoinedSince h entry.1) →
      Prog.wp (gate router) h (terminateEach reason entries) Settled := by
  intro entries
  induction entries with
  | nil => intro h hl _; exact hl.settled ()
  | cons entry rest ih =>
      obtain ⟨t, channel, socket⟩ := entry
      intro h hl hs
      have hplain : ∀ h (e : Event α Ω), e.Plain →
          (Live ∅ h ∧ ∀ entry ∈ (t, channel, socket) :: rest, JoinedSince h entry.1) →
          Live ∅ (h ++ [e]) ∧ ∀ entry ∈ (t, channel, socket) :: rest, JoinedSince (h ++ [e]) entry.1 :=
        fun h e he hh => ⟨hh.1.plain he, fun entry hm => joinedSince_plain he (hh.2 entry hm)⟩
      refine wp_emit_then.mpr
        ⟨gate_call hl.running fun hg => hg.elim, ?_⟩
      intro _ _
      refine Prog.wp_bind.mpr (Prog.wp_mono ?_ (wp_await (Prog.returns_true _)
        (fun _ hh => hh.1.running) hplain (hplain h _ trivial ⟨hl, hs⟩)))
      rintro h ⟨verdict, socket'⟩ ⟨⟨hl, hs⟩, -⟩
      have hrest : ∀ h, Live ∅ h ∧ (∀ entry ∈ (t, channel, socket) :: rest, JoinedSince h entry.1) →
          Prog.wp (gate router) h (terminateEach reason rest) Settled :=
        fun h hh => ih hh.1 fun entry hm => hh.2 entry (List.mem_cons_of_mem _ hm)
      by_cases hv : verdict = .yes
      · simp only [if_pos hv]
        refine wp_emit_then.mpr ⟨gate_call hl.running fun _ => hs _ (List.mem_cons_self ..), ?_⟩
        intro _ _
        refine Prog.wp_bind.mpr (Prog.wp_mono ?_ (wp_await (Prog.returns_true _)
          (fun _ hh => hh.1.running) hplain (hplain h _ trivial ⟨hl, hs⟩)))
        rintro h - ⟨hh, -⟩
        exact hrest h hh
      · simp only [if_neg hv]
        exact hrest h ⟨hl, hs⟩

theorem wp_terminate (reason : String) (keys : List String) (hl : Live j h) :
    Prog.wp (gate router) h (terminate reason keys j) Settled := by
  unfold terminate
  refine wp_emit_then.mpr ⟨gate_joined hl.running ?_, ?_⟩
  · intro t channel socket hlookup
    cases hlookup
  intro _ _
  refine wp_terminateEach reason _ (live_joined hl _ (by intro t ht; cases ht)) ?_
  intro entry hentry
  obtain ⟨t, -, hmap⟩ := List.mem_filterMap.mp hentry
  obtain ⟨e, hlookup, rfl⟩ := Option.map_eq_some_iff.mp hmap
  exact joinedSince_keep (live_lookup hl hlookup) (by simp)

/-! ### The process -/

theorem waiting_iff {c : Conn α Ω} : c.waiting = true ↔ c.todo = none ∧ c.stopped = false := by
  simp [Conn.waiting]

/-- What each step of the process does, and when it can. -/
inductive Conn.Move [EmptyCollection α] (serde : SerdeJson) (router : ChannelRouter α Ω)
    (c : Conn α Ω) : ConnLabel Ω → Conn α Ω → Prop
  | cast {request : String} (hw : c.waiting = true) :
      Conn.Move serde router c (.cast request)
        { c with todo := some (handleCast serde router request c.joined) }
  | info {msg : String} (hw : c.waiting = true) :
      Conn.Move serde router c (.info msg) { c with todo := some (handleInfo serde msg c.joined) }
  | run {a : Answer Ω} {e : Event α Ω} {k : Answer Ω → Handler α Ω Unit}
      (htodo : c.todo = some (.emit e k)) :
      Conn.Move serde router c (.run a) (c.emits e (k a))
  | finish (htodo : c.todo = some (.ret ())) :
      Conn.Move serde router c .finish { c with todo := none, log := c.log ++ [.idle] }
  | stop {reason : String} {keys : List String} (hw : c.waiting = true)
      (hkeys : keys.Perm c.joined.keys) :
      Conn.Move serde router c (.stop reason keys)
        { c with todo := some (terminate reason keys c.joined), stopped := true }
  | kill : Conn.Move serde router c .kill { c with todo := none, stopped := true }

theorem Conn.step_move [EmptyCollection α] {serde : SerdeJson} {c c' : Conn α Ω} {l : ConnLabel Ω}
    (h : c.step serde router l = some c') : c.Move serde router l c' := by
  cases l with
  | cast request =>
      simp only [Conn.step] at h
      split at h
      · rename_i hw
        cases h
        exact .cast hw
      · cases h
  | info msg =>
      simp only [Conn.step] at h
      split at h
      · rename_i hw
        cases h
        exact .info hw
      · cases h
  | run a =>
      simp only [Conn.step] at h
      split at h
      · rename_i e k htodo
        cases h
        exact .run htodo
      · cases h
  | finish =>
      simp only [Conn.step] at h
      split at h
      · rename_i htodo
        cases h
        exact .finish htodo
      · cases h
  | stop reason keys =>
      simp only [Conn.step] at h
      split at h
      · rename_i hw
        cases h
        exact .stop hw.1 hw.2
      · cases h
  | kill =>
      cases h
      exact .kill

/-- What holds of a connection at any moment, in particular in the middle of a handler. -/
structure Gated (router : ChannelRouter α Ω) (c : Conn α Ω) : Prop where
  guarded : Guarded (Gate router) c.log
  map : c.joined = joinedOf c.log
  entries : EntriesRouted router c.joined
  handling : ∀ p, c.todo = some p → Prog.wp (gate router) c.log p Settled
  waiting : c.waiting = true → Settled c.log () ∧ ¬FailedJoin c.log

theorem gated_init : Gated router (Conn.init : Conn α Ω) where
  guarded := guarded_nil _
  map := rfl
  entries := by intro t channel socket h; cases h
  handling := nofun
  waiting := by
    intro _
    refine ⟨(by intro t ht; cases ht), ?_⟩
    rintro ⟨pre, t, post, hsplit, -⟩
    exact absurd hsplit.symm (by simp [Conn.init])

theorem Gated.live {c : Conn α Ω} (hg : Gated router c) (hw : c.waiting = true) :
    Live c.joined c.log :=
  ⟨hg.map.symm, by rw [hg.map]; exact (hg.waiting hw).1, (hg.waiting hw).2⟩

/-- A connection that takes up a handler. -/
theorem gated_start {c : Conn α Ω} (hg : Gated router c) {p : Handler α Ω Unit} (stopped : Bool)
    (hp : Prog.wp (gate router) c.log p Settled) :
    Gated router { c with todo := some p, stopped } where
  guarded := hg.guarded
  map := hg.map
  entries := hg.entries
  handling := by rintro q ⟨⟩; exact hp
  waiting := nofun

theorem gated_finish {c : Conn α Ω} (hg : Gated router c) (htodo : c.todo = some (.ret ())) :
    Gated router { c with todo := none, log := c.log ++ [.idle] } := by
  have hsettled : Settled c.log () := hg.handling _ htodo
  have hmap : joinedOf (c.log ++ [.idle]) = joinedOf c.log := joinedOf_concat _ _
  refine ⟨guarded_concat hg.guarded ⟨nofun, nofun, fun _ => Or.inr rfl⟩, ?_, hg.entries, nofun,
    fun _ => ⟨?_, ?_⟩⟩
  · rw [hmap]; exact hg.map
  · intro t ht
    rw [hmap] at ht
    exact joinedSince_keep (hsettled t ht) (by simp)
  · rw [failedJoin_concat]
    rintro (⟨t, hbad⟩ | ⟨-, hne⟩)
    · cases hbad
    · exact hne rfl

theorem gated_run {c : Conn α Ω} (hg : Gated router c) {e : Event α Ω}
    {k : Answer Ω → Handler α Ω Unit} (htodo : c.todo = some (.emit e k)) (a : Answer Ω) :
    Gated router (c.emits e (k a)) := by
  obtain ⟨hallow, hnext⟩ := hg.handling _ htodo
  refine ⟨guarded_concat hg.guarded hallow, ?_, ?_, ?_, nofun⟩
  · show e.joinedAfter c.joined = joinedOf (c.log ++ [e])
    rw [joinedOf_concat, hg.map]
  · show EntriesRouted router (e.joinedAfter c.joined)
    cases e with
    | joined m => exact hallow.entries m rfl
    | _ => exact hg.entries
  · rintro p ⟨⟩
    exact hnext a trivial

theorem gated_step [EmptyCollection α] (serde : SerdeJson)
    (hkeeps : ∀ p ∈ router.routes, p.2.KeepsTopic) {c c' : Conn α Ω} {l : ConnLabel Ω}
    (hg : Gated router c) (hstep : Conn.step serde router c l = some c') : Gated router c' := by
  cases Conn.step_move hstep with
  | @cast request hw =>
      exact gated_start hg c.stopped (wp_handleCast serde hkeeps request hg.entries (hg.live hw))
  | @info msg hw =>
      exact gated_start hg c.stopped (wp_handleInfo serde hkeeps msg hg.entries (hg.live hw))
  | @run a _ _ htodo => exact gated_run hg htodo a
  | finish htodo => exact gated_finish hg htodo
  | @stop reason keys hw _ => exact gated_start hg true (wp_terminate reason keys (hg.live hw))
  | kill => exact { hg with handling := nofun, waiting := by intro hw; simp [Conn.waiting] at hw }

end

/-- The handler has returned. -/
def Event.isIdle : Event α Ω → Bool
  | .idle => true
  | _ => false

/--
**Join gates every channel callback.**  For every channel router whose channels
keep their sockets' topics, and every run of a connection: `handle_in`,
`handle_info` and `terminate` are called for a topic only since a join of it that
returned `Ok`, with no leave of it processed after; every joined topic has its own
socket, and the channel of the first pattern that matches it; and after a join
that returned `Err` the request ends with nothing but a reply.
-/
theorem join_gates_callbacks [EmptyCollection α] (serde : SerdeJson) (router : ChannelRouter α Ω)
    (hkeeps : ∀ p ∈ router.routes, p.2.KeepsTopic) {labels : List (ConnLabel Ω)} {c : Conn α Ω}
    (hrun : (connSystem serde router).exec Conn.init labels = some c) :
    (∀ pre call t post, c.log = pre ++ .call call t :: post → call.Gated → JoinedSince pre t) ∧
    (∀ t channel socket, c.joined.lookup t = some (channel, socket) →
      socket.topic = t ∧ router.find t = some channel ∧ router.FirstMatch t channel) ∧
    (∀ pre t post, c.log = pre ++ .joinReturned t false :: post →
      ∀ e ∈ post.takeWhile (fun e => !e.isIdle), ∃ origin msg, e = .send origin msg) := by
  have hg : Gated router c := Lts.exec_invariant (M := connSystem serde router) gated_init
    (fun _ _ _ hg hstep => gated_step serde hkeeps hg hstep) hrun
  refine ⟨?_, ?_, ?_⟩
  · intro pre call t post hsplit
    exact (hg.guarded _ _ _ hsplit).calls call t rfl
  · intro t channel socket hlookup
    obtain ⟨htopic, hfind⟩ := hg.entries t channel socket hlookup
    exact ⟨htopic, hfind, ChannelRouter.find_eq_some.mp hfind⟩
  · intro pre t post hsplit e he
    obtain ⟨before, after, hpost⟩ := List.append_of_mem he
    have hwhile := List.takeWhile_prefix (fun e : Event α Ω => !e.isIdle) (l := post)
    rw [hpost] at hwhile
    obtain ⟨rest, hrest⟩ := hwhile
    have hquiet : ∀ x ∈ before ++ e :: after, x.isIdle = false := by
      intro x hx
      rw [← hpost] at hx
      simpa using List.mem_takeWhile_imp hx
    have hfail : FailedJoin (pre ++ .joinReturned t false :: before) := by
      refine ⟨pre, t, before, rfl, ?_⟩
      intro hmem
      have := hquiet _ (List.mem_append_left _ hmem)
      cases this
    have hgate := hg.guarded (pre ++ .joinReturned t false :: before) e (after ++ rest) (by
      rw [hsplit, ← hrest]
      simp)
    rcases hgate.failed hfail with hsend | rfl
    · exact hsend
    · have := hquiet .idle (by simp)
      cases this

/-! ### A run -/

/-- A channel that lets everyone in, and answers what it is told. -/
def echo : Channel (List Nat) Unit where
  join := fun _ _ socket => pure (.ok .null, socket)
  handleIn := fun _ payload socket => pure (.ok (some (.ok payload)), socket)

def echoRouter : ChannelRouter (List Nat) Unit := ChannelRouter.new.channel "room:*" echo

def joinText : String :=
  "\x7b\"topic\":\"room:1\",\"event\":\"phx_join\",\"payload\":null,\"ref\":\"1\"\x7d"
def sayText : String :=
  "\x7b\"topic\":\"room:1\",\"event\":\"say\",\"payload\":null,\"ref\":\"2\"\x7d"
def leaveText : String :=
  "\x7b\"topic\":\"room:1\",\"event\":\"phx_leave\",\"payload\":null,\"ref\":\"3\"\x7d"
def newsText : String := "\x7b\"topic\":\"room:1\",\"event\":\"news\",\"payload\":null\x7d"

/-- A reply on the room's topic, whose keys `serde_json` writes in order. -/
def replyText (response ref : String) : String :=
  "\x7b\"topic\":\"room:1\",\"event\":\"phx_reply\",\"payload\":\x7b\"response\":" ++ response ++
    ",\"status\":\"ok\"\x7d,\"ref\":\"" ++ ref ++ "\"\x7d"

/-- The texts above, as `serde_json` reads them, and the replies and the broadcast as it writes them. -/
def roomSerde : SerdeJson where
  phoenixToString := fun msg =>
    match msg.payload, msg.msgRef with
    | .object [(_, .string _), (_, .null)], some r => some (replyText "null" r)
    | .object [(_, .string _), (_, .object [])], some r => some (replyText "\x7b\x7d" r)
    | _, _ => none
  phoenixFromStr := fun text =>
    if text = joinText then
      some { topic := "room:1", event := phxJoin, payload := .null, msgRef := some "1" }
    else if text = sayText then
      some { topic := "room:1", event := "say", payload := .null, msgRef := some "2" }
    else if text = leaveText then
      some { topic := "room:1", event := phxLeave, payload := .null, msgRef := some "3" }
    else none
  pubsubToString := fun msg =>
    match msg with
    | { topic, event, payload := .null } =>
        if topic = "room:1" ∧ event = "news" then some newsText else none
    | _ => none
  pubsubFromStr := fun text =>
    if text = newsText then some { topic := "room:1", event := "news", payload := .null } else none

theorem echo_keepsTopic : ∀ p ∈ echoRouter.routes, p.2.KeepsTopic := by
  intro p hp
  obtain rfl := List.mem_singleton.mp hp
  exact ⟨fun _ _ _ => rfl, fun _ _ _ => rfl, fun _ _ _ => rfl, fun _ => rfl⟩

/-- One event of a handler, with a PubSub server that gives out receiver 0. -/
def runOne : ConnLabel Unit := .run { effect := (), sent := true, rx := some 0 }

/-- A client joins a room and says something there. -/
def joinAndSay : List (ConnLabel Unit) :=
  .cast joinText :: List.replicate 8 runOne ++ .finish :: .cast sayText ::
    List.replicate 3 runOne ++ [.finish]

theorem join_gates_callbacks_joinAndSay :
    ∃ c, (connSystem roomSerde echoRouter).exec Conn.init joinAndSay = some c ∧
      "room:1" ∈ c.joined.keys ∧
      ∀ pre post, c.log = pre ++ .call (.handleIn "say" .null) "room:1" :: post →
        JoinedSince pre "room:1" := by
  have hrun : ∃ c, (connSystem roomSerde echoRouter).exec Conn.init joinAndSay = some c ∧
      "room:1" ∈ c.joined.keys := ⟨_, rfl, by decide⟩
  obtain ⟨c, hexec, hjoined⟩ := hrun
  refine ⟨c, hexec, hjoined, ?_⟩
  intro pre post hsplit
  exact (join_gates_callbacks roomSerde echoRouter echo_keepsTopic hexec).1 pre _ _ post hsplit
    trivial

end Mahalo.Channels
