/-
Joins and terminates of a connection.

Every entry of `joined_channels` owes its topic a `terminate`: the join that
entered it has returned `Ok`, and nothing else will be called for it last.  A
leave and the process's own `terminate` take the entry out and call it.  A second
join of the topic writes over the entry, and a kill drops the map, and neither
calls it.  `tally` is the contract under which a handler keeps the account, the
first of the two left to whoever answers its joins.
-/
import Mahalo.Lib.Brackets
import Mahalo.Proofs.Channel.Handlers
import Mahalo.Proofs.Channel.Socket

namespace Mahalo.Channels

open Interactive Brackets

variable {α Ω : Type}

/-! ### What a log says of a topic -/

/-- A join that returned `Ok` opens the topic, and a call of `terminate` closes it. -/
def Event.life (t : String) : Event α Ω → Option (Mark String)
  | .joinReturned t' true => if t' = t then some .opened else none
  | .call (.terminate reason) t' => if t' = t then some (.closed reason) else none
  | _ => none

def lifecycle (t : String) (h : List (Event α Ω)) : List (Mark String) := h.filterMap (Event.life t)

theorem lifecycle_concat (t : String) (h : List (Event α Ω)) (e : Event α Ω) :
    lifecycle t (h ++ [e]) = lifecycle t h ++ (e.life t).toList := by
  unfold lifecycle
  rw [List.filterMap_append]
  cases he : e.life t <;> simp [he]

theorem life_closed {t reason : String} {e : Event α Ω} (h : e.life t = some (.closed reason)) :
    e = .call (.terminate reason) t := by
  cases e with
  | joinReturned t' ok => cases ok <;> simp [Event.life] at h
  | call call t' =>
      cases call <;> simp [Event.life] at h
      obtain ⟨rfl, rfl⟩ := h
      rfl
  | _ => cases h

/-- The events of the request that is being handled, the last one first. -/
def current (h : List (Event α Ω)) : List (Event α Ω) := h.reverse.takeWhile fun e => !e.isIdle

theorem mem_current_concat {h : List (Event α Ω)} {e x : Event α Ω} (he : e.isIdle = false)
    (hx : x ∈ current h) : x ∈ current (h ++ [e]) := by
  unfold current at hx ⊢
  rw [List.reverse_append, List.reverse_singleton, List.singleton_append,
    List.takeWhile_cons_of_pos (by simp [he])]
  exact List.mem_cons_of_mem _ hx

theorem mem_current_self {h : List (Event α Ω)} {e : Event α Ω} (he : e.isIdle = false) :
    e ∈ current (h ++ [e]) := by
  unfold current
  rw [List.reverse_append, List.reverse_singleton, List.singleton_append,
    List.takeWhile_cons_of_pos (by simp [he])]
  exact List.mem_cons_self ..

/-- The topics in `S` are open, and every other is paired. -/
structure Owed (S : String → Prop) (j : Joined α Ω) (h : List (Event α Ω)) : Prop where
  map : joinedOf h = j
  due : ∀ t, S t → Pending (lifecycle t h)
  paid : ∀ t, ¬S t → Paired (lifecycle t h)

/-- Each open topic is joined, or its join is the request being handled. -/
structure Owing (d : Option String) (S : String → Prop) (j : Joined α Ω) (h : List (Event α Ω)) : Prop
    extends Owed S j h where
  seen : d = none → ∀ t, S t → t ∈ j ∨ .joinReturned t true ∈ current h

/-! ### The contract -/

/-- `stopping` returns `Yes`. -/
def Channel.StopsWhenAsked (channel : Channel α Ω) : Prop :=
  ∀ socket, (channel.stopping socket).Returns fun r => r.1 = .yes

def AllStop (j : Joined α Ω) : Prop :=
  ∀ t channel socket, j.lookup t = some (channel, socket) → channel.StopsWhenAsked

/--
A topic that is open while a request is handled is joined, or is being joined, or
`terminate` is called for it next.
-/
structure Tallied (d : Option String) (h : List (Event α Ω)) (e : Event α Ω) : Prop where
  reason : ∀ reason t, e = .call (.terminate reason) t → reason = "leave" ∨ d = some reason
  held : d = none → ∀ t, Paired (lifecycle t h) ∨ t ∈ joinedOf h ∨
    .joinReturned t true ∈ current h ∨ ∃ reason, e = .call (.terminate reason) t
  stops : ∀ j, e = .joined j → AllStop j

/--
The account of a process that stops for the reason `d`, or runs.  That a topic
accepted by a channel is not joined already is left to the environment.
-/
def tally (d : Option String) :
    Contract (Event α Ω) (fun _ => Answer Ω) (List (Event α Ω)) where
  allows := Tallied d
  answers := fun h e _ => ∀ t, e = .joinReturned t true → t ∉ joinedOf h
  next := fun h e _ => h ++ [e]

/-- What a handler leaves: just the joined topics are open, and none if the process stops. -/
def Accounted (d : Option String) (h : List (Event α Ω)) (_ : Unit) : Prop :=
  Owed (· ∈ joinedOf h) (joinedOf h) h ∧ (d ≠ none → joinedOf h = ∅)

/-- An event that opens and closes nothing. -/
def Event.Lifeless : Event α Ω → Prop
  | .joinReturned _ true | .call (.terminate _) _ | .joined _ | .idle => False
  | _ => True

variable {d : Option String} {S : String → Prop} {j : Joined α Ω} {h : List (Event α Ω)}

theorem Event.Lifeless.life {e : Event α Ω} (he : e.Lifeless) (t : String) : e.life t = none := by
  cases e with
  | call call t' => cases call <;> first | rfl | exact he.elim
  | joinReturned t' ok => cases ok <;> first | rfl | exact he.elim
  | _ => rfl

theorem Event.Lifeless.notIdle {e : Event α Ω} (he : e.Lifeless) : e.isIdle = false := by
  cases e <;> first | rfl | exact he.elim

theorem Owed.lifeless (ho : Owed S j h) {e : Event α Ω} (he : e.Lifeless) : Owed S j (h ++ [e]) := by
  have hlife : ∀ t, lifecycle t (h ++ [e]) = lifecycle t h := by
    intro t
    rw [lifecycle_concat, he.life]
    exact List.append_nil _
  refine ⟨?_, ?_, ?_⟩
  · rw [joinedOf_concat, ho.map]
    cases e <;> first | rfl | exact he.elim
  · intro t ht
    rw [hlife]
    exact ho.due t ht
  · intro t ht
    rw [hlife]
    exact ho.paid t ht

theorem Owing.lifeless (ho : Owing d S j h) {e : Event α Ω} (he : e.Lifeless) :
    Owing d S j (h ++ [e]) :=
  { ho.toOwed.lifeless he with
    seen := fun hd t ht => (ho.seen hd t ht).imp_right (mem_current_concat he.notIdle) }

/-- What is seen of each open topic is enough for any event. -/
theorem Owing.held (ho : Owing d S j h) (e : Event α Ω) (hd : d = none) (t : String) :
    Paired (lifecycle t h) ∨ t ∈ joinedOf h ∨ .joinReturned t true ∈ current h ∨
      ∃ reason, e = .call (.terminate reason) t := by
  by_cases ht : S t
  · obtain hj | hc := ho.seen hd t ht
    · rw [ho.map]
      exact Or.inr (Or.inl hj)
    · exact Or.inr (Or.inr (Or.inl hc))
  · exact Or.inl (ho.paid t ht)

theorem tallied_lifeless (ho : Owing d S j h) {e : Event α Ω} (he : e.Lifeless) : Tallied d h e := by
  refine ⟨?_, ho.held e, ?_⟩
  · rintro reason t rfl
    exact he.elim
  · rintro j rfl
    exact he.elim

theorem tallied_joined (ho : Owing d S j h) {j' : Joined α Ω} (hj' : AllStop j') :
    Tallied d h (.joined j') := by
  refine ⟨?_, ho.held _, ?_⟩
  · intro reason t heq
    cases heq
  · intro j'' heq
    cases heq
    exact hj'

theorem tallied_accept (ho : Owing d S j h) (t : String) : Tallied d h (.joinReturned t true) := by
  refine ⟨?_, ho.held _, ?_⟩
  · intro reason t heq
    cases heq
  · intro j heq
    cases heq

theorem keeps_lifeless {e : Event α Ω} (he : e.Lifeless) : Keeps (tally d) (Owing d S j) e :=
  fun _ ho => ⟨tallied_lifeless ho he, fun _ _ => ho.lifeless he⟩

/-- The map changes, and the open topics are the same or are called the same. -/
theorem Owed.joined (ho : Owed S j h) (j' : Joined α Ω) {S' : String → Prop} (hS : ∀ t, S' t ↔ S t) :
    Owed S' j' (h ++ [.joined j']) := by
  have hlife : ∀ t, lifecycle t (h ++ [.joined j']) = lifecycle t h := by
    intro t
    rw [lifecycle_concat]
    exact List.append_nil _
  refine ⟨?_, ?_, ?_⟩
  · rw [joinedOf_concat]
    rfl
  · intro t ht
    rw [hlife]
    exact ho.due t ((hS t).mp ht)
  · intro t ht
    rw [hlife]
    exact ho.paid t fun hs => ht ((hS t).mpr hs)

/-- A join is accepted: its topic is open from now on. -/
theorem Owed.accept (ho : Owed S j h) {t : String} (ht : ¬S t) :
    Owed (fun t' => t' = t ∨ S t') j (h ++ [.joinReturned t true]) := by
  refine ⟨by rw [joinedOf_concat]; exact ho.map, ?_, ?_⟩
  · rintro t' (rfl | ht')
    · rw [lifecycle_concat]
      simp only [Event.life, if_true, Option.toList_some]
      exact (ho.paid t' ht).reopen
    · have hne : t ≠ t' := fun heq => ht (heq ▸ ht')
      rw [lifecycle_concat]
      simp only [Event.life, if_neg hne, Option.toList_none, List.append_nil]
      exact ho.due t' ht'
  · intro t' ht'
    obtain ⟨hne, hs⟩ := not_or.mp ht'
    rw [lifecycle_concat]
    simp only [Event.life, if_neg (Ne.symm hne), Option.toList_none, List.append_nil]
    exact ho.paid t' hs

/-- `terminate` is called: the topic is paired again. -/
theorem Owed.terminate (ho : Owed S j h) (reason : String) {t : String} (ht : S t) :
    Owed (fun t' => S t' ∧ t' ≠ t) j (h ++ [.call (.terminate reason) t]) := by
  refine ⟨by rw [joinedOf_concat]; exact ho.map, ?_, ?_⟩
  · rintro t' ⟨ht', hne⟩
    rw [lifecycle_concat]
    simp only [Event.life, if_neg (Ne.symm hne), Option.toList_none, List.append_nil]
    exact ho.due t' ht'
  · intro t' ht'
    rw [lifecycle_concat]
    by_cases heq : t = t'
    · subst heq
      simp only [Event.life, if_true, Option.toList_some]
      exact (ho.due t ht).close reason
    · simp only [Event.life, if_neg heq, Option.toList_none, List.append_nil]
      exact ho.paid t' fun hs => ht' ⟨hs, fun h => heq h.symm⟩

theorem Owed.congr (ho : Owed S j h) {S' : String → Prop} (hS : ∀ t, S' t ↔ S t) : Owed S' j h :=
  ⟨ho.map, fun t ht => ho.due t ((hS t).mp ht), fun t ht => ho.paid t fun hs => ht ((hS t).mpr hs)⟩

theorem Owed.accounted (ho : Owed (· ∈ j) j h) (hd : d ≠ none → j = ∅) (u : Unit) :
    Accounted d h u := by
  obtain rfl := ho.map
  exact ⟨ho, hd⟩

/-! ### The handlers of requests -/

section

variable {A : Type}

theorem wp_tally_emit {e : Event α Ω} {f : Unit → Handler α Ω A}
    {Q : List (Event α Ω) → A → Prop} (he : Tallied d h e)
    (hf : (∀ t, e = .joinReturned t true → t ∉ joinedOf h) →
      Prog.wp (tally d) (h ++ [e]) (f ()) Q) : Prog.wp (tally d) h (emit e >>= f) Q :=
  ⟨he, fun _ ha => hf ha⟩

theorem wp_await_owing (c : Callback Ω A) (ho : Owing d S j h) :
    Prog.wp (tally d) h (await c) fun h' _ => Owing d S j h' :=
  Prog.wp_mono (fun _ _ hh => hh.1)
    (Keeps.wp_await (Prog.returns_true c) (fun _ => keeps_lifeless trivial) ho)

theorem wp_replyTo_owing (socket : ChannelSocket α) (msgRef : Option String) (origin : Origin)
    (reply : Reply) (ho : Owing d S j h) :
    Prog.wp (tally d) h (replyTo socket msgRef origin reply) fun h' _ => Owing d S j h' :=
  Keeps.wp_replyTo (fun _ _ => keeps_lifeless trivial) socket msgRef origin reply ho

theorem Owing.rest (ho : Owing none (· ∈ j) j h) (u : Unit) : Accounted none h u :=
  ho.toOwed.accounted (fun hd => absurd rfl hd) u

theorem owing_of_joined (ho : Owed (· ∈ j) j h) : Owing d (· ∈ j) j h :=
  { ho with seen := fun _ _ ht => Or.inl ht }

theorem allStop_insert (hj : AllStop j) {t : String} {channel : Channel α Ω}
    (hchannel : channel.StopsWhenAsked) (socket : ChannelSocket α) :
    AllStop (j.insert t (channel, socket)) := by
  intro t' channel' socket' hlookup
  by_cases ht : t' = t
  · rw [ht, AList.lookup_insert] at hlookup
    cases hlookup
    exact hchannel
  · rw [AList.lookup_insert_ne ht] at hlookup
    exact hj t' channel' socket' hlookup

theorem allStop_erase (hj : AllStop j) (t : String) : AllStop (j.erase t) :=
  fun t' channel socket hlookup => hj t' channel socket (lookup_of_erase hlookup)

theorem wp_handleJoin_tally [EmptyCollection α] (msg : PhoenixMessage) {channel : Channel α Ω}
    (hchannel : channel.StopsWhenAsked) (hj : AllStop j) (ho : Owing none (· ∈ j) j h) :
    Prog.wp (tally none) h (handleJoin msg channel j) (Accounted none) := by
  unfold handleJoin
  refine Keeps.wp_then (keeps_lifeless (by trivial)) ho fun h ho => ?_
  refine Prog.wp_bind.mpr (Prog.wp_mono ?_ (wp_await_owing _ ho))
  rintro h ⟨result, socket⟩ ho
  cases result with
  | error e =>
      refine Keeps.wp_then (keeps_lifeless (by trivial)) ho fun h ho => ?_
      exact Prog.wp_mono (fun _ u ho => ho.rest u) (wp_replyTo_owing socket _ _ _ ho)
  | ok resp =>
      refine wp_tally_emit (tallied_accept ho msg.topic) fun hnew => ?_
      -- whoever answered the join has seen to it that the topic is not joined
      have hnot : msg.topic ∉ j := by
        rw [← ho.map]
        exact hnew msg.topic rfl
      have ho' : Owing none (fun t => t = msg.topic ∨ t ∈ j) j (h ++ [.joinReturned msg.topic true]) :=
        { ho.toOwed.accept hnot with
          seen := by
            rintro - t (rfl | ht)
            · exact Or.inr (mem_current_self rfl)
            · exact Or.inl ht }
      generalize h ++ [.joinReturned msg.topic true] = h at ho'
      refine Prog.wp_bind.mpr (Prog.wp_mono ?_ (wp_replyTo_owing socket _ _ _ ho'))
      intro h _ ho
      refine Keeps.wp_then (keeps_lifeless (by trivial)) ho fun h ho => ?_
      refine Prog.wp_bind.mpr (Prog.wp_mono ?_ (wp_await_owing _ ho))
      intro h socket ho
      refine Prog.wp_bind.mpr (Prog.wp_mono ?_
        (Keeps.wp_subscribe (keeps_lifeless trivial) (keeps_lifeless trivial) ho))
      intro h rx ho
      refine Prog.wp_bind.mpr (Prog.wp_mono ?_
        (Keeps.wp_forward (fun _ => keeps_lifeless trivial) rx ho))
      intro h _ ho
      refine ⟨tallied_joined ho (allStop_insert hj hchannel socket), fun _ _ => ?_⟩
      have hmap : Owed (· ∈ j.insert msg.topic (channel, socket)) _ _ :=
        ho.toOwed.joined (j.insert msg.topic (channel, socket)) fun t => AList.mem_insert _
      exact hmap.accounted (fun hd => absurd rfl hd) ()

theorem wp_handleLeave_tally (msg : PhoenixMessage) (hj : AllStop j) (ho : Owing none (· ∈ j) j h) :
    Prog.wp (tally none) h (handleLeave msg j) fun h' _ => ∃ j', Owing none (· ∈ j') j' h' := by
  unfold handleLeave
  cases hlookup : j.lookup msg.topic with
  | none => exact ⟨j, ho⟩
  | some entry =>
      obtain ⟨channel, socket⟩ := entry
      have hmem : msg.topic ∈ j := AList.lookup_isSome.mp (by rw [hlookup]; rfl)
      refine wp_tally_emit (tallied_joined ho (allStop_erase hj msg.topic)) fun _ => ?_
      have hout : Owed (· ∈ j) (j.erase msg.topic) (h ++ [.joined (j.erase msg.topic)]) :=
        ho.toOwed.joined _ fun _ => Iff.rfl
      generalize h ++ [.joined (j.erase msg.topic)] = h at hout
      -- the topic that is left is open, and no longer joined, until `terminate` is called
      refine wp_tally_emit ⟨?_, ?_, (by intro j heq; cases heq)⟩ fun _ => ?_
      · intro reason t heq
        cases heq
        exact Or.inl rfl
      · intro _ t
        by_cases ht : t = msg.topic
        · exact Or.inr (Or.inr (Or.inr ⟨"leave", by rw [ht]⟩))
        · by_cases hj' : t ∈ j
          · rw [hout.map]
            exact Or.inr (Or.inl (AList.mem_erase.mpr ⟨ht, hj'⟩))
          · exact Or.inl (hout.paid t hj')
      · have hpaid : Owed (· ∈ j.erase msg.topic) _ _ :=
          (hout.terminate "leave" hmem).congr fun t => by rw [AList.mem_erase, and_comm]
        refine Prog.wp_bind.mpr (Prog.wp_mono ?_ (wp_await_owing _ (owing_of_joined hpaid)))
        intro h socket ho
        exact Prog.wp_mono (fun _ _ ho => ⟨_, ho⟩) (wp_replyTo_owing socket _ _ _ ho)

/-- The entry of a joined topic is written again. -/
theorem owing_rewrite (ho : Owing none (· ∈ j) j h) {t : String} (ht : t ∈ j)
    (entry : Channel α Ω × ChannelSocket α) :
    Owing none (· ∈ j.insert t entry) (j.insert t entry) (h ++ [.joined (j.insert t entry)]) := by
  refine owing_of_joined (ho.toOwed.joined _ fun t' => ?_)
  rw [AList.mem_insert]
  exact ⟨fun hmem => hmem.elim (fun heq => heq ▸ ht) id, Or.inr⟩

theorem wp_dispatchEvent_tally (msg : PhoenixMessage) (hj : AllStop j)
    (ho : Owing none (· ∈ j) j h) :
    Prog.wp (tally none) h (dispatchEvent msg j) (Accounted none) := by
  unfold dispatchEvent
  cases hlookup : j.lookup msg.topic with
  | none => exact ho.rest ()
  | some entry =>
      obtain ⟨channel, socket⟩ := entry
      have hmem : msg.topic ∈ j := AList.lookup_isSome.mp (by rw [hlookup]; rfl)
      refine Keeps.wp_then (keeps_lifeless (by trivial)) ho fun h ho => ?_
      refine Prog.wp_bind.mpr (Prog.wp_mono ?_ (wp_await_owing _ ho))
      rintro h ⟨result, socket'⟩ ho
      refine wp_tally_emit (tallied_joined ho (allStop_insert hj (hj _ _ _ hlookup) socket')) fun _ => ?_
      have ho' := owing_rewrite ho hmem (channel, socket')
      have hreply := fun (ref : Option String) (reply : Reply) =>
        Prog.wp_mono (fun _ u ho => Owing.rest ho u) (wp_replyTo_owing socket' ref .dispatch reply ho')
      rcases result with e | _ | reply
      · exact hreply _ _
      · exact ho'.rest ()
      · exact hreply _ _

theorem wp_callInfo_tally (source : InfoSource) (msg : PubSubMessage) (hj : AllStop j)
    (ho : Owing none (· ∈ j) j h) :
    Prog.wp (tally none) h (callInfo source msg j) (Accounted none) := by
  unfold callInfo
  cases hlookup : j.lookup msg.topic with
  | none => exact ho.rest ()
  | some entry =>
      obtain ⟨channel, socket⟩ := entry
      have hmem : msg.topic ∈ j := AList.lookup_isSome.mp (by rw [hlookup]; rfl)
      refine Keeps.wp_then (keeps_lifeless (by trivial)) ho fun h ho => ?_
      refine Prog.wp_bind.mpr (Prog.wp_mono ?_ (wp_await_owing _ ho))
      rintro h ⟨result, socket'⟩ ho
      refine ⟨tallied_joined ho (allStop_insert hj (hj _ _ _ hlookup) socket'), fun _ _ => ?_⟩
      exact (owing_rewrite ho hmem (channel, socket')).rest ()

theorem wp_handleHeartbeat_tally (msg : PhoenixMessage) (ho : Owing none (· ∈ j) j h) :
    Prog.wp (tally none) h (handleHeartbeat msg) (Accounted none) :=
  Prog.wp_mono (fun _ u ho => Owing.rest ho u) (Keeps.wp_emit (keeps_lifeless (by trivial)) ho)

theorem wp_handleCast_tally [EmptyCollection α] (serde : SerdeJson) {router : ChannelRouter α Ω}
    (hrouter : ∀ p ∈ router.routes, p.2.StopsWhenAsked) (request : String) (hj : AllStop j)
    (ho : Owing none (· ∈ j) j h) :
    Prog.wp (tally none) h (handleCast serde router request j) (Accounted none) := by
  unfold handleCast
  cases serde.phoenixFromStr request with
  | none => exact ho.rest ()
  | some msg =>
      simp only
      by_cases hjoin : msg.event = phxJoin
      · rw [if_pos hjoin]
        cases hfind : router.find msg.topic with
        | none => exact ho.rest ()
        | some channel =>
            obtain ⟨pattern, hmem⟩ := find_mem hfind
            exact wp_handleJoin_tally msg (hrouter _ hmem) hj ho
      · rw [if_neg hjoin]
        by_cases hleave : msg.event = phxLeave
        · rw [if_pos hleave]
          refine Prog.wp_bind.mpr (Prog.wp_mono ?_ (wp_handleLeave_tally msg hj ho))
          rintro h - ⟨j', ho'⟩
          exact Prog.wp_mono (fun _ u ho => Owing.rest ho u)
            (Keeps.wp_emit (keeps_lifeless (by trivial)) ho')
        · rw [if_neg hleave]
          by_cases hbeat : msg.event = heartbeat
          · rw [if_pos hbeat]
            exact wp_handleHeartbeat_tally msg ho
          · rw [if_neg hbeat]
            exact wp_dispatchEvent_tally msg hj ho

theorem wp_handleInfo_tally (serde : SerdeJson) (msg : String) (hj : AllStop j)
    (ho : Owing none (· ∈ j) j h) :
    Prog.wp (tally none) h (handleInfo serde msg j) (Accounted none) := by
  unfold handleInfo
  split
  · split
    · exact wp_callInfo_tally _ _ hj ho
    · exact ho.rest ()
  · split
    · exact wp_callInfo_tally _ _ hj ho
    · exact ho.rest ()

/-! ### The process stops -/

/-- The drained entries are terminated one after the other. -/
theorem wp_terminateEach_tally (reason : String) :
    ∀ (entries : List (String × Channel α Ω × ChannelSocket α)) {h : List (Event α Ω)},
      (entries.map Prod.fst).Nodup → (∀ entry ∈ entries, entry.2.1.StopsWhenAsked) →
      Owing (some reason) (· ∈ entries.map Prod.fst) ∅ h →
      Prog.wp (tally (some reason)) h (terminateEach reason entries) (Accounted (some reason)) := by
  intro entries
  induction entries with
  | nil =>
      intro h _ _ ho
      refine Owed.accounted (ho.toOwed.congr fun t => ?_) (fun _ => rfl) ()
      exact ⟨fun hmem => absurd hmem (AList.notMem_empty t), fun hmem => absurd hmem List.not_mem_nil⟩
  | cons entry rest ih =>
      obtain ⟨t, channel, socket⟩ := entry
      intro h hnodup hstops ho
      obtain ⟨hnot, hrest⟩ := List.nodup_cons.mp hnodup
      have hverdict := hstops _ (List.mem_cons_self ..) socket
      refine Keeps.wp_then (keeps_lifeless (by trivial)) ho fun h ho => ?_
      refine Prog.wp_bind.mpr (Prog.wp_mono ?_
        (Keeps.wp_await hverdict (fun _ => keeps_lifeless (by trivial)) ho))
      rintro h ⟨verdict, socket'⟩ ⟨ho, hyes⟩
      obtain rfl : verdict = .yes := hyes
      simp only [if_true]
      refine wp_tally_emit ⟨?_, (by intro hd; cases hd), (by intro j heq; cases heq)⟩ fun _ => ?_
      · intro reason' t' heq
        cases heq
        exact Or.inr rfl
      · have hpaid : Owed (· ∈ rest.map Prod.fst) ∅ _ :=
          (ho.toOwed.terminate reason (List.mem_cons_self ..)).congr fun t' => by
            rw [List.map_cons, List.mem_cons]
            constructor
            · intro hmem
              exact ⟨Or.inr hmem, fun heq => hnot (heq ▸ hmem)⟩
            · rintro ⟨heq | hmem, hne⟩
              · exact absurd heq hne
              · exact hmem
        have howing : Owing (some reason) (· ∈ rest.map Prod.fst) ∅ _ :=
          { hpaid with seen := by intro hd; cases hd }
        refine Prog.wp_bind.mpr (Prog.wp_mono ?_ (wp_await_owing _ howing))
        intro h _ ho
        exact ih hrest (fun entry hentry => hstops entry (List.mem_cons_of_mem _ hentry)) ho

theorem wp_terminate_tally (reason : String) (hj : AllStop j) {keys : List String}
    (hkeys : keys.Perm j.keys) (ho : Owed (· ∈ j) j h) :
    Prog.wp (tally (some reason)) h (terminate reason keys j) (Accounted (some reason)) := by
  unfold terminate
  have hnone : ∀ t channel socket, (∅ : Joined α Ω).lookup t ≠ some (channel, socket) := by
    intro t channel socket hlookup
    rw [AList.lookup_empty] at hlookup
    cases hlookup
  refine wp_tally_emit (tallied_joined (owing_of_joined ho)
    fun t channel socket hlookup => absurd hlookup (hnone t channel socket)) fun _ => ?_
  have hout := ho.joined ∅ fun _ => Iff.rfl
  generalize h ++ [.joined ∅] = h at hout
  have hfst : (keys.filterMap fun t => (j.lookup t).map fun entry => (t, entry)).map Prod.fst = keys := by
    rw [List.map_filterMap]
    have hall : ∀ t ∈ keys, ((j.lookup t).map fun entry => (t, entry)).map Prod.fst = some t := by
      intro t ht
      obtain ⟨entry, hentry⟩ := Option.isSome_iff_exists.mp
        (AList.lookup_isSome.mpr (AList.mem_keys.mpr (hkeys.mem_iff.mp ht)))
      rw [hentry]
      rfl
    rw [List.filterMap_congr hall, List.filterMap_some]
  refine wp_terminateEach_tally reason _ ?_ ?_ ?_
  · rw [hfst]
    exact hkeys.nodup_iff.mpr j.keys_nodup
  · intro entry hentry
    obtain ⟨t, -, hmap⟩ := List.mem_filterMap.mp hentry
    obtain ⟨⟨channel, socket⟩, hlookup, rfl⟩ := Option.map_eq_some_iff.mp hmap
    exact hj t channel socket hlookup
  · rw [hfst]
    have hopen : Owed (· ∈ keys) ∅ h := hout.congr fun t => by
      rw [hkeys.mem_iff, AList.mem_keys]
    exact { hopen with seen := by intro hd; cases hd }

end

/-! ### The process -/

/-- No channel is joined, none is about to be, and none is being terminated. -/
structure Unjoined (c : Conn α Ω) : Prop where
  joined : c.joined = ∅
  accepted : ∀ t, .joinReturned t true ∉ current c.log
  leaving : ∀ reason t k, c.todo ≠ some (.emit (.call (.terminate reason) t) k)
  draining : c.stopped = true → c.todo = none

/-- A join is not accepted where the topic is joined already, and a kill finds no channel. -/
def LosesNone (c : Conn α Ω) : ConnLabel Ω → Prop
  | .run _ => ∀ t k, c.todo = some (.emit (.joinReturned t true) k) → t ∉ c.joined
  | .kill => Unjoined c
  | _ => True

/-- What holds of a connection at any moment; `d` is the reason for which it stops, if it does. -/
structure Kept (d : Option String) (c : Conn α Ω) : Prop where
  map : c.joined = joinedOf c.log
  stops : AllStop c.joined
  handling : ∀ p, c.todo = some p → Prog.wp (tally d) c.log p (Accounted d)
  waiting : c.waiting = true → Accounted none c.log ()
  ended : c.stopped = true → c.todo = none → ∀ t, Paired (lifecycle t c.log)
  draining : c.stopped = true → c.todo ≠ none → d ≠ none
  running : c.stopped = false → d = none
  reasons : ∀ reason t, .call (.terminate reason) t ∈ c.log → reason = "leave" ∨ d = some reason

variable {c c' : Conn α Ω}

theorem kept_init : Kept none (Conn.init : Conn α Ω) where
  map := rfl
  stops := by
    intro t channel socket hlookup
    cases hlookup
  handling := by
    intro p htodo
    cases htodo
  waiting := by
    intro _
    refine ⟨⟨rfl, ?_, fun t _ => paired_nil⟩, fun hd => absurd rfl hd⟩
    intro t ht
    exact absurd ht (AList.notMem_empty t)
  ended := by
    intro hstopped
    cases hstopped
  draining := by
    intro hstopped
    cases hstopped
  running := fun _ => rfl
  reasons := by
    intro reason t hmem
    cases hmem

theorem Kept.owing (hk : Kept d c) (hw : c.waiting = true) : Owing none (· ∈ c.joined) c.joined c.log := by
  have hrest := (hk.waiting hw).1
  rw [← hk.map] at hrest
  exact owing_of_joined hrest

/-- A connection that takes up the handler of a request. -/
theorem kept_start (hk : Kept none c) (hstopped : c.stopped = false) {p : Handler α Ω Unit}
    (hp : Prog.wp (tally none) c.log p (Accounted none)) : Kept none { c with todo := some p } where
  map := hk.map
  stops := hk.stops
  handling := by
    intro q hq
    cases hq
    exact hp
  waiting := by
    intro hw
    simp [Conn.waiting] at hw
  ended := by
    intro _ htodo
    cases htodo
  draining := by
    intro hs
    rw [show c.stopped = true from hs] at hstopped
    cases hstopped
  running := hk.running
  reasons := hk.reasons

/-- A kill that finds no channel leaves every topic paired. -/
theorem paired_of_kill (hk : Kept d c) (hu : Unjoined c) (t : String) : Paired (lifecycle t c.log) := by
  have hnone : t ∉ joinedOf c.log := by
    rw [← hk.map, hu.joined]
    exact AList.notMem_empty t
  cases htodo : c.todo with
  | none =>
      cases hstopped : c.stopped with
      | true => exact hk.ended hstopped htodo t
      | false => exact (hk.waiting (waiting_iff.mpr ⟨htodo, hstopped⟩)).1.paid t hnone
  | some p =>
      have hstopped : c.stopped = false := by
        by_contra hs
        have hdone := hu.draining (by simpa using hs)
        rw [htodo] at hdone
        cases hdone
      obtain rfl := hk.running hstopped
      have hp := hk.handling p htodo
      cases p with
      | ret u => exact hp.1.paid t hnone
      | emit e k =>
          obtain h | h | h | ⟨reason, rfl⟩ := hp.1.held rfl t
          · exact h
          · exact absurd h hnone
          · exact absurd h (hu.accepted t)
          · exact absurd htodo (hu.leaving reason t k)

theorem kept_kill (hk : Kept d c) (hu : Unjoined c) :
    Kept d { c with todo := none, stopped := true } where
  map := hk.map
  stops := hk.stops
  handling := by
    intro p htodo
    cases htodo
  waiting := by
    intro hw
    simp [Conn.waiting] at hw
  ended := by
    intro _ _ t
    show Paired (lifecycle t c.log)
    exact paired_of_kill hk hu t
  draining := by
    intro _ htodo
    exact absurd rfl htodo
  running := by
    intro hs
    cases hs
  reasons := hk.reasons

/-- A process that begins to stop. -/
theorem kept_stop (hk : Kept d c) (hw : c.waiting = true) {reason : String} {keys : List String}
    (hkeys : keys.Perm c.joined.keys) :
    Kept (some reason) { c with todo := some (terminate reason keys c.joined), stopped := true } where
  map := hk.map
  stops := hk.stops
  handling := by
    intro p hp
    cases hp
    exact wp_terminate_tally reason hk.stops hkeys (hk.owing hw).toOwed
  waiting := by
    intro hw'
    simp [Conn.waiting] at hw'
  ended := by
    intro _ htodo
    cases htodo
  draining := fun _ _ hd => by cases hd
  running := by
    intro hs
    cases hs
  reasons := by
    intro reason' t hmem
    obtain rfl := hk.running (waiting_iff.mp hw).2
    obtain h | h := hk.reasons reason' t hmem
    · exact Or.inl h
    · cases h

theorem kept_finish (hk : Kept d c) (htodo : c.todo = some (.ret ())) :
    Kept d { c with todo := none, log := c.log ++ [.idle] } := by
  have hrest : Accounted d c.log () := hk.handling _ htodo
  have hmap : joinedOf (c.log ++ [.idle]) = joinedOf c.log := joinedOf_concat _ _
  have hlife : ∀ t, lifecycle t (c.log ++ [.idle]) = lifecycle t c.log := by
    intro t
    rw [lifecycle_concat]
    exact List.append_nil _
  refine { map := ?_, stops := hk.stops, handling := ?_, waiting := ?_, ended := ?_, draining := ?_,
           running := hk.running, reasons := ?_ }
  · rw [hmap]
    exact hk.map
  · intro p hp
    cases hp
  · intro _
    unfold Accounted
    rw [hmap]
    refine ⟨⟨hmap, ?_, ?_⟩, fun hd => absurd rfl hd⟩
    · intro t ht
      rw [hlife]
      exact hrest.1.due t ht
    · intro t ht
      rw [hlife]
      exact hrest.1.paid t ht
  · intro hstopped _ t
    have hd := hk.draining hstopped (by rw [htodo]; intro h; cases h)
    rw [hlife]
    refine hrest.1.paid t ?_
    rw [hrest.2 hd]
    exact AList.notMem_empty t
  · intro _ h
    exact absurd rfl h
  · intro reason t hmem
    obtain h | h := List.mem_append.mp hmem
    · exact hk.reasons reason t h
    · cases List.mem_singleton.mp h

theorem kept_run (hk : Kept d c) {e : Event α Ω} {k : Answer Ω → Handler α Ω Unit}
    (htodo : c.todo = some (.emit e k))
    (hnew : ∀ t k, c.todo = some (.emit (.joinReturned t true) k) → t ∉ c.joined) (a : Answer Ω) :
    Kept d (c.emits e (k a)) := by
  obtain ⟨hallow, hnext⟩ := hk.handling _ htodo
  have hanswer : ∀ t, e = .joinReturned t true → t ∉ joinedOf c.log := by
    rintro t rfl
    rw [← hk.map]
    exact hnew t k htodo
  refine { map := ?_, stops := ?_, handling := ?_, waiting := ?_, ended := ?_, draining := ?_,
           running := hk.running, reasons := ?_ }
  · show e.joinedAfter c.joined = joinedOf (c.log ++ [e])
    rw [joinedOf_concat, hk.map]
  · show AllStop (e.joinedAfter c.joined)
    cases e with
    | joined j => exact hallow.stops j rfl
    | _ => exact hk.stops
  · intro p hp
    cases hp
    exact hnext a hanswer
  · intro hw
    simp [Conn.waiting, Conn.emits] at hw
  · intro _ h
    cases h
  · intro hstopped _
    exact hk.draining hstopped (by rw [htodo]; intro h; cases h)
  · intro reason t hmem
    obtain h | h := List.mem_append.mp hmem
    · exact hk.reasons reason t h
    · exact hallow.reason reason t (List.mem_singleton.mp h).symm

theorem kept_step [EmptyCollection α] (serde : SerdeJson) {router : ChannelRouter α Ω}
    (hrouter : ∀ p ∈ router.routes, p.2.StopsWhenAsked) {l : ConnLabel Ω} (hk : Kept d c)
    (hl : LosesNone c l) (hstep : Conn.step serde router c l = some c') :
    ∃ d', Kept d' c' ∧ ∀ reason, d' = some reason → d = some reason ∨ ∃ keys, l = .stop reason keys := by
  cases Conn.step_move hstep with
  | @cast request hw =>
      have hstopped := (waiting_iff.mp hw).2
      obtain rfl := hk.running hstopped
      exact ⟨none, kept_start hk hstopped
        (wp_handleCast_tally serde hrouter request hk.stops (hk.owing hw)), fun _ h => Or.inl h⟩
  | @info msg hw =>
      have hstopped := (waiting_iff.mp hw).2
      obtain rfl := hk.running hstopped
      exact ⟨none, kept_start hk hstopped
        (wp_handleInfo_tally serde msg hk.stops (hk.owing hw)), fun _ h => Or.inl h⟩
  | @run a _ _ htodo => exact ⟨d, kept_run hk htodo hl a, fun _ h => Or.inl h⟩
  | finish htodo => exact ⟨d, kept_finish hk htodo, fun _ h => Or.inl h⟩
  | @stop reason keys hw hkeys =>
      refine ⟨some reason, kept_stop hk hw hkeys, ?_⟩
      intro reason' h
      cases h
      exact Or.inr ⟨keys, rfl⟩
  | kill => exact ⟨d, kept_kill hk hl, fun _ h => Or.inl h⟩

/--
**Joins and terminates are paired where no channel is written over or dropped.**
For every channel router whose channels stop when asked, and every run of a
connection to its end in which no join is accepted while its topic is joined, and
a kill finds no channel: on every topic each join that returned `Ok` is followed
by one call of `terminate`, before the next such join and before the end, and its
reason is `leave` or the one for which the process stopped.
-/
theorem joins_terminated [EmptyCollection α] (serde : SerdeJson) (router : ChannelRouter α Ω)
    (hrouter : ∀ p ∈ router.routes, p.2.StopsWhenAsked) {labels : List (ConnLabel Ω)} {c : Conn α Ω}
    (hrun : (connSystem serde router).exec Conn.init labels = some c)
    (hkeeps : (connSystem serde router).Along LosesNone Conn.init labels)
    (hend : c.stopped = true ∧ c.todo = none) (t : String) :
    Paired (lifecycle t c.log) ∧
      ∀ reason, .closed reason ∈ lifecycle t c.log →
        reason = "leave" ∨ ∃ keys, .stop reason keys ∈ labels := by
  have hkept : ∃ d, Kept d c ∧ ∀ reason, d = some reason → ∃ keys, .stop reason keys ∈ labels := by
    refine Lts.exec_history_along (M := connSystem serde router) (P := LosesNone)
      (R := fun labels c => ∃ d, Kept d c ∧
        ∀ reason, d = some reason → ∃ keys, .stop reason keys ∈ labels)
      ⟨none, kept_init, by intro reason h; cases h⟩ ?_ hkeeps hrun
    rintro labels c l c' ⟨d, hk, hd⟩ hl hstep
    obtain ⟨d', hk', hd'⟩ := kept_step serde hrouter hk hl hstep
    refine ⟨d', hk', fun reason h => ?_⟩
    obtain h | ⟨keys, rfl⟩ := hd' reason h
    · obtain ⟨keys, hmem⟩ := hd reason h
      exact ⟨keys, List.mem_append_left _ hmem⟩
    · exact ⟨keys, List.mem_append_right _ (List.mem_singleton_self _)⟩
  obtain ⟨d, hk, hd⟩ := hkept
  refine ⟨hk.ended hend.1 hend.2 t, ?_⟩
  intro reason hmem
  obtain ⟨e, he, hlife⟩ := List.mem_filterMap.mp hmem
  obtain h | h := hk.reasons reason t (life_closed hlife ▸ he)
  · exact Or.inl h
  · exact Or.inr (hd reason h)

/-! ### Runs -/

/-- A client joins the room, and leaves it. -/
def joinOnce : List (ConnLabel Unit) := .cast joinText :: List.replicate 8 runOne ++ [.finish]
def leaveOnce : List (ConnLabel Unit) := .cast leaveText :: List.replicate 4 runOne ++ [.finish]

/-- A test for the condition, for a process that is not killed in the middle of a handler. -/
def losesNone (c : Conn α Ω) : ConnLabel Ω → Bool
  | .run _ =>
      match c.todo with
      | some (.emit (.joinReturned t true) _) => !c.joined.keys.contains t
      | _ => true
  | .kill =>
      c.todo.isNone && c.joined.keys.isEmpty && (current c.log).all fun e =>
        match e with
        | .joinReturned _ true => false
        | _ => true
  | _ => true

theorem losesNone_of_test (c : Conn α Ω) (l : ConnLabel Ω) (h : losesNone c l = true) :
    LosesNone c l := by
  cases l with
  | run a =>
      intro t k htodo
      simp only [losesNone, htodo] at h
      simpa [AList.mem_keys] using h
  | kill =>
      simp only [losesNone, Bool.and_eq_true, Option.isNone_iff_eq_none, List.isEmpty_iff] at h
      obtain ⟨⟨htodo, hkeys⟩, hcurrent⟩ := h
      refine ⟨?_, ?_, ?_, fun _ => htodo⟩
      · refine AList.ext ?_
        exact List.map_eq_nil_iff.mp hkeys
      · intro t hmem
        have := List.all_eq_true.mp hcurrent _ hmem
        cases this
      · intro reason t k heq
        rw [htodo] at heq
        cases heq
  | _ => trivial

theorem joins_terminated_leave :
    ∃ c, (connSystem roomSerde echoRouter).exec Conn.init (joinOnce ++ leaveOnce ++ [.kill]) = some c ∧
      lifecycle "room:1" c.log = [.opened, .closed "leave"] ∧ Paired (lifecycle "room:1" c.log) := by
  have hrun : ∃ c, (connSystem roomSerde echoRouter).exec Conn.init
      (joinOnce ++ leaveOnce ++ [.kill]) = some c ∧ (c.stopped = true ∧ c.todo = none) ∧
      lifecycle "room:1" c.log = [.opened, .closed "leave"] := ⟨_, rfl, ⟨rfl, rfl⟩, by decide⟩
  obtain ⟨c, hexec, hend, hlife⟩ := hrun
  refine ⟨c, hexec, hlife, ?_⟩
  have hstops : ∀ p ∈ echoRouter.routes, p.2.StopsWhenAsked := by
    intro p hp
    obtain rfl := List.mem_singleton.mp hp
    intro socket
    rfl
  exact (joins_terminated roomSerde echoRouter hstops hexec
    (Lts.along_of_check losesNone_of_test (by decide)) hend "room:1").1

/-- A client that joins and is gone, and one that joins a second time before it leaves. -/
theorem joins_dropped :
    (∃ c, (connSystem roomSerde echoRouter).exec Conn.init (joinOnce ++ [.kill]) = some c ∧
      (c.stopped = true ∧ c.todo = none) ∧ lifecycle "room:1" c.log = [.opened] ∧
      ¬Paired (lifecycle "room:1" c.log)) ∧
    ∃ c, (connSystem roomSerde echoRouter).exec Conn.init
        (joinOnce ++ joinOnce ++ leaveOnce ++ [.kill]) = some c ∧
      (c.stopped = true ∧ c.todo = none) ∧
      lifecycle "room:1" c.log = [.opened, .opened, .closed "leave"] ∧
      ¬Paired (lifecycle "room:1" c.log) :=
  ⟨⟨_, rfl, ⟨rfl, rfl⟩, by decide, id⟩, ⟨_, rfl, ⟨rfl, rfl⟩, by decide, id⟩⟩

end Mahalo.Channels
