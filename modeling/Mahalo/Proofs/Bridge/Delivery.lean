/-
The bridge under every step.

A send gives one link the call that was pending on it; pruning takes a sender away whose
receiver is gone; a new link carries nothing; a relay has taken a first part of its
channel.  With the calls and the lock these are all the steps, so the invariant holds
after every run, and `fans_out_once` reads off what it says.
-/
import Mahalo.Proofs.Bridge.Calls

namespace Mahalo.Bridge

open History

variable {N : Type*} [DecidableEq N]

/-! ### A send of the `retain` -/

/-- What a send that goes through changes. -/
structure Sends (s s' : Bridge N) (a : N) (f : Fanout) (tx : Peer) (rest : List Peer) : Prop where
  was : s.fanout a = some f
  next : f.rest = tx :: rest
  live : Mpsc.aliveAt s.chans tx.chan = true
  fanout : ∀ b, s'.fanout b = if b = a then some { f with kept := f.kept ++ [tx], rest } else s.fanout b
  length : s'.chans.length = s.chans.length
  alive : ∀ j, Mpsc.aliveAt s'.chans j = Mpsc.aliveAt s.chans j
  sent : ∀ chan, s'.sentOn chan = if chan = tx.chan then
    s.sentOn chan ++ [{ link := tx.link, call := f.call, msg := f.msg }] else s.sentOn chan
  frame : s' = { s with fanout := s'.fanout, chans := s'.chans }

/-- What changes where the receiver is gone. -/
structure Prunes (s s' : Bridge N) (a : N) (f : Fanout) (tx : Peer) (rest : List Peer) : Prop where
  was : s.fanout a = some f
  next : f.rest = tx :: rest
  dead : Mpsc.aliveAt s.chans tx.chan = false
  fanout : ∀ b, s'.fanout b = if b = a then some { f with rest } else s.fanout b
  frame : s' = { s with fanout := s'.fanout }

theorem sendNext_some {s s' : Bridge N} {a : N} (h : s.sendNext a = some s') :
    ∃ f tx rest, Sends s s' a f tx rest ∨ Prunes s s' a f tx rest := by
  unfold sendNext at h
  split at h
  · rename_i call msg kept tx rest hf
    refine ⟨{ call, msg, kept, rest := tx :: rest }, tx, rest, ?_⟩
    split at h
    · rename_i chans hsend
      obtain rfl := Option.some.inj h
      obtain ⟨hlive, hlength, halive, hsent⟩ := Mpsc.trySend_some hsend
      exact Or.inl ⟨hf, rfl, hlive, fun b => Function.update_apply .., hlength, halive, hsent, rfl⟩
    · rename_i hsend
      obtain rfl := Option.some.inj h
      exact Or.inr ⟨hf, rfl, Mpsc.trySend_none hsend, fun b => Function.update_apply .., rfl⟩
  · cases h

section

variable {s s' : Bridge N} {a : N} {f : Fanout} {tx : Peer} {rest : List Peer}

theorem Sends.senders (hs : Sends s s' a f tx rest) (b : N) : s'.senders b = s.senders b := by
  by_cases hb : b = a
  · rw [senders_some ((hs.fanout b).trans (if_pos hb)), hb, senders_some hs.was, hs.next]
    exact List.append_assoc ..
  · exact senders_congr ((hs.fanout b).trans (if_neg hb)) (by rw [hs.frame])

/-- The sender is a link of its node. -/
theorem Sends.registered (hs : Sends s s' a f tx rest) (h : Carries s) :
    ∃ since, s.links[tx.link]? = some { owner := a, chan := tx.chan, since } := by
  refine h.registered a tx ?_
  rw [senders_some hs.was, hs.next]
  exact List.mem_append_right _ (List.mem_cons_self ..)

/-- The link of the sender has one call more, and no other link has. -/
theorem Sends.carried (hs : Sends s s' a f tx rest) (h : Carries s) {l : Nat} {link : Link N}
    (hl : s.links[l]? = some link) :
    carried l (s'.sentOn link.chan)
      = carried l (s.sentOn link.chan) ++ if l = tx.link then [f.call] else [] := by
  obtain ⟨since, htx⟩ := hs.registered h
  rw [hs.sent]
  by_cases hlink : l = tx.link
  · rw [hlink, htx] at hl
    obtain rfl := Option.some.inj hl
    rw [if_pos rfl, carried_append, carried_single, hlink]
  · rw [if_neg hlink, List.append_nil]
    by_cases hchan : link.chan = tx.chan
    · rw [if_pos hchan, carried_append, carried_single, if_neg (Ne.symm hlink), List.append_nil]
    · rw [if_neg hchan]

/-- What was pending on that link is no more. -/
theorem Sends.pending (hs : Sends s s' a f tx rest) (h : Carries s) {l : Nat} {link : Link N}
    (hl : s.links[l]? = some link) :
    s.pending link.owner l = (if l = tx.link then [f.call] else []) ++ s'.pending link.owner l := by
  obtain ⟨since, htx⟩ := hs.registered h
  by_cases hlink : l = tx.link
  · rw [hlink, htx] at hl
    obtain rfl := Option.some.inj hl
    have hnot : tx.link ∉ rest.map (·.link) := by
      have hdistinct := h.distinct a
      rw [senders_some hs.was, hs.next, List.map_append, List.map_cons] at hdistinct
      exact (List.nodup_cons.mp (List.nodup_append.mp hdistinct).2.1).1
    rw [if_pos hlink, pending_some hs.was, pending_some ((hs.fanout _).trans (if_pos rfl)), hs.next, hlink,
      List.map_cons, if_pos (List.mem_cons_self ..), if_neg hnot]
    rfl
  · rw [if_neg hlink, List.nil_append]
    by_cases hb : link.owner = a
    · rw [pending_some ((hs.fanout _).trans (if_pos hb)), hb, pending_some hs.was, hs.next, List.map_cons]
      exact if_congr (List.mem_cons.trans (or_iff_right hlink)) rfl rfl
    · exact (pending_congr ((hs.fanout _).trans (if_neg hb)) l).symm

/-- A fan-out that goes on is still that of its call. -/
theorem Carries.fanout_continued (h : Carries s) {g : Fanout} (hwas : s.fanout a = some f)
    (hfanout : ∀ b, s'.fanout b = if b = a then some g else s.fanout b) (hcall : g.call = f.call)
    (hmsg : g.msg = f.msg) (hcalls : s'.calls = s.calls) :
    ∀ b f', s'.fanout b = some f' → ∃ call, s'.calls[f'.call]? = some call ∧ call.msg = f'.msg := by
  intro b f' hf'
  rw [hfanout] at hf'
  rw [hcalls]
  by_cases hb : b = a
  · rw [if_pos hb] at hf'
    obtain rfl := Option.some.inj hf'
    rw [hcall, hmsg]
    exact h.current a f hwas
  · rw [if_neg hb] at hf'
    exact h.current b f' hf'

theorem carries_sent (h : Carries s) (hs : Sends s s' a f tx rest) : Carries s' := by
  have hlinks : s'.links = s.links := by rw [hs.frame]
  have hcalls : s'.calls = s.calls := by rw [hs.frame]
  have hfanouts : s'.fanouts = s.fanouts := by rw [hs.frame]
  refine ⟨?_, ?_, ?_, ?_, ?_, ?_, ?_, ?_⟩
  · rw [hlinks, hfanouts, hs.length]
    exact h.made
  · intro b
    rw [hs.senders]
    exact h.distinct b
  · intro b
    rw [hs.senders, hlinks]
    exact h.registered b
  · intro l link
    rw [hlinks, hs.alive, hs.senders]
    exact h.listed l link
  · exact h.fanout_continued hs.was hs.fanout rfl rfl hcalls
  · intro chan env henv
    rw [hs.sent] at henv
    rw [hlinks, hcalls]
    by_cases hchan : chan = tx.chan
    · rw [if_pos hchan] at henv
      rcases List.mem_append.mp henv with hold | hnew
      · exact h.genuine chan env hold
      · obtain ⟨since, htx⟩ := hs.registered h
        rw [List.mem_singleton.mp hnew]
        exact ⟨⟨_, htx, hchan.symm⟩, h.current a f hs.was⟩
    · rw [if_neg hchan] at henv
      exact h.genuine chan env henv
  · intro l link hl hlive
    rw [hlinks] at hl
    rw [hs.alive] at hlive
    rw [hs.carried h hl, List.append_assoc, ← hs.pending h hl, hfanouts]
    exact h.live l link hl hlive
  · intro l link hl
    rw [hlinks] at hl
    rw [hs.carried h hl, hfanouts]
    by_cases hlink : l = tx.link
    · -- the send went through, so the receiver is there
      have hlive : Mpsc.aliveAt s.chans link.chan = true := by
        obtain ⟨since, htx⟩ := hs.registered h
        rw [hlink, htx] at hl
        obtain rfl := Option.some.inj hl
        exact hs.live
      rw [← h.live l link hl hlive, hs.pending h hl, ← List.append_assoc]
      exact List.prefix_append _ _
    · rw [if_neg hlink, List.append_nil]
      exact h.dead l link hl

theorem Prunes.senders (hs : Prunes s s' a f tx rest) :
    s.senders a = f.kept ++ tx :: rest ∧ s'.senders a = f.kept ++ rest ∧
      ∀ b, b ≠ a → s'.senders b = s.senders b := by
  refine ⟨?_, senders_some ((hs.fanout a).trans (if_pos rfl)), ?_⟩
  · rw [senders_some hs.was, hs.next]
  · intro b hb
    exact senders_congr ((hs.fanout b).trans (if_neg hb)) (by rw [hs.frame])

theorem Prunes.sublist (hs : Prunes s s' a f tx rest) (b : N) : (s'.senders b).Sublist (s.senders b) := by
  obtain ⟨hbefore, hafter, hother⟩ := hs.senders
  by_cases hb : b = a
  · rw [hb, hbefore, hafter]
    exact (List.Sublist.refl _).append (List.sublist_cons_self _ _)
  · rw [hother b hb]

/-- A link with a receiver is not the one that is pruned. -/
theorem Prunes.spares (hs : Prunes s s' a f tx rest) (h : Carries s) {l : Nat} {link : Link N}
    (hl : s.links[l]? = some link) (hlive : Mpsc.aliveAt s.chans link.chan = true) : l ≠ tx.link := by
  rintro rfl
  have hmem : tx ∈ s.senders a := by
    rw [hs.senders.1]
    exact List.mem_append_right _ (List.mem_cons_self ..)
  obtain ⟨since, htx⟩ := h.registered a tx hmem
  rw [hl] at htx
  rw [Option.some.inj htx, hs.dead] at hlive
  cases hlive

theorem Prunes.pending (hs : Prunes s s' a f tx rest) {l : Nat} (hne : l ≠ tx.link) (b : N) :
    s'.pending b l = s.pending b l := by
  by_cases hb : b = a
  · rw [pending_some ((hs.fanout _).trans (if_pos hb)), hb, pending_some hs.was, hs.next, List.map_cons]
    exact (if_congr (List.mem_cons.trans (or_iff_right hne)) rfl rfl).symm
  · exact pending_congr ((hs.fanout _).trans (if_neg hb)) l

theorem carries_pruned (h : Carries s) (hs : Prunes s s' a f tx rest) : Carries s' := by
  have hlinks : s'.links = s.links := by rw [hs.frame]
  have hcalls : s'.calls = s.calls := by rw [hs.frame]
  have hfanouts : s'.fanouts = s.fanouts := by rw [hs.frame]
  have hchans : s'.chans = s.chans := by rw [hs.frame]
  have hsent := sentOn_congr hchans
  refine ⟨?_, ?_, ?_, ?_, ?_, ?_, ?_, ?_⟩
  · rw [hlinks, hchans, hfanouts]
    exact h.made
  · intro b
    exact ((hs.sublist b).map _).nodup (h.distinct b)
  · intro b x hx
    rw [hlinks]
    exact h.registered b x ((hs.sublist b).subset hx)
  · intro l link hl hlive
    rw [hlinks] at hl
    rw [hchans] at hlive
    obtain ⟨hbefore, hafter, hother⟩ := hs.senders
    have hlisted := h.listed l link hl hlive
    by_cases hb : link.owner = a
    · rw [hb, hbefore] at hlisted
      rw [hb, hafter]
      rcases List.mem_append.mp hlisted with hkept | htail
      · exact List.mem_append_left _ hkept
      · rcases List.mem_cons.mp htail with heq | hmem
        · exact absurd (congrArg Peer.link heq) (hs.spares h hl hlive)
        · exact List.mem_append_right _ hmem
    · rw [hother _ hb]
      exact hlisted
  · exact h.fanout_continued hs.was hs.fanout rfl rfl hcalls
  · rw [hsent, hlinks, hcalls]
    exact h.genuine
  · intro l link hl hlive
    rw [hlinks] at hl
    rw [hchans] at hlive
    rw [hsent, hs.pending (hs.spares h hl hlive), hfanouts]
    exact h.live l link hl hlive
  · rw [hlinks, hsent, hfanouts]
    exact h.dead

end

/-- A relay has taken no more than was sent, so what is sent next does not change what it has. -/
theorem relays_sent {s s' : Bridge N} (h : Relays s) {id : Nat} {env : Envelope}
    (hsent : ∀ chan, s'.sentOn chan = if chan = id then s.sentOn chan ++ [env] else s.sentOn chan)
    (hframe : s' = { s with fanout := s'.fanout, chans := s'.chans }) : Relays s' := by
  have hlinks : s'.links = s.links := by rw [hframe]
  have hcalls : s'.calls = s.calls := by rw [hframe]
  have hrelay : s'.relay = s.relay := by rw [hframe]
  have htaken : s'.taken = s.taken := by rw [hframe]
  have harrivals : s'.arrivals = s.arrivals := by rw [hframe]
  refine ⟨?_, ?_, ?_, ?_⟩
  · intro chan
    rw [htaken, hsent]
    by_cases hchan : chan = id
    · rw [if_pos hchan, List.length_append]
      exact Nat.le_add_right_of_le (h.taken chan)
    · rw [if_neg hchan]
      exact h.taken chan
  · rw [hrelay, htaken]
    exact h.idle
  · intro l link hl b
    rw [hlinks] at hl
    have htake : (s'.sentOn link.chan).take (s.taken link.chan)
        = (s.sentOn link.chan).take (s.taken link.chan) := by
      rw [hsent]
      by_cases hchan : link.chan = id
      · rw [if_pos hchan, List.take_append_of_le_length (h.taken link.chan)]
      · rw [if_neg hchan]
    rw [harrivals, hrelay, htaken, htake]
    exact h.relayed l link hl b
  · rw [harrivals, hlinks, hcalls]
    exact h.faithful

theorem wired_sendNext {s s' : Bridge N} (h : Wired s) {a : N} (hs : s.sendNext a = some s') : Wired s' := by
  obtain ⟨f, tx, rest, hsends | hprunes⟩ := sendNext_some hs
  · refine ⟨?_, ?_, carries_sent h.carries hsends, relays_sent h.relays hsends.sent hsends.frame⟩
    · rw [hsends.frame]
      exact h.queues
    · rw [hsends.frame]
      exact { h.calls with }
  · refine ⟨?_, ?_, carries_pruned h.carries hprunes, ?_⟩
    · rw [hprunes.frame]
      exact h.queues
    · rw [hprunes.frame]
      exact { h.calls with }
    · rw [hprunes.frame]
      exact { h.relays with }

theorem wired_unlock {s s' : Bridge N} (h : Wired s) {a : N} (hs : s.unlock a = some s') : Wired s' := by
  unfold unlock at hs
  split at hs
  · rename_i call msg kept hf
    obtain rfl := Option.some.inj hs
    generalize hs' : ({ s with
      peers := Function.update s.peers a kept, fanout := Function.update s.fanout a none } : Bridge N) = s'
    have hfanout : ∀ b, s'.fanout b = if b = a then none else s.fanout b := by
      intro b
      rw [← hs']
      exact Function.update_apply ..
    have hsenders : ∀ b, s'.senders b = s.senders b := by
      intro b
      by_cases hb : b = a
      · rw [senders_none ((hfanout b).trans (if_pos hb)), hb, senders_some hf, ← hs']
        show Function.update s.peers a kept a = kept ++ []
        rw [Function.update_self, List.append_nil]
      · exact senders_congr ((hfanout b).trans (if_neg hb)) (by rw [← hs']; exact Function.update_of_ne hb ..)
    have hpending : ∀ b l, s'.pending b l = s.pending b l := by
      intro b l
      by_cases hb : b = a
      · rw [pending_none ((hfanout b).trans (if_pos hb)), hb, pending_some hf]
        rfl
      · exact pending_congr ((hfanout _).trans (if_neg hb)) l
    have hlinks : s'.links = s.links := by rw [← hs']
    have hchans : s'.chans = s.chans := by rw [← hs']
    have hsent := sentOn_congr hchans
    have hcalls : s'.calls = s.calls := by rw [← hs']
    have hfanouts : s'.fanouts = s.fanouts := by rw [← hs']
    have hcarries : Carries s' := by
      refine ⟨?_, ?_, ?_, ?_, ?_, ?_, ?_, ?_⟩
      · rw [hlinks, hchans, hfanouts]
        exact h.carries.made
      · intro b
        rw [hsenders]
        exact h.carries.distinct b
      · intro b
        rw [hsenders, hlinks]
        exact h.carries.registered b
      · intro l link
        rw [hlinks, hchans, hsenders]
        exact h.carries.listed l link
      · intro b f hf'
        rw [hfanout] at hf'
        rw [hcalls]
        exact h.carries.current b f (Option.ite_none_left_eq_some.mp hf').2
      · rw [hsent, hlinks, hcalls]
        exact h.carries.genuine
      · intro l link
        rw [hlinks, hchans, hsent, hpending, hfanouts]
        exact h.carries.live l link
      · rw [hlinks, hsent, hfanouts]
        exact h.carries.dead
    subst hs'
    exact ⟨h.queues, { h.calls with }, hcarries, { h.relays with }⟩
  · cases hs

/-! ### Channels and links -/

theorem wired_peerChannel {s : Bridge N} (h : Wired s) : Wired s.peerChannel := by
  have hsent : ∀ chan, s.peerChannel.sentOn chan = s.sentOn chan := by
    intro chan
    refine (Mpsc.sentOn_open ..).trans ?_
    by_cases hchan : chan = s.chans.length
    · rw [if_pos hchan, hchan]
      unfold sentOn Mpsc.sentOn
      rw [List.getElem?_eq_none (Nat.le_refl _)]
      rfl
    · rw [if_neg hchan]
      rfl
  have halive : ∀ (l : Nat) link, s.links[l]? = some link →
      Mpsc.aliveAt s.peerChannel.chans link.chan = Mpsc.aliveAt s.chans link.chan := by
    intro l link hl
    refine (Mpsc.aliveAt_open ..).trans ?_
    rw [if_neg (Nat.ne_of_lt (h.carries.made l link hl).1)]
  have hsent' : s.peerChannel.sentOn = s.sentOn := funext hsent
  refine ⟨h.queues, { h.calls with }, { h.carries with
    made := ?_, listed := ?_, genuine := ?_, live := ?_, dead := ?_ },
    h.relays.frame (fun c call hc => ⟨call, hc, rfl⟩) (unrelayed_of_eq rfl) rfl hsent' rfl rfl⟩
  · intro l link hl
    obtain ⟨hlt, hsince⟩ := h.carries.made l link hl
    refine ⟨?_, hsince⟩
    show link.chan < (s.chans ++ [_]).length
    rw [List.length_append]
    exact Nat.lt_add_right _ hlt
  · intro l link hl hlive
    rw [halive l link hl] at hlive
    exact h.carries.listed l link hl hlive
  · rw [hsent']
    exact h.carries.genuine
  · intro l link hl hlive
    rw [halive l link hl] at hlive
    rw [hsent]
    exact h.carries.live l link hl hlive
  · rw [hsent']
    exact h.carries.dead

theorem wired_dropReceiver {s : Bridge N} (h : Wired s) (chan : Nat) :
    Wired { s with chans := Mpsc.drop s.chans chan } := by
  have hsent : sentOn { s with chans := Mpsc.drop s.chans chan } = s.sentOn := by
    funext j
    exact Mpsc.sentOn_drop ..
  have halive : ∀ j, Mpsc.aliveAt (Mpsc.drop s.chans chan) j = true → Mpsc.aliveAt s.chans j = true := by
    intro j hlive
    rw [Mpsc.aliveAt_drop] at hlive
    by_cases hj : j = chan
    · rw [if_pos hj] at hlive
      cases hlive
    · rw [if_neg hj] at hlive
      exact hlive
  refine ⟨h.queues, { h.calls with }, { h.carries with
    made := ?_, listed := ?_, genuine := ?_, live := ?_, dead := ?_ },
    h.relays.frame (fun c call hc => ⟨call, hc, rfl⟩) (unrelayed_of_eq rfl) rfl hsent rfl rfl⟩
  · intro l link hl
    refine ⟨?_, (h.carries.made l link hl).2⟩
    show link.chan < (s.chans.modify _ _).length
    rw [List.length_modify]
    exact (h.carries.made l link hl).1
  · intro l link hl hlive
    exact h.carries.listed l link hl (halive _ hlive)
  · rw [hsent]
    exact h.carries.genuine
  · intro l link hl hlive
    rw [hsent]
    exact h.carries.live l link hl (halive _ hlive)
  · rw [hsent]
    exact h.carries.dead

omit [DecidableEq N] in
/-- Nothing came along a link that is not there yet. -/
theorem carried_new {s : Bridge N} (h : Carries s) {l : Nat} (hl : s.links.length ≤ l) (chan : Nat) :
    carried l (s.sentOn chan) = [] := by
  unfold carried
  rw [List.map_eq_nil_iff, List.filter_eq_nil_iff]
  intro env henv heq
  obtain ⟨⟨link, hlink, -⟩, -⟩ := h.genuine chan env henv
  rw [of_decide_eq_true heq, List.getElem?_eq_none hl] at hlink
  cases hlink

theorem relayedOn_new {s : Bridge N} (h : Relays s) {l : Nat} (hl : s.links.length ≤ l) (b : N) :
    relayedOn l (s.arrivals b) = [] := by
  unfold relayedOn
  rw [List.filterMap_eq_nil_iff]
  intro x hx
  cases horigin : x.origin with
  | relayed link call =>
      refine if_neg ?_
      rintro rfl
      obtain ⟨⟨y, hy⟩, -⟩ := h.faithful b x hx link call horigin
      rw [List.getElem?_eq_none hl] at hy
      cases hy
  | own call => rfl
  | client => rfl

/-- What a new sender in a peer list changes. -/
structure Links (s s' : Bridge N) (a : N) (chan : Nat) : Prop where
  made : chan < s.chans.length
  free : s.fanout a = none
  links : s'.links = s.links ++ [{ owner := a, chan, since := (s.fanouts a).length }]
  senders : ∀ b, s'.senders b = s.senders b ++ if b = a then [{ link := s.links.length, chan }] else []
  frame : s' = { s with peers := s'.peers, links := s'.links }

theorem addPeer_some {s s' : Bridge N} {a : N} {chan : Nat} (h : s.addPeer a chan = some s') :
    Links s s' a chan := by
  obtain ⟨⟨hchan, hfree⟩, h⟩ := Option.ite_none_right_eq_some.mp h
  have hfree := Option.isNone_iff_eq_none.mp hfree
  have hs := Option.some.inj h
  have hfanout : s'.fanout = s.fanout := by rw [← hs]
  refine ⟨hchan, hfree, by rw [← hs], ?_, by rw [← hs]⟩
  intro b
  by_cases hb : b = a
  · rw [if_pos hb, hb, senders_none ((congrFun hfanout a).trans hfree), senders_none hfree, ← hs]
    exact Function.update_self ..
  · rw [if_neg hb, List.append_nil]
    exact senders_congr (congrFun hfanout b) (by rw [← hs]; exact Function.update_of_ne hb ..)

theorem Links.keeps {s s' : Bridge N} {a : N} {chan : Nat} (hs : Links s s' a chan) {l : Nat}
    {link : Link N} (hl : s.links[l]? = some link) : s'.links[l]? = some link := by
  rw [hs.links]
  exact getElem?_concat hl

theorem Links.back {s s' : Bridge N} {a : N} {chan : Nat} (hs : Links s s' a chan) {l : Nat}
    {link : Link N} (hl : s'.links[l]? = some link) :
    s.links[l]? = some link ∨
      l = s.links.length ∧ link = { owner := a, chan, since := (s.fanouts a).length } := by
  rw [hs.links] at hl
  exact of_getElem?_concat hl

theorem carries_addPeer {s s' : Bridge N} (h : Carries s) {a : N} {chan : Nat} (hs : Links s s' a chan) :
    Carries s' := by
  have hfanout : s'.fanout = s.fanout := by rw [hs.frame]
  have hfanouts : s'.fanouts = s.fanouts := by rw [hs.frame]
  have hchans : s'.chans = s.chans := by rw [hs.frame]
  have hcalls : s'.calls = s.calls := by rw [hs.frame]
  have hsent := sentOn_congr hchans
  refine ⟨?_, ?_, ?_, ?_, ?_, ?_, ?_, ?_⟩
  · intro l link hl
    rw [hchans, hfanouts]
    rcases hs.back hl with hl | ⟨-, rfl⟩
    · exact h.made l link hl
    · exact ⟨hs.made, Nat.le_refl _⟩
  · intro b
    rw [hs.senders]
    by_cases hb : b = a
    · -- the new link has a number that no sender had
      have hnot : s.links.length ∉ (s.senders b).map (·.link) := by
        intro hmem
        obtain ⟨tx, htx, hlink⟩ := List.mem_map.mp hmem
        obtain ⟨since, hget⟩ := h.registered b tx htx
        rw [hlink, List.getElem?_eq_none (Nat.le_refl _)] at hget
        cases hget
      rw [if_pos hb, List.map_append, List.map_singleton, ← List.concat_eq_append]
      exact (h.distinct b).concat hnot
    · rw [if_neg hb, List.append_nil]
      exact h.distinct b
  · intro b tx htx
    rw [hs.senders] at htx
    rcases List.mem_append.mp htx with htx | hnew
    · obtain ⟨since, hget⟩ := h.registered b tx htx
      exact ⟨since, hs.keeps hget⟩
    · by_cases hb : b = a
      · rw [if_pos hb] at hnew
        obtain rfl := List.mem_singleton.mp hnew
        refine ⟨(s.fanouts a).length, ?_⟩
        rw [hs.links, hb]
        exact List.getElem?_concat_length
      · rw [if_neg hb] at hnew
        cases hnew
  · intro l link hl hlive
    rw [hchans] at hlive
    rw [hs.senders]
    rcases hs.back hl with hl | ⟨rfl, rfl⟩
    · exact List.mem_append_left _ (h.listed l link hl hlive)
    · rw [if_pos rfl]
      exact List.mem_append_right _ (List.mem_singleton_self _)
  · rw [hfanout, hcalls]
    exact h.current
  · intro c env henv
    rw [hsent] at henv
    obtain ⟨⟨link, hlink, hto⟩, hcall⟩ := h.genuine c env henv
    rw [hcalls]
    exact ⟨⟨link, hs.keeps hlink, hto⟩, hcall⟩
  · intro l link hl hlive
    rw [hchans] at hlive
    rw [hsent, pending_congr (congrFun hfanout _), hfanouts]
    rcases hs.back hl with hl | ⟨rfl, rfl⟩
    · exact h.live l link hl hlive
    · rw [carried_new h (Nat.le_refl _), pending_none hs.free, List.drop_length]
      rfl
  · intro l link hl
    rw [hsent, hfanouts]
    rcases hs.back hl with hl | ⟨rfl, -⟩
    · exact h.dead l link hl
    · rw [carried_new h (Nat.le_refl _)]
      exact List.nil_prefix

theorem relays_addPeer {s s' : Bridge N} (h : Relays s) (hcarries : Carries s) {a : N} {chan : Nat}
    (hs : Links s s' a chan) : Relays s' := by
  have hcalls : s'.calls = s.calls := by rw [hs.frame]
  have harrivals : s'.arrivals = s.arrivals := by rw [hs.frame]
  have hrelay : s'.relay = s.relay := by rw [hs.frame]
  have htaken : s'.taken = s.taken := by rw [hs.frame]
  have hchans : s'.chans = s.chans := by rw [hs.frame]
  have hsent := sentOn_congr hchans
  refine ⟨?_, ?_, ?_, ?_⟩
  · rw [htaken, hsent]
    exact h.taken
  · rw [hrelay, htaken]
    exact h.idle
  · intro l link hl b
    rw [harrivals, hrelay, hsent, htaken]
    rcases hs.back hl with hl | ⟨rfl, -⟩
    · exact h.relayed l link hl b
    · have hnil : carried s.links.length ((s.sentOn link.chan).take (s.taken link.chan)) = [] := by
        have hnone := carried_new hcarries (Nat.le_refl s.links.length) link.chan
        rw [← List.take_append_drop (s.taken link.chan) (s.sentOn link.chan), carried_append,
          List.append_eq_nil_iff] at hnone
        exact hnone.1
      rw [relayedOn_new h (Nat.le_refl _), hnil, ite_self]
  · intro b x hx l c horigin
    rw [harrivals] at hx
    obtain ⟨⟨link, hlink⟩, hcall⟩ := h.faithful b x hx l c horigin
    rw [hcalls]
    exact ⟨⟨link, hs.keeps hlink⟩, hcall⟩

theorem wired_addPeer {s s' : Bridge N} (h : Wired s) {a : N} {chan : Nat} (hs : s.addPeer a chan = some s') :
    Wired s' := by
  have hlinks := addPeer_some hs
  refine ⟨?_, ?_, carries_addPeer h.carries hlinks, relays_addPeer h.relays h.carries hlinks⟩
  · rw [hlinks.frame]
    exact h.queues
  · rw [hlinks.frame]
    exact { h.calls with }

/-! ### The relays -/

theorem wired_spawnRelay {s s' : Bridge N} (h : Wired s) {b : N} {chan : Nat}
    (hs : s.spawnRelay b chan = some s') : Wired s' := by
  obtain ⟨⟨-, hfree⟩, hs⟩ := Option.ite_none_right_eq_some.mp hs
  have hfree := Option.isNone_iff_eq_none.mp hfree
  obtain rfl := Option.some.inj hs
  have hzero := h.relays.idle chan hfree
  refine ⟨h.queues, { h.calls with }, { h.carries with }, { h.relays with idle := ?_, relayed := ?_ }⟩
  · intro chan' hidle
    have hidle : Function.update s.relay chan (some b) chan' = none := hidle
    rw [Function.update_apply] at hidle
    by_cases hchan : chan' = chan
    · rw [if_pos hchan] at hidle
      cases hidle
    · rw [if_neg hchan] at hidle
      exact h.relays.idle chan' hidle
  · intro l link hl b'
    refine (h.relays.relayed l link hl b').trans ?_
    show _ = if Function.update s.relay chan (some b) link.chan = some b' then
      carried l ((s.sentOn link.chan).take (s.taken link.chan)) else []
    rw [Function.update_apply]
    by_cases hchan : link.chan = chan
    · -- nothing was taken from the channel before
      rw [hchan, hfree, hzero, if_neg nofun, List.take_zero]
      exact (ite_self _).symm
    · rw [if_neg hchan]

theorem relayNext_some {s s' : Bridge N} {chan : Nat} (h : s.relayNext chan = some s') :
    ∃ b env, s.relay chan = some b ∧ (s.sentOn chan)[s.taken chan]? = some env ∧
      s' = { s.enqueue b (.relayed env.link env.call) (command env.msg) with
        taken := Function.update s.taken chan (s.taken chan + 1) } := by
  unfold relayNext at h
  split at h
  · rename_i b env hrelay henv
    obtain ⟨-, h⟩ := Option.ite_none_right_eq_some.mp h
    exact ⟨b, env, hrelay, henv, (Option.some.inj h).symm⟩
  · cases h

theorem wired_relayNext {s s' : Bridge N} (h : Wired s) {chan : Nat} (hs : s.relayNext chan = some s') :
    Wired s' := by
  obtain ⟨b, env, hrelay, henv, rfl⟩ := relayNext_some hs
  obtain ⟨hlt, henv'⟩ := List.getElem?_eq_some_iff.mp henv
  have hmem : env ∈ s.sentOn chan := henv' ▸ List.getElem_mem hlt
  obtain ⟨⟨link₀, hlink₀, hchan₀⟩, call₀, hcall₀, hmsg₀⟩ := h.carries.genuine chan env hmem
  have htaken : ∀ j, Function.update s.taken chan (s.taken chan + 1) j
      = if j = chan then s.taken chan + 1 else s.taken j := fun j => Function.update_apply ..
  have hcalls := calls_enqueue h.calls b (.relayed env.link env.call) nofun (command env.msg)
  refine ⟨enqueue_queues h.queues b _ nofun, { hcalls with }, { h.carries with }, ?_⟩
  · refine { h.relays with taken := ?_, idle := ?_, relayed := ?_, faithful := ?_ }
    · intro j
      show Function.update s.taken chan (s.taken chan + 1) j ≤ (s.sentOn j).length
      rw [htaken]
      by_cases hj : j = chan
      · rw [if_pos hj, hj]
        exact hlt
      · rw [if_neg hj]
        exact h.relays.taken j
    · intro j hidle
      show Function.update s.taken chan (s.taken chan + 1) j = 0
      rw [htaken, if_neg]
      · exact h.relays.idle j hidle
      · rintro rfl
        cases hrelay.symm.trans hidle
    · intro l link hl b'
      show relayedOn l ((s.enqueue b (.relayed env.link env.call) (command env.msg)).arrivals b')
        = if s.relay link.chan = some b' then
            carried l ((s.sentOn link.chan).take (Function.update s.taken chan (s.taken chan + 1) link.chan))
          else []
      have hbefore := h.relays.relayed l link hl b'
      rw [enqueue_arrivals, relayedOn_append, hbefore, htaken]
      by_cases hchan : link.chan = chan
      · rw [if_pos hchan, hchan, hrelay, List.take_add_one, henv, carried_append]
        show _ = if some b = some b' then _ ++ carried l [env] else []
        by_cases hb : b' = b
        · rw [if_pos (congrArg some hb.symm), if_pos (congrArg some hb.symm), if_pos hb,
            relayedOn_single, carried_single]
        · have hne : ¬some b = some b' := fun heq => hb (Option.some.inj heq).symm
          rw [if_neg hne, if_neg hne, if_neg hb]
          rfl
      · have hother : env.link ≠ l := by
          rintro rfl
          have heq : some link₀ = some link := hlink₀.symm.trans hl
          exact hchan (Option.some.inj heq ▸ hchan₀)
        rw [if_neg hchan]
        by_cases hb : b' = b
        · rw [if_pos hb, relayedOn_single]
          show _ ++ (if env.link = l then [env.call] else []) = _
          rw [if_neg hother, List.append_nil]
        · rw [if_neg hb]
          exact List.append_nil _
    · intro b' x hx l c horigin
      have hx : x ∈ (s.enqueue b (.relayed env.link env.call) (command env.msg)).arrivals b' := hx
      rw [enqueue_arrivals] at hx
      rcases List.mem_append.mp hx with hold | hnew
      · exact h.relays.faithful b' x hold l c horigin
      · by_cases hb : b' = b
        · rw [if_pos hb] at hnew
          obtain rfl := List.mem_singleton.mp hnew
          cases horigin
          exact ⟨⟨link₀, hlink₀⟩, call₀, hcall₀, by rw [hmsg₀]⟩
        · rw [if_neg hb] at hnew
          cases hnew

/-! ### Every run -/

/-- A turn of a local PubSub that takes nothing in keeps what arrived there. -/
theorem wired_local {s : Bridge N} (h : Wired s) {a : N} {server : PubSub.Server}
    (hserver : Local server (s.arrivals a)) :
    Wired { s with localPubSub := Function.update s.localPubSub a server } := by
  refine ⟨?_, { h.calls with }, { h.carries with }, { h.relays with }⟩
  intro b
  show Local (Function.update s.localPubSub a server b) (s.arrivals b)
  rw [Function.update_apply]
  by_cases hb : b = a
  · rw [if_pos hb, hb]
    exact hserver
  · rw [if_neg hb]
    exact h.queues b

/-- The step lemma. -/
theorem wired_step (s : Bridge N) (l : Label N) (s' : Bridge N) (h : Wired s)
    (hs : system.step s l = some s') : Wired s' := by
  cases l with
  | peerChannel =>
      obtain rfl := Option.some.inj hs
      exact wired_peerChannel h
  | addPeer a chan => exact wired_addPeer h hs
  | spawnRelay b chan => exact wired_spawnRelay h hs
  | dropReceiver chan =>
      obtain rfl := Option.some.inj hs
      exact wired_dropReceiver h chan
  | broadcast a topic event payload =>
      obtain rfl := Option.some.inj hs
      exact wired_broadcast h a topic event payload
  | lock call => exact wired_lock h hs
  | sendNext a => exact wired_sendNext h hs
  | unlock a => exact wired_unlock h hs
  | relayNext chan => exact wired_relayNext h hs
  | client a cmd =>
      cases cmd with
      | shutdown => cases hs
      | subscribe topic reply =>
          obtain rfl := Option.some.inj hs
          exact wired_client h a nofun
      | broadcast topic msg =>
          obtain rfl := Option.some.inj hs
          exact wired_client h a nofun
      | unsubscribe topic =>
          obtain rfl := Option.some.inj hs
          exact wired_client h a nofun
  | serve a =>
      obtain ⟨server, hserve, rfl⟩ := Option.map_eq_some_iff.mp hs
      exact wired_local h ((h.queues a).serve hserve)
  | dropLocal a id =>
      obtain rfl := Option.some.inj hs
      obtain ⟨henqueued, hrunning, hkept⟩ := h.queues a
      exact wired_local h ⟨henqueued, hrunning, hkept⟩

/-- The run lemma. -/
theorem wired_run {ls : List (Label N)} {s : Bridge N} (h : system.exec system.init ls = some s) :
    Wired s := Lts.exec_invariant wired_start wired_step h

/-- What holds of a bridge whatever its graph is. -/
structure FansOutOnce (s : Bridge N) : Prop where
  /-- the commands in the queue of a local PubSub are those that arrived there -/
  enqueued : ∀ a, (s.localPubSub a).enqueued = (s.arrivals a).map (·.cmd)
  /-- a call has put one command into the queue of its own node, and none into another -/
  own : ∀ c call, s.calls[c]? = some call →
    ∀ a, ownOn c (s.arrivals a) = if call.node = a then [command call.msg] else []
  /-- a call has had the lock of its node once, if it no longer waits -/
  once : ∀ a, (s.fanouts a).Nodup ∧ ∀ c, c ∈ s.fanouts a ↔
    ∃ call, s.calls[c]? = some call ∧ call.node = a ∧ call.waiting = false
  /-- a relayed command is that of a call at the owner of the link it came by, which was there
  before the call had the lock; and it is at the node where the link ends -/
  relayed : ∀ b, ∀ x ∈ s.arrivals b, ∀ l c, x.origin = .relayed l c → ∃ link call,
    s.links[l]? = some link ∧ s.calls[c]? = some call ∧ call.node = link.owner ∧
      c ∈ (s.fanouts link.owner).drop link.since ∧ s.relay link.chan = some b ∧
      x.cmd = command call.msg
  atMostOnce : ∀ b l, (relayedOn l (s.arrivals b)).Nodup
  /-- where the relay has drained a link whose receiver is there, every call is relayed that the
  link was there for, up to one whose fan-out has not come to it -/
  drained : ∀ (l : Nat) link, s.links[l]? = some link → Mpsc.aliveAt s.chans link.chan = true →
    ∀ b, s.relay link.chan = some b → s.taken link.chan = (s.sentOn link.chan).length →
    relayedOn l (s.arrivals b) ++ s.pending link.owner l = (s.fanouts link.owner).drop link.since
  /-- a link whose receiver is there is in the peer list, and carries every call since it is -/
  live : ∀ (l : Nat) link, s.links[l]? = some link → Mpsc.aliveAt s.chans link.chan = true →
    { link := l, chan := link.chan } ∈ s.senders link.owner ∧
      carried l (s.sentOn link.chan) ++ s.pending link.owner l = (s.fanouts link.owner).drop link.since
  /-- two links of a node carry the same, from the later of the two on -/
  agree : ∀ (l l' : Nat) link link', s.links[l]? = some link → s.links[l']? = some link' →
    link.owner = link'.owner → Mpsc.aliveAt s.chans link.chan = true →
    Mpsc.aliveAt s.chans link'.chan = true → s.fanout link.owner = none →
    (carried l (s.sentOn link.chan)).drop (link'.since - link.since)
      = (carried l' (s.sentOn link'.chan)).drop (link.since - link'.since)
  /-- what is carried for a call is its message -/
  message : ∀ chan, ∀ env ∈ s.sentOn chan, ∃ call, s.calls[env.call]? = some call ∧ call.msg = env.msg

/-- What a node has of a link is what the relay took, and the link carried it. -/
theorem relayed_sublist {s : Bridge N} (h : Wired s) {l : Nat} {link : Link N}
    (hl : s.links[l]? = some link) (b : N) :
    relayedOn l (s.arrivals b) <+: (s.fanouts link.owner).drop link.since := by
  rw [h.relays.relayed l link hl b]
  by_cases hb : s.relay link.chan = some b
  · have htake : carried l ((s.sentOn link.chan).take (s.taken link.chan)) <+:
        carried l (s.sentOn link.chan) := by
      refine ⟨carried l ((s.sentOn link.chan).drop (s.taken link.chan)), ?_⟩
      rw [← carried_append, List.take_append_drop]
    rw [if_pos hb]
    exact htake.trans (h.carries.dead l link hl)
  · rw [if_neg hb]
    exact List.nil_prefix

theorem mem_relayedOn {l c : Nat} {arrivals : List Arrival} {x : Arrival} (hx : x ∈ arrivals)
    (horigin : x.origin = .relayed l c) : c ∈ relayedOn l arrivals := by
  refine List.mem_filterMap.mpr ⟨x, hx, ?_⟩
  rw [horigin]
  exact if_pos rfl

/--
**The bridge fans out exactly once and cannot storm.**  However the nodes are wired and
whatever the order of the threads, a call reaches its own local PubSub once and along
each live link once, its message is relayed by no other node, and a link that dies takes
nothing from the others.
-/
theorem fans_out_once {ls : List (Label N)} {s : Bridge N}
    (h : system.exec system.init ls = some s) : FansOutOnce s := by
  have hw := wired_run h
  refine ⟨fun a => (hw.queues a).enqueued, hw.calls.own, fun a => ⟨hw.calls.once a, hw.calls.fanned a⟩,
    ?_, ?_, ?_, ?_, ?_, fun chan env henv => (hw.carries.genuine chan env henv).2⟩
  · intro b x hx l c horigin
    obtain ⟨⟨link, hl⟩, call, hc, hcmd⟩ := hw.relays.faithful b x hx l c horigin
    have hmem := mem_relayedOn hx horigin
    have hin := (relayed_sublist hw hl b).subset hmem
    obtain ⟨call', hc', hnode, -⟩ := (hw.calls.fanned link.owner c).mp (List.mem_of_mem_drop hin)
    rw [hc] at hc'
    obtain rfl := Option.some.inj hc'
    refine ⟨link, call, hl, hc, hnode, hin, ?_, hcmd⟩
    rw [hw.relays.relayed l link hl b] at hmem
    by_cases hb : s.relay link.chan = some b
    · exact hb
    · rw [if_neg hb] at hmem
      cases hmem
  · intro b l
    rcases Nat.lt_or_ge l s.links.length with hlt | hge
    · have hl := List.getElem?_eq_getElem hlt
      exact (relayed_sublist hw hl b).sublist.nodup
        ((List.drop_sublist _ _).nodup (hw.calls.once _))
    · rw [relayedOn_new hw.relays hge]
      exact .nil
  · intro l link hl hlive b hb hdrained
    rw [hw.relays.relayed l link hl b, if_pos hb, hdrained, List.take_length]
    exact hw.carries.live l link hl hlive
  · intro l link hl hlive
    exact ⟨hw.carries.listed l link hl hlive, hw.carries.live l link hl hlive⟩
  · intro l l' link link' hl hl' howner hlive hlive' hidle
    have hcarried := hw.carries.live l link hl hlive
    have hcarried' := hw.carries.live l' link' hl' hlive'
    rw [pending_none hidle, List.append_nil] at hcarried
    rw [← howner, pending_none hidle, List.append_nil] at hcarried'
    rw [hcarried, hcarried', List.drop_drop, List.drop_drop]
    congr 1
    omega

/-- Two nodes that are peers of each other, and one that is its own. -/
def loops : List (Label Bool) :=
  [.peerChannel, .peerChannel, .peerChannel, .addPeer false 0, .spawnRelay true 0, .addPeer true 1,
    .spawnRelay false 1, .addPeer false 2, .spawnRelay false 2, .broadcast false "room:1" "msg" .null,
    .lock 0, .sendNext false, .relayNext 0, .sendNext false, .unlock false, .relayNext 2]

theorem fans_out_once_loops : ∃ s, system.exec system.init loops = some s ∧ FansOutOnce s ∧
    ((s.localPubSub true).enqueued.length = 1 ∧ (s.localPubSub false).enqueued.length = 2) := by
  have h : system.exec system.init loops = some _ := rfl
  exact ⟨_, h, fans_out_once h, rfl, rfl⟩

end Mahalo.Bridge
