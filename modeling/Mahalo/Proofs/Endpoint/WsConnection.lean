/-
Which texts of the client are handled before the process stops.

Every text the reader has sent is in one of four places: handled, with
`handle_cast`, in the mailbox of the process, or in `ws_msg`; and it moves from
one to the next in order.  That is kept by every turn for as long as
`handle_websocket` runs (`Conserved.flow`).  Its last turn kills the process, and
whatever is then not in the first place is lost: `handle_websocket` waits for
`ws_msg` to be empty, but not for the mailbox.
-/
import Mahalo.Endpoint.WsConnection
import Mahalo.Proofs.Channel.Connection

namespace Mahalo.WsConnection

open WsParse WsStreaming Channels
open WsWire (Wire)

variable {α Ω : Type}

/-! ### What a step of the process leaves -/

section

variable {serde : SerdeJson} {s s' : Sys α Ω}

/-- An event of the process may only add to its mailbox. -/
theorem perform_casts {ω : Ω} {e : Event α Ω} {a : Answer Ω}
    (h : s.perform serde ω e = some (s', a)) : s.casts <+: s'.casts := by
  cases e with
  | subscribe topic =>
      simp only [Sys.perform] at h
      split at h
      · cases h
        exact List.prefix_rfl
      · cases h
        unfold Sys.enqueue
        split <;> exact List.prefix_rfl
  | recvReply =>
      simp only [Sys.perform] at h
      split at h
      · cases h
      · split at h
        · cases h
          exact List.prefix_rfl
        · split at h
          · cases h
            exact List.prefix_rfl
          · cases h
  | effect e =>
      cases h
      cases e with
      | broadcast topic event payload =>
          simp only [Sys.effect, Sys.enqueue]
          split <;> exact List.prefix_rfl
      | cast msg => exact List.prefix_append _ _
      | _ => exact List.prefix_rfl
  | _ =>
      cases h
      exact List.prefix_rfl

variable [EmptyCollection α] {router : ChannelRouter α Ω}

/-- The process stays stopped. -/
theorem stopped_step (hw : s.Wired) {l : SysLabel Ω} (h : s.step serde router l = some s')
    (hstopped : s.conn.stopped = true) : s'.conn.stopped = true := by
  cases step_turn hw.running h with
  | stop _ => rfl
  | kill => rfl
  | run htodo hacts => exact hstopped
  | broken _ => exact hstopped
  | _ => exact hstopped

/-- The process is in a handler, and has not been stopped. -/
def Busy (c : Channels.Conn α Ω) : Prop := c.todo ≠ none ∧ c.stopped = false

/-- A handler is left only where it returns, or where the process is killed. -/
theorem busy_step (hw : s.Wired) {l : SysLabel Ω} (h : s.step serde router l = some s')
    (hfinish : l ≠ .finish) (hkill : l ≠ .kill) (hbusy : Busy s.conn) : Busy s'.conn := by
  obtain ⟨htodo, hrunning⟩ := hbusy
  cases step_turn hw.running h with
  | finish _ => exact absurd rfl hfinish
  | kill => exact absurd rfl hkill
  | cast _ _ => exact ⟨nofun, hrunning⟩
  | info _ _ => exact ⟨nofun, hrunning⟩
  | run _ _ => exact ⟨nofun, hrunning⟩
  | stop hwaiting => exact absurd (waiting_iff.mp hwaiting).1 htodo
  | _ => exact ⟨htodo, hrunning⟩

/-- Only the process takes from its mailbox. -/
theorem casts_step (hw : s.Wired) {l : SysLabel Ω} (h : s.step serde router l = some s')
    (hcast : l ≠ .cast) : s.casts <+: s'.casts := by
  cases l with
  | run ω =>
      simp only [Sys.step] at h
      split at h
      · obtain ⟨⟨s1, a⟩, hperform, hrun⟩ := Option.bind_eq_some_iff.mp h
        obtain ⟨c, -, rfl⟩ := Option.map_eq_some_iff.mp hrun
        have hcasts := perform_casts hperform
        exact hcasts
      · cases h
  | cast => exact absurd rfl hcast
  | receive text =>
      cases step_turn hw.running h with
      | receive => exact List.prefix_append _ _
  | forward i =>
      cases step_turn hw.running h <;> exact List.prefix_rfl
  | fire i =>
      cases step_turn hw.running h <;> exact List.prefix_rfl
  | _ =>
      cases step_turn hw.running h
      exact List.prefix_rfl

end

section

variable [EmptyCollection α] {serde : SerdeJson} {router : ChannelRouter α Ω}
  {s s' : Session α Ω}

/-! ### The turns of a session -/

/-- A turn, with what it found and what it leaves. -/
inductive Move (serde : SerdeJson) (router : ChannelRouter α Ω) (s : Session α Ω) :
    Session α Ω → Prop
  /-- the reader or the writer at the stream, and the texts the reader sends -/
  | stream {turn : WsWire.Label} {stream : Wire} (texts : List String)
      (hturn : WsWire.step s.stream turn = some stream)
      (hmessage : ∀ text, turn ≠ .message text)
      (htexts : texts = [] ∨ s.relaying = true) :
      Move serde router s
        { s with stream, wsMsg := s.wsMsg ++ texts, accepted := s.accepted ++ texts }
  | recv {msg : String} {stream : Wire} (hmsg : s.sys.out[s.taken]? = some msg)
      (hturn : WsWire.step s.stream (.message msg) = some stream) :
      Move serde router s { s with stream, taken := s.taken + 1 }
  | relay {text : String} {rest : List String} {sys : Sys α Ω} (hmsg : s.wsMsg = text :: rest)
      (hsys : s.sys.step serde router (.receive text) = some sys) :
      Move serde router s
        { s with wsMsg := rest, sys, mailbox := s.mailbox ++ [(.client, text)] }
  /-- the last turn of `handle_websocket` -/
  | kill {sys : Sys α Ω} (wsMsg : List String) (hrelaying : s.relaying = true)
      (hsys : s.sys.step serde router .kill = some sys) :
      Move serde router s { s with wsMsg, sys, relaying := false, handling := none }
  | addr {text : String} {sys : Sys α Ω}
      (hsys : s.sys.step serde router (.receive text) = some sys) :
      Move serde router s { s with sys, mailbox := s.mailbox ++ [(.addr, text)] }
  | cast {request : Request} {mailbox : List Request} {sys : Sys α Ω}
      (hmailbox : s.mailbox = request :: mailbox)
      (hsys : s.sys.step serde router .cast = some sys) :
      Move serde router s { s with sys, mailbox, handling := some request }
  | finish {sys : Sys α Ω} (hsys : s.sys.step serde router .finish = some sys) :
      Move serde router s
        { s with sys, handling := none, handled := s.handled ++ clientTexts s.handling.toList }
  | process {l : SysLabel Ω} {sys : Sys α Ω} (hsys : s.sys.step serde router l = some sys)
      (hcast : l ≠ .cast) (hfinish : l ≠ .finish) (hkill : l ≠ .kill) :
      Move serde router s
        { s with sys, mailbox := s.mailbox ++ (sys.casts.drop s.sys.casts.length).map (.addr, ·) }

/-- A turn at the stream with which the reader sends nothing. -/
theorem quiet_move {turn : WsWire.Label} {stream : Wire}
    (hturn : WsWire.step s.stream turn = some stream) (hmessage : ∀ text, turn ≠ .message text) :
    Move serde router s { s with stream } := by
  have hmove : Move serde router s
      { s with stream, wsMsg := s.wsMsg ++ [], accepted := s.accepted ++ [] } :=
    .stream [] hturn hmessage (Or.inl rfl)
  rw [List.append_nil, List.append_nil] at hmove
  exact hmove

theorem onStream_move {l : WsWire.Label} (h : s.onStream l = some s') : Move serde router s s' := by
  cases l with
  | message text => cases h
  | frame f =>
      simp only [Session.onStream] at h
      by_cases hgone : textsOf f ≠ [] ∧ s.relaying = false
      · rw [if_pos hgone] at h
        obtain ⟨stream, hturn, rfl⟩ := Option.map_eq_some_iff.mp h
        exact quiet_move hturn nofun
      · rw [if_neg hgone] at h
        obtain ⟨stream, hturn, rfl⟩ := Option.map_eq_some_iff.mp h
        refine .stream (textsOf f) hturn nofun ?_
        by_cases htexts : textsOf f = []
        · exact Or.inl htexts
        · exact Or.inr (by simpa [htexts] using hgone)
  | _ =>
      obtain ⟨stream, hturn, rfl⟩ := Option.map_eq_some_iff.mp h
      exact quiet_move hturn nofun

theorem kill_move (hrelaying : s.relaying = true) (wsMsg : List String)
    (h : { s with wsMsg }.kill serde router = some s') : Move serde router s s' := by
  obtain ⟨sys, hsys, rfl⟩ := Option.map_eq_some_iff.mp h
  exact .kill wsMsg hrelaying hsys

theorem relay_move (h : s.relay serde router = some s') : Move serde router s s' := by
  unfold Session.relay at h
  by_cases hrelaying : s.relaying = true
  · rw [if_pos hrelaying] at h
    split at h
    · rename_i text rest hmsg
      split at h
      · rename_i t hcast
        cases h
        obtain ⟨sys, hsys, rfl⟩ := Option.map_eq_some_iff.mp hcast
        exact .relay hmsg hsys
      · exact kill_move hrelaying rest h
    · split at h
      · exact kill_move hrelaying s.wsMsg h
      · cases h
  · rw [if_neg hrelaying] at h
    cases h

theorem process_move {l : SysLabel Ω} (h : s.process serde router l = some s') :
    Move serde router s s' := by
  cases l with
  | receive text => cases h
  | kill => cases h
  | cast =>
      simp only [Session.process] at h
      split at h
      · rename_i request mailbox hmailbox
        obtain ⟨sys, hsys, rfl⟩ := Option.map_eq_some_iff.mp h
        exact .cast hmailbox hsys
      · cases h
  | finish =>
      obtain ⟨sys, hsys, rfl⟩ := Option.map_eq_some_iff.mp h
      exact .finish hsys
  | _ =>
      simp only [Session.process] at h
      obtain ⟨sys, hsys, rfl⟩ := Option.map_eq_some_iff.mp h
      exact .process hsys nofun nofun nofun

theorem step_move {l : SessionLabel Ω} (h : s.step serde router l = some s') :
    Move serde router s s' := by
  cases l with
  | stream l => exact onStream_move h
  | recv =>
      simp only [Session.step, Session.recv] at h
      split at h
      · rename_i msg hmsg
        obtain ⟨stream, hturn, rfl⟩ := Option.map_eq_some_iff.mp h
        exact .recv hmsg hturn
      · cases h
  | relay => exact relay_move h
  | addr text =>
      obtain ⟨sys, hsys, rfl⟩ := Option.map_eq_some_iff.mp h
      exact .addr hsys
  | process l => exact process_move h

/-! ### The parts of a session -/

/-- The reader and the writer of a session make a run of the two tasks at the stream. -/
theorem stream_run {labels : List (SessionLabel Ω)}
    (h : (sessionSystem serde router).exec Session.init labels = some s) :
    ∃ turns, WsWire.system.exec WsWire.system.init turns = some s.stream := by
  refine Lts.exec_project (M := sessionSystem serde router) (N := WsWire.system)
    (f := Session.stream) rfl ?_ h
  intro s l s' hs
  show s'.stream = s.stream ∨ ∃ turn, WsWire.step s.stream turn = some s'.stream
  cases step_move hs with
  | stream _ hturn _ _ => exact Or.inr ⟨_, hturn⟩
  | recv _ hturn => exact Or.inr ⟨_, hturn⟩
  | _ => exact Or.inl rfl

/-- The process of a session and what it runs with make a run of their own. -/
theorem sys_run {labels : List (SessionLabel Ω)}
    (h : (sessionSystem serde router).exec Session.init labels = some s) :
    ∃ turns, (sysSystem serde router).exec Sys.init turns = some s.sys := by
  refine Lts.exec_project (M := sessionSystem serde router) (N := sysSystem serde router)
    (f := Session.sys) rfl ?_ h
  intro s l s' hs
  show s'.sys = s.sys ∨ ∃ turn, s.sys.step serde router turn = some s'.sys
  cases step_move hs with
  | stream _ _ _ _ => exact Or.inl rfl
  | recv _ _ => exact Or.inl rfl
  | relay _ hsys => exact Or.inr ⟨_, hsys⟩
  | kill _ _ hsys => exact Or.inr ⟨_, hsys⟩
  | addr hsys => exact Or.inr ⟨_, hsys⟩
  | cast _ hsys => exact Or.inr ⟨_, hsys⟩
  | finish hsys => exact Or.inr ⟨_, hsys⟩
  | process hsys _ _ _ => exact Or.inr ⟨_, hsys⟩

end

/-! ### Where the texts are -/

theorem clientTexts_append (rs rs' : List Request) :
    clientTexts (rs ++ rs') = clientTexts rs ++ clientTexts rs' := List.filterMap_append

@[simp] theorem clientTexts_client (text : String) : clientTexts [(.client, text)] = [text] := rfl

/-- What others cast is no text of the client. -/
theorem clientTexts_addr (texts : List String) : clientTexts (texts.map (.addr, ·)) = [] := by
  unfold clientTexts
  rw [List.filterMap_map, List.filterMap_eq_nil_iff]
  intro text _
  rfl

/-- What is on the way to `handle_cast`, or in it. -/
def Session.onTheWay (s : Session α Ω) : List String :=
  clientTexts s.handling.toList ++ (clientTexts s.mailbox ++ s.wsMsg)

structure Conserved (s : Session α Ω) : Prop where
  wired : s.sys.Wired
  /-- The record of the mailbox is the mailbox. -/
  mailbox : s.mailbox.map Prod.snd = s.sys.casts
  /-- A request is handled only by a process that is in a handler. -/
  busy : s.handling ≠ none → Busy s.sys.conn
  /-- Nothing is lost while `handle_websocket` runs, and nothing overtakes. -/
  flow : s.relaying = true → s.handled ++ s.onTheWay = s.accepted
  /-- Behind its last turn the process is gone. -/
  ended : s.relaying = false → s.sys.conn.stopped = true ∧ s.handling = none

theorem conserved_init : Conserved (Session.init : Session α Ω) where
  wired := wired_init
  mailbox := rfl
  busy h := absurd rfl h
  flow _ := rfl
  ended := nofun

variable [EmptyCollection α] {serde : SerdeJson} {router : ChannelRouter α Ω}
  {s s' : Session α Ω}

/-- A step of the process, or of what it runs with, that leaves the texts in their order. -/
theorem conserved_sys (ha : Conserved s) {l : SysLabel Ω} {sys : Sys α Ω}
    (hsys : s.sys.step serde router l = some sys) (hfinish : l ≠ .finish) (hkill : l ≠ .kill)
    {mailbox : List Request} {wsMsg : List String} (hmailbox : mailbox.map Prod.snd = sys.casts)
    (htexts : clientTexts mailbox ++ wsMsg = clientTexts s.mailbox ++ s.wsMsg) :
    Conserved { s with sys, mailbox, wsMsg } where
  wired := wired_step ha.wired hsys
  mailbox := hmailbox
  busy hhandling := busy_step ha.wired hsys hfinish hkill (ha.busy hhandling)
  flow hrelaying := by
    have hflow := ha.flow hrelaying
    unfold Session.onTheWay at hflow ⊢
    rw [← hflow, htexts]
  ended hreturned := by
    obtain ⟨hstopped, hhandling⟩ := ha.ended hreturned
    exact ⟨stopped_step ha.wired hsys hstopped, hhandling⟩

theorem conserved_relay (ha : Conserved s) {text : String} {rest : List String} {sys : Sys α Ω}
    (hmsg : s.wsMsg = text :: rest) (hsys : s.sys.step serde router (.receive text) = some sys) :
    Conserved { s with wsMsg := rest, sys, mailbox := s.mailbox ++ [(.client, text)] } := by
  refine conserved_sys ha hsys nofun nofun ?_ ?_
  · cases step_turn ha.wired.running hsys
    rw [List.map_append, ha.mailbox]
    rfl
  · rw [clientTexts_append, clientTexts_client, hmsg, List.append_assoc]
    rfl

theorem conserved_addr (ha : Conserved s) {text : String} {sys : Sys α Ω}
    (hsys : s.sys.step serde router (.receive text) = some sys) :
    Conserved { s with sys, mailbox := s.mailbox ++ [(.addr, text)] } := by
  refine conserved_sys ha hsys nofun nofun ?_ ?_
  · cases step_turn ha.wired.running hsys
    rw [List.map_append, ha.mailbox]
    rfl
  · have hnone : clientTexts [(.addr, text)] = [] := clientTexts_addr [text]
    rw [clientTexts_append, hnone, List.append_nil]

theorem conserved_process (ha : Conserved s) {l : SysLabel Ω} {sys : Sys α Ω}
    (hsys : s.sys.step serde router l = some sys) (hcast : l ≠ .cast) (hfinish : l ≠ .finish)
    (hkill : l ≠ .kill) :
    Conserved { s with
      sys
      mailbox := s.mailbox ++ (sys.casts.drop s.sys.casts.length).map (.addr, ·) } := by
  refine conserved_sys ha hsys hfinish hkill ?_ ?_
  · obtain ⟨added, hadded⟩ := casts_step ha.wired hsys hcast
    rw [← hadded, List.drop_left, List.map_append, ha.mailbox, List.map_map]
    congr 1
    exact List.map_id' added
  · rw [clientTexts_append, clientTexts_addr, List.append_nil]

/-- The process takes the first request of its mailbox, and was not handling any other. -/
theorem conserved_cast (ha : Conserved s) {request : Request} {mailbox : List Request}
    {sys : Sys α Ω} (hmailbox : s.mailbox = request :: mailbox)
    (hsys : s.sys.step serde router .cast = some sys) :
    Conserved { s with sys, mailbox, handling := some request } := by
  have hwired := wired_step ha.wired hsys
  have hmail := ha.mailbox
  rw [hmailbox] at hmail
  cases step_turn ha.wired.running hsys with
  | cast hcasts hwaiting =>
      obtain ⟨htodo, hrunning⟩ := waiting_iff.mp hwaiting
      have hresting : s.handling = none := by
        by_contra hhandling
        exact (ha.busy hhandling).1 htodo
      rw [hcasts] at hmail
      refine ⟨hwired, (List.cons.inj hmail).2, fun _ => ⟨nofun, hrunning⟩, ?_, ?_⟩
      · intro hrelaying
        have hflow := ha.flow hrelaying
        unfold Session.onTheWay at hflow ⊢
        rw [hresting, hmailbox, ← List.singleton_append, clientTexts_append] at hflow
        rw [← hflow, List.append_assoc]
        rfl
      · intro hreturned
        have hstopped := (ha.ended hreturned).1
        rw [hrunning] at hstopped
        cases hstopped

theorem conserved_finish (ha : Conserved s) {sys : Sys α Ω}
    (hsys : s.sys.step serde router .finish = some sys) :
    Conserved { s with
      sys
      handling := none
      handled := s.handled ++ clientTexts s.handling.toList } where
  wired := wired_step ha.wired hsys
  mailbox := by
    cases step_turn ha.wired.running hsys
    exact ha.mailbox
  busy h := absurd rfl h
  flow hrelaying := by
    have hflow := ha.flow hrelaying
    unfold Session.onTheWay at hflow ⊢
    rw [← hflow, List.append_assoc]
    rfl
  ended hreturned := ⟨stopped_step ha.wired hsys (ha.ended hreturned).1, rfl⟩

theorem conserved_kill (ha : Conserved s) (wsMsg : List String) {sys : Sys α Ω}
    (hsys : s.sys.step serde router .kill = some sys) :
    Conserved { s with wsMsg, sys, relaying := false, handling := none } where
  wired := wired_step ha.wired hsys
  mailbox := by
    cases step_turn ha.wired.running hsys
    exact ha.mailbox
  busy h := absurd rfl h
  flow := nofun
  ended _ := by
    cases step_turn ha.wired.running hsys
    exact ⟨rfl, rfl⟩

theorem conserved_step (ha : Conserved s) {l : SessionLabel Ω}
    (h : s.step serde router l = some s') : Conserved s' := by
  cases step_move h with
  | stream texts _ _ _ =>
      refine ⟨ha.wired, ha.mailbox, ha.busy, ?_, ha.ended⟩
      intro hrelaying
      have hflow := ha.flow hrelaying
      unfold Session.onTheWay at hflow ⊢
      rw [← hflow]
      simp only [List.append_assoc]
  | recv _ _ => exact ⟨ha.wired, ha.mailbox, ha.busy, ha.flow, ha.ended⟩
  | relay hmsg hsys => exact conserved_relay ha hmsg hsys
  | kill wsMsg _ hsys => exact conserved_kill ha wsMsg hsys
  | addr hsys => exact conserved_addr ha hsys
  | cast hmailbox hsys => exact conserved_cast ha hmailbox hsys
  | finish hsys => exact conserved_finish ha hsys
  | process hsys hcast hfinish hkill => exact conserved_process ha hsys hcast hfinish hkill

theorem conserved_run {labels : List (SessionLabel Ω)}
    (h : (sessionSystem serde router).exec Session.init labels = some s) : Conserved s :=
  Lts.exec_invariant (M := sessionSystem serde router) conserved_init
    (fun _ _ _ ha hs => conserved_step ha hs) h

/-! ### Behind the last turn of `handle_websocket` -/

/-- Nothing more is accepted, and nothing more is handled. -/
theorem frozen_step (ha : Conserved s) (hreturned : s.relaying = false) {l : SessionLabel Ω}
    (h : s.step serde router l = some s') :
    s'.relaying = false ∧ s'.accepted = s.accepted ∧ s'.handled = s.handled := by
  obtain ⟨hstopped, hhandling⟩ := ha.ended hreturned
  cases step_move h with
  | stream texts _ _ htexts =>
      rcases htexts with rfl | hrelaying
      · exact ⟨hreturned, List.append_nil _, rfl⟩
      · rw [hreturned] at hrelaying
        cases hrelaying
  | finish _ =>
      refine ⟨hreturned, rfl, ?_⟩
      show s.handled ++ clientTexts s.handling.toList = s.handled
      rw [hhandling]
      exact List.append_nil _
  | kill _ _ _ => exact ⟨rfl, rfl, rfl⟩
  | _ => exact ⟨hreturned, rfl, rfl⟩

theorem frozen_run (ha : Conserved s) (hreturned : s.relaying = false)
    {more : List (SessionLabel Ω)} {t : Session α Ω}
    (h : (sessionSystem serde router).exec s more = some t) :
    t.accepted = s.accepted ∧ t.handled = s.handled := by
  have hkept : Conserved t ∧ t.relaying = false ∧ t.accepted = s.accepted ∧ t.handled = s.handled := by
    refine Lts.exec_keeps (M := sessionSystem serde router)
      (I := fun t => Conserved t ∧ t.relaying = false ∧ t.accepted = s.accepted ∧
        t.handled = s.handled) ?_ ⟨ha, hreturned, rfl, rfl⟩ h
    rintro t l t' ⟨ht, hret, haccepted, hhandled⟩ hstep
    obtain ⟨hret', haccepted', hhandled'⟩ := frozen_step ht hret hstep
    exact ⟨conserved_step ht hstep, hret', haccepted'.trans haccepted, hhandled'.trans hhandled⟩
  exact hkept.2.2

/-- Only the last turn ends the relay, and it changes neither record. -/
theorem last_turn (hrelaying : s.relaying = true) {l : SessionLabel Ω}
    (h : s.step serde router l = some s') (hreturned : s'.relaying = false) :
    s'.accepted = s.accepted ∧ s'.handled = s.handled := by
  cases step_move h with
  | kill _ _ _ => exact ⟨rfl, rfl⟩
  | _ =>
      have : s.relaying = false := hreturned
      rw [hrelaying] at this
      cases this

/-- No text of the client is in a queue, or in `handle_cast`. -/
def Session.Drained (s : Session α Ω) : Prop :=
  s.wsMsg = [] ∧ clientTexts s.mailbox = [] ∧ clientTexts s.handling.toList = []

omit [EmptyCollection α] in
theorem onTheWay_eq_nil : s.onTheWay = [] ↔ s.Drained := by
  unfold Session.onTheWay Session.Drained
  rw [List.append_eq_nil_iff, List.append_eq_nil_iff]
  tauto

/-- What is handled is handled once and in order, whatever the schedule. -/
theorem handled_prefix {labels : List (SessionLabel Ω)}
    (h : (sessionSystem serde router).exec Session.init labels = some s) :
    s.handled <+: s.accepted := by
  have hkept : Conserved s ∧ s.handled <+: s.accepted := by
    refine Lts.exec_invariant (M := sessionSystem serde router)
      (I := fun s => Conserved s ∧ s.handled <+: s.accepted) ?_ ?_ h
    · exact ⟨conserved_init, List.prefix_rfl⟩
    · rintro s l s' ⟨ha, horder⟩ hstep
      have ha' := conserved_step ha hstep
      refine ⟨ha', ?_⟩
      by_cases hrelaying : s'.relaying = true
      · exact ⟨s'.onTheWay, ha'.flow hrelaying⟩
      · have hreturned : s'.relaying = false := by simpa using hrelaying
        by_cases hbefore : s.relaying = true
        · obtain ⟨haccepted, hhandled⟩ := last_turn hbefore hstep hreturned
          rw [haccepted, hhandled]
          exact horder
        · obtain ⟨-, haccepted, hhandled⟩ := frozen_step ha (by simpa using hbefore) hstep
          rw [haccepted, hhandled]
          exact horder
  exact hkept.2

/--
**No text is lost that has reached the end of its handler.**  In every run, at the
last turn of `handle_websocket`: every text that `ws_msg_tx.send` took has been
handled, once and in order, and this remains so whatever follows, if and only if
that turn finds no text of the client in `ws_msg`, in the mailbox of the process, or
in `handle_cast`.
-/
theorem accepted_handled_iff (serde : SerdeJson) (router : ChannelRouter α Ω)
    {labels : List (SessionLabel Ω)} {s s' : Session α Ω} {l : SessionLabel Ω}
    (h : (sessionSystem serde router).exec Session.init labels = some s)
    (hrelaying : s.relaying = true) (hlast : s.step serde router l = some s')
    (hreturned : s'.relaying = false) :
    (∀ more t, (sessionSystem serde router).exec s' more = some t → t.handled = t.accepted) ↔
      s.Drained := by
  have ha := conserved_run h
  have ha' := conserved_step ha hlast
  obtain ⟨haccepted, hhandled⟩ := last_turn hrelaying hlast hreturned
  have hflow := ha.flow hrelaying
  rw [← onTheWay_eq_nil]
  constructor
  · intro hall
    have hsame := hall [] s' rfl
    rw [haccepted, hhandled, ← hflow] at hsame
    exact List.self_eq_append_right.mp hsame
  · intro hnone more t hmore
    obtain ⟨htaccepted, hthandled⟩ := frozen_run ha' hreturned hmore
    rw [htaccepted, hthandled, haccepted, hhandled, ← hflow, hnone, List.append_nil]

/-- The reader parses a text, and later a CLOSE frame, which it answers; then it returns. -/
def textIn (text : String) : SessionLabel Unit :=
  .stream (.frame { opcode := opcodeText, payload := RustStd.asBytes text })
def closeIn : List (SessionLabel Unit) :=
  [.stream (.frame { opcode := opcodeClose, payload := [] }), .stream (.put .reader 4)]

/-- The process is done with the text before the client closes. -/
def sayThenClose : List (SessionLabel Unit) :=
  [textIn sayText, .relay, .process .cast, .process .finish] ++ closeIn

theorem accepted_handled_iff_say :
    ∃ s s', (sessionSystem roomSerde echoRouter).exec Session.init sayThenClose = some s ∧
      s.step roomSerde echoRouter .relay = some s' ∧ s'.sys.conn.stopped = true ∧
      s'.accepted = [sayText] ∧ s'.handled = [sayText] ∧
      ((∀ more t, (sessionSystem roomSerde echoRouter).exec s' more = some t →
        t.handled = t.accepted) ↔ s.Drained) := by
  have hrun : (((sessionSystem roomSerde echoRouter).exec Session.init sayThenClose).bind fun s =>
      (s.step roomSerde echoRouter .relay).map fun s' =>
        (s.relaying, s'.relaying, s'.sys.conn.stopped, s'.accepted, s'.handled))
      = some (true, false, true, [sayText], [sayText]) := by decide +kernel
  obtain ⟨s, hs, hlast⟩ := Option.bind_eq_some_iff.mp hrun
  obtain ⟨s', hs', hfacts⟩ := Option.map_eq_some_iff.mp hlast
  simp only [Prod.mk.injEq] at hfacts
  obtain ⟨hrelaying, hreturned, hstopped, haccepted, hhandled⟩ := hfacts
  exact ⟨s, s', hs, hs', hstopped, haccepted, hhandled,
    accepted_handled_iff roomSerde echoRouter hs hrelaying hs' hreturned⟩

/-- The text and the CLOSE frame arrive together, and the process has had no turn. -/
def sayAndClose : List (SessionLabel Unit) := textIn sayText :: closeIn ++ [.relay, .relay]

/-- The text was sent on `ws_msg_tx` and cast to the process, and is never handled. -/
theorem last_text_lost :
    ∃ s, (sessionSystem roomSerde echoRouter).exec Session.init sayAndClose = some s ∧
      s.relaying = false ∧ s.accepted = [sayText] ∧
      ∀ more t, (sessionSystem roomSerde echoRouter).exec s more = some t → t.handled = [] := by
  have hrun : ((sessionSystem roomSerde echoRouter).exec Session.init sayAndClose).map
      (fun s => (s.relaying, s.accepted, s.handled)) = some (false, [sayText], []) := by
    decide +kernel
  obtain ⟨s, hs, hfacts⟩ := Option.map_eq_some_iff.mp hrun
  simp only [Prod.mk.injEq] at hfacts
  obtain ⟨hreturned, haccepted, hhandled⟩ := hfacts
  refine ⟨s, hs, hreturned, haccepted, ?_⟩
  intro more t hmore
  rw [(frozen_run (conserved_run hs) hreturned hmore).2, hhandled]

end Mahalo.WsConnection
