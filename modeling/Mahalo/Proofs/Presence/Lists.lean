/-
The presence list.

The list of a topic is a keyed list: `Track` writes in it and `Untrack` deletes, so
it is the last-writer-wins map of the commands for its topic.  The diffs go out
through a hub.  `Agrees` says that the lists, the replies and the hub are those of the
commands handled so far, and every turn keeps it.
-/
import Mahalo.Lib.Hub
import Mahalo.Lib.Keyed
import Mahalo.Presence

namespace Mahalo.PresenceTracker

open History Keyed

/-! ### What the history asks for -/

/-- What the commands write in the list of a topic. -/
def writesOn (t : String) (h : List TrackerCommand) : List (Write PresenceEntry String) :=
  h.filterMap fun
    | .track topic entry => if topic = t then some (.put entry) else none
    | .untrack topic key => if topic = t then some (.delete key) else none
    | _ => none

/-- The list of a topic after some commands. -/
def listOf (t : String) (h : List TrackerCommand) : List PresenceEntry :=
  Keyed.entries PresenceEntry.key (writesOn t h)

/-- The reply channels of the `List` commands. -/
def asked (h : List TrackerCommand) : List Nat :=
  h.filterMap fun
    | .list _ reply => some reply
    | _ => none

/-- The diffs that announce a write in a list. -/
def diffsFor (t : String) (xs : List PresenceEntry) : Write PresenceEntry String → List PresenceDiff
  | .put e => [{ topic := t, joins := [e], leaves := [] }]
  | .delete k => (xs.find? (·.key = k)).toList.map fun e => { topic := t, joins := [], leaves := [e] }

theorem diffsFor_delete (t : String) (xs : List PresenceEntry) (k : String) :
    diffsFor t xs (.delete k)
      = (xs.find? (·.key = k)).toList.map fun e => { topic := t, joins := [], leaves := [e] } := rfl

def announced (t : String) : List PresenceEntry → List (Write PresenceEntry String) → List PresenceDiff
  | _, [] => []
  | xs, w :: rest => diffsFor t xs w ++ announced t (w.apply PresenceEntry.key xs) rest

/-- What a command, behind some others, does to the hub. -/
def eventsOf (pre : List TrackerCommand) : TrackerCommand → List (Hub.Event String PresenceDiff)
  | .track topic entry => (diffsFor topic (listOf topic pre) (.put entry)).map (.publish topic)
  | .untrack topic key => (diffsFor topic (listOf topic pre) (.delete key)).map (.publish topic)
  | .subscribe topic _ => [.subscribe topic]
  | _ => []

def events : List TrackerCommand → List TrackerCommand → List (Hub.Event String PresenceDiff)
  | _, [] => []
  | pre, cmd :: rest => eventsOf pre cmd ++ events (pre ++ [cmd]) rest

theorem events_append (pre h h' : List TrackerCommand) :
    events pre (h ++ h') = events pre h ++ events (pre ++ h) h' := by
  induction h generalizing pre with
  | nil => rw [List.append_nil]; rfl
  | cons c rest ih =>
      show eventsOf pre c ++ events (pre ++ [c]) (rest ++ h') = _
      rw [ih, List.append_assoc, List.singleton_append, ← List.append_assoc]
      rfl

theorem events_concat (pre h : List TrackerCommand) (cmd : TrackerCommand) :
    events pre (h ++ [cmd]) = events pre h ++ eventsOf (pre ++ h) cmd := by
  rw [events_append]
  exact congrArg (events pre h ++ ·) (List.append_nil _)

theorem writesOn_append (t : String) (h h' : List TrackerCommand) :
    writesOn t (h ++ h') = writesOn t h ++ writesOn t h' := List.filterMap_append

theorem listOf_concat (t : String) (h : List TrackerCommand) (cmd : TrackerCommand) :
    listOf t (h ++ [cmd]) = (writesOn t [cmd]).foldl (Write.apply PresenceEntry.key) (listOf t h) := by
  unfold listOf Keyed.entries
  rw [writesOn_append, List.foldl_append]

theorem listOf_nodup (t : String) (h : List TrackerCommand) :
    ((listOf t h).map PresenceEntry.key).Nodup := (entries_lww _).nodup

/-- The diffs of a topic are those of the writes in its list. -/
theorem published_events (t : String) (pre h : List TrackerCommand) :
    Hub.published t (events pre h) = announced t (listOf t pre) (writesOn t h) := by
  have hmaps : ∀ (t' : String) (ds : List PresenceDiff),
      Hub.published t (ds.map (Hub.Event.publish t')) = if t' = t then ds else [] := by
    intro t' ds
    unfold Hub.published
    rw [List.filterMap_map]
    by_cases ht : t' = t
    · rw [if_pos ht]
      exact (List.filterMap_congr fun d _ => if_pos ht).trans List.filterMap_some
    · rw [if_neg ht, List.filterMap_eq_nil_iff]
      exact fun d _ => if_neg ht
  induction h generalizing pre with
  | nil => rfl
  | cons cmd rest ih =>
      have hlist := listOf_concat t pre cmd
      show Hub.published t (eventsOf pre cmd ++ events (pre ++ [cmd]) rest)
        = announced t (listOf t pre) (writesOn t ([cmd] ++ rest))
      rw [Hub.published_append, ih, hlist, writesOn_append]
      cases cmd with
      | track topic entry =>
          unfold eventsOf
          rw [hmaps]
          by_cases ht : topic = t
          · subst ht
            simp [writesOn, announced]
          · simp [writesOn, ht]
      | untrack topic key =>
          unfold eventsOf
          rw [hmaps]
          by_cases ht : topic = t
          · subst ht
            simp [writesOn, announced]
          · simp [writesOn, ht]
      | list topic reply => rfl
      | subscribe topic reply => rfl
      | shutdown => rfl

/-! ### The list is a keyed list -/

theorem upsert_eq_put (xs : List PresenceEntry) (e : PresenceEntry) :
    upsert xs e = put PresenceEntry.key e xs := by
  induction xs with
  | nil => rfl
  | cons x rest ih =>
      unfold upsert put
      unfold upsert at ih
      rw [List.findIdx?_cons]
      by_cases hx : x.key = e.key
      · simp [hx]
      · rw [if_neg hx, ← ih]
        simp only [hx, decide_false, Bool.false_eq_true, if_false]
        cases rest.findIdx? (·.key = e.key) <;> rfl

theorem eraseIdx_eq_delete {xs : List PresenceEntry} {k : String} {idx : Nat}
    (h : xs.findIdx? (·.key = k) = some idx) :
    xs.eraseIdx idx = delete PresenceEntry.key k xs ∧ xs[idx]? = xs.find? (·.key = k) := by
  induction xs generalizing idx with
  | nil => cases h
  | cons x rest ih =>
      rw [List.findIdx?_cons] at h
      unfold delete
      by_cases hx : x.key = k
      · simp only [hx, decide_true, if_true, Option.some.injEq] at h
        subst h
        simp [hx]
      · simp only [hx, decide_false, Bool.false_eq_true, if_false, Option.map_eq_some_iff] at h
        obtain ⟨j, hj, rfl⟩ := h
        obtain ⟨herase, hget⟩ := ih hj
        rw [List.eraseP_cons_of_neg (by simpa using hx), List.find?_cons_of_neg (by simpa using hx)]
        exact ⟨congrArg (x :: ·) herase, hget⟩

/-! ### What a turn does -/

@[simp] theorem notifySubscribers_handled (s : PresenceTracker) (t : String) (diff : PresenceDiff) :
    (s.notifySubscribers t diff).handled = s.handled := by
  unfold notifySubscribers
  split <;> rfl

@[simp] theorem notifySubscribers_lists (s : PresenceTracker) (t : String) (diff : PresenceDiff) :
    (s.notifySubscribers t diff).lists = s.lists := by
  unfold notifySubscribers
  split <;> rfl

@[simp] theorem notifySubscribers_receivers (s : PresenceTracker) (t : String) (diff : PresenceDiff) :
    (s.notifySubscribers t diff).receivers = s.receivers := by
  unfold notifySubscribers
  split <;> rfl

@[simp] theorem notifySubscribers_entries (s : PresenceTracker) (t : String) (diff : PresenceDiff)
    (t' : String) : (s.notifySubscribers t diff).entries t' = s.entries t' := by
  unfold notifySubscribers
  split <;> rfl

/-- What was sent on a channel. -/
def sentOn (s : PresenceTracker) (id : Nat) : List PresenceDiff := Mpsc.sentOn s.chans id

/-- The tracker's channels as a hub. -/
def hub (s : PresenceTracker) : Hub.State String PresenceDiff :=
  { count := s.chans.length
    senders := fun t => (s.subscribers.lookup t).getD []
    alive := Mpsc.aliveAt s.chans
    sent := s.sentOn }

theorem hub_notify (s : PresenceTracker) (t : String) (diff : PresenceDiff)
    (hnodup : (s.hub.senders t).Nodup) : (s.notifySubscribers t diff).hub = s.hub.publish t diff := by
  unfold notifySubscribers
  cases hsubs : s.subscribers.lookup t with
  | none =>
      refine (Hub.publish_nobody ?_ diff).symm
      show (s.subscribers.lookup t).getD [] = []
      rw [hsubs, Option.getD_none]
  | some subs =>
      have hsome : (s.subscribers.lookup t).getD [] = subs := by
        rw [hsubs, Option.getD_some]
      rw [← hsome]
      exact Hub.view_retainSend diff hnodup fun _ => Hub.getD_lookup_insert ..

theorem hub_subscribe (s : PresenceTracker) (t : String) (r : Nat) :
    (s.handle (.subscribe t r)).1.hub = s.hub.subscribe t :=
  Hub.view_open fun _ => Hub.getD_lookup_insert ..

theorem hub_drop (s : PresenceTracker) (id : Nat) :
    ({ s with chans := Mpsc.drop s.chans id } : PresenceTracker).hub = s.hub.drop id :=
  Hub.view_drop ..

/-- The two things that an `Untrack` may do. -/
theorem handle_untrack (s : PresenceTracker) (topic key : String) :
    ((∀ x ∈ s.entries topic, x.key ≠ key) ∧ s.handle (.untrack topic key) = (s, false)) ∨
    ∃ e, (s.entries topic).find? (·.key = key) = some e ∧
      s.handle (.untrack topic key)
        = ({ s with
              state := s.state.insert topic (delete PresenceEntry.key key (s.entries topic)) }.notifySubscribers
            topic { topic, joins := [], leaves := [e] }, false) := by
  unfold handle
  dsimp only
  split
  · rename_i xs hlook
    have hxs : s.entries topic = xs := by
      unfold entries
      rw [hlook]
      rfl
    rw [hxs]
    split
    · rename_i idx hidx
      right
      obtain ⟨herase, hget⟩ := eraseIdx_eq_delete hidx
      have hlt : idx < xs.length := (List.findIdx?_eq_some_iff_findIdx_eq.mp hidx).1
      rw [List.getElem?_eq_getElem hlt] at hget ⊢
      exact ⟨xs[idx], hget.symm, by rw [herase]; rfl⟩
    · rename_i hidx
      exact Or.inl ⟨fun x hx => by simpa using List.findIdx?_eq_none_iff.mp hidx x hx, rfl⟩
  · rename_i hlook
    have hnil : s.entries topic = [] := by
      unfold entries
      rw [hlook]
      rfl
    left
    rw [hnil]
    exact ⟨fun x hx => absurd hx List.not_mem_nil, rfl⟩

/-- A turn takes out the first command and handles it. -/
theorem serve_some {s s' : PresenceTracker} (h : s.serve = some s') :
    ∃ cmd queue, s.queue = cmd :: queue ∧
      s' = { (({ s with queue, handled := s.handled ++ [cmd] } : PresenceTracker).handle cmd).1 with
        running := !(({ s with queue, handled := s.handled ++ [cmd] } : PresenceTracker).handle cmd).2 } := by
  unfold serve at h
  split at h
  · rename_i cmd queue _ hqueue
    exact ⟨cmd, queue, hqueue, (Option.some.inj h).symm⟩
  · cases h

theorem handle_handled (s : PresenceTracker) (cmd : TrackerCommand) :
    (s.handle cmd).1.handled = s.handled := by
  cases cmd with
  | untrack topic key =>
      rcases handle_untrack s topic key with ⟨-, heq⟩ | ⟨e, -, heq⟩ <;> rw [heq]
      exact notifySubscribers_handled ..
  | track topic entry => exact notifySubscribers_handled ..
  | list topic reply => rfl
  | subscribe topic reply => rfl
  | shutdown => rfl

theorem handle_receivers (s : PresenceTracker) (cmd : TrackerCommand) {x : Nat × Nat}
    (h : x ∈ s.receivers) : x ∈ (s.handle cmd).1.receivers := by
  cases cmd with
  | untrack topic key =>
      rcases handle_untrack s topic key with ⟨-, heq⟩ | ⟨e, -, heq⟩ <;> rw [heq]
      · exact h
      · rwa [notifySubscribers_receivers]
  | track topic entry => exact (notifySubscribers_receivers ..).symm ▸ h
  | list topic reply => exact h
  | subscribe topic reply => exact List.mem_append_left _ h
  | shutdown => exact h

/-- What is sent back for a `List`. -/
def answers (s : PresenceTracker) : TrackerCommand → List (Nat × List PresenceEntry)
  | .list topic reply => [(reply, s.entries topic)]
  | _ => []

theorem handle_lists (s : PresenceTracker) (cmd : TrackerCommand) :
    (s.handle cmd).1.lists = s.lists ++ s.answers cmd := by
  cases cmd with
  | untrack topic key =>
      rcases handle_untrack s topic key with ⟨-, heq⟩ | ⟨e, -, heq⟩ <;> rw [heq]
      · exact (List.append_nil _).symm
      · rw [notifySubscribers_lists]
        exact (List.append_nil _).symm
  | track topic entry =>
      refine (notifySubscribers_lists ..).trans ?_
      exact (List.append_nil _).symm
  | list topic reply => rfl
  | subscribe topic reply => exact (List.append_nil _).symm
  | shutdown => exact (List.append_nil _).symm

theorem entries_insert (s : PresenceTracker) (t t' : String) (xs : List PresenceEntry) :
    ({ s with state := s.state.insert t xs } : PresenceTracker).entries t'
      = if t' = t then xs else s.entries t' := Hub.getD_lookup_insert ..

/-- **A command changes the list of its topic as its write says, and no other list.** -/
theorem handle_entries (s : PresenceTracker) (cmd : TrackerCommand) (t : String) :
    (s.handle cmd).1.entries t
      = (writesOn t [cmd]).foldl (Write.apply PresenceEntry.key) (s.entries t) := by
  cases cmd with
  | track topic entry =>
      show (({ s with state := s.state.insert topic (upsert (s.entries topic) entry) } :
        PresenceTracker).notifySubscribers topic _).entries t = _
      rw [notifySubscribers_entries, entries_insert, upsert_eq_put]
      by_cases ht : topic = t
      · simp [writesOn, ht, Write.apply]
      · simp [writesOn, ht, Ne.symm ht]
  | untrack topic key =>
      have hwrites : (writesOn t [.untrack topic key]).foldl (Write.apply PresenceEntry.key) (s.entries t)
          = if topic = t then delete PresenceEntry.key key (s.entries t) else s.entries t := by
        by_cases ht : topic = t <;> simp [writesOn, ht, Write.apply]
      rw [hwrites]
      rcases handle_untrack s topic key with ⟨hnone, heq⟩ | ⟨e, -, heq⟩ <;> rw [heq]
      · by_cases ht : topic = t
        · subst ht
          rw [if_pos rfl, delete_absent]
          intro hmem
          obtain ⟨x, hx, hkey⟩ := List.mem_map.mp hmem
          exact hnone x hx hkey
        · rw [if_neg ht]
      · rw [notifySubscribers_entries, entries_insert]
        by_cases ht : topic = t
        · rw [if_pos ht.symm, if_pos ht, ht]
        · rw [if_neg (Ne.symm ht), if_neg ht]
  | list topic reply => rfl
  | subscribe topic reply => rfl
  | shutdown => rfl

/-- **A command does to the channels what its diffs and its `Subscribe` say.** -/
theorem handle_hub (s : PresenceTracker) (cmd : TrackerCommand) {pre : List TrackerCommand}
    (hlists : ∀ t, s.entries t = listOf t pre) (hnodup : ∀ t, (s.hub.senders t).Nodup) :
    (s.handle cmd).1.hub = (eventsOf pre cmd).foldl Hub.State.apply s.hub := by
  cases cmd with
  | track topic entry => exact hub_notify _ topic _ (hnodup topic)
  | untrack topic key =>
      have hevents : eventsOf pre (.untrack topic key)
          = (diffsFor topic (s.entries topic) (.delete key)).map (.publish topic) := by
        rw [hlists]
        rfl
      rw [hevents, diffsFor_delete]
      rcases handle_untrack s topic key with ⟨hnone, heq⟩ | ⟨e, hfind, heq⟩ <;> rw [heq]
      · rw [List.find?_eq_none.mpr fun x hx => by simpa using hnone x hx]
        rfl
      · rw [hfind]
        exact hub_notify _ topic _ (hnodup topic)
  | list topic reply => rfl
  | subscribe topic reply => exact hub_subscribe s topic reply
  | shutdown => rfl

/-! ### The invariant -/

/-- The tracker agrees with the commands it has handled. -/
structure Agrees (s : PresenceTracker) : Prop where
  lists : ∀ t, s.entries t = listOf t s.handled
  count : s.lists.length = (asked s.handled).length
  /-- every `List` was answered with the list at its time -/
  answered : ∀ pre t r post, s.handled = pre ++ .list t r :: post →
    s.lists[(asked pre).length]? = some (r, listOf t pre)
  hub : Hub.Follows s.hub (events [] s.handled)

theorem agrees_start : Agrees start where
  lists := fun _ => rfl
  count := rfl
  answered := by
    intro pre t r post hsplit
    exact absurd hsplit.symm (by simp [start])
  hub := Hub.follows_init

/-- The step lemma for a turn of the tracker. -/
theorem Agrees.handle {s : PresenceTracker} (h : Agrees s) (cmd : TrackerCommand)
    (queue : List TrackerCommand) :
    Agrees (({ s with queue, handled := s.handled ++ [cmd] } : PresenceTracker).handle cmd).1 := by
  refine ⟨?_, ?_, ?_, ?_⟩
  · intro t
    rw [handle_entries, handle_handled, listOf_concat, ← h.lists t]
    rfl
  · rw [handle_lists, handle_handled]
    show (s.lists ++ _).length = (asked (s.handled ++ [cmd])).length
    unfold asked
    rw [List.length_append, List.filterMap_append, List.length_append, h.count]
    cases cmd <;> rfl
  · intro pre t r post hsplit
    rw [handle_handled] at hsplit
    rw [handle_lists]
    show (s.lists ++ _)[_]? = _
    rcases concat_eq_split hsplit with ⟨-, rfl, rfl⟩ | ⟨post', -, hold⟩
    · rw [List.getElem?_append_right (Nat.le_of_eq h.count), h.count, Nat.sub_self, ← h.lists t]
      rfl
    · have hget := h.answered pre t r post' hold
      rw [List.getElem?_append_left (List.getElem?_eq_some_iff.mp hget).1, hget]
  · rw [handle_hub ({ s with queue, handled := s.handled ++ [cmd] }) cmd h.lists h.hub.nodup,
      handle_handled, events_concat]
    exact h.hub.foldl _

theorem agrees_step (s : PresenceTracker) (l : Label) (s' : PresenceTracker) (h : Agrees s)
    (hs : system.step s l = some s') : Agrees s' := by
  cases l with
  | send cmd =>
      obtain rfl := Option.some.inj hs
      unfold send
      split
      · exact ⟨h.lists, h.count, h.answered, h.hub⟩
      · exact h
  | serve =>
      obtain ⟨cmd, queue, -, rfl⟩ := serve_some hs
      have hturn := h.handle cmd queue
      exact ⟨hturn.lists, hturn.count, hturn.answered, hturn.hub⟩
  | hangup =>
      obtain ⟨-, hs⟩ := Option.ite_none_right_eq_some.mp hs
      obtain rfl := Option.some.inj hs
      exact ⟨h.lists, h.count, h.answered, h.hub⟩
  | drop id =>
      obtain rfl := Option.some.inj hs
      exact ⟨h.lists, h.count, h.answered, hub_drop s id ▸ h.hub.drop id⟩

/-- The run lemma. -/
theorem agrees_run {ls : List Label} {s : PresenceTracker}
    (h : system.exec system.init ls = some s) : Agrees s :=
  Lts.exec_invariant agrees_start agrees_step h

/-! ### The list -/

/--
**The list of a topic is a last-writer-wins map.**  In every run, every `List` is
answered with the entries of the keys whose last command on the topic was a `Track`,
in the order of their first `Track`; in any other run with the same `Track`s and
`Untrack`s on the topic before it, a `List` is answered with the same.
-/
theorem list_is_lww {ls : List Label} {s : PresenceTracker} (h : system.exec system.init ls = some s)
    {pre post : List TrackerCommand} {t : String} {r : Nat}
    (hsplit : s.handled = pre ++ .list t r :: post) :
    ∃ xs, s.lists[(asked pre).length]? = some (r, xs) ∧
      Lww PresenceEntry.key (writesOn t pre) xs ∧
      ∀ (ls' : List Label) (s' : PresenceTracker), system.exec system.init ls' = some s' →
        ∀ pre' r' post', s'.handled = pre' ++ .list t r' :: post' →
          writesOn t pre' = writesOn t pre →
          s'.lists[(asked pre').length]? = some (r', xs) := by
  refine ⟨listOf t pre, (agrees_run h).answered pre t r post hsplit, entries_lww _, ?_⟩
  intro ls' s' h' pre' r' post' hsplit' hsame
  have hlist : listOf t pre' = listOf t pre := by
    unfold listOf
    rw [hsame]
  rw [(agrees_run h').answered pre' t r' post' hsplit', hlist]

theorem list_is_lww_once : ∃ s xs,
    system.exec system.init [.send (({ nodeId := 1 } : Presence).track "room:1" "user:1" .null), .serve,
        .send (({ nodeId := 1 } : Presence).list "room:1" 0), .serve] = some s ∧
      s.lists[0]? = some (0, xs) ∧
      Lww PresenceEntry.key [.put { key := "user:1", metadata := .null, nodeId := 1 }] xs := by
  have h : system.exec system.init [.send (({ nodeId := 1 } : Presence).track "room:1" "user:1" .null),
      .serve, .send (({ nodeId := 1 } : Presence).list "room:1" 0), .serve] = some _ := rfl
  obtain ⟨xs, hxs, hlww, -⟩ := list_is_lww h
    (show _ = [({ nodeId := 1 } : Presence).track "room:1" "user:1" .null] ++ .list "room:1" 0 :: [] from rfl)
  exact ⟨_, xs, h, hxs, hlww⟩

end Mahalo.PresenceTracker
