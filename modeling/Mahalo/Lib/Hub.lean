/-
Topics, and what their subscribers get.

A hub gives every subscription a channel of its own.  A message for a topic goes to
the channels subscribed to it whose receiver is still there, and the others are
forgotten, so the senders of a topic are only a part of its subscriptions, but one
that has every live receiver.  `Follows` says that a hub agrees with a history of
subscriptions and messages, and each operation extends it: a live receiver has got
the messages of its topic behind its own subscription, once and in order.

A hub is given by what can be asked of it, so a component that keeps its topics in a
map and its channels in a list is one through a view.  What such a component does is
then an operation of the hub: a new channel in the list is a subscription, and a
`retain` over the senders of a topic publishes a message.
-/
import Mathlib.Data.List.AList
import Mahalo.Lib.History
import Mahalo.Lib.Mpsc

namespace Hub

open History

variable {T M : Type*}

@[ext]
structure State (T M : Type*) where
  /-- how many channels there are; they are numbered from 0 -/
  count : Nat
  senders : T → List Nat
  alive : Nat → Bool
  sent : Nat → List M

inductive Event (T M : Type*) where
  | subscribe (t : T)
  | publish (t : T) (m : M)

def State.init : State T M :=
  { count := 0, senders := fun _ => [], alive := fun _ => false, sent := fun _ => [] }

variable [DecidableEq T]

def State.subscribe (hub : State T M) (t : T) : State T M :=
  { count := hub.count + 1
    senders := fun t' => if t' = t then hub.senders t ++ [hub.count] else hub.senders t'
    alive := fun i => if i = hub.count then true else hub.alive i
    sent := fun i => if i = hub.count then [] else hub.sent i }

def State.publish (hub : State T M) (t : T) (m : M) : State T M :=
  { hub with
    senders := fun t' => if t' = t then (hub.senders t).filter hub.alive else hub.senders t'
    sent := fun i => if i ∈ hub.senders t ∧ hub.alive i then hub.sent i ++ [m] else hub.sent i }

omit [DecidableEq T] in
def State.drop (hub : State T M) (id : Nat) : State T M :=
  { hub with alive := fun i => if i = id then false else hub.alive i }

/-- A topic is forgotten, with all its senders. -/
def State.close (hub : State T M) (t : T) : State T M :=
  { hub with senders := fun t' => if t' = t then [] else hub.senders t' }

def State.apply (hub : State T M) : Event T M → State T M
  | .subscribe t => hub.subscribe t
  | .publish t m => hub.publish t m

/-- The topics subscribed to, in order. -/
def subscriptions (h : List (Event T M)) : List T :=
  h.filterMap fun
    | .subscribe t => some t
    | .publish .. => none

/-- The messages published on a topic. -/
def published (t : T) (h : List (Event T M)) : List M :=
  h.filterMap fun
    | .publish t' m => if t' = t then some m else none
    | .subscribe _ => none

def subscribersOf (t : T) (h : List (Event T M)) : List Nat := positions t (subscriptions h)

structure Follows (hub : State T M) (h : List (Event T M)) : Prop where
  count : hub.count = (subscriptions h).length
  pruned : ∀ t, (hub.senders t).Sublist (subscribersOf t h)
  listed : ∀ t, ∀ i ∈ subscribersOf t h, hub.alive i = true → i ∈ hub.senders t
  sent : ∀ pre t post, h = pre ++ .subscribe t :: post →
    hub.sent (subscriptions pre).length <+: published t post ∧
      (hub.alive (subscriptions pre).length = true →
        hub.sent (subscriptions pre).length = published t post)

variable {hub : State T M} {h : List (Event T M)} {t t' : T} {m : M}

omit [DecidableEq T] in
@[simp] theorem subscriptions_subscribe (h : List (Event T M)) (t : T) :
    subscriptions (h ++ [.subscribe t]) = subscriptions h ++ [t] := List.filterMap_append

omit [DecidableEq T] in
@[simp] theorem subscriptions_publish (h : List (Event T M)) (t : T) (m : M) :
    subscriptions (h ++ [.publish t m]) = subscriptions h :=
  List.filterMap_append.trans (List.append_nil _)

theorem published_append (t : T) (h h' : List (Event T M)) :
    published t (h ++ h') = published t h ++ published t h' := List.filterMap_append

@[simp] theorem published_subscribe (h : List (Event T M)) (t t' : T) :
    published t (h ++ [.subscribe t']) = published t h :=
  List.filterMap_append.trans (List.append_nil _)

theorem published_publish (h : List (Event T M)) (t t' : T) (m : M) :
    published t (h ++ [.publish t' m]) = published t h ++ if t' = t then [m] else [] := by
  unfold published
  rw [List.filterMap_append]
  by_cases ht : t' = t <;> simp [ht]

theorem mem_subscribersOf {i : Nat} : i ∈ subscribersOf t h ↔ (subscriptions h)[i]? = some t :=
  mem_positions

/-- A channel subscribed to two topics is one to the same. -/
theorem subscribersOf_unique {i : Nat} (hi : i ∈ subscribersOf t h) (hi' : i ∈ subscribersOf t' h) :
    t = t' := Option.some.inj ((mem_subscribersOf.mp hi).symm.trans (mem_subscribersOf.mp hi'))

/-- The channel that a subscription in the history made. -/
theorem opened_mem (pre : List (Event T M)) (t : T) (post : List (Event T M)) :
    (subscriptions pre).length ∈ subscribersOf t (pre ++ .subscribe t :: post) := by
  refine mem_subscribersOf.mpr ?_
  unfold subscriptions
  rw [List.filterMap_append, List.getElem?_append_right (Nat.le_refl _), Nat.sub_self]
  rfl

omit [DecidableEq T] in
theorem subscriptions_lt (pre : List (Event T M)) (t : T) (post : List (Event T M)) :
    (subscriptions pre).length < (subscriptions (pre ++ .subscribe t :: post)).length := by
  unfold subscriptions
  rw [List.filterMap_append, List.length_append, List.filterMap_cons]
  simp

theorem follows_init : Follows (State.init : State T M) [] where
  count := rfl
  pruned := fun _ => List.nil_sublist _
  listed := by
    intro t i _ hlive
    cases hlive
  sent := by
    intro pre t post hsplit
    exact absurd hsplit.symm (by simp)

theorem Follows.subscribe (hf : Follows hub h) (t : T) :
    Follows (hub.subscribe t) (h ++ [.subscribe t]) := by
  have hsubs : ∀ t', subscribersOf t' (h ++ [.subscribe t])
      = subscribersOf t' h ++ if t = t' then [hub.count] else [] := by
    intro t'
    unfold subscribersOf
    rw [subscriptions_subscribe, positions_concat, hf.count]
  refine ⟨?_, ?_, ?_, ?_⟩
  · rw [subscriptions_subscribe, List.length_append, ← hf.count]
    rfl
  · intro t'
    rw [hsubs]
    by_cases ht : t' = t
    · subst ht
      rw [if_pos rfl]
      show (if t' = t' then _ else _ : List Nat).Sublist _
      rw [if_pos rfl]
      exact (hf.pruned t').append (List.Sublist.refl _)
    · rw [if_neg (Ne.symm ht), List.append_nil]
      show (if t' = t then _ else _ : List Nat).Sublist _
      rw [if_neg ht]
      exact hf.pruned t'
  · intro t' i hi hlive
    rw [hsubs] at hi
    show i ∈ if t' = t then hub.senders t ++ [hub.count] else hub.senders t'
    rcases List.mem_append.mp hi with hold | hnew
    · have hne : i ≠ hub.count := by
        have := (List.getElem?_eq_some_iff.mp (mem_subscribersOf.mp hold)).1
        rw [hf.count]
        omega
      have hmem := hf.listed t' i hold (by simpa [State.subscribe, hne] using hlive)
      by_cases ht : t' = t
      · rw [if_pos ht]
        exact List.mem_append_left _ (ht ▸ hmem)
      · rw [if_neg ht]
        exact hmem
    · by_cases ht : t = t'
      · rw [if_pos ht] at hnew
        rw [if_pos ht.symm, List.mem_singleton.mp hnew]
        exact List.mem_append_right _ (List.mem_singleton_self _)
      · rw [if_neg ht] at hnew
        cases hnew
  · intro pre t' post hsplit
    rcases concat_eq_split hsplit with ⟨rfl, heq, rfl⟩ | ⟨post', rfl, rfl⟩
    · rw [← hf.count]
      have hnil : (hub.subscribe t).sent hub.count = [] := if_pos rfl
      rw [hnil]
      exact ⟨List.nil_prefix, fun _ => rfl⟩
    · have hne : (subscriptions pre).length ≠ hub.count := by
        rw [hf.count]
        exact Nat.ne_of_lt (subscriptions_lt pre t' post')
      have hsent : (hub.subscribe t).sent (subscriptions pre).length
          = hub.sent (subscriptions pre).length := if_neg hne
      have halive : (hub.subscribe t).alive (subscriptions pre).length
          = hub.alive (subscriptions pre).length := if_neg hne
      rw [hsent, halive, published_subscribe]
      exact hf.sent pre t' post' rfl

theorem Follows.publish (hf : Follows hub h) (t : T) (m : M) :
    Follows (hub.publish t m) (h ++ [.publish t m]) := by
  have hsubs : ∀ t', subscribersOf t' (h ++ [.publish t m]) = subscribersOf t' h := by
    intro t'
    unfold subscribersOf
    rw [subscriptions_publish]
  refine ⟨?_, ?_, ?_, ?_⟩
  · rw [subscriptions_publish]
    exact hf.count
  · intro t'
    rw [hsubs]
    show (if t' = t then _ else _ : List Nat).Sublist _
    by_cases ht : t' = t
    · rw [if_pos ht, ht]
      exact List.filter_sublist.trans (hf.pruned t)
    · rw [if_neg ht]
      exact hf.pruned t'
  · intro t' i hi hlive
    rw [hsubs] at hi
    have hmem := hf.listed t' i hi hlive
    show i ∈ if t' = t then (hub.senders t).filter hub.alive else hub.senders t'
    by_cases ht : t' = t
    · rw [if_pos ht]
      exact List.mem_filter.mpr ⟨ht ▸ hmem, hlive⟩
    · rw [if_neg ht]
      exact hmem
  · intro pre t' post hsplit
    rcases concat_eq_split hsplit with ⟨-, heq, -⟩ | ⟨post', rfl, rfl⟩
    · cases heq
    · obtain ⟨hfront, hall⟩ := hf.sent pre t' post' rfl
      have hopened := opened_mem pre t' post'
      generalize (subscriptions pre).length = i at hfront hall hopened ⊢
      rw [published_publish]
      show (if i ∈ hub.senders t ∧ hub.alive i then hub.sent i ++ [m] else hub.sent i) <+: _ ∧
        (hub.alive i = true → (if i ∈ hub.senders t ∧ hub.alive i then hub.sent i ++ [m] else hub.sent i) = _)
      by_cases ht : t = t'
      · subst ht
        rw [if_pos rfl]
        by_cases hlive : hub.alive i = true
        · rw [if_pos ⟨hf.listed t i hopened hlive, hlive⟩, hall hlive]
          exact ⟨List.prefix_rfl, fun _ => rfl⟩
        · rw [if_neg fun hboth => hlive hboth.2]
          exact ⟨hfront.trans (List.prefix_append _ _), fun hl => absurd hl hlive⟩
      · have hnot : ¬(i ∈ hub.senders t ∧ hub.alive i = true) := by
          intro hboth
          exact ht (subscribersOf_unique ((hf.pruned t).subset hboth.1) hopened)
        rw [if_neg ht, List.append_nil, if_neg hnot]
        exact ⟨hfront, hall⟩

theorem Follows.drop (hf : Follows hub h) (id : Nat) : Follows (hub.drop id) h := by
  have hold : ∀ i, (hub.drop id).alive i = true → hub.alive i = true := by
    intro i hlive
    have hlive : (if i = id then false else hub.alive i) = true := hlive
    by_cases hi : i = id
    · rw [if_pos hi] at hlive
      cases hlive
    · rw [if_neg hi] at hlive
      exact hlive
  exact {
    count := hf.count
    pruned := hf.pruned
    listed := fun t i hi hlive => hf.listed t i hi (hold i hlive)
    sent := fun pre t post hsplit =>
      ⟨(hf.sent pre t post hsplit).1, fun hlive => (hf.sent pre t post hsplit).2 (hold _ hlive)⟩ }

/-- A topic none of whose receivers is left can be forgotten. -/
theorem Follows.close (hf : Follows hub h) (hdeserted : ∀ i ∈ hub.senders t, hub.alive i = false) :
    Follows (hub.close t) h := by
  refine { count := hf.count, pruned := ?_, listed := ?_, sent := hf.sent }
  · intro t'
    show (if t' = t then [] else hub.senders t' : List Nat).Sublist _
    by_cases ht : t' = t
    · rw [if_pos ht]
      exact List.nil_sublist _
    · rw [if_neg ht]
      exact hf.pruned t'
  · intro t' i hi hlive
    have hmem := hf.listed t' i hi hlive
    show i ∈ if t' = t then [] else hub.senders t'
    by_cases ht : t' = t
    · have hdead := hdeserted i (ht ▸ hmem)
      rw [show hub.alive i = true from hlive] at hdead
      cases hdead
    · rw [if_neg ht]
      exact hmem

theorem Follows.apply (hf : Follows hub h) (e : Event T M) : Follows (hub.apply e) (h ++ [e]) := by
  cases e with
  | subscribe t => exact hf.subscribe t
  | publish t m => exact hf.publish t m

theorem Follows.foldl (hf : Follows hub h) (es : List (Event T M)) :
    Follows (es.foldl State.apply hub) (h ++ es) := by
  induction es generalizing hub h with
  | nil =>
      rw [List.append_nil]
      exact hf
  | cons e rest ih =>
      rw [List.foldl_cons, ← List.singleton_append, ← List.append_assoc]
      exact ih (hf.apply e)

/-! ### Channels in a list -/

/-- The hub of some channels, and of the senders of each topic. -/
def view (chans : List (Mpsc.Chan M)) (senders : T → List Nat) : State T M :=
  { count := chans.length, senders, alive := Mpsc.aliveAt chans, sent := Mpsc.sentOn chans }

theorem view_open {chans : List (Mpsc.Chan M)} {senders senders' : T → List Nat} {t : T}
    (h : ∀ t', senders' t' = if t' = t then senders t ++ [chans.length] else senders t') :
    view (chans ++ [{ alive := true, sent := [] }]) senders' = (view chans senders).subscribe t := by
  refine State.ext ?_ (funext h) ?_ ?_
  · exact List.length_append ..
  · funext id
    exact Mpsc.aliveAt_open ..
  · funext id
    exact Mpsc.sentOn_open ..

theorem view_retainSend {chans : List (Mpsc.Chan M)} {senders senders' : T → List Nat} {t : T} (m : M)
    (hnodup : (senders t).Nodup)
    (h : ∀ t', senders' t' = if t' = t then (Mpsc.retainSend m chans (senders t)).2 else senders t') :
    view (Mpsc.retainSend m chans (senders t)).1 senders' = (view chans senders).publish t m := by
  obtain ⟨hkept, hsent⟩ := Mpsc.retainSend_spec m (senders t) chans hnodup
  refine State.ext (Mpsc.retainSend_length ..) ?_ ?_ ?_
  · funext t'
    rw [show (view _ senders').senders t' = senders' t' from rfl, h, hkept]
    rfl
  · funext id
    exact Mpsc.aliveAt_of_getElem? (Mpsc.receives_alive m _) (hsent id)
  · funext id
    show Mpsc.sentOn (Mpsc.retainSend m chans (senders t)).1 id
      = if id ∈ senders t ∧ Mpsc.aliveAt chans id then Mpsc.sentOn chans id ++ [m] else Mpsc.sentOn chans id
    unfold Mpsc.sentOn Mpsc.aliveAt
    rw [hsent id]
    cases chans[id]? with
    | none => simp
    | some c => by_cases hid : id ∈ senders t <;> cases halive : c.alive <;>
        simp [Mpsc.Chan.receives, hid, halive]

omit [DecidableEq T] in
theorem view_drop (chans : List (Mpsc.Chan M)) (senders : T → List Nat) (id : Nat) :
    view (Mpsc.drop chans id) senders = (view chans senders).drop id := by
  refine State.ext ?_ rfl ?_ ?_
  · exact List.length_modify ..
  · funext j
    exact Mpsc.aliveAt_drop ..
  · funext j
    exact Mpsc.sentOn_drop ..

/-- A message for a topic without senders reaches nobody. -/
theorem publish_nobody {hub : State T M} {t : T} (h : hub.senders t = []) (m : M) :
    hub.publish t m = hub := by
  refine State.ext rfl ?_ rfl ?_
  · funext t'
    show (if t' = t then (hub.senders t).filter hub.alive else hub.senders t') = hub.senders t'
    by_cases ht : t' = t
    · rw [if_pos ht, ht, h, List.filter_nil]
    · rw [if_neg ht]
  · funext id
    show (if id ∈ hub.senders t ∧ hub.alive id then hub.sent id ++ [m] else hub.sent id) = hub.sent id
    rw [h, if_neg fun hboth => List.not_mem_nil hboth.1]

/-- Lists in a map; what is not in it has the empty list. -/
@[simp] theorem getD_lookup_insert {A : Type*} (map : AList fun _ : T => List A) (t t' : T) (xs : List A) :
    ((map.insert t xs).lookup t').getD [] = if t' = t then xs else (map.lookup t').getD [] := by
  by_cases h : t' = t
  · rw [h, AList.lookup_insert, if_pos rfl, Option.getD_some]
  · rw [AList.lookup_insert_ne h, if_neg h]

/-- No channel is twice among the senders of a topic. -/
theorem Follows.nodup (hf : Follows hub h) (t : T) : (hub.senders t).Nodup :=
  (hf.pruned t).nodup (positions_nodup t _)

end Hub
