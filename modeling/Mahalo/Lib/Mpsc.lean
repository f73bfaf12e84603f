/-
Unbounded channels with one receiver each.

A send puts a message on its channel as long as the receiver is there, and fails
without a trace once it is gone.  Publishers keep their senders in a list and send
with `retain`, so a sender whose receiver is gone is forgotten at the next message.
A channel is named by its place among all that were ever made.
-/
import Mathlib.Data.List.Nodup

namespace Mpsc

variable {M : Type*}

/-- A channel: whether its receiver exists, and what was sent on it. -/
structure Chan (M : Type*) where
  alive : Bool
  sent : List M

/-- `tx.send(msg)`: the channels afterwards, or nothing if the receiver is gone. -/
def trySend (chans : List (Chan M)) (id : Nat) (msg : M) : Option (List (Chan M)) :=
  match chans[id]? with
  | some c => if c.alive then some (chans.set id { c with sent := c.sent ++ [msg] }) else none
  | none => none

/-- `senders.retain(|tx| tx.send(msg.clone()).is_ok())` -/
def retainSend (msg : M) : List (Chan M) → List Nat → List (Chan M) × List Nat
  | chans, [] => (chans, [])
  | chans, id :: rest =>
      match trySend chans id msg with
      | some chans' => ((retainSend msg chans' rest).1, id :: (retainSend msg chans' rest).2)
      | none => retainSend msg chans rest

/-- The receiver of a channel is dropped. -/
def drop (chans : List (Chan M)) (id : Nat) : List (Chan M) :=
  chans.modify id fun c => { c with alive := false }

def aliveAt (chans : List (Chan M)) (id : Nat) : Bool := chans[id]?.any (·.alive)

/-- What was sent on a channel. -/
def sentOn (chans : List (Chan M)) (id : Nat) : List M := (chans[id]?.map (·.sent)).getD []

variable {chans chans' : List (Chan M)} {id : Nat} {msg : M}

theorem aliveAt_eq {c : Chan M} (hc : chans[id]? = some c) : aliveAt chans id = c.alive := by
  unfold aliveAt
  rw [hc]
  rfl

theorem sentOn_eq {c : Chan M} (hc : chans[id]? = some c) : sentOn chans id = c.sent := by
  unfold sentOn
  rw [hc]
  rfl

theorem trySend_live {c : Chan M} (hc : chans[id]? = some c) (h : c.alive = true) :
    trySend chans id msg = some (chans.set id { c with sent := c.sent ++ [msg] }) := by
  unfold trySend
  rw [hc]
  exact if_pos h

theorem trySend_dead (h : aliveAt chans id = false) : trySend chans id msg = none := by
  unfold trySend
  unfold aliveAt at h
  cases hc : chans[id]? with
  | none => rfl
  | some c =>
      rw [hc] at h
      exact if_neg (by simpa using h)

/-- What one message does to the channels it goes to. -/
def Chan.receives (msg : M) (sentTo : Bool) (c : Chan M) : Chan M :=
  if sentTo && c.alive then { c with sent := c.sent ++ [msg] } else c

@[simp] theorem receives_alive (msg : M) (sentTo : Bool) (c : Chan M) :
    (c.receives msg sentTo).alive = c.alive := by
  unfold Chan.receives
  split <;> rfl

theorem receives_false (msg : M) (c : Chan M) : c.receives msg false = c := rfl

theorem receives_live {c : Chan M} (h : c.alive = true) (msg : M) :
    c.receives msg true = { c with sent := c.sent ++ [msg] } := if_pos (by simpa using h)

theorem receives_dead {c : Chan M} (h : c.alive = false) (msg : M) (sentTo : Bool) :
    c.receives msg sentTo = c := if_neg (by simp [h])

theorem aliveAt_of_getElem? {f : Chan M → Chan M} (hf : ∀ c, (f c).alive = c.alive) {j : Nat}
    (h : chans'[j]? = chans[j]?.map f) : aliveAt chans' j = aliveAt chans j := by
  unfold aliveAt
  rw [h]
  cases chans[j]? with
  | none => rfl
  | some c => exact hf c

/-- **`retain` keeps the live senders, and each of them gets the message once.** -/
theorem retainSend_spec (msg : M) :
    ∀ (ids : List Nat) (chans : List (Chan M)), ids.Nodup →
      (retainSend msg chans ids).2 = ids.filter (aliveAt chans) ∧
      ∀ j, (retainSend msg chans ids).1[j]? = chans[j]?.map (Chan.receives msg (j ∈ ids)) := by
  intro ids
  induction ids with
  | nil =>
      intro chans _
      refine ⟨rfl, fun j => ?_⟩
      cases h : chans[j]? <;> simp [retainSend, receives_false, h]
  | cons id rest ih =>
      intro chans hnodup
      obtain ⟨hnot, hnodup⟩ := List.nodup_cons.mp hnodup
      cases hlive : aliveAt chans id with
      | false =>
          obtain ⟨hkept, hsent⟩ := ih chans hnodup
          unfold retainSend
          simp only [trySend_dead hlive]
          refine ⟨by rw [hkept, List.filter_cons_of_neg (by rw [hlive]; decide)], fun j => ?_⟩
          rw [hsent j]
          by_cases hj : j = id
          · subst hj
            cases hc : chans[j]? with
            | none => rfl
            | some c =>
                have hdead : c.alive = false := by simpa [aliveAt, hc] using hlive
                rw [Option.map_some, Option.map_some, receives_dead hdead, receives_dead hdead]
          · simp [hj]
      | true =>
          obtain ⟨c, hc, halive⟩ : ∃ c, chans[id]? = some c ∧ c.alive = true := by
            simpa [aliveAt, Option.any_eq_true] using hlive
          obtain ⟨hkept, hsent⟩ := ih (chans.set id { c with sent := c.sent ++ [msg] }) hnodup
          have hset : ∀ j, (chans.set id { c with sent := c.sent ++ [msg] })[j]?
              = chans[j]?.map (Chan.receives msg (j = id)) := by
            intro j
            rw [List.getElem?_set]
            by_cases hj : id = j
            · subst hj
              rw [if_pos rfl, if_pos (List.getElem?_eq_some_iff.mp hc).1, hc, decide_eq_true rfl,
                Option.map_some, receives_live halive]
            · rw [if_neg hj, decide_eq_false (Ne.symm hj)]
              cases chans[j]? <;> rfl
          unfold retainSend
          simp only [trySend_live hc halive]
          constructor
          · rw [hkept, List.filter_cons_of_pos hlive]
            refine congrArg (id :: ·) (List.filter_congr fun j _ => ?_)
            exact aliveAt_of_getElem? (receives_alive msg _) (hset j)
          · intro j
            rw [hsent j, hset j]
            by_cases hj : j = id
            · subst hj
              rw [decide_eq_true rfl, decide_eq_false hnot]
              cases chans[j]? <;> simp [receives_false]
            · rw [decide_eq_false hj]
              cases chans[j]? <;> simp [receives_false, hj]

theorem retainSend_length (msg : M) (ids : List Nat) (chans : List (Chan M)) :
    (retainSend msg chans ids).1.length = chans.length := by
  induction ids generalizing chans with
  | nil => rfl
  | cons id rest ih =>
      unfold retainSend
      cases hsend : trySend chans id msg with
      | none => exact ih chans
      | some chans' =>
          refine (ih chans').trans ?_
          unfold trySend at hsend
          split at hsend
          · split at hsend
            · cases hsend
              exact List.length_set
            · cases hsend
          · cases hsend

theorem getElem?_drop (chans : List (Chan M)) (id j : Nat) :
    (drop chans id)[j]? = chans[j]?.map fun c => if j = id then { c with alive := false } else c := by
  unfold drop
  rw [List.getElem?_modify]
  by_cases hj : id = j
  · subst hj
    cases chans[id]? <;> simp
  · cases chans[j]? <;> simp [hj, Ne.symm hj]

@[simp] theorem sentOn_drop (chans : List (Chan M)) (id j : Nat) :
    sentOn (drop chans id) j = sentOn chans j := by
  unfold sentOn
  rw [getElem?_drop]
  cases chans[j]? with
  | none => rfl
  | some c => by_cases hj : j = id <;> simp [hj]

theorem aliveAt_drop (chans : List (Chan M)) (id j : Nat) :
    aliveAt (drop chans id) j = if j = id then false else aliveAt chans j := by
  unfold aliveAt
  rw [getElem?_drop]
  by_cases hj : j = id
  · rw [if_pos hj]
    cases chans[j]? <;> simp [hj]
  · rw [if_neg hj]
    cases chans[j]? <;> simp [hj]

theorem getElem?_open (chans : List (Chan M)) (j : Nat) :
    (chans ++ [({ alive := true, sent := [] } : Chan M)])[j]?
      = if j = chans.length then some { alive := true, sent := [] } else chans[j]? := by
  rcases Nat.lt_trichotomy j chans.length with hlt | rfl | hgt
  · rw [List.getElem?_append_left hlt, if_neg (Nat.ne_of_lt hlt)]
  · rw [List.getElem?_concat_length, if_pos rfl]
  · rw [if_neg (Nat.ne_of_gt hgt), List.getElem?_eq_none (Nat.le_of_lt hgt),
      List.getElem?_eq_none (by simp only [List.length_append, List.length_singleton]; omega)]

theorem sentOn_open (chans : List (Chan M)) (j : Nat) :
    sentOn (chans ++ [({ alive := true, sent := [] } : Chan M)]) j
      = if j = chans.length then [] else sentOn chans j := by
  unfold sentOn
  rw [getElem?_open]
  by_cases hj : j = chans.length
  · rw [if_pos hj, if_pos hj]
    rfl
  · rw [if_neg hj, if_neg hj]

theorem aliveAt_open (chans : List (Chan M)) (j : Nat) :
    aliveAt (chans ++ [({ alive := true, sent := [] } : Chan M)]) j
      = if j = chans.length then true else aliveAt chans j := by
  unfold aliveAt
  rw [getElem?_open]
  by_cases hj : j = chans.length
  · rw [if_pos hj, if_pos hj]
    rfl
  · rw [if_neg hj, if_neg hj]

/-- What a send that succeeds does. -/
theorem trySend_some (h : trySend chans id msg = some chans') :
    aliveAt chans id = true ∧ chans'.length = chans.length ∧
      (∀ j, aliveAt chans' j = aliveAt chans j) ∧
      ∀ j, sentOn chans' j = if j = id then sentOn chans j ++ [msg] else sentOn chans j := by
  unfold trySend at h
  split at h
  · rename_i c hc
    split at h
    · rename_i halive
      obtain rfl := Option.some.inj h
      have hlt := (List.getElem?_eq_some_iff.mp hc).1
      have hset : ∀ j, (chans.set id { c with sent := c.sent ++ [msg] })[j]?
          = if j = id then some { c with sent := c.sent ++ [msg] } else chans[j]? := by
        intro j
        rw [List.getElem?_set]
        by_cases hj : j = id
        · rw [if_pos hj.symm, if_pos hj, if_pos hlt]
        · rw [if_neg (Ne.symm hj), if_neg hj]
      refine ⟨?_, List.length_set, ?_, ?_⟩
      · unfold aliveAt
        rw [hc]
        exact halive
      · intro j
        unfold aliveAt
        rw [hset]
        by_cases hj : j = id
        · rw [if_pos hj, hj, hc]
          rfl
        · rw [if_neg hj]
      · intro j
        unfold sentOn
        rw [hset]
        by_cases hj : j = id
        · rw [if_pos hj, if_pos hj, hj, hc]
          rfl
        · rw [if_neg hj, if_neg hj]
    · cases h
  · cases h

theorem trySend_none (h : trySend chans id msg = none) : aliveAt chans id = false := by
  unfold trySend at h
  unfold aliveAt
  split at h
  · rename_i c hc
    split at h
    · cases h
    · rename_i hdead
      rw [hc]
      simpa using hdead
  · rename_i hc
    rw [hc]
    rfl

end Mpsc
