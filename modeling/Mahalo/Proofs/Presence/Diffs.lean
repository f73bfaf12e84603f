/-
The presence diffs.

What a subscriber is sent is a function of the list at its `Subscribe` and the writes
behind it.  Taken as changes of a set, the diffs lead from one list to the next as long
as no key is tracked again while it is there: such a `Track` announces an entry that
joins, but not the one that it replaces.
-/
import Mathlib.Data.List.Chain
import Mathlib.Data.Set.Basic
import Mahalo.Proofs.Presence.Lists

namespace Mahalo.PresenceTracker

open Keyed

/-! ### The diffs as changes of a set -/

/-- A diff takes one set of entries to another. -/
structure Changes (diff : PresenceDiff) (xs ys : Set PresenceEntry) : Prop where
  leaves : ∀ e ∈ diff.leaves, e ∈ xs
  joins : ∀ e ∈ diff.joins, ∀ x ∈ xs, x ∉ diff.leaves → x.key ≠ e.key
  result : ys = {e | (e ∈ xs ∧ e ∉ diff.leaves) ∨ e ∈ diff.joins}

inductive Replays : Set PresenceEntry → List PresenceDiff → Set PresenceEntry → Prop where
  | nil (xs : Set PresenceEntry) : Replays xs [] xs
  | cons {diff : PresenceDiff} {diffs : List PresenceDiff} {xs ys zs : Set PresenceEntry}
      (hd : Changes diff xs ys) (hds : Replays ys diffs zs) : Replays xs (diff :: diffs) zs

inductive Announcement where
  | join
  | leave
  deriving DecidableEq

/-- What a diff announces for a key. -/
def announcements (k : String) (diff : PresenceDiff) : List Announcement :=
  (diff.leaves.filter (·.key = k)).map (fun _ => .leave) ++
    (diff.joins.filter (·.key = k)).map fun _ => .join

def Alternates (k : String) (diffs : List PresenceDiff) : Prop :=
  (diffs.flatMap (announcements k)).IsChain (· ≠ ·)

/-- No write puts an entry in the place of one that is there. -/
def Fresh : List PresenceEntry → List (Write PresenceEntry String) → Prop
  | _, [] => True
  | xs, w :: rest =>
      (∀ e, w = .put e → e.key ∉ xs.map PresenceEntry.key) ∧
        Fresh (w.apply PresenceEntry.key xs) rest

theorem changes_put {t : String} {xs : List PresenceEntry} {e : PresenceEntry} {ys : Set PresenceEntry} :
    Changes { topic := t, joins := [e], leaves := [] } {x | x ∈ xs} ys ↔
      e.key ∉ xs.map PresenceEntry.key ∧ ys = {x | x ∈ put PresenceEntry.key e xs} := by
  have hresult : e.key ∉ xs.map PresenceEntry.key →
      ({x | (x ∈ {x | x ∈ xs} ∧ x ∉ ([] : List PresenceEntry)) ∨ x ∈ [e]} : Set PresenceEntry)
        = {x | x ∈ put PresenceEntry.key e xs} := by
    intro habsent
    ext x
    rw [put_absent habsent]
    simp
  constructor
  · intro hd
    have habsent : e.key ∉ xs.map PresenceEntry.key := by
      intro hmem
      obtain ⟨x, hx, hkey⟩ := List.mem_map.mp hmem
      exact hd.joins e (List.mem_singleton_self e) x hx List.not_mem_nil hkey
    exact ⟨habsent, hd.result.trans (hresult habsent)⟩
  · rintro ⟨habsent, rfl⟩
    refine ⟨fun x hx => absurd hx List.not_mem_nil, ?_, (hresult habsent).symm⟩
    intro e' he' x hx _ hkey
    rw [List.mem_singleton.mp he'] at hkey
    exact habsent (List.mem_map.mpr ⟨x, hx, hkey⟩)

theorem changes_delete {t : String} {xs : List PresenceEntry} {e : PresenceEntry}
    (hnodup : (xs.map PresenceEntry.key).Nodup) (he : e ∈ xs) {ys : Set PresenceEntry} :
    Changes { topic := t, joins := [], leaves := [e] } {x | x ∈ xs} ys ↔
      ys = {x | x ∈ delete PresenceEntry.key e.key xs} := by
  have hresult : ({x | (x ∈ {x | x ∈ xs} ∧ x ∉ [e]) ∨ x ∈ ([] : List PresenceEntry)} : Set PresenceEntry)
      = {x | x ∈ delete PresenceEntry.key e.key xs} := by
    ext x
    have hmem : (x ∈ xs ∧ x ∉ [e]) ↔ (x ∈ xs ∧ x.key ≠ e.key) := by
      refine and_congr_right fun hx => not_congr ?_
      rw [List.mem_singleton]
      exact ⟨fun heq => heq ▸ rfl, fun hkey => eq_of_key hnodup hx he hkey⟩
    show (x ∈ xs ∧ x ∉ [e]) ∨ x ∈ [] ↔ x ∈ delete PresenceEntry.key e.key xs
    rw [mem_delete hnodup, hmem]
    exact or_iff_left List.not_mem_nil
  constructor
  · exact fun hd => hd.result.trans hresult
  · rintro rfl
    refine ⟨?_, fun x hx => absurd hx List.not_mem_nil, hresult.symm⟩
    intro x hx
    rw [List.mem_singleton.mp hx]
    exact he

theorem find_key (xs : List PresenceEntry) (k : String) :
    (∃ e ∈ xs, e.key = k ∧ xs.find? (·.key = k) = some e) ∨
      (k ∉ xs.map PresenceEntry.key ∧ xs.find? (·.key = k) = none) := by
  cases hfind : xs.find? (·.key = k) with
  | none =>
      right
      refine ⟨?_, rfl⟩
      intro hmem
      obtain ⟨x, hx, hkey⟩ := List.mem_map.mp hmem
      simpa [hkey] using List.find?_eq_none.mp hfind x hx
  | some e =>
      exact Or.inl ⟨e, List.mem_of_find?_eq_some hfind, by simpa using List.find?_some hfind, rfl⟩

theorem apply_nodup {xs : List PresenceEntry} (hnodup : (xs.map PresenceEntry.key).Nodup)
    (w : Write PresenceEntry String) : ((w.apply PresenceEntry.key xs).map PresenceEntry.key).Nodup := by
  cases w with
  | put e => exact put_nodup hnodup
  | delete k => exact (List.eraseP_sublist.map PresenceEntry.key).nodup hnodup

/-- Diffs that replay at all are those of fresh writes, and they end in the list. -/
theorem replays_announced {t : String} {xs : List PresenceEntry} (hnodup : (xs.map PresenceEntry.key).Nodup)
    (ws : List (Write PresenceEntry String)) (zs : Set PresenceEntry) :
    Replays {x | x ∈ xs} (announced t xs ws) zs ↔
      Fresh xs ws ∧ zs = {x | x ∈ ws.foldl (Write.apply PresenceEntry.key) xs} := by
  induction ws generalizing xs with
  | nil =>
      constructor
      · intro hr
        cases hr
        exact ⟨trivial, rfl⟩
      · rintro ⟨-, rfl⟩
        exact .nil _
  | cons w rest ih =>
      have hrest := ih (apply_nodup hnodup w)
      have hcons : ∀ diff, diffsFor t xs w = [diff] →
          (∀ ys, Changes diff {x | x ∈ xs} ys ↔
            (∀ e, w = .put e → e.key ∉ xs.map PresenceEntry.key) ∧
              ys = {x | x ∈ w.apply PresenceEntry.key xs}) →
          (Replays {x | x ∈ xs} (announced t xs (w :: rest)) zs ↔
            Fresh xs (w :: rest) ∧ zs = {x | x ∈ (w :: rest).foldl (Write.apply PresenceEntry.key) xs}) := by
        intro diff hdiff hchanges
        unfold announced Fresh
        rw [hdiff, List.foldl_cons, and_assoc, ← hrest]
        constructor
        · intro hr
          obtain - | ⟨hd, hds⟩ := hr
          obtain ⟨hfresh, rfl⟩ := (hchanges _).mp hd
          exact ⟨hfresh, hds⟩
        · rintro ⟨hfresh, hds⟩
          exact .cons ((hchanges _).mpr ⟨hfresh, rfl⟩) hds
      cases w with
      | put e =>
          refine hcons _ rfl fun ys => changes_put.trans (and_congr_left' ?_)
          constructor
          · intro habsent e' heq
            cases heq
            exact habsent
          · exact fun h => h e rfl
      | delete k =>
          have hfresh : ∀ e, (.delete k : Write PresenceEntry String) = .put e →
              e.key ∉ xs.map PresenceEntry.key := by
            intro e hput
            cases hput
          rcases find_key xs k with ⟨e, he, rfl, hfind⟩ | ⟨habsent, hfind⟩
          · refine hcons { topic := t, joins := [], leaves := [e] } (by rw [diffsFor_delete, hfind]; rfl) ?_
            intro ys
            exact (changes_delete hnodup he).trans ⟨fun h => ⟨hfresh, h⟩, And.right⟩
          · have hsame : (Write.delete k).apply PresenceEntry.key xs = xs := delete_absent habsent
            unfold announced Fresh
            rw [List.foldl_cons]
            rw [hsame] at hrest ⊢
            rw [diffsFor_delete, hfind, Option.toList_none, List.map_nil, List.nil_append, hrest]
            exact and_congr_left' ⟨fun h => ⟨hfresh, h⟩, And.right⟩

/-- What a write announces for a key, by whether the key is there. -/
theorem announcements_diffsFor (t k : String) (xs : List PresenceEntry) (w : Write PresenceEntry String) :
    (diffsFor t xs w).flatMap (announcements k) =
      if w.target PresenceEntry.key = k then
        match w with
        | .put _ => [.join]
        | .delete _ => if k ∈ xs.map PresenceEntry.key then [.leave] else []
      else [] := by
  cases w with
  | put e => by_cases hk : e.key = k <;> simp [diffsFor, announcements, Write.target, hk]
  | delete k' =>
      rw [diffsFor_delete]
      rcases find_key xs k' with ⟨e, he, rfl, hfind⟩ | ⟨habsent, hfind⟩
      · have hin : e.key ∈ xs.map PresenceEntry.key := List.mem_map_of_mem he
        rw [hfind]
        by_cases hk : e.key = k
        · subst hk
          simp only [Option.toList_some, List.map_singleton, List.flatMap_singleton]
          rw [if_pos (show (Write.delete e.key).target PresenceEntry.key = e.key from rfl), if_pos hin]
          simp [announcements]
        · rw [if_neg (show ¬(Write.delete e.key).target PresenceEntry.key = k from hk)]
          simp [announcements, hk]
      · rw [hfind]
        by_cases hk : k' = k
        · subst hk
          rw [if_pos (show (Write.delete k').target PresenceEntry.key = k' from rfl), if_neg habsent]
          rfl
        · rw [if_neg (show ¬(Write.delete k').target PresenceEntry.key = k from hk)]
          rfl

/-- Which announcement a key waits for next. -/
def expected (k : String) (xs : List PresenceEntry) : Announcement :=
  if k ∈ xs.map PresenceEntry.key then .leave else .join

theorem expected_of_mem {k : String} {xs : List PresenceEntry} (h : k ∈ xs.map PresenceEntry.key) :
    expected k xs = .leave := if_pos h

theorem expected_of_not_mem {k : String} {xs : List PresenceEntry} (h : k ∉ xs.map PresenceEntry.key) :
    expected k xs = .join := if_neg h

theorem expected_congr {k : String} {xs ys : List PresenceEntry}
    (h : k ∈ ys.map PresenceEntry.key ↔ k ∈ xs.map PresenceEntry.key) : expected k ys = expected k xs :=
  if_congr h rfl rfl

/-- A fresh write announces nothing for a key, or what it waits for, and then it waits for the other. -/
theorem announces_expected (t : String) {xs : List PresenceEntry} {w : Write PresenceEntry String}
    (hnodup : (xs.map PresenceEntry.key).Nodup)
    (hfresh : ∀ e, w = .put e → e.key ∉ xs.map PresenceEntry.key) (k : String) :
    ((diffsFor t xs w).flatMap (announcements k) = [] ∧
        expected k (w.apply PresenceEntry.key xs) = expected k xs) ∨
      ((diffsFor t xs w).flatMap (announcements k) = [expected k xs] ∧
        expected k xs ≠ expected k (w.apply PresenceEntry.key xs)) := by
  rw [announcements_diffsFor]
  cases w with
  | put e =>
      have habsent := hfresh e rfl
      have hkeys : ((Write.put e).apply PresenceEntry.key xs).map PresenceEntry.key
          = xs.map PresenceEntry.key ++ [e.key] := by
        show (put PresenceEntry.key e xs).map PresenceEntry.key = _
        rw [put_absent habsent, List.map_append, List.map_singleton]
      by_cases hk : e.key = k
      · subst hk
        have hafter : expected e.key ((Write.put e).apply PresenceEntry.key xs) = .leave := by
          refine expected_of_mem ?_
          rw [hkeys]
          exact List.mem_append_right _ (List.mem_singleton_self _)
        rw [if_pos (show (Write.put e).target PresenceEntry.key = e.key from rfl), hafter,
          expected_of_not_mem habsent]
        exact Or.inr ⟨rfl, by decide⟩
      · rw [if_neg (show ¬(Write.put e).target PresenceEntry.key = k from hk)]
        refine Or.inl ⟨rfl, expected_congr ?_⟩
        rw [hkeys, List.mem_append, List.mem_singleton]
        exact or_iff_left (Ne.symm hk)
  | delete k' =>
      have hmem : k ∈ ((Write.delete k').apply PresenceEntry.key xs).map PresenceEntry.key ↔
          k ∈ xs.map PresenceEntry.key ∧ k ≠ k' := mem_delete_keys hnodup
      by_cases hk : k' = k
      · subst hk
        have hafter : expected k' ((Write.delete k').apply PresenceEntry.key xs) = .join :=
          expected_of_not_mem fun h => (hmem.mp h).2 rfl
        rw [if_pos (show (Write.delete k').target PresenceEntry.key = k' from rfl), hafter]
        by_cases hin : k' ∈ xs.map PresenceEntry.key
        · rw [expected_of_mem hin]
          exact Or.inr ⟨if_pos hin, by decide⟩
        · rw [expected_of_not_mem hin]
          exact Or.inl ⟨if_neg hin, rfl⟩
      · rw [if_neg (show ¬(Write.delete k').target PresenceEntry.key = k from hk)]
        exact Or.inl ⟨rfl, expected_congr (hmem.trans (and_iff_left (Ne.symm hk)))⟩

/-- Fresh writes announce a key in turn, beginning with what it waits for. -/
theorem alternates_announced {t : String} {xs : List PresenceEntry} {ws : List (Write PresenceEntry String)}
    (hnodup : (xs.map PresenceEntry.key).Nodup) (hfresh : Fresh xs ws) (k : String) :
    Alternates k (announced t xs ws) ∧
      ∀ a ∈ ((announced t xs ws).flatMap (announcements k)).head?, a = expected k xs := by
  unfold Alternates
  induction ws generalizing xs with
  | nil => exact ⟨.nil, fun a ha => by cases ha⟩
  | cons w rest ih =>
      obtain ⟨hhead, hrest⟩ := hfresh
      obtain ⟨hchain, hnext⟩ := ih (apply_nodup hnodup w) hrest
      unfold announced
      rw [List.flatMap_append]
      rcases announces_expected t hnodup hhead k with ⟨hnone, hsame⟩ | ⟨hone, hother⟩
      · rw [hnone, List.nil_append]
        exact ⟨hchain, hsame ▸ hnext⟩
      · rw [hone, List.singleton_append]
        refine ⟨List.isChain_cons.mpr ⟨?_, hchain⟩, ?_⟩
        · intro b hb
          rw [hnext b hb]
          exact hother
        · intro a ha
          exact (Option.some.inj ha).symm

/-- Applied as writes, the diffs yield the list whatever was tracked. -/
theorem announced_applied (t : String) (xs : List PresenceEntry) (ws : List (Write PresenceEntry String)) :
    (announced t xs ws).foldl
        (fun ys diff => diff.joins.foldl (fun zs e => put PresenceEntry.key e zs)
          (diff.leaves.foldl (fun zs e => delete PresenceEntry.key e.key zs) ys)) xs
      = ws.foldl (Write.apply PresenceEntry.key) xs := by
  induction ws generalizing xs with
  | nil => rfl
  | cons w rest ih =>
      unfold announced
      rw [List.foldl_append, List.foldl_cons, ← ih]
      congr 1
      cases w with
      | put e => rfl
      | delete k =>
          rw [diffsFor_delete]
          rcases find_key xs k with ⟨e, he, rfl, hfind⟩ | ⟨habsent, hfind⟩
          · rw [hfind]
            rfl
          · rw [hfind]
            exact (delete_absent habsent).symm

/-! ### A subscriber and its diffs -/

/-- Behind some commands, a key of the topic is tracked again without an `Untrack` in between. -/
def Retracked (t : String) (pre post : List TrackerCommand) : Prop :=
  ∃ mid e rest e', post = mid ++ .track t e :: rest ∧
    lastWrite PresenceEntry.key e.key (writesOn t (pre ++ mid)) = some (.put e')

theorem present_iff (t : String) (pre : List TrackerCommand) (k : String) :
    k ∈ (listOf t pre).map PresenceEntry.key ↔
      ∃ e, lastWrite PresenceEntry.key k (writesOn t pre) = some (.put e) := by
  unfold listOf
  rw [(entries_lww (writesOn t pre)).key_mem]
  constructor
  · rintro ⟨e, he, -⟩
    exact ⟨e, he⟩
  · rintro ⟨e, he⟩
    exact ⟨e, he, lastWrite_target he⟩

/-- A key is tracked again by the first command, or behind it. -/
theorem retracked_cons (t : String) (pre post : List TrackerCommand) (cmd : TrackerCommand) :
    Retracked t pre (cmd :: post) ↔
      (∃ e, cmd = .track t e ∧ e.key ∈ (listOf t pre).map PresenceEntry.key) ∨
        Retracked t (pre ++ [cmd]) post := by
  constructor
  · rintro ⟨mid, e, rest, e', hsplit, hlast⟩
    cases mid with
    | nil =>
        obtain ⟨rfl, -⟩ := List.cons.inj hsplit
        rw [List.append_nil] at hlast
        exact Or.inl ⟨e, rfl, (present_iff t pre e.key).mpr ⟨e', hlast⟩⟩
    | cons c mid =>
        obtain ⟨rfl, hpost⟩ := List.cons.inj hsplit
        refine Or.inr ⟨mid, e, rest, e', hpost, ?_⟩
        rw [List.append_assoc]
        exact hlast
  · rintro (⟨e, rfl, hmem⟩ | ⟨mid, e, rest, e', rfl, hlast⟩)
    · obtain ⟨e', hlast⟩ := (present_iff t pre e.key).mp hmem
      refine ⟨[], e, post, e', rfl, ?_⟩
      rw [List.append_nil]
      exact hlast
    · refine ⟨cmd :: mid, e, rest, e', rfl, ?_⟩
      rw [List.append_assoc] at hlast
      exact hlast

/-- Only a `Track` on the topic can be a write that is not fresh. -/
theorem fresh_writesOn (t : String) (cmd : TrackerCommand) (xs : List PresenceEntry)
    (ws : List (Write PresenceEntry String)) :
    Fresh xs (writesOn t [cmd] ++ ws) ↔
      (¬∃ e, cmd = .track t e ∧ e.key ∈ xs.map PresenceEntry.key) ∧
        Fresh ((writesOn t [cmd]).foldl (Write.apply PresenceEntry.key) xs) ws := by
  have hskip : writesOn t [cmd] = [] → (¬∃ e, cmd = .track t e ∧ e.key ∈ xs.map PresenceEntry.key) →
      (Fresh xs (writesOn t [cmd] ++ ws) ↔
        (¬∃ e, cmd = .track t e ∧ e.key ∈ xs.map PresenceEntry.key) ∧
          Fresh ((writesOn t [cmd]).foldl (Write.apply PresenceEntry.key) xs) ws) := by
    intro hnil hplain
    rw [hnil]
    exact (and_iff_right hplain).symm
  cases cmd with
  | track topic entry =>
      by_cases ht : topic = t
      · subst ht
        have hwrites : writesOn topic [.track topic entry] = [.put entry] := by simp [writesOn]
        rw [hwrites]
        refine and_congr_left' ?_
        constructor
        · rintro h ⟨e, heq, hmem⟩
          cases heq
          exact h entry rfl hmem
        · rintro h e heq hmem
          cases heq
          exact h ⟨entry, rfl, hmem⟩
      · refine hskip (by simp [writesOn, ht]) ?_
        rintro ⟨e, heq, -⟩
        cases heq
        exact ht rfl
  | untrack topic key =>
      by_cases ht : topic = t
      · subst ht
        have hwrites : writesOn topic [.untrack topic key] = [.delete key] := by simp [writesOn]
        rw [hwrites]
        refine and_congr_left' (iff_of_true ?_ ?_)
        · intro e hput
          cases hput
        · rintro ⟨e, heq, -⟩
          cases heq
      · exact hskip (by simp [writesOn, ht]) (by simp)
  | list topic reply => exact hskip rfl (by simp)
  | subscribe topic reply => exact hskip rfl (by simp)
  | shutdown => exact hskip rfl (by simp)

theorem fresh_iff (t : String) (pre post : List TrackerCommand) :
    Fresh (listOf t pre) (writesOn t post) ↔ ¬Retracked t pre post := by
  induction post generalizing pre with
  | nil =>
      refine iff_of_true trivial ?_
      rintro ⟨mid, e, rest, -, hsplit, -⟩
      exact absurd hsplit (by simp)
  | cons cmd post ih =>
      have hwrites : writesOn t (cmd :: post) = writesOn t [cmd] ++ writesOn t post :=
        writesOn_append t [cmd] post
      rw [hwrites, fresh_writesOn, ← listOf_concat, ih, retracked_cons, not_or]

/-- What stays once a `Subscribe` was answered. -/
theorem subscribed_step {t : String} {r id : Nat} {h : List TrackerCommand} (s : PresenceTracker) (l : Label)
    (s' : PresenceTracker)
    (hs : (r, id) ∈ s.receivers ∧ ∃ post, s.handled = h ++ .subscribe t r :: post)
    (hstep : system.step s l = some s') :
    (r, id) ∈ s'.receivers ∧ ∃ post, s'.handled = h ++ .subscribe t r :: post := by
  obtain ⟨hrecv, post, hpost⟩ := hs
  cases l with
  | send cmd =>
      obtain rfl := Option.some.inj hstep
      unfold send
      split
      · exact ⟨hrecv, post, hpost⟩
      · exact ⟨hrecv, post, hpost⟩
  | serve =>
      obtain ⟨cmd, queue, -, rfl⟩ := serve_some hstep
      refine ⟨handle_receivers _ cmd hrecv, post ++ [cmd], ?_⟩
      show (handle _ cmd).1.handled = _
      rw [handle_handled, ← List.cons_append, ← List.append_assoc, ← hpost]
  | hangup =>
      obtain ⟨-, hstep⟩ := Option.ite_none_right_eq_some.mp hstep
      obtain rfl := Option.some.inj hstep
      exact ⟨hrecv, post, hpost⟩
  | drop i =>
      obtain rfl := Option.some.inj hstep
      exact ⟨hrecv, post, hpost⟩

/-- What a live subscriber was sent, and what the list has become. -/
theorem subscriber_sent {before after : List Label} {s₀ s : PresenceTracker} {t : String} {r : Nat}
    (h₀ : system.exec system.init before = some s₀) (hnext : s₀.queue.head? = some (.subscribe t r))
    (h : system.exec s₀ (.serve :: after) = some s)
    (hlive : Mpsc.aliveAt s.chans s₀.chans.length = true) :
    (r, s₀.chans.length) ∈ s.receivers ∧ ∃ post, s.handled = s₀.handled ++ .subscribe t r :: post ∧
      s.sentOn s₀.chans.length = announced t (s₀.entries t) (writesOn t post) ∧
      s.entries t = (writesOn t post).foldl (Write.apply PresenceEntry.key) (s₀.entries t) ∧
      s₀.entries t = listOf t s₀.handled := by
  have hagrees₀ := agrees_run h₀
  have hrun : system.exec system.init (before ++ .serve :: after) = some s := by
    rw [Lts.exec_append, h₀]
    exact h
  have hagrees := agrees_run hrun
  obtain ⟨s₁, hserve, hafter⟩ := Option.bind_eq_some_iff.mp h
  obtain ⟨cmd, queue, hqueue, hs₁⟩ := serve_some hserve
  obtain rfl : cmd = .subscribe t r := by
    rw [hqueue] at hnext
    exact Option.some.inj hnext
  obtain ⟨hrecv, post, hpost⟩ := Lts.exec_keeps subscribed_step
    (by
      rw [hs₁]
      exact ⟨List.mem_append_right _ (List.mem_singleton_self _), [], rfl⟩) hafter
  have hsub : listOf t (s₀.handled ++ [.subscribe t r]) = listOf t s₀.handled := listOf_concat ..
  refine ⟨hrecv, post, hpost, ?_, ?_, hagrees₀.lists t⟩
  · have hevents : events [] s.handled = events [] s₀.handled ++
        .subscribe t :: events (s₀.handled ++ [.subscribe t r]) post := by
      rw [hpost, events_append]
      rfl
    have hcount : (Hub.subscriptions (events [] s₀.handled)).length = s₀.chans.length :=
      hagrees₀.hub.count.symm
    obtain ⟨-, hsent⟩ := hagrees.hub.sent _ t _ hevents
    rw [hcount] at hsent
    refine (hsent hlive).trans ?_
    rw [published_events, hsub, hagrees₀.lists]
  · rw [hagrees.lists, hpost, hagrees₀.lists]
    unfold listOf Keyed.entries
    rw [writesOn_append, List.foldl_append]
    rfl

/--
**When the diffs replay.**  A subscriber that starts from the list at its `Subscribe`
and takes each diff as a change of a set holds the list, and every key joins and
leaves in turn, exactly as long as no key of the topic is tracked again while it is
there.
-/
theorem diffs_replay_iff {before after : List Label} {s₀ s : PresenceTracker} {t : String} {r : Nat}
    (h₀ : system.exec system.init before = some s₀) (hnext : s₀.queue.head? = some (.subscribe t r))
    (h : system.exec s₀ (.serve :: after) = some s)
    (hlive : Mpsc.aliveAt s.chans s₀.chans.length = true) :
    (r, s₀.chans.length) ∈ s.receivers ∧ ∃ post, s.handled = s₀.handled ++ .subscribe t r :: post ∧
      ((Replays {e | e ∈ s₀.entries t} (s.sentOn s₀.chans.length) {e | e ∈ s.entries t} ∧
          ∀ k, Alternates k (s.sentOn s₀.chans.length)) ↔ ¬Retracked t s₀.handled post) := by
  obtain ⟨hrecv, post, hpost, hsent, hlist, hlist₀⟩ := subscriber_sent h₀ hnext h hlive
  refine ⟨hrecv, post, hpost, ?_⟩
  have hnodup : ((s₀.entries t).map PresenceEntry.key).Nodup := hlist₀ ▸ listOf_nodup t s₀.handled
  rw [hsent, hlist, replays_announced hnodup, ← fresh_iff, ← hlist₀]
  constructor
  · exact fun hboth => hboth.1.1
  · exact fun hfresh => ⟨⟨hfresh, rfl⟩, fun k => (alternates_announced hnodup hfresh k).1⟩

/-- Two handles with different node ids track one key. -/
def trackedTwice : List Label :=
  [.send (({ nodeId := 1 } : Presence).track "room:1" "user:1" .null), .serve,
    .send (({ nodeId := 2 } : Presence).track "room:1" "user:1" .null), .serve]

/-- The subscriber of such a run sees the key join twice, and the diffs do not replay. -/
theorem tracked_twice_joins_twice : ∃ s₀ s,
    system.exec system.init [.send (({ nodeId := 1 } : Presence).subscribeDiff "room:1" 0)] = some s₀ ∧
      s₀.queue.head? = some (.subscribe "room:1" 0) ∧
      system.exec s₀ (.serve :: trackedTwice) = some s ∧
      Mpsc.aliveAt s.chans s₀.chans.length = true ∧
      ¬(Replays {e | e ∈ s₀.entries "room:1"} (s.sentOn s₀.chans.length) {e | e ∈ s.entries "room:1"} ∧
          ∀ k, Alternates k (s.sentOn s₀.chans.length)) := by
  refine ⟨_, _, rfl, rfl, rfl, rfl, ?_⟩
  rintro ⟨-, halternates⟩
  have hjoins := halternates "user:1"
  have htwice : ¬List.IsChain (· ≠ ·) [Announcement.join, .join] := by decide
  exact htwice hjoins

theorem diffs_replay_iff_tracked_once : ∃ s₀ s post,
    system.exec system.init [.send (({ nodeId := 1 } : Presence).subscribeDiff "room:1" 0)] = some s₀ ∧
      system.exec s₀ [.serve, .send (({ nodeId := 1 } : Presence).track "room:1" "user:1" .null), .serve]
        = some s ∧
      s.handled = s₀.handled ++ .subscribe "room:1" 0 :: post ∧
      ((Replays {e | e ∈ s₀.entries "room:1"} (s.sentOn s₀.chans.length) {e | e ∈ s.entries "room:1"} ∧
          ∀ k, Alternates k (s.sentOn s₀.chans.length)) ↔ ¬Retracked "room:1" s₀.handled post) := by
  have h₀ : system.exec system.init [.send (({ nodeId := 1 } : Presence).subscribeDiff "room:1" 0)]
      = some _ := rfl
  obtain ⟨-, post, hpost, hiff⟩ := diffs_replay_iff h₀ rfl
    (show system.exec _ (.serve :: [.send (({ nodeId := 1 } : Presence).track "room:1" "user:1" .null),
      .serve]) = some _ from rfl) rfl
  exact ⟨_, _, post, h₀, rfl, hpost, hiff⟩

end Mahalo.PresenceTracker
