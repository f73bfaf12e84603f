/-
Lists of entries with a key each, and no key twice.

Such a list is a map that remembers the order of its keys: a write for a key that is
there goes in its place, one for a new key goes to the end, and a deletion closes the
gap.  `entries_lww` says what a list of writes leaves behind, without running it: the
entry of every key whose last write put one, in the order in which the keys were first
put since they were last deleted.
-/
import Mathlib.Data.List.Induction
import Mathlib.Data.List.Nodup

namespace Keyed

variable {E K : Type*} [DecidableEq K] (key : E → K)

/-- Write an entry in the place of the one with its key, or at the end. -/
def put (e : E) : List E → List E
  | [] => [e]
  | x :: rest => if key x = key e then e :: rest else x :: put e rest

def delete (k : K) (xs : List E) : List E := xs.eraseP fun x => key x = k

variable {key} {xs : List E} {e x : E} {k : K}

theorem put_present (h : key e ∈ xs.map key) : (put key e xs).map key = xs.map key := by
  induction xs with
  | nil => cases h
  | cons y rest ih =>
      unfold put
      by_cases hy : key y = key e
      · rw [if_pos hy, List.map_cons, List.map_cons, hy]
      · rw [if_neg hy, List.map_cons, List.map_cons]
        rcases List.mem_cons.mp h with heq | hmem
        · exact absurd heq.symm hy
        · rw [ih hmem]

theorem put_absent (h : key e ∉ xs.map key) : put key e xs = xs ++ [e] := by
  induction xs with
  | nil => rfl
  | cons y rest ih =>
      rw [List.map_cons, List.mem_cons, not_or] at h
      unfold put
      rw [if_neg (Ne.symm h.1), ih h.2]
      rfl

theorem mem_put (hnodup : (xs.map key).Nodup) :
    x ∈ put key e xs ↔ x = e ∨ (x ∈ xs ∧ key x ≠ key e) := by
  induction xs with
  | nil => simp [put]
  | cons y rest ih =>
      rw [List.map_cons, List.nodup_cons] at hnodup
      unfold put
      by_cases hy : key y = key e
      · rw [if_pos hy, List.mem_cons, List.mem_cons]
        refine or_congr_right ⟨fun hx => ⟨Or.inr hx, ?_⟩, ?_⟩
        · intro hkey
          exact hnodup.1 (List.mem_map.mpr ⟨x, hx, hkey.trans hy.symm⟩)
        · rintro ⟨rfl | hx, hne⟩
          · exact absurd hy hne
          · exact hx
      · rw [if_neg hy, List.mem_cons, ih hnodup.2, List.mem_cons]
        constructor
        · rintro (rfl | rfl | ⟨hx, hne⟩)
          · exact Or.inr ⟨Or.inl rfl, hy⟩
          · exact Or.inl rfl
          · exact Or.inr ⟨Or.inr hx, hne⟩
        · rintro (rfl | ⟨rfl | hx, hne⟩)
          · exact Or.inr (Or.inl rfl)
          · exact Or.inl rfl
          · exact Or.inr (Or.inr ⟨hx, hne⟩)

theorem put_nodup (hnodup : (xs.map key).Nodup) : ((put key e xs).map key).Nodup := by
  by_cases h : key e ∈ xs.map key
  · rw [put_present h]
    exact hnodup
  · rw [put_absent h, List.map_append, List.map_singleton, ← List.concat_eq_append]
    exact hnodup.concat h

/-- The first entry with a key is the only one. -/
theorem delete_eq_filter (hnodup : (xs.map key).Nodup) :
    delete key k xs = xs.filter fun x => key x ≠ k := by
  unfold delete
  induction xs with
  | nil => rfl
  | cons y rest ih =>
      rw [List.map_cons, List.nodup_cons] at hnodup
      by_cases hy : key y = k
      · rw [List.eraseP_cons_of_pos (by simpa using hy), List.filter_cons_of_neg (by simpa using hy)]
        refine (List.filter_eq_self.mpr ?_).symm
        intro z hz
        have hne : key z ≠ k := by
          rintro rfl
          exact hnodup.1 (List.mem_map.mpr ⟨z, hz, hy.symm⟩)
        simpa using hne
      · rw [List.eraseP_cons_of_neg (by simpa using hy), List.filter_cons_of_pos (by simpa using hy),
          ih hnodup.2]

theorem mem_delete (hnodup : (xs.map key).Nodup) :
    x ∈ delete key k xs ↔ x ∈ xs ∧ key x ≠ k := by
  rw [delete_eq_filter hnodup, List.mem_filter, decide_eq_true_eq]

theorem mem_delete_keys (hnodup : (xs.map key).Nodup) {k' : K} :
    k' ∈ (delete key k xs).map key ↔ k' ∈ xs.map key ∧ k' ≠ k := by
  rw [List.mem_map, List.mem_map]
  constructor
  · rintro ⟨x, hx, rfl⟩
    obtain ⟨hx, hne⟩ := (mem_delete hnodup).mp hx
    exact ⟨⟨x, hx, rfl⟩, hne⟩
  · rintro ⟨⟨x, hx, rfl⟩, hne⟩
    exact ⟨x, (mem_delete hnodup).mpr ⟨hx, hne⟩, rfl⟩

theorem delete_absent (h : k ∉ xs.map key) : delete key k xs = xs := by
  refine List.eraseP_of_forall_not ?_
  intro x hx hkey
  exact h (List.mem_map.mpr ⟨x, hx, by simpa using hkey⟩)

omit [DecidableEq K] in
/-- An entry is told by its key. -/
theorem eq_of_key (hnodup : (xs.map key).Nodup) {y : E} (hx : x ∈ xs) (hy : y ∈ xs)
    (h : key x = key y) : x = y := List.inj_on_of_nodup_map hnodup hx hy h

/-! ### What a list of writes leaves behind -/

inductive Write (E K : Type*) where
  | put (e : E)
  | delete (k : K)

variable (key)

/-- The key that is written. -/
def Write.target : Write E K → K
  | .put e => key e
  | .delete k => k

def Write.apply (xs : List E) : Write E K → List E
  | .put e => Keyed.put key e xs
  | .delete k => Keyed.delete key k xs

def entries (ws : List (Write E K)) : List E := ws.foldl (Write.apply key) []

/-- The last write for a key. -/
def lastWrite (k : K) (ws : List (Write E K)) : Option (Write E K) :=
  (ws.filter fun w => w.target key = k).getLast?

/-- At `i` the key is put for the first time since it was last deleted. -/
structure FirstPut (k : K) (ws : List (Write E K)) (i : Nat) : Prop where
  put : ∃ e, ws[i]? = some (.put e) ∧ key e = k
  /-- it is not deleted again -/
  kept : ∀ j, i < j → ws[j]? ≠ some (.delete k)
  /-- and every earlier put was -/
  first : ∀ (j : Nat) (e : E), j < i → ws[j]? = some (.put e) → key e = k →
    ∃ d, j < d ∧ d < i ∧ ws[d]? = some (.delete k)

/-- A last-writer-wins map, its keys in the order of their first put. -/
structure Lww (ws : List (Write E K)) (xs : List E) : Prop where
  nodup : (xs.map key).Nodup
  mem : ∀ e, e ∈ xs ↔ lastWrite key (key e) ws = some (.put e)
  first : ∀ k ∈ xs.map key, ∃ i, FirstPut key k ws i
  ordered : (xs.map key).Pairwise fun k k' =>
    ∃ i j, FirstPut key k ws i ∧ FirstPut key k' ws j ∧ i < j

variable {key} {ws : List (Write E K)}

theorem lastWrite_concat (k : K) (ws : List (Write E K)) (w : Write E K) :
    lastWrite key k (ws ++ [w]) = if w.target key = k then some w else lastWrite key k ws := by
  unfold lastWrite
  rw [List.filter_append]
  by_cases h : w.target key = k
  · rw [List.filter_cons_of_pos (by simpa using h), if_pos h]
    exact List.getLast?_concat
  · rw [List.filter_cons_of_neg (by simpa using h), if_neg h, List.filter_nil, List.append_nil]

theorem lastWrite_target {w : Write E K} (h : lastWrite key k ws = some w) : w.target key = k :=
  of_decide_eq_true (List.mem_filter.mp (List.mem_of_getLast? h)).2

omit [DecidableEq K] in
theorem FirstPut.lt {i : Nat} (h : FirstPut key k ws i) : i < ws.length := by
  obtain ⟨e, he, -⟩ := h.put
  exact (List.getElem?_eq_some_iff.mp he).1

omit [DecidableEq K] in
/-- A later write that does not delete the key leaves its place. -/
theorem FirstPut.concat {i : Nat} (h : FirstPut key k ws i) {w : Write E K} (hw : w ≠ .delete k) :
    FirstPut key k (ws ++ [w]) i := by
  have hlt := h.lt
  refine ⟨?_, ?_, ?_⟩
  · obtain ⟨e, he, hkey⟩ := h.put
    exact ⟨e, by rw [List.getElem?_append_left hlt, he], hkey⟩
  · intro j hij hj
    rcases Nat.lt_trichotomy j ws.length with hjlt | rfl | hjgt
    · rw [List.getElem?_append_left hjlt] at hj
      exact h.kept j hij hj
    · rw [List.getElem?_concat_length] at hj
      exact hw (Option.some.inj hj)
    · rw [List.getElem?_eq_none (by simp; omega)] at hj
      cases hj
  · intro j e hji hj hkey
    rw [List.getElem?_append_left (by omega)] at hj
    obtain ⟨d, hjd, hdi, hd⟩ := h.first j e hji hj hkey
    exact ⟨d, hjd, hdi, by rw [List.getElem?_append_left (by omega), hd]⟩

/-- Behind a put of a key that was not put last, the key was deleted. -/
theorem deleted_behind {j : Nat} {e : E} (hj : ws[j]? = some (.put e)) :
    (∀ e', lastWrite key (key e) ws ≠ some (.put e')) →
      ∃ d, j < d ∧ d < ws.length ∧ ws[d]? = some (.delete (key e)) := by
  induction ws using List.reverseRecOn with
  | nil => cases hj
  | append_singleton ws w ih =>
      intro hlast
      rw [lastWrite_concat] at hlast
      rcases Nat.lt_or_ge j ws.length with hlt | hge
      · rw [List.getElem?_append_left hlt] at hj
        by_cases hw : w.target key = key e
        · rw [if_pos hw] at hlast
          cases w with
          | put e' => exact absurd rfl (hlast e')
          | delete k =>
              have hk : k = key e := hw
              exact ⟨ws.length, hlt, by simp, by rw [List.getElem?_concat_length, hk]⟩
        · rw [if_neg hw] at hlast
          obtain ⟨d, hjd, hd, hdel⟩ := ih hj hlast
          exact ⟨d, hjd, by simp; omega, by rw [List.getElem?_append_left hd, hdel]⟩
      · have heq : j = ws.length := by
          have := (List.getElem?_eq_some_iff.mp hj).1
          simp only [List.length_append, List.length_singleton] at this
          omega
        rw [heq, List.getElem?_concat_length] at hj
        obtain rfl := Option.some.inj hj
        rw [if_pos (show (Write.put e).target key = key e from rfl)] at hlast
        exact absurd rfl (hlast e)

theorem Lww.key_mem {xs : List E} (h : Lww key ws xs) :
    k ∈ xs.map key ↔ ∃ e, lastWrite key k ws = some (.put e) ∧ key e = k := by
  constructor
  · intro hk
    obtain ⟨e, he, rfl⟩ := List.mem_map.mp hk
    exact ⟨e, (h.mem e).mp he, rfl⟩
  · rintro ⟨e, he, rfl⟩
    exact List.mem_map.mpr ⟨e, (h.mem e).mpr he, rfl⟩

theorem lww_nil : Lww key ([] : List (Write E K)) [] where
  nodup := .nil
  mem := by
    intro e
    exact iff_of_false List.not_mem_nil nofun
  first := by
    intro k hk
    cases hk
  ordered := .nil

/-- A put of a new key goes behind all others. -/
theorem Lww.first_put {xs : List E} (h : Lww key ws xs) (he : key e ∉ xs.map key) :
    FirstPut key (key e) (ws ++ [.put e]) ws.length := by
  refine ⟨⟨e, List.getElem?_concat_length, rfl⟩, ?_, ?_⟩
  · intro j hj hdel
    rw [List.getElem?_eq_none (by simp; omega)] at hdel
    cases hdel
  · intro j e' hj hput hkey
    rw [List.getElem?_append_left hj] at hput
    rw [← hkey] at he
    obtain ⟨d, hjd, hd, hdel⟩ := deleted_behind hput fun e'' hlast =>
      he (h.key_mem.mpr ⟨e'', hlast, lastWrite_target hlast⟩)
    exact ⟨d, hjd, hd, by rw [List.getElem?_append_left hd, hdel, hkey]⟩

theorem Lww.put {xs : List E} (h : Lww key ws xs) (e : E) :
    Lww key (ws ++ [.put e]) (put key e xs) := by
  have hkeep : ∀ {k i}, FirstPut key k ws i → FirstPut key k (ws ++ [.put e]) i :=
    fun hf => hf.concat nofun
  have hmem : ∀ x, x ∈ Keyed.put key e xs ↔ lastWrite key (key x) (ws ++ [.put e]) = some (.put x) := by
    intro x
    rw [mem_put h.nodup, lastWrite_concat, h.mem]
    by_cases hx : key e = key x
    · rw [if_pos (show (Write.put e).target key = key x from hx)]
      constructor
      · rintro (rfl | ⟨-, hne⟩)
        · rfl
        · exact absurd hx.symm hne
      · intro heq
        cases heq
        exact Or.inl rfl
    · rw [if_neg (show ¬(Write.put e).target key = key x from hx)]
      constructor
      · rintro (rfl | ⟨hlast, -⟩)
        · exact absurd rfl hx
        · exact hlast
      · exact fun hlast => Or.inr ⟨hlast, Ne.symm hx⟩
  by_cases hin : key e ∈ xs.map key
  · refine ⟨?_, hmem, ?_, ?_⟩
    · rw [put_present hin]
      exact h.nodup
    · rw [put_present hin]
      intro k hk
      obtain ⟨i, hi⟩ := h.first k hk
      exact ⟨i, hkeep hi⟩
    · rw [put_present hin]
      refine h.ordered.imp ?_
      rintro k k' ⟨i, j, hi, hj, hlt⟩
      exact ⟨i, j, hkeep hi, hkeep hj, hlt⟩
  · have hnew := h.first_put hin
    have hkeys : (Keyed.put key e xs).map key = xs.map key ++ [key e] := by
      rw [put_absent hin, List.map_append, List.map_singleton]
    refine ⟨?_, hmem, ?_, ?_⟩
    · rw [hkeys, ← List.concat_eq_append]
      exact h.nodup.concat hin
    · rw [hkeys]
      intro k hk
      rcases List.mem_append.mp hk with hold | hone
      · obtain ⟨i, hi⟩ := h.first k hold
        exact ⟨i, hkeep hi⟩
      · rw [List.mem_singleton.mp hone]
        exact ⟨ws.length, hnew⟩
    · rw [hkeys]
      refine List.pairwise_append.mpr ⟨?_, List.pairwise_singleton _ _, ?_⟩
      · refine h.ordered.imp ?_
        rintro k k' ⟨i, j, hi, hj, hlt⟩
        exact ⟨i, j, hkeep hi, hkeep hj, hlt⟩
      · intro k hk k' hk'
        obtain ⟨i, hi⟩ := h.first k hk
        rw [List.mem_singleton.mp hk']
        exact ⟨i, ws.length, hkeep hi, hnew, hi.lt⟩

theorem Lww.delete {xs : List E} (h : Lww key ws xs) (k : K) :
    Lww key (ws ++ [.delete k]) (delete key k xs) := by
  have hsub : ((Keyed.delete key k xs).map key).Sublist (xs.map key) := List.eraseP_sublist.map key
  have hne : ∀ k' ∈ (Keyed.delete key k xs).map key, k' ≠ k := by
    intro k' hk'
    obtain ⟨x, hx, rfl⟩ := List.mem_map.mp hk'
    exact ((mem_delete h.nodup).mp hx).2
  have hkeep : ∀ {k' i}, k' ≠ k → FirstPut key k' ws i → FirstPut key k' (ws ++ [.delete k]) i := by
    intro k' i hk' hf
    refine hf.concat ?_
    intro heq
    cases heq
    exact hk' rfl
  refine ⟨hsub.nodup h.nodup, ?_, ?_, ?_⟩
  · intro x
    rw [mem_delete h.nodup, lastWrite_concat, h.mem]
    by_cases hx : k = key x
    · rw [if_pos (show (Write.delete k : Write E K).target key = key x from hx)]
      exact iff_of_false (fun hboth => hboth.2 hx.symm) nofun
    · rw [if_neg (show ¬(Write.delete k : Write E K).target key = key x from hx)]
      exact ⟨And.left, fun hlast => ⟨hlast, Ne.symm hx⟩⟩
  · intro k' hk'
    obtain ⟨i, hi⟩ := h.first k' (hsub.subset hk')
    exact ⟨i, hkeep (hne k' hk') hi⟩
  · refine (h.ordered.sublist hsub).imp_of_mem ?_
    rintro k' k'' hk' hk'' ⟨i, j, hi, hj, hlt⟩
    exact ⟨i, j, hkeep (hne k' hk') hi, hkeep (hne k'' hk'') hj, hlt⟩

theorem Lww.apply {xs : List E} (h : Lww key ws xs) (w : Write E K) :
    Lww key (ws ++ [w]) (w.apply key xs) := by
  cases w with
  | put e => exact h.put e
  | delete k => exact h.delete k

theorem entries_concat (ws : List (Write E K)) (w : Write E K) :
    entries key (ws ++ [w]) = w.apply key (entries key ws) := by
  unfold entries
  rw [List.foldl_append]
  rfl

/-- **A keyed list is the last-writer-wins map of its writes.** -/
theorem entries_lww (ws : List (Write E K)) : Lww key ws (entries key ws) := by
  induction ws using List.reverseRecOn with
  | nil => exact lww_nil
  | append_singleton ws w ih =>
      rw [entries_concat]
      exact ih.apply w

end Keyed
