/-
Tables whose rows carry an id, and a new row the one above the greatest.

Rows are put at the end and taken out anywhere, so their ids rise from the first row to
the last and no two are the same.  A table is then a map from ids to rows, and what
clients ask of it can be answered by the map alone, but for the choice of a new id: any
that is above those in the map will do.  The ids of rows that are gone may come again.

Where ids have a largest value, whoever adds a row may run out of them.  So what is done to
a table is relied on to take the next id only while that is below a bound.
-/
import Mathlib.Data.List.Basic
import Mathlib.Logic.Function.Basic

namespace Table

variable {R : Type*} (id : R → Nat)

/-- `rows.iter().map(|r| r.id).max().unwrap_or(0) + 1` -/
def nextId (rows : List R) : Nat := (rows.map id).foldr max 0 + 1

/-- `rows.iter().find(|r| r.id == k)` -/
def lookup (rows : List R) (k : Nat) : Option R := rows.find? fun r => id r == k

/-- `rows.iter_mut().find(|r| r.id == k)`, and what is done to the row. -/
def update (k : Nat) (f : R → R) : List R → List R
  | [] => []
  | r :: rest => if id r = k then f r :: rest else r :: update k f rest

/-- `rows.retain(|r| r.id != k)` -/
def delete (rows : List R) (k : Nat) : List R := rows.filter fun r => id r != k

/-- The ids rise from the first row to the last, and start above 0. -/
structure Valid (rows : List R) : Prop where
  ordered : rows.Pairwise fun r r' => id r < id r'
  positive : ∀ r ∈ rows, 0 < id r

variable {id} {rows : List R}

/-! ### Rows by their ids -/

theorem lt_nextId {r : R} (h : r ∈ rows) : id r < nextId id rows := by
  unfold nextId
  induction rows with
  | nil => cases h
  | cons r' rest ih =>
      rw [List.map_cons, List.foldr_cons]
      rcases List.mem_cons.mp h with rfl | h
      · omega
      · have := ih h
        omega

theorem nextId_le {n : Nat} (h : ∀ r ∈ rows, id r ≤ n) : nextId id rows ≤ n + 1 := by
  unfold nextId
  induction rows with
  | nil => simp
  | cons r rest ih =>
      rw [List.forall_mem_cons] at h
      have := ih h.2
      rw [List.map_cons, List.foldr_cons]
      have := h.1
      omega

theorem lookup_eq_some {r : R} {k : Nat} (h : lookup id rows k = some r) : r ∈ rows ∧ id r = k :=
  ⟨List.mem_of_find?_eq_some h, by simpa using List.find?_some h⟩

theorem lookup_eq_none {k : Nat} : lookup id rows k = none ↔ ∀ r ∈ rows, id r ≠ k := by
  unfold lookup
  simp

theorem Valid.lookup_mem (hv : Valid id rows) {r : R} : lookup id rows (id r) = some r ↔ r ∈ rows := by
  refine ⟨fun h => (lookup_eq_some h).1, ?_⟩
  intro h
  obtain ⟨hordered, -⟩ := hv
  unfold lookup
  induction rows with
  | nil => cases h
  | cons r' rest ih =>
      rw [List.pairwise_cons] at hordered
      rcases List.mem_cons.mp h with rfl | h
      · simp
      · have hlt := hordered.1 r h
        rw [List.find?_cons_of_neg (by simp; omega)]
        exact ih h hordered.2

/-- A row at the end is found where there was none. -/
theorem lookup_append (rows : List R) (r : R) (k : Nat) :
    lookup id (rows ++ [r]) k = (lookup id rows k).or (if k = id r then some r else none) := by
  unfold lookup
  rw [List.find?_append]
  by_cases hk : k = id r
  · simp [hk]
  · simp [hk, Ne.symm hk]

theorem lookup_concat {r : R} (hr : id r = nextId id rows) (k : Nat) :
    lookup id (rows ++ [r]) k = if k = id r then some r else lookup id rows k := by
  rw [lookup_append]
  by_cases hk : k = id r
  · have hnone : lookup id rows k = none := by
      rw [lookup_eq_none]
      intro r' hr'
      have hlt : id r' < nextId id rows := lt_nextId hr'
      omega
    rw [hnone, if_pos hk, Option.none_or]
  · rw [if_neg hk, if_neg hk, Option.or_none]

theorem lookup_update {f : R → R} (hf : ∀ r, id (f r) = id r) (k j : Nat) :
    lookup id (update id k f rows) j = if j = k then (lookup id rows k).map f else lookup id rows j := by
  unfold lookup
  induction rows with
  | nil => simp [update]
  | cons r rest ih =>
      rw [update]
      by_cases hr : id r = k
      · subst hr
        by_cases hj : j = id r
        · simp [hj, hf]
        · simp [hf, Ne.symm hj, hj]
      · rw [if_neg hr]
        by_cases hj : id r = j
        · subst hj
          simp [hr]
        · simp [hj, hr, ih]

theorem lookup_delete (k j : Nat) :
    lookup id (delete id rows k) j = if j = k then none else lookup id rows j := by
  unfold lookup delete
  induction rows with
  | nil => simp
  | cons r rest ih =>
      by_cases hr : id r = k
      · subst hr
        rw [List.filter_cons_of_neg (by simp), ih]
        by_cases hj : j = id r
        · simp [hj]
        · simp [hj, Ne.symm hj]
      · rw [List.filter_cons_of_pos (by simpa using hr)]
        by_cases hj : id r = j
        · subst hj
          simp [hr]
        · simp [hj, ih]

theorem length_delete (k : Nat) :
    (delete id rows k).length < rows.length ↔ (lookup id rows k).isSome = true := by
  have hlt : (delete id rows k).length < rows.length ↔ ∃ r ∈ rows, id r = k := by
    unfold delete
    rw [List.length_filter_lt_length_iff_exists]
    simp
  rw [hlt, ← Option.ne_none_iff_isSome, ne_eq, lookup_eq_none]
  simp

theorem mem_update {f : R → R} {k : Nat} {r : R} (h : r ∈ update id k f rows) :
    r ∈ rows ∨ ∃ r' ∈ rows, id r' = k ∧ r = f r' := by
  induction rows with
  | nil => cases h
  | cons r' rest ih =>
      rw [update] at h
      split_ifs at h with hr'
      · rcases List.mem_cons.mp h with rfl | h
        · exact Or.inr ⟨r', by simp, hr', rfl⟩
        · exact Or.inl (List.mem_cons_of_mem _ h)
      · rcases List.mem_cons.mp h with rfl | h
        · exact Or.inl (by simp)
        · rcases ih h with h | ⟨r'', hr'', h⟩
          · exact Or.inl (List.mem_cons_of_mem _ h)
          · exact Or.inr ⟨r'', List.mem_cons_of_mem _ hr'', h⟩

/-! ### What is done to a table keeps it valid -/

theorem valid_nil : Valid id ([] : List R) := ⟨List.Pairwise.nil, by simp⟩

theorem Valid.concat (hv : Valid id rows) {r : R} (hr : id r = nextId id rows) : Valid id (rows ++ [r]) where
  ordered := by
    rw [List.pairwise_append]
    refine ⟨hv.ordered, List.pairwise_singleton .., ?_⟩
    intro r' hr' r'' hr''
    rw [List.mem_singleton.mp hr'', hr]
    exact lt_nextId hr'
  positive := by
    intro r' hr'
    rcases List.mem_append.mp hr' with h | h
    · exact hv.positive r' h
    · rw [List.mem_singleton.mp h, hr]
      exact Nat.succ_pos _

theorem map_update {f : R → R} (hf : ∀ r, id (f r) = id r) (k : Nat) :
    (update id k f rows).map id = rows.map id := by
  induction rows with
  | nil => rfl
  | cons r rest ih =>
      rw [update]
      split_ifs
      · rw [List.map_cons, List.map_cons, hf]
      · rw [List.map_cons, List.map_cons, ih]

theorem Valid.update (hv : Valid id rows) {f : R → R} (hf : ∀ r, id (f r) = id r) (k : Nat) :
    Valid id (Table.update id k f rows) where
  ordered := by
    have hmap := List.pairwise_map.mpr hv.ordered
    rw [← map_update hf k] at hmap
    exact List.pairwise_map.mp hmap
  positive := by
    intro r hr
    rcases mem_update hr with h | ⟨r', hr', -, rfl⟩
    · exact hv.positive r h
    · rw [hf]
      exact hv.positive r' hr'

theorem Valid.delete (hv : Valid id rows) (k : Nat) : Valid id (Table.delete id rows k) where
  ordered := hv.ordered.filter _
  positive r hr := hv.positive r (List.mem_of_mem_filter hr)

theorem Valid.set (hv : Valid id rows) {f : R → R} {i : Nat} {r : R} (hi : rows[i]? = some r) :
    rows.set i (f r) = Table.update id (id r) f rows := by
  obtain ⟨hordered, -⟩ := hv
  induction rows generalizing i with
  | nil => cases hi
  | cons r' rest ih =>
      rw [List.pairwise_cons] at hordered
      rw [Table.update]
      cases i with
      | zero =>
          obtain rfl : r' = r := by simpa using hi
          rw [if_pos rfl, List.set_cons_zero]
      | succ i =>
          rw [List.getElem?_cons_succ] at hi
          have hlt := hordered.1 r (List.mem_of_getElem? hi)
          rw [if_neg (Nat.ne_of_lt hlt), List.set_cons_succ, ih hi hordered.2]

/-- A valid table of rows that are as they should be, with ids up to a bound. -/
structure Good (id : R → Nat) (P : R → Prop) (n : Nat) (rows : List R) : Prop where
  valid : Valid id rows
  each : ∀ r ∈ rows, P r
  bound : ∀ r ∈ rows, id r ≤ n

variable {P : R → Prop} {n : Nat}

theorem Good.mono {n' : Nat} (hg : Good id P n rows) (h : n ≤ n') : Good id P n' rows :=
  ⟨hg.valid, hg.each, fun r hr => Nat.le_trans (hg.bound r hr) h⟩

theorem Good.concat (hg : Good id P n rows) {r : R} (hr : id r = nextId id rows) (hP : P r) :
    Good id P (n + 1) (rows ++ [r]) where
  valid := hg.valid.concat hr
  each := by
    rw [List.forall_mem_append]
    exact ⟨hg.each, by simpa using hP⟩
  bound := by
    rw [List.forall_mem_append]
    refine ⟨fun r' hr' => Nat.le_succ_of_le (hg.bound r' hr'), ?_⟩
    rw [List.forall_mem_singleton, hr]
    exact nextId_le hg.bound

theorem Good.update (hg : Good id P n rows) {f : R → R} (hf : ∀ r, id (f r) = id r) (hP : ∀ r, P r → P (f r))
    (k : Nat) : Good id P n (Table.update id k f rows) where
  valid := hg.valid.update hf k
  each := by
    intro r hr
    rcases mem_update hr with h | ⟨r', hr', -, rfl⟩
    · exact hg.each r h
    · exact hP r' (hg.each r' hr')
  bound := by
    intro r hr
    rcases mem_update hr with h | ⟨r', hr', -, rfl⟩
    · exact hg.bound r h
    · rw [hf]
      exact hg.bound r' hr'

theorem Good.delete (hg : Good id P n rows) (k : Nat) : Good id P n (Table.delete id rows k) where
  valid := hg.valid.delete k
  each r hr := hg.each r (List.mem_of_mem_filter hr)
  bound r hr := hg.bound r (List.mem_of_mem_filter hr)

/-- What is done to a table at once, and whether a row may be added: with the next id, if that is below
the bound. -/
inductive Change (id : R → Nat) (P : R → Prop) (cap : Nat) (rows : List R) : Bool → List R → Prop
  | same (adds : Bool) : Change id P cap rows adds rows
  | updated (adds : Bool) (k : Nat) (f : R → R) : (∀ r, id (f r) = id r) → (∀ r, P r → P (f r)) →
      Change id P cap rows adds (Table.update id k f rows)
  | set (adds : Bool) (i : Nat) (r : R) (f : R → R) : rows[i]? = some r → (∀ r, id (f r) = id r) →
      (∀ r, P r → P (f r)) → Change id P cap rows adds (rows.set i (f r))
  | deleted (adds : Bool) (k : Nat) : Change id P cap rows adds (Table.delete id rows k)
  | added (r : R) : (nextId id rows < cap → id r = nextId id rows) → P r → Change id P cap rows true (rows ++ [r])

variable {cap : Nat} {adds : Bool} {rows' : List R}

/-- Rows stay as they should be, whatever ids there are. -/
theorem Change.each (h : Change id P cap rows adds rows') (hP : ∀ r ∈ rows, P r) : ∀ r ∈ rows', P r := by
  intro r hr
  cases h with
  | same => exact hP r hr
  | updated _ k f _ hf =>
      rcases mem_update hr with h | ⟨r', hr', -, rfl⟩
      · exact hP r h
      · exact hf r' (hP r' hr')
  | set _ i r' f hi _ hf =>
      rcases List.mem_or_eq_of_mem_set hr with h | rfl
      · exact hP r h
      · exact hf r' (hP r' (List.mem_of_getElem? hi))
  | deleted _ k => exact hP r (List.mem_of_mem_filter hr)
  | added r' _ hr' =>
      rcases List.mem_append.mp hr with h | h
      · exact hP r h
      · rw [List.mem_singleton.mp h]
        exact hr'

/-- Below the bound, a good table stays good. -/
theorem Good.changed (hg : Good id P n rows) (h : Change id P cap rows adds rows') (hn : n + adds.toNat < cap) :
    Good id P (n + adds.toNat) rows' := by
  cases h with
  | same => exact hg.mono (Nat.le_add_right ..)
  | updated _ k f hf hP => exact (hg.update hf hP k).mono (Nat.le_add_right ..)
  | set _ i r f hi hf hP =>
      rw [hg.valid.set hi]
      exact (hg.update hf hP _).mono (Nat.le_add_right ..)
  | deleted _ k => exact (hg.delete k).mono (Nat.le_add_right ..)
  | added r hr hP =>
      have hle : nextId id rows ≤ n + 1 := nextId_le hg.bound
      exact hg.concat (hr (Nat.lt_of_le_of_lt hle hn)) hP

/-! ### What clients ask -/

inductive Request (R : Type*) where
  | index
  | read (k : Nat)
  /-- a new row, made for its id -/
  | create (make : Nat → R)
  | update (k : Nat) (f : R → R)
  | delete (k : Nat)

inductive Answer (R : Type*) where
  | rows (rows : List R)
  | row (r : R)
  | deleted
  | notFound

/-- Rows are made with the id they are given, and keep it. -/
def Request.Keeps (id : R → Nat) : Request R → Prop
  | .create make => ∀ k, id (make k) = k
  | .update _ f => ∀ r, id (f r) = id r
  | _ => True

/-- What a table answers. -/
def serve (id : R → Nat) (rows : List R) : Request R → List R × Answer R
  | .index => (rows, .rows rows)
  | .read k =>
      match lookup id rows k with
      | some r => (rows, .row r)
      | none => (rows, .notFound)
  | .create make => (rows ++ [make (nextId id rows)], .row (make (nextId id rows)))
  | .update k f =>
      match lookup id rows k with
      | some r => (Table.update id k f rows, .row (f r))
      | none => (rows, .notFound)
  | .delete k =>
      if (Table.delete id rows k).length < rows.length then (Table.delete id rows k, .deleted)
      else (Table.delete id rows k, .notFound)

/-- A request takes one id at most. -/
theorem nextId_serve (rows : List R) {q : Request R} (hq : q.Keeps id) : nextId id (serve id rows q).1 ≤ nextId id rows + 1 := by
  have hkept : nextId id rows ≤ nextId id rows + 1 := Nat.le_succ _
  have hdeleted (k : Nat) : nextId id (delete id rows k) ≤ nextId id rows + 1 :=
    nextId_le fun r hr => Nat.le_of_lt (lt_nextId (List.mem_of_mem_filter hr))
  cases q with
  | index => exact hkept
  | read k =>
      unfold serve
      dsimp only
      split <;> exact hkept
  | create make =>
      refine nextId_le fun r hr => ?_
      rcases List.mem_append.mp hr with h | h
      · exact Nat.le_of_lt (lt_nextId h)
      · rw [List.mem_singleton.mp h]
        exact Nat.le_of_eq (hq _)
  | update k f =>
      unfold serve
      dsimp only
      split
      · unfold nextId
        rw [map_update hq]
        exact hkept
      · exact hkept
  | delete k =>
      unfold serve
      dsimp only
      split <;> exact hdeleted k

/-- What a map answers: a new row gets some id above those in the map. -/
inductive MapStep (id : R → Nat) (m : Nat → Option R) : Request R → Answer R → (Nat → Option R) → Prop
  | index (rows : List R) : (rows.Pairwise fun r r' => id r < id r') → (∀ r, r ∈ rows ↔ m (id r) = some r) →
      MapStep id m .index (.rows rows) m
  | read (k : Nat) (r : R) : m k = some r → MapStep id m (.read k) (.row r) m
  | unread (k : Nat) : m k = none → MapStep id m (.read k) .notFound m
  | create (make : Nat → R) (k : Nat) : 0 < k → (∀ j, (m j).isSome = true → j < k) →
      MapStep id m (.create make) (.row (make k)) (Function.update m k (some (make k)))
  | update (k : Nat) (f : R → R) (r : R) : m k = some r →
      MapStep id m (.update k f) (.row (f r)) (Function.update m k (some (f r)))
  | unupdated (k : Nat) (f : R → R) : m k = none → MapStep id m (.update k f) .notFound m
  | delete (k : Nat) (r : R) : m k = some r → MapStep id m (.delete k) .deleted (Function.update m k none)
  | undeleted (k : Nat) : m k = none → MapStep id m (.delete k) .notFound m

/-- **A valid table answers as the map does**, and stays valid. -/
theorem serve_refines (hv : Valid id rows) {q : Request R} (hq : q.Keeps id) :
    MapStep id (lookup id rows) q (serve id rows q).2 (lookup id (serve id rows q).1) ∧
      Valid id (serve id rows q).1 := by
  cases q with
  | index => exact ⟨.index rows hv.ordered fun r => hv.lookup_mem.symm, hv⟩
  | read k =>
      unfold serve
      dsimp only
      cases hk : lookup id rows k with
      | none => exact ⟨.unread k hk, hv⟩
      | some r => exact ⟨.read k r hk, hv⟩
  | create make =>
      have hid : id (make (nextId id rows)) = nextId id rows := hq _
      have hmap : lookup id (rows ++ [make (nextId id rows)])
          = Function.update (lookup id rows) (nextId id rows) (some (make (nextId id rows))) := by
        funext j
        rw [lookup_concat hid, Function.update_apply, hid]
      unfold serve
      dsimp only
      rw [hmap]
      refine ⟨.create make _ (Nat.succ_pos _) ?_, hv.concat hid⟩
      intro j hj
      obtain ⟨r, hr⟩ := Option.isSome_iff_exists.mp hj
      obtain ⟨hmem, rfl⟩ := lookup_eq_some hr
      exact lt_nextId hmem
  | update k f =>
      unfold serve
      dsimp only
      cases hk : lookup id rows k with
      | none => exact ⟨.unupdated k f hk, hv⟩
      | some r =>
          have hmap : lookup id (Table.update id k f rows) = Function.update (lookup id rows) k (some (f r)) := by
            funext j
            rw [lookup_update hq, Function.update_apply, hk]
            rfl
          dsimp only
          rw [hmap]
          exact ⟨.update k f r hk, hv.update hq k⟩
  | delete k =>
      have hmap : lookup id (Table.delete id rows k) = Function.update (lookup id rows) k none := by
        funext j
        rw [lookup_delete, Function.update_apply]
      unfold serve
      dsimp only
      split_ifs with hlt
      · obtain ⟨r, hr⟩ := Option.isSome_iff_exists.mp ((length_delete k).mp hlt)
        dsimp only
        rw [hmap]
        exact ⟨.delete k r hr, hv.delete k⟩
      · have hnone : lookup id rows k = none := by
          rw [length_delete] at hlt
          simpa using hlt
        have hsame : lookup id (Table.delete id rows k) = lookup id rows := by
          rw [hmap, ← hnone]
          exact Function.update_eq_self k _
        dsimp only
        rw [hsame]
        exact ⟨.undeleted k hnone, hv.delete k⟩

end Table
