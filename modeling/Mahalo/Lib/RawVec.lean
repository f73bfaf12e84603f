/-
Writing through a raw pointer into a vector's spare memory.

A vector is memory with anything in it, of which the first `len` elements are its
contents.  A cursor stores elements at offsets from its position and moves the position
on; a store behind the end of the memory is undefined behaviour, which is `none` here.
It remembers which offsets were stored to, and which values its position has had.

A writer `Appends` a list if, given room for it, it puts the list at its position,
stores nowhere else and to every offset of it, and leaves the position behind it.
Writers that append run one behind the other append what they append, so that a bound
on the length of the whole is all that is left to prove of a long one.
-/
import Mathlib.Data.List.Basic

namespace RawVec

variable {α β : Type*}

/-! ### Vectors -/

structure Vec (α : Type*) where
  mem : List α
  len : Nat
  bounded : len ≤ mem.length

/-- Where memory comes from: at least as much as was asked for, with anything in it. -/
structure Allocator (α : Type*) where
  mem : Nat → List α
  enough : ∀ n, n ≤ (mem n).length

namespace Vec

def contents (v : Vec α) : List α := v.mem.take v.len

def capacity (v : Vec α) : Nat := v.mem.length

def clear (v : Vec α) : Vec α := { mem := v.mem, len := 0, bounded := Nat.zero_le _ }

theorem length_contents (v : Vec α) : v.contents.length = v.len := List.length_take_of_le v.bounded

/-- `Vec::reserve`: room for `n` more elements. -/
def reserve (a : Allocator α) (v : Vec α) (n : Nat) : Vec α :=
  if v.capacity - v.len < n then
    { mem := v.contents ++ (a.mem (v.len + n)).drop v.len
      len := v.len
      bounded := by
        rw [List.length_append, v.length_contents]
        exact Nat.le_add_right _ _ }
  else v

@[simp] theorem reserve_len (a : Allocator α) (v : Vec α) (n : Nat) : (v.reserve a n).len = v.len := by
  unfold reserve
  split <;> rfl

theorem reserve_capacity (a : Allocator α) (v : Vec α) (n : Nat) :
    v.len + n ≤ (v.reserve a n).capacity := by
  unfold reserve
  split
  · have henough := a.enough (v.len + n)
    show v.len + n ≤ (v.contents ++ (a.mem (v.len + n)).drop v.len).length
    rw [List.length_append, v.length_contents, List.length_drop]
    omega
  · have := v.bounded
    unfold capacity at *
    omega

@[simp] theorem reserve_contents (a : Allocator α) (v : Vec α) (n : Nat) :
    (v.reserve a n).contents = v.contents := by
  unfold reserve
  split
  · exact List.take_left' v.length_contents
  · rfl

/-- `Vec::extend_from_slice` -/
def extend (a : Allocator α) (v : Vec α) (xs : List α) : Vec α :=
  { mem := v.contents ++ xs ++ (v.reserve a xs.length).mem.drop (v.len + xs.length)
    len := v.len + xs.length
    bounded := by
      rw [List.length_append, List.length_append, v.length_contents]
      exact Nat.le_add_right _ _ }

@[simp] theorem extend_contents (a : Allocator α) (v : Vec α) (xs : List α) :
    (v.extend a xs).contents = v.contents ++ xs := by
  refine List.take_left' ?_
  rw [List.length_append, v.length_contents]
  rfl

/-- `Vec::set_len`, which is undefined behind the end of the memory. -/
def setLen (mem : List α) (n : Nat) : Option (Vec α) :=
  if h : n ≤ mem.length then some { mem, len := n, bounded := h } else none

end Vec

/-! ### Cursors -/

structure Cursor (α : Type*) where
  mem : List α
  pos : Nat
  /-- the offsets that were stored to -/
  written : List Nat
  /-- the values of `pos` so far -/
  positions : List Nat

namespace Cursor

/-- At the beginning of a vector's memory. -/
def start (v : Vec α) : Cursor α := { mem := v.mem, pos := 0, written := [], positions := [0] }

/-- `ptr::copy_nonoverlapping(src, base.add(pos + k), src.len())` -/
def copy (c : Cursor α) (k : Nat) (src : List α) : Option (Cursor α) :=
  if c.pos + k + src.length ≤ c.mem.length then
    some { c with
      mem := c.mem.take (c.pos + k) ++ src ++ c.mem.drop (c.pos + k + src.length)
      written := c.written ++ List.range' (c.pos + k) src.length }
  else none

/-- `*base.add(pos + k) = x` -/
def put (c : Cursor α) (k : Nat) (x : α) : Option (Cursor α) := c.copy k [x]

/-- `pos += n` -/
def advance (c : Cursor α) (n : Nat) : Cursor α :=
  { c with pos := c.pos + n, positions := c.positions ++ [c.pos + n] }

/-- Single stores, one behind the other from `base.add(pos + k)` on, and `pos += n`. -/
def putEach (n : Nat) : Nat → List α → Cursor α → Option (Cursor α)
  | _, [], c => some (c.advance n)
  | k, x :: xs, c => (c.put k x).bind (putEach n (k + 1) xs)

/-- `copy_nonoverlapping` to the position, which is moved behind it. -/
def append (src : List α) (c : Cursor α) : Option (Cursor α) :=
  (c.copy 0 src).map fun c => c.advance src.length

end Cursor

/-! ### Stores in front of the position -/

/-- A store right behind what is in front. -/
theorem store_behind (front ys rest : List α) {n : Nat} (hn : front.length = n) :
    (front ++ rest).take n ++ ys ++ (front ++ rest).drop (n + ys.length)
      = front ++ ys ++ rest.drop ys.length := by
  rw [List.take_left' hn, ← hn, List.drop_length_add_append]

/-- From `c` to `c'` the list `xs` was stored at the position, which was not moved. -/
structure Stored (xs : List α) (c c' : Cursor α) : Prop where
  mem : c'.mem = c.mem.take c.pos ++ xs ++ c.mem.drop (c.pos + xs.length)
  pos : c'.pos = c.pos
  written : ∃ os, c'.written = c.written ++ os ∧ ∀ o, o ∈ os ↔ c.pos ≤ o ∧ o < c.pos + xs.length
  positions : c'.positions = c.positions

theorem stored_nil (c : Cursor α) : Stored [] c c where
  mem := by
    rw [List.append_nil]
    exact (List.take_append_drop c.pos c.mem).symm
  pos := rfl
  written := by
    refine ⟨[], (List.append_nil _).symm, fun o => ?_⟩
    rw [List.length_nil]
    exact iff_of_false List.not_mem_nil (by omega)
  positions := rfl

/-- A store right behind what was stored. -/
theorem Stored.copy {xs : List α} {c c' : Cursor α} (h : Stored xs c c') {k : Nat} (hk : k = xs.length)
    (ys : List α) (hroom : c.pos + (xs ++ ys).length ≤ c.mem.length) :
    ∃ c'', c'.copy k ys = some c'' ∧ Stored (xs ++ ys) c c'' := by
  subst hk
  rw [List.length_append] at hroom
  have htake : (c.mem.take c.pos).length = c.pos := List.length_take_of_le (by omega)
  have hfront : (c.mem.take c.pos ++ xs).length = c.pos + xs.length := by
    rw [List.length_append, htake]
  have hlength : c'.mem.length = c.mem.length := by
    rw [h.mem, List.length_append, hfront, List.length_drop]
    omega
  have hinside : c'.pos + xs.length + ys.length ≤ c'.mem.length := by
    rw [h.pos, hlength]
    omega
  refine ⟨_, if_pos hinside, ?_⟩
  constructor
  case mem =>
    show c'.mem.take (c'.pos + xs.length) ++ ys ++ c'.mem.drop (c'.pos + xs.length + ys.length) = _
    rw [h.pos, h.mem, store_behind _ ys _ hfront, List.drop_drop, List.length_append, Nat.add_assoc,
      List.append_assoc (c.mem.take c.pos)]
  case pos => exact h.pos
  case written =>
    obtain ⟨os, hos, hmem⟩ := h.written
    refine ⟨os ++ List.range' (c'.pos + xs.length) ys.length, ?_, fun o => ?_⟩
    · show c'.written ++ _ = _
      rw [hos, List.append_assoc]
    · rw [List.mem_append, hmem, List.mem_range'_1, h.pos, List.length_append]
      omega
  case positions => exact h.positions

/-! ### Writers -/

/-- From `c` to `c'` the list `xs` was stored at the position, which was moved behind it. -/
structure Appended (xs : List α) (c c' : Cursor α) : Prop where
  mem : c'.mem = c.mem.take c.pos ++ xs ++ c.mem.drop (c.pos + xs.length)
  pos : c'.pos = c.pos + xs.length
  written : ∃ os, c'.written = c.written ++ os ∧ ∀ o, o ∈ os ↔ c.pos ≤ o ∧ o < c.pos + xs.length
  positions : ∃ ps, c'.positions = c.positions ++ ps ∧ ps.Pairwise (· ≤ ·) ∧
    ∀ p ∈ ps, c.pos ≤ p ∧ p ≤ c'.pos

theorem Stored.advance {xs : List α} {c c' : Cursor α} (h : Stored xs c c') {n : Nat}
    (hn : n = xs.length) : Appended xs c (c'.advance n) where
  mem := h.mem
  pos := by
    show c'.pos + n = _
    rw [h.pos, hn]
  written := h.written
  positions := by
    refine ⟨[c'.pos + n], ?_, List.pairwise_singleton _ _, fun p hp => ?_⟩
    · show c'.positions ++ _ = _
      rw [h.positions]
    · cases List.mem_singleton.mp hp
      rw [h.pos]
      exact ⟨Nat.le_add_right _ _, Nat.le_of_eq (congrArg (· + n) h.pos.symm)⟩

theorem Appended.refl (c : Cursor α) : Appended [] c c where
  mem := (stored_nil c).mem
  pos := rfl
  written := (stored_nil c).written
  positions := ⟨[], (List.append_nil _).symm, List.Pairwise.nil, fun _ hp => absurd hp List.not_mem_nil⟩

theorem Appended.trans {xs ys : List α} {c c' c'' : Cursor α} (h : Appended xs c c')
    (h' : Appended ys c' c'') (hroom : c.pos + xs.length ≤ c.mem.length) :
    Appended (xs ++ ys) c c'' := by
  have htake : (c.mem.take c.pos).length = c.pos := List.length_take_of_le (by omega)
  have hfront : (c.mem.take c.pos ++ xs).length = c.pos + xs.length := by
    rw [List.length_append, htake]
  constructor
  case mem =>
    rw [h'.mem, h.pos, h.mem, store_behind _ ys _ hfront, List.drop_drop, List.length_append,
      Nat.add_assoc, List.append_assoc (c.mem.take c.pos)]
  case pos => rw [h'.pos, h.pos, List.length_append, Nat.add_assoc]
  case written =>
    obtain ⟨os, hos, hmem⟩ := h.written
    obtain ⟨os', hos', hmem'⟩ := h'.written
    refine ⟨os ++ os', by rw [hos', hos, List.append_assoc], fun o => ?_⟩
    rw [List.mem_append, hmem, hmem', h.pos, List.length_append]
    omega
  case positions =>
    obtain ⟨ps, hps, hsorted, hbounds⟩ := h.positions
    obtain ⟨ps', hps', hsorted', hbounds'⟩ := h'.positions
    have hpos := h.pos
    have hpos' := h'.pos
    refine ⟨ps ++ ps', by rw [hps', hps, List.append_assoc], List.pairwise_append.mpr
      ⟨hsorted, hsorted', fun p hp q hq => ?_⟩, fun p hp => ?_⟩
    · have := hbounds p hp
      have := hbounds' q hq
      omega
    · rcases List.mem_append.mp hp with hp | hp
      · have := hbounds p hp
        omega
      · have := hbounds' p hp
        omega

theorem Appended.length_mem {xs : List α} {c c' : Cursor α} (h : Appended xs c c')
    (hroom : c.pos + xs.length ≤ c.mem.length) : c'.mem.length = c.mem.length := by
  rw [h.mem, List.length_append, List.length_append, List.length_take_of_le (by omega), List.length_drop]
  omega

/-- With room for `xs` behind the position, the writer appends it. -/
def Appends (xs : List α) (write : Cursor α → Option (Cursor α)) : Prop :=
  ∀ c, c.pos + xs.length ≤ c.mem.length → ∃ c', write c = some c' ∧ Appended xs c c'

theorem appends_append (xs : List α) : Appends xs (Cursor.append xs) := by
  intro c hroom
  obtain ⟨c', hcopy, hstored⟩ := (stored_nil c).copy rfl xs hroom
  refine ⟨_, ?_, hstored.advance rfl⟩
  show (c.copy ([] : List α).length xs).map _ = _
  rw [hcopy]
  rfl

theorem Stored.putEach {n : Nat} (ys : List α) :
    ∀ {xs : List α} {c c' : Cursor α}, Stored xs c c' → n = (xs ++ ys).length →
      c.pos + (xs ++ ys).length ≤ c.mem.length →
      ∃ c'', c'.putEach n xs.length ys = some c'' ∧ Appended (xs ++ ys) c c'' := by
  induction ys with
  | nil =>
      intro xs c c' h hn _
      rw [List.append_nil] at hn ⊢
      exact ⟨_, rfl, h.advance hn⟩
  | cons y ys ih =>
      intro xs c c' h hn hroom
      rw [List.append_cons] at hn hroom ⊢
      obtain ⟨c₁, hput, hstored⟩ := h.copy rfl [y] (by
        rw [List.length_append] at hroom
        omega)
      obtain ⟨c₂, heach, happended⟩ := ih hstored hn hroom
      refine ⟨c₂, ?_, happended⟩
      rw [List.length_append, List.length_singleton] at heach
      show (c'.copy xs.length [y]).bind _ = _
      rw [hput]
      exact heach

theorem appends_putEach (xs : List α) : Appends xs (Cursor.putEach xs.length 0 xs) :=
  fun c hroom => (stored_nil c).putEach xs rfl hroom

theorem appends_pure : Appends ([] : List α) some := fun c _ => ⟨c, rfl, .refl c⟩

theorem Appends.bind {xs ys : List α} {f g : Cursor α → Option (Cursor α)} (hf : Appends xs f)
    (hg : Appends ys g) : Appends (xs ++ ys) fun c => f c >>= g := by
  intro c hroom
  rw [List.length_append] at hroom
  have hfirst : c.pos + xs.length ≤ c.mem.length := by omega
  obtain ⟨c', hc', happended⟩ := hf c hfirst
  obtain ⟨c'', hc'', happended'⟩ := hg c' (by
    rw [happended.pos, happended.length_mem hfirst]
    omega)
  refine ⟨c'', ?_, happended.trans happended' hfirst⟩
  show (f c).bind g = some c''
  rw [hc']
  exact hc''

/-- A loop appends what its rounds append. -/
theorem Appends.foldlM {enc : β → List α} {step : Cursor α → β → Option (Cursor α)}
    (h : ∀ x, Appends (enc x) fun c => step c x) (xs : List β) :
    Appends (xs.flatMap enc) fun c => xs.foldlM step c := by
  induction xs with
  | nil => exact appends_pure
  | cons x rest ih =>
      rw [List.flatMap_cons]
      exact (h x).bind ih

/-- From the beginning of a vector: what was stored to, and what is there. -/
theorem Appends.start {xs : List α} {write : Cursor α → Option (Cursor α)} (h : Appends xs write)
    (v : Vec α) (hroom : xs.length ≤ v.capacity) :
    ∃ c, write (.start v) = some c ∧ c.pos = xs.length ∧ c.mem.take c.pos = xs ∧
      c.mem.length = v.capacity ∧ (∀ o, o ∈ c.written ↔ o < xs.length) ∧ c.positions.Pairwise (· ≤ ·) := by
  have hroom : (Cursor.start v).pos + xs.length ≤ (Cursor.start v).mem.length := by
    rw [show (Cursor.start v).pos = 0 from rfl, Nat.zero_add]
    exact hroom
  obtain ⟨c, hc, happended⟩ := h (.start v) hroom
  have hpos : c.pos = xs.length := happended.pos.trans (Nat.zero_add _)
  refine ⟨c, hc, hpos, ?_, happended.length_mem hroom, ?_, ?_⟩
  · rw [happended.mem, hpos]
    exact List.take_left' rfl
  · obtain ⟨os, hos, hmem⟩ := happended.written
    intro o
    rw [hos, show (Cursor.start v).written = [] from rfl, List.nil_append, hmem,
      show (Cursor.start v).pos = 0 from rfl]
    omega
  · obtain ⟨ps, hps, hsorted, hbounds⟩ := happended.positions
    rw [hps]
    exact List.pairwise_append.mpr ⟨List.pairwise_singleton _ _, hsorted, fun p hp q hq => by
      cases List.mem_singleton.mp hp
      exact Nat.zero_le q⟩

end RawVec
