/-
Incremental parsing of a framed stream.

A frame parser looks at the bytes received so far and says "not yet", "this
frame, so many bytes long" or "never".  It is *stable* when more bytes cannot
change its mind once it has said one of the last two.  A connection then drains
its buffer: it hands every complete frame to a handler, which carries a state and
may stop the connection, and keeps what is left for the next read.

What makes that safe is `drain_append`: draining a prefix and then what it left
together with later bytes is draining the whole.  So the result of a connection
depends on its bytes and not on how they were cut.
-/
import Mathlib.Data.List.Basic

namespace Framing

variable {B E X W S : Type*}

/-- What a frame parser says of a buffer. -/
abbrev Parser (B E X : Type*) := List B → Except E (Option (X × Nat))

/-- More bytes do not change what a parser has decided. -/
structure Stable (parse : Parser B E X) : Prop where
  /-- A frame takes at least one element, all of them in the buffer. -/
  consumes : ∀ {buf : List B} {x : X} {n : Nat},
    parse buf = .ok (some (x, n)) → 0 < n ∧ n ≤ buf.length
  some_append : ∀ {buf : List B} {x : X} {n : Nat} (ext : List B),
    parse buf = .ok (some (x, n)) → parse (buf ++ ext) = .ok (some (x, n))
  error_append : ∀ {buf : List B} {e : E} (ext : List B),
    parse buf = .error e → parse (buf ++ ext) = .error e

/-- What a connection does with a frame, and with a buffer that can never hold one. -/
structure Handler (W E X S : Type*) where
  onFrame : W → X → W × Option S
  onError : W → E → W × S

/-- How a drain ends: out of complete frames, or stopped; and what it has not consumed. -/
inductive Drained (B W S : Type*) where
  | more (w : W) (rest : List B)
  | stop (w : W) (s : S) (rest : List B)

/-- Handle complete frames from the front until there is none, at most `fuel` of them. -/
def drainFuel (parse : Parser B E X) (h : Handler W E X S) : Nat → W → List B → Drained B W S
  | 0, w, buf => .more w buf
  | fuel + 1, w, buf =>
      if buf.isEmpty then .more w buf
      else match parse buf with
        | .ok none => .more w buf
        | .error e => .stop (h.onError w e).1 (h.onError w e).2 buf
        | .ok (some (x, n)) =>
            match h.onFrame w x with
            | (w', none) => drainFuel parse h fuel w' (buf.drop n)
            | (w', some s) => .stop w' s (buf.drop n)

/-- Drain a buffer.  Every frame takes an element, so its length is fuel enough. -/
def drain (parse : Parser B E X) (h : Handler W E X S) (w : W) (buf : List B) : Drained B W S :=
  drainFuel parse h buf.length w buf

variable {parse : Parser B E X} {h : Handler W E X S}

theorem drop_length_lt (hs : Stable parse) {buf : List B} {x : X} {n : Nat}
    (hp : parse buf = .ok (some (x, n))) : (buf.drop n).length < buf.length := by
  have := hs.consumes hp
  rw [List.length_drop]
  omega

theorem drainFuel_nil (fuel : Nat) (w : W) : drainFuel parse h fuel w [] = .more w [] := by
  cases fuel <;> rfl

/-- One round of the loop on a buffer that is not empty. -/
theorem drainFuel_succ {buf : List B} (hne : buf ≠ []) (fuel : Nat) (w : W) :
    drainFuel parse h (fuel + 1) w buf = match parse buf with
      | .ok none => .more w buf
      | .error e => .stop (h.onError w e).1 (h.onError w e).2 buf
      | .ok (some (x, n)) =>
          match h.onFrame w x with
          | (w', none) => drainFuel parse h fuel w' (buf.drop n)
          | (w', some s) => .stop w' s (buf.drop n) := by
  have hempty : buf.isEmpty = false := by simpa using hne
  rw [drainFuel, hempty]
  rfl

/-- Fuel beyond the length of the buffer is never used. -/
theorem drainFuel_fuel (hs : Stable parse) :
    ∀ (f g : Nat) (w : W) (buf : List B), buf.length ≤ f → buf.length ≤ g →
      drainFuel parse h f w buf = drainFuel parse h g w buf := by
  intro f
  induction f with
  | zero =>
      intro g w buf hf _
      have hnil : buf = [] := List.length_eq_zero_iff.mp (Nat.le_zero.mp hf)
      rw [hnil, drainFuel_nil, drainFuel_nil]
  | succ f ih =>
      intro g w buf hf hg
      by_cases hne : buf = []
      · rw [hne, drainFuel_nil, drainFuel_nil]
      obtain ⟨g, rfl⟩ : ∃ k, g = k + 1 :=
        ⟨g - 1, by have := List.length_pos_iff.mpr hne; omega⟩
      rw [drainFuel_succ hne, drainFuel_succ hne]
      cases hp : parse buf with
      | error e => rfl
      | ok o =>
          rcases o with _ | ⟨x, n⟩
          · rfl
          · have hlt := drop_length_lt hs hp
            rcases hx : h.onFrame w x with ⟨w', _ | s⟩
            · simp only [hx]
              exact ih g w' (buf.drop n) (by omega) (by omega)
            · simp only [hx]

/-! ### The loop, one frame at a time -/

@[simp] theorem drain_nil (w : W) : drain parse h w [] = .more w [] := rfl

private theorem drain_round (parse : Parser B E X) (h : Handler W E X S) {buf : List B}
    (hne : buf ≠ []) :
    ∃ fuel, buf.length = fuel + 1 ∧ ∀ w, drain parse h w buf = drainFuel parse h (fuel + 1) w buf := by
  obtain ⟨fuel, hfuel⟩ : ∃ k, buf.length = k + 1 :=
    ⟨buf.length - 1, by have := List.length_pos_iff.mpr hne; omega⟩
  exact ⟨fuel, hfuel, fun w => by rw [drain, hfuel]⟩

theorem drain_none {w : W} {buf : List B} (hp : parse buf = .ok none) :
    drain parse h w buf = .more w buf := by
  by_cases hne : buf = []
  · rw [hne]; rfl
  · obtain ⟨fuel, -, hd⟩ := drain_round parse h hne
    rw [hd, drainFuel_succ hne, hp]

theorem drain_error {w : W} {buf : List B} {e : E} (hne : buf ≠ []) (hp : parse buf = .error e) :
    drain parse h w buf = .stop (h.onError w e).1 (h.onError w e).2 buf := by
  obtain ⟨fuel, -, hd⟩ := drain_round parse h hne
  rw [hd, drainFuel_succ hne, hp]

theorem ne_nil_of_frame (hs : Stable parse) {buf : List B} {x : X} {n : Nat}
    (hp : parse buf = .ok (some (x, n))) : buf ≠ [] := by
  have := hs.consumes hp
  intro hnil
  rw [hnil] at this
  simp only [List.length_nil] at this
  omega

/-- After a frame that does not stop the connection, the drain goes on behind it. -/
theorem drain_frame (hs : Stable parse) {w w' : W} {buf : List B} {x : X} {n : Nat}
    (hp : parse buf = .ok (some (x, n))) (hx : h.onFrame w x = (w', none)) :
    drain parse h w buf = drain parse h w' (buf.drop n) := by
  obtain ⟨fuel, hfuel, hd⟩ := drain_round parse h (ne_nil_of_frame hs hp)
  rw [hd, drainFuel_succ (ne_nil_of_frame hs hp), hp]
  simp only [hx]
  have := drop_length_lt hs hp
  exact drainFuel_fuel hs _ _ _ _ (by omega) (Nat.le_refl _)

theorem drain_stop (hs : Stable parse) {w w' : W} {buf : List B} {x : X} {n : Nat} {s : S}
    (hp : parse buf = .ok (some (x, n))) (hx : h.onFrame w x = (w', some s)) :
    drain parse h w buf = .stop w' s (buf.drop n) := by
  obtain ⟨fuel, -, hd⟩ := drain_round parse h (ne_nil_of_frame hs hp)
  rw [hd, drainFuel_succ (ne_nil_of_frame hs hp), hp]
  simp only [hx]

/-! ### Draining in pieces -/

/--
**A buffer drained in pieces is drained as a whole.**  Where the first piece
leaves the connection running, it goes on with what was left and the rest; where
it stopped, the rest is never looked at.
-/
theorem drain_append (hs : Stable parse) :
    ∀ (buf : List B) (w : W) (ext : List B),
      drain parse h w (buf ++ ext) = match drain parse h w buf with
        | .more w' rest => drain parse h w' (rest ++ ext)
        | .stop w' s rest => .stop w' s (rest ++ ext) := by
  intro buf
  induction hlen : buf.length using Nat.strongRecOn generalizing buf with
  | _ len ih =>
      intro w ext
      by_cases hne : buf = []
      · rw [hne]; rfl
      cases hp : parse buf with
      | error e =>
          rw [drain_error hne hp, drain_error (by simp [hne]) (hs.error_append ext hp)]
      | ok o =>
          rcases o with _ | ⟨x, n⟩
          · rw [drain_none hp]
          · have happ := hs.some_append ext hp
            have hdrop : (buf ++ ext).drop n = buf.drop n ++ ext :=
              List.drop_append_of_le_length (hs.consumes hp).2
            rcases hx : h.onFrame w x with ⟨w', _ | s⟩
            · rw [drain_frame hs hp hx, drain_frame hs happ hx, hdrop]
              have hlt := drop_length_lt hs hp
              exact ih _ (by omega) (buf.drop n) rfl w' ext
            · rw [drain_stop hs hp hx, drain_stop hs happ hx, hdrop]

/-! ### Frame boundaries -/

/-- `rest` is what a buffer holds behind some number of complete frames. -/
inductive Boundary (parse : Parser B E X) : List B → List B → Prop
  | whole (buf : List B) : Boundary parse buf buf
  | frame {buf rest : List B} {x : X} {n : Nat} :
      parse buf = .ok (some (x, n)) → Boundary parse (buf.drop n) rest → Boundary parse buf rest

theorem Boundary.trans {buf mid rest : List B} (hmid : Boundary parse buf mid)
    (hrest : Boundary parse mid rest) : Boundary parse buf rest := by
  induction hmid with
  | whole buf => exact hrest
  | frame hp _ ih => exact .frame hp (ih hrest)

theorem Boundary.suffix {buf rest : List B} (hb : Boundary parse buf rest) : rest <:+ buf := by
  induction hb with
  | whole buf => exact List.suffix_refl _
  | frame _ _ ih => exact ih.trans (List.drop_suffix _ _)

theorem Boundary.length_le {buf rest : List B} (hb : Boundary parse buf rest) : rest.length ≤ buf.length :=
  hb.suffix.length_le

/-- A boundary of a buffer is one of every stream that the buffer is the front of. -/
theorem Boundary.append (hs : Stable parse) {buf rest : List B} (hb : Boundary parse buf rest)
    (ext : List B) : Boundary parse (buf ++ ext) (rest ++ ext) := by
  induction hb with
  | whole buf => exact .whole _
  | frame hp _ ih =>
      refine .frame (hs.some_append ext hp) ?_
      rw [List.drop_append_of_le_length (hs.consumes hp).2]
      exact ih

/-! ### Frames and what was done with them -/

/-- From a state and a buffer, these frames are handled and leave the other state and the rest. -/
inductive Handled (parse : Parser B E X) (h : Handler W E X S) :
    W → List B → List X → W → List B → Prop
  | done (w : W) (buf : List B) : Handled parse h w buf [] w buf
  | frame {w w1 w' : W} {buf rest : List B} {x : X} {n : Nat} {xs : List X} :
      parse buf = .ok (some (x, n)) → h.onFrame w x = (w1, none) →
      Handled parse h w1 (buf.drop n) xs w' rest → Handled parse h w buf (x :: xs) w' rest

theorem Handled.trans {w w1 w' : W} {buf mid rest : List B} {xs ys : List X}
    (hfirst : Handled parse h w buf xs w1 mid) (hthen : Handled parse h w1 mid ys w' rest) :
    Handled parse h w buf (xs ++ ys) w' rest := by
  induction hfirst with
  | done w buf => exact hthen
  | frame hp hx _ ih => exact .frame hp hx (ih hthen)

/-- What is left is the end of the buffer, behind the frames. -/
theorem Handled.boundary {w w' : W} {buf rest : List B} {xs : List X}
    (hh : Handled parse h w buf xs w' rest) : Boundary parse buf rest := by
  induction hh with
  | done w buf => exact .whole buf
  | frame hp _ _ ih => exact .frame hp ih

/-- The frames at the front of a buffer are at the front of every stream that it is the front of. -/
theorem Handled.append (hs : Stable parse) {w w' : W} {buf rest : List B} {xs : List X}
    (hh : Handled parse h w buf xs w' rest) (ext : List B) :
    Handled parse h w (buf ++ ext) xs w' (rest ++ ext) := by
  induction hh with
  | done w buf => exact .done _ _
  | frame hp hx _ ih =>
      refine .frame (hs.some_append ext hp) hx ?_
      rw [List.drop_append_of_le_length (hs.consumes hp).2]
      exact ih

/-- One frame in front, with the buffer the front of a longer stream. -/
theorem Handled.single (hs : Stable parse) {w w' : W} {buf : List B} {x : X} {n : Nat}
    (hp : parse buf = .ok (some (x, n))) (hx : h.onFrame w x = (w', none)) (ext : List B) :
    Handled parse h w (buf ++ ext) [x] w' (buf.drop n ++ ext) :=
  (Handled.frame hp hx (.done _ _)).append hs ext

/-- The drain goes on from what is left behind frames that were handled. -/
theorem Handled.drain (hs : Stable parse) {w w' : W} {buf rest : List B} {xs : List X}
    (hh : Handled parse h w buf xs w' rest) : drain parse h w buf = drain parse h w' rest := by
  induction hh with
  | done w buf => rfl
  | frame hp hx _ ih => rw [drain_frame hs hp hx, ih]

/-- How a drain ends, behind the frames that it has handled. -/
inductive Ended (parse : Parser B E X) (h : Handler W E X S) (w : W) (rest : List B) : Drained B W S → Prop
  | waiting : rest = [] ∨ parse rest = .ok none → Ended parse h w rest (.more w rest)
  | error {e : E} : parse rest = .error e →
      Ended parse h w rest (.stop (h.onError w e).1 (h.onError w e).2 rest)
  | frame {x : X} {n : Nat} {w' : W} {s : S} :
      parse rest = .ok (some (x, n)) → h.onFrame w x = (w', some s) →
      Ended parse h w rest (.stop w' s (rest.drop n))

/-- **A drain handles the frames in front**, until there is none or a handler stops it. -/
theorem drain_ended (hs : Stable parse) :
    ∀ (buf : List B) (w : W), ∃ xs w1 rest, Handled parse h w buf xs w1 rest ∧
      Ended parse h w1 rest (drain parse h w buf) := by
  intro buf
  induction hlen : buf.length using Nat.strongRecOn generalizing buf with
  | _ len ih =>
      intro w
      by_cases hne : buf = []
      · rw [hne, drain_nil]
        exact ⟨[], w, [], .done _ _, .waiting (.inl rfl)⟩
      cases hp : parse buf with
      | error e =>
          rw [drain_error hne hp]
          exact ⟨[], w, buf, .done _ _, .error hp⟩
      | ok o =>
          rcases o with _ | ⟨x, n⟩
          · rw [drain_none hp]
            exact ⟨[], w, buf, .done _ _, .waiting (.inr hp)⟩
          · rcases hx : h.onFrame w x with ⟨w1, _ | s⟩
            · rw [drain_frame hs hp hx]
              have hlt := drop_length_lt hs hp
              obtain ⟨xs, w2, rest, hhandled, hended⟩ := ih _ (by omega) (buf.drop n) rfl w1
              exact ⟨x :: xs, w2, rest, .frame hp hx hhandled, hended⟩
            · rw [drain_stop hs hp hx]
              exact ⟨[], w, buf, .done _ _, .frame hp hx⟩

/-- A drain that does not stop has handled frames, and waits for the next. -/
theorem drain_more (hs : Stable parse) {buf rest : List B} {w w' : W} (hd : drain parse h w buf = .more w' rest) :
    (∃ xs, Handled parse h w buf xs w' rest) ∧ (rest = [] ∨ parse rest = .ok none) := by
  obtain ⟨xs, w1, rest', hhandled, hended⟩ := drain_ended (h := h) hs buf w
  rw [hd] at hended
  cases hended with
  | waiting hnone => exact ⟨⟨xs, hhandled⟩, hnone⟩

/-- These frames stand one behind the other in front of the rest. -/
inductive Frames (parse : Parser B E X) : List B → List X → List B → Prop
  | done (buf : List B) : Frames parse buf [] buf
  | frame {buf rest : List B} {x : X} {n : Nat} {xs : List X} :
      parse buf = .ok (some (x, n)) → Frames parse (buf.drop n) xs rest → Frames parse buf (x :: xs) rest

theorem Handled.frames {w w' : W} {buf rest : List B} {xs : List X} (hh : Handled parse h w buf xs w' rest) :
    Frames parse buf xs rest := by
  induction hh with
  | done w buf => exact .done buf
  | frame hp _ _ ih => exact .frame hp ih

theorem Frames.concat {buf rest : List B} {xs : List X} (hf : Frames parse buf xs rest) {x : X} {n : Nat}
    (hp : parse rest = .ok (some (x, n))) : Frames parse buf (xs ++ [x]) (rest.drop n) := by
  induction hf with
  | done buf => exact .frame hp (.done _)
  | frame hfirst _ ih => exact .frame hfirst (ih hp)

/-- The first of some frames stand in front as well. -/
theorem Frames.front {buf rest : List B} {xs ys : List X} (hf : Frames parse buf (xs ++ ys) rest) :
    ∃ mid, Frames parse buf xs mid := by
  induction xs generalizing buf with
  | nil => exact ⟨buf, .done buf⟩
  | cons x xs ih =>
      cases hf with
      | frame hp hrest =>
          obtain ⟨mid, hmid⟩ := ih hrest
          exact ⟨mid, .frame hp hmid⟩

theorem Frames.mem {buf rest : List B} {xs : List X} (hf : Frames parse buf xs rest) {x : X} (hx : x ∈ xs) :
    ∃ front n, parse front = .ok (some (x, n)) := by
  induction hf with
  | done buf => cases hx
  | frame hp _ ih =>
      rcases List.mem_cons.mp hx with rfl | hx
      · exact ⟨_, _, hp⟩
      · exact ih hx

/-! ### What every handler keeps, a drain keeps -/

/-- What a drain did so far, whichever way it ended. -/
def Drained.world : Drained B W S → W
  | .more w _ => w
  | .stop w _ _ => w

/-- A relation between the states before and after that every handler keeps, a drain keeps. -/
theorem drain_world (hs : Stable parse) {R : W → W → Prop} (hrefl : ∀ w, R w w)
    (htrans : ∀ {a b c}, R a b → R b c → R a c)
    (hframe : ∀ w x, R w (h.onFrame w x).1) (herror : ∀ w e, R w (h.onError w e).1)
    (buf : List B) (w : W) : R w (drain parse h w buf).world := by
  have hkeeps : ∀ {w w' : W} {buf rest : List B} {xs : List X}, Handled parse h w buf xs w' rest → R w w' := by
    intro w w' buf rest xs hh
    induction hh with
    | done w buf => exact hrefl w
    | @frame w w1 w' buf rest x n xs hp hx _ ih =>
        have hstep := hframe w x
        rw [hx] at hstep
        exact htrans hstep ih
  obtain ⟨xs, w1, rest, hhandled, hended⟩ := drain_ended (h := h) hs buf w
  refine htrans (hkeeps hhandled) ?_
  generalize drain parse h w buf = drained at hended
  cases hended with
  | waiting => exact hrefl w1
  | error => exact herror w1 _
  | @frame x n w' s hp hx =>
      have hstep := hframe w1 x
      rw [hx] at hstep
      exact hstep

/-- The verdict of a drain is one a handler gave. -/
theorem drain_verdict (hs : Stable parse) {Q : S → Prop}
    (hframe : ∀ w x {w' s}, h.onFrame w x = (w', some s) → Q s) (herror : ∀ w e, Q (h.onError w e).2)
    (buf : List B) (w : W) {w' : W} {s : S} {rest : List B}
    (hd : drain parse h w buf = .stop w' s rest) : Q s := by
  obtain ⟨xs, w1, rest', hhandled, hended⟩ := drain_ended (h := h) hs buf w
  rw [hd] at hended
  cases hended with
  | error => exact herror w1 _
  | frame hp hx => exact hframe w1 _ hx

end Framing
