/-
The parser's verdicts are final, and the parse loop comes to an end.

Every caller of `try_parse_request` parses its buffer from the start after each
read, so a request or an error found early has to be the one that is found with
more bytes behind it.  The loop of `vec_read_loop` goes round only after a request,
which takes at least one byte off the front.  `iterate` is one iteration of it: it
returns, or shifts the buffer and goes round with strictly less in it.
-/
import Mathlib.Logic.Relation
import Mahalo.Proofs.Endpoint.Accum

namespace Mahalo.HttpParse

/-- `usize::MAX` on a 64-bit target. -/
def usizeMax : Nat := 2 ^ 64 - 1

end Mahalo.HttpParse

namespace Mahalo.Endpoint

open HttpParse

variable {A Ω : Type} {srv : Server A Ω} {outside : Outside Ω}

/-! ### One iteration -/

/-- One iteration of the parse loop: it returns, or it goes round. -/
def Server.iterate (srv : Server A Ω) (outside : Outside Ω) (a : Accum) (out : Log A) :
    Parsed A ⊕ (Accum × Log A) :=
  match srv.tryParse a.contents with
  | .ok (some parsed) =>
      match srv.executeAndRespond outside out parsed with
      | (out', some s) => .inl (.stop out' s (a.contents.drop parsed.bytesConsumed))
      | (out', none) =>
          if (a.shift parsed.bytesConsumed).filled = 0 then .inl (.more (a.shift parsed.bytesConsumed) out')
          else .inr (a.shift parsed.bytesConsumed, out')
  | .ok none =>
      match srv.makeRoom a out with
      | .ok a' => .inl (.more a' out)
      | .error (out', s) => .inl (.stop out' s a.contents)
  | .error e => .inl (.stop (out ++ [.reject (rejection e)]) .close a.contents)

/-- The loop goes round, from one buffer and record to the next. -/
def Server.Round (srv : Server A Ω) (outside : Outside Ω) (s s' : Accum × Log A) : Prop :=
  srv.iterate outside s.1 s.2 = .inr s'

/-- The parse loop iterates. -/
theorem parseLoop_iterate (fuel : Nat) (a : Accum) (out : Log A) :
    srv.parseLoop outside (fuel + 1) a out =
      match srv.iterate outside a out with
      | .inl result => result
      | .inr (a', out') => srv.parseLoop outside fuel a' out' := by
  unfold Server.iterate
  cases hp : srv.tryParse a.contents with
  | error e => exact parseLoop_error hp
  | ok found =>
      cases found with
      | none =>
          rw [parseLoop_incomplete hp]
          dsimp only
          rcases srv.makeRoom a out with ⟨out', s⟩ | a' <;> rfl
      | some parsed =>
          dsimp only
          rcases hx : srv.executeAndRespond outside out parsed with ⟨out', _ | s⟩
          · rw [parseLoop_answered hp hx]
            dsimp only
            split <;> rfl
          · exact parseLoop_stopped hp hx

/-- What Rust checks in an iteration: the slice `buf[..filled]`, the range
`bytes_consumed..filled` of `copy_within`, and the subtraction behind it. -/
structure InRange (srv : Server A Ω) (a : Accum) : Prop where
  filled : a.filled ≤ a.buf.length
  consumed : ∀ parsed, srv.tryParse a.contents = .ok (some parsed) → parsed.bytesConsumed ≤ a.filled

theorem inRange (hlib : Incremental srv.lib) {a : Accum} (h : a.filled ≤ a.buf.length) : InRange srv a where
  filled := h
  consumed := by
    intro parsed hp
    have hcons := (tryParse_some hlib hp).2
    rwa [a.contents_length h] at hcons

/-- Going round takes bytes off the front, and the buffer stays as long as it was. -/
theorem round_decreases (hlib : Incremental srv.lib) {s s' : Accum × Log A}
    (h : s.1.filled ≤ s.1.buf.length) (hround : srv.Round outside s s') :
    s'.1.filled < s.1.filled ∧ s'.1.filled ≤ s'.1.buf.length := by
  unfold Server.Round Server.iterate at hround
  cases hp : srv.tryParse s.1.contents with
  | error e =>
      rw [hp] at hround
      cases hround
  | ok found =>
      rw [hp] at hround
      cases found with
      | none =>
          dsimp only at hround
          split at hround <;> cases hround
      | some parsed =>
          obtain ⟨hpos, hle⟩ := tryParse_some hlib hp
          rw [s.1.contents_length h] at hle
          rcases hx : srv.executeAndRespond outside s.2 parsed with ⟨out', _ | stop⟩
          · simp only [hx] at hround
            split at hround
            · cases hround
            · cases hround
              rw [shift_length h hle, shift_filled]
              omega
          · simp only [hx] at hround
            cases hround

/-- Wherever the loop has come to, its buffer holds what it says it holds. -/
theorem rounds_filled (hlib : Incremental srv.lib) {s s' : Accum × Log A}
    (h : s.1.filled ≤ s.1.buf.length) (hrounds : Relation.ReflTransGen (srv.Round outside) s s') :
    s'.1.filled ≤ s'.1.buf.length := by
  induction hrounds with
  | refl => exact h
  | tail _ hround ih => exact (round_decreases hlib ih hround).2

/-- The loop returns after some rounds, and any fuel above what is in the buffer is enough. -/
theorem parseLoop_ends (hlib : Incremental srv.lib) (outside : Outside Ω) (n : Nat) :
    ∀ (a : Accum) (out : Log A), a.filled = n → a.filled ≤ a.buf.length →
      ∃ s result, Relation.ReflTransGen (srv.Round outside) (a, out) s ∧
        srv.iterate outside s.1 s.2 = .inl result ∧
        ∀ fuel, a.filled < fuel → srv.parseLoop outside fuel a out = result := by
  induction n using Nat.strong_induction_on with
  | h n ih =>
      rintro a out rfl hroom
      cases hi : srv.iterate outside a out with
      | inl result =>
          refine ⟨(a, out), result, .refl, hi, ?_⟩
          intro fuel hfuel
          obtain ⟨fuel, rfl⟩ := Nat.exists_eq_succ_of_ne_zero (Nat.ne_zero_of_lt hfuel)
          rw [Nat.succ_eq_add_one, parseLoop_iterate, hi]
      | inr next =>
          obtain ⟨hless, hroom'⟩ := round_decreases (s := (a, out)) hlib hroom hi
          obtain ⟨s, result, hrounds, hs, hloop⟩ := ih next.1.filled hless next.1 next.2 rfl hroom'
          refine ⟨s, result, .head hi hrounds, hs, ?_⟩
          intro fuel hfuel
          obtain ⟨fuel, rfl⟩ := Nat.exists_eq_succ_of_ne_zero (Nat.ne_zero_of_lt hfuel)
          rw [Nat.succ_eq_add_one, parseLoop_iterate, hi]
          refine hloop fuel ?_
          have hless : next.1.filled < a.filled := hless
          omega

/-! ### Stable and progressing -/

/--
**Parsing is stable, and always makes progress.**  For every buffer and limit: a
request or an error is the verdict for every extension of the buffer; a request takes
at least one byte, none behind the buffer, and has its body at the end of what it
takes; the lengths of a header block and a body within the limit add up in `usize`.
From every buffer the parse loop stays in range in each iteration, has
strictly less in the buffer whenever it goes round, and so returns.
-/
theorem parsing_progresses (srv : Server A Ω) (outside : Outside Ω) (hlib : Incremental srv.lib) :
    (∀ buf ext, srv.tryParse buf ≠ .ok none → srv.tryParse (buf ++ ext) = srv.tryParse buf) ∧
    (∀ buf parsed, srv.tryParse buf = .ok (some parsed) → 1 ≤ parsed.bytesConsumed ∧
      parsed.bytesConsumed ≤ buf.length ∧ parsed.conn.body <:+ buf.take parsed.bytesConsumed) ∧
    (∀ buf raw, parseRaw srv.lib buf = .ok (some raw) → srv.bodyLimit + raw.headerLen ≤ usizeMax →
      raw.bodyLen ≤ srv.bodyLimit → raw.headerLen ≤ buf.length ∧
        raw.headerLen + raw.bodyLen ≤ usizeMax) ∧
    ∀ (a : Accum) (out : Log A), a.filled ≤ a.buf.length →
      (∀ s, Relation.ReflTransGen (srv.Round outside) (a, out) s → InRange srv s.1 ∧
        ∀ s', srv.Round outside s s' → s'.1.filled < s.1.filled) ∧
      ∃ s result, Relation.ReflTransGen (srv.Round outside) (a, out) s ∧
        srv.iterate outside s.1 s.2 = .inl result ∧
        ∀ fuel, a.filled < fuel → srv.parseLoop outside fuel a out = result := by
  refine ⟨fun buf ext h => tryParse_append hlib ext h, ?_, ?_, ?_⟩
  · intro buf parsed h
    obtain ⟨hpos, hle⟩ := tryParse_some hlib h
    exact ⟨hpos, hle, tryParse_body h⟩
  · intro buf raw hraw hlimit hbody
    obtain ⟨req, hparse⟩ := parseRaw_some hraw
    exact ⟨(hlib.consumes hparse).2, by omega⟩
  · intro a out hroom
    refine ⟨?_, parseLoop_ends hlib outside a.filled a out rfl hroom⟩
    intro s hrounds
    have hfilled := rounds_filled hlib (s := (a, out)) hroom hrounds
    exact ⟨inRange hlib hfilled, fun s' hround => (round_decreases hlib hfilled hround).1⟩

/-- Two requests in the buffer, and the beginning of a third. -/
def pingBuf : Accum :=
  { buf := pingHead ++ pingHead ++ pingHead.take 9 ++ List.replicate 100 0
    filled := 2 * pingHead.length + 9 }

theorem parsing_progresses_pings : ∃ accum out, accum.filled = 9 ∧
    ∀ fuel, pingBuf.filled < fuel → pingServer.parseLoop quiet fuel pingBuf [] = .more accum out := by
  obtain ⟨-, -, -, hloop⟩ := parsing_progresses pingServer quiet (oneRequestLib_incremental (by decide))
  obtain ⟨-, s, result, -, -, hends⟩ := hloop pingBuf [] (by decide +kernel)
  have hleft : (match pingServer.parseLoop quiet (pingBuf.filled + 1) pingBuf [] with
      | .more accum _ => accum.filled == 9
      | .stop .. => false) = true := by decide +kernel
  have hend := hends (pingBuf.filled + 1) (Nat.lt_succ_self _)
  generalize pingServer.parseLoop quiet (pingBuf.filled + 1) pingBuf [] = ended at hleft hend
  subst hend
  cases ended with
  | more accum out => exact ⟨accum, out, by simpa using hleft, hends⟩
  | stop out stop unread => cases hleft

end Mahalo.Endpoint
