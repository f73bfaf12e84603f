/-
What the parts of a handler keep.

A contract for a connection is checked handler by handler, and most of a handler
is the same every time: a channel's callback is awaited, a reply is sent,
the topic is subscribed to.  Whatever the events of such a part keep, the part
keeps.
-/
import Mahalo.Channel.Socket

namespace Mahalo.Channels

open Interactive

variable {α Ω T : Type}

/-- The event may be emitted where `I` holds, and `I` holds after it. -/
def Keeps (C : Contract (Event α Ω) (fun _ => Answer Ω) T) (I : T → Prop) (e : Event α Ω) : Prop :=
  ∀ h, I h → C.allows h e ∧ ∀ a, C.answers h e a → I (C.next h e a)

variable {C : Contract (Event α Ω) (fun _ => Answer Ω) T} {I : T → Prop} {h : T}

theorem Keeps.wp_then {e : Event α Ω} (he : Keeps C I e) (h0 : I h) {A : Type}
    {f : Unit → Handler α Ω A} {Q : T → A → Prop}
    (hf : ∀ h, I h → Prog.wp C h (f ()) Q) : Prog.wp C h (emit e >>= f) Q :=
  ⟨(he h h0).1, fun a ha => hf _ ((he h h0).2 a ha)⟩

theorem Keeps.wp_emit {e : Event α Ω} (he : Keeps C I e) (h0 : I h) :
    Prog.wp C h (emit e) fun h' _ => I h' := he h h0

/-- A callback keeps what its effects keep, and returns what it returns. -/
theorem Keeps.wp_await {A : Type} {c : Callback Ω A} {P : A → Prop} (hc : c.Returns P)
    (hI : ∀ e, Keeps C I (.effect e)) (h0 : I h) :
    Prog.wp C h (await c) fun h' a => I h' ∧ P a :=
  Prog.wp_lift (fun h hh e => hI e h hh) hc h0

theorem Keeps.wp_replyTo (hI : ∀ origin msg, Keeps C I (.send origin msg)) (socket : ChannelSocket α)
    (msgRef : Option String) (origin : Origin) (reply : Reply) (h0 : I h) :
    Prog.wp C h (replyTo socket msgRef origin reply) fun h' _ => I h' := by
  cases msgRef with
  | none => exact h0
  | some r => exact hI origin _ h h0

theorem Keeps.wp_subscribe {topic : String} (hsub : Keeps C I (.subscribe topic))
    (hrecv : Keeps C I .recvReply) (h0 : I h) :
    Prog.wp C h (subscribe topic) fun h' _ => I h' := by
  obtain ⟨hallow, hnext⟩ := hsub h h0
  refine ⟨hallow, fun a ha => ?_⟩
  have h1 := hnext a ha
  obtain ⟨ω, sent, rx⟩ := a
  cases sent with
  | false => exact h1
  | true =>
      obtain ⟨hallow, hnext⟩ := hrecv _ h1
      exact ⟨hallow, fun a ha => hnext a ha⟩

theorem Keeps.wp_forward {topic : String} (hI : ∀ rx, Keeps C I (.spawnForwarder topic rx))
    (rx : Option Nat) (h0 : I h) : Prog.wp C h (forward topic rx) fun h' _ => I h' := by
  cases rx with
  | none => exact h0
  | some rx => exact hI rx h h0

end Mahalo.Channels
