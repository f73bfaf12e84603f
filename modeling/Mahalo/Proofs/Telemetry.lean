/-
Handlers that come back to the telemetry that called them.

The list of handlers is borrowed as long as `execute` walks through it, so a handler may execute
events but not attach: the whole run panics as soon as one does, as it does if an event comes
before the epoch.  Where neither happens, every execute invokes the handlers that were attached
when it began and match, each once and in their order, however deep the calls are nested.
`Tells` is what the log of a run has to be for that.
-/
import Mahalo.Telemetry

namespace Mahalo.Telemetry

variable {H M N : Type}

/-- The handlers to be invoked for an event, of those attached. -/
def matching (attached : List (HandlerEntry H)) (name : List String) : List (HandlerEntry H) :=
  attached.filter fun entry => decide (entry.namePrefix <+: name)

/-- Who watches a log knows what is attached, and for each execute under way whom it has yet to invoke. -/
structure Watch (H : Type) where
  attached : List (HandlerEntry H)
  due : List (List (HandlerEntry H))

/-- A log by which every execute invokes those who were attached when it began and match, and no one else. -/
inductive Tells : Watch H → List (Logged H M N) → Watch H → Prop
  | nil (w : Watch H) : Tells w [] w
  | attached {attached due entry log w} (h : Tells ⟨attached ++ [entry], due⟩ log w) :
      Tells ⟨attached, due⟩ (.attached entry :: log) w
  | began {attached due event log w} (h : Tells ⟨attached, matching attached event.name :: due⟩ log w) :
      Tells ⟨attached, due⟩ (.began event :: log) w
  | invoked {attached entry rest due log w} (h : Tells ⟨attached, rest :: due⟩ log w) :
      Tells ⟨attached, (entry :: rest) :: due⟩ (.invoked entry :: log) w
  | ended {attached due log w} (h : Tells ⟨attached, due⟩ log w) :
      Tells ⟨attached, [] :: due⟩ (.ended :: log) w

theorem Tells.append {w w' w'' : Watch H} {log log' : List (Logged H M N)} (h : Tells w log w')
    (h' : Tells w' log' w'') : Tells w (log ++ log') w'' := by
  induction h with
  | nil w => exact h'
  | attached _ ih => exact .attached (ih h')
  | began _ ih => exact .began (ih h')
  | invoked _ ih => exact .invoked (ih h')
  | ended _ ih => exact .ended (ih h')

/-- The code runs to its end from a new `Telemetry`, and its log is as it should be. -/
def Tolerates (code : Code H M N) : Prop :=
  ∃ t attached, code.run new = .ok t ∧ Tells ⟨[], []⟩ t.log ⟨attached, []⟩

/-- No event is executed before the epoch, and no handler that is invoked attaches: within one nothing is
attached, nor in what it makes others do. -/
def Quiet : Bool → List (HandlerEntry H) → Code H M N → Prop
  | _, _, .done => True
  | within, attached, .attach eventName handler rest =>
      within = false ∧ Quiet within (attached ++ [{ namePrefix := eventName, handler }]) rest
  | within, attached, .execute eventName _ _ clock handlers rest => clock.isSome = true ∧
      (∀ i < (matching attached eventName).length, Quiet true attached (handlers i)) ∧ Quiet within attached rest

theorem matching_cons_of_prefix {entry : HandlerEntry H} {name : List String} (h : entry.namePrefix <+: name)
    (rest : List (HandlerEntry H)) : matching (entry :: rest) name = entry :: matching rest name := by
  simp [matching, h]

theorem matching_cons_of_not {entry : HandlerEntry H} {name : List String} (h : ¬entry.namePrefix <+: name)
    (rest : List (HandlerEntry H)) : matching (entry :: rest) name = matching rest name := by
  simp [matching, h]

/-! ### One run -/

theorem eventMatches_iff (name namePrefix : List String) :
    eventMatches name namePrefix = decide (namePrefix <+: name) := by
  unfold eventMatches
  rw [Bool.eq_iff_iff, decide_eq_true_iff]
  split
  · rename_i hshort
    constructor
    · simp
    · intro hprefix
      exact absurd hprefix.length_le (by omega)
  · rw [beq_iff_eq, List.prefix_iff_eq_take]
    exact eq_comm

theorem bind_ok {ε X Y : Type} {x : Except ε X} {f : X → Except ε Y} {y : Y} (h : x >>= f = .ok y) :
    ∃ a, x = .ok a ∧ f a = .ok y := by
  cases x with
  | error e => cases h
  | ok a => exact ⟨a, rfl, h⟩

/-- What a run leaves as it was, and what its log tells. -/
structure Ran (t t' : Telemetry H M N) : Prop where
  readers : t'.handlers.readers = t.handlers.readers
  writing : t'.handlers.writing = t.handlers.writing
  kept : t.handlers.readers ≠ 0 → t'.handlers.value = t.handlers.value
  told : ∃ added, t'.log = t.log ++ added ∧
    ∀ due, Tells ⟨t.handlers.value, due⟩ added ⟨t'.handlers.value, due⟩

theorem Ran.refl (t : Telemetry H M N) : Ran t t :=
  ⟨rfl, rfl, fun _ => rfl, [], by simp, fun _ => .nil _⟩

theorem Ran.trans {t t' t'' : Telemetry H M N} (h : Ran t t') (h' : Ran t' t'') : Ran t t'' := by
  obtain ⟨added, hlog, htold⟩ := h.told
  obtain ⟨added', hlog', htold'⟩ := h'.told
  refine ⟨h'.readers.trans h.readers, h'.writing.trans h.writing, fun hreaders => ?_, added ++ added', ?_,
    fun due => (htold due).append (htold' due)⟩
  · exact (h'.kept (by rw [h.readers]; exact hreaders)).trans (h.kept hreaders)
  · rw [hlog', hlog, List.append_assoc]

/-- A handler more, and its place in the log. -/
def withEntry (t : Telemetry H M N) (entry : HandlerEntry H) : Telemetry H M N where
  handlers := { t.handlers with value := t.handlers.value ++ [entry] }
  log := t.log ++ [.attached entry]

/-- Attaching is done exactly where no one reads the list. -/
theorem attach_eq {t : Telemetry H M N} (h : t.handlers.writing = false) (eventName : List String) (handler : H) :
    t.attach eventName handler = if t.handlers.readers = 0 then
      .ok (t.withEntry { namePrefix := eventName, handler }) else .error (.borrow .borrowMut) := by
  unfold attach
  rw [RefCell.borrowMut_eq h]
  split
  · simp only [withEntry, h]
    rfl
  · rfl

theorem withEntry_ran {t : Telemetry H M N} (h : t.handlers.readers = 0) (entry : HandlerEntry H) :
    Ran t (t.withEntry entry) :=
  ⟨rfl, rfl, fun hreaders => absurd h hreaders, [.attached entry], rfl, fun _ => .attached (.nil _)⟩

/-- Someone reads the list of handlers, and no one writes it. -/
structure Lent (t : Telemetry H M N) : Prop where
  readers : t.handlers.readers ≠ 0
  writing : t.handlers.writing = false

theorem Lent.of_same {t t' : Telemetry H M N} (h : t.Lent) (hsame : t'.handlers = t.handlers) : t'.Lent := by
  refine ⟨?_, ?_⟩ <;> rw [hsame]
  · exact h.readers
  · exact h.writing

/-- While someone reads the list, a run leaves it as it was. -/
theorem Ran.same {t t' : Telemetry H M N} (h : Ran t t') (hlent : t.Lent) : t'.handlers = t.handlers := by
  obtain ⟨⟨value, readers, writing⟩, log⟩ := t
  obtain ⟨⟨value', readers', writing'⟩, log'⟩ := t'
  have hvalue : value' = value := h.kept hlent.readers
  have hcount : readers' = readers := h.readers
  have hwriting : writing' = writing := h.writing
  simp only [hvalue, hcount, hwriting]

section

variable {event : TelemetryEvent M N} {call : Nat → Telemetry H M N → Except Panic (Telemetry H M N)}
  {P : Nat → List (HandlerEntry H) → Prop}

/-- A loop that comes to its end invoked those that match, and each of them did what it may. -/
theorem dispatch_ran (hcall : ∀ i t t', t.Lent → call i t = .ok t' → P i t.handlers.value ∧ Ran t t')
    (entries : List (HandlerEntry H)) :
    ∀ i t t', t.Lent → dispatch event call i entries t = .ok t' →
      (∀ j < (matching entries event.name).length, P (i + j) t.handlers.value) ∧ t'.handlers = t.handlers ∧
        ∃ added, t'.log = t.log ++ added ∧ ∀ due,
          Tells ⟨t.handlers.value, matching entries event.name :: due⟩ added ⟨t.handlers.value, [] :: due⟩ := by
  induction entries with
  | nil =>
    intro i t t' _ h
    obtain rfl : t = t' := by simpa [dispatch] using h
    exact ⟨by simp [matching], rfl, [], by simp, fun _ => .nil _⟩
  | cons entry rest ih =>
    intro i t t' hlent h
    unfold dispatch at h
    rw [eventMatches_iff] at h
    by_cases hmatch : entry.namePrefix <+: event.name
    · have hcons := matching_cons_of_prefix hmatch rest
      rw [if_pos (by simpa using hmatch)] at h
      obtain ⟨t₁, hone, hmore⟩ := bind_ok h
      have hlent' : (t.logged (.invoked entry)).Lent := hlent.of_same rfl
      obtain ⟨hP, hran⟩ := hcall i _ t₁ hlent' hone
      have hsame : t₁.handlers = t.handlers := hran.same hlent'
      obtain ⟨hPs, hhandlers, added', hlog', htold'⟩ := ih (i + 1) t₁ t' (hlent.of_same hsame) hmore
      obtain ⟨added, hlog, htold⟩ := hran.told
      rw [hsame] at hPs hhandlers htold' htold
      refine ⟨?_, hhandlers, .invoked entry :: (added ++ added'), ?_, fun due => ?_⟩
      · intro j hj
        cases j with
        | zero => exact hP
        | succ j =>
          rw [hcons, List.length_cons] at hj
          have hPj := hPs j (by omega)
          rwa [Nat.add_right_comm, Nat.add_assoc] at hPj
      · rw [hlog', hlog]
        simp [logged]
      · rw [hcons]
        exact .invoked ((htold _).append (htold' due))
    · have hcons := matching_cons_of_not hmatch rest
      rw [if_neg (by simpa using hmatch)] at h
      rw [hcons]
      exact ih i t t' hlent h

/-- If each that matches does what it may, the loop comes to its end. -/
theorem dispatch_of_each (event : TelemetryEvent M N)
    (hcall : ∀ i t t', t.Lent → call i t = .ok t' → Ran t t')
    (hok : ∀ i t, t.Lent → P i t.handlers.value → ∃ t', call i t = .ok t') (entries : List (HandlerEntry H)) :
    ∀ i t, t.Lent → (∀ j < (matching entries event.name).length, P (i + j) t.handlers.value) →
      ∃ t', dispatch event call i entries t = .ok t' := by
  induction entries with
  | nil =>
    intro i t _ _
    exact ⟨t, rfl⟩
  | cons entry rest ih =>
    intro i t hlent hP
    unfold dispatch
    rw [eventMatches_iff]
    by_cases hmatch : entry.namePrefix <+: event.name
    · have hcons := matching_cons_of_prefix hmatch rest
      rw [hcons, List.length_cons] at hP
      have hlent' : (t.logged (.invoked entry)).Lent := hlent.of_same rfl
      obtain ⟨t₁, hone⟩ := hok i _ hlent' (hP 0 (by omega))
      have hsame : t₁.handlers = t.handlers := (hcall i _ t₁ hlent' hone).same hlent'
      have hrest : ∀ j < (matching rest event.name).length, P (i + 1 + j) t₁.handlers.value := by
        intro j hj
        have hPj := hP (j + 1) (by omega)
        rwa [hsame, Nat.add_assoc, Nat.add_comm 1 j]
      rw [if_pos (by simpa using hmatch), hone]
      exact ih (i + 1) t₁ (hlent.of_same hsame) hrest
    · have hcons := matching_cons_of_not hmatch rest
      rw [if_neg (by simpa using hmatch)]
      rw [hcons] at hP
      exact ih i t hlent hP

end

/-! ### Execute -/

section

variable {M N : Type} {t : Telemetry H M N} {eventName : List String} {measurements : M} {metadata : N}
  {clock : Option Nat}
  {call : Nat → Telemetry H M N → Except Panic (Telemetry H M N)} {P : Nat → List (HandlerEntry H) → Prop}

/-- The list is borrowed, the event has begun, and no one is invoked yet. -/
def begun (t : Telemetry H M N) (event : TelemetryEvent M N) : Telemetry H M N where
  handlers := { t.handlers with readers := t.handlers.readers + 1 }
  log := t.log ++ [.began event]

theorem begun_lent (h : t.handlers.writing = false) (event : TelemetryEvent M N) : (t.begun event).Lent :=
  ⟨Nat.succ_ne_zero _, h⟩

theorem execute_eq (h : t.handlers.writing = false) (ms : Nat) :
    t.execute eventName measurements metadata (some ms) call =
      dispatch { name := eventName, measurements, metadata, timestamp := ms } call 0 t.handlers.value
          (t.begun { name := eventName, measurements, metadata, timestamp := ms }) >>= fun t' =>
        .ok ({ t' with handlers := t'.handlers.release }.logged .ended) := by
  unfold execute
  rw [RefCell.borrow_eq h]
  rfl

theorem execute_ran (hcall : ∀ i t t', t.Lent → call i t = .ok t' → P i t.handlers.value ∧ Ran t t')
    {t' : Telemetry H M N} (hwriting : t.handlers.writing = false)
    (h : t.execute eventName measurements metadata clock call = .ok t') : clock.isSome = true ∧
    (∀ i < (matching t.handlers.value eventName).length, P i t.handlers.value) ∧
      t'.handlers = t.handlers ∧ Ran t t' := by
  obtain ⟨ms, rfl⟩ : ∃ ms, clock = some ms := by
    obtain ⟨_, hclock, -⟩ := bind_ok h
    cases clock with
    | none => cases hclock
    | some ms => exact ⟨ms, rfl⟩
  rw [execute_eq hwriting] at h
  obtain ⟨t₁, hloop, hend⟩ := bind_ok h
  obtain ⟨hP, hhandlers, added, hlog, htold⟩ :=
    dispatch_ran hcall t.handlers.value 0 (t.begun _) t₁ (begun_lent hwriting _) hloop
  obtain rfl := Except.ok.inj hend
  have hsame : t₁.handlers.release = t.handlers := by
    rw [hhandlers]
    rfl
  refine ⟨rfl, fun i hi => ?_, hsame, ?_⟩
  · have hPi := hP i hi
    rwa [Nat.zero_add] at hPi
  · refine ⟨congrArg RefCell.readers hsame, congrArg RefCell.writing hsame,
      fun _ => congrArg RefCell.value hsame, ?_⟩
    refine ⟨.began { name := eventName, measurements, metadata, timestamp := ms } :: (added ++ [.ended]), ?_, ?_⟩
    · show t₁.log ++ [.ended] = _
      rw [hlog]
      simp [begun]
    · intro due
      have hvalue : ({ t₁ with handlers := t₁.handlers.release }.logged .ended).handlers.value = t.handlers.value :=
        congrArg RefCell.value hsame
      rw [hvalue]
      exact .began ((htold due).append (.ended (.nil _)))

theorem execute_of_each (hcall : ∀ i t t', t.Lent → call i t = .ok t' → Ran t t')
    (hok : ∀ i t, t.Lent → P i t.handlers.value → ∃ t', call i t = .ok t') (hwriting : t.handlers.writing = false)
    (hclock : clock.isSome = true)
    (hP : ∀ i < (matching t.handlers.value eventName).length, P i t.handlers.value) :
    ∃ t', t.execute eventName measurements metadata clock call = .ok t' := by
  obtain ⟨ms, rfl⟩ := Option.isSome_iff_exists.mp hclock
  rw [execute_eq hwriting]
  obtain ⟨t₁, hloop⟩ := dispatch_of_each { name := eventName, measurements, metadata, timestamp := ms } hcall hok
    t.handlers.value 0 (t.begun _) (begun_lent hwriting _) fun j hj => by
      rw [Nat.zero_add]
      exact hP j hj
  rw [hloop]
  exact ⟨_, rfl⟩

end

/-! ### Whole runs -/

/-- Code that is run to its end was quiet. -/
theorem run_ran (code : Code H M N) : ∀ t t' : Telemetry H M N, t.handlers.writing = false → code.run t = .ok t' →
    Quiet (decide (t.handlers.readers ≠ 0)) t.handlers.value code ∧ Ran t t' := by
  induction code with
  | done =>
    intro t t' _ h
    obtain rfl := Except.ok.inj h
    exact ⟨trivial, .refl t⟩
  | attach eventName handler rest ih =>
    intro t t' hwriting h
    obtain ⟨t₁, hattach, hrest⟩ := bind_ok h
    rw [attach_eq hwriting] at hattach
    split at hattach
    · rename_i hreaders
      obtain rfl := Except.ok.inj hattach
      obtain ⟨hquiet, hran⟩ := ih (t.withEntry { namePrefix := eventName, handler }) t' hwriting hrest
      exact ⟨⟨by simp [hreaders], hquiet⟩, (withEntry_ran hreaders _).trans hran⟩
    · cases hattach
  | execute eventName measurements metadata clock handlers rest ihHandlers ih =>
    intro t t' hwriting h
    obtain ⟨t₁, hexecute, hrest⟩ := bind_ok h
    have hcall : ∀ i t t', t.Lent → (handlers i).run t = .ok t' →
        Quiet true t.handlers.value (handlers i) ∧ Ran t t' := by
      intro i t t' hlent hrun
      have hboth := ihHandlers i t t' hlent.writing hrun
      rwa [decide_eq_true hlent.readers] at hboth
    obtain ⟨hclock, hquiet, hsame, hran⟩ :=
      execute_ran (P := fun i attached => Quiet true attached (handlers i)) hcall hwriting hexecute
    obtain ⟨hquiet', hran'⟩ := ih t₁ t' (by rw [hsame]; exact hwriting) hrest
    rw [hsame] at hquiet'
    exact ⟨⟨hclock, hquiet, hquiet'⟩, hran.trans hran'⟩

/-- Quiet code is run to its end. -/
theorem run_of_quiet (code : Code H M N) : ∀ t : Telemetry H M N, t.handlers.writing = false →
    Quiet (decide (t.handlers.readers ≠ 0)) t.handlers.value code → ∃ t', code.run t = .ok t' := by
  induction code with
  | done =>
    intro t _ _
    exact ⟨t, rfl⟩
  | attach eventName handler rest ih =>
    intro t hwriting h
    have hreaders : t.handlers.readers = 0 := by simpa using h.1
    obtain ⟨t', hrest⟩ := ih (t.withEntry { namePrefix := eventName, handler }) hwriting h.2
    refine ⟨t', ?_⟩
    rw [Code.run, attach_eq hwriting, if_pos hreaders]
    exact hrest
  | execute eventName measurements metadata clock handlers rest ihHandlers ih =>
    intro t hwriting h
    have hcall : ∀ i t t', t.Lent → (handlers i).run t = .ok t' → Ran t t' :=
      fun i t t' hlent hrun => (run_ran (handlers i) t t' hlent.writing hrun).2
    have hok : ∀ i t, t.Lent → Quiet true t.handlers.value (handlers i) → ∃ t', (handlers i).run t = .ok t' := by
      intro i t hlent hquiet
      refine ihHandlers i t hlent.writing ?_
      rwa [decide_eq_true hlent.readers]
    obtain ⟨t₁, hexecute⟩ := execute_of_each (P := fun i attached => Quiet true attached (handlers i)) hcall
      hok hwriting h.1 h.2.1
    have hcall' : ∀ i t t', t.Lent → (handlers i).run t = .ok t' → True ∧ Ran t t' :=
      fun i t t' hlent hrun => ⟨trivial, hcall i t t' hlent hrun⟩
    obtain ⟨_, _, hsame, _⟩ := execute_ran (P := fun _ _ => True) hcall' hwriting hexecute
    obtain ⟨t', hrest⟩ := ih t₁ (by rw [hsame]; exact hwriting) (by rw [hsame]; exact h.2.2)
    refine ⟨t', ?_⟩
    rw [Code.run, hexecute]
    exact hrest

/--
**Telemetry tolerates exactly the handlers that do not attach.**  Code runs to its end, and every execute
invokes whom it has to, if and only if no handler that is invoked attaches another, and no event is
executed while the clock is before the epoch.
-/
theorem tolerates_iff (code : Code H M N) : Tolerates code ↔ Quiet false [] code := by
  constructor
  · rintro ⟨t, attached, hrun, _⟩
    exact (run_ran code new t rfl hrun).1
  · intro h
    obtain ⟨t, hrun⟩ := run_of_quiet code new rfl h
    obtain ⟨added, hlog, htold⟩ := (run_ran code new t rfl hrun).2.told
    have hadded : t.log = added := hlog
    refine ⟨t, t.handlers.value, hrun, ?_⟩
    rw [hadded]
    exact htold []

/-- A handler that attaches another on the first event it gets. -/
def lateAttach : Code Nat Unit Unit :=
  .attach ["mahalo"] 0 (.execute ["mahalo", "endpoint", "stop"] () () (some 0)
    (fun _ => .attach ["mahalo"] 1 .done) .done)

/-- It panics. -/
theorem lateAttach_panics : ¬ ∀ code : Code Nat Unit Unit, Tolerates code := by
  intro h
  obtain ⟨t, attached, hrun, _⟩ := h lateAttach
  have hpanic : lateAttach.run new = .error (.borrow .borrowMut) := rfl
  rw [hpanic] at hrun
  cases hrun

end Mahalo.Telemetry
