/-
The tokens of the Connection fields, and keep-alive.

The header loop keeps the value of the last Connection field, if that is a text, and
the connection is closed or kept open by the name that this value is as a whole.  The
fields are a list, though: a `close` beside another token, or in a field that is not
the last, is not seen, and neither is a `keep-alive`.
-/
import Mahalo.Lib.FieldLists
import Mahalo.Proofs.Endpoint.Server

namespace Mahalo.HttpParse

open FieldLists RustStd

variable {A : Type}

/-! ### What the fields ask for -/

/-- The values of the fields with a name, in order. -/
def fieldsNamed (name : String) (headers : List Header) : List Bytes :=
  (headers.filter fun h => eqIgnoreAsciiCase h.name name).map (·.value)

theorem fieldsNamed_append (name : String) (headers rest : List Header) :
    fieldsNamed name (headers ++ rest) = fieldsNamed name headers ++ fieldsNamed name rest := by
  simp [fieldsNamed]

theorem fieldsNamed_singleton (name : String) (h : Header) :
    fieldsNamed name [h] = if eqIgnoreAsciiCase h.name name then [h.value] else [] := by
  by_cases hname : eqIgnoreAsciiCase h.name name = true
  · simp [fieldsNamed, hname]
  · simp [fieldsNamed, hname]

/-- Some Connection field has this token. -/
def announces (token : String) (headers : List Header) : Bool :=
  lists (asBytes token) (fieldsNamed "connection" headers)

/-- The last Connection field is this token and nothing else. -/
def lastIs (token : String) (headers : List Header) : Bool :=
  (fieldsNamed "connection" headers).getLast?.any fun value => sameName value (asBytes token)

/-- What the tokens ask for: `close` before all else, and `keep-alive` where it is not the default. -/
def keepAliveAsked (minor : Nat) (headers : List Header) : Bool :=
  if announces "close" headers then false else minor == 1 || announces "keep-alive" headers

/-- The last field alone gives the answer of all of them. -/
def LastDecides (minor : Nat) (headers : List Header) : Prop :=
  if announces "close" headers then
    if minor = 1 then lastIs "close" headers = true else lastIs "keep-alive" headers = false
  else minor = 1 ∨ (announces "keep-alive" headers = true → lastIs "keep-alive" headers = true)

/-! ### What the parser takes from them -/

theorem scanHeader_connection (found : Option Nat × Option String) (h : Header) :
    (scanHeader found h).2 = if eqIgnoreAsciiCase h.name "connection" then fromUtf8 h.value else found.2 := by
  unfold scanHeader
  cases eqIgnoreAsciiCase h.name "connection" with
  | true => rfl
  | false =>
      dsimp only
      rw [if_neg Bool.false_ne_true, if_neg Bool.false_ne_true]
      split
      · cases fromUtf8 h.value <;> rfl
      · rfl

/-- Only the last Connection field is left, and only if it is a text. -/
theorem scan_connection (headers : List Header) :
    (headers.foldl scanHeader (none, none)).2 = (fieldsNamed "connection" headers).getLast?.bind fromUtf8 := by
  induction headers using List.reverseRecOn with
  | nil => rfl
  | append_singleton headers h ih =>
      rw [List.foldl_append, List.foldl_cons, List.foldl_nil, scanHeader_connection, fieldsNamed_append,
        fieldsNamed_singleton]
      by_cases hconn : eqIgnoreAsciiCase h.name "connection" = true
      · rw [if_pos hconn, if_pos hconn, List.getLast?_concat, Option.bind_some]
      · rw [if_neg hconn, if_neg hconn, List.append_nil]
        exact ih

/-- The two tokens are in ASCII, so a field that is one of them is a text. -/
theorem matches_last {token : String} (htoken : (asBytes token).all (· < 0x80) = true)
    (headers : List Header) :
    ((fieldsNamed "connection" headers).getLast?.bind fromUtf8).any (eqIgnoreAsciiCase · token)
      = lastIs token headers := by
  unfold lastIs
  cases (fieldsNamed "connection" headers).getLast? with
  | none => rfl
  | some value =>
      rw [Option.bind_some, Option.any_some]
      cases htext : fromUtf8 value with
      | some text =>
          rw [Option.any_some]
          exact sameName_of_text htext token
      | none =>
          rw [Option.any_none]
          by_contra hsame
          obtain ⟨text, htext'⟩ := text_of_sameName htoken (by simpa using Ne.symm hsame)
          rw [htext] at htext'
          cases htext'

/-- The connection stays open by the last Connection field, or else by the version. -/
theorem keepAlive_last {raw : RawParsed} {headers : List Header}
    (h : raw.connectionHeader = (fieldsNamed "connection" headers).getLast?.bind fromUtf8) :
    raw.keepAlive = if lastIs "close" headers then false
      else lastIs "keep-alive" headers || raw.httpVersion.getD 1 ≥ 1 := by
  have hclose : (raw.connectionHeader.any (eqIgnoreAsciiCase · "close")) = lastIs "close" headers := by
    rw [h]
    exact matches_last (by decide) headers
  have hkeep : (raw.connectionHeader.any (eqIgnoreAsciiCase · "keep-alive")) = lastIs "keep-alive" headers := by
    rw [h]
    exact matches_last (by decide) headers
  rw [← hclose, ← hkeep]
  unfold RawParsed.keepAlive
  cases raw.connectionHeader with
  | none => rfl
  | some v =>
      rw [Option.any_some, Option.any_some]
      dsimp only
      cases eqIgnoreAsciiCase v "close" <;> cases eqIgnoreAsciiCase v "keep-alive" <;> rfl

/-- A field that is a token announces it. -/
theorem announces_of_last {token : String} {headers : List Header} (htoken : IsName (asBytes token))
    (h : lastIs token headers = true) : announces token headers = true := by
  obtain ⟨value, hvalue, hsame⟩ := (Option.any_eq_true _ _).mp h
  exact lists_of_whole htoken (List.mem_of_getLast? hvalue) hsame

/-- A field is not two tokens. -/
theorem lastIs_unique {headers : List Header} (h : lastIs "close" headers = true) :
    lastIs "keep-alive" headers = false := by
  obtain ⟨value, hvalue, hsame⟩ := (Option.any_eq_true _ _).mp h
  unfold lastIs
  rw [hvalue, Option.any_some]
  have hclose := sameName_iff.mp hsame
  unfold sameName
  rw [hclose]
  decide

theorem keepAlive_iff {raw : RawParsed} {headers : List Header} {minor : Nat}
    (h : raw.connectionHeader = (fieldsNamed "connection" headers).getLast?.bind fromUtf8)
    (hversion : raw.httpVersion = some minor) (hminor : minor ≤ 1) :
    raw.keepAlive = keepAliveAsked minor headers ↔ LastDecides minor headers := by
  have hclose : lastIs "close" headers = true → announces "close" headers = true :=
    announces_of_last (by decide)
  have hkeep : lastIs "keep-alive" headers = true → announces "keep-alive" headers = true :=
    announces_of_last (by decide)
  have hone : lastIs "close" headers = true → lastIs "keep-alive" headers = false := lastIs_unique
  rw [keepAlive_last h, hversion, Option.getD_some]
  unfold keepAliveAsked LastDecides
  generalize announces "close" headers = close at *
  generalize announces "keep-alive" headers = keep at *
  generalize lastIs "close" headers = lastClose at *
  generalize lastIs "keep-alive" headers = lastKeep at *
  -- what is left is a table of the four tests, for each version
  rcases Nat.le_one_iff_eq_zero_or_eq_one.mp hminor with rfl | rfl
  · revert close keep lastClose lastKeep
    decide
  · revert close keep lastClose lastKeep
    decide

/-- What was taken from a complete header block. -/
theorem parseRaw_fields {lib : HttpLib} {buf : List UInt8} {n : Nat} {req : Request} {raw : RawParsed}
    (hparse : lib.parse buf = .complete n req) (h : parseRaw lib buf = .ok (some raw)) :
    req.method.bind lib.methodFromBytes = some raw.method ∧ raw.headers = req.headers ∧
      raw.httpVersion = req.version ∧
      raw.connectionHeader = (fieldsNamed "connection" req.headers).getLast?.bind fromUtf8 := by
  unfold parseRaw at h
  rw [hparse] at h
  dsimp only at h
  split at h
  · cases h
  · rename_i method hmethod
    split at h
    · cases h
    · cases h
      exact ⟨hmethod, rfl, rfl, scan_connection req.headers⟩

end Mahalo.HttpParse

namespace Mahalo.Endpoint

open HttpParse

variable {A Ω : Type}

/-- The connection is kept open as the tokens ask, and never for a client that announced `close`. -/
def TokensHonoured (srv : Server A Ω) (minor : Nat) (headers : List Header) (parsed : ParsedRequest A) :
    Prop :=
  parsed.keepAlive = keepAliveAsked minor headers ∧
    (announces "close" headers = true → ∀ (outside : Outside Ω) (out : Log A),
      (srv.executeAndRespond outside out parsed).2 ≠ none)

/-- A connection stays open only for a request that keeps it open. -/
theorem keepAlive_of_executeAndRespond {srv : Server A Ω} {outside : Outside Ω} {out : Log A}
    {parsed : ParsedRequest A} (h : (srv.executeAndRespond outside out parsed).2 = none) :
    parsed.keepAlive = true := by
  unfold Server.executeAndRespond at h
  split at h
  · split at h <;> cases h
  · dsimp only at h
    split at h
    · cases h
    · unfold Server.respond at h
      split at h
      · cases h
      · dsimp only at h
        split at h
        · rename_i hkeep
          exact (Bool.and_eq_true_iff.mp hkeep).2
        · cases h

/--
**When the Connection tokens decide.**  For every list of Connection fields and both
versions: the connection of a request is kept open as the tokens of all fields ask, if
and only if the last field alone gives that answer.  With a `close` among the tokens,
the last field has to be `close` on HTTP/1.1 and not `keep-alive` on HTTP/1.0; with a
`keep-alive` and no `close`, it has to be `keep-alive` on HTTP/1.0.
-/
theorem tokens_honoured_iff (srv : Server A Ω) {buf : List UInt8} {n minor : Nat} {req : Request}
    {parsed : ParsedRequest A} (hparse : srv.lib.parse buf = .complete n req)
    (hversion : req.version = some minor) (hminor : minor ≤ 1)
    (hok : srv.tryParse buf = .ok (some parsed)) :
    TokensHonoured srv minor req.headers parsed ↔ LastDecides minor req.headers := by
  obtain ⟨raw, _, hraw, -, hkeep, -⟩ := tryParse_parts hok
  obtain ⟨-, -, hver, hconn⟩ := parseRaw_fields hparse hraw
  have hiff := keepAlive_iff hconn (hver.trans hversion) hminor
  rw [← hkeep] at hiff
  constructor
  · intro hhonoured
    exact hiff.mp hhonoured.1
  · intro hlast
    have hasked := hiff.mpr hlast
    refine ⟨hasked, ?_⟩
    intro hclose outside out hopen
    have hkept := keepAlive_of_executeAndRespond hopen
    rw [hasked, keepAliveAsked, if_pos hclose] at hkept
    cases hkept

/-- A request with these Connection fields, and nothing else. -/
def connectionRequest (fields : List String) : Request :=
  { method := some "GET", path := some "/", version := some 1
    headers := fields.map fun field => { name := "Connection", value := RustStd.asBytes field } }

def connectionHead (fields : List String) : List UInt8 :=
  RustStd.asBytes ("GET / HTTP/1.1\r\n" ++ String.join (fields.map fun field => "Connection: " ++ field ++ "\r\n")
    ++ "\r\n")

def connectionServer (fields : List String) : Server Unit Unit :=
  { pingServer with lib := oneRequestLib (connectionHead fields) (connectionRequest fields) .get }

theorem tokens_honoured_iff_close : ∃ parsed,
    (connectionServer ["te", "Close"]).tryParse (connectionHead ["te", "Close"]) = .ok (some parsed) ∧
      TokensHonoured (connectionServer ["te", "Close"]) 1 (connectionRequest ["te", "Close"]).headers parsed := by
  have hparse : (connectionServer ["te", "Close"]).lib.parse (connectionHead ["te", "Close"])
      = .complete (connectionHead ["te", "Close"]).length (connectionRequest ["te", "Close"]) := by decide
  refine ⟨_, rfl, (tokens_honoured_iff _ hparse rfl (Nat.le_refl 1) rfl).mpr ?_⟩
  unfold LastDecides
  decide

/-- A client that sends `close, te` is kept waiting. -/
theorem close_beside_te : ∃ parsed,
    (connectionServer ["close, te"]).tryParse (connectionHead ["close, te"]) = .ok (some parsed) ∧
      announces "close" (connectionRequest ["close, te"]).headers = true ∧
      parsed.keepAlive = true ∧ keepAliveAsked 1 (connectionRequest ["close, te"]).headers = false ∧
      ((connectionServer ["close, te"]).executeAndRespond quiet [] parsed).2 = none :=
  ⟨_, rfl, by decide, by decide, by decide, by decide⟩

end Mahalo.Endpoint
