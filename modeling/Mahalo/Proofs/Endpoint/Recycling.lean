/-
Recycling a `Conn` is invisible.

`reset` keeps the maps of an earlier request and empties them, where a new `Conn`
has none.  No accessor tells the two apart, and neither does anything that is done
with them afterwards, so a request parsed into a used `Conn` is the request parsed
into a new one.

A request that is not parsed leaves the `Conn` as it was, with one exception: it has
been cleared by the time a header name is refused.
-/
import Mahalo.Proofs.Endpoint.HttpParse

namespace Mahalo

variable {K : Type} [DecidableEq K] {β : K → Type} {R : Type}

/-! ### What can be seen of a `Conn` -/

/-- The same through every accessor. -/
structure Conn.Looks (c d : Conn (Assigns β)) : Prop where
  method : c.method = d.method
  uri : c.uri = d.uri
  headers : c.headers = d.headers
  body : c.body = d.body
  remoteAddr : c.remoteAddr = d.remoteAddr
  pathParam : ∀ name, c.pathParam name = d.pathParam name
  queryParam : ∀ name, c.queryParam name = d.queryParam name
  getAssign : ∀ k, c.getAssign k = d.getAssign k
  takeAssign : ∀ k, (c.takeAssign k).1 = (d.takeAssign k).1
  status : c.status = d.status
  respHeaders : c.respHeaders = d.respHeaders
  respBody : c.respBody = d.respBody
  halted : c.halted = d.halted

theorem Conn.takeAssign_fst (c : Conn (Assigns β)) (k : K) : (c.takeAssign k).1 = c.getAssign k := by
  unfold takeAssign getAssign
  cases c.assigns <;> rfl

theorem Conn.takeAssign_snd (c : Conn (Assigns β)) (k : K) :
    (c.takeAssign k).2 = { c with assigns := c.assigns.map fun assigns => assigns.erase k } := by
  unfold takeAssign
  cases c with
  | mk _ _ _ _ _ _ _ _ _ _ _ assigns => cases assigns <;> rfl

/-- Other assigns, as long as every key finds the same in them. -/
theorem Conn.Looks.withAssigns {c d : Conn (Assigns β)} (h : c.Looks d)
    {a b : Option (Assigns β)}
    (hab : ∀ k, (a.bind fun assigns => assigns.lookup k) = b.bind fun assigns => assigns.lookup k) :
    Conn.Looks { c with assigns := a } { d with assigns := b } :=
  { h with
    getAssign := hab
    takeAssign := by
      intro k
      rw [takeAssign_fst, takeAssign_fst]
      exact hab k }

/-- Conns that look the same still do when an assign has been taken out of both. -/
theorem Conn.Looks.afterTake {c d : Conn (Assigns β)} (h : c.Looks d) (k : K) :
    (c.takeAssign k).2.Looks (d.takeAssign k).2 := by
  rw [takeAssign_snd, takeAssign_snd]
  refine h.withAssigns ?_
  intro k'
  have hlookup : (c.assigns.bind fun assigns => assigns.lookup k') =
      d.assigns.bind fun assigns => assigns.lookup k' := h.getAssign k'
  have herase : ∀ a : Option (Assigns β),
      ((a.map fun assigns => assigns.erase k).bind fun assigns => assigns.lookup k') =
        if k' = k then none else a.bind fun assigns => assigns.lookup k' := by
    intro a
    cases a with
    | none => simp
    | some assigns =>
        by_cases hk : k' = k
        · subst hk
          simp
        · simp [hk, AList.lookup_erase_ne hk]
  rw [herase, herase, hlookup]

/-- And when one has been put into both. -/
theorem Conn.Looks.afterAssign {c d : Conn (Assigns β)} (h : c.Looks d) (k : K) (value : β k) :
    (c.assign k value).Looks (d.assign k value) := by
  refine h.withAssigns ?_
  intro k'
  have hlookup : (c.assigns.bind fun assigns => assigns.lookup k') =
      d.assigns.bind fun assigns => assigns.lookup k' := h.getAssign k'
  by_cases hk : k' = k
  · subst hk
    simp
  · have hinsert : ∀ a : Option (Assigns β),
        ((a.getD ∅).insert k value).lookup k' = a.bind fun assigns => assigns.lookup k' := by
      intro a
      rw [AList.lookup_insert_ne hk]
      cases a <;> rfl
    simp only [Option.bind_some, hinsert, hlookup]

/-! ### A cleared `Conn` -/

/-- **A `Conn` that was reset looks like a new one**, whatever it was used for. -/
theorem RuntimeConn.reset_looks (conn : RuntimeConn (Assigns β) R) (method : Method) (uri : Uri) :
    (conn.reset method uri).toConn.Looks (Conn.new method uri) where
  method := rfl
  uri := rfl
  headers := rfl
  body := rfl
  remoteAddr := rfl
  pathParam := fun _ => rfl
  queryParam := by
    intro name
    unfold reset Conn.queryParam
    cases conn.queryParams <;> rfl
  getAssign := by
    intro k
    unfold reset Conn.getAssign
    cases conn.assigns <;> rfl
  takeAssign := by
    intro k
    rw [Conn.takeAssign_fst, Conn.takeAssign_fst]
    unfold reset Conn.getAssign
    cases conn.assigns <;> rfl
  status := rfl
  respHeaders := rfl
  respBody := rfl
  halted := rfl

/-- Both paths then write the same three fields. -/
theorem Conn.Looks.request {c d : Conn (Assigns β)} (h : c.Looks d) (headers : HeaderMap)
    (body : List UInt8) (remoteAddr : Option String) :
    Conn.Looks { c with headers, body, remoteAddr } { d with headers, body, remoteAddr } :=
  { h with
    headers := rfl
    body := rfl
    remoteAddr := rfl
    takeAssign := by
      intro k
      rw [takeAssign_fst, takeAssign_fst]
      exact h.getAssign k }

namespace HttpParse

/-! ### The two parsers -/

/-- The header loop in place builds the map that the other one returns, or fails as it does. -/
theorem appendHeadersTo_spec (lib : HttpLib) (headers : List Header) :
    ∀ map : HeaderMap, match appendHeaders lib map headers with
      | .ok built => appendHeadersTo lib map headers = (.ok (), built)
      | .error e => (appendHeadersTo lib map headers).1 = .error e := by
  induction headers with
  | nil => intro map; rfl
  | cons h rest ih =>
      intro map
      unfold appendHeaders appendHeadersTo
      cases (fastHeaderName h.name).or (lib.headerNameFromBytes h.name) with
      | none => rfl
      | some name => exact ih (map.append name h.value)

/-- The result of parsing into a `Conn` with this runtime, beside that of parsing afresh. -/
inductive Agree (runtime : Option R) : Except ParseError (Option (ParsedRequest (Assigns β))) →
    Except ParseError (Option ParsedIntoResult) × RuntimeConn (Assigns β) R → Prop
  | error (e : ParseError) (conn : RuntimeConn (Assigns β) R) :
      Agree runtime (.error e) (.error e, conn)
  | incomplete (conn : RuntimeConn (Assigns β) R) : Agree runtime (.ok none) (.ok none, conn)
  | parsed (keepAlive : Bool) (bytesConsumed : Nat) (wsKey : Option String)
      (fresh : Conn (Assigns β)) (conn : RuntimeConn (Assigns β) R) (hlooks : conn.toConn.Looks fresh)
      (hruntime : conn.runtime = runtime) :
      Agree runtime (.ok (some { conn := fresh, keepAlive, bytesConsumed, wsKey }))
        (.ok (some { keepAlive, bytesConsumed, wsKey }), conn)

/--
**Recycling a `Conn` is invisible.**  Whatever the `Conn` held, parsing into it fails,
waits or succeeds as parsing afresh does, with the same result, and leaves a `Conn`
that looks like the fresh one and keeps its runtime.
-/
theorem tryParseIntoConn_agrees (lib : HttpLib) (conn : RuntimeConn (Assigns β) R)
    (buf : List UInt8) (bodyLimit : Nat) (peerAddr : String) :
    Agree conn.runtime (tryParseRequest lib buf bodyLimit peerAddr)
      (tryParseIntoConn lib conn buf bodyLimit peerAddr) := by
  unfold tryParseRequest tryParseIntoConn
  cases parseRaw lib buf with
  | error e => exact .error e conn
  | ok found =>
      cases found with
      | none => exact .incomplete conn
      | some raw =>
          simp only
          cases finalizeBodyAndKeepalive raw buf bodyLimit with
          | error e => exact .error e conn
          | ok framed =>
              rcases framed with _ | ⟨body, keepAlive, total⟩
              · exact .incomplete conn
              · have hheaders := appendHeadersTo_spec lib raw.headers []
                have hempty : (conn.reset raw.method raw.uri).headers = [] := rfl
                simp only [buildHeaderMap, hempty]
                cases hbuilt : appendHeaders lib [] raw.headers with
                | error e =>
                    rw [hbuilt] at hheaders
                    generalize appendHeadersTo lib [] raw.headers = into at hheaders
                    obtain ⟨result, headers⟩ := into
                    cases hheaders
                    exact .error e _
                | ok built =>
                    rw [hbuilt] at hheaders
                    rw [hheaders]
                    exact .parsed keepAlive total _ _ _
                      ((conn.reset_looks raw.method raw.uri).request built body (some peerAddr)) rfl

/-! ### A request that is not parsed -/

/-- A request whose header block is accepted and whose body is within the limit and received. -/
structure Whole (lib : HttpLib) (buf : List UInt8) (bodyLimit : Nat) (raw : RawParsed) : Prop where
  head : parseRaw lib buf = .ok (some raw)
  limit : raw.bodyLen ≤ bodyLimit
  received : raw.headerLen + raw.bodyLen ≤ buf.length

/-- The `Conn` when a header name is refused: cleared, with the headers in front of that one. -/
def halfFilled (lib : HttpLib) (conn : RuntimeConn (Assigns β) R) (raw : RawParsed) :
    RuntimeConn (Assigns β) R :=
  { conn.reset raw.method raw.uri with
    headers := (appendHeadersTo lib [] (raw.headers.takeWhile (nameAccepted lib))).2 }

/-- The header loop ends at the first name that is refused. -/
theorem appendHeadersTo_eq (lib : HttpLib) (headers : List Header) :
    ∀ map : HeaderMap, appendHeadersTo lib map headers
      = (if headers.all (nameAccepted lib) then .ok () else .error .invalidRequest,
          (appendHeadersTo lib map (headers.takeWhile (nameAccepted lib))).2) := by
  induction headers with
  | nil => exact fun _ => rfl
  | cons h rest ih =>
      intro map
      cases hname : (fastHeaderName h.name).or (lib.headerNameFromBytes h.name) with
      | none =>
          have hnot : nameAccepted lib h = false := by simp [nameAccepted, hname]
          rw [List.all_cons, List.takeWhile_cons, hnot, appendHeadersTo, hname]
          rfl
      | some name =>
          have haccepted : nameAccepted lib h = true := by simp [nameAccepted, hname]
          rw [List.all_cons, List.takeWhile_cons, haccepted, Bool.true_and, if_pos rfl]
          unfold appendHeadersTo
          rw [hname]
          exact ih (map.append name h.value)

theorem whole_of_finalize {lib : HttpLib} {buf : List UInt8} {bodyLimit : Nat} {raw : RawParsed}
    {found : List UInt8 × Bool × Nat} (hraw : parseRaw lib buf = .ok (some raw))
    (h : finalizeBodyAndKeepalive raw buf bodyLimit = .ok (some found)) :
    Whole lib buf bodyLimit raw := by
  unfold finalizeBodyAndKeepalive at h
  by_cases hlimit : raw.bodyLen > bodyLimit
  · rw [if_pos hlimit] at h
    cases h
  · rw [if_neg hlimit] at h
    dsimp only at h
    by_cases hshort : buf.length < raw.headerLen + raw.bodyLen
    · rw [if_pos hshort] at h
      cases h
    · exact ⟨hraw, Nat.le_of_not_gt hlimit, Nat.le_of_not_gt hshort⟩

omit [DecidableEq K] in
/-- Before the request is whole, nothing is written to the `Conn`. -/
theorem tryParseIntoConn_early {lib : HttpLib} {buf : List UInt8} {bodyLimit : Nat}
    (h : ∀ raw, ¬Whole lib buf bodyLimit raw) (conn : RuntimeConn (Assigns β) R) (peerAddr : String) :
    (tryParseIntoConn lib conn buf bodyLimit peerAddr).2 = conn := by
  unfold tryParseIntoConn
  cases hraw : parseRaw lib buf with
  | error e => rfl
  | ok found =>
      cases found with
      | none => rfl
      | some raw =>
          simp only
          cases hfin : finalizeBodyAndKeepalive raw buf bodyLimit with
          | error e => rfl
          | ok framed =>
              cases framed with
              | none => rfl
              | some framed => exact absurd (whole_of_finalize hraw hfin) (h raw)

omit [DecidableEq K] in
/-- A whole request is parsed, or a name in it is refused when the `Conn` is half filled. -/
theorem Whole.tryParseIntoConn {lib : HttpLib} {buf : List UInt8} {bodyLimit : Nat} {raw : RawParsed}
    (h : Whole lib buf bodyLimit raw) (conn : RuntimeConn (Assigns β) R) (peerAddr : String) :
    if raw.headers.all (nameAccepted lib) then
      ∃ parsed, (tryParseIntoConn lib conn buf bodyLimit peerAddr).1 = .ok (some parsed)
    else
      HttpParse.tryParseIntoConn lib conn buf bodyLimit peerAddr
        = (.error .invalidRequest, halfFilled lib conn raw) := by
  have hempty : (conn.reset raw.method raw.uri).headers = [] := rfl
  unfold HttpParse.tryParseIntoConn
  rw [h.head]
  simp only [finalize_complete h.limit h.received, hempty]
  rw [appendHeadersTo_eq]
  by_cases hall : raw.headers.all (nameAccepted lib) = true
  · rw [if_pos hall, if_pos hall]
    exact ⟨_, rfl⟩
  · rw [if_neg hall, if_neg hall]
    rfl

omit [DecidableEq K] in
/--
**When a request that is not parsed leaves the `Conn` alone.**  Whatever the `Conn`
holds: it is as it was after an error or an incomplete request, if and only if no
header name of a request that is otherwise whole is refused, or the `Conn` was
already what the refusal leaves behind.
-/
theorem untouched_iff (lib : HttpLib) (conn : RuntimeConn (Assigns β) R) (buf : List UInt8)
    (bodyLimit : Nat) (peerAddr : String) :
    ((∀ parsed, (tryParseIntoConn lib conn buf bodyLimit peerAddr).1 ≠ .ok (some parsed)) →
        (tryParseIntoConn lib conn buf bodyLimit peerAddr).2 = conn) ↔
      ∀ raw, Whole lib buf bodyLimit raw → raw.headers.all (nameAccepted lib) = true ∨
        halfFilled lib conn raw = conn := by
  constructor
  · intro huntouched raw hwhole
    have hcall := hwhole.tryParseIntoConn conn peerAddr
    by_cases hall : raw.headers.all (nameAccepted lib) = true
    · exact Or.inl hall
    · rw [if_neg hall] at hcall
      rw [hcall] at huntouched
      exact Or.inr (huntouched (by intro parsed h; cases h))
  · intro hcondition hfailed
    by_cases hwhole : ∃ raw, Whole lib buf bodyLimit raw
    · obtain ⟨raw, hwhole⟩ := hwhole
      have hcall := hwhole.tryParseIntoConn conn peerAddr
      by_cases hall : raw.headers.all (nameAccepted lib) = true
      · rw [if_pos hall] at hcall
        obtain ⟨parsed, hparsed⟩ := hcall
        exact absurd hparsed (hfailed parsed)
      · rw [if_neg hall] at hcall
        rw [hcall]
        exact (hcondition raw hwhole).resolve_left hall
    · exact tryParseIntoConn_early (fun raw h => hwhole ⟨raw, h⟩) conn peerAddr

/-- A GET whose second header has this name. -/
def strangeRequest (name : String) : Request :=
  { method := some "GET", path := some "/", version := some 1
    headers := [{ name := "Host", value := RustStd.asBytes "a" },
      { name, value := RustStd.asBytes "b" }] }

def strangeHead (name : String) : List UInt8 :=
  RustStd.asBytes ("GET / HTTP/1.1\r\nHost: a\r\n" ++ name ++ ": b\r\n\r\n")

/-- `HeaderName::from_bytes` takes names of up to 65535 bytes. -/
def strangeLib (name : String) : HttpLib :=
  { oneRequestLib (strangeHead name) (strangeRequest name) .get with
    headerNameFromBytes := fun name =>
      if (RustStd.asBytes name).length ≤ 65535 then some name.toLower else none }

/-- A `Conn` that a POST was served with. -/
def usedConn : RuntimeConn (Assigns fun _ : Unit => Nat) Unit :=
  { Conn.new .post { path := "/login", query := none } with
    body := RustStd.asBytes "name=a", status := 302, halted := true, runtime := some () }

theorem length_le_asBytes (s : String) : s.toList.length ≤ (RustStd.asBytes s).length := by
  have hpos : ∀ c, 1 ≤ (RustStd.encodeChar c).length := by
    intro c
    unfold RustStd.encodeChar
    dsimp only
    split
    · exact Nat.le_refl _
    · split
      · exact Nat.le_succ _
      · split <;> simp
  unfold RustStd.asBytes
  induction s.toList with
  | nil => exact Nat.le_refl _
  | cons c rest ih =>
      have := hpos c
      rw [List.flatMap_cons, List.length_append, List.length_cons]
      omega

/-- A name of more than 65535 characters is refused. -/
theorem strange_refused {name : String} (hlong : 65535 < name.toList.length) :
    nameAccepted (strangeLib name) { name, value := RustStd.asBytes "b" } = false := by
  have hshort : ∀ known ∈ ["host", "accept", "cookie", "connection", "user-agent", "content-type",
      "content-length", "accept-encoding", "accept-language"], known.toList.length ≤ 15 := by decide
  have hfast : fastHeaderName name = none := by
    refine List.find?_eq_none.mpr ?_
    intro known hknown heq
    have hlengths := congrArg List.length (of_decide_eq_true heq)
    rw [List.length_map, List.length_map] at hlengths
    have := hshort known hknown
    omega
  have hbytes := length_le_asBytes name
  unfold nameAccepted
  rw [hfast]
  show (if (RustStd.asBytes name).length ≤ 65535 then some name.toLower else none).isSome = false
  rw [if_neg (by omega)]
  rfl

/-- Refused for its second header name, a request has replaced what the `Conn` held. -/
theorem strange_half_filled {name : String} (hlong : 65535 < name.toList.length) :
    tryParseIntoConn (strangeLib name) usedConn (strangeHead name) 1024 "10.0.0.1:4000"
      = (.error .invalidRequest, { usedConn.reset .get { path := "/", query := none } with
          headers := [("host", [RustStd.asBytes "a"])] }) := by
  have hparse : (strangeLib name).parse (strangeHead name)
      = .complete (strangeHead name).length (strangeRequest name) :=
    if_pos (List.isPrefixOf_iff_prefix.mpr List.prefix_rfl)
  have hwhole : Whole (strangeLib name) (strangeHead name) 1024 _ :=
    ⟨parseRaw_complete hparse rfl rfl, Nat.zero_le _, Nat.le_refl _⟩
  have hcall := hwhole.tryParseIntoConn usedConn "10.0.0.1:4000"
  have hhost : nameAccepted (strangeLib name) { name := "Host", value := RustStd.asBytes "a" } = true := rfl
  have hrefused := strange_refused hlong
  have hnot : ¬(strangeRequest name).headers.all (nameAccepted (strangeLib name)) = true := by
    simp [strangeRequest, hrefused]
  rw [if_neg hnot] at hcall
  rw [hcall]
  unfold halfFilled
  dsimp only [strangeRequest]
  rw [List.takeWhile_cons, hhost, if_pos rfl, List.takeWhile_cons, hrefused]
  rfl

/-- A name of 65536 bytes turns a `Conn` that a POST was served with into one for a GET. -/
theorem usedConn_half_filled :
    ∃ name : String, name.toList = List.replicate 65536 'x' ∧
      (tryParseIntoConn (strangeLib name) usedConn (strangeHead name) 1024 "10.0.0.1:4000").1
        = .error .invalidRequest ∧
      (tryParseIntoConn (strangeLib name) usedConn (strangeHead name) 1024 "10.0.0.1:4000").2
        ≠ usedConn := by
  obtain ⟨name, hname⟩ : ∃ name : String, name.toList = List.replicate 65536 'x' :=
    ⟨String.ofList _, String.toList_ofList⟩
  have hlong : 65535 < name.toList.length := by
    rw [hname, List.length_replicate]
    omega
  refine ⟨name, hname, ?_⟩
  rw [strange_half_filled hlong]
  refine ⟨rfl, ?_⟩
  intro heq
  cases congrArg (fun c => c.method) heq

end HttpParse

end Mahalo
