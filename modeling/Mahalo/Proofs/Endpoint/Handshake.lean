/-
Opening handshakes.

`detect_ws_key` looks for an Upgrade field that is `websocket` and nothing else, takes
the last Sec-WebSocket-Key that is a text, whatever it says, and the first
Sec-WebSocket-Version.  A handshake is more than that: the Upgrade and Connection fields
are lists, the version and the key are there once, and the key is the Base64 of 16 bytes.
What the code does not look at is what decides whether it answers a handshake as it should.
-/
import Mahalo.Lib.Base64
import Mahalo.Proofs.Endpoint.KeepAlive

namespace Mahalo.HttpParse

open FieldLists RustStd

variable {A : Type}

/-! ### Handshakes -/

/-- The Base64 of 16 bytes, with blanks around it. -/
def IsKey (value : Bytes) : Prop := ∃ nonce, nonce.length = 16 ∧ trimBlanks value = Base64.encode nonce

def isThirteen (value : Bytes) : Bool := trimBlanks value == asBytes "13"

/-- What a handshake needs that `detect_ws_key` does not look at. -/
structure RestInOrder (req : Request) : Prop where
  version : ∃ minor, req.version = some minor ∧ 1 ≤ minor
  connection : lists (asBytes "upgrade") (fieldsNamed "connection" req.headers) = true
  oneVersion : (fieldsNamed "sec-websocket-version" req.headers).length = 1
  oneKey : ∃ value, fieldsNamed "sec-websocket-key" req.headers = [value] ∧ IsKey value

/-- A valid opening handshake. -/
structure Handshake (req : Request) : Prop extends RestInOrder req where
  get : req.method = some "GET"
  upgrade : lists (asBytes "websocket") (fieldsNamed "upgrade" req.headers) = true
  thirteen : (fieldsNamed "sec-websocket-version" req.headers).all isThirteen = true

/-- The method, the first version and some key are as `detect_ws_key` wants them. -/
structure Asked (req : Request) : Prop where
  get : req.method = some "GET"
  thirteen : (fieldsNamed "sec-websocket-version" req.headers).head?.any isThirteen = true
  key : (fieldsNamed "sec-websocket-key" req.headers).any (fun value => (fromUtf8 value).isSome) = true

/-- Some Upgrade field is `websocket` and nothing else. -/
def WholeUpgrade (req : Request) : Prop :=
  (fieldsNamed "upgrade" req.headers).any (fun value => sameName value (asBytes "websocket")) = true

/-- What `http` makes of a method and of a header name. -/
structure NamesRead (lib : HttpLib) : Prop where
  get : ∀ text, lib.methodFromBytes text = some .get ↔ text = "GET"
  lowercase : ∀ name n, lib.headerNameFromBytes name = some n → n = String.ofList (name.toList.map Char.toLower)

/-! ### The first version -/

theorem get_append (map : HeaderMap) (n name : String) (value : Bytes) :
    (map.append n value).get name = if n = name then (map.get name).or (some value) else map.get name := by
  induction map with
  | nil =>
      rw [HeaderMap.append, HeaderMap.get_cons]
      simp [HeaderMap.get]
  | cons entry rest ih =>
      obtain ⟨m, values⟩ := entry
      unfold HeaderMap.append
      by_cases hm : m = n
      · subst hm
        simp only [if_true, HeaderMap.get_cons]
        split <;> simp
      · simp only [if_neg hm, HeaderMap.get_cons, ih]
        by_cases h : m = name
        · have hn : n ≠ name := fun hn => hm (h.trans hn.symm)
          simp only [if_pos h, if_neg hn]
        · simp only [if_neg h]

/-- The name that a header is filed under. -/
theorem accepted_lowercase {lib : HttpLib} (hlib : NamesRead lib) {name n : String}
    (h : (fastHeaderName name).or (lib.headerNameFromBytes name) = some n) :
    n.toList = name.toList.map Char.toLower := by
  rcases Option.or_eq_some_iff.mp h with hfast | ⟨-, hslow⟩
  · have hsame : eqIgnoreAsciiCase name n = true := List.find?_some hfast
    have hlower : n.toList.map Char.toLower = n.toList := by
      have hmem := List.mem_of_find?_eq_some hfast
      have hall : (["host", "accept", "cookie", "connection", "user-agent", "content-type", "content-length",
          "accept-encoding", "accept-language"].all fun known =>
            known.toList.map Char.toLower == known.toList) = true := by decide
      exact beq_iff_eq.mp (List.all_eq_true.mp hall n hmem)
    unfold eqIgnoreAsciiCase at hsame
    rw [decide_eq_true_eq, hlower] at hsame
    exact hsame.symm
  · rw [hlib.lowercase name n hslow, String.toList_ofList]

/-- The header map has the first field of a name that is in lower case. -/
theorem get_appendHeaders {lib : HttpLib} (hlib : NamesRead lib) {name : String}
    (hname : name.toList.map Char.toLower = name.toList) {headers : List Header} :
    ∀ {map map' : HeaderMap}, appendHeaders lib map headers = .ok map' →
      map'.get name = (map.get name).or (fieldsNamed name headers).head? := by
  induction headers with
  | nil =>
      intro map map' h
      cases h
      simp [fieldsNamed]
  | cons x rest ih =>
      intro map map' h
      unfold appendHeaders at h
      split at h
      · rename_i n hn
        have hiff : n = name ↔ eqIgnoreAsciiCase x.name name = true := by
          unfold eqIgnoreAsciiCase
          rw [decide_eq_true_eq, hname, ← accepted_lowercase hlib hn, String.toList_inj]
        have hfields : fieldsNamed name (x :: rest)
            = (if n = name then [x.value] else []) ++ fieldsNamed name rest := by
          rw [← List.singleton_append, fieldsNamed_append, fieldsNamed_singleton]
          simp only [hiff]
        rw [ih h, get_append, hfields]
        by_cases hsame : n = name
        · simp [hsame]
        · simp [hsame]
      · cases h

/-! ### What `detect_ws_key` looks at -/

/-- The loop finds an Upgrade field that is `websocket`, and a key that is a text. -/
theorem foldl_scanUpgrade (headers : List Header) :
    (headers.foldl scanUpgrade (false, none)).1
      = (fieldsNamed "upgrade" headers).any (fun value => sameName value (asBytes "websocket")) ∧
    (headers.foldl scanUpgrade (false, none)).2.isSome
      = (fieldsNamed "sec-websocket-key" headers).any fun value => (fromUtf8 value).isSome := by
  induction headers using List.reverseRecOn with
  | nil => exact ⟨rfl, rfl⟩
  | append_singleton headers h ih =>
      obtain ⟨hupgrade, hkey⟩ := ih
      rw [List.foldl_append, List.foldl_cons, List.foldl_nil, fieldsNamed_append, fieldsNamed_append,
        fieldsNamed_singleton, fieldsNamed_singleton, List.any_append, List.any_append, ← hupgrade, ← hkey]
      generalize headers.foldl scanUpgrade (false, none) = found
      unfold scanUpgrade
      by_cases hname : eqIgnoreAsciiCase h.name "upgrade" = true
      · have hother : eqIgnoreAsciiCase h.name "sec-websocket-key" = false := by
          unfold eqIgnoreAsciiCase at hname ⊢
          rw [of_decide_eq_true hname]
          decide
        cases htext : fromUtf8 h.value with
        | none =>
            have hnot : sameName h.value (asBytes "websocket") = false := by
              by_contra hsame
              have hascii : (asBytes "websocket").all (· < 0x80) = true := by decide
              obtain ⟨text, htext'⟩ := text_of_sameName hascii (by simpa using hsame)
              rw [htext] at htext'
              cases htext'
            simp [hname, hother, hnot]
        | some text => simp [hname, hother, sameName_of_text htext]
      · by_cases hkey : eqIgnoreAsciiCase h.name "sec-websocket-key" = true
        · cases htext : fromUtf8 h.value <;> simp [hname, hkey, htext]
        · simp [hname, hkey]

/-- A visible byte is whitespace exactly when it is a blank. -/
theorem isWhitespace_visible {b : UInt8} (h : ((32 ≤ b && b < 127) || b == 9) = true) :
    isWhitespace (asciiChar b) = isBlank b := by
  have hall : ∀ n < 256, ((32 ≤ UInt8.ofNat n && UInt8.ofNat n < 127) || UInt8.ofNat n == 9) = true →
      isWhitespace (Char.ofNat (UInt8.ofNat n).toNat) = isBlank (UInt8.ofNat n) := by decide +kernel
  have hb := hall b.toNat b.toNat_lt
  rw [UInt8.ofNat_toNat] at hb
  exact hb h

theorem dropWhile_map_of {X Y : Type} {f : X → Y} {p : X → Bool} {q : Y → Bool} {xs : List X}
    (h : ∀ x ∈ xs, q (f x) = p x) : (xs.map f).dropWhile q = (xs.dropWhile p).map f := by
  induction xs with
  | nil => rfl
  | cons x rest ih =>
      have hrest := ih fun y hy => h y (List.mem_cons_of_mem _ hy)
      rw [List.map_cons, List.dropWhile_cons, List.dropWhile_cons, h x (List.mem_cons_self ..), hrest]
      split <;> rfl

/-- Trimming a text of visible bytes takes their blanks off. -/
theorem trim_visible {value : Bytes} (h : ∀ b ∈ value, ((32 ≤ b && b < 127) || b == 9) = true) :
    trim (value.map asciiChar) = (trimBlanks value).map asciiChar := by
  have hfront := dropWhile_map_of (f := asciiChar) (p := isBlank)
    fun b hb => isWhitespace_visible (h b hb)
  unfold trim trimBlanks List.rdropWhile
  rw [hfront, ← List.map_reverse, dropWhile_map_of (p := isBlank), List.map_reverse]
  intro b hb
  exact isWhitespace_visible (h b (List.dropWhile_subset _ (List.mem_reverse.mp hb)))

theorem mem_trimBlanks {value : Bytes} {b : UInt8} (hb : b ∈ value) : isBlank b = true ∨ b ∈ trimBlanks value := by
  rw [← List.takeWhile_append_dropWhile (p := isBlank) (l := value), List.mem_append] at hb
  rcases hb with hfront | hrest
  · exact Or.inl (List.mem_takeWhile_imp hfront)
  · unfold trimBlanks List.rdropWhile
    generalize value.dropWhile isBlank = rest at hrest
    rw [← List.mem_reverse, ← List.takeWhile_append_dropWhile (p := isBlank) (l := rest.reverse),
      List.mem_append] at hrest
    rcases hrest with hback | hmiddle
    · exact Or.inl (List.mem_takeWhile_imp hback)
    · exact Or.inr (List.mem_reverse.mpr hmiddle)

theorem asciiChar_injective : Function.Injective asciiChar := by
  intro a b h
  have ha := char_toNat (n := a.toNat) (by have := a.toNat_lt; left; omega)
  have hb := char_toNat (n := b.toNat) (by have := b.toNat_lt; left; omega)
  rw [← UInt8.toNat_inj, ← ha, ← hb]
  exact congrArg Char.toNat h

/-- The version is read as 13 exactly when it is 13 with blanks around it. -/
theorem thirteen_iff (value : Bytes) :
    ((toStr value).any fun v => trim v.toList == "13".toList) = isThirteen value := by
  unfold toStr
  split_ifs with hvisible
  · have hascii : ∀ b ∈ value, b < 0x80 := by
      intro b hb
      have hrange := List.all_eq_true.mp hvisible b hb
      simp only [Bool.or_eq_true, Bool.and_eq_true, decide_eq_true_eq, beq_iff_eq, UInt8.le_iff_toNat_le,
        UInt8.lt_iff_toNat_lt, ← UInt8.toNat_inj, UInt8.reduceToNat] at hrange ⊢
      omega
    have htext : "13".toList = (asBytes "13").map asciiChar := by decide
    rw [fromUtf8_ascii hascii, Option.any_some, String.toList_ofList,
      trim_visible (List.all_eq_true.mp hvisible), htext, Bool.eq_iff_iff, beq_iff_eq,
      (List.map_injective_iff.mpr asciiChar_injective).eq_iff, isThirteen, beq_iff_eq]
  · by_contra hthirteen
    refine hvisible (List.all_eq_true.mpr fun b hb => ?_)
    have hsame : trimBlanks value = asBytes "13" := by simpa [isThirteen] using hthirteen
    have hmem := mem_trimBlanks hb
    rw [hsame, show asBytes "13" = [49, 51] by decide] at hmem
    simp only [isBlank, Bool.or_eq_true, beq_iff_eq, List.mem_cons, List.not_mem_nil, or_false] at hmem
    rcases hmem with (rfl | rfl) | rfl | rfl <;> decide

/-- A key is a text. -/
theorem IsKey.text {value : Bytes} (h : IsKey value) : (fromUtf8 value).isSome = true := by
  obtain ⟨nonce, -, hvalue⟩ := h
  have hascii : ∀ b ∈ value, b < 0x80 := by
    intro b hb
    have hdigits : ∀ d ∈ Base64.alphabet, d < 0x80 := by decide +kernel
    rcases mem_trimBlanks hb with hblank | hdigit
    · simp only [isBlank, Bool.or_eq_true, beq_iff_eq] at hblank
      rcases hblank with rfl | rfl <;> decide
    · rw [hvalue] at hdigit
      exact hdigits b (Base64.encode_alphabet nonce b hdigit)
  rw [fromUtf8_ascii hascii]
  rfl

/-- `detect_ws_key` returns a key where it was asked to, by an Upgrade field that is `websocket`. -/
theorem detectWsKey_iff {lib : HttpLib} (hlib : NamesRead lib) {req : Request} {method : Method}
    {headerMap : HeaderMap} (hmethod : req.method.bind lib.methodFromBytes = some method)
    (hmap : buildHeaderMap lib req.headers = .ok headerMap) :
    (detectWsKey method req.headers headerMap).isSome = true ↔ Asked req ∧ WholeUpgrade req := by
  have hget : method = .get ↔ req.method = some "GET" := by
    obtain ⟨text, htext, hread⟩ := Option.bind_eq_some_iff.mp hmethod
    rw [htext, Option.some_inj, ← hlib.get text, hread, Option.some_inj]
  have hlower : "sec-websocket-version".toList.map Char.toLower = "sec-websocket-version".toList := by decide
  have hversion := get_appendHeaders hlib hlower hmap
  obtain ⟨hupgrade, hkey⟩ := foldl_scanUpgrade req.headers
  rw [show HeaderMap.get [] "sec-websocket-version" = none from rfl, Option.none_or] at hversion
  have hthirteen : ((headerMap.get "sec-websocket-version").bind toStr).any
      (fun v => trim v.toList == "13".toList)
        = (fieldsNamed "sec-websocket-version" req.headers).head?.any isThirteen := by
    rw [hversion]
    cases (fieldsNamed "sec-websocket-version" req.headers).head? with
    | none => rfl
    | some value => exact thirteen_iff value
  have hiff : Asked req ∧ WholeUpgrade req ↔ method = .get ∧
      ((headerMap.get "sec-websocket-version").bind toStr).any
        (fun v => trim v.toList == "13".toList) = true ∧
      (req.headers.foldl scanUpgrade (false, none)).1 = true ∧
      (req.headers.foldl scanUpgrade (false, none)).2.isSome = true := by
    rw [hthirteen, hupgrade, hkey, hget]
    constructor
    · intro ⟨hasked, hwhole⟩
      exact ⟨hasked.get, hasked.thirteen, hwhole, hasked.key⟩
    · intro ⟨hmethodText, hfirst, hwhole, hsome⟩
      exact ⟨⟨hmethodText, hfirst, hsome⟩, hwhole⟩
  rw [hiff]
  unfold detectWsKey
  by_cases hm : method = .get
  · rw [if_neg (not_not_intro hm)]
    rcases req.headers.foldl scanUpgrade (false, none) with ⟨_ | _, _ | key⟩
    · simp
    · simp
    · simp
    · simp only [hm, true_and, Option.isSome_some, and_true]
      split_ifs with hok
      · exact iff_of_true rfl hok
      · exact iff_of_false Bool.false_ne_true hok
  · simp [hm]

end Mahalo.HttpParse

namespace Mahalo.Endpoint

open FieldLists RustStd HttpParse

variable {A Ω : Type}

/-! ### The answer -/

/-- The 101 responses that were written. -/
def upgrades (out : Log A) : List (List UInt8) :=
  out.filterMap fun
    | .upgrade bytes => some bytes
    | _ => none

/-- The request is answered 101. -/
def Upgraded (srv : Server A Ω) (outside : Outside Ω) (out : Log A) (parsed : ParsedRequest A) : Prop :=
  ∃ bytes, upgrades (srv.executeAndRespond outside out parsed).1 = upgrades out ++ [bytes]

theorem upgrades_append (out more : Log A) : upgrades (out ++ more) = upgrades out ++ upgrades more :=
  List.filterMap_append

theorem upgrades_sseStreamingLoop (outside : Outside Ω) (chunks : List (List UInt8)) (out : Log A) :
    upgrades (sseStreamingLoop outside out chunks) = upgrades out := by
  induction chunks generalizing out with
  | nil => rfl
  | cons chunk rest ih =>
      have hchunk : upgrades (out ++ [.sse chunk]) = upgrades out := by
        rw [upgrades_append]
        exact List.append_nil _
      unfold sseStreamingLoop
      split_ifs
      · rw [ih, hchunk]
      · exact hchunk

theorem upgrades_respond (srv : Server A Ω) (outside : Outside Ω) (out : Log A) (conn : Conn A)
    (keepAlive : Bool) : upgrades (srv.respond outside out conn keepAlive).1 = upgrades out := by
  unfold Server.respond
  split
  · dsimp only
    split_ifs
    · rw [upgrades_sseStreamingLoop, upgrades_append]
      exact List.append_nil _
    · rw [upgrades_append]
      exact List.append_nil _
  · rw [upgrades_append]
    exact List.append_nil _

/-- With a `WsConfig`, a request is answered 101 when it was parsed with a key. -/
theorem upgraded_iff {srv : Server A Ω} (hsockets : srv.websockets = true) (outside : Outside Ω)
    (out : Log A) (parsed : ParsedRequest A) :
    Upgraded srv outside out parsed ↔ parsed.wsKey.isSome = true := by
  unfold Upgraded Server.executeAndRespond
  rw [hsockets]
  cases parsed.wsKey with
  | some key =>
      refine iff_of_true ⟨serializeWsAcceptResponse srv.rendering key, ?_⟩ rfl
      rw [upgrades_append]
      rfl
  | none =>
      refine iff_of_false ?_ Bool.false_ne_true
      intro ⟨bytes, hbytes⟩
      have hexecute : upgrades (out ++ [.execute parsed.conn]) = upgrades out := by
        rw [upgrades_append]
        exact List.append_nil _
      dsimp only at hbytes
      split at hbytes
      · rw [hexecute] at hbytes
        simp at hbytes
      · rw [upgrades_respond, hexecute] at hbytes
        simp at hbytes

end Mahalo.Endpoint

namespace Mahalo.HttpParse

open FieldLists RustStd

/-- What is asked for is in order, and an Upgrade list with `websocket` in it has a field of its own for it. -/
def ChecksSuffice (req : Request) : Prop :=
  Asked req → (WholeUpgrade req → RestInOrder req) ∧
    (lists (asBytes "websocket") (fieldsNamed "upgrade" req.headers) = true → RestInOrder req → WholeUpgrade req)

/-- A handshake is what is asked for, with a `websocket` among the upgrades, and the rest. -/
theorem handshake_iff {req : Request} : Handshake req ↔ Asked req ∧
    lists (asBytes "websocket") (fieldsNamed "upgrade" req.headers) = true ∧ RestInOrder req := by
  constructor
  · intro h
    obtain ⟨version, hversion⟩ := List.length_eq_one_iff.mp h.oneVersion
    obtain ⟨key, hkey, hnonce⟩ := h.oneKey
    have hthirteen := h.thirteen
    refine ⟨⟨h.get, ?_, ?_⟩, h.upgrade, h.toRestInOrder⟩
    · rw [hversion] at hthirteen ⊢
      simpa using hthirteen
    · rw [hkey]
      simpa using hnonce.text
  · intro ⟨hasked, hupgrade, hrest⟩
    obtain ⟨version, hversion⟩ := List.length_eq_one_iff.mp hrest.oneVersion
    have hthirteen := hasked.thirteen
    refine ⟨hrest, hasked.get, hupgrade, ?_⟩
    rw [hversion] at hthirteen ⊢
    simpa using hthirteen

theorem WholeUpgrade.listed {req : Request} (h : WholeUpgrade req) :
    lists (asBytes "websocket") (fieldsNamed "upgrade" req.headers) = true := by
  obtain ⟨value, hvalue, hsame⟩ := List.any_eq_true.mp h
  exact lists_of_whole (by decide) hvalue hsame

end Mahalo.HttpParse

namespace Mahalo.Endpoint

open FieldLists RustStd HttpParse

variable {A Ω : Type}

/-- The requests that are answered 101 by a server with a `WsConfig`. -/
theorem upgraded_iff_asked {srv : Server A Ω} (hsockets : srv.websockets = true) (hlib : NamesRead srv.lib)
    {buf : List UInt8} {n : Nat} {req : Request} {parsed : ParsedRequest A}
    (hparse : srv.lib.parse buf = .complete n req) (hok : srv.tryParse buf = .ok (some parsed))
    (outside : Outside Ω) (out : Log A) :
    Upgraded srv outside out parsed ↔ Asked req ∧ WholeUpgrade req := by
  obtain ⟨raw, headerMap, hraw, hmap, -, hkey, -⟩ := tryParse_parts hok
  obtain ⟨hmethod, hheaders, -, -⟩ := parseRaw_fields hparse hraw
  rw [hheaders] at hmap hkey
  rw [upgraded_iff hsockets, hkey, detectWsKey_iff hlib hmethod hmap]

/--
**When a handshake is answered as it should be.**  For every method, version and list of
headers: a server with a `WsConfig` answers 101 exactly if the request is a valid opening
handshake, if and only if what `detect_ws_key` asks for suffices.  That is, of the GET
requests whose first version is 13 and that have a key which is a text, those with an
Upgrade field that is `websocket` are in order in all that is not looked at, and those
in order that list `websocket` have it as a whole field.
-/
theorem upgrades_handshakes_iff (srv : Server A Ω) (hsockets : srv.websockets = true)
    (hlib : NamesRead srv.lib) {buf : List UInt8} {n : Nat} {req : Request} {parsed : ParsedRequest A}
    (hparse : srv.lib.parse buf = .complete n req) (hok : srv.tryParse buf = .ok (some parsed))
    (outside : Outside Ω) (out : Log A) :
    (Upgraded srv outside out parsed ↔ Handshake req) ↔ ChecksSuffice req := by
  rw [upgraded_iff_asked hsockets hlib hparse hok, handshake_iff]
  unfold ChecksSuffice
  constructor
  · intro hiff hasked
    refine ⟨?_, ?_⟩
    · intro hwhole
      exact (hiff.mp ⟨hasked, hwhole⟩).2.2
    · intro hlisted hrest
      exact (hiff.mpr ⟨hasked, hlisted, hrest⟩).2
  · intro hsuffice
    constructor
    · intro ⟨hasked, hwhole⟩
      exact ⟨hasked, hwhole.listed, (hsuffice hasked).1 hwhole⟩
    · intro ⟨hasked, hlisted, hrest⟩
      exact ⟨hasked, (hsuffice hasked).2 hlisted hrest⟩

/-- A GET with these fields, and nothing else. -/
def socketRequest (fields : List (String × String)) : Request :=
  { method := some "GET", path := some "/ws", version := some 1
    headers := fields.map fun field => { name := field.1, value := asBytes field.2 } }

def socketHead (fields : List (String × String)) : List UInt8 :=
  asBytes ("GET /ws HTTP/1.1\r\n"
    ++ String.join (fields.map fun field => field.1 ++ ": " ++ field.2 ++ "\r\n") ++ "\r\n")

def socketServer (fields : List (String × String)) : Server Unit Unit :=
  { pingServer with
    websockets := true
    lib := { oneRequestLib (socketHead fields) (socketRequest fields) .get with
      methodFromBytes := fun text => if text = "GET" then some .get else none
      headerNameFromBytes := fun name => some (String.ofList (name.toList.map Char.toLower)) } }

theorem socketServer_names (fields : List (String × String)) : NamesRead (socketServer fields).lib where
  get := by
    intro text
    simp [socketServer]
  lowercase := by
    intro name n h
    simpa [socketServer] using h.symm

/-- The head is a request that is parsed. -/
theorem socketServer_parses (fields : List (String × String)) :
    (socketServer fields).lib.parse (socketHead fields)
        = .complete (socketHead fields).length (socketRequest fields) ∧
      ∃ parsed, (socketServer fields).tryParse (socketHead fields) = .ok (some parsed) := by
  have hparse : (socketServer fields).lib.parse (socketHead fields)
      = .complete (socketHead fields).length (socketRequest fields) :=
    if_pos (List.isPrefixOf_iff_prefix.mpr (List.prefix_refl _))
  have hhead : CompleteHead (socketServer fields).lib (socketHead fields) (socketHead fields).length
      (socketRequest fields) .get { path := "/ws", query := none } :=
    { parsed := hparse
      method := rfl
      uri := rfl
      names := by
        intro h _
        unfold nameAccepted
        cases fastHeaderName h.name <;> rfl }
  obtain ⟨parsed, hparsed, -⟩ := hhead.tryParse 0 (socketServer fields).bodyLimit (socketServer fields).peerAddr
    (fun raw hmethod _ => bodyLen_bodyless (Or.inl hmethod)) (Nat.zero_le _) (Nat.le_refl _)
  exact ⟨hparse, parsed, hparsed⟩

def versionAndKey : List (String × String) :=
  [("Sec-WebSocket-Version", "13"), ("Sec-WebSocket-Key", "dGhlIHNhbXBsZSBub25jZQ==")]

/-- A handshake with two tokens in its Connection field. -/
def fullHandshake (upgrade : String) : List (String × String) :=
  ("Upgrade", upgrade) :: ("Connection", "keep-alive, Upgrade") :: versionAndKey

/-- The fields with another name do not depend on the Upgrade field. -/
theorem fullHandshake_fields (upgrade : String) {name : String} (h : eqIgnoreAsciiCase "Upgrade" name = false) :
    fieldsNamed name (socketRequest (fullHandshake upgrade)).headers
      = fieldsNamed name (socketRequest (("Connection", "keep-alive, Upgrade") :: versionAndKey)).headers := by
  simp [fieldsNamed, socketRequest, fullHandshake, h]

theorem fullHandshake_rest (upgrade : String) : RestInOrder (socketRequest (fullHandshake upgrade)) := by
  have hother : eqIgnoreAsciiCase "Upgrade" "connection" = false
      ∧ eqIgnoreAsciiCase "Upgrade" "sec-websocket-version" = false
      ∧ eqIgnoreAsciiCase "Upgrade" "sec-websocket-key" = false := by decide
  refine { version := ⟨1, rfl, Nat.le_refl 1⟩, connection := ?_, oneVersion := ?_, oneKey := ?_ }
  · rw [fullHandshake_fields _ hother.1]
    decide
  · rw [fullHandshake_fields _ hother.2.1]
    decide
  · rw [fullHandshake_fields _ hother.2.2]
    exact ⟨asBytes "dGhlIHNhbXBsZSBub25jZQ==", by decide, asBytes "the sample nonce", by decide, by decide⟩

theorem fullHandshake_asked (upgrade : String) : Asked (socketRequest (fullHandshake upgrade)) := by
  have hother : eqIgnoreAsciiCase "Upgrade" "sec-websocket-version" = false
      ∧ eqIgnoreAsciiCase "Upgrade" "sec-websocket-key" = false := by decide
  refine { get := rfl, thirteen := ?_, key := ?_ }
  · rw [fullHandshake_fields _ hother.1]
    decide
  · rw [fullHandshake_fields _ hother.2]
    decide

theorem upgrades_handshakes_iff_full : ∃ parsed,
    (socketServer (fullHandshake "WebSocket")).tryParse (socketHead (fullHandshake "WebSocket"))
        = .ok (some parsed) ∧
      (Upgraded (socketServer (fullHandshake "WebSocket")) quiet [] parsed ↔
        Handshake (socketRequest (fullHandshake "WebSocket"))) := by
  obtain ⟨hparse, parsed, hok⟩ := socketServer_parses (fullHandshake "WebSocket")
  refine ⟨parsed, hok, (upgrades_handshakes_iff _ rfl (socketServer_names _) hparse hok quiet []).mpr ?_⟩
  have hwhole : WholeUpgrade (socketRequest (fullHandshake "WebSocket")) := by
    unfold WholeUpgrade
    decide
  intro _
  exact ⟨fun _ => fullHandshake_rest _, fun _ _ => hwhole⟩

/-- A handshake without its Connection field. -/
def noConnection : List (String × String) := ("Upgrade", "websocket") :: versionAndKey

/-- Without a Connection field a request is answered 101, and a handshake for two protocols is not. -/
theorem handshakes_mistaken :
    (∃ parsed, (socketServer noConnection).tryParse (socketHead noConnection) = .ok (some parsed) ∧
      Upgraded (socketServer noConnection) quiet [] parsed ∧ ¬Handshake (socketRequest noConnection)) ∧
    ∃ parsed, (socketServer (fullHandshake "h2c, websocket")).tryParse
        (socketHead (fullHandshake "h2c, websocket")) = .ok (some parsed) ∧
      ¬Upgraded (socketServer (fullHandshake "h2c, websocket")) quiet [] parsed ∧
      Handshake (socketRequest (fullHandshake "h2c, websocket")) := by
  constructor
  · obtain ⟨hparse, parsed, hok⟩ := socketServer_parses noConnection
    refine ⟨parsed, hok, ?_, ?_⟩
    · rw [upgraded_iff_asked rfl (socketServer_names _) hparse hok]
      exact ⟨{ get := rfl, thirteen := by decide, key := by decide }, by unfold WholeUpgrade; decide⟩
    · intro h
      exact absurd h.connection (by decide)
  · obtain ⟨hparse, parsed, hok⟩ := socketServer_parses (fullHandshake "h2c, websocket")
    refine ⟨parsed, hok, ?_, ?_⟩
    · rw [upgraded_iff_asked rfl (socketServer_names _) hparse hok]
      intro h
      exact absurd h.2 (by unfold WholeUpgrade; decide)
    · exact handshake_iff.mpr ⟨fullHandshake_asked _, by decide, fullHandshake_rest _⟩

end Mahalo.Endpoint
