/-
The plug against forged requests admits exactly the signed tokens.

What a decoder that is strict makes of a token is known from the token alone, so a token is
valid exactly if it is one that could have been issued: 32 bytes with their MAC under the
secret.  Every other request that is not safe is answered 403 and halted, and nothing that
stands behind the plug in a route is called on it.
-/
import Mahalo.Lib.Utf8
import Mahalo.Plug.Csrf
import Mahalo.Proofs.Endpoint.Handler
import Mahalo.Proofs.Endpoint.HttpParse

namespace Mahalo.CsrfProtection

open Interactive RustStd Router Endpoint EarlyExit

variable {lib : CsrfLib} {csrf other : CsrfProtection}

/-- What is signed under the secret: 32 bytes and their MAC. -/
def combined (lib : CsrfLib) (secret : List UInt8) (randomBytes : Bytes32) : List UInt8 :=
  randomBytes.val ++ (lib.hmacSha256 secret randomBytes.val).val

def Signed (lib : CsrfLib) (secret value : List UInt8) : Prop :=
  ∃ randomBytes : Bytes32, value = Base64.encode (combined lib secret randomBytes)

/-- The first token of a request is signed. -/
def BringsToken (lib : CsrfLib) (secret : List UInt8) {A : Type} (conn : Conn A) : Prop :=
  ∃ value, conn.headers.get "x-csrf-token" = some value ∧ Signed lib secret value

/-! ### Tokens as texts and as values of fields -/

theorem alphabet_visible : ∀ b ∈ Base64.alphabet, 32 ≤ b ∧ b < 127 := by decide +kernel

theorem encode_visible (bytes : List UInt8) : ∀ b ∈ Base64.encode bytes, 32 ≤ b ∧ b < 127 :=
  fun b hb => alphabet_visible b (Base64.encode_alphabet bytes b hb)

theorem fromUtf8_encode_base64 (bytes : List UInt8) :
    fromUtf8 (Base64.encode bytes) = some (base64Text bytes) := by
  refine fromUtf8_ascii fun b hb => ?_
  have hvisible := (encode_visible bytes b hb).2
  simp only [UInt8.lt_iff_toNat_lt, UInt8.reduceToNat] at hvisible ⊢
  omega

theorem asBytes_base64Text (bytes : List UInt8) : asBytes (base64Text bytes) = Base64.encode bytes :=
  asBytes_of_fromUtf8 (fromUtf8_encode_base64 bytes)

theorem toStr_encode (bytes : List UInt8) :
    HttpParse.toStr (Base64.encode bytes) = some (base64Text bytes) := by
  unfold HttpParse.toStr
  rw [if_pos, fromUtf8_encode_base64]
  refine List.all_eq_true.mpr fun b hb => ?_
  simp [encode_visible bytes b hb]

theorem headerValue_base64Text (bytes : List UInt8) :
    headerValue (base64Text bytes) = some (Base64.encode bytes) := by
  unfold headerValue
  rw [asBytes_base64Text, if_pos]
  refine List.all_eq_true.mpr fun b hb => ?_
  obtain ⟨hlow, hhigh⟩ := encode_visible bytes b hb
  have hne : b ≠ 127 := by
    rintro rfl
    exact absurd hhigh (by decide)
  simp [hlow, hne]

/-! ### Validation -/

theorem combined_length (secret : List UInt8) (randomBytes : Bytes32) :
    (combined lib secret randomBytes).length = 64 := by
  simp [combined, randomBytes.2, (lib.hmacSha256 secret randomBytes.val).2]

/-- The bytes that are 32 with their MAC. -/
theorem macs_iff (secret decoded : List UInt8) :
    (decoded.length = 64 ∧ (lib.hmacSha256 secret (decoded.take 32)).val = decoded.drop 32) ↔
      ∃ randomBytes : Bytes32, decoded = combined lib secret randomBytes := by
  constructor
  · rintro ⟨hlength, hmac⟩
    refine ⟨⟨decoded.take 32, by simp [hlength]⟩, ?_⟩
    rw [combined, hmac, List.take_append_drop]
  · rintro ⟨randomBytes, rfl⟩
    refine ⟨combined_length secret randomBytes, ?_⟩
    have htake : (combined lib secret randomBytes).take 32 = randomBytes.val :=
      List.take_left' randomBytes.2
    have hdrop : (combined lib secret randomBytes).drop 32 = (lib.hmacSha256 secret randomBytes.val).val :=
      List.drop_left' randomBytes.2
    rw [htake, hdrop]

/-- **A token is valid exactly if it could have been issued.** -/
theorem validateToken_iff (hstrict : Base64.Strict lib.decode) (token : String) :
    csrf.validateToken lib token = true ↔ Signed lib csrf.secret (asBytes token) := by
  have hsigned : Signed lib csrf.secret (asBytes token) ↔
      ∃ decoded, lib.decode (asBytes token) = some decoded ∧
        ∃ randomBytes : Bytes32, decoded = combined lib csrf.secret randomBytes := by
    constructor
    · rintro ⟨randomBytes, htoken⟩
      exact ⟨_, (hstrict _ _).mpr htoken, randomBytes, rfl⟩
    · rintro ⟨decoded, hdecoded, randomBytes, rfl⟩
      exact ⟨randomBytes, (hstrict _ _).mp hdecoded⟩
  rw [hsigned]
  unfold validateToken
  cases lib.decode (asBytes token) with
  | none => simp
  | some decoded =>
    simp only [Option.some.injEq, exists_eq_left', ← macs_iff]
    by_cases hlength : decoded.length = 64 <;> simp [hlength]

/-- A token of another secret is signed exactly where the two MACs of its bytes are one. -/
theorem signed_combined_iff (hstrict : Base64.Strict lib.decode) (secret secret' : List UInt8)
    (randomBytes : Bytes32) : Signed lib secret (Base64.encode (combined lib secret' randomBytes)) ↔
      lib.hmacSha256 secret randomBytes.val = lib.hmacSha256 secret' randomBytes.val := by
  constructor
  · rintro ⟨randomBytes', hsame⟩
    have hbytes := hstrict.injective hsame
    obtain ⟨hrandom, hmac⟩ := List.append_inj hbytes (randomBytes.2.trans randomBytes'.2.symm)
    rw [← hrandom] at hmac
    exact (Subtype.ext hmac).symm
  · intro hmac
    refine ⟨randomBytes, ?_⟩
    rw [combined, combined, hmac]

/-! ### Requests -/

/-- A request that brings back what was issued is admitted exactly if the two secrets give one MAC. -/
theorem brings_issued_iff (hstrict : Base64.Strict lib.decode) {A : Type} {conn : Conn A} {randomBytes : Bytes32}
    {value : List UInt8} (hissued : value = Base64.encode (combined lib other.secret randomBytes))
    (hfirst : conn.headers.get "x-csrf-token" = some value) :
    BringsToken lib csrf.secret conn ↔
      lib.hmacSha256 csrf.secret randomBytes.val = lib.hmacSha256 other.secret randomBytes.val := by
  rw [← signed_combined_iff hstrict, ← hissued]
  constructor
  · rintro ⟨value', hvalue', hsigned⟩
    rwa [Option.some.inj (hfirst.symm.trans hvalue')]
  · exact fun hsigned => ⟨value, hfirst, hsigned⟩

section

variable {K : Type} [DecidableEq K] {β : K → Type} {Ω : Type} {tokenKey : CsrfToken β} {fill : Ω → Bytes32}
  {conn : Conn (Assigns β)}

theorem isSafeMethod_iff {method : Method} : isSafeMethod method = true ↔ method ∈ [Method.get, .head, .options] :=
  decide_eq_true_iff

theorem isSafeMethod_eq_false {method : Method} :
    isSafeMethod method = false ↔ method ∉ [Method.get, .head, .options] :=
  decide_eq_false_iff_not

theorem forbidden_of_not_brings (hstrict : Base64.Strict lib.decode) (hwrites : isSafeMethod conn.method = false)
    (h : ¬BringsToken lib csrf.secret conn) : csrf.call lib tokenKey fill conn = pure (forbidden conn) := by
  unfold call
  rw [if_neg (by simp [hwrites])]
  cases htoken : (conn.headers.get "x-csrf-token").bind HttpParse.toStr with
  | none => rfl
  | some token =>
    obtain ⟨value, hvalue, htext⟩ := Option.bind_eq_some_iff.mp htoken
    have hinvalid : csrf.validateToken lib token = false := by
      rw [Bool.eq_false_iff]
      intro hvalid
      have hsigned := (validateToken_iff hstrict token).mp hvalid
      rw [HttpParse.asBytes_of_toStr htext] at hsigned
      exact h ⟨value, hvalue, hsigned⟩
    simp [hinvalid]

theorem assigned_of_brings (hstrict : Base64.Strict lib.decode) (hwrites : isSafeMethod conn.method = false)
    (h : BringsToken lib csrf.secret conn) :
    ∃ token, csrf.call lib tokenKey fill conn = pure (assignToken tokenKey conn token) := by
  obtain ⟨value, hvalue, randomBytes, rfl⟩ := h
  refine ⟨base64Text (combined lib csrf.secret randomBytes), ?_⟩
  have hvalid : csrf.validateToken lib (base64Text (combined lib csrf.secret randomBytes)) = true := by
    rw [validateToken_iff hstrict, asBytes_base64Text]
    exact ⟨randomBytes, rfl⟩
  unfold call
  rw [if_neg (by simp [hwrites]), hvalue, Option.bind_some, toStr_encode]
  simp [hvalid]

/-- What the plug makes of a request that is not safe. -/
structure Admits (lib : CsrfLib) (csrf : CsrfProtection) (conn answer : Conn (Assigns β)) : Prop where
  unhalted_iff : answer.halted = false ↔ conn.halted = false ∧ BringsToken lib csrf.secret conn
  otherwise : ¬BringsToken lib csrf.secret conn → answer.status = statusForbidden ∧ answer.halted = true

theorem call_admits (hstrict : Base64.Strict lib.decode) (hwrites : isSafeMethod conn.method = false) :
    ∃ answer, csrf.call lib tokenKey fill conn = pure answer ∧ Admits lib csrf conn answer := by
  by_cases h : BringsToken lib csrf.secret conn
  · obtain ⟨token, hcall⟩ : ∃ token, csrf.call lib tokenKey fill conn = pure (assignToken tokenKey conn token) :=
      assigned_of_brings hstrict hwrites h
    exact ⟨_, hcall, by simp [h, assignToken, Conn.assign], fun hnot => absurd h hnot⟩
  · refine ⟨_, forbidden_of_not_brings hstrict hwrites h, ?_, fun _ => ⟨rfl, rfl⟩⟩
    simp [h, forbidden, Conn.halt]

/-- What a safe request becomes: it has a token in its assigns and in a field of the answer. -/
def issued (lib : CsrfLib) (csrf : CsrfProtection) (tokenKey : CsrfToken β) (conn : Conn (Assigns β))
    (randomBytes : Bytes32) : Conn (Assigns β) :=
  (assignToken tokenKey conn (csrf.generateToken lib randomBytes)).putRespHeader "x-csrf-token"
    (csrf.generateToken lib randomBytes)

theorem call_safe (hsafe : isSafeMethod conn.method = true) : csrf.call lib tokenKey fill conn =
    Prog.perform () >>= fun answer => pure (issued lib csrf tokenKey conn (fill answer)) :=
  if_pos hsafe

theorem get_issued (randomBytes : Bytes32) :
    (issued lib csrf tokenKey conn randomBytes).respHeaders.get "x-csrf-token"
      = some (Base64.encode (combined lib csrf.secret randomBytes)) := by
  have hvalue : headerValue (csrf.generateToken lib randomBytes)
      = some (Base64.encode (combined lib csrf.secret randomBytes)) := headerValue_base64Text _
  simp [issued, Conn.putRespHeader, hvalue, HeaderMap.get_insert]

/-! ### What is behind the plug -/

/-- No more is called behind the plug on a request that it answers with 403. -/
theorem traced_forbidden (hstrict : Base64.Strict lib.decode) (hlive : conn.halted = false)
    (hwrites : isSafeMethod conn.method = false) (h : ¬BringsToken lib csrf.secret conn) (n : Nat)
    (later : List (Handler (Assigns β) Ω)) :
    traced Conn.halted n ((.plug (csrf.plug lib tokenKey fill) :: later).map Handler.run) conn
      = .emit (.call n conn) fun _ => pure (forbidden conn) := by
  refine traced_stopping Conn.halted hlive ?_ rfl _
  show csrf.call lib tokenKey fill conn = _
  exact forbidden_of_not_brings hstrict hwrites h

/-- The plug with a secret, among all the plugs with any secret.  The methods that it takes for safe are spelled out. -/
structure AdmitsSigned (lib : CsrfLib) (csrf : CsrfProtection) (tokenKey : CsrfToken β) (fill : Ω → Bytes32) :
    Prop where
  admits : ∀ conn : Conn (Assigns β), conn.method ∉ [Method.get, .head, .options] →
    ∃ answer, csrf.call lib tokenKey fill conn = pure answer ∧ Admits lib csrf conn answer
  bars : ∀ (resolved : ResolvedRoute (Assigns β) Ω) before later, routeSteps resolved =
      before ++ .plug (csrf.plug lib tokenKey fill) :: later → ∀ conn,
    (routeRecord resolved conn).hide untrace = waits (resolved.execute conn) ∧
    ∃ behind, routeRecord resolved conn =
        tracedFlat (before.map Handler.run) { conn with pathParams := resolved.pathParams } >>= behind ∧
      ∀ c, c.halted = false → c.method ∉ [Method.get, .head, .options] → ¬BringsToken lib csrf.secret c →
        behind c = .emit (.call before.length c) fun _ => pure (forbidden c)
  issues : ∀ (other : CsrfProtection) (conn : Conn (Assigns β)), conn.method ∈ [Method.get, .head, .options] →
    ∃ issue : Ω → Conn (Assigns β),
      other.call lib tokenKey fill conn = (Prog.perform () >>= fun answer => pure (issue answer)) ∧
      ∀ answer, ∃ value, (issue answer).respHeaders.get "x-csrf-token" = some value ∧
        ∀ later : Conn (Assigns β), later.headers.get "x-csrf-token" = some value →
          (other.secret = csrf.secret → BringsToken lib csrf.secret later) ∧
          (BringsToken lib csrf.secret later ↔
            lib.hmacSha256 csrf.secret (fill answer).val = lib.hmacSha256 other.secret (fill answer).val)

/-- **The plug admits exactly signed tokens**, and those that are issued are. -/
theorem admits_exactly_signed (hstrict : Base64.Strict lib.decode) (csrf : CsrfProtection)
    (tokenKey : CsrfToken β) (fill : Ω → Bytes32) : AdmitsSigned lib csrf tokenKey fill where
  admits := fun conn hwrites => call_admits hstrict (isSafeMethod_eq_false.mpr hwrites)
  bars := by
    intro resolved before later hsteps conn
    refine ⟨hide_routeRecord resolved conn,
      traced Conn.halted before.length ((.plug (csrf.plug lib tokenKey fill) :: later).map Handler.run), ?_,
      fun c hlive hwrites h => traced_forbidden hstrict hlive (isSafeMethod_eq_false.mpr hwrites) h _ later⟩
    unfold routeRecord tracedFlat
    rw [hsteps, List.map_append, traced_append, Nat.zero_add, List.length_map]
  issues := by
    intro other conn hsafe
    refine ⟨fun answer => issued lib other tokenKey conn (fill answer), call_safe (isSafeMethod_iff.mpr hsafe),
      fun answer => ?_⟩
    refine ⟨_, get_issued (fill answer), fun later hfirst => ?_⟩
    have hiff : BringsToken lib csrf.secret later ↔ _ := brings_issued_iff hstrict rfl hfirst
    exact ⟨fun hsecret => hiff.mpr (by rw [hsecret]), hiff⟩

end

/-- The MAC of 32 zero bytes under the secret of the tests, and a block of zeros for anything else. -/
def testMac (key message : List UInt8) : Bytes32 :=
  if key = asBytes "test-secret" ∧ message = List.replicate 32 0 then
    ⟨[40, 156, 185, 200, 27, 197, 7, 202, 195, 199, 50, 116, 165, 194, 251, 26, 218, 202, 48, 12, 236, 35, 237, 103,
      226, 250, 41, 86, 156, 20, 251, 249], rfl⟩
  else ⟨List.replicate 32 0, rfl⟩

/-- The only key of these assigns is the token's. -/
def testKey : CsrfToken (fun _ : Unit => String) := { key := (), value := rfl }

theorem admits_exactly_signed_test : AdmitsSigned { decode := Base64.decode, hmacSha256 := testMac }
    { secret := asBytes "test-secret" } testKey fun _ : Unit => ⟨List.replicate 32 0, rfl⟩ :=
  admits_exactly_signed Base64.strict_decode _ _ _

end Mahalo.CsrfProtection
