/-
`Conn`: the request and the response that plugs and handlers work on.

A header map keeps its names in the order in which they were first seen, each with
its values in order; names are the lower-case strings of `HeaderName`.  The
assigns are a parameter `A`, since most functions do not look inside them; where
they do, `Assigns` is the map, from keys to values of the key's own type.  Only a
`Conn` that is recycled is seen with its handle to the runtime.  Percent-decoding is a
parameter.
-/
import Mathlib.Data.List.AList
import Mahalo.Lib.RustStd

namespace Mahalo

/-- `http::Method` -/
inductive Method where
  | options
  | get
  | post
  | put
  | delete
  | head
  | trace
  | connect
  | patch
  | extension (name : String)
  deriving DecidableEq, Repr

/-- `http::Uri`, as far as it is looked at. -/
structure Uri where
  path : String
  query : Option String
  deriving DecidableEq, Repr

/-- `http::HeaderMap` -/
abbrev HeaderMap := List (String × List (List UInt8))

namespace HeaderMap

/-- `HeaderMap::append` -/
def append (map : HeaderMap) (name : String) (value : List UInt8) : HeaderMap :=
  match map with
  | [] => [(name, [value])]
  | (n, values) :: rest =>
      if n = name then (n, values ++ [value]) :: rest else (n, values) :: append rest name value

/-- `HeaderMap::insert`: the value takes the place of those that the name had. -/
def insert (map : HeaderMap) (name : String) (value : List UInt8) : HeaderMap :=
  match map with
  | [] => [(name, [value])]
  | (n, values) :: rest =>
      if n = name then (n, [value]) :: rest else (n, values) :: insert rest name value

/-- `HeaderMap::get`: the first value of a name. -/
def get (map : HeaderMap) (name : String) : Option (List UInt8) :=
  (map.find? fun (n, _) => n == name).bind fun (_, values) => values.head?

theorem get_cons (n name : String) (values : List (List UInt8)) (rest : HeaderMap) :
    get ((n, values) :: rest) name = if n = name then values.head? else rest.get name := by
  by_cases h : n = name <;> simp [get, h]

theorem get_insert (map : HeaderMap) (n name : String) (value : List UInt8) :
    (map.insert n value).get name = if n = name then some value else map.get name := by
  induction map with
  | nil => simp [insert, get_cons]
  | cons entry rest ih =>
    obtain ⟨m, values⟩ := entry
    unfold insert
    by_cases hm : m = n
    · subst hm
      simp only [if_true, get_cons, List.head?_cons]
      split <;> rfl
    · simp only [if_neg hm, get_cons, ih]
      by_cases h : m = name
      · have hn : n ≠ name := fun hn => hm (h.trans hn.symm)
        simp only [if_pos h, if_neg hn]
      · simp only [if_neg h]

/-- `HeaderMap::contains_key` -/
def containsKey (map : HeaderMap) (name : String) : Bool := map.any fun (n, _) => n == name

/-- `HeaderMap::iter`: every value with its name. -/
def iter (map : HeaderMap) : List (String × List UInt8) :=
  map.flatMap fun (n, values) => values.map fun value => (n, value)

end HeaderMap

/-- `HeaderValue::from_str`: tabs, and no other control characters. -/
def headerValue (value : String) : Option (List UInt8) :=
  if (RustStd.asBytes value).all fun b => (32 ≤ b && b != 127) || b == 9 then some (RustStd.asBytes value)
  else none

/-- `StatusCode::OK`, `StatusCode::NOT_MODIFIED` and `StatusCode::NOT_FOUND` -/
def statusOk : Nat := 200
def statusNotModified : Nat := 304
def statusNotFound : Nat := 404

/-- `PathParams`: the values are the bytes of the path. -/
abbrev PathParams := List (String × String)

structure Conn (A : Type) where
  method : Method
  uri : Uri
  headers : HeaderMap
  pathParams : PathParams
  queryParams : Option (AList fun _ : String => String)
  remoteAddr : Option String
  body : List UInt8
  status : Nat
  respHeaders : HeaderMap
  respBody : List UInt8
  halted : Bool
  assigns : Option A

namespace Conn

variable {A : Type}

def new (method : Method) (uri : Uri) : Conn A :=
  { method, uri, headers := [], pathParams := [], queryParams := none, remoteAddr := none, body := [],
    status := statusOk, respHeaders := [], respBody := [], halted := false, assigns := none }

def putStatus (conn : Conn A) (status : Nat) : Conn A := { conn with status }

/-- `Conn::put_resp_header`, for a key that is a header name. -/
def putRespHeader (conn : Conn A) (key value : String) : Conn A :=
  match headerValue value with
  | some v => { conn with respHeaders := conn.respHeaders.insert key v }
  | none => conn

theorem get_putRespHeader_ne {conn : Conn A} {key value name : String} (h : key ≠ name) :
    (conn.putRespHeader key value).respHeaders.get name = conn.respHeaders.get name := by
  unfold Conn.putRespHeader
  cases headerValue value with
  | none => rfl
  | some v => simp [HeaderMap.get_insert, h]

def putRespBody (conn : Conn A) (body : List UInt8) : Conn A := { conn with respBody := body }

def halt (conn : Conn A) : Conn A := { conn with halted := true }

/-- `Conn::path_param`.  The values are slices of the path, so they are UTF-8. -/
def pathParam (conn : Conn A) (name : String) : Option String := conn.pathParams.lookup name

/-- `Conn::query_param` -/
def queryParam (conn : Conn A) (name : String) : Option String :=
  conn.queryParams.bind fun params => params.lookup name

variable (percentDecode : String → List UInt8)

/-- One round of the closure of `parse_query_params`: the decoded key and value of a pair. -/
def decodePair (pair : List Char) : String × String :=
  let (key, value) := (RustStd.splitAtChar pair '=').getD (pair, [])
  (RustStd.fromUtf8Lossy (percentDecode (String.ofList key)),
    RustStd.fromUtf8Lossy (percentDecode (String.ofList value)))

/-- The map that the pairs of a query are collected into, later ones over earlier ones. -/
def decodeQuery (query : String) : AList fun _ : String => String :=
  ((RustStd.split query.toList '&').map (decodePair percentDecode)).foldl
    (fun map pair => map.insert pair.1 pair.2) ∅

/-- `Conn::parse_query_params` -/
def parseQueryParams (conn : Conn A) : Conn A :=
  match conn.uri.query with
  | some query => { conn with queryParams := some (decodeQuery percentDecode query) }
  | none => conn

end Conn

/-- The assigns: `K` for the key types, `β k` for `K::Value`. -/
abbrev Assigns {K : Type} (β : K → Type) := AList β

section

variable {K : Type} [DecidableEq K] {β : K → Type} {R : Type}

namespace Conn

def assign (conn : Conn (Assigns β)) (k : K) (value : β k) : Conn (Assigns β) :=
  { conn with assigns := some ((conn.assigns.getD ∅).insert k value) }

def getAssign (conn : Conn (Assigns β)) (k : K) : Option (β k) :=
  conn.assigns.bind fun assigns => assigns.lookup k

/-- `Conn::take_assign`: the value, and the `Conn` without it. -/
def takeAssign (conn : Conn (Assigns β)) (k : K) : Option (β k) × Conn (Assigns β) :=
  match conn.assigns with
  | none => (none, conn)
  | some assigns => (assigns.lookup k, { conn with assigns := some (assigns.erase k) })

@[simp] theorem getAssign_assign (conn : Conn (Assigns β)) (k : K) (value : β k) :
    (conn.assign k value).getAssign k = some value := AList.lookup_insert _

theorem getAssign_assign_ne {k k' : K} (h : k' ≠ k) (conn : Conn (Assigns β)) (value : β k) :
    (conn.assign k value).getAssign k' = conn.getAssign k' := by
  unfold assign getAssign
  rw [Option.bind_some, AList.lookup_insert_ne h]
  cases conn.assigns <;> rfl

theorem takeAssign_eq (conn : Conn (Assigns β)) (k : K) :
    conn.takeAssign k = (conn.getAssign k, { conn with assigns := conn.assigns.map (·.erase k) }) := by
  obtain ⟨_, _, _, _, _, _, _, _, _, _, _, assigns⟩ := conn
  cases assigns <;> rfl

theorem getAssign_erase_ne {k k' : K} (h : k' ≠ k) (conn : Conn (Assigns β)) :
    ({ conn with assigns := conn.assigns.map (·.erase k) } : Conn (Assigns β)).getAssign k' = conn.getAssign k' := by
  unfold getAssign
  cases conn.assigns with
  | none => rfl
  | some assigns => exact AList.lookup_erase_ne h

end Conn

/-- A `Conn` with its handle to the runtime. -/
structure RuntimeConn (A R : Type) extends Conn A where
  runtime : Option R

/-- `Conn::reset`.  The maps are cleared, and so stay where they were allocated. -/
def RuntimeConn.reset (conn : RuntimeConn (Assigns β) R) (method : Method) (uri : Uri) :
    RuntimeConn (Assigns β) R :=
  { conn with
    method, uri, headers := [], pathParams := [], queryParams := conn.queryParams.map fun _ => ∅
    remoteAddr := none, body := [], status := statusOk, respHeaders := [], respBody := []
    halted := false, assigns := conn.assigns.map fun _ => ∅ }

end

end Mahalo
