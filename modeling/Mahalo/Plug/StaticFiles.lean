/-
`mahalo-plug`: the plug that serves files from a directory.

A request is for a file if its path leads, behind the prefix, from the directory to a
regular file that lies in it once all links are followed.  Of a file whose type
compresses well the plug sends a compressed variant, a file beside it, if the client
names the variant's coding.  `Served` is the file that an answer was made from.
The hash that tags are made of is a parameter.
-/
import Mahalo.Core.Plug
import Mahalo.Endpoint.HttpParse
import Mahalo.Lib.FileTree

namespace Mahalo

open FileTree RustStd

structure StaticFiles where
  urlPrefix : String
  dir : Path
  cacheControl : List UInt8
  deriving DecidableEq, Repr

/-- A path from its text. -/
def pathOf (text : List Char) : Path :=
  { absolute := startsWith text ['/'], segments := (split text '/').map fun s => asBytes (String.ofList s) }

/-- The file that an answer was made from, and what was read of it. -/
structure Served where
  path : Path
  contents : List UInt8
  deriving DecidableEq, Repr

namespace StaticFiles

/-- The loop that pops the slashes at the end of a prefix, of the prefix backwards. -/
def popSlashes : List Char → List Char
  | '/' :: c :: rest => popSlashes (c :: rest)
  | backwards => backwards

def new (urlPrefix : String) (dir : Path) : StaticFiles :=
  let urlPrefix := urlPrefix.toList
  let urlPrefix := if startsWith urlPrefix ['/'] then urlPrefix else '/' :: urlPrefix
  { urlPrefix := String.ofList (popSlashes urlPrefix.reverse).reverse, dir, cacheControl := asBytes "public, max-age=3600" }

/-- `StaticFiles::cache_control`, which panics at a value that no header can have. -/
def withCacheControl (files : StaticFiles) (value : String) : Option StaticFiles :=
  (headerValue value).map fun cacheControl => { files with cacheControl }

def mimeFromExtension (ext : String) : String :=
  match ext with
  | "html" => "text/html"
  | "css" => "text/css"
  | "js" => "text/javascript"
  | "json" => "application/json"
  | "png" => "image/png"
  | "jpg" => "image/jpeg"
  | "jpeg" => "image/jpeg"
  | "gif" => "image/gif"
  | "svg" => "image/svg+xml"
  | "woff2" => "font/woff2"
  | "ico" => "image/x-icon"
  | "txt" => "text/plain"
  | _ => "application/octet-stream"

def isCompressible (mime : String) : Bool :=
  if startsWith mime.toList "video/".toList || startsWith mime.toList "audio/".toList then false
  else if startsWith mime.toList "image/".toList && mime != "image/svg+xml" then false
  else mime ∉ ["font/woff2", "application/zip", "application/gzip", "application/x-bzip2", "application/octet-stream"]

/-- `extension().and_then(|e| e.to_str()).unwrap_or("")` -/
def extensionText (name : Option Name) : String :=
  ((name.bind fun name => (splitExtension name).2).bind fromUtf8).getD ""

section

/-- `Hash::to_hex` -/
def toHex (hash : List UInt8) : List Char :=
  hash.flatMap fun b => [Nat.digitChar (b.toNat / 16), Nat.digitChar (b.toNat % 16)]

variable {A : Type} (blake3 : List UInt8 → List UInt8)

/-- The tag of contents. -/
def etagValue (contents : List UInt8) : String :=
  "W/\"" ++ String.ofList ((toHex (blake3 contents)).take 32) ++ "\""

def checkEtag (conn : Conn A) (contents : List UInt8) : Conn A × Bool :=
  (conn.putRespHeader "etag" (etagValue blake3 contents),
    ((conn.headers.get "if-none-match").bind HttpParse.toStr).any (· == etagValue blake3 contents))

/-- What stands behind the prefix and its slash. -/
def relative (files : StaticFiles) (path : String) : Option (List Char) :=
  if path = files.urlPrefix then some []
  else (stripPrefix path.toList files.urlPrefix.toList).bind fun rest => stripPrefix rest ['/']

/-- The path that a request is for, unless it is not for the plug or goes up. -/
def filePath (files : StaticFiles) (conn : Conn A) : Option Path :=
  if conn.method ≠ .get ∧ conn.method ≠ .head then none
  else match files.relative conn.uri.path with
    | none => none
    | some relative =>
        if relative.isEmpty then none
        else if (split relative '/').any (· == "..".toList) then none
        else some (files.dir.join (pathOf relative))

/-- The canonical path of a file that lies in the directory. -/
def canonical (files : StaticFiles) (fs : Tree) (filePath : Path) : Option Location :=
  match fs.canonicalize filePath with
  | none => none
  | some canonical =>
      match fs.canonicalize files.dir with
      | none => none
      | some canonicalDir =>
          if !canonicalDir.isPrefixOf canonical then none
          else if fs.isFile (.ofLocation canonical) then some canonical
          else none

/-- A coding: what the client calls it, the suffix of its files and what the answer calls it. -/
structure Variant where
  token : String
  suffix : String
  encoding : String
  deriving DecidableEq, Repr

/-- Priority: br > zst > gz -/
def variants : List Variant :=
  [⟨"br", ".br", "br"⟩, ⟨"zstd", ".zst", "zstd"⟩, ⟨"gzip", ".gz", "gzip"⟩]

def compressedPath (canonical : Location) (v : Variant) : Path :=
  .ofLocation (withExtension canonical (asBytes (extensionText canonical.getLast? ++ v.suffix)))

def acceptEncoding (conn : Conn A) : String := ((conn.headers.get "accept-encoding").bind HttpParse.toStr).getD ""

/-- The first variant that the client names and that can be read, with what was read of it. -/
def findVariant (fs : Tree) (accept : String) (canonical : Location) : List Variant → Option (Variant × Served)
  | [] => none
  | v :: rest =>
      if contains accept.toList v.token.toList && fs.isFile (compressedPath canonical v) then
        match fs.read (compressedPath canonical v) with
        | some contents => some (v, { path := compressedPath canonical v, contents })
        | none => findVariant fs accept canonical rest
      else findVariant fs accept canonical rest

/-- The last steps of an answer: no body where the client has it already, nor to a HEAD request. -/
def finish (conn : Conn A) (etagMatch : Bool) (contents : List UInt8) : Conn A :=
  if etagMatch then ((conn.putStatus statusNotModified).putRespBody []).halt
  else if conn.method ≠ .head then (conn.putRespBody contents).halt
  else conn.halt

def putTypeAndCache (files : StaticFiles) (conn : Conn A) (mime : String) : Conn A :=
  { conn with
    respHeaders := (conn.respHeaders.insert "content-type" (asBytes mime)).insert "cache-control"
      files.cacheControl }

def serveVariant (files : StaticFiles) (conn : Conn A) (mime : String) (v : Variant) (contents : List UInt8) :
    Conn A :=
  let (conn, etagMatch) := checkEtag blake3 conn contents
  let conn := (((conn.putStatus statusOk).putRespHeader "content-encoding" v.encoding).putRespHeader "vary"
    "accept-encoding").putRespHeader "content-length" (toString contents.length)
  finish (files.putTypeAndCache conn mime) etagMatch contents

def serveFile (files : StaticFiles) (conn : Conn A) (mime : String) (contents : List UInt8) : Conn A :=
  let (conn, etagMatch) := checkEtag blake3 conn contents
  let conn := (conn.putStatus statusOk).putRespHeader "content-length" (toString contents.length)
  let conn := files.putTypeAndCache conn mime
  let conn := if isCompressible mime then conn.putRespHeader "vary" "accept-encoding" else conn
  finish conn etagMatch contents

/-- The answer, and the file that it was made from. -/
def call (files : StaticFiles) (fs : Tree) (conn : Conn A) : Conn A × Option Served :=
  match files.filePath conn with
  | none => (conn, none)
  | some filePath =>
      match files.canonical fs filePath with
      | none => (conn, none)
      | some canonical =>
          let mime := mimeFromExtension (extensionText filePath.fileName)
          let variant :=
            if isCompressible mime then findVariant fs (acceptEncoding conn) canonical variants else none
          match variant with
          | some (v, served) => (files.serveVariant blake3 conn mime v served.contents, some served)
          | none =>
              match fs.read (.ofLocation canonical) with
              | none => (conn, none)
              | some contents =>
                  (files.serveFile blake3 conn mime contents, some { path := .ofLocation canonical, contents })

/-- The plug, over a file system that does not change. -/
def plug {Ω : Type} (files : StaticFiles) (fs : Tree) : Plug A Ω :=
  { call := fun conn => pure (files.call blake3 fs conn).1 }

end

end StaticFiles

end Mahalo
