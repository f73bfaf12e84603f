/-
`mahalo-sse`: events for a browser, and the text they are sent as.

An event is built from a default one, or from one with a comment, by setting its parts.
`serialize` writes the comment and the data line by line and the other parts as they
are.  A sender puts the serialized event into a channel, and the server writes what it
takes out; when it has nothing to write for a while, it writes the keep-alive comment.
-/
import Mahalo.Lib.RustStd

namespace Mahalo.Sse

open RustStd

/-- `std::time::Duration` -/
structure Duration where
  secs : Nat
  nanos : Nat
  deriving DecidableEq, Repr

def Duration.asMillis (d : Duration) : Nat := d.secs * 1000 + d.nanos / 1000000

structure Event where
  data : Option String
  event : Option String
  id : Option String
  retry : Option Duration
  comment : Option String
  deriving DecidableEq, Repr

namespace Event

def default : Event := { data := none, event := none, id := none, retry := none, comment := none }

def withData (e : Event) (value : String) : Event := { e with data := some value }

/-- `json_data`, with what `serde_json::to_string` makes of the value. -/
def withJsonData (e : Event) (json : Except String String) : Event :=
  match json with
  | .ok json => { e with data := some json }
  | .error err => { e with data := some ("\x7b\"error\":\"" ++ err ++ "\"\x7d") }

def withEvent (e : Event) (value : String) : Event := { e with event := some value }

def withId (e : Event) (value : String) : Event := { e with id := some value }

def withRetry (e : Event) (duration : Duration) : Event := { e with retry := some duration }

/-- `Event::comment` -/
def ofComment (text : String) : Event := { default with comment := some text }

/-- One `write!` for each line. -/
def writeLines (head buf : String) (lines : List (List Char)) : String :=
  lines.foldl (fun buf line => buf ++ head ++ String.ofList line ++ "\n") buf

/-- A part that is written as it is. -/
def writeField (head buf : String) (value : Option String) : String :=
  match value with
  | some value => buf ++ head ++ value ++ "\n"
  | none => buf

def writeComment (buf : String) (comment : Option String) : String :=
  match comment with
  | some comment => writeLines ": " buf (lines comment.toList)
  | none => buf

def writeData (buf : String) (data : Option String) : String :=
  match data with
  | some data => if data.isEmpty then buf ++ "data: \n" else writeLines "data: " buf (lines data.toList)
  | none => buf

def serialize (e : Event) : String :=
  let buf := writeComment "" e.comment
  if e.comment.isSome && e.data.isNone && e.event.isNone && e.id.isNone && e.retry.isNone then buf ++ "\n"
  else
    let buf := writeField "event: " buf e.event
    let buf := writeField "id: " buf e.id
    let buf := writeField "retry: " buf (e.retry.map fun retry => toString retry.asMillis)
    writeData buf e.data ++ "\n"

end Event

/-- `SseSender::send` while the receiver is there: the channel's queue. -/
def SseSender.send (queue : List String) (event : Event) : List String := queue ++ [event.serialize]

structure KeepAlive where
  interval : Duration
  text : String
  deriving DecidableEq, Repr

def KeepAlive.new (interval : Duration) : KeepAlive := { interval, text := "keep-alive" }

def KeepAlive.withText (ka : KeepAlive) (text : String) : KeepAlive := { ka with text }

/-- `comment_bytes` of `sse_streaming_loop` -/
def KeepAlive.commentBytes (ka : KeepAlive) : List UInt8 := asBytes (": " ++ ka.text ++ "\n\n")

example : ((Event.ofComment "a\nb").withData "c\r\nd\n").serialize = ": a\n: b\ndata: c\ndata: d\n\n" := by decide

end Mahalo.Sse
