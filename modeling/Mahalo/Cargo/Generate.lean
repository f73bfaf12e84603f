/-
`cargo mahalo generate`: what the commands write into the web crate of a project.

Texts are lists of characters, and a path is the text of the path in the crate.  A
command that fails keeps what it has written so far.  `writable` says for which
paths `fs::write` succeeds; the order of the entries of `crates` is that of
`read_dir`.  What a command prints is left out.
-/
import Mahalo.Lib.LetterCase
import Mahalo.Lib.RustStd

namespace Mahalo.Cargo

open RustStd LetterCase

abbrev Text := List Char

/-! ### Names -/

/-- `normalize_name`: a name in snake case and in Pascal case. -/
def normalizeName (t : Tables) (name : Text) : Text × Text :=
  if name.contains '_' || name.all fun c => t.isLowercase c || c == '_' then
    let snake := t.toLowercase name
    let pascal := (split snake '_').flatMap fun part =>
      match part with
      | c :: chars => t.toUppercase c ++ chars
      | [] => []
    (snake, pascal)
  else
    let snake := name.zipIdx.flatMap fun (c, i) =>
      (if t.isUppercase c && decide (0 < i) then ['_'] else []) ++ [c.toLower]
    (snake, name)

def pluralize (s : Text) : Text := s ++ ['s']

/-! ### Files -/

/-- The files of a crate, by the texts of their paths.  Two texts are two files as long as no name
brings a slash into them, and with it a step like `.`. -/
abbrev Files := Text → Option Text

def Files.write (files : Files) (path content : Text) : Files :=
  fun p => if p = path then some content else files p

inductive Error where
  | noCratesDirectory
  | noWebCrate
  | alreadyExists (kind path : Text)
  | io
  deriving DecidableEq, Repr

/-- The text of an error of the commands' own. -/
def Error.message : Error → Option Text
  | .noCratesDirectory => some "No 'crates/' directory found. Are you in a Mahalo project root?".toList
  | .noWebCrate => some "No *_web crate found in crates/. Are you in a Mahalo project root?".toList
  | .alreadyExists kind path => some (kind ++ " already exists: ".toList ++ path)
  | .io => none

/-- A command in a web crate. -/
abbrev Command := EStateM Error Files

/-- `fs::read_to_string` -/
def readToString (path : Text) : Command Text := fun files =>
  match files path with
  | some content => .ok content files
  | none => .error .io files

/-- `fs::write` -/
def write (writable : Text → Bool) (path content : Text) : Command Unit := fun files =>
  if writable path then .ok () (files.write path content) else .error .io files

/-- An entry of `crates`, with its files if it is a directory. -/
structure Entry where
  name : Text
  files : Option Files

structure Project where
  /-- the directory `crates` -/
  crates : Option (List Entry)

namespace Project

/-- `find_web_crate`: which entry it is. -/
def findWebCrate (p : Project) : Except Error Nat :=
  match p.crates with
  | none => .error .noCratesDirectory
  | some entries =>
      match entries.findIdx? fun entry => endsWith entry.name "_web".toList && entry.files.isSome with
      | some i => .ok i
      | none => .error .noWebCrate

/-- What a command leaves in the web crate, which it is given the path of. -/
def inWebCrate (p : Project) (command : Text → Command Unit) : Except Error Unit × Project :=
  match p.findWebCrate with
  | .error e => (.error e, p)
  | .ok i =>
      match (p.crates.getD [])[i]? with
      | some { name, files := some files } =>
          let into (files : Files) : Project :=
            { crates := p.crates.map fun entries => entries.set i { name, files := some files } }
          match command ("crates/".toList ++ name) files with
          | .ok _ files => (.ok (), into files)
          | .error e files => (.error e, into files)
      | _ => (.error .noWebCrate, p)

end Project

/-! ### Templates -/

/-- `controller_file` -/
def controllerFile (pascal : Text) : Text :=
  "use mahalo::\x7bBoxFuture, Conn, Controller\x7d;\nuse http::StatusCode;\n\npub struct ".toList ++ pascal ++
  "Controller;\n\nimpl Controller for ".toList ++ pascal ++
  "Controller \x7b\n".toList ++
  "    fn index(&self, conn: Conn) -> BoxFuture<'_, Conn> \x7b\n        Box::pin(async move \x7b\n".toList ++
  "            conn.put_status(StatusCode::OK)\n                .put_resp_body(\"".toList ++ pascal ++
  " index\")\n        \x7d)\n    \x7d\n\n".toList ++
  "    fn show(&self, conn: Conn) -> BoxFuture<'_, Conn> \x7b\n        Box::pin(async move \x7b\n".toList ++
  "            conn.put_status(StatusCode::OK)\n                .put_resp_body(\"".toList ++ pascal ++
  " show\")\n        \x7d)\n    \x7d\n\n".toList ++
  "    fn create(&self, conn: Conn) -> BoxFuture<'_, Conn> \x7b\n        Box::pin(async move \x7b\n".toList ++
  "            conn.put_status(StatusCode::CREATED)\n                .put_resp_body(\"".toList ++ pascal ++
  " created\")\n        \x7d)\n    \x7d\n\x7d\n".toList

/-- `channel_file` -/
def channelFile (pascal snake : Text) : Text :=
  "use async_trait::async_trait;\n".toList ++
  "use mahalo::\x7bChannel, ChannelError, ChannelSocket, Reply\x7d;\nuse serde_json::Value;\n\n".toList ++
  "pub struct ".toList ++ pascal ++ "Channel;\n\n#[async_trait]\nimpl Channel for ".toList ++ pascal ++
  "Channel \x7b\n    async fn join(\n        &self,\n        topic: &str,\n        _payload: &Value,\n".toList ++
  "        _socket: &mut ChannelSocket,\n    ) -> Result<Value, ChannelError> \x7b\n".toList ++
  "        tracing::info!(\"".toList ++ pascal ++
  "Channel joined: \x7btopic\x7d\");\n        Ok(serde_json::json!(\x7b\"".toList ++ snake ++
  "\": \"joined\"\x7d))\n    \x7d\n\n".toList ++
  "    async fn handle_in(\n        &self,\n        event: &str,\n        payload: &Value,\n".toList ++
  "        _socket: &mut ChannelSocket,\n    ) -> Result<Option<Reply>, ChannelError> \x7b\n".toList ++
  "        tracing::debug!(\"".toList ++ pascal ++
  "Channel received \x7bevent\x7d: \x7bpayload\x7d\");\n".toList ++
  "        Ok(Some(Reply::ok(payload.clone())))\n    \x7d\n\n".toList ++
  "    async fn handle_info(\n        &self,\n        _msg: &mahalo::PubSubMessage,\n".toList ++
  "        _socket: &mut ChannelSocket,\n    ) -> Result<(), ChannelError> \x7b\n".toList ++
  "        Ok(())\n    \x7d\n\n".toList ++
  "    async fn terminate(&self, reason: &str, _socket: &mut ChannelSocket) \x7b\n".toList ++
  "        tracing::info!(\"".toList ++ pascal ++
  "Channel terminated: \x7breason\x7d\");\n    \x7d\n\x7d\n".toList

/-! ### Commands -/

/-- `inject_module` -/
def injectModule (writable : Text → Bool) (modPath moduleName : Text) : Command Unit := do
  let content ← readToString modPath
  let modLine := "pub mod ".toList ++ moduleName ++ ";".toList
  if contains content modLine then pure ()
  else
    let marker := "// mahalo:modules".toList
    let newContent :=
      if contains content marker then replaceFirst content marker (marker ++ "\n".toList ++ modLine)
      else content ++ modLine ++ "\n".toList
    write writable modPath newContent

def importsMarker : Text := "// mahalo:imports".toList
def routesMarker : Text := "// mahalo:routes".toList

/-- `inject_router` -/
def injectRouter (writable : Text → Bool) (routerPath importLine routeLine snake : Text) : Command Unit := do
  let content ← readToString routerPath
  if contains content (snake ++ "_controller".toList) then pure ()
  else if !contains content importsMarker || !contains content routesMarker then pure ()
  else
    let content := replaceFirst content importsMarker (importsMarker ++ "\n".toList ++ importLine)
    let content := replaceFirst content routesMarker (routesMarker ++ "\n".toList ++ routeLine)
    write writable routerPath content

/-- What `controller`, `channel` and `resource` begin with: a new file, and its module. -/
def addFile (writable : Text → Bool) (dir kind label : String) (webCrate snake content : Text) :
    Command Unit := do
  let filePath := "src/".toList ++ dir.toList ++ "/".toList ++ snake ++ "_".toList ++ kind.toList ++ ".rs".toList
  if ((← get) filePath).isSome then
    throw (.alreadyExists label.toList (webCrate ++ "/".toList ++ filePath))
  else
    write writable filePath content
    injectModule writable ("src/".toList ++ dir.toList ++ "/mod.rs".toList)
      (snake ++ "_".toList ++ kind.toList)

def addController (writable : Text → Bool) (webCrate snake pascal : Text) : Command Unit :=
  addFile writable "controllers" "controller" "Controller" webCrate snake (controllerFile pascal)

def controller (t : Tables) (writable : Text → Bool) (name : Text) (p : Project) : Except Error Unit × Project :=
  let (snake, pascal) := normalizeName t name
  p.inWebCrate fun webCrate => addController writable webCrate snake pascal

def channel (t : Tables) (writable : Text → Bool) (name : Text) (p : Project) : Except Error Unit × Project :=
  let (snake, pascal) := normalizeName t name
  p.inWebCrate fun webCrate =>
    addFile writable "channels" "channel" "Channel" webCrate snake (channelFile pascal snake)

def importLine (snake pascal : Text) : Text :=
  "use crate::controllers::".toList ++ snake ++ "_controller::".toList ++ pascal ++ "Controller;".toList

def routeLine (plural pascal : Text) : Text :=
  "        .scope(\"/".toList ++ plural ++ "\", &[], |s| \x7b s.resources(\"/".toList ++ plural ++
    "\", std::sync::Arc::new(".toList ++ pascal ++ "Controller)); \x7d)".toList

def resource (t : Tables) (writable : Text → Bool) (name : Text) (p : Project) : Except Error Unit × Project :=
  let (snake, pascal) := normalizeName t name
  let plural := pluralize snake
  p.inWebCrate fun webCrate => do
    addController writable webCrate snake pascal
    injectRouter writable "src/router.rs".toList (importLine snake pascal) (routeLine plural pascal) snake

example : normalizeName ascii "RoomMessage".toList = ("room_message".toList, "RoomMessage".toList) := by
  decide +kernel

end Mahalo.Cargo
