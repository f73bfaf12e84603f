/-
`cargo mahalo new`: the files that a project begins with.

The paths are those from the directory of the project, whose own path is the empty
text.  `creatable` and `writable` say where the file system lets a directory be made
and a file be written.  What the command prints in the end is left out.
-/
import Mahalo.Cargo.Generate

namespace Mahalo.Cargo

open RustStd LetterCase

/-! ### Templates -/

/-- `workspace_cargo_toml` -/
def workspaceCargoToml (name : Text) : Text :=
  "[workspace]\nresolver = \"2\"\nmembers = [\n    \"crates/".toList ++ name ++
  "\",\n    \"crates/".toList ++ name ++ "_models\",\n    \"crates/".toList ++ name ++ "_web\",\n]\n\n".toList ++
  "[workspace.package]\nedition = \"2024\"\n\n[workspace.dependencies]\n".toList ++
  "mahalo = \x7b git = \"https://github.com/your-org/mahalo.git\" \x7d\n".toList ++
  "rebar-core = \x7b git = \"https://github.com/your-org/rebar.git\" \x7d\n".toList ++
  "tokio = \x7b version = \"1\", features = [\"full\"] \x7d\n".toList ++
  "tracing = \"0.1\"\ntracing-subscriber = \"0.3\"\n".toList ++
  "serde = \x7b version = \"1\", features = [\"derive\"] \x7d\n".toList ++
  "serde_json = \"1\"\nasync-trait = \"0.1\"\nhttp = \"1\"\nmimalloc = \"0.1\"\n".toList

/-- `app_cargo_toml` -/
def appCargoToml (name : Text) : Text :=
  "[package]\nname = \"".toList ++ name ++
  "\"\nversion = \"0.1.0\"\nedition.workspace = true\n\n[dependencies]\n".toList ++ name ++
  "_web = \x7b path = \"../".toList ++ name ++ "_web\" \x7d\nmahalo.workspace = true\n".toList ++
  "rebar-core.workspace = true\ntokio.workspace = true\ntracing.workspace = true\n".toList ++
  "tracing-subscriber.workspace = true\nmimalloc.workspace = true\n".toList

/-- `app_main_rs` -/
def appMainRs (name : Text) : Text :=
  let webCrate := name.map fun c => if c = '-' then '_' else c
  "#[global_allocator]\nstatic GLOBAL: mimalloc::MiMalloc = mimalloc::MiMalloc;\n\n".toList ++
  "use std::net::SocketAddr;\nuse std::sync::Arc;\n\n".toList ++
  "use mahalo::MahaloEndpoint;\nuse rebar_core::Runtime;\nuse ".toList ++ webCrate ++
  "::router::build_router;\n\n#[tokio::main]\n".toList ++
  "async fn main() -> Result<(), Box<dyn std::error::Error + Send + Sync>> \x7b\n".toList ++
  "    tracing_subscriber::fmt::init();\n\n    let router = build_router();\n".toList ++
  "    let addr: SocketAddr = \"127.0.0.1:4000\".parse()?;\n    let runtime = Runtime::new();\n\n".toList ++
  "    tracing::info!(\"Starting ".toList ++ name ++ " on \x7baddr\x7d\");\n\n".toList ++
  "    let endpoint = MahaloEndpoint::new(router, addr, Arc::new(runtime));\n".toList ++
  "    endpoint.start().await?;\n\n    Ok(())\n\x7d\n".toList

/-- `models_cargo_toml` -/
def modelsCargoToml (name : Text) : Text :=
  "[package]\nname = \"".toList ++ name ++
  "_models\"\nversion = \"0.1.0\"\nedition.workspace = true\n\n[dependencies]\n".toList ++
  "serde.workspace = true\nserde_json.workspace = true\n".toList

/-- `models_lib_rs` -/
def modelsLibRs : Text := "// Models go here\n".toList

/-- `web_cargo_toml` -/
def webCargoToml (name : Text) : Text :=
  "[package]\nname = \"".toList ++ name ++
  "_web\"\nversion = \"0.1.0\"\nedition.workspace = true\n\n[dependencies]\n".toList ++ name ++
  "_models = \x7b path = \"../".toList ++ name ++ "_models\" \x7d\nmahalo.workspace = true\n".toList ++
  "async-trait.workspace = true\nserde_json.workspace = true\ntracing.workspace = true\nhttp = \"1\"\n".toList

/-- `web_lib_rs` -/
def webLibRs : Text := "pub mod channels;\npub mod controllers;\npub mod router;\n".toList

/-- `web_router_rs` -/
def webRouterRs : Text :=
  "use std::sync::Arc;\n\nuse mahalo::\x7bConn, MahaloRouter, plug_fn\x7d;\nuse http::StatusCode;\n".toList ++
  "// mahalo:imports\n\npub fn build_router() -> MahaloRouter \x7b\n    MahaloRouter::new()\n".toList ++
  "        .get(\"/health\", plug_fn(health))\n        // mahalo:routes\n\x7d\n\n".toList ++
  "async fn health(conn: Conn) -> Conn \x7b\n    conn.put_status(StatusCode::OK)\n".toList ++
  "        .put_resp_body(\"ok\")\n\x7d\n".toList

/-- `controllers_mod_rs` and `channels_mod_rs` -/
def controllersModRs : Text := "// mahalo:modules\n".toList
def channelsModRs : Text := "// mahalo:modules\n".toList

/-! ### Directories -/

/-- The directories that are there, and the files with their texts. -/
structure Directory where
  dirs : List Text
  files : List (Text × Text)

inductive NewError where
  | alreadyExists (name : Text)
  | io
  deriving DecidableEq, Repr

/-- The text of an error of the command's own. -/
def NewError.message : NewError → Option Text
  | .alreadyExists name => some ("Directory '".toList ++ name ++ "' already exists".toList)
  | .io => none

abbrev NewCommand := EStateM NewError Directory

/-- The names on a path put together, and the other way round. -/
def joined (names : List Text) : Text := List.intercalate ['/'] names
def named (path : Text) : List Text := split path '/'

/-- A path and all that it goes through, from the directory of the project on. -/
def wayTo (path : Text) : List Text := (named path).inits.map joined

namespace Directory

/-- No such directory yet. -/
def absent : Directory := { dirs := [], files := [] }

def isFile (d : Directory) (path : Text) : Bool := d.files.any fun file => file.1 == path

def read (d : Directory) (path : Text) : Option Text :=
  (d.files.find? fun file => file.1 == path).map (·.2)

/-- `Path::exists` -/
def existsAt (d : Directory) (path : Text) : Bool := d.dirs.contains path || d.isFile path

end Directory

/-- One step of `fs::create_dir_all`. -/
def createDir (creatable : Text → Bool) (path : Text) : NewCommand Unit := fun d =>
  if d.dirs.contains path then .ok () d
  else if creatable path && !d.isFile path then .ok () { d with dirs := d.dirs ++ [path] }
  else .error .io d

/-- `fs::create_dir_all` -/
def createDirAll (creatable : Text → Bool) (path : Text) : NewCommand Unit :=
  (wayTo path).forM (createDir creatable)

/-- `fs::write`, to a file in a directory that is there. -/
def writeFile (writable : Text → Bool) (path content : Text) : NewCommand Unit := fun d =>
  if writable path && d.dirs.contains (joined (named path).dropLast) && !d.dirs.contains path then
    .ok () { d with files := (d.files.filter fun file => file.1 != path) ++ [(path, content)] }
  else .error .io d

/-! ### The command -/

/-- `dirs` -/
def newDirs (name : Text) : List Text :=
  [joined ["crates".toList, name, "src".toList],
    joined ["crates".toList, name ++ "_models".toList, "src".toList],
    joined ["crates".toList, name ++ "_web".toList, "src".toList, "controllers".toList],
    joined ["crates".toList, name ++ "_web".toList, "src".toList, "channels".toList]]

/-- `files` -/
def newFiles (name : Text) : List (Text × Text) :=
  [("Cargo.toml".toList, workspaceCargoToml name),
    ("crates/".toList ++ name ++ "/Cargo.toml".toList, appCargoToml name),
    ("crates/".toList ++ name ++ "/src/main.rs".toList, appMainRs name),
    ("crates/".toList ++ name ++ "_models/Cargo.toml".toList, modelsCargoToml name),
    ("crates/".toList ++ name ++ "_models/src/lib.rs".toList, modelsLibRs),
    ("crates/".toList ++ name ++ "_web/Cargo.toml".toList, webCargoToml name),
    ("crates/".toList ++ name ++ "_web/src/lib.rs".toList, webLibRs),
    ("crates/".toList ++ name ++ "_web/src/router.rs".toList, webRouterRs),
    ("crates/".toList ++ name ++ "_web/src/controllers/mod.rs".toList, controllersModRs),
    ("crates/".toList ++ name ++ "_web/src/channels/mod.rs".toList, channelsModRs)]

/-- `run` of `new` -/
def new (creatable writable : Text → Bool) (name : Text) : NewCommand Unit := do
  if (← get).existsAt [] then throw (.alreadyExists name)
  (newDirs name).forM (createDirAll creatable)
  (newFiles name).forM fun (path, content) => writeFile writable path content

/-! ### What `generate` finds in it -/

namespace Directory

/-- Something in the directory `path` has this name. -/
def HasEntry (d : Directory) (path name : Text) : Prop :=
  name ≠ [] ∧ '/' ∉ name ∧ d.existsAt (path ++ "/".toList ++ name) = true

/-- The names that `read_dir` goes through, in whichever order. -/
structure Lists (d : Directory) (path : Text) (listing : List Text) : Prop where
  nodup : listing.Nodup
  mem_iff : ∀ name, name ∈ listing ↔ d.HasEntry path name

/-- What stands in `crates` under this name. -/
def entry (d : Directory) (name : Text) : Entry where
  name := name
  files :=
    if d.dirs.contains ("crates/".toList ++ name) then
      some fun path => d.read ("crates/".toList ++ name ++ "/".toList ++ path)
    else none

def project (d : Directory) (listing : List Text) : Project where
  crates := if d.dirs.contains "crates".toList then some (listing.map d.entry) else none

end Directory

/-! ### The command line -/

/-- `GenerateKind`, with the name it comes with. -/
inductive Generate where
  | controller (name : Text)
  | channel (name : Text)
  | resource (name : Text)
  deriving DecidableEq, Repr

def Generate.name : Generate → Text
  | .controller name | .channel name | .resource name => name

/-- One call of `cargo mahalo generate`. -/
def Generate.run (t : Tables) (writable : Text → Bool) : Generate → Project → Except Error Unit × Project
  | .controller name => Cargo.controller t writable name
  | .channel name => Cargo.channel t writable name
  | .resource name => Cargo.resource t writable name

/-- Calls one after another, each with what may be written at the time. -/
def generateAll (t : Tables) : Project → List (Generate × (Text → Bool)) → List (Except Error Unit) × Project
  | p, [] => ([], p)
  | p, (call, writable) :: rest =>
      let (outcome, p) := call.run t writable p
      let (outcomes, p) := generateAll t p rest
      (outcome :: outcomes, p)

end Mahalo.Cargo
