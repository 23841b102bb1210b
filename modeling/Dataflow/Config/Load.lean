import Dataflow.Config.Assignment
import Dataflow.Config.Environment
import Dataflow.Text.Path
import Dataflow.Toml.Document
import Dataflow.Yaml.Decode

/-!
# Loading a configuration

A configuration is put together from a file, a file of assignments and the environment, of which the
later count more.  Files that are not named are looked for in fixed places.
-/

namespace Dataflow.Config

structure Sources where
  configFile : Text := ""
  envFile : Text := ""

/-- Where the file is looked for; last in the user's own directory, if that is known. -/
def configPaths (name : Text) (userDir : Option Text) : List Text :=
  ["./" ++ name ++ ".yml", "./" ++ name ++ ".yaml", "./config/" ++ name ++ ".yml", "./config.yml"]
    ++ match userDir with
      | some dir => if dir.isEmpty then [] else [(dir.joinPath name).joinPath "config.yml"]
      | none => []

def envPaths (name : Text) : List Text := ["./.env." ++ name, "./.env", "./config/.env"]

def Sources.find (s : Sources) (name : Text) (userDir : Option Text) (exists? : Text → Bool) : Sources :=
  let first (ps : List Text) : Text := (ps.find? exists?).getD ""
  { configFile := s.configFile.orElse (first (configPaths name userDir))
    envFile := s.envFile.orElse (first (envPaths name)) }

def document? (vars : Environment.Variables) (path t : Text) : Option Row :=
  let e := path.extension
  if e = ".yml" || e = ".yaml" then
    Yaml.Decoding.read? (fun n => do return (← Yaml.Decoding.row false n).getD []) [] t
  else if e = ".json" then
    match (Json.read? t).bind Json.toValue? with
    | some (.row r) => some r
    | some .null => some []
    | _ => none
  else if e = ".toml" then Toml.read? t
  else if e = ".env" || e = ".dotenv" then Assignment.read? vars t
  else none

def unreadable (verb path : Text) : Failure :=
  (Failure.invalidInput "config" (verb ++ path)).withCause (some (.reader "malformed configuration"))

def isThere (fs : Files) (path : Text) : Bool := !path.isEmpty && (fs.lookup path).toOption.isSome

def gather (fs : Files) (vars : Environment.Variables) (s : Sources) : Except Failure Row := do
  let own : Row ←
    if isThere fs s.configFile then
      match (fs.read s.configFile).toOption.bind (document? vars s.configFile) with
      | some r => pure r
      | none => throw (unreadable "cannot read " s.configFile)
    else pure []
  let vars ←
    if isThere fs s.envFile then
      match (fs.read s.envFile).toOption.bind Environment.parse? with
      | some more => pure (Environment.withMissing vars more)
      | none => throw (unreadable "cannot load " s.envFile)
    else pure vars
  return Settings.layered (Environment.settings vars) own

def load (fs : Files) (vars : Environment.Variables) (given : Sources) : Except Failure Config := do
  let s := given.find serviceName none (isThere fs)
  match Settings.into? {} (← gather fs vars s) with
  | none =>
    .error ((Failure.invalidInput "config" "cannot decode configuration").withCause
      (some (.reader "malformed configuration")))
  | some c =>
    let c := c.withDefaults
    c.check
    return c

end Dataflow.Config
