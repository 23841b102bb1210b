import Dataflow.Registry

/-!
# Health reports

The health of each registered backend and of all together.  A backend that cannot be made is down;
one whose runtime is missing is degraded.
-/

namespace Dataflow

inductive Status where
  | up
  | degraded
  | down
  | other (name : Text)
deriving DecidableEq

namespace Status

def name : Status → Text
  | up => "up"
  | degraded => "degraded"
  | down => "down"
  | other n => n

def ofName (n : Text) : Status := ([up, degraded, down].find? (·.name = n)).getD (other n)

/-- The status of a whole with one more part: down stays down, and only a part that is down or
degraded counts. -/
def and (whole part : Status) : Status :=
  match whole, part with
  | _, down => down
  | down, _ => down
  | _, degraded => degraded
  | whole, _ => whole

end Status

structure Health where
  name : Text
  status : Status := .up
  message : Text := ""
  details : List (Text × Text) := []

/-- The health as a document; an empty message and details are left out. -/
def Health.toJson (h : Health) : Json :=
  let details : Json := .object (h.details.map fun (k, v) => (k, .text v))
  let members : List (Text × Json) := [("name", .text h.name), ("status", .text h.status.name)]
  let members := Json.membersWith members h.message.isEmpty "message" (.text h.message)
  .object (Json.membersWith members h.details.isEmpty "details" details)

structure HealthReport where
  service : Text
  version : Text
  components : List Health := []

namespace HealthReport

def status (r : HealthReport) : Status := r.components.foldl (fun s h => s.and h.status) .up

def toJson (r : HealthReport) : Json :=
  let members : List (Text × Json) := [("service", .text r.service), ("status", .text r.status.name)]
  let members := Json.membersWith members r.version.isEmpty "version" (.text r.version)
  .object (Json.membersWith members r.components.isEmpty "components"
    (.array (r.components.map Health.toJson)))

end HealthReport

structure Runtime where
  available : Bool := true
  version : Text := ""

namespace Registry

variable {β : Type}

def healthOf (r : Registry β) (runtime : β → Runtime) (name : Text) (origin : Origin) : Health :=
  let details : List (Text × Text) := [("origin", origin.name)]
  match r.resolve name [] with
  | .error f => { name, status := .down, message := f.text, details }
  | .ok b =>
    let rt := runtime b
    if !rt.available then
      { name, status := .degraded, message := "runtime not found; code generation only", details }
    else if rt.version.isEmpty then { name, details }
    else { name, details := [("origin", origin.name), ("runtime", rt.version)] }

/-- The health of all registered backends; a family is listed by its dialects. -/
def health (r : Registry β) (dialects : Text → List Text) (runtime : β → Runtime)
    (service version : Text) : HealthReport :=
  { service, version
    components := r.entries.flatMap fun (name, origin) =>
      (dialects name).map fun d => r.healthOf runtime d origin }

end Registry

end Dataflow
