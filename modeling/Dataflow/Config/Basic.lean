import Dataflow.Log
import Dataflow.Validation.Rule

/-!
# Configuration

What a program that compiles graphs can be told: its name and environment, how it logs, which target
and plugins it uses, the options of backends, and where telemetry goes.
-/

namespace Dataflow

def serviceName : Text := "flowc"

structure CompilerSettings where
  defaultTarget : Text := ""
  plugins : List Text := []

structure StreamingSettings where
  echoSink : Bool := false
  workers : Int64 := 0

structure TracingSettings where
  enabled : Bool := false
  endpoint : Text := ""
  isInsecure : Bool := false
  sampleRate : Float := 0

structure MetricsSettings where
  enabled : Bool := false
  endpoint : Text := ""
  isInsecure : Bool := false
  interval : Int := 0

structure Config where
  name : Text := ""
  environment : Text := ""
  logging : LogSettings := {}
  compiler : CompilerSettings := {}
  streaming : StreamingSettings := {}
  chunkSize : Int64 := 0
  tracing : TracingSettings := {}
  metrics : MetricsSettings := {}

namespace Config

def collector : Text := "localhost:4318"

def withDefaults (c : Config) : Config :=
  { c with
    name := c.name.orElse serviceName
    environment := c.environment.orElse "development"
    logging := c.logging.withDefaults
    compiler := { c.compiler with defaultTarget := c.compiler.defaultTarget.orElse "native" }
    streaming := { c.streaming with workers := if c.streaming.workers = 0 then 1 else c.streaming.workers }
    tracing :=
      { c.tracing with
        endpoint := c.tracing.endpoint.orElse collector
        sampleRate := if c.tracing.sampleRate == 0 then 1 else c.tracing.sampleRate }
    metrics :=
      { c.metrics with
        endpoint := c.metrics.endpoint.orElse collector
        interval := if c.metrics.interval = 0 then 15000000000 else c.metrics.interval } }

def default : Config := withDefaults {}

def form (c : Config) : List FormField :=
  [⟨"name", .text c.name, [.required]⟩,
   ⟨"environment", .text c.environment, [.oneOf ["development", "staging", "production"]]⟩,
   ⟨"compiler.default_target", .text c.compiler.defaultTarget, [.required]⟩,
   ⟨"native.workers", .int c.streaming.workers.toInt, [.atLeast 1]⟩,
   ⟨"vector.chunk_size", .int c.chunkSize.toInt, [.atLeast 0]⟩,
   ⟨"tracing.endpoint", .text c.tracing.endpoint, [.requiredIf c.tracing.enabled]⟩,
   ⟨"tracing.sample_rate", .float c.tracing.sampleRate, [.atLeast 0, .atMost 1]⟩,
   ⟨"metrics.endpoint", .text c.metrics.endpoint, [.requiredIf c.metrics.enabled]⟩]

/-- Checks the fields, then how the log is written, then the time between measurements. -/
def check (c : Config) : Except Failure Unit := do
  (Checks.form [] c.form).result
  if let some t := c.logging.fault? then .error (Failure.invalidInput "logging" t)
  if c.metrics.enabled && c.metrics.interval ≤ 0 then
    .error (Failure.invalidInput "metrics.interval" "must be positive")

def options? (c : Config) (target : Text) : Option Row :=
  if target = "native" then
    some [("echo_sink", .bool c.streaming.echoSink), ("workers", .int c.streaming.workers)]
  else if target = "vector" then some [("chunk_size", .int c.chunkSize)]
  else none

end Config

end Dataflow
