import Dataflow.Failure

/-!
# Registries

A registry knows backends by name, as factories that make one from settings.  Plugins come before
built-in backends of the same name.  A built-in name that ends in a colon is a family, and stands for
every name that goes on after it; what follows the colon is handed to the factory as the dialect.
-/

namespace Dataflow

abbrev Factory (β : Type) := Row → Except Failure β

inductive Origin where
  | plugin
  | builtin
deriving DecidableEq

def Origin.name : Origin → Text
  | plugin => "plugin"
  | builtin => "builtin"

structure Registry (β : Type) where
  plugins : List (Text × Factory β) := []
  builtins : List (Text × Factory β) := []
  families : List (Text × Factory β) := []

namespace Registry

variable {β : Type}

def addPlugin (r : Registry β) (name : Text) (f : Factory β) : Registry β :=
  { r with plugins := Fields.set name f r.plugins }

def addBuiltin (r : Registry β) (name : Text) (f : Factory β) : Registry β :=
  if name.endsWith ":" then
    { r with families := Fields.set (name.take (name.length - 1)) f r.families }
  else { r with builtins := Fields.set name f r.builtins }

/-- The factory a name stands for, and the dialect where it is one of a family. -/
def factory? (r : Registry β) (name : Text) : Option (Factory β × Text) :=
  match Fields.get? r.plugins name with
  | some f => some (f, "")
  | none =>
    match Fields.get? r.builtins name with
    | some f => some (f, "")
    | none =>
      match name.cut? ":" with
      | some (family, dialect) =>
        if dialect.isEmpty then none else (Fields.get? r.families family).map (·, dialect)
      | none => none

def resolve (r : Registry β) (name : Text) (config : Row) : Except Failure β :=
  match r.factory? name with
  | none => .error (Failure.unknownBackend name)
  | some (f, dialect) =>
    f (if dialect.isEmpty then config else Fields.set "dialect" (.text dialect) config)

/-- The registered names, plugins first, each group in ascending order.  A family is listed with an
asterisk. -/
def entries (r : Registry β) : List (Text × Origin) :=
  (Text.sort (r.plugins.map Prod.fst)).map (·, .plugin)
    ++ (Text.sort (r.builtins.map Prod.fst ++ r.families.map fun f => f.1 ++ (":*" : Text))).map (·, .builtin)

def names (r : Registry β) : List Text := r.entries.map Prod.fst

/-- A registry after plugins were installed: those that took the place of another, and the failure
that ended the installation. -/
structure Installation (β : Type) where
  registry : Registry β
  replaced : List Text := []
  failure : Option Failure := none

/-- Installs plugins by name until one is unknown. -/
def install (known : List (Text × Factory β)) (r : Registry β) : List Text → Installation β
  | [] => { registry := r }
  | name :: names =>
    match Fields.get? known name with
    | none =>
      { registry := r
        failure := some ((Failure.notFound "plugin" name).withDetail "known"
          (.texts (Text.sort (known.map Prod.fst)))) }
    | some f =>
      let rest := install known (r.addPlugin name f) names
      if Fields.has r.plugins name then { rest with replaced := name :: rest.replaced } else rest

end Registry

end Dataflow
