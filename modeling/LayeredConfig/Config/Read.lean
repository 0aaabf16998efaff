import LayeredConfig.Config

/-!
# Reading from configurations

Typed values, lists of them and parts of a configuration, by path. A path at which nothing is gives
`none` from the functions with a question mark, and an error from the others.
-/

namespace LayeredConfig.Config

/-- The node at a path, with the path. -/
def node? (c : Config) (path : String) : Result (Option (Path × Node)) := do
  let p ← Path.parse path
  return (c.root.get? p).map fun n => (p, n)

/-- The value found, or the error that nothing is at the path. -/
def orMissing {α : Type} (path : String) : Option α → Result α
  | some v => .ok v
  | none => .error (.missingValue path)

/-- The value of type `t` at a path, if something is there. -/
def get? (c : Config) (t : ReadType) (path : String) : Result (Option t.Carrier) := do
  match ← c.node? path with
  | some (p, n) => return some (← c.parsers.read p t n)
  | none => return none

/-- The value of type `t` at a path. -/
def get (c : Config) (t : ReadType) (path : String) : Result t.Carrier := do
  orMissing path (← c.get? t path)

/-- The value of type `t` at a path, or `default` if nothing is there. -/
def getD (c : Config) (t : ReadType) (path : String) (default : t.Carrier) : Result t.Carrier := do
  return (← c.get? t path).getD default

/-- The list of values of type `t` at a path, if something is there. -/
def getList? (c : Config) (t : ReadType) (path : String) : Result (Option (List t.Carrier)) := do
  match ← c.node? path with
  | some (p, n) => return some (← c.parsers.readList p t n)
  | none => return none

/-- The list of values of type `t` at a path. -/
def getList (c : Config) (t : ReadType) (path : String) : Result (List t.Carrier) := do
  orMissing path (← c.getList? t path)

/-- The list of values of type `t` at a path, or `default` if nothing is there. -/
def getListD (c : Config) (t : ReadType) (path : String) (default : List t.Carrier) :
    Result (List t.Carrier) := do
  return (← c.getList? t path).getD default

/-- The text of the scalar at a path. -/
def getString (c : Config) (path : String) : Result String :=
  c.get .string path

/-- The nested value at a path. -/
def getValue (c : Config) (path : String) : Result Value :=
  c.get .value path

/-- The part of the configuration below the map at a path, if a map is there. -/
def getConfig? (c : Config) (path : String) : Result (Option Config) := do
  match ← c.node? path with
  | some (_, .map es) => return some (c.withRoot (.map es))
  | _ => return none

/-- The part of the configuration below the map at a path. -/
def getConfig (c : Config) (path : String) : Result Config := do
  orMissing path (← c.getConfig? path)

/-- The part of the configuration below the map at a path, empty if there is none. -/
def getConfigOrEmpty (c : Config) (path : String) : Result Config := do
  return (← c.getConfig? path).getD (c.withRoot .empty)

end LayeredConfig.Config
