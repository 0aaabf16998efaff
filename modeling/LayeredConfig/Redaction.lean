import LayeredConfig.Node.Leaves
import LayeredConfig.Value

/-!
# Hiding secrets

Redaction replaces the scalars of all secret leaves by one text and keeps everything else. The text of
a value shows a spliced configuration with its secrets hidden.
-/

namespace LayeredConfig

/-- What redaction makes of the leaf at `p`. -/
def Redactor.redactLeaf (r : Redactor) (p : Path) (s : Scalar) : Scalar :=
  if r.isSecret p then .literal (.string r.replacement) else s

/-- The tree with all secrets replaced. -/
def Redactor.redact (r : Redactor) (root : Node) : Node :=
  Id.run (root.mapLeaves (fun p s => pure (r.redactLeaf p s)) .root)

/-- The tree of a configuration with its secrets hidden. -/
def Document.redacted (d : Document) : Node :=
  d.redactor.redact d.root

namespace Node

mutual

/-- The text of a tree: braces around the entries of a map, brackets around the elements of a list. -/
def display : Node → String
  | .leaf s => s.display
  | .map es => "\x7b" ++ ", ".intercalate (displayEntries es) ++ "\x7d"
  | .list xs => "[" ++ ", ".intercalate (displayElements xs) ++ "]"

/-- The texts of the entries of a map. -/
def displayEntries : List (String × Node) → List String
  | [] => []
  | (k, child) :: rest => (k ++ ": " ++ display child) :: displayEntries rest

/-- The texts of the elements of a list. -/
def displayElements : List Node → List String
  | [] => []
  | child :: rest => display child :: displayElements rest

end

end Node

namespace Value

mutual

/-- The text of a value. -/
def display : Value → String
  | .null => "null"
  | .literal l => l.display
  | .sequence items => "[" ++ ", ".intercalate (displayItems items) ++ "]"
  | .mapping entries => "\x7b" ++ ", ".intercalate (displayEntries entries) ++ "\x7d"
  | .config d => d.redacted.display

/-- The texts of the items of a sequence. -/
def displayItems : List Value → List String
  | [] => []
  | value :: rest => display value :: displayItems rest

/-- The texts of the entries of a mapping. -/
def displayEntries : List (String × Value) → List String
  | [] => []
  | (k, value) :: rest => (k ++ ": " ++ display value) :: displayEntries rest

end

end Value

end LayeredConfig
