import LayeredConfig.Config
import LayeredConfig.Json.Parser
import LayeredConfig.Yaml.Document
import LayeredConfig.Yaml.Printer

/-!
# Configurations as documents

Reading a configuration from a JSON or YAML document and writing it as one. What is written has its
secrets hidden, unless they are asked for.
-/

namespace LayeredConfig.Config

/-- The configuration of a document that was read, if it was one. -/
def ofRead (format : String) : Option Value → Result Config
  | some value => ofValue value
  | none => .error (.parse s!"The text is not a {format} document")

/-- The configuration of a JSON document. -/
def ofJson (text : String) : Result Config :=
  ofRead "JSON" ((Json.parse? text).bind Json.toValue?)

/-- The configuration of a YAML document. -/
def ofYaml (text : String) : Result Config :=
  ofRead "YAML" (Yaml.toValue? text)

/-- The JSON document of a configuration with its secrets. -/
def toJsonWithSecrets (c : Config) : String :=
  c.root.toJson.pretty

/-- The JSON document of a configuration. -/
def toJson (c : Config) : String :=
  c.hideSecrets.toJsonWithSecrets

/-- The YAML document of a configuration with its secrets. -/
def toYamlWithSecrets (c : Config) : String :=
  c.root.yaml

/-- The YAML document of a configuration. -/
def toYaml (c : Config) : String :=
  c.hideSecrets.toYamlWithSecrets

end LayeredConfig.Config
