/-!
# Tokens of YAML documents

A document as a row of marks and scalars. Where indentation opens and closes collections, tokens of
their own say so, and a mark stands in front of every key, so that whoever builds a tree sees no white
space any more.
-/

namespace LayeredConfig.Yaml

/-- A token of a document. -/
inductive Token where
  /-- The version that the document is written in. -/
  | version (major minor : Nat)
  /-- Tags with the handle start with the text. -/
  | tagRule (handle start : String)
  | documentStart
  | documentEnd
  /-- A list or a map by indentation opens. -/
  | blockList
  | blockMap
  /-- A collection by indentation closes. -/
  | blockEnd
  /-- A list or a map in brackets opens or closes. -/
  | flowList
  | flowListEnd
  | flowMap
  | flowMapEnd
  /-- The mark of an item in a list by indentation. -/
  | item
  /-- The comma between brackets. -/
  | comma
  | key
  | value
  | alias (name : String)
  | anchor (name : String)
  | tag (handle suffix : String)
  /-- A scalar. A plain one has no quotes and is no block. -/
  | scalar (plain : Bool) (text : String)
deriving DecidableEq, Repr

end LayeredConfig.Yaml
