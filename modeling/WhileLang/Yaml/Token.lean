import WhileLang.Yaml.Cursor

/-!
# Tokens and comments of a YAML text
-/

namespace WhileLang.Yaml

/-- How a scalar is written. -/
inductive ScalarStyle
  | plain
  | singleQuoted
  | doubleQuoted
  | literal
  | folded
deriving DecidableEq

/-- The tokens. The starts and ends of block collections have no text of their own: they follow from the
indentation. -/
inductive Token.Kind
  | streamStart
  | streamEnd
  | version (major minor : Nat)
  | tagDirective (handle prefixText : String)
  | documentStart
  | documentEnd
  | blockSequenceStart
  | blockMappingStart
  | blockEnd
  | flowSequenceStart
  | flowSequenceEnd
  | flowMappingStart
  | flowMappingEnd
  | blockEntry
  | flowEntry
  | key
  | value
  | alias (name : String)
  | anchor (name : String)
  | tag (handle suffix : String)
  | scalar (text : String) (style : ScalarStyle)
deriving DecidableEq

/-- A token and where it stands. -/
structure Token where
  kind : Token.Kind
  start : Mark
  stop : Mark

/-- Where a comment belongs: before a node, on its line, or after it. -/
inductive Comment.Place
  | head
  | line
  | foot
deriving DecidableEq

/-- A comment. It goes to the first token that starts at `owner` or later; `scan` is where the search for
it began. A comment that has been handed out has no text any more. -/
structure Comment where
  place : Comment.Place
  text : List Char
  owner : Mark
  start : Mark
  stop : Mark := {}
  scan : Mark := {}

end WhileLang.Yaml
