import WhileLang.Diagnostic
import WhileLang.Text.Quoted
import WhileLang.Yaml.Problem

/-!
# What can be wrong with a program document
-/

namespace WhileLang.Document

/-- A defect of a program document. -/
inductive Defect
  | syntactic (e : Yaml.Error)
  | emptyDocument
  | notMapping (form : String) (required : List String)
  | unknownField (name form : String)
  | duplicateField (name form : String)
  | missingField (name form : String)
  | envNotMapping
  | envEmptyName
  | envDuplicate (name : String)
  | envValue (name kind : String)
  | formCount (n : Nat)
  | unexpectedList
  | tooManyAliases
  | selfReference (name : String)
  | danglingAlias (name : String)
  | badNumber (text : String)
  | badBoolean (text : String)
  | unexpectedText (text : String)
  | unsupported (text tag : String)
  | numExpects
  | boolExpects
  | operandCount (form : String)
  | varExpects
  | assignName
  | doNothingArguments
  | seqExpects
  | unknownForm (name : String)

/-- How many aliases are followed in one document. -/
def maxAliases : Nat := 1000

/-- A tag without the marks of a standard one. -/
def bareTag (tag : String) : String :=
  match tag.toList with
  | '!' :: '!' :: rest => String.ofList rest
  | _ => tag

namespace Defect

/-- The wording of a defect. -/
def message : Defect → String
  | .syntactic e => e.message
  | .emptyDocument => "empty document"
  | .notMapping form required => form ++ " expects a mapping with " ++ String.intercalate ", " required
  | .unknownField name form => s!"unknown field '{name}' in {form}"
  | .duplicateField name form => s!"duplicate field '{name}' in {form}"
  | .missingField name form => s!"{form} is missing '{name}'"
  | .envNotMapping => "env must be a mapping of names to values"
  | .envEmptyName => "env names must not be empty"
  | .envDuplicate name => s!"duplicate env name '{name}'"
  | .envValue name kind => s!"env value for '{name}' must be a number or boolean, got {kind}"
  | .formCount n => s!"a node must be a mapping with exactly one form, got {n} keys"
  | .unexpectedList => "expected a node, got a sequence"
  | .tooManyAliases => s!"too many aliases (max {maxAliases})"
  | .selfReference name => s!"alias '{name}' refers to itself"
  | .danglingAlias name => s!"alias '{name}' refers to nothing"
  | .badNumber text => "invalid number " ++ Text.quoted text
  | .badBoolean text => "invalid boolean " ++ Text.quoted text
  | .unexpectedText text =>
    "unexpected string " ++ Text.quoted text ++ "; use \x7bvar: " ++ text ++ "\x7d to read a variable"
  | .unsupported text tag => "unsupported scalar " ++ Text.quoted text ++ " (" ++ bareTag tag ++ ")"
  | .numExpects => "num expects an integer"
  | .boolExpects => "bool expects true or false"
  | .operandCount form => form ++ " expects a list of two operands"
  | .varExpects => "var expects a name"
  | .assignName => "assign name must be a string"
  | .doNothingArguments => "do-nothing takes no arguments; use \x7bdo-nothing: \x7b\x7d\x7d"
  | .seqExpects => "seq expects a non-empty list of statements"
  | .unknownForm name => s!"unknown node form '{name}'"

end Defect

/-- A defect and its position. A text that cannot be parsed, or is empty, has none. -/
structure Malformed where
  defect : Defect
  span : Option Span

/-- A malformed document as a failure. A defect without a position is told with the name of the file. -/
def Malformed.toFailure (file : String) (m : Malformed) : Failure :=
  match m.span with
  | some s => .decode m.defect.message (some s)
  | none => .decode (file ++ ": " ++ m.defect.message) none

end WhileLang.Document
