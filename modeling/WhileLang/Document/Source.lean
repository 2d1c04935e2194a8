import WhileLang.Document.Decode
import WhileLang.Document.Encode
import WhileLang.Tree.Layout

/-!
# What can be done with the text of a document

All uses of a text begin by decoding it. A text that cannot be decoded gives one diagnostic, the same for
every use.
-/

namespace WhileLang.Document

/-- The document that a text holds, or the diagnostic on why there is none. -/
def ofSource (file : String) (s : Yaml.Source) : Except (List Diagnostic) Document :=
  match decode file s with
  | .ok doc => .ok doc
  | .error m => .error [(m.toFailure file).toDiagnostic]

/-- All diagnostics of a text. -/
def checkSource (file : String) (s : Yaml.Source) : List Diagnostic :=
  match ofSource file s with
  | .ok doc => doc.check
  | .error ds => ds

/-- The canonical text of a document. -/
def formatSource (file : String) (s : Yaml.Source) : Except (List Diagnostic) String :=
  (ofSource file s).map encode

/-- The program of a text, laid out for a reader. -/
def renderSource (file : String) (s : Yaml.Source) : Except (List Diagnostic) String :=
  (ofSource file s).map fun doc => doc.program.pretty

/-- Check a text and run its program unless errors are found. -/
def executeSource (file : String) (s : Yaml.Source) (cfg : Settings) (fuel : Nat) :
    Except (List Diagnostic) Execution := do
  (← ofSource file s).execute cfg fuel

end WhileLang.Document
