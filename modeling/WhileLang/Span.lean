/-!
# Source positions

A `Span` is a range of a named file. Trees built in code carry `Span.none`, which stands for
"no position"; reports leave it out through `Span.known?`.
-/

namespace WhileLang

/-- A range of a file. Lines and columns of a document count from one. -/
structure Span where
  file : String
  startLine : Int
  startCol : Int
  endLine : Int
  endCol : Int
deriving DecidableEq

namespace Span

/-- The position of a tree that was not read from a document. -/
def none : Span := ⟨"", 0, 0, 0, 0⟩

instance : Inhabited Span := ⟨Span.none⟩

/-- The span of a single point. -/
def point (file : String) (line col : Int) : Span := ⟨file, line, col, line, col⟩

/-- The span as a report shows it: nothing at all for `Span.none`. -/
def known? (s : Span) : Option Span := if s = Span.none then Option.none else some s

/-- `file:line:column` of the start. -/
def startText (s : Span) : String := s!"{s.file}:{s.startLine}:{s.startCol}"

end Span

end WhileLang
