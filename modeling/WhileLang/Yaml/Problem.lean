/-!
# What can be wrong with a YAML text

`Problem` names each defect that reading can meet, and `Error` adds the line it is reported at.
-/

namespace WhileLang.Yaml

/-- A place in a text: characters before it, and line and column counted from zero. -/
structure Mark where
  index : Int := 0
  line : Nat := 0
  column : Nat := 0
deriving DecidableEq

/-- A defect of a YAML text. -/
inductive Problem
  -- characters
  | unreadable (reason : String)
  | badLeadingOctet
  | shortSequence
  | badTrailingOctet
  | badLength
  | badCharacter
  | shortUnit
  | loneLowSurrogate
  | shortPair
  | loneHighSurrogate
  | control
  -- tokens
  | noColon
  | tooDeep
  | entryNotAllowed
  | keyNotAllowed
  | valueNotAllowed
  | noTokenStart
  | directiveName
  | directiveNameEnd
  | unknownDirective
  | versionDot
  | versionLong
  | versionMissing
  | tagSpace
  | tagEnd
  | lineEnd
  | anchorEnd
  | verbatimEnd
  | handleEnd
  | tagUri
  | uriEscape
  | uriLeading
  | uriTrailing
  | documentIndicator
  | endOfStream
  | unknownEscape
  | escapeDigits
  | escapeCode
  | tabIndent
  | zeroIndent
  | tabForSpace
  -- structure
  | streamStart
  | documentStart
  | duplicateVersion
  | wrongVersion
  | duplicateTag
  | undefinedHandle
  | nodeContent
  | dash
  | key
  | commaOrBracket
  | commaOrBrace
  | unknownAnchor (name : String)

namespace Problem

/-- The wording of a problem. -/
def message : Problem → String
  | .unreadable reason => "input error: " ++ reason
  | .badLeadingOctet => "invalid leading UTF-8 octet"
  | .shortSequence => "incomplete UTF-8 octet sequence"
  | .badTrailingOctet => "invalid trailing UTF-8 octet"
  | .badLength => "invalid length of a UTF-8 sequence"
  | .badCharacter => "invalid Unicode character"
  | .shortUnit => "incomplete UTF-16 character"
  | .loneLowSurrogate => "unexpected low surrogate area"
  | .shortPair => "incomplete UTF-16 surrogate pair"
  | .loneHighSurrogate => "expected low surrogate area"
  | .control => "control characters are not allowed"
  | .noColon => "could not find expected ':'"
  | .tooDeep => "exceeded max depth of 10000"
  | .entryNotAllowed => "block sequence entries are not allowed in this context"
  | .keyNotAllowed => "mapping keys are not allowed in this context"
  | .valueNotAllowed => "mapping values are not allowed in this context"
  | .noTokenStart => "found character that cannot start any token"
  | .directiveName => "could not find expected directive name"
  | .directiveNameEnd => "found unexpected non-alphabetical character"
  | .unknownDirective => "found unknown directive name"
  | .versionDot => "did not find expected digit or '.' character"
  | .versionLong => "found extremely long version number"
  | .versionMissing => "did not find expected version number"
  | .tagSpace => "did not find expected whitespace"
  | .tagEnd => "did not find expected whitespace or line break"
  | .lineEnd => "did not find expected comment or line break"
  | .anchorEnd => "did not find expected alphabetic or numeric character"
  | .verbatimEnd => "did not find the expected '>'"
  | .handleEnd => "did not find expected '!'"
  | .tagUri => "did not find expected tag URI"
  | .uriEscape => "did not find URI escaped octet"
  | .uriLeading => "found an incorrect leading UTF-8 octet"
  | .uriTrailing => "found an incorrect trailing UTF-8 octet"
  | .documentIndicator => "found unexpected document indicator"
  | .endOfStream => "found unexpected end of stream"
  | .unknownEscape => "found unknown escape character"
  | .escapeDigits => "did not find expected hexdecimal number"
  | .escapeCode => "found invalid Unicode character escape code"
  | .tabIndent => "found a tab character that violates indentation"
  | .zeroIndent => "found an indentation indicator equal to 0"
  | .tabForSpace => "found a tab character where an indentation space is expected"
  | .streamStart => "did not find expected <stream-start>"
  | .documentStart => "did not find expected <document start>"
  | .duplicateVersion => "found duplicate %YAML directive"
  | .wrongVersion => "found incompatible YAML document"
  | .duplicateTag => "found duplicate %TAG directive"
  | .undefinedHandle => "found undefined tag handle"
  | .nodeContent => "did not find expected node content"
  | .dash => "did not find expected '-' indicator"
  | .key => "did not find expected key"
  | .commaOrBracket => "did not find expected ',' or ']'"
  | .commaOrBrace => "did not find expected ',' or '\x7d'"
  | .unknownAnchor name => "unknown anchor '" ++ name ++ "' referenced"

end Problem

/-- A problem and the line it is reported at, if any. -/
structure Error where
  problem : Problem
  line : Option Nat := none

namespace Error

/-- The reported line: that of the surrounding construct unless it starts on the first line, else that of
the problem. A problem on the first line is reported without one. -/
def reportedLine (context problem : Mark) (extra : Nat) : Option Nat :=
  let base := if context.line = 0 then problem.line else context.line
  if base = 0 then none else some (base + extra)

/-- A problem inside a token, whose lines count from one. -/
def lexical (problem : Problem) (context mark : Mark) : Error :=
  ⟨problem, reportedLine context mark 1⟩

/-- A problem with the order of tokens, whose lines count from zero. -/
def structural (problem : Problem) (context mark : Mark) : Error :=
  ⟨problem, reportedLine context mark 0⟩

/-- The wording of an error. -/
def message (e : Error) : String :=
  "yaml: " ++ (match e.line with | some n => "line " ++ toString n ++ ": " | none => "")
    ++ e.problem.message

end Error

end WhileLang.Yaml
