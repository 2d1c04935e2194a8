import WhileLang.Document.Basic
import WhileLang.Document.Malformed
import WhileLang.Yaml.Node

/-!
# From YAML nodes to programs

Each construct of a program is a mapping with one key, its form; numbers, booleans and `do-nothing` may
also stand alone. Aliases are followed wherever a node may stand. At most `maxAliases` are followed in one
document, and none is followed while the node it refers to is being read, so that reading ends on every
document and cannot blow up a small one.
-/

namespace WhileLang.Document

open Yaml (Node Pos)

/-- Reading counts the aliases followed so far, and may fail. -/
abbrev Decoding := StateT Nat (Except Malformed)

/-- A document that is being read. -/
structure Context where
  file : String
  root : Node

namespace Context

/-- The span of a node. -/
def span (cx : Context) (p : Pos) : Span := Span.point cx.file p.line p.col

/-- A defect at a position. -/
def fail {α : Type} (cx : Context) (p : Pos) (d : Defect) : Decoding α :=
  throw ⟨d, some (cx.span p)⟩

/-- Count an alias and find its node, unless that node is open. -/
def resolve (cx : Context) (opened : List Nat) (p : Pos) (name : String) (target : Nat) :
    Decoding Node := do
  let n := (← get) + 1
  set n
  if maxAliases < n then cx.fail p .tooManyAliases
  else if opened.contains target then cx.fail p (.selfReference name)
  else
    match cx.root.find? target with
    | some node => return node
    | none => cx.fail p (.danglingAlias name)

/-- A scalar as a tree. -/
def scalar (cx : Context) (n : Node) : Decoding Tree :=
  let span := cx.span n.pos
  match n.tag with
  | "!!int" =>
    match n, Yaml.Plain.resolve false n.text with
    | .scalar _ _ _ _, .int i =>
      if Text.fits64 i then return .num span (Int64.ofInt i) else cx.fail n.pos (.badNumber n.text)
    | _, _ => cx.fail n.pos (.badNumber n.text)
  | "!!bool" =>
    match n, Yaml.Plain.resolve false n.text with
    | .scalar _ _ _ _, .bool b => return .bool span b
    | _, _ => cx.fail n.pos (.badBoolean n.text)
  | "!!str" =>
    if n.text == "do-nothing" then return .nothing span
    else cx.fail n.pos (.unexpectedText n.text)
  | tag => cx.fail n.pos (.unsupported n.text tag)

/-- Check the fields of a mapping: each is known and occurs once, and none that is required is missing. -/
def checkFields (cx : Context) (p : Pos) (form : String) (required optional : List String)
    (entries : List (Node × Node)) : Decoding Unit := do
  known [] entries
  match required.find? fun name => !(entries.any fun e => e.1.text == name) with
  | some name => cx.fail p (.missingField name form)
  | none => return ()
where
  /-- Checks one field after the other. -/
  known (seen : List String) : List (Node × Node) → Decoding Unit
    | [] => return ()
    | (key, _) :: rest =>
      let name := key.text
      if !(required.contains name || optional.contains name) then
        cx.fail key.pos (.unknownField name form)
      else if seen.contains name then cx.fail key.pos (.duplicateField name form)
      else known (name :: seen) rest

/-- The value of a field. -/
def field? (name : String) (entries : List (Node × Node)) : Option Node :=
  (entries.find? fun e => e.1.text == name).map (·.2)

/-- The operators by form. -/
def op? : String → Option Op
  | "add" => some .add
  | "mul" => some .mul
  | "lt" => some .lt
  | _ => none

/-- The name that an assignment binds, and the nodes that are open while its value is read: the one an
alias for the name refers to is. -/
def assignName (cx : Context) (opened : List Nat) (n : Node) : Decoding (String × List Nat) := do
  let (n, opened) ← match n with
    | .alias p name target => do pure (← cx.resolve opened p name target, target :: opened)
    | n => pure (n, opened)
  match n with
  | .scalar _ _ "!!str" text => return (text, opened)
  | n => cx.fail n.pos .assignName

/-- The forms whose bodies hold no nodes. For any other form the body is not what the form needs. -/
def leaf (cx : Context) (key val : Node) : Decoding Tree :=
  match key.text with
  | "num" => if val.tag == "!!int" then cx.scalar val else cx.fail val.pos .numExpects
  | "bool" => if val.tag == "!!bool" then cx.scalar val else cx.fail val.pos .boolExpects
  | "do-nothing" =>
    if val.tag == "!!null" then return .nothing (cx.span key.pos)
    else cx.fail val.pos .doNothingArguments
  | "add" | "mul" | "lt" => cx.fail val.pos (.operandCount key.text)
  | "var" => cx.fail val.pos .varExpects
  | "assign" => cx.fail val.pos (.notMapping "assign" ["name", "value"])
  | "if" => cx.fail val.pos (.notMapping "if" ["cond", "then"])
  | "while" => cx.fail val.pos (.notMapping "while" ["cond", "body"])
  | "seq" => cx.fail val.pos .seqExpects
  | name => cx.fail key.pos (.unknownForm name)

/-- How to go on behind an alias: with a node, or with the body of the form at a key. -/
structure Follow where
  node : List Nat → Node → Decoding Tree
  body : List Nat → Node → Node → Decoding Tree

mutual

/-- Any node of a program. `opened` are the anchors that are being read. -/
def node (cx : Context) (follow : Follow) (opened : List Nat) : Node → Decoding Tree
  | .scalar p a tag text => cx.scalar (.scalar p a tag text)
  | .list p _ _ _ _ => cx.fail p .unexpectedList
  | .dict p _ _ _ entries => form cx follow opened p entries
  | .alias p name target => do
    follow.node (target :: opened) (← cx.resolve opened p name target)

/-- The one form of a mapping. -/
def form (cx : Context) (follow : Follow) (opened : List Nat) (p : Pos) :
    List (Node × Node) → Decoding Tree
  | [e] => entry cx follow opened e
  | entries => cx.fail p (.formCount entries.length)

/-- A form with its body, which may be an alias. -/
def entry (cx : Context) (follow : Follow) (opened : List Nat) : Node × Node → Decoding Tree
  | (key, val) => body cx follow opened key val

/-- The body of the form at a key. -/
def body (cx : Context) (follow : Follow) (opened : List Nat) (key : Node) : Node → Decoding Tree
  | .alias p name target => do
    follow.body (target :: opened) key (← cx.resolve opened p name target)
  | .scalar p a tag text =>
    match key.text, tag with
    | "var", "!!str" => return .var (cx.span key.pos) text
    | _, _ => cx.leaf key (.scalar p a tag text)
  | .list p a tag flow items =>
    match key.text, op? key.text with
    | _, some op => do
      if items.length != 2 then cx.leaf key (.list p a tag flow items)
      else
        match ← trees cx follow opened items with
        | [l, r] => return .binary (cx.span key.pos) op l r
        | _ => cx.leaf key (.list p a tag flow items)
    | "seq", none =>
      if items.isEmpty then cx.leaf key (.list p a tag flow items)
      else sequence cx follow opened (cx.span key.pos) items
    | _, none => cx.leaf key (.list p a tag flow items)
  | .dict p a tag flow entries => do
    let span := cx.span key.pos
    match key.text with
    | "assign" =>
      cx.checkFields p "assign" ["name", "value"] [] entries
      match field? "name" entries with
      | none => cx.fail p (.missingField "name" "assign")
      | some n =>
        let (name, opened) ← cx.assignName opened n
        return .assign span name (← field cx follow opened p "assign" "value" entries)
    | "if" =>
      cx.checkFields p "if" ["cond", "then"] ["else"] entries
      let c ← field cx follow opened p "if" "cond" entries
      let t ← field cx follow opened p "if" "then" entries
      if (field? "else" entries).isSome then
        return .ite span c t (← field cx follow opened p "if" "else" entries)
      else return .ite span c t (.nothing span)
    | "while" =>
      cx.checkFields p "while" ["cond", "body"] [] entries
      let c ← field cx follow opened p "while" "cond" entries
      let b ← field cx follow opened p "while" "body" entries
      return .loop span c b
    | "do-nothing" =>
      if entries.isEmpty then return .nothing span else cx.leaf key (.dict p a tag flow entries)
    | _ => cx.leaf key (.dict p a tag flow entries)

/-- The nodes of a list. -/
def trees (cx : Context) (follow : Follow) (opened : List Nat) : List Node → Decoding (List Tree)
  | [] => return []
  | n :: rest => do
    let t ← node cx follow opened n
    return t :: (← trees cx follow opened rest)

/-- Statements in order, nested to the right. The nested sequence stands where its first statement does. -/
def sequence (cx : Context) (follow : Follow) (opened : List Nat) (span : Span) :
    List Node → Decoding Tree
  | [] => return .nothing span
  | [n] => node cx follow opened n
  | n :: m :: rest => do
    let first ← node cx follow opened n
    return .seq span first (← sequence cx follow opened (cx.span m.pos) (m :: rest))

/-- The tree in a field. -/
def field (cx : Context) (follow : Follow) (opened : List Nat) (p : Pos) (form name : String) :
    List (Node × Node) → Decoding Tree
  | [] => cx.fail p (.missingField name form)
  | e :: rest =>
    if e.1.text == name then value cx follow opened e else field cx follow opened p form name rest

/-- The tree under a key. -/
def value (cx : Context) (follow : Follow) (opened : List Nat) : Node × Node → Decoding Tree
  | (_, n) => node cx follow opened n

end

/-- Aliases may be nested to a depth. -/
def followTo (cx : Context) : Nat → Follow
  | 0 =>
    { node := fun _ n => cx.fail n.pos .tooManyAliases
      body := fun _ _ n => cx.fail n.pos .tooManyAliases }
  | depth + 1 =>
    { node := node cx (followTo cx depth)
      body := body cx (followTo cx depth) }

/-- A node of a program. Every nested alias counts, so no document gets deeper than the count allows. -/
def tree (cx : Context) (opened : List Nat) (n : Node) : Decoding Tree :=
  node cx (cx.followTo (maxAliases + 1)) opened n

/-- The bindings of an environment, in the order of the document. -/
def bindings (cx : Context) (opened : List Nat) :
    List (Node × Node) → List (String × Value) → Decoding (List (String × Value))
  | [], acc => return acc.reverse
  | (key, val) :: rest, acc => do
    if key.text == "" then cx.fail key.pos .envEmptyName
    else if (acc.lookup key.text).isSome then cx.fail key.pos (.envDuplicate key.text)
    else
      let t ← cx.tree opened val
      match t.value? with
      | some v => bindings cx opened rest ((key.text, v) :: acc)
      | none => cx.fail val.pos (.envValue key.text t.kind)

/-- An environment: a mapping of names to numbers and booleans, or nothing. -/
def env (cx : Context) (n : Node) : Decoding Env := do
  let (n, opened) ← match n with
    | .alias p name target => do pure (← cx.resolve [] p name target, [target])
    | n => pure (n, [])
  match n with
  | .scalar p _ tag _ => if tag == "!!null" then return Env.empty else cx.fail p .envNotMapping
  | .dict _ _ _ _ entries => return Env.ofList (← cx.bindings opened entries [])
  | n => cx.fail n.pos .envNotMapping

/-- A whole document. The environment is read before the program. -/
def document (cx : Context) : Decoding Document := do
  match cx.root with
  | .dict p _ _ _ entries =>
    cx.checkFields p "document" ["program"] ["env"] entries
    let env ← match field? "env" entries with
      | some n => cx.env n
      | none => pure Env.empty
    match field? "program" entries with
    | some n => return { file := cx.file, env := env, program := ← cx.tree [] n }
    | none => cx.fail p (.missingField "program" "document")
  | n => cx.fail n.pos (.notMapping "document" ["program"])

end Context

/-- Read something from the first document of a text. -/
def read {α : Type} (file : String) (source : Yaml.Source) (get : Context → Decoding α) :
    Except Malformed α := do
  match Yaml.parse source with
  | .error e => throw ⟨.syntactic e, none⟩
  | .ok { root := none, .. } => throw ⟨.emptyDocument, none⟩
  | .ok { root := some root, .. } => return (← (get { file := file, root := root }).run 0).1

/-- Read a document. -/
def decode (file : String) (source : Yaml.Source) : Except Malformed Document :=
  read file source Context.document

/-- Read a single node. -/
def decodeTree (file : String) (source : Yaml.Source) : Except Malformed Tree :=
  read file source fun cx => cx.tree [] cx.root

/-- Whether a text has comments. A text that cannot be parsed has none. -/
def hasComments (source : Yaml.Source) : Bool :=
  match Yaml.parse source with
  | .ok p => p.commented
  | .error _ => false

end WhileLang.Document
