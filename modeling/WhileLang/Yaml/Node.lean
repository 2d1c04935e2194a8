import WhileLang.Yaml.Event
import WhileLang.Yaml.Plain

/-!
# Nodes of a YAML document

A document is a tree of scalars, lists and mappings. An alias stands for the node with the anchor it
names; it refers to that node by a number, because a name may be given to several nodes in turn.
-/

namespace WhileLang.Yaml

/-- A position in a text; lines and columns count from one. -/
structure Pos where
  line : Nat
  col : Nat
deriving DecidableEq

/-- The anchor of a node: its name, and a number that no other anchor of the document has. -/
structure Anchor where
  id : Nat
  name : String
deriving DecidableEq

/-- A node. `flow` says that a collection is written in brackets. -/
inductive Node
  | scalar (pos : Pos) (anchor : Option Anchor) (tag : String) (text : String)
  | list (pos : Pos) (anchor : Option Anchor) (tag : String) (flow : Bool) (items : List Node)
  | dict (pos : Pos) (anchor : Option Anchor) (tag : String) (flow : Bool)
      (entries : List (Node × Node))
  | alias (pos : Pos) (name : String) (target : Nat)

/-- The position of a mark. -/
def Mark.pos (m : Mark) : Pos := ⟨m.line + 1, m.column + 1⟩

/-- The short form of a tag. -/
def shortTag (tag : String) : String :=
  let long := "tag:yaml.org,2002:".toList
  if long.isPrefixOf tag.toList then "!!" ++ String.ofList (tag.toList.drop long.length) else tag

namespace Node

/-- The position of a node. -/
def pos : Node → Pos
  | .scalar p _ _ _ | .list p _ _ _ _ | .dict p _ _ _ _ | .alias p _ _ => p

/-- The anchor of a node. -/
def anchor : Node → Option Anchor
  | .scalar _ a _ _ | .list _ a _ _ _ | .dict _ a _ _ _ => a
  | .alias _ _ _ => none

/-- The tag of a node; an alias has none. -/
def tag : Node → String
  | .scalar _ _ t _ | .list _ _ t _ _ | .dict _ _ t _ _ => t
  | .alias _ _ _ => ""

/-- The text of a node: of an alias the name it uses, of a collection nothing. -/
def text : Node → String
  | .scalar _ _ _ s => s
  | .alias _ name _ => name
  | _ => ""

mutual

/-- The node with an anchor's number. -/
def find? (id : Nat) (n : Node) : Option Node :=
  if (n.anchor.map (·.id)) = some id then some n
  else
    match n with
    | .list _ _ _ _ items => findItem? id items
    | .dict _ _ _ _ entries => findPair? id entries
    | _ => none

/-- The node with an anchor's number among list items. -/
def findItem? (id : Nat) : List Node → Option Node
  | [] => none
  | n :: rest => (find? id n).or (findItem? id rest)

/-- The node with an anchor's number among keys and values. -/
def findPair? (id : Nat) : List (Node × Node) → Option Node
  | [] => none
  | (k, v) :: rest => ((find? id k).or (find? id v)).or (findPair? id rest)

end

/-- The tag of a scalar: the one it is given, or the one its text and style imply. -/
def scalarTag (tag text : String) (style : ScalarStyle) : String :=
  if tag != "" && tag != "!" then shortTag tag
  else if style != .plain then "!!str"
  else if text == "<<" then "!!merge"
  else (Plain.resolve true text).tag

/-- The tag of a collection. -/
def collectionTag (tag usual : String) : String :=
  if tag != "" && tag != "!" then shortTag tag else usual

/-! ## From events to nodes -/

/-- A collection that is not complete yet; what it holds has the latest first. -/
inductive Frame
  | list (pos : Pos) (anchor : Option Anchor) (tag : String) (flow : Bool) (items : List Node)
  | dict (pos : Pos) (anchor : Option Anchor) (tag : String) (flow : Bool)
      (entries : List (Node × Node)) (key : Option Node)

/-- Nodes under construction. -/
structure Builder where
  frames : List Frame := []
  root : Option Node := none
  /-- The anchors so far, with the latest first. -/
  anchors : List (String × Nat) := []
  commented : Bool := false

namespace Builder

/-- Put a complete node where it belongs. -/
def add (b : Builder) (n : Node) : Builder :=
  match b.frames with
  | [] => { b with root := some n }
  | .list p a t f items :: rest => { b with frames := .list p a t f (n :: items) :: rest }
  | .dict p a t f entries none :: rest => { b with frames := .dict p a t f entries (some n) :: rest }
  | .dict p a t f entries (some k) :: rest =>
    { b with frames := .dict p a t f ((k, n) :: entries) none :: rest }

/-- Complete the innermost collection. -/
def close (b : Builder) : Builder :=
  match b.frames with
  | [] => b
  | .list p a t f items :: rest => { b with frames := rest }.add (.list p a t f items.reverse)
  | .dict p a t f entries _ :: rest => { b with frames := rest }.add (.dict p a t f entries.reverse)

/-- Number an anchor. -/
def declare (b : Builder) (name : Option String) : Option Anchor × Builder :=
  match name with
  | none => (none, b)
  | some name =>
    let id := b.anchors.length
    (some ⟨id, name⟩, { b with anchors := (name, id) :: b.anchors })

/-- Note whether there is a comment. -/
def remark (b : Builder) (present : Bool) : Builder := { b with commented := b.commented || present }

/-- Take in an event. A collection keeps the comment before its start, and those on and after its end. -/
def event (b : Builder) (e : Event) : Result Builder :=
  let p := e.start.pos
  let r := e.remarks
  match e.kind with
  | .streamStart | .streamEnd => return b
  | .documentStart => return b.remark r.head
  | .documentEnd => return b.remark (r.head || r.foot)
  | .alias name =>
    match b.anchors.lookup name with
    | some id => return (b.remark (r.head || r.line || r.foot)).add (.alias p name id)
    | none => throw ⟨.unknownAnchor name, none⟩
  | .scalar anchor tag text style =>
    let (a, b) := b.declare anchor
    return (b.remark (r.head || r.line || r.foot)).add (.scalar p a (scalarTag tag text style) text)
  | .sequenceStart anchor tag flow =>
    let (a, b) := b.declare anchor
    let b := b.remark r.head
    return { b with frames := .list p a (collectionTag tag "!!seq") flow [] :: b.frames }
  | .mappingStart anchor tag flow =>
    let (a, b) := b.declare anchor
    let b := b.remark r.head
    return { b with frames := .dict p a (collectionTag tag "!!map") flow [] none :: b.frames }
  | .sequenceEnd | .mappingEnd => return (b.remark (r.line || r.foot)).close

end Builder

/-- Read events up to the end of the first document. -/
def build : Nat → EventStream → Builder → Result Builder
  | 0, _, b => return b
  | fuel + 1, r, b => do
    let (e, r) ← EventStream.next.run r
    let b ← b.event e
    match e.kind with
    | .documentEnd | .streamEnd => return b
    | _ => build fuel r b

end Node

/-! ## Nodes that are made -/

namespace Node

/-- Nodes that are made, not read, stand nowhere. -/
def nowhere : Pos := ⟨0, 0⟩

/-- A string. -/
def ofString (s : String) : Node := .scalar nowhere none "!!str" s

/-- An integer. -/
def ofInt (n : Int) : Node := .scalar nowhere none "!!int" (toString n)

/-- A truth value. -/
def ofBool (b : Bool) : Node := .scalar nowhere none "!!bool" (if b then "true" else "false")

/-- A list. -/
def ofList (flow : Bool) (items : List Node) : Node := .list nowhere none "!!seq" flow items

/-- A mapping with strings as keys. -/
def ofFields (flow : Bool) (fields : List (String × Node)) : Node :=
  .dict nowhere none "!!map" flow (fields.map fun f => (ofString f.1, f.2))

mutual

/-- The node with all of its collections in brackets. -/
def inBrackets : Node → Node
  | .scalar p a t s => .scalar p a t s
  | .alias p n i => .alias p n i
  | .list p a t _ items => .list p a t true (itemsInBrackets items)
  | .dict p a t _ entries => .dict p a t true (entriesInBrackets entries)

/-- The items of a list. -/
def itemsInBrackets : List Node → List Node
  | [] => []
  | n :: rest => inBrackets n :: itemsInBrackets rest

/-- The entries of a mapping. -/
def entriesInBrackets : List (Node × Node) → List (Node × Node)
  | [] => []
  | e :: rest => entryInBrackets e :: entriesInBrackets rest

/-- An entry of a mapping. -/
def entryInBrackets : Node × Node → Node × Node
  | (k, v) => (inBrackets k, inBrackets v)

end

end Node

/-- The first document of a text. -/
structure Parsed where
  /-- Nothing if the text holds no document. -/
  root : Option Node
  /-- Whether any node of the document has a comment. -/
  commented : Bool

/-- Read the first document of a text. There are never more than four events to a token, nor more than
four tokens to a character. -/
def parse (s : Source) : Result Parsed := do
  let b ← Node.build (16 * (s.chars.length + 4)) (EventStream.ofSource s) {}
  match b.root with
  | some n => return ⟨some n, b.commented⟩
  | none => return ⟨none, false⟩

end WhileLang.Yaml
