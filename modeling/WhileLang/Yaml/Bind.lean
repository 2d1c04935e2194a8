import WhileLang.Text.Base64
import WhileLang.Text.Utf8
import WhileLang.Yaml.Datum
import WhileLang.Yaml.Node

/-!
# Nodes into records

Settings are kept in YAML files whose mappings have a fixed set of fields. Reading such a file starts from
default values and replaces what the file mentions. Most defects are collected, so that one reading tells
them all; a few end it at once. A `Reader` answers `none` where the value that is already there stays.
-/

namespace WhileLang.Yaml

/-! ## Defects -/

/-- A defect that does not stop the reading, with its line. -/
inductive Complaint
  | mismatch (line : Nat) (tag text type : String)
  | duplicateKey (line : Nat) (key : String) (first : Nat)
  | unknownField (line : Nat) (name type : String)
  | repeatedField (line : Nat) (name type : String)

namespace Complaint

/-- A value as a complaint shows it: cut after seven bytes if it has more than ten. The text of a node that
is tagged as a collection is not marked off. -/
def excerpt (tag text : String) : String :=
  if tag == "!!seq" || tag == "!!map" then text
  else
    let shown :=
      if 10 < text.utf8ByteSize then
        String.ofList (Text.ofUtf8 (text.toUTF8.toList.take 7)) ++ "..."
      else text
    " \x60" ++ shown ++ "\x60"

/-- The wording of a complaint. -/
def message : Complaint → String
  | .mismatch line tag text type =>
    s!"line {line}: cannot unmarshal {tag}" ++ excerpt tag text ++ " into " ++ type
  | .duplicateKey line key first =>
    s!"line {line}: mapping key " ++ Text.quoted key ++ s!" already defined at line {first}"
  | .unknownField line name type => s!"line {line}: field {name} not found in type {type}"
  | .repeatedField line name type => s!"line {line}: field {name} already set in type {type}"

end Complaint

/-- A defect that ends the reading. -/
inductive Obstacle
  | wrongTag (found text wanted : String)
  | selfReference (name : String)
  | mergeValue
  | keyIsCollection (key : Datum)
  | badBinary
  | tooManyAliases

/-- The wording of an obstacle. -/
def Obstacle.message : Obstacle → String
  | .wrongTag found text wanted => "cannot decode " ++ found ++ " \x60" ++ text ++ "\x60 as a " ++ wanted
  | .selfReference name => "anchor '" ++ name ++ "' value contains itself"
  | .mergeValue => "map merge requires map or sequence of maps as the value"
  | .keyIsCollection key => "invalid map key: " ++ key.literal
  | .badBinary => "!!binary value contains invalid base64 data"
  | .tooManyAliases => "document contains excessive aliasing"

/-! ## Reading -/

/-- Complaints so far, the latest first, and how many nodes have been visited, in all and through an
alias. -/
structure Tally where
  complaints : List Complaint := []
  visits : Nat := 0
  aliased : Nat := 0

/-- A reading that collects complaints. -/
abbrev Binding := StateT Tally (Except Obstacle)

/-- Where a reading is: the document, and the positions of the aliases that it came through. -/
structure Place where
  root : Node
  opened : List Pos := []

/-- How a value is read from a node that is no alias. -/
abbrev Reader (α : Type) := Place → Node → Binding (Option α)

namespace Bind

/-- Add a complaint. -/
def complain (c : Complaint) : Binding Unit :=
  modify fun t => { t with complaints := c :: t.complaints }

/-- Whether too much of a document comes out of its aliases. The share that is allowed falls from 99 to 10
percent while the visits rise from 400 thousand to 4 million. -/
def Tally.excessive (t : Tally) : Bool :=
  100 < t.aliased && 1000 < t.visits
    && (if t.visits ≤ 400000 then 99 * t.visits < 100 * t.aliased
        else if 4000000 ≤ t.visits then t.visits < 10 * t.aliased
        else t.visits * (99 * 3600000 - 89 * (t.visits - 400000)) < 100 * 3600000 * t.aliased)

/-- Count a visit. -/
def count (place : Place) : Binding Unit := do
  let t ← get
  let t :=
    { t with visits := t.visits + 1, aliased := t.aliased + if place.opened.isEmpty then 0 else 1 }
  set t
  if Tally.excessive t then throw .tooManyAliases

/-- Read a node; of an alias, the node that it stands for. -/
def visit {α : Type} (read : Place → Node → Binding α) (place : Place) (n : Node) : Binding α := do
  count place
  match n with
  | .alias p name id =>
    if place.opened.contains p then throw (.selfReference name)
    else
      match place.root.find? id with
      | none => throw (.selfReference name)
      | some target =>
        let place := { place with opened := p :: place.opened }
        count place
        read place target
  | n => read place n

/-- Complain that a node does not fit a type. -/
def mismatch {α : Type} (type : String) (n : Node) : Binding (Option α) := do
  complain (.mismatch n.pos.line n.tag n.text type)
  return none

/-- Complain about the keys of a mapping that occur again. -/
def duplicates : List (Node × Node) → List Complaint
  | [] => []
  | (k, _) :: rest =>
    (rest.filter fun e => sameKind k e.1 && k.text == e.1.text).map
      (fun e => .duplicateKey e.1.pos.line e.1.text k.pos.line) ++ duplicates rest
where
  /-- Whether two nodes are of one kind. -/
  sameKind : Node → Node → Bool
    | .scalar _ _ _ _, .scalar _ _ _ _ => true
    | .list _ _ _ _ _, .list _ _ _ _ _ => true
    | .dict _ _ _ _ _, .dict _ _ _ _ _ => true
    | .alias _ _ _, .alias _ _ _ => true
    | _, _ => false

/-- Whether all keys of a mapping are different; if not, complain. -/
def distinctKeys (entries : List (Node × Node)) : Binding Bool := do
  let cs := duplicates entries
  cs.forM complain
  return cs.isEmpty

/-! ## Scalars -/

/-- The tags that say what a text must turn out to be. Under any other tag it stays a text. -/
def checkedTags : List String := ["!!null", "!!bool", "!!int", "!!float", "!!timestamp"]

/-- What a scalar means under its tag, and the text it stands for. -/
def meaning (tag text : String) : Binding (Plain × String) :=
  if tag == "!!binary" then
    match Text.base64? text.toList with
    | some bytes => return (.text, String.ofList (Text.ofUtf8 bytes))
    | none => throw .badBinary
  else if !checkedTags.contains tag then return (.text, text)
  else
    let p := Plain.resolve (tag == "!!timestamp") text
    if p.tag == tag then return (p, text)
    else
      match p, tag with
      | .int n, "!!float" =>
        if Text.fits64 n then return (.float (Float.ofInt n), text)
        else throw (.wrongTag p.tag text tag)
      | _, _ => throw (.wrongTag p.tag text tag)

/-- Read a scalar; a collection does not fit. -/
def scalar {α : Type} (type : String) (read : Plain → String → Option (Option α)) : Reader α :=
  fun _ n => do
    match n with
    | .scalar _ _ tag text =>
      let (p, text) ← meaning tag text
      match read p text with
      | some r => return r
      | none => mismatch type n
    | .dict _ _ _ _ entries => if ← distinctKeys entries then mismatch type n else return none
    | n => mismatch type n

/-- The integer part of a float that is not above 2^63, as far as 64 bits can hold it. -/
def truncate (x : Float) : Option Int :=
  if x ≤ 9223372036854775808.0 then
    let n : Int := (Text.Shortest.Binary.ofFloat x).floor
    let n := if x < 0 then -n else n
    some (if x.isInf || !Text.fits64 n then -9223372036854775808 else n)
  else none

/-- An integer of 64 bits. A float loses its fraction, and null changes nothing. -/
def int (type : String) : Reader Int :=
  scalar type fun p _ =>
    match p with
    | .null => some none
    | .int n => if Text.fits64 n then some (some n) else none
    | .float x => (truncate x).map some
    | _ => none

/-- A truth value. The words of older versions of YAML count too. -/
def bool : Reader Bool :=
  scalar "bool" fun p text =>
    match p with
    | .null => some none
    | .bool b => some (some b)
    | .text =>
      if ["y", "Y", "yes", "Yes", "YES", "on", "On", "ON"].contains text then some (some true)
      else if ["n", "N", "no", "No", "NO", "off", "Off", "OFF"].contains text then some (some false)
      else none
    | _ => none

/-- A string: the text of any scalar but null. -/
def text : Reader String :=
  scalar "string" fun p text =>
    match p with
    | .null => some none
    | _ => some (some text)

/-- A list of strings. Null is an empty list, and a null in the list is left out. -/
def texts : Reader (List String) := fun place n => do
  match n with
  | .list _ _ _ _ items => return some (← items.filterMapM (visit text place))
  | n =>
    scalar "[]string" (fun p _ => match p with | .null => some (some []) | _ => none) place n

/-! ## Collections -/

/-- A key that stands for the fields of another mapping. -/
def isMerge : Node → Bool
  | .scalar _ _ tag text => text == "<<" && tag == "!!merge"
  | _ => false

/-- The last value of a merge key. -/
def mergeOf (entries : List (Node × Node)) : Option Node :=
  (entries.filter fun e => isMerge e.1).getLast?.map (·.2)

/-- The entries of a mapping that are no merges. -/
def ownEntries (entries : List (Node × Node)) : List (Node × Node) :=
  entries.filter fun e => !isMerge e.1

/-- Whether a node is a mapping, or an alias of one. -/
def standsForDict (place : Place) : Node → Bool
  | .dict _ _ _ _ _ => true
  | .alias _ _ id =>
    match place.root.find? id with
    | some (.dict _ _ _ _ _) => true
    | _ => false
  | _ => false

/-- The mappings that a merge takes fields from. -/
def mergeSources (place : Place) (n : Node) : Binding (List Node) :=
  match n with
  | .list _ _ _ _ items =>
    if items.all (standsForDict place) then return items else throw .mergeValue
  | n => if standsForDict place n then return [n] else throw .mergeValue

/-- The tag of a key; an alias has the tag of what it stands for. -/
def keyTag (place : Place) : Node → String
  | .alias _ _ id => ((place.root.find? id).map Node.tag).getD ""
  | n => n.tag

/-- Whether all keys of a mapping are strings. -/
def hasTextKeys (place : Place) (entries : List (Node × Node)) : Bool :=
  entries.all fun e => ["!!str", "!!merge"].contains (keyTag place e.1)

/-- The keys that a merge must not set, because they have been set already. `none` means that nothing is
being merged. -/
abbrev Taken := Option (List Datum)

/-- Take a key, unless it has been taken. -/
def Taken.add (t : Taken) (key : Datum) : Option Taken :=
  match t with
  | none => some none
  | some keys => if keys.any key.sameKey then none else some (some (key :: keys))

/-- What a mapping without a schema becomes: a dictionary or a table. -/
inductive Collected
  | dict (entries : List (String × Datum))
  | table (entries : List (Datum × Datum))

/-- The collected entries as a datum. -/
def Collected.toDatum : Collected → Datum
  | .dict entries => .dict entries
  | .table entries => .table entries

/-- Add an entry. Keys of a dictionary are strings. -/
def Collected.add (c : Collected) (key value : Datum) : Collected :=
  match c, key with
  | .dict entries, .text s => .dict (Datum.insert s value entries)
  | .dict entries, _ => .dict entries
  | .table entries, k => .table (entries ++ [(k, value)])

mutual

/-- Any node. -/
def any (fuel : Nat) : Reader Datum := fun place n =>
  match fuel with
  | 0 => return none
  | fuel + 1 => do
    match n with
    | .scalar _ _ tag text =>
      let (p, text) ← meaning tag text
      match p with
      | .null => return some .null
      | .bool b => return some (.bool b)
      | .int i => return some (.int i)
      | .float x => return some (.float x)
      | .time t => return some (.time t)
      | .text => return some (.text text)
    | .list _ _ _ _ items =>
      return some (.list (← items.filterMapM fun item => visit (any fuel) place item))
    | .dict _ _ _ _ entries =>
      let c : Collected := if hasTextKeys place entries then .dict [] else .table []
      let (c, _) ← collect fuel none c place n
      return c.map Collected.toDatum
    | n => mismatch "" n

/-- Add the entries of a mapping to those collected so far. The answer is `none` if its keys are not
different. -/
def collect (fuel : Nat) (taken : Taken) (c : Collected) (place : Place) (n : Node) :
    Binding (Option Collected × Taken) :=
  match fuel with
  | 0 => return (none, taken)
  | fuel + 1 => do
    match n with
    | .dict _ _ _ _ entries =>
      if !(← distinctKeys entries) then return (none, taken)
      let readKey : Reader Datum := match c with
        | .dict _ => fun place n => do return (← text place n).map Datum.text
        | .table _ => any fuel
      let (c, taken) ← (ownEntries entries).foldlM (fun (c, taken) (k, v) => do
        match ← visit readKey place k with
        | none => return (c, taken)
        | some key =>
          match taken.add key with
          | none => return (c, taken)
          | some taken =>
            match key with
            | .list _ | .dict _ | .table _ => throw (.keyIsCollection key)
            | key =>
              match ← visit (any fuel) place v with
              | some value => return (c.add key value, taken)
              | none => return (c, taken)) (c, taken)
      match mergeOf entries with
      | none => return (some c, taken)
      | some source =>
        let inner ← match taken with
          | some keys => pure keys
          | none => (ownEntries entries).filterMapM fun e => visit (any fuel) place e.1
        let (c, inner) ← (← mergeSources place source).foldlM (fun (c, inner) s => do
          let (d, inner) ← visit (collect fuel inner c) place s
          return (d.getD c, inner)) (c, (some inner : Taken))
        return (some c, if taken.isSome then inner else none)
    | _ => return (some c, taken)

end

/-! ## Records -/

/-- A field of a record: its name, and how a node changes it. -/
structure Field (α : Type) where
  name : String
  read : Place → Node → α → Binding α

/-- A field whose value is replaced by what a reader finds. -/
def Field.of {α β : Type} (name : String) (read : Reader β) (set : α → β → α) : Field α :=
  { name := name
    read := fun place n r => do
      match ← visit read place n with
      | some v => return set r v
      | none => return r }

/-- What is known while the entries of a record are read: the record, the fields that are done, and the
keys that are taken. -/
structure Filling (α : Type) where
  record : α
  done : List String := []
  taken : Taken

/-- Take in an entry of a record. -/
def Filling.entry {α : Type} (type : String) (fields : List (Field α)) (place : Place) (f : Filling α)
    (e : Node × Node) : Binding (Filling α) := do
  match ← visit text place e.1 with
  | none => return f
  | some name =>
    match f.taken.add (.text name) with
    | none => return f
    | some taken =>
      let f := { f with taken := taken }
      match fields.find? (·.name == name) with
      | none =>
        complain (.unknownField e.1.pos.line name type)
        return f
      | some field =>
        if f.done.contains name then
          complain (.repeatedField e.1.pos.line name type)
          return f
        else return { f with done := name :: f.done, record := ← field.read place e.2 f.record }

/-- Fill a record from a node. Null changes nothing. -/
def fill {α : Type} (type : String) (fields : List (Field α)) (fuel : Nat) (taken : Taken)
    (place : Place) (n : Node) (r : α) : Binding (α × Taken) :=
  match fuel with
  | 0 => return (r, taken)
  | fuel + 1 => do
    match n with
    | .dict _ _ _ _ entries =>
      if !(← distinctKeys entries) then return (r, taken)
      let f ← (ownEntries entries).foldlM (Filling.entry type fields place) ⟨r, [], taken⟩
      match mergeOf entries with
      | none => return (f.record, f.taken)
      | some source =>
        let inner ← match f.taken with
          | some keys => pure keys
          | none => (ownEntries entries).filterMapM fun e => visit (any fuel) place e.1
        let (r, inner) ← (← mergeSources place source).foldlM (fun (r, inner) s =>
          visit (fun place n => fill type fields fuel inner place n r) place s)
          (f.record, (some inner : Taken))
        return (r, if f.taken.isSome then inner else none)
    | n =>
      let _ ← @scalar Unit type (fun p _ => match p with | .null => some none | _ => none) place n
      return (r, taken)

/-- A field that is a record of its own. -/
def Field.ofFields {α β : Type} (name type : String) (fields : List (Field β)) (fuel : Nat)
    (get : α → β) (put : α → β → α) : Field α :=
  { name := name
    read := fun place n r => do
      let (v, _) ← visit (fun place n => fill type fields fuel none place n (get r)) place n
      return put r v }

end Bind

/-! ## Whole documents -/

/-- Why a document could not be read into a record. -/
inductive BindError
  | syntactic (e : Error)
  | obstacle (o : Obstacle)
  | complaints (cs : List Complaint)

/-- The wording of the error. -/
def BindError.message : BindError → String
  | .syntactic e => e.message
  | .obstacle o => "yaml: " ++ o.message
  | .complaints cs => "yaml: unmarshal errors:\n  " ++ String.intercalate "\n  " (cs.map Complaint.message)

namespace Node

mutual

/-- How many nodes there are in a node, itself included. -/
def size : Node → Nat
  | .scalar _ _ _ _ => 1
  | .alias _ _ _ => 1
  | .list _ _ _ _ items => 1 + itemsSize items
  | .dict _ _ _ _ entries => 1 + entriesSize entries

/-- How many nodes there are in the items of a list. -/
def itemsSize : List Node → Nat
  | [] => 0
  | n :: rest => size n + itemsSize rest

/-- How many nodes there are in the entries of a mapping. -/
def entriesSize : List (Node × Node) → Nat
  | [] => 0
  | e :: rest => entrySize e + entriesSize rest

/-- How many nodes there are in an entry of a mapping. -/
def entrySize : Node × Node → Nat
  | (k, v) => size k + size v

end

/-- How deep reading can go: no alias is open twice, and between two aliases it goes down the document. -/
def readingDepth (n : Node) : Nat := 2 * (n.size + 1) * (n.size + 1)

end Node

/-- Read the first document of a text into a record; `none` if there is no document. -/
def bindRecord {α : Type} (read : (fuel : Nat) → Place → Node → α → Binding α) (s : Source) (r : α) :
    Except BindError (Option α) :=
  match parse s with
  | .error e => .error (.syntactic e)
  | .ok parsed =>
    match parsed.root with
    | none => .ok none
    | some root =>
      match (Bind.visit (fun place n => read root.readingDepth place n r) ⟨root, []⟩ root).run
          { visits := 1 } with
      | .error o => .error (.obstacle o)
      | .ok (r, t) => if t.complaints.isEmpty then .ok (some r) else .error (.complaints t.complaints.reverse)

end WhileLang.Yaml
