/-
# The content of YAML documents

What the nodes of a document denote.  A collection is there before what stands inside it, so of two
flaws the one that is nested less deeply counts, and of two at the same depth the first.
-/
import TreeDiff.Yaml.Node
import TreeDiff.Yaml.Numeral

namespace TreeDiff.Yaml

/-- Why a node denotes nothing. -/
inductive Flaw where
  | fault (fault : Fault)
  | misfit (misfit : Misfit)
deriving DecidableEq, Repr

/-- A flaw with the number of collections around it. -/
structure NestedFlaw where
  depth : Nat
  flaw : Flaw
deriving DecidableEq, Repr

/-- What a part of a document denotes. -/
abbrev Built (α : Type) := Except NestedFlaw α

namespace Built

/-- A flaw at the present depth. -/
def refuse {α : Type} (fault : Fault) : Built α := .error ⟨0, .fault fault⟩

/-- A text that is read, or fails to be what its tag says. -/
def ofReading {α : Type} (reading : Except Misfit α) : Built α :=
  reading.mapError fun misfit => ⟨0, .misfit misfit⟩

/-- What stands inside a collection. -/
def inside {α : Type} (part : Built α) : Built α :=
  part.mapError fun flaw => { flaw with depth := flaw.depth + 1 }

/-- Two parts of which the second follows the first. -/
def both {α β : Type} : Built α → Built β → Built (α × β)
  | .ok a, .ok b => .ok (a, b)
  | .error v, .ok _ => .error v
  | .ok _, .error w => .error w
  | .error v, .error w => .error (if w.depth < v.depth then w else v)

/-- Parts that follow each other. -/
def all {α : Type} : List (Built α) → Built (List α)
  | [] => .ok []
  | part :: rest => (both part (all rest)).map fun (a, as) => a :: as

end Built

/-! ## Texts -/

mutual

/-- The text of a node; that of a mapping is the text under its key that stands for its value. -/
def scalarText : Node → Built String
  | .scalar _ text _ => .ok text
  | .mapping _ entries start =>
    match valueText entries with
    | some text => text
    | none => .refuse (.alone "expected a scalar node, but found mapping" start)
  | node => .refuse (.alone s!"expected a scalar node, but found {node.kindName}" node.start)

/-- The text under the key that stands for the value of a mapping. -/
def valueText : List (Node × Node) → Option (Built String)
  | [] => none
  | (key, value) :: rest =>
    if key.tag = coreTag "value" then some (scalarText value) else valueText rest

end

/-- The bytes that a text denotes in base 64. -/
def bytesOfText (text : String) (start : Mark) : Built (List UInt8) :=
  let chars := text.toList
  match chars.findIdx? (fun c => 0x80 ≤ c.toNat) with
  | some offset =>
    let wrong := (chars.drop offset).takeWhile fun c => 0x80 ≤ c.toNat
    let place := match wrong with
      | [c] => s!"character {Text.quoted (String.singleton c)} in position {offset}"
      | _ => s!"characters in position {offset}-{offset + wrong.length - 1}"
    .refuse (.alone ("failed to convert base64 data into ascii: 'ascii' codec can't encode " ++
      s!"{place}: ordinal not in range(128)") start)
  | none =>
    match readBase64 chars with
    | .ok bytes => .ok bytes
    | .error reason => .refuse (.alone s!"failed to decode base64 data: {reason}" start)

/-- The kinds of values that are written as texts. -/
inductive ScalarKind where
  | null
  | bool
  | int
  | float
  | binary
  | timestamp
  | str
deriving DecidableEq, Repr

namespace ScalarKind

/-- The kinds with the names of their tags. -/
def names : List (String × ScalarKind) :=
  [("null", null), ("bool", bool), ("int", int), ("float", float), ("binary", binary),
   ("timestamp", timestamp), ("str", str)]

/-- The value that a text denotes. -/
def value (start : Mark) (text : String) : ScalarKind → Built Value
  | null => .ok .null
  | bool => (Built.ofReading (readTruth text.toList)).map Value.bool
  | int => (Built.ofReading (readInteger text.toList)).map Value.int
  | float => (Built.ofReading (readFloat text.toList)).map Value.float
  | binary => (bytesOfText text start).map Value.bytes
  | timestamp => Built.ofReading (readMoment text.toList)
  | str => .ok (.text text)

end ScalarKind

/-- What a tag asks for. -/
inductive TagSense where
  | scalar (kind : ScalarKind)
  | list
  | map
  | set
  | orderedMap
  | pairs
  | unknown
deriving DecidableEq, Repr

/-- What collections the tags ask for. -/
def collectionNames : List (String × TagSense) :=
  [("seq", .list), ("map", .map), ("set", .set), ("omap", .orderedMap), ("pairs", .pairs)]

/-- What a tag asks for. -/
def senseOf (tag : String) : TagSense :=
  match ScalarKind.names.find? fun (name, _) => coreTag name = tag with
  | some (_, kind) => .scalar kind
  | none =>
    match collectionNames.find? fun (name, _) => coreTag name = tag with
    | some (_, sense) => sense
    | none => .unknown

/-- The tag of a key: that for values stands for a text there. -/
def keyTag (tag : String) : String := if tag = coreTag "value" then coreTag "str" else tag

/-! ## Mappings -/

/-- An entry of a mapping: where its key stands and what its parts denote. -/
structure BuiltEntry where
  keyStart : Mark
  key : Built Value
  value : Built Value

/-- Whether a value can be a key. -/
def isKey : Value → Bool
  | .list _ => false
  | .set _ => false
  | .map _ => false
  | .again _ => false
  | _ => true

/-- The key of an entry.  A collection is none, whatever stands inside it. -/
def BuiltEntry.checkedKey (start : Mark) (e : BuiltEntry) : Built Value :=
  let refused : Built Value :=
    .refuse (.during "while constructing a mapping" start "found unhashable key" e.keyStart)
  match e.key with
  | .ok v => if isKey v then .ok v else refused
  | .error flaw => if flaw.depth = 0 then .error flaw else refused

/-- The entries of a map; a later entry replaces the value of an earlier one. -/
def entriesOf (start : Mark) (entries : List BuiltEntry) : Built (List (Value × Value)) :=
  (Built.all (entries.map fun e => (e.checkedKey start).both e.value)).map fun pairs =>
    pairs.foldl (fun present (key, value) => Value.put key value present) []

/-- The entries of a mapping: those that are merged into it, and its own. -/
structure Layers where
  merged : List BuiltEntry
  own : List BuiltEntry

/-- All entries, the merged ones first so that the others replace their values. -/
def Layers.all (l : Layers) : List BuiltEntry := l.merged ++ l.own

/-- The only entry of a mapping inside a list of pairs. -/
def onlyPair (context : String) (start itemStart : Mark) (pairs : List (Built (Value × Value))) :
    Built (Value × Value) :=
  match pairs with
  | [pair] => pair
  | _ => .refuse (.during context start
      s!"expected a single mapping item, but found {pairs.length} items" itemStart)

/-- A list of pairs. -/
def pairList (pairs : List (Built Value)) : Built Value :=
  (Built.inside (Built.all pairs)).map Value.list

mutual

/-- What a node denotes under a tag. -/
def content (tag : String) : Node → Built Value
  | .scalar _ text start =>
    match senseOf tag with
    | .scalar kind => kind.value start text
    | .list => Built.inside (.refuse (.alone "expected a sequence node, but found scalar" start))
    | .map => Built.inside (.refuse (.alone "expected a mapping node, but found scalar" start))
    | .set => Built.inside (.refuse (.alone "expected a mapping node, but found scalar" start))
    | .orderedMap => Built.inside (.refuse (.during "while constructing an ordered map" start
        "expected a sequence, but found scalar" start))
    | .pairs => Built.inside (.refuse (.during "while constructing pairs" start
        "expected a sequence, but found scalar" start))
    | .unknown => .refuse (.alone
        s!"could not determine a constructor for the tag {Text.quoted tag}" start)
  | .sequence _ items start =>
    match senseOf tag with
    | .scalar _ => .refuse (.alone "expected a scalar node, but found sequence" start)
    | .list => (Built.inside (Built.all (contents items))).map Value.list
    | .map => Built.inside (.refuse (.alone "expected a mapping node, but found sequence" start))
    | .set => Built.inside (.refuse (.alone "expected a mapping node, but found sequence" start))
    | .orderedMap => pairList (pairItems "while constructing an ordered map" start items)
    | .pairs => pairList (pairItems "while constructing pairs" start items)
    | .unknown => .refuse (.alone
        s!"could not determine a constructor for the tag {Text.quoted tag}" start)
  | .mapping own entries start =>
    match senseOf tag with
    | .scalar kind => (scalarText (.mapping own entries start)).bind fun text =>
        kind.value start text
    | .list => Built.inside (.refuse (.alone "expected a sequence node, but found mapping" start))
    | .map => Built.inside (((layers start entries).bind fun l => entriesOf start l.all).map
        Value.map)
    | .set => Built.inside (((layers start entries).bind fun l => entriesOf start l.all).map
        fun present => Value.set (present.map (·.1)))
    | .orderedMap => Built.inside (.refuse (.during "while constructing an ordered map" start
        "expected a sequence, but found mapping" start))
    | .pairs => Built.inside (.refuse (.during "while constructing pairs" start
        "expected a sequence, but found mapping" start))
    | .unknown => .refuse (.alone
        s!"could not determine a constructor for the tag {Text.quoted tag}" start)
  | .again isMapping _ => .ok (.again isMapping)

/-- What nodes denote under their own tags. -/
def contents : List Node → List (Built Value)
  | [] => []
  | node :: rest => content node.tag node :: contents rest

/-- The pairs of a list. -/
def pairItems (context : String) (start : Mark) : List Node → List (Built Value)
  | [] => []
  | .mapping _ entries itemStart :: rest =>
    (onlyPair context start itemStart (pairEntries entries)).map (fun (k, v) => Value.pair k v) ::
      pairItems context start rest
  | node :: rest =>
    .refuse (.during context start
      s!"expected a mapping of length 1, but found {node.kindName}" node.start) ::
      pairItems context start rest

/-- The entries of a mapping that is a pair. -/
def pairEntries : List (Node × Node) → List (Built (Value × Value))
  | [] => []
  | (key, value) :: rest =>
    (content key.tag key).both (content value.tag value) :: pairEntries rest

/-- The entries of a mapping with those that it merges in. -/
def layers (start : Mark) : List (Node × Node) → Built Layers
  | [] => .ok ⟨[], []⟩
  | (key, value) :: rest =>
    if key.tag = coreTag "merge" then do
      let more ← mergedEntries start value
      let l ← layers start rest
      pure { l with merged := more ++ l.merged }
    else do
      let l ← layers start rest
      let entry : BuiltEntry := ⟨key.start, content (keyTag key.tag) key, content value.tag value⟩
      pure { l with own := entry :: l.own }

/-- The entries that a mapping merges in: those of a mapping, or of several, the first of which
counts most. -/
def mergedEntries (start : Mark) : Node → Built (List BuiltEntry)
  | .mapping _ entries itemStart => (layers itemStart entries).map Layers.all
  | .sequence _ items _ => mergedItems start items
  | .again true _ => .ok []
  | node => .refuse (.during "while constructing a mapping" start
      s!"expected a mapping or list of mappings for merging, but found {node.kindName}" node.start)

/-- The entries of several mappings, those of the last one first. -/
def mergedItems (start : Mark) : List Node → Built (List BuiltEntry)
  | [] => .ok []
  | .mapping _ entries itemStart :: rest => do
    let l ← layers itemStart entries
    let later ← mergedItems start rest
    pure (later ++ l.all)
  | .again true _ :: rest => mergedItems start rest
  | node :: _ => .refuse (.during "while constructing a mapping" start
      s!"expected a mapping for merging, but found {node.kindName}" node.start)

end

/-- The value that a document denotes; an empty document denotes nothing. -/
def Node.value (root : Option Node) : Except Flaw Value :=
  match root with
  | none => .ok .null
  | some node => (content node.tag node).mapError NestedFlaw.flaw

end TreeDiff.Yaml
