/-
# The nodes of YAML documents

A document is a tree of texts, sequences and mappings, each with a tag.  A node with an anchor can
be repeated by an alias, even inside itself.
-/
import TreeDiff.Yaml.Meaning
import TreeDiff.Yaml.Scan

namespace TreeDiff.Yaml

/-- A node. -/
inductive Node where
  | scalar (tag text : String) (start : Mark)
  | sequence (tag : String) (items : List Node) (start : Mark)
  | mapping (tag : String) (entries : List (Node × Node)) (start : Mark)
  /-- A node that stands inside itself. -/
  | again (isMapping : Bool) (start : Mark)
deriving Inhabited, Repr

namespace Node

/-- Where a node starts. -/
def start : Node → Mark
  | scalar _ _ start => start
  | sequence _ _ start => start
  | mapping _ _ start => start
  | again _ start => start

/-- How a kind of node is called in messages. -/
def kindName : Node → String
  | scalar _ _ _ => "scalar"
  | sequence _ _ _ => "sequence"
  | mapping _ _ _ => "mapping"
  | again isMapping _ => if isMapping then "mapping" else "sequence"

/-- The tag of a node. -/
def tag : Node → String
  | scalar tag _ _ => tag
  | sequence tag _ _ => tag
  | mapping tag _ _ => tag
  | again isMapping _ => coreTag (if isMapping then "map" else "seq")

end Node

/-- What an anchor stands for: a node that was read, or one that is being read. -/
inductive Anchored where
  | complete (node : Node)
  | unfinished (isMapping : Bool) (start : Mark)
deriving Repr

namespace Anchored

/-- The node of an anchor. -/
def node : Anchored → Node
  | complete node => node
  | unfinished isMapping start => .again isMapping start

/-- Where the node of an anchor starts. -/
def start (a : Anchored) : Mark := a.node.start

end Anchored

/-- What is left to read of a document, with the handles and anchors that are known. -/
structure Reading where
  tokens : List Token
  fault : Option ScanFault
  handles : List (String × String)
  anchors : List (String × Anchored)

/-- A step of reading. -/
abbrev ReadM := StateT Reading (Except ScanFault)

namespace ReadM

/-- A refusal with a context. -/
def stop {α : Type} (context : String) (start : Mark) (problem : String) (place : Mark) : ReadM α :=
  throw (.fault (.during context start problem place))

/-- A refusal without a context. -/
def stopAt {α : Type} (problem : String) (place : Mark) : ReadM α :=
  throw (.fault (.alone problem place))

/-- A refusal of a token in a context. -/
def unfit {α : Type} (context : String) (start : Mark) (complaint : String) (t : Token) : ReadM α :=
  stop context start s!"{complaint} {t.shown}" t.start

/-- A refusal at the end of all calls. -/
def exhausted {α : Type} (place : Mark) : ReadM α := stopAt "found unexpected end of stream" place

/-- The next token. -/
def peek : ReadM Token := do
  let r ← get
  match r.tokens with
  | t :: _ => pure t
  | [] => throw (r.fault.getD (.fault (.alone "found unexpected end of stream" ⟨0, 0⟩)))

/-- The next token, which is taken. -/
def take : ReadM Token := do
  let t ← peek
  modify fun r => { r with tokens := r.tokens.tail }
  pure t

/-- Whether the next token is of some kind. -/
def next (p : TokenKind → Bool) : ReadM Bool := do
  let t ← peek
  pure (p t.kind)

end ReadM

open ReadM

namespace TokenKind

/-- Whether an entry of a block mapping ends at a token. -/
def endsBlockEntry (kind : TokenKind) : Bool := kind = .key || kind = .value || kind = .blockEnd

/-- Whether an entry of a flow collection with the given closing token ends at a token. -/
def endsFlowEntry (close kind : TokenKind) : Bool := kind = .flowEntry || kind = close

/-- Whether a token is a directive. -/
def isDirective : TokenKind → Bool
  | directive _ => true
  | _ => false

end TokenKind

/-- An empty text. -/
def emptyNode (place : Mark) : Node := .scalar (plainTag "") "" place

/-- The properties in front of a node: its anchor and tag, and where they and the tag start. -/
structure Properties where
  anchor : Option String
  tag : Option (Option String × String)
  start : Option Mark
  tagStart : Mark

/-- Reads the properties in front of a node: an anchor and a tag, in any order. -/
def readProperties : ReadM Properties := do
  let first ← peek
  match first.kind with
  | .anchor name => do
    let _ ← take
    let second ← peek
    match second.kind with
    | .tag handle suffix => do
      let _ ← take
      pure ⟨some name, some (handle, suffix), some first.start, second.start⟩
    | _ => pure ⟨some name, none, some first.start, first.start⟩
  | .tag handle suffix => do
    let _ ← take
    let second ← peek
    match second.kind with
    | .anchor name => do
      let _ ← take
      pure ⟨some name, some (handle, suffix), some first.start, first.start⟩
    | _ => pure ⟨none, some (handle, suffix), some first.start, first.start⟩
  | _ => pure ⟨none, none, none, first.start⟩

/-- The full tag of a node. -/
def fullTag (p : Properties) : ReadM (Option String) := do
  match p.tag with
  | none => pure none
  | some (none, suffix) => pure (some suffix)
  | some (some handle, suffix) =>
    match (← get).handles.lookup handle with
    | some text => pure (some (text ++ suffix))
    | none =>
      stop "while parsing a node" (p.start.getD p.tagStart)
        s!"found undefined tag handle {Text.quoted handle}" p.tagStart

/-- The tag that stands for no choice. -/
def openTag : String := "!"

/-- The tag of a collection. -/
def collectionTag (tag : Option String) (name : String) : String :=
  match tag with
  | none => coreTag name
  | some tag => if tag = openTag then coreTag name else tag

/-- The tag of a text. -/
def scalarTag (tag : Option String) (text : String) (plain : Bool) : String :=
  match tag with
  | none => if plain then plainTag text else coreTag "str"
  | some tag => if tag = openTag then plainTag text else tag

/-- Refuses an anchor that is taken. -/
def checkAnchor (anchor : Option String) (start : Mark) : ReadM Unit := do
  match anchor with
  | none => pure ()
  | some name =>
    match (← get).anchors.lookup name with
    | none => pure ()
    | some first =>
      stop s!"found duplicate anchor {Text.quoted name}; first occurrence" first.start
        "second occurrence" start

/-- Remembers what an anchor stands for. -/
def bindAnchor (anchor : Option String) (what : Anchored) : ReadM Unit :=
  match anchor with
  | none => pure ()
  | some name => modify fun r => { r with anchors := (name, what) :: r.anchors }

/-- A text as a node. -/
def scalarNode (anchor : Option String) (node : Node) : ReadM Node := do
  checkAnchor anchor node.start
  bindAnchor anchor (.complete node)
  pure node

/-- A collection as a node: its contents are read after the anchor is known. -/
def collectionNode {α : Type} (anchor : Option String) (isMapping : Bool) (start : Mark)
    (contents : ReadM α) (build : α → Node) : ReadM Node := do
  checkAnchor anchor start
  bindAnchor anchor (.unfinished isMapping start)
  let node := build (← contents)
  bindAnchor anchor (.complete node)
  pure node

/-- The node of an alias. -/
def aliasNode (name : String) (place : Mark) : ReadM Node := do
  match (← get).anchors.lookup name with
  | some what => pure what.node
  | none => stopAt s!"found undefined alias {Text.quoted name}" place

/-- What is being read when a node is. -/
def nodeContext (block : Bool) : String :=
  if block then "while parsing a block node" else "while parsing a flow node"

mutual

/-- Reads a node.  Every call takes a token, refuses, or is made by one that takes a token, so twice
the number of tokens bounds the depth of calls. -/
def readNode : Nat → Bool → Bool → ReadM Node
  | 0, _, _ => do exhausted (← peek).start
  | fuel + 1, block, indentless => do
    let first ← peek
    match first.kind with
    | .reuse name => do
      let _ ← take
      aliasNode name first.start
    | _ => do
      let p ← readProperties
      let tag ← fullTag p
      let t ← peek
      let start := p.start.getD t.start
      let sequence (items : ReadM (List Node)) : ReadM Node :=
        collectionNode p.anchor false start items fun items =>
          .sequence (collectionTag tag "seq") items start
      let mapping (entries : ReadM (List (Node × Node))) : ReadM Node :=
        collectionNode p.anchor true start entries fun entries =>
          .mapping (collectionTag tag "map") entries start
      if indentless && t.kind = .blockEntry then sequence (readIndentless fuel)
      else match t.kind with
        | .scalar text plain => do
          let _ ← take
          scalarNode p.anchor (.scalar (scalarTag tag text plain) text start)
        | .flowSequenceStart => sequence (do readFlowItems fuel (← take).start true)
        | .flowMappingStart => mapping (do readFlowEntries fuel (← take).start true)
        | kind =>
          if block && kind = .blockSequenceStart then
            sequence (do readBlockItems fuel (← take).start)
          else if block && kind = .blockMappingStart then
            mapping (do readBlockEntries fuel (← take).start)
          else if p.anchor.isSome || tag.isSome then
            scalarNode p.anchor (.scalar (scalarTag tag "" (tag.isNone)) "" start)
          else unfit (nodeContext block) start "expected the node content, but found" t

/-- Reads the items of a block sequence. -/
def readBlockItems : Nat → Mark → ReadM (List Node)
  | 0, start => exhausted start
  | fuel + 1, start => do
    let t ← peek
    if t.kind = .blockEntry then do
      let _ ← take
      let item ← (do
        if ← next (fun k => k = .blockEntry || k = .blockEnd) then pure (emptyNode t.stop)
        else readNode fuel true false)
      let rest ← readBlockItems fuel start
      pure (item :: rest)
    else if t.kind = .blockEnd then do
      let _ ← take
      pure []
    else unfit "while parsing a block collection" start "expected <block end>, but found" t

/-- Reads the items of a sequence that is not indented below its key. -/
def readIndentless : Nat → ReadM (List Node)
  | 0 => do exhausted (← peek).start
  | fuel + 1 => do
    let t ← peek
    if t.kind = .blockEntry then do
      let _ ← take
      let item ← (do
        if ← next (fun k => k = .blockEntry || k.endsBlockEntry) then pure (emptyNode t.stop)
        else readNode fuel true false)
      let rest ← readIndentless fuel
      pure (item :: rest)
    else pure []

/-- Reads the entries of a block mapping. -/
def readBlockEntries : Nat → Mark → ReadM (List (Node × Node))
  | 0, start => exhausted start
  | fuel + 1, start => do
    let t ← peek
    if t.kind = .key then do
      let _ ← take
      let key ← (do
        if ← next TokenKind.endsBlockEntry then pure (emptyNode t.stop)
        else readNode fuel true true)
      let v ← peek
      let value ← (do
        if v.kind = .value then do
          let _ ← take
          if ← next TokenKind.endsBlockEntry then pure (emptyNode v.stop)
          else readNode fuel true true
        else pure (emptyNode v.start))
      let rest ← readBlockEntries fuel start
      pure ((key, value) :: rest)
    else if t.kind = .blockEnd then do
      let _ ← take
      pure []
    else unfit "while parsing a block mapping" start "expected <block end>, but found" t

/-- Reads the value of an entry between brackets or braces, after its key. -/
def readFlowValue : Nat → TokenKind → ReadM Node
  | 0, _ => do exhausted (← peek).start
  | fuel + 1, close => do
    let v ← peek
    if v.kind = .value then do
      let _ ← take
      if ← next (TokenKind.endsFlowEntry close) then pure (emptyNode v.stop)
      else readNode fuel false false
    else pure (emptyNode v.start)

/-- Reads the items between brackets. -/
def readFlowItems : Nat → Mark → Bool → ReadM (List Node)
  | 0, start, _ => exhausted start
  | fuel + 1, start, isFirst => do
    if ← next (· = .flowSequenceEnd) then do
      let _ ← take
      pure []
    else do
      let t ← peek
      if !isFirst then
        if t.kind = .flowEntry then
          let _ ← take
        else unfit "while parsing a flow sequence" start "expected ',' or ']', but got" t
      let t ← peek
      if t.kind = .key then do
        let _ ← take
        let key ← (do
          if ← next (fun k => k = .value || k.endsFlowEntry .flowSequenceEnd) then
            pure (emptyNode t.stop)
          else readNode fuel false false)
        let value ← readFlowValue fuel .flowSequenceEnd
        let rest ← readFlowItems fuel start false
        pure (.mapping (coreTag "map") [(key, value)] t.start :: rest)
      else if t.kind = .flowSequenceEnd then do
        let _ ← take
        pure []
      else do
        let item ← readNode fuel false false
        let rest ← readFlowItems fuel start false
        pure (item :: rest)

/-- Reads the entries between braces. -/
def readFlowEntries : Nat → Mark → Bool → ReadM (List (Node × Node))
  | 0, start, _ => exhausted start
  | fuel + 1, start, isFirst => do
    if ← next (· = .flowMappingEnd) then do
      let _ ← take
      pure []
    else do
      let t ← peek
      if !isFirst then
        if t.kind = .flowEntry then
          let _ ← take
        else unfit "while parsing a flow mapping" start "expected ',' or '\x7d', but got" t
      let t ← peek
      if t.kind = .key then do
        let _ ← take
        let key ← (do
          if ← next (fun k => k = .value || k.endsFlowEntry .flowMappingEnd) then
            pure (emptyNode t.stop)
          else readNode fuel false false)
        let value ← readFlowValue fuel .flowMappingEnd
        let rest ← readFlowEntries fuel start false
        pure ((key, value) :: rest)
      else if t.kind = .flowMappingEnd then do
        let _ ← take
        pure []
      else do
        let key ← readNode fuel false false
        let place := (← peek).start
        let rest ← readFlowEntries fuel start false
        pure ((key, emptyNode place) :: rest)

end

/-- The handles that every document knows. -/
def usualHandles : List (String × String) := [("!", "!"), ("!!", coreTag "")]

/-- Takes tokens that end documents. -/
def skipDocumentEnds : Nat → ReadM Unit
  | 0 => pure ()
  | fuel + 1 => do
    if ← next (· = .documentEnd) then
      let _ ← take
      skipDocumentEnds fuel

/-- Reads the directives in front of a document; `version` tells whether one was there. -/
def readDirectives : Nat → Bool → List (String × String) → ReadM (List (String × String))
  | 0, _, handles => pure handles
  | fuel + 1, versioned, handles => do
    let t ← peek
    match t.kind with
    | .directive (.version major _) => do
      let _ ← take
      if versioned then stopAt "found duplicate YAML directive" t.start
      else if major ≠ 1 then
        stopAt "found incompatible YAML document (version 1.* is required)" t.start
      else readDirectives fuel true handles
    | .directive (.handle name text) => do
      let _ ← take
      if (handles.lookup name).isSome then
        stopAt s!"duplicate tag handle {Text.quoted name}" t.start
      else readDirectives fuel versioned (handles ++ [(name, text)])
    | .directive (.other _) => do
      let _ ← take
      readDirectives fuel versioned handles
    | _ => pure handles

/-- Reads what stands before the content of a marked document: directives and the mark. -/
def readDocumentStart (fuel : Nat) : ReadM Unit := do
  let handles ← readDirectives fuel false []
  let t ← peek
  if t.kind = .documentStart then
    let _ ← take
    modify fun r => { r with handles := handles ++ usualHandles }
  else stopAt s!"expected '<document start>', but found {t.shown}" t.start

/-- Whether a marked document has no content in front of a token. -/
def endsDocument (kind : TokenKind) : Bool :=
  kind.isDirective || kind = .documentStart || kind = .documentEnd || kind = .streamEnd

/-- Reads the only document of a stream, if there is one. -/
def readDocument (fuel : Nat) : ReadM (Option Node) := do
  let _ ← take
  let t ← peek
  let marked := t.kind.isDirective || t.kind = .documentStart || t.kind = .streamEnd
  if t.kind = .streamEnd then pure none
  else do
    if marked then readDocumentStart fuel
    let content ← peek
    let root ← (if marked && endsDocument content.kind then pure (emptyNode content.start)
      else readNode fuel true false)
    skipDocumentEnds fuel
    let last ← peek
    if last.kind = .streamEnd then pure (some root)
    else do
      readDocumentStart fuel
      stop "expected a single document in the stream" root.start "but found another document"
        last.start

/-- The only document of a stream, if there is one. -/
def Node.ofTokens (stream : TokenStream) : Except ScanFault (Option Node) :=
  let reading : Reading := ⟨stream.tokens, stream.fault, usualHandles, []⟩
  ((readDocument (4 * stream.tokens.length + 8)).run reading).map (·.1)

end TreeDiff.Yaml
