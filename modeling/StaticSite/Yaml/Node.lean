import StaticSite.Yaml.Token

/-!
# Nodes

A document is a tree of nodes, in which a reference stands for a node that was given a name before.
Names are numbered when they are given, so that a reference holds a number.

The functions that read nodes take a bound for the depth of calls; `bound` is never reached, because
each second call at least passes a token.
-/

namespace StaticSite.Yaml

/-- What may be said of a node before its content. -/
structure Label where
  /-- The number of the name of the node. -/
  anchor : Option Nat := none
  /-- The tag, with its handle resolved. -/
  tag : Option String := none
deriving Repr

/-- A node of a document. -/
inductive Node where
  /-- A reference to the node with this number. -/
  | alias (target : Nat)
  /-- A scalar, written plain or not. -/
  | scalar (label : Label) (text : String) (plain : Bool)
  /-- A sequence. -/
  | sequence (label : Label) (items : List Node)
  /-- A mapping. -/
  | mapping (label : Label) (entries : List (Node × Node))
deriving Repr

namespace Node

/-- What stands where a node is left out. -/
def absent : Node := .scalar {} "" true

instance : Inhabited Node := ⟨absent⟩

/-! ## Reading nodes from tokens -/

/-- What is left of the tokens, and what was read before. -/
structure State where
  /-- The tokens. -/
  tokens : List Token
  /-- The names of nodes with their numbers. -/
  names : List (String × Nat) := []
  /-- The handles of tags with what they stand for. -/
  handles : List (String × String) := []

/-- A step that reads tokens and may fail. -/
abbrev Read := StateT State Option

/-- The next token. -/
def peek : Read (Option Token) := return (← get).tokens.head?

/-- Passes a token. -/
def pass : Read Unit := modify fun s => { s with tokens := s.tokens.tail }

/-- Passes the token `t`. -/
def expect (t : Token) : Read Unit := do
  if (← peek) = some t then pass else failure

/-- The number that stands for a name. -/
def named (name : String) : Read Nat := do
  match (← get).names.lookup name with
  | some n => return n
  | none => failure

/-- Gives a name to the node that is read. The number is the number of names known before; a name
that is given again does not count twice. -/
def giveName (name : String) : Read Nat := do
  let s ← get
  let n := s.names.length
  set { s with names := (name, n) :: s.names.filter (·.1 != name) }
  return n

/-- The tag that a handle and the rest of a tag stand for. -/
def resolveTag (handle rest : String) : Read String := do
  if handle.isEmpty then return rest
  match (← get).handles.lookup handle with
  | some beginning => return beginning ++ rest
  | none => failure

/-- Reads a tag, if there is one. -/
def tag : Read (Option (String × String)) := do
  match ← peek with
  | some (.tag handle rest) =>
    pass
    return some (handle, rest)
  | _ => return none

/-- Reads a name, if there is one. -/
def anchor : Read (Option String) := do
  match ← peek with
  | some (.anchor name) =>
    pass
    return some name
  | _ => return none

/-- Reads a name and a tag in either order. -/
def label : Read Label := do
  let name ← anchor
  let found ← tag
  let name ← if name.isNone then anchor else pure name
  let tag ← found.mapM fun t => resolveTag t.1 t.2
  let anchor ← name.mapM giveName
  return { anchor, tag }

/-- A node without content, which needs a name or a tag. -/
def bare (l : Label) : Read Node :=
  if l.anchor.isSome || l.tag.isSome then return .scalar l "" true else failure

/-- Reads a node, or none before one of the tokens `stops`. -/
def readUnless (stops : List Token) (read : Read Node) : Read Node := do
  match ← peek with
  | some t => if t ∈ stops then return absent else read
  | none => read

mutual

/-- Reads a node. Blocks are read if `block`, and items of a sequence that is not indented if
`indentless`. -/
def read (block indentless : Bool) : Nat → Read Node
  | 0 => failure
  | bound + 1 => do
    if let some (.alias name) ← peek then
      pass
      return .alias (← named name)
    let l ← label
    match ← peek with
    | some (.scalar text plain) =>
      pass
      return if l.tag = some "!" then .scalar { l with tag := none } text plain
        else .scalar l text plain
    | some .blockEntry => if indentless then .sequence l <$> indentlessItems bound else bare l
    | some .flowSequenceStart =>
      pass
      .sequence l <$> flowItems true bound
    | some .flowMappingStart =>
      pass
      .mapping l <$> flowEntries true bound
    | some .blockSequenceStart =>
      if block then do
        pass
        .sequence l <$> blockItems bound
      else bare l
    | some .blockMappingStart =>
      if block then do
        pass
        .mapping l <$> blockEntries bound
      else bare l
    | _ => bare l

/-- Reads the items of an indented sequence. -/
def blockItems : Nat → Read (List Node)
  | 0 => failure
  | bound + 1 => do
    match ← peek with
    | some .blockEntry =>
      pass
      let item ← readUnless [.blockEntry, .blockEnd] (read true false bound)
      return item :: (← blockItems bound)
    | some .blockEnd =>
      pass
      return []
    | _ => failure

/-- Reads the items of a sequence in the column of the mapping around it. -/
def indentlessItems : Nat → Read (List Node)
  | 0 => failure
  | bound + 1 => do
    match ← peek with
    | some .blockEntry =>
      pass
      let item ← readUnless [.blockEntry, .key, .value, .blockEnd] (read true false bound)
      return item :: (← indentlessItems bound)
    | _ => return []

/-- Reads the entries of an indented mapping. -/
def blockEntries : Nat → Read (List (Node × Node))
  | 0 => failure
  | bound + 1 => do
    match ← peek with
    | some .key =>
      pass
      let key ← readUnless [.key, .value, .blockEnd] (read true true bound)
      let value ←
        if (← peek) = some .value then do
          pass
          readUnless [.key, .value, .blockEnd] (read true true bound)
        else pure absent
      return (key, value) :: (← blockEntries bound)
    | some .blockEnd =>
      pass
      return []
    | _ => failure

/-- Reads the items behind a bracket; a comma stands before each but the first. An entry of a
mapping may stand for a mapping that has only this entry. -/
def flowItems (first : Bool) : Nat → Read (List Node)
  | 0 => failure
  | bound + 1 => do
    if (← peek) = some .flowSequenceEnd then
      pass
      return []
    if !first then expect .flowEntry
    match ← peek with
    | some .flowSequenceEnd =>
      pass
      return []
    | some .key =>
      pass
      let key ←
        match ← peek with
        | some .value | some .flowEntry | some .flowSequenceEnd => do
          pass
          pure absent
        | _ => read false false bound
      let value ← flowValue [.flowEntry, .flowSequenceEnd] bound
      return .mapping {} [(key, value)] :: (← flowItems false bound)
    | _ =>
      let item ← read false false bound
      return item :: (← flowItems false bound)

/-- Reads a colon and a value, if there is a colon. -/
def flowValue (stops : List Token) : Nat → Read Node
  | 0 => failure
  | bound + 1 => do
    if (← peek) = some .value then
      pass
      readUnless stops (read false false bound)
    else return absent

/-- Reads the entries behind a brace; a comma stands before each but the first. -/
def flowEntries (first : Bool) : Nat → Read (List (Node × Node))
  | 0 => failure
  | bound + 1 => do
    if (← peek) = some .flowMappingEnd then
      pass
      return []
    if !first then expect .flowEntry
    match ← peek with
    | some .flowMappingEnd =>
      pass
      return []
    | some .key =>
      pass
      let key ← readUnless [.value, .flowEntry, .flowMappingEnd] (read false false bound)
      let value ← flowValue [.flowEntry, .flowMappingEnd] bound
      return (key, value) :: (← flowEntries false bound)
    | _ =>
      let key ← read false false bound
      return (key, absent) :: (← flowEntries false bound)

end

/-! ## Documents -/

/-- The handles that are known without a directive. -/
def knownHandles : List (String × String) := [("!", "!"), ("!!", "tag:yaml.org,2002:")]

/-- Reads the directives before a document; each may be given once. -/
def directives (versioned : Bool) : Nat → Read Unit
  | 0 => failure
  | bound + 1 => do
    match ← peek with
    | some (.version major minor) =>
      if versioned || major != 1 || !(minor == 1 || minor == 2) then failure
      pass
      directives true bound
    | some (.tagHandle handle beginning) =>
      let s ← get
      if s.handles.any (·.1 == handle) then failure
      set { s with handles := (handle, beginning) :: s.handles }
      pass
      directives versioned bound
    | _ => return

/-- Passes the marks behind a document. -/
def passEnds (s : State) : State :=
  { s with tokens := s.tokens.dropWhile (· == .documentEnd) }

/-- Reads the only document of a text; there is no node if the text has no document. -/
def document (bound : Nat) : Read (Option Node) := do
  let explicit ←
    match ← peek with
    | none => return none
    | some (.version ..) | some (.tagHandle ..) | some .documentStart => pure true
    | some _ => pure false
  if explicit then directives false bound
  modify fun s => { s with handles := s.handles ++ knownHandles }
  if explicit then expect .documentStart
  let root ←
    match ← peek with
    | none => pure absent
    | some .documentEnd => if explicit then pure absent else failure
    | some _ => read true false bound
  modify passEnds
  if (← peek).isSome then failure
  return some root

/-- The only document of a text, if the text is well formed; there is no node if there is no
document. -/
def ofTokens? (tokens : List Token) : Option (Option Node) :=
  (document (4 * tokens.length + 4)).run' { tokens }

mutual

/-- The nodes that have a name, with its number, in the order of the text. -/
def anchored (n : Node) : List (Nat × Node) :=
  match n with
  | .alias _ => []
  | .scalar l .. => (l.anchor.map (·, n)).toList
  | .sequence l items => (l.anchor.map (·, n)).toList ++ anchoredItems items
  | .mapping l entries => (l.anchor.map (·, n)).toList ++ anchoredEntries entries

/-- The nodes in a list that have a name. -/
def anchoredItems : List Node → List (Nat × Node)
  | [] => []
  | n :: ns => anchored n ++ anchoredItems ns

/-- The nodes in a list of entries that have a name. -/
def anchoredEntries : List (Node × Node) → List (Nat × Node)
  | [] => []
  | (k, v) :: es => anchored k ++ anchored v ++ anchoredEntries es

end

end Node

end StaticSite.Yaml
