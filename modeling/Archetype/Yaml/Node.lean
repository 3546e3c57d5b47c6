import Archetype.Yaml.Scalar
import Archetype.Yaml.TokenList

namespace Archetype.Yaml

inductive Node where
  | scalar (kind : Kind) (text : String)
  | list (kind : Kind) (items : List Node)
  | map (kind : Kind) (entries : List (Node × Node))
deriving Repr

structure Nodes where
  rest : List Token
  handles : List (String × String)
  anchors : List String := []
  anchored : List (String × Node) := []

abbrev Parse := StateT Nodes (Except Error)

namespace Parse

def fail {α : Type} : Parse α :=
  throw .malformed

def peek : Parse (Option Token) :=
  return (← get).rest.head?

def isNext (tokens : List Token) : Parse Bool := do
  match ← peek with
  | some token => return tokens.contains token
  | none => return false

def pass : Parse Unit :=
  modify fun nodes => { nodes with rest := nodes.rest.tail }

def take (token : Token) : Parse Bool := do
  if ← isNext [token] then
    pass
    return true
  else return false

def expect (token : Token) : Parse Unit := do
  if !(← take token) then fail

def empty : Node :=
  .scalar .null ""

def properties : Parse (Option String × Option WrittenTag) := do
  match ← peek with
  | some (.anchor name) => do
    pass
    match ← peek with
    | some (.tag tag) => do
      pass
      return (some name, some tag)
    | _ => return (some name, none)
  | some (.tag tag) => do
    pass
    match ← peek with
    | some (.anchor name) => do
      pass
      return (some name, some tag)
    | _ => return (none, some tag)
  | _ => return (none, none)

def fullTag (tag? : Option WrittenTag) : Parse (Option String) := do
  let some tag := tag? | return none
  match tag.handle? with
  | none => return some tag.suffix
  | some handle =>
    match (← get).handles.lookup handle with
    | some space => return some (space ++ tag.suffix)
    | none => fail

/-- The kind that a tag names; the tag `!` and a missing one leave it at `usual`. -/
def kindOf (usual : Kind) : Option String → Kind
  | none => usual
  | some tag => if tag = "!" then usual else Kind.ofTag tag

mutual

/-- A node. Only outside brackets it can be a block, and `bare` allows a list that is not indented
further than what it belongs to. -/
def node (inBlock bare : Bool) : Nat → Parse Node
  | 0 => fail
  | fuel + 1 => do
    if let some (.alias name) ← peek then
      pass
      match (← get).anchored.lookup name with
      | some node => return node
      | none => fail
    let (anchor?, written?) ← properties
    let tag? ← fullTag written?
    if let some anchor := anchor? then
      if (← get).anchors.contains anchor then fail
      modify fun nodes => { nodes with anchors := anchor :: nodes.anchors }
    let result ← content inBlock bare (anchor?.isSome || tag?.isSome) tag? fuel
    if let some anchor := anchor? then
      modify fun nodes => { nodes with anchored := (anchor, result) :: nodes.anchored }
    return result

def content (inBlock bare marked : Bool) (tag? : Option String) : Nat → Parse Node
  | 0 => fail
  | fuel + 1 => do
    match ← peek with
    | some (.scalar text plain) => do
      pass
      let usual := if plain && tag?.isNone || tag? = some "!" then Kind.ofPlain text else .text
      return .scalar (kindOf usual tag?) text
    | some .openList => do
      pass
      return .list (kindOf .list tag?) (← flowItems true fuel)
    | some .openMap => do
      pass
      return .map (kindOf .map tag?) (← flowEntries true fuel)
    | some .blockSequence =>
      if !inBlock then fail
      pass
      return .list (kindOf .list tag?) (← blockItems fuel)
    | some .blockMapping =>
      if !inBlock then fail
      pass
      return .map (kindOf .map tag?) (← blockEntries fuel)
    | some .dash =>
      if bare then return .list (kindOf .list tag?) (← bareItems fuel)
      if !marked then fail
      return .scalar (kindOf .null tag?) ""
    | _ =>
      if !marked then fail
      return .scalar (kindOf .null tag?) ""

def optional (inBlock bare : Bool) (ends : List Token) : Nat → Parse Node
  | 0 => fail
  | fuel + 1 => do
    if ← isNext ends then return empty
    node inBlock bare fuel

def blockItems : Nat → Parse (List Node)
  | 0 => fail
  | fuel + 1 => do
    if ← take .dash then
      let item ← optional true false [.dash, .blockEnd] fuel
      return item :: (← blockItems fuel)
    expect .blockEnd
    return []

def bareItems : Nat → Parse (List Node)
  | 0 => fail
  | fuel + 1 => do
    if ← take .dash then
      let item ← optional true false [.dash, .key, .value, .blockEnd] fuel
      return item :: (← bareItems fuel)
    return []

def blockEntries : Nat → Parse (List (Node × Node))
  | 0 => fail
  | fuel + 1 => do
    if ← take .key then
      let ends := [.key, .value, .blockEnd]
      let key ← optional true true ends fuel
      let value ← if ← take .value then optional true true ends fuel else pure empty
      return (key, value) :: (← blockEntries fuel)
    expect .blockEnd
    return []

def flowEntry (close : Token) : Nat → Parse (Node × Node)
  | 0 => fail
  | fuel + 1 => do
    let key ← optional false false [.value, .comma, close] fuel
    let value ← if ← take .value then optional false false [.comma, close] fuel else pure empty
    return (key, value)

def flowItems (first : Bool) : Nat → Parse (List Node)
  | 0 => fail
  | fuel + 1 => do
    if ← take .closeList then return []
    if !first then expect .comma
    if ← take .closeList then return []
    let item ← if ← take .key then do
        let entry ← flowEntry .closeList fuel
        pure (.map .map [entry])
      else node false false fuel
    return item :: (← flowItems false fuel)

def flowEntries (first : Bool) : Nat → Parse (List (Node × Node))
  | 0 => fail
  | fuel + 1 => do
    if ← take .closeMap then return []
    if !first then expect .comma
    if ← take .closeMap then return []
    let entry ← if ← take .key then flowEntry .closeMap fuel else do
        let key ← node false false fuel
        pure (key, empty)
    return entry :: (← flowEntries false fuel)

end

def isOutside : Token → Bool
  | .directive _ | .documentStart | .documentEnd => true
  | _ => false

def commonHandles : List (String × String) := [("!", "!"), ("!!", commonSpace)]

/-- The directives in front of a document and what they make of the handles; a version and a
handle can be given only once. -/
def directives : Bool → List (String × String) → List Token →
    Except Error (List (String × String) × List Token)
  | versioned, handles, .directive (.version major) :: rest =>
    if versioned || major ≠ 1 then .error .malformed else directives true handles rest
  | versioned, handles, .directive (.handle name space) :: rest =>
    if (handles.lookup name).isSome then .error .malformed
    else directives versioned ((name, space) :: handles) rest
  | versioned, handles, .directive .other :: rest => directives versioned handles rest
  | _, handles, rest => .ok (handles, rest)

def root (handles : List (String × String)) (tokens : List Token) :
    Except Error (Node × List Token) := do
  let (root, nodes) ← (node true false (4 * tokens.length + 4)).run { rest := tokens, handles }
  return (root, nodes.rest)

def markedDocument (tokens : List Token) : Except Error (Option Node × List Token) := do
  if tokens.isEmpty then return (none, [])
  let (handles, tokens) ← directives false [] tokens
  match tokens with
  | .documentStart :: rest =>
    if rest.head?.all isOutside then return (some empty, rest)
    let (root, rest) ← root (handles ++ commonHandles) rest
    return (some root, rest)
  | _ => throw .malformed

def document (tokens : List Token) : Except Error (Option Node) := do
  let marked := match tokens.head? with
    | none | some (.directive _) | some .documentStart => true
    | _ => false
  let (root?, rest) ← if marked then markedDocument tokens else do
    let (root, rest) ← root commonHandles tokens
    pure (some root, rest)
  if rest.all (· = .documentEnd) then return root? else throw .malformed

end Parse

end Archetype.Yaml
