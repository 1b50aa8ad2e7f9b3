import Mathlib.Data.List.DropRight
import Protowire.Detail.GoQuoteCore

/-!
SBE XML schemas: the elements of a document as the XML parser hands them over, the schema that is
read from them, and the name conversions of the two converters.
-/

namespace Protowire.Sbe

def readUintFrom (max n : Nat) : Bytes → Except Bytes Nat
  | [] => .ok n
  | c :: rest =>
    if !isDigit c then .error (text "invalid syntax")
    else if 1844674407370955162 ≤ n then .error (text "value out of range")
    else if max < n * 10 + digitValue c then .error (text "value out of range")
    else readUintFrom max (n * 10 + digitValue c) rest

def goParseUint (s : Bytes) (max : Nat) : Except Bytes Nat :=
  let value := if s.isEmpty then .error (text "invalid syntax") else readUintFrom max 0 s
  value.mapError fun why => text "strconv.ParseUint: parsing " ++ goQuote s ++ text ": " ++ why

inductive Xml where
  | element (name : Bytes) (attributes : List (Bytes × Bytes)) (children : List Xml)
  | chars (value : Bytes)

def localName (name : Bytes) : Bytes :=
  match name.dropWhile (· ≠ 0x3A) with
  | [] => name
  | _ :: rest => rest

namespace Xml

def tag : Xml → Bytes
  | .element name _ _ => localName name
  | .chars _ => []

def isElement : Xml → Bool
  | .element _ _ _ => true
  | .chars _ => false

def attributes : Xml → List (Bytes × Bytes)
  | .element _ attributes _ => attributes
  | .chars _ => []

def children : Xml → List Xml
  | .element _ _ children => children
  | .chars _ => []

def elements (e : Xml) : List Xml := e.children.filter isElement

def childrenNamed (e : Xml) (name : String) : List Xml :=
  e.elements.filter (·.tag = text name)

def attr (e : Xml) (name : String) : Bytes :=
  ((e.attributes.filter fun a => localName a.1 = text name).getLast?.map (·.2)).getD []

def charData (e : Xml) : Bytes :=
  e.children.flatMap fun
    | .chars value => value
    | .element _ _ _ => []

end Xml

def isSpace (c : UInt8) : Bool := c = 0x20 || (0x09 ≤ c && c ≤ 0x0D)

def trimSpace (s : Bytes) : Bytes := (s.dropWhile isSpace).rdropWhile isSpace

def uint32Attr (e : Xml) (name : String) : Except Bytes Nat :=
  let raw := e.attr name
  if raw.isEmpty then .ok 0 else goParseUint (trimSpace raw) 4294967295

structure XMLType where
  name : Bytes
  primitiveType : Bytes
  length : Nat := 0
  characterEncoding : Bytes := []
deriving DecidableEq, Repr

structure XMLRef where
  name : Bytes
  type : Bytes
deriving DecidableEq, Repr

structure XMLComposite where
  name : Bytes
  types : List XMLType
  refs : List XMLRef
deriving DecidableEq, Repr

structure XMLValidValue where
  name : Bytes
  value : Bytes
deriving DecidableEq, Repr

structure XMLEnum where
  name : Bytes
  encodingType : Bytes
  validValues : List XMLValidValue
deriving DecidableEq, Repr

structure XMLField where
  name : Bytes
  id : Nat
  type : Bytes
deriving DecidableEq, Repr

structure XMLGroup where
  name : Bytes
  id : Nat
  fields : List XMLField
deriving DecidableEq, Repr

structure XMLMessage where
  name : Bytes
  id : Nat
  fields : List XMLField
  groups : List XMLGroup
deriving DecidableEq, Repr

structure XMLTypes where
  types : List XMLType := []
  composites : List XMLComposite := []
  enums : List XMLEnum := []
deriving DecidableEq, Repr

structure XMLSchema where
  package : Bytes
  id : Nat
  version : Nat
  types : XMLTypes
  messages : List XMLMessage
deriving DecidableEq, Repr

def parseType (e : Xml) : Except Bytes XMLType := do
  let length ← uint32Attr e "length"
  return { name := e.attr "name", primitiveType := e.attr "primitiveType", length
           characterEncoding := e.attr "characterEncoding" }

def parseField (e : Xml) : Except Bytes XMLField := do
  let id ← uint32Attr e "id"
  return { name := e.attr "name", id, type := e.attr "type" }

def parseRef (e : Xml) : XMLRef := ⟨e.attr "name", e.attr "type"⟩

def parseComposite (e : Xml) : Except Bytes XMLComposite := do
  let types ← (e.childrenNamed "type").mapM parseType
  return ⟨e.attr "name", types, (e.childrenNamed "ref").map parseRef⟩

def parseEnum (e : Xml) : XMLEnum where
  name := e.attr "name"
  encodingType := e.attr "encodingType"
  validValues := (e.childrenNamed "validValue").map fun v => ⟨v.attr "name", v.charData⟩

def parseTypes (e : Xml) : Except Bytes XMLTypes := do
  let types ← (e.childrenNamed "type").mapM parseType
  let composites ← (e.childrenNamed "composite").mapM parseComposite
  return ⟨types, composites, (e.childrenNamed "enum").map parseEnum⟩

def parseGroup (e : Xml) : Except Bytes XMLGroup := do
  let id ← uint32Attr e "id"
  let fields ← (e.childrenNamed "field").mapM parseField
  return ⟨e.attr "name", id, fields⟩

def parseMessage (e : Xml) : Except Bytes XMLMessage := do
  let id ← uint32Attr e "id"
  let fields ← (e.childrenNamed "field").mapM parseField
  let groups ← (e.childrenNamed "group").mapM parseGroup
  return ⟨e.attr "name", id, fields, groups⟩

def schemaOf (root : Xml) : Except Bytes XMLSchema := do
  if root.tag ≠ text "messageSchema" then
    throw (text "expected element type <messageSchema> but have <" ++ root.tag ++ text ">")
  let id ← uint32Attr root "id"
  let version ← uint32Attr root "version"
  let types ← (root.childrenNamed "types").mapM parseTypes
  let messages ← (root.childrenNamed "message").mapM parseMessage
  return { package := root.attr "package", id, version, messages
           types := ⟨types.flatMap (·.types), types.flatMap (·.composites),
             types.flatMap (·.enums)⟩ }

def stripSBENamespace : Bytes → Bytes
  | [] => []
  | c :: rest =>
    if opensWith (text "sbe:message") (c :: rest) then
      text "message" ++ stripSBENamespace (rest.drop 10)
    else c :: stripSBENamespace rest
termination_by data => data.length
decreasing_by
  all_goals simp only [List.length_drop, List.length_cons]
  all_goals omega

def parseXMLSchema (parser : Bytes → Except Bytes Xml) (data : Bytes) : Except Bytes XMLSchema :=
  (parser (stripSBENamespace data) >>= schemaOf).mapError fun message =>
    text "sbe: parse XML schema: " ++ message

def isUpper (c : UInt8) : Bool := 0x41 ≤ c && c ≤ 0x5A

def isLower (c : UInt8) : Bool := 0x61 ≤ c && c ≤ 0x7A

def toLower (c : UInt8) : UInt8 := if isUpper c then c + 0x20 else c

def toUpper (c : UInt8) : UInt8 := if isLower c then c - 0x20 else c

/-- `CamelToSnake` on from a character. -/
def camelToSnakeFrom (previous : Option UInt8) : Bytes → Bytes
  | [] => []
  | r :: rest =>
    let parted := isUpper r && previous.any fun p => isLower p || rest.head?.any isLower
    (if parted then [0x5F] else []) ++ toLower r :: camelToSnakeFrom (some r) rest

def camelToSnake (s : Bytes) : Bytes := camelToSnakeFrom none s

def capitalized : Bytes → Bytes
  | [] => []
  | c :: rest => toUpper c :: rest

def snakeToCamel (s : Bytes) : Bytes :=
  match s.splitOn 0x5F with
  | [] => []
  | first :: others => first ++ others.flatMap capitalized

def camelToScreamingSnakeFrom (previous : Option UInt8) : Bytes → Bytes
  | [] => []
  | r :: rest =>
    (if isUpper r && previous.any isLower then [0x5F] else []) ++
      toUpper r :: camelToScreamingSnakeFrom (some r) rest

def camelToScreamingSnake (s : Bytes) : Bytes := camelToScreamingSnakeFrom none s

def endsWith (tail s : Bytes) : Bool := tail.isSuffixOf s

def singularPascal (s : Bytes) : Bytes :=
  if endsWith (text "ies") s && 3 < s.length then
    capitalized (s.take (s.length - 3) ++ text "y")
  else if endsWith (text "s") s && !endsWith (text "ss") s && 1 < s.length then
    capitalized s.dropLast
  else capitalized s

end Protowire.Sbe
