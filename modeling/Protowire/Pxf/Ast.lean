import Protowire.Pxf.Token

/-!
The document a parse gives: entries and values with their spans and comments, and the
directives above them.
-/

namespace Protowire.Pxf

structure Comment where
  pos : Position
  text : Bytes
deriving DecidableEq, Repr

structure Span where
  pos : Position
  stop : Position
deriving DecidableEq, Repr

mutual

inductive Value where
  | string (span : Span) (value : Bytes)
  | int (span : Span) (raw prec : Bytes)
  | float (span : Span) (raw prec : Bytes)
  | bool (span : Span) (value : Bool)
  | bytes (span : Span) (value : Bytes)
  | null (span : Span)
  | ident (span : Span) (name : Bytes)
  | timestamp (span : Span) (seconds : Int) (nanos : Nat) (raw : Bytes)
  | duration (span : Span) (seconds nanos : Int) (raw : Bytes)
  | list (span : Span) (elements : List Value)
  | block (span : Span) (entries : List Entry) (trailingComments : List Comment)
  -- A value that was required but missing or malformed. Only a tolerant parse gives one.
  | bad (pos : Position)

inductive Entry where
  | assignment (span : Span) (key : Bytes) (keyQuoted : Bool) (value : Value)
      (leadingComments : List Comment) (trailingComment : Bytes)
  | mapEntry (span : Span) (key : Bytes) (keyQuoted : Bool) (value : Value)
      (leadingComments : List Comment) (trailingComment : Bytes)
  | block (span : Span) (name : Bytes) (nameQuoted : Bool) (entries : List Entry)
      (leadingComments trailingComments : List Comment)
  | typeEntry (span : Span) (url : Bytes) (leadingComments : List Comment)
      (trailingComment : Bytes)

end

/-- `ValueSpan`. -/
def Value.span : Value → Span
  | .string span _ | .int span _ _ | .float span _ _ | .bool span _ | .bytes span _ | .null span
  | .ident span _ | .timestamp span _ _ _ | .duration span _ _ _ | .list span _
  | .block span _ _ => span
  | .bad pos => ⟨pos, pos⟩

def Value.isBad : Value → Bool
  | .bad _ => true
  | _ => false

structure Directive where
  pos : Position
  name : Bytes
  prefixes : List Bytes
  type : Bytes
  body : Bytes
  hasBody : Bool
  leadingComments : List Comment

structure DatasetRow where
  pos : Position
  cells : List (Option Value)
  leadingComments : List Comment

structure DatasetDirective where
  pos : Position
  type : Bytes
  columns : List Bytes
  rows : List DatasetRow
  leadingComments : List Comment

inductive ProtoShape where
  | anonymous
  | named
  | source
  | descriptor
deriving DecidableEq, Repr

structure ProtoDirective where
  pos : Position
  shape : ProtoShape
  typeName : Bytes
  body : Bytes
  leadingComments : List Comment

structure Document where
  typeUrl : Bytes := []
  directives : List Directive := []
  datasets : List DatasetDirective := []
  protos : List ProtoDirective := []
  bodyOffset : Nat := 0
  entries : List Entry := []
  leadingComments : List Comment := []
  trailingComments : List Comment := []

end Protowire.Pxf
