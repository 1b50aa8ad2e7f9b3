import Protowire.Detail.BytesCore

/-!
Tokens, positions and errors, shared by the lexer and every reader of its tokens.
-/

namespace Protowire.Pxf

inductive TokenKind where
  | eof
  | illegal
  | newline
  | comment
  | ident
  | string
  | int
  | float
  | bool
  | null
  | bytes
  | timestamp
  | duration
  | lBrace
  | rBrace
  | lBracket
  | rBracket
  | lParen
  | rParen
  | equals
  | colon
  | comma
  | atType
  | atDirective
  | atDataset
  | atProto
deriving DecidableEq, Repr

def tokenKindName : TokenKind → Bytes
  | .eof => text "EOF"
  | .illegal => text "ILLEGAL"
  | .newline => text "newline"
  | .comment => text "comment"
  | .ident => text "identifier"
  | .string => text "string"
  | .int => text "integer"
  | .float => text "float"
  | .bool => text "bool"
  | .null => text "null"
  | .bytes => text "bytes"
  | .timestamp => text "timestamp"
  | .duration => text "duration"
  | .lBrace => text "\x7b"
  | .rBrace => text "\x7d"
  | .lBracket => text "["
  | .rBracket => text "]"
  | .equals => text "="
  | .colon => text ":"
  | .comma => text ","
  | .lParen => text "("
  | .rParen => text ")"
  | .atType => text "@type"
  | .atDataset => text "@dataset"
  | .atProto => text "@proto"
  | .atDirective => text "@directive"

structure Position where
  line : Nat := 1
  column : Nat := 1
  offset : Nat := 0
deriving DecidableEq, Repr

def Position.after (here : Position) : Bytes → Position
  | [] => here
  | c :: rest =>
    if c = 0x0A then Position.after ⟨here.line + 1, 1, here.offset + 1⟩ rest
    else Position.after ⟨here.line, here.column + 1, here.offset + 1⟩ rest

structure Error where
  pos : Position
  msg : Bytes
deriving DecidableEq, Repr

structure Token where
  kind : TokenKind := .eof
  value : Bytes := []
  pos : Position := {}
  prec : Bytes := []
deriving DecidableEq, Repr

structure Status where
  line : Nat
  column : Nat
  message : Bytes
deriving DecidableEq, Repr

instance : Inhabited Status := ⟨⟨0, 0, []⟩⟩

def maxNestingDepth : Nat := 100

def maxMessageSize : Nat := 64 * 2 ^ 20

def maxNumericLiteralDigits : Nat := 4096

def maxBigFloatExponent : Nat := 16384

def maxBytesLiteralLength : Nat := maxMessageSize

def maxRepeatedCount : Nat := maxMessageSize

end Protowire.Pxf
