import Protowire.Pxf.Ast
import Protowire.Pxf.LexerCore

/-!
The formatter: values and entries as text, one entry a line, with a given step of indentation for
each level.
-/

namespace Protowire.Pxf

def isIdentifierSafeEntryName (s : Bytes) : Bool :=
  !(s.isEmpty || s = text "true" || s = text "false" || s = text "null") &&
    isIdentStart (peek s 0) && (s.drop 1).all isIdentPart

def isIdentifierSafe (s : Bytes) : Bool := isIdentifierSafeEntryName s

def lexesAsBareMapKey (s : Bytes) : Bool :=
  let first := Lexer.next { input := s }
  match first.1.kind with
  | .ident | .int | .bool => first.1.value = s && first.2.1.next.1.kind = .eof
  | _ => false

def mapKeyQuoted (key : Bytes) (keyQuoted : Bool) : Bool :=
  if keyQuoted then !isIdentifierSafe key else !lexesAsBareMapKey key

def spelled (quoted : Bool) (key : Bytes) : Bytes := if quoted then goQuote key else key

def writeIndent (indent : Bytes) (level : Nat) : Bytes := (List.replicate level indent).flatten

def writeComments (indent : Bytes) (level : Nat) (comments : List Comment) : Bytes :=
  comments.flatMap fun c => writeIndent indent level ++ c.text ++ [0x0A]

def formatNumber (raw prec : Bytes) : Bytes := if prec.isEmpty then raw else raw ++ 0x70 :: prec

def writeTrailing (trailing : Bytes) : Bytes :=
  (if trailing.isEmpty then [] else 0x20 :: trailing) ++ [0x0A]

mutual

def formatValue (indent : Bytes) (level : Nat) : Value → Bytes
  | .string _ value => goQuote value
  | .int _ raw prec | .float _ raw prec => formatNumber raw prec
  | .bool _ value => if value then text "true" else text "false"
  | .bytes _ value => text "b\"" ++ base64EncodeStd value ++ [0x22]
  | .null _ => text "null"
  | .ident _ name => name
  | .timestamp _ _ _ raw | .duration _ _ _ raw => raw
  | .list _ elements =>
    text "[\n" ++ formatElements indent (level + 1) elements ++ writeIndent indent level ++ [0x5D]
  | .block _ entries trailing =>
    text "\x7b\n" ++ formatEntries indent (level + 1) entries ++
      writeComments indent (level + 1) trailing ++ writeIndent indent level ++ [0x7D]
  -- A placeholder has no source text.
  | .bad _ => []

def formatElements (indent : Bytes) (level : Nat) : List Value → Bytes
  | [] => []
  | [value] => writeIndent indent level ++ formatValue indent level value ++ [0x0A]
  | value :: values =>
    writeIndent indent level ++ formatValue indent level value ++ text ",\n" ++
      formatElements indent level values

def formatEntry (indent : Bytes) (level : Nat) : Entry → Bytes
  | .assignment _ key keyQuoted value leading trailing =>
    writeComments indent level leading ++ writeIndent indent level ++ spelled keyQuoted key ++
      text " = " ++ formatValue indent level value ++ writeTrailing trailing
  | .mapEntry _ key keyQuoted value leading trailing =>
    writeComments indent level leading ++ writeIndent indent level ++
      spelled (mapKeyQuoted key keyQuoted) key ++ text ": " ++ formatValue indent level value ++
      writeTrailing trailing
  | .typeEntry _ url leading trailing =>
    writeComments indent level leading ++ writeIndent indent level ++ text "@type = " ++
      goQuote url ++ writeTrailing trailing
  | .block _ name nameQuoted entries leading trailing =>
    writeComments indent level leading ++ writeIndent indent level ++ spelled nameQuoted name ++
      text " \x7b\n" ++ formatEntries indent (level + 1) entries ++
      writeComments indent (level + 1) trailing ++ writeIndent indent level ++ text "\x7d\n"

def formatEntries (indent : Bytes) (level : Nat) : List Entry → Bytes
  | [] => []
  | entry :: entries => formatEntry indent level entry ++ formatEntries indent level entries

end

def appendValueIndented (value : Value) (indent : Bytes) : Bytes := formatValue indent 0 value

def appendEntryIndented (entry : Entry) (indent : Bytes) : Bytes := formatEntry indent 0 entry

def appendValue (value : Value) : Bytes := formatValue (text "  ") 0 value

def explicitKeyOf (entries : List Entry) (keyName : Bytes) : Option Bytes :=
  match entries.filter (fun
    | .assignment _ key _ _ _ _ => key = keyName
    | _ => false) with
  | [.assignment _ _ false (.string _ value) _ _] => some value
  | _ => none

end Protowire.Pxf
