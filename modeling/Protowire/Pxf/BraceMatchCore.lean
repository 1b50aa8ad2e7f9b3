import Protowire.Pxf.Token

/-!
The byte-level brace matcher that cuts a directive's body out of the source. It can stop where
the input ends and resume once more of it has arrived.
-/

namespace Protowire.Pxf

inductive BraceMode where
  | code
  | string
  | tripleString
  | bytes
  | lineComment
  | blockComment
deriving DecidableEq, Repr

inductive BraceState where
  | open
  | closed
  | failed
deriving DecidableEq, Repr

structure BraceMatch where
  depth : Nat := 1
  mode : BraceMode := .code
  esc : Bool := false
  run : Nat := 0
deriving DecidableEq, Repr

inductive BraceStep where
  | next (matcher : BraceMatch) (skip : Nat)
  | stop (state : BraceState) (matcher : BraceMatch)

def BraceMatch.codeStep (m : BraceMatch) (ch : UInt8) (rest : Bytes) : BraceStep :=
  if ch = 0x7B then .next { m with depth := m.depth + 1 } 0
  else if ch = 0x7D then
    if m.depth = 1 then .stop .closed { m with depth := 0 }
    else .next { m with depth := m.depth - 1 } 0
  else if ch = 0x22 then
    -- Whether it opens a triple-quoted string needs the next two bytes.
    match rest with
    | a :: b :: _ =>
      if a = 0x22 ∧ b = 0x22 then .next { m with mode := .tripleString } 2
      else .next { m with mode := .string } 0
    | _ => .stop .open m
  else if ch = 0x23 then .next { m with mode := .lineComment } 0
  else if ch = 0x62 ∨ ch = 0x2F then
    match rest with
    | next :: _ =>
      if ch = 0x62 ∧ next = 0x22 then .next { m with mode := .bytes } 1
      else if ch = 0x2F ∧ next = 0x2F then .next { m with mode := .lineComment } 1
      else if ch = 0x2F ∧ next = 0x2A then .next { m with mode := .blockComment } 1
      else .next m 0
    | [] => .stop .open m
  else .next m 0

def BraceMatch.step (m : BraceMatch) (ch : UInt8) (rest : Bytes) : BraceStep :=
  match m.mode with
  | .string =>
    if m.esc then .next { m with esc := false } 0
    else if ch = 0x5C then .next { m with esc := true } 0
    else if ch = 0x22 then .next { m with mode := .code } 0
    else if ch = 0x0A then .stop .failed m
    else .next m 0
  | .tripleString =>
    if ch ≠ 0x22 then .next { m with run := 0 } 0
    else if m.run + 1 = 3 then .next { m with mode := .code, run := 0 } 0
    else .next { m with run := m.run + 1 } 0
  | .bytes =>
    if ch = 0x22 then .next { m with mode := .code } 0
    else if ch = 0x0A then .stop .failed m
    else .next m 0
  | .lineComment => if ch = 0x0A then .next { m with mode := .code } 0 else .next m 0
  | .blockComment =>
    if ch = 0x2F ∧ m.run = 1 then .next { m with mode := .code, run := 0 } 0
    else .next { m with run := if ch = 0x2A then 1 else 0 } 0
  | .code => m.codeStep ch rest

def BraceMatch.scan (m : BraceMatch) (skip i : Nat) : Bytes → BraceState × Nat × BraceMatch
  | [] => (.open, i, m)
  | ch :: rest =>
    match skip with
    | skip + 1 => BraceMatch.scan m skip (i + 1) rest
    | 0 =>
      match m.step ch rest with
      | .next following skip => BraceMatch.scan following skip (i + 1) rest
      | .stop state following => (state, i, following)

def findMatchingBrace (input : Bytes) (openOffset : Nat) : Option Nat :=
  match BraceMatch.scan {} 0 (openOffset + 1) (input.drop (openOffset + 1)) with
  | (.closed, i, _) => some i
  | _ => none

end Protowire.Pxf
