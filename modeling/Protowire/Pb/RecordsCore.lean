import Protowire.Pb.WireCore

/-!
A message as a sequence of records. A big-number message, a struct and a map entry are read by
one loop, each with its own fields and its own words for a bad record.
-/

namespace Protowire.Wire

open Support

structure Wording where
  corruptTag : Bytes
  corruptField : Nat → Bytes

abbrev FieldReader (α : Type) := Nat → WireType → Bytes → α → Option (Except Bytes (α × Bytes))

def recordTurn {α : Type} (wording : Wording) (field : FieldReader α) (s : Bytes × α) :
    Turn (Bytes × α) (Except Bytes α) :=
  if s.1.isEmpty then .done (.ok s.2)
  else
    match consumeTag s.1 with
    | none => .done (.error wording.corruptTag)
    | some (num, type, data) =>
      match field num type data s.2 with
      | some (.error msg) => .done (.error msg)
      | some (.ok (out, rest)) => .next (rest, out)
      | none =>
        match consumeFieldValue data num type with
        | none => .done (.error (wording.corruptField num))
        | some rest => .next (rest, s.2)

def readRecords {α : Type} (wording : Wording) (field : FieldReader α) (data : Bytes) (out : α) :
    Except Bytes α :=
  loop (fun s => s.1.length) (recordTurn wording field) (fun s => .ok s.2) (data, out)

end Protowire.Wire
