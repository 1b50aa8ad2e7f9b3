import Protowire.Detail.Decimal
import Protowire.Pxf.RewriterCore
import Protowire.Support.Outcome

/-!
What staging does to a rewriter. An editor's edits do not depend on what is staged, so a call is
a list of edits under names of its own; the names decide which calls replace which, and the
offsets decide whether the order of two calls shows in the result.
-/

namespace Protowire.Pxf

open Support

variable {a b x y op key fieldPath : Bytes} {v : Value}

theorem split_unique {sep : UInt8} (absent : sep ∉ a) (absent' : sep ∉ b)
    (same : a ++ sep :: x = b ++ sep :: y) : a = b ∧ x = y := by
  induction a generalizing b with
  | nil =>
    cases b with
    | nil => exact ⟨rfl, (List.cons.inj same).2⟩
    | cons c b =>
      have head := (List.cons.inj same).1
      exact absurd (by simp [head]) absent'
  | cons c a ih =>
    cases b with
    | nil =>
      have head := (List.cons.inj same).1
      exact absurd (by simp [head]) absent
    | cons c' b =>
      obtain ⟨rfl, rest⟩ := List.cons.inj same
      obtain ⟨rfl, rfl⟩ := ih (fun member => absent (List.mem_cons_of_mem _ member))
        (fun member => absent' (List.mem_cons_of_mem _ member)) rest
      exact ⟨rfl, rfl⟩

def Suffix (suffix : Bytes) : Prop := suffix = [] ∨ ∃ rest, suffix = 0x00 :: rest

theorem suffix_unique (clean : 0x00 ∉ a) (clean' : 0x00 ∉ b) (suffix : Suffix x)
    (suffix' : Suffix y) (same : a ++ x = b ++ y) : a = b := by
  obtain rfl | ⟨x, rfl⟩ := suffix <;> obtain rfl | ⟨y, rfl⟩ := suffix'
  · simpa using same
  · rw [List.append_nil] at same
    exact absurd (by simp [same]) clean
  · rw [List.append_nil] at same
    exact absurd (by simp [← same]) clean'
  · exact (split_unique clean clean' same).1

theorem intercalate_unique {parts others : List Bytes} (count : parts.length = others.length)
    (clean : ∀ part ∈ parts, 0x00 ∉ part) (clean' : ∀ part ∈ others, 0x00 ∉ part)
    (suffix : Suffix x) (suffix' : Suffix y)
    (same : [0x00].intercalate parts ++ x = [0x00].intercalate others ++ y) : parts = others := by
  induction parts generalizing others with
  | nil => exact (List.length_eq_zero_iff.mp count.symm).symm
  | cons part parts ih =>
    cases others with
    | nil => simp at count
    | cons other others =>
      have here := clean part List.mem_cons_self
      have there := clean' other List.mem_cons_self
      have later := fun p member => clean p (List.mem_cons_of_mem _ member)
      have later' := fun p member => clean' p (List.mem_cons_of_mem _ member)
      cases parts with
      | nil =>
        obtain rfl := List.length_eq_zero_iff.mp (by simpa using count.symm)
        rw [suffix_unique here there suffix suffix' (by simpa using same)]
      | cons second parts =>
        cases others with
        | nil => simp at count
        | cons second' others =>
          have joined (a b : Bytes) (l : List Bytes) :
              [0x00].intercalate (a :: b :: l) = a ++ 0x00 :: [0x00].intercalate (b :: l) := by
            simp [List.intercalate]
          rw [joined, joined, List.append_assoc, List.append_assoc, List.cons_append,
            List.cons_append] at same
          obtain ⟨rfl, rest⟩ := split_unique here there same
          rw [ih (by simpa using count) later later' rest]

inductive Call where
  | set (path : Bytes) (v : Value)
  | remove (path : Bytes)
  | replaceValue (old with_ : Value)
  | setSpan (start stop : Int) (replacement : Bytes)
  | setKeyed (fieldPath key subpath : Bytes) (v : Value)
  | removeKeyed (fieldPath key subpath : Bytes)
  | removeKeyedElement (fieldPath key : Bytes)
  | insertKeyedElement (fieldPath key before : Bytes) (body : List Entry)
  | renameKeyedElement (fieldPath oldKey newKey : Bytes)
  | moveKeyedElement (fieldPath key before : Bytes)

def Rewriter.call (r : Rewriter) : Call → Except Bytes Rewriter
  | .set path v => r.set path v
  | .remove path => r.remove path
  | .replaceValue old with_ => r.replaceValue old with_
  | .setSpan start stop replacement => r.setSpan start stop replacement
  | .setKeyed fieldPath key subpath v => r.setKeyed fieldPath key subpath v
  | .removeKeyed fieldPath key subpath => r.removeKeyed fieldPath key subpath
  | .removeKeyedElement fieldPath key => r.removeKeyedElement fieldPath key
  | .insertKeyedElement fieldPath key before body => r.insertKeyedElement fieldPath key before body
  | .renameKeyedElement fieldPath oldKey newKey => r.renameKeyedElement fieldPath oldKey newKey
  | .moveKeyedElement fieldPath key before => r.moveKeyedElement fieldPath key before

def Source.planned (s : Source) : Call → Except Bytes (List SpanEdit)
  | .set path v => s.setEdits path v
  | .remove path => s.removeEdits path
  | .replaceValue old with_ => s.replaceValueEdits old with_
  | .setSpan start stop replacement => s.setSpanEdits start stop replacement
  | .setKeyed fieldPath key subpath v => s.setKeyedEdits fieldPath key subpath v
  | .removeKeyed fieldPath key subpath => s.removeKeyedEdits fieldPath key subpath
  | .removeKeyedElement fieldPath key => s.removeKeyedElementEdits fieldPath key
  | .insertKeyedElement fieldPath key before body => s.insertKeyedElementEdits fieldPath key before body
  | .renameKeyedElement fieldPath oldKey newKey => s.renameKeyedElementEdits fieldPath oldKey newKey
  | .moveKeyedElement fieldPath key before => s.moveKeyedElementEdits fieldPath key before

theorem Rewriter.call_eq (r : Rewriter) (c : Call) : r.call c = r.stage <$> r.planned c := by
  cases c <;> rfl

theorem Rewriter.call_ok {r r' : Rewriter} {c : Call} :
    r.call c = .ok r' ↔ ∃ edits, r.planned c = .ok edits ∧ r' = r.stage edits := by
  rw [call_eq]
  cases planned : r.planned c with
  | error problem => simp [Functor.map, Except.map]
  | ok edits => simp [Functor.map, Except.map, eq_comm]

inductive Editor where
  | set | rm | rmel | ins | ren | mv
deriving DecidableEq

def Editor.name : Editor → String
  | .set => "set"
  | .rm => "rm"
  | .rmel => "rmel"
  | .ins => "ins"
  | .ren => "ren"
  | .mv => "mv"

def Editor.arity : Editor → Nat
  | .set | .rm => 3
  | .rmel | .ins | .ren | .mv => 2

inductive Address where
  | path (path : Bytes)
  | span (start stop : Nat)
  | keyed (editor : Editor) (parts : List Bytes)

def Call.address : Call → Address
  | .set path _ | .remove path => .path path
  | .replaceValue old _ => .span old.span.pos.offset old.span.stop.offset
  | .setSpan start stop _ => .span start.toNat stop.toNat
  | .setKeyed fieldPath key subpath _ => .keyed .set [fieldPath, key, subpath]
  | .removeKeyed fieldPath key subpath => .keyed .rm [fieldPath, key, subpath]
  | .removeKeyedElement fieldPath key => .keyed .rmel [fieldPath, key]
  | .insertKeyedElement fieldPath key _ _ => .keyed .ins [fieldPath, key]
  | .renameKeyedElement fieldPath oldKey _ => .keyed .ren [fieldPath, oldKey]
  | .moveKeyedElement fieldPath key _ => .keyed .mv [fieldPath, key]

def Address.Names : Address → Bytes → Prop
  | .path dotted, name => name = dotted
  | .span start stop, name => name = Source.spanPath start stop
  | .keyed editor parts, name =>
    ∃ suffix, Suffix suffix ∧ name = Source.keyedPath editor.name parts ++ suffix

def Address.Clean : Address → Prop
  | .path dotted => 0x00 ∉ dotted
  | .span _ _ => True
  | .keyed editor parts => parts.length = editor.arity ∧ ∀ part ∈ parts, 0x00 ∉ part

theorem spanPath_unique {start stop start' stop' : Nat}
    (same : Source.spanPath start stop = Source.spanPath start' stop') :
    start = start' ∧ stop = stop' := by
  have colon (n : Nat) : 0x3A ∉ decimal n := by
    intro member
    have bound := (decimal_digit member).2
    exact absurd bound (by decide)
  have tail : decimal start ++ 0x3A :: decimal stop = decimal start' ++ 0x3A :: decimal stop' := by
    simp only [Source.spanPath, List.cons_append, List.append_assoc] at same
    exact List.append_cancel_left (List.cons.inj same).2
  obtain ⟨first, second⟩ := split_unique (colon _) (colon _) tail
  exact ⟨decimal_injective first, decimal_injective second⟩

theorem editor_unique {editor editor' : Editor}
    (same : text editor.name ++ text ":" ++ a = text editor'.name ++ text ":" ++ b) :
    editor = editor' ∧ a = b := by
  have named (editor : Editor) : 0x3A ∉ text editor.name := by cases editor <;> decide
  rw [List.append_assoc, List.append_assoc] at same
  obtain ⟨names, rest⟩ := split_unique (named editor) (named editor') same
  refine ⟨?_, rest⟩
  revert names
  cases editor <;> cases editor' <;> decide

theorem spanPath_head (start stop : Nat) :
    ∃ rest, Source.spanPath start stop = 0x00 :: 0x73 :: rest := ⟨_, rfl⟩

theorem keyedPath_head (editor : Editor) (parts : List Bytes) (suffix : Bytes) :
    ∃ rest, Source.keyedPath editor.name parts ++ suffix = 0x00 :: 0x6B :: rest := ⟨_, rfl⟩

theorem Address.names_head {c : Address} (clean : c.Clean) {name : Bytes} (named : c.Names name) :
    (∃ dotted, c = .path dotted ∧ name = dotted ∧ 0x00 ∉ name) ∨
      (∃ start stop rest, c = .span start stop ∧ name = Source.spanPath start stop ∧
        name = 0x00 :: 0x73 :: rest) ∨
      ∃ editor parts suffix rest, c = .keyed editor parts ∧ Suffix suffix ∧
        name = Source.keyedPath editor.name parts ++ suffix ∧ name = 0x00 :: 0x6B :: rest := by
  cases c with
  | path dotted =>
    cases (show name = dotted from named)
    exact .inl ⟨_, rfl, rfl, clean⟩
  | span start stop =>
    cases (show name = _ from named)
    obtain ⟨rest, head⟩ := spanPath_head start stop
    exact .inr (.inl ⟨start, stop, rest, rfl, rfl, head⟩)
  | keyed editor parts =>
    obtain ⟨suffix, ends, rfl⟩ := named
    obtain ⟨rest, head⟩ := keyedPath_head editor parts suffix
    exact .inr (.inr ⟨editor, parts, suffix, rest, rfl, ends, rfl, head⟩)

theorem Address.names_unique {c d : Address} (clean : c.Clean) (clean' : d.Clean) {name : Bytes}
    (named : c.Names name) (named' : d.Names name) : c = d := by
  obtain ⟨dotted, rfl, here, plain⟩ | ⟨start, stop, rest, rfl, here, head⟩ |
    ⟨editor, parts, suffix, rest, rfl, ends, here, head⟩ := names_head clean named <;>
  obtain ⟨dotted', rfl, there, plain'⟩ | ⟨start', stop', rest', rfl, there, head'⟩ |
    ⟨editor', parts', suffix', rest', rfl, ends', there, head'⟩ := names_head clean' named'
  · rw [← here, ← there]
  · simp [head'] at plain
  · simp [head'] at plain
  · simp [head] at plain'
  · obtain ⟨rfl, rfl⟩ := spanPath_unique (here.symm.trans there)
    rfl
  · simp [head] at head'
  · simp [head] at plain'
  · simp [head] at head'
  · have whole := here.symm.trans there
    simp only [Source.keyedPath, List.cons_append, List.append_assoc] at whole
    have inner := List.append_cancel_left (List.cons.inj whole).2
    rw [← List.append_assoc, ← List.append_assoc (text editor'.name)] at inner
    obtain ⟨rfl, joined⟩ := editor_unique inner
    rw [intercalate_unique (clean.1.trans clean'.1.symm) clean.2 clean'.2 ends ends' joined]

namespace Source

open Edit (paths)

variable {s : Source} {edits : List SpanEdit}

theorem paths_insertEdits {t : Target} (planned : s.insertEdits op key t v = .ok edits) :
    paths edits = [key] := by
  simp only [insertEdits] at planned
  split at planned
  · cases planned
  split at planned
  · cases planned
  split at planned
  · cases planned
    rfl
  split_ifs at planned <;> cases planned <;> rfl

theorem paths_setResolved {t : Target} (planned : s.setResolved op key t v = .ok edits) :
    paths edits = [key] := by
  rw [setResolved] at planned
  split at planned
  · exact paths_insertEdits planned
  · split at planned <;> cases planned
    rfl

theorem paths_setEdits {path : Bytes} (planned : s.setEdits path v = .ok edits) :
    paths edits = [path] := by
  rw [setEdits] at planned
  split at planned
  · cases planned
  · obtain ⟨t, -, staged⟩ := except_bind_ok planned
    exact paths_setResolved staged

theorem paths_removeEdits {path : Bytes} (planned : s.removeEdits path = .ok edits) :
    paths edits = [path] := by
  obtain ⟨t, -, staged⟩ := except_bind_ok planned
  split at staged <;> cases staged
  rfl

theorem paths_setSpanEdits {start stop : Int} {replacement : Bytes}
    (planned : s.setSpanEdits start stop replacement = .ok edits) :
    paths edits = [spanPath start.toNat stop.toNat] := by
  rw [setSpanEdits] at planned
  split at planned <;> cases planned
  rfl

theorem paths_replaceValueEdits {old with_ : Value}
    (planned : s.replaceValueEdits old with_ = .ok edits) :
    paths edits = [spanPath old.span.pos.offset old.span.stop.offset] := by
  rw [replaceValueEdits] at planned
  split at planned
  · cases planned
  split at planned
  · cases planned
  · exact paths_setSpanEdits planned

def spliceNames (key : Bytes) (comma : Bool) : List Bytes :=
  if comma then [key, key ++ 0x00 :: text "comma"] else [key]

theorem paths_spliceEdits (key : Bytes) (ins : Insertion) :
    paths (spliceEdits key ins) = spliceNames key ins.commaAt.isSome := by
  rw [spliceEdits]
  cases ins.commaAt <;> rfl

def removalNames (key : Bytes) (count : Nat) : List Bytes :=
  (List.range count).map fun i => key ++ 0x00 :: decimal i

theorem paths_listRemoval (key : Bytes) (spans : List ByteSpan) :
    paths (listRemoval key spans) = removalNames key spans.length := by
  rw [paths, listRemoval, List.map_map, removalNames, List.zipIdx_eq_zip_range', List.range_eq_range']
  rw [show (Edit.path ∘ fun span : ByteSpan × Nat =>
      (⟨key ++ 0x00 :: decimal span.2, span.1.start, span.1.stop, []⟩ : SpanEdit)) =
      (fun i => key ++ 0x00 :: decimal i) ∘ Prod.snd from rfl, ← List.map_map,
    List.map_snd_zip (by simp)]

theorem length_listElementRemovalSpans (s : Source) (lv : ListVal) (idx : Nat) (keep keep' : Bool) :
    (s.listElementRemovalSpans lv idx keep).length =
      (s.listElementRemovalSpans lv idx keep').length := by
  simp only [listElementRemovalSpans]
  split
  · rfl
  · simp

theorem paths_moveBlockElementEdits {elem : BlockElem} {anchor : Option BlockElem}
    (planned : s.moveBlockElementEdits op fieldPath elem anchor = .ok edits) :
    paths edits = [keyedPath "mv" [fieldPath, elem.key],
      keyedPath "mv" [fieldPath, elem.key] ++ 0x00 :: text "ins"] := by
  simp only [moveBlockElementEdits] at planned
  split at planned
  · split at planned
    · split at planned <;> cases planned
      rfl
    · cases planned
      rfl
  · split at planned <;> cases planned <;> rfl

def commaApart (s : Source) (lv : ListVal) : Bool :=
  !lv.elements.isEmpty && s.listMultiline lv &&
    (s.listElemComma lv (lv.elements.length - 1)).isNone &&
    (s.trailingComment (elemSpan lv (lv.elements.length - 1)).stop.offset).comment.isSome

theorem commaAt_append (s : Source) (b : KeyedBinding) (lv : ListVal) (elemText comment : Bytes) :
    (s.spliceListElementAppend b lv elemText comment).commaAt.isSome = s.commaApart lv := by
  simp only [spliceListElementAppend, commaApart]
  cases lv.elements.isEmpty with
  | true => rfl
  | false =>
    cases s.listMultiline lv with
    | false =>
      simp only [Bool.false_eq_true, if_false, Bool.not_false, if_true, Bool.true_and,
        Bool.false_and]
      split <;> rfl
    | true =>
      simp only [Bool.false_eq_true, if_false, Bool.not_true, Bool.not_false, Bool.true_and]
      cases s.listElemComma lv (lv.elements.length - 1) with
      | some comma => rfl
      | none =>
        simp only [Option.isNone_none, Bool.true_and, Option.isSome_map]
        cases (s.trailingComment (elemSpan lv (lv.elements.length - 1)).stop.offset).comment <;>
          rfl

theorem commaAt_before (s : Source) (b : KeyedBinding) (lv : ListVal) (idx : Nat)
    (elemText comment : Bytes) :
    (s.spliceListElementBefore b lv idx elemText comment).commaAt = none := by
  simp only [spliceListElementBefore]
  split <;> rfl

theorem paths_moveListElementEdits (s : Source) (fieldPath : Bytes) (elem : ListElem)
    (anchor : Option ListElem) (moves : inPlace elem anchor = false) :
    paths (s.moveListElementEdits fieldPath elem anchor) =
      removalNames (keyedPath "mv" [fieldPath, elem.key])
          (s.listElementRemovalSpans elem.list elem.idx false).length ++
        spliceNames (keyedPath "mv" [fieldPath, elem.key] ++ 0x00 :: text "ins")
          (anchor.isNone && s.commaApart elem.list) := by
  simp only [moveListElementEdits, moves, Bool.false_eq_true, if_false]
  rw [paths, List.map_append]
  refine congrArg₂ _ ?_ ?_
  · exact (paths_listRemoval _ _).trans
      (by rw [length_listElementRemovalSpans s elem.list elem.idx _ false])
  · refine (paths_spliceEdits _ _).trans (congrArg _ ?_)
    cases anchor with
    | none => simp only [commaAt_append, Option.isNone_none, Bool.true_and]
    | some anchor => simp only [commaAt_before, Option.isNone_some, Bool.false_and, Option.isSome_none]

def Tags (key : Bytes) (names : List Bytes) : Prop :=
  names.Nodup ∧ ∀ name ∈ names, ∃ suffix, Suffix suffix ∧ name = key ++ suffix

theorem tags_one (key : Bytes) : Tags key [key] :=
  ⟨by simp, fun name member => ⟨[], .inl rfl, by simpa using member⟩⟩

theorem tags_spliceNames (key : Bytes) (comma : Bool) : Tags key (spliceNames key comma) := by
  cases comma with
  | false => exact tags_one key
  | true =>
    refine ⟨by simp [spliceNames], fun name member => ?_⟩
    simp only [spliceNames, if_true, List.mem_cons, List.not_mem_nil, or_false] at member
    obtain rfl | rfl := member
    · exact ⟨[], .inl rfl, by simp⟩
    · exact ⟨_, .inr ⟨_, rfl⟩, rfl⟩

theorem nodup_removalNames (key : Bytes) (count : Nat) : (removalNames key count).Nodup := by
  refine List.Nodup.map ?_ List.nodup_range
  intro i j same
  exact decimal_injective (List.cons.inj (List.append_cancel_left same)).2

theorem tags_removalNames (key : Bytes) (count : Nat) : Tags key (removalNames key count) := by
  refine ⟨nodup_removalNames key count, fun name member => ?_⟩
  obtain ⟨i, -, rfl⟩ := List.mem_map.mp member
  exact ⟨_, .inr ⟨_, rfl⟩, rfl⟩

theorem decimal_ne_ins (i : Nat) (rest : Bytes) : decimal i ≠ text "ins" ++ rest := by
  intro same
  have member : (0x69 : UInt8) ∈ decimal i := by
    rw [same]
    exact List.mem_append_left _ (by decide)
  exact absurd (decimal_digit member).2 (by decide)

theorem tags_moveNames (key : Bytes) (count : Nat) (comma : Bool) :
    Tags key (removalNames key count ++ spliceNames (key ++ 0x00 :: text "ins") comma) := by
  have splice := tags_spliceNames (key ++ 0x00 :: text "ins") comma
  refine ⟨List.Nodup.append (nodup_removalNames key count) splice.1 ?_, fun name member => ?_⟩
  · intro name removal spliced
    obtain ⟨i, -, rfl⟩ := List.mem_map.mp removal
    obtain ⟨suffix, -, same⟩ := splice.2 _ spliced
    rw [List.append_assoc, List.cons_append] at same
    exact decimal_ne_ins i suffix (List.cons.inj (List.append_cancel_left same)).2
  · obtain removal | spliced := List.mem_append.mp member
    · exact (tags_removalNames key count).2 name removal
    · obtain ⟨suffix, -, rfl⟩ := splice.2 name spliced
      exact ⟨0x00 :: (text "ins" ++ suffix), .inr ⟨_, rfl⟩, by simp⟩

theorem tags_setKeyedEdits {subpath : Bytes}
    (planned : s.setKeyedEdits fieldPath key subpath v = .ok edits) :
    Tags (keyedPath "set" [fieldPath, key, subpath]) (paths edits) := by
  simp only [setKeyedEdits] at planned
  split at planned
  · cases planned
  split at planned
  · cases planned
  obtain ⟨bs, -, planned⟩ := except_bind_ok planned
  split at planned
  · obtain ⟨chain, -, planned⟩ := except_bind_ok planned
    cases planned
    rw [paths_spliceEdits]
    exact tags_spliceNames _ _
  · obtain ⟨t, -, planned⟩ := except_bind_ok planned
    rw [paths_setResolved planned]
    exact tags_one _

theorem tags_removeKeyedEdits {subpath : Bytes}
    (planned : s.removeKeyedEdits fieldPath key subpath = .ok edits) :
    Tags (keyedPath "rm" [fieldPath, key, subpath]) (paths edits) := by
  obtain ⟨bs, -, planned⟩ := except_bind_ok planned
  split at planned
  · cases planned
  · obtain ⟨t, -, planned⟩ := except_bind_ok planned
    split at planned <;> cases planned
    exact tags_one _

theorem tags_removeKeyedElementEdits (planned : s.removeKeyedElementEdits fieldPath key = .ok edits) :
    Tags (keyedPath "rmel" [fieldPath, key]) (paths edits) := by
  obtain ⟨bs, -, planned⟩ := except_bind_ok planned
  split at planned <;> cases planned
  · rw [paths_listRemoval]
    exact tags_removalNames _ _
  · exact tags_one _

theorem tags_insertKeyedElementEdits {before : Bytes} {body : List Entry}
    (planned : s.insertKeyedElementEdits fieldPath key before body = .ok edits) :
    Tags (keyedPath "ins" [fieldPath, key]) (paths edits) := by
  simp only [insertKeyedElementEdits] at planned
  split at planned
  · cases planned
  split at planned
  · cases planned
  obtain ⟨bs, -, planned⟩ := except_bind_ok planned
  split at planned
  · cases planned
  split at planned
  · cases planned
    rw [paths_spliceEdits]
    exact tags_spliceNames _ _
  split at planned <;> cases planned <;> rw [paths_spliceEdits] <;> exact tags_spliceNames _ _

theorem tags_renameKeyedElementEdits {oldKey newKey : Bytes}
    (planned : s.renameKeyedElementEdits fieldPath oldKey newKey = .ok edits) :
    Tags (keyedPath "ren" [fieldPath, oldKey]) (paths edits) := by
  simp only [renameKeyedElementEdits] at planned
  split at planned
  · cases planned
  split at planned
  · cases planned
    exact ⟨List.nodup_nil, by simp [paths]⟩
  obtain ⟨bs, -, planned⟩ := except_bind_ok planned
  split at planned
  · cases planned
  split at planned
  · cases planned
  split at planned <;> split at planned <;> cases planned <;> exact tags_one _

theorem tags_moveListElementEdits (s : Source) (fieldPath : Bytes) (elem : ListElem)
    (anchor : Option ListElem) :
    Tags (keyedPath "mv" [fieldPath, elem.key])
      (paths (s.moveListElementEdits fieldPath elem anchor)) := by
  cases stays : inPlace elem anchor with
  | true =>
    rw [moveListElementEdits, stays, if_pos rfl]
    exact ⟨List.nodup_nil, by simp [paths]⟩
  | false =>
    rw [paths_moveListElementEdits s fieldPath elem anchor stays]
    exact tags_moveNames _ _ _

theorem tags_moveBlockElementEdits {elem : BlockElem} {anchor : Option BlockElem}
    (planned : s.moveBlockElementEdits op fieldPath elem anchor = .ok edits) :
    Tags (keyedPath "mv" [fieldPath, elem.key]) (paths edits) := by
  rw [paths_moveBlockElementEdits planned]
  refine ⟨by simp, fun name member => ?_⟩
  simp only [List.mem_cons, List.not_mem_nil, or_false] at member
  obtain rfl | rfl := member
  · exact ⟨[], .inl rfl, by simp⟩
  · exact ⟨_, .inr ⟨_, rfl⟩, rfl⟩

end Source

theorem findKeyedElem_key {bs : List KeyedBinding} {elem : Rewriter.KeyedElem}
    (found : findKeyedElem bs key = some elem) : elem.key = key := by
  have holds := List.find?_some found
  simpa using holds

theorem Source.moveKeyedElementEdits_ok {s : Source} {before : Bytes} {edits : List SpanEdit}
    (planned : s.moveKeyedElementEdits fieldPath key before = .ok edits) :
    ∃ op bs, s.keyedBindings op fieldPath = .ok bs ∧
      ((∃ elem anchor, findKeyedElem bs key = some (.anon elem) ∧
        (before = [] ∧ anchor = none ∨
          ∃ a, before ≠ [] ∧ findKeyedElem bs before = some (.anon a) ∧ anchor = some a) ∧
        edits = s.moveListElementEdits fieldPath elem anchor) ∨
      ∃ elem anchor, findKeyedElem bs key = some (.block elem) ∧
        (before = [] ∧ anchor = none ∨
          ∃ a, before ≠ [] ∧ findKeyedElem bs before = some (.block a) ∧ anchor = some a) ∧
        s.moveBlockElementEdits op fieldPath elem anchor = .ok edits) := by
  simp only [moveKeyedElementEdits] at planned
  split at planned
  · cases planned
  obtain ⟨bs, bound, planned⟩ := except_bind_ok planned
  refine ⟨_, bs, bound, ?_⟩
  cases found : findKeyedElem bs key with
  | none =>
    rw [found] at planned
    cases planned
  | some elem =>
    rw [found] at planned
    obtain ⟨anchor, anchored, planned⟩ := except_bind_ok planned
    have place : (before = [] ∧ anchor = none) ∨
        ∃ a, before ≠ [] ∧ findKeyedElem bs before = some a ∧ anchor = some a := by
      rw [moveAnchor] at anchored
      split at anchored
      · rename_i empty
        cases anchored
        exact .inl ⟨by simpa using empty, rfl⟩
      · rename_i some_
        split at anchored <;> cases anchored
        rename_i a foundAnchor
        exact .inr ⟨a, by simpa using some_, foundAnchor, rfl⟩
    cases elem with
    | anon elem =>
      obtain ⟨empty, rfl⟩ | ⟨a, some_, foundAnchor, rfl⟩ := place
      · cases planned
        exact .inl ⟨elem, none, rfl, .inl ⟨empty, rfl⟩, rfl⟩
      · cases a with
        | anon a =>
          cases planned
          exact .inl ⟨elem, some a, rfl, .inr ⟨a, some_, foundAnchor, rfl⟩, rfl⟩
        | block a => cases planned
    | block elem =>
      obtain ⟨empty, rfl⟩ | ⟨a, some_, foundAnchor, rfl⟩ := place
      · exact .inr ⟨elem, none, rfl, .inl ⟨empty, rfl⟩, planned⟩
      · cases a with
        | block a => exact .inr ⟨elem, some a, rfl, .inr ⟨a, some_, foundAnchor, rfl⟩, planned⟩
        | anon a => cases planned

theorem Source.planned_names {s : Source} {c : Call} {edits : List SpanEdit}
    (planned : s.planned c = .ok edits) :
    (Edit.paths edits).Nodup ∧ ∀ name ∈ Edit.paths edits, c.address.Names name := by
  have single {key : Bytes} (only : Edit.paths edits = [key]) (named : c.address.Names key) :
      (Edit.paths edits).Nodup ∧ ∀ name ∈ Edit.paths edits, c.address.Names name := by
    rw [only]
    exact ⟨by simp, fun name member => by rwa [List.mem_singleton.mp member]⟩
  cases c with
  | set path v => exact single (paths_setEdits planned) rfl
  | remove path => exact single (paths_removeEdits planned) rfl
  | replaceValue old with_ => exact single (paths_replaceValueEdits planned) rfl
  | setSpan start stop replacement => exact single (paths_setSpanEdits planned) rfl
  | setKeyed fieldPath key subpath v => exact tags_setKeyedEdits planned
  | removeKeyed fieldPath key subpath => exact tags_removeKeyedEdits planned
  | removeKeyedElement fieldPath key => exact tags_removeKeyedElementEdits planned
  | insertKeyedElement fieldPath key before body => exact tags_insertKeyedElementEdits planned
  | renameKeyedElement fieldPath oldKey newKey => exact tags_renameKeyedElementEdits planned
  | moveKeyedElement fieldPath key before =>
    obtain ⟨op, bs, -, ⟨elem, anchor, found, -, rfl⟩ | ⟨elem, anchor, found, -, moved⟩⟩ :=
      moveKeyedElementEdits_ok planned
    · have tags := tags_moveListElementEdits s fieldPath elem anchor
      rwa [show elem.key = key from findKeyedElem_key found] at tags
    · have tags := tags_moveBlockElementEdits moved
      rwa [show elem.key = key from findKeyedElem_key found] at tags

end Protowire.Pxf
