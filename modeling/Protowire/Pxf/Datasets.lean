import Protowire.Pxf.TolerantDocument

/-!
The datasets of a document: their rows have a cell for each column, and a document that holds one
holds nothing else.
-/

namespace Protowire.Pxf

open Support

variable {inner : Option Nested} {p q : Parser} {doc found : Document}

/-- Every row has a cell for each column. -/
def DatasetDirective.Rectangular (dataset : DatasetDirective) : Prop :=
  ∀ row ∈ dataset.rows, row.cells.length = dataset.columns.length

theorem parseTableRow_cells {expected : Nat} {readPast : Bool} {row : DatasetRow × Nat}
    (ran : parseTableRow inner expected readPast p = .ok row q) : row.1.cells.length = expected := by
  rw [parseTableRow, run_get] at ran
  obtain ⟨_, _, _, ran⟩ := bind_ok ran
  obtain ⟨_, _, _, ran⟩ := bind_ok ran
  obtain ⟨_, _, _, ran⟩ := bind_ok ran
  obtain ⟨cells, _, _, ran⟩ := bind_ok ran
  rw [closeRow, run_get] at ran
  split at ran
  · cases ran
  obtain ⟨_, _, _, ran⟩ := bind_ok ran
  obtain ⟨_, _, _, ran⟩ := bind_ok ran
  split at ran
  · cases ran
  · rename_i counted
    cases ran
    exact not_not.mp counted

theorem rowTurn_cells {expected : Nat} {read rows : List DatasetRow × Nat}
    {turned : Turn (List DatasetRow × Nat) (List DatasetRow × Nat)}
    (held : ∀ row ∈ read.1, row.cells.length = expected)
    (ran : rowTurn inner expected read p = .ok turned q)
    (out : turned = .next rows ∨ turned = .done rows) :
    ∀ row ∈ rows.1, row.cells.length = expected := by
  rw [rowTurn, run_get] at ran
  split at ran
  · obtain ⟨row, _, parsed, ran⟩ := bind_ok ran
    cases ran
    obtain ⟨⟨⟩⟩ | ⟨⟨⟩⟩ := out
    have counted := parseTableRow_cells parsed
    simpa [or_imp, forall_and] using ⟨held, counted⟩
  · cases ran
    obtain ⟨⟨⟩⟩ | ⟨⟨⟩⟩ := out
    exact held

theorem parseTableDirective_rectangular {dataset : DatasetDirective × Nat}
    (ran : parseTableDirective inner p = .ok dataset q) : dataset.1.Rectangular := by
  obtain ⟨_, _, _, ran⟩ := bind_ok ran
  rw [run_get] at ran
  obtain ⟨_, _, _, ran⟩ := bind_ok ran
  obtain ⟨header, _, read, ran⟩ := bind_ok ran
  obtain ⟨rows, _, filled, ran⟩ := bind_ok ran
  cases ran
  rw [parseTableRows, run_get] at filled
  obtain ⟨_, _, _, looped⟩ := bind_ok filled
  exact repeatWhile_leaves (fun read => ∀ row ∈ read.1, row.cells.length = header.2.length)
    (fun rows _ => ∀ row ∈ rows.1, row.cells.length = header.2.length)
    (fun _ _ _ _ held turned => rowTurn_cells held turned (.inl rfl))
    (fun _ _ _ _ held turned => rowTurn_cells held turned (.inr rfl)) (by simp) looped

theorem directiveTurn_rectangular {turned : Turn Document Document}
    (held : ∀ dataset ∈ doc.datasets, dataset.Rectangular)
    (ran : directiveTurn inner doc p = .ok turned q)
    (out : turned = .next found ∨ turned = .done found) :
    ∀ dataset ∈ found.datasets, dataset.Rectangular := by
  rw [directiveTurn, run_get] at ran
  cases kind : p.current.kind <;> rw [kind] at ran
  case atType =>
    obtain ⟨following, made, rfl⟩ := map_ok ran
    obtain ⟨⟨⟩⟩ | ⟨⟨⟩⟩ := out
    rw [(parseTypeDirective_ok made).2]
    exact held
  case atDataset =>
    obtain ⟨following, made, rfl⟩ := map_ok ran
    obtain ⟨⟨⟩⟩ | ⟨⟨⟩⟩ := out
    obtain rfl | ⟨dataset, _, parsed, rfl⟩ := recovering_ok made
    · exact held
    · have formed := parseTableDirective_rectangular parsed
      simpa [or_imp, forall_and] using ⟨held, formed⟩
  case atDirective | atProto =>
    obtain ⟨following, made, rfl⟩ := map_ok ran
    obtain ⟨⟨⟩⟩ | ⟨⟨⟩⟩ := out
    obtain rfl | ⟨_, _, _, rfl⟩ := recovering_ok made <;> exact held
  all_goals
    cases ran
    obtain ⟨⟨⟩⟩ | ⟨⟨⟩⟩ := out
    exact held

theorem softWhen_ok {condition : Bool} {pos : Position} {msg : Bytes} (mode : p.tolerant = false)
    (ran : softWhen condition pos msg p = .ok () q) : condition = false ∧ q = p := by
  cases condition with
  | true =>
    obtain ⟨_, _, failed⟩ := soft_fails mode pos msg
    cases ran.symm.trans failed
  | false =>
    cases ran
    exact ⟨rfl, rfl⟩

theorem parseDocument_datasets (ran : parseDocument p = .ok doc q) :
    (∀ dataset ∈ doc.datasets, dataset.Rectangular) ∧
      (p.tolerant = false → doc.datasets ≠ [] → doc.typeUrl = [] ∧ doc.entries = []) := by
  obtain ⟨leading, p', flushed, ran⟩ := bind_ok ran
  cases flushed
  rw [run_get] at ran
  obtain ⟨given, r, looped, ran⟩ := bind_ok ran
  have mode : r.tolerant = p.tolerant := by
    have kept : Stepwise (repeatWhile Parser.remaining (directiveTurn (parseNested p.maxDepth))
      { leadingComments := p.comments }) :=
        .loop (directiveTurn_stepwise (parseNested_stepwise _)) _
    have same := kept.keeps mode_order { p with comments := [] }
    rw [looped] at same
    exact same
  obtain ⟨_, r', checked, ran⟩ := bind_ok ran
  obtain ⟨entries, _, listed, ran⟩ := bind_ok ran
  obtain ⟨_, _, flushed, ran⟩ := bind_ok ran
  cases flushed
  cases ran
  have formed := repeatWhile_leaves (fun doc => ∀ dataset ∈ doc.datasets, dataset.Rectangular)
    (fun doc _ => ∀ dataset ∈ doc.datasets, dataset.Rectangular)
    (fun _ _ _ _ held turned => directiveTurn_rectangular held turned (.inl rfl))
    (fun _ _ _ _ held turned => directiveTurn_rectangular held turned (.inr rfl)) (by simp) looped
  refine ⟨formed, fun strict some_ => ?_⟩
  obtain ⟨first, later, datasets⟩ := List.exists_cons_of_ne_nil some_
  rw [strict] at mode
  simp only at datasets
  simp only [checkStandalone, datasets] at checked
  obtain ⟨_, s, untyped, alone⟩ := bind_ok checked
  obtain ⟨typed, rfl⟩ := softWhen_ok mode untyped
  rw [run_get] at alone
  obtain ⟨ended, rfl⟩ := softWhen_ok mode alone
  refine ⟨by simpa using typed, ?_⟩
  have stops : entryTurn (parseNested p.maxDepth) [] r' = .ok (.done []) r' := by
    rw [entryTurn, run_get, if_pos (by simpa using ended)]
    rfl
  rw [repeatWhile, iterateM, run_bind_ok stops] at listed
  cases listed
  rfl

/-- The datasets of a document are rectangular, also those a tolerant parser keeps. A document that
is accepted with a dataset in it names no type and has no entries. -/
theorem parse_datasets (input : Bytes) (opts : ParseOptions) :
    (∀ doc, parse input opts = .ok doc → (∀ dataset ∈ doc.datasets, dataset.Rectangular) ∧
      (doc.datasets ≠ [] → doc.typeUrl = [] ∧ doc.entries = [])) ∧
    ∀ dataset ∈ (parseTolerant input opts).document.datasets, dataset.Rectangular := by
  constructor
  · intro doc parsed
    rw [parse] at parsed
    split at parsed
    · cases parsed
    generalize ran : parseDocument _ = run at parsed
    cases run with
    | ok found q =>
      cases parsed
      obtain ⟨formed, alone⟩ := parseDocument_datasets ran
      exact ⟨formed, alone rfl⟩
    | error failure q => cases parsed
  · rw [parseTolerant]
    split
    · simp
    generalize ran : parseDocument _ = run
    cases run with
    | ok found q => exact (parseDocument_datasets ran).1
    | error failure q => simp [tolerantResult]

end Protowire.Pxf
