import Mathlib.Data.Fintype.Card
import Mathlib.Data.List.Lex
import Mathlib.Data.Prod.Lex
import Mathlib.Logic.Relation
import Protowire.Pxf.Violations
import Protowire.Support.Ordered

/-!
Bind-time checks of a schema, over a file and everything it imports. The walk reports a file when it
first comes to it, so the order of the reports follows the imports. Sorting by file and element hides
that order again, because only reports about the same file can tie.
-/

namespace Protowire.Pxf

open Support

structure Violation extends Finding where
  file : Bytes
deriving DecidableEq

/-- The files of a pool, which holds one for each path. `linked` is the `descriptor.proto` that comes
with the library and may stand beside a file of the schema's own at its path. -/
structure SchemaFiles (n : Nat) where
  pool : Pool
  file : Fin n → SchemaFile
  linked : Option (Fin n)
  distinct : ∀ f g, linked ≠ some f → linked ≠ some g → (file f).name = (file g).name → f = g

structure Imports {n : Nat} (files : SchemaFiles n) where
  dependencies : Fin n → List (Option (Fin n))
  leaf : ∀ f, files.linked = some f → dependencies f = []

structure ClosureWalk (n : Nat) where
  seen : List (Fin n)
  out : List Violation

def Violation.less (a b : Violation) : Prop :=
  if a.file ≠ b.file then a.file.map UInt8.toNat < b.file.map UInt8.toNat
  else a.element.map UInt8.toNat < b.element.map UInt8.toNat

instance : DecidableRel Violation.less :=
  fun a b => inferInstanceAs (Decidable (if a.file ≠ b.file then _ else _))

namespace Imports

variable {n : Nat} {files : SchemaFiles n} (imports : Imports files)

def importsProtowire (f : Fin n) : Bool :=
  (imports.dependencies f).any fun dep => dep.any fun g =>
    let name := (files.file g).name
    name = text pxfFile || name = text sbeFile || name = text schemaFile ||
      name = text "protowire/schema/v1/annotations.proto"

def violations (f : Fin n) : List Violation :=
  (fileViolations files.pool (files.file f) (imports.importsProtowire f)).map fun finding =>
    { finding with file := (files.file f).name }

def walk : Nat → ClosureWalk n → Option (Fin n) → ClosureWalk n
  | _, w, none => w
  | 0, w, some _ => w
  | depth + 1, w, some fd =>
    if files.linked = some fd then w
    else if fd ∈ w.seen then w
    else (imports.dependencies fd).foldl (walk depth)
      ⟨w.seen ++ [fd], w.out ++ imports.violations fd⟩

def validateFile : Option (Fin n) → List Violation
  | none => []
  | some fd => (imports.walk n ⟨[], []⟩ (some fd)).out.insertionSort fun a b => ¬ b.less a

def Uses (f g : Fin n) : Prop := some g ∈ imports.dependencies f

def InClosure (root f : Fin n) : Prop :=
  files.linked ≠ some f ∧ Relation.ReflTransGen imports.Uses root f

def UsesProtowire (f : Fin n) : Prop :=
  ∃ g, imports.Uses f g ∧ (files.file g).name ∈
    [text pxfFile, text sbeFile, text schemaFile, text "protowire/schema/v1/annotations.proto"]

/-- What is to be reported about a file. -/
noncomputable def due (f : Fin n) : List Violation :=
  ((files.file f).rules files.pool (imports.UsesProtowire f)).map fun finding =>
    { finding with file := (files.file f).name }

structure Walked (targets : List (Option (Fin n))) (w w' : ClosureWalk n) (added : List (Fin n)) :
    Prop where
  seen : w'.seen = w.seen ++ added
  out : w'.out = w.out ++ added.flatMap imports.violations
  once : w'.seen.Nodup
  reached : ∀ f ∈ added, ∃ t, some t ∈ targets ∧ imports.InClosure t f
  closed : ∀ f ∈ added, ∀ g, imports.Uses f g → files.linked = some g ∨ g ∈ w'.seen
  visited : ∀ t, some t ∈ targets → files.linked = some t ∨ t ∈ w'.seen

variable {imports} {targets : List (Option (Fin n))} {w w' w'' : ClosureWalk n}
  {added later : List (Fin n)}

theorem Walked.refl (once : w.seen.Nodup)
    (visited : ∀ t, some t ∈ targets → files.linked = some t ∨ t ∈ w.seen) :
    imports.Walked targets w w [] where
  seen := (List.append_nil _).symm
  out := (List.append_nil _).symm
  once := once
  reached := by simp
  closed := by simp
  visited := visited

theorem Walked.stay {fd : Fin n} (once : w.seen.Nodup)
    (known : files.linked = some fd ∨ fd ∈ w.seen) : imports.Walked [some fd] w w [] := by
  refine .refl once ?_
  intro t member
  obtain rfl : t = fd := by simpa using member
  exact known

theorem Walked.trans {target : Option (Fin n)} (first : imports.Walked [target] w w' added)
    (second : imports.Walked targets w' w'' later) :
    imports.Walked (target :: targets) w w'' (added ++ later) where
  seen := by rw [second.seen, first.seen, List.append_assoc]
  out := by rw [second.out, first.out, List.flatMap_append, List.append_assoc]
  once := second.once
  reached := by
    intro f member
    obtain early | late := List.mem_append.mp member
    · obtain ⟨t, here, reach⟩ := first.reached f early
      exact ⟨t, List.mem_cons.mpr (.inl (List.mem_singleton.mp here)), reach⟩
    · obtain ⟨t, here, reach⟩ := second.reached f late
      exact ⟨t, List.mem_cons_of_mem _ here, reach⟩
  closed := by
    intro f member g uses
    obtain early | late := List.mem_append.mp member
    · refine (first.closed f early g uses).imp_right fun found => ?_
      rw [second.seen]
      exact List.mem_append_left _ found
    · exact second.closed f late g uses
  visited := by
    intro t member
    obtain here | there := List.mem_cons.mp member
    · refine (first.visited t (List.mem_singleton.mpr here)).imp_right fun found => ?_
      rw [second.seen]
      exact List.mem_append_left _ found
    · exact second.visited t there

theorem Walked.enter {fd : Fin n} (unlinked : files.linked ≠ some fd)
    (below : imports.Walked (imports.dependencies fd)
      ⟨w.seen ++ [fd], w.out ++ imports.violations fd⟩ w' added) :
    imports.Walked [some fd] w w' (fd :: added) where
  seen := by rw [below.seen, List.append_assoc, List.singleton_append]
  out := by rw [below.out, List.append_assoc, List.flatMap_cons]
  once := below.once
  reached := by
    intro f member
    refine ⟨fd, List.mem_singleton_self _, ?_⟩
    obtain rfl | further := List.mem_cons.mp member
    · exact ⟨unlinked, .refl⟩
    · obtain ⟨t, uses, free, reach⟩ := below.reached f further
      exact ⟨free, .head uses reach⟩
  closed := by
    intro f member g uses
    obtain rfl | further := List.mem_cons.mp member
    · exact below.visited g uses
    · exact below.closed f further g uses
  visited := by
    intro t member
    obtain rfl : t = fd := by simpa using member
    refine .inr ?_
    rw [below.seen]
    simp

theorem walk_foldl {depth : Nat}
    (step : ∀ w target, w.seen.Nodup → n ≤ depth + w.seen.length →
      ∃ added, imports.Walked [target] w (imports.walk depth w target) added)
    (once : w.seen.Nodup) (deep : n ≤ depth + w.seen.length) :
    ∃ added, imports.Walked targets w (targets.foldl (imports.walk depth) w) added := by
  induction targets generalizing w with
  | nil => exact ⟨[], .refl once (by simp)⟩
  | cons target targets ih =>
    obtain ⟨added, first⟩ := step w target once deep
    obtain ⟨later, rest⟩ := ih first.once (by rw [first.seen, List.length_append]; omega)
    exact ⟨added ++ later, first.trans rest⟩

theorem walk_walked (imports : Imports files) (depth : Nat) (w : ClosureWalk n) (target : Option (Fin n))
    (once : w.seen.Nodup) (deep : n ≤ depth + w.seen.length) :
    ∃ added, imports.Walked [target] w (imports.walk depth w target) added := by
  induction depth generalizing w target with
  | zero =>
    cases target with
    | none => exact ⟨[], .refl once (by simp)⟩
    | some fd =>
      -- All files have been seen, so this one has.
      have all : w.seen.toFinset = Finset.univ := by
        apply Finset.eq_univ_of_card
        rw [List.toFinset_card_of_nodup once, Fintype.card_fin]
        have most := once.length_le_card
        rw [Fintype.card_fin] at most
        omega
      exact ⟨[], .stay once (.inr (List.mem_toFinset.mp (all ▸ Finset.mem_univ fd)))⟩
  | succ depth ih =>
    cases target with
    | none => exact ⟨[], .refl once (by simp)⟩
    | some fd =>
      rw [walk]
      split
      · next linked => exact ⟨[], .stay once (.inl linked)⟩
      · next unlinked =>
          split
          · next found => exact ⟨[], .stay once (.inr found)⟩
          · next fresh =>
              have once' : (w.seen ++ [fd]).Nodup := by
                rw [← List.concat_eq_append]
                exact once.concat fresh
              have deep' : n ≤ depth + (w.seen ++ [fd]).length := by
                rw [List.length_append, List.length_singleton]
                omega
              obtain ⟨added, below⟩ := walk_foldl ih (w := ⟨_, _⟩) once' deep'
              exact ⟨fd :: added, .enter unlinked below⟩

theorem walk_closure (imports : Imports files) (root : Fin n) :
    ∃ closure : List (Fin n), closure.Nodup ∧ (∀ f, f ∈ closure ↔ imports.InClosure root f) ∧
      (imports.walk n ⟨[], []⟩ (some root)).out = closure.flatMap imports.violations := by
  obtain ⟨closure, walked⟩ := imports.walk_walked n ⟨[], []⟩ (some root) List.nodup_nil (by simp)
  have seen : (imports.walk n ⟨[], []⟩ (some root)).seen = closure := walked.seen
  refine ⟨closure, seen ▸ walked.once, fun f => ⟨fun member => ?_, fun inside => ?_⟩, walked.out⟩
  · obtain ⟨t, here, inside⟩ := walked.reached f member
    obtain rfl : t = root := by simpa using here
    exact inside
  · -- Along the imports everything is seen, up to the linked file, which imports nothing.
    have all : files.linked = some f ∨ f ∈ closure := by
      refine Relation.ReflTransGen.rec ?_ ?_ inside.2
      · exact seen ▸ walked.visited root (List.mem_singleton_self _)
      · intro g h _ uses known
        obtain linked | member := known
        · rw [Uses, imports.leaf g linked] at uses
          cases uses
        · exact seen ▸ walked.closed g member h uses
    exact all.resolve_left inside.1

end Imports

def Violation.key (v : Violation) : List Nat ×ₗ List Nat :=
  toLex (v.file.map UInt8.toNat, v.element.map UInt8.toNat)

theorem codes_inj {a b : Bytes} : a.map UInt8.toNat = b.map UInt8.toNat ↔ a = b :=
  (List.map_injective_iff.mpr fun _ _ => UInt8.toNat.inj).eq_iff

theorem Violation.not_less_iff (a b : Violation) : ¬ b.less a ↔ Below Violation.key a b := by
  rw [Below, ← not_lt, not_iff_not, less, key, key, Prod.Lex.toLex_lt_toLex]
  by_cases same : b.file = a.file
  · simp [same]
  · have apart : b.file.map UInt8.toNat ≠ a.file.map UInt8.toNat := fun eq => same (codes_inj.mp eq)
    simp [same, apart]

namespace Imports

variable {n : Nat} {files : SchemaFiles n} {imports other : Imports files}

theorem validateFile_eq (imports : Imports files) (root : Fin n) :
    imports.validateFile (some root) =
      (imports.walk n ⟨[], []⟩ (some root)).out.insertionSort (Below Violation.key) := by
  rw [validateFile]
  congr
  funext a b
  exact propext (Violation.not_less_iff a b)

theorem file_of_mem {f : Fin n} {v : Violation} (member : v ∈ imports.violations f) :
    v.file = (files.file f).name := by
  obtain ⟨_, _, rfl⟩ := List.mem_map.mp member
  rfl

theorem alike_flatMap_perm {closure reached : List (Fin n)} (perm : closure.Perm reached)
    (free : ∀ f ∈ closure, files.linked ≠ some f) (k : List Nat ×ₗ List Nat) :
    alike Violation.key k (closure.flatMap imports.violations) =
      alike Violation.key k (reached.flatMap imports.violations) := by
  induction perm with
  | nil => rfl
  | cons f _ ih =>
    rw [List.flatMap_cons, List.flatMap_cons, alike_append, alike_append,
      ih fun g member => free g (.tail _ member)]
  | swap f g rest =>
    -- Two files have different paths, so no report of one ties with one of the other.
    have swapped : alike Violation.key k (imports.violations g ++ imports.violations f) =
        alike Violation.key k (imports.violations f ++ imports.violations g) := by
      by_cases same : g = f
      · rw [same]
      · refine alike_append_comm (fun a here b there equal => same ?_) k
        refine files.distinct g f (free g (.head _)) (free f (.tail _ (.head _))) ?_
        rw [← file_of_mem here, ← file_of_mem there]
        exact codes_inj.mp (congrArg (fun key => (ofLex key).1) equal)
    simp only [List.flatMap_cons, ← List.append_assoc]
    rw [alike_append, swapped, ← alike_append]
  | trans first _ ih ih' =>
    exact (ih free).trans (ih' fun f member => free f (first.mem_iff.mpr member))

theorem importsProtowire_iff (imports : Imports files) (f : Fin n) :
    imports.importsProtowire f = true ↔ imports.UsesProtowire f := by
  simp only [importsProtowire, UsesProtowire, Uses, List.any_eq_true, Option.any_eq_true,
    Bool.or_eq_true, decide_eq_true_eq, or_assoc]
  constructor
  · rintro ⟨_, listed, g, rfl, named⟩
    exact ⟨g, listed, by simpa using named⟩
  · rintro ⟨g, listed, named⟩
    exact ⟨_, listed, g, rfl, by simpa using named⟩

theorem violations_perm (imports : Imports files) (f : Fin n) :
    (imports.violations f).Perm (imports.due f) :=
  (fileViolations_perm files.pool (files.file f) (imports.importsProtowire_iff f)).map _

/-- Each file of the import closure is reported once for each rule it breaks. Another import graph
that leads to the same files, through other paths or in another order, gives the same list. -/
theorem validateFile_closure (imports : Imports files) (root : Fin n) :
    (∃ closure : List (Fin n), closure.Nodup ∧ (∀ f, f ∈ closure ↔ imports.InClosure root f) ∧
      (imports.validateFile (some root)).Perm (closure.flatMap imports.due)) ∧
    ∀ other : Imports files, (∀ f, other.InClosure root f ↔ imports.InClosure root f) →
      (∀ f, imports.InClosure root f → (other.UsesProtowire f ↔ imports.UsesProtowire f)) →
      other.validateFile (some root) = imports.validateFile (some root) := by
  obtain ⟨closure, once, covers, out⟩ := walk_closure imports root
  refine ⟨⟨closure, once, covers, ?_⟩, ?_⟩
  · rw [validateFile_eq, out]
    refine (List.perm_insertionSort _ _).trans ?_
    exact .flatMap_left _ fun f _ => imports.violations_perm f
  · intro other sameFiles sameImports
    obtain ⟨reached, once', covers', out'⟩ := walk_closure other root
    have perm : reached.Perm closure := by
      refine (List.perm_ext_iff_of_nodup once' once).mpr fun f => ?_
      rw [covers, covers', sameFiles]
    have reports : reached.flatMap other.violations = reached.flatMap imports.violations := by
      refine List.flatMap_congr fun f member => ?_
      have inside := (covers f).mp (perm.mem_iff.mp member)
      have same : other.importsProtowire f = imports.importsProtowire f := by
        rw [Bool.eq_iff_iff, importsProtowire_iff, importsProtowire_iff]
        exact sameImports f inside
      rw [violations, violations, same]
    rw [validateFile_eq, validateFile_eq, out, out', reports]
    refine eq_of_alike (List.pairwise_insertionSort _ _) (List.pairwise_insertionSort _ _) fun k => ?_
    rw [alike_insertionSort, alike_insertionSort]
    exact alike_flatMap_perm perm (fun f member => ((covers' f).mp member).1) k

end Imports

end Protowire.Pxf
