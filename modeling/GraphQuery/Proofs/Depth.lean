import GraphQuery.Proofs.Derivation.Recognition
import GraphQuery.Proofs.Failures

/-! # Depth

Reading and execution each count how deep selection sets nest, reading together with values and
types and before it goes deeper, execution afterwards. The two counts fit together: what is read
without a diagnostic nests within `maxNesting` levels (`nestsWithin_of_valid`), and a selection
that nests within the allowed levels is never too deep to execute, whatever the resolvers answer
(`failsOnly_fieldPairs`). -/

namespace GraphQuery

/-! ## Nesting -/

/-- **Whether selection sets nest** no more than so many levels deep, the outermost one being the
first. -/
def NestsWithin : (levels : Nat) → SelectionSet → Prop
  | 0, _ => False
  | levels + 1, selection =>
    ∀ field ∈ selection, ∀ nested ∈ field.selection, NestsWithin levels nested

/-- A selection set takes up a level. -/
theorem NestsWithin.pos {levels : Nat} {selection : SelectionSet}
    (h : NestsWithin levels selection) : 0 < levels := by
  cases levels with
  | zero => exact absurd h id
  | succ levels => exact Nat.succ_pos levels

/-- A selection set that is not cut nests within the levels that it was read with. -/
theorem Derivation.Selection.nestsWithin_cut {levels : Nat} {s : Derivation.Selection}
    (h : s.overflow levels = []) : NestsWithin levels (s.cut levels) := by
  induction levels generalizing s with
  | zero => simp [overflow] at h
  | succ levels ih =>
    rw [overflow, List.flatMap_eq_nil_iff] at h
    rw [cut]
    intro field hfield nested hnested
    obtain ⟨f, hf, rfl⟩ := List.mem_map.1 hfield
    obtain ⟨inner, hinner, rfl⟩ := Option.map_eq_some_iff.1 hnested
    -- The nested selection set lies one level deeper, and none of its subtrees too deep.
    have hdeep := (List.append_eq_nil_iff.1 (h f hf)).2
    rw [hinner] at hdeep
    exact ih hdeep

/-- **What is read without a diagnostic nests within the limit.** -/
theorem nestsWithin_of_valid {ts : List Token} (h : (Parsed.ofTokens ts).diagnostics = [])
    {operation : Operation}
    (hmem : .operation operation ∈ (Parsed.ofTokens ts).document.definitions) :
    NestsWithin maxNesting operation.selection := by
  obtain ⟨d, ⟨-, hdeep⟩, -, -, hvalue⟩ := Derivation.exists_document h
  change .operation operation ∈ (Reading.document ts).value.definitions at hmem
  rw [hvalue] at hmem
  obtain ⟨e, he, hcut⟩ := List.mem_map.1 hmem
  have hnone : e.overflow = [] := List.flatMap_eq_nil_iff.1 hdeep e he
  cases e with
  | anonymous selection =>
    cases hcut
    exact Derivation.Selection.nestsWithin_cut hnone
  | operation kind keyword name declared selection =>
    cases hcut
    exact Derivation.Selection.nestsWithin_cut (List.append_eq_nil_iff.1 hnone).2
  | typeDefinition keyword place name fields => cases hcut

/-! ## Execution within the depth -/

/-- **An error about a field**: its arguments cannot be built, or it has no value. -/
def ExecutionError.IsAboutField (error : ExecutionError) : Prop :=
  error.kind = .argument ∨ error.kind = .resolution

namespace Executor

open Execution

variable {executor : Executor} {given : Variables}

/-- Building arguments fails with an error about them. -/
theorem isAboutField_of_buildArguments {field : Field} {error : ExecutionError}
    (h : executor.buildArguments field given = .error error) : error.IsAboutField := by
  obtain ⟨fault, rfl⟩ := exists_argument_of_buildArguments h
  exact .inl rfl

/-- **A selection that nests within the levels left** fails with errors about its fields only,
whatever it is applied to. -/
theorem failsOnly_fieldPairs {levels depth : Nat} {selection : SelectionSet}
    (hnests : NestsWithin levels selection)
    (hdepth : depth + levels ≤ executor.config.maxDepth + 1) (source : Option Value) :
    FailsOnly ExecutionError.IsAboutField
      (executor.fieldPairs given source depth selection) := by
  -- The induction is on the levels left; within a level it follows the fields.
  induction levels generalizing depth selection source with
  | zero => exact absurd hnests.pos (Nat.lt_irrefl 0)
  | succ levels ih =>
    induction selection with
    | nil =>
      rw [fieldPairs]
      exact failsOnly_pure []
    | cons field rest ihrest =>
      have hresolve : FailsOnly ExecutionError.IsAboutField
          (executor.resolveField source field given) :=
        failsOnly_resolveField (fun _ => isAboutField_of_buildArguments) (fun _ => .inr) source
      have hnested : ∀ nested ∈ field.selection,
          FailsOnly ExecutionError.IsAboutField (executor.checkDepth (depth + 1))
          ∧ ∀ record, FailsOnly ExecutionError.IsAboutField
            (executor.fieldPairs given (some record) (depth + 1) nested) := by
        intro nested hmem
        have hinner := hnests field List.mem_cons_self nested hmem
        have hpos := hinner.pos
        constructor
        · exact failsOnly_checkDepth fun htoo => by omega
        · exact fun record => ih hinner (by omega) (some record)
      have hrest := ihrest fun f hf => hnests f (List.mem_cons_of_mem field hf)
      exact failsOnly_fieldPairs_cons
        (failsOnly_fieldValue hresolve (failsOnly_nestedValue hnested)) hrest

/-- A selection set within the depth is executed, or fails with an error about a field. -/
theorem failsOnly_select {selection : SelectionSet} {levels : Nat}
    (hnests : NestsWithin levels selection) (hdepth : levels ≤ executor.config.maxDepth)
    (source : Option Value) :
    FailsOnly ExecutionError.IsAboutField (executor.select given source selection) := by
  have hpos := hnests.pos
  apply failsOnly_selectAt
  · exact failsOnly_checkDepth fun htoo => by omega
  · exact failsOnly_fieldPairs hnests (by omega) source

/-- Executing a document is never refused for its depth, if its operations are within it. -/
theorem failsOnly_executeDocument {document : Document} {levels : Nat}
    (hnests : ∀ operation, .operation operation ∈ document.definitions →
      NestsWithin levels operation.selection)
    (hdepth : levels ≤ executor.config.maxDepth) :
    FailsOnly (fun error => ∀ maxDepth, error ≠ .maxDepthExceeded maxDepth)
      (executor.executeDocument document given) := by
  unfold executeDocument
  split
  · exact failsOnly_throw (by simp)
  · exact failsOnly_throw (by simp)
  · next operation rest hdefinitions =>
    have hmem : .operation operation ∈ document.definitions := by
      rw [hdefinitions]
      exact List.mem_cons_self
    refine (failsOnly_note _).bind fun _ => ?_
    refine (failsOnly_select (hnests operation hmem) hdepth none).mono ?_
    -- The depth is about the document, and not about any of its fields.
    rintro error hfield maxDepth rfl
    rcases hfield with hkind | hkind <;> cases hkind

/-- Noting what is wrong with a document does not fail. -/
theorem failsOnly_noteErrors {p : ExecutionError → Prop} (parsed : Parsed) (source : String) :
    FailsOnly p (noteErrors parsed source) := by
  unfold noteErrors
  split
  · exact failsOnly_note _
  · exact failsOnly_pure ()

/-- **Whatever is accepted executes within the default depth**: with the default settings, a
source text that is read without a diagnostic is never refused for its depth, whatever resolvers
are registered, and whatever they answer. -/
theorem execute_ne_maxDepthExceeded {source : String}
    (hvalid : (Parsed.ofText source).diagnostics = []) (registry : Registry) (given : Variables)
    (host : Host) (maxDepth : Nat) :
    ((⟨registry, {}⟩ : Executor).execute source given host).1
      ≠ .error (.maxDepthExceeded maxDepth) := by
  have hnests : ∀ operation, .operation operation ∈ (Parsed.ofText source).document.definitions →
      NestsWithin maxNesting operation.selection :=
    fun operation hmem => nestsWithin_of_valid hvalid hmem
  have hfails : FailsOnly (fun error => ∀ maxDepth, error ≠ .maxDepthExceeded maxDepth)
      ((⟨registry, {}⟩ : Executor).execute source given) :=
    (failsOnly_noteErrors (Parsed.ofText source) source).bind fun _ =>
      failsOnly_executeDocument hnests (Nat.le_refl maxNesting)
  intro h
  exact hfails host _ h maxDepth rfl

/-- An executor with one resolver, which answers a list with an object in it. -/
def ofAges : Executor where
  registry := Registry.empty.register .query "people" fun _ _ hub =>
    (.ok (.list [.null, .object [("name", .string "Ann"), ("age", .object [("years", .int 7)])]]),
      hub)
  config := {}

/-- Three selection sets, one in the other, of which the inner two are applied to objects. -/
theorem execute_ofAges_ne_maxDepthExceeded :
    (ofAges.execute "{ people { name age { years } } }" .empty .empty).1
      ≠ .error (.maxDepthExceeded maxNesting) :=
  execute_ne_maxDepthExceeded (by decide +kernel) ofAges.registry .empty .empty maxNesting

end Executor

end GraphQuery
