import GraphQuery.Proofs.Depth
import GraphQuery.Proofs.Strictness

/-! # The depth as a guard

The depth that a configuration allows decides whether a document is executed to its end, and nothing
else. An execution without any such limit is told here in its own words (`Unlimited`); it notes
which selection sets it applies to what, and at which levels they nest. With a limit, the same
happens, until a selection set that nests too deep is to be applied: then the execution is refused
(`Executor.executeDocument_withMaxDepth`). -/

namespace GraphQuery

/-! ## Execution without a limit -/

/-- **An application** of a selection set in the course of an execution. -/
structure Application where
  /-- The level at which the selection set nests; the root's is the first. -/
  level : Nat
  /-- The selection set. -/
  selection : SelectionSet
  /-- The value that it is applied to, absent at the root. -/
  target : Option Value

/-- The surroundings of an execution, and what has been applied so far. -/
structure Course where
  /-- The surroundings. -/
  host : Host
  /-- The applications, in order. -/
  applied : List Application

/-- **An execution without a limit** of the depth. -/
abbrev Unlimited := ExceptT ExecutionError (StateM Course)

namespace Unlimited

variable {α β : Type}

/-- Executes a step that applies no selection set. -/
def step (x : Execution α) : Unlimited α := fun course =>
  ((x course.host).1, { course with host := (x course.host).2 })

/-- Notes that a selection set is applied. -/
def apply (application : Application) : Unlimited Unit := fun course =>
  (.ok (), { course with applied := course.applied ++ [application] })

section

variable (resolve : Option Value → Field → Execution Value)

mutual

/-- The value of one field with its nested selection, as part of a set at level `depth`. -/
def fieldValue (source : Option Value) (depth : Nat) : Field → Unlimited Value
  | ⟨name, arguments, selection⟩ => do
    let value ← step (resolve source ⟨name, arguments, selection⟩)
    nestedValue depth value selection

/-- A value with the selection nested in a set at level `depth` applied to it. -/
def nestedValue (depth : Nat) (value : Value) : Option (List Field) → Unlimited Value
  | none => pure value
  | some fields =>
    value.mapRecords fun record => do
      apply ⟨depth + 1, fields, some record⟩
      let pairs ← fieldPairs (some record) (depth + 1) fields
      return .object (Entries.ofPairs pairs)

/-- The names and values of the fields of a set at level `depth`. -/
def fieldPairs (source : Option Value) (depth : Nat) :
    List Field → Unlimited (List (String × Value))
  | [] => pure []
  | field :: rest => do
    let value ← fieldValue source depth field
    let pairs ← fieldPairs source depth rest
    return (field.name, value) :: pairs

end

/-- Executes a selection set at the root. -/
def select (selection : SelectionSet) : Unlimited (Entries Value) := do
  apply ⟨1, selection, none⟩
  let pairs ← fieldPairs resolve none 1 selection
  return Entries.ofPairs pairs

/-- **Executes a document without a limit** of the depth. -/
def executeDocument (document : Document) : Unlimited (Entries Value) :=
  match document.definitions with
  | [] => throw .noDefinitions
  | .typeDefinition _ :: _ => throw .unsupportedDefinition
  | .operation operation :: _ => do
    step (Execution.note (.executing operation.kind operation.name))
    select resolve operation.selection

end

/-! ## Guarded executions -/

/-- **An execution is guarded** like an unlimited one: it does the same, until a selection set is to
be applied below the allowed depth, for which it is refused. All applications are of one sort. -/
def Guards (maxDepth : Nat) (p : Application → Prop) (x : Execution α) (y : Unlimited α) : Prop :=
  ∀ course, ∃ more, (y course).2.applied = course.applied ++ more ∧ (∀ a ∈ more, p a)
    ∧ ((∀ a ∈ more, a.level ≤ maxDepth) ∧ x course.host = ((y course).1, (y course).2.host)
      ∨ (∃ a ∈ more, maxDepth < a.level)
        ∧ (x course.host).1 = .error (.maxDepthExceeded maxDepth))

variable {maxDepth : Nat} {p : Application → Prop} {x : Execution α} {y : Unlimited α}

theorem guards_step (x : Execution α) : Guards maxDepth p x (step x) := by
  intro course
  exact ⟨[], (List.append_nil _).symm, by simp, .inl ⟨by simp, rfl⟩⟩

theorem guards_pure (value : α) : Guards maxDepth p (pure value) (pure value) :=
  guards_step (pure value)

theorem guards_throw (error : ExecutionError) :
    Guards maxDepth p (throw error : Execution α) (throw error) :=
  guards_step (throw error)

/-- **Guarding one application** is to look at its level. -/
theorem guards_apply {executor : Executor} {application : Application} (h : p application) :
    Guards executor.config.maxDepth p (executor.checkDepth application.level)
      (apply application) := by
  intro course
  refine ⟨[application], rfl, by simpa using h, ?_⟩
  unfold Executor.checkDepth
  split
  · next htoo => exact .inr ⟨⟨application, by simp, htoo⟩, rfl⟩
  · next hallowed => exact .inl ⟨by simpa using hallowed, rfl⟩

/-- Two executions in a row are guarded if both of them are. -/
theorem Guards.bind {f : α → Execution β} {g : α → Unlimited β} (hx : Guards maxDepth p x y)
    (hf : ∀ value, Guards maxDepth p (f value) (g value)) :
    Guards maxDepth p (x >>= f) (y >>= g) := by
  intro course
  obtain ⟨more, happlied, hp, hrun⟩ := hx course
  have hbind : ∀ host, (x >>= f) host = ExceptT.bindCont f (x host).1 (x host).2 := fun _ => rfl
  have hbind' : (y >>= g) course = ExceptT.bindCont g (y course).1 (y course).2 := rfl
  rw [hbind, hbind']
  cases hvalue : (y course).1 with
  | error error =>
    -- The second execution does not take place, with or without a limit.
    refine ⟨more, happlied, hp, hrun.imp ?_ ?_⟩
    · rintro ⟨hlevels, hsame⟩
      rw [hsame, hvalue]
      exact ⟨hlevels, rfl⟩
    · rintro ⟨htoo, hrefused⟩
      rw [hrefused]
      exact ⟨htoo, rfl⟩
  | ok value =>
    obtain ⟨more', happlied', hp', hrun'⟩ := hf value (y course).2
    refine ⟨more ++ more', ?_, List.forall_mem_append.2 ⟨hp, hp'⟩, ?_⟩
    · show (g value (y course).2).2.applied = _
      rw [happlied', happlied, List.append_assoc]
    · rcases hrun with ⟨hlevels, hsame⟩ | ⟨⟨a, ha, htoo⟩, hrefused⟩
      · rw [hsame, hvalue]
        rcases hrun' with ⟨hlevels', hsame'⟩ | ⟨⟨a, ha, htoo⟩, hrefused'⟩
        · exact .inl ⟨List.forall_mem_append.2 ⟨hlevels, hlevels'⟩, hsame'⟩
        · exact .inr ⟨⟨a, List.mem_append_right _ ha, htoo⟩, hrefused'⟩
      · -- What is refused in the first execution is refused in all.
        rw [hrefused]
        exact .inr ⟨⟨a, List.mem_append_left _ ha, htoo⟩, rfl⟩

end Unlimited

/-- **Changing the records of a value** is guarded if each change of something record-shaped is. -/
theorem Value.guards_mapRecords {maxDepth : Nat} {p : Application → Prop}
    {change : Value → Execution Value} {change' : Value → Unlimited Value}
    (h : ∀ record, record.isRecordShaped →
      Unlimited.Guards maxDepth p (change record) (change' record)) (value : Value) :
    Unlimited.Guards maxDepth p (value.mapRecords change) (value.mapRecords change') :=
  mapRecords_related Unlimited.guards_pure Unlimited.Guards.bind h value

/-! ## Levels of selection sets -/

/-- **The level of a selection set** in the root's selection set, which is at the first level: a set
that is nested in a field lies one level below the set of the field. -/
inductive LiesAt (root : SelectionSet) : Nat → SelectionSet → Prop where
  /-- The root's selection set. -/
  | root : LiesAt root 1 root
  /-- A selection set that is nested in a field. -/
  | nested {level : Nat} {selection inner : SelectionSet} {field : Field}
    (outer : LiesAt root level selection) (mem : field ∈ selection)
    (nested : field.selection = some inner) : LiesAt root (level + 1) inner

/-- A selection set nests within as many levels as it is large. -/
theorem nestsWithin_of_sizeOf_le {levels : Nat} {selection : SelectionSet}
    (h : sizeOf selection ≤ levels) : NestsWithin levels selection := by
  induction levels generalizing selection with
  | zero =>
    have hpos : 0 < sizeOf selection := by
      cases selection with
      | nil => simp
      | cons field rest =>
        rw [List.cons.sizeOf_spec]
        omega
    omega
  | succ levels ih =>
    intro field hfield nested hnested
    have hfieldLt := List.sizeOf_lt_of_mem hfield
    obtain ⟨name, arguments, inner⟩ := field
    obtain rfl : inner = some nested := hnested
    apply ih
    simp only [Field.mk.sizeOf_spec, Option.some.sizeOf_spec] at hfieldLt
    omega

/-- **A sound application**: a selection set is applied at the level at which it lies, and to
something record-shaped unless it is the root's. -/
structure Application.Sound (root : SelectionSet) (a : Application) : Prop where
  /-- The selection set lies at the level noted. -/
  lies : LiesAt root a.level a.selection
  /-- Below the root it is applied to something record-shaped. -/
  shaped : a.level = 1 ∨ ∃ record ∈ a.target, record.isRecordShaped

namespace Executor

open Unlimited

variable {executor : Executor} {given : Variables} {root : SelectionSet}

/-- An execution without a limit resolves fields as the executor does. -/
def resolver (executor : Executor) (given : Variables) (source : Option Value) (field : Field) :
    Execution Value :=
  executor.resolveField source field given

mutual

/-- **Fields** are guarded. -/
theorem guards_fieldValue (source : Option Value) (depth : Nat) :
    (field : Field) → (∀ inner, field.selection = some inner → LiesAt root (depth + 1) inner) →
      Guards executor.config.maxDepth (Application.Sound root)
        (executor.fieldValue given source depth field)
        (Unlimited.fieldValue (executor.resolver given) source depth field)
  | ⟨name, arguments, selection⟩, hlies => by
    rw [Executor.fieldValue, Unlimited.fieldValue]
    exact (guards_step _).bind fun value => guards_nestedValue depth value selection hlies

/-- Nested selections are guarded: each time, the level is looked at first. -/
theorem guards_nestedValue (depth : Nat) (value : Value) :
    (selection : Option (List Field)) →
      (∀ inner, selection = some inner → LiesAt root (depth + 1) inner) →
      Guards executor.config.maxDepth (Application.Sound root)
        (executor.nestedValue given depth value selection)
        (Unlimited.nestedValue (executor.resolver given) depth value selection)
  | none, _ => by
    rw [Executor.nestedValue, Unlimited.nestedValue]
    exact guards_pure value
  | some fields, hlies => by
    rw [Executor.nestedValue, Unlimited.nestedValue]
    have hset : LiesAt root (depth + 1) fields := hlies fields rfl
    refine Value.guards_mapRecords (fun record hshaped => ?_) value
    have hsound : Application.Sound root ⟨depth + 1, fields, some record⟩ :=
      ⟨hset, .inr ⟨record, rfl, hshaped⟩⟩
    refine (guards_apply hsound).bind fun _ => ?_
    exact (guards_fieldPairs (some record) (depth + 1) fields fun field hmem inner hinner =>
      hset.nested hmem hinner).bind fun _ => guards_pure _

/-- The fields of a set are guarded. -/
theorem guards_fieldPairs (source : Option Value) (depth : Nat) :
    (selected : List Field) → (∀ field ∈ selected, ∀ inner, field.selection = some inner →
        LiesAt root (depth + 1) inner) →
      Guards executor.config.maxDepth (Application.Sound root)
        (executor.fieldPairs given source depth selected)
        (Unlimited.fieldPairs (executor.resolver given) source depth selected)
  | [], _ => by
    rw [Executor.fieldPairs, Unlimited.fieldPairs]
    exact guards_pure []
  | field :: rest, hlies => by
    rw [Executor.fieldPairs, Unlimited.fieldPairs]
    have hfield := guards_fieldValue source depth field (hlies field List.mem_cons_self)
    have hrest := guards_fieldPairs source depth rest fun f hf =>
      hlies f (List.mem_cons_of_mem field hf)
    exact hfield.bind fun _ => hrest.bind fun _ => guards_pure _

end

/-- **Executing a selection set** at the root is guarded. -/
theorem guards_select (selection : SelectionSet) :
    Guards executor.config.maxDepth (Application.Sound selection)
      (executor.select given none selection)
      (Unlimited.select (executor.resolver given) selection) := by
  have hsound : Application.Sound selection ⟨1, selection, none⟩ := ⟨.root, .inl rfl⟩
  refine (guards_apply hsound).bind fun _ => ?_
  exact (guards_fieldPairs none 1 selection fun field hmem inner hinner =>
    LiesAt.root.nested hmem hinner).bind fun _ => guards_pure _

/-- **Executing a document** is guarded. -/
theorem guards_executeDocument (document : Document) :
    Guards executor.config.maxDepth (Application.Sound document.rootFields)
      (executor.executeDocument document given)
      (Unlimited.executeDocument (executor.resolver given) document) := by
  obtain ⟨definitions⟩ := document
  match definitions with
  | [] => exact guards_throw _
  | .typeDefinition _ :: _ => exact guards_throw _
  | .operation operation :: _ =>
    exact (guards_step _).bind fun _ => guards_select operation.selection

/-! ## The limit -/

/-- An executor that allows some depth. -/
def withMaxDepth (executor : Executor) (maxDepth : Nat) : Executor :=
  { executor with config := { executor.config with maxDepth } }

/-- **What executing a document without a limit** yields, and in which surroundings it ends. -/
def unlimited (executor : Executor) (document : Document) (given : Variables) (host : Host) :
    Outcome (Entries Value) × Host :=
  let (outcome, course) := Unlimited.executeDocument (executor.resolver given) document ⟨host, []⟩
  (outcome, course.host)

/-- **The selection sets that are applied** when a document is executed without a limit. -/
def applications (executor : Executor) (document : Document) (given : Variables) (host : Host) :
    List Application :=
  (Unlimited.executeDocument (executor.resolver given) document ⟨host, []⟩).2.applied

variable (executor : Executor) (document : Document) (given : Variables) (host : Host)

/-- Everything that is applied is sound. -/
theorem sound_of_mem_applications {a : Application}
    (h : a ∈ executor.applications document given host) : a.Sound document.rootFields := by
  obtain ⟨more, happlied, hsound, -⟩ :=
    @guards_executeDocument executor given document ⟨host, []⟩
  exact hsound a (by rwa [applications, happlied] at h)

/-- **With a limit**, the same happens as without one if nothing is applied too deep, and otherwise
the execution is refused. -/
theorem executeDocument_eq_or (maxDepth : Nat) :
    (∀ a ∈ executor.applications document given host, a.level ≤ maxDepth)
        ∧ (executor.withMaxDepth maxDepth).executeDocument document given host
          = executor.unlimited document given host
      ∨ (∃ a ∈ executor.applications document given host, maxDepth < a.level)
        ∧ ((executor.withMaxDepth maxDepth).executeDocument document given host).1
          = .error (.maxDepthExceeded maxDepth) := by
  obtain ⟨more, happlied, -, hrun⟩ :=
    @guards_executeDocument (executor.withMaxDepth maxDepth) given document ⟨host, []⟩
  have happlications : executor.applications document given host = more := happlied
  rw [happlications]
  exact hrun

/-- **A limit that is as large as the document** does not show: the document is executed as without
one, and not refused for its depth. -/
theorem executeDocument_eq_unlimited_of_sizeOf_le {maxDepth : Nat}
    (h : sizeOf document.definitions ≤ maxDepth) :
    (executor.withMaxDepth maxDepth).executeDocument document given host
        = executor.unlimited document given host
      ∧ ∀ other, (executor.unlimited document given host).1
        ≠ .error (.maxDepthExceeded other) := by
  -- A selection set is smaller than the document it is in, and nests no deeper than its size.
  have hnests : ∀ operation, .operation operation ∈ document.definitions →
      NestsWithin (sizeOf document.definitions) operation.selection := by
    intro operation hmem
    have hlt := List.sizeOf_lt_of_mem hmem
    obtain ⟨kind, name, declared, selection⟩ := operation
    simp only [Definition.operation.sizeOf_spec, Operation.mk.sizeOf_spec] at hlt
    apply nestsWithin_of_sizeOf_le
    change sizeOf selection ≤ _
    omega
  have hfails := @failsOnly_executeDocument (executor.withMaxDepth maxDepth) given document _
    hnests h
  rcases executor.executeDocument_eq_or document given host maxDepth with
    ⟨-, hsame⟩ | ⟨-, hrefused⟩
  · refine ⟨hsame, fun other hother => ?_⟩
    rw [← hsame] at hother
    exact hfails host _ hother other rfl
  · -- A run that was refused for its depth would have failed for it.
    exact absurd rfl (hfails host _ hrefused maxDepth)

/-- **The depth is only a guard.** Whatever depth is allowed, a document is executed as without a
limit, or the execution is refused for that depth. What is executed with some depth is executed in
the same way with every larger one, and with large ones as without a limit. Refused is an execution
only for a selection set that is applied to something record-shaped and lies deeper than allowed, or
because not even the root's selection set is allowed. -/
theorem executeDocument_withMaxDepth (maxDepth : Nat) :
    (((executor.withMaxDepth maxDepth).executeDocument document given host).1
          = .error (.maxDepthExceeded maxDepth)
        ∨ (executor.withMaxDepth maxDepth).executeDocument document given host
          = executor.unlimited document given host)
      ∧ (∃ levels, ∀ large, levels ≤ large →
        (executor.withMaxDepth large).executeDocument document given host
          = executor.unlimited document given host)
      ∧ (∀ larger, maxDepth ≤ larger →
        ((executor.withMaxDepth maxDepth).executeDocument document given host).1
          ≠ .error (.maxDepthExceeded maxDepth) →
        (executor.withMaxDepth larger).executeDocument document given host
          = (executor.withMaxDepth maxDepth).executeDocument document given host)
      ∧ (∀ refused, ((executor.withMaxDepth maxDepth).executeDocument document given host).1
          = .error (.maxDepthExceeded refused) →
        refused = maxDepth
          ∧ (maxDepth = 0 ∨ ∃ a ∈ executor.applications document given host,
            maxDepth < a.level ∧ LiesAt document.rootFields a.level a.selection
              ∧ ∃ record ∈ a.target, record.isRecordShaped)) := by
  have hrun := executor.executeDocument_eq_or document given host maxDepth
  refine ⟨hrun.symm.imp And.right And.right, ⟨sizeOf document.definitions, ?_⟩, ?_, ?_⟩
  · intro large hle
    exact (executor.executeDocument_eq_unlimited_of_sizeOf_le document given host hle).1
  · intro larger hle hnot
    rcases hrun with ⟨hlevels, hsame⟩ | ⟨-, hrefused⟩
    · -- Nothing is applied too deep for the larger depth either.
      rcases executor.executeDocument_eq_or document given host larger with
        ⟨-, hsame'⟩ | ⟨⟨a, ha, htoo⟩, -⟩
      · rw [hsame, hsame']
      · have hallowed := hlevels a ha
        omega
    · exact absurd hrefused hnot
  · intro refused hrefused
    rcases hrun with ⟨-, hsame⟩ | ⟨⟨a, ha, htoo⟩, hrefused'⟩
    · obtain ⟨-, hnever⟩ :=
        executor.executeDocument_eq_unlimited_of_sizeOf_le document given host (Nat.le_refl _)
      rw [hsame] at hrefused
      exact absurd hrefused (hnever refused)
    · cases hrefused.symm.trans hrefused'
      have hsound := executor.sound_of_mem_applications document given host ha
      refine ⟨rfl, ?_⟩
      rcases hsound.shaped with hroot | hshaped
      · exact .inl (by omega)
      · exact .inr ⟨a, ha, htoo, hsound.lies, hshaped⟩

/-- A list of lists takes up no level, and the selection set that is applied in it takes up one. -/
example (given : Variables) (host : Host) :
    let rows : Value := .list [.list [.object [("x", .int 1)]]]
    let registry := Registry.empty.register .query "rows" fun _ _ hub => (.ok rows, hub)
    let document : Document :=
      ⟨[.operation ⟨.query, none, [], [⟨"rows", [], some [⟨"x", [], none⟩]⟩]⟩]⟩
    ((⟨registry, ⟨2, false⟩⟩ : Executor).executeDocument document given host).1
        = .ok [("rows", rows)]
      ∧ ((⟨registry, ⟨1, false⟩⟩ : Executor).executeDocument document given host).1
        = .error (.maxDepthExceeded 1) :=
  ⟨rfl, rfl⟩

end Executor

end GraphQuery
