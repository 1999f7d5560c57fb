import GraphQuery.Proofs.ResolverCalls
import GraphQuery.Proofs.SelectedData

/-! # Narrowing twice

A selection set that is applied to a value leaves an object for each record or object, whose keys
are the selected names. If no name is selected twice in one set, the same selection set finds each
of these keys as it is written and leaves the value as it is (`Executor.narrow_narrow`), however the
names were read in the first place. -/

namespace GraphQuery

/-- **No name is selected twice** in one set, at any level. -/
inductive DistinctNames : SelectionSet → Prop where
  /-- The names of the set are distinct, and so are those of its nested sets. -/
  | mk {selection : SelectionSet} (distinct : (selection.map Field.name).Nodup)
    (nested : ∀ field ∈ selection, ∀ inner, field.selection = some inner → DistinctNames inner) :
    DistinctNames selection

/-! ## Outcomes in a row -/

namespace Outcome

variable {α β : Type}

/-- What is made of an outcome is a value if the outcome is one. -/
theorem map_eq_ok_iff {outcome : Outcome α} {f : α → β} {value : β} :
    outcome.map f = .ok value ↔ ∃ found, outcome = .ok found ∧ f found = value := by
  cases outcome <;> simp [Except.map]

/-- **Outcomes in a row** are values if each of them is. -/
theorem all_eq_ok_iff {outcomes : List (Outcome α)} {values : List α} :
    all outcomes = .ok values ↔ outcomes = values.map .ok := by
  induction outcomes generalizing values with
  | nil => cases values <;> simp
  | cons outcome rest ih =>
    cases outcome with
    | error error => cases values <;> simp
    | ok value =>
      rw [all_ok, map_eq_ok_iff]
      cases values with
      | nil => simp
      | cons first others => simp [ih, and_comm]

/-- The outcomes of inputs are values if that of each input is. -/
theorem all_map_eq_ok_iff {f : β → Outcome α} {inputs : List β} {values : List α} :
    all (inputs.map f) = .ok values ↔ inputs.length = values.length
      ∧ ∀ {input value}, (input, value) ∈ inputs.zip values → f input = .ok value := by
  rw [all_eq_ok_iff, ← List.forall₂_iff_zip, ← List.forall₂_eq_eq_eq, List.forall₂_map_left_iff,
    List.forall₂_map_right_iff]

end Outcome

/-! ## The reference semantics -/

namespace Reference

variable {change : Value → Outcome Value} {maxDepth : Nat}

/-- **Changing records twice** comes to changing them once if it does so for each record. -/
theorem narrowed_narrowed (h : ∀ record result, record.isRecordShaped → change record = .ok result →
      result.isRecordShaped ∧ change result = .ok result) {value result : Value}
    (hvalue : narrowed change value = .ok result) : narrowed change result = .ok result := by
  induction value using Value.readInduction generalizing result with
  | list items ih =>
    rw [narrowed, narrowedItems_eq_map, Outcome.map_eq_ok_iff] at hvalue
    obtain ⟨results, hresults, rfl⟩ := hvalue
    rw [Outcome.all_eq_ok_iff] at hresults
    have heach : ∀ result ∈ results, narrowed change result = .ok result := by
      intro result hresult
      have hmem : Except.ok result ∈ items.map (narrowed change) :=
        hresults ▸ List.mem_map_of_mem hresult
      obtain ⟨item, hitem, hchanged⟩ := List.mem_map.1 hmem
      exact ih item hitem hchanged
    rw [narrowed, narrowedItems_eq_map, Outcome.map_eq_ok_iff]
    exact ⟨results, Outcome.all_eq_ok_iff.2 (List.map_congr_left heach), rfl⟩
  | shaped value hshaped _ =>
    have hnarrowed : ∀ record : Value, record.isRecordShaped →
        narrowed change record = change record := by
      intro record hrecord
      cases record <;> first | rfl | cases hrecord
    rw [hnarrowed value hshaped] at hvalue
    obtain ⟨hresult, hagain⟩ := h value result hshaped hvalue
    rw [hnarrowed result hresult, hagain]
  | plain value unlisted unshaped =>
    -- What is neither a list nor record-shaped is its own result.
    cases value with
    | list items => cases unlisted
    | object entries => cases unshaped
    | record identity fields => cases unshaped
    | _ => cases hvalue; rfl

/-- How fields are resolved where there are no resolvers: nested ones are read from their parent. -/
def read (source : Option Value) (field : Field) : Outcome Value :=
  match source with
  | some parent => parent.reflect field.name
  | none => .error (.resolverNotFound field.name)

/-- What a nested field yields is read from its parent, and then narrowed. -/
theorem field_read_eq_ok_iff {parent value : Value} {depth : Nat} {f : Field} :
    field read maxDepth (some parent) depth f = .ok value
      ↔ ∃ found, parent.reflect f.name = .ok found
        ∧ nested read maxDepth depth found f.selection = .ok value := by
  obtain ⟨name, arguments, selection⟩ := f
  rw [field, read]
  cases parent.reflect name <;> simp

/-- **What a selection set yields** is read back from it by the same selection set, if no name is
selected twice. -/
theorem selection_object {selected : SelectionSet} (hnames : (selected.map Field.name).Nodup)
    {depth : Nat} {source : Value} {entries : Entries Value}
    (hnested : ∀ f ∈ selected, ∀ found value,
      nested read maxDepth depth found f.selection = .ok value →
        nested read maxDepth depth value f.selection = .ok value)
    (h : selection read maxDepth (some source) depth selected = .ok entries) :
    selection read maxDepth (some (.object entries)) depth selected = .ok entries := by
  rw [selection] at h ⊢
  split at h
  · cases h
  · next hdepth =>
    rw [if_neg hdepth, Outcome.map_eq_ok_iff]
    rw [Outcome.map_eq_ok_iff] at h
    obtain ⟨values, hvalues, hentries⟩ := h
    rw [Outcome.all_map_eq_ok_iff] at hvalues
    obtain ⟨hlength, heach⟩ := hvalues
    refine ⟨values, Outcome.all_map_eq_ok_iff.2 ⟨hlength, ?_⟩, hentries⟩
    -- Each name is a key, under which its value is found as it is.
    have hkeys : Entries.DistinctKeys ((selected.map Field.name).zip values) := by
      rw [Entries.DistinctKeys, Entries.keys, List.map_fst_zip (by simp [hlength])]
      exact hnames
    rw [← Entries.ofPairs_eq_lastWrites, hkeys.ofPairs_eq] at hentries
    subst hentries
    intro f value hpair
    have hentry : (f.name, value) ∈ (selected.map Field.name).zip values := by
      rw [List.zip_map_left]
      exact List.mem_map_of_mem (f := Prod.map Field.name id) hpair
    obtain ⟨found, -, hvalue⟩ := field_read_eq_ok_iff.1 (heach hpair)
    refine field_read_eq_ok_iff.2 ⟨value, ?_, ?_⟩
    · have hget := hkeys.get?_of_mem hentry
      simp [Value.reflect, Value.lookupEntry?, hget]
    · exact hnested f (List.of_mem_zip hpair).1 found value hvalue

/-- **Narrowing twice** comes to narrowing once, if no name is selected twice. -/
theorem nested_nested {selected : SelectionSet} (h : DistinctNames selected) {depth : Nat}
    {value result : Value}
    (hvalue : nested read maxDepth depth value (some selected) = .ok result) :
    nested read maxDepth depth result (some selected) = .ok result := by
  induction h generalizing depth value result with
  | @mk selected distinct _ ih =>
    rw [nested_some] at hvalue ⊢
    refine narrowed_narrowed ?_ hvalue
    intro record result _ hrecord
    rw [Outcome.map_eq_ok_iff] at hrecord
    obtain ⟨entries, hentries, rfl⟩ := hrecord
    refine ⟨rfl, Outcome.map_eq_ok_iff.2 ⟨entries, ?_, rfl⟩⟩
    refine selection_object distinct ?_ hentries
    intro f hf found inner hinner
    cases hselection : f.selection with
    | none => rw [nested]
    | some fields =>
      rw [hselection] at hinner
      exact ih f hf fields hselection hinner

end Reference

/-! ## Execution -/

namespace Executor

variable {executor : Executor}

/-- **A nested selection yields** what the reference says, whatever resolvers there are, and leaves
its surroundings alone. -/
theorem nestedValue_eq_reference (given : Variables) (depth : Nat) (value : Value)
    (selection : Option SelectionSet) :
    executor.nestedValue given depth value selection
      = .ofExcept (Reference.nested Reference.read executor.config.maxDepth depth value
          selection) := by
  obtain ⟨outcome, heq, hbare, -⟩ := @readAlike_nestedValue executor .empty given depth value
    selection
  -- Without resolvers, the reference applies.
  have hread : (executor.withRegistry .empty).resolved given = Reference.read := by
    funext source field
    cases source with
    | none => rfl
    | some parent =>
      show (Execution.ofExcept (parent.reflect field.name) .empty).1 = _
      rw [Execution.ofExcept_apply, Reference.read]
  have hpure : (executor.withRegistry .empty).registry.IsPure := Registry.isPure_empty
  have hyields := yields_nestedValue hpure given depth value selection .empty
  rw [hbare, hread, Execution.ofExcept_apply] at hyields
  have houtcome : outcome
      = Reference.nested Reference.read executor.config.maxDepth depth value selection := hyields
  rw [heq, houtcome]

/-- **Narrowing is idempotent** if no name is selected twice in one set: a selection set leaves
alone what it has narrowed before. -/
theorem narrow_narrow (executor : Executor) (given : Variables) {selection : SelectionSet}
    (h : DistinctNames selection) {value narrowed : Value} {host : Host}
    (hnarrow : (executor.narrow given value selection host).1 = .ok narrowed) (again : Host) :
    executor.narrow given narrowed selection again = (.ok narrowed, again) := by
  rw [narrow_eq_nestedValue, nestedValue_eq_reference, Execution.ofExcept_apply] at hnarrow ⊢
  rw [Reference.nested_nested h hnarrow]

/-- A user with pets, whose fields are selected by tag, in another case, and once more. -/
def ofUser : Value :=
  .record 0 [(⟨"userId", some "id,omitempty"⟩, .int 7),
    (⟨"pets", none⟩, .list [.null, .object [("Name", .string "Tom"), ("age", .int 3)]])]

/-- The selected fields. -/
def userSelection : SelectionSet :=
  [⟨"ID", [], none⟩, ⟨"id", [], none⟩, ⟨"Pets", [], some [⟨"name", [], none⟩]⟩]

theorem distinctNames_userSelection : DistinctNames userSelection := by
  refine .mk (by decide) ?_
  simp only [userSelection, List.forall_mem_cons]
  refine ⟨nofun, nofun, ?_, nofun⟩
  rintro _ ⟨⟩
  refine .mk (by decide) ?_
  rw [List.forall_mem_singleton]
  nofun

/-- What has been narrowed has the selected names as keys, of which two differ in case only. -/
theorem narrow_narrow_ofUser :
    (⟨.empty, {}⟩ : Executor).narrow .empty
        (.object [("ID", .int 7), ("id", .int 7),
          ("Pets", .list [.null, .object [("name", .string "Tom")]])]) userSelection .empty
      = (.ok (.object [("ID", .int 7), ("id", .int 7),
          ("Pets", .list [.null, .object [("name", .string "Tom")]])]), .empty) := by
  have hnarrow : ((⟨.empty, {}⟩ : Executor).narrow .empty ofUser userSelection .empty).1
      = .ok (.object [("ID", .int 7), ("id", .int 7),
          ("Pets", .list [.null, .object [("name", .string "Tom")]])]) := rfl
  exact narrow_narrow _ .empty distinctNames_userSelection hnarrow .empty

end Executor

end GraphQuery
