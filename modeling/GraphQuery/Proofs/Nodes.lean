import GraphQuery.Document
import GraphQuery.Diagnostic
import GraphQuery.Reading.Recovery
import GraphQuery.Proofs.Entries
import Mathlib.Algebra.Order.BigOperators.Group.List
import Mathlib.Algebra.Order.Ring.Nat

/-! # Nodes

The **nodes** of an operation are its selection set, the selection sets nested in it, and the
literals in them. The selection set of the operation is at level one, and every other node lies one
level deeper than the node that contains it.

Here is what every document that is parsed has in common, however malformed the text was: how names
and scalars are spelled, how deep nodes lie (`Operation.Shaped`), and how many **faults** the text
has left in it (`Document.faults`). -/

namespace GraphQuery

/-! ## Spelling -/

/-- **An identifier**: a letter or an underscore, and then letters, digits and underscores. Letters
and digits are the ASCII ones. -/
def IsIdentifier (text : String) : Prop :=
  ∃ c cs, text.toList = c :: cs ∧ (c.isAlpha ∨ c = '_') ∧ ∀ d ∈ cs, d.isAlphanum ∨ d = '_'

/-- **A run of ASCII digits**, which has one at least. -/
def IsDigits (text : String) : Prop := text.toList ≠ [] ∧ ∀ c ∈ text.toList, c.isDigit

/-- An identifier is not empty. -/
theorem IsIdentifier.ne_empty {text : String} (h : IsIdentifier text) : text ≠ "" := by
  rintro rfl
  obtain ⟨c, cs, htext, -⟩ := h
  simp at htext

/-! ## Nodes -/

/-- **A node**: a selection set or a literal. -/
inductive Node where
  /-- A selection set. -/
  | selection (fields : SelectionSet)
  /-- A literal. -/
  | literal (value : Literal)

namespace Node

/-- The nodes right in a field: the values of its arguments, and its nested selection set if it has
one. -/
def ofField (f : Field) : List Node :=
  (f.arguments.map fun argument => literal argument.value) ++ f.selection.toList.map selection

/-- The nodes right in a node. -/
def children : Node → List Node
  | selection fields => fields.flatMap ofField
  | literal (.array items) => items.map literal
  | literal (.object fields) => fields.map fun field => literal field.2
  | literal _ => []

/-- **The nodes at a level** in a node that is itself at level one. -/
def nodesAt : (level : Nat) → Node → List Node
  | 0, _ => []
  | 1, n => [n]
  | level + 2, n => n.children.flatMap (nodesAt (level + 1))

/-- **What is spelled in a node** itself: the names of fields, arguments and keys, and the texts of
scalars. -/
def IsSpelled : Node → Prop
  | selection fields =>
    ∀ f ∈ fields, IsIdentifier f.name ∧ ∀ argument ∈ f.arguments, IsIdentifier argument.name
  | literal (.object fields) => ∀ field ∈ fields, IsIdentifier field.1
  | literal (.enum name) => IsIdentifier name ∧ name ≠ "true" ∧ name ≠ "false"
  | literal (.int digits) => IsDigits digits
  | literal (.string contents) => '"' ∉ contents.toList
  | literal (.variableRef name) => name = "" ∨ IsIdentifier name
  | literal (.array _) | literal (.boolean _) | literal (.illegal _) => True

/-- **A stub**: a node in place of what was skipped, an empty selection set or an illegal
literal. -/
def IsStub : Node → Prop
  | selection fields => fields = []
  | literal (.illegal _) => True
  | literal _ => False

/-- **A node in shape**, with so many levels left below it: the node and all nodes in it are spelled
well, and at the last level there are only stubs. -/
def Shaped : (levels : Nat) → Node → Prop
  | 0, n => n.IsStub
  | levels + 1, n => n.IsSpelled ∧ ∀ child ∈ n.children, child.Shaped levels

variable {n m : Node} {levels level : Nat}

theorem mem_nodesAt_succ :
    m ∈ n.nodesAt (level + 2) ↔ ∃ child ∈ n.children, m ∈ child.nodesAt (level + 1) :=
  List.mem_flatMap

/-- There is nothing in a stub. -/
theorem IsStub.children_eq_nil (h : n.IsStub) : n.children = [] := by
  cases n with
  | selection fields => rw [show fields = [] from h]; rfl
  | literal v => cases v <;> first | exact h.elim | rfl

/-- In a stub, nothing is spelled. -/
theorem IsStub.isSpelled (h : n.IsStub) : n.IsSpelled := by
  cases n with
  | selection fields =>
    obtain rfl : fields = [] := h
    simp [IsSpelled]
  | literal v => cases v <;> trivial

/-- A node in shape is itself spelled well. -/
theorem Shaped.isSpelled (h : n.Shaped levels) : n.IsSpelled := by
  cases levels with
  | zero => exact IsStub.isSpelled h
  | succ levels => exact h.1

/-- Every node at every level is spelled well. -/
theorem Shaped.isSpelled_of_mem (h : n.Shaped levels) (hm : m ∈ n.nodesAt level) :
    m.IsSpelled := by
  induction level generalizing n levels with
  | zero => simp [nodesAt] at hm
  | succ level ih =>
    cases level with
    | zero =>
      rw [List.mem_singleton.1 hm]
      exact h.isSpelled
    | succ level =>
      obtain ⟨child, hchild, hm⟩ := mem_nodesAt_succ.1 hm
      cases levels with
      | zero =>
        -- A stub has no nodes in it.
        simp [IsStub.children_eq_nil h] at hchild
      | succ levels => exact ih (h.2 child hchild) hm

/-- The nodes at the last level are stubs. -/
theorem Shaped.isStub_of_mem (h : n.Shaped levels) (hm : m ∈ n.nodesAt (levels + 1)) :
    m.IsStub := by
  induction levels generalizing n with
  | zero =>
    rw [List.mem_singleton.1 hm]
    exact h
  | succ levels ih =>
    obtain ⟨child, hchild, hm⟩ := mem_nodesAt_succ.1 hm
    exact ih (h.2 child hchild) hm

/-- There are no nodes beyond the last level. -/
theorem Shaped.nodesAt_eq_nil (h : n.Shaped levels) (hlevel : levels + 1 < level) :
    n.nodesAt level = [] := by
  obtain ⟨level, rfl⟩ := Nat.exists_eq_add_of_lt hlevel
  induction levels generalizing n with
  | zero =>
    rw [show 0 + 1 + level + 1 = level + 2 by omega, nodesAt, IsStub.children_eq_nil h,
      List.flatMap_nil]
  | succ levels ih =>
    rw [show levels + 1 + 1 + level + 1 = levels + level + 1 + 2 by omega, nodesAt,
      List.flatMap_eq_nil_iff]
    intro child hchild
    have hchild := ih (h.2 child hchild) (by omega)
    rwa [show levels + 1 + level + 1 = levels + level + 1 + 1 by omega] at hchild

end Node

/-! ## Faults -/

namespace Literal

mutual

/-- **The faults in a literal**: the illegal literals and the variables without a name. -/
def faults : Literal → Nat
  | illegal _ => 1
  | variableRef name => if name = "" then 1 else 0
  | array items => faultsInItems items
  | object fields => faultsInFields fields
  | boolean _ | enum _ | int _ | string _ => 0

/-- The faults in the items of a list. -/
def faultsInItems : List Literal → Nat
  | [] => 0
  | item :: rest => faults item + faultsInItems rest

/-- The faults in the fields of an object. -/
def faultsInFields : List (String × Literal) → Nat
  | [] => 0
  | (_, value) :: rest => faults value + faultsInFields rest

end

theorem faultsInItems_eq (items : List Literal) : faultsInItems items = (items.map faults).sum := by
  induction items with
  | nil => rfl
  | cons item rest ih => rw [faultsInItems, ih, List.map_cons, List.sum_cons]

theorem faultsInFields_eq (fields : List (String × Literal)) :
    faultsInFields fields = (fields.map fun field => field.2.faults).sum := by
  induction fields with
  | nil => rfl
  | cons field rest ih =>
    obtain ⟨key, value⟩ := field
    rw [faultsInFields, ih, List.map_cons, List.sum_cons]

end Literal

namespace Field

mutual

/-- **The faults in a field**: those in its arguments and in its nested selection set. -/
def faults : Field → Nat
  | ⟨_, arguments, selection⟩ =>
    (arguments.map fun argument => argument.value.faults).sum + faultsInNested selection

/-- The faults in a nested selection set, if there is one. -/
def faultsInNested : Option (List Field) → Nat
  | none => 0
  | some fields => faultsInAll fields

/-- The faults in the fields of a selection set. -/
def faultsInAll : List Field → Nat
  | [] => 0
  | field :: rest => faults field + faultsInAll rest

end

end Field

namespace Node

/-- The faults in a node. -/
def faults : Node → Nat
  | selection fields => Field.faultsInAll fields
  | literal value => value.faults

/-- The faults in some nodes. -/
def faultsIn (nodes : List Node) : Nat := (nodes.map faults).sum

@[simp] theorem faultsIn_nil : faultsIn [] = 0 := rfl

@[simp] theorem faultsIn_append (as bs : List Node) :
    faultsIn (as ++ bs) = faultsIn as + faultsIn bs := by
  rw [faultsIn, List.map_append, List.sum_append, faultsIn, faultsIn]

theorem faultsIn_singleton (n : Node) : faultsIn [n] = n.faults := by simp [faultsIn]

/-- The faults in a field are those in its nodes. -/
theorem faults_field (f : Field) : f.faults = faultsIn (ofField f) := by
  obtain ⟨name, arguments, selection⟩ := f
  rw [Field.faults, ofField, faultsIn_append, faultsIn, faultsIn, List.map_map, List.map_map]
  cases selection with
  | none => rfl
  | some fields => simp [Field.faultsInNested, faults, Function.comp_def]

/-- Whether a node is itself a fault. -/
def IsFault : Node → Prop
  | literal (.illegal _) => True
  | literal (.variableRef name) => name = ""
  | _ => False

/-- The faults in a selection set are those in the nodes of its fields. -/
theorem faultsInAll_eq (fields : List Field) :
    Field.faultsInAll fields = faultsIn (fields.flatMap ofField) := by
  induction fields with
  | nil => rfl
  | cons f fields ih =>
    rw [Field.faultsInAll, ih, List.flatMap_cons, faultsIn_append, faults_field]

/-- A node that is no fault has the faults that its nodes have. -/
theorem faults_eq_faultsIn {n : Node} (h : ¬ n.IsFault) : n.faults = faultsIn n.children := by
  cases n with
  | selection fields => exact faultsInAll_eq fields
  | literal v =>
    cases v with
    | array items =>
      rw [faults, Literal.faults, Literal.faultsInItems_eq, children, faultsIn, List.map_map]
      rfl
    | object fields =>
      rw [faults, Literal.faults, Literal.faultsInFields_eq, children, faultsIn, List.map_map]
      rfl
    | illegal text => exact absurd trivial h
    | variableRef name =>
      have hname : name ≠ "" := h
      rw [faults, Literal.faults, if_neg hname]
      rfl
    | _ => rfl

end Node

namespace TypeReference

/-- The number of levels of a type reference. -/
def depth : TypeReference → Nat
  | named _ _ | list none _ => 1
  | list (some element) _ => element.depth + 1

/-- **The faults in a type reference**: a list without an element type. -/
def faults : TypeReference → Nat
  | named _ _ => 0
  | list none _ => 1
  | list (some element) _ => element.faults

end TypeReference

/-- The faults in a declared variable. -/
def VariableDefinition.faults (v : VariableDefinition) : Nat := v.type.elim 0 TypeReference.faults

/-- The faults in a definition: a type definition keeps none of its literals and type
references. -/
def Definition.faults : Definition → Nat
  | .operation op =>
    (op.declared.map VariableDefinition.faults).sum + (Node.selection op.selection).faults
  | .typeDefinition _ => 0

/-- **The faults in a document**: the illegal literals, the variables without a name, and the list
types without an element type. -/
def Document.faults (document : Document) : Nat := (document.definitions.map Definition.faults).sum

/-! ## Shapes -/

/-- **The shape of a declared variable.** -/
structure VariableDefinition.Shaped (v : VariableDefinition) : Prop where
  /-- Its name is an identifier. -/
  name : IsIdentifier v.name
  /-- The name in its type is an identifier. -/
  typeName : ∀ type ∈ v.type, ∀ name ∈ type.innermostName?, IsIdentifier name
  /-- Its type does not nest too deep. -/
  depth : ∀ type ∈ v.type, type.depth ≤ maxNesting

/-- **The shape of an operation** that was read with some diagnostics. -/
structure Operation.Shaped (operation : Operation) (diagnostics : List Diagnostic) : Prop where
  /-- Its name is an identifier. -/
  name : ∀ name ∈ operation.name, IsIdentifier name
  /-- The variables that it declares are in shape. -/
  declared : ∀ v ∈ operation.declared, v.Shaped
  /-- Every name, key and scalar in its nodes is spelled well. -/
  spelled : ∀ level, ∀ n ∈ (Node.selection operation.selection).nodesAt level, n.IsSpelled
  /-- No node lies deeper than one level below the limit. -/
  bounded : ∀ level, maxNesting + 1 < level →
    (Node.selection operation.selection).nodesAt level = []
  /-- One level below the limit there are only stubs. -/
  stubs : ∀ n ∈ (Node.selection operation.selection).nodesAt (maxNesting + 1), n.IsStub
  /-- A selection set there has been reported. -/
  reported : Node.selection [] ∈ (Node.selection operation.selection).nodesAt (maxNesting + 1) →
    ∃ d ∈ diagnostics, d.cause = .recursionLimitExceeded

/-- **The shape of a type definition.** -/
structure TypeDefinition.Shaped (definition : TypeDefinition) : Prop where
  /-- Its name is an identifier. -/
  name : IsIdentifier definition.name
  /-- The names of its fields are identifiers. -/
  fields : ∀ name ∈ definition.fields, IsIdentifier name

/-- **The shape of a definition.** -/
def Definition.Shaped (diagnostics : List Diagnostic) : Definition → Prop
  | .operation op => op.Shaped diagnostics
  | .typeDefinition definition => definition.Shaped

/-- **The shape of a document**: that of each of its definitions. -/
def Document.Shaped (document : Document) (diagnostics : List Diagnostic) : Prop :=
  ∀ definition ∈ document.definitions, definition.Shaped diagnostics

end GraphQuery
