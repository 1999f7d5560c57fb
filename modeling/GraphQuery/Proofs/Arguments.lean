import GraphQuery.Arguments
import GraphQuery.Proofs.Entries

/-! # Strict and lenient arguments

The literals of a field are read in depth-first order: argument by argument as written, each literal
before the literals nested in it, and these from left to right. A literal **offends** if it is a
variable that is not provided or an integer that cannot be read; what is nested in it does not count
for it. The strict way to build arguments reports the first literal that offends, and gives what the
lenient way gives if there is none (`Arguments.strict_eq_faultOr`). -/

namespace GraphQuery

/-! ## Faults -/

/-- **A value, unless there is a fault.** -/
def faultOr {ε α : Type} (fault? : Option ε) (value : α) : Except ε α :=
  match fault? with
  | none => .ok value
  | some fault => .error fault

section FaultOr

variable {ε α β : Type} {fault? : Option ε} {value : α}

/-- There is a value where there is no fault. -/
theorem faultOr_eq_ok_iff {other : α} :
    faultOr fault? value = .ok other ↔ fault? = none ∧ value = other := by
  cases fault? <;> simp [faultOr]

/-- Otherwise there is that fault. -/
theorem faultOr_eq_error_iff {fault : ε} :
    faultOr fault? value = .error fault ↔ fault? = some fault := by
  cases fault? <;> simp [faultOr]

/-- What is made of a value has no other faults. -/
theorem map_faultOr (f : α → β) : (faultOr fault? value).map f = faultOr fault? (f value) := by
  cases fault? <;> rfl

end FaultOr

/-! ## Offences -/

namespace Literal

variable {given : Variables}

mutual

/-- **A literal and all literals nested in it**, in depth-first order from left to right. -/
def preorder : Literal → List Literal
  | array items => array items :: preorderItems items
  | object fields => object fields :: preorderFields fields
  | boolean value => [boolean value]
  | enum name => [enum name]
  | illegal text => [illegal text]
  | int digits => [int digits]
  | string contents => [string contents]
  | variableRef name => [variableRef name]

/-- The literals in the items of a list. -/
def preorderItems : List Literal → List Literal
  | [] => []
  | item :: rest => preorder item ++ preorderItems rest

/-- The literals in the fields of an object. -/
def preorderFields : List (String × Literal) → List Literal
  | [] => []
  | (_, value) :: rest => preorder value ++ preorderFields rest

end

/-- **A literal offends** with a fault, whatever is nested in it. -/
inductive Offends (given : Variables) : Literal → ArgumentFault → Prop where
  /-- A variable is not provided. -/
  | missing {name : String} (absent : given.get? name = none) :
    Offends given (variableRef name) (.variableNotProvided name)
  /-- An integer cannot be read. -/
  | unreadable {digits : String} {fault : IntegerFault}
    (unread : Integer.parse digits = .error fault) :
    Offends given (int digits) (.invalidInt digits fault)

/-- The fault with which a literal offends, if it does. -/
def offence? (given : Variables) : Literal → Option ArgumentFault
  | variableRef name =>
    match given.get? name with
    | some _ => none
    | none => some (.variableNotProvided name)
  | int digits =>
    match Integer.parse digits with
    | .ok _ => none
    | .error fault => some (.invalidInt digits fault)
  | array _ | boolean _ | enum _ | illegal _ | object _ | string _ => none

theorem offence?_eq_some_iff {literal : Literal} {fault : ArgumentFault} :
    offence? given literal = some fault ↔ literal.Offends given fault := by
  constructor
  · intro h
    cases literal with
    | variableRef name =>
      rw [offence?] at h
      split at h
      · cases h
      · next habsent =>
        cases h
        exact .missing habsent
    | int digits =>
      rw [offence?] at h
      split at h
      · cases h
      · next fault hunread =>
        cases h
        exact .unreadable hunread
    | _ => cases h
  · rintro (habsent | hunread)
    · simp only [offence?, habsent]
    · simp only [offence?, hunread]

/-- A literal that does not offend has no fault to report. -/
theorem offence?_eq_none_iff {literal : Literal} :
    offence? given literal = none ↔ ∀ fault, ¬ literal.Offends given fault := by
  simp only [← offence?_eq_some_iff, Option.eq_none_iff_forall_ne_some, ne_eq]

/-- The first offence among literals. -/
def firstOffence? (given : Variables) (literals : List Literal) : Option ArgumentFault :=
  literals.findSome? (offence? given)

@[simp] theorem firstOffence?_nil : firstOffence? given [] = none := rfl

@[simp] theorem firstOffence?_append (first more : List Literal) :
    firstOffence? given (first ++ more)
      = (firstOffence? given first).or (firstOffence? given more) := List.findSome?_append

@[simp] theorem firstOffence?_array (items nested : List Literal) :
    firstOffence? given (array items :: nested) = firstOffence? given nested := rfl

@[simp] theorem firstOffence?_object (fields : List (String × Literal)) (nested : List Literal) :
    firstOffence? given (object fields :: nested) = firstOffence? given nested := rfl

mutual

/-- **A literal resolves** to its lenient value, unless it offends or something nested in it. -/
theorem resolve_eq_faultOr : (literal : Literal) →
    resolve given literal
      = faultOr (firstOffence? given (preorder literal)) (toValue given literal)
  | variableRef name => by
    rw [resolve, toValue, preorder, firstOffence?, List.findSome?_singleton, offence?]
    cases given.get? name <;> rfl
  | int digits => by
    rw [resolve, toValue, preorder, firstOffence?, List.findSome?_singleton, offence?]
    cases Integer.parse digits <;> rfl
  | string contents => by rw [resolve, toValue, preorder]; rfl
  | boolean value => by rw [resolve, toValue, preorder]; rfl
  | enum name => by rw [resolve, toValue, preorder]; rfl
  | illegal text => by rw [resolve, toValue, preorder]; rfl
  | array items => by
    rw [resolve, toValue, preorder, firstOffence?_array, resolveItems_eq_faultOr items, map_faultOr]
  | object fields => by
    rw [resolve, toValue, preorder, firstOffence?_object, resolveFields_eq_faultOr fields,
      map_faultOr]

/-- The items of a list resolve to their lenient values, up to the first offence. -/
theorem resolveItems_eq_faultOr : (items : List Literal) →
    resolveItems given items
      = faultOr (firstOffence? given (preorderItems items)) (itemsToValues given items)
  | [] => by rw [resolveItems, itemsToValues, preorderItems]; rfl
  | item :: rest => by
    rw [resolveItems, itemsToValues, preorderItems, firstOffence?_append, resolve_eq_faultOr item,
      resolveItems_eq_faultOr rest]
    -- An offence in the item comes before all others.
    cases firstOffence? given (preorder item) with
    | some fault => rfl
    | none => exact map_faultOr _

/-- The fields of an object resolve to their lenient values, up to the first offence. -/
theorem resolveFields_eq_faultOr : (fields : List (String × Literal)) →
    resolveFields given fields
      = faultOr (firstOffence? given (preorderFields fields)) (fieldsToValues given fields)
  | [] => by rw [resolveFields, fieldsToValues, preorderFields]; rfl
  | (key, literal) :: rest => by
    rw [resolveFields, fieldsToValues, preorderFields, firstOffence?_append,
      resolve_eq_faultOr literal, resolveFields_eq_faultOr rest]
    cases firstOffence? given (preorder literal) with
    | some fault => rfl
    | none => exact map_faultOr _

end

end Literal

/-! ## Arguments -/

/-- **The literals of a field**, in depth-first order: those of all its arguments, also of arguments
that a later one of the same name replaces. -/
def Field.literals (field : Field) : List Literal :=
  field.arguments.flatMap fun argument => argument.value.preorder

namespace Arguments

/-- Arguments resolve in order to their lenient values, up to the first offence. -/
theorem resolveAll_eq_faultOr (given : Variables) (arguments : List Argument) :
    resolveAll given arguments
      = faultOr (Literal.firstOffence? given (arguments.flatMap fun a => a.value.preorder))
          (arguments.map fun a => (a.name, a.value.toValue given)) := by
  induction arguments with
  | nil => rfl
  | cons argument rest ih =>
    rw [resolveAll, List.map_cons, List.flatMap_cons, Literal.firstOffence?_append,
      Literal.resolve_eq_faultOr, ih]
    cases Literal.firstOffence? given argument.value.preorder with
    | some fault => rfl
    | none => exact map_faultOr _

/-- **Strictly built arguments** are the lenient ones, unless some literal of the field offends. -/
theorem strict_eq_faultOr (field : Field) (given : Variables) :
    strict field given
      = faultOr (Literal.firstOffence? given field.literals) (lenient field given) := by
  rw [strict, resolveAll_eq_faultOr, map_faultOr]
  rfl

/-- Arguments are built strictly with some fault, or as leniently. -/
theorem strict_error_or_ok (field : Field) (given : Variables) :
    (∃ fault, strict field given = .error fault)
      ∨ strict field given = .ok (lenient field given) := by
  rw [strict_eq_faultOr]
  cases Literal.firstOffence? given field.literals with
  | some fault => exact .inl ⟨fault, rfl⟩
  | none => exact .inr rfl

/-- No literal offends where every variable is provided and every integer can be read. -/
theorem firstOffence?_eq_none_iff {given : Variables} {literals : List Literal} :
    Literal.firstOffence? given literals = none
      ↔ (∀ name, .variableRef name ∈ literals → ∃ value, given.get? name = some value)
        ∧ ∀ digits, .int digits ∈ literals → ∃ value, Integer.parse digits = .ok value := by
  rw [Literal.firstOffence?, List.findSome?_eq_none_iff]
  simp only [Literal.offence?_eq_none_iff]
  constructor
  · intro h
    constructor
    · intro name hmem
      cases hget : given.get? name with
      | none => exact absurd (.missing hget) (h _ hmem _)
      | some value => exact ⟨value, rfl⟩
    · intro digits hmem
      cases hparse : Integer.parse digits with
      | error fault => exact absurd (.unreadable hparse) (h _ hmem _)
      | ok value => exact ⟨value, rfl⟩
  · -- A literal offends in one of two ways, and neither is possible.
    rintro ⟨hprovided, hread⟩ literal hmem fault (habsent | hunread)
    · obtain ⟨value, hvalue⟩ := hprovided _ hmem
      simp [hvalue] at habsent
    · obtain ⟨value, hvalue⟩ := hread _ hmem
      simp [hvalue] at hunread

/-- **Strict arguments or the first offence.** Arguments can be built strictly if and only if, in
all literals of the field, every variable is provided and every integer can be read. They are then
the lenient ones, each name in its first place with its last value. Otherwise the fault is that of
the first literal in depth-first order that offends. -/
theorem strict_or_firstOffence (field : Field) (given : Variables) :
    ((∃ arguments, strict field given = .ok arguments) ↔
        (∀ name, .variableRef name ∈ field.literals → ∃ value, given.get? name = some value)
          ∧ ∀ digits, .int digits ∈ field.literals → ∃ value, Integer.parse digits = .ok value)
      ∧ (∀ arguments, strict field given = .ok arguments →
          arguments = lenient field given
            ∧ arguments = Entries.lastWrites (field.arguments.map fun argument =>
                (argument.name, argument.value.toValue given)))
      ∧ ∀ fault, strict field given = .error fault →
          ∃ before literal after, field.literals = before ++ literal :: after
            ∧ (∀ earlier ∈ before, ∀ other, ¬ earlier.Offends given other)
            ∧ literal.Offends given fault := by
  rw [strict_eq_faultOr]
  refine ⟨?_, ?_, ?_⟩
  · rw [← firstOffence?_eq_none_iff]
    simp [faultOr_eq_ok_iff]
  · intro arguments h
    obtain ⟨-, rfl⟩ := faultOr_eq_ok_iff.1 h
    exact ⟨rfl, Entries.ofPairs_eq_lastWrites _⟩
  · intro fault h
    rw [faultOr_eq_error_iff, Literal.firstOffence?, List.findSome?_eq_some_iff] at h
    -- The scan passed over what comes before, so none of that offends.
    obtain ⟨before, literal, after, hsplit, hoffence, hbefore⟩ := h
    refine ⟨before, literal, after, hsplit, ?_, Literal.offence?_eq_some_iff.1 hoffence⟩
    exact fun earlier hmem => Literal.offence?_eq_none_iff.1 (hbefore earlier hmem)

/-- A later argument of the same name does not hide what offends in an earlier one. -/
example :
    let repeated : Field := ⟨"f", [⟨"a", .array [.object [("k", .variableRef "x")], .int "y"]⟩,
      ⟨"a", .int "1"⟩], none⟩
    strict repeated ⟨[]⟩ = .error (.variableNotProvided "x") := rfl

end Arguments

end GraphQuery
