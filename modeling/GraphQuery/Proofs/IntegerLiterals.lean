import GraphQuery.Arguments
import GraphQuery.Proofs.Decimal
import GraphQuery.Proofs.Layout
import GraphQuery.Proofs.Nodes
import GraphQuery.Proofs.WellFormed

/-! # Integer literals

An integer is written in a text as digits, and the document keeps them as they are written, in the
place of the argument that they are the value of. Only the values of arguments turn them into a
number: the number that they stand for, if it is in range. If it is not, the strict way reports it,
and the lenient way gives zero (`Parsed.integers_exactOrReported`). -/

namespace GraphQuery

/-! ## The arguments of a document -/

namespace Field

mutual

/-- **The arguments in a field**: its own ones, and those in its nested selection set. -/
def allArguments : Field → List Argument
  | ⟨_, arguments, selection⟩ => arguments ++ argumentsInNested selection

/-- The arguments in a nested selection set, if there is one. -/
def argumentsInNested : Option (List Field) → List Argument
  | none => []
  | some fields => argumentsInAll fields

/-- The arguments in the fields of a selection set. -/
def argumentsInAll : List Field → List Argument
  | [] => []
  | field :: rest => allArguments field ++ argumentsInAll rest

end

theorem argumentsInAll_eq (fields : List Field) :
    argumentsInAll fields = fields.flatMap allArguments := by
  induction fields with
  | nil => rfl
  | cons field rest ih => rw [argumentsInAll, ih, List.flatMap_cons]

end Field

/-- The arguments in a definition. -/
def Definition.arguments : Definition → List Argument
  | .operation op => Field.argumentsInAll op.selection
  | .typeDefinition _ => []

/-- **The arguments in a document**, in the order in which they are written. -/
def Document.arguments (document : Document) : List Argument :=
  document.definitions.flatMap Definition.arguments

namespace Derivation

/-- The meaning of an argument. -/
def Labelled.argument (l : Labelled Value) : Argument := ⟨l.name, l.value.meaning⟩

namespace Field

/-- **The arguments in a field**: its own ones, and those in its nested selection set. -/
def allArguments : Field → List (Labelled Value)
  | ⟨_, _, arguments, none⟩ => arguments.elim [] Group.items
  | ⟨_, _, arguments, some g⟩ =>
    arguments.elim [] Group.items ++ g.items.attach.flatMap fun ⟨f, _⟩ => f.allArguments
decreasing_by
  exact sizeOf_lt_of_mem (mem_itemsOf.1 ‹_›)

theorem allArguments_eq (f : Field) :
    f.allArguments
      = f.argumentItems ++ f.selection.elim [] fun g => g.items.flatMap allArguments := by
  obtain ⟨place, name, arguments, _ | g⟩ := f
  · rw [allArguments]
    exact (List.append_nil _).symm
  · rw [allArguments, List.flatMap_subtype (g := allArguments) fun _ _ => rfl, List.unattach_attach]
    rfl

/-- The arguments in fields mean those in the meanings of the fields. -/
theorem argumentsInAll_meaning {fields : List Field}
    (h : ∀ f ∈ fields, f.meaning.allArguments = f.allArguments.map Labelled.argument) :
    GraphQuery.Field.argumentsInAll (fields.map meaning)
      = (fields.flatMap allArguments).map Labelled.argument := by
  rw [GraphQuery.Field.argumentsInAll_eq, List.flatMap_map, List.map_flatMap]
  exact List.flatMap_congr h

/-- The arguments in a field mean those in its meaning. -/
theorem allArguments_meaning : (f : Field) →
    f.meaning.allArguments = f.allArguments.map Labelled.argument
  | ⟨_, _, _, none⟩ => by
    rw [meaning_eq, allArguments_eq, List.map_append]
    rfl
  | ⟨_, _, _, some g⟩ => by
    rw [meaning_eq, allArguments_eq, List.map_append]
    exact congrArg _ (argumentsInAll_meaning fun f _ => f.allArguments_meaning)
decreasing_by
  exact sizeOf_lt_of_mem (mem_itemsOf.1 ‹_›)

/-- An argument of a field is a stretch of its tokens. -/
theorem argumentItem_part {f : Field} {l : Labelled Value} (hl : l ∈ f.argumentItems) :
    l.tokens Value.tokens <:+: f.tokens := by
  obtain ⟨place, name, _ | g, selection⟩ := f
  · simp [argumentItems] at hl
  · rw [tokens_eq]
    exact (g.item_part _ hl).trans
      ((List.prefix_append _ _).isInfix.trans (List.suffix_cons _ _).isInfix)

/-- A nested field is a stretch of the tokens of the field around it. -/
theorem nested_part {f inner : Field} {g : Selection} (hg : f.selection = some g)
    (hinner : inner ∈ g.items) : inner.tokens <:+: f.tokens := by
  rw [tokens_eq f, hg]
  exact (g.item_part _ hinner).trans
    ((List.suffix_append _ _).isInfix.trans (List.suffix_cons _ _).isInfix)

/-- An argument in a field, however deep, is a stretch of its tokens. -/
theorem argument_part {l : Labelled Value} : (f : Field) → l ∈ f.allArguments →
    l.tokens Value.tokens <:+: f.tokens
  | ⟨place, name, arguments, none⟩, hl => by
    rw [allArguments_eq, List.mem_append] at hl
    exact argumentItem_part (hl.resolve_right List.not_mem_nil)
  | ⟨place, name, arguments, some g⟩, hl => by
    rw [allArguments_eq, List.mem_append] at hl
    rcases hl with hown | hnested
    · exact argumentItem_part hown
    · obtain ⟨f, hf, hl⟩ := List.mem_flatMap.1 hnested
      exact (f.argument_part hl).trans (nested_part rfl hf)
decreasing_by
  exact sizeOf_lt_of_mem (mem_itemsOf.1 ‹_›)

end Field

/-- The arguments in the fields of a selection set. -/
def Selection.arguments (s : Selection) : List (Labelled Value) :=
  s.items.flatMap Field.allArguments

/-- The arguments in a definition. -/
def Definition.arguments : Definition → List (Labelled Value)
  | operation _ _ _ _ selection | anonymous selection => selection.arguments
  | typeDefinition _ _ _ _ => []

/-- **The arguments in a document**, in the order in which they are written. -/
def Document.arguments (d : Document) : List (Labelled Value) :=
  d.definitions.flatMap Definition.arguments

/-- The arguments in a document mean those in its meaning. -/
theorem Document.arguments_meaning (d : Document) :
    d.meaning.arguments = d.arguments.map Labelled.argument := by
  have hdefinition : ∀ definition ∈ d.definitions,
      definition.meaning.arguments = definition.arguments.map Labelled.argument := by
    intro definition _
    cases definition with
    | operation kind keyword name declared selection =>
      exact Field.argumentsInAll_meaning fun f _ => f.allArguments_meaning
    | anonymous selection => exact Field.argumentsInAll_meaning fun f _ => f.allArguments_meaning
    | typeDefinition keyword place name fields => rfl
  rw [GraphQuery.Document.arguments, meaning, List.flatMap_map, arguments, List.map_flatMap]
  exact List.flatMap_congr hdefinition

/-- An argument in a selection set is a stretch of its tokens. -/
theorem Selection.argument_part {s : Selection} {l : Labelled Value} (hl : l ∈ s.arguments) :
    l.tokens Value.tokens <:+: s.tokens Field.tokens := by
  obtain ⟨f, hf, hl⟩ := List.mem_flatMap.1 hl
  exact (f.argument_part hl).trans (s.item_part _ hf)

/-- An argument in a definition is a stretch of its tokens. -/
theorem Definition.argument_part {definition : Definition} {l : Labelled Value}
    (hl : l ∈ definition.arguments) : l.tokens Value.tokens <:+: definition.tokens := by
  cases definition with
  | operation kind keyword name declared selection =>
    have hselection : selection.tokens Field.tokens
        <:+ (Definition.operation kind keyword name declared selection).tokens :=
      (List.suffix_append _ _).trans ((List.suffix_append _ _).trans (List.suffix_cons _ _))
    exact (selection.argument_part hl).trans hselection.isInfix
  | anonymous selection => exact selection.argument_part hl
  | typeDefinition keyword place name fields => simp [arguments] at hl

/-- An argument in a document is a stretch of its tokens. -/
theorem Document.argument_part {d : Document} {l : Labelled Value} (hl : l ∈ d.arguments) :
    l.tokens Value.tokens <:+: d.tokens := by
  obtain ⟨definition, hdefinition, hl⟩ := List.mem_flatMap.1 hl
  exact (definition.argument_part hl).trans (infix_flatMap _ hdefinition)

end Derivation

/-! ## Texts of derivations -/

/-- A text is read as tokens of the kinds that it is laid out as. -/
theorem Token.LaidOut.kindsOf_eq {before cs : List Char} {lexed : List Token}
    (h : LaidOut before cs lexed) : kindsOf cs = lexed.map Token.kind ++ [.eof] := by
  induction h with
  | done before => exact kindsOf_nil
  | blank c hblank more ih => rw [kindsOf_cons_of_isBlank hblank, ih]
  | token spells more ih => rw [spells.kindsOf_append, ih, List.map_cons, List.cons_append]

/-- **A text that is parsed without a diagnostic** is laid out as the tokens of a derivation of the
document, however long it is. -/
theorem Parsed.exists_laidOut {source : String} (h : (ofText source).diagnostics = []) :
    ∃ d : Derivation.Document, Token.LaidOut [] source.toList d.tokens
      ∧ d.meaning = (ofText source).document := by
  obtain ⟨lexed, hlaid⟩ := Token.exists_laidOut [] source.toList
  -- The tokens that are read have the same kinds, if not the same places.
  have hkinds : (lexed ++ [Token.unplacedEof]).map Token.kind
      = (Token.ofText source).map Token.kind := by
    rw [Token.map_kind_ofText, hlaid.kindsOf_eq, List.map_append]
    rfl
  obtain ⟨hdocument, hdiagnostics⟩ := agreesUpToPlaces_of_map_kind hkinds
  have hnone : (ofTokens (lexed ++ [Token.unplacedEof])).diagnostics = [] := by
    rw [show (ofTokens (Token.ofText source)).diagnostics = [] from h] at hdiagnostics
    exact List.map_eq_nil_iff.1 hdiagnostics
  obtain ⟨d, htokens, hmeaning⟩ := exists_derivation hnone
  rw [beforeEof_append hlaid.lossless.noEof rfl] at htokens
  exact ⟨d, htokens ▸ hlaid, hmeaning.trans hdocument⟩

/-- An integer stands in a text as its digits. -/
theorem Token.StandsIn.int {source : List Char} {place : Span} {digits : String}
    (h : StandsIn ⟨.int digits, place⟩ source) :
    IsDigits digits ∧ place.slice? source = some digits.toList := by
  obtain ⟨before, inside, after, -, -, hslice, hspells⟩ := h
  generalize hkind : (⟨.int digits, place⟩ : Token).kind = kind at hspells
  cases hspells with
  | int isDigits maximal =>
    obtain rfl := Kind.int.inj hkind
    refine ⟨⟨?_, ?_⟩, ?_⟩
    · simp
    · simpa using isDigits
    · simpa using hslice
  | punctuator symbol => simp [← hkind, Kind.symbol?] at symbol
  | _ => cases hkind

/-! ## The values of integers -/

namespace Literal

variable {text : String}

/-- **A literal yields an integer**, leniently as well as strictly. -/
def YieldsInt (given : Variables) (literal : Literal) (n : Int) : Prop :=
  ∃ value : Int64, value.toInt = n ∧ literal.toValue given = .int value
    ∧ literal.resolve given = .ok (.int value)

/-- An integer that can be read is converted to its value. -/
theorem convert_of_parse (given : Variables) {value : Int64}
    (h : Integer.parse text = .ok value) :
    toValue given (.int text) = .int value ∧ resolve given (.int text) = .ok (.int value) := by
  rw [toValue, resolve, h]
  exact ⟨rfl, rfl⟩

/-- An integer that cannot be read is zero, or reported. -/
theorem convert_of_fault (given : Variables) {fault : IntegerFault}
    (h : Integer.parse text = .error fault) :
    toValue given (.int text) = .int 0
      ∧ resolve given (.int text) = .error (.invalidInt text fault) := by
  rw [toValue, resolve, h]
  exact ⟨rfl, rfl⟩

/-- An integer is converted strictly exactly if it can be read. -/
theorem exists_resolve_iff (given : Variables) :
    (∃ value, resolve given (.int text) = .ok value) ↔ ∃ value, Integer.parse text = .ok value := by
  cases hread : Integer.parse text with
  | ok value =>
    have hresolve := (convert_of_parse given hread).2
    exact ⟨fun _ => ⟨value, rfl⟩, fun _ => ⟨_, hresolve⟩⟩
  | error fault =>
    rw [(convert_of_fault given hread).2]
    simp

/-- **Digits are converted** exactly or reported. -/
structure ConvertsDigits (given : Variables) (digits : String) : Prop where
  /-- Digits yield the number that they stand for if it is in range. -/
  exact : Integer.decimal digits.toList ≤ 2 ^ 63 - 1 →
    YieldsInt given (.int digits) (Integer.decimal digits.toList)
  /-- Otherwise they give zero leniently, and strictly they are reported as too large. -/
  tooLarge : 2 ^ 63 - 1 < Integer.decimal digits.toList →
    toValue given (.int digits) = .int 0
      ∧ resolve given (.int digits) = .error (.invalidInt digits .tooLarge)

/-- **The text of an integer is converted** exactly or reported, whatever text it is. -/
structure ConvertsText (given : Variables) (text : String) : Prop where
  /-- It is converted strictly exactly if it denotes an integer in range. -/
  resolves : (∃ value, resolve given (.int text) = .ok value) ↔
    ∃ n, Integer.Denotes text.toList n ∧ -2 ^ 63 ≤ n ∧ n ≤ 2 ^ 63 - 1
  /-- Then it yields that integer. -/
  exact : ∀ n, Integer.Denotes text.toList n → -2 ^ 63 ≤ n → n ≤ 2 ^ 63 - 1 →
    YieldsInt given (.int text) n
  /-- In all other cases, it gives zero leniently. -/
  zero : (¬ ∃ n, Integer.Denotes text.toList n ∧ -2 ^ 63 ≤ n ∧ n ≤ 2 ^ 63 - 1) →
    toValue given (.int text) = .int 0

/-- Digits are converted exactly or reported. -/
theorem convertsDigits (given : Variables) {digits : String} (h : IsDigits digits) :
    ConvertsDigits given digits where
  exact hfits := by
    obtain ⟨value, hvalue, hread⟩ :=
      (Integer.Denotes.bare h.1 h.2).exists_parse (by omega) (by omega)
    exact ⟨value, hvalue, convert_of_parse given hread⟩
  tooLarge hlarge := by
    refine convert_of_fault given ?_
    rw [Integer.parse_digits h.1 h.2, if_neg (by omega)]

/-- The text of an integer is converted exactly or reported. -/
theorem convertsText (given : Variables) (text : String) : ConvertsText given text where
  resolves := (exists_resolve_iff given).trans Integer.exists_parse_iff
  exact n hdenotes hmin hmax := by
    obtain ⟨value, hvalue, hread⟩ := hdenotes.exists_parse hmin hmax
    exact ⟨value, hvalue, convert_of_parse given hread⟩
  zero hnone := by
    cases hread : Integer.parse text with
    | ok value => exact absurd (Integer.exists_parse_iff.1 ⟨value, hread⟩) hnone
    | error fault => exact (convert_of_fault given hread).1

end Literal

/-! ## Integers in texts -/

/-- **An argument keeps its digits** if it is an integer: its value are the digits that stand in the
text, and they are converted exactly or reported. -/
structure Derivation.Labelled.KeepsDigits (given : Variables) (source : List Char)
    (l : Labelled Value) (place : Span) (digits : String) : Prop where
  /-- The digits are a token of the text. -/
  standsIn : Token.StandsIn ⟨.int digits, place⟩ source
  /-- They are a run of digits. -/
  isDigits : IsDigits digits
  /-- The text has just them at their place. -/
  slice_eq : place.slice? source = some digits.toList
  /-- They are the value of the argument. -/
  value_eq : l.argument.value = .int digits
  /-- They are converted exactly or reported. -/
  converts : Literal.ConvertsDigits given digits

/-- An argument that is an integer keeps its digits, where its document is laid out as a text. -/
theorem Derivation.Document.keepsDigits {source : String} {d : Document}
    (hlaid : Token.LaidOut [] source.toList d.tokens) (given : Variables) {l : Labelled Value}
    (hl : l ∈ d.arguments) {place : Span} {digits : String} (hvalue : l.value = .int place digits) :
    l.KeepsDigits given source.toList place digits := by
  have hmem : (⟨.int digits, place⟩ : Token) ∈ d.tokens := by
    refine (argument_part hl).mem ?_
    rw [Labelled.tokens, hvalue, Value.tokens]
    simp
  have hstands := hlaid.lossless.spelled _ hmem
  obtain ⟨hdigits, hslice⟩ := hstands.int
  refine ⟨hstands, hdigits, hslice, ?_, Literal.convertsDigits given hdigits⟩
  rw [Labelled.argument, hvalue, Value.meaning]

/-- **Integers are converted exactly or reported.** A text that is parsed without a diagnostic is
laid out as the tokens of a derivation of its document, and the arguments of the document are those
of the derivation, one by one; where an argument is written as digits, the document keeps them, and
they yield the number that they stand for or are reported as too large. And whatever the text of an
integer is, it yields what it denotes if that is in range, and is reported otherwise. -/
theorem Parsed.integers_exactOrReported (given : Variables) :
    (∀ source : String, (ofText source).diagnostics = [] →
      ∃ d : Derivation.Document, Token.LaidOut [] source.toList d.tokens
        ∧ d.meaning = (ofText source).document
        ∧ (ofText source).document.arguments = d.arguments.map Derivation.Labelled.argument
        ∧ ∀ l ∈ d.arguments, l.tokens Derivation.Value.tokens <:+: d.tokens
          ∧ ∀ place digits, l.value = .int place digits →
            l.KeepsDigits given source.toList place digits)
      ∧ ∀ text : String, Literal.ConvertsText given text := by
  refine ⟨fun source h => ?_, Literal.convertsText given⟩
  obtain ⟨d, hlaid, hmeaning⟩ := exists_laidOut h
  refine ⟨d, hlaid, hmeaning, hmeaning ▸ d.arguments_meaning, fun l hl => ?_⟩
  exact ⟨Derivation.Document.argument_part hl, fun place digits hvalue =>
    Derivation.Document.keepsDigits hlaid given hl hvalue⟩

/-- A query with digits that start with zeros and, in a nested selection set, digits that are out of
range. -/
def digitsQuery : String := "\x7b f(a: 007) \x7b g(b: 9223372036854775808) \x7d \x7d"

/-- The digits of a query are kept. The smallest integer is converted, though its digits alone are
out of range, and a sign without digits is not. -/
theorem Parsed.integers_exactOrReported_digitsQuery :
    (ofText digitsQuery).diagnostics = []
      ∧ (∃ d : Derivation.Document, Token.LaidOut [] digitsQuery.toList d.tokens
        ∧ d.arguments.map Derivation.Labelled.name = ["a", "b"]
        ∧ ∀ l ∈ d.arguments, ∀ place digits, l.value = .int place digits →
          l.KeepsDigits ⟨[]⟩ digitsQuery.toList place digits)
      ∧ Literal.YieldsInt ⟨[]⟩ (.int "-9223372036854775808") (-2 ^ 63)
      ∧ ¬ ∃ value, Literal.resolve ⟨[]⟩ (.int "-") = .ok value := by
  have hvalid : (ofText digitsQuery).diagnostics = [] := by decide +kernel
  have hnames : (ofText digitsQuery).document.arguments.map Argument.name = ["a", "b"] := by
    decide +kernel
  have hdigits : ∀ c ∈ "9223372036854775808".toList, c.isDigit :=
    List.all_eq_true.1 (by decide)
  have hsmallest : Integer.Denotes "-9223372036854775808".toList (-2 ^ 63) :=
    .minus (by simp) hdigits
  obtain ⟨htexts, hliterals⟩ := integers_exactOrReported ⟨[]⟩
  obtain ⟨d, hlaid, -, harguments, hkeeps⟩ := htexts digitsQuery hvalid
  rw [harguments, List.map_map] at hnames
  refine ⟨hvalid, ⟨d, hlaid, hnames, fun l hl => (hkeeps l hl).2⟩, ?_, ?_⟩
  · exact (hliterals _).exact _ hsmallest (by decide) (by decide)
  · rw [(hliterals "-").resolves]
    rintro ⟨n, hdenotes, -⟩
    rw [show "-".toList = ['-'] from rfl] at hdenotes
    cases hdenotes with
    | bare _ digits => exact absurd (digits '-' List.mem_cons_self) (by decide)
    | minus nonempty _ => exact nonempty rfl

end GraphQuery
