import GraphQuery.Parse
import GraphQuery.Reading.Definition
import GraphQuery.Proofs.Lexing
import Mathlib.Data.List.Forall2
import Mathlib.Data.List.Infix

/-! # The trail of a reader

A reader goes along its tokens: it passes the next token, unless that is an end of input, or it
records a diagnostic that points at the next token. What it does is a **trail** (`Reading.Trail`),
and since trails may be put one after the other, there is one short lemma for each reader. From the
trail of a document it can be read off where its diagnostics stand: each points at a token, they
stand in the order of the tokens, and what a diagnostic says about the token it points at is true
(`Parsed.located_ofText`). -/

namespace GraphQuery

/-! ## Diagnostics that point at tokens -/

/-- Groups of different shapes are closed by different brackets. -/
theorem Delimiter.closeSymbol_injective {shape other : Delimiter}
    (h : shape.closeSymbol = other.closeSymbol) : shape = other := by
  cases shape <;> cases other <;> simp_all [closeSymbol]

/-- **A cause suits** the kind of a token if what it says about the token is true. -/
def Cause.Suits (kind : Token.Kind) : Cause → Prop
  | unexpectedEof _ | unclosedDelimiter _ => kind = .eof
  | unexpectedToken _ found => kind ≠ .eof ∧ found = kind.describe
  | illegalCharacter character => kind = .illegal character
  | mismatchedDelimiter expected found =>
    ∃ shape other : Delimiter, kind = .closing shape ∧ found = String.singleton shape.closeSymbol
      ∧ expected = String.singleton other.closeSymbol ∧ expected ≠ found
  | recursionLimitExceeded | iterationLimitExceeded => True

namespace Diagnostic

/-- **A diagnostic points at a token**: it stands in its place, and its cause suits it. -/
structure PointsAt (d : Diagnostic) (t : Token) : Prop where
  /-- The diagnostic stands where the token does. -/
  span : d.span = t.span
  /-- What it says about the token is true. -/
  cause : d.cause.Suits t.kind

theorem unexpected_pointsAt (expectation : Expectation) (t : Token) :
    (unexpected expectation t).PointsAt t := by
  refine ⟨rfl, ?_⟩
  unfold unexpected
  cases t.kind <;> simp [Cause.Suits]

theorem unclosed_pointsAt (construct : Construct) {t : Token} (h : t.kind = .eof) :
    (unclosed construct t).PointsAt t := ⟨rfl, h⟩

theorem mismatched_pointsAt {construct : Construct} {t : Token} {shape : Delimiter}
    (hkind : t.kind = .closing shape) (hshape : shape ≠ construct.shape) :
    (mismatched construct t).PointsAt t := by
  refine ⟨rfl, shape, construct.shape, hkind, ?_, rfl, ?_⟩
  · rw [hkind]
    rfl
  · intro hsame
    rw [hkind] at hsame
    exact hshape (Delimiter.closeSymbol_injective (String.singleton_inj.1 hsame).symm)

theorem tooManyItems_pointsAt (construct : String) (t : Token) :
    (tooManyItems construct t).PointsAt t := ⟨rfl, trivial⟩

theorem nestedTooDeep_pointsAt (t : Token) : (nestedTooDeep t).PointsAt t := ⟨rfl, trivial⟩

end Diagnostic

namespace Reading

/-! ## Trails -/

/-- **A trail** along tokens, with the diagnostics recorded on the way, to the tokens left. -/
inductive Trail : List Token → List Diagnostic → List Token → Prop where
  /-- Nothing is done. -/
  | done (ts : List Token) : Trail ts [] ts
  /-- The next token is passed. -/
  | pass {t : Token} {ts rest : List Token} {ds : List Diagnostic} (goesOn : t.kind ≠ .eof)
    (more : Trail ts ds rest) : Trail (t :: ts) ds rest
  /-- A diagnostic is recorded that points at the next token. -/
  | report {d : Diagnostic} {ts rest : List Token} {ds : List Diagnostic}
    (points : d.PointsAt (nextToken ts)) (more : Trail ts ds rest) : Trail ts (d :: ds) rest

namespace Trail

variable {ts rest last : List Token} {ds more : List Diagnostic} {d : Diagnostic}

/-- One trail goes on where another one ends. -/
theorem trans (h : Trail ts ds rest) (hmore : Trail rest more last) :
    Trail ts (ds ++ more) last := by
  induction h with
  | done ts => exact hmore
  | pass goesOn _ ih => exact .pass goesOn (ih hmore)
  | report points _ ih => exact .report points (ih hmore)

/-- A trail from the token behind the next one, which is passed. -/
theorem of_tail (h : Trail ts.tail ds rest) (heof : nextKind ts ≠ .eof) : Trail ts ds rest := by
  cases ts with
  | nil => exact absurd rfl heof
  | cons t ts => exact .pass heof h

/-- A trail behind a token of a certain kind, which is passed. -/
theorem past {kind : Token.Kind} (h : Trail ts.tail ds rest) (hnext : nextKind ts = kind)
    (hkind : kind ≠ .eof) : Trail ts ds rest :=
  h.of_tail (hnext ▸ hkind)

/-- A single diagnostic. -/
theorem single (h : d.PointsAt (nextToken ts)) : Trail ts [d] ts := .report h (.done ts)

/-- **Tokens are passed one by one**, and an end of input never. -/
theorem exists_passed (h : Trail ts ds rest) :
    ∃ passed, ts = passed ++ rest ∧ ∀ t ∈ passed, t.kind ≠ .eof := by
  induction h with
  | done ts => exact ⟨[], rfl, nofun⟩
  | @pass t ts rest ds goesOn _ ih =>
    obtain ⟨passed, rfl, hpassed⟩ := ih
    exact ⟨t :: passed, rfl, List.forall_mem_cons.2 ⟨goesOn, hpassed⟩⟩
  | report _ _ ih => exact ih

/-- What is left is the end of the tokens. -/
theorem suffix (h : Trail ts ds rest) : rest <:+ ts := by
  obtain ⟨passed, rfl, -⟩ := h.exists_passed
  exact List.suffix_append passed rest

/-- **Diagnostics stand in the order of the tokens** that they point at. -/
theorem exists_places (h : Trail ts ds rest) (hends : ∃ t ∈ ts, t.kind = .eof) :
    ∃ places : List Nat, places.Pairwise (· ≤ ·)
      ∧ List.Forall₂ (fun d place => ∃ t, ts[place]? = some t ∧ d.PointsAt t) ds places := by
  induction h with
  | done ts => exact ⟨[], .nil, .nil⟩
  | @pass t ts rest ds goesOn more ih =>
    -- The token that is passed is not the end of input, which therefore comes later.
    have hlater : ∃ t ∈ ts, t.kind = .eof := by
      obtain ⟨eof, hmem, heof⟩ := hends
      rcases List.mem_cons.1 hmem with rfl | hmem
      · exact absurd heof goesOn
      · exact ⟨eof, hmem, heof⟩
    obtain ⟨places, hordered, hplaces⟩ := ih hlater
    refine ⟨places.map (· + 1), ?_, ?_⟩
    · exact List.pairwise_map.2 (hordered.imp fun h => Nat.succ_le_succ h)
    · rw [List.forall₂_map_right_iff]
      exact hplaces
  | @report d ts rest ds points more ih =>
    obtain ⟨places, hordered, hplaces⟩ := ih hends
    refine ⟨0 :: places, List.pairwise_cons.2 ⟨fun _ _ => Nat.zero_le _, hordered⟩, ?_⟩
    refine .cons ?_ hplaces
    cases ts with
    | nil => simp at hends
    | cons t ts => exact ⟨t, rfl, points⟩

end Trail

variable {α β : Type} {ts : List Token}

/-- **A reader follows its tokens** if what it does is a trail. -/
def Follows (reader : List Token → Reading α) : Prop :=
  ∀ ts, Trail ts (reader ts).diagnostics (reader ts).rest

/-- What reads on after a trail goes on with it. -/
theorem Trail.andThen {r : Reading α} {f : α → List Token → Reading β}
    (h : Trail ts r.diagnostics r.rest) (hf : ∀ value, Follows (f value)) :
    Trail ts (r.andThen f).diagnostics (r.andThen f).rest :=
  h.trans (hf r.value r.rest)

/-! ## Recovery -/

theorem follows_unexpected (expectation : Expectation) (value : α) :
    Follows (unexpected expectation value) :=
  fun ts => .single (Diagnostic.unexpected_pointsAt expectation (nextToken ts))

/-- The next token is passed, if it is not an end of input. -/
theorem trail_dropToken (ts : List Token) : Trail ts [] (dropToken ts) := by
  unfold dropToken
  split
  · exact .done ts
  · next heof => exact (Trail.done ts.tail).of_tail heof

theorem follows_skipUnexpected (expectation : Expectation) (value : α) :
    Follows (skipUnexpected expectation value) :=
  fun ts => .report (Diagnostic.unexpected_pointsAt expectation (nextToken ts)) (trail_dropToken ts)

theorem follows_close (construct : Construct) : Follows (close construct) := by
  intro ts
  unfold close
  split
  · next heof => exact .single (Diagnostic.unclosed_pointsAt construct heof)
  · next shape hclosing =>
    split
    · exact (Trail.done ts.tail).past hclosing (by simp)
    · next hshape => exact .single (Diagnostic.mismatched_pointsAt hclosing hshape)
  · exact follows_unexpected _ _ ts

/-- Skipping a group is a trail, however many of its brackets are open. -/
theorem follows_skipGroup (construct : Construct) (budget depth : Nat) :
    Follows (skipGroup construct budget depth) := by
  intro ts
  induction budget generalizing depth ts with
  | zero =>
    rw [skipGroup]
    split
    · next heof => exact .single (Diagnostic.unclosed_pointsAt construct heof)
    · exact .single (Diagnostic.tooManyItems_pointsAt _ _)
  | succ budget ih =>
    rw [skipGroup]
    split
    · next heof => exact .single (Diagnostic.unclosed_pointsAt construct heof)
    · next heof =>
      -- The token is passed in every case, only the number of open brackets differs.
      split
      · exact (ih _ ts.tail).of_tail heof
      · split
        · split
          · exact (Trail.done ts.tail).of_tail heof
          · exact (ih _ ts.tail).of_tail heof
        · exact (ih _ ts.tail).of_tail heof

/-- Reading items is a trail, if reading an item is. -/
theorem follows_items {construct : Construct} {item : List Token → Reading (Item α)}
    (hitem : Follows item) (budget : Nat) : Follows (items construct item budget) := by
  intro ts
  induction budget generalizing ts with
  | zero => exact .single (Diagnostic.tooManyItems_pointsAt _ _)
  | succ budget ih =>
    rw [items]
    split
    · exact follows_close construct ts
    · split
      · next hcomma => exact (ih ts.tail).past hcomma (by simp)
      · -- Whatever is made of the item, its trail is followed by that of the later rounds.
        refine (hitem ts).andThen fun made ts => ?_
        cases made with
        | kept value => exact ih ts
        | skipped => exact ih ts
        | spoilt remark => exact .done ts

theorem follows_nullability : Follows nullability := by
  intro ts
  unfold nullability
  split
  · next hbang => exact (Trail.done ts.tail).past hbang (by simp)
  · exact .done ts

theorem follows_variableName : Follows variableName := by
  intro ts
  unfold variableName
  split
  · next name hname => exact (Trail.done ts.tail).past hname (by simp)
  · exact follows_unexpected _ _ ts

theorem follows_argument {value : List Token → Reading Literal} (hvalue : Follows value) :
    Follows (argument value) := by
  intro ts
  unfold argument
  split
  · next name hname =>
    refine Trail.past ?_ hname (by simp)
    split
    · next hcolon => exact (hvalue ts.tail.tail).past hcolon (by simp)
    · exact follows_unexpected _ _ ts.tail
  · exact follows_skipUnexpected _ _ ts

/-- A nested selection set is a trail, if a selection set is one from its opening bracket on. -/
theorem follows_nested {selection : List Token → Reading SelectionSet}
    (hselection : ∀ ts, nextKind ts = .opening .brace →
      Trail ts (selection ts).diagnostics (selection ts).rest) : Follows (nested selection) := by
  intro ts
  unfold nested
  split
  · next hopening => exact hselection ts hopening
  · exact .done ts

theorem follows_name? : Follows name? := by
  intro ts
  unfold name?
  split
  · next name hname => exact (Trail.done ts.tail).past hname (by simp)
  · exact .done ts

/-! ## Type references and literals -/

-- From here on the number of rounds matters, and it may be any.
variable [Rounds]

theorem follows_skipSubtree : Follows skipSubtree := by
  intro ts
  unfold skipSubtree
  split
  · exact follows_skipGroup _ _ _ ts
  · exact trail_dropToken ts

theorem follows_tooDeep (value : α) : Follows (tooDeep value) :=
  fun ts =>
    .report (Diagnostic.nestedTooDeep_pointsAt (nextToken ts)) (follows_skipSubtree ts)

theorem follows_typeReference (levels : Nat) : Follows (typeReference levels) := by
  intro ts
  induction levels generalizing ts with
  | zero => exact follows_tooDeep none ts
  | succ levels ih =>
    rw [typeReference]
    split
    · next hopening =>
      refine Trail.past ?_ hopening (by simp)
      exact (ih ts.tail).andThen fun element ts => (follows_close .listType ts).andThen fun _ ts =>
        follows_nullability ts
    · next name hname => exact (follows_nullability ts.tail).past hname (by simp)
    · exact follows_unexpected _ _ ts

theorem follows_spoilObject (expectation : Expectation) : Follows (spoilObject expectation) :=
  fun ts => (follows_unexpected expectation () ts).andThen fun _ ts =>
    follows_skipGroup .objectValue _ 1 ts

theorem follows_objectField {value : List Token → Reading Literal} (hvalue : Follows value) :
    Follows (objectField value) := by
  intro ts
  unfold objectField
  split
  · next key hkey =>
    refine Trail.past ?_ hkey (by simp)
    split
    · next hcolon => exact (hvalue ts.tail.tail).past hcolon (by simp)
    · exact follows_spoilObject _ ts.tail
  · exact follows_spoilObject _ ts

theorem follows_literal (levels : Nat) : Follows (literal levels) := by
  intro ts
  induction levels generalizing ts with
  | zero => exact follows_tooDeep _ ts
  | succ levels ih =>
    -- To keep every item changes nothing about its trail.
    have hitem : Follows fun ts => (literal levels ts).map Item.kept := fun ts => ih ts
    rw [literal]
    split
    · next hopening =>
      exact (follows_items (follows_objectField ih) _ ts.tail).past hopening (by simp)
    · next hopening =>
      exact (follows_items hitem _ ts.tail).past hopening (by simp)
    · next digits hint => exact (Trail.done ts.tail).past hint (by simp)
    · next contents hstring => exact (Trail.done ts.tail).past hstring (by simp)
    · next name hname => exact (Trail.done ts.tail).past hname (by simp)
    · next hdollar =>
      exact (follows_variableName ts.tail).past hdollar (by simp)
    · exact follows_unexpected _ _ ts
    · exact follows_unexpected _ _ ts
    · exact follows_skipUnexpected _ _ ts

/-! ## Selections -/

theorem follows_arguments {value : List Token → Reading Literal} (hvalue : Follows value) :
    Follows (arguments value) := by
  intro ts
  unfold arguments
  split
  · next hopening =>
    exact (follows_items (follows_argument hvalue) _ ts.tail).past hopening (by simp)
  · exact .done ts

theorem follows_field {value : List Token → Reading Literal}
    {selection : List Token → Reading SelectionSet} (hvalue : Follows value)
    (hselection : ∀ ts, nextKind ts = .opening .brace →
      Trail ts (selection ts).diagnostics (selection ts).rest) :
    Follows (field value selection) := by
  intro ts
  unfold field
  split
  · next name hname =>
    refine Trail.past ?_ hname (by simp)
    exact (follows_arguments hvalue ts.tail).andThen fun _ ts => follows_nested hselection ts
  · exact follows_skipUnexpected _ _ ts

/-- What nests no deeper than it may is a trail behind its opening bracket. -/
theorem trail_selectionSet_succ {levels : Nat}
    (hselection : ∀ ts, nextKind ts = .opening .brace →
      Trail ts (selectionSet levels ts).diagnostics
        (selectionSet levels ts).rest) (ts : List Token) :
    Trail ts.tail (selectionSet (levels + 1) ts).diagnostics (selectionSet (levels + 1) ts).rest :=
  follows_items (follows_field (follows_literal levels) hselection) (rounds ts.tail)
    ts.tail

/-- A selection set is a trail from its opening bracket on, which is passed without a look. -/
theorem trail_selectionSet (levels : Nat) (ts : List Token)
    (hopening : nextKind ts = .opening .brace) :
    Trail ts (selectionSet levels ts).diagnostics (selectionSet levels ts).rest := by
  induction levels generalizing ts with
  | zero => exact follows_tooDeep [] ts
  | succ levels ih => exact (trail_selectionSet_succ ih ts).past hopening (by simp)

/-! ## Definitions -/

/-- What declares a variable is a trail behind its dollar sign. -/
theorem trail_variableDefinition (h : nextKind ts = .dollar) :
    Trail ts.tail (variableDefinition ts).diagnostics (variableDefinition ts).rest := by
  unfold variableDefinition
  rw [h]
  refine (follows_variableName ts.tail).andThen fun name ts => ?_
  cases name with
  | none => exact .done ts
  | some name =>
    dsimp only
    split
    · next hcolon => exact (follows_typeReference maxNesting ts.tail).past hcolon (by simp)
    · exact .done ts

theorem follows_variableDefinition : Follows variableDefinition := by
  intro ts
  cases hnext : nextKind ts with
  | dollar => exact (trail_variableDefinition hnext).past hnext (by simp)
  | _ =>
    unfold variableDefinition
    rw [hnext]
    exact follows_skipUnexpected _ _ ts

theorem follows_variableDefinitions : Follows variableDefinitions := by
  intro ts
  unfold variableDefinitions
  split
  · next hopening =>
    exact (follows_items follows_variableDefinition _ ts.tail).past hopening (by simp)
  · exact .done ts

theorem follows_rootSelection (kind : OperationKind) : Follows (rootSelection kind) := by
  intro ts
  unfold rootSelection
  split
  · next hopening => exact trail_selectionSet maxNesting ts hopening
  · exact follows_unexpected _ _ ts

theorem follows_operation (kind : OperationKind) : Follows (operation kind) :=
  fun ts => (follows_name? ts).andThen fun _ ts =>
    (follows_variableDefinitions ts).andThen fun _ ts => follows_rootSelection kind ts

theorem follows_argumentDefinitions : Follows argumentDefinitions := by
  intro ts
  unfold argumentDefinitions
  split
  · exact follows_skipGroup _ _ _ ts
  · exact .done ts

/-- What defines a field is a trail behind its name. -/
theorem trail_fieldDefinition {name : String} (h : nextKind ts = .name name) :
    Trail ts.tail (fieldDefinition ts).diagnostics (fieldDefinition ts).rest := by
  unfold fieldDefinition
  rw [h]
  refine (follows_argumentDefinitions ts.tail).andThen fun _ ts => ?_
  split
  · next hcolon => exact (follows_typeReference maxNesting ts.tail).past hcolon (by simp)
  · exact follows_unexpected _ _ ts

theorem follows_fieldDefinition : Follows fieldDefinition := by
  intro ts
  cases hnext : nextKind ts with
  | name name => exact (trail_fieldDefinition hnext).past hnext (by simp)
  | _ =>
    unfold fieldDefinition
    rw [hnext]
    exact follows_skipUnexpected _ _ ts

theorem follows_typeDefinition : Follows typeDefinition := by
  intro ts
  unfold typeDefinition
  split
  · next name hname =>
    refine Trail.past ?_ hname (by simp)
    split
    · next hopening =>
      exact (follows_items follows_fieldDefinition _ ts.tail.tail).past hopening (by simp)
    · exact follows_unexpected _ _ ts.tail
  · refine (follows_unexpected .typeName () ts).andThen fun _ ts => ?_
    split
    · exact follows_skipGroup _ _ _ ts
    · exact .done ts

theorem follows_definition : Follows definition := by
  intro ts
  unfold definition
  split
  · exact follows_rootSelection .query ts
  · next keyword hkeyword =>
    split
    · next kind _ => exact (follows_operation kind ts.tail).past hkeyword (by simp)
    · split
      · exact (follows_typeDefinition ts.tail).past hkeyword (by simp)
      · exact follows_skipUnexpected _ _ ts
  · exact follows_skipUnexpected _ _ ts

/-- Reading definitions is a trail, however many rounds it may take. -/
theorem follows_definitions (budget : Nat) : Follows (definitions budget) := by
  intro ts
  induction budget generalizing ts with
  | zero =>
    rw [definitions]
    split
    · exact .done ts
    · exact .single (Diagnostic.tooManyItems_pointsAt _ _)
  | succ budget ih =>
    rw [definitions]
    split
    · exact .done ts
    · exact (follows_definition ts).andThen fun _ ts => ih ts

/-- **Reading a document follows its tokens.** -/
theorem follows_document : Follows document :=
  fun ts => follows_definitions (rounds ts) ts

end Reading

/-! ## The diagnostics of a source text -/

/-- Every token of a source text, the end of input too, cuts a slice out of the text. -/
theorem Token.exists_slice_of_mem_ofText {source : String} {t : Token}
    (h : source.utf8ByteSize < 0x100000000) (ht : t ∈ ofText source) :
    ∃ text, t.span.slice? source.toList = some text := by
  obtain ⟨before, inside, after, hsource, hspan, -⟩ := exists_place_of_mem_ofText h ht
  rw [hspan, hsource]
  exact ⟨inside, Span.slice?_between before inside after⟩

/-- The tokens of a source text have an end. -/
theorem Token.exists_eof_mem_ofText (source : String) : ∃ t ∈ ofText source, t.kind = .eof := by
  obtain ⟨lexed, place, hlex, -⟩ := exists_isSpelled_lexFrom 0 source.toList
  refine ⟨⟨.eof, place⟩, ?_, rfl⟩
  rw [ofText, hlex]
  exact List.mem_append_right lexed (List.mem_singleton_self _)

/-- **Diagnostics are located and ordered**: each diagnostic on a source text whose offsets fit
into thirty-two bits points at one of its tokens, over whose slice of the text it stands, and the
diagnostics stand in the order of the tokens. -/
theorem Parsed.located_ofText (source : String) (h : source.utf8ByteSize < 0x100000000) :
    ∃ places : List Nat, places.Pairwise (· ≤ ·)
      ∧ List.Forall₂ (fun d place => ∃ t, (Token.ofText source)[place]? = some t ∧ d.PointsAt t
          ∧ ∃ text, d.span.slice? source.toList = some text)
        (Parsed.ofText source).diagnostics places := by
  obtain ⟨places, hordered, hplaces⟩ :=
    (Reading.follows_document (Token.ofText source)).exists_places
      (Token.exists_eof_mem_ofText source)
  refine ⟨places, hordered, hplaces.imp ?_⟩
  -- A diagnostic has the span of its token, and that span cuts out a slice.
  rintro d place ⟨t, ht, hpoints⟩
  obtain ⟨text, hslice⟩ := Token.exists_slice_of_mem_ofText h (List.mem_of_getElem? ht)
  exact ⟨t, ht, hpoints, text, hpoints.span ▸ hslice⟩

/-- A bracket that closes neither of two open constructs, which both say so at its place; then a
bracket too many, a character of two bytes that starts no token, and an open selection set. -/
theorem Parsed.located_ofText_brackets :
    (Parsed.ofText "\x7b a(b: [1\x7d) § \x7b").diagnostics.map Diagnostic.span
        = [⟨9, 10⟩, ⟨9, 10⟩, ⟨10, 11⟩, ⟨12, 14⟩, ⟨16, 16⟩]
      ∧ ∃ places : List Nat, places.Pairwise (· ≤ ·)
        ∧ List.Forall₂ (fun d place => ∃ t,
            (Token.ofText "\x7b a(b: [1\x7d) § \x7b")[place]? = some t ∧ d.PointsAt t
              ∧ ∃ text, d.span.slice? "\x7b a(b: [1\x7d) § \x7b".toList = some text)
          (Parsed.ofText "\x7b a(b: [1\x7d) § \x7b").diagnostics places :=
  ⟨by decide +kernel, located_ofText "\x7b a(b: [1\x7d) § \x7b" (by decide +kernel)⟩

end GraphQuery
