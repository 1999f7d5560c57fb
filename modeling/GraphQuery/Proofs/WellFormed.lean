import GraphQuery.Proofs.Acceptance
import GraphQuery.Proofs.Lexing

/-! # Well-formed texts

A text is **well formed** when none of its tokens is illegal and its brackets, of all three shapes,
are properly nested. A text that is parsed without a diagnostic is well formed outside of what the
fields of its types take. There, only the round brackets are looked at: so the text is well formed
exactly if what stands between these brackets is (`wellFormed_ofText_iff`). -/

namespace GraphQuery

/-! ## Nested brackets -/

/-- Whether a token is illegal. -/
def Token.Kind.isIllegal : Token.Kind → Bool
  | illegal _ => true
  | _ => false

/-- What a token makes of the brackets that are open, the last of them first. A closing bracket
needs to close that one. -/
def Token.Kind.nest (stack : List Delimiter) : Token.Kind → Option (List Delimiter)
  | opening shape => some (shape :: stack)
  | closing shape =>
    match stack with
    | [] => none
    | top :: below => if top = shape then some below else none
  | _ => some stack

/-- The brackets that are open after a stretch of tokens, as long as each closing bracket closes
the last one that is open. -/
def openAfter (stack : List Delimiter) : List Token → Option (List Delimiter)
  | [] => some stack
  | t :: ts => (t.kind.nest stack).bind fun stack => openAfter stack ts

/-- **Well-formed tokens**: none is illegal, and their brackets are properly nested. -/
structure WellFormed (ts : List Token) : Prop where
  /-- No token is illegal. -/
  legal : ∀ t ∈ ts, t.kind.isIllegal = false
  /-- Each closing bracket closes the last one that is open, and none is left open. -/
  nested : openAfter [] ts = some []

instance (ts : List Token) : Decidable (WellFormed ts) :=
  decidable_of_iff ((∀ t ∈ ts, t.kind.isIllegal = false) ∧ openAfter [] ts = some [])
    ⟨fun h => ⟨h.1, h.2⟩, fun h => ⟨h.legal, h.nested⟩⟩

variable {shape : Delimiter} {stack above below : List Delimiter} {ts as bs inside : List Token}

@[simp] theorem openAfter_nil : openAfter stack [] = some stack := rfl

@[simp] theorem openAfter_cons (t : Token) :
    openAfter stack (t :: ts) = (t.kind.nest stack).bind fun stack => openAfter stack ts := rfl

theorem openAfter_append :
    openAfter stack (as ++ bs) = (openAfter stack as).bind fun stack => openAfter stack bs := by
  induction as generalizing stack with
  | nil => rfl
  | cons t as ih =>
    rw [List.cons_append, openAfter_cons, openAfter_cons, Option.bind_assoc]
    exact congrArg _ (funext fun stack => ih)

/-- Brackets further below do not matter to a token that looks at none of them. -/
theorem nest_append {kind : Token.Kind} (h : kind.nest stack = some above)
    (below : List Delimiter) : kind.nest (stack ++ below) = some (above ++ below) := by
  cases kind with
  | opening shape =>
    obtain rfl : shape :: stack = above := by simpa [Token.Kind.nest] using h
    rfl
  | closing shape =>
    rcases stack with _ | ⟨top, stack⟩
    · simp [Token.Kind.nest] at h
    · obtain ⟨rfl, rfl⟩ : top = shape ∧ stack = above := by simpa [Token.Kind.nest] using h
      simp [Token.Kind.nest]
  | _ =>
    obtain rfl : stack = above := by simpa [Token.Kind.nest] using h
    rfl

/-- Brackets further below do not matter to tokens that close none of them. -/
theorem openAfter_append_stack (h : openAfter stack ts = some above) (below : List Delimiter) :
    openAfter (stack ++ below) ts = some (above ++ below) := by
  induction ts generalizing stack with
  | nil =>
    obtain rfl : stack = above := by simpa using h
    rfl
  | cons t ts ih =>
    obtain ⟨next, hnest, hrest⟩ := Option.bind_eq_some_iff.1 h
    rw [openAfter_cons, nest_append hnest below]
    exact ih hrest

/-- Well-formed tokens leave the brackets around them as they are. -/
theorem WellFormed.openAfter_eq (h : WellFormed ts) (stack : List Delimiter) :
    openAfter stack ts = some stack :=
  openAfter_append_stack h.nested stack

/-- Being well formed composes. -/
theorem WellFormed.composes : Composes WellFormed where
  nil := ⟨by simp, rfl⟩
  token {t} plain := by
    constructor
    · cases hkind : t.kind <;> simp_all [Token.Kind.isPlain, Token.Kind.isIllegal]
    · cases hkind : t.kind <;> simp_all [Token.Kind.isPlain, Token.Kind.nest]
  append {as bs} first second := by
    refine ⟨fun t ht => ?_, by rw [openAfter_append, first.nested]; exact second.nested⟩
    rcases List.mem_append.1 ht with ht | ht
    · exact first.legal t ht
    · exact second.legal t ht
  group {inside} h shape opening closing := by
    constructor
    · intro t ht
      simp only [List.mem_cons, List.mem_append, List.not_mem_nil, or_false] at ht
      rcases ht with rfl | ht | rfl
      · rfl
      · exact h.legal t ht
      · rfl
    · rw [openAfter_cons, Token.Kind.nest, Option.bind_some, openAfter_append, h.openAfter_eq]
      simp [Token.Kind.nest]

/-! ## Brackets of one shape -/

/-- How many brackets of a shape are open after a token. -/
theorem count_of_nest {kind : Token.Kind} (h : kind.nest stack = some above) :
    (above.count shape : Int) = stack.count shape + kind.weight shape := by
  cases kind with
  | opening other =>
    obtain rfl : other :: stack = above := by simpa [Token.Kind.nest] using h
    by_cases hother : other = shape <;> simp [Token.Kind.weight, hother]
  | closing other =>
    rcases stack with _ | ⟨top, stack⟩
    · simp [Token.Kind.nest] at h
    · obtain ⟨rfl, rfl⟩ : top = other ∧ stack = above := by simpa [Token.Kind.nest] using h
      by_cases htop : top = shape
      · subst htop
        rw [weight_closing, List.count_cons_self]
        omega
      · simp [Token.Kind.weight, htop]
  | _ =>
    obtain rfl : stack = above := by simpa [Token.Kind.nest] using h
    simp [Token.Kind.weight]

/-- How many brackets of a shape are open after a stretch of tokens. -/
theorem count_of_openAfter (h : openAfter stack ts = some above) :
    (above.count shape : Int) = stack.count shape + excess shape ts := by
  induction ts generalizing stack with
  | nil =>
    obtain rfl : stack = above := by simpa using h
    simp
  | cons t ts ih =>
    obtain ⟨next, hnest, hrest⟩ := Option.bind_eq_some_iff.1 h
    rw [ih hrest, count_of_nest hnest, excess_cons, Int.add_assoc]

/-- A token that fits none of the brackets that are open does not fit the one below them either, if
that one stays open. -/
theorem nest_eq_none {kind : Token.Kind} (h : kind.nest above = none)
    (hopen : 0 < (above.count shape : Int) + 1 + kind.weight shape) (below : List Delimiter) :
    kind.nest (above ++ shape :: below) = none := by
  cases kind with
  | closing other =>
    rcases above with _ | ⟨top, above⟩
    · -- The bracket below would be closed.
      have hother : shape ≠ other := by
        rintro rfl
        simp at hopen
      simp [Token.Kind.nest, hother]
    · have htop : top ≠ other := by simpa [Token.Kind.nest] using h
      simp [Token.Kind.nest, htop]
  | _ => simp [Token.Kind.nest] at h

/-- **An open bracket that is not closed** by tokens keeps the brackets below it from them. -/
theorem openAfter_of_staysOpen (h : StaysOpen shape (above.count shape + 1) ts)
    (below : List Delimiter) :
    openAfter (above ++ shape :: below) ts
      = (openAfter above ts).map fun above => above ++ shape :: below := by
  induction ts generalizing above with
  | nil => rfl
  | cons t ts ih =>
    obtain ⟨-, hts⟩ := staysOpen_cons.1 h
    rw [openAfter_cons, openAfter_cons]
    cases hnest : t.kind.nest above with
    | some next =>
      have hcount : (next.count shape : Int) = _ := count_of_nest hnest
      rw [nest_append hnest]
      exact ih (by rwa [hcount, Int.add_right_comm])
    | none => rw [nest_eq_none hnest hts.pos]; rfl

/-- **Balanced tokens in brackets** of one shape are passed if they are nested in all shapes, and
otherwise they cannot be passed. -/
theorem openAfter_enclosed (h : Balanced shape inside) (opening closing : Span)
    (stack : List Delimiter) :
    openAfter stack (⟨.opening shape, opening⟩ :: (inside ++ [⟨.closing shape, closing⟩]))
      = if openAfter [] inside = some [] then some stack else none := by
  have hstays : StaysOpen shape (([] : List Delimiter).count shape + 1) inside := by
    simpa using h.nested
  have hinside : openAfter (shape :: stack) inside = _ := openAfter_of_staysOpen hstays stack
  rw [openAfter_cons, Token.Kind.nest, Option.bind_some, openAfter_append, hinside]
  cases hopen : openAfter [] inside with
  | none => simp
  | some above =>
    -- The closing bracket finds the opening one only if nothing is open above it.
    have hcount : (above.count shape : Int) = _ := count_of_openAfter hopen
    rcases above with _ | ⟨top, above⟩
    · simp [Token.Kind.nest]
    · have htop : top ≠ shape := by
        rintro rfl
        rw [h.level] at hcount
        simp at hcount
        omega
      simp [Token.Kind.nest, htop]

/-- What is not well formed inside of brackets that balance it makes everything around it not well
formed. -/
theorem not_wellFormed_of_enclosed (e : Derivation.Enclosed shape) (h : ¬ WellFormed e.inside)
    (hpart : e.tokens <:+: ts) : ¬ WellFormed ts := by
  rintro ⟨hlegal, hnested⟩
  obtain ⟨front, back, rfl⟩ := hpart
  have hinside : openAfter [] e.inside ≠ some [] := by
    intro hinside
    refine h ⟨fun t ht => hlegal t ?_, hinside⟩
    simp [Derivation.Enclosed.tokens, ht]
  have hnone : ∀ stack, openAfter stack e.tokens = none := by
    intro stack
    rw [Derivation.Enclosed.tokens, openAfter_enclosed e.balanced, if_neg hinside]
  rw [openAfter_append, openAfter_append] at hnested
  cases hfront : openAfter [] front with
  | none => simp [hfront] at hnested
  | some stack => simp [hfront, hnone] at hnested

namespace Derivation

/-- What one element gives is a stretch of what all of them give. -/
theorem infix_flatMap {α β : Type} {xs : List α} {x : α} (f : α → List β) (hx : x ∈ xs) :
    f x <:+: xs.flatMap f := by
  rw [List.flatMap_def]
  exact List.infix_of_mem_flatten (List.mem_map_of_mem hx)

/-- What a field takes is a stretch of its tokens. -/
theorem FieldType.takes_part {f : FieldType} {e : Enclosed .paren} (h : f.takes = some e) :
    e.tokens <:+: f.tokens := by
  refine ⟨[⟨.name f.name, f.place⟩], ⟨.colon, f.colon⟩ :: f.type.tokens, ?_⟩
  simp [tokens, h]

/-- The tokens of an item are a stretch of those of its group. -/
theorem Group.item_part {α : Type} {g : Group shape α} {a : α} (ofItem : α → List Token)
    (ha : a ∈ g.items) : ofItem a <:+: g.tokens ofItem := by
  have hround : ofItem a <:+: g.rounds.flatMap (Round.tokens ofItem) :=
    infix_flatMap (Round.tokens ofItem) (mem_itemsOf.1 ha)
  exact hround.trans ⟨[⟨.opening shape, g.opening⟩], [⟨.closing shape, g.closing⟩], rfl⟩

/-- What a document encloses is a stretch of its tokens. -/
theorem Document.enclosed_part {d : Document} {e : Enclosed .paren} (he : e ∈ d.enclosed) :
    e.tokens <:+: d.tokens := by
  obtain ⟨definition, hdefinition, he⟩ := List.mem_flatMap.1 he
  have houter : definition.tokens <:+: d.tokens := infix_flatMap _ hdefinition
  cases definition with
  | typeDefinition keyword place name fields =>
    obtain ⟨f, hf, htakes⟩ := List.mem_filterMap.1 he
    have hbody : fields.tokens FieldType.tokens <:+: d.tokens :=
      .trans ⟨[⟨.name "type", keyword⟩, ⟨.name name, place⟩], [], by simp [Definition.tokens]⟩
        houter
    exact (f.takes_part htakes).trans ((fields.item_part _ hf).trans hbody)
  | _ => simp [Definition.enclosed] at he

/-- **The tokens of a document are well formed** exactly if what is passed unread in it is. -/
theorem Document.wellFormed_iff (d : Document) :
    WellFormed d.tokens ↔ ∀ e ∈ d.enclosed, WellFormed e.inside := by
  refine ⟨fun h e he => ?_, d.tokens_of_composes WellFormed.composes⟩
  by_contra hinside
  exact not_wellFormed_of_enclosed e hinside (enclosed_part he) h

end Derivation

/-! ## Source texts -/

/-- The end of input does not matter. -/
theorem wellFormed_append_eof (place : Span) :
    WellFormed (ts ++ [⟨.eof, place⟩]) ↔ WellFormed ts := by
  have hnest : openAfter [] (ts ++ [⟨.eof, place⟩]) = openAfter [] ts := by
    rw [openAfter_append]
    cases openAfter [] ts <;> rfl
  constructor
  · intro h
    exact ⟨fun t ht => h.legal t (List.mem_append_left _ ht), hnest ▸ h.nested⟩
  · intro h
    refine ⟨fun t ht => ?_, hnest.trans h.nested⟩
    rcases List.mem_append.1 ht with ht | ht
    · exact h.legal t ht
    · rw [List.mem_singleton.1 ht]
      rfl

/-- **A text that is parsed without a diagnostic** is derived, and it is well formed exactly if what
the fields of its types take is. -/
theorem wellFormed_ofText_iff {source : String} (h : (Parsed.ofText source).diagnostics = []) :
    ∃ d : Derivation.Document, d.tokens = beforeEof (Token.ofText source)
      ∧ d.meaning = (Parsed.ofText source).document
      ∧ (WellFormed (Token.ofText source) ↔ ∀ e ∈ d.enclosed, WellFormed e.inside) := by
  obtain ⟨d, ⟨-, hdeep⟩, htokens, hend, hcut⟩ := Derivation.exists_document h
  have hbefore : d.tokens = beforeEof (Token.ofText source) := by
    rw [htokens, beforeEof_append (fun t ht => Derivation.Document.kind_ne_eof ht) hend]
  refine ⟨d, hbefore, ?_, ?_⟩
  · rw [← d.cut_eq_meaning hdeep, ← hcut]
    rfl
  · -- Nothing comes after the end of input of a text.
    obtain ⟨lexed, place, hlex, hspelled⟩ := Token.exists_isSpelled_lexFrom 0 source.toList
    have hnoEof : ∀ t ∈ lexed, t.kind ≠ .eof := fun t ht => by
      obtain ⟨inside, after, hspells⟩ := hspelled t ht
      exact hspells.ne_eof
    rw [Token.ofText, hlex, beforeEof_append hnoEof rfl] at hbefore
    rw [Token.ofText, hlex, wellFormed_append_eof, ← hbefore]
    exact d.wellFormed_iff

/-- A square bracket that is never opened, between the round brackets of a field. -/
theorem exists_not_wellFormed_strayBracket :
    (Parsed.ofText "type T { f(]): Int }").diagnostics = []
      ∧ ∃ d : Derivation.Document, d.tokens = beforeEof (Token.ofText "type T { f(]): Int }")
        ∧ d.meaning = (Parsed.ofText "type T { f(]): Int }").document
        ∧ ∃ e ∈ d.enclosed, ¬ WellFormed e.inside := by
  have hvalid : (Parsed.ofText "type T { f(]): Int }").diagnostics = [] := by decide +kernel
  have hstray : ¬ WellFormed (Token.ofText "type T { f(]): Int }") := by decide +kernel
  obtain ⟨d, htokens, hmeaning, hiff⟩ := wellFormed_ofText_iff hvalid
  refine ⟨hvalid, d, htokens, hmeaning, ?_⟩
  rw [hiff] at hstray
  push Not at hstray
  exact hstray

end GraphQuery
