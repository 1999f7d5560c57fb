import GraphQuery.Parse
import GraphQuery.Proofs.Lexing
import GraphQuery.Proofs.Nodes
import GraphQuery.Proofs.Progress

/-! # The shape of what is parsed

Every document that is parsed from a text is in shape (`shaped_ofText`), and the text has left no
more faults in it than there are diagnostics (`faults_ofText_le`). Both hold of malformed texts too.

The proof goes once over the readers. Nodes are **sound** for some diagnostics when they are in
shape, bring no more faults than there are diagnostics, and lie too deep only if a diagnostic says
so. What a reader makes is sound for the diagnostics that it records itself (`Ensures`), and so what
is put together from the makings of several readers is sound for all of their diagnostics. -/

namespace GraphQuery

/-! ## Spelled tokens -/

namespace Token

/-- Whether the text that a token carries is spelled well. -/
def Kind.IsWellSpelled : Kind → Prop
  | name text => IsIdentifier text
  | int digits => IsDigits digits
  | string contents => '"' ∉ contents.toList
  | _ => True

/-- What is read from a text is spelled well. -/
theorem Kind.Spells.isWellSpelled {kind : Kind} {inside after : List Char}
    (h : kind.Spells inside after) : kind.IsWellSpelled := by
  cases h with
  | punctuator symbol => cases kind <;> simp_all [Kind.symbol?, Kind.IsWellSpelled]
  | @name c cs after start continues =>
    refine ⟨c, cs, String.toList_ofList, by simpa [isNameStart] using start, fun d hd => ?_⟩
    simpa [isNameContinue] using continues d hd
  | @int c cs after digits =>
    rw [Kind.IsWellSpelled, IsDigits, String.toList_ofList]
    exact ⟨by simp, digits⟩
  | string contents =>
    rw [Kind.IsWellSpelled, String.toList_ofList]
    exact contents
  | openString contents =>
    rw [Kind.IsWellSpelled, String.toList_ofList]
    exact contents
  | illegal => trivial

end Token

/-- **Tokens that are spelled well.** -/
def WellSpelled (ts : List Token) : Prop := ∀ t ∈ ts, t.kind.IsWellSpelled

/-- The tokens of a text are spelled well. -/
theorem wellSpelled_ofText (source : String) : WellSpelled (Token.ofText source) := by
  obtain ⟨lexed, place, hlex, hspelled⟩ := Token.exists_isSpelled_lexFrom 0 source.toList
  intro t ht
  rw [Token.ofText, hlex] at ht
  rcases List.mem_append.1 ht with ht | ht
  · obtain ⟨inside, after, hspells⟩ := hspelled t ht
    exact hspells.isWellSpelled
  · rw [List.mem_singleton.1 ht]
    trivial

namespace WellSpelled

variable {ts rest : List Token}

theorem suffix (h : WellSpelled ts) (hrest : rest <:+ ts) : WellSpelled rest :=
  fun t ht => h t (hrest.subset ht)

theorem tail (h : WellSpelled ts) : WellSpelled ts.tail := h.suffix (List.tail_suffix ts)

/-- The next token is spelled well. -/
theorem next {kind : Token.Kind} (h : WellSpelled ts) (hkind : nextKind ts = kind) :
    kind.IsWellSpelled := by
  subst hkind
  cases ts with
  | nil => trivial
  | cons t ts => exact h t List.mem_cons_self

end WellSpelled

/-! ## Sound nodes -/

/-- **Sound nodes** for some diagnostics, with so many levels left below them. -/
structure Sound (levels : Nat) (nodes : List Node) (diagnostics : List Diagnostic) : Prop where
  /-- The nodes are in shape. -/
  shaped : ∀ n ∈ nodes, n.Shaped levels
  /-- There is a diagnostic for each fault. -/
  accounted : Node.faultsIn nodes ≤ diagnostics.length
  /-- A selection set that nests too deep has been reported. -/
  reported : ∀ n ∈ nodes, .selection [] ∈ n.nodesAt (levels + 1) →
    ∃ d ∈ diagnostics, d.cause = .recursionLimitExceeded

namespace Sound

variable {levels : Nat} {n : Node} {nodes more : List Node} {own ds : List Diagnostic}

theorem nil (ds : List Diagnostic) : Sound levels [] ds := ⟨by simp, by simp, by simp⟩

/-- Sound nodes may stand side by side, each with their diagnostics. -/
theorem append (h : Sound levels nodes own) (hmore : Sound levels more ds) :
    Sound levels (nodes ++ more) (own ++ ds) := by
  refine ⟨fun n hn => ?_, ?_, fun n hn hdeep => ?_⟩
  · exact (List.mem_append.1 hn).elim (h.shaped n) (hmore.shaped n)
  · rw [Node.faultsIn_append, List.length_append]
    exact Nat.add_le_add h.accounted hmore.accounted
  · rcases List.mem_append.1 hn with hn | hn
    · obtain ⟨d, hd, hcause⟩ := h.reported n hn hdeep
      exact ⟨d, List.mem_append_left _ hd, hcause⟩
    · obtain ⟨d, hd, hcause⟩ := hmore.reported n hn hdeep
      exact ⟨d, List.mem_append_right _ hd, hcause⟩

/-- More diagnostics do no harm. -/
theorem append_diagnostics (h : Sound levels nodes ds) (own : List Diagnostic) :
    Sound levels nodes (own ++ ds) :=
  (nil own).append h

/-- A choice of sound nodes, each taken once, is sound. -/
theorem subperm (h : Sound levels nodes ds) (hmore : List.Subperm more nodes) :
    Sound levels more ds := by
  refine ⟨fun n hn => h.shaped n (hmore.subset hn), ?_, fun n hn => h.reported n (hmore.subset hn)⟩
  obtain ⟨same, hperm, hsub⟩ := hmore
  calc Node.faultsIn more = Node.faultsIn same := ((hperm.map Node.faults).sum_eq).symm
    _ ≤ Node.faultsIn nodes := (hsub.map Node.faults).sum_le_sum fun _ _ => Nat.zero_le _
    _ ≤ ds.length := h.accounted

/-- **One more level**: a node is sound if it is spelled well, is no fault itself, and the nodes in
it are sound. -/
theorem node (hspelled : n.IsSpelled) (hfault : ¬ n.IsFault) (h : Sound levels n.children ds) :
    Sound (levels + 1) [n] ds := by
  refine ⟨?_, ?_, ?_⟩
  · simpa using ⟨hspelled, h.shaped⟩
  · rw [Node.faultsIn_singleton, Node.faults_eq_faultsIn hfault]
    exact h.accounted
  · intro m hm hdeep
    rw [List.mem_singleton.1 hm] at hdeep
    obtain ⟨child, hchild, hdeep⟩ := Node.mem_nodesAt_succ.1 hdeep
    exact h.reported child hchild hdeep

/-- A fault with nothing in it is sound where something has been recorded. -/
theorem fault (hspelled : n.IsSpelled) (hchildren : n.children = []) (hfaults : n.faults = 1)
    (hds : ds ≠ []) : Sound (levels + 1) [n] ds := by
  refine ⟨?_, ?_, ?_⟩
  · simpa [Node.Shaped, hchildren] using hspelled
  · rw [Node.faultsIn_singleton, hfaults]
    exact List.length_pos_iff.2 hds
  · simp [Node.nodesAt, hchildren]

/-- An illegal literal is sound where something has been recorded, also at the last level. -/
theorem illegal (text : String) (hds : ds ≠ []) : Sound levels [.literal (.illegal text)] ds := by
  cases levels with
  | zero =>
    exact ⟨by simp [Node.Shaped, Node.IsStub], List.length_pos_iff.2 hds, by simp [Node.nodesAt]⟩
  | succ levels => exact .fault trivial rfl rfl hds

end Sound

/-! ## What readers ensure -/

namespace Reading

variable {α : Type} {levels : Nat}

/-- **A reader ensures** something of what it makes of tokens that are spelled well and of the
diagnostics that it records. -/
def Ensures (Q : α → List Diagnostic → Prop) (reader : List Token → Reading α) : Prop :=
  ∀ ⦃ts⦄, WellSpelled ts → Q (reader ts).value (reader ts).diagnostics

/-- What is ensured of an item: that nothing is dropped with the whole construct without a
diagnostic, and what is ensured of an item that is kept. -/
def OfItem (Q : α → List Diagnostic → Prop) : Item α → List Diagnostic → Prop
  | .kept value, ds => Q value ds
  | .skipped, _ => True
  | .spoilt _, ds => ds ≠ []

/-- **What holds of items one by one is collected** into what holds of all of them. -/
structure Collects (Q : α → List Diagnostic → Prop) (R : List α → List Diagnostic → Prop) :
    Prop where
  /-- It holds of no items. -/
  nil (ds : List Diagnostic) : R [] ds
  /-- It goes on with an item. -/
  kept {value : α} {values : List α} {own ds : List Diagnostic} (h : Q value own)
    (more : R values ds) : R (value :: values) (own ++ ds)
  /-- It goes on with diagnostics on nothing that is kept. -/
  skipped {values : List α} {ds : List Diagnostic} (own : List Diagnostic) (h : R values ds) :
    R values (own ++ ds)

variable {Q : α → List Diagnostic → Prop} {R : List α → List Diagnostic → Prop}
  {item : List Token → Reading (Item α)}

/-- **The items of a construct** are collected. -/
theorem ensures_items (construct : Construct) (hR : Collects Q R)
    (hitem : Ensures (OfItem Q) item) (hfollows : Follows item) (budget : Nat) :
    Ensures (fun made ds => R made.kept ds ∧ (made.remark.isSome → ds ≠ []))
      (items construct item budget) := by
  -- Round by round; what is left after a round is still spelled well, for nothing is put back.
  induction budget with
  | zero => exact fun ts _ => ⟨hR.nil _, by simp [items]⟩
  | succ budget ih =>
    intro ts hts
    rw [items]
    split
    · exact ⟨hR.nil _, by simp⟩
    · split
      · exact ih hts.tail
      · have hfirst := hitem hts
        have hrest := ih (hts.suffix (hfollows ts).suffix)
        rw [andThen_value, andThen_diagnostics]
        cases hmade : (item ts).value with
        | kept value =>
          rw [hmade] at hfirst
          exact ⟨hR.kept hfirst hrest.1, fun hremark => by simp [hrest.2 hremark]⟩
        | skipped => exact ⟨hR.skipped _ hrest.1, fun hremark => by simp [hrest.2 hremark]⟩
        | spoilt remark =>
          -- The remark takes the place of all items, and it has been reported.
          rw [hmade] at hfirst
          refine ⟨hR.nil _, fun _ => ?_⟩
          rw [List.append_nil]
          exact hfirst

/-- What does not depend on diagnostics is collected for each item. -/
theorem Collects.all (P : α → Prop) :
    Collects (fun value _ => P value) fun values _ => ∀ value ∈ values, P value where
  nil _ := by simp
  kept h more := by simpa using ⟨h, more⟩
  skipped _ h := h

/-- Sound nodes are collected, with what does not depend on diagnostics. -/
theorem Collects.sound (P : α → Prop) (nodes : α → List Node) :
    Collects (fun value ds => P value ∧ Sound levels (nodes value) ds) fun values ds =>
      (∀ value ∈ values, P value) ∧ Sound levels (values.flatMap nodes) ds where
  nil ds := ⟨by simp, .nil ds⟩
  kept h more := ⟨by simpa using ⟨h.1, more.1⟩, by simpa using h.2.append more.2⟩
  skipped own h := ⟨h.1, h.2.append_diagnostics own⟩

/-- Sound literals are collected likewise. -/
theorem Collects.literals (P : α → Prop) (ofValue : α → Literal) :
    Collects (fun value ds => P value ∧ Sound levels [.literal (ofValue value)] ds)
      fun values ds => (∀ value ∈ values, P value)
        ∧ Sound levels (values.map fun value => .literal (ofValue value)) ds := by
  simp only [List.map_eq_flatMap]
  exact Collects.sound P _

/-! ## Type references -/

/-- **A sound type reference** for some diagnostics; a missing one has been reported. -/
def SoundType (levels : Nat) : Option TypeReference → List Diagnostic → Prop
  | none, ds => ds ≠ []
  | some type, ds => type.depth ≤ levels
      ∧ (∀ name ∈ type.innermostName?, IsIdentifier name) ∧ type.faults ≤ ds.length

theorem ensures_typeReference (levels : Nat) :
    Ensures (SoundType levels) (typeReference levels) := by
  induction levels with
  | zero => exact fun ts _ => by simp [typeReference, tooDeep, SoundType]
  | succ levels ih =>
    intro ts hts
    rw [typeReference]
    split
    · have helement := ih hts.tail
      simp only [andThen_value, andThen_diagnostics, map_value, map_diagnostics]
      cases hvalue : (typeReference levels ts.tail).value with
      | none =>
        -- The missing element is the one fault, and it has been reported.
        rw [hvalue] at helement
        have hone : 1 ≤ (typeReference levels ts.tail).diagnostics.length :=
          List.length_pos_iff.2 helement
        refine ⟨by simp [TypeReference.depth], by simp [TypeReference.innermostName?], ?_⟩
        rw [List.length_append]
        exact hone.trans (Nat.le_add_right _ _)
      | some element =>
        rw [hvalue] at helement
        obtain ⟨hdepth, hname, hfaults⟩ := helement
        refine ⟨Nat.succ_le_succ hdepth, hname, ?_⟩
        rw [List.length_append]
        exact hfaults.trans (Nat.le_add_right _ _)
    · next name hname =>
      have hident : IsIdentifier name := hts.next hname
      exact ⟨by simp [TypeReference.depth], by simpa [TypeReference.innermostName?] using hident,
        Nat.zero_le _⟩
    · simp [unexpected, SoundType]

/-! ## Literals -/

/-- The name of a variable is an identifier, or it is reported to be missing. -/
theorem ensures_variableName :
    Ensures (fun (name : Option String) ds =>
      (∀ text ∈ name, IsIdentifier text) ∧ (name = none → ds ≠ [])) variableName := by
  intro ts hts
  unfold variableName
  split
  · next name hname =>
    have hident : IsIdentifier name := hts.next hname
    exact ⟨by simpa using hident, by simp⟩
  · exact ⟨by simp [unexpected], by simp [unexpected]⟩

theorem ensures_objectField {value : List Token → Reading Literal}
    (hvalue : Ensures (fun v ds => Sound levels [.literal v] ds) value) :
    Ensures (OfItem fun field ds => IsIdentifier field.1 ∧ Sound levels [.literal field.2] ds)
      (objectField value) := by
  have hspoilt : ∀ expectation ts, (spoilObject expectation ts).diagnostics ≠ [] := by
    simp [spoilObject, unexpected]
  intro ts hts
  unfold objectField
  split
  · next key hkey =>
    split
    · exact ⟨hts.next hkey, hvalue hts.tail.tail⟩
    · exact hspoilt _ _
  · exact hspoilt _ _

/-- The object made of its fields is sound if they are. -/
theorem sound_objectLiteral {fields : Items (String × Literal)} {ds : List Diagnostic}
    (hkeys : ∀ field ∈ fields.kept, IsIdentifier field.1)
    (hvalues : Sound levels (fields.kept.map fun field => .literal field.2) ds)
    (hremark : fields.remark.isSome → ds ≠ []) :
    Sound (levels + 1) [.literal (objectLiteral fields)] ds := by
  unfold objectLiteral
  split
  · next remark hsome => exact .illegal remark (hremark (by simp [hsome]))
  · -- Of a key that repeats, one value is left.
    have hleft := Entries.ofPairs_subperm fields.kept
    refine .node (fun field hfield => hkeys field (hleft.subset hfield)) id ?_
    obtain ⟨same, hperm, hsub⟩ := hleft
    exact hvalues.subperm ⟨_, hperm.map _, hsub.map _⟩

/-- A bare name makes a sound literal. -/
theorem sound_literalOfName {name : String} (h : IsIdentifier name) :
    Sound (levels + 1) [.literal (literalOfName name)] [] := by
  unfold literalOfName
  split
  · exact .node trivial id (.nil _)
  · split
    · exact .node trivial id (.nil _)
    · next htrue hfalse => exact .node ⟨h, htrue, hfalse⟩ id (.nil _)

/-- **Literals** are sound. -/
theorem ensures_literal (levels : Nat) :
    Ensures (fun v ds => Sound levels [.literal v] ds) (literal levels) := by
  induction levels with
  | zero => exact fun ts _ => .illegal _ (by simp [literal, tooDeep])
  | succ levels ih =>
    intro ts hts
    rw [literal]
    split
    · have hfields := ensures_items .objectValue
        (Collects.literals (fun field : String × Literal => IsIdentifier field.1) Prod.snd)
        (ensures_objectField ih) (follows_objectField (follows_literal levels)) maxItems hts.tail
      exact sound_objectLiteral hfields.1.1 hfields.1.2 hfields.2
    · have hitem : Ensures (OfItem fun v ds => True ∧ Sound levels [.literal v] ds)
          fun ts => (literal levels ts).map .kept := fun ts hts => ⟨trivial, ih hts⟩
      have hitems := ensures_items .listValue
        (Collects.literals (fun _ => True) id) hitem (follows_literal levels) maxItems hts.tail
      exact .node trivial id hitems.1.2
    · next digits hdigits => exact .node (hts.next hdigits) id (.nil _)
    · next contents hcontents => exact .node (hts.next hcontents) id (.nil _)
    · next name hname => exact sound_literalOfName (hts.next hname)
    · have hname := ensures_variableName hts.tail
      simp only [map_value, map_diagnostics]
      -- Where the name is missing, that has been recorded.
      cases hvalue : (variableName ts.tail).value with
      | none =>
        rw [hvalue] at hname
        exact .fault (.inl rfl) rfl rfl (hname.2 rfl)
      | some name =>
        rw [hvalue] at hname
        have hident : IsIdentifier name := hname.1 name rfl
        exact .node (.inr hident) hident.ne_empty (.nil _)
    · exact .illegal _ (by simp [unexpected])
    · exact .illegal _ (by simp [unexpected])
    · exact .illegal _ (by simp [skipUnexpected])

/-! ## Selections -/

theorem ensures_argument {value : List Token → Reading Literal}
    (hvalue : Ensures (fun v ds => Sound levels [.literal v] ds) value) :
    Ensures (OfItem fun argument ds =>
      IsIdentifier argument.name ∧ Sound levels [.literal argument.value] ds) (argument value) := by
  intro ts hts
  unfold argument
  split
  · next name hname =>
    split
    · exact ⟨hts.next hname, hvalue hts.tail.tail⟩
    · exact ⟨hts.next hname, .illegal _ (by simp [unexpected])⟩
  · trivial

/-- The arguments of a field are sound. -/
theorem ensures_arguments {value : List Token → Reading Literal} (hfollows : Follows value)
    (hvalue : Ensures (fun v ds => Sound levels [.literal v] ds) value) :
    Ensures (fun arguments ds => (∀ argument ∈ arguments, IsIdentifier argument.name)
      ∧ Sound levels (arguments.map fun argument => .literal argument.value) ds)
      (arguments value) := by
  intro ts hts
  unfold arguments
  split
  · exact (ensures_items .fieldArguments
      (Collects.literals (fun argument => IsIdentifier argument.name) _)
      (ensures_argument hvalue) (follows_argument hfollows) maxItems hts.tail).1
  · exact ⟨by simp, .nil _⟩

/-- The nested selection set of a field is sound. -/
theorem ensures_nested {selection : List Token → Reading SelectionSet}
    (hselection : Ensures (fun fields ds => Sound levels [.selection fields] ds) selection) :
    Ensures (fun fields ds => Sound levels (fields.toList.map .selection) ds)
      (nested selection) := by
  intro ts hts
  unfold nested
  split
  · exact hselection hts
  · exact .nil _

theorem ensures_field {value : List Token → Reading Literal}
    {selection : List Token → Reading SelectionSet} (hfollows : Follows value)
    (hvalue : Ensures (fun v ds => Sound levels [.literal v] ds) value)
    (hselection : Ensures (fun fields ds => Sound levels [.selection fields] ds) selection) :
    Ensures (OfItem fun f ds =>
      (IsIdentifier f.name ∧ ∀ argument ∈ f.arguments, IsIdentifier argument.name)
        ∧ Sound levels (Node.ofField f) ds) (field value selection) := by
  intro ts hts
  unfold field
  split
  · next name hname =>
    have harguments := ensures_arguments hfollows hvalue hts.tail
    have hrest := hts.tail.suffix (follows_arguments hfollows ts.tail).suffix
    exact ⟨⟨hts.next hname, harguments.1⟩, harguments.2.append (ensures_nested hselection hrest)⟩
  · trivial

/-- **Selection sets** are sound. -/
theorem ensures_selectionSet (levels : Nat) :
    Ensures (fun fields ds => Sound levels [.selection fields] ds) (selectionSet levels) := by
  induction levels with
  | zero =>
    -- The selection set is skipped, which leaves a stub and says so.
    intro ts _
    refine ⟨?_, Nat.zero_le _, fun _ _ _ => ?_⟩
    · simp [selectionSet, tooDeep, Node.Shaped, Node.IsStub]
    · exact ⟨_, List.mem_cons_self, rfl⟩
  | succ levels ih =>
    intro ts hts
    rw [selectionSet]
    have hitem := ensures_field (follows_literal levels) (ensures_literal levels) ih
    have hfields := ensures_items .selectionSet (Collects.sound _ _) hitem
      (follows_field (follows_literal levels) (trail_selectionSet levels)) maxItems hts.tail
    exact .node hfields.1.1 id hfields.1.2

/-! ## Definitions -/

theorem ensures_variableDefinition :
    Ensures (OfItem fun v ds => v.Shaped ∧ v.faults ≤ ds.length) variableDefinition := by
  intro ts hts
  unfold variableDefinition
  split
  · have hname := ensures_variableName hts.tail
    have hrest := hts.tail.suffix (follows_variableName ts.tail).suffix
    rw [andThen_value, andThen_diagnostics]
    cases hvalue : (variableName ts.tail).value with
    | none => trivial
    | some name =>
      rw [hvalue] at hname
      have hident : IsIdentifier name := hname.1 name rfl
      dsimp only
      split
      · have htype := ensures_typeReference maxNesting hrest.tail
        simp only [map_value, map_diagnostics]
        cases hread : (typeReference maxNesting (variableName ts.tail).rest.tail).value with
        | none => exact ⟨⟨hident, by simp, by simp⟩, Nat.zero_le _⟩
        | some type =>
          rw [hread] at htype
          obtain ⟨hdepth, htypeName, hfaults⟩ := htype
          refine ⟨⟨hident, by simpa using htypeName, by simpa using hdepth⟩, ?_⟩
          rw [List.length_append]
          exact hfaults.trans (Nat.le_add_left _ _)
      · exact ⟨⟨hident, by simp, by simp⟩, Nat.zero_le _⟩
  · trivial

/-- Faults are collected, with what does not depend on diagnostics. -/
theorem Collects.faults (P : α → Prop) (faults : α → Nat) :
    Collects (fun value ds => P value ∧ faults value ≤ ds.length) fun values ds =>
      (∀ value ∈ values, P value) ∧ (values.map faults).sum ≤ ds.length where
  nil ds := by simp
  kept {value values own ds} h more := by
    refine ⟨by simpa using ⟨h.1, more.1⟩, ?_⟩
    rw [List.map_cons, List.sum_cons, List.length_append]
    exact Nat.add_le_add h.2 more.2
  skipped own h := by
    refine ⟨h.1, h.2.trans ?_⟩
    rw [List.length_append]
    exact Nat.le_add_left _ _

theorem ensures_variableDefinitions :
    Ensures (fun declared ds => (∀ v ∈ declared, v.Shaped)
      ∧ (declared.map VariableDefinition.faults).sum ≤ ds.length) variableDefinitions := by
  intro ts hts
  unfold variableDefinitions
  split
  · exact (ensures_items .variableDefinitions (Collects.faults _ _) ensures_variableDefinition
      follows_variableDefinition maxItems hts.tail).1
  · simp

theorem ensures_rootSelection (kind : OperationKind) :
    Ensures (fun fields ds => Sound maxNesting [.selection fields] ds) (rootSelection kind) := by
  intro ts hts
  unfold rootSelection
  split
  · exact ensures_selectionSet maxNesting hts
  · exact .node (by simp [unexpected, Node.IsSpelled]) id (.nil _)

theorem ensures_name? : Ensures (fun name _ => ∀ text ∈ name, IsIdentifier text) name? := by
  intro ts hts
  unfold name?
  split
  · next name hname =>
    have hident : IsIdentifier name := hts.next hname
    simpa using hident
  · simp

end Reading

/-- An operation with sound parts is in shape. -/
theorem Operation.Shaped.of_sound {op : Operation} {ds : List Diagnostic}
    (hname : ∀ name ∈ op.name, IsIdentifier name) (hdeclared : ∀ v ∈ op.declared, v.Shaped)
    (hselection : Sound maxNesting [.selection op.selection] ds) : op.Shaped ds := by
  have hshaped := hselection.shaped _ (List.mem_singleton_self _)
  exact ⟨hname, hdeclared, fun _ _ hn => hshaped.isSpelled_of_mem hn,
    fun _ hlevel => hshaped.nodesAt_eq_nil hlevel, fun _ hn => hshaped.isStub_of_mem hn,
    hselection.reported _ (List.mem_singleton_self _)⟩

/-- A definition that is in shape still is when more is reported. -/
theorem Definition.Shaped.mono {d : Definition} {ds more : List Diagnostic}
    (h : d.Shaped ds) (hsub : ds ⊆ more) : d.Shaped more := by
  cases d with
  | typeDefinition definition => exact h
  | operation op =>
    obtain ⟨hname, hdeclared, hspelled, hbounded, hstubs, hreported⟩ := h
    refine ⟨hname, hdeclared, hspelled, hbounded, hstubs, fun hdeep => ?_⟩
    obtain ⟨d, hd, hcause⟩ := hreported hdeep
    exact ⟨d, hsub hd, hcause⟩

namespace Reading

/-- An operation is in shape, and its faults are accounted for. -/
theorem ensures_operation (kind : OperationKind) :
    Ensures (fun op ds => (Definition.operation op).Shaped ds
      ∧ (Definition.operation op).faults ≤ ds.length) (operation kind) := by
  intro ts hts
  have hname := ensures_name? hts
  have hrest := hts.suffix (follows_name? ts).suffix
  have hdeclared := ensures_variableDefinitions hrest
  have hselection :=
    ensures_rootSelection kind (hrest.suffix (follows_variableDefinitions (name? ts).rest).suffix)
  refine ⟨?_, ?_⟩
  · exact .of_sound hname hdeclared.1
      ((hselection.append_diagnostics _).append_diagnostics (name? ts).diagnostics)
  · have hfaults := hselection.accounted
    rw [Node.faultsIn_singleton] at hfaults
    show (List.map VariableDefinition.faults _).sum + Node.faults _ ≤ _
    rw [operation, andThen_diagnostics, andThen_diagnostics, List.length_append,
      List.length_append]
    exact (Nat.add_le_add hdeclared.2 hfaults).trans (Nat.le_add_left _ _)

theorem ensures_fieldDefinition :
    Ensures (OfItem fun name _ => IsIdentifier name) fieldDefinition := by
  intro ts hts
  unfold fieldDefinition
  split
  · next name hname =>
    have hident : IsIdentifier name := hts.next hname
    rw [andThen_value]
    split
    · exact hident
    · exact hident
  · trivial

theorem ensures_typeDefinition :
    Ensures (fun definition _ => ∀ d ∈ definition, d.Shaped) typeDefinition := by
  intro ts hts
  unfold typeDefinition
  split
  · next name hname =>
    have hident : IsIdentifier name := hts.next hname
    split
    · have hfields := ensures_items .typeDefinition (Collects.all _)
        ensures_fieldDefinition follows_fieldDefinition maxItems hts.tail.tail
      simpa using ⟨hident, hfields.1⟩
    · simpa [unexpected] using ⟨hident, by simp⟩
  · rw [andThen_value]
    split <;> simp

/-- **Definitions** are in shape, and their faults are accounted for. -/
theorem ensures_definition :
    Ensures (fun definition ds => ∀ d ∈ definition, d.Shaped ds ∧ d.faults ≤ ds.length)
      definition := by
  intro ts hts
  unfold definition
  split
  · have hselection := ensures_rootSelection .query hts
    have hfaults := hselection.accounted
    rw [Node.faultsIn_singleton] at hfaults
    have hshaped : Operation.Shaped ⟨.query, none, [], (rootSelection .query ts).value⟩
        (rootSelection .query ts).diagnostics := .of_sound (by simp) (by simp) hselection
    simpa [Definition.Shaped, Definition.faults] using ⟨hshaped, hfaults⟩
  · split
    · next kind _ => simpa using ensures_operation kind hts.tail
    · split
      · have htype := ensures_typeDefinition hts.tail
        simpa [Definition.Shaped, Definition.faults] using htype
      · simp [skipUnexpected]
  · simp [skipUnexpected]

/-- Definitions in a row are in shape, and their faults are accounted for. -/
theorem ensures_definitions (budget : Nat) :
    Ensures (fun made ds => (∀ d ∈ made, d.Shaped ds)
      ∧ (made.map Definition.faults).sum ≤ ds.length) (definitions budget) := by
  induction budget with
  | zero =>
    intro ts _
    rw [definitions]
    split <;> simp
  | succ budget ih =>
    intro ts hts
    rw [definitions]
    split
    · simp
    · next hgoesOn =>
      -- What is left after a definition is still spelled well.
      have hfirst := ensures_definition hts
      have hrest := hts.suffix (suffix_of_tail (definition_suffix_tail hgoesOn))
      obtain ⟨hshaped, hfaults⟩ := ih hrest
      simp only [andThen_value, andThen_diagnostics, map_value, map_diagnostics]
      refine ⟨fun d hd => ?_, ?_⟩
      · rcases List.mem_append.1 hd with hd | hd
        · exact (hfirst d (Option.mem_toList.1 hd)).1.mono (List.subset_append_left _ _)
        · exact (hshaped d hd).mono (List.subset_append_right _ _)
      · rw [List.map_append, List.sum_append, List.length_append]
        refine Nat.add_le_add ?_ hfaults
        cases hmade : (definition ts).value with
        | none => exact Nat.zero_le _
        | some d => simpa using (hfirst d hmade).2

end Reading

/-! ## Source texts -/

/-- What is ensured of the document of every text. -/
theorem ensures_ofText (source : String) :
    (Parsed.ofText source).document.Shaped (Parsed.ofText source).diagnostics
      ∧ (Parsed.ofText source).document.faults ≤ (Parsed.ofText source).diagnostics.length :=
  Reading.ensures_definitions maxItems (wellSpelled_ofText source)

/-- **Every document that is parsed is in shape**, whether the text was well-formed or not. -/
theorem shaped_ofText (source : String) :
    (Parsed.ofText source).document.Shaped (Parsed.ofText source).diagnostics :=
  (ensures_ofText source).1

/-- **Every fault is accounted for**: a text leaves no more faults in its document than there are
diagnostics, and therefore none in a valid one. -/
theorem faults_ofText_le (source : String) :
    (Parsed.ofText source).document.faults ≤ (Parsed.ofText source).diagnostics.length
      ∧ ∀ document, (Parsed.ofText source).valid? = some document → document.faults = 0 := by
  have hfaults := (ensures_ofText source).2
  refine ⟨hfaults, fun document hvalid => ?_⟩
  obtain ⟨hnone, rfl⟩ : (Parsed.ofText source).diagnostics = []
      ∧ (Parsed.ofText source).document = document := by
    simpa [Parsed.valid?, Parsed.hasErrors] using hvalid
  rw [hnone] at hfaults
  exact Nat.le_zero.1 hfaults

/-- A list type without an element, a variable without a name, and an illegal character. -/
example :
    (Parsed.ofText "query($x: []) {f(a: $, b: [?])}").document.faults = 3
      ∧ (Parsed.ofText "query($x: []) {f(a: $, b: [?])}").diagnostics.length = 3 := by
  decide +kernel

end GraphQuery
