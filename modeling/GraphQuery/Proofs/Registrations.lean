import GraphQuery.Execution
import GraphQuery.Proofs.Entries
import GraphQuery.Proofs.Lexing
import Mathlib.Data.String.Basic

/-! # What a registry remembers

A registry is filled by registrations, one after the other. It remembers of each kind and name the
last one, whatever was registered for other kinds and names in between (`Registry.Remembers`).

Names are listed in the order of their bytes. That is the order in which texts are compared, for the
encoding of a smaller character comes first whatever follows it (`Token.utf8_lt_utf8`). -/

namespace GraphQuery

/-! ## The order of bytes -/

namespace Token

/-- Bytes are ordered as the numbers that they stand for. -/
theorem uint8_ofNat_lt_iff {m n : Nat} (hm : m < 256) (hn : n < 256) :
    UInt8.ofNat m < UInt8.ofNat n ↔ m < n := by
  rw [UInt8.lt_iff_toNat_lt, UInt8.toNat_ofNat_of_lt' hm, UInt8.toNat_ofNat_of_lt' hn]

/-- Bytes are equal as the numbers that they stand for. -/
theorem uint8_ofNat_inj {m n : Nat} (hm : m < 256) (hn : n < 256) :
    UInt8.ofNat m = UInt8.ofNat n ↔ m = n := by
  rw [← UInt8.toNat_inj, UInt8.toNat_ofNat_of_lt' hm, UInt8.toNat_ofNat_of_lt' hn]

/-- The encoding of a smaller character comes first, whatever follows it. -/
theorem utf8EncodeChar_append_lt {c d : Char} (h : c < d) (as bs : List UInt8) :
    String.utf8EncodeChar c ++ as < String.utf8EncodeChar d ++ bs := by
  have hlt : c.val.toNat < d.val.toNat := h
  have hbound : d.val.toNat < 0x110000 := by
    have hvalid := d.valid
    unfold UInt32.isValidChar Nat.isValidChar at hvalid
    omega
  unfold String.utf8EncodeChar
  simp only
  generalize c.val.toNat = m at *
  generalize d.val.toNat = n at *
  -- All bytes but the first carry digits to the base 64.
  have hdigits : ∀ v : Nat, v / 4096 = v / 64 / 64 ∧ v / 262144 = v / 64 / 64 / 64 := by omega
  simp only [hdigits]
  -- A longer encoding has the larger first byte; of equal lengths, the first digit that differs
  -- decides.
  split_ifs <;>
    simp (disch := omega) only [List.cons_append, List.nil_append, List.cons_lt_cons_iff,
      uint8_ofNat_lt_iff, uint8_ofNat_inj] <;>
    omega

/-- No encoding is empty. -/
theorem utf8EncodeChar_ne_nil (c : Char) : String.utf8EncodeChar c ≠ [] := by
  have hpos := Char.utf8Size_pos c
  rw [← String.length_utf8EncodeChar] at hpos
  exact List.ne_nil_of_length_pos hpos

/-- **Texts are ordered as their bytes.** -/
theorem utf8_lt_utf8 {as bs : List Char} (h : as < bs) : utf8 as < utf8 bs := by
  induction as generalizing bs with
  | nil =>
    cases bs with
    | nil => exact absurd h (List.not_lt_nil _)
    | cons b bs =>
      rw [utf8, utf8, List.flatMap_nil, List.flatMap_cons]
      obtain ⟨x, xs, hx⟩ := List.exists_cons_of_ne_nil (utf8EncodeChar_ne_nil b)
      rw [hx]
      exact List.nil_lt_cons _ _
  | cons a as ih =>
    cases bs with
    | nil => exact absurd h (List.not_lt_nil _)
    | cons b bs =>
      rw [utf8, utf8, List.flatMap_cons, List.flatMap_cons]
      rcases List.cons_lt_cons_iff.1 h with hlt | ⟨rfl, hlt⟩
      · exact utf8EncodeChar_append_lt hlt _ _
      · exact List.append_left_lt (ih hlt)

end Token

/-! ## Registrations -/

/-- **A registration**: a resolver, and the kind and the name that it is for. -/
structure Registration where
  /-- The kind of operation that the resolver serves. -/
  kind : OperationKind
  /-- The name of the field that it resolves. -/
  name : String
  /-- The resolver. -/
  resolver : Resolver

/-- Whether a registration is for a kind and a name. -/
def Registration.isFor (kind : OperationKind) (name : String) (r : Registration) : Bool :=
  r.kind = kind && r.name = name

namespace Registry

variable {registry : Registry} {kind : OperationKind} {name : String}
  {history : List Registration}

/-- The registry that registrations make, one after the other. -/
def ofHistory (history : List Registration) : Registry :=
  history.foldl (fun registry r => registry.register r.kind r.name r.resolver) empty

/-- One more registration. -/
theorem ofHistory_concat (history : List Registration) (r : Registration) :
    ofHistory (history ++ [r]) = (ofHistory history).register r.kind r.name r.resolver :=
  List.foldl_concat _ _ _ _

/-- **What a registry remembers** of its history. -/
structure Remembers (registry : Registry) (history : List Registration) : Prop where
  /-- A name means the resolver of the last registration for just that kind and name. -/
  last : ∀ before r after, history = before ++ r :: after →
    (∀ later ∈ after, later.isFor r.kind r.name = false) →
      registry.lookup? r.kind r.name = some r.resolver
  /-- It means nothing if there was none. -/
  absent : ∀ kind name, (∀ r ∈ history, r.isFor kind name = false) →
    registry.lookup? kind name = none
  /-- There is a resolver exactly where one is found. -/
  contains : ∀ kind name,
    registry.contains kind name = true ↔ ∃ resolver, registry.lookup? kind name = some resolver
  /-- Registrations for other kinds and names do not change what a name means. -/
  own : ∀ kind name, registry.lookup? kind name
    = (ofHistory (history.filter (Registration.isFor kind name))).lookup? kind name
  /-- Registrations for other kinds do not change what is listed. -/
  ownKind : ∀ kind,
    registry.names kind = (ofHistory (history.filter fun r => r.kind = kind)).names kind
  /-- The names listed for a kind are those that were registered for it. -/
  listed : ∀ kind name, name ∈ registry.names kind ↔ ∃ r ∈ history, r.isFor kind name = true
  /-- They increase strictly in the order of their bytes, and so each is listed once. -/
  increasing : ∀ kind,
    (registry.names kind).Pairwise fun a b => Token.utf8 a.toList < Token.utf8 b.toList

/-! ## Looking up -/

@[simp] theorem lookup?_empty (kind : OperationKind) (name : String) :
    empty.lookup? kind name = none := by
  cases kind <;> rfl

/-- **A name means what it was registered for last.** -/
theorem lookup?_ofHistory (history : List Registration) (kind : OperationKind) (name : String) :
    (ofHistory history).lookup? kind name
      = (history.reverse.find? (Registration.isFor kind name)).map Registration.resolver := by
  induction history using List.reverseRecOn with
  | nil => exact lookup?_empty kind name
  | append_singleton history r ih =>
    rw [ofHistory_concat, lookup?_register, ih, List.reverse_append, List.reverse_singleton,
      List.singleton_append, List.find?_cons]
    by_cases h : r.kind = kind ∧ r.name = name
    · simp [Registration.isFor, h]
    · rw [if_neg h, show r.isFor kind name = false by simpa [Registration.isFor] using h]

/-- A name is found exactly if it was registered for the kind. -/
theorem isSome_lookup?_ofHistory :
    ((ofHistory history).lookup? kind name).isSome
      ↔ ∃ r ∈ history, r.isFor kind name = true := by
  rw [lookup?_ofHistory, Option.isSome_map, List.find?_isSome]
  simp

/-! ## Listing names -/

/-- The names listed for a kind are those that are found. -/
theorem mem_names_iff : name ∈ registry.names kind ↔ (registry.lookup? kind name).isSome := by
  rw [names, List.mem_mergeSort, Entries.mem_keys_iff]
  rfl

/-- Where each name has one resolver, names are listed in strictly increasing order. -/
theorem pairwise_names (h : Entries.DistinctKeys (registry.resolvers kind)) :
    (registry.names kind).Pairwise fun a b => Token.utf8 a.toList < Token.utf8 b.toList := by
  have hsorted : (registry.names kind).Pairwise fun a b => decide (a ≤ b) = true :=
    List.pairwise_mergeSort (fun _ _ _ hab hbc => by simp at hab hbc ⊢; exact hab.trans hbc)
      (fun a b => by simpa using le_total a b) _
  have hnodup : (registry.names kind).Nodup := (List.mergeSort_perm _ _).nodup_iff.2 h
  refine (hsorted.and hnodup).imp fun ⟨hle, hne⟩ => Token.utf8_lt_utf8 ?_
  exact String.lt_iff_toList_lt.1 (lt_of_le_of_ne (by simpa using hle) hne)

/-- Registering leaves one resolver for each name. -/
theorem distinctKeys_register (h : ∀ kind, Entries.DistinctKeys (registry.resolvers kind))
    (r : Registration) (kind : OperationKind) :
    Entries.DistinctKeys ((registry.register r.kind r.name r.resolver).resolvers kind) := by
  rw [resolvers_register]
  split
  · exact (h kind).upsert _ _
  · exact h kind

/-- Whatever was registered, each name has one resolver. -/
theorem distinctKeys_ofHistory (history : List Registration) (kind : OperationKind) :
    Entries.DistinctKeys ((ofHistory history).resolvers kind) := by
  induction history using List.reverseRecOn generalizing kind with
  | nil => cases kind <;> exact List.Pairwise.nil
  | append_singleton history r ih =>
    rw [ofHistory_concat]
    exact distinctKeys_register ih r kind

/-- The resolvers of a kind are those of its own registrations. -/
theorem resolvers_ofHistory_filter (history : List Registration) (kind : OperationKind) :
    (ofHistory (history.filter fun r => r.kind = kind)).resolvers kind
      = (ofHistory history).resolvers kind := by
  induction history using List.reverseRecOn with
  | nil => rfl
  | append_singleton history r ih =>
    rw [List.filter_append, ofHistory_concat, resolvers_register]
    by_cases h : r.kind = kind
    · rw [List.filter_cons_of_pos (by simpa using h), List.filter_nil, ofHistory_concat,
        resolvers_register, if_pos h, if_pos h, ih]
    · rw [List.filter_cons_of_neg (by simpa using h), List.filter_nil, List.append_nil, if_neg h,
        ih]

/-- **A registry remembers its history**, whatever it is. -/
theorem remembers_ofHistory (history : List Registration) :
    (ofHistory history).Remembers history where
  last := by
    rintro before r after rfl hafter
    have hnone : after.reverse.find? (Registration.isFor r.kind r.name) = none := by
      simpa [List.find?_eq_none] using hafter
    have hself : r.isFor r.kind r.name = true := by simp [Registration.isFor]
    rw [lookup?_ofHistory]
    simp [List.find?_append, hnone, hself]
  absent kind name hnone := by
    rw [lookup?_ofHistory, Option.map_eq_none_iff, List.find?_eq_none]
    simpa using hnone
  contains kind name := Option.isSome_iff_exists
  own kind name := by
    rw [lookup?_ofHistory, lookup?_ofHistory, ← List.filter_reverse, List.find?_filter]
    simp
  ownKind kind := by
    rw [names, names, resolvers_ofHistory_filter]
  listed kind name := by
    rw [mem_names_iff, isSome_lookup?_ofHistory]
  increasing kind := pairwise_names (distinctKeys_ofHistory history kind)

end Registry

namespace Host

/-- **Registers resolvers**, one after the other, in a registry that had none. -/
def registerAll (history : List Registration) : StateM Host Registry :=
  history.foldlM (fun registry r => register registry r.kind r.name r.resolver) .empty

/-- What is noted on the way does not show in the registry. -/
theorem registerAll_fst (history : List Registration) (host : Host) :
    (registerAll history host).1 = Registry.ofHistory history := by
  have hrun : ∀ registry, (history.foldlM (m := StateM Host)
      (fun registry r => register registry r.kind r.name r.resolver) registry host).1
        = history.foldl (fun registry r => registry.register r.kind r.name r.resolver)
          registry := by
    induction history generalizing host with
    | nil => exact fun _ => rfl
    | cons r history ih => exact fun registry => ih _ _
  exact hrun .empty

end Host

/-- **A registry is filled by its registrations**: after any of them, in any surroundings, each kind
has a map of its own in which the last write of a name wins, and which lists its names sorted. -/
theorem Registry.remembers_registerAll (history : List Registration) (host : Host) :
    (Host.registerAll history host).1.Remembers history := by
  rw [Host.registerAll_fst]
  exact remembers_ofHistory history

end GraphQuery
