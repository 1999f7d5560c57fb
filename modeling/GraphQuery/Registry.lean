import GraphQuery.Document
import GraphQuery.Event.Hub

/-! # Resolvers and their registry

A resolver gives the value of a root field from its parent value, absent at the root, and its
arguments; on the way it may act on the hub. The registry knows resolvers by the kind of operation
they serve and by name. The last registration of a name counts, and kinds do not see each
other. -/

namespace GraphQuery

/-- **A failure** that a resolver reports, by its message. -/
structure ResolverError where
  /-- The message. -/
  message : String
deriving DecidableEq

/-- **A resolver** of a root field. -/
abbrev Resolver := Option Value → Arguments → StateM Hub (Except ResolverError Value)

/-- **The registry of resolvers**, one map for each kind of operation. -/
structure Registry where
  /-- The resolvers of queries. -/
  queries : Entries Resolver
  /-- The resolvers of mutations. -/
  mutations : Entries Resolver
  /-- The resolvers of subscriptions. -/
  subscriptions : Entries Resolver

namespace Registry

/-- A registry without resolvers. -/
def empty : Registry := ⟨[], [], []⟩

/-- The resolvers of one kind. -/
def resolvers (registry : Registry) : OperationKind → Entries Resolver
  | .query => registry.queries
  | .mutation => registry.mutations
  | .subscription => registry.subscriptions

/-- **Registers a resolver** in place of any other of its kind and name. -/
def register (registry : Registry) (kind : OperationKind) (name : String) (resolver : Resolver) :
    Registry :=
  match kind with
  | .query => { registry with queries := Entries.insert registry.queries name resolver }
  | .mutation => { registry with mutations := Entries.insert registry.mutations name resolver }
  | .subscription =>
    { registry with subscriptions := Entries.insert registry.subscriptions name resolver }

/-- A registration adds to the resolvers of its kind, and leaves those of the others alone. -/
theorem resolvers_register (registry : Registry) (kind : OperationKind) (name : String)
    (resolver : Resolver) (other : OperationKind) :
    (registry.register kind name resolver).resolvers other
      = if kind = other then Entries.insert (registry.resolvers other) name resolver
        else registry.resolvers other := by
  cases kind <;> cases other <;> rfl

/-- The resolver of a kind and a name. -/
def lookup? (registry : Registry) (kind : OperationKind) (name : String) : Option Resolver :=
  Entries.get? (registry.resolvers kind) name

/-- What a name means after a registration. -/
theorem lookup?_register (registry : Registry) (kind : OperationKind) (name : String)
    (resolver : Resolver) (kind' : OperationKind) (name' : String) :
    (registry.register kind name resolver).lookup? kind' name'
      = if kind = kind' ∧ name = name' then some resolver else registry.lookup? kind' name' := by
  rw [lookup?, resolvers_register, lookup?]
  by_cases hkind : kind = kind'
  · rw [if_pos hkind, Entries.insert]
    by_cases hname : name = name'
    · rw [if_pos ⟨hkind, hname⟩, hname, Entries.get?_upsert_self]
    · rw [if_neg (fun h => hname h.2), Entries.get?_upsert_of_ne _ _ hname]
  · rw [if_neg hkind, if_neg (fun h => hkind h.1)]

/-- Whether there is a resolver of a kind and a name. -/
def contains (registry : Registry) (kind : OperationKind) (name : String) : Bool :=
  Entries.contains (registry.resolvers kind) name

/-- **The names registered for a kind**, sorted by their bytes. -/
def names (registry : Registry) (kind : OperationKind) : List String :=
  (Entries.keys (registry.resolvers kind)).mergeSort fun a b => a ≤ b

end Registry

end GraphQuery
