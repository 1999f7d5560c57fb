import GraphQuery.Binary64
import GraphQuery.Entries

/-! # Runtime values

A value is what a resolver answers and what a response is made of. Objects and records are
**record-shaped**: fields can be selected from them. A record carries descriptors of its fields,
whose names can be given by a tag; it and a stream have an identity of their own, and every copy
of one shares it. -/

namespace GraphQuery

/-- **The description of a record's field**: its identifier and a tag, of which the part before
the first comma is a name. -/
structure FieldDescriptor where
  /-- The identifier as declared. -/
  ident : String
  /-- The tag, if there is one. -/
  tag : Option String
deriving DecidableEq

namespace FieldDescriptor

/-- Whether two texts differ at most in the case of ASCII letters. -/
def sameIgnoringCase (a b : String) : Bool :=
  a.toList.map Char.toLower = b.toList.map Char.toLower

/-- The name that the tag gives, if it is not empty. -/
def tagName? (descriptor : FieldDescriptor) : Option String :=
  (descriptor.tag.map fun tag => String.ofList (tag.toList.takeWhile (· ≠ ','))).filter (· ≠ "")

/-- The key that the field is written under. -/
def serializedName (descriptor : FieldDescriptor) : String :=
  descriptor.tagName?.getD descriptor.ident

/-- Whether a selected name means the field: by its identifier or its tag's name, in any case. -/
def isNamed (descriptor : FieldDescriptor) (name : String) : Bool :=
  sameIgnoringCase descriptor.ident name
    || descriptor.tagName?.any fun tagName => sameIgnoringCase tagName name

end FieldDescriptor

/-- **A runtime value.** -/
inductive Value where
  /-- Null. -/
  | null
  /-- A truth value. -/
  | boolean (value : Bool)
  /-- An integer. -/
  | int (value : Int64)
  /-- A floating point number. -/
  | float (value : Binary64)
  /-- A text. -/
  | string (text : String)
  /-- A run of bytes. -/
  | bytes (data : List UInt8)
  /-- A list of values. -/
  | list (items : List Value)
  /-- An object, by its entries in order. -/
  | object (entries : List (String × Value))
  /-- A record, by its identity and its fields in the order declared. -/
  | record (identity : Nat) (fields : List (FieldDescriptor × Value))
  /-- The source of an event stream, by the identity of its channel. -/
  | stream (channel : Nat)
deriving Inhabited

namespace Value

/-- A short name for the shape of a value. -/
def typeName : Value → String
  | null => "null"
  | boolean _ => "boolean"
  | int _ => "int"
  | float _ => "float"
  | string _ => "string"
  | bytes _ => "bytes"
  | list _ => "list"
  | object _ => "object"
  | record _ _ => "record"
  | stream _ => "stream"

/-- Whether fields can be selected from a value. -/
def isRecordShaped : Value → Bool
  | object _ | record _ _ => true
  | _ => false

/-- Whether a value is null. -/
def isNull : Value → Bool
  | null => true
  | _ => false

/-- The truth value that a value is. -/
def boolean? : Value → Option Bool
  | boolean value => some value
  | _ => none

/-- The integer that a value is. -/
def int? : Value → Option Int64
  | int value => some value
  | _ => none

/-- The text that a value is. -/
def string? : Value → Option String
  | string text => some text
  | _ => none

/-- The bytes that a value is. -/
def bytes? : Value → Option (List UInt8)
  | bytes data => some data
  | _ => none

/-- The items of a list. -/
def list? : Value → Option (List Value)
  | list items => some items
  | _ => none

/-- The entries of an object. -/
def object? : Value → Option (Entries Value)
  | object entries => some entries
  | _ => none

/-- The fields of a record. -/
def record? : Value → Option (List (FieldDescriptor × Value))
  | record _ fields => some fields
  | _ => none

/-- The channel of a stream. -/
def stream? : Value → Option Nat
  | stream channel => some channel
  | _ => none

/-- The number that a float or an integer stands for. -/
def number? : Value → Option Binary64
  | float value => some value
  | int value => some (.ofInt value.toInt)
  | _ => none

/-- The entry of an object. -/
def get? (value : Value) (key : String) : Option Value :=
  value.object?.bind fun entries => Entries.get? entries key

/-- The object that stands for an uploaded file. -/
def upload (filename : String) (data : List UInt8) : Value :=
  object [("filename", string filename), ("data", bytes data)]

/-- The field of a record that a name means: the first one in the order declared. -/
def lookupField? (fields : List (FieldDescriptor × Value)) (name : String) : Option Value :=
  (fields.find? fun field => field.1.isNamed name).map Prod.snd

mutual

/-- **Equality of values.** Objects are equal when they have the same entries in any order;
records and streams are equal to their own copies only. -/
def equals : Value → Value → Bool
  | null, null => true
  | boolean a, boolean b => a = b
  | int a, int b => a = b
  | float a, float b => a.equals b
  | string a, string b => a = b
  | bytes a, bytes b => a = b
  | list as, list bs => itemsEqual as bs
  | object as, object bs => as.length = bs.length && entriesWithin as bs
  | record a _, record b _ => a = b
  | stream a, stream b => a = b
  | _, _ => false

/-- Equality of lists, item by item. -/
def itemsEqual : List Value → List Value → Bool
  | [], [] => true
  | a :: as, b :: bs => equals a b && itemsEqual as bs
  | _, _ => false

/-- Whether every entry has an equal one among others. -/
def entriesWithin : List (String × Value) → List (String × Value) → Bool
  | [], _ => true
  | (key, a) :: as, bs =>
    (match Entries.get? bs key with
      | some b => equals a b
      | none => false) && entriesWithin as bs

end

end Value

/-- **Arguments** of a field, in the order of their names' first appearance. -/
abbrev Arguments := Entries Value

end GraphQuery
