/-! # Integers of sixty-four bits from text

An integer is an optional sign and at least one decimal digit. Digits are taken in from left to
right, and the first thing wrong decides the fault: a character that is no digit, or a value that
leaves the range. -/

namespace GraphQuery

/-- **What is wrong with the text of an integer.** -/
inductive IntegerFault where
  /-- There is no text. -/
  | empty
  /-- A character is not a digit, or a sign stands alone. -/
  | invalidDigit
  /-- The value is above the range. -/
  | tooLarge
  /-- The value is below the range. -/
  | tooSmall
deriving DecidableEq

namespace IntegerFault

/-- The fault in words. -/
def message : IntegerFault → String
  | empty => "cannot parse integer from empty string"
  | invalidDigit => "invalid digit found in string"
  | tooLarge => "number too large to fit in target type"
  | tooSmall => "number too small to fit in target type"

end IntegerFault

namespace Integer

/-- The value of a decimal digit. -/
def digit? (c : Char) : Option Nat := if c.isDigit then some (c.toNat - '0'.toNat) else none

/-- The largest integer of sixty-four bits. -/
def maxValue : Int := 0x7fffffffffffffff

/-- The smallest integer of sixty-four bits. -/
def minValue : Int := -0x8000000000000000

/-- Takes in digits after a value, adding them up or, below zero, down. -/
def takeDigits (negative : Bool) : Int → List Char → Except IntegerFault Int
  | value, [] => .ok value
  | value, c :: cs =>
    match digit? c with
    | none => .error .invalidDigit
    | some d =>
      if negative then
        if 10 * value - d < minValue then .error .tooSmall
        else takeDigits negative (10 * value - d) cs
      else
        if maxValue < 10 * value + d then .error .tooLarge
        else takeDigits negative (10 * value + d) cs

/-- Takes in digits, of which there must be one. -/
def takeSomeDigits (negative : Bool) (cs : List Char) : Except IntegerFault Int :=
  if cs = [] then .error .invalidDigit else takeDigits negative 0 cs

/-- The value of a text, in the range of sixty-four bits. -/
def parseValue (cs : List Char) : Except IntegerFault Int :=
  match cs with
  | [] => .error .empty
  | '+' :: digits => takeSomeDigits false digits
  | '-' :: digits => takeSomeDigits true digits
  | digits => takeDigits false 0 digits

/-- **Reads an integer of sixty-four bits.** -/
def parse (text : String) : Except IntegerFault Int64 := (parseValue text.toList).map Int64.ofInt

end Integer

end GraphQuery
