import QueryReplay.Assoc
import QueryReplay.Number.Double

/-!
# Document values

The values a table cell, a step or a request can hold.  Integers and doubles
are different values; the members of an object keep the order in which their
names were first written.
-/

namespace QueryReplay

-- powers are the core library's, also beside the instances that Mathlib declares
attribute [local instance (high)] instPowNat

/-- A number of a document: an integer, or a finite double. -/
inductive Json.Number where
  | int (n : Int)
  | float (x : Double)
deriving DecidableEq, Repr

/-- A document value. -/
inductive Json where
  | null
  | bool (b : Bool)
  | number (n : Json.Number)
  | string (s : String)
  | array (items : List Json)
  | object (members : List (String × Json))
deriving Repr, Inhabited

namespace Json

/-- The members of an object, in order. -/
abbrev Members := List (String × Json)

/-- An integer value. -/
def int (n : Int) : Json := .number (.int n)

/-- A natural number as a value. -/
def nat (n : Nat) : Json := .int (n : Int)

/-- A double as a value; one that is not finite has no number and is null. -/
def float (x : Double) : Json :=
  if x.isFinite then .number (.float x) else .null

def isNull : Json → Bool
  | .null => true
  | _ => false

/-- The text, or null. -/
def optString : Option String → Json
  | some s => .string s
  | none => .null

/-- A list of texts. -/
def strings (ss : List String) : Json := .array (ss.map .string)

/-- A list of natural numbers. -/
def nats (ns : List Nat) : Json := .array (ns.map .nat)

/-- The integers from `-2^63` up to `2^63 - 1`. -/
def inInt64 (n : Int) : Bool := -2 ^ (63 : Nat) ≤ n && n < 2 ^ (63 : Nat)

/-- The integer of a value that is one and fits 64 bits with sign. -/
def int64? : Json → Option Int
  | .number (.int n) => if inInt64 n then some n else none
  | _ => none

/-- The natural number of a value that is one and fits 64 bits. -/
def nat64? : Json → Option Nat
  | .number (.int n) => if 0 ≤ n && n < 2 ^ (64 : Nat) then some n.toNat else none
  | _ => none

namespace Members

/-- The value of a member. -/
def get? (ms : Members) (name : String) : Option Json := ms.lookup name

/-- The value of a member; one that is absent reads as null. -/
def getD (ms : Members) (name : String) : Json := (ms.get? name).getD .null

/-- Writes a member: in its place when the name is there, else at the end. -/
def insert (ms : Members) (name : String) (value : Json) : Members := Assoc.insert ms name value

/-- Members written one after another, later values replacing earlier ones. -/
def ofList (pairs : List (String × Json)) : Members := Assoc.ofList pairs

end Members

/-- The value of a member of an object. -/
def member? (j : Json) (name : String) : Option Json :=
  match j with
  | .object ms => Members.get? ms name
  | _ => none

namespace Number

/-- The number rounded to a double. -/
def toDouble : Json.Number → Double
  | .int n => .ofInt n
  | .float x => x

/-- Equality within one kind: an integer never equals a double, and the two
zeros of the doubles are equal. -/
def same : Json.Number → Json.Number → Bool
  | .int m, .int n => m == n
  | .float x, .float y => x.equals y
  | _, _ => false

end Number

mutual

/-- Equality of values; the order of an object's members does not count. -/
def same : Json → Json → Bool
  | .null, .null => true
  | .bool a, .bool b => a == b
  | .number a, .number b => a.same b
  | .string a, .string b => a == b
  | .array as, .array bs => sameItems as bs
  | .object ms, .object ns => ms.length == ns.length && sameMembers ms ns
  | _, _ => false

/-- Equality item by item. -/
def sameItems : List Json → List Json → Bool
  | [], [] => true
  | a :: as, b :: bs => same a b && sameItems as bs
  | _, _ => false

/-- Whether each member has an equal one of its name on the other side. -/
def sameMembers : List (String × Json) → List (String × Json) → Bool
  | [], _ => true
  | (name, a) :: ms, ns =>
    (match List.lookup name ns with
      | some b => same a b
      | none => false) && sameMembers ms ns

end

end Json

end QueryReplay
