import Mathlib

set_option autoImplicit false

/-!
# Parameter types, values and the OID map

The C++ types a parameter can have, as the serializer dispatches on them:
numerics and `std::byte` (of their `sizeof` and their built-in OIDs),
`system_clock::time_point`, the three text types, user-defined composites
(reflected by `boost::pfr`, each with a type identity and
`user_defined<T>::name`), `std::tuple`s, and arrays. A value is checked
against its type by `Ty.admits`; composites and tuples share one value shape.

`oid_of` and `size_of` live in headers that are not part of the sources, so
both are modelled from the spec's description of them.
-/

namespace AsiofiedLibpq.Psql

/-- The type of a parameter, and of a composite member or array element: an integral or
floating type or `std::byte` of `sizeof` `width` with its built-in OID and array OID, a
`time_point`, the text types, a user-defined composite (its `typeid`, `user_defined<T>::name`
and field types), a `std::tuple`, or an array. -/
inductive Ty
  | numeric (width oid arrayOid : Nat)
  | timePoint
  | text
  | composite (id : Nat) (name : String) (fields : List Ty)
  | tuple (fields : List Ty)
  | array (elem : Ty)
  deriving Repr

/-- A value: a numeric's bits, a `time_point`'s nanoseconds since the Unix epoch, a text's
bytes, the fields of a composite or tuple, or an array's elements. -/
inductive Value
  | numeric (bits : Nat)
  | timePoint (ns : Int)
  | text (chars : List UInt8)
  | record (fields : List Value)
  | array (elems : List Value)
  deriving Repr

def Ty.admits : Ty → Value → Bool
  | .numeric width _ _, .numeric bits => decide (bits < 2 ^ (8 * width))
  | .timePoint, .timePoint ns => decide (-2 ^ 63 ≤ ns ∧ ns < 2 ^ 63)
  | .text, .text _ => true
  | .composite _ _ fields, .record vs => admitsAll fields vs
  | .tuple fields, .record vs => admitsAll fields vs
  | .array elem, .array vs => vs.all elem.admits
  | _, _ => false
where
  admitsAll : List Ty → List Value → Bool
    | [], [] => true
    | t :: ts, v :: vs => t.admits v && admitsAll ts vs
    | _, _ => false

-- an entry of `detail::oid_map`: a user-defined type's identity, its OID and its array OID
structure OidEntry where
  id : Nat
  oid : Nat
  arrayOid : Nat
  deriving DecidableEq, Repr

abbrev OidMap := List OidEntry

def OidMap.find (M : OidMap) (id : Nat) : Option OidEntry := List.find? (·.id = id) M

def OidMap.contains (M : OidMap) (id : Nat) : Bool := (M.find id).isSome

-- the built-in OIDs of `timestamptz`, `text` and `record`, and of their array types
def timePointOids : Nat × Nat := (1184, 1185)
def textOids : Nat × Nat := (25, 1009)
def recordOids : Nat × Nat := (2249, 2287)

/-- Modelled from the spec: `oid_of.hpp` is not among the sources. "For built-ins and arrays
of built-ins returns the hard-coded OID; for user-defined types returns the map lookup; fails
if absent." An array of a user-defined type has the array OID the map records for it; an
array of arrays has the array OID of its innermost element, as PostgreSQL arrays do. -/
def oidOf (M : OidMap) : Ty → Option Nat
  | .numeric _ oid _ => some oid
  | .timePoint => some timePointOids.1
  | .text => some textOids.1
  | .composite id _ _ => (M.find id).map (·.oid)
  | .tuple _ => some recordOids.1
  | .array elem => arrayOidOf elem
where
  arrayOidOf : Ty → Option Nat
    | .numeric _ _ arrayOid => some arrayOid
    | .timePoint => some timePointOids.2
    | .text => some textOids.2
    | .composite id _ _ => (M.find id).map (·.arrayOid)
    | .tuple _ => some recordOids.2
    | .array elem => arrayOidOf elem

/-- Modelled from the spec: `size_of.hpp` is not among the sources. "Recursive, matching
`serialize` byte-for-byte": a numeric's `sizeof`, eight bytes for a `time_point`, a text's
length, a composite's count and per member its OID, length and bytes, an array's five-word
header and per element its length and bytes. The spec's taxonomy also names
`size_of_overflow` without saying where `size_of` raises it; this model raises none. -/
def sizeOf : Ty → Value → Nat
  | .numeric width _ _, _ => width
  | .timePoint, _ => 8
  | .text, .text chars => chars.length
  | .composite _ _ fields, .record vs => 4 + membersSize fields vs
  | .tuple fields, .record vs => 4 + membersSize fields vs
  | .array elem, .array vs => 20 + (vs.map fun v => 4 + sizeOf elem v).sum
  | _, _ => 0
where
  membersSize : List Ty → List Value → Nat
    | t :: ts, v :: vs => 8 + sizeOf t v + membersSize ts vs
    | _, _ => 0

end AsiofiedLibpq.Psql
