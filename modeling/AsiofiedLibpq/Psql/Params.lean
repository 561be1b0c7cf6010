import AsiofiedLibpq.Psql.WireFormat
import AsiofiedLibpq.Psql.ExtractNewUdts

set_option autoImplicit false

/-!
# The parameter block

`psql::params` serializes its arguments one after another into the buffer it
owns, recording for each its OID and the `int` its `size_of` becomes, and then
`convert_offsets` turns the lengths into value pointers: the running offset
into the buffer, or `nullptr` for a zero length, which libpq reads as SQL
`NULL`. A value pointer is modelled as its offset into the buffer.

When every length fits an `int`, the block is laid out as `PQsendQueryParams`
expects, except that a zero-length value is passed as `NULL`; the sibling
`serialize(omp, buffer, params)` passes the same value a pointer to its offset.
-/

namespace AsiofiedLibpq.Psql

/-- The `int` a `size_t` becomes: its value modulo 2^32, as two's complement. -/
def intOfSize (n : Nat) : Int :=
  if n % 2 ^ 32 < 2 ^ 31 then (n % 2 ^ 32 : Nat) else (n % 2 ^ 32 : Nat) - 2 ^ 32

theorem intOfSize_of_lt {n : Nat} (h : n < 2 ^ 31) : intOfSize n = n := by
  unfold intOfSize
  rw [Nat.mod_eq_of_lt (by omega), if_pos h]

/-- `psql::params`: the buffer it owns and the four arrays it hands to `PQsendQueryParams`.
A value pointer is an offset into the buffer, `none` for `nullptr`. -/
structure Params where
  buffer : List UInt8
  types : List Nat
  values : List (Option Int)
  lengths : List Int
  formats : List Int
  deriving DecidableEq, Repr

namespace Params

def empty : Params := ⟨[], [], [], [], []⟩

def count (p : Params) : Nat := p.types.length

def add (M : OidMap) (p : Params) (t : Ty) (v : Value) : Option Params := do
  let oid ← oidOf M t
  let bytes ← serialize M t v
  pure { p with
    types := p.types ++ [oid]
    lengths := p.lengths ++ [intOfSize (sizeOf t v)]
    buffer := p.buffer ++ bytes }

/-- `params::convert_offsets`: for each length, a pointer at the running offset, or
`nullptr` for a zero length; and format 1 for every parameter. -/
def convertOffsets (p : Params) : Params := go p.lengths 0 p
where
  go : List Int → Int → Params → Params
    | [], _, p => p
    | length :: rest, offset, p =>
      go rest (offset + length)
        { p with
          values := p.values ++ [if length ≠ 0 then some offset else none]
          formats := p.formats ++ [1] }

def make (M : OidMap) (args : List (Ty × Value)) : Option Params :=
  (args.foldlM (fun (p : Params) (a : Ty × Value) => p.add M a.1 a.2) empty).map convertOffsets

/-- What the adds leave: the arguments' OIDs and encodings in order, and their lengths. -/
theorem foldlM_add {M : OidMap} : ∀ {args : List (Ty × Value)} {p₀ q : Params},
    args.foldlM (fun (p : Params) (a : Ty × Value) => p.add M a.1 a.2) p₀ = some q →
    ∃ enc : List (Nat × List UInt8),
      List.Forall₂ (fun a e => oidOf M a.1 = some e.1 ∧ serialize M a.1 a.2 = some e.2) args enc ∧
      q = { p₀ with
        types := p₀.types ++ enc.map Prod.fst
        lengths := p₀.lengths ++ args.map fun a => intOfSize (sizeOf a.1 a.2)
        buffer := p₀.buffer ++ (enc.map Prod.snd).flatten }
  | [], p₀, q, h => ⟨[], .nil, by cases h; simp⟩
  | a :: args, p₀, q, h => by
    simp only [List.foldlM_cons, add, Option.bind_eq_bind, Option.bind_eq_some, Option.pure_def,
      Option.some.injEq] at h
    obtain ⟨_, ⟨oid, ho, bytes, hb, rfl⟩, hq⟩ := h
    obtain ⟨enc, hr, rfl⟩ := foldlM_add hq
    exact ⟨(oid, bytes) :: enc, .cons ⟨ho, hb⟩ hr, by simp⟩

def pointers : Int → List Int → List (Option Int)
  | _, [] => []
  | offset, length :: rest => (if length ≠ 0 then some offset else none) :: pointers (offset + length) rest

theorem length_pointers (offset : Int) (ls : List Int) : (pointers offset ls).length = ls.length := by
  induction ls generalizing offset with
  | nil => rfl
  | cons l ls ih => simp [pointers, ih]

theorem getElem?_pointers (offset : Int) (ls : List Int) (i : Nat) :
    (pointers offset ls)[i]? =
      ls[i]?.map fun l => if l ≠ 0 then some (offset + (ls.take i).sum) else none := by
  induction ls generalizing offset i with
  | nil => rfl
  | cons l ls ih =>
    cases i with
    | zero =>
      simp only [pointers, List.getElem?_cons_zero, List.take_zero, List.sum_nil, add_zero,
        Option.map_some']
    | succ i =>
      simp only [pointers, List.getElem?_cons_succ, ih, List.take_succ_cons, List.sum_cons,
        add_assoc]

theorem convertOffsets_go (ls : List Int) (offset : Int) (p : Params) :
    convertOffsets.go ls offset p =
      { p with values := p.values ++ pointers offset ls, formats := p.formats ++ ls.map fun _ => 1 } := by
  induction ls generalizing offset p with
  | nil => simp [convertOffsets.go, pointers]
  | cons l ls ih => simp [convertOffsets.go, pointers, ih]

end Params

open Params

/-- How `PQsendQueryParams` reads a parameter block made from `args`. -/
structure Layout (M : OidMap) (args : List (Ty × Value)) (p : Params) : Prop where
  count : p.count = args.length
  lengthsAgree : p.values.length = args.length ∧ p.lengths.length = args.length ∧
    p.formats.length = args.length
  types : ∀ (i : Nat) (a : Ty × Value), args[i]? = some a → p.types[i]? = oidOf M a.1
  lengths : ∀ (i : Nat) (a : Ty × Value), args[i]? = some a → p.lengths[i]? = some (sizeOf a.1 a.2 : Int)
  formats : ∀ i : Nat, i < args.length → p.formats[i]? = some 1
  -- a pointer to the sum of the lengths before it, `nullptr` for a zero length
  values : ∀ (i : Nat) (a : Ty × Value), args[i]? = some a →
    p.values[i]? = some (if sizeOf a.1 a.2 = 0 then none else some (p.lengths.take i).sum)
  -- where the buffer holds the parameter's encoding
  bytes : ∀ (i : Nat) (a : Ty × Value), args[i]? = some a →
    serialize M a.1 a.2 = some ((p.buffer.drop (p.lengths.take i).sum.toNat).take (sizeOf a.1 a.2))

theorem Forall₂.getElem? {α β : Type} {R : α → β → Prop} {l₁ : List α} {l₂ : List β}
    (h : List.Forall₂ R l₁ l₂) {i : Nat} {a : α} (ha : l₁[i]? = some a) :
    ∃ b, l₂[i]? = some b ∧ R a b := by
  obtain ⟨hi, rfl⟩ := List.getElem?_eq_some_iff.mp ha
  have hi₂ : i < l₂.length := h.length_eq ▸ hi
  exact ⟨_, List.getElem?_eq_getElem hi₂, h.get hi hi₂⟩

theorem length_encodings {M : OidMap} {args : List (Ty × Value)} {enc : List (Nat × List UInt8)}
    (h : List.Forall₂ (fun a e => oidOf M a.1 = some e.1 ∧ serialize M a.1 a.2 = some e.2) args enc) :
    (enc.map Prod.snd).map List.length = args.map fun a => sizeOf a.1 a.2 := by
  induction h with
  | nil => rfl
  | cons hr _ ih => simp [ih, length_serialize _ _ hr.2]

/-- With every length below 2^31, the block is laid out as `PQsendQueryParams` expects,
a zero-length parameter's pointer being `nullptr`. -/
theorem make_layout {M : OidMap} {args : List (Ty × Value)} {p : Params}
    (hp : make M args = some p) (hs : ∀ a ∈ args, sizeOf a.1 a.2 < 2 ^ 31) : Layout M args p := by
  simp only [make, Option.map_eq_some'] at hp
  obtain ⟨q, hq, rfl⟩ := hp
  obtain ⟨enc, hr, rfl⟩ := foldlM_add hq
  set L := enc.map Prod.snd
  set ls := args.map fun a => (sizeOf a.1 a.2 : Int)
  have hls : args.map (fun a => intOfSize (sizeOf a.1 a.2)) = ls :=
    List.map_congr_left fun a ha => intOfSize_of_lt (hs a ha)
  have hsum : ∀ i, (ls.take i).sum = (((L.map List.length).take i).sum : Nat) := fun i => by
    rw [length_encodings hr, Nat.cast_list_sum, List.map_take, List.map_map]; rfl
  have hp : convertOffsets ⟨[] ++ L.flatten, [] ++ enc.map Prod.fst, [],
      [] ++ args.map fun a => intOfSize (sizeOf a.1 a.2), []⟩ =
      ⟨L.flatten, enc.map Prod.fst, pointers 0 ls, ls, ls.map fun _ => 1⟩ := by
    simp [convertOffsets, convertOffsets_go, hls]
  simp only [empty, hp]
  refine ⟨by simp [count, hr.length_eq], by simp [ls, length_pointers], ?types, ?lengths, ?formats,
    ?values, ?bytes⟩
  case types =>
    intro i a ha
    obtain ⟨e, he, hae⟩ := Forall₂.getElem? hr ha
    simp [List.getElem?_map, he, hae.1]
  case lengths => intro i a ha; simp [ls, List.getElem?_map, ha]
  case formats => intro i hi; simp [ls, List.getElem?_map, List.getElem?_eq_getElem hi]
  case values =>
    intro i a ha
    rw [getElem?_pointers]
    simp only [ls, List.getElem?_map, ha]
    by_cases h0 : sizeOf a.1 a.2 = 0 <;> simp [h0]
  case bytes =>
    intro i a ha
    obtain ⟨e, he, hae⟩ := Forall₂.getElem? hr ha
    have hL : L[i]? = some e.2 := by simp [L, List.getElem?_map, he]
    obtain ⟨hi, hLi⟩ := List.getElem?_eq_some_iff.mp hL
    rw [hae.2, hsum, Int.toNat_ofNat, List.drop_sum_flatten, List.drop_eq_getElem_cons hi,
      List.flatten_cons, hLi, List.take_left' (length_serialize _ _ hae.2)]

/-- The arrays `detail::serialize(omp, buffer, params)` returns beside the buffer it fills;
a value pointer is an offset into the buffer. -/
structure ParamArrays where
  types : List Nat
  values : List Nat
  lengths : List Int
  formats : List Int
  deriving DecidableEq, Repr

/-- `detail::serialize(omp, buffer, params)`: the buffer is cleared and the arguments serialized
into it in order; each value pointer is where the argument's bytes start, each length is
`static_cast<int>` of its `size_of`, and every format is binary. -/
def serializeParams (M : OidMap) (args : List (Ty × Value)) :
    Option (List UInt8 × ParamArrays) := do
  let types ← args.mapM fun a => oidOf M a.1
  let filled ← args.foldlM (serializeArg M) ([], [])
  pure (filled.1,
    ⟨types, filled.2, args.map fun a => intOfSize (sizeOf a.1 a.2), args.map fun _ => 1⟩)
where
  /-- `serialize(omp, buffer, arg)`: the buffer with the argument appended, and the pointer it
  returns, to where the argument starts. -/
  serializeArg (M : OidMap) (acc : List UInt8 × List Nat) (a : Ty × Value) :
      Option (List UInt8 × List Nat) := do
    let buffer ← serializeImpl M acc.1 a.1 a.2
    pure (buffer, acc.2 ++ [acc.1.length])

/-- An empty string: `params` passes it a null value pointer, so libpq sends SQL `NULL`, where
`serialize(omp, buffer, params)` passes a pointer to its offset with length `0`. -/
theorem empty_text_null_in_params :
    make [] [(.text, .text [])] = some ⟨[], [textOids.1], [none], [0], [1]⟩ ∧
      serializeParams [] [(.text, .text [])] = some ([], ⟨[textOids.1], [0], [0], [1]⟩) := by
  decide

section Accepted

variable {M : OidMap}

theorem mapM_oidOf : ∀ {args : List (Ty × Value)}, (∀ a ∈ args, (oidOf M a.1).isSome) →
    ∃ types, args.mapM (fun a => oidOf M a.1) = some types
  | [], _ => ⟨[], rfl⟩
  | a :: args, h => by
    obtain ⟨o, ho⟩ := Option.isSome_iff_exists.mp (h a (List.mem_cons_self _ _))
    obtain ⟨ts, hts⟩ := mapM_oidOf fun a' h' => h a' (List.mem_cons_of_mem _ h')
    exact ⟨o :: ts, by simp only [List.mapM_cons, ho, hts]; rfl⟩

theorem foldlM_serializeArg : ∀ {args : List (Ty × Value)} (acc : List UInt8 × List Nat),
    (∀ a ∈ args, (serialize M a.1 a.2).isSome) →
    ∃ r, args.foldlM (serializeParams.serializeArg M) acc = some r
  | [], acc, _ => ⟨acc, rfl⟩
  | a :: args, acc, h => by
    obtain ⟨b, hb⟩ := Option.isSome_iff_exists.mp (h a (List.mem_cons_self _ _))
    obtain ⟨r, hr⟩ := foldlM_serializeArg (acc.1 ++ b, acc.2 ++ [acc.1.length])
      fun a' h' => h a' (List.mem_cons_of_mem _ h')
    exact ⟨r, by simp [serializeParams.serializeArg, serializeImpl_eq, hb, hr]⟩

theorem foldlM_add_isSome : ∀ {args : List (Ty × Value)} (p₀ : Params),
    (∀ a ∈ args, (oidOf M a.1).isSome ∧ (serialize M a.1 a.2).isSome) →
    ∃ q, args.foldlM (fun (p : Params) (a : Ty × Value) => p.add M a.1 a.2) p₀ = some q
  | [], p₀, _ => ⟨p₀, rfl⟩
  | a :: args, p₀, h => by
    obtain ⟨o, ho⟩ := Option.isSome_iff_exists.mp (h a (List.mem_cons_self _ _)).1
    obtain ⟨b, hb⟩ := Option.isSome_iff_exists.mp (h a (List.mem_cons_self _ _)).2
    obtain ⟨q, hq⟩ := foldlM_add_isSome _ fun a' h' => h a' (List.mem_cons_of_mem _ h')
    exact ⟨q, by simpa [add, ho, hb] using hq⟩

end Accepted

end AsiofiedLibpq.Psql
