import AsiofiedLibpq.Psql.Params
import AsiofiedLibpq.Psql.Decode

set_option autoImplicit false

/-!
# `params` and `serialize(omp, buffer, params)` agree

The library builds the arrays `PQsendQueryParams` reads in two ways: the class
`psql::params`, which appends each argument to its buffer and computes the value pointers
afterwards from the recorded `int` lengths, and `detail::serialize(omp, buffer, params)`,
which takes each pointer from `serialize` as it appends. Both fail exactly when an OID
lookup fails. Otherwise they hold the same buffer, OIDs, lengths and formats; their value
pointers agree while every length fits an `int`, except that `params` passes `nullptr` for
an empty parameter, which libpq sends as `NULL`.

Read back by `parse`, each parameter of `params` is then its argument, with time stamps
truncated to whole microseconds, an empty one being `NULL`.
-/

namespace AsiofiedLibpq.Psql

open Params

variable {M : OidMap}

/-- Where each of the encodings `bs`, laid end to end after `offset` bytes, starts. -/
def starts : Nat → List (List UInt8) → List Nat
  | _, [] => []
  | offset, b :: bs => offset :: starts (offset + b.length) bs

/-- `convert_offsets` on exact lengths is `serialize`'s pointers, `nullptr` for the empty ones. -/
theorem pointers_lengths (offset : Nat) (bs : List (List UInt8)) :
    pointers offset (bs.map fun b => (b.length : Int)) =
      List.zipWith (fun (v : Nat) (l : Int) => if l ≠ 0 then some (v : Int) else none)
        (starts offset bs) (bs.map fun b => (b.length : Int)) := by
  induction bs generalizing offset with
  | nil => rfl
  | cons b bs ih =>
    simp only [List.map_cons, pointers, starts, List.zipWith_cons_cons, ← ih]
    rfl

/-- The OIDs and encodings of a list of arguments, as `params::add` and `serialize` find them. -/
abbrev Encodes (M : OidMap) (args : List (Ty × Value)) (enc : List (Nat × List UInt8)) : Prop :=
  List.Forall₂ (fun a e => oidOf M a.1 = some e.1 ∧ serialize M a.1 a.2 = some e.2) args enc

theorem mapM_oidOf_of_encodes {args : List (Ty × Value)} {enc : List (Nat × List UInt8)}
    (h : Encodes M args enc) : args.mapM (fun a => oidOf M a.1) = some (enc.map Prod.fst) := by
  induction h with
  | nil => rfl
  | cons hr _ ih =>
    simp only [List.mapM_cons, hr.1, ih, List.map_cons]
    rfl

/-- The fold of `serialize(omp, buffer, params)` from any buffer and pointers so far. -/
theorem foldlM_serializeArg_of_encodes {args : List (Ty × Value)} {enc : List (Nat × List UInt8)}
    (h : Encodes M args enc) (acc : List UInt8 × List Nat) :
    args.foldlM (serializeParams.serializeArg M) acc =
      some (acc.1 ++ (enc.map Prod.snd).flatten, acc.2 ++ starts acc.1.length (enc.map Prod.snd)) := by
  induction h generalizing acc with
  | nil => simp [starts]
  | cons hr _ ih => simp [serializeParams.serializeArg, serializeImpl_eq, hr.2, ih, starts]

theorem isSome_of_encodes {args : List (Ty × Value)} {enc : List (Nat × List UInt8)}
    (h : Encodes M args enc) : ∀ a ∈ args, (oidOf M a.1).isSome ∧ (serialize M a.1 a.2).isSome := by
  induction h with
  | nil => exact fun _ h => absurd h (List.not_mem_nil _)
  | cons hr _ ih =>
    intro a ha
    rcases List.mem_cons.mp ha with rfl | ha
    · simp [hr.1, hr.2]
    · exact ih a ha

theorem isSome_of_mapM_oidOf : ∀ {args : List (Ty × Value)} {types : List Nat},
    args.mapM (fun a => oidOf M a.1) = some types → ∀ a ∈ args, (oidOf M a.1).isSome
  | [], _, _ => fun _ h => absurd h (List.not_mem_nil _)
  | a :: args, types, h => by
    simp only [List.mapM_cons, Option.bind_eq_bind, Option.bind_eq_some] at h
    obtain ⟨o, ho, ts, hts, -⟩ := h
    intro a' ha'
    rcases List.mem_cons.mp ha' with rfl | ha'
    · simp [ho]
    · exact isSome_of_mapM_oidOf hts a' ha'

theorem isSome_of_foldlM_serializeArg : ∀ {args : List (Ty × Value)}
    {acc r : List UInt8 × List Nat}, args.foldlM (serializeParams.serializeArg M) acc = some r →
      ∀ a ∈ args, (serialize M a.1 a.2).isSome
  | [], _, _, _ => fun _ h => absurd h (List.not_mem_nil _)
  | a :: args, acc, r, h => by
    simp only [List.foldlM_cons, serializeParams.serializeArg, serializeImpl_eq,
      Option.bind_eq_bind] at h
    cases hs : serialize M a.1 a.2 with
    | none => simp [hs] at h
    | some b =>
      simp only [hs, Option.map_some', Option.some_bind] at h
      intro a' ha'
      rcases List.mem_cons.mp ha' with rfl | ha'
      · simp [hs]
      · exact isSome_of_foldlM_serializeArg h a' ha'

/-- `params(omp, args...)` fails exactly when an argument's OID lookup fails. -/
theorem make_isSome_iff {args : List (Ty × Value)} :
    (make M args).isSome ↔ ∀ a ∈ args, (oidOf M a.1).isSome ∧ (serialize M a.1 a.2).isSome := by
  refine ⟨fun h => ?_, fun h => ?_⟩
  · obtain ⟨p, hp⟩ := Option.isSome_iff_exists.mp h
    simp only [make, Option.map_eq_some'] at hp
    obtain ⟨q, hq, -⟩ := hp
    obtain ⟨enc, hr, -⟩ := foldlM_add hq
    exact isSome_of_encodes hr
  · obtain ⟨q, hq⟩ := foldlM_add_isSome empty h
    simp [make, hq]

/-- So does `serialize(omp, buffer, params)`. -/
theorem serializeParams_isSome_iff {args : List (Ty × Value)} :
    (serializeParams M args).isSome ↔
      ∀ a ∈ args, (oidOf M a.1).isSome ∧ (serialize M a.1 a.2).isSome := by
  refine ⟨fun h => ?_, fun h => ?_⟩
  · obtain ⟨r, hr⟩ := Option.isSome_iff_exists.mp h
    simp only [serializeParams, Option.bind_eq_bind, Option.bind_eq_some] at hr
    obtain ⟨types, ht, filled, hf, -⟩ := hr
    exact fun a ha => ⟨isSome_of_mapM_oidOf ht a ha, isSome_of_foldlM_serializeArg hf a ha⟩
  · obtain ⟨types, ht⟩ := mapM_oidOf fun a ha => (h a ha).1
    obtain ⟨r, hr⟩ := foldlM_serializeArg ([], []) fun a ha => (h a ha).2
    rw [serializeParams, ht, hr]
    rfl

/-- What `params(omp, args...)` holds, from the OIDs and encodings of its arguments. -/
theorem make_of_encodes {args : List (Ty × Value)} {p : Params} (hp : make M args = some p) :
    ∃ enc, Encodes M args enc ∧
      p = ⟨(enc.map Prod.snd).flatten, enc.map Prod.fst,
        pointers 0 (args.map fun a => intOfSize (sizeOf a.1 a.2)),
        args.map (fun a => intOfSize (sizeOf a.1 a.2)),
        (args.map fun a => intOfSize (sizeOf a.1 a.2)).map fun _ => 1⟩ := by
  simp only [make, Option.map_eq_some'] at hp
  obtain ⟨q, hq, rfl⟩ := hp
  obtain ⟨enc, hr, rfl⟩ := foldlM_add hq
  exact ⟨enc, hr, by simp [convertOffsets, convertOffsets_go, empty]⟩

/-- What `serialize(omp, buffer, params)` returns, from the same OIDs and encodings. -/
theorem serializeParams_of_encodes {args : List (Ty × Value)} {enc : List (Nat × List UInt8)}
    (h : Encodes M args enc) :
    serializeParams M args = some ((enc.map Prod.snd).flatten,
      ⟨enc.map Prod.fst, starts 0 (enc.map Prod.snd),
        args.map fun a => intOfSize (sizeOf a.1 a.2), args.map fun _ => 1⟩) := by
  rw [serializeParams, mapM_oidOf_of_encodes h, foldlM_serializeArg_of_encodes h]
  rfl

/-- With every length exact, the lengths are those of the encodings. -/
theorem lengths_of_encodes {args : List (Ty × Value)} {enc : List (Nat × List UInt8)}
    (h : Encodes M args enc) (hs : ∀ a ∈ args, sizeOf a.1 a.2 < 2 ^ 31) :
    args.map (fun a => intOfSize (sizeOf a.1 a.2)) =
      (enc.map Prod.snd).map fun b => (b.length : Int) := by
  induction h with
  | nil => rfl
  | @cons a e args enc hr _ ih =>
    simp only [List.map_cons, List.cons.injEq]
    refine ⟨?_, ih fun a' h' => hs a' (List.mem_cons_of_mem _ h')⟩
    rw [intOfSize_of_lt (hs a (List.mem_cons_self _ _)), length_serialize _ _ hr.2]

/-- The two ways the library lays out `PQsendQueryParams`' arrays agree. `params(omp, args...)`
and `serialize(omp, buffer, params)` fail on the same argument lists; otherwise they hold the
same buffer, OIDs, lengths and formats, and, while every length fits an `int`, the same value
pointers, except that `params` passes `nullptr` for an empty parameter. -/
theorem make_agrees_serializeParams (M : OidMap) (args : List (Ty × Value)) :
    (make M args).isSome = (serializeParams M args).isSome ∧
      ∀ p r, make M args = some p → serializeParams M args = some r →
        p.buffer = r.1 ∧ p.types = r.2.types ∧ p.lengths = r.2.lengths ∧
          p.formats = r.2.formats ∧
          ((∀ a ∈ args, sizeOf a.1 a.2 < 2 ^ 31) →
            p.values = List.zipWith (fun (v : Nat) (l : Int) => if l ≠ 0 then some (v : Int) else none)
              r.2.values r.2.lengths) := by
  refine ⟨Bool.eq_iff_iff.mpr (make_isSome_iff.trans serializeParams_isSome_iff.symm),
    fun p r hp hr => ?_⟩
  obtain ⟨enc, he, rfl⟩ := make_of_encodes hp
  rw [serializeParams_of_encodes he, Option.some_inj] at hr
  subst hr
  refine ⟨rfl, rfl, rfl, by simp [Function.comp_def], fun hs => ?_⟩
  simp only [lengths_of_encodes he hs]
  exact pointers_lengths 0 _

/-- An `int32_t` and an empty string: the same arrays both ways, but for the `nullptr`. -/
theorem int_and_empty_text_agree :
    make [] [(.numeric 4 23 1007, .numeric 1), (.text, .text [])] =
        some ⟨[0, 0, 0, 1], [23, textOids.1], [some 0, none], [4, 0], [1, 1]⟩ ∧
      serializeParams [] [(.numeric 4 23 1007, .numeric 1), (.text, .text [])] =
        some ([0, 0, 0, 1], ⟨[23, textOids.1], [0, 4], [4, 0], [1, 1]⟩) ∧
      (∀ a ∈ [(Ty.numeric 4 23 1007, Value.numeric 1), (.text, .text [])], sizeOf a.1 a.2 < 2 ^ 31) ∧
      [some 0, none] = List.zipWith (fun (v : Nat) (l : Int) => if l ≠ 0 then some (v : Int) else none)
        [0, 4] [4, 0] :=
  have hp : make [] [(.numeric 4 23 1007, .numeric 1), (.text, .text [])] =
      some ⟨[0, 0, 0, 1], [23, textOids.1], [some 0, none], [4, 0], [1, 1]⟩ := by decide
  have hr : serializeParams [] [(.numeric 4 23 1007, .numeric 1), (.text, .text [])] =
      some ([0, 0, 0, 1], ⟨[23, textOids.1], [0, 4], [4, 0], [1, 1]⟩) := by decide
  have hs : ∀ a ∈ [(Ty.numeric 4 23 1007, Value.numeric 1), (.text, .text [])],
      sizeOf a.1 a.2 < 2 ^ 31 := by decide
  ⟨hp, hr, hs, ((make_agrees_serializeParams [] _).2 _ _ hp hr).2.2.2.2 hs⟩

/-! ## What a parameter carries

`PQsendQueryParams` hands on each parameter's OID and, in binary format, the `lengths[i]`
bytes at `values[i]`, or SQL `NULL` for a null pointer. With every length exact, `parse` reads
each parameter back as its argument, time stamps truncated to whole microseconds, except that
an empty one is `NULL`. -/

/-- Parameter `i` read back at type `t`: `NULL` for a null pointer, otherwise what `parse`
reads from the bytes the pointer and the length delimit. -/
def Params.read (p : Params) (M : OidMap) (t : Ty) (i : Nat) : Option (Option Value) := do
  let ptr ← p.values[i]?
  let len ← p.lengths[i]?
  match ptr with
  | none => pure none
  | some off => some <$> decode M t ((p.buffer.drop off.toNat).take len.toNat)

/-- Every parameter of `params(omp, args...)` carries its argument: the OID of its type, and,
read back by `parse` from what the pointer and the length delimit, its value with time stamps
truncated to whole microseconds; an empty parameter is `NULL`. -/
theorem make_reads_back {args : List (Ty × Value)} {p : Params} (hp : make M args = some p)
    (hv : ∀ a ∈ args, a.1.admits a.2 = true ∧ countsFit a.1 a.2 = true ∧ sizeOf a.1 a.2 < 2 ^ 31)
    {i : Nat} {a : Ty × Value} (ha : args[i]? = some a) :
    p.types[i]? = oidOf M a.1 ∧
      p.read M a.1 i = some (if sizeOf a.1 a.2 = 0 then none else some a.2.truncateMicros) := by
  have hL := make_layout hp fun a h => (hv a h).2.2
  obtain ⟨hva, hfa, -⟩ := hv a (List.mem_iff_getElem?.mpr ⟨i, ha⟩)
  have hdec := decode_wireEncoding M a.2 hva
    ((serialize_eq_wireEncoding M a.2 hva hfa).symm.trans (hL.bytes i a ha))
  refine ⟨hL.types i a ha, ?_⟩
  simp only [Params.read, hL.values i a ha, hL.lengths i a ha, Option.bind_eq_bind,
    Option.some_bind]
  split_ifs
  · rfl
  · show some <$> decode M a.1 _ = _
    rw [Int.toNat_ofNat, hdec]
    rfl

/-- An `int32_t` 1 and an empty string: the first reads back as 1, the second as `NULL`. -/
theorem int_reads_back :
    make [] [(.numeric 4 23 1007, .numeric 1), (.text, .text [])] =
        some ⟨[0, 0, 0, 1], [23, textOids.1], [some 0, none], [4, 0], [1, 1]⟩ ∧
      (∀ a ∈ [(Ty.numeric 4 23 1007, Value.numeric 1), (.text, .text [])],
        a.1.admits a.2 = true ∧ countsFit a.1 a.2 = true ∧ sizeOf a.1 a.2 < 2 ^ 31) ∧
      Params.read ⟨[0, 0, 0, 1], [23, textOids.1], [some 0, none], [4, 0], [1, 1]⟩ []
        (.numeric 4 23 1007) 0 = some (some (.numeric 1)) :=
  have hp : make [] [(.numeric 4 23 1007, .numeric 1), (.text, .text [])] =
      some ⟨[0, 0, 0, 1], [23, textOids.1], [some 0, none], [4, 0], [1, 1]⟩ := by decide
  have hv : ∀ a ∈ [(Ty.numeric 4 23 1007, Value.numeric 1), (.text, .text [])],
      a.1.admits a.2 = true ∧ countsFit a.1 a.2 = true ∧ sizeOf a.1 a.2 < 2 ^ 31 := by decide
  ⟨hp, hv, (make_reads_back hp hv (i := 0) rfl).2⟩

end AsiofiedLibpq.Psql
