import AsiofiedLibpq.Psql.Types

set_option autoImplicit false

/-!
# The binary encoder

`detail::serialize` for one value: big-endian numerics, a `time_point` as
microseconds since 2000-01-01, text as its raw bytes, a composite or tuple as
its field count and per member its OID, length and bytes, an array as a
five-word header and per element its length and bytes. Every `int32` header is
written by `serialize<int32_t>`, so it is its value modulo 2^32. An OID lookup
that fails makes the whole encoding fail.

The encoding is `size_of` bytes long, which is what `params` relies on to find
each parameter in its buffer.
-/

namespace AsiofiedLibpq.Psql

/-- The `w` big-endian bytes of `n`; bits above `8 * w` are dropped. -/
def toListBE : Nat → Nat → List UInt8
  | 0, _ => []
  | w + 1, n => toListBE w (n / 256) ++ [UInt8.ofNat (n % 256)]

@[simp] theorem length_toListBE (w n : Nat) : (toListBE w n).length = w := by
  induction w generalizing n with
  | zero => rfl
  | succ w ih => simp [toListBE, ih]

/-- `serialize<int32_t>` of a count, length or OID. -/
def int32 (n : Nat) : List UInt8 := toListBE 4 n

@[simp] theorem length_int32 (n : Nat) : (int32 n).length = 4 := length_toListBE 4 n

/-- The microseconds since 2000-01-01 a `time_point` of `ns` nanoseconds since the Unix
epoch is sent as: `duration_cast<microseconds>` truncates toward zero. -/
def timePointMicros (ns : Int) : Int := ns.tdiv 1000 - 946684800000000

/-- `detail::serialize`: the bytes `v`, of type `t`, appends to the buffer; `none` when an
`oid_of` lookup fails. -/
def serialize (M : OidMap) : Ty → Value → Option (List UInt8)
  | .numeric width _ _, .numeric bits => some (toListBE width bits)
  | .timePoint, .timePoint ns => some (toListBE 8 (timePointMicros ns % 2 ^ 64).toNat)
  | .text, .text chars => some chars
  | .composite _ _ fields, .record vs => (int32 fields.length ++ ·) <$> serializeMembers fields vs
  | .tuple fields, .record vs => (int32 fields.length ++ ·) <$> serializeMembers fields vs
  | .array elem, .array vs => do
    let oid ← oidOf M elem
    let body ← serializeElems elem vs
    pure (int32 1 ++ int32 0 ++ int32 oid ++ int32 vs.length ++ int32 0 ++ body)
  | _, _ => none
where
  /-- `serialize_member` over the fields. -/
  serializeMembers : List Ty → List Value → Option (List UInt8)
    | t :: ts, v :: vs => do
      let oid ← oidOf M t
      let bytes ← serialize M t v
      let rest ← serializeMembers ts vs
      pure (int32 oid ++ int32 (sizeOf t v) ++ bytes ++ rest)
    | _, _ => some []
  /-- The array's elements, each after its length. -/
  serializeElems (elem : Ty) : List Value → Option (List UInt8)
    | [] => some []
    | v :: vs => do
      let bytes ← serialize M elem v
      let rest ← serializeElems elem vs
      pure (int32 (sizeOf elem v) ++ bytes ++ rest)

/-- The encoding is exactly `size_of` bytes long. -/
theorem length_serialize (M : OidMap) : ∀ (v : Value) {t : Ty} {bytes : List UInt8},
    serialize M t v = some bytes → bytes.length = sizeOf t v
  | .numeric _, t, _, h | .timePoint _, t, _, h | .text _, t, _, h => by
    cases t <;> cases h
    first | exact length_toListBE _ _ | rfl
  | .record vs, t, _, h => by
    cases t with
    | composite _ _ fields | tuple fields =>
      obtain ⟨body, hb, rfl⟩ := Option.map_eq_some'.mp h
      rw [List.length_append, length_int32, length_members vs hb]
      rfl
    | _ => cases h
  | .array vs, t, _, h => by
    cases t with
    | array elem =>
      obtain ⟨_, _, h⟩ := Option.bind_eq_some.mp h
      obtain ⟨body, hb, ⟨⟩⟩ := Option.bind_eq_some.mp h
      simp only [List.length_append, length_int32, length_elems vs hb]
      rfl
    | _ => cases h
where
  length_members : ∀ (vs : List Value) {ts : List Ty} {bytes : List UInt8},
      serialize.serializeMembers M ts vs = some bytes → bytes.length = sizeOf.membersSize ts vs
    | [], ts, _, h => by cases ts <;> cases h <;> rfl
    | v :: vs, [], _, h => by cases h; rfl
    | v :: vs, t :: ts, _, h => by
      obtain ⟨_, _, h⟩ := Option.bind_eq_some.mp h
      obtain ⟨bytes, hv, h⟩ := Option.bind_eq_some.mp h
      obtain ⟨rest, hr, ⟨⟩⟩ := Option.bind_eq_some.mp h
      show _ = 8 + sizeOf t v + sizeOf.membersSize ts vs
      simp only [List.length_append, length_int32, length_serialize M v hv, length_members vs hr]
  length_elems : ∀ (vs : List Value) {elem : Ty} {bytes : List UInt8},
      serialize.serializeElems M elem vs = some bytes →
        bytes.length = (vs.map fun v => 4 + sizeOf elem v).sum
    | [], _, _, h => by cases h; rfl
    | v :: vs, elem, _, h => by
      obtain ⟨bytes, hv, h⟩ := Option.bind_eq_some.mp h
      obtain ⟨rest, hr, ⟨⟩⟩ := Option.bind_eq_some.mp h
      simp only [List.length_append, length_int32, length_serialize M v hv, length_elems vs hr,
        List.map_cons, List.sum_cons]

/-! ## The encoder on its buffer

`serialize_impl<T>::apply` works on the buffer: a numeric resizes it by `sizeof(T)` and stores
its big-endian bytes through the pointer `&buffer.back() - (sizeof(T) - 1)`, text is appended,
and the headers are numerics of type `int32_t`. What it leaves is the old buffer followed by
`serialize`'s bytes. -/

/-- `endian_store` of `bytes` at offset `p` of the buffer. -/
def storeAt (buffer : List UInt8) (p : Nat) (bytes : List UInt8) : List UInt8 :=
  buffer.take p ++ bytes ++ buffer.drop (p + bytes.length)

/-- `serialize_impl` of a numeric of `sizeof` `width`: `resize` pads the buffer with `width`
zero bytes, and the value is stored at `&buffer.back() - (width - 1)`. -/
def storeNumeric (buffer : List UInt8) (width bits : Nat) : List UInt8 :=
  let resized := buffer ++ List.replicate width 0
  storeAt resized (resized.length - 1 - (width - 1)) (toListBE width bits)

/-- `serialize<int32_t>(omp, buffer, n)`: the count, length or OID converts to `int32_t`. -/
def storeInt32 (buffer : List UInt8) (n : Nat) : List UInt8 := storeNumeric buffer 4 n

/-- `serialize_impl<T>::apply`: the buffer after `v`, of type `t`, is appended to it; `none`
when an `oid_of` lookup fails. -/
def serializeImpl (M : OidMap) (buffer : List UInt8) : Ty → Value → Option (List UInt8)
  | .numeric width _ _, .numeric bits => some (storeNumeric buffer width bits)
  | .timePoint, .timePoint ns => some (storeNumeric buffer 8 (timePointMicros ns % 2 ^ 64).toNat)
  | .text, .text chars => some (buffer ++ chars)
  | .composite _ _ fields, .record vs => serializeMembers (storeInt32 buffer fields.length) fields vs
  | .tuple fields, .record vs => serializeMembers (storeInt32 buffer fields.length) fields vs
  | .array elem, .array vs => do
    let oid ← oidOf M elem
    serializeElems elem ([1, 0, oid, vs.length, 0].foldl storeInt32 buffer) vs
  | _, _ => none
where
  /-- `serialize_member` over the fields. -/
  serializeMembers (buffer : List UInt8) : List Ty → List Value → Option (List UInt8)
    | t :: ts, v :: vs => do
      let oid ← oidOf M t
      let buffer ← serializeImpl M (storeInt32 (storeInt32 buffer oid) (sizeOf t v)) t v
      serializeMembers buffer ts vs
    | _, _ => some buffer
  /-- The array's elements, each after its length. -/
  serializeElems (elem : Ty) (buffer : List UInt8) : List Value → Option (List UInt8)
    | [] => some buffer
    | v :: vs => do
      let buffer ← serializeImpl M (storeInt32 buffer (sizeOf elem v)) elem v
      serializeElems elem buffer vs

/-- The store lands exactly on the bytes `resize` added. -/
theorem storeNumeric_eq (buffer : List UInt8) (width bits : Nat) :
    storeNumeric buffer width bits = buffer ++ toListBE width bits := by
  cases width with
  | zero => simp [storeNumeric, storeAt, toListBE]
  | succ w => simp [storeNumeric, storeAt, Nat.add_sub_cancel]

@[simp] theorem storeInt32_eq (buffer : List UInt8) (n : Nat) :
    storeInt32 buffer n = buffer ++ int32 n :=
  storeNumeric_eq buffer 4 n

/-- The encoder leaves the buffer's bytes in place and appends `serialize`'s. -/
theorem serializeImpl_eq (M : OidMap) : ∀ (v : Value) (buffer : List UInt8) (t : Ty),
    serializeImpl M buffer t v = (buffer ++ ·) <$> serialize M t v
  | .numeric _, buffer, t | .timePoint _, buffer, t | .text _, buffer, t => by
    cases t <;> first | rfl | exact congrArg some (storeNumeric_eq _ _ _)
  | .record vs, buffer, t => by
    cases t with
    | composite _ _ fields | tuple fields =>
      show serializeImpl.serializeMembers M _ fields vs =
        (buffer ++ ·) <$> ((int32 fields.length ++ ·) <$> serialize.serializeMembers M fields vs)
      rw [members, storeInt32_eq]
      cases serialize.serializeMembers M fields vs <;> simp
    | _ => rfl
  | .array vs, buffer, t => by
    cases t with
    | array elem =>
      show (oidOf M elem).bind (fun oid =>
          serializeImpl.serializeElems M elem ([1, 0, oid, vs.length, 0].foldl storeInt32 buffer) vs) =
        (buffer ++ ·) <$> (oidOf M elem).bind fun oid =>
          (serialize.serializeElems M elem vs).bind fun body =>
            some (int32 1 ++ int32 0 ++ int32 oid ++ int32 vs.length ++ int32 0 ++ body)
      cases oidOf M elem with
      | none => rfl
      | some oid =>
        simp only [Option.some_bind, elems, List.foldl, storeInt32_eq]
        cases serialize.serializeElems M elem vs <;> simp
    | _ => rfl
where
  members : ∀ (vs : List Value) (buffer : List UInt8) (ts : List Ty),
      serializeImpl.serializeMembers M buffer ts vs =
        (buffer ++ ·) <$> serialize.serializeMembers M ts vs
    | [], buffer, ts => by cases ts <;> exact congrArg some (List.append_nil buffer).symm
    | _ :: _, buffer, [] => congrArg some (List.append_nil buffer).symm
    | v :: vs, buffer, t :: ts => by
      show (oidOf M t).bind (fun oid =>
          (serializeImpl M (storeInt32 (storeInt32 buffer oid) (sizeOf t v)) t v).bind fun buffer =>
            serializeImpl.serializeMembers M buffer ts vs) =
        (buffer ++ ·) <$> (oidOf M t).bind fun oid => (serialize M t v).bind fun bytes =>
          (serialize.serializeMembers M ts vs).bind fun rest =>
            some (int32 oid ++ int32 (sizeOf t v) ++ bytes ++ rest)
      cases oidOf M t with
      | none => rfl
      | some oid =>
        simp only [Option.some_bind, serializeImpl_eq M v, storeInt32_eq]
        cases serialize M t v with
        | none => rfl
        | some bytes =>
          simp only [Option.map_eq_map, Option.map_some', Option.some_bind, members vs]
          cases serialize.serializeMembers M ts vs <;> simp
  elems : ∀ (vs : List Value) (buffer : List UInt8) (elem : Ty),
      serializeImpl.serializeElems M elem buffer vs =
        (buffer ++ ·) <$> serialize.serializeElems M elem vs
    | [], buffer, _ => congrArg some (List.append_nil buffer).symm
    | v :: vs, buffer, elem => by
      show (serializeImpl M (storeInt32 buffer (sizeOf elem v)) elem v).bind (fun buffer =>
          serializeImpl.serializeElems M elem buffer vs) =
        (buffer ++ ·) <$> (serialize M elem v).bind fun bytes =>
          (serialize.serializeElems M elem vs).bind fun rest =>
            some (int32 (sizeOf elem v) ++ bytes ++ rest)
      rw [serializeImpl_eq M v, storeInt32_eq]
      cases serialize M elem v with
      | none => rfl
      | some bytes =>
        simp only [Option.map_eq_map, Option.map_some', Option.some_bind, elems vs]
        cases serialize.serializeElems M elem vs <;> simp

end AsiofiedLibpq.Psql
