import AsiofiedLibpq.Psql.Serialization

set_option autoImplicit false

/-!
# The wire format

PostgreSQL's binary format for a parameter, stated on its own terms: a number as its
big-endian bytes, a time stamp as the 8-byte two's complement of its microseconds since
2000-01-01, text as its bytes with no terminator, a record as its field count and per field
the field type's OID, the field's length and its bytes, and a one-dimensional array as
`ndim = 1`, `hasnull = 0`, the element type's OID, the element count and lower bound `0`,
then per element its length and bytes. Counts and lengths are `int32`s, so the format holds
none of 2^31 or more.

`serialize_impl` writes exactly this format, after the bytes already in its buffer, for every
value whose counts and lengths fit.
-/

namespace AsiofiedLibpq.Psql

/-- The `k` big-endian bytes of `n`: byte `i` is the base-256 digit of `n` of weight
`256 ^ (k - 1 - i)`. -/
def bigEndian (k n : Nat) : List UInt8 :=
  List.ofFn fun i : Fin k => UInt8.ofNat (n / 256 ^ (k - 1 - i) % 256)

/-- The `k`-byte two's complement of `x`, when `x` has one: `x` itself when it is nonnegative
and below `2 ^ (8 * k - 1)`, `2 ^ (8 * k) - |x|` when it is negative and `|x|` is at most
`2 ^ (8 * k - 1)`. -/
def twosComplement (k : Nat) (x : Int) : Option (List UInt8) :=
  if 0 ≤ x then
    if x.toNat < 2 ^ (8 * k - 1) then some (bigEndian k x.toNat) else none
  else if x.natAbs ≤ 2 ^ (8 * k - 1) then some (bigEndian k (2 ^ (8 * k) - x.natAbs))
  else none

/-- Every count and length that `v`'s encoding writes as an `int32` is below 2^31. -/
def countsFit : Ty → Value → Bool
  | .composite _ _ fields, .record vs => decide (fields.length < 2 ^ 31) && membersFit fields vs
  | .tuple fields, .record vs => decide (fields.length < 2 ^ 31) && membersFit fields vs
  | .array elem, .array vs =>
    decide (vs.length < 2 ^ 31) &&
      vs.all fun v => decide (sizeOf elem v < 2 ^ 31) && countsFit elem v
  | _, _ => true
where
  membersFit : List Ty → List Value → Bool
    | t :: ts, v :: vs => decide (sizeOf t v < 2 ^ 31) && countsFit t v && membersFit ts vs
    | _, _ => true

/-- The wire encoding of `v`, of type `t`: `none` when the OID of a member's or element's type
is not in `M`, or when a count or length has no `int32`. -/
def wireEncoding (M : OidMap) : Ty → Value → Option (List UInt8)
  | .numeric width _ _, .numeric bits => some (bigEndian width bits)
  | .timePoint, .timePoint c => twosComplement 8 (c.tdiv 1000 - 946684800000000)
  | .text, .text chars => some chars
  | .composite _ _ fields, .record vs | .tuple fields, .record vs => do
    let count ← twosComplement 4 fields.length
    let body ← members fields vs
    pure (count ++ body)
  | .array elem, .array vs => do
    let oid ← oidOf M elem
    let count ← twosComplement 4 vs.length
    let body ← elements elem vs
    pure (bigEndian 4 1 ++ bigEndian 4 0 ++ bigEndian 4 oid ++ count ++ bigEndian 4 0 ++ body)
  | _, _ => none
where
  members : List Ty → List Value → Option (List UInt8)
    | t :: ts, v :: vs => do
      let oid ← oidOf M t
      let enc ← wireEncoding M t v
      let length ← twosComplement 4 enc.length
      let rest ← members ts vs
      pure (bigEndian 4 oid ++ length ++ enc ++ rest)
    | _, _ => some []
  elements (elem : Ty) : List Value → Option (List UInt8)
    | [] => some []
    | v :: vs => do
      let enc ← wireEncoding M elem v
      let length ← twosComplement 4 enc.length
      let rest ← elements elem vs
      pure (length ++ enc ++ rest)

/-! ## The encoder's bytes in the format's terms -/

/-- The encoder's recursive byte split is the closed form. -/
theorem toListBE_eq_bigEndian : ∀ k n : Nat, toListBE k n = bigEndian k n
  | 0, _ => rfl
  | k + 1, n => by
    rw [toListBE, toListBE_eq_bigEndian k, bigEndian, bigEndian, List.ofFn_succ',
      List.concat_eq_append]
    congr 2
    · funext i
      have hk : k - i = k - 1 - i + 1 := by omega
      simp only [Fin.coe_castSucc, Nat.add_sub_cancel, hk, pow_succ', Nat.div_div_eq_div_mul]
    · simp

@[simp] theorem bigEndian_four (n : Nat) : bigEndian 4 n = int32 n :=
  (toListBE_eq_bigEndian 4 n).symm

/-- A count or length below 2^31 is its own `int32`. -/
theorem twosComplement_int32 {n : Nat} (h : n < 2 ^ 31) : twosComplement 4 n = some (int32 n) := by
  rw [twosComplement, if_pos (Int.natCast_nonneg n), if_pos (by simpa using h)]
  simp

/-- An `int64` is written as its bits modulo 2^64, which is its two's complement. -/
theorem twosComplement_int64 {x : Int} (h : -2 ^ 63 ≤ x ∧ x < 2 ^ 63) :
    twosComplement 8 x = some (toListBE 8 (x % 2 ^ 64).toNat) := by
  rw [toListBE_eq_bigEndian, twosComplement]
  split_ifs <;> first | omega | (congr 2; omega)

/-- `duration_cast<microseconds>` of an `int64` count of nanoseconds, less the microseconds
from 1970 to 2000, is again an `int64`: the subtraction does not overflow. -/
theorem timePointMicros_int64 {ns : Int} (h : -2 ^ 63 ≤ ns ∧ ns < 2 ^ 63) :
    -2 ^ 63 ≤ timePointMicros ns ∧ timePointMicros ns < 2 ^ 63 := by
  have hq : ns / 1000 ≤ ns.tdiv 1000 ∧ ns.tdiv 1000 ≤ ns / 1000 + 1 := by
    rcases le_or_lt 0 ns with hn | hn
    · rw [Int.tdiv_eq_ediv hn (by decide)]
      omega
    · rw [← neg_neg ns, Int.neg_tdiv, Int.tdiv_eq_ediv (by omega) (by decide)]
      omega
  unfold timePointMicros
  omega

/-! ## What the format holds -/

theorem length_bigEndian (k n : Nat) : (bigEndian k n).length = k := List.length_ofFn _

theorem length_of_twosComplement {k : Nat} {x : Int} {b : List UInt8}
    (h : twosComplement k x = some b) : b.length = k := by
  unfold twosComplement at h
  split_ifs at h <;> cases h <;> exact length_bigEndian _ _

/-- A count or length with an `int32` is below 2^31. -/
theorem lt_of_twosComplement_four {n : Nat} {b : List UInt8} (h : twosComplement 4 n = some b) :
    n < 2 ^ 31 := by
  unfold twosComplement at h
  split_ifs at h with h₀ h₁
  · simpa using h₁
  · omega

/-! ## `serialize_impl` writes the format -/

/-- On a value of its type whose counts and lengths fit, `serialize` is the wire encoding. -/
theorem serialize_eq_wireEncoding (M : OidMap) : ∀ (v : Value) {t : Ty}, t.admits v = true →
    countsFit t v = true → serialize M t v = wireEncoding M t v
  | .numeric _, t, hv, _ => by
    cases t <;> first | cases hv | exact congrArg some (toListBE_eq_bigEndian _ _)
  | .timePoint _, t, hv, _ => by
    cases t with
    | timePoint => exact (twosComplement_int64 (timePointMicros_int64 (of_decide_eq_true hv))).symm
    | _ => cases hv
  | .text _, t, _, _ => by cases t <;> rfl
  | .record vs, t, hv, hf => by
    cases t with
    | composite _ _ fields | tuple fields =>
      obtain ⟨hn, hm⟩ := Bool.and_eq_true_iff.mp hf
      show (int32 fields.length ++ ·) <$> serialize.serializeMembers M fields vs =
        (twosComplement 4 fields.length).bind fun count =>
          (wireEncoding.members M fields vs).bind fun body => some (count ++ body)
      rw [twosComplement_int32 (of_decide_eq_true hn), members vs hv hm]
      cases wireEncoding.members M fields vs <;> rfl
    | _ => cases hv
  | .array vs, t, hv, hf => by
    cases t with
    | array elem =>
      obtain ⟨hn, he⟩ := Bool.and_eq_true_iff.mp hf
      show (oidOf M elem).bind (fun oid => (serialize.serializeElems M elem vs).bind fun body =>
          some (int32 1 ++ int32 0 ++ int32 oid ++ int32 vs.length ++ int32 0 ++ body)) =
        (oidOf M elem).bind fun oid => (twosComplement 4 vs.length).bind fun count =>
          (wireEncoding.elements M elem vs).bind fun body =>
            some (bigEndian 4 1 ++ bigEndian 4 0 ++ bigEndian 4 oid ++ count ++ bigEndian 4 0 ++ body)
      simp only [twosComplement_int32 (of_decide_eq_true hn), Option.some_bind, bigEndian_four,
        elems vs (List.all_eq_true.mp hv) (List.all_eq_true.mp he)]
    | _ => cases hv
where
  members : ∀ (vs : List Value) {ts : List Ty}, Ty.admits.admitsAll ts vs = true →
      countsFit.membersFit ts vs = true →
        serialize.serializeMembers M ts vs = wireEncoding.members M ts vs
    | [], ts, _, _ => by cases ts <;> rfl
    | _ :: _, [], _, _ => rfl
    | v :: vs, t :: ts, hv, hf => by
      obtain ⟨hvt, hvs⟩ := Bool.and_eq_true_iff.mp hv
      obtain ⟨hst, hfs⟩ := Bool.and_eq_true_iff.mp hf
      obtain ⟨hs, hft⟩ := Bool.and_eq_true_iff.mp hst
      have ih := serialize_eq_wireEncoding M v hvt hft
      show (oidOf M t).bind (fun oid => (serialize M t v).bind fun bytes =>
          (serialize.serializeMembers M ts vs).bind fun rest =>
            some (int32 oid ++ int32 (sizeOf t v) ++ bytes ++ rest)) =
        (oidOf M t).bind fun oid => (wireEncoding M t v).bind fun enc =>
          (twosComplement 4 enc.length).bind fun length =>
            (wireEncoding.members M ts vs).bind fun rest =>
              some (bigEndian 4 oid ++ length ++ enc ++ rest)
      rw [ih, members vs hvs hfs]
      cases hb : wireEncoding M t v with
      | none => cases oidOf M t <;> rfl
      | some bytes =>
        simp only [Option.some_bind, length_serialize M v (ih.trans hb),
          twosComplement_int32 (of_decide_eq_true hs), bigEndian_four]
  elems : ∀ (vs : List Value) {elem : Ty}, (∀ v ∈ vs, elem.admits v = true) →
      (∀ v ∈ vs, (decide (sizeOf elem v < 2 ^ 31) && countsFit elem v) = true) →
        serialize.serializeElems M elem vs = wireEncoding.elements M elem vs
    | [], _, _, _ => rfl
    | v :: vs, elem, hv, hf => by
      obtain ⟨hs, hft⟩ := Bool.and_eq_true_iff.mp (hf v (List.mem_cons_self _ _))
      have ih := serialize_eq_wireEncoding M v (hv v (List.mem_cons_self _ _)) hft
      show (serialize M elem v).bind (fun bytes => (serialize.serializeElems M elem vs).bind
          fun rest => some (int32 (sizeOf elem v) ++ bytes ++ rest)) =
        (wireEncoding M elem v).bind fun enc => (twosComplement 4 enc.length).bind fun length =>
          (wireEncoding.elements M elem vs).bind fun rest => some (length ++ enc ++ rest)
      rw [ih, elems vs (fun v' h => hv v' (List.mem_cons_of_mem _ h))
        (fun v' h => hf v' (List.mem_cons_of_mem _ h))]
      cases hb : wireEncoding M elem v with
      | none => rfl
      | some bytes =>
        simp only [Option.some_bind, length_serialize M v (ih.trans hb),
          twosComplement_int32 (of_decide_eq_true hs)]

end AsiofiedLibpq.Psql
