import AsiofiedLibpq.Psql.WireFormat

set_option autoImplicit false

/-!
# Reading the wire format back

The spec's `parse`, the dual of `serialize`, is not among the sources; `decode` models it. It
follows the type: a number from its big-endian bytes, a time stamp from the `int64`
microseconds since 2000-01-01, text as the whole of its bytes, a record as its members after
the field count, each after its OID and length, and an array as its elements after the
five-word header, each after its length. Every header word the format fixes is checked: the
field count, each member's OID, and an array's `ndim = 1`, `hasnull = 0`, element OID and
lower bound `0`. The counts and lengths must account for exactly the bytes there are.

Every value `serialize` writes reads back as itself, except that its time stamps are truncated
to whole microseconds, which is what `duration_cast<microseconds>` drops.
-/

namespace AsiofiedLibpq.Psql

/-! ## Readers -/

def ofBigEndian (bs : List UInt8) : Nat := bs.foldl (fun n b => 256 * n + b.toNat) 0

def int64OfBits (n : Nat) : Int := if n < 2 ^ 63 then n else n - ((2 ^ 64 : Nat) : Int)

def readBE (k : Nat) (bs : List UInt8) : Option (Nat × List UInt8) :=
  if k ≤ bs.length then some (ofBigEndian (bs.take k), bs.drop k) else none

def readChunk (bs : List UInt8) : Option (List UInt8 × List UInt8) := do
  let (len, bs) ← readBE 4 bs
  if len ≤ bs.length then some (bs.take len, bs.drop len) else none

/-- `count` chunks, each after its length and read by `dec`, with nothing after the last. -/
def readElems (dec : List UInt8 → Option Value) : Nat → List UInt8 → Option (List Value)
  | 0, bs => if bs = [] then some [] else none
  | count + 1, bs => do
    let (chunk, bs) ← readChunk bs
    let v ← dec chunk
    let vs ← readElems dec count bs
    pure (v :: vs)

/-- The rest of `bs` after the `k`-byte big-endian word at its front, when that word is `n` as
the encoder writes it, modulo `2 ^ (8 * k)`. -/
def expectBE (k n : Nat) (bs : List UInt8) : Option (List UInt8) := do
  let (x, bs) ← readBE k bs
  if x = n % 2 ^ (8 * k) then some bs else none

/-- Modelled from the spec: `parse`, the deserializer, is not among the sources. "The dual [of
`serialize`]; composites/arrays recurse. Fails with `deserialize_mismatch` if the cell OID does
not match or the byte layout is malformed." The value of type `t` whose encoding is exactly
`bs`, every header word checked against the type and `M`. -/
def decode (M : OidMap) : Ty → List UInt8 → Option Value
  | .numeric width _ _, bs => if bs.length = width then some (.numeric (ofBigEndian bs)) else none
  | .timePoint, bs =>
    if bs.length = 8 then
      some (.timePoint ((int64OfBits (ofBigEndian bs) + 946684800000000) * 1000))
    else none
  | .text, bs => some (.text bs)
  | .composite _ _ fields, bs | .tuple fields, bs => do
    let bs ← expectBE 4 fields.length bs
    .record <$> members fields bs
  | .array elem, bs => do
    let oid ← oidOf M elem
    let bs ← expectBE 4 1 bs
    let bs ← expectBE 4 0 bs
    let bs ← expectBE 4 oid bs
    let (count, bs) ← readBE 4 bs
    let bs ← expectBE 4 0 bs
    .array <$> readElems (decode M elem) count bs
where
  members : List Ty → List UInt8 → Option (List Value)
    | [], bs => if bs = [] then some [] else none
    | t :: ts, bs => do
      let oid ← oidOf M t
      let bs ← expectBE 4 oid bs
      let (chunk, bs) ← readChunk bs
      let v ← decode M t chunk
      let vs ← members ts bs
      pure (v :: vs)

/-- `v` with every time stamp in it truncated toward zero to whole microseconds. -/
def Value.truncateMicros : Value → Value
  | .timePoint ns => .timePoint (ns.tdiv 1000 * 1000)
  | .record vs => .record (truncateAll vs)
  | .array vs => .array (truncateAll vs)
  | v => v
where
  truncateAll : List Value → List Value
    | [] => []
    | v :: vs => v.truncateMicros :: truncateAll vs

/-! ## Each header word reads back -/

theorem ofBigEndian_toListBE : ∀ k n : Nat, ofBigEndian (toListBE k n) = n % 256 ^ k
  | 0, n => by simp [ofBigEndian, toListBE, Nat.mod_one]
  | k + 1, n => by
    have ih := ofBigEndian_toListBE k (n / 256)
    rw [ofBigEndian] at ih
    have hb : (UInt8.ofNat (n % 256)).toNat = n % 256 :=
      UInt8.toNat_ofNat_of_lt (Nat.mod_lt n (by decide))
    rw [toListBE, ofBigEndian, List.foldl_append, ih, List.foldl_cons, List.foldl_nil, hb,
      pow_succ', Nat.mod_mul, Nat.add_comm]

theorem ofBigEndian_bigEndian (k n : Nat) : ofBigEndian (bigEndian k n) = n % 2 ^ (8 * k) := by
  rw [← toListBE_eq_bigEndian, ofBigEndian_toListBE, pow_mul]
  rfl

theorem ofBigEndian_int32 {n : Nat} (h : n < 2 ^ 31) : ofBigEndian (int32 n) = n := by
  rw [← bigEndian_four, ofBigEndian_bigEndian, Nat.mod_eq_of_lt (by omega)]

theorem int32_of_twosComplement {n : Nat} {b : List UInt8} (h : twosComplement 4 n = some b) :
    b = int32 n ∧ n < 2 ^ 31 :=
  have hn := lt_of_twosComplement_four h
  ⟨Option.some_inj.mp (h.symm.trans (twosComplement_int32 hn)), hn⟩

theorem int64OfBits_of_twosComplement {x : Int} {b : List UInt8}
    (h : twosComplement 8 x = some b) : int64OfBits (ofBigEndian b) = x := by
  unfold twosComplement at h
  split_ifs at h <;> cases h <;> rw [ofBigEndian_bigEndian, int64OfBits] <;> split_ifs <;> omega

theorem readBE_append {bs : List UInt8} (rest : List UInt8) {k : Nat} (h : bs.length = k) :
    readBE k (bs ++ rest) = some (ofBigEndian bs, rest) := by
  rw [readBE, if_pos (by simp [h]), List.take_left' h, List.drop_left' h]

theorem readChunk_append {enc : List UInt8} (rest : List UInt8) (h : enc.length < 2 ^ 31) :
    readChunk (int32 enc.length ++ (enc ++ rest)) = some (enc, rest) := by
  simp only [readChunk, readBE_append _ (length_int32 _), ofBigEndian_int32 h, Option.bind_eq_bind,
    Option.some_bind, List.length_append, Nat.le_add_right, if_true, List.take_left' rfl,
    List.drop_left' rfl]

theorem expectBE_int32 (n : Nat) (rest : List UInt8) : expectBE 4 n (int32 n ++ rest) = some rest := by
  rw [expectBE, readBE_append rest (length_int32 n), ← bigEndian_four, ofBigEndian_bigEndian]
  exact if_pos rfl

/-! ## The round trip -/

/-- Every value of its type that has a wire encoding reads back from it, with its time stamps
truncated to whole microseconds. -/
theorem decode_wireEncoding (M : OidMap) : ∀ (v : Value) {t : Ty} {b : List UInt8},
    t.admits v = true → wireEncoding M t v = some b → decode M t b = some v.truncateMicros
  | .numeric bits, t, _, hv, h => by
    cases t with
    | numeric width _ _ =>
      cases h
      rw [decode, if_pos (length_bigEndian _ _), ofBigEndian_bigEndian,
        Nat.mod_eq_of_lt (of_decide_eq_true hv)]
      rfl
    | _ => cases hv
  | .timePoint ns, t, _, _, h => by
    cases t with
    | timePoint =>
      rw [decode, if_pos (length_of_twosComplement h), int64OfBits_of_twosComplement h,
        Int.sub_add_cancel]
      rfl
    | _ => cases h
  | .text _, t, _, _, h => by
    cases t <;> cases h
    rfl
  | .record vs, t, _, hv, h => by
    cases t with
    | composite _ _ fields | tuple fields =>
      obtain ⟨count, hc, h⟩ := Option.bind_eq_some.mp h
      obtain ⟨body, hb, ⟨⟩⟩ := Option.bind_eq_some.mp h
      obtain ⟨rfl, -⟩ := int32_of_twosComplement hc
      simp only [decode, expectBE_int32, Option.bind_eq_bind, Option.some_bind, members vs hv hb]
      rfl
    | _ => cases h
  | .array vs, t, _, hv, h => by
    cases t with
    | array elem =>
      obtain ⟨oid, ho, h⟩ := Option.bind_eq_some.mp h
      obtain ⟨count, hc, h⟩ := Option.bind_eq_some.mp h
      obtain ⟨body, hb, ⟨⟩⟩ := Option.bind_eq_some.mp h
      obtain ⟨rfl, hn⟩ := int32_of_twosComplement hc
      simp only [decode, ho, bigEndian_four, List.append_assoc, expectBE_int32,
        readBE_append _ (length_int32 _), ofBigEndian_int32 hn, Option.bind_eq_bind,
        Option.some_bind, elems vs (List.all_eq_true.mp hv) hb]
      rfl
    | _ => cases h
where
  members : ∀ (vs : List Value) {ts : List Ty} {b : List UInt8},
      Ty.admits.admitsAll ts vs = true → wireEncoding.members M ts vs = some b →
        decode.members M ts b = some (Value.truncateMicros.truncateAll vs)
    | [], [], _, _, h => by
      cases h
      rfl
    | [], _ :: _, _, hv, _ => by cases hv
    | _ :: _, [], _, hv, _ => by cases hv
    | v :: vs, t :: ts, _, hv, h => by
      obtain ⟨hvt, hvs⟩ := Bool.and_eq_true_iff.mp hv
      obtain ⟨oid, ho, h⟩ := Option.bind_eq_some.mp h
      obtain ⟨enc, he, h⟩ := Option.bind_eq_some.mp h
      obtain ⟨len, hl, h⟩ := Option.bind_eq_some.mp h
      obtain ⟨rest, hr, ⟨⟩⟩ := Option.bind_eq_some.mp h
      obtain ⟨rfl, hn⟩ := int32_of_twosComplement hl
      simp only [decode.members, ho, bigEndian_four, List.append_assoc, expectBE_int32,
        readChunk_append rest hn, Option.bind_eq_bind, Option.some_bind,
        decode_wireEncoding M v hvt he, members vs hvs hr]
      rfl
  elems : ∀ (vs : List Value) {elem : Ty} {b : List UInt8}, (∀ v ∈ vs, elem.admits v = true) →
      wireEncoding.elements M elem vs = some b →
        readElems (decode M elem) vs.length b = some (Value.truncateMicros.truncateAll vs)
    | [], _, _, _, h => by
      cases h
      rfl
    | v :: vs, elem, _, hv, h => by
      obtain ⟨enc, he, h⟩ := Option.bind_eq_some.mp h
      obtain ⟨len, hl, h⟩ := Option.bind_eq_some.mp h
      obtain ⟨rest, hr, ⟨⟩⟩ := Option.bind_eq_some.mp h
      obtain ⟨rfl, hn⟩ := int32_of_twosComplement hl
      simp only [List.length_cons, readElems, List.append_assoc, readChunk_append rest hn,
        Option.bind_eq_bind, Option.some_bind,
        decode_wireEncoding M v (hv v (List.mem_cons_self _ _)) he,
        elems vs (fun v' h => hv v' (List.mem_cons_of_mem _ h)) hr]
      rfl

/-- `serialize` loses nothing but the sub-microsecond part of time stamps: the bytes it writes
for a value of its type, nested to any depth, whose counts and lengths fit an `int32`, read
back as that value with its time stamps truncated to whole microseconds. -/
theorem decode_serialize {M : OidMap} {t : Ty} {v : Value} {b : List UInt8}
    (hv : t.admits v = true) (hf : countsFit t v = true) (h : serialize M t v = some b) :
    decode M t b = some v.truncateMicros :=
  decode_wireEncoding M v hv ((serialize_eq_wireEncoding M v hv hf).symm.trans h)

/-- A `(short, time_point, string)` tuple is sent as its count and three members; the
1500 ns time stamp reads back as 1000 ns. -/
theorem tuple_reads_back :
    Ty.admits (.tuple [.numeric 2 21 1005, .timePoint, .text])
        (.record [.numeric 7, .timePoint 1500, .text [104, 105]]) = true ∧
      countsFit (.tuple [.numeric 2 21 1005, .timePoint, .text])
        (.record [.numeric 7, .timePoint 1500, .text [104, 105]]) = true ∧
      serialize [] (.tuple [.numeric 2 21 1005, .timePoint, .text])
          (.record [.numeric 7, .timePoint 1500, .text [104, 105]]) =
        some [0, 0, 0, 3, 0, 0, 0, 21, 0, 0, 0, 2, 0, 7, 0, 0, 4, 160, 0, 0, 0, 8,
          255, 252, 162, 254, 196, 200, 32, 1, 0, 0, 0, 25, 0, 0, 0, 2, 104, 105] ∧
      decode [] (.tuple [.numeric 2 21 1005, .timePoint, .text])
          [0, 0, 0, 3, 0, 0, 0, 21, 0, 0, 0, 2, 0, 7, 0, 0, 4, 160, 0, 0, 0, 8,
            255, 252, 162, 254, 196, 200, 32, 1, 0, 0, 0, 25, 0, 0, 0, 2, 104, 105] =
        some (.record [.numeric 7, .timePoint 1000, .text [104, 105]]) :=
  have hv : Ty.admits (.tuple [.numeric 2 21 1005, .timePoint, .text])
      (.record [.numeric 7, .timePoint 1500, .text [104, 105]]) = true := by decide
  have hf : countsFit (.tuple [.numeric 2 21 1005, .timePoint, .text])
      (.record [.numeric 7, .timePoint 1500, .text [104, 105]]) = true := by decide
  have h : serialize [] (.tuple [.numeric 2 21 1005, .timePoint, .text])
      (.record [.numeric 7, .timePoint 1500, .text [104, 105]]) =
        some [0, 0, 0, 3, 0, 0, 0, 21, 0, 0, 0, 2, 0, 7, 0, 0, 4, 160, 0, 0, 0, 8,
          255, 252, 162, 254, 196, 200, 32, 1, 0, 0, 0, 25, 0, 0, 0, 2, 104, 105] := by decide
  ⟨hv, hf, h, decode_serialize hv hf h⟩

end AsiofiedLibpq.Psql
