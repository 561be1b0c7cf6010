import AsiofiedLibpq.Psql.Serialization

set_option autoImplicit false

/-!
# Discovering user-defined types

`detail::extract_new_udts<T>` walks the structure of the type `T`: a composite's
fields, a tuple's elements, an array's element type. The encoder instead walks
the value, and looks up the OID of every member's and element's type, an empty
array's element type included. The two agree: when the walk finds nothing new,
no lookup made while a value of `T` becomes a parameter misses the map, and when it finds
something, some value of `T` makes a lookup miss.
-/

namespace AsiofiedLibpq.Psql

/-- `detail::udt_pair`: a user-defined type's name and type identity. -/
structure UdtPair where
  name : String
  id : Nat
  deriving DecidableEq, Repr

/-- `detail::extract_new_udts<T>`: each user-defined type in `T`'s structure that the map
does not contain, in the order the walk reaches it. -/
def extractNewUdts (M : OidMap) : Ty → List UdtPair
  | .composite id name fields =>
    (if M.contains id then [] else [⟨name, id⟩]) ++ extractFields fields
  | .tuple fields => extractFields fields
  | .array elem => extractNewUdts M elem
  | _ => []
where
  extractFields : List Ty → List UdtPair
    | [] => []
    | t :: ts => extractNewUdts M t ++ extractFields ts

variable {M : OidMap}

theorem extractFields_eq_nil {fields : List Ty} (h : extractNewUdts.extractFields M fields = []) :
    ∀ t ∈ fields, extractNewUdts M t = [] := by
  induction fields with
  | nil => simp
  | cons t ts ih =>
    simp only [extractNewUdts.extractFields, List.append_eq_nil] at h
    simpa [h.1] using ih h.2

/-- A type the walk finds nothing new in has its OID, and its array's OID, in reach. -/
theorem oidOf_isSome : ∀ {t : Ty}, extractNewUdts M t = [] →
    (oidOf M t).isSome ∧ (oidOf.arrayOidOf M t).isSome
  | .numeric .., _ | .timePoint, _ | .text, _ | .tuple _, _ => ⟨rfl, rfl⟩
  | .composite id name fields, h => by
    simp only [extractNewUdts, List.append_eq_nil, ite_eq_left_iff, reduceCtorEq, imp_false,
      not_not] at h
    have hc : (M.find id).isSome := h.1
    simp only [oidOf, oidOf.arrayOidOf, Option.isSome_map', hc, and_self]
  | .array elem, h => ⟨(oidOf_isSome (t := elem) h).2, (oidOf_isSome (t := elem) h).2⟩

theorem serialize_isSome : ∀ (v : Value) {t : Ty}, extractNewUdts M t = [] → t.admits v = true →
    (serialize M t v).isSome
  | .numeric _, t, _, hv | .timePoint _, t, _, hv | .text _, t, _, hv => by
    cases t <;> first | rfl | cases hv
  | .record vs, t, he, hv => by
    cases t with
    | composite id name fields =>
      simp only [extractNewUdts, List.append_eq_nil] at he
      simpa [serialize] using members vs (extractFields_eq_nil he.2) hv
    | tuple fields => simpa [serialize] using members vs (extractFields_eq_nil he) hv
    | _ => cases hv
  | .array vs, t, he, hv => by
    cases t with
    | array elem =>
      replace he : extractNewUdts M elem = [] := he
      obtain ⟨o, ho⟩ := Option.isSome_iff_exists.mp (oidOf_isSome he).1
      obtain ⟨b, hb⟩ := Option.isSome_iff_exists.mp (elems vs he (List.all_eq_true.mp hv))
      simp [serialize, ho, hb]
    | _ => cases hv
where
  members : ∀ (vs : List Value) {ts : List Ty}, (∀ t ∈ ts, extractNewUdts M t = []) →
      Ty.admits.admitsAll ts vs = true → (serialize.serializeMembers M ts vs).isSome
    | [], ts, _, _ => by cases ts <;> simp [serialize.serializeMembers]
    | _ :: _, [], _, _ => by simp [serialize.serializeMembers]
    | v :: vs, t :: ts, he, hv => by
      replace hv : t.admits v ∧ Ty.admits.admitsAll ts vs := Bool.and_eq_true_iff.mp hv
      have het := he t (List.mem_cons_self _ _)
      obtain ⟨o, ho⟩ := Option.isSome_iff_exists.mp (oidOf_isSome het).1
      obtain ⟨b, hb⟩ := Option.isSome_iff_exists.mp (serialize_isSome v het hv.1)
      obtain ⟨r, hr⟩ := Option.isSome_iff_exists.mp
        (members vs (fun t' ht' => he t' (List.mem_cons_of_mem _ ht')) hv.2)
      simp [serialize.serializeMembers, ho, hb, hr]
  elems : ∀ (vs : List Value) {elem : Ty}, extractNewUdts M elem = [] →
      (∀ v ∈ vs, elem.admits v = true) → (serialize.serializeElems M elem vs).isSome
    | [], _, _, _ => rfl
    | v :: vs, elem, he, hv => by
      obtain ⟨b, hb⟩ := Option.isSome_iff_exists.mp
        (serialize_isSome v he (hv v (List.mem_cons_self _ _)))
      obtain ⟨r, hr⟩ := Option.isSome_iff_exists.mp
        (elems vs he fun v' hv' => hv v' (List.mem_cons_of_mem _ hv'))
      simp [serialize.serializeElems, hb, hr]

/-- When `extract_new_udts<T>(M)` is empty, every OID lookup made while a value of `T`
becomes a parameter finds its type in the map: `params::add`'s `oid_of<T>`, and the
encoder's `oid_of` of every composite member and array element type at every depth. -/
theorem extract_empty_lookups_hit {t : Ty} {v : Value} (he : extractNewUdts M t = [])
    (hv : t.admits v = true) : (oidOf M t).isSome ∧ (serialize M t v).isSome :=
  ⟨(oidOf_isSome he).1, serialize_isSome v he hv⟩

/-- `point { int32 x, int32 y }`, registered, in an array. -/
theorem point_array_lookups_hit :
    let M : OidMap := [⟨7, 16400, 16401⟩]
    let t : Ty := .array (.composite 7 "point" [.numeric 4 23 1007, .numeric 4 23 1007])
    let v : Value := .array [.record [.numeric 3, .numeric 4], .record [.numeric 5, .numeric 6]]
    extractNewUdts M t = [] ∧ t.admits v = true ∧ (oidOf M t).isSome ∧ (serialize M t v).isSome :=
  have he : extractNewUdts [⟨7, 16400, 16401⟩]
      (.array (.composite 7 "point" [.numeric 4 23 1007, .numeric 4 23 1007])) = [] := by decide
  have hv : Ty.admits (.array (.composite 7 "point" [.numeric 4 23 1007, .numeric 4 23 1007]))
      (.array [.record [.numeric 3, .numeric 4], .record [.numeric 5, .numeric 6]]) = true := by
    decide
  ⟨he, hv, extract_empty_lookups_hit he hv⟩

/-! ## Which types the walk lists

The walk visits `T` and then, recursively, a composite's fields, a tuple's elements and an
array's element type, in that order; it lists each user-defined composite it visits that the
map lacks. It keeps no record of what it has listed, so a type that occurs at several places
in `T` is listed once per place. -/

/-- The types in `t`'s structure, `t` first, in the order the walk visits them. -/
def Ty.nodes : Ty → List Ty
  | .composite id name fields => .composite id name fields :: nodesAll fields
  | .tuple fields => .tuple fields :: nodesAll fields
  | .array elem => .array elem :: elem.nodes
  | t => [t]
where
  nodesAll : List Ty → List Ty
    | [] => []
    | t :: ts => t.nodes ++ nodesAll ts

/-- What one visited type contributes: a user-defined composite the map lacks. -/
def newUdt (M : OidMap) : Ty → Option UdtPair
  | .composite id name _ => if M.contains id then none else some ⟨name, id⟩
  | _ => none

theorem newUdt_eq_some {u : Ty} {p : UdtPair} :
    newUdt M u = some p ↔ (∃ fields, u = .composite p.id p.name fields) ∧ M.contains p.id = false := by
  obtain ⟨name, id⟩ := p
  cases u with
  | composite id' name' fields =>
    unfold newUdt
    by_cases h : M.contains id'
    · simp only [h, if_true, reduceCtorEq, false_iff]
      rintro ⟨⟨_, ⟨⟩⟩, hc⟩
      exact absurd h (by simp [hc])
    · simp only [h, if_false, Option.some.injEq, UdtPair.mk.injEq]
      constructor
      · rintro ⟨rfl, rfl⟩
        exact ⟨⟨fields, rfl⟩, by simpa using h⟩
      · rintro ⟨⟨_, ⟨⟩⟩, -⟩
        rfl
  | _ => simp [newUdt]

/-- The walk keeps what each visited type contributes, in order. -/
theorem extractNewUdts_eq_filterMap : ∀ t : Ty, extractNewUdts M t = t.nodes.filterMap (newUdt M)
  | .numeric .. | .timePoint | .text => rfl
  | .composite id name fields => by
    show _ ++ _ = List.filterMap _ (_ :: _)
    by_cases h : M.contains id <;> simp [newUdt, h, onFields fields]
  | .tuple fields => onFields fields
  | .array elem => extractNewUdts_eq_filterMap elem
where
  onFields : ∀ ts : List Ty, extractNewUdts.extractFields M ts =
      (Ty.nodes.nodesAll ts).filterMap (newUdt M)
    | [] => rfl
    | t :: ts => by
      show _ ++ _ = List.filterMap _ (_ ++ _)
      rw [List.filterMap_append, extractNewUdts_eq_filterMap t, onFields ts]

/-- `extract_new_udts<T>(M)` lists exactly the user-defined composites in `T`'s structure that
`M` lacks, each with its name, and each as many times as it occurs in the structure. -/
theorem extract_lists_occurrences (t : Ty) (p : UdtPair) :
    (p ∈ extractNewUdts M t ↔
        (∃ fields, .composite p.id p.name fields ∈ t.nodes) ∧ M.contains p.id = false) ∧
      (extractNewUdts M t).count p = t.nodes.countP fun u => newUdt M u == some p := by
  rw [extractNewUdts_eq_filterMap, List.count_filterMap, List.mem_filterMap]
  refine ⟨⟨?_, ?_⟩, rfl⟩
  · rintro ⟨u, hu, h⟩
    obtain ⟨⟨fields, rfl⟩, hc⟩ := newUdt_eq_some.mp h
    exact ⟨⟨fields, hu⟩, hc⟩
  · rintro ⟨⟨fields, hu⟩, hc⟩
    exact ⟨_, hu, newUdt_eq_some.mpr ⟨⟨fields, rfl⟩, hc⟩⟩

/-- A tuple of two `point`s, neither registered: `point` is listed twice. -/
theorem point_pair_listed_twice :
    extractNewUdts []
        (.tuple [.composite 7 "point" [.numeric 4 23 1007, .numeric 4 23 1007],
          .composite 7 "point" [.numeric 4 23 1007, .numeric 4 23 1007]]) =
      [⟨"point", 7⟩, ⟨"point", 7⟩] :=
  rfl

/-- Registering what the walk lists is enough. In a map that keeps every type `M` has and adds
every type `extract_new_udts<T>(M)` listed, with any OIDs, the walk finds nothing new, and no
OID lookup made while a value of `T` becomes a parameter misses. -/
theorem registered_lookups_hit {M' : OidMap} {t : Ty}
    (hM : ∀ id, M.contains id = true → M'.contains id = true)
    (hnew : ∀ p ∈ extractNewUdts M t, M'.contains p.id = true) :
    extractNewUdts M' t = [] ∧ (oidOf M' t).isSome ∧
      ∀ v : Value, t.admits v = true → (serialize M' t v).isSome := by
  have he : extractNewUdts M' t = [] := by
    rw [extractNewUdts_eq_filterMap, List.filterMap_eq_nil_iff]
    intro u hu
    cases hp : newUdt M' u with
    | none => rfl
    | some p =>
      obtain ⟨⟨fields, rfl⟩, hc⟩ := newUdt_eq_some.mp hp
      cases hM' : M.contains p.id
      · have hl : p ∈ extractNewUdts M t := by
          rw [extractNewUdts_eq_filterMap, List.mem_filterMap]
          exact ⟨_, hu, newUdt_eq_some.mpr ⟨⟨fields, rfl⟩, hM'⟩⟩
        exact absurd (hnew p hl) (by rw [hc]; decide)
      · exact absurd (hM _ hM') (by rw [hc]; decide)
  exact ⟨he, (oidOf_isSome he).1, fun v hv => serialize_isSome v he hv⟩

/-- An array of `point`s against an empty map lists `point`; with `point` registered, its
lookups hit. -/
theorem point_registered :
    (∀ id, OidMap.contains [] id = true → OidMap.contains [⟨7, 16400, 16401⟩] id = true) ∧
      (∀ p ∈ extractNewUdts []
          (.array (.composite 7 "point" [.numeric 4 23 1007, .numeric 4 23 1007])),
        OidMap.contains [⟨7, 16400, 16401⟩] p.id = true) ∧
      extractNewUdts [⟨7, 16400, 16401⟩]
        (.array (.composite 7 "point" [.numeric 4 23 1007, .numeric 4 23 1007])) = [] :=
  have hM : ∀ id, OidMap.contains [] id = true → OidMap.contains [⟨7, 16400, 16401⟩] id = true :=
    fun _ h => by cases h
  have hnew : ∀ p ∈ extractNewUdts []
      (.array (.composite 7 "point" [.numeric 4 23 1007, .numeric 4 23 1007])),
      OidMap.contains [⟨7, 16400, 16401⟩] p.id = true := by decide
  ⟨hM, hnew, (registered_lookups_hit hM hnew).1⟩

/-! ## The walk lists nothing the encoder does not need

The converse of `extract_empty_lookups_hit`: wherever the walk lists a type, some value of `T`
makes a lookup miss, whether the top-level `oid_of<T>` or the encoder's lookup of a member's
or element's type. A value with one element in every array reaches every type the walk
visits. So the walk reports a missing type exactly when some value could not be sent. -/

/-- A value of every type, with one element in every array, so that the encoder reaches every
member and element type. -/
def Ty.probe : Ty → Value
  | .numeric .. => .numeric 0
  | .timePoint => .timePoint 0
  | .text => .text []
  | .composite _ _ fields => .record (probeAll fields)
  | .tuple fields => .record (probeAll fields)
  | .array elem => .array [elem.probe]
where
  probeAll : List Ty → List Value
    | [] => []
    | t :: ts => t.probe :: probeAll ts

theorem admits_probe : ∀ t : Ty, t.admits t.probe = true
  | .numeric width _ _ => decide_eq_true (Nat.pos_pow_of_pos _ (by decide))
  | .timePoint => decide_eq_true ⟨by norm_num, by norm_num⟩
  | .text => rfl
  | .composite _ _ fields => all fields
  | .tuple fields => all fields
  | .array elem => by
    show [elem.probe].all elem.admits = true
    simp [admits_probe elem]
where
  all : ∀ ts : List Ty, Ty.admits.admitsAll ts (Ty.probe.probeAll ts) = true
    | [] => rfl
    | t :: ts => by
      show (t.admits t.probe && Ty.admits.admitsAll ts (Ty.probe.probeAll ts)) = true
      rw [admits_probe t, all ts]
      rfl

/-- Wherever the walk lists a type, the probe makes a lookup miss. -/
theorem probe_misses : ∀ {t : Ty}, extractNewUdts M t ≠ [] →
    oidOf M t = none ∨ serialize M t t.probe = none
  | .numeric .., h | .timePoint, h | .text, h => absurd rfl h
  | .composite id name fields, h => by
    by_cases hc : M.contains id
    · have hf : extractNewUdts.extractFields M fields ≠ [] := by
        simpa [extractNewUdts, hc] using h
      right
      show (int32 fields.length ++ ·) <$> serialize.serializeMembers M fields
        (Ty.probe.probeAll fields) = none
      rw [members fields hf]
      rfl
    · left
      show (M.find id).map (·.oid) = none
      simpa [OidMap.contains] using hc
  | .tuple fields, h => by
    right
    show (int32 fields.length ++ ·) <$> serialize.serializeMembers M fields
      (Ty.probe.probeAll fields) = none
    rw [members fields h]
    rfl
  | .array elem, h => by
    right
    show oidOf M elem >>= (fun oid => serialize.serializeElems M elem [elem.probe] >>= _) = none
    rcases probe_misses (t := elem) h with ho | hs
    · rw [ho]
      rfl
    · have he : serialize.serializeElems M elem [elem.probe] = none := by
        show serialize M elem elem.probe >>= _ = none
        rw [hs]
        rfl
      rw [he]
      cases oidOf M elem <;> rfl
where
  members : ∀ ts : List Ty, extractNewUdts.extractFields M ts ≠ [] →
      serialize.serializeMembers M ts (Ty.probe.probeAll ts) = none
    | [], h => absurd rfl h
    | t :: ts, h => by
      show oidOf M t >>= (fun oid => serialize M t t.probe >>= fun bytes =>
        serialize.serializeMembers M ts (Ty.probe.probeAll ts) >>= _) = none
      by_cases ht : extractNewUdts M t = []
      · have hr : extractNewUdts.extractFields M ts ≠ [] := by
          simpa [extractNewUdts.extractFields, ht] using h
        rw [members ts hr]
        cases oidOf M t <;> cases serialize M t t.probe <;> rfl
      · rcases probe_misses ht with ho | hs
        · rw [ho]
          rfl
        · rw [hs]
          cases oidOf M t <;> rfl

/-- `extract_new_udts<T>(M)` is empty exactly when every value of `T` can become a parameter
against `M`: its `oid_of<T>` and every lookup the encoder makes for it hit. -/
theorem extract_empty_iff_lookups_hit (t : Ty) :
    extractNewUdts M t = [] ↔
      ∀ v : Value, t.admits v = true → (oidOf M t).isSome ∧ (serialize M t v).isSome := by
  refine ⟨fun he v hv => ⟨(oidOf_isSome he).1, serialize_isSome v he hv⟩, fun h => ?_⟩
  by_contra hne
  obtain ⟨ho, hs⟩ := h t.probe (admits_probe t)
  rcases probe_misses hne with hm | hm <;> simp [hm] at ho hs

end AsiofiedLibpq.Psql
