/-
  Schemas — the JSON of a schema.

  * `all_toJson`: what holds of the strings, arrays and objects that are written
    holds of everything inside the JSON of a schema;
  * `NamesDistinct`: no two properties of a node have one name.  Then the JSON
    has no object with a repeated name (`distinct_toJson`), and a schema read
    from such JSON is like that (`namesDistinct_of_ofJson?`);
  * `read_compact`: the text of a schema reads back unless it nests too deep;
    no other schema has it (`compact_inj`).
-/
import ResponseSchema.Proofs.Json.Unique
import ResponseSchema.Proofs.Schema.Nodes

namespace ResponseSchema

namespace Schema

/-! ## Everything inside -/

theorem entriesToJson_eq_map (ps : List (String × Schema)) :
    entriesToJson ps = ps.map fun e => (e.1, e.2.toJson) := by
  induction ps with
  | nil => rfl
  | cons e ps ih => rw [entriesToJson, ih, List.map_cons]

theorem listToJson_eq_map (ss : List Schema) : listToJson ss = ss.map toJson := by
  induction ss with
  | nil => rfl
  | cons s ss ih => rw [listToJson, ih, List.map_cons]

/-- What holds of all that the nodes write holds of everything inside the JSON. -/
theorem all_toJson {p : Json → Prop} (string : ∀ name, p (.string name))
    (array : ∀ vs, p (.array vs)) (s : Schema)
    (h : ∀ n ∈ s.nodes, p n.toJson ∧ ∀ ps ∈ n.properties, p (.object (entriesToJson ps))) :
    s.toJson.All p := by
  induction s using Schema.induction with
  | node s below =>
    obtain ⟨type, items, properties, anyOf⟩ := s
    rw [forall_mem_nodes] at h
    obtain ⟨⟨hnode, hps⟩, hi, hp, ha⟩ := h
    rw [toJson] at hnode ⊢
    rw [Json.all_object]
    refine ⟨hnode, fun e he => ?_⟩
    rcases List.mem_append.1 he with he | he
    · cases type with
      | none => simp [typeMember] at he
      | some kinds =>
        rw [List.mem_singleton.1 he]
        cases kinds with
        | single k => exact string k.name
        | list ks =>
          rw [Kinds.toJson, Json.all_array]
          exact ⟨array _, List.forall_mem_map.2 fun k _ => string k.name⟩
    rcases List.mem_append.1 he with he | he
    · cases items with
      | none => simp [itemsMember] at he
      | some s => rw [List.mem_singleton.1 he]; exact below.items s rfl (hi s rfl)
    rcases List.mem_append.1 he with he | he
    · cases properties with
      | none => simp [propertiesMember] at he
      | some ps =>
        rw [List.mem_singleton.1 he, Json.all_object]
        refine ⟨hps ps rfl, ?_⟩
        rw [entriesToJson_eq_map, List.forall_mem_map]
        exact fun e he => below.properties ps rfl e he (hp ps rfl e he)
    · cases anyOf with
      | none => simp [anyOfMember] at he
      | some ss =>
        rw [List.mem_singleton.1 he, Json.all_array]
        refine ⟨array _, ?_⟩
        rw [listToJson_eq_map, List.forall_mem_map]
        exact fun t ht => below.anyOf ss rfl t ht (ha ss rfl t ht)

/-! ## Repeated names -/

/-- No two properties of the node have one name. -/
def NamesDistinct (s : Schema) : Prop :=
  ∀ ps ∈ s.properties, Entries.Distinct ps

instance (s : Schema) : Decidable s.NamesDistinct :=
  inferInstanceAs (Decidable (∀ ps ∈ s.properties, _))

/-- **No object in the JSON of a schema has a repeated name, unless properties have one.** -/
theorem distinct_toJson {s : Schema} (h : ∀ n ∈ s.nodes, n.NamesDistinct) : s.toJson.Distinct := by
  refine all_toJson (fun _ => trivial) (fun _ => trivial) s fun n hn => ⟨?_, fun ps hps => ?_⟩
  · obtain ⟨type, items, properties, anyOf⟩ := n
    rw [toJson]
    show List.Nodup _
    cases type <;> cases items <;> cases properties <;> cases anyOf <;>
      simp [Entries.names, typeMember, itemsMember, propertiesMember, anyOfMember]
  · have : Entries.names (entriesToJson ps) = Entries.names ps := by
      rw [entriesToJson_eq_map, Entries.names, List.map_map]; rfl
    show List.Nodup _
    rw [this]
    exact h n hn ps hps

theorem namesDistinct_nodes {s : Schema} : (∀ n ∈ s.nodes, n.NamesDistinct) ↔
    (∀ t ∈ s.items, ∀ n ∈ t.nodes, n.NamesDistinct) ∧
    (∀ ps ∈ s.properties, Entries.Distinct ps ∧ ∀ e ∈ ps, ∀ n ∈ e.2.nodes, n.NamesDistinct) ∧
    ∀ ss ∈ s.anyOf, ∀ t ∈ ss, ∀ n ∈ t.nodes, n.NamesDistinct := by
  rw [forall_mem_nodes]
  constructor
  · rintro ⟨hn, hi, hp, ha⟩
    exact ⟨hi, fun ps hps => ⟨hn ps hps, hp ps hps⟩, ha⟩
  · rintro ⟨hi, hp, ha⟩
    exact ⟨fun ps hps => (hp ps hps).1, hi, fun ps hps => (hp ps hps).2, ha⟩

theorem optional_eq_some {v : Json} {read : Option Schema} {o : Option Schema}
    (h : optional v read = some o) {s : Schema} (hs : s ∈ o) : read = some s := by
  rw [optional] at h
  split at h
  · cases h; cases hs
  · obtain ⟨t, rfl, rfl⟩ := Option.map_eq_some_iff.1 h
    exact hs

mutual

/-- **A schema read from JSON without repeated names has none.** -/
theorem namesDistinct_of_ofJson? : ∀ (v : Json) (s : Schema), v.Distinct → ofJson? v = some s →
    ∀ n ∈ s.nodes, n.NamesDistinct
  | .object ms, s, hv, h => namesDistinct_of_ofMembers? ms s ((Json.distinct_object ms).1 hv).2 h
  | .array [], s, _, h => by
    cases h
    exact namesDistinct_nodes.2 (by simp [empty])
  | .array [t], s, _, h => by
    simp only [ofJson?, Option.pure_def, Option.bind_eq_bind, Option.bind_eq_some_iff,
      Option.some.injEq] at h
    obtain ⟨type, -, rfl⟩ := h
    exact namesDistinct_nodes.2 (by simp)
  | .array [t, i], s, hv, h => by
    simp only [Json.distinct_array, List.forall_mem_cons] at hv
    simp only [ofJson?, Option.pure_def, Option.bind_eq_bind, Option.bind_eq_some_iff,
      Option.some.injEq] at h
    obtain ⟨type, -, items, hi, rfl⟩ := h
    exact namesDistinct_nodes.2 ⟨fun s hs =>
      namesDistinct_of_ofJson? i s hv.2.1 (optional_eq_some hi hs), by simp, by simp⟩
  | .array [t, i, p], s, hv, h => by
    simp only [Json.distinct_array, List.forall_mem_cons] at hv
    simp only [ofJson?, Option.pure_def, Option.bind_eq_bind, Option.bind_eq_some_iff,
      Option.some.injEq] at h
    obtain ⟨type, -, items, hi, properties, hp, rfl⟩ := h
    exact namesDistinct_nodes.2 ⟨fun s hs =>
      namesDistinct_of_ofJson? i s hv.2.1 (optional_eq_some hi hs),
      namesDistinct_of_propertiesOfJson? p properties hv.2.2.1 hp, by simp⟩
  | .array [t, i, p, a], s, hv, h => by
    simp only [Json.distinct_array, List.forall_mem_cons] at hv
    simp only [ofJson?, Option.pure_def, Option.bind_eq_bind, Option.bind_eq_some_iff,
      Option.some.injEq] at h
    obtain ⟨type, -, items, hi, properties, hp, anyOf, ha, rfl⟩ := h
    exact namesDistinct_nodes.2 ⟨fun s hs =>
      namesDistinct_of_ofJson? i s hv.2.1 (optional_eq_some hi hs),
      namesDistinct_of_propertiesOfJson? p properties hv.2.2.1 hp,
      namesDistinct_of_anyOfOfJson? a anyOf hv.2.2.2.1 ha⟩
  | .array (_ :: _ :: _ :: _ :: _ :: _), _, _, h => by cases h
  | .null, _, _, h => by cases h
  | .bool _, _, _, h => by cases h
  | .number _, _, _, h => by cases h
  | .string _, _, _, h => by cases h

theorem namesDistinct_of_ofMembers? : ∀ (ms : List (String × Json)) (s : Schema),
    (∀ e ∈ ms, e.2.Distinct) → ofMembers? ms = some s → ∀ n ∈ s.nodes, n.NamesDistinct
  | [], s, _, h => by
    cases h
    exact namesDistinct_nodes.2 (by simp [empty])
  | (name, v) :: ms, s, hms, h => by
    rw [List.forall_mem_cons] at hms
    simp only [ofMembers?, Option.pure_def, Option.bind_eq_bind, Option.bind_eq_some_iff] at h
    obtain ⟨t, ht, h⟩ := h
    have ⟨hi, hp, ha⟩ := namesDistinct_nodes.1 (namesDistinct_of_ofMembers? ms t hms.2 ht)
    split_ifs at h
    all_goals simp only [Option.bind_eq_some_iff, Option.some.injEq] at h
    · obtain ⟨type, -, rfl⟩ := h
      exact namesDistinct_nodes.2 ⟨hi, hp, ha⟩
    · obtain ⟨items, hitems, rfl⟩ := h
      exact namesDistinct_nodes.2 ⟨fun s hs =>
        namesDistinct_of_ofJson? v s hms.1 (optional_eq_some hitems hs), hp, ha⟩
    · obtain ⟨properties, hproperties, rfl⟩ := h
      exact namesDistinct_nodes.2 ⟨hi, namesDistinct_of_propertiesOfJson? v _ hms.1 hproperties, ha⟩
    · obtain ⟨anyOf, hanyOf, rfl⟩ := h
      exact namesDistinct_nodes.2 ⟨hi, hp, namesDistinct_of_anyOfOfJson? v _ hms.1 hanyOf⟩
    · exact h ▸ namesDistinct_nodes.2 ⟨hi, hp, ha⟩

theorem namesDistinct_of_propertiesOfJson? : ∀ (v : Json)
    (properties : Option (List (String × Schema))), v.Distinct →
    propertiesOfJson? v = some properties →
    ∀ ps ∈ properties, Entries.Distinct ps ∧ ∀ e ∈ ps, ∀ n ∈ e.2.nodes, n.NamesDistinct
  | .object ms, properties, hv, h => by
    rw [Json.distinct_object] at hv
    obtain ⟨ps, hps, rfl⟩ := Option.map_eq_some_iff.1 h
    have ⟨names, all⟩ := namesDistinct_of_entriesOfJson? ms ps hv.2 hps
    rintro _ ⟨rfl⟩
    exact ⟨show List.Nodup _ from names ▸ hv.1, all⟩
  | .null, _, _, h => by cases h; simp
  | .array _, _, _, h => by cases h
  | .bool _, _, _, h => by cases h
  | .number _, _, _, h => by cases h
  | .string _, _, _, h => by cases h

theorem namesDistinct_of_anyOfOfJson? : ∀ (v : Json) (anyOf : Option (List Schema)), v.Distinct →
    anyOfOfJson? v = some anyOf → ∀ ss ∈ anyOf, ∀ s ∈ ss, ∀ n ∈ s.nodes, n.NamesDistinct
  | .array vs, anyOf, hv, h => by
    obtain ⟨ss, hss, rfl⟩ := Option.map_eq_some_iff.1 h
    rintro _ ⟨rfl⟩
    exact namesDistinct_of_listOfJson? vs ss ((Json.distinct_array vs).1 hv) hss
  | .null, _, _, h => by cases h; simp
  | .object _, _, _, h => by cases h
  | .bool _, _, _, h => by cases h
  | .number _, _, _, h => by cases h
  | .string _, _, _, h => by cases h

theorem namesDistinct_of_entriesOfJson? : ∀ (ms : List (String × Json))
    (ps : List (String × Schema)), (∀ e ∈ ms, e.2.Distinct) → entriesOfJson? ms = some ps →
    Entries.names ps = Entries.names ms ∧ ∀ e ∈ ps, ∀ n ∈ e.2.nodes, n.NamesDistinct
  | [], _, _, h => by cases h; simp
  | (name, v) :: ms, ps, hms, h => by
    rw [List.forall_mem_cons] at hms
    simp only [entriesOfJson?, Option.pure_def, Option.bind_eq_bind, Option.bind_eq_some_iff,
      Option.some.injEq] at h
    obtain ⟨s, hs, ps, hps, rfl⟩ := h
    have ⟨names, all⟩ := namesDistinct_of_entriesOfJson? ms ps hms.2 hps
    exact ⟨congrArg (name :: ·) names,
      List.forall_mem_cons.2 ⟨namesDistinct_of_ofJson? v s hms.1 hs, all⟩⟩

theorem namesDistinct_of_listOfJson? : ∀ (vs : List Json) (ss : List Schema),
    (∀ v ∈ vs, v.Distinct) → listOfJson? vs = some ss → ∀ s ∈ ss, ∀ n ∈ s.nodes, n.NamesDistinct
  | [], _, _, h => by cases h; simp
  | v :: vs, ss, hvs, h => by
    rw [List.forall_mem_cons] at hvs
    simp only [listOfJson?, Option.pure_def, Option.bind_eq_bind, Option.bind_eq_some_iff,
      Option.some.injEq] at h
    obtain ⟨s, hs, ss, hss, rfl⟩ := h
    exact List.forall_mem_cons.2 ⟨namesDistinct_of_ofJson? v s hvs.1 hs,
      namesDistinct_of_listOfJson? vs ss hvs.2 hss⟩

end

/-! ## Reading back -/

theorem notNumber_toJson (s : Schema) : s.toJson.All Json.Reader.NotNumber := by
  refine all_toJson (fun _ _ h => by cases h) (fun _ _ h => by cases h) s fun n _ => ?_
  refine ⟨fun m h => ?_, fun ps _ m h => by cases h⟩
  obtain ⟨type, items, properties, anyOf⟩ := n
  rw [toJson] at h
  cases h

/-- **The text of a schema reads back unless it nests too deep.** -/
theorem read_compact (s : Schema) : Json.read s.compact =
    if s.toJson.depth ≤ Json.maxDepth then .ok s.toJson.dedup else .error .malformed :=
  Json.read_compact s.notNumber_toJson

/-- **No two schemas have one text.** -/
theorem compact_inj {s t : Schema} (h : s.compact = t.compact) : s = t :=
  toJson_injective (Json.compact_inj s.notNumber_toJson t.notNumber_toJson h)

end Schema

end ResponseSchema
