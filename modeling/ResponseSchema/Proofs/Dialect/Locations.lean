/-
  Dialect — the location of a node.

  Lowering carries the location of a node along for the texts of faults only.

  * `Rejection.below`: a fault as it is found with a path in front of its location;
  * `Json.relocated`: below a path a value is lowered to the same, and fails with the
    same fault with the path in front, wherever it stands;
  * `lower_of_lower` and `ofRaw_of_lower`: so its schema does not depend on the
    location.
-/
import ResponseSchema.Proofs.Dialect.Grammar

namespace ResponseSchema

/-- The fault with a path in front of its location. -/
def Rejection.below (path : Location) : Rejection → Rejection
  | rejectsEverything location => rejectsEverything (path ++ location)
  | notASchema location found => notASchema (path ++ location) found
  | unknownKind location name => unknownKind (path ++ location) name
  | kindNotAString location found => kindNotAString (path ++ location) found
  | typeNotKinds location found => typeNotKinds (path ++ location) found
  | propertiesNotAnObject location => propertiesNotAnObject (path ++ location)
  | branchesNotAList location => branchesNotAList (path ++ location)
  | stated reason => stated reason

/-- The keywords with a path in front of the location of every fault. -/
def Keywords.below (path : Location) (k : Keywords) : Keywords where
  kinds := k.kinds.mapError (.below path)
  byteFormat := k.byteFormat
  nullable := k.nullable
  items := k.items.mapError (.below path)
  properties := k.properties.mapError (.below path)
  allOf := k.allOf.mapError (.below path)
  anyOf := k.anyOf.mapError (.below path)
  oneOf := k.oneOf.mapError (.below path)

variable {path : Location}

/-! ## Keywords -/

theorem Keywords.assemble_below (k : Keywords) :
    (k.below path).assemble = k.assemble.mapError (.below path) := by
  simp only [assemble, below, mapError_bind]
  rfl

theorem namedKind_append (path location : Location) (name : String) :
    namedKind (path ++ location) name = (namedKind location name).mapError (.below path) := by
  rw [namedKind, namedKind]
  cases Kind.ofName? name <;> rfl

theorem listedKind_append (path location : Location) (v : Json) :
    listedKind (path ++ location) v = (listedKind location v).mapError (.below path) := by
  cases v with
  | string name => exact namedKind_append path location name
  | _ => rfl

theorem listedKinds_append (path location : Location) (vs : List Json) :
    vs.mapM (listedKind (path ++ location)) =
      (vs.mapM (listedKind location)).mapError (.below path) := by
  induction vs with
  | nil => rfl
  | cons v vs ih =>
    rw [List.mapM_cons, List.mapM_cons, listedKind_append, ih]
    simp only [mapError_bind]
    rfl

theorem declaredKinds_append (path location : Location) (v : Json) :
    declaredKinds (path ++ location) v = (declaredKinds location v).mapError (.below path) := by
  cases v with
  | string name => rw [declaredKinds, declaredKinds, namedKind_append, mapError_map]
  | array vs => exact listedKinds_append path location vs
  | _ => rfl

theorem itemsFrom_mapError (v : Json) (node : Except Rejection Schema)
    (tuple : Except Rejection (List Schema)) :
    itemsFrom v (node.mapError (.below path)) (tuple.mapError (.below path)) =
      (itemsFrom v node tuple).mapError (.below path) := by
  rw [itemsFrom.eq_def, itemsFrom.eq_def]
  split
  · rfl
  · exact (mapError_map tuple _).symm
  · exact (mapError_map node _).symm

/-! ## Lowering -/

/-- Below a path the value is lowered to the same, and fails with the same fault with the path in
    front, in every place. -/
structure Json.Relocated (path : Location) (v : Json) : Prop where
  schema : ∀ location, lower (path ++ location) v = (lower location v).mapError (.below path)
  tuple : ∀ location, lowerTuple (path ++ location) v =
    (lowerTuple location v).mapError (.below path)
  properties : ∀ location, lowerProperties (path ++ location) v =
    (lowerProperties location v).mapError (.below path)
  branches : ∀ location, lowerBranches (path ++ location) v =
    (lowerBranches location v).mapError (.below path)

theorem keywords_append {ms : List (String × Json)}
    (h : ∀ name v, ms.lookup name = some v → v.Relocated path) (location : Location) :
    keywords (path ++ location) ms = (keywords location ms).below path := by
  have lowered {α : Type} {name : String} {a : α} {f f' : Json → Except Rejection α}
      (hf : ∀ v, v.Relocated path → f' v = (f v).mapError (.below path)) :
      (ms.lookup name).elim (.ok a) f' =
        ((ms.lookup name).elim (.ok a) f).mapError (.below path) := by
    cases hv : ms.lookup name with
    | none => rfl
    | some v => exact hf v (h name v hv)
  rw [keywords_eq, keywords_eq location, Keywords.below]
  simp only [List.append_assoc]
  congr 1
  · exact lowered fun v _ => declaredKinds_append path location v
  · refine lowered fun v hv => ?_
    rw [hv.schema, hv.tuple, itemsFrom_mapError]
  · exact lowered fun v hv => hv.properties _
  · exact lowered fun v hv => hv.branches _
  · exact lowered fun v hv => hv.branches _
  · exact lowered fun v hv => hv.branches _

theorem lowerList_append {vs : List Json} (h : ∀ v ∈ vs, v.Relocated path) (location : Location)
    (index : Nat) : lowerList (path ++ location) index vs =
      (lowerList location index vs).mapError (.below path) := by
  induction vs generalizing index with
  | nil => rfl
  | cons v vs ih =>
    rw [List.forall_mem_cons] at h
    rw [lowerList, lowerList, List.append_assoc, h.1.schema, ih h.2]
    simp only [mapError_bind]
    rfl

theorem lowerMembers_append {ms : List (String × Json)} (h : ∀ e ∈ ms, e.2.Relocated path)
    (location : Location) : lowerMembers (path ++ location) ms =
      (lowerMembers location ms).mapError (.below path) := by
  induction ms with
  | nil => rfl
  | cons e ms ih =>
    obtain ⟨name, v⟩ := e
    rw [List.forall_mem_cons] at h
    rw [lowerMembers, lowerMembers, List.append_assoc, h.1.schema, ih h.2]
    split
    · rfl
    · simp only [mapError_bind]
      rfl

/-- **Below a path a value is lowered to the same**, with the path in front of the location of a
    fault. -/
theorem Json.relocated (path : Location) (v : Json) : v.Relocated path := by
  induction v using Json.induction with
  | array vs ih => exact {
      schema := fun _ => rfl
      tuple := fun location => lowerList_append ih location 0
      properties := fun _ => rfl
      branches := fun location => by
        rw [lowerBranches, lowerBranches, lowerList_append ih, mapError_map] }
  | object ms ih => exact {
      schema := fun location => by
        rw [lower, lower, keywords_append fun name v hv => ih _ (Entries.mem_of_lookup hv),
          Keywords.assemble_below]
      tuple := fun _ => rfl
      properties := fun location => by
        rw [lowerProperties, lowerProperties, lowerMembers_append ih, mapError_map]
      branches := fun _ => rfl }
  | bool b =>
    exact ⟨fun _ => by cases b <;> rfl, fun _ => rfl, fun _ => rfl, fun _ => rfl⟩
  | null | number _ | string _ =>
    exact ⟨fun _ => rfl, fun _ => rfl, fun _ => rfl, fun _ => rfl⟩

/-- The schema of a value does not depend on where the value stands. -/
theorem lower_of_lower {v : Json} {s : Schema} (h : lower [] v = .ok s) (location : Location) :
    lower location v = .ok s := by
  rw [← List.append_nil location, (v.relocated location).schema, h]
  rfl

/-- Wherever a value that is lowered stands, it has its schema on its own. -/
theorem ofRaw_of_lower {location : Location} {v : Json} {s : Schema}
    (h : lower location v = .ok s) : Schema.ofRaw v = .ok s := by
  rw [← List.append_nil location, (v.relocated location).schema] at h
  rw [Schema.ofRaw]
  cases hroot : lower [] v with
  | error e => rw [hroot] at h; cases h
  | ok t => rw [hroot] at h; cases h; rfl

theorem mapM_ofRaw_of_lowerList {location : Location} {index : Nat} {vs : List Json}
    {ss : List Schema} (h : lowerList location index vs = .ok ss) :
    vs.mapM Schema.ofRaw = .ok ss := by
  induction vs generalizing index ss with
  | nil => cases h; rfl
  | cons v vs ih =>
    obtain ⟨s, hs, h⟩ := bind_eq_ok h
    obtain ⟨ss, hss, h⟩ := bind_eq_ok h
    cases h
    rw [List.mapM_cons, ofRaw_of_lower hs, ih hss]
    rfl

end ResponseSchema
