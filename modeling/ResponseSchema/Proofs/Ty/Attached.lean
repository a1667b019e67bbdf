/-
  Types — schemas attached to the names of a type.

  The build expands a name where it stands, so the schema of the name on its own
  can be attached to it beforehand.

  * `openNames` lists the names that the build expands, with their positions:
    a name with an attached schema is not expanded, and hides what it refers to;
  * `attach` attaches to each chosen one of them its schema of the build;
  * `expand_of_subset`: what a name expands to does not depend on the names
    around it;
  * `expand_attach`: a type has the same schema before and after, and at run time
    too once every outermost name has one.
-/
import ResponseSchema.Proofs.Result
import ResponseSchema.Ty.Synthesis

namespace ResponseSchema

/-- The steps from a type to one inside it, innermost first: the number of the member or
    field, zero for an element and for what a name refers to. -/
abbrev Position := List Nat

/-! ## Attached schemas -/

theorem isSchemaKey_schemaKey : isSchemaKey schemaKey = true := by decide

theorem attachedSchema?_cons_self (s : Schema) (es : Entries Json) :
    attachedSchema? ((schemaKey, s.toJson) :: es) = some s.toJson := by
  obtain ⟨type, items, properties, anyOf⟩ := s
  simp [attachedSchema?, isSchemaKey_schemaKey, Schema.toJson, Json.isObject]

section
variable {key : String} {v : Json} {es : Entries Json}

theorem attachedSchema?_cons_of_pos (h : (isSchemaKey key && v.isObject) = true) :
    attachedSchema? ((key, v) :: es) = some v := by
  simp only [attachedSchema?, List.find?_cons, h, Option.map_some]

theorem attachedSchema?_cons_of_neg (h : (isSchemaKey key && v.isObject) = false) :
    attachedSchema? ((key, v) :: es) = attachedSchema? es := by
  simp only [attachedSchema?, List.find?_cons, h]

end

/-- A schema under the schema key is read after what stands before the key. -/
theorem attachedSchema?_insert_eq (s : Schema) (metadata : Entries Json) :
    attachedSchema? (Entries.insert schemaKey s.toJson metadata) =
      some ((attachedSchema? (metadata.takeWhile fun e => e.1 ≠ schemaKey)).getD s.toJson) := by
  induction metadata with
  | nil => rw [Entries.insert, attachedSchema?_cons_self]; rfl
  | cons e es ih =>
    obtain ⟨key, v⟩ := e
    rw [Entries.insert]
    by_cases hkey : key = schemaKey
    · rw [if_pos hkey, List.takeWhile_cons_of_neg (by simpa using hkey), hkey,
        attachedSchema?_cons_self]
      rfl
    · rw [if_neg hkey, List.takeWhile_cons_of_pos (by simpa using hkey)]
      cases hread : isSchemaKey key && v.isObject with
      | true =>
        rw [attachedSchema?_cons_of_pos hread, attachedSchema?_cons_of_pos hread, Option.getD_some]
      | false => rw [attachedSchema?_cons_of_neg hread, attachedSchema?_cons_of_neg hread, ih]

/-- A schema attached where there is none is the one that is found. -/
theorem attachedSchema?_insert (s : Schema) {metadata : Entries Json}
    (h : attachedSchema? metadata = none) :
    attachedSchema? (Entries.insert schemaKey s.toJson metadata) = some s.toJson := by
  have hbefore : attachedSchema? (metadata.takeWhile fun e => e.1 ≠ schemaKey) = none := by
    rw [attachedSchema?, Option.map_eq_none_iff, List.find?_eq_none] at h ⊢
    exact fun e he => h e ((List.takeWhile_sublist _).subset he)
  rw [attachedSchema?_insert_eq, hbefore]
  rfl

namespace Ty

/-! ## Names that are expanded -/

mutual

/-- The names that the build expands in a type at a position, outermost first; those inside
    another such name only if `deep`. -/
def openNames (deep : Bool) (position : Position) : Ty → List (Position × NamedType)
  | array element => openNames deep (0 :: position) element
  | union ts => openNamesAll deep position 0 ts
  | record fields => openNamesFields deep position 0 fields
  | named identifier referred metadata =>
    if (attachedSchema? metadata).isSome then []
    else
      (position, ⟨identifier, referred, metadata⟩) ::
        (if deep then openNames deep (0 :: position) referred else [])
  | _ => []

/-- The names in each member, the first of them with the number `index`. -/
def openNamesAll (deep : Bool) (position : Position) (index : Nat) :
    List Ty → List (Position × NamedType)
  | [] => []
  | t :: ts => openNames deep (index :: position) t ++ openNamesAll deep position (index + 1) ts

/-- The names in each field, the first of them with the number `index`. -/
def openNamesFields (deep : Bool) (position : Position) (index : Nat) :
    List (String × Ty) → List (Position × NamedType)
  | [] => []
  | (_, t) :: fs =>
    openNames deep (index :: position) t ++ openNamesFields deep position (index + 1) fs

end

mutual

/-- The type with the schema of the build attached to each chosen name that is expanded. -/
def attach (chosen : Position → Bool) (position : Position) : Ty → Ty
  | array element => array (attach chosen (0 :: position) element)
  | union ts => union (attachAll chosen position 0 ts)
  | record fields => record (attachFields chosen position 0 fields)
  | named identifier referred metadata =>
    if (attachedSchema? metadata).isSome then named identifier referred metadata
    else
      let inner : NamedType := ⟨identifier, attach chosen (0 :: position) referred, metadata⟩
      match chosen position, schema .build (named identifier referred metadata) with
      | true, .ok s => (inner.withSchema s.toJson).toTy
      | _, _ => inner.toTy
  | t => t

/-- `attach`, for each member. -/
def attachAll (chosen : Position → Bool) (position : Position) (index : Nat) : List Ty → List Ty
  | [] => []
  | t :: ts => attach chosen (index :: position) t :: attachAll chosen position (index + 1) ts

/-- `attach`, for each field. -/
def attachFields (chosen : Position → Bool) (position : Position) (index : Nat) :
    List (String × Ty) → List (String × Ty)
  | [] => []
  | (name, t) :: fs =>
    (name, attach chosen (index :: position) t) :: attachFields chosen position (index + 1) fs

end

mutual

/-- Whether every record in the type is inside a name. -/
def recordFree : Ty → Bool
  | array element => recordFree element
  | union ts => recordFreeAll ts
  | record _ => false
  | _ => true

/-- `recordFree`, for each type. -/
def recordFreeAll : List Ty → Bool
  | [] => true
  | t :: ts => recordFree t && recordFreeAll ts

end

/-! ## Names on their own -/

section
variable {identifier : String} {referred : Ty} {metadata : List (String × Json)}
variable {enclosing : List String}

theorem expand_named_of_attached {v : Json} (h : attachedSchema? metadata = some v)
    (phase : Phase) : expand phase enclosing (named identifier referred metadata) =
      Schema.read v := by
  simp only [expand, h]

theorem expand_named_runtime (h : attachedSchema? metadata = none) :
    expand .runtime enclosing (named identifier referred metadata) =
      .error (.unmapped identifier) := by
  simp only [expand, h]

/-- A name without a schema has that of what it refers to, unless it is inside itself. -/
theorem expand_named_build_iff (h : attachedSchema? metadata = none) {s : Schema} :
    expand .build enclosing (named identifier referred metadata) = .ok s ↔
      identifier ∉ enclosing ∧ expand .build (identifier :: enclosing) referred = .ok s := by
  simp only [expand, h]
  by_cases hmem : identifier ∈ enclosing
  · rw [if_pos hmem]
    exact iff_of_false (fun h => by cases h) fun h => h.1 hmem
  · rw [if_neg hmem]
    exact (and_iff_right hmem).symm

theorem openNames_named_of_attached {v : Json} (h : attachedSchema? metadata = some v)
    (deep : Bool) (position : Position) :
    openNames deep position (named identifier referred metadata) = [] := by
  rw [openNames, h]; rfl

theorem openNames_named (h : attachedSchema? metadata = none) (deep : Bool)
    (position : Position) : openNames deep position (named identifier referred metadata) =
      (position, ⟨identifier, referred, metadata⟩) ::
        (if deep then openNames deep (0 :: position) referred else []) := by
  rw [openNames, h]; rfl

end

theorem joinMembers_congr {t t' : Ty} {ss : List Schema} {s : Schema}
    (h : joinMembers t ss = .ok s) : joinMembers t' ss = .ok s := by
  rcases ss with _ | ⟨s', _ | ⟨s'', ss⟩⟩
  · cases h
  · exact h
  · exact h

theorem expandAll_cons {phase : Phase} {enclosing : List String} {t : Ty} {ts : List Ty}
    {s : Schema} {ss : List Schema} (ht : expand phase enclosing t = .ok s)
    (hts : expandAll phase enclosing ts = .ok ss) :
    expandAll phase enclosing (t :: ts) = .ok (s :: ss) := by
  rw [expandAll, ht]
  exact congrArg (Except.map (s :: ·)) hts

theorem expandFields_cons {phase : Phase} {enclosing : List String} {name : String} {t : Ty}
    {fs : List (String × Ty)} {s : Schema} {ps : List (String × Schema)}
    (ht : expand phase enclosing t = .ok s) (hfs : expandFields phase enclosing fs = .ok ps) :
    expandFields phase enclosing ((name, t) :: fs) = .ok ((name, s) :: ps) := by
  rw [expandFields, ht]
  exact congrArg (Except.map ((name, s) :: ·)) hfs

mutual

/-- **With fewer names around it a type has the same schema.** -/
theorem expand_of_subset (phase : Phase) : ∀ (t : Ty) (outer inner : List String) (s : Schema),
    outer ⊆ inner → expand phase inner t = .ok s → expand phase outer t = .ok s
  | primitive _, _, _, _, _, h => h
  | json, _, _, _, _, h => h
  | array element, outer, inner, s, hsub, h => by
    obtain ⟨items, hitems, rfl⟩ := map_eq_ok h
    rw [expand, expand_of_subset phase element outer inner items hsub hitems]
    rfl
  | union ts, outer, inner, s, hsub, h => by
    obtain ⟨ss, hss, h⟩ := bind_eq_ok h
    rw [expand, expandAll_of_subset phase ts outer inner ss hsub hss]
    exact h
  | record fields, outer, inner, s, hsub, h => by
    cases phase with
    | runtime => cases h
    | build =>
      obtain ⟨ps, hps, rfl⟩ := map_eq_ok h
      rw [expand, expandFields_of_subset .build fields outer inner ps hsub hps]
      rfl
  | named identifier referred metadata, outer, inner, s, hsub, h => by
    cases hattached : attachedSchema? metadata with
    | some v =>
      rw [expand_named_of_attached hattached] at h ⊢
      exact h
    | none =>
      cases phase with
      | runtime => rw [expand_named_runtime hattached] at h; cases h
      | build =>
        rw [expand_named_build_iff hattached] at h ⊢
        obtain ⟨hmem, h⟩ := h
        exact ⟨fun hm => hmem (hsub hm),
          expand_of_subset .build referred _ _ s (List.cons_subset_cons identifier hsub) h⟩
  | error, _, _, _, _, h => h
  | other _, _, _, _, _, h => h

theorem expandAll_of_subset (phase : Phase) : ∀ (ts : List Ty) (outer inner : List String)
    (ss : List Schema), outer ⊆ inner → expandAll phase inner ts = .ok ss →
    expandAll phase outer ts = .ok ss
  | [], _, _, _, _, h => h
  | t :: ts, outer, inner, ss, hsub, h => by
    obtain ⟨s, hs, h⟩ := bind_eq_ok h
    obtain ⟨ss, hss, rfl⟩ := map_eq_ok h
    exact expandAll_cons (expand_of_subset phase t outer inner s hsub hs)
      (expandAll_of_subset phase ts outer inner ss hsub hss)

theorem expandFields_of_subset (phase : Phase) : ∀ (fs : List (String × Ty))
    (outer inner : List String) (ps : List (String × Schema)), outer ⊆ inner →
    expandFields phase inner fs = .ok ps → expandFields phase outer fs = .ok ps
  | [], _, _, _, _, h => h
  | (name, t) :: fs, outer, inner, ps, hsub, h => by
    obtain ⟨s, hs, h⟩ := bind_eq_ok h
    obtain ⟨ps, hps, rfl⟩ := map_eq_ok h
    exact expandFields_cons (expand_of_subset phase t outer inner s hsub hs)
      (expandFields_of_subset phase fs outer inner ps hsub hps)

end

mutual

/-- **Every name that is expanded in a type with a schema has one on its own.** -/
theorem exists_expand_of_mem_openNames (deep : Bool) : ∀ (t : Ty) (position : Position)
    (enclosing : List String) (s : Schema), expand .build enclosing t = .ok s →
    ∀ e ∈ openNames deep position t, ∃ s', expand .build [] e.2.toTy = .ok s'
  | primitive _, _, _, _, _ => by simp [openNames]
  | json, _, _, _, _ => by simp [openNames]
  | array element, position, enclosing, s, h => by
    obtain ⟨items, hitems, rfl⟩ := map_eq_ok h
    exact exists_expand_of_mem_openNames deep element _ enclosing items hitems
  | union ts, position, enclosing, s, h => by
    obtain ⟨ss, hss, -⟩ := bind_eq_ok h
    exact exists_expand_of_mem_openNamesAll deep ts position 0 enclosing ss hss
  | record fields, position, enclosing, s, h => by
    obtain ⟨ps, hps, rfl⟩ := map_eq_ok h
    exact exists_expand_of_mem_openNamesFields deep fields position 0 enclosing ps hps
  | named identifier referred metadata, position, enclosing, s, h => by
    intro e he
    cases hattached : attachedSchema? metadata with
    | some v => rw [openNames_named_of_attached hattached] at he; cases he
    | none =>
      rw [openNames_named hattached, List.mem_cons] at he
      rcases he with rfl | he
      · exact ⟨s, expand_of_subset .build _ [] enclosing s (List.nil_subset _) h⟩
      · have hreferred := ((expand_named_build_iff hattached).1 h).2
        cases deep with
        | false => cases he
        | true => exact exists_expand_of_mem_openNames true referred _ _ s hreferred e he
  | error, _, _, _, _ => by simp [openNames]
  | other _, _, _, _, _ => by simp [openNames]

theorem exists_expand_of_mem_openNamesAll (deep : Bool) : ∀ (ts : List Ty) (position : Position)
    (index : Nat) (enclosing : List String) (ss : List Schema),
    expandAll .build enclosing ts = .ok ss →
    ∀ e ∈ openNamesAll deep position index ts, ∃ s', expand .build [] e.2.toTy = .ok s'
  | [], _, _, _, _, _ => by simp [openNamesAll]
  | t :: ts, position, index, enclosing, ss, h => by
    obtain ⟨s, hs, h⟩ := bind_eq_ok h
    obtain ⟨ss, hss, rfl⟩ := map_eq_ok h
    rw [openNamesAll, List.forall_mem_append]
    exact ⟨exists_expand_of_mem_openNames deep t _ enclosing s hs,
      exists_expand_of_mem_openNamesAll deep ts position (index + 1) enclosing ss hss⟩

theorem exists_expand_of_mem_openNamesFields (deep : Bool) : ∀ (fs : List (String × Ty))
    (position : Position) (index : Nat) (enclosing : List String) (ps : List (String × Schema)),
    expandFields .build enclosing fs = .ok ps →
    ∀ e ∈ openNamesFields deep position index fs, ∃ s', expand .build [] e.2.toTy = .ok s'
  | [], _, _, _, _, _ => by simp [openNamesFields]
  | (name, t) :: fs, position, index, enclosing, ps, h => by
    obtain ⟨s, hs, h⟩ := bind_eq_ok h
    obtain ⟨ps, hps, rfl⟩ := map_eq_ok h
    rw [openNamesFields, List.forall_mem_append]
    exact ⟨exists_expand_of_mem_openNames deep t _ enclosing s hs,
      exists_expand_of_mem_openNamesFields deep fs position (index + 1) enclosing ps hps⟩

end

/-! ## Attaching -/

theorem expand_withSchema {n : NamedType} (h : n.attached? = none) (s : Schema) (phase : Phase)
    (enclosing : List String) : expand phase enclosing (n.withSchema s.toJson).toTy = .ok s :=
  (expand_named_of_attached (attachedSchema?_insert s h) phase).trans (Schema.read_toJson s)

section
variable {identifier : String} {referred : Ty} {metadata : List (String × Json)}
variable {chosen : Position → Bool} {position : Position}

theorem attach_named_of_attached {v : Json} (h : attachedSchema? metadata = some v) :
    attach chosen position (named identifier referred metadata) =
      named identifier referred metadata := by
  rw [attach, h]; rfl

theorem attach_named_of_chosen (h : attachedSchema? metadata = none) (hchosen : chosen position)
    {s : Schema} (hs : expand .build [] (named identifier referred metadata) = .ok s) :
    attach chosen position (named identifier referred metadata) =
      (NamedType.withSchema ⟨identifier, attach chosen (0 :: position) referred, metadata⟩
        s.toJson).toTy := by
  rw [attach, h, schema_eq_expand, hs, hchosen]; rfl

theorem attach_named_of_not_chosen (h : attachedSchema? metadata = none)
    (hchosen : chosen position = false) :
    attach chosen position (named identifier referred metadata) =
      named identifier (attach chosen (0 :: position) referred) metadata := by
  rw [attach, h, hchosen]; rfl

end

mutual

/-- **A type with attached schemas has the schema it had without them**, also at run time if no
    record is outside a name and every outermost name has been chosen. -/
theorem expand_attach (phase : Phase) (chosen : Position → Bool) : ∀ (t : Ty)
    (position : Position) (enclosing : List String) (s : Schema),
    expand .build enclosing t = .ok s → (phase = .runtime → t.recordFree) →
    (phase = .runtime → ∀ e ∈ openNames false position t, chosen e.1) →
    expand phase enclosing (attach chosen position t) = .ok s
  | primitive _, _, _, _, h, _, _ => h
  | json, _, _, _, h, _, _ => h
  | array element, position, enclosing, s, h, hfree, hchosen => by
    obtain ⟨items, hitems, rfl⟩ := map_eq_ok h
    rw [attach, expand, expand_attach phase chosen element _ enclosing items hitems hfree hchosen]
    rfl
  | union ts, position, enclosing, s, h, hfree, hchosen => by
    obtain ⟨ss, hss, h⟩ := bind_eq_ok h
    rw [attach, expand, expandAll_attach phase chosen ts position 0 enclosing ss hss hfree hchosen]
    exact joinMembers_congr h
  | record fields, position, enclosing, s, h, hfree, _ => by
    cases phase with
    | runtime => cases hfree rfl
    | build =>
      obtain ⟨ps, hps, rfl⟩ := map_eq_ok h
      rw [attach, expand, expandFields_attach chosen fields position 0 enclosing ps hps]
      rfl
  | named identifier referred metadata, position, enclosing, s, h, _, hchosen => by
    cases hattached : attachedSchema? metadata with
    | some v =>
      rw [attach_named_of_attached hattached, expand_named_of_attached hattached]
      rwa [expand_named_of_attached hattached] at h
    | none =>
      cases hthis : chosen position with
      | true =>
        -- the schema that is attached is that of the name on its own
        have hself := expand_of_subset .build _ [] enclosing s (List.nil_subset _) h
        rw [attach_named_of_chosen hattached hthis hself]
        exact expand_withSchema (n := ⟨identifier, _, metadata⟩) hattached s phase enclosing
      | false =>
        rw [attach_named_of_not_chosen hattached hthis]
        cases phase with
        | runtime =>
          have := hchosen rfl (position, ⟨identifier, referred, metadata⟩)
            (by rw [openNames_named hattached]; exact .head _)
          rw [hthis] at this
          cases this
        | build =>
          rw [expand_named_build_iff hattached] at h ⊢
          exact ⟨h.1, expand_attach .build chosen referred _ _ s h.2 nofun nofun⟩
  | error, _, _, _, h, _, _ => by cases h
  | other _, _, _, _, h, _, _ => by cases h

theorem expandAll_attach (phase : Phase) (chosen : Position → Bool) : ∀ (ts : List Ty)
    (position : Position) (index : Nat) (enclosing : List String) (ss : List Schema),
    expandAll .build enclosing ts = .ok ss → (phase = .runtime → recordFreeAll ts) →
    (phase = .runtime → ∀ e ∈ openNamesAll false position index ts, chosen e.1) →
    expandAll phase enclosing (attachAll chosen position index ts) = .ok ss
  | [], _, _, _, _, h, _, _ => h
  | t :: ts, position, index, enclosing, ss, h, hfree, hchosen => by
    obtain ⟨s, hs, h⟩ := bind_eq_ok h
    obtain ⟨ss, hss, rfl⟩ := map_eq_ok h
    simp only [recordFreeAll, Bool.and_eq_true] at hfree
    simp only [openNamesAll, List.forall_mem_append] at hchosen
    exact expandAll_cons
      (expand_attach phase chosen t _ enclosing s hs (fun hp => (hfree hp).1)
        fun hp => (hchosen hp).1)
      (expandAll_attach phase chosen ts position (index + 1) enclosing ss hss
        (fun hp => (hfree hp).2) fun hp => (hchosen hp).2)

theorem expandFields_attach (chosen : Position → Bool) : ∀ (fs : List (String × Ty))
    (position : Position) (index : Nat) (enclosing : List String) (ps : List (String × Schema)),
    expandFields .build enclosing fs = .ok ps →
    expandFields .build enclosing (attachFields chosen position index fs) = .ok ps
  | [], _, _, _, _, h => h
  | (name, t) :: fs, position, index, enclosing, ps, h => by
    obtain ⟨s, hs, h⟩ := bind_eq_ok h
    obtain ⟨ps, hps, rfl⟩ := map_eq_ok h
    exact expandFields_cons (expand_attach .build chosen t _ enclosing s hs nofun nofun)
      (expandFields_attach chosen fs position (index + 1) enclosing ps hps)

end

/-! ## The schema of a type -/

/-- **Attached schemas agree with expansion.**  In a type with a schema every name that the build
    expands has one on its own; with these attached to any choice of the names the build makes
    the same schema of the type, and so does the running program if every outermost name is
    chosen and no record is outside a name. -/
theorem schema_attach {t : Ty} {s : Schema} (h : t.schema .build = .ok s) :
    (∀ e ∈ openNames true [] t, ∃ s', e.2.toTy.schema .build = .ok s') ∧
    ∀ chosen, (attach chosen [] t).schema .build = .ok s ∧
      (t.recordFree → (∀ e ∈ openNames false [] t, chosen e.1) →
        (attach chosen [] t).schema .runtime = .ok s) := by
  simp only [schema_eq_expand] at h ⊢
  refine ⟨exists_expand_of_mem_openNames true t [] [] s h, fun chosen => ⟨?_, ?_⟩⟩
  · exact expand_attach .build chosen t [] [] s h nofun nofun
  · intro hfree hchosen
    exact expand_attach .runtime chosen t [] [] s h (fun _ => hfree) fun _ => hchosen

/-- A list of people, each with an address, or none. -/
def people : Ty :=
  optional (array (named "Person" (record [("name", primitive .string),
    ("home", named "Address" (record [("city", primitive .string)]) [])]) []))

/-- Persons and addresses with their schemas: the running program answers as the build does. -/
theorem schema_attach_people :
    people.schema .build = .ok (.ofAlternatives [.arrayOf (.objectOf [("name", .ofKind .string),
      ("home", .objectOf [("city", .ofKind .string)])]), .ofKind .null]) ∧
    people.schema .runtime = .error (.unmapped "Person") ∧
    (attach (fun _ => true) [] people).schema .runtime =
      .ok (.ofAlternatives [.arrayOf (.objectOf [("name", .ofKind .string),
        ("home", .objectOf [("city", .ofKind .string)])]), .ofKind .null]) :=
  ⟨rfl, rfl, ((schema_attach (t := people) rfl).2 fun _ => true).2 rfl fun _ _ => rfl⟩

end Ty

end ResponseSchema
