/-
  Injection — the pass that annotates.

  * `due?`: the text that a definition needs and has not yet as its annotation;
    `dues` lists these texts over documents, in the order of the pass;
  * `Readable`: the text reads as a value; `unreadable?` says why it does not;
  * `annotated`, `annotatedIn`: a definition and a document where every text that
    is due reads.

  The pass ends with the fault of the first text that is due and does not read
  (`fault?_annotate`).  Where all of them read, it annotates everything
  (`editList_annotate_of_readable`).  It changes nothing iff the first text that
  is due does not read, or none is due (`editList_annotate_eq_self_iff`).
-/
import ResponseSchema.Injection.Run
import ResponseSchema.Proofs.Host.Edit

namespace ResponseSchema

/-- The text reads as a value. -/
def Readable (text : String) : Prop :=
  ∃ v, Json.read text = .ok v

/-- Why the text does not read. -/
def unreadable? (text : String) : Option SchemaError :=
  match Json.read text with
  | .ok _ => none
  | .error fault => some (.unreadable fault)

theorem unreadable?_eq_none_iff {text : String} : unreadable? text = none ↔ Readable text := by
  rw [unreadable?, Readable]
  cases Json.read text <;> simp

theorem findSome?_unreadable?_eq_none_iff {texts : List String} :
    texts.findSome? unreadable? = none ↔ ∀ text ∈ texts, Readable text := by
  simp only [List.findSome?_eq_none_iff, unreadable?_eq_none_iff]

theorem exists_findSome?_unreadable?_iff {texts : List String} :
    (∃ e, texts.findSome? unreadable? = some e) ↔ ∃ text ∈ texts, ¬ Readable text := by
  rw [← Option.ne_none_iff_exists', ne_eq, findSome?_unreadable?_eq_none_iff]
  simp

namespace Injector

variable (injector : Injector) (schemas : SchemaCache)

/-- The text for a definition that does not have the annotation yet. -/
def due? (qualifier : String) (t : TypeDefinition) : Option String :=
  if t.annotations.any (·.refersTo qualifier injector.settings.annotationIdentifier) then none
  else schemas.get? t.name

/-- A definition with one more annotation. -/
def annotateWith (qualifier : String) (t : TypeDefinition) (value : Json) : TypeDefinition :=
  { t with annotations :=
      t.annotations ++ [⟨some qualifier, injector.settings.annotationIdentifier, some value⟩] }

/-- The definition, with the text that is due as its annotation. -/
def annotated (qualifier : String) (t : TypeDefinition) : TypeDefinition :=
  match (injector.due? schemas qualifier t).map Json.read with
  | some (.ok value) => injector.annotateWith qualifier t value
  | _ => t

/-- The texts that are due in a document. -/
def duesIn (d : Document) : List String :=
  d.definitions.filterMap (injector.due? schemas (d.qualifier injector.settings))

/-- The texts that are due in some documents. -/
def dues (documents : List Document) : List String :=
  documents.flatMap (injector.duesIn schemas)

/-- The document, with every text that is due as an annotation. -/
def annotatedIn (d : Document) : Document :=
  { d with
    definitions :=
      d.definitions.map (injector.annotated schemas (d.qualifier injector.settings)) }

/-! ## Definitions -/

variable {injector schemas} {qualifier : String}

/-- A text is due iff it is that of the name and the annotation is not there. -/
theorem due?_eq_some_iff {t : TypeDefinition} {text : String} :
    injector.due? schemas qualifier t = some text ↔ schemas.get? t.name = some text ∧
      ∀ a ∈ t.annotations, ¬ a.refersTo qualifier injector.settings.annotationIdentifier := by
  rw [due?]
  split
  · next h =>
    obtain ⟨a, ha, hrefers⟩ := List.any_eq_true.1 h
    exact iff_of_false nofun fun hnone => hnone.2 a ha hrefers
  · next h =>
    refine (and_iff_left ?_).symm
    intro a ha hrefers
    exact h (List.any_eq_true.2 ⟨a, ha, hrefers⟩)

theorem annotated_of_not_due {t : TypeDefinition} (h : injector.due? schemas qualifier t = none) :
    injector.annotated schemas qualifier t = t := by
  rw [annotated, h]; rfl

theorem annotated_of_due {t : TypeDefinition} {text : String} {value : Json}
    (h : injector.due? schemas qualifier t = some text) (hread : Json.read text = .ok value) :
    injector.annotated schemas qualifier t = injector.annotateWith qualifier t value := by
  rw [annotated, h, Option.map_some, hread]

theorem annotateWith_ne (t : TypeDefinition) (value : Json) :
    injector.annotateWith qualifier t value ≠ t := by
  intro h
  have := congrArg (fun t => t.annotations.length) h
  simp [annotateWith] at this

/-- What a step does with a definition as long as nothing has failed. -/
theorem annotateDefinition_cases (progress : DefinitionProgress) (hp : progress.fault? = none)
    (t : TypeDefinition) :
    (injector.due? schemas qualifier t = none ∧
      injector.annotateDefinition qualifier schemas progress t = (t, progress)) ∨
    (∃ text value, injector.due? schemas qualifier t = some text ∧ Json.read text = .ok value ∧
      injector.annotateDefinition qualifier schemas progress t =
        (injector.annotateWith qualifier t value,
          { progress with names := progress.names ++ [t.name] })) ∨
    (∃ text fault, injector.due? schemas qualifier t = some text ∧ Json.read text = .error fault ∧
      injector.annotateDefinition qualifier schemas progress t =
        (t, { progress with fault? := some (.unreadable fault) })) := by
  simp only [annotateDefinition, due?, annotateWith, hp]
  cases hget : schemas.get? t.name with
  | none => exact .inl ⟨ite_self none, rfl⟩
  | some text =>
    split
    · exact .inl ⟨rfl, rfl⟩
    · cases hread : Json.read text with
      | ok value => exact .inr (.inl ⟨text, value, rfl, hread, by simp only [hread]⟩)
      | error fault => exact .inr (.inr ⟨text, fault, rfl, hread, by simp only [hread]⟩)

theorem annotateDefinition_of_fault {progress : DefinitionProgress}
    (hp : progress.fault?.isSome) (t : TypeDefinition) :
    injector.annotateDefinition qualifier schemas progress t = (t, progress) := by
  obtain ⟨e, he⟩ := Option.isSome_iff_exists.1 hp
  rw [annotateDefinition, he]

theorem not_readable {text : String} {fault : Json.Fault} (h : Json.read text = .error fault) :
    ¬ Readable text := by
  rintro ⟨value, hvalue⟩
  rw [h] at hvalue
  cases hvalue

theorem editList_annotateDefinition_of_readable : ∀ (ts : List TypeDefinition)
    (progress : DefinitionProgress), progress.fault? = none →
    (∀ text ∈ ts.filterMap (injector.due? schemas qualifier), Readable text) →
    editList (injector.annotateDefinition qualifier schemas) progress ts =
      (ts.map (injector.annotated schemas qualifier), { progress with names := progress.names ++
        (ts.filter fun t => (injector.due? schemas qualifier t).isSome).map TypeDefinition.name })
  | [], progress, _, _ => by simp [editList]
  | t :: ts, progress, hp, h => by
    rcases annotateDefinition_cases progress hp t with
      ⟨hdue, hstep⟩ | ⟨text, value, hdue, hread, hstep⟩ | ⟨text, fault, hdue, hread, hstep⟩
    · rw [List.filterMap_cons_none hdue] at h
      rw [editList, hstep, editList_annotateDefinition_of_readable ts progress hp h]
      simp [annotated, hdue]
    · rw [List.filterMap_cons_some hdue, List.forall_mem_cons] at h
      have ih := editList_annotateDefinition_of_readable ts
        { progress with names := progress.names ++ [t.name] } hp h.2
      rw [editList, hstep, ih]
      simp [annotated, hdue, hread]
    · rw [List.filterMap_cons_some hdue, List.forall_mem_cons] at h
      exact absurd h.1 (not_readable hread)

/-- The pass over a document ends with the fault of the first text that does not read. -/
theorem fault?_annotateDefinition : ∀ (ts : List TypeDefinition)
    (progress : DefinitionProgress), progress.fault? = none →
    (editList (injector.annotateDefinition qualifier schemas) progress ts).2.fault? =
      (ts.filterMap (injector.due? schemas qualifier)).findSome? unreadable?
  | [], _, hp => hp
  | t :: ts, progress, hp => by
    rcases annotateDefinition_cases progress hp t with
      ⟨hdue, hstep⟩ | ⟨text, value, hdue, hread, hstep⟩ | ⟨text, fault, hdue, hread, hstep⟩
    · rw [editList, hstep, List.filterMap_cons_none hdue]
      exact fault?_annotateDefinition ts progress hp
    · have ih := fault?_annotateDefinition ts
        { progress with names := progress.names ++ [t.name] } hp
      rw [editList, hstep, ih, List.filterMap_cons_some hdue, List.findSome?_cons,
        unreadable?_eq_none_iff.2 ⟨value, hread⟩]
    · rw [editList, hstep, List.filterMap_cons_some hdue, List.findSome?_cons, unreadable?, hread,
        editList_of_stopped (annotateDefinition_of_fault rfl)]

theorem editList_annotateDefinition_eq_self_iff : ∀ (ts : List TypeDefinition)
    (progress : DefinitionProgress), progress.fault? = none →
    ((editList (injector.annotateDefinition qualifier schemas) progress ts).1 = ts ↔
      ∀ text, (ts.filterMap (injector.due? schemas qualifier)).head? = some text →
        ¬ Readable text)
  | [], _, _ => by simp [editList]
  | t :: ts, progress, hp => by
    rcases annotateDefinition_cases progress hp t with
      ⟨hdue, hstep⟩ | ⟨text, value, hdue, hread, hstep⟩ | ⟨text, fault, hdue, hread, hstep⟩
    · rw [editList, hstep, List.filterMap_cons_none hdue, List.cons.injEq]
      rw [editList_annotateDefinition_eq_self_iff ts progress hp]
      exact and_iff_right rfl
    · rw [editList, hstep, List.filterMap_cons_some hdue, List.cons.injEq]
      simp [annotateWith_ne, show Readable text from ⟨value, hread⟩]
    · rw [editList, hstep, List.filterMap_cons_some hdue,
        editList_of_stopped (annotateDefinition_of_fault rfl)]
      simp [not_readable hread]

/-! ## Documents -/

theorem dues_cons (d : Document) (ds : List Document) :
    injector.dues schemas (d :: ds) = injector.duesIn schemas d ++ injector.dues schemas ds :=
  List.flatMap_cons

variable (injector schemas) in
/-- How far the documents are after one in which every text that is due reads. -/
def progressAfter (progress : Progress) (d : Document) : Progress :=
  if injector.duesIn schemas d = [] then progress
  else { progress with
    annotated := progress.annotated ++ (d.definitions.filter fun t =>
      (injector.due? schemas (d.qualifier injector.settings) t).isSome).map (⟨d.id, ·.name⟩)
    pending := (progress.pending.insert d.id).2 }

theorem fault?_progressAfter (progress : Progress) (d : Document) :
    (injector.progressAfter schemas progress d).fault? = progress.fault? := by
  rw [progressAfter]; split <;> rfl

variable (injector schemas) in
/-- The definitions of a document that a text is due for, as a report lists them. -/
def listedIn (d : Document) : List AnnotatedDefinition :=
  (d.definitions.filter fun t =>
    (injector.due? schemas (d.qualifier injector.settings) t).isSome).map (⟨d.id, ·.name⟩)

theorem listedIn_eq_nil_iff {d : Document} :
    injector.listedIn schemas d = [] ↔ injector.duesIn schemas d = [] := by
  simp [listedIn, duesIn]

theorem annotated_progressAfter (progress : Progress) (d : Document) :
    (injector.progressAfter schemas progress d).annotated =
      progress.annotated ++ injector.listedIn schemas d := by
  rw [progressAfter]
  split
  · next h => rw [listedIn_eq_nil_iff.2 h, List.append_nil]
  · rfl

/-- What the pass lists as annotated. -/
theorem annotated_foldl_progressAfter (ds : List Document) (progress : Progress) :
    (ds.foldl (injector.progressAfter schemas) progress).annotated =
      progress.annotated ++ ds.flatMap (injector.listedIn schemas) := by
  induction ds generalizing progress with
  | nil => simp
  | cons d ds ih =>
    rw [List.foldl_cons, ih, annotated_progressAfter, List.append_assoc, List.flatMap_cons]

theorem annotate_of_fault {progress : Progress} (hp : progress.fault?.isSome) (d : Document) :
    injector.annotate schemas progress d = (d, progress) := by
  rw [annotate, if_pos hp]

theorem annotate_fst {progress : Progress} (hp : progress.fault? = none) (d : Document) :
    (injector.annotate schemas progress d).1 = { d with definitions :=
      (editList (injector.annotateDefinition (d.qualifier injector.settings) schemas) {}
        d.definitions).1 } := by
  rw [annotate, if_neg (by simp [hp])]
  simp only
  split
  · rfl
  · split <;> rfl

theorem annotate_of_readable {progress : Progress} (hp : progress.fault? = none) {d : Document}
    (h : ∀ text ∈ injector.duesIn schemas d, Readable text) :
    injector.annotate schemas progress d =
      (injector.annotatedIn schemas d, injector.progressAfter schemas progress d) := by
  have edited := editList_annotateDefinition_of_readable d.definitions {} rfl h
  have names : ((d.definitions.filter fun t =>
      (injector.due? schemas (d.qualifier injector.settings) t).isSome).map
        TypeDefinition.name).isEmpty ↔ injector.duesIn schemas d = [] := by
    simp [duesIn]
  rw [annotate, if_neg (by simp [hp]), progressAfter]
  simp only [edited, List.nil_append]
  split
  · next hnames => rw [if_pos (names.1 hnames)]; rfl
  · next hnames => rw [if_neg fun hdues => hnames (names.2 hdues), List.map_map]; rfl

/-- A step over the documents fails with the fault of the first text that does not read. -/
theorem fault?_annotate_step {progress : Progress} (hp : progress.fault? = none) (d : Document) :
    (injector.annotate schemas progress d).2.fault? =
      (injector.duesIn schemas d).findSome? unreadable? := by
  have edited := @fault?_annotateDefinition injector schemas (d.qualifier injector.settings)
    d.definitions {} rfl
  rw [duesIn, ← edited, annotate, if_neg (by simp [hp])]
  simp only
  split
  · next e he => exact he.symm
  · next hnone =>
    rw [hnone]
    split <;> exact hp

theorem isSome_fault?_annotate_iff {progress : Progress} (hp : progress.fault? = none)
    (d : Document) : (injector.annotate schemas progress d).2.fault?.isSome ↔
      ¬ ∀ text ∈ injector.duesIn schemas d, Readable text := by
  rw [fault?_annotate_step hp, Option.isSome_iff_ne_none, ne_eq,
    findSome?_unreadable?_eq_none_iff]

theorem annotate_fst_eq_self_iff {progress : Progress} (hp : progress.fault? = none)
    (d : Document) : (injector.annotate schemas progress d).1 = d ↔
      ∀ text, (injector.duesIn schemas d).head? = some text → ¬ Readable text := by
  rw [annotate_fst hp, duesIn, ← editList_annotateDefinition_eq_self_iff d.definitions {} rfl]
  obtain ⟨id, imports, definitions, calls⟩ := d
  simp

/-- **Where every text that is due reads, the pass annotates everything.** -/
theorem editList_annotate_of_readable : ∀ (ds : List Document) (progress : Progress),
    progress.fault? = none → (∀ text ∈ injector.dues schemas ds, Readable text) →
    editList (injector.annotate schemas) progress ds =
      (ds.map (injector.annotatedIn schemas), ds.foldl (injector.progressAfter schemas) progress)
  | [], _, _, _ => rfl
  | d :: ds, progress, hp, h => by
    rw [dues_cons, List.forall_mem_append] at h
    rw [editList, annotate_of_readable hp h.1, editList_annotate_of_readable ds _
      ((fault?_progressAfter progress d).trans hp) h.2]
    rfl

/-- **The pass ends with the fault of the first text that does not read.** -/
theorem fault?_annotate : ∀ (ds : List Document) (progress : Progress), progress.fault? = none →
    (editList (injector.annotate schemas) progress ds).2.fault? =
      (injector.dues schemas ds).findSome? unreadable?
  | [], _, hp => hp
  | d :: ds, progress, hp => by
    rw [editList, dues_cons, List.findSome?_append, ← fault?_annotate_step hp]
    by_cases h : ∀ text ∈ injector.duesIn schemas d, Readable text
    · rw [annotate_of_readable hp h, fault?_progressAfter, hp, Option.none_or]
      exact fault?_annotate ds _ ((fault?_progressAfter progress d).trans hp)
    · have stopped := (isSome_fault?_annotate_iff hp d).2 h
      rw [editList_of_stopped (annotate_of_fault stopped), Option.or_of_isSome stopped]

/-- **The pass changes nothing iff no text is due or the first one does not read.** -/
theorem editList_annotate_eq_self_iff : ∀ (ds : List Document) (progress : Progress),
    progress.fault? = none → ((editList (injector.annotate schemas) progress ds).1 = ds ↔
      ∀ text, (injector.dues schemas ds).head? = some text → ¬ Readable text)
  | [], _, _ => by simp [editList, dues]
  | d :: ds, progress, hp => by
    have hd := @annotate_fst_eq_self_iff injector schemas progress hp d
    rw [editList, dues_cons, List.cons.injEq, hd]
    cases hdues : injector.duesIn schemas d with
    | nil =>
      have h : ∀ text ∈ injector.duesIn schemas d, Readable text := by simp [hdues]
      rw [annotate_of_readable hp h,
        editList_annotate_eq_self_iff ds _ ((fault?_progressAfter progress d).trans hp)]
      simp
    | cons text texts =>
      simp only [List.head?_cons, List.cons_append, and_iff_left_iff_imp]
      -- the first text does not read, so the pass stops in this document
      intro hfirst
      have h : ¬ ∀ text ∈ injector.duesIn schemas d, Readable text := fun hall =>
        hfirst text rfl (hall text (by simp [hdues]))
      rw [editList_of_stopped (annotate_of_fault ((isSome_fault?_annotate_iff hp d).2 h))]

end Injector

end ResponseSchema
