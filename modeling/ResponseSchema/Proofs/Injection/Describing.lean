/-
  Injection — what an annotation describes.

  Texts are found by name, whichever module has the definition.  So where modules
  have definitions of one name, the annotations of all describe the type under
  which the first target has it.

  * `NamedType.schemaValue`: the value of an annotation that describes a name;
  * `Package.DefinesTargets`: each module has a definition for what it asks for;
  * `value_of_run`: a run with the algebra annotates with the value of the first target;
  * `describes_of_run`: under `DefinesTargets` that is the value of a definition of the
    name, and of the annotated one where the definitions of the name agree.
-/
import ResponseSchema.Proofs.Injection.PerType
import ResponseSchema.Proofs.Injection.RuntimeView

namespace ResponseSchema

/-- The schema of a name, lowered and written as a value. -/
def NamedType.schemaValue (n : NamedType) : Except SchemaError Json :=
  (SchemaMapper.algebra n >>= Schema.ofRaw).map Schema.toJson

/-- What a module asks its model calls for has no metadata, and is defined in the module with
    the type that the call has for it. -/
def Package.DefinesTargets (settings : Settings) (p : Package) : Prop :=
  ∀ m ∈ p.modules, ∀ n, Findings.Target settings m.allDocuments n →
    n.metadata = [] ∧ ∃ d ∈ m.allDocuments, ∃ t ∈ d.definitions,
      t.name = n.identifier ∧ t.type = n.referred

variable {settings : Settings} {p p' : Package} {r : Report}

/-! ## Targets and definitions -/

theorem Findings.exists_module_of_target {n : NamedType} (h : Target settings p.documents n) :
    ∃ m ∈ p.modules, Target settings m.allDocuments n := by
  obtain ⟨d, hd, htarget⟩ := h
  obtain ⟨m, hm, hd⟩ := List.mem_flatMap.1 hd
  exact ⟨m, hm, d, hd, htarget⟩

/-- Every target is the name of a definition, with its type. -/
theorem Package.DefinesTargets.exists_definition (h : p.DefinesTargets settings) {n : NamedType}
    (hn : Findings.Target settings p.documents n) :
    ∃ d ∈ p.documents, ∃ t ∈ d.definitions, n = .plain t.name t.type := by
  obtain ⟨m, hm, hn⟩ := Findings.exists_module_of_target hn
  obtain ⟨hmetadata, d, hd, t, ht, hname, htype⟩ := h m hm n hn
  refine ⟨d, List.mem_flatMap.2 ⟨m, hm, hd⟩, t, ht, ?_⟩
  rw [hname, htype, NamedType.plain, ← hmetadata]

/-! ## Values -/

theorem schemaValue_of_text {n : NamedType} {s : Schema}
    (h : SchemaMapper.algebra n >>= Schema.textOfRaw = .ok s.compact) :
    n.schemaValue = .ok s.toJson := by
  obtain ⟨raw, hraw, htext⟩ := bind_eq_ok h
  obtain ⟨lowered, hlowered, hcompact⟩ := map_eq_ok htext
  rw [NamedType.schemaValue, hraw]
  show (Schema.ofRaw raw).map Schema.toJson = _
  rw [hlowered, ← Schema.compact_inj hcompact]
  rfl

/-- **A run with the algebra annotates with the value of the first target of the name**, in
    whichever module that is. -/
theorem value_of_run (hp : p.Distinct)
    (hrun : Injector.run ⟨settings, .algebra⟩ p = (.ok r, p')) {i j : Nat} {d d' : Document}
    {t t' : TypeDefinition} (hd : p.documents[i]? = some d) (hd' : p'.documents[i]? = some d')
    (ht : d.definitions[j]? = some t) (ht' : d'.definitions[j]? = some t')
    (hnew : t'.annotations ≠ t.annotations) :
    ∃ n value, Injector.firstTarget? ⟨settings, .algebra⟩ p t.name = some n ∧
      n.schemaValue = .ok value ∧ t'.annotations = t.annotations ++
        [⟨some (d.qualifier settings), settings.annotationIdentifier, some value⟩] := by
  have finished := Injector.finished_of_run hrun
  have injected := forall₂_getElem? finished.documents hd hd'
  rw [injected.definitions, List.getElem?_map, ht, finished.schemas] at ht'
  obtain rfl := Option.some.inj ht'
  cases hdue : Injector.due? ⟨settings, .algebra⟩ (Injector.textsOf ⟨settings, .algebra⟩ p)
      (d.qualifier settings) t with
  | none =>
    rw [Injector.annotated_of_not_due hdue] at hnew
    exact absurd rfl hnew
  | some text =>
    obtain ⟨s, rfl, hannotated⟩ := Injector.annotated_of_run finished SchemaMapper.lawful_algebra
      hp (List.mem_of_getElem? hd) (List.mem_of_getElem? ht) hdue
    obtain ⟨n, hfirst, htext⟩ :=
      Injector.get?_textsOf_eq_some_iff.1 (Injector.due?_eq_some_iff.1 hdue).1
    exact ⟨n, s.toJson, hfirst, schemaValue_of_text htext, by rw [hannotated]; rfl⟩

/-- **What an annotation describes**: where each module defines what it asks for, a new annotation
    has the schema of a definition of the name, the one that the first target refers to; so it
    describes the definition that it is on if all definitions of the name have one type.
    `Distinct` says that the records of the package have no field twice, as every record of the
    host. -/
theorem describes_of_run (hp : p.Distinct) (htargets : p.DefinesTargets settings)
    (hrun : Injector.run ⟨settings, .algebra⟩ p = (.ok r, p')) {i j : Nat} {d d' : Document}
    {t t' : TypeDefinition} (hd : p.documents[i]? = some d) (hd' : p'.documents[i]? = some d')
    (ht : d.definitions[j]? = some t) (ht' : d'.definitions[j]? = some t')
    (hnew : t'.annotations ≠ t.annotations) :
    ∃ type value, Injector.firstTarget? ⟨settings, .algebra⟩ p t.name = some (.plain t.name type) ∧
      (∃ f ∈ p.documents, ∃ e ∈ f.definitions, e.name = t.name ∧ e.type = type) ∧
      (NamedType.plain t.name type).schemaValue = .ok value ∧
      t'.annotations = t.annotations ++
        [⟨some (d.qualifier settings), settings.annotationIdentifier, some value⟩] ∧
      ((∀ f ∈ p.documents, ∀ e ∈ f.definitions, e.name = t.name → e.type = t.type) →
        (NamedType.plain t.name t.type).schemaValue = .ok value) := by
  obtain ⟨n, value, hfirst, hvalue, happend⟩ := value_of_run hp hrun hd hd' ht ht' hnew
  have hname : n.identifier = t.name := by simpa using List.find?_some hfirst
  have htarget := Findings.mem_targetsIn.1 (List.mem_of_find?_eq_some hfirst)
  obtain ⟨f, hf, e, he, rfl⟩ := htargets.exists_definition htarget
  have hname : e.name = t.name := hname
  rw [hname] at hfirst hvalue
  refine ⟨e.type, value, hfirst, ⟨f, hf, e, he, hname, rfl⟩, hvalue, happend, fun hagree => ?_⟩
  rw [← hagree f hf e he hname]
  exact hvalue

/-! ## Modules with definitions of one name -/

/-- A document that defines `Count` and has a model call with it as result. -/
def Document.counting (id : String) (type : Primitive) : Document :=
  { Document.caller {} id [.plain "Count" (.primitive type)] with
    definitions := [.ofNamed (.plain "Count" (.primitive type))] }

/-- Two modules, each with a `Count` of its own, in the first an integer. -/
def Package.counting (second : Primitive) : Package :=
  ⟨[⟨⟨"acme", "app", "0.1.0"⟩, [.counting "main.bal" .int], []⟩,
    ⟨⟨"acme", "lib", "0.1.0"⟩, [.counting "lib.bal" second], []⟩], 0⟩

theorem definesTargets_counting (second : Primitive) :
    (Package.counting second).DefinesTargets {} := by
  have document (id : String) (type : Primitive) (n : NamedType)
      (hn : Findings.Target {} [.counting id type] n) : n.metadata = [] ∧
      ∃ d ∈ [Document.counting id type], ∃ t ∈ d.definitions,
        t.name = n.identifier ∧ t.type = n.referred := by
    have htargets : Findings.targetsIn {} [.counting id type] =
        [.plain "Count" (.primitive type)] := rfl
    rw [← Findings.mem_targetsIn, htargets, List.mem_singleton] at hn
    subst hn
    exact ⟨rfl, _, List.mem_singleton_self _, _, List.mem_singleton_self _, rfl, rfl⟩
  rintro m hm n hn
  rcases hm with _ | ⟨_, _ | ⟨_, ⟨⟩⟩⟩
  · exact document "main.bal" .int n hn
  · exact document "lib.bal" second n hn

theorem distinct_counting (second : Primitive) : (Package.counting second).Distinct := by
  simp [Package.counting, Package.Distinct, Package.documents, Module.allDocuments,
    Document.counting, Document.caller, Settings.modelCall, NamedType.plain, NamedType.toTy,
    Ty.Distinct]

/-- A run annotates the second `Count` with the schema of the first. -/
theorem run_counting (second : Primitive) : ∃ r p' d',
    Injector.run {} (.counting second) = (.ok r, p') ∧ p'.documents[1]? = some d' ∧
      d'.definitions = [⟨"Count", .primitive second,
        [⟨some "ai", "JsonSchema", some (Schema.ofKind .integer).toJson⟩]⟩] := by
  have hread : Json.read (Schema.ofKind .integer).compact = .ok (Schema.ofKind .integer).toJson :=
    Schema.read_compact _
  have hdues : Injector.duesOf {} (.counting second) =
      [(Schema.ofKind .integer).compact, (Schema.ofKind .integer).compact] := rfl
  have hreadable : ∀ text ∈ Injector.duesOf {} (.counting second), Readable text := by
    rw [hdues]
    simpa using ⟨_, hread⟩
  have hrun := Injector.run_of_readable (Nat.lt_irrefl 0) hreadable
  have documents := (Injector.finished_of_run hrun).documents
  rw [show (Package.counting second).documents =
    [.counting "main.bal" .int, .counting "lib.bal" second] from rfl] at documents
  obtain ⟨d, rest, -, hrest, hdocuments⟩ := List.forall₂_cons_left_iff.1 documents
  obtain ⟨d', rest', injected, -, rfl⟩ := List.forall₂_cons_left_iff.1 hrest
  refine ⟨_, _, d', hrun, by rw [hdocuments]; rfl, injected.definitions.trans ?_⟩
  have hannotated : Injector.annotated {} (Injector.textsOf {} (.counting second)) "ai"
      (.ofNamed (.plain "Count" (.primitive second))) =
        ⟨"Count", .primitive second,
          [⟨some "ai", "JsonSchema", some (Schema.ofKind .integer).toJson⟩]⟩ :=
    Injector.annotated_of_due rfl hread
  exact congrArg (fun t => [t]) hannotated

/-- Where both modules have integers, the annotation describes its own definition. -/
theorem describes_of_run_counting : ∃ r p' d' t' value,
    Injector.run {} (.counting .int) = (.ok r, p') ∧ p'.documents[1]? = some d' ∧
      d'.definitions[0]? = some t' ∧
      t'.annotations = [⟨some "ai", "JsonSchema", some value⟩] ∧
      (NamedType.plain "Count" (.primitive .int)).schemaValue = .ok value := by
  obtain ⟨r, p', d', hrun, hd', hdefinitions⟩ := run_counting .int
  have hd : (Package.counting .int).documents[1]? = some (.counting "lib.bal" .int) := rfl
  have ht : (Document.counting "lib.bal" .int).definitions[0]? =
      some (.ofNamed (.plain "Count" (.primitive .int))) := rfl
  have ht' : d'.definitions[0]? = some ⟨"Count", .primitive .int,
      [⟨some "ai", "JsonSchema", some (Schema.ofKind .integer).toJson⟩]⟩ := by
    rw [hdefinitions]; rfl
  obtain ⟨type, value, -, -, -, happend, hown⟩ := describes_of_run (distinct_counting .int)
    (definesTargets_counting .int) hrun hd hd' ht ht' (List.cons_ne_nil _ _)
  refine ⟨r, p', d', _, value, hrun, hd', ht', happend, hown ?_⟩
  intro f hf e he _
  have hdocument : f ∈ [Document.counting "main.bal" .int, .counting "lib.bal" .int] := hf
  simp only [List.mem_cons, List.not_mem_nil, or_false] at hdocument
  rcases hdocument with rfl | rfl <;> rw [List.mem_singleton.1 he]

/-- Where the second module has strings, the annotation there describes integers. -/
theorem not_describes_counting_string : (Package.counting .string).Distinct ∧
    (Package.counting .string).DefinesTargets {} ∧
    (∀ d ∈ (Package.counting .string).documents, ∀ t ∈ d.definitions, t.annotations = []) ∧
    ∃ r p' d' t' value,
      Injector.run {} (.counting .string) = (.ok r, p') ∧ p'.documents[1]? = some d' ∧
        d'.definitions[0]? = some t' ∧
        t'.annotations = [⟨some "ai", "JsonSchema", some value⟩] ∧
        (NamedType.plain t'.name t'.type).schemaValue ≠ .ok value := by
  obtain ⟨r, p', d', hrun, hd', hdefinitions⟩ := run_counting .string
  have hvalue : (NamedType.plain "Count" (.primitive .string)).schemaValue =
      .ok (Schema.ofKind .string).toJson := rfl
  have hnone : ∀ d ∈ (Package.counting .string).documents, ∀ t ∈ d.definitions,
      t.annotations = [] := by
    simp [Package.counting, Package.documents, Module.allDocuments, Document.counting,
      TypeDefinition.ofNamed]
  refine ⟨distinct_counting .string, definesTargets_counting .string, hnone, r, p', d', _, _,
    hrun, hd', by rw [hdefinitions]; rfl, rfl, fun hsame => ?_⟩
  rw [hvalue, Except.ok.injEq] at hsame
  exact absurd (Schema.toJson_injective hsame) (by decide)

end ResponseSchema
