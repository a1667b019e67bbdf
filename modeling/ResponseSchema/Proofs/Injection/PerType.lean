/-
  Injection — failures of single types.

  A target without a text is listed as a failure, and the definitions of the
  others are annotated all the same.  Only a text that nests too deep to be read
  back stops a run, once a definition is due it.

  * `firstTarget?`: the target that decides on a name;
  * `TooDeep`: a definition is due a schema that nests too deep, which is so iff a
    text that is due does not read (`tooDeep_iff`);
  * `PerType`: what the report lists as failures, and which definitions have the
    annotation in the end;
  * `run_perType`: any other run over a package without errors is like that.
-/
import ResponseSchema.Proofs.Injection.Effect
import ResponseSchema.Proofs.Injection.FailedRun

namespace ResponseSchema

namespace Injector

variable (injector : Injector) (p : Package)

/-- The first target with a name. -/
def firstTarget? (name : String) : Option NamedType :=
  (Findings.targetsIn injector.settings p.documents).find? (·.identifier = name)

/-- A definition does not have its annotation, and the schema of the first target with its name
    nests too deep to be read back from a text. -/
def TooDeep : Prop :=
  ∃ d ∈ p.documents, ∃ t ∈ d.definitions,
    (∀ a ∈ t.annotations,
      ¬ a.refersTo (d.qualifier injector.settings) injector.settings.annotationIdentifier) ∧
    ∃ n raw s, injector.firstTarget? p t.name = some n ∧ injector.mapper n = .ok raw ∧
      Schema.ofRaw raw = .ok s ∧ Json.maxDepth < s.toJson.depth

/-- The definition has the annotation afterwards if the first target with its name has a text. -/
structure Carries (qualifier : String) (t t' : TypeDefinition) : Prop where
  name : t'.name = t.name
  annotated (n : NamedType) (text : String) : injector.firstTarget? p t.name = some n →
    injector.mapper n >>= Schema.textOfRaw = .ok text →
      ∃ a ∈ t'.annotations, a.refersTo qualifier injector.settings.annotationIdentifier

/-- The failures are the first targets without a text, and the definitions of all others have the
    annotation afterwards, with the qualifier of the document before. -/
structure PerType (r : Report) (p' : Package) : Prop where
  failures (name : String) (e : SchemaError) : r.failures.lookup name = some e ↔
    ∃ n, injector.firstTarget? p name = some n ∧ injector.mapper n >>= Schema.textOfRaw = .error e
  definitions : List.Forall₂ (fun d d' => List.Forall₂
    (injector.Carries p (d.qualifier injector.settings)) d.definitions d'.definitions)
    p.documents p'.documents

variable {injector p} {name : String}

/-! ## Texts -/

theorem get?_textsOf_eq_some_iff {text : String} :
    (injector.textsOf p).get? name = some text ↔
      ∃ n, injector.firstTarget? p name = some n ∧
        injector.mapper n >>= Schema.textOfRaw = .ok text := by
  simp only [textsOf, Findings.get?_ofDocuments, Option.bind_eq_some_iff,
    SchemaMapper.text?_eq_some_iff, firstTarget?]

/-- A schema is due that nests too deep iff a text is due that does not read. -/
theorem tooDeep_iff : injector.TooDeep p ↔ ∃ text ∈ injector.duesOf p, ¬ Readable text := by
  constructor
  · rintro ⟨d, hd, t, ht, hnone, n, raw, s, hfirst, hraw, hs, hdepth⟩
    have htext : injector.mapper n >>= Schema.textOfRaw = .ok s.compact := by
      rw [hraw]
      exact congrArg (Except.map Schema.compact) hs
    have hcached := get?_textsOf_eq_some_iff.2 ⟨n, hfirst, htext⟩
    exact ⟨s.compact, mem_duesOf_iff.2 ⟨d, hd, t, ht, due?_eq_some_iff.2 ⟨hcached, hnone⟩⟩,
      (not_readable_compact_iff s).2 hdepth⟩
  · rintro ⟨text, htext, hread⟩
    obtain ⟨d, hd, t, ht, hdue⟩ := mem_duesOf_iff.1 htext
    obtain ⟨hcached, hnone⟩ := due?_eq_some_iff.1 hdue
    obtain ⟨n, hfirst, htext⟩ := get?_textsOf_eq_some_iff.1 hcached
    obtain ⟨raw, hraw, htext⟩ := bind_eq_ok htext
    obtain ⟨s, hs, rfl⟩ := map_eq_ok htext
    exact ⟨d, hd, t, ht, hnone, n, raw, s, hfirst, hraw, hs, (not_readable_compact_iff s).1 hread⟩

/-- A text that is due and does not read has only its depth against it. -/
theorem unreadable?_of_mem_duesOf {text : String} {e : SchemaError}
    (htext : text ∈ injector.duesOf p) (h : unreadable? text = some e) :
    e = .unreadable .malformed := by
  obtain ⟨s, rfl⟩ := exists_compact_of_mem_duesOf htext
  rw [unreadable?, Schema.read_compact] at h
  by_cases hdepth : s.toJson.depth ≤ Json.maxDepth
  · rw [if_pos hdepth] at h
    cases h
  · rw [if_neg hdepth] at h
    exact (Option.some.inj h).symm

/-! ## Runs -/

/-- A cached name has the annotation afterwards: from this run, or it had it before. -/
theorem Annotates.exists_refersTo {schemas : SchemaCache} {qualifier : String}
    {t t' : TypeDefinition} (h : injector.Annotates schemas qualifier t t')
    (hcached : schemas.contains t.name) :
    ∃ a ∈ t'.annotations, a.refersTo qualifier injector.settings.annotationIdentifier := by
  rcases h.annotations with hsame | ⟨text, value, -, -, -, happend⟩
  · have hhad : ¬ ∀ a ∈ t.annotations,
        ¬ a.refersTo qualifier injector.settings.annotationIdentifier :=
      fun hnone => h.changed.2 ⟨hcached, hnone⟩ hsame
    rw [hsame]
    simpa using hhad
  · rw [happend]
    exact ⟨_, List.mem_append_right _ (List.mem_singleton_self _), by simp⟩

theorem perType_of_run {r : Report} {p' : Package} (h : injector.run p = (.ok r, p')) :
    injector.PerType p r p' := by
  have reported := reported_of_run h
  have hschemas : r.schemas = injector.textsOf p := congrArg Findings.cache reported
  have hfailures : r.failures =
      (Findings.ofDocuments injector.settings injector.mapper p.documents).failures :=
    congrArg Findings.failures reported
  constructor
  · intro name e
    simp only [hfailures, Findings.lookup_failures_ofDocuments, Option.bind_eq_some_iff,
      SchemaMapper.fault?_eq_some_iff, firstTarget?]
  · refine (effect_of_run h).documents.imp fun d d' hd => hd.definitions.imp fun t t' ht => ?_
    refine ⟨ht.name, fun n text hfirst htext => ht.exists_refersTo ?_⟩
    rw [SchemaCache.contains, hschemas, get?_textsOf_eq_some_iff.2 ⟨n, hfirst, htext⟩]
    rfl

/-- **Failures are per type**: a run over a package without errors finishes with the failures
    listed and all other definitions annotated, unless a definition is due a schema that nests
    too deep. -/
theorem run_perType (h0 : p.errorCount = 0) :
    (¬ injector.TooDeep p → ∃ r p', injector.run p = (.ok r, p') ∧ injector.PerType p r p') ∧
      (injector.TooDeep p → ∃ p', injector.run p = (.error (.unreadable .malformed), p')) := by
  have h0 : ¬ 0 < p.errorCount := by omega
  rw [tooDeep_iff]
  constructor
  · intro hread
    have hread : ∀ text ∈ injector.duesOf p, Readable text := by simpa using hread
    exact ⟨_, _, run_of_readable h0 hread, perType_of_run (run_of_readable h0 hread)⟩
  · intro hread
    obtain ⟨e, he⟩ := exists_findSome?_unreadable?_iff.2 hread
    obtain ⟨first, hfirst, hfault⟩ := List.exists_of_findSome?_eq_some he
    obtain rfl := unreadable?_of_mem_duesOf hfirst hfault
    exact ⟨_, run_of_unreadable h0 he⟩

end Injector

/-! ## Packages with one type that has no text -/

/-- A type that no schema describes. -/
def NamedType.handler : NamedType :=
  .plain "Handler" (.other "function (string) returns int")

/-- A package whose model calls have this type and another one as results, and which defines
    both. -/
def Package.handlerAndScore : Package :=
  ⟨[⟨⟨"acme", "app", "0.1.0"⟩, [.caller {} "calls.bal" [.handler, .score],
    ⟨"types.bal", [], [.ofNamed .handler, .ofNamed .score], []⟩], []⟩], 0⟩

/-- The type without a schema is listed, the other one annotated. -/
theorem run_perType_handler : Package.handlerAndScore.errorCount = 0 ∧
    ∃ r p', Injector.run {} .handlerAndScore = (.ok r, p') ∧
      Injector.PerType {} .handlerAndScore r p' ∧
      r.failures.lookup "Handler" =
        some (.unsupported (.other "function (string) returns int")) := by
  have hdues : Injector.duesOf {} .handlerAndScore = [(Schema.ofKind .integer).compact] := rfl
  have hread : ¬ Injector.TooDeep {} .handlerAndScore := by
    simpa [Injector.tooDeep_iff, hdues, Injector.readable_compact_iff] using by decide
  have h0 : Package.handlerAndScore.errorCount = 0 := rfl
  obtain ⟨r, p', hrun, hperType⟩ := (Injector.run_perType h0).1 hread
  exact ⟨h0, r, p', hrun, hperType, (hperType.failures _ _).2 ⟨.handler, rfl, rfl⟩⟩

/-- A type that nests too deep is no failure of its own, but stops the run. -/
theorem run_deep_ne_ok : (Package.scoreAndDeep [.score, .deep]).errorCount = 0 ∧
    ∀ r p', Injector.run {} (.scoreAndDeep [.score, .deep]) ≠ (.ok r, p') := by
  have hdue : Schema.deep.compact ∈ Injector.duesOf {} (.scoreAndDeep [.score, .deep]) := by
    rw [duesOf_scoreAndDeep]
    exact List.mem_cons_of_mem _ (List.mem_singleton_self _)
  obtain ⟨e, p', h⟩ := Injector.run_error_iff_depth.2 (.inr ⟨Schema.deep, hdue, depth_deep⟩)
  refine ⟨rfl, fun r p'' hok => ?_⟩
  rw [h] at hok
  cases hok

end ResponseSchema
