/-
  Injection — runs that fail.

  A run fails before it looks at anything, where the build has errors, or in the
  pass that annotates, where a text that is due nests too deep to be read back.
  What the pass has annotated by then stays in the package.

  * `readable_compact_iff`: which texts read back;
  * `run_error_iff_depth`: which runs fail;
  * `run_error_eq_self_iff`: a failed run has left the package as it was iff the
    build had errors or the very first text that was due nests too deep.
-/
import ResponseSchema.Proofs.Injection.Outcome
import Mathlib.Logic.Function.Iterate

namespace ResponseSchema

namespace Injector

variable {injector : Injector} {p p' : Package}

/-! ## Texts that do not read back -/

theorem not_readable_compact_iff (s : Schema) :
    ¬ Readable s.compact ↔ Json.maxDepth < s.toJson.depth := by
  rw [readable_compact_iff, Nat.not_le]

theorem textOf_of_mem_duesOf {text : String} (h : text ∈ injector.duesOf p) :
    ∃ name, Findings.TextOf injector.settings injector.mapper p.documents name text := by
  obtain ⟨d, -, t, -, h⟩ := mem_duesOf_iff.1 h
  exact ⟨t.name, Findings.exists_of_get? (due?_eq_some_iff.1 h).1⟩

theorem exists_compact_of_mem_duesOf {text : String} (h : text ∈ injector.duesOf p) :
    ∃ s : Schema, s.compact = text := by
  obtain ⟨name, n, raw, s, -, -, -, -, rfl⟩ := textOf_of_mem_duesOf h
  exact ⟨s, rfl⟩

/-- **A run fails iff the build has errors or a text that is due nests too deep.** -/
theorem run_error_iff_depth : (∃ e p', injector.run p = (.error e, p')) ↔ 0 < p.errorCount ∨
    ∃ s : Schema, s.compact ∈ injector.duesOf p ∧ Json.maxDepth < s.toJson.depth := by
  rw [run_error_iff]
  refine or_congr_right ⟨?_, ?_⟩
  · rintro ⟨text, htext, hread⟩
    obtain ⟨s, rfl⟩ := exists_compact_of_mem_duesOf htext
    exact ⟨s, htext, (not_readable_compact_iff s).1 hread⟩
  · rintro ⟨s, hs, hdepth⟩
    exact ⟨s.compact, hs, (not_readable_compact_iff s).2 hdepth⟩

/-! ## What a failed run leaves behind -/

/-- A failed run has changed nothing iff it has not got past the first text. -/
theorem eq_self_iff_of_run_error {e : SchemaError} (h : injector.run p = (.error e, p')) :
    p' = p ↔ 0 < p.errorCount ∨
      ∃ text, (injector.duesOf p).head? = some text ∧ ¬ Readable text := by
  rcases eq_of_run_error h with ⟨h0, hself⟩ | ⟨h0, ⟨text, htext, -⟩, hp'⟩
  · exact iff_of_true hself (.inl h0)
  · rw [hp', annotating, edit_eq_self_iff, editList_annotate_eq_self_iff _ _ rfl, ← duesOf]
    obtain ⟨first, rest, hdues⟩ := List.exists_cons_of_ne_nil (List.ne_nil_of_mem htext)
    simp [hdues, h0]

/-- **A failed run leaves the package as it was iff the build had errors or the first text that
    was due nests too deep.** -/
theorem run_error_eq_self_iff {e : SchemaError} (h : injector.run p = (.error e, p')) :
    p' = p ↔ 0 < p.errorCount ∨
      ∃ s : Schema, (injector.duesOf p).head? = some s.compact ∧
        Json.maxDepth < s.toJson.depth := by
  rw [eq_self_iff_of_run_error h]
  refine or_congr_right ⟨?_, ?_⟩
  · rintro ⟨text, htext, hread⟩
    obtain ⟨s, rfl⟩ := exists_compact_of_mem_duesOf (List.mem_of_head? htext)
    exact ⟨s, htext, (not_readable_compact_iff s).1 hread⟩
  · rintro ⟨s, hs, hdepth⟩
    exact ⟨s.compact, hs, (not_readable_compact_iff s).2 hdepth⟩

end Injector

/-! ## Deep types -/

theorem Ty.expand_iterate_array (phase : Phase) (enclosing : List String) (t : Ty) : ∀ n : Nat,
    expand phase enclosing (Ty.array^[n] t) =
      (expand phase enclosing t).map Schema.arrayOf^[n]
  | 0 => by cases h : expand phase enclosing t <;> simp [Except.map, h]
  | n + 1 => by
    rw [Function.iterate_succ_apply', expand, expand_iterate_array phase enclosing t n]
    cases expand phase enclosing t with
    | error e => rfl
    | ok s => simp [Except.map, Function.iterate_succ_apply']

theorem Ty.isError_iterate_array (t : Ty) (n : Nat) : (Ty.array^[n + 1] t).isError = false := by
  rw [Function.iterate_succ_apply']; rfl

theorem Schema.depth_iterate_arrayOf (s : Schema) : ∀ n : Nat,
    (Schema.arrayOf^[n] s).toJson.depth = s.toJson.depth + n
  | 0 => rfl
  | n + 1 => by
    have step (s : Schema) : s.arrayOf.toJson.depth = s.toJson.depth + 1 := by
      simp [arrayOf, ofKind, empty, toJson, typeMember, itemsMember, propertiesMember, anyOfMember,
        Kinds.toJson, Json.depth, Json.depthMembers]
    rw [Function.iterate_succ_apply', step, depth_iterate_arrayOf s n, Nat.add_assoc]

theorem Schema.normalize_iterate_arrayOf (s : Schema) : ∀ n : Nat,
    (Schema.arrayOf^[n] s).normalize = Schema.arrayOf^[n] s.normalize
  | 0 => rfl
  | n + 1 => by
    rw [Function.iterate_succ_apply', Function.iterate_succ_apply',
      ← normalize_iterate_arrayOf s n]
    rfl

/-! ## A package with one text too deep -/

/-- A type with a shallow schema. -/
def NamedType.score : NamedType :=
  .plain "Score" (.primitive .int)

/-- A type with a schema that nests one container too deep. -/
def NamedType.deep : NamedType :=
  .plain "Deep" (Ty.array^[127] (.primitive .int))

/-- The schema of this type. -/
def Schema.deep : Schema :=
  Schema.arrayOf^[127] (.ofKind .integer)

/-- A package whose model calls have both types as results, and which defines these types. -/
def Package.scoreAndDeep (types : List NamedType) : Package :=
  ⟨[⟨⟨"acme", "app", "0.1.0"⟩, [.caller {} "calls.bal" [.score, .deep],
    ⟨"types.bal", [], types.map .ofNamed, []⟩], []⟩], 0⟩

theorem depth_deep : Json.maxDepth < Schema.deep.toJson.depth := by
  rw [Schema.deep, Schema.depth_iterate_arrayOf]; decide

theorem textsOf_scoreAndDeep (types : List NamedType) : Injector.textsOf {} (.scoreAndDeep types) =
    ⟨[("Score", (Schema.ofKind .integer).compact), ("Deep", Schema.deep.compact)]⟩ := by
  have hscore : SchemaMapper.algebra .score >>= Schema.textOfRaw =
      .ok (Schema.ofKind .integer).compact := rfl
  have hdeep : SchemaMapper.algebra .deep >>= Schema.textOfRaw = .ok Schema.deep.compact := by
    have hschema : NamedType.deep.toTy.schema .build = .ok Schema.deep := by
      rw [Ty.schema_eq_expand]
      show Ty.expand .build ["Deep"] (Ty.array^[127] (.primitive .int)) = _
      rw [Ty.expand_iterate_array]
      rfl
    rw [SchemaMapper.textOfRaw_algebra hschema, Schema.deep, Schema.normalize_iterate_arrayOf]
    rfl
  have herror : ∀ n ∈ [NamedType.score, .deep], n.referred.isError = false := by
    simpa using ⟨rfl, Ty.isError_iterate_array _ 126⟩
  rw [Injector.textsOf]
  show (Findings.ofDocuments {} .algebra [.caller {} "calls.bal" _, _]).cache = _
  rw [Findings.ofDocuments_caller _ herror rfl, List.foldl_cons, List.foldl_cons, List.foldl_nil,
    Findings.addTarget_of_ok (by decide) hscore,
    Findings.addTarget_of_ok (by decide) hdeep]
  rfl

theorem duesOf_scoreAndDeep (types : List NamedType) : Injector.duesOf {} (.scoreAndDeep types) =
    (types.map TypeDefinition.ofNamed).filterMap (Injector.due? {}
      ⟨[("Score", (Schema.ofKind .integer).compact), ("Deep", Schema.deep.compact)]⟩ "ai") := by
  rw [Injector.duesOf, textsOf_scoreAndDeep]
  exact List.append_nil _

/-- Where the deep type is defined first, the run fails before it changes anything. -/
theorem run_deep_first : ∃ e p',
    Injector.run {} (.scoreAndDeep [.deep, .score]) = (.error e, p') ∧
      p' = .scoreAndDeep [.deep, .score] := by
  have hdues : Injector.duesOf {} (.scoreAndDeep [.deep, .score]) =
      [Schema.deep.compact, (Schema.ofKind .integer).compact] := duesOf_scoreAndDeep _
  have hmem : Schema.deep.compact ∈ Injector.duesOf {} (.scoreAndDeep [.deep, .score]) := by
    rw [hdues]; simp
  obtain ⟨e, p', h⟩ := Injector.run_error_iff_depth.2 (.inr ⟨Schema.deep, hmem, depth_deep⟩)
  exact ⟨e, p', h, (Injector.run_error_eq_self_iff h).2
    (.inr ⟨Schema.deep, by rw [hdues]; rfl, depth_deep⟩)⟩

/-- Where it is defined last, the run fails and leaves the other type annotated. -/
theorem run_deep_last : ∃ e p',
    Injector.run {} (.scoreAndDeep [.score, .deep]) = (.error e, p') ∧
      p' ≠ .scoreAndDeep [.score, .deep] := by
  have hdues : Injector.duesOf {} (.scoreAndDeep [.score, .deep]) =
      [(Schema.ofKind .integer).compact, Schema.deep.compact] := duesOf_scoreAndDeep _
  have hmem : Schema.deep.compact ∈ Injector.duesOf {} (.scoreAndDeep [.score, .deep]) := by
    rw [hdues]; simp
  obtain ⟨e, p', h⟩ := Injector.run_error_iff_depth.2 (.inr ⟨Schema.deep, hmem, depth_deep⟩)
  refine ⟨e, p', h, fun hself => ?_⟩
  rcases (Injector.eq_self_iff_of_run_error h).1 hself with h0 | ⟨text, htext, hread⟩
  · cases h0
  · rw [hdues] at htext
    cases htext
    exact hread ((Injector.readable_compact_iff _).2 (by decide))

end ResponseSchema
