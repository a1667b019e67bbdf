/-
  Injection — names that imports share.

  A run looks for imports of the annotation module only; what the other imports of a
  document bind does not keep it from adding its own.

  * `Document.ClashFree`: no two imports of a document bind one name;
  * `clashFree_of_run_iff`: after a run this holds iff it did before and the document
    did not get the import beside another one that binds the last segment of the
    annotation module.
-/
import ResponseSchema.Proofs.Injection.Scope

namespace ResponseSchema

/-! ## Names that imports bind -/

/-- The name under which the document can use the import; `_` is none. -/
def Import.binding? (i : Import) : Option String :=
  i.boundName?.filter (· ≠ "_")

namespace Document

/-- The names that the imports bind. -/
def bindings (d : Document) : List String :=
  d.imports.filterMap Import.binding?

/-- No two imports bind the same name. -/
def ClashFree (d : Document) : Prop :=
  d.bindings.Nodup

instance (d : Document) : Decidable d.ClashFree :=
  inferInstanceAs (Decidable d.bindings.Nodup)

variable {d d' : Document} {i : Import}

/-- An import at the end clashes with nothing iff the name it binds is free. -/
theorem clashFree_append (h : d'.imports = d.imports ++ [i]) :
    d'.ClashFree ↔ d.ClashFree ∧ ∀ name ∈ i.binding?, name ∉ d.bindings := by
  have hbindings : d'.bindings = d.bindings ++ i.binding?.toList := by
    rw [bindings, h, List.filterMap_append, List.filterMap_cons, List.filterMap_nil, bindings]
    cases i.binding? <;> rfl
  rw [ClashFree, ClashFree, hbindings]
  cases i.binding? with
  | none => simp
  | some name =>
    simp only [Option.toList_some, Option.mem_some_iff, forall_eq', List.nodup_append_comm,
      List.singleton_append, List.nodup_cons, and_comm]

end Document

/-! ## Names after a run -/

namespace Injector

variable {injector : Injector} {p p' : Package} {r : Report} {k : Nat} {d d' : Document}

/-- **No two imports of a document bind one name after a run** iff none did before and, if the
    document got the import, no other import binds what this one does. -/
theorem clashFree_of_run_iff (h : injector.run p = (.ok r, p')) (hd : p.documents[k]? = some d)
    (hd' : p'.documents[k]? = some d') :
    d'.ClashFree ↔ d.ClashFree ∧ (d'.imports ≠ d.imports →
      ∀ name ∈ (Import.ofModule injector.settings.annotationModule).binding?,
        name ∉ d.bindings) := by
  have himports := importedIn_of_run h hd hd'
  split at himports
  · have hgained : d'.imports ≠ d.imports := himports ▸ injector.withImport_imports_ne d
    rw [Document.clashFree_append himports, imp_iff_right hgained]
  · rw [Document.ClashFree, Document.ClashFree, Document.bindings, himports, ← Document.bindings]
    exact (and_iff_left fun hgained => absurd rfl hgained).symm

end Injector

/-! ## Other modules in a document -/

/-- A document that defines `Count` and asks for it, with an import beside the provider's. -/
def Document.countBeside (other : Import) : Document :=
  { Document.countCaller with
    imports := Document.countCaller.imports ++ [other]
    definitions := (Document.countDefiner "main.bal").definitions }

/-- The package of this document. -/
def Package.countBeside (other : Import) : Package :=
  ⟨[⟨⟨"acme", "app", "0.1.0"⟩, [.countBeside other], []⟩], 0⟩

/-- The document gets the import unless the other one is of the annotation module. -/
theorem run_countBeside {other : Import} (hother : other.refersTo ⟨"ballerina", "ai"⟩ = false) :
    ∃ r p' d', Injector.run {} (.countBeside other) = (.ok r, p') ∧ p'.documents[0]? = some d' ∧
      d'.imports = (Document.countBeside other).imports ++ [.ofModule ⟨"ballerina", "ai"⟩] := by
  have hdues : Injector.duesOf {} (.countBeside other) = [(Schema.ofKind .integer).compact] := rfl
  have hrun := Injector.run_of_readable (Nat.lt_irrefl 0)
    (Injector.readable_of_duesOf_eq hdues (by decide))
  have hd : (Package.countBeside other).documents[0]? = some (.countBeside other) := rfl
  obtain ⟨d', hd'⟩ := Injector.exists_getElem?_of_run hrun hd
  have habsent : (Document.countBeside other).annotationAlias {} = .absent := by
    have hprovider : (Import.ofModule ⟨"ballerinax", "ai.openai"⟩).refersTo ⟨"ballerina", "ai"⟩ =
        false := by decide
    simp [Document.annotationAlias, Document.countBeside, Document.countCaller, Document.caller,
      hprovider, hother]
  have himports := Injector.importedIn_of_run hrun hd hd'
  rw [if_pos ⟨habsent, by simp, _, List.mem_of_getElem? hd, List.cons_ne_nil _ _, rfl⟩] at himports
  exact ⟨_, _, d', hrun, hd', himports⟩

/-- Beside a module with another last segment the import clashes with nothing. -/
theorem clashFree_countBeside_llm : ∃ r p' d',
    Injector.run {} (.countBeside (.ofPath "acme" "llm")) = (.ok r, p') ∧
      p'.documents[0]? = some d' ∧ d'.ClashFree ∧
      d'.imports.map Import.binding? = [some "openai", some "llm", some "ai"] := by
  have hother : (Import.ofPath "acme" "llm").refersTo ⟨"ballerina", "ai"⟩ = false := by decide
  obtain ⟨r, p', d', hrun, hd', himports⟩ := run_countBeside hother
  have hfree := (Injector.clashFree_of_run_iff hrun rfl hd').2 ⟨by decide, fun _ => by decide⟩
  exact ⟨r, p', d', hrun, hd', hfree, by rw [himports]; decide⟩

/-- Beside a module of the same last segment two imports bind it. -/
theorem not_clashFree_countBeside_ai : ∃ r p' d',
    (∀ d ∈ (Package.countBeside (.ofPath "acme" "ai")).documents, d.ClashFree) ∧
      Injector.run {} (.countBeside (.ofPath "acme" "ai")) = (.ok r, p') ∧ d' ∈ p'.documents ∧
      d'.imports.map Import.binding? = [some "openai", some "ai", some "ai"] ∧ ¬ d'.ClashFree := by
  have hother : (Import.ofPath "acme" "ai").refersTo ⟨"ballerina", "ai"⟩ = false := by decide
  obtain ⟨r, p', d', hrun, hd', himports⟩ := run_countBeside hother
  refine ⟨r, p', d', by decide, hrun, List.mem_of_getElem? hd', by rw [himports]; decide, ?_⟩
  rw [Document.clashFree_append himports]
  decide

end ResponseSchema
