/-
  Types — one walk for several types.

  A walk keeps the names that it is inside of.  If a failure left a name behind, a later
  type with that name would seem to refer back to itself.

  * `run_synthesizeEach`: inside any names, each type of a list gets the answer that it
    gets alone, and the names are the same afterwards;
  * `synthesizeEach_reuse`: so one walk is as good as a new one for every type, whatever
    fails in between.
-/
import ResponseSchema.Ty.Synthesis

namespace ResponseSchema

namespace Ty

theorem run_synthesizeEach (phase : Phase) (ts : List Ty) (names : List String) :
    (synthesizeEach phase ts).run names = (ts.map (expand phase names), names) := by
  induction ts with
  | nil => rfl
  | cons t ts ih =>
    rw [synthesizeEach, StateT.run_bind, run_synthesize]
    show (((synthesizeEach phase ts).run names).map (expand phase names t :: ·) id) = _
    rw [ih]
    rfl

/-- **A walk can be used again**: through one walk, each type of a list gets the answer of a walk of
    its own, and wherever a walk starts, each call leaves the names as it found them. -/
theorem synthesizeEach_reuse (phase : Phase) :
    (∀ ts : List Ty, (synthesizeEach phase ts).run [] = (ts.map (schema phase), [])) ∧
      ∀ (names : List String) (t : Ty) (ts : List Ty),
        ((synthesize phase t).run.run names).2 = names ∧
          (synthesizeEach phase ts).run names =
            (ts.map fun t => ((synthesize phase t).run.run names).1, names) := by
  refine ⟨fun ts => ?_, fun names t ts => ⟨?_, ?_⟩⟩
  · rw [run_synthesizeEach, List.map_congr_left fun t _ => schema_eq_expand phase t]
  · rw [run_synthesize]
  · rw [run_synthesizeEach]
    simp only [run_synthesize]

-- after a shape that is outside the algebra and a name that refers back to itself, both of them
-- deep inside the name, the name is free again
example :
    let tree (t : Ty) := named "Tree" (record [("children", array (union [json, t]))]) []
    (synthesizeEach .build [tree (other "table"), tree (tree json), tree json]).run [] =
      ([.error (.unsupported (other "table")), .error (.recursive "Tree"),
        .ok (.objectOf [("children", .arrayOf (.ofAlternatives [.anyJson, .anyJson]))])], []) :=
  rfl

end Ty

end ResponseSchema
