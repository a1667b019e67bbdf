/-
  Json — a text has one value.

  The reader finds the end of a value by itself, so it also shows that no text of
  a value goes on as that of another (`render_append_inj`).  It forgets repeated
  names; to compare values with all their members, their texts are taken apart
  from left to right (`render_inj`).

  As in reading back, values are without numbers.
-/
import ResponseSchema.Proofs.Json.RoundTrip

namespace ResponseSchema

namespace Json

open Reader

/-! ## Where a value ends -/

/-- The text of a value tells what the value reads as, and where it ends. -/
theorem render_append_inj {v w : Json} {rest rest' : List Char} (hv : v.All NotNumber)
    (hw : w.All NotNumber) (h : v.render ++ rest = w.render ++ rest') :
    v.render = w.render ∧ v.dedup = w.dedup ∧ rest = rest' := by
  -- one reader that goes deep enough for both
  have hread := value_render v (max v.depth w.depth) rest hv
  have hread' := value_render w (max v.depth w.depth) rest' hw
  rw [upTo, if_pos (Nat.le_max_left _ _)] at hread
  rw [← h, hread, upTo, if_pos (Nat.le_max_right _ _), Except.ok.injEq, Prod.mk.injEq] at hread'
  obtain ⟨hdedup, rfl⟩ := hread'
  exact ⟨List.append_cancel_right h, hdedup, rfl⟩

theorem quote_append_inj {s t : String} {rest rest' : List Char}
    (h : quote s ++ rest = quote t ++ rest') : s = t ∧ rest = rest' := by
  simp only [quote, List.cons_append, List.append_assoc, List.cons.injEq, true_and,
    List.nil_append] at h
  have hread := stringRest_escape s rest
  rw [h, stringRest_escape t rest', Except.ok.injEq, Prod.mk.injEq] at hread
  exact ⟨hread.1.symm, hread.2.symm⟩

/-! ## Values -/

theorem dedup_of_render {v w : Json} (hv : v.All NotNumber) (hw : w.All NotNumber)
    (h : v.render = w.render) : v.dedup = w.dedup :=
  (render_append_inj hv hw (congrArg (· ++ []) h)).2.1

theorem array_of_dedup {vs : List Json} {w : Json} (h : (array vs).dedup = w.dedup) :
    ∃ ws, w = array ws := by
  cases w <;> simp_all [dedup]

theorem object_of_dedup {ms : List (String × Json)} {w : Json} (h : (object ms).dedup = w.dedup) :
    ∃ ns, w = object ns := by
  cases w <;> simp_all [dedup]

/-- After the opening bracket, an element does not look like the end. -/
theorem render_array_nil_ne {v : Json} {vs : List Json} (hv : v.All NotNumber) :
    (array []).render ≠ (array (v :: vs)).render := by
  obtain ⟨c, cs, hc, -, hclose⟩ := render_head v hv
  rw [render, render, hc]
  intro h
  exact hclose (List.cons.inj (List.cons.inj h).2).1.symm

mutual

/-- **Values with one text are the same.** -/
theorem render_inj : ∀ v w : Json, v.All NotNumber → w.All NotNumber → v.render = w.render → v = w
  | null, w, hv, hw, h => by
    have := dedup_of_render hv hw h
    cases w <;> simp_all [dedup]
  | bool _, w, hv, hw, h => by
    have := dedup_of_render hv hw h
    cases w <;> simp_all [dedup]
  | .number n, _, hv, _, _ => absurd rfl (hv n)
  | string _, w, hv, hw, h => by
    have := dedup_of_render hv hw h
    cases w <;> simp_all [dedup]
  | array [], w, hv, hw, h => by
    obtain ⟨_ | ⟨w, ws⟩, rfl⟩ := array_of_dedup (dedup_of_render hv hw h)
    · rfl
    · have ⟨hw, _⟩ := List.forall_mem_cons.1 ((all_array _).1 hw).2
      exact absurd h (render_array_nil_ne hw)
  | array (v :: vs), w, hv, hw, h => by
    have ⟨hv', hvs⟩ := List.forall_mem_cons.1 ((all_array _).1 hv).2
    obtain ⟨_ | ⟨w, ws⟩, rfl⟩ := array_of_dedup (dedup_of_render hv hw h)
    · exact absurd h.symm (render_array_nil_ne hv')
    · have ⟨hw', hws⟩ := List.forall_mem_cons.1 ((all_array _).1 hw).2
      rw [render, render, List.cons.injEq] at h
      obtain ⟨head, -, tail⟩ := render_append_inj hv' hw' h.2
      rw [render_inj v w hv' hw' head, renderElements_inj vs ws hvs hws tail]
  | object [], w, hv, hw, h => by
    obtain ⟨_ | ⟨⟨n, w⟩, ns⟩, rfl⟩ := object_of_dedup (dedup_of_render hv hw h)
    · rfl
    · simp [render, quote] at h
  | object ((m, v) :: ms), w, hv, hw, h => by
    have ⟨hv', hms⟩ := List.forall_mem_cons.1 ((all_object _).1 hv).2
    obtain ⟨_ | ⟨⟨n, w⟩, ns⟩, rfl⟩ := object_of_dedup (dedup_of_render hv hw h)
    · simp [render, quote] at h
    · have ⟨hw', hns⟩ := List.forall_mem_cons.1 ((all_object _).1 hw).2
      rw [render, render, List.cons.injEq] at h
      obtain ⟨rfl, hvalue⟩ := quote_append_inj h.2
      obtain ⟨head, -, tail⟩ := render_append_inj hv' hw' (List.cons.inj hvalue).2
      rw [render_inj v w hv' hw' head, renderMembers_inj ms ns hms hns tail]

theorem renderElements_inj : ∀ vs ws : List Json, (∀ v ∈ vs, v.All NotNumber) →
    (∀ w ∈ ws, w.All NotNumber) → renderElements vs = renderElements ws → vs = ws
  | [], [], _, _, _ => rfl
  | [], _ :: _, _, _, h => by simp [renderElements] at h
  | _ :: _, [], _, _, h => by simp [renderElements] at h
  | v :: vs, w :: ws, hv, hw, h => by
    rw [List.forall_mem_cons] at hv hw
    rw [renderElements, renderElements, List.cons.injEq] at h
    obtain ⟨head, -, tail⟩ := render_append_inj hv.1 hw.1 h.2
    rw [render_inj v w hv.1 hw.1 head, renderElements_inj vs ws hv.2 hw.2 tail]

theorem renderMembers_inj : ∀ ms ns : List (String × Json), (∀ e ∈ ms, e.2.All NotNumber) →
    (∀ e ∈ ns, e.2.All NotNumber) → renderMembers ms = renderMembers ns → ms = ns
  | [], [], _, _, _ => rfl
  | [], _ :: _, _, _, h => by simp [renderMembers] at h
  | _ :: _, [], _, _, h => by simp [renderMembers] at h
  | (m, v) :: ms, (n, w) :: ns, hv, hw, h => by
    rw [List.forall_mem_cons] at hv hw
    rw [renderMembers, renderMembers, List.cons.injEq] at h
    obtain ⟨rfl, hvalue⟩ := quote_append_inj h.2
    obtain ⟨head, -, tail⟩ := render_append_inj hv.1 hw.1 (List.cons.inj hvalue).2
    rw [render_inj v w hv.1 hw.1 head, renderMembers_inj ms ns hv.2 hw.2 tail]

end

theorem compact_inj {v w : Json} (hv : v.All NotNumber) (hw : w.All NotNumber)
    (h : v.compact = w.compact) : v = w :=
  render_inj v w hv hw (String.ofList_injective h)

end Json

end ResponseSchema
