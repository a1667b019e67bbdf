/-
  Settings — a text lies over the defaults.

  A text of settings gives some of them, each at most once, in any order and with other
  names in between (`Settings.Written`).

  * `ModuleRef.Written`, `reads_reader`: a module, as an object or as an array, is read;
  * `Setting`, `Settings.set`: one setting with its value, and putting it in, where the order
    does not count (`foldl_set_perm`);
  * `Draft.over_put`: putting a setting into what has been read is putting it into the result;
  * `ofText_overlay`: so the defaults are read with the settings of the text put in, and
    compact texts as what was written.
-/
import ResponseSchema.Settings.Reader
import ResponseSchema.Proofs.Json.Records
import Mathlib.Data.List.Nodup

namespace ResponseSchema

open Json (Spelling Blanks Padded Enclosed Member NameText StringText FieldText FieldsText AnyValue
  ValueOf ValueWithin quote enclosed_members member_quote stringText_quote fieldsText_compact)
open Json.Reader

/-! ## Modules -/

namespace ModuleRef

/-- A part of a module. -/
inductive Part
  | org (value : String)
  | name (value : String)

namespace Part

/-- The name of a part in a text. -/
def key : Part → String
  | org _ => "org"
  | name _ => "name"

/-- The texts of the value of a part. -/
def Spelled : Part → List Char → Prop
  | org s | name s => fun cs => StringText cs s

/-- The value of a part. -/
def toJson : Part → Json
  | org s | name s => .string s

end Part

/-- The parts of a module in their order. -/
def parts (m : ModuleRef) : List Part :=
  [.org m.org, .name m.name]

/-- A module as an object with both parts or as an array of the two. -/
inductive Written : Spelling ModuleRef
  | object {cs : List Char} {ps : List (Option Part)} {m : ModuleRef} :
    FieldsText Part.key Part.Spelled cs ps →
    ps.reduceOption = m.parts ∨ ps.reduceOption = m.parts.reverse → Written ('\x7b' :: cs) m
  | array {cs : List Char} {m : ModuleRef} : Enclosed ']' StringText cs [m.org, m.name] →
    Written ('[' :: cs) m

/-- Put a part into a draft. -/
def Draft.put (d : Draft) : Part → Draft
  | .org s => { d with org := some s }
  | .name s => { d with name := some s }

/-- The draft has no such part. -/
def Draft.Lacks (d : Draft) : Part → Prop
  | .org _ => d.org = none
  | .name _ => d.name = none

theorem Draft.readsFields :
    ReadsFields Draft.field Part.key Part.Spelled Draft.put Draft.Lacks where
  known {d p v rest} hlacks hv hrest := by
    cases p with
    | org | name => exact bind_ok (once_field hlacks reads_text hv hrest)
  other d name h := (if_neg (Ne.symm (h (.org "")))).trans (if_neg (Ne.symm (h (.name ""))))
  lacks_put {d p q} hne h := by
    cases p <;> cases q <;> first | exact absurd rfl hne | exact h

theorem lacks_empty (p : Part) : ({} : Draft).Lacks p := by
  cases p <;> rfl

theorem reader_passes_blanks : ∃ r, reader = (do blanks; r) := ⟨_, rfl⟩

theorem reader_object (cs : List Char) : reader ('\x7b' :: cs) =
    (do let d ← foldMembers Draft.field {}; d.complete : Json.Reader ModuleRef) cs := rfl

theorem reader_array (cs : List Char) : reader ('[' :: cs) = (do
    let org ← required (← element? true text)
    let name ← required (← element? false text)
    closeArray
    pure ⟨org, name⟩ : Json.Reader ModuleRef) cs := by
  rw [reader, structured, bind_ok (blanks_cons rfl cs), bind_ok (peek?_cons _ _)]
  simp only [bind_assoc, pure_bind]
  rfl

theorem starts_written : Starts Written := by
  rintro _ m (_ | _) <;> exact ⟨_, _, rfl, by decide⟩

theorem Part.spelled_toJson (p : Part) : p.Spelled p.toJson.render := by
  cases p with
  | org s | name s => exact stringText_quote s

theorem written_render (m : ModuleRef) : Written m.toJson.render m := by
  obtain ⟨cs, hcs, h⟩ := fieldsText_compact Part.key Part.spelled_toJson m.parts
  have hrender : m.toJson.render = '\x7b' :: cs := hcs
  rw [hrender]
  exact .object h (.inl rfl)

/-- **A module is read, however it is written.** -/
theorem reads_reader : Reads reader (Padded Written) := by
  refine reads_padded reader_passes_blanks starts_written ?_
  rintro _ m rest (@⟨cs, ps, _, h, hparts⟩ | @⟨cs, _, h⟩) hrest
  · have hnodup : (ps.reduceOption.map Part.key).Nodup := by
      rcases hparts with hparts | hparts <;> simp [hparts, parts, Part.key]
    have hread : foldMembers Draft.field {} (cs ++ rest) =
        .ok (ps.reduceOption.foldl Draft.put {}, rest) :=
      foldMembers_fields Draft.readsFields h lacks_empty hnodup rest
    rw [List.cons_append, reader_object, bind_ok hread]
    rcases hparts with hparts | hparts <;> rw [hparts] <;> rfl
  · cases h with
    | @items v _ b _ _ horg hrun hb =>
      cases hrun with
      | @cons v' _ _ _ hname hnil =>
        cases hnil
        have hends := ends_close (.inl rfl) hb rest
        have hfirst := element?_first starts_stringText reads_text horg
          (ends_afterComma hname (b ++ ']' :: rest))
        have hsecond := element?_afterComma reads_text hname hends
        simp only [List.cons_append, List.append_assoc, List.nil_append]
        rw [reader_array, bind_ok hfirst, bind_ok (required_some _ _), bind_ok hsecond,
          bind_ok (required_some _ _), bind_ok (closeArray_append hb rest)]
        rfl

end ModuleRef

/-! ## Settings -/

/-- A setting with its value. -/
inductive Setting
  | providerModule (value : ModuleRef)
  | providerVersion (value : String)
  | providerClass (value : String)
  | generateMethod (value : String)
  | annotationModule (value : ModuleRef)
  | annotationIdentifier (value : String)
  | defaultAlias (value : String)

namespace Setting

/-- The name of a setting in a text. -/
def name : Setting → String
  | providerModule _ => "provider_module"
  | providerVersion _ => "provider_version"
  | providerClass _ => "provider_class"
  | generateMethod _ => "generate_method"
  | annotationModule _ => "annotation_module"
  | annotationIdentifier _ => "annotation_identifier"
  | defaultAlias _ => "default_alias"

/-- The texts of the value of a setting. -/
def Spelled : Setting → List Char → Prop
  | providerModule m | annotationModule m => fun cs => ModuleRef.Written cs m
  | providerVersion s | providerClass s | generateMethod s | annotationIdentifier s
  | defaultAlias s => fun cs => StringText cs s

/-- The value of a setting. -/
def toJson : Setting → Json
  | providerModule m | annotationModule m => m.toJson
  | providerVersion s | providerClass s | generateMethod s | annotationIdentifier s
  | defaultAlias s => .string s

theorem spelled_toJson (f : Setting) : f.Spelled f.toJson.render := by
  cases f with
  | providerModule m | annotationModule m => exact ModuleRef.written_render m
  | providerVersion s | providerClass s | generateMethod s | annotationIdentifier s
  | defaultAlias s => exact stringText_quote s

end Setting

namespace Settings

/-- Replace one setting. -/
def set (s : Settings) : Setting → Settings
  | .providerModule m => { s with providerModule := m }
  | .providerVersion v => { s with providerVersion := v }
  | .providerClass c => { s with providerClass := c }
  | .generateMethod m => { s with generateMethod := m }
  | .annotationModule m => { s with annotationModule := m }
  | .annotationIdentifier i => { s with annotationIdentifier := i }
  | .defaultAlias a => { s with defaultAlias := a }

theorem set_comm {f g : Setting} (hne : f.name ≠ g.name) (s : Settings) :
    (s.set f).set g = (s.set g).set f := by
  cases f <;> cases g <;> first | exact absurd rfl hne | rfl

/-- The order of settings with different names does not count. -/
theorem foldl_set_perm {fs gs : List Setting} (h : fs.Perm gs)
    (hnodup : (fs.map Setting.name).Nodup) (s : Settings) : fs.foldl set s = gs.foldl set s := by
  refine h.foldl_eq' (fun f hf g hg s => ?_) s
  by_cases heq : f.name = g.name
  · rw [List.inj_on_of_nodup_map hnodup hf hg heq]
  · exact set_comm heq s

/-- Put a setting into a draft. -/
def Draft.put (d : Draft) : Setting → Draft
  | .providerModule m => { d with providerModule := some m }
  | .providerVersion v => { d with providerVersion := some v }
  | .providerClass c => { d with providerClass := some c }
  | .generateMethod m => { d with generateMethod := some m }
  | .annotationModule m => { d with annotationModule := some m }
  | .annotationIdentifier i => { d with annotationIdentifier := some i }
  | .defaultAlias a => { d with defaultAlias := some a }

/-- The draft has no such setting. -/
def Draft.Lacks (d : Draft) : Setting → Prop
  | .providerModule _ => d.providerModule = none
  | .providerVersion _ => d.providerVersion = none
  | .providerClass _ => d.providerClass = none
  | .generateMethod _ => d.generateMethod = none
  | .annotationModule _ => d.annotationModule = none
  | .annotationIdentifier _ => d.annotationIdentifier = none
  | .defaultAlias _ => d.defaultAlias = none

theorem Draft.readsFields :
    ReadsFields Draft.field Setting.name Setting.Spelled Draft.put Draft.Lacks where
  known {d f v rest} hlacks hv hrest := by
    cases f with
    | providerModule | annotationModule =>
      exact bind_ok (once_field hlacks ModuleRef.reads_reader hv hrest)
    | providerVersion | providerClass | generateMethod | annotationIdentifier | defaultAlias =>
      exact bind_ok (once_field hlacks reads_text hv hrest)
  other d name h := by
    have hne (f : Setting) : name ≠ f.name := Ne.symm (h f)
    exact (if_neg (hne (.providerModule ⟨"", ""⟩))).trans <|
      (if_neg (hne (.providerVersion ""))).trans <| (if_neg (hne (.providerClass ""))).trans <|
      (if_neg (hne (.generateMethod ""))).trans <|
      (if_neg (hne (.annotationModule ⟨"", ""⟩))).trans <|
      (if_neg (hne (.annotationIdentifier ""))).trans <| if_neg (hne (.defaultAlias ""))
  lacks_put {d f g} hne h := by
    cases f <;> cases g <;> first | exact absurd rfl hne | exact h

/-! ## Texts -/

theorem lacks_empty (f : Setting) : ({} : Draft).Lacks f := by
  cases f <;> rfl

theorem Draft.over_put (d : Draft) (f : Setting) (base : Settings) :
    (d.put f).over base = (d.over base).set f := by
  cases f <;> rfl

theorem Draft.over_foldl_put (fs : List Setting) (d : Draft) (base : Settings) :
    (fs.foldl Draft.put d).over base = fs.foldl set (d.over base) := by
  induction fs generalizing d with
  | nil => rfl
  | cons f fs ih => rw [List.foldl_cons, List.foldl_cons, ih, over_put]

/-- An object with settings and anything under other names, blanks around it. -/
def Written : Spelling (List (Option Setting)) := fun cs fs =>
  ∃ b v b', cs = b ++ '\x7b' :: (v ++ b') ∧ Blanks b ∧ Blanks b' ∧
    FieldsText Setting.name Setting.Spelled v fs

theorem ofText_written (text : String) (fs : List (Option Setting)) (h : Written text.toList fs)
    (hnodup : (fs.reduceOption.map Setting.name).Nodup) :
    ofText text = .ok (fs.reduceOption.foldl set {}) := by
  obtain ⟨b, v, b', htext, hb, hb', hv⟩ := h
  have hmembers : foldMembers Draft.field {} (v ++ b') =
      .ok (fs.reduceOption.foldl Draft.put {}, b') :=
    foldMembers_fields Draft.readsFields hv lacks_empty hnodup b'
  have hread : reader text.toList = .ok (fs.reduceOption.foldl Draft.put {}, b') := by
    rw [htext, reader, structured_object _ _ hb, hmembers]
  rw [ofText, readAll_ok hread hb']
  show Except.ok ((fs.reduceOption.foldl Draft.put {}).over {}) = _
  rw [Draft.over_foldl_put]
  rfl

/-! ## Compact texts -/

/-- The settings in their order. -/
def all (s : Settings) : List Setting :=
  [.providerModule s.providerModule, .providerVersion s.providerVersion,
    .providerClass s.providerClass, .generateMethod s.generateMethod,
    .annotationModule s.annotationModule, .annotationIdentifier s.annotationIdentifier,
    .defaultAlias s.defaultAlias]

theorem foldl_set_all (s base : Settings) : s.all.foldl set base = s := by
  simp only [all, List.foldl_cons, List.foldl_nil, set]

theorem written_compact (s : Settings) : Written s.toJson.compact.toList (s.all.map some) := by
  obtain ⟨cs, hcs, h⟩ := fieldsText_compact Setting.name Setting.spelled_toJson s.all
  have hrender : s.toJson.render = '\x7b' :: cs := hcs
  refine ⟨[], cs, [], ?_, nofun, nofun, h⟩
  rw [Json.compact, String.toList_ofList, hrender, List.append_nil, List.nil_append]

/-- **A text of settings lies over the defaults.**  The compact text of settings reads as these
    settings.  An object with some of the settings, in any order and none of them twice, and with
    anything under other names, reads as the defaults with these settings put in. -/
theorem ofText_overlay :
    (∀ s : Settings, ofText s.toJson.compact = .ok s) ∧
      ∀ (text : String) (fs : List (Option Setting)), Written text.toList fs →
        (fs.reduceOption.map Setting.name).Nodup →
          ofText text = .ok (fs.reduceOption.foldl set {}) := by
  refine ⟨fun s => ?_, ofText_written⟩
  have hnodup : ((s.all.map some).reduceOption.map Setting.name).Nodup := by
    show ["provider_module", "provider_version", "provider_class", "generate_method",
      "annotation_module", "annotation_identifier", "default_alias"].Nodup
    decide
  rw [ofText_written _ _ (written_compact s) hnodup]
  exact congrArg Except.ok (foldl_set_all s {})

/-- Two settings out of their order and a list under another name. -/
theorem ofText_overlay_outOfOrder :
    ofText
      " \x7b\"default_alias\":\"l\",\"x\":[null],\"provider_module\":\x7b\"org\":\"o\",\"name\":\"m\"\x7d\x7d" =
      .ok { defaultAlias := "l", providerModule := ⟨"o", "m"⟩ } := by
  have hlist : AnyValue (Json.array [.null]).render () := by
    have hitems : Enclosed ']' (ValueWithin 1)
        (['n', 'u', 'l', 'l'] ++ ([] ++ ([] ++ [']']))) [()] :=
      .items (.of_text (ValueOf.scalar .null)) .nil nofun
    exact ⟨2, ValueOf.array hitems⟩
  have hother : ∀ f, Setting.name f ≠ "x" := by
    rintro (_ | _) <;> simp [Setting.name]
  have hmembers : List.Forall₂ (fun m a => Member NameText (FieldText Setting.name Setting.Spelled)
        (quote m.1 ++ ':' :: m.2.render) a)
      [("default_alias", .string "l"), ("x", .array [.null]),
        ("provider_module", ModuleRef.toJson ⟨"o", "m"⟩)]
      [some (.defaultAlias "l"), none, some (.providerModule ⟨"o", "m"⟩)] :=
    .cons (member_quote (.field (f := Setting.defaultAlias "l") (stringText_quote "l"))) <|
    .cons (member_quote (.other hother hlist)) <|
    .cons (member_quote (.field (f := Setting.providerModule ⟨"o", "m"⟩)
      (ModuleRef.written_render _))) .nil
  obtain ⟨cs, hcs, hfields⟩ := enclosed_members hmembers
  refine ofText_overlay.2 _ _ ⟨[' '], cs, [], ?_, by decide, by decide, hfields⟩ (by decide)
  rw [← List.cons_append, ← hcs]
  decide +kernel

end Settings

end ResponseSchema
