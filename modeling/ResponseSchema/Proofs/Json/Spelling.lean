/-
  Json — the texts of values.

  A value has many texts: blanks may stand between tokens, and a character of a string
  may be escaped in several ways.  A `Spelling` says which texts stand for which values.

  * `Padded`, `Run`, `Enclosed`, `Member`: how texts are put together;
  * `CharText`, `NameText`, `StringText`: strings, with what they stand for;
  * `AnyValue`: every value as far as its form goes, numbers of any size and surrogates
    that stand alone included;
  * `nameText_escape`, `enclosed_members`: compact texts are among these texts.
-/
import ResponseSchema.Json.Printer
import ResponseSchema.Json.Text
import Mathlib.Tactic.Common

namespace ResponseSchema

namespace Json

open Reader

/-- Which texts stand for which values. -/
abbrev Spelling (α : Type) := List Char → α → Prop

variable {α β ι : Type}

/-! ## Texts put together -/

/-- Nothing but blanks. -/
def Blanks (cs : List Char) : Prop :=
  ∀ c ∈ cs, isBlank c

instance (cs : List Char) : Decidable (Blanks cs) :=
  List.decidableBAll (fun c => isBlank c) cs

/-- A text with blanks before it. -/
def Padded (Text : Spelling α) : Spelling α := fun cs a =>
  ∃ b v, cs = b ++ v ∧ Blanks b ∧ Text v a

/-- Texts one right after the other. -/
inductive Run (Item : Spelling α) : Spelling (List α)
  | nil : Run Item [] []
  | cons {v cs : List Char} {a : α} {as : List α} :
    Item v a → Run Item cs as → Run Item (v ++ cs) (a :: as)

/-- A text after a comma or a colon. -/
def After (sign : Char) (Text : Spelling α) : Spelling α := fun cs a =>
  ∃ b v, cs = b ++ sign :: v ∧ Blanks b ∧ Padded Text v a

/-- Texts with commas between them, up to a closing bracket. -/
inductive Enclosed (closing : Char) (Item : Spelling α) : Spelling (List α)
  | empty {b : List Char} : Blanks b → Enclosed closing Item (b ++ [closing]) []
  | items {v cs b : List Char} {a : α} {as : List α} : Padded Item v a →
    Run (After ',' Item) cs as → Blanks b → Enclosed closing Item (v ++ (cs ++ (b ++ [closing]))) (a :: as)

/-- A member of an object, its value spelled as its name asks for.  `Name` is what stands between
    the quotes. -/
def Member (Name : Spelling ι) (Value : ι → Spelling α) : Spelling α := fun cs a =>
  ∃ i n v, cs = '"' :: (n ++ '"' :: v) ∧ Name n i ∧ After ':' (Value i) v a

/-! ## Strings -/

/-- Four hexadecimal digits and their number. -/
inductive HexDigits : Spelling Nat
  | mk {a b c d : Char} {i j k l : Nat} : hexValue? a = some i → hexValue? b = some j →
    hexValue? c = some k → hexValue? d = some l →
    HexDigits [a, b, c, d] (((i * 16 + j) * 16 + k) * 16 + l)

/-- The character that two surrogates stand for. -/
def pairedChar (leading trailing : Nat) : Char :=
  Char.ofNat ((leading - 0xD800) * 0x400 + (trailing - 0xDC00) + 0x10000)

/-- A character of a string: as it is, or escaped by a letter, by its number or by the numbers of
    two surrogates. -/
inductive CharText : Spelling Char
  | plain {c : Char} : c ≠ '"' → c ≠ '\\' → ¬ c.toNat < 0x20 → CharText [c] c
  | letter {e c : Char} : shortEscape? e = some c → CharText ['\\', e] c
  | code {ds : List Char} {n : Nat} : HexDigits ds n → isLeading n = false → isTrailing n = false →
    CharText ('\\' :: 'u' :: ds) (Char.ofNat n)
  | pair {ds ds' : List Char} {n n' : Nat} : HexDigits ds n → HexDigits ds' n' → isLeading n →
    isTrailing n' → CharText ('\\' :: 'u' :: (ds ++ '\\' :: 'u' :: ds')) (pairedChar n n')

/-- What stands between the quotes of a string. -/
def NameText : Spelling String := fun cs s =>
  Run CharText cs s.toList

/-- A string with its quotes. -/
def StringText : Spelling String := fun cs s =>
  ∃ n, cs = '"' :: (n ++ ['"']) ∧ NameText n s

/-- A piece of a string of which only the form counts; a surrogate may stand alone. -/
inductive CharForm : Spelling Unit
  | plain {c : Char} : c ≠ '"' → c ≠ '\\' → ¬ c.toNat < 0x20 → CharForm [c] ()
  | letter {e c : Char} : shortEscape? e = some c → CharForm ['\\', e] ()
  | code {ds : List Char} {n : Nat} : HexDigits ds n → CharForm ('\\' :: 'u' :: ds) ()

/-! ## Numbers -/

/-- At least one digit. -/
structure Digits (cs : List Char) : Prop where
  ne_nil : cs ≠ []
  isDigit : ∀ c ∈ cs, c.isDigit

/-- The digits of an integer: a zero stands alone. -/
structure Whole (cs : List Char) : Prop extends Digits cs where
  zero : cs.head? = some '0' → cs = ['0']

/-- Digits after a point, or nothing. -/
inductive Fraction : List Char → Prop
  | none : Fraction []
  | point {ds : List Char} : Digits ds → Fraction ('.' :: ds)

/-- The sign of an exponent, or nothing. -/
inductive ExponentSign : List Char → Prop
  | none : ExponentSign []
  | plus : ExponentSign ['+']
  | minus : ExponentSign ['-']

/-- An exponent, or nothing. -/
inductive Exponent : List Char → Prop
  | none : Exponent []
  | mark {e : Char} {sign ds : List Char} : e = 'e' ∨ e = 'E' → ExponentSign sign → Digits ds →
    Exponent (e :: (sign ++ ds))

/-- A number without its sign. -/
inductive Unsigned : List Char → Prop
  | mk {whole fraction exponent : List Char} : Whole whole → Fraction fraction →
    Exponent exponent → Unsigned (whole ++ (fraction ++ exponent))

/-! ## Values of which only the form counts -/

/-- A value without containers. -/
inductive ScalarForm : Spelling Unit
  | null : ScalarForm ['n', 'u', 'l', 'l'] ()
  | true : ScalarForm ['t', 'r', 'u', 'e'] ()
  | false : ScalarForm ['f', 'a', 'l', 's', 'e'] ()
  | string {cs : List Char} {us : List Unit} : Run CharForm cs us →
    ScalarForm ('"' :: (cs ++ ['"'])) ()
  | number {cs : List Char} : Unsigned cs → ScalarForm cs ()
  | negative {cs : List Char} : Unsigned cs → ScalarForm ('-' :: cs) ()

/-- A value with values of the given form inside it. -/
inductive ValueOf (Item : Spelling Unit) : Spelling Unit
  | scalar {cs : List Char} : ScalarForm cs () → ValueOf Item cs ()
  | array {cs : List Char} {us : List Unit} : Enclosed ']' Item cs us → ValueOf Item ('[' :: cs) ()
  | object {cs : List Char} {us : List Unit} :
    Enclosed '\x7d' (Member (Run CharForm) fun _ => Item) cs us → ValueOf Item ('\x7b' :: cs) ()

/-- A value with fewer than so many containers inside each other. -/
def ValueWithin : Nat → Spelling Unit
  | 0 => fun _ _ => False
  | n + 1 => ValueOf (ValueWithin n)

/-- A value of any depth. -/
def AnyValue : Spelling Unit := fun cs u =>
  ∃ n, ValueWithin n cs u

/-! ## First steps -/

theorem Padded.of_text {Text : Spelling α} {cs : List Char} {a : α} (h : Text cs a) :
    Padded Text cs a :=
  ⟨[], cs, rfl, nofun, h⟩

theorem Run.length_le {Item : Spelling α} (hItem : ∀ v a, Item v a → v ≠ []) {cs : List Char}
    {as : List α} (h : Run Item cs as) : as.length ≤ cs.length := by
  induction h with
  | nil => exact Nat.le_refl _
  | cons hv _ ih =>
    have hpos := List.length_pos_iff.2 (hItem _ _ hv)
    rw [List.length_cons, List.length_append]
    omega

/-- A run of texts is a run of other texts if each of them is, as long as it is. -/
theorem Run.imp {Item : Spelling α} {Item' : Spelling β} {f : α → β} {cs : List Char} {as : List α}
    (h : Run Item cs as) (hItem : ∀ v a, v.length ≤ cs.length → Item v a → Item' v (f a)) :
    Run Item' cs (as.map f) := by
  induction h with
  | nil => exact .nil
  | cons hv _ ih =>
    simp only [List.length_append] at hItem
    exact .cons (hItem _ _ (by omega) hv) (ih fun v a hle => hItem v a (by omega))

theorem Padded.imp {Text : Spelling α} {Text' : Spelling β} {f : α → β} {cs : List Char} {a : α}
    (h : Padded Text cs a) (hText : ∀ v, v.length ≤ cs.length → Text v a → Text' v (f a)) :
    Padded Text' cs (f a) := by
  obtain ⟨b, v, rfl, hb, hv⟩ := h
  exact ⟨b, v, rfl, hb, hText v (by simp) hv⟩

theorem Enclosed.imp {closing : Char} {Item : Spelling α} {Item' : Spelling β} {f : α → β}
    {cs : List Char} {as : List α} (h : Enclosed closing Item cs as)
    (hItem : ∀ v a, v.length < cs.length → Item v a → Item' v (f a)) :
    Enclosed closing Item' cs (as.map f) := by
  cases h with
  | empty hb => exact .empty hb
  | items hv hrun hb =>
    simp only [List.length_append, List.length_cons] at hItem
    refine .items (hv.imp fun v hle => hItem v _ (by omega)) (hrun.imp ?_) hb
    rintro _ a hle ⟨b, v, rfl, hb, hv⟩
    simp only [List.length_append, List.length_cons] at hle
    exact ⟨b, v, rfl, hb, hv.imp fun v hle' => hItem v a (by omega)⟩

/-! ## Compact texts -/

theorem hexDigits_control {c : Char} (h : c.toNat < 0x20) :
    HexDigits ['0', '0', hexDigit (c.toNat / 16), hexDigit (c.toNat % 16)] c.toNat := by
  have digit : ∀ n < 16, hexValue? (hexDigit n) = some n := by decide
  have hzero : hexValue? '0' = some 0 := rfl
  have hmk := HexDigits.mk hzero hzero (digit (c.toNat / 16) (by omega))
    (digit (c.toNat % 16) (by omega))
  have hnumber : ((0 * 16 + 0) * 16 + c.toNat / 16) * 16 + c.toNat % 16 = c.toNat := by omega
  rwa [hnumber] at hmk

theorem charText_escapeChar (c : Char) : CharText (escapeChar c) c := by
  rw [escapeChar]
  split
  · next h => subst h; exact .letter rfl
  next hquote =>
  split
  · next h => subst h; exact .letter rfl
  next hbackslash =>
  split
  · next h => subst h; exact .letter rfl
  split
  · next h => subst h; exact .letter rfl
  split
  · next h => subst h; exact .letter rfl
  split
  · next h => subst h; exact .letter rfl
  split
  · next h => subst h; exact .letter rfl
  split
  · next h =>
    have hcode := CharText.code (hexDigits_control h) (by simp [isLeading]; omega)
      (by simp [isTrailing]; omega)
    rwa [Char.ofNat_toNat] at hcode
  next hcontrol => exact .plain hquote hbackslash hcontrol

theorem nameText_escape (s : String) : NameText (escape s.toList) s := by
  have go : ∀ cs : List Char, Run CharText (escape cs) cs := by
    intro cs
    induction cs with
    | nil => exact .nil
    | cons c cs ih => exact .cons (charText_escapeChar c) ih
  exact go s.toList

theorem stringText_quote (s : String) : StringText (quote s) s :=
  ⟨escape s.toList, rfl, nameText_escape s⟩

/-- A member as it stands in a compact text. -/
theorem member_quote {Value : String → Spelling α} {name : String} {v : List Char} {a : α}
    (h : Value name v a) : Member NameText Value (quote name ++ ':' :: v) a :=
  ⟨name, escape name.toList, ':' :: v, by simp [quote], nameText_escape name, [], v, rfl, nofun,
    .of_text h⟩

/-- **The compact text of an object has its members in order.** -/
theorem enclosed_members {Item : Spelling α} {ms : List (String × Json)} {as : List α}
    (h : List.Forall₂ (fun m a => Item (quote m.1 ++ ':' :: m.2.render) a) ms as) :
    ∃ cs, (object ms).render = '\x7b' :: cs ∧ Enclosed '\x7d' Item cs as := by
  have rest : ∀ {ms : List (String × Json)} {as : List α},
      List.Forall₂ (fun m a => Item (quote m.1 ++ ':' :: m.2.render) a) ms as →
        ∃ cs, renderMembers ms = cs ++ ['\x7d'] ∧ Run (After ',' Item) cs as := by
    intro ms as h
    induction h with
    | nil => exact ⟨[], rfl, .nil⟩
    | @cons m a ms as hm _ ih =>
      obtain ⟨cs, hcs, hrun⟩ := ih
      refine ⟨_, ?_, .cons ⟨[], _, rfl, nofun, .of_text hm⟩ hrun⟩
      simp [renderMembers, hcs]
  cases h with
  | nil => exact ⟨['\x7d'], by rw [render], .empty (b := []) nofun⟩
  | cons hm hms =>
    obtain ⟨cs, hcs, hrun⟩ := rest hms
    refine ⟨_, ?_, .items (.of_text hm) hrun (b := []) nofun⟩
    simp [render, hcs]

end Json

end ResponseSchema
