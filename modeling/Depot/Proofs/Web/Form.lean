import Depot.Proofs.Text.Plain
import Depot.Web.Form

/-!
# Plain fields

A query of plain texts is read as the fields it was made of.
-/

namespace Depot.Web

open Text

/-- Characters that stand for themselves in a query. -/
def IsPlain (c : Char) : Prop := c.toNat < 128 ∧ c ≠ '%' ∧ c ≠ '+' ∧ c ≠ '&' ∧ c ≠ '='

instance : DecidablePred IsPlain := fun c =>
  inferInstanceAs (Decidable (c.toNat < 128 ∧ c ≠ '%' ∧ c ≠ '+' ∧ c ≠ '&' ∧ c ≠ '='))

/-- A text in which all characters stand for themselves. -/
def PlainText (chars : List Char) : Prop := ∀ c ∈ chars, IsPlain c

theorem plainText_of_all {chars : List Char} (h : chars.all fun c => IsPlain c) : PlainText chars := fun c hc =>
  of_decide_eq_true (List.all_eq_true.mp h c hc)

theorem plainText_of_subset {chars allowed : List Char} (hsub : ∀ c ∈ chars, c ∈ allowed) (h : PlainText allowed) :
    PlainText chars := fun c hc => h c (hsub c hc)

namespace PlainText

variable {chars name value : List Char}

theorem ascii (h : PlainText chars) : ∀ c ∈ chars, c.toNat < 128 := fun c hc => (h c hc).1

theorem not_mem (h : PlainText chars) {d : Char} (hd : ¬IsPlain d) : d ∉ chars := fun hmem => hd (h d hmem)

theorem decode_eq (h : PlainText chars) : Form.decode chars = String.ofList chars := by
  have hpercent : 37 ∉ asciiBytes chars := fun hmem =>
    h.not_mem (d := '%') (by decide) ((mem_asciiBytes (d := '%') h.ascii (by decide)).mp hmem)
  have hplus : 43 ∉ asciiBytes chars := fun hmem =>
    h.not_mem (d := '+') (by decide) ((mem_asciiBytes (d := '+') h.ascii (by decide)).mp hmem)
  have hsame : (asciiBytes chars).map (fun b => if b = 43 then 32 else b) = asciiBytes chars := by
    rw [List.map_congr_left (g := id), List.map_id]
    intro b hb
    apply if_neg
    rintro rfl
    exact hplus hb
  rw [Form.decode, utf8_ofList h.ascii, hsame, decode_of_not_mem hpercent, lossy_ofList h.ascii]

theorem field_eq (hname : PlainText name) (hvalue : PlainText value) :
    Form.field (name ++ '=' :: value) = (String.ofList name, String.ofList value) := by
  have hbefore : ∀ c ∈ name, (c != '=') = true := fun c hc => bne_iff_ne.mpr (hname c hc).2.2.2.2
  rw [Form.field, List.takeWhile_append_of_pos hbefore, List.dropWhile_append_of_pos hbefore]
  simp [hname.decode_eq, hvalue.decode_eq]

end PlainText

theorem parse_two {first second firstValue secondValue : List Char} (hfirst : PlainText first)
    (hfirstValue : PlainText firstValue) (hsecond : PlainText second) (hsecondValue : PlainText secondValue) :
    Form.parse (String.ofList (first ++ '=' :: firstValue ++ '&' :: (second ++ '=' :: secondValue))) =
      [(String.ofList first, String.ofList firstValue), (String.ofList second, String.ofList secondValue)] := by
  have hamp : ∀ {name value : List Char}, PlainText name → PlainText value → '&' ∉ name ++ '=' :: value := by
    intro name value hname hvalue hmem
    rcases List.mem_append.mp hmem with hleft | hright
    · exact hname.not_mem (by decide) hleft
    · rcases List.mem_cons.mp hright with heq | hright
      · exact absurd heq (by decide)
      · exact hvalue.not_mem (by decide) hright
  rw [Form.parse, String.toList_ofList, List.splitOn_append_cons_of_beq _ _ (by simp),
    List.splitOn_eq_singleton (hamp hfirst hfirstValue), List.splitOn_eq_singleton (hamp hsecond hsecondValue)]
  simp [hfirst.field_eq hfirstValue, hsecond.field_eq hsecondValue]

theorem required_eq {α : Type} {form : Form} {name text : String} {read : String → Option α} {value : α}
    (hfield : (form.filter fun f => f.1 == name) = [(name, text)]) (hread : read text = some value) :
    form.required name read = .ok value := by
  rw [Form.required, Form.optional, hfield]
  simp only [hread]
  rfl

end Depot.Web
