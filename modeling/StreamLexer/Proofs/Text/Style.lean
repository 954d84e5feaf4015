import StreamLexer.Proofs.Text.Quoted
import StreamLexer.Text.Style

/-! Taking the styles off a text. Every style sequence begins with an escape character and none begins another, so in a
text whose only escape characters are those of such sequences the sequences can be told from the text around them. -/
namespace StreamLexer.Text.Style

/-- The sequences of bold, of cyan, of bold red, and of no style. -/
def sequences : List (List Char) := ["\x1b[1m", "\x1b[36m", "\x1b[1;31m", "\x1b[0m"].map String.toList

/-- Deletes the sequences from left to right. Of the last one that was met, some characters may be left to pass over. -/
def eraseFrom : Nat → List Char → List Char
  | _, [] => []
  | more + 1, _ :: cs => eraseFrom more cs
  | 0, c :: cs =>
    match sequences.find? fun w => w.isPrefixOf (c :: cs) with
    | some w => eraseFrom (w.length - 1) cs
    | none => c :: eraseFrom 0 cs

/-- The text without the sequences. -/
def erase (text : String) : String := .ofList (eraseFrom 0 text.toList)

/-- Text without an escape character. -/
def Plain (text : String) : Prop := '\x1b' ∉ text.toList

instance (text : String) : Decidable (Plain text) := inferInstanceAs (Decidable ('\x1b' ∉ text.toList))

/-- Characters without an escape, with sequences put in. -/
inductive Decorates : List Char → List Char → Prop
  | nil : Decorates [] []
  | plain {c : Char} {cs ds : List Char} (hc : c ≠ '\x1b') (tail : Decorates cs ds) : Decorates (c :: cs) (c :: ds)
  | sequence {w cs ds : List Char} (hw : w ∈ sequences) (tail : Decorates cs ds) : Decorates (w ++ cs) ds

namespace Decorates

variable {cs cs' ds ds' w : List Char}

theorem append (h : Decorates cs ds) (h' : Decorates cs' ds') : Decorates (cs ++ cs') (ds ++ ds') := by
  induction h with
  | nil => exact h'
  | plain hc tail ih => exact .plain hc ih
  | sequence hw tail ih =>
    rw [List.append_assoc]
    exact .sequence hw ih

theorem refl (h : '\x1b' ∉ cs) : Decorates cs cs := by
  induction cs with
  | nil => exact .nil
  | cons c cs ih =>
    rw [List.mem_cons, not_or, ← Ne, ne_comm] at h
    exact .plain h.1 (ih h.2)

theorem escape_notMem (h : Decorates cs ds) : '\x1b' ∉ ds := by
  induction h with
  | nil => exact List.not_mem_nil
  | plain hc tail ih => exact List.not_mem_cons_of_ne_of_not_mem hc.symm ih
  | sequence hw tail ih => exact ih

end Decorates

/-- A sequence is deleted as a whole, since it is no beginning of another one. -/
theorem eraseFrom_sequence {w : List Char} (hw : w ∈ sequences) (cs : List Char) :
    eraseFrom 0 (w ++ cs) = eraseFrom 0 cs := by
  simp only [sequences, List.map_cons, List.map_nil, List.mem_cons, List.not_mem_nil, or_false] at hw
  obtain rfl | rfl | rfl | rfl := hw <;> rfl

/-- A character other than the escape is kept, since every sequence begins with an escape. -/
theorem eraseFrom_plain {c : Char} (hc : c ≠ '\x1b') (cs : List Char) :
    eraseFrom 0 (c :: cs) = c :: eraseFrom 0 cs := by
  have hnone : sequences.find? (fun w => w.isPrefixOf (c :: cs)) = none := by
    rw [List.find?_eq_none]
    intro w hw hprefix
    have hhead : ∀ w ∈ sequences, w.head? = some '\x1b' := by decide
    cases w with
    | nil => cases hhead _ hw
    | cons d w =>
      cases hhead _ hw
      simp [List.isPrefixOf, Ne.symm hc] at hprefix
  rw [eraseFrom, hnone]

theorem Decorates.eraseFrom_eq {cs ds : List Char} (h : Decorates cs ds) : eraseFrom 0 cs = ds := by
  induction h with
  | nil => rfl
  | plain hc tail ih => rw [eraseFrom_plain hc, ih]
  | sequence hw tail ih => rw [eraseFrom_sequence hw, ih]

example : erase "\x1b[1;31merror:\x1b[0m [1m" = "error: [1m" := by decide

/-! Texts. -/

/-- Text that shows the same without colours. -/
def Paints (coloured plain : String) : Prop := Decorates coloured.toList plain.toList

/-- The escape is a control character. -/
theorem plain_of_isControl {text : String} (h : ∀ c ∈ text.toList, isControl c = false) : Plain text :=
  fun hmem => absurd (h _ hmem) (by decide)

theorem plain_append_iff {text text' : String} : Plain (text ++ text') ↔ Plain text ∧ Plain text' := by
  simp [Plain, not_or]

theorem plain_join_iff {texts : List String} : Plain (String.join texts) ↔ ∀ text ∈ texts, Plain text := by
  simp [Plain, String.toList_join]

namespace Paints

variable {s s' t t' : String}

theorem append (h : Paints s t) (h' : Paints s' t') : Paints (s ++ s') (t ++ t') := by
  rw [Paints, String.toList_append, String.toList_append]
  exact Decorates.append h h'

theorem refl (h : Plain t) : Paints t t := Decorates.refl h

theorem append_plain (h : Paints s t) (h' : Plain t') : Paints (s ++ t') (t ++ t') := h.append (refl h')

theorem erase_eq (h : Paints s t) : erase s = t := by
  rw [erase, Decorates.eraseFrom_eq h, String.ofList_toList]

theorem plain (h : Paints s t) : Plain t := Decorates.escape_notMem h

end Paints

/-- A style takes nothing from a text and adds nothing but sequences. -/
theorem paints_paint (style : Style) {text : String} (h : Plain text) :
    Paints (style.paint true text) (style.paint false text) := by
  have hstyle : (sequence style.code).toList ∈ sequences := by cases style <;> decide
  have hreset : reset.toList ∈ sequences := by decide
  have htail : Decorates (text.toList ++ reset.toList) text.toList := by
    have hend : Decorates reset.toList [] := by simpa using Decorates.sequence hreset .nil
    simpa using (Decorates.refl h).append hend
  simpa [Paints, paint, List.append_assoc] using Decorates.sequence hstyle htail

end StreamLexer.Text.Style
