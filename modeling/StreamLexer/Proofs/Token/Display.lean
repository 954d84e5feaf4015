import StreamLexer.Proofs.Text.Quoted
import StreamLexer.Token.Printer

/-! The display form of tokens. It shows the kind up to the first colon and the quoted literal behind it, so it tells
all of a token, and it keeps to one line. -/
namespace StreamLexer.Token

/-- The characters of the display form. -/
theorem toList_display (t : Token) :
    t.display.toList = "Token<".toList ++ (t.kind.name.toList ++
      ':' :: ' ' :: '"' :: (Text.Quoted.encode t.literal.toList ++ ['"', '>'])) := by
  simp [display, Text.Quoted.quote]

theorem head?_display (t : Token) : t.display.toList.head? = some 'T' := by
  rw [toList_display]
  rfl

namespace Kind

theorem colon_notMem_name (k : Kind) : ':' ∉ k.name.toList := by
  have hall : ∀ k ∈ all, ':' ∉ k.name.toList := by decide
  exact hall k (mem_all k)

theorem isControl_of_mem_name {k : Kind} {c : Char} (h : c ∈ k.name.toList) : Text.isControl c = false := by
  have hall : ∀ k ∈ all, k.name.toList.any Text.isControl = false := by decide
  exact Text.isControl_of_mem (hall k (mem_all k)) h

end Kind

/-- Tokens that are displayed alike are the same, whatever their literals hold. -/
theorem display_injective {t u : Token} (h : t.display = u.display) : t = u := by
  have hchars := congrArg String.toList h
  rw [toList_display, toList_display, List.append_cancel_left_eq] at hchars
  obtain ⟨hname, hliteral⟩ :=
    Text.split_at_first (Kind.colon_notMem_name t.kind) (Kind.colon_notMem_name u.kind) hchars
  have hkind := Kind.name_injective (String.toList_injective hname)
  simp only [List.cons.injEq, true_and, List.append_cancel_right_eq] at hliteral
  have hliteral' := String.toList_injective (Text.Quoted.encode_injective hliteral)
  cases t
  cases u
  cases hkind
  cases hliteral'
  rfl

theorem isControl_of_mem_display {t : Token} {c : Char} (h : c ∈ t.display.toList) : Text.isControl c = false := by
  have hparts : t.display.toList = "Token<".toList ++ (t.kind.name.toList ++
      ([':', ' ', '"'] ++ (Text.Quoted.encode t.literal.toList ++ ['"', '>']))) := toList_display t
  simp only [hparts, List.mem_append] at h
  obtain h | h | h | h | h := h
  · exact Text.isControl_of_mem (by decide) h
  · exact Kind.isControl_of_mem_name h
  · exact Text.isControl_of_mem (by decide) h
  · exact Text.Quoted.isControl_of_mem_encode h
  · exact Text.isControl_of_mem (by decide) h

/-- The display form keeps to one line. -/
theorem newline_notMem_display (t : Token) : '\n' ∉ t.display.toList :=
  fun h => absurd (isControl_of_mem_display h) (by decide)

end StreamLexer.Token
