import StreamLexer.Proofs.Repl.Session
import StreamLexer.Proofs.Token.Display

/-! Reading the output of a session back. The first character behind a prompt tells what comes: another prompt, a
token, or the closing line feed; and a token ends at its line feed, since there is none inside. So the output of a
session determines the tokens of every line. -/
namespace StreamLexer.Repl

/-- The characters that show the tokens of a line. -/
def lineChars (ts : List Token) : List Char := ts.flatMap fun t => t.display.toList ++ ['\n']

/-- The characters behind the first prompt. -/
def pageChars : List (List Token) → List Char
  | [] => ['\n']
  | ts :: shown => lineChars ts ++ (prompt.toList ++ pageChars shown)

theorem lineChars_cons (t : Token) (ts : List Token) :
    lineChars (t :: ts) = t.display.toList ++ '\n' :: lineChars ts := by
  simp [lineChars]

theorem toList_line (ts : List Token) :
    (String.join (ts.map fun t => t.display ++ "\n")).toList = lineChars ts := by
  induction ts with
  | nil => rfl
  | cons t ts ih =>
    rw [List.map_cons, String.join_cons, String.toList_append, ih, String.toList_append, lineChars_cons,
      List.append_cons]
    rfl

theorem toList_page (shown : List (List Token)) :
    (String.join (portions shown ++ ["\n"])).toList = prompt.toList ++ pageChars shown := by
  rw [portions, prompt, List.cons_append, String.join_cons, String.toList_append, List.append_cancel_left_eq]
  induction shown with
  | nil => rfl
  | cons ts shown ih =>
    rw [List.map_cons, List.cons_append, String.join_cons, String.toList_append, String.toList_append, toList_line, ih,
      List.append_assoc]
    rfl

theorem head?_lineChars_cons (t : Token) (ts : List Token) (rest : List Char) :
    (lineChars (t :: ts) ++ rest).head? = some 'T' := by
  have hhead := Token.head?_display t
  rw [lineChars_cons, List.append_assoc, List.head?_append, hhead]
  rfl

theorem head?_prompt (rest : List Char) : (prompt.toList ++ rest).head? = some '>' := rfl

/-- The tokens of a line end where the next prompt begins. -/
theorem lineChars_injective {ts us : List Token} {rest rest' : List Char}
    (h : lineChars ts ++ (prompt.toList ++ rest) = lineChars us ++ (prompt.toList ++ rest')) :
    ts = us ∧ rest = rest' := by
  -- a token begins with one letter and the prompt with another, so both lines end at the same token
  induction ts generalizing us with
  | nil =>
    cases us with
    | nil => exact ⟨rfl, List.append_cancel_left h⟩
    | cons u us =>
      have hhead := congrArg List.head? h
      rw [head?_lineChars_cons] at hhead
      exact absurd ((head?_prompt rest).symm.trans hhead) (by decide)
  | cons t ts ih =>
    cases us with
    | nil =>
      have hhead := congrArg List.head? h
      rw [head?_lineChars_cons] at hhead
      exact absurd (hhead.trans (head?_prompt rest')) (by decide)
    | cons u us =>
      simp only [lineChars_cons, List.append_assoc, List.cons_append] at h
      obtain ⟨hdisplay, hline⟩ :=
        Text.split_at_first (Token.newline_notMem_display t) (Token.newline_notMem_display u) h
      obtain ⟨rfl, hrest⟩ := ih hline
      rw [Token.display_injective (String.toList_injective hdisplay)]
      exact ⟨rfl, hrest⟩

/-- A line feed behind a prompt is the closing one. -/
theorem head?_pageChars_cons (ts : List Token) (shown : List (List Token)) :
    (pageChars (ts :: shown)).head? ≠ some '\n' := by
  cases ts with
  | nil => exact fun h => absurd ((head?_prompt (pageChars shown)).symm.trans h) (by decide)
  | cons t ts =>
    rw [pageChars, head?_lineChars_cons]
    decide

theorem pageChars_injective {shown shown' : List (List Token)} (h : pageChars shown = pageChars shown') :
    shown = shown' := by
  induction shown generalizing shown' with
  | nil =>
    cases shown' with
    | nil => rfl
    | cons us shown' => exact absurd (congrArg List.head? h).symm (head?_pageChars_cons us shown')
  | cons ts shown ih =>
    cases shown' with
    | nil => exact absurd (congrArg List.head? h) (head?_pageChars_cons ts shown)
    | cons us shown' =>
      obtain ⟨rfl, hrest⟩ := lineChars_injective h
      rw [ih hrest]

/-- The output of a session over an input without an early end tells the tokens of every line of the input, and
nothing else. Tokens that are displayed alike are the same, and no control character stands in the display. -/
theorem bytes_seen_eq_iff {source source' : Source} {b b' : Sink.Behaviour} (h : ∀ s ∈ source, s.breaks = false)
    (h' : ∀ s ∈ source', s.breaks = false) (hb : b.Reliable) (hb' : b'.Reliable) :
    ((seen source b).bytes = (seen source' b').bytes ↔
      (LineReader.cut source.bytes).map Munch.tokens = (LineReader.cut source'.bytes).map Munch.tokens) ∧
    (∀ t u : Token, t.display = u.display → t = u) ∧
    ∀ t : Token, ∀ c ∈ t.display.toList, Text.isControl c = false := by
  refine ⟨?_, fun t u => Token.display_injective, fun t c => Token.isControl_of_mem_display⟩
  rw [seen_of_clean hb (Source.lines_of_unbroken h), seen_of_clean hb' (Source.lines_of_unbroken h')]
  constructor
  · intro hbytes
    have hchars := congrArg String.toList (Text.utf8_injective hbytes)
    rw [toList_page, toList_page, List.append_cancel_left_eq] at hchars
    exact pageChars_injective hchars
  · intro htokens
    rw [htokens]

/-- A blank line more, which no token tells of: the outputs differ exactly if the tokens of the lines do. -/
theorem bytes_seen_eq_iff_blank :
    ((seen [.data [0x61, 0x0A, 0x0A] (some 1), .fail .interrupted] .patient).bytes =
        (seen [.data [0x61] none] ⟨some 2, none, true, true, none, .simple .other⟩).bytes ↔
      (LineReader.cut [0x61, 0x0A, 0x0A]).map Munch.tokens = (LineReader.cut [0x61]).map Munch.tokens) ∧
    (∀ t u : Token, t.display = u.display → t = u) ∧
    ∀ t : Token, ∀ c ∈ t.display.toList, Text.isControl c = false :=
  @bytes_seen_eq_iff [.data [0x61, 0x0A, 0x0A] (some 1), .fail .interrupted] [.data [0x61] none] .patient
    ⟨some 2, none, true, true, none, .simple .other⟩ (by decide) (by decide) Sink.Behaviour.reliable_patient ⟨rfl, rfl⟩

end StreamLexer.Repl
