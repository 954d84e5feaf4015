import Mathlib.Data.List.DropRight
import StreamLexer.Proofs.LineReader.Cuts
import StreamLexer.Proofs.Munch.Scans

/-! Tokens of bytes that are put together. No token reaches across a place where the bytes before and behind do not
belong to one run, so the tokens of both parts are the tokens of the whole. A line feed is such a place: the tokens
of a text are the tokens of its lines. Where the seam cuts a run, the tokens on both sides of it are pieces of one
token, and all other tokens stay. -/
namespace StreamLexer.Munch

/-- Whether two bytes side by side belong to one run. -/
def Joins (b c : UInt8) : Prop := (IsWord b ∧ IsWord c) ∨ (IsNumber b ∧ IsNumber c)

/-- The bytes at the seam of two byte strings do not belong to one run. -/
def Apart (front back : List UInt8) : Prop := ∀ b ∈ front.getLast?, ∀ c ∈ back.head?, ¬ Joins b c

/-- Only the end of the bytes in front matters. -/
theorem Apart.of_append (run : List UInt8) {rest back : List UInt8} (h : Apart (run ++ rest) back) :
    Apart rest back := by
  intro b hb
  refine h b ?_
  rw [Option.mem_def] at hb
  simp [List.getLast?_append, hb]

/-- A run that ends where it should still ends there with more bytes at hand: behind it stand the rest of the bytes
in front, or the seam. -/
theorem Apart.head_append {accept : UInt8 → Prop} {run rest back : List UInt8} (h : Apart (run ++ rest) back)
    (hjoins : ∀ b c, accept b → accept c → Joins b c) (hne : run ≠ []) (hrun : ∀ b ∈ run, accept b)
    (hend : ∀ c ∈ rest.head?, ¬ accept c) : ∀ c ∈ (rest ++ back).head?, ¬ accept c := by
  intro c hc haccept
  cases rest with
  | cons d rest => exact hend c hc haccept
  | nil =>
    have hlast := List.getLast?_eq_some_getLast hne
    have hmem := hrun _ (List.getLast_mem hne)
    rw [List.append_nil] at h
    exact h _ hlast c hc (hjoins _ c hmem haccept)

/-- Tokens stay as they are when the bytes at the seam do not belong to one run. -/
theorem Scans.append {front back : List UInt8} {ts us : List Token} (h : Scans front ts) (hback : Scans back us)
    (hseam : Apart front back) : Scans (front ++ back) (ts ++ us) := by
  induction h with
  | nil => exact hback
  | @blank b rest ts hblank _ ih => exact .blank hblank (ih (.of_append [b] hseam))
  | word hne hrun hend _ ih =>
    have hend' := hseam.head_append (fun _ _ hb hc => .inl ⟨hb, hc⟩) hne hrun hend
    rw [List.append_assoc]
    exact .word hne hrun hend' (ih (.of_append _ hseam))
  | number hne hrun hend _ ih =>
    have hend' := hseam.head_append (fun _ _ hb hc => .inr ⟨hb, hc⟩) hne hrun hend
    rw [List.append_assoc]
    exact .number hne hrun hend' (ih (.of_append _ hseam))
  | @symbol b kind rest ts hkind _ ih => exact .symbol hkind (ih (.of_append [b] hseam))
  | @illegal b rest ts hblank hword hnumber hsymbol _ ih =>
    exact .illegal hblank hword hnumber hsymbol (ih (.of_append [b] hseam))

theorem tokens_append_of_apart {front back : List UInt8} (h : Apart front back) :
    tokens (front ++ back) = tokens front ++ tokens back :=
  ((scans_tokens front).append (scans_tokens back) h).eq_tokens.symm

/-! A run that the seam cuts. Words and numbers differ only in the class of their bytes and in what is made of the
text, so both are read by one lemma. -/

section
variable {accept : UInt8 → Bool} {token : String → Token} {front back : List UInt8} {b c : UInt8}

/-- The run at the end of a byte string is apart from the bytes before it, whatever follows. -/
theorem apart_rtakeWhile (hjoins : ∀ b c, Joins b c → accept c = true → accept b = true)
    (hne : front.rtakeWhile accept ≠ []) (more : List UInt8) :
    Apart (front.rdropWhile accept) (front.rtakeWhile accept ++ more) := by
  intro b hb c hc hbc
  rw [List.head?_append_of_ne_nil _ hne] at hc
  have haccept : accept c = true := List.mem_rtakeWhile_imp (List.mem_of_mem_head? hc)
  have hlast := List.getLast?_eq_some_iff.1 hb
  obtain ⟨init, hinit⟩ := hlast
  have hnot := List.rdropWhile_last_not accept front (by simp [hinit])
  simp only [hinit, List.getLast_append_singleton] at hnot
  exact hnot (hjoins b c hbc haccept)

/-- A run that the seam cuts is the last token in front of it and the first one behind it, and one token in the
whole. -/
theorem tokens_append_run (hread : ∀ {run rest : List UInt8}, run ≠ [] → (∀ b ∈ run, accept b = true) →
      (∀ b ∈ rest.head?, ¬ accept b = true) → tokens (run ++ rest) = token (Byte.text run) :: tokens rest)
    (hjoins : ∀ b c, Joins b c → accept c = true → accept b = true)
    (hb : b ∈ front.getLast?) (hc : c ∈ back.head?) (hfront : accept b = true) (hback : accept c = true) :
    ∃ ts us text text', tokens front = ts ++ [token text] ∧ tokens back = token text' :: us ∧
      tokens (front ++ back) = ts ++ token (text ++ text') :: us := by
  have hne : front.rtakeWhile accept ≠ [] := by
    rw [ne_eq, List.rtakeWhile_eq_nil_iff]
    intro hnot
    obtain ⟨init, rfl⟩ := List.getLast?_eq_some_iff.1 hb
    simp [hfront] at hnot
  have hne' : back.takeWhile accept ≠ [] := by
    obtain ⟨rest, rfl⟩ := List.head?_eq_some_iff.1 hc
    simp [hback]
  have hrun : ∀ b ∈ front.rtakeWhile accept, accept b = true := fun _ => List.mem_rtakeWhile_imp
  have hrun' : ∀ b ∈ back.takeWhile accept, accept b = true := fun _ => List.mem_takeWhile_imp
  have hend : ∀ b ∈ ([] : List UInt8).head?, ¬ accept b = true := by simp
  have hend' := head?_dropWhile_not accept back
  refine ⟨tokens (front.rdropWhile accept), tokens (back.dropWhile accept), Byte.text (front.rtakeWhile accept),
    Byte.text (back.takeWhile accept), ?_, ?_, ?_⟩
  · have happ := tokens_append_of_apart (apart_rtakeWhile hjoins hne [])
    rw [hread hne hrun hend, List.append_nil, List.rdropWhile_append_rtakeWhile] at happ
    simpa [tokens] using happ
  · have happ := hread hne' hrun' hend'
    rwa [List.takeWhile_append_dropWhile] at happ
  · have hboth : ∀ b ∈ front.rtakeWhile accept ++ back.takeWhile accept, accept b = true :=
      List.forall_mem_append.2 ⟨hrun, hrun'⟩
    have hwhole : front ++ back = front.rdropWhile accept ++
        (front.rtakeWhile accept ++ (back.takeWhile accept ++ back.dropWhile accept)) := by
      rw [← List.append_assoc, List.rdropWhile_append_rtakeWhile, List.takeWhile_append_dropWhile]
    rw [hwhole, tokens_append_of_apart (apart_rtakeWhile hjoins hne _), ← List.append_assoc,
      hread (by simp [hne]) hboth hend', Byte.text_append]

end

theorem tokens_append_word {front back : List UInt8} {b c : UInt8} (hb : b ∈ front.getLast?) (hc : c ∈ back.head?)
    (hfront : IsWord b) (hback : IsWord c) :
    ∃ ts us text text', tokens front = ts ++ [.word text] ∧ tokens back = .word text' :: us ∧
      tokens (front ++ back) = ts ++ .word (text ++ text') :: us := by
  refine tokens_append_run tokens_word ?_ hb hc ((isLetter_iff b).2 hfront) ((isLetter_iff c).2 hback)
  rintro b c (⟨hb, -⟩ | ⟨-, hc⟩) hletter
  · exact (isLetter_iff b).2 hb
  · have hdigit := digit_excludes ((isDigit_iff c).2 hc)
    simp [hletter] at hdigit

theorem tokens_append_number {front back : List UInt8} {b c : UInt8} (hb : b ∈ front.getLast?)
    (hc : c ∈ back.head?) (hfront : IsNumber b) (hback : IsNumber c) :
    ∃ ts us text text', tokens front = ts ++ [.number text] ∧ tokens back = .number text' :: us ∧
      tokens (front ++ back) = ts ++ .number (text ++ text') :: us := by
  refine tokens_append_run tokens_number ?_ hb hc ((isDigit_iff b).2 hfront) ((isDigit_iff c).2 hback)
  rintro b c (⟨-, hc⟩ | ⟨hb, -⟩) hdigit
  · have hletter := digit_excludes hdigit
    simp [(isLetter_iff c).2 hc] at hletter
  · exact (isDigit_iff b).2 hb

/-- A line feed joins nothing. -/
theorem tokens_append_newline (line rest : List UInt8) :
    tokens (line ++ Byte.newline :: rest) = tokens line ++ tokens rest := by
  have hblank : Byte.isWhitespace Byte.newline = true := by decide
  have halone : ¬ IsWord Byte.newline ∧ ¬ IsNumber Byte.newline := by decide
  rw [tokens_append_of_apart, tokens_blank rest hblank]
  rintro b - c ⟨⟩ (⟨-, hword⟩ | ⟨-, hnumber⟩)
  · exact halone.1 hword
  · exact halone.2 hnumber

/-- The tokens of a text are those of its lines, one line after the other. -/
theorem tokens_of_cuts {bytes : List UInt8} {lines : List (List UInt8)} (h : LineReader.Cuts bytes lines) :
    tokens bytes = lines.flatMap tokens := by
  induction h with
  | nil => simp [tokens]
  | last => simp
  | line _ _ ih => rw [tokens_append_newline, ih, List.flatMap_cons]

theorem tokens_eq_flatMap_cut (bytes : List UInt8) : tokens bytes = (LineReader.cut bytes).flatMap tokens :=
  tokens_of_cuts (LineReader.cuts_cut bytes)

end StreamLexer.Munch
