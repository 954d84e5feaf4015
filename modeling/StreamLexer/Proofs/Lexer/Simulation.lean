import StreamLexer.Proofs.Lexer.Shows

/-! Each call of a lexer, seen on the stream that the lexer shows. A run, a token and an answer of the lexer are
the run, the token and the answer of the stream, and the lexer then shows the stream that is left. -/
namespace StreamLexer.Lexer

section
variable {accept : UInt8 → Bool} {l l' : Lexer} {literal : String} {b : UInt8}

theorem readWhile_done {held : Option Error} (h : l.cursor = .done held) :
    l.readWhile accept literal = (.ok literal, l) := by
  rw [readWhile]
  split
  · rename_i hb
    cases h.symm.trans hb
  · rfl

theorem readWhile_reject (h : l.cursor = .on b) (hb : accept b = false) :
    l.readWhile accept literal = (.ok literal, l) := by
  rw [readWhile]
  split
  · rename_i hc
    cases h.symm.trans hc
    simp [hb]
  · rfl

theorem readWhile_step (h : l.cursor = .on b) (hb : accept b = true) (ha : l.advance = (none, l')) :
    l.readWhile accept literal = l'.readWhile accept (literal.push (Byte.toChar b)) := by
  conv_lhs => rw [readWhile]
  split
  · rename_i hc
    cases h.symm.trans hc
    rw [if_pos hb]
    split
    · rename_i heq
      cases ha.symm.trans heq
      rfl
    · rename_i heq
      cases ha.symm.trans heq
  · rename_i hc
    cases h.symm.trans hc

theorem readWhile_cut {e : Error} (h : l.cursor = .on b) (hb : accept b = true)
    (ha : l.advance = (some e, l')) : l.readWhile accept literal = (.error e, l') := by
  rw [readWhile]
  split
  · rename_i hc
    cases h.symm.trans hc
    rw [if_pos hb]
    split
    · rename_i heq
      cases ha.symm.trans heq
    · rename_i heq
      cases ha.symm.trans heq
      rfl
  · rename_i hc
    cases h.symm.trans hc

end

variable {start : Journal} {told : List Event} {l : Lexer} {bs : List UInt8} {ending : Ending}

theorem push_append_text (literal : String) (b : UInt8) (run : List UInt8) :
    literal.push (Byte.toChar b) ++ Byte.text run = literal ++ Byte.text (b :: run) := by
  apply String.toList_injective
  simp [Byte.text]

/-- A run of the lexer is the run at the front of its stream. -/
theorem Shows.readWhile (accept : UInt8 → Bool) (h : Shows start told ⟨bs, ending⟩ l) (literal : String) :
    ∃ l', l.readWhile accept literal =
        ((Munch.span accept ⟨bs, ending⟩).1.map (literal ++ Byte.text ·), l') ∧
      Shows start (told ++ Munch.exhausts ⟨bs, ending⟩ (Munch.span accept ⟨bs, ending⟩).2)
        (Munch.span accept ⟨bs, ending⟩).2 l' := by
  induction bs generalizing l literal with
  | nil =>
    refine ⟨l, ?_, ?_⟩
    · rw [readWhile_done h.cursor_nil]
      simp [Except.map]
    · simpa using h
  | cons b bs ih =>
    obtain ⟨hcur, -⟩ := h.cursor_cons
    by_cases hb : accept b = true
    · obtain ⟨hne, l', heq, hl'⟩ | ⟨rfl, l', heq, hl'⟩ := h.advance
      · -- the run goes on: the rest of it is the run of the lexer one byte further on
        obtain ⟨l'', hrun, hl''⟩ := ih hl' (literal.push (Byte.toChar b))
        obtain ⟨c, cs, rfl⟩ := List.exists_cons_of_ne_nil hne
        rw [Munch.span_cons ending hb hne]
        refine ⟨l'', ?_, ?_⟩
        · rw [readWhile_step hcur hb heq, hrun]
          cases (Munch.span accept ⟨c :: cs, ending⟩).1 with
          | error e => rfl
          | ok run => simp only [Except.map, push_append_text]
        · rw [Munch.exhausts_cons b c (c :: cs) cs ending ending]
          exact hl''
      · rw [Munch.span_single ending hb]
        cases hf : ending.fault? with
        | none =>
          rw [hf] at heq
          refine ⟨l', ?_, by simpa using hl'⟩
          rw [readWhile_step hcur hb heq, readWhile_done hl'.cursor_nil]
          simp [Except.map, Byte.text]
        | some e =>
          rw [hf] at heq
          exact ⟨l', readWhile_cut hcur hb heq, by simpa using hl'⟩
    · have hb : accept b = false := by simpa using hb
      rw [Munch.span_reject bs ending hb]
      refine ⟨l, ?_, ?_⟩
      · rw [readWhile_reject hcur hb]
        simp [Except.map]
      · rw [Munch.exhausts_self, List.append_nil]
        exact h

/-- A run that begins with the byte under the cursor, read as a token, is the first answer of the stream. -/
theorem Shows.scan_run {accept : UInt8 → Bool} {b : UInt8} {token : String → Token}
    (h : Shows start told ⟨b :: bs, ending⟩ l) (hb : accept b = true) (hrun : Munch.inRun b = true)
    (hlead : Munch.lead b bs =
      (token (Byte.text (b :: bs.takeWhile accept)), bs.dropWhile accept)) :
    ∃ l', ((l.readWhile accept "").1.map token, (l.readWhile accept "").2) =
        ((Munch.first b bs ending).1, l') ∧
      Shows start (told ++ Munch.exhausts ⟨b :: bs, ending⟩ (Munch.first b bs ending).2)
        (Munch.first b bs ending).2 l' := by
  obtain ⟨l', heq, hl'⟩ := h.readWhile accept ""
  have hfirst : Munch.first b bs ending =
      ((Munch.span accept ⟨b :: bs, ending⟩).1.map (fun run => token (Byte.text run)),
        (Munch.span accept ⟨b :: bs, ending⟩).2) := by
    have hdrop : (b :: bs).dropWhile accept = bs.dropWhile accept := List.dropWhile_cons_of_pos hb
    have htake : (b :: bs).takeWhile accept = b :: bs.takeWhile accept := List.takeWhile_cons_of_pos hb
    simp only [Munch.first, Munch.span, hlead, hrun, hdrop, htake, ne_eq, reduceCtorEq,
      not_false_eq_true, true_and]
    generalize (if bs.dropWhile accept = [] then ending.fault? else none) = cut
    cases cut <;> rfl
  rw [heq, hfirst]
  refine ⟨l', ?_, hl'⟩
  cases (Munch.span accept ⟨b :: bs, ending⟩).1 with
  | error e => rfl
  | ok run => simp [Except.map]

/-- A byte that is a token by itself is stepped past. -/
theorem Shows.scan_single {b : UInt8} {kind : Token.Kind} (h : Shows start told ⟨b :: bs, ending⟩ l)
    (hrun : Munch.inRun b = false) (hlead : Munch.lead b bs = (.single kind b, bs)) :
    ∃ l', (Except.ok (Token.single kind b), hold l.advance) = ((Munch.first b bs ending).1, l') ∧
      Shows start (told ++ Munch.exhausts ⟨b :: bs, ending⟩ (Munch.first b bs ending).2)
        (Munch.first b bs ending).2 l' := by
  have hfirst : Munch.first b bs ending = (.ok (.single kind b), ⟨bs, ending⟩) := by
    simp [Munch.first, hlead, hrun]
  rw [hfirst]
  exact ⟨_, rfl, h.hold_advance⟩

/-- The token that begins with the byte under the cursor is the first answer of the stream. -/
theorem Shows.scan {b : UInt8} (h : Shows start told ⟨b :: bs, ending⟩ l) :
    ∃ l', l.scan b = ((Munch.first b bs ending).1, l') ∧
      Shows start (told ++ Munch.exhausts ⟨b :: bs, ending⟩ (Munch.first b bs ending).2)
        (Munch.first b bs ending).2 l' := by
  unfold Lexer.scan
  split
  · rename_i kind hk
    exact h.scan_single (Munch.ofSymbol?_eq_some hk).1 (by simp [Munch.lead, hk])
  · rename_i hk
    split
    · rename_i hl
      exact h.scan_run hl (by simp [Munch.inRun, hl]) (by simp [Munch.lead, hk, hl])
    · rename_i hl
      split
      · rename_i hd
        exact h.scan_run hd (by simp [Munch.inRun, hd]) (by simp [Munch.lead, hk, hl, hd])
      · rename_i hd
        exact h.scan_single (by simp [Munch.inRun, hl, hd]) (by simp [Munch.lead, hk, hl, hd])

theorem nextToken_held {e : Error} (h : l.cursor = .done (some e)) :
    l.nextToken = (.error e, { l with cursor := .done none }) := by
  simp [nextToken, h]

theorem nextToken_ended (h : l.cursor = .done none) : l.nextToken = (.ok .eof, l) := by
  simp [nextToken, h, readWhile_done h]

theorem nextToken_on {b : UInt8} (h : l.cursor = .on b) :
    l.nextToken =
      match l.readWhile Byte.isWhitespace "" with
      | (.error e, l) => (.error e, l)
      | (.ok _, l) =>
        match l.cursor with
        | .done _ => (.ok .eof, l)
        | .on b =>
          match l.scan b with
          | (.error e, l) => (.error e, l)
          | (.ok t, l) => (.ok t, l.tell (.token t)) := by
  unfold nextToken
  split
  · rename_i hdone
    cases h.symm.trans hdone
  · rfl

/-- A stream that holds nothing but blanks answers with its end. -/
theorem Shows.nextToken_blank {b : UInt8} (h : Shows start told ⟨b :: bs, ending⟩ l)
    (hrest : (b :: bs).dropWhile Byte.isWhitespace = []) :
    ∃ l', l.nextToken = (ending.answer, l') ∧ Shows start (told ++ [.exhausted]) ⟨[], .clean⟩ l' := by
  obtain ⟨l', hblank, hl'⟩ := h.readWhile Byte.isWhitespace ""
  refine ⟨l', ?_, ?_⟩
  · rw [nextToken_on h.cursor_cons.1, hblank]
    cases ending with
    | clean =>
      have hdone : l'.cursor = .done none := by
        simp only [Munch.span, hrest, Ending.fault?] at hl'
        exact hl'.cursor_nil
      simp only [Munch.span, Ending.fault?, ite_self, Except.map, hdone]
      rfl
    | failure e =>
      simp only [Munch.span, hrest, Ending.fault?, ne_eq, reduceCtorEq, not_false_eq_true, and_self, if_true]
      rfl
  · have hspan : (Munch.span Byte.isWhitespace ⟨b :: bs, ending⟩).2 = ⟨[], .clean⟩ := by
      cases ending <;> simp [Munch.span, hrest, Ending.fault?]
    rwa [hspan, Munch.exhausts_cons_nil] at hl'

/-- A stream with a byte that is no blank answers with what begins there. -/
theorem Shows.nextToken_lead {b c : UInt8} {cs : List UInt8} (h : Shows start told ⟨b :: bs, ending⟩ l)
    (hrest : (b :: bs).dropWhile Byte.isWhitespace = c :: cs) :
    ∃ l', l.nextToken = ((Munch.first c cs ending).1, l') ∧
      Shows start (told ++ Munch.exhausts ⟨b :: bs, ending⟩ (Munch.first c cs ending).2 ++
        Munch.tells (Munch.first c cs ending).1) (Munch.first c cs ending).2 l' := by
  obtain ⟨l', hblank, hl'⟩ := h.readWhile Byte.isWhitespace ""
  have hspan : Munch.span Byte.isWhitespace ⟨b :: bs, ending⟩ =
      (.ok ((b :: bs).takeWhile Byte.isWhitespace), ⟨c :: cs, ending⟩) := by
    simp [Munch.span, hrest]
  rw [hspan] at hblank hl'
  rw [Munch.exhausts_of_ne (by simp), List.append_nil] at hl'
  obtain ⟨l'', hscan, hl''⟩ := hl'.scan
  rw [Munch.exhausts_cons c b cs bs ending ending] at hl''
  rw [nextToken_on h.cursor_cons.1, hblank]
  simp only [Except.map, hl'.cursor_cons.1, hscan]
  cases hfirst : (Munch.first c cs ending).1 with
  | error e => exact ⟨l'', rfl, by simpa [Munch.tells] using hl''⟩
  | ok t =>
    have ht : t.isEof = false := Munch.first_not_eof hfirst
    refine ⟨_, rfl, ?_⟩
    simpa [Munch.tells, ht] using hl''.tell t

/-- An answer of the lexer is the first answer of the stream that it shows. -/
theorem Shows.nextToken {s : Stream} (h : Shows start told s l) :
    ∃ l', l.nextToken = ((Munch.next s).1, l') ∧
      Shows start (told ++ Munch.told s) (Munch.next s).2 l' := by
  obtain ⟨bytes, ending⟩ := s
  cases bytes with
  | nil =>
    have hcur := h.cursor_nil
    cases ending with
    | clean =>
      refine ⟨l, nextToken_ended hcur, ?_⟩
      simpa [Munch.told, Munch.next, Ending.answer, Munch.tells] using h
    | failure e =>
      refine ⟨_, nextToken_held hcur, ?_⟩
      have hl := h.sound.move (.release hcur)
      obtain ⟨later, hj, ho⟩ := h.journal
      exact ⟨hl, rfl, later, hj, by simp [ho, Munch.told, Munch.next, Ending.answer, Munch.tells]⟩
  | cons b bs =>
    cases hrest : (b :: bs).dropWhile Byte.isWhitespace with
    | nil =>
      have hnext : Munch.next ⟨b :: bs, ending⟩ = (ending.answer, ⟨[], .clean⟩) := by
        simp [Munch.next, hrest]
      have htells : Munch.tells ending.answer = [] := by cases ending <;> rfl
      rw [Munch.told, hnext, htells, Munch.exhausts_cons_nil]
      exact h.nextToken_blank hrest
    | cons c cs =>
      have hnext : Munch.next ⟨b :: bs, ending⟩ = Munch.first c cs ending := by
        simp [Munch.next, hrest]
      rw [Munch.told, hnext, ← List.append_assoc]
      exact h.nextToken_lead hrest

end StreamLexer.Lexer
