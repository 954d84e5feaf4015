import StreamLexer.Proofs.Lexer.Drain
import StreamLexer.Proofs.Munch.Layout

/-! When a lexer is exhausted. It is so from the call on that answers with a token up to the last byte, and not before,
however much of the end it has read ahead. From then on a call only says how the stream ended; until then there is a
byte that the next call looks at. -/
namespace StreamLexer.Lexer

theorem moves_calls (l : Lexer) (n : Nat) : ∃ past, Moves l past (l.calls n).2 := by
  induction n generalizing l with
  | zero => exact ⟨[], .refl⟩
  | succ n ih =>
    obtain ⟨first, hf⟩ := moves_nextToken l
    obtain ⟨past, hp⟩ := ih l.nextToken.2
    exact ⟨_, hf.trans hp⟩

section
variable {start : Journal} {told : List Event} {s : Stream} {l l' : Lexer} {ending : Ending}

/-- Calls that answer with tokens take them off the front of the layout of the stream. -/
theorem Shows.calls_tokens {d : Munch.Layout} (h : Shows start told ⟨d.bytes, ending⟩ l) (hd : d.Legal)
    {ts : List Token} (hcalls : l.calls ts.length = (ts.map .ok, l')) (hts : ∀ t ∈ ts, t.isEof = false) :
    d.tokens.take ts.length = ts ∧ ∃ told', Shows start told' ⟨(d.behind ts.length).bytes, ending⟩ l' := by
  induction ts generalizing told d l with
  | nil =>
    cases hcalls
    exact ⟨rfl, told, by simpa using h⟩
  | cons t ts ih =>
    obtain ⟨ht, hts⟩ := List.forall_mem_cons.1 hts
    obtain ⟨l₁, heq, hl₁⟩ := h.nextToken
    simp only [List.length_cons, Lexer.calls, heq, List.map_cons, Prod.mk.injEq, List.cons.injEq] at hcalls
    obtain ⟨⟨hanswer, hrest⟩, hleft⟩ := hcalls
    obtain ⟨gap, rest⟩ := d
    cases rest with
    | nil =>
      rw [hd.next_nil] at hanswer
      cases ending with
      | clean =>
        cases hanswer
        cases ht
      | failure e => cases hanswer
    | cons p rest =>
      obtain ⟨u, next⟩ := p
      generalize hnext : Munch.next _ = p at hanswer hl₁
      obtain ⟨r, s⟩ := p
      cases hanswer
      obtain ⟨rfl, rfl⟩ := hd.next_cons hnext
      obtain ⟨-, -, -, hd'⟩ := Munch.Layout.legal_cons.1 hd
      obtain ⟨htake, told', hl'⟩ := ih hl₁ hd' (Prod.ext hrest hleft) hts
      refine ⟨?_, told', hl'⟩
      simp [htake]

/-- What a lexer answers past the last byte: the end, or the failure that it holds back. Nothing is read and nothing
told. -/
theorem Shows.nextToken_of_exhausted (h : Shows start told ⟨[], ending⟩ l) :
    (ending = .clean ∧ l.held? = none ∧ l.nextToken = (.ok .eof, l)) ∨
      ∃ cause, ending = .failure cause ∧ l.held? = some (.sourceFault cause) ∧
        l.nextToken = (.error (.sourceFault cause), { l with cursor := .done none }) := by
  have hcur := h.cursor_nil
  cases ending with
  | clean => exact .inl ⟨rfl, by simp [held?, hcur, Ending.fault?], nextToken_ended hcur⟩
  | failure cause => exact .inr ⟨cause, rfl, by simp [held?, hcur, Ending.fault?], nextToken_held hcur⟩

/-- The end is answered only where nothing but blanks is left before a clean end. -/
theorem Shows.of_nextToken_eof (h : Shows start told s l) (heof : l.nextToken.1 = .ok .eof) :
    (∀ b ∈ s.bytes, Munch.char b ∈ Munch.blanks) ∧ s.ending = .clean := by
  obtain ⟨l', heq, -⟩ := h.nextToken
  have hy := Munch.yields_next s
  rw [heq] at heof
  generalize Munch.next s = p at hy heof
  cases hy with
  | token ht =>
    cases heof
    cases ht
  | fault => cases heof
  | eof he hi =>
    refine ⟨?_, he⟩
    simp only [Munch.items, he, List.map_eq_nil_iff, Munch.tokens_eq_nil_iff, List.dropWhile_eq_nil_iff] at hi
    intro b hb
    exact (Munch.isWhitespace_iff b).1 (hi b hb)

end

/-- A lexer over `bytes` that has answered with the first `k` tokens, seen on the layout `d` of the bytes. -/
structure OnTime (start : Lexer) (d : Munch.Layout) (ending : Ending) (k : Nat) (l : Lexer) : Prop where
  /-- The cursor has stepped past the bytes up to the last of these tokens. -/
  stepped : ∃ past, Moves start past l ∧ d.bytes = past ++ (d.behind k).bytes
  exhausted_iff : l.isExhausted = true ↔ (d.behind k).bytes = []
  /-- Then a call reads nothing and tells nothing: it answers with the end or with the failure that is held back. -/
  of_exhausted : l.isExhausted = true →
    (ending = .clean ∧ l.held? = none ∧ l.nextToken = (.ok .eof, l)) ∨
      ∃ cause, ending = .failure cause ∧ l.held? = some (.sourceFault cause) ∧
        l.nextToken = (.error (.sourceFault cause), { l with cursor := .done none })
  of_not_exhausted : l.isExhausted = false → (d.behind k).bytes ≠ [] ∧
    (l.nextToken.1 = .ok .eof → (∀ b ∈ (d.behind k).bytes, Munch.char b ∈ Munch.blanks) ∧ ending = .clean)

/-- A lexer is exhausted exactly when the last byte belongs to the last token that it answered with, or there is no
byte at all. -/
theorem calls_withChunkSize_onTime {source : Source} {bytes : List UInt8} {ending : Ending}
    (h : source.stream = ⟨bytes, ending⟩) (chunk : Nat) {ts : List Token} {l : Lexer}
    (hcalls : (withChunkSize source chunk).calls ts.length = (ts.map .ok, l)) (hts : ∀ t ∈ ts, t.isEof = false) :
    ∃ d : Munch.Layout, d.Legal ∧ d.bytes = bytes ∧ d.tokens.take ts.length = ts ∧
      OnTime (withChunkSize source chunk) d ending ts.length l := by
  obtain ⟨d, hd, rfl⟩ := Munch.Layout.exists_of_scans (Munch.scans_tokens bytes)
  have hstart := shows_withChunkSize h chunk
  obtain ⟨htake, told, hl⟩ := hstart.calls_tokens hd hcalls hts
  obtain ⟨past, hm⟩ := moves_calls (withChunkSize source chunk) ts.length
  rw [hcalls] at hm
  have hiff : l.isExhausted = true ↔ (d.behind ts.length).bytes = [] := by
    rw [hl.isExhausted, List.isEmpty_iff]
  refine ⟨d, hd, rfl, htake, ?_⟩
  refine
    { stepped := ⟨past, hm, ?_⟩
      exhausted_iff := hiff
      of_exhausted := ?_
      of_not_exhausted := ?_ }
  · have hbytes := bytes_stream_moves hstart.sound hm
    rwa [hstart.stream, hl.stream] at hbytes
  · intro hx
    rw [hiff.1 hx] at hl
    exact hl.nextToken_of_exhausted
  · intro hx
    refine ⟨?_, hl.of_nextToken_eof⟩
    intro hnil
    rw [hiff.2 hnil] at hx
    cases hx

/-- Two tokens up to the last byte of a source that fails behind it: the lexer is exhausted, and holds the failure
back. -/
theorem calls_withChunkSize_onTime_failure :
    Source.stream [.data [0x31, 0x20] none, .fail .interrupted, .data [0x3D] none, .fail (.simple .other)] =
      ⟨[0x31, 0x20, 0x3D], .failure (.simple .other)⟩ ∧
    ((withChunkSize [.data [0x31, 0x20] none, .fail .interrupted, .data [0x3D] none,
      .fail (.simple .other)] 2).calls 2).1 = [.number "1", .single .assign 0x3D].map .ok ∧
    ∃ d : Munch.Layout, d.Legal ∧ d.bytes = [0x31, 0x20, 0x3D] ∧ d.tokens.take 2 = [.number "1", .single .assign 0x3D] ∧
      OnTime (withChunkSize [.data [0x31, 0x20] none, .fail .interrupted, .data [0x3D] none,
        .fail (.simple .other)] 2) d (.failure (.simple .other)) 2
        ((withChunkSize [.data [0x31, 0x20] none, .fail .interrupted, .data [0x3D] none,
          .fail (.simple .other)] 2).calls 2).2 := by
  have hstream : Source.stream [.data [0x31, 0x20] none, .fail .interrupted, .data [0x3D] none,
      .fail (.simple .other)] = ⟨[0x31, 0x20, 0x3D], .failure (.simple .other)⟩ := by
    decide
  have hanswers : ((withChunkSize [.data [0x31, 0x20] none, .fail .interrupted, .data [0x3D] none,
      .fail (.simple .other)] 2).calls [Token.number "1", .single .assign 0x3D].length).1 =
        [.number "1", .single .assign 0x3D].map .ok := by
    decide +kernel
  have hts : ∀ t ∈ [Token.number "1", .single .assign 0x3D], t.isEof = false := by decide
  exact ⟨hstream, hanswers, calls_withChunkSize_onTime hstream 2 (Prod.ext hanswers rfl) hts⟩

end StreamLexer.Lexer
