import StreamLexer.Proofs.Lexer.End
import StreamLexer.Proofs.Munch.Append
import StreamLexer.Proofs.Munch.Join
import StreamLexer.Proofs.Munch.Layout

/-! What tokenizing says of the bytes. The tokens before a failure are those that all byte strings with the same
beginning have in common, and no token that they share is missing. Tokenizing takes back the layout of well formed
tokens, and there is no byte string that is not laid out in exactly one way. The tokens of two byte strings are told
by those of each, also where a run goes on from one into the other. -/
namespace StreamLexer.Lexer

/-- These are the tokens of every lexer over a source that delivers these bytes and ends cleanly. -/
def Tokenizes (bytes : List UInt8) (tokens : List Token) : Prop :=
  ∀ source chunk, source.stream = ⟨bytes, .clean⟩ →
    (withChunkSize source chunk).tokenize.1 = .ok (tokens ++ [Token.eof]).toArray

theorem tokenizes_tokens (bytes : List UInt8) : Tokenizes bytes (Munch.tokens bytes) := by
  intro source chunk h
  obtain ⟨told, l', heq, -⟩ := (shows_withChunkSize h chunk).perform .tokenize
  have hanswer : Answer.tokens (withChunkSize source chunk).tokenize.1 = answer ⟨bytes, .clean⟩ .tokenize :=
    congrArg Prod.fst heq
  simpa [answer, Munch.items, Munch.drained_map_ok, Except.map] using hanswer

/-- Tokens are determined by the bytes, since there is a source that delivers them. -/
theorem tokenizes_iff {bytes : List UInt8} {tokens : List Token} :
    Tokenizes bytes tokens ↔ tokens = Munch.tokens bytes := by
  constructor
  · intro h
    have hsource := Source.stream_ofBytes bytes
    have heq := (h _ 1 hsource).symm.trans (tokenizes_tokens bytes _ 1 hsource)
    simpa using heq
  · rintro rfl
    exact tokenizes_tokens bytes

/-- Asked for as many tokens as its stream has items, a lexer answers with these. -/
theorem Shows.run_next_items {start : Journal} {told : List Event} {s : Stream} {l : Lexer}
    (h : Shows start told s l) :
    (l.run (List.replicate (Munch.items s).length .next)).map Report.answer =
      (Munch.items s).map fun r => some (.item r) := by
  rw [h.run_next]
  apply List.ext_getElem
  · simp
  · intro i hi hi'
    simp only [List.length_map] at hi'
    simp [List.getElem?_eq_getElem hi']

/-- The tokens before a failure are the longest list that begins the tokens of every clean stream with the same
bytes in front. -/
theorem run_next_longest_common {source : Source} {bytes : List UInt8} {e : IoError}
    (h : source.stream = ⟨bytes, .failure e⟩) (chunk : Nat) :
    ∃ tokens : List Token,
      ((withChunkSize source chunk).run (List.replicate (tokens.length + 1) .next)).map Report.answer =
        tokens.map (fun t => some (.item (.ok t))) ++ [some (.item (.error (.sourceFault e)))] ∧
      (∀ more, ∃ rest, Tokenizes (bytes ++ more) (tokens ++ rest)) ∧
      ∀ shared, (∀ more, ∃ rest, Tokenizes (bytes ++ more) (shared ++ rest)) → shared <+: tokens := by
  refine ⟨Munch.complete bytes, ?_, ?_, ?_⟩
  · have hrun := (shows_withChunkSize h chunk).run_next_items
    simpa [Munch.items, Function.comp_def] using hrun
  · intro more
    obtain ⟨rest, hrest⟩ := Munch.complete_isPrefix bytes more
    exact ⟨rest, tokenizes_iff.2 hrest⟩
  · intro shared hshared
    apply Munch.isPrefix_complete
    intro more
    obtain ⟨rest, hrest⟩ := hshared more
    exact ⟨rest, tokenizes_iff.1 hrest⟩

/-- Behind `le` nothing but the symbol is settled: the word may become a keyword or another identifier. -/
theorem run_next_longest_common_word :
    Source.stream [.data [0x3D, 0x6C] none, .fail .interrupted, .data [0x65] none, .fail (.simple .other)] =
      ⟨[0x3D, 0x6C, 0x65], .failure (.simple .other)⟩ ∧
    ∃ tokens : List Token,
      ((withChunkSize [.data [0x3D, 0x6C] none, .fail .interrupted, .data [0x65] none, .fail (.simple .other)]
          2).run (List.replicate (tokens.length + 1) .next)).map Report.answer =
        tokens.map (fun t => some (.item (.ok t))) ++ [some (.item (.error (.sourceFault (.simple .other))))] ∧
      (∀ more, ∃ rest, Tokenizes ([0x3D, 0x6C, 0x65] ++ more) (tokens ++ rest)) ∧
      ∀ shared, (∀ more, ∃ rest, Tokenizes ([0x3D, 0x6C, 0x65] ++ more) (shared ++ rest)) → shared <+: tokens :=
  ⟨by decide, run_next_longest_common (by decide) 2⟩

/-- Tokenizing brings back the tokens of every layout, and every byte string is laid out in exactly one way. -/
theorem tokenizes_layout :
    (∀ d : Munch.Layout, d.Legal → Tokenizes d.bytes d.tokens) ∧
    ∀ bytes, ∃ d : Munch.Layout, (d.Legal ∧ d.bytes = bytes) ∧ Tokenizes bytes d.tokens ∧
      ∀ d' : Munch.Layout, d'.Legal → d'.bytes = bytes → d' = d := by
  have hread : ∀ d : Munch.Layout, d.Legal → Tokenizes d.bytes d.tokens :=
    fun d hd => tokenizes_iff.2 hd.tokens_eq
  refine ⟨hread, ?_⟩
  intro bytes
  obtain ⟨d, hd, rfl⟩ := Munch.Layout.exists_of_scans (Munch.scans_tokens bytes)
  exact ⟨d, ⟨hd, rfl⟩, hread d hd, fun d' hd' hbytes => hd'.unique hd hbytes⟩

/-- Two numbers that a tab keeps apart, and a word that touches a number, a symbol and an illegal byte. -/
theorem tokenizes_layout_numbers :
    (Munch.Layout.mk [0x20] [(⟨.int, "12"⟩, [0x09]), (⟨.int, "3"⟩, []), (⟨.identifier, "fnx"⟩, []),
      (⟨.plus, "+"⟩, []), (⟨.illegal, "ÿ"⟩, [])]).Legal ∧
    Tokenizes [0x20, 0x31, 0x32, 0x09, 0x33, 0x66, 0x6E, 0x78, 0x2B, 0xFF]
      [⟨.int, "12"⟩, ⟨.int, "3"⟩, ⟨.identifier, "fnx"⟩, ⟨.plus, "+"⟩, ⟨.illegal, "ÿ"⟩] := by
  have hlegal : (Munch.Layout.mk [0x20] [(⟨.int, "12"⟩, [0x09]), (⟨.int, "3"⟩, []), (⟨.identifier, "fnx"⟩, []),
      (⟨.plus, "+"⟩, []), (⟨.illegal, "ÿ"⟩, [])]).Legal := by
    have hspace : ∀ b ∈ [(0x20 : UInt8)], Munch.char b ∈ Munch.blanks := List.forall_mem_singleton.2 (by decide)
    have htab : ∀ b ∈ [(0x09 : UInt8)], Munch.char b ∈ Munch.blanks := List.forall_mem_singleton.2 (by decide)
    refine ⟨hspace, ?_, ?_, by decide⟩
    · exact List.forall_mem_cons.2 ⟨htab, by simp⟩
    · simp only [List.forall_mem_cons]
      exact ⟨.number (by decide) (by simp), .number (by decide) (by simp),
        .identifier (by decide) (by simp) (by decide) (by decide), .symbol (c := '+') (by decide),
        .illegal (c := 'ÿ') (by decide) (by decide) (by decide) (by decide) (by decide), by simp⟩
  exact ⟨hlegal, tokenizes_layout.1 _ hlegal⟩

/-- The tokens of a concatenation are those of its parts. Only where the seam cuts a run are the last token of the one
and the first of the other a single token, a word of a kind of its own or a number. -/
theorem tokenizes_append (front back : List UInt8) :
    ∃ ts us, Tokenizes front ts ∧ Tokenizes back us ∧
      (Munch.Apart front back → Tokenizes (front ++ back) (ts ++ us)) ∧
      ∀ b ∈ front.getLast?, ∀ c ∈ back.head?,
        (Munch.IsWord b → Munch.IsWord c → ∃ before t u after, ts = before ++ [t] ∧ us = u :: after ∧
          Tokenizes (front ++ back) (before ++ .word (t.literal ++ u.literal) :: after)) ∧
        (Munch.IsNumber b → Munch.IsNumber c → ∃ before t u after, ts = before ++ [t] ∧ us = u :: after ∧
          Tokenizes (front ++ back) (before ++ .number (t.literal ++ u.literal) :: after)) := by
  refine ⟨_, _, tokenizes_tokens front, tokenizes_tokens back, ?_, ?_⟩
  · intro hseam
    exact tokenizes_iff.2 (Munch.tokens_append_of_apart hseam).symm
  · intro b hb c hc
    refine ⟨?_, ?_⟩
    · intro hword hword'
      obtain ⟨ts, us, text, text', hfront, hback, happ⟩ := Munch.tokens_append_word hb hc hword hword'
      exact ⟨ts, .word text, .word text', us, hfront, hback, tokenizes_iff.2 happ.symm⟩
    · intro hnumber hnumber'
      obtain ⟨ts, us, text, text', hfront, hback, happ⟩ := Munch.tokens_append_number hb hc hnumber hnumber'
      exact ⟨ts, .number text, .number text', us, hfront, hback, tokenizes_iff.2 happ.symm⟩

/-- A seam within `let` makes a keyword of two identifiers. -/
theorem tokenizes_append_keyword :
    ∃ ts us before t u after, Tokenizes [0x3D, 0x6C, 0x65] ts ∧ Tokenizes [0x74, 0x20, 0x31] us ∧
      ts = before ++ [t] ∧ us = u :: after ∧
      Tokenizes [0x3D, 0x6C, 0x65, 0x74, 0x20, 0x31] (before ++ .word (t.literal ++ u.literal) :: after) := by
  obtain ⟨ts, us, hts, hus, -, hrun⟩ := tokenizes_append [0x3D, 0x6C, 0x65] [0x74, 0x20, 0x31]
  obtain ⟨before, t, u, after, hlast, hfirst, happ⟩ := (hrun 0x65 rfl 0x74 rfl).1 (by decide) (by decide)
  exact ⟨ts, us, before, t, u, after, hts, hus, hlast, hfirst, happ⟩

end StreamLexer.Lexer
