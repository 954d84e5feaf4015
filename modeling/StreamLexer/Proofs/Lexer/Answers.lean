import StreamLexer.Proofs.Lexer.Determined
import StreamLexer.Proofs.Munch.Scans

/-! The answers of a fresh lexer. Over a source that ends cleanly they are the tokens of maximal munch; over one
that fails they are the tokens that the failure does not cut off, then the failure, once. Neither the splitting
of the reads nor the chunk size has a say in them, whatever calls are made and in whatever order. -/
namespace StreamLexer

namespace Munch

theorem next_fst (s : Stream) : (next s).1 = (items s)[0]?.getD (.ok .eof) := by
  cases hi : items s with
  | nil => rw [(next_of_items_nil hi).2]; rfl
  | cons r rest => rw [(next_of_items_cons hi).1]; rfl

theorem items_next (s : Stream) : items (next s).2 = (items s).tail := by
  cases hi : items s with
  | nil => rw [(next_of_items_nil hi).2]; exact items_nil
  | cons r rest => exact (next_of_items_cons hi).2.1

end Munch

namespace Lexer

/-- Tokenizing a source that ends cleanly brings the tokens of maximal munch, and the end behind them. They are
the only tokens that the rules of the language allow. -/
theorem tokenize_withChunkSize {source : Source} {bytes : List UInt8} (h : source.stream = ⟨bytes, .clean⟩)
    (chunk : Nat) :
    (∀ ts, Munch.Scans bytes ts ↔ ts = Munch.tokens bytes) ∧
      (withChunkSize source chunk).tokenize.1 = .ok (Munch.tokens bytes ++ [Token.eof]).toArray := by
  refine ⟨fun ts => Munch.scans_iff, ?_⟩
  obtain ⟨told, htold⟩ := determined_tokenizeOnto ⟨bytes, .clean⟩ #[]
  obtain ⟨l', heq, -⟩ := htold _ _ _ (shows_withChunkSize h chunk)
  have hitems : Munch.items ⟨bytes, .clean⟩ = (Munch.tokens bytes).map .ok := rfl
  rw [hitems, Munch.drained_map_ok] at heq
  simp only [tokenize, heq, Except.map, Array.empty_append]

/-- A keyword that two reads and an interruption split, read with the least chunk, and a byte that is no token
by any other rule. What a source has behind its end is never read. -/
theorem tokenize_withChunkSize_split :
    Source.stream [.data [0x6C, 0x65] none, .fail .interrupted, .data [] none,
        .data [0x74, 0x20, 0x78, 0x31] (some 1), .data [0xFF] none, .eof, .data [0x79] none] =
      ⟨[0x6C, 0x65, 0x74, 0x20, 0x78, 0x31, 0xFF], .clean⟩ ∧
    (∀ ts, Munch.Scans [0x6C, 0x65, 0x74, 0x20, 0x78, 0x31, 0xFF] ts ↔
      ts = Munch.tokens [0x6C, 0x65, 0x74, 0x20, 0x78, 0x31, 0xFF]) ∧
    (withChunkSize [.data [0x6C, 0x65] none, .fail .interrupted, .data [] none,
        .data [0x74, 0x20, 0x78, 0x31] (some 1), .data [0xFF] none, .eof, .data [0x79] none] 0).tokenize.1 =
      .ok (Munch.tokens [0x6C, 0x65, 0x74, 0x20, 0x78, 0x31, 0xFF] ++ [Token.eof]).toArray :=
  ⟨by decide, tokenize_withChunkSize (by decide) 0⟩

/-- Collecting from a source brings all items of its stream. -/
theorem collect_ofSource (source : Source) : (ofSource source).collect.1.toList = Munch.items source.stream := by
  obtain ⟨told, htold⟩ := determined_collectOnto source.stream #[]
  obtain ⟨l', heq, -⟩ := htold _ _ _ (shows_withChunkSize rfl defaultChunkSize)
  have hcollect : (ofSource source).collect = _ := heq
  simp [hcollect]

/-- Asked for one token after the other, a lexer answers with what its stream holds, and then with the end for
ever. -/
theorem Shows.run_next {start : Journal} {told : List Event} {s : Stream} {l : Lexer}
    (h : Shows start told s l) (n : Nat) :
    (l.run (List.replicate n .next)).map Report.answer =
      (List.range n).map fun i => some (.item ((Munch.items s)[i]?.getD (.ok .eof))) := by
  induction n generalizing told s l with
  | zero => rfl
  | succ n ih =>
    obtain ⟨l', heq, hl'⟩ := h.nextToken
    have htail := ih hl'
    rw [Munch.items_next] at htail
    rw [List.replicate_succ, List.range_succ_eq_map]
    simp only [run, Operation.perform, heq, List.map_cons, List.map_map, report, htail, Munch.next_fst,
      List.getElem?_tail, Function.comp_def]

/-- A failure of the source is told exactly once, behind the tokens that it does not cut off. -/
theorem run_next_of_failure {source : Source} {bytes : List UInt8} {e : IoError}
    (h : source.stream = ⟨bytes, .failure e⟩) (chunk n : Nat) :
    ((withChunkSize source chunk).run (List.replicate n .next)).map Report.answer =
      (List.range n).map fun i => some (.item
        (((Munch.complete bytes).map .ok ++ [.error (.sourceFault e)])[i]?.getD (.ok .eof))) :=
  (shows_withChunkSize h chunk).run_next n

/-- The failure comes in the middle of a refill, right behind a run that follows a symbol. -/
theorem run_next_of_failure_in_run :
    Source.stream [.data [0x3D, 0x31] none, .fail .interrupted, .data [0x32] none, .fail (.simple .other),
        .data [0x33] none] = ⟨[0x3D, 0x31, 0x32], .failure (.simple .other)⟩ ∧
    ((withChunkSize [.data [0x3D, 0x31] none, .fail .interrupted, .data [0x32] none, .fail (.simple .other),
        .data [0x33] none] 2).run (List.replicate 4 .next)).map Report.answer =
      (List.range 4).map fun i => some (.item
        (((Munch.complete [0x3D, 0x31, 0x32]).map .ok ++
          [.error (.sourceFault (.simple .other))])[i]?.getD (.ok .eof))) :=
  ⟨by decide, run_next_of_failure (by decide) 2 4⟩

end Lexer

/-- What a report shows of the stream: the answer, whether the lexer is exhausted, and what was told of tokens
and of the end. The reads and the refills are left out. -/
def Report.visible (r : Report) : Option Answer × Bool × List Event :=
  (r.answer, r.exhausted, Journal.outward r.entries)

namespace Lexer

/-- The report of a step that began with the journal `start`. -/
theorem Shows.visible_report {start : Journal} {told : List Event} {s : Stream} {l : Lexer}
    (h : Shows start told s l) (answer : Option Answer) :
    (l.report start.size answer).visible = (answer, s.bytes.isEmpty, told) := by
  obtain ⟨later, hj, ho⟩ := h.journal
  have hextract : l.journal.extract start.size = later := by simp [hj]
  simp only [report, Report.visible, hextract, ho, h.isExhausted]

/-- A lexer has told nothing yet since its own journal. -/
theorem Shows.restart {start : Journal} {told : List Event} {s : Stream} {l : Lexer}
    (h : Shows start told s l) : Shows l.journal [] s l :=
  ⟨h.sound, h.stream, #[], by simp, rfl⟩

/-- Lexers that show the same stream go on alike, whatever is asked of them. -/
theorem run_visible_congr {start₁ start₂ : Journal} {told₁ told₂ : List Event} {s : Stream} {l₁ l₂ : Lexer}
    (h₁ : Shows start₁ told₁ s l₁) (h₂ : Shows start₂ told₂ s l₂) (ops : List Operation) :
    (l₁.run ops).map Report.visible = (l₂.run ops).map Report.visible := by
  induction ops generalizing start₁ start₂ told₁ told₂ s l₁ l₂ with
  | nil => rfl
  | cons op ops ih =>
    obtain ⟨told, hdet⟩ := determined_perform s op
    obtain ⟨l₁', heq₁, hl₁'⟩ := hdet _ _ _ h₁.restart
    obtain ⟨l₂', heq₂, hl₂'⟩ := hdet _ _ _ h₂.restart
    simp only [run, heq₁, heq₂, List.map_cons, hl₁'.visible_report, hl₂'.visible_report,
      ih hl₁' hl₂']

/-- Sources that deliver the same bytes and then end alike cannot be told apart by any calls, however the bytes
are split, wherever reads are interrupted and whatever the chunk sizes are. -/
theorem session_visible_congr {source₁ source₂ : Source} (h : source₁.stream = source₂.stream)
    (chunk₁ chunk₂ : Nat) (ops : List Operation) :
    (session source₁ chunk₁ ops).map Report.visible = (session source₂ chunk₂ ops).map Report.visible := by
  have h₁ := shows_withChunkSize (Eq.refl source₁.stream) chunk₁
  have h₂ := shows_withChunkSize h.symm chunk₂
  simp only [session, List.map_cons]
  rw [run_visible_congr h₁ h₂ ops]
  congr 1
  exact (h₁.visible_report none).trans (h₂.visible_report none).symm

/-- One source has read its failure ahead when the other has not met it yet. -/
theorem session_visible_congr_split :
    Source.stream [.data [0x6C, 0x65] (some 1), .fail .interrupted, .data [0x74, 0x3B] none,
        .fail (.simple .timedOut)] =
      Source.stream [.data [] none, .data [0x6C, 0x65, 0x74, 0x3B] none, .fail (.simple .timedOut),
        .data [0x31] none] ∧
    (session [.data [0x6C, 0x65] (some 1), .fail .interrupted, .data [0x74, 0x3B] none,
        .fail (.simple .timedOut)] 2 [.next, .iterate, .tokenize, .collect]).map Report.visible =
      (session [.data [] none, .data [0x6C, 0x65, 0x74, 0x3B] none, .fail (.simple .timedOut),
        .data [0x31] none] 9 [.next, .iterate, .tokenize, .collect]).map Report.visible :=
  ⟨by decide, session_visible_congr (by decide) 2 9 _⟩

end Lexer

end StreamLexer
