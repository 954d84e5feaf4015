import StreamLexer.Proofs.Lexer.Demand
import StreamLexer.Proofs.Lexer.Shows

/-! A step of a lexer as a step along what lies ahead of it. What lies ahead is read off the fields: the byte under
the cursor, the loaded bytes, then what the source delivers before its next end, and how that end comes. The bytes
may be split between the chunk and the source in any way, and the end may have been met long before the cursor gets
there. A step drops the first of the bytes all the same and keeps the others and the end; it fails only where a
failure follows right behind that byte. -/
namespace StreamLexer

namespace Stream

/-- A step along a stream drops its first byte. The step past the last byte meets the end, and hands out the failure
if that is what the end is. -/
def advance : Stream → Option Error × Stream
  | ⟨[], ending⟩ => (none, ⟨[], ending⟩)
  | ⟨[_], ending⟩ => (ending.fault?, ⟨[], .clean⟩)
  | ⟨_ :: b :: bs, ending⟩ => (none, ⟨b :: bs, ending⟩)

theorem advance_of_ne {b : UInt8} {bs : List UInt8} {ending : Ending} (h : bs ≠ []) :
    advance ⟨b :: bs, ending⟩ = (none, ⟨bs, ending⟩) := by
  obtain ⟨c, cs, rfl⟩ := List.exists_cons_of_ne_nil h
  rfl

/-- A step keeps the end of a stream, or leaves nothing of the stream. -/
theorem ending_advance (s : Stream) : s.advance.2.ending = s.ending ∨ s.advance.2 = ⟨[], .clean⟩ := by
  obtain ⟨bytes, ending⟩ := s
  match bytes with
  | [] => exact .inl rfl
  | [_] => exact .inr rfl
  | _ :: _ :: _ => exact .inl rfl

end Stream

namespace Lexer

/-- Whether a refill has met the end of the source without a failure. -/
def isDrained (l : Lexer) : Bool := l.feed.ending = some .clean

/-- What lies ahead of a lexer, read off its fields. Nothing that the source has left lies ahead once it is drained,
once its failure is held back, and past the last byte. -/
def ahead (l : Lexer) : Stream where
  bytes := l.current?.toList ++ l.feed.pending ++
    if l.isDrained ∨ l.held?.isSome ∨ l.isExhausted then [] else l.feed.source.stream.bytes
  ending :=
    match l.held? with
    | some e => .failure e.cause
    | none => if l.isDrained ∨ l.isExhausted then .clean else l.feed.source.stream.ending

variable {past bytes rest : List UInt8} {l l' : Lexer} {b : UInt8} {ending : Ending}

/-- What the fields of a lexer say lies ahead is the stream of the lexer. -/
theorem Sound.ahead_eq_stream (hl : l.Sound) : l.ahead = l.stream := by
  cases hc : l.cursor with
  | on b =>
    cases he : l.feed.ending with
    | none => simp [ahead, stream, current?, held?, isDrained, isExhausted, Feed.stream, Stream.prepend, hc, he]
    | some met =>
      cases met <;>
        simp [ahead, stream, current?, held?, isDrained, isExhausted, Feed.stream, Stream.prepend, hc, he,
          Error.cause]
  | done held =>
    have hpending := hl.pending_of_done hc
    cases held <;> simp [ahead, stream, current?, held?, isExhausted, hc, hpending]

/-- A lexer is exhausted just when no byte lies ahead of it. -/
theorem Sound.isExhausted_iff (hl : l.Sound) : l.isExhausted = true ↔ l.ahead.bytes = [] := by
  rw [hl.ahead_eq_stream, hl.shows.isExhausted, List.isEmpty_iff]

/-- A failure that is held back is the end of what lies ahead. -/
theorem held?_of_ahead_clean (h : l.ahead.ending = .clean) : l.held? = none := by
  cases hheld : l.held? with
  | none => rfl
  | some e => simp [ahead, hheld] at h

/-- Past the last byte a step does nothing, and leaves a failure held back where it is. -/
theorem advance_of_exhausted (h : l.isExhausted = true) : l.advance = (none, l) := by
  cases hc : l.cursor with
  | on b => simp [isExhausted, hc] at h
  | done held => simp [advance, hc]

/-- A step of a lexer is a step along its stream, whatever it has to read for it. -/
theorem Sound.stream_advance (hl : l.Sound) : (l.advance.1, l.advance.2.stream) = l.stream.advance := by
  have hshows := hl.shows
  generalize l.stream = s at hshows ⊢
  obtain ⟨bytes, ending⟩ := s
  cases bytes with
  | nil =>
    have hcur := hshows.cursor_nil
    simp only [Lexer.advance, hcur, hshows.stream]
    rfl
  | cons b bs =>
    obtain ⟨hne, l', heq, hl'⟩ | ⟨rfl, l', heq, hl'⟩ := hshows.advance
    · rw [heq, hl'.stream, Stream.advance_of_ne hne]
    · rw [heq, hl'.stream]
      rfl

theorem Sound.advance (hl : l.Sound) : l.advance.2.Sound := by
  cases hc : l.cursor with
  | on b => exact hl.move (.step hc)
  | done held => simpa [Lexer.advance, hc] using hl

/-- A step of a lexer is a step along what its fields say lies ahead. -/
theorem Sound.ahead_advance (hl : l.Sound) : (l.advance.1, l.advance.2.ahead) = l.ahead.advance := by
  rw [hl.advance.ahead_eq_stream, hl.ahead_eq_stream, hl.stream_advance]

/-- What a step does to a lexer with one byte, then `rest`, then `ending` ahead. The byte is dropped. The step
succeeds and keeps the end, unless a failure follows right behind the byte: then it returns that failure, and
nothing is held back. With the last byte dropped the lexer is exhausted. -/
structure Drops (l : Lexer) (rest : List UInt8) (ending : Ending) : Prop where
  bytes : l.advance.2.ahead.bytes = rest
  succeeds : rest ≠ [] ∨ ending = .clean → l.advance.1 = none ∧ l.advance.2.ahead.ending = ending
  fails : ∀ e, rest = [] → ending = .failure e →
    l.advance.1 = some (.sourceFault e) ∧ l.advance.2.held? = none
  exhausts : rest = [] → l.advance.2.isExhausted = true

theorem Sound.drops (hl : l.Sound) (h : l.ahead = ⟨b :: rest, ending⟩) : l.Drops rest ending := by
  have hstep := hl.ahead_advance
  rw [h] at hstep
  cases rest with
  | nil =>
    obtain ⟨hreturned, hleft⟩ := Prod.mk.inj hstep
    refine ⟨by rw [hleft], ?_, ?_, ?_⟩
    · rintro (hne | rfl)
      · exact absurd rfl hne
      · exact ⟨hreturned, by rw [hleft]⟩
    · rintro e - rfl
      exact ⟨hreturned, held?_of_ahead_clean (by rw [hleft])⟩
    · rintro -
      exact hl.advance.isExhausted_iff.2 (by rw [hleft])
  | cons c cs =>
    obtain ⟨hreturned, hleft⟩ := Prod.mk.inj hstep
    refine ⟨by rw [hleft], fun _ => ⟨hreturned, by rw [hleft]⟩, ?_, ?_⟩
    · rintro e ⟨⟩
    · rintro ⟨⟩

/-! From one step to a whole run. -/

/-- A move keeps the end of the stream, or leaves nothing of the stream. -/
theorem Sound.ending_stream_move (hl : l.Sound) (h : Move l bytes l') :
    l'.stream.ending = l.stream.ending ∨ l'.stream = ⟨[], .clean⟩ := by
  cases h with
  | step =>
    have hleft := congrArg Prod.snd hl.stream_advance
    simp only at hleft
    rw [hleft]
    exact l.stream.ending_advance
  | stepHolding hb =>
    rw [stream_hold_advance hl.feed.capacity_pos hb]
    exact .inl rfl
  | release => exact .inr rfl
  | tell => exact .inl rfl

theorem Sound.ending_stream_moves (hl : l.Sound) (h : Moves l past l') :
    l'.stream.ending = l.stream.ending ∨ l'.stream = ⟨[], .clean⟩ := by
  induction h with
  | refl => exact .inl rfl
  | @move past bytes l' l'' hms hm ih =>
    have hl' := hl.moves hms
    obtain hkept | hnone := hl'.ending_stream_move hm
    · obtain hbefore | hbefore := ih
      · exact .inl (hkept.trans hbefore)
      · -- with nothing left there is no byte to step past, and nothing comes back
        have hbytes := bytes_stream_move hl' hm
        rw [hbefore] at hbytes hkept
        have hnil := (List.append_eq_nil_iff.1 hbytes.symm).2
        exact .inr (congrArg₂ Stream.mk hnil hkept)
    · exact .inr hnone

/-- A lexer begins with the stream of its source ahead. At every moment afterwards, between two calls and between two
steps of one call, the rest of that stream lies ahead, with its end until that is handed out, and a step drops the
first byte of it. Where no byte lies ahead the lexer is exhausted, and a step changes nothing. -/
theorem moves_withChunkSize_drops (source : Source) (chunk : Nat) :
    (withChunkSize source chunk).ahead = source.stream ∧
    ∀ ops past l, Moves ((withChunkSize source chunk).after ops) past l →
      past ++ l.ahead.bytes <:+ source.stream.bytes ∧
      (l.ahead.ending = source.stream.ending ∨ l.ahead = ⟨[], .clean⟩) ∧
      (∀ b rest ending, l.ahead = ⟨b :: rest, ending⟩ → l.Drops rest ending) ∧
      (l.isExhausted = true ↔ l.ahead.bytes = []) ∧
      (l.isExhausted = true → l.advance = (none, l)) := by
  have hstart := sound_withChunkSize source chunk
  have hstream := stream_withChunkSize source chunk
  refine ⟨hstart.ahead_eq_stream.trans hstream, ?_⟩
  intro ops past l hm
  obtain ⟨before, hbefore⟩ := moves_after (withChunkSize source chunk) ops
  have hmoves := hbefore.trans hm
  have hl := hstart.moves hmoves
  have hbytes := bytes_stream_moves hstart hmoves
  have hending := hstart.ending_stream_moves hmoves
  rw [hstream] at hbytes hending
  rw [hl.ahead_eq_stream]
  refine ⟨⟨before, ?_⟩, hending, ?_, ?_, advance_of_exhausted⟩
  · rw [hbytes, List.append_assoc]
  · intro b rest ending h
    exact hl.drops (hl.ahead_eq_stream.trans h)
  · rw [← hl.ahead_eq_stream]
    exact hl.isExhausted_iff

/-- Behind a symbol, with the next byte loaded and the last one and a failure still with the source; then on the last
byte, with the failure held back; then past it, where a step has held the failure back again. -/
theorem moves_withChunkSize_drops_held :
    let source : Source := [.data [0x3D, 0x6C] (some 1), .fail .interrupted, .data [0x65, 0x2B] none,
      .fail (.simple .timedOut), .data [0x31] none]
    let l := (withChunkSize source 3).after [.next]
    l.ahead = ⟨[0x6C, 0x65, 0x2B], .failure (.simple .timedOut)⟩ ∧
      l.Drops [0x65, 0x2B] (.failure (.simple .timedOut)) ∧
      l.advance.2.advance.2.Drops [] (.failure (.simple .timedOut)) ∧
      (hold l.advance.2.advance.2.advance).advance = (none, hold l.advance.2.advance.2.advance) := by
  intro source l
  have h₁ : l.cursor = .on 0x6C := by decide +kernel
  have h₂ : l.advance.2.cursor = .on 0x65 := by decide +kernel
  have h₃ : l.advance.2.advance.2.cursor = .on 0x2B := by decide +kernel
  have hahead : l.ahead = ⟨[0x6C, 0x65, 0x2B], .failure (.simple .timedOut)⟩ := by decide +kernel
  have hlast : Moves l [0x6C, 0x65] l.advance.2.advance.2 := .move (.move .refl (.step h₁)) (.step h₂)
  have hall := (moves_withChunkSize_drops source 3).2 [.next]
  refine ⟨hahead, ?_, ?_, ?_⟩
  · exact (hall _ _ .refl).2.2.1 _ _ _ hahead
  · exact (hall _ _ hlast).2.2.1 0x2B _ _ (by decide +kernel)
  · exact (hall _ _ (.move hlast (.stepHolding h₃))).2.2.2.2 (by decide +kernel)

end Lexer

end StreamLexer
