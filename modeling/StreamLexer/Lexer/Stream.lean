import StreamLexer.Feed.Stream
import StreamLexer.Lexer

/-! The stream of a lexer: the byte under the cursor, what the feed has still to hand out, and the end. Past
the last byte the end is the failure that is held back, if there is one. Stepping on drops the first byte of
the stream and nothing else. -/
namespace StreamLexer.Lexer

def current? (l : Lexer) : Option UInt8 :=
  match l.cursor with
  | .on b => some b
  | .done _ => none

/-- The failure that was met and not yet told: past the last byte the one that is held back, before it the
one that follows the loaded bytes. -/
def held? (l : Lexer) : Option Error :=
  match l.cursor, l.feed.ending with
  | .done held, _ => held
  | .on _, some (.failure e) => some (.sourceFault e)
  | .on _, _ => none

/-- What is still to come, the byte under the cursor first. -/
def stream (l : Lexer) : Stream :=
  match l.cursor with
  | .on b => l.feed.stream.prepend [b]
  | .done none => ⟨[], .clean⟩
  | .done (some e) => ⟨[], .failure e.cause⟩

theorem current?_eq_none_iff {l : Lexer} : l.current? = none ↔ l.isExhausted = true := by
  unfold current? isExhausted
  cases l.cursor <;> simp

@[simp] theorem stream_tell (l : Lexer) (e : Event) : (l.tell e).stream = l.stream := rfl

/-- A pull that ends without a failure leads to a lexer with the same stream. -/
theorem stream_settle_none {journal : Journal} {p : Feed.Pulled} {l : Lexer}
    (h : settle journal p = (none, l)) : l.stream = p.stream := by
  obtain ⟨front, feed, entries⟩ := p
  rcases front with e | _ | b
  · cases h
  · cases h; rfl
  · cases h; rfl

/-- A failure of a pull is all that was still to come, and the lexer keeps nothing of it. -/
theorem stream_settle_some {journal : Journal} {p : Feed.Pulled} {e : Error} {l : Lexer}
    (h : settle journal p = (some e, l)) :
    p.stream = ⟨[], .failure e.cause⟩ ∧ l.cursor = .done none := by
  obtain ⟨front, feed, entries⟩ := p
  rcases front with e | _ | b
  · cases h; exact ⟨rfl, rfl⟩
  · cases h
  · cases h

/-- A failure that is held back is the end of the stream. -/
theorem stream_hold_settle (journal : Journal) (p : Feed.Pulled) :
    (hold (settle journal p)).stream = p.stream := by
  cases h : settle journal p with
  | mk failure l =>
    cases failure with
    | none => exact stream_settle_none h
    | some e =>
      rw [(stream_settle_some h).1]
      rfl

/-- A lexer that was just constructed has the stream of its source, whatever its chunk size is. -/
theorem stream_withChunkSize (source : Source) (chunk : Nat) :
    (withChunkSize source chunk).stream = source.stream := by
  have hc : 0 < (Feed.ofSource source chunk).capacity := by
    simp only [Feed.ofSource]
    omega
  rw [withChunkSize, stream_hold_settle, Feed.stream_pull hc]
  simp [Feed.stream, Feed.pending, Feed.ofSource]

/-- Stepping on without a failure drops the byte under the cursor. -/
theorem stream_advance_none {l l' : Lexer} {b : UInt8} (hc : 0 < l.feed.capacity)
    (hb : l.cursor = .on b) (h : l.advance = (none, l')) : l.stream = l'.stream.prepend [b] := by
  simp only [advance, hb] at h
  rw [stream_settle_none h, Feed.stream_pull hc]
  simp [stream, hb]

/-- Stepping on with a failure held back drops the byte under the cursor, and keeps the end in any case. -/
theorem stream_hold_advance {l : Lexer} {b : UInt8} (hc : 0 < l.feed.capacity) (hb : l.cursor = .on b) :
    l.stream = (hold l.advance).stream.prepend [b] := by
  simp only [advance, hb, stream_hold_settle, Feed.stream_pull hc]
  simp [stream, hb]

/-- Stepping on meets a failure exactly when it follows the byte under the cursor. -/
theorem stream_advance_some {l l' : Lexer} {b : UInt8} {e : Error} (hc : 0 < l.feed.capacity)
    (hb : l.cursor = .on b) (h : l.advance = (some e, l')) :
    l.stream = ⟨[b], .failure e.cause⟩ ∧ l'.cursor = .done none := by
  simp only [advance, hb] at h
  obtain ⟨hs, hl⟩ := stream_settle_some h
  rw [Feed.stream_pull hc] at hs
  refine ⟨?_, hl⟩
  simp [stream, hb, hs, Stream.prepend]

end StreamLexer.Lexer
