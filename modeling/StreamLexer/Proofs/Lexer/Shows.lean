import StreamLexer.Proofs.Lexer.Sound
import StreamLexer.Proofs.Munch.Span

/-! A lexer shows a stream. However its source splits the bytes, wherever its chunks begin and however much of
the end it has read ahead, a lexer answers as maximal munch on the stream that it shows, and then shows the
stream that is left. What it tells of tokens and of the end is determined by the stream as well. -/
namespace StreamLexer

/-- Whether an event tells of a token or of the end, and not of how the bytes were read. -/
def Event.isOutward : Event → Bool
  | .token _ => true
  | .exhausted => true
  | .refilled _ _ => false
  | .fault _ _ => false

namespace Journal

def outward (j : Journal) : List Event := j.events.filter Event.isOutward

theorem outward_append (a b : Journal) : outward (a ++ b) = outward a ++ outward b := by
  simp [outward, events_append]

theorem outward_push_event (j : Journal) (e : Event) :
    outward (j.push (.event e)) = j.outward ++ [e].filter Event.isOutward := by
  simp [outward, Entry.event?]

end Journal

theorem Gathered.outward_entries {g : Gathered} (h : g.reads.events = []) : g.entries.outward = [] := by
  unfold entries
  split
  · simp [Journal.outward, Entry.event?, Event.isOutward, h]
  · simp [Journal.outward, Entry.event?, Event.isOutward, h]
  · split <;> simp [Journal.outward, Entry.event?, Event.isOutward, h]

/-- A pull has nothing outward to tell. -/
theorem Feed.outward_pull {f : Feed} (hf : f.Sound) : f.pull.entries.outward = [] := by
  have hp := hf.pulls
  generalize f.pull = p at hp
  cases hp with
  | loaded => rfl
  | ended => rfl
  | refilled _ _ hg =>
    apply Gathered.outward_entries
    rw [← hg, events_gather]
    rfl
  | emptied _ _ hg =>
    apply Gathered.outward_entries
    rw [← hg, events_gather]
    rfl

namespace Lexer

/-- A lexer that stands before the stream `s`, and has told `told` of it since its journal was `start`. -/
structure Shows (start : Journal) (told : List Event) (s : Stream) (l : Lexer) : Prop where
  sound : l.Sound
  stream : l.stream = s
  journal : ∃ later, l.journal = start ++ later ∧ Journal.outward later = told

variable {start : Journal} {told : List Event} {l : Lexer} {b : UInt8} {bs : List UInt8} {ending : Ending}

/-- A sound lexer shows its own stream. -/
theorem Sound.shows (hl : l.Sound) : Shows l.journal [] l.stream l := ⟨hl, rfl, #[], by simp, rfl⟩

/-- A lexer that shows a byte stands on it, with the rest of the stream still to come from the feed. -/
theorem Shows.cursor_cons (h : Shows start told ⟨b :: bs, ending⟩ l) :
    l.cursor = .on b ∧ l.feed.stream = ⟨bs, ending⟩ := by
  have hs := h.stream
  unfold Lexer.stream at hs
  split at hs
  · rename_i c hc
    simp only [Stream.prepend, List.singleton_append, Stream.mk.injEq, List.cons.injEq] at hs
    obtain ⟨⟨rfl, rfl⟩, rfl⟩ := hs
    exact ⟨hc, rfl⟩
  · cases hs
  · cases hs

/-- A lexer that shows no byte stands past the last one, and holds back the failure of the end. -/
theorem Shows.cursor_nil (h : Shows start told ⟨[], ending⟩ l) : l.cursor = .done ending.fault? := by
  have hs := h.stream
  have hfits := h.sound.cursor
  unfold Lexer.stream at hs
  split at hs
  · simp [Stream.prepend] at hs
  · rename_i hc
    cases hs
    exact hc
  · rename_i e hc
    cases hs
    rw [hc] at hfits
    obtain ⟨-, -, met, -, hheld⟩ := hfits
    obtain ⟨cause, -, rfl⟩ := Ending.fault?_eq_some_iff.1 (hheld e rfl)
    exact hc

theorem Shows.isExhausted {s : Stream} (h : Shows start told s l) :
    l.isExhausted = s.bytes.isEmpty := by
  obtain ⟨bytes, ending⟩ := s
  cases bytes with
  | nil => simp [Lexer.isExhausted, h.cursor_nil]
  | cons b bs => simp [Lexer.isExhausted, h.cursor_cons.1]

theorem Shows.tell (h : Shows start told ⟨bs, ending⟩ l) (t : Token) :
    Shows start (told ++ [.token t]) ⟨bs, ending⟩ (l.tell (.token t)) := by
  obtain ⟨later, hj, ho⟩ := h.journal
  refine ⟨⟨h.sound.feed, h.sound.cursor⟩, h.stream, later.push (.event (.token t)), ?_, ?_⟩
  · rw [journal_tell, hj, Array.push_append]
  · rw [Journal.outward_push_event, ho]
    rfl

/-- Where a pull leads: on the next byte of the stream, or past its last one, and then the end is told and its
failure is handed out or held back. -/
theorem shows_settle {f : Feed} {journal : Journal} (hf : f.Sound) (hs : f.stream = ⟨bs, ending⟩)
    (hj : ∃ later, journal = start ++ later ∧ Journal.outward later = told) :
    (bs ≠ [] ∧ ∃ l, settle journal f.pull = (none, l) ∧ Shows start told ⟨bs, ending⟩ l) ∨
    (bs = [] ∧ ∃ l, settle journal f.pull = (ending.fault?, l) ∧
      Shows start (told ++ [.exhausted]) ⟨[], .clean⟩ l ∧
      Shows start (told ++ [.exhausted]) ⟨[], ending⟩ (hold (ending.fault?, l))) := by
  obtain ⟨later, rfl, rfl⟩ := hj
  have hpull := Feed.stream_pull hf.capacity_pos
  have hsettle := sound_settle hf (start ++ later)
  have hheld := sound_hold_settle hf (start ++ later)
  have hout : Journal.outward (later ++ f.pull.entries) = Journal.outward later := by
    rw [Journal.outward_append, Feed.outward_pull hf, List.append_nil]
  rw [hs] at hpull
  obtain ⟨c, hc, heq⟩ | ⟨met, -, hfront, heq⟩ := settle_cases hf (start ++ later)
  · have hcons : f.pull.feed.stream.prepend [c] = ⟨bs, ending⟩ := by
      simpa [Feed.Pulled.stream, hc] using hpull
    left
    rw [heq] at hsettle ⊢
    refine ⟨?_, _, rfl, hsettle, hcons, later ++ f.pull.entries, ?_, hout⟩
    · rintro rfl
      simp [Stream.prepend] at hcons
    · rw [Array.append_assoc]
  · have hend : (⟨[], met⟩ : Stream) = ⟨bs, ending⟩ := by
      rw [← hpull, ← Feed.Pulled.stream_ending met f.pull.feed f.pull.entries, ← hfront]
    cases hend
    right
    rw [heq] at hsettle hheld ⊢
    have hjournal : ∃ more,
        (start ++ later ++ f.pull.entries).push (.event .exhausted) = start ++ more ∧
          Journal.outward more = Journal.outward later ++ [.exhausted] := by
      refine ⟨(later ++ f.pull.entries).push (.event .exhausted), ?_, ?_⟩
      · rw [Array.append_assoc, Array.push_append]
      · rw [Journal.outward_push_event, hout]
        rfl
    refine ⟨rfl, _, rfl, ⟨hsettle, rfl, hjournal⟩, ⟨hheld, ?_, ?_⟩⟩
    · cases ending <;> rfl
    · rw [hold_end]
      exact hjournal

/-- A step drops the first byte of the stream. A failure that follows the last byte goes to the caller. -/
theorem Shows.advance (h : Shows start told ⟨b :: bs, ending⟩ l) :
    (bs ≠ [] ∧ ∃ l', l.advance = (none, l') ∧ Shows start told ⟨bs, ending⟩ l') ∨
    (bs = [] ∧ ∃ l', l.advance = (ending.fault?, l') ∧
      Shows start (told ++ [.exhausted]) ⟨[], .clean⟩ l') := by
  obtain ⟨hcur, hfeed⟩ := h.cursor_cons
  simp only [Lexer.advance, hcur]
  obtain ⟨hne, hstep⟩ | ⟨hnil, l', heq, hl', -⟩ := shows_settle h.sound.feed hfeed h.journal
  · exact .inl ⟨hne, hstep⟩
  · exact .inr ⟨hnil, l', heq, hl'⟩

/-- A step that holds a failure back drops the first byte and nothing else. -/
theorem Shows.hold_advance (h : Shows start told ⟨b :: bs, ending⟩ l) :
    Shows start (told ++ Munch.exhausts ⟨b :: bs, ending⟩ ⟨bs, ending⟩) ⟨bs, ending⟩ (hold l.advance) := by
  obtain ⟨hcur, hfeed⟩ := h.cursor_cons
  simp only [Lexer.advance, hcur]
  obtain ⟨hne, l', heq, hl'⟩ | ⟨rfl, l', heq, -, hheld⟩ := shows_settle h.sound.feed hfeed h.journal
  · rw [heq, Munch.exhausts_of_ne (by simpa using hne), List.append_nil]
    exact hl'
  · rw [heq, Munch.exhausts_cons_nil]
    exact hheld

/-- A lexer that was just constructed shows the stream of its source, whatever its chunk size is. -/
theorem shows_withChunkSize {source : Source} (h : source.stream = ⟨bs, ending⟩) (chunk : Nat) :
    Shows #[] (if bs = [] then [.exhausted] else []) ⟨bs, ending⟩ (withChunkSize source chunk) := by
  have hs : (Feed.ofSource source chunk).stream = ⟨bs, ending⟩ := by
    simpa [Feed.stream, Feed.pending, Feed.ofSource] using h
  have hj : ∃ later, (#[] : Journal) = #[] ++ later ∧ Journal.outward later = [] :=
    ⟨#[], by simp, rfl⟩
  unfold withChunkSize
  obtain ⟨hne, l', heq, hl'⟩ | ⟨rfl, l', heq, -, hheld⟩ :=
    shows_settle (Feed.sound_ofSource source chunk) hs hj
  · rw [heq, if_neg hne]
    exact hl'
  · rw [heq, if_pos rfl]
    exact hheld

end Lexer

end StreamLexer
