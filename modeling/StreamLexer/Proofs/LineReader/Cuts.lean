import StreamLexer.Proofs.Feed.Pull
import StreamLexer.Proofs.LineReader.Progress

/-! Lines of a byte string. Each line feed ends one, and bytes behind the last line feed are a line of their own;
behind it there is no empty line. A source that neither ends early nor fails is read as the lines of all its bytes,
and these are also the bytes of its stream. -/
namespace StreamLexer

namespace LineReader

/-- Cutting bytes into lines. -/
inductive Cuts : List UInt8 → List (List UInt8) → Prop
  | nil : Cuts [] []
  | last {line : List UInt8} (hne : line ≠ []) (hline : Byte.newline ∉ line) : Cuts line [line]
  | line {line rest : List UInt8} {lines : List (List UInt8)} (hline : Byte.newline ∉ line)
      (tail : Cuts rest lines) : Cuts (line ++ Byte.newline :: rest) (line :: lines)

/-- The lines of bytes that come one after the other. -/
def cut (bytes : List UInt8) : List (List UInt8) := (Progress.start.feed bytes).close

namespace Progress

/-- Bytes without a line feed belong to the line that has begun. -/
theorem feed_of_notMem {line : List UInt8} (p : Progress) (h : Byte.newline ∉ line) :
    p.feed line = ⟨p.completed, p.begun ++ line⟩ := by
  induction line generalizing p with
  | nil => simp
  | cons b line ih =>
    have hb : b ≠ Byte.newline := fun heq => h (heq ▸ List.mem_cons_self)
    rw [feed_cons, push_of_ne p hb, ih _ fun hmem => h (List.mem_cons_of_mem b hmem)]
    simp

/-- Lines that were complete before stay in front. -/
theorem feed_completed (done : List (List UInt8)) (p : Progress) (bytes : List UInt8) :
    (⟨done ++ p.completed, p.begun⟩ : Progress).feed bytes =
      ⟨done ++ (p.feed bytes).completed, (p.feed bytes).begun⟩ := by
  induction bytes generalizing p with
  | nil => rfl
  | cons b bytes ih =>
    have hpush : (⟨done ++ p.completed, p.begun⟩ : Progress).push b =
        ⟨done ++ (p.push b).completed, (p.push b).begun⟩ := by
      unfold push
      split <;> simp [endLine]
    rw [feed_cons, feed_cons, hpush, ih]

theorem close_completed (done : List (List UInt8)) (p : Progress) :
    (⟨done ++ p.completed, p.begun⟩ : Progress).close = done ++ p.close := by
  unfold close endLine
  split <;> simp

end Progress

/-- The first line ends at the first line feed. -/
theorem cut_line {line : List UInt8} (h : Byte.newline ∉ line) (rest : List UInt8) :
    cut (line ++ Byte.newline :: rest) = line :: cut rest := by
  have hline : Progress.start.feed (line ++ [Byte.newline]) = ⟨[line], []⟩ := by
    rw [Progress.feed_append, Progress.feed_of_notMem _ h]
    simp [Progress.start, Progress.endLine]
  have hrest := Progress.feed_completed [line] Progress.start rest
  rw [List.append_cons, cut, Progress.feed_append, hline]
  simp only [Progress.start, List.append_nil] at hrest
  rw [hrest, Progress.close_completed]
  rfl

theorem cut_last {line : List UInt8} (hne : line ≠ []) (h : Byte.newline ∉ line) : cut line = [line] := by
  rw [cut, Progress.feed_of_notMem _ h]
  simp [Progress.start, Progress.close, Progress.endLine, hne]

theorem Cuts.eq_cut {bytes : List UInt8} {lines : List (List UInt8)} (h : Cuts bytes lines) : lines = cut bytes := by
  induction h with
  | nil => rfl
  | last hne hline => rw [cut_last hne hline]
  | line hline _ ih => rw [cut_line hline, ih]

theorem cuts_cut (bytes : List UInt8) : Cuts bytes (cut bytes) := by
  -- the bytes in front of the first line feed, and those behind it
  induction hn : bytes.length using Nat.strongRecOn generalizing bytes with
  | ind n ih =>
    subst hn
    by_cases hmem : Byte.newline ∈ bytes
    · obtain ⟨line, rest, hbytes, hline⟩ := List.eq_append_cons_of_mem hmem
      subst hbytes
      have hlt : rest.length < (line ++ Byte.newline :: rest).length := by
        rw [List.length_append, List.length_cons]
        omega
      rw [cut_line hline]
      exact .line hline (ih _ hlt rest rfl)
    · by_cases hne : bytes = []
      · subst hne
        exact .nil
      · rw [cut_last hne hmem]
        exact .last hne hmem

/-- Bytes are cut into lines in one way. -/
theorem cuts_iff {bytes : List UInt8} {lines : List (List UInt8)} : Cuts bytes lines ↔ lines = cut bytes := by
  constructor
  · exact Cuts.eq_cut
  · rintro rfl
    exact cuts_cut bytes

end LineReader

namespace Source

/-- Whether the input may end at a step. -/
def Step.breaks : Step → Bool
  | .data _ _ => false
  | .fail e => !e.isInterrupted
  | .eof => true

theorem run?_of_unbroken {source : Source} (h : ∀ s ∈ source, s.breaks = false) (p : LineReader.Progress) :
    p.run? source = some (p.feed source.bytes) := by
  induction source generalizing p with
  | nil => rfl
  | cons s rest ih =>
    obtain ⟨hs, hrest⟩ := List.forall_mem_cons.1 h
    have hstep : p.step? s = some (p.feed s.bytes) := by
      cases s with
      | data bytes limit => rfl
      | fail e =>
        have he : e.isInterrupted = true := by simpa [Step.breaks] using hs
        simp [LineReader.Progress.step?, he, Step.bytes]
      | eof => cases hs
    rw [LineReader.Progress.run?_cons, hstep, Option.bind_some, ih hrest, ← LineReader.Progress.feed_append]
    rfl

/-- A source without an early end is read as the lines of its bytes. -/
theorem lines_of_unbroken {source : Source} (h : ∀ s ∈ source, s.breaks = false) :
    source.lines = (LineReader.cut source.bytes, .clean) := by
  have hrun := LineReader.Progress.lines_append (run?_of_unbroken h .start) []
  rw [List.append_nil] at hrun
  rw [lines_eq, hrun]
  rfl

theorem stream_of_unbroken {source : Source} (h : ∀ s ∈ source, s.breaks = false) :
    source.stream = ⟨source.bytes, .clean⟩ := by
  induction source with
  | nil => rfl
  | cons s rest ih =>
    obtain ⟨hs, hrest⟩ := List.forall_mem_cons.1 h
    cases s with
    | data bytes limit => simp [stream, ih hrest, Stream.prepend, Source.bytes, Step.bytes]
    | fail e =>
      have he : e.isInterrupted = true := by simpa [Step.breaks] using hs
      simp [stream, ih hrest, he, Source.bytes, Step.bytes]
    | eof => cases hs

/-- A source that fails before the first byte fails before the first line. -/
theorem lines_of_unread {source : Source} {e : IoError} (h : source.stream = ⟨[], .failure e⟩) :
    source.lines = ([], .failure e) := by
  rw [lines_eq]
  induction source with
  | nil => cases h
  | cons s rest ih =>
    cases s with
    | data bytes limit =>
      obtain ⟨hbytes, hending⟩ := Stream.mk.inj h
      obtain ⟨rfl, hnil⟩ := List.append_eq_nil_iff.1 hbytes
      have hrest : stream rest = ⟨[], .failure e⟩ := by rw [← hnil, ← hending]
      rw [LineReader.Progress.lines_of_step rfl, LineReader.Progress.feed_nil, ih hrest]
    | fail e' =>
      rw [stream] at h
      split at h
      · rename_i he
        have hstep : LineReader.Progress.start.step? (.fail e') = some .start := if_pos he
        rw [LineReader.Progress.lines_of_step hstep, ih h]
      · rename_i he
        cases h
        exact LineReader.Progress.lines_fail (by simpa using he) _ _
    | eof => cases h

end Source

end StreamLexer
