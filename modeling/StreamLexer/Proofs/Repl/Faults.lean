import StreamLexer.Proofs.Repl.Session

/-! Reads that fail or bring nothing in the middle of a session. A failure takes the line that has begun and is told
as it is. An end in the middle of a line is as good as a line feed; behind any other end nothing is read. How the
bytes are delivered, and how often a read is interrupted, cannot be seen. -/
namespace StreamLexer

def Source.Step.isInterruption : Step → Bool
  | .fail e => e.isInterrupted
  | _ => false

namespace LineReader.Progress

variable {p : Progress}

/-- An end in the middle of a line is as good as a line feed. -/
theorem lines_eof_of_begun (h : p.begun ≠ []) (limit : Option Nat) (post : Source) :
    p.lines (.eof :: post) = p.lines (.data [Byte.newline] limit :: post) := by
  have heof : p.step? .eof = some p.endLine := if_neg h
  have hdata : p.step? (.data [Byte.newline] limit) = some p.endLine := by simp [step?]
  rw [lines_of_step heof, lines_of_step hdata]

/-- Behind an end that is not in the middle of a line nothing is read. -/
theorem lines_eof_of_not_begun (h : p.begun = []) (post post' : Source) :
    p.lines (.eof :: post) = p.lines (.eof :: post') := by
  have heof : p.step? .eof = none := if_pos h
  rw [lines_of_stop heof, lines_of_stop heof]

theorem lines_data_append (p : Progress) (bytes bytes' : List UInt8) (limit limit' limit'' : Option Nat)
    (post : Source) : p.lines (.data (bytes ++ bytes') limit :: post) =
      p.lines (.data bytes limit' :: .data bytes' limit'' :: post) := by
  simp only [lines, step?, feed_append]

theorem lines_data_limit (p : Progress) (bytes : List UInt8) (limit limit' : Option Nat) (post : Source) :
    p.lines (.data bytes limit :: post) = p.lines (.data bytes limit' :: post) := rfl

theorem lines_filter_interruptions (p : Progress) (source : Source) :
    p.lines (source.filter fun s => !s.isInterruption) = p.lines source := by
  induction source generalizing p with
  | nil => rfl
  | cons s rest ih =>
    cases hs : s.isInterruption with
    | true =>
      have hstep : p.step? s = some p := by
        cases s with
        | fail e => exact if_pos hs
        | data bytes limit => cases hs
        | eof => cases hs
      rw [List.filter_cons_of_neg (by simp [hs]), ih, lines_of_step hstep]
    | false =>
      rw [List.filter_cons_of_pos (by simp [hs])]
      simp only [lines]
      split
      · exact ih _
      · rfl

end LineReader.Progress

namespace Repl

open LineReader (Progress)

/-- Sources whose steps come to the same lines are not told apart. -/
theorem seen_congr_lines {source source' : Source} (h : Progress.start.lines source = Progress.start.lines source')
    (b : Sink.Behaviour) : seen source b = seen source' b := by
  refine seen_congr ?_ b
  rw [Source.lines_eq, Source.lines_eq, h]

/-- As long as the sink takes everything, a session fails exactly at a read failure that its input comes to. -/
theorem result_seen_eq_error_iff {source : Source} {b : Sink.Behaviour} {err : Error} (hb : b.Reliable) :
    (seen source b).result = .error err ↔
      ∃ pre post q e, source = pre ++ .fail e :: post ∧ Progress.start.run? pre = some q ∧
        e.isInterrupted = false ∧ err = .io e := by
  rcases hlines : source.lines with ⟨lines, ending⟩
  have hwhole : Progress.start.lines source = (lines, ending) := by rw [← Source.lines_eq, hlines]
  constructor
  · intro h
    cases ending with
    | clean =>
      rw [seen_of_clean hb hlines] at h
      cases h
    | failure e =>
      rw [seen_of_failure hb hlines] at h
      cases h
      obtain ⟨pre, post, q, hsource, hrun, he, -⟩ := Progress.lines_eq_failure_iff.1 hwhole
      exact ⟨pre, post, q, e, hsource, hrun, he, rfl⟩
  · rintro ⟨pre, post, q, e, hsource, hrun, he, rfl⟩
    have hfailure := Progress.lines_eq_failure_iff.2 ⟨pre, post, q, hsource, hrun, he, rfl⟩
    rw [← Source.lines_eq] at hfailure
    rw [seen_of_failure hb hfailure]
    rfl

/-- What each kind of step does to a session, wherever it stands and whatever comes behind it. A failure that the
input comes to ends the session with an error of its own, and only the lines that are complete are shown. An end in
the middle of a line can be replaced by a line feed, and nothing behind any other end matters. Interruptions, and how
the bytes are delivered, do not matter. -/
theorem seen_of_steps (pre post : Source) (b : Sink.Behaviour) :
    (∀ q, Progress.start.run? pre = some q →
      (∀ e, e.isInterrupted = false → b.Reliable →
        seen (pre ++ .fail e :: post) b = .ofPortions (.error (.io e)) (portions (q.completed.map Munch.tokens))) ∧
      (q.begun ≠ [] → ∀ limit,
        seen (pre ++ .eof :: post) b = seen (pre ++ .data [Byte.newline] limit :: post) b) ∧
      (q.begun = [] → seen (pre ++ .eof :: post) b = seen (pre ++ [.eof]) b)) ∧
    seen ((pre ++ post).filter fun s => !s.isInterruption) b = seen (pre ++ post) b ∧
    (∀ bytes bytes' limit limit' limit'', seen (pre ++ .data (bytes ++ bytes') limit :: post) b =
      seen (pre ++ .data bytes limit' :: .data bytes' limit'' :: post) b) ∧
    ∀ bytes limit limit',
      seen (pre ++ .data bytes limit :: post) b = seen (pre ++ .data bytes limit' :: post) b := by
  refine ⟨?_, seen_congr_lines (Progress.lines_filter_interruptions _ _) b, ?_, ?_⟩
  · intro q hrun
    have hreached := Progress.lines_append hrun
    refine ⟨?_, ?_, ?_⟩
    · intro e he hb
      refine seen_of_failure hb ?_
      rw [Source.lines_eq, hreached, Progress.lines_fail he]
    · intro hbegun limit
      refine seen_congr_lines ?_ b
      rw [hreached, hreached, Progress.lines_eof_of_begun hbegun limit]
    · intro hbegun
      refine seen_congr_lines ?_ b
      rw [hreached, hreached, Progress.lines_eof_of_not_begun hbegun post []]
  · intro bytes bytes' limit limit' limit''
    refine seen_congr_lines (Progress.lines_append_congr ?_ _ pre) b
    exact fun q => q.lines_data_append bytes bytes' limit limit' limit'' post
  · intro bytes limit limit'
    refine seen_congr_lines (Progress.lines_append_congr ?_ _ pre) b
    exact fun q => q.lines_data_limit bytes limit limit' post

/-- Behind a complete line another one has begun: a failure takes it, and an end of the stream closes it. Behind the
complete line alone an end of the stream is the end of the input. -/
theorem seen_of_steps_line :
    seen [.data [0x61, 0x0A, 0x62] none, .fail (.simple .other), .data [0x63] none] .patient =
      .ofPortions (.error (.io (.simple .other))) (portions [Munch.tokens [0x61]]) ∧
    seen [.data [0x61, 0x0A, 0x62] none, .eof, .data [0x63] none] .patient =
      seen [.data [0x61, 0x0A, 0x62] none, .data [Byte.newline] none, .data [0x63] none] .patient ∧
    seen [.data [0x61, 0x0A] none, .eof, .data [0x63] none] .patient =
      seen [.data [0x61, 0x0A] none, .eof] .patient := by
  have hbegun := (seen_of_steps [.data [0x61, 0x0A, 0x62] none] [.data [0x63] none] .patient).1 ⟨[[0x61]], [0x62]⟩ rfl
  have hwhole := (seen_of_steps [.data [0x61, 0x0A] none] [.data [0x63] none] .patient).1 ⟨[[0x61]], []⟩ rfl
  exact ⟨hbegun.1 (.simple .other) rfl Sink.Behaviour.reliable_patient, hbegun.2.1 (by decide) none, hwhole.2.2 rfl⟩

end Repl

end StreamLexer
