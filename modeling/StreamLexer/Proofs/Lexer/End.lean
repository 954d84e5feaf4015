import StreamLexer.Proofs.Lexer.Advance
import StreamLexer.Proofs.Lexer.Answers

/-! The end of a lexer. A failure of the source is handed out in one answer at most, and what the answers have
not told of it is still at the end of the stream that the lexer shows. An answer with the failure or with the end
in it is the last one: from then on every call answers with the end alone and leaves the lexer as it is. -/
namespace StreamLexer

def failure? {α : Type} : Except Error α → Option Error
  | .ok _ => none
  | .error e => some e

@[simp] theorem failure?_map {α β : Type} (f : α → β) (r : Except Error α) :
    failure? (r.map f) = failure? r := by
  cases r <;> rfl

namespace Source

/-- The failure of a step, unless it only asks for the read to be made again. -/
def Step.failure? : Step → Option IoError
  | .data _ _ => none
  | .fail e => if e.isInterrupted then none else some e
  | .eof => none

def firstFailure? (s : Source) : Option IoError := s.findSome? Step.failure?

/-- A stream that ends in a failure ends in the first one of its source. -/
theorem firstFailure?_of_stream {s : Source} {e : IoError} (h : s.stream.ending = .failure e) :
    s.firstFailure? = some e := by
  fun_induction stream s with
  | case1 => cases h
  | case2 bytes limit rest ih => exact ih h
  | case3 cause rest hi ih =>
    simpa [firstFailure?, Step.failure?, hi] using ih h
  | case4 cause rest hi =>
    cases h
    simp [firstFailure?, Step.failure?, hi]
  | case5 => cases h

end Source

/-- The failures in an answer. -/
def Answer.failures : Answer → List Error
  | .item result => (failure? result).toList
  | .ended => []
  | .tokens result => (failure? result).toList
  | .items results => results.toList.filterMap failure?

/-- Whether an answer says that nothing more is to come, with a failure or without one. -/
def Answer.isLast : Answer → Bool
  | .item (.ok t) => t.isEof
  | .item (.error _) => true
  | .ended => true
  | .tokens _ => true
  | .items _ => true

/-- The answer that a call gives when nothing more is to come. -/
def Operation.atEnd : Operation → Answer
  | next => .item (.ok .eof)
  | iterate => .ended
  | tokenize => .tokens (.ok #[.eof])
  | collect => .items #[]

/-- The failures that a step of a run answered with. -/
def Report.failures (r : Report) : List Error := r.answer.toList.flatMap Answer.failures

namespace Munch

/-- Among the answers that a stream holds, its end is the only failure. -/
theorem filterMap_failure?_items (s : Stream) :
    (items s).filterMap failure? = s.ending.fault?.toList := by
  unfold items
  split
  · rename_i he
    simp [he, Ending.fault?, failure?]
  · rename_i e he
    simp [he, Ending.fault?, failure?]

theorem drained_map_ok_failure (tokens : List Token) (e : Error) :
    drained (tokens.map .ok ++ [.error e]) = .error e := by
  induction tokens with
  | nil => rfl
  | cons t tokens ih => simp [drained, ih, Except.map]

/-- Draining a stream fails exactly with its end. -/
theorem failure?_drained (s : Stream) : failure? (drained (items s)) = s.ending.fault? := by
  unfold items
  split
  · rename_i he
    rw [drained_map_ok, he]
    rfl
  · rename_i e he
    rw [drained_map_ok_failure, he]
    rfl

end Munch

namespace Lexer

/-! What a call answers with and what it leaves, seen on the stream. -/

/-- A call answers with the failure of its stream or leaves it at the end of the stream. -/
theorem failures_answer (s : Stream) (op : Operation) :
    (answer s op).failures ++ (remaining s op).ending.fault?.toList = s.ending.fault?.toList := by
  have hy := Munch.yields_next s
  cases op with
  | next =>
    simp only [answer, remaining, Answer.failures]
    generalize Munch.next s = p at hy
    cases hy with
    | token => rfl
    | fault he => simp [he, failure?, Ending.fault?]
    | eof he => simp [he, failure?, Ending.fault?]
  | iterate =>
    simp only [answer, remaining]
    generalize Munch.next s = p at hy
    cases hy with
    | token _ hi => simp [hi, Answer.failures, failure?]
    | fault he hi => simp [hi, he, Answer.failures, failure?, Ending.fault?]
    | eof he hi => simp [hi, he, Answer.failures, Ending.fault?]
  | tokenize =>
    simp only [answer, remaining, Answer.failures, failure?_map, Munch.failure?_drained]
    exact List.append_nil _
  | collect =>
    simp only [answer, remaining, Answer.failures, Munch.filterMap_failure?_items]
    exact List.append_nil _

/-- Nothing is left behind the last answer. -/
theorem remaining_of_isLast {s : Stream} {op : Operation} (h : (answer s op).isLast = true) :
    remaining s op = ⟨[], .clean⟩ := by
  have hy := Munch.yields_next s
  cases op with
  | next =>
    simp only [answer, remaining] at h ⊢
    generalize Munch.next s = p at hy h
    cases hy with
    | token ht => simp [Answer.isLast, ht] at h
    | fault => rfl
    | eof => rfl
  | iterate =>
    simp only [answer, remaining] at h ⊢
    generalize Munch.next s = p at hy
    cases hy with
    | token ht hi => simp [hi, Answer.isLast, ht] at h
    | fault => rfl
    | eof => rfl
  | tokenize => rfl
  | collect => rfl

/-- Past the end, with nothing left to tell, a call answers with the end and changes nothing. -/
theorem perform_of_ended {l : Lexer} (h : l.cursor = .done none) (op : Operation) :
    op.perform l = (op.atEnd, l) := by
  have hnext := nextToken_ended h
  have hnext? : l.next? = (none, l) := by simp [next?, hnext]
  cases op with
  | next => simp [Operation.perform, Operation.atEnd, hnext]
  | iterate => simp [Operation.perform, Operation.atEnd, hnext?]
  | tokenize => simp [Operation.perform, Operation.atEnd, Lexer.tokenize, tokenizeOnto_eof hnext]
  | collect => simp [Operation.perform, Operation.atEnd, Lexer.collect, collectOnto_none hnext?]

/-- So do all later calls. -/
theorem run_of_ended {l : Lexer} (h : l.cursor = .done none) (ops : List Operation) :
    l.after ops = l ∧ l.run ops = ops.map fun op => ⟨some op.atEnd, true, #[]⟩ := by
  induction ops with
  | nil => exact ⟨rfl, rfl⟩
  | cons op ops ih =>
    obtain ⟨hafter, hrun⟩ := ih
    have hperform := perform_of_ended h op
    refine ⟨?_, ?_⟩
    · simpa [after, hperform] using hafter
    · simp [run, hperform, hrun, report, isExhausted, h]

theorem after_append (l : Lexer) (before ops : List Operation) :
    l.after (before ++ ops) = (l.after before).after ops := List.foldl_append

/-! From one call to a run of calls. -/

section
variable {start : Journal} {told : List Event} {s : Stream} {l : Lexer}

theorem Shows.perform (h : Shows start told s l) (op : Operation) :
    ∃ told' l', op.perform l = (answer s op, l') ∧ Shows start told' (remaining s op) l' := by
  obtain ⟨more, hdet⟩ := determined_perform s op
  obtain ⟨l', heq, hl'⟩ := hdet _ _ _ h
  exact ⟨_, l', heq, hl'⟩

/-- The answers of a run, and the end of the stream that it leaves, hold the failure of the stream once. -/
theorem Shows.failures_run (h : Shows start told s l) (ops : List Operation) :
    ∃ told' s', Shows start told' s' (l.after ops) ∧
      (l.run ops).flatMap Report.failures ++ s'.ending.fault?.toList = s.ending.fault?.toList := by
  induction ops generalizing told s l with
  | nil => exact ⟨told, s, h, rfl⟩
  | cons op ops ih =>
    obtain ⟨told', l', heq, hl'⟩ := h.perform op
    obtain ⟨told'', s', hs', hrun⟩ := ih hl'
    refine ⟨told'', s', ?_, ?_⟩
    · simpa [after, heq] using hs'
    · have hfirst : Report.failures (l'.report l.journal.size (some (answer s op))) = (answer s op).failures := by
        simp [Report.failures, report]
      simp only [run, heq, List.flatMap_cons, hfirst, List.append_assoc, hrun]
      exact failures_answer s op

/-- A failure that is held back is the end of the stream. -/
theorem Shows.ending_of_held (h : Shows start told s l) {e : Error} (he : l.held? = some e) :
    s.ending.fault? = some e := by
  obtain ⟨cause, rfl, -⟩ := h.sound.ending_of_held he
  have hend : l.ahead.ending = .failure cause := by simp [ahead, he, Error.cause]
  rw [← h.stream, ← h.sound.ahead_eq_stream, hend]
  rfl

/-- Over a clean end nothing is held back. -/
theorem Shows.held?_eq_none (h : Shows start told s l) (hs : s.ending.fault? = none) : l.held? = none := by
  cases hheld : l.held? with
  | none => rfl
  | some e =>
    have := h.ending_of_held hheld
    rw [hs] at this
    cases this

/-- The last answer leaves nothing held back. If it comes without a failure, nothing was held back before. -/
theorem Shows.held?_of_isLast (h : Shows start told s l) {op : Operation}
    (hlast : (op.perform l).1.isLast = true) :
    (op.perform l).2.held? = none ∧ ((op.perform l).1.failures = [] → l.held? = none) := by
  obtain ⟨told', l', heq, hl'⟩ := h.perform op
  rw [heq] at hlast ⊢
  have hleft := remaining_of_isLast hlast
  rw [hleft] at hl'
  refine ⟨hl'.held?_eq_none rfl, ?_⟩
  intro hnone
  apply h.held?_eq_none
  have hfail := failures_answer s op
  rw [hnone, hleft] at hfail
  simpa [Ending.fault?, Option.toList_eq_nil_iff] using hfail.symm

/-- Behind the last answer only the end is answered, and nothing changes. -/
theorem Shows.run_of_isLast (h : Shows start told s l) {op : Operation}
    (hlast : (op.perform l).1.isLast = true) (later : List Operation) :
    (op.perform l).2.after later = (op.perform l).2 ∧
      (op.perform l).2.run later = later.map fun op => ⟨some op.atEnd, true, #[]⟩ := by
  obtain ⟨told', l', heq, hl'⟩ := h.perform op
  rw [heq] at hlast ⊢
  rw [remaining_of_isLast hlast] at hl'
  exact run_of_ended hl'.cursor_nil later

end

/-- Between any two calls a lexer shows a stream. -/
theorem exists_shows_after (source : Source) (chunk : Nat) (ops : List Operation) :
    ∃ told s, Shows #[] told s ((withChunkSize source chunk).after ops) := by
  obtain ⟨told, s, hs, -⟩ := (shows_withChunkSize (Eq.refl source.stream) chunk).failures_run ops
  exact ⟨told, s, hs⟩

/-- All failures that are answered, if there are any, are one: the first failure of the source. -/
theorem failures_session (source : Source) (chunk : Nat) (ops : List Operation) :
    ((session source chunk ops).flatMap Report.failures).length ≤ 1 ∧
      ∀ e ∈ (session source chunk ops).flatMap Report.failures,
        ∃ cause, e = .sourceFault cause ∧ source.firstFailure? = some cause := by
  have hstart : Shows #[] _ source.stream (withChunkSize source chunk) :=
    shows_withChunkSize (Eq.refl source.stream) chunk
  obtain ⟨-, s, -, hfail⟩ := hstart.failures_run ops
  have hsession : (session source chunk ops).flatMap Report.failures =
      ((withChunkSize source chunk).run ops).flatMap Report.failures := rfl
  rw [hsession]
  refine ⟨?_, ?_⟩
  · have hlen := congrArg List.length hfail
    have hle : source.stream.ending.fault?.toList.length ≤ 1 := Option.length_toList_le
    rw [List.length_append] at hlen
    omega
  · intro e he
    have hmem := List.mem_append_left s.ending.fault?.toList he
    rw [hfail, Option.mem_toList] at hmem
    obtain ⟨cause, hcause, rfl⟩ := Ending.fault?_eq_some_iff.1 hmem
    exact ⟨cause, rfl, Source.firstFailure?_of_stream hcause⟩

/-! A lexer that is exhausted stays exhausted. -/

theorem exhausted_move {l l' : Lexer} {bytes : List UInt8} (h : Move l bytes l')
    (hx : l.isExhausted = true) : l'.isExhausted = true := by
  cases h with
  | step hb => simp [isExhausted, hb] at hx
  | stepHolding hb => simp [isExhausted, hb] at hx
  | release => rfl
  | tell => exact hx

theorem exhausted_moves {l l' : Lexer} {past : List UInt8} (h : Moves l past l')
    (hx : l.isExhausted = true) : l'.isExhausted = true := by
  induction h with
  | refl => exact hx
  | move _ hm ih => exact exhausted_move hm ih

theorem exhausted_run {l : Lexer} (hx : l.isExhausted = true) (ops : List Operation) :
    ∀ r ∈ l.run ops, r.exhausted = true := by
  induction ops generalizing l with
  | nil => simp [run]
  | cons op ops ih =>
    obtain ⟨past, hm⟩ := moves_perform l op
    have hx' := exhausted_moves hm hx
    intro r hr
    rcases List.mem_cons.1 hr with rfl | hr
    · exact hx'
    · exact ih hx' r hr

theorem exhausted_run_pairwise (l : Lexer) (ops : List Operation) :
    (l.run ops).Pairwise fun r r' => r.exhausted = true → r'.exhausted = true := by
  induction ops generalizing l with
  | nil => exact .nil
  | cons op ops ih =>
    refine .cons ?_ (ih _)
    intro r hr hx
    exact exhausted_run hx ops r hr

/-- Whatever is asked of a lexer, its source's failure is answered with once at most, and is the first one of the
source. After the last answer nothing happens any more, and only the end is answered. The end is never
answered while a failure is held back, and what is exhausted stays so. -/
theorem session_end_absorbing (source : Source) (chunk : Nat) :
    (∀ ops, ((session source chunk ops).flatMap Report.failures).length ≤ 1 ∧
      ∀ e ∈ (session source chunk ops).flatMap Report.failures,
        ∃ cause, e = .sourceFault cause ∧ source.firstFailure? = some cause) ∧
    (∀ (before : List Operation) (op : Operation) (later : List Operation),
      (op.perform ((withChunkSize source chunk).after before)).1.isLast = true →
      (withChunkSize source chunk).after (before ++ op :: later) =
          (withChunkSize source chunk).after (before ++ [op]) ∧
        ((withChunkSize source chunk).after (before ++ [op])).run later =
          later.map fun op => ⟨some op.atEnd, true, #[]⟩) ∧
    (∀ ops, (session source chunk ops).Pairwise fun r r' => r.exhausted = true → r'.exhausted = true) ∧
    (∀ (before : List Operation) (op : Operation),
      (op.perform ((withChunkSize source chunk).after before)).1.isLast = true →
      (op.perform ((withChunkSize source chunk).after before)).2.held? = none ∧
        ((op.perform ((withChunkSize source chunk).after before)).1.failures = [] →
          ((withChunkSize source chunk).after before).held? = none)) := by
  refine ⟨failures_session source chunk, ?_, ?_, ?_⟩
  · intro before op later hlast
    obtain ⟨told, s, hs⟩ := exists_shows_after source chunk before
    have hop : (withChunkSize source chunk).after (before ++ [op]) =
        (op.perform ((withChunkSize source chunk).after before)).2 := after_append _ _ _
    obtain ⟨hafter, hrun⟩ := hs.run_of_isLast hlast later
    rw [List.append_cons, after_append, hop]
    exact ⟨hafter, hrun⟩
  · intro ops
    refine .cons ?_ (exhausted_run_pairwise _ ops)
    intro r hr hx
    exact exhausted_run hx ops r hr
  · intro before op hlast
    obtain ⟨told, s, hs⟩ := exists_shows_after source chunk before
    exact hs.held?_of_isLast hlast

/-- Collecting meets the failure behind a symbol. What the source has behind it is never asked for. -/
theorem session_end_absorbing_collect :
    (Operation.collect.perform ((withChunkSize [.data [0x6C, 0x65] (some 1), .fail .interrupted,
        .data [0x3D] none, .fail (.simple .timedOut), .data [0x31] none] 2).after [.next])).1.isLast = true ∧
    ((withChunkSize [.data [0x6C, 0x65] (some 1), .fail .interrupted, .data [0x3D] none,
        .fail (.simple .timedOut), .data [0x31] none] 2).after [.next, .collect]).run
        [.tokenize, .iterate, .next, .collect] =
      [⟨some (.tokens (.ok #[.eof])), true, #[]⟩, ⟨some .ended, true, #[]⟩,
        ⟨some (.item (.ok .eof)), true, #[]⟩, ⟨some (.items #[]), true, #[]⟩] :=
  ⟨rfl, ((session_end_absorbing _ 2).2.1 [.next] .collect _ rfl).2⟩

end Lexer

end StreamLexer
