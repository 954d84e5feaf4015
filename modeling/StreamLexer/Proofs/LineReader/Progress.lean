import StreamLexer.LineReader

/-! How far the lines of an input come with each step of its source. A data step adds its bytes, and a line feed
among them completes a line; an end in the middle of a line completes it and the next line reads on; any other end,
and a failure that is no interruption, is the end of the input. Reading lines through a buffer comes to the same,
whatever the reads bring. -/
namespace StreamLexer

namespace LineReader

/-- The lines that are complete, and the bytes of the one that has begun. -/
structure Progress where
  completed : List (List UInt8)
  begun : List UInt8
  deriving DecidableEq, Repr

namespace Progress

def start : Progress := ⟨[], []⟩

/-- The line that has begun is complete. -/
def endLine (p : Progress) : Progress := ⟨p.completed ++ [p.begun], []⟩

def push (p : Progress) (b : UInt8) : Progress :=
  if b = Byte.newline then p.endLine else ⟨p.completed, p.begun ++ [b]⟩

def feed (p : Progress) (bytes : List UInt8) : Progress := bytes.foldl push p

/-- All lines when nothing more comes. A line that has begun is one of them. -/
def close (p : Progress) : List (List UInt8) := if p.begun = [] then p.completed else p.endLine.completed

/-- Where a step leads if the input goes on behind it. -/
def step? (p : Progress) : Source.Step → Option Progress
  | .data bytes _ => some (p.feed bytes)
  | .fail e => if e.isInterrupted then some p else none
  | .eof => if p.begun = [] then none else some p.endLine

/-- Where the steps of a source lead if the input goes on behind them. -/
def run? (p : Progress) (source : Source) : Option Progress := source.foldlM step? p

end Progress

end LineReader

/-- How the input ends at a step behind which it does not go on. -/
def Source.Step.ending : Source.Step → Ending
  | .fail e => .failure e
  | _ => .clean

namespace LineReader.Progress

/-- All lines of an input that has come this far, and how it ends. A failure takes the line that has begun. -/
def lines (p : Progress) : Source → List (List UInt8) × Ending
  | [] => (p.close, .clean)
  | s :: rest =>
    match p.step? s with
    | some p => p.lines rest
    | none => (p.completed, s.ending)

variable {p q : Progress} {s : Source.Step} {pre post : Source}

@[simp] theorem feed_nil (p : Progress) : p.feed [] = p := rfl

@[simp] theorem feed_cons (p : Progress) (b : UInt8) (bytes : List UInt8) :
    p.feed (b :: bytes) = (p.push b).feed bytes := rfl

theorem feed_append (p : Progress) (bytes bytes' : List UInt8) :
    p.feed (bytes ++ bytes') = (p.feed bytes).feed bytes' := List.foldl_append

@[simp] theorem push_newline (p : Progress) : p.push Byte.newline = p.endLine := if_pos rfl

theorem push_of_ne {b : UInt8} (p : Progress) (h : b ≠ Byte.newline) :
    p.push b = ⟨p.completed, p.begun ++ [b]⟩ := if_neg h

theorem lines_of_step (h : p.step? s = some q) (post : Source) : p.lines (s :: post) = q.lines post := by
  simp only [lines, h]

theorem lines_of_stop (h : p.step? s = none) (post : Source) : p.lines (s :: post) = (p.completed, s.ending) := by
  simp only [lines, h]

theorem lines_fail {e : IoError} (he : e.isInterrupted = false) (p : Progress) (post : Source) :
    p.lines (.fail e :: post) = (p.completed, .failure e) := by
  have hstop : p.step? (.fail e) = none := by simp [step?, he]
  exact lines_of_stop hstop post

theorem run?_cons : p.run? (s :: post) = (p.step? s).bind fun q => q.run? post := rfl

/-- What stands behind some steps sees no more of them than where they lead. -/
theorem lines_append (h : p.run? pre = some q) (post : Source) : p.lines (pre ++ post) = q.lines post := by
  induction pre generalizing p with
  | nil =>
    cases h
    rfl
  | cons s pre ih =>
    rw [run?_cons] at h
    obtain ⟨p', hstep, hrun⟩ := Option.bind_eq_some_iff.1 h
    rw [List.cons_append, lines_of_step hstep, ih hrun]

/-- Sources that differ only behind some steps have the same lines if they have them wherever these steps lead. -/
theorem lines_append_congr {post' : Source} (h : ∀ q : Progress, q.lines post = q.lines post')
    (p : Progress) (pre : Source) : p.lines (pre ++ post) = p.lines (pre ++ post') := by
  induction pre generalizing p with
  | nil => exact h p
  | cons s pre ih =>
    simp only [List.cons_append, lines]
    split
    · exact ih _
    · rfl

/-- The failure at which an input ends is that of a step which the input comes to. -/
theorem lines_eq_failure_iff {source : Source} {done : List (List UInt8)} {e : IoError} :
    p.lines source = (done, .failure e) ↔
      ∃ pre post q, source = pre ++ .fail e :: post ∧ p.run? pre = some q ∧ e.isInterrupted = false ∧
        q.completed = done := by
  constructor
  · intro h
    induction source generalizing p with
    | nil => cases h
    | cons s rest ih =>
      cases hstep : p.step? s with
      | some p' =>
        rw [lines_of_step hstep] at h
        obtain ⟨pre, post, q, rfl, hrun, he, hdone⟩ := ih h
        exact ⟨s :: pre, post, q, rfl, by rw [run?_cons, hstep]; exact hrun, he, hdone⟩
      | none =>
        rw [lines_of_stop hstep] at h
        obtain ⟨hdone, hend⟩ := Prod.mk.inj h
        cases s with
        | data bytes limit => cases hstep
        | eof => cases hend
        | fail e' =>
          cases hend
          refine ⟨[], rest, p, rfl, rfl, ?_, hdone⟩
          simpa [step?] using hstep
  · rintro ⟨pre, post, q, rfl, hrun, he, rfl⟩
    rw [lines_append hrun, lines_fail he]

/-! What one read says of the lines to come. -/

theorem lines_read_ok {room : Nat} {source rest : Source} {bytes : List UInt8} (hb : bytes ≠ [])
    (h : source.read room = (.ok bytes, rest)) (p : Progress) :
    p.lines source = (p.feed bytes).lines rest := by
  fun_induction Source.read room source with
  | case1 =>
    cases h
    exact absurd rfl hb
  | case2 limit rest' ih =>
    rw [lines_of_step (q := p) rfl]
    exact ih h
  | case3 b bs limit rest' n =>
    cases h
    rw [lines_of_step rfl, lines_of_step rfl, ← feed_append, List.take_append_drop]
  | case4 => cases h
  | case5 =>
    cases h
    exact absurd rfl hb

/-- A read with room that brings nothing ends the line that has begun, or else the input. -/
theorem lines_read_nil {room : Nat} {source rest : Source} (hr : 0 < room)
    (h : source.read room = (.ok [], rest)) (p : Progress) :
    p.lines source = if p.begun = [] then (p.completed, .clean) else p.endLine.lines rest := by
  fun_induction Source.read room source with
  | case1 =>
    cases h
    simp only [lines, close]
    split <;> rfl
  | case2 limit rest' ih =>
    rw [lines_of_step (q := p) rfl]
    exact ih h
  | case3 b bs limit rest' n =>
    have hn : 0 < n := Source.portion_pos hr limit
    have hnil : (b :: bs).take n = [] := Except.ok.inj (Prod.mk.inj h).1
    rw [List.take_eq_nil_iff] at hnil
    simp only [reduceCtorEq, or_false] at hnil
    omega
  | case4 => cases h
  | case5 rest' =>
    cases h
    simp only [lines, step?]
    split
    · rename_i hsome
      split at hsome
      · cases hsome
      · rename_i hbegun
        cases hsome
        rw [if_neg hbegun]
    · rename_i hnone
      split at hnone
      · rename_i hbegun
        rw [if_pos hbegun]
        rfl
      · cases hnone

theorem lines_read_error {room : Nat} {source rest : Source} {e : IoError}
    (h : source.read room = (.error e, rest)) (p : Progress) :
    p.lines source = if e.isInterrupted then p.lines rest else (p.completed, .failure e) := by
  fun_induction Source.read room source with
  | case1 => cases h
  | case2 limit rest' ih =>
    rw [lines_of_step (q := p) rfl]
    exact ih h
  | case3 => cases h
  | case4 =>
    cases h
    by_cases he : e.isInterrupted = true <;> simp [lines, step?, he, Source.Step.ending]
  | case5 => cases h

end LineReader.Progress

namespace LineReader

/-- All lines that a reader leads to: bytes that are read ahead come before those of the source. -/
def linesFrom (r : LineReader) (p : Progress) : List (List UInt8) × Ending := (p.feed r.pending).lines r.source

/-- What the reading of one line leads to. -/
def linesAfter (done : List (List UInt8)) :
    Except IoError (Option (List UInt8)) × LineReader → List (List UInt8) × Ending
  | (.ok (some line), r) => r.linesFrom ⟨done ++ [line], []⟩
  | (.ok none, _) => (done, .clean)
  | (.error e, _) => (done, .failure e)

theorem linesAfter_readLineOnto (done : List (List UInt8)) (r : LineReader) (line : Array UInt8) :
    linesAfter done (r.readLineOnto line) = r.linesFrom ⟨done, line.toList⟩ := by
  fun_induction readLineOnto r line with
  | case1 r line pending hp => simp [linesAfter, linesFrom, hp, Progress.endLine]
  | case2 r line b pending hp hb ih =>
    rw [ih, linesFrom, linesFrom, hp, Progress.feed_cons, Progress.push_of_ne _ hb, Array.toList_push]
  | case3 r line hp source hr =>
    rw [linesFrom, hp, Progress.feed_nil, Progress.lines_read_nil (by decide) hr]
    by_cases hline : line = #[]
    · simp [linesAfter, hline]
    · simp [linesAfter, linesFrom, hline, Progress.endLine]
  | case4 r line hp b bytes source hr ih =>
    rw [ih, linesFrom, linesFrom, hp, Progress.feed_nil, Progress.lines_read_ok (List.cons_ne_nil b bytes) hr]
  | case5 r line hp e source hr he ih =>
    rw [ih, linesFrom, linesFrom, hp, Progress.feed_nil, Progress.lines_read_error hr, if_pos he]
  | case6 r line hp e source hr he =>
    rw [linesFrom, hp, Progress.feed_nil, Progress.lines_read_error hr, if_neg he]
    rfl

theorem linesAfter_readLine (done : List (List UInt8)) (r : LineReader) :
    linesAfter done r.readLine = r.linesFrom ⟨done, []⟩ := linesAfter_readLineOnto done r #[]

theorem readAllOnto_eq (r : LineReader) (done : Array (List UInt8)) :
    ((r.readAllOnto done).1.toList, (r.readAllOnto done).2) = r.linesFrom ⟨done.toList, []⟩ := by
  fun_induction readAllOnto r done with
  | case1 r done line r' h ih =>
    rw [ih, ← linesAfter_readLine done.toList r, h, Array.toList_push]
    rfl
  | case2 r done r' h =>
    rw [← linesAfter_readLine, h]
    rfl
  | case3 r done e r' h =>
    rw [← linesAfter_readLine, h]
    rfl

end LineReader

/-- The lines that are read from a source are those that its steps complete. -/
theorem Source.lines_eq (source : Source) : source.lines = LineReader.Progress.start.lines source :=
  LineReader.readAllOnto_eq (LineReader.ofSource source) #[]

end StreamLexer
