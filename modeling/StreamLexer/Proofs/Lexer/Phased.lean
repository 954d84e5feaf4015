import StreamLexer.Proofs.Feed.Phased
import StreamLexer.Proofs.Lexer.Demand

/-! What a lexer writes into its journal, phase by phase. Every move goes on with the journal from the phase that the
last one left, and so does every step of a run: the log of a run is what its steps write, one after the other. -/
namespace StreamLexer

namespace Lexer

variable {chunk : Nat} {l l' : Lexer} {bytes past : List UInt8}

/-- Where the journal of a lexer stands between two moves. -/
def phase (l : Lexer) : Phase :=
  match l.cursor with
  | .on _ => l.feed.phase
  | .done _ => .ended

theorem phase_on {b : UInt8} (h : l.cursor = .on b) : l.phase = l.feed.phase := by simp [phase, h]

theorem phase_done {held : Option Error} (h : l.cursor = .done held) : l.phase = .ended := by simp [phase, h]

theorem isResting_phase (l : Lexer) : l.phase.IsResting := by
  unfold phase Feed.phase
  split
  · split
    · rfl
    · trivial
  · trivial

theorem phase_eq_ended_iff : l.phase = .ended ↔ l.isExhausted = true := by
  unfold phase Feed.phase isExhausted
  cases l.cursor with
  | on =>
    simp only [Bool.false_eq_true, iff_false]
    split <;> simp
  | done => simp

/-! What a lexer writes. -/

/-- The journal of `l'` goes on from that of `l`, and from its phase to its own. -/
def Extends (chunk : Nat) (l l' : Lexer) : Prop :=
  ∃ new, l'.journal.toList = l.journal.toList ++ new ∧ Phase.Path chunk l.phase new l'.phase

theorem Extends.refl (chunk : Nat) (l : Lexer) : Extends chunk l l := ⟨[], by simp, .nil _⟩

theorem Extends.trans {l'' : Lexer} (h : Extends chunk l l') (h' : Extends chunk l' l'') : Extends chunk l l'' := by
  obtain ⟨new, hnew, hpath⟩ := h
  obtain ⟨new', hnew', hpath'⟩ := h'
  exact ⟨new ++ new', by rw [hnew', hnew, List.append_assoc], hpath.append hpath'⟩

@[simp] theorem journal_hold (r : Option Error × Lexer) : (hold r).journal = r.2.journal := by
  obtain ⟨_ | e, l⟩ := r <;> rfl

theorem phase_hold_settle (journal : Journal) (p : Feed.Pulled) :
    (hold (settle journal p)).phase = (settle journal p).2.phase := by
  obtain ⟨front, feed, entries⟩ := p
  rcases front with e | _ | b <;> rfl

/-- A pull writes from the phase of its feed to that of the lexer. At the end it is told that the lexer is
exhausted. -/
theorem path_settle {f : Feed} (hf : f.Sound) (journal : Journal) :
    ∃ new, (settle journal f.pull).2.journal.toList = journal.toList ++ new ∧
      Phase.Path f.capacity f.phase new (settle journal f.pull).2.phase := by
  obtain ⟨q, hpath, hon, hend⟩ := Feed.path_pull hf
  obtain ⟨b, hb, hs⟩ | ⟨ending, -, hfront, hs⟩ := settle_cases hf journal
  · rw [hs]
    refine ⟨f.pull.entries.toList, by simp, ?_⟩
    rwa [hon b hb] at hpath
  · rw [hs]
    refine ⟨f.pull.entries.toList ++ [.event .exhausted], by simp, ?_⟩
    exact hpath.append_single (hend (by rw [hfront]; exact ending.front_ne))

theorem Sound.extends_move (hl : l.Sound) (h : Move l bytes l') : Extends l.feed.capacity l l' := by
  cases h with
  | step hb =>
    obtain ⟨new, hnew, hpath⟩ := path_settle hl.feed l.journal
    rw [Extends, phase_on hb]
    simp only [advance, hb]
    exact ⟨new, hnew, hpath⟩
  | stepHolding hb =>
    obtain ⟨new, hnew, hpath⟩ := path_settle hl.feed l.journal
    rw [Extends, phase_on hb]
    simp only [advance, hb, journal_hold, phase_hold_settle]
    exact ⟨new, hnew, hpath⟩
  | release hdone =>
    rw [Extends, phase_done hdone]
    exact ⟨[], by simp, .nil _⟩
  | tell t => exact ⟨[.event (.token t)], by simp, .single (.token l.isResting_phase t)⟩

theorem Sound.extends_moves (hl : l.Sound) (h : Moves l past l') : Extends l.feed.capacity l l' := by
  induction h with
  | refl => exact .refl _ l
  | move hms hm ih =>
    have hmove := (hl.moves hms).extends_move hm
    rw [capacity_moves hl hms] at hmove
    exact ih.trans hmove

theorem path_withChunkSize (source : Source) (chunk : Nat) :
    Phase.Path (max chunk 1) (.loading 0) (withChunkSize source chunk).journal.toList
      (withChunkSize source chunk).phase := by
  obtain ⟨new, hnew, hpath⟩ := path_settle (Feed.sound_ofSource source chunk) #[]
  rw [withChunkSize, journal_hold, phase_hold_settle, hnew]
  exact hpath

end Lexer

/-! The log of a run, step by step. -/

def Report.log (r : Report) : Log := r.entries.toList

/-- The log of a run. -/
def Report.logs (rs : List Report) : Log := rs.flatMap Report.log

/-- The reports of steps that begin and end at these phases. -/
inductive Chain (chunk : Nat) : Phase → List Report → Phase → Prop
  | nil (p : Phase) : Chain chunk p [] p
  | cons {p q s : Phase} {r : Report} {rs : List Report} (h : Phase.Path chunk p r.log q) (hrest : q.IsResting)
      (hx : q = .ended ↔ r.exhausted = true) (tail : Chain chunk q rs s) : Chain chunk p (r :: rs) s

namespace Chain

variable {chunk : Nat} {p q : Phase} {rs prev rest : List Report} {r : Report}

theorem path (h : Chain chunk p rs q) : Phase.Path chunk p (Report.logs rs) q := by
  induction h with
  | nil => exact .nil _
  | cons h _ _ _ ih => exact h.append ih

theorem split (h : Chain chunk p (prev ++ rest) q) : ∃ m, Chain chunk p prev m ∧ Chain chunk m rest q := by
  induction prev generalizing p with
  | nil => exact ⟨p, .nil p, h⟩
  | cons r prev ih =>
    cases h with
    | cons hpath hrest hx tail =>
      obtain ⟨m, hprev, hm⟩ := ih tail
      exact ⟨m, .cons hpath hrest hx hprev, hm⟩

/-- One step, with the steps before and behind it. -/
theorem split_at (h : Chain chunk p (prev ++ r :: rest) q) :
    ∃ m m', Chain chunk p prev m ∧ Phase.Path chunk m r.log m' ∧ m'.IsResting ∧ (m' = .ended ↔ r.exhausted = true) ∧
      Chain chunk m' rest q := by
  obtain ⟨m, hprev, hm⟩ := h.split
  cases hm with
  | cons hpath hrest hx tail => exact ⟨m, _, hprev, hpath, hrest, hx, tail⟩

theorem isResting (h : Chain chunk p rs q) (hp : p.IsResting) : q.IsResting := by
  induction h with
  | nil => exact hp
  | cons _ hrest _ _ ih => exact ih hrest

/-- A run has ended if it had before its first step, or if one of its steps came to be exhausted. -/
theorem ended_iff (h : Chain chunk p rs q) : q = .ended ↔ p = .ended ∨ ∃ r ∈ rs, r.exhausted = true := by
  induction h with
  | nil => simp
  | cons hpath _ hx _ ih =>
    simp only [ih, List.mem_cons, exists_eq_or_imp, ← hx, ← or_assoc]
    rw [or_iff_right_of_imp hpath.eq_ended]

end Chain

namespace Lexer

variable {l l' : Lexer}

/-- The report of a call. -/
def reported (l : Lexer) (op : Operation) : Report :=
  (op.perform l).2.report l.journal.size (some (op.perform l).1)

theorem run_cons (l : Lexer) (op : Operation) (ops : List Operation) :
    l.run (op :: ops) = l.reported op :: (op.perform l).2.run ops := rfl

theorem after_cons (l : Lexer) (op : Operation) (ops : List Operation) :
    l.after (op :: ops) = (op.perform l).2.after ops := rfl

/-- The log of a call is what the call adds to the journal. -/
theorem log_reported {op : Operation} {new : Log} (h : (op.perform l).2.journal.toList = l.journal.toList ++ new) :
    (l.reported op).log = new := by
  have hsize : (op.perform l).2.journal.size = l.journal.size + new.length := by
    simpa using congrArg List.length h
  simp [Report.log, reported, report, h, hsize]

/-- A run goes from phase to phase, and its log is what it adds to the journal. -/
theorem Sound.chain_run (hl : l.Sound) (ops : List Operation) :
    Chain l.feed.capacity l.phase (l.run ops) (l.after ops).phase ∧
      (l.after ops).journal.toList = l.journal.toList ++ Report.logs (l.run ops) := by
  induction ops generalizing l with
  | nil => exact ⟨.nil _, by simp [after, run, Report.logs]⟩
  | cons op ops ih =>
    obtain ⟨past, hm⟩ := moves_perform l op
    obtain ⟨new, hnew, hpath⟩ := hl.extends_moves hm
    obtain ⟨htail, hjournal⟩ := ih (hl.moves hm)
    rw [capacity_moves hl hm] at htail
    rw [← log_reported hnew] at hpath hnew
    rw [run_cons, after_cons]
    refine ⟨.cons hpath (isResting_phase _) phase_eq_ended_iff htail, ?_⟩
    rw [hjournal, hnew, List.append_assoc, Report.logs, Report.logs, List.flatMap_cons]

theorem chain_session (source : Source) (chunk : Nat) (ops : List Operation) :
    Chain (max chunk 1) (.loading 0) (session source chunk ops) ((withChunkSize source chunk).after ops).phase ∧
      ((withChunkSize source chunk).after ops).journal.toList = Report.logs (session source chunk ops) := by
  have hstart := path_withChunkSize source chunk
  have hlog : ((withChunkSize source chunk).report 0 none).log = (withChunkSize source chunk).journal.toList := by
    simp [Report.log, report]
  obtain ⟨hrun, hjournal⟩ := (sound_withChunkSize source chunk).chain_run ops
  rw [capacity_withChunkSize] at hrun
  refine ⟨.cons (by rwa [hlog]) (isResting_phase _) phase_eq_ended_iff hrun, ?_⟩
  rw [hjournal, session, Report.logs, Report.logs, List.flatMap_cons, hlog]

end Lexer

end StreamLexer
