import StreamLexer.Lexer.Operation
import StreamLexer.Lexer.Stream
import StreamLexer.Proofs.Feed.Pull

/-! Sound lexers, and the moves that a lexer is made of. In a sound lexer the byte under the cursor is the one
that its feed handed out last, and a lexer past the last byte has met an end and has nothing loaded. Every
call that a caller can make is a sequence of moves: the cursor steps past a byte, a failure that was held back
is handed out, or a token is told. All that moves preserve holds therefore of every reachable lexer, also in
the middle of a call. -/
namespace StreamLexer

/-- A cursor stands right behind the position of its feed, or past the end that the feed has met. A failure
that is held back is that end. -/
def Cursor.Fits : Cursor → Feed → Prop
  | .on b, f => 1 ≤ f.pos ∧ f.buffer[f.pos - 1]? = some b
  | .done held, f => f.pos = 0 ∧ f.buffer = #[] ∧
      ∃ ending, f.ending = some ending ∧ ∀ e, held = some e → ending.fault? = some e

namespace Lexer

@[simp] theorem journal_tell (l : Lexer) (e : Event) : (l.tell e).journal = l.journal.push (.event e) := rfl

structure Sound (l : Lexer) : Prop where
  feed : l.feed.Sound
  cursor : l.cursor.Fits l.feed

/-- Past the last byte nothing is loaded. -/
theorem Sound.pending_of_done {l : Lexer} {held : Option Error} (hl : l.Sound) (h : l.cursor = .done held) :
    l.feed.pending = [] := by
  have hfits := hl.cursor
  rw [h] at hfits
  obtain ⟨-, hbuf, -⟩ := hfits
  simp [Feed.pending, hbuf]

/-- A pull of a sound feed puts the cursor on its byte, or past the end that it met. -/
theorem settle_cases {f : Feed} (hf : f.Sound) (journal : Journal) :
    (∃ b, f.pull.front = .ok (some b) ∧
      settle journal f.pull = (none, ⟨f.pull.feed, .on b, journal ++ f.pull.entries⟩)) ∨
    (∃ ending, f.pull.feed.ending = some ending ∧ f.pull.front = ending.front ∧
      settle journal f.pull =
        (ending.fault?, tell ⟨f.pull.feed, .done none, journal ++ f.pull.entries⟩ .exhausted)) := by
  by_cases hb : ∃ b, f.pull.front = .ok (some b)
  · obtain ⟨b, hb⟩ := hb
    left
    exact ⟨b, hb, by simp [settle, hb]⟩
  · obtain ⟨-, -, ending, he, hfront⟩ := hf.end_pull (fun b h => hb ⟨b, h⟩)
    right
    refine ⟨ending, he, hfront, ?_⟩
    cases ending <;> simp [settle, hfront, Ending.front, Ending.fault?]

/-- Holding back what a pull met leaves the end's failure with the cursor. -/
theorem hold_end (ending : Ending) (f : Feed) (journal : Journal) :
    hold (ending.fault?, tell ⟨f, .done none, journal⟩ .exhausted) =
      tell ⟨f, .done ending.fault?, journal⟩ .exhausted := by
  cases ending <;> rfl

theorem sound_settle {f : Feed} (hf : f.Sound) (journal : Journal) :
    (settle journal f.pull).2.Sound := by
  obtain ⟨b, hb, hs⟩ | ⟨ending, he, hfront, hs⟩ := settle_cases hf journal
  · rw [hs]
    exact ⟨hf.pull, hf.front_pull hb⟩
  · obtain ⟨hp, hbuf, -⟩ := hf.end_pull (by rw [hfront]; exact ending.front_ne)
    rw [hs]
    exact ⟨hf.pull, hp, hbuf, ending, he, by simp⟩

theorem sound_hold_settle {f : Feed} (hf : f.Sound) (journal : Journal) :
    (hold (settle journal f.pull)).Sound := by
  obtain ⟨b, hb, hs⟩ | ⟨ending, he, hfront, hs⟩ := settle_cases hf journal
  · rw [hs]
    exact ⟨hf.pull, hf.front_pull hb⟩
  · obtain ⟨hp, hbuf, -⟩ := hf.end_pull (by rw [hfront]; exact ending.front_ne)
    rw [hs, hold_end]
    exact ⟨hf.pull, hp, hbuf, ending, he, fun e h => h⟩

/-- Every chunk size gives a sound lexer. -/
theorem sound_withChunkSize (source : Source) (chunk : Nat) : (withChunkSize source chunk).Sound :=
  sound_hold_settle (Feed.sound_ofSource source chunk) #[]

/-- One move of a lexer, with the bytes that its cursor steps past. A failure that a step meets goes to the
caller or is held back. -/
inductive Move : Lexer → List UInt8 → Lexer → Prop
  | step {l : Lexer} {b : UInt8} (h : l.cursor = .on b) : Move l [b] l.advance.2
  | stepHolding {l : Lexer} {b : UInt8} (h : l.cursor = .on b) : Move l [b] (hold l.advance)
  | release {l : Lexer} {e : Error} (h : l.cursor = .done (some e)) :
      Move l [] { l with cursor := .done none }
  | tell (l : Lexer) (t : Token) : Move l [] (l.tell (.token t))

/-- Moves one after the other, with all bytes that the cursor steps past on the way. -/
inductive Moves (start : Lexer) : List UInt8 → Lexer → Prop
  | refl : Moves start [] start
  | move {past bytes : List UInt8} {l l' : Lexer} (tail : Moves start past l) (h : Move l bytes l') :
      Moves start (past ++ bytes) l'

theorem Sound.move {l l' : Lexer} {bytes : List UInt8} (hl : l.Sound) (h : Move l bytes l') : l'.Sound := by
  cases h with
  | step hb =>
    simp only [advance, hb]
    exact sound_settle hl.feed l.journal
  | stepHolding hb =>
    simp only [advance, hb]
    exact sound_hold_settle hl.feed l.journal
  | release hd =>
    have hc := hl.cursor
    rw [hd] at hc
    obtain ⟨hp, hbuf, ending, he, -⟩ := hc
    exact ⟨hl.feed, hp, hbuf, ending, he, by simp⟩
  | tell t => exact ⟨hl.feed, hl.cursor⟩

/-- Every lexer that moves lead to from a sound one is sound. -/
theorem Sound.moves {l l' : Lexer} {past : List UInt8} (hl : l.Sound) (h : Moves l past l') : l'.Sound := by
  induction h with
  | refl => exact hl
  | move _ h ih => exact ih.move h

theorem Moves.single {l l' : Lexer} {bytes : List UInt8} (h : Move l bytes l') : Moves l bytes l' := by
  simpa using Moves.move .refl h

theorem Moves.trans {l l' l'' : Lexer} {a b : List UInt8} (h : Moves l a l') (h' : Moves l' b l'') :
    Moves l (a ++ b) l'' := by
  induction h' with
  | refl => simpa using h
  | move _ hm ih =>
    rw [← List.append_assoc]
    exact .move ih hm

/-! Each call of a caller as a sequence of moves. -/

theorem moves_readWhile (accept : UInt8 → Bool) (l : Lexer) (literal : String) :
    ∃ past, Moves l past (l.readWhile accept literal).2 := by
  fun_induction readWhile accept l literal with
  | case1 l literal b h hacc l' ha ih =>
    obtain ⟨past, hp⟩ := ih
    have hstep := Move.step h
    rw [ha] at hstep
    exact ⟨_, (Moves.single hstep).trans hp⟩
  | case2 l literal b h hacc e l' ha =>
    have hstep := Move.step h
    rw [ha] at hstep
    exact ⟨_, .single hstep⟩
  | case3 l => exact ⟨[], .refl⟩
  | case4 l => exact ⟨[], .refl⟩

theorem moves_scan {l : Lexer} {b : UInt8} (h : l.cursor = .on b) :
    ∃ past, Moves l past (l.scan b).2 := by
  unfold scan
  split
  · exact ⟨_, .single (.stepHolding h)⟩
  · split
    · exact moves_readWhile Byte.isLetter l ""
    · split
      · exact moves_readWhile Byte.isDigit l ""
      · exact ⟨_, .single (.stepHolding h)⟩

theorem moves_nextToken (l : Lexer) : ∃ past, Moves l past l.nextToken.2 := by
  unfold nextToken
  split
  · rename_i e he
    exact ⟨_, .single (.release he)⟩
  · obtain ⟨blanks, hblanks⟩ := moves_readWhile Byte.isWhitespace l ""
    split
    · rename_i h₁
      rw [h₁] at hblanks
      exact ⟨_, hblanks⟩
    · rename_i h₁
      rw [h₁] at hblanks
      split
      · exact ⟨_, hblanks⟩
      · rename_i b hb
        obtain ⟨past, hp⟩ := moves_scan hb
        split
        · rename_i h₂
          rw [h₂] at hp
          exact ⟨_, hblanks.trans hp⟩
        · rename_i t l₂ h₂
          rw [h₂] at hp
          exact ⟨_, .move (hblanks.trans hp) (.tell l₂ t)⟩

theorem next?_snd (l : Lexer) : l.next?.2 = l.nextToken.2 := by
  unfold next?
  split
  · rename_i h
    rw [h]
    split <;> rfl
  · rename_i h
    rw [h]

theorem moves_tokenizeOnto (l : Lexer) (tokens : Array Token) :
    ∃ past, Moves l past (l.tokenizeOnto tokens).2 := by
  fun_induction tokenizeOnto l tokens with
  | case1 l tokens t l' h ht =>
    have hn := moves_nextToken l
    rwa [h] at hn
  | case2 l tokens t l' h ht ih =>
    obtain ⟨past, hp⟩ := ih
    obtain ⟨first, hf⟩ := moves_nextToken l
    rw [h] at hf
    exact ⟨_, hf.trans hp⟩
  | case3 l tokens e l' h =>
    have hn := moves_nextToken l
    rwa [h] at hn

theorem moves_collectOnto (l : Lexer) (items : Array (Except Error Token)) :
    ∃ past, Moves l past (l.collectOnto items).2 := by
  fun_induction collectOnto l items with
  | case1 l items item l' h ih =>
    obtain ⟨past, hp⟩ := ih
    obtain ⟨first, hf⟩ := moves_nextToken l
    rw [← next?_snd, h] at hf
    exact ⟨_, hf.trans hp⟩
  | case2 l items l' h =>
    have hn := moves_nextToken l
    rwa [← next?_snd, h] at hn

theorem moves_perform (l : Lexer) (op : Operation) : ∃ past, Moves l past (op.perform l).2 := by
  cases op with
  | next => exact moves_nextToken l
  | iterate =>
    have hn := moves_nextToken l
    rw [← next?_snd] at hn
    unfold Operation.perform
    simp only
    split
    · rename_i h
      rwa [h] at hn
    · rename_i h
      rwa [h] at hn
  | tokenize => exact moves_tokenizeOnto l #[]
  | collect => exact moves_collectOnto l #[]

/-- The lexer that is left after a list of calls. -/
def after (l : Lexer) (ops : List Operation) : Lexer := ops.foldl (fun l op => (op.perform l).2) l

/-- A run goes on from the lexer that its first calls left. -/
theorem run_append (l : Lexer) (before ops : List Operation) :
    l.run (before ++ ops) = l.run before ++ (l.after before).run ops := by
  induction before generalizing l with
  | nil => rfl
  | cons op before ih =>
    simp only [List.cons_append, run, ih]
    rfl

/-- Any list of calls is a sequence of moves. -/
theorem moves_after (l : Lexer) (ops : List Operation) : ∃ past, Moves l past (l.after ops) := by
  induction ops generalizing l with
  | nil => exact ⟨[], .refl⟩
  | cons op ops ih =>
    obtain ⟨first, hf⟩ := moves_perform l op
    obtain ⟨past, hp⟩ := ih (op.perform l).2
    exact ⟨_, hf.trans hp⟩

end Lexer

end StreamLexer
