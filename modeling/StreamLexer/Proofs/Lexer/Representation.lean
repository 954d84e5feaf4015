import StreamLexer.Proofs.Lexer.Sound

/-! The representation of a lexer, and that it neither loses nor invents a byte. At any moment of any run the
bytes that the source has delivered are those that the cursor has stepped past, then the byte under the
cursor, then the loaded bytes that have not been handed out; with what the source has left they are all bytes
of the source. A failure that is held back is one that a read of the source met. -/
namespace StreamLexer

namespace Feed

/-- The byte that a pull handed out. -/
def Pulled.byte? (p : Pulled) : Option UInt8 :=
  match p.front with
  | .ok b => b
  | .error _ => none

theorem Pulled.byte?_of_front {p : Pulled} {b : UInt8} (h : p.front = .ok (some b)) : p.byte? = some b := by
  simp [byte?, h]

theorem Pulled.byte?_of_end {p : Pulled} {ending : Ending} (h : p.front = ending.front) :
    p.byte? = none := by
  cases ending <;> simp [byte?, h, Ending.front]

/-- A pull takes its byte off the front of what was loaded before it and of what it loads itself. -/
theorem delivered_pull {f : Feed} (hf : f.Sound) :
    f.pending ++ f.pull.entries.delivered = f.pull.byte?.toList ++ f.pull.feed.pending := by
  have hp := hf.pulls
  generalize f.pull = p at hp
  cases hp with
  | loaded hlt =>
    simp only [pending, Pulled.byte?, Option.toList_some, List.singleton_append]
    rw [← Array.getElem_toList, ← List.drop_eq_getElem_cons (by simpa using hlt)]
    simp [Journal.delivered]
  | ended hpos he =>
    rw [Pulled.byte?_of_end rfl]
    simp [pending, hpos, Journal.delivered]
  | @refilled g hpos he hg hlt =>
    have hd : g.reads.delivered = g.bytes.toList := by
      rw [← hg, delivered_refill]
    simp only [pending, Pulled.byte?, Option.toList_some, List.singleton_append, hpos,
      Gathered.delivered_entries, hd]
    rw [← Array.getElem_toList, ← List.drop_eq_getElem_cons (by simpa using hlt)]
    simp
  | @emptied g ending hpos he hg hb hge =>
    have hd : g.reads.delivered = g.bytes.toList := by
      rw [← hg, delivered_refill]
    rw [Pulled.byte?_of_end rfl]
    simp [pending, hpos, hd, hb]

/-- What a pull delivers is what the source of the feed loses. -/
theorem bytes_pull {f : Feed} (hf : f.Sound) :
    f.pull.entries.delivered ++ f.pull.feed.source.bytes = f.source.bytes := by
  have hp := hf.pulls
  generalize f.pull = p at hp
  cases hp with
  | loaded => rfl
  | ended => rfl
  | refilled _ _ hg =>
    subst hg
    rw [Gathered.delivered_entries, bytes_gather]
    rfl
  | emptied _ _ hg =>
    subst hg
    rw [Gathered.delivered_entries, bytes_gather]
    rfl

/-- A feed fails only where it failed before, or where a read of this pull failed. -/
theorem failed_pull {f : Feed} {e : IoError} (hf : f.Sound)
    (h : f.pull.feed.ending = some (.failure e)) :
    f.ending = some (.failure e) ∨
      (e.isInterrupted = false ∧ ∃ room, Entry.read room (.error e) ∈ f.pull.entries) := by
  have hp := hf.pulls
  generalize f.pull = p at h hp
  have hread : ∀ {g : Gathered}, gather f.capacity f.source #[] #[] = g → g.ending = some (.failure e) →
      e.isInterrupted = false ∧ ∃ room, Entry.read room (.error e) ∈ g.entries := by
    rintro g rfl hge
    obtain ⟨hi, room, hmem⟩ := failed_gather hge
    exact ⟨hi, room, Gathered.mem_entries hmem⟩
  cases hp with
  | loaded => exact .inl h
  | ended => exact .inl h
  | refilled _ _ hg => exact .inr (hread hg h)
  | emptied _ _ hg _ hge => exact .inr (hread hg (hge.trans h))

/-- A chunk is loaded only when no loaded byte is left, and the byte that a pull hands out lies within the
loaded bytes. -/
structure InBounds (f : Feed) : Prop where
  refill_empty : f.buffer[f.pos]? = none → f.pos = f.buffer.size
  index_lt : ∀ b, f.pull.front = .ok (some b) → f.pull.feed.pos - 1 < f.pull.feed.buffer.size

theorem Sound.inBounds {f : Feed} (hf : f.Sound) : f.InBounds := by
  refine ⟨?_, ?_⟩
  · intro h
    have hge := Array.getElem?_eq_none_iff.1 h
    have hle := hf.pos_le
    omega
  · intro b h
    obtain ⟨-, hb⟩ := hf.front_pull h
    exact (Array.getElem?_eq_some_iff.1 hb).1

end Feed

namespace Lexer

/-- The journal accounts for a lexer on `source` that stepped past `past`: what was delivered is where it should
be and is gone from the source, and the failure that the feed met is one that a read met. -/
structure Accounts (source : Source) (past : List UInt8) (l : Lexer) : Prop where
  delivered : l.journal.delivered = past ++ l.current?.toList ++ l.feed.pending
  undelivered : l.journal.delivered ++ l.feed.source.bytes = source.bytes
  failed : ∀ e, l.feed.ending = some (.failure e) →
    e.isInterrupted = false ∧ ∃ room, Entry.read room (.error e) ∈ l.journal

/-- The account of a journal on which the feed `f` is about to be pulled. -/
structure Ready (source : Source) (past : List UInt8) (f : Feed) (journal : Journal) : Prop where
  delivered : journal.delivered = past ++ f.pending
  undelivered : journal.delivered ++ f.source.bytes = source.bytes
  failed : ∀ e, f.ending = some (.failure e) →
    e.isInterrupted = false ∧ ∃ room, Entry.read room (.error e) ∈ journal

variable {source : Source} {past bytes : List UInt8} {l l' : Lexer}

/-- Where a pull leads, seen from the feed that was pulled. -/
theorem Ready.accounts {f : Feed} {journal : Journal} (h : Ready source past f journal) (hf : f.Sound)
    (hfeed : l.feed = f.pull.feed) (hcur : l.current? = f.pull.byte?)
    (hjournal : l.journal.delivered = (journal ++ f.pull.entries).delivered)
    (hmem : ∀ e, e ∈ journal ++ f.pull.entries → e ∈ l.journal) : Accounts source past l := by
  refine ⟨?_, ?_, ?_⟩
  · rw [hjournal, Journal.delivered_append, h.delivered, List.append_assoc, Feed.delivered_pull hf, hcur, hfeed,
      List.append_assoc]
  · rw [hjournal, Journal.delivered_append, hfeed, List.append_assoc, Feed.bytes_pull hf, h.undelivered]
  · intro e he
    rw [hfeed] at he
    obtain hbefore | ⟨hi, room, hr⟩ := Feed.failed_pull hf he
    · obtain ⟨hi, room, hr⟩ := h.failed e hbefore
      exact ⟨hi, room, hmem _ (Array.mem_append_left _ hr)⟩
    · exact ⟨hi, room, hmem _ (Array.mem_append_right _ hr)⟩

theorem Ready.settle {f : Feed} {journal : Journal} (h : Ready source past f journal) (hf : f.Sound) :
    Accounts source past (Lexer.settle journal f.pull).2 ∧
      Accounts source past (hold (Lexer.settle journal f.pull)) := by
  obtain ⟨b, hb, hs⟩ | ⟨ending, he, hfront, hs⟩ := settle_cases hf journal
  · have hbyte := Feed.Pulled.byte?_of_front hb
    have hl := h.accounts (l := ⟨f.pull.feed, .on b, journal ++ f.pull.entries⟩) hf rfl hbyte.symm rfl
      (fun e he => he)
    rw [hs]
    exact ⟨hl, hl⟩
  · have hbyte := Feed.Pulled.byte?_of_end hfront
    have hl : ∀ held,
        Accounts source past (Lexer.tell ⟨f.pull.feed, .done held, journal ++ f.pull.entries⟩ .exhausted) := by
      intro held
      refine h.accounts hf rfl hbyte.symm ?_ ?_
      · rw [journal_tell, Journal.delivered_push]
        exact List.append_nil _
      · intro e he
        exact Array.mem_push_of_mem _ he
    rw [hs, hold_end]
    exact ⟨hl none, hl ending.fault?⟩

theorem accounts_withChunkSize (source : Source) (chunk : Nat) :
    Accounts source [] (withChunkSize source chunk) := by
  have h : Ready source [] (Feed.ofSource source chunk) #[] := by
    refine ⟨rfl, rfl, ?_⟩
    intro e h
    cases h
  exact (h.settle (Feed.sound_ofSource source chunk)).2

/-- A lexer on a byte is ready to step past it. -/
theorem Accounts.ready {b : UInt8} (h : Accounts source past l) (hb : l.cursor = .on b) :
    Ready source (past ++ [b]) l.feed l.journal := by
  refine ⟨?_, h.undelivered, h.failed⟩
  simpa [current?, hb] using h.delivered

/-- A move keeps the account, with the bytes that it steps past. -/
theorem Accounts.move (h : Accounts source past l) (hl : l.Sound) (hm : Move l bytes l') :
    Accounts source (past ++ bytes) l' := by
  cases hm with
  | step hb => simpa only [advance, hb] using ((h.ready hb).settle hl.feed).1
  | stepHolding hb => simpa only [advance, hb] using ((h.ready hb).settle hl.feed).2
  | release hdone =>
    refine ⟨?_, h.undelivered, h.failed⟩
    simpa [current?, hdone] using h.delivered
  | tell t =>
    have hjournal : (l.tell (.token t)).journal.delivered = l.journal.delivered := by
      rw [journal_tell, Journal.delivered_push]
      exact List.append_nil _
    rw [List.append_nil]
    refine ⟨hjournal.trans h.delivered, ?_, ?_⟩
    · rw [hjournal]
      exact h.undelivered
    · intro e he
      obtain ⟨hi, room, hr⟩ := h.failed e he
      exact ⟨hi, room, Array.mem_push_of_mem _ hr⟩

theorem Accounts.moves (h : Accounts source past l) (hl : l.Sound) (hm : Moves l bytes l') :
    Accounts source (past ++ bytes) l' := by
  induction hm with
  | refl => simpa using h
  | move hms hm ih =>
    rw [← List.append_assoc]
    exact ih.move (hl.moves hms) hm

/-- What the fields of a lexer on `source` are to each other, to the bytes that the cursor has stepped past, to
the reads that were made and to what the source has left. -/
structure Consistent (source : Source) (past : List UInt8) (l : Lexer) : Prop where
  pos_le_filled : l.feed.pos ≤ l.feed.buffer.size
  filled_le_capacity : l.feed.buffer.size ≤ l.feed.capacity
  capacity_pos : 1 ≤ l.feed.capacity
  current_none_iff : l.current? = none ↔ l.isExhausted = true
  empty_of_exhausted : l.isExhausted = true → l.feed.pos = 0 ∧ l.feed.buffer.size = 0
  current_loaded : l.isExhausted = false →
    1 ≤ l.feed.pos ∧ ∃ b, l.current? = some b ∧ l.feed.buffer[l.feed.pos - 1]? = some b
  not_drained_and_held : ¬ (l.feed.ending = some .clean ∧ l.held?.isSome = true)
  read_failed_of_held : ∀ e, l.held? = some e → ∃ cause room, e = .sourceFault cause ∧
    cause.isInterrupted = false ∧ Entry.read room (.error cause) ∈ l.journal
  delivered : l.journal.delivered = past ++ l.current?.toList ++ l.feed.pending
  undelivered : l.journal.delivered ++ l.feed.source.bytes = source.bytes

/-- A failure that is held back is the end that the feed met. -/
theorem Sound.ending_of_held {e : Error} (hl : l.Sound) (h : l.held? = some e) :
    ∃ cause, e = .sourceFault cause ∧ l.feed.ending = some (.failure cause) := by
  have hc := hl.cursor
  unfold held? at h
  split at h
  · rename_i held _ hdone
    rw [hdone] at hc
    obtain ⟨-, -, ending, he, hheld⟩ := hc
    obtain ⟨cause, rfl, rfl⟩ := Ending.fault?_eq_some_iff.1 (hheld e h)
    exact ⟨cause, rfl, he⟩
  · rename_i cause _ he
    cases h
    exact ⟨cause, rfl, he⟩
  · cases h

theorem consistent_of_accounts (hl : l.Sound) (h : Accounts source past l) : Consistent source past l := by
  have hc := hl.cursor
  refine
    { pos_le_filled := hl.feed.pos_le
      filled_le_capacity := hl.feed.size_le
      capacity_pos := hl.feed.capacity_pos
      current_none_iff := current?_eq_none_iff
      empty_of_exhausted := ?_
      current_loaded := ?_
      not_drained_and_held := ?_
      read_failed_of_held := ?_
      delivered := h.delivered
      undelivered := h.undelivered }
  · intro hx
    cases hcur : l.cursor with
    | on b => simp [isExhausted, hcur] at hx
    | done held =>
      rw [hcur] at hc
      obtain ⟨hp, hb, -⟩ := hc
      exact ⟨hp, by simp [hb]⟩
  · intro hx
    cases hcur : l.cursor with
    | on b =>
      rw [hcur] at hc
      exact ⟨hc.1, b, by simp [current?, hcur], hc.2⟩
    | done held => simp [isExhausted, hcur] at hx
  · rintro ⟨hclean, hheld⟩
    obtain ⟨e, he⟩ := Option.isSome_iff_exists.1 hheld
    obtain ⟨cause, -, hend⟩ := hl.ending_of_held he
    rw [hclean] at hend
    cases hend
  · intro e he
    obtain ⟨cause, rfl, hend⟩ := hl.ending_of_held he
    obtain ⟨hi, room, hr⟩ := h.failed cause hend
    exact ⟨cause, room, rfl, hi, hr⟩

/-- From construction on a lexer is consistent after every move, and so between the calls and in the middle of
them. The pull at construction and every later one stay within the loaded bytes. -/
theorem moves_withChunkSize_consistent (source : Source) (chunk : Nat) :
    (Feed.ofSource source chunk).InBounds ∧
    (∀ past l, Moves (withChunkSize source chunk) past l → Consistent source past l ∧ l.feed.InBounds) ∧
    (∀ ops, ∃ past, Moves (withChunkSize source chunk) past ((withChunkSize source chunk).after ops) ∧
      Consistent source past ((withChunkSize source chunk).after ops)) := by
  have hstart := sound_withChunkSize source chunk
  have hall : ∀ past l, Moves (withChunkSize source chunk) past l → Consistent source past l ∧ l.feed.InBounds := by
    intro past l hm
    have hl := hstart.moves hm
    have haccounts := (accounts_withChunkSize source chunk).moves hstart hm
    exact ⟨consistent_of_accounts hl haccounts, hl.feed.inBounds⟩
  refine ⟨(Feed.sound_ofSource source chunk).inBounds, hall, ?_⟩
  intro ops
  obtain ⟨past, hm⟩ := moves_after (withChunkSize source chunk) ops
  exact ⟨past, hm, (hall past _ hm).1⟩

/-- In the middle of a word, with a failure loaded ahead behind its last letter. -/
theorem moves_withChunkSize_consistent_word :
    Consistent [.data [0x6C, 0x65] none, .fail .interrupted, .data [0x74] none, .fail (.simple .other)]
      [0x6C, 0x65] (withChunkSize [.data [0x6C, 0x65] none, .fail .interrupted, .data [0x74] none,
        .fail (.simple .other)] 2).advance.2.advance.2 := by
  have h₁ : (withChunkSize [.data [0x6C, 0x65] none, .fail .interrupted, .data [0x74] none,
      .fail (.simple .other)] 2).cursor = .on 0x6C := by decide +kernel
  have h₂ : (withChunkSize [.data [0x6C, 0x65] none, .fail .interrupted, .data [0x74] none,
      .fail (.simple .other)] 2).advance.2.cursor = .on 0x65 := by decide +kernel
  exact ((moves_withChunkSize_consistent _ 2).2.1 _ _
    (.move (.move .refl (.step h₁)) (.step h₂))).1

end Lexer

end StreamLexer
