import StreamLexer.Proofs.Feed.Metered
import StreamLexer.Proofs.Lexer.Representation

/-! What a lexer asks of its source, in exact numbers. At any moment of any run the bytes delivered so far are told
by the bytes that the cursor has stepped past: all chunks up to that of the cursor, as far as the stream goes. Each
read asks for what its chunk lacks, a chunk is asked for only when the last one is used up, and once the end is met
the source is left alone. -/
namespace StreamLexer.Lexer

variable {source : Source} {past bytes : List UInt8} {l l' : Lexer}

/-! The stream of a lexer and the bytes that it steps past. -/

/-- A move takes the bytes that it steps past off the stream. -/
theorem bytes_stream_move (hl : l.Sound) (h : Move l bytes l') :
    l.stream.bytes = bytes ++ l'.stream.bytes := by
  cases h with
  | @step b hb =>
    cases ha : l.advance with
    | mk failure l₁ =>
      cases failure with
      | none => rw [stream_advance_none hl.feed.capacity_pos hb ha]; rfl
      | some e =>
        obtain ⟨hs, hdone⟩ := stream_advance_some hl.feed.capacity_pos hb ha
        have hnil : l₁.stream.bytes = [] := by simp [Lexer.stream, hdone]
        rw [hs, hnil, List.append_nil]
  | stepHolding hb => rw [stream_hold_advance hl.feed.capacity_pos hb]; rfl
  | release hdone => simp [Lexer.stream, hdone]
  | tell => rfl

theorem bytes_stream_moves (hl : l.Sound) (h : Moves l past l') :
    l.stream.bytes = past ++ l'.stream.bytes := by
  induction h with
  | refl => rfl
  | move hms hm ih => rw [ih, bytes_stream_move (hl.moves hms) hm, List.append_assoc]

/-! The journal of a lexer is metered. -/

theorem chunked_settle {f : Feed} {journal : Journal} (hf : f.Sound) (h : f.Chunked source journal) :
    (settle journal f.pull).2.feed.Chunked source (settle journal f.pull).2.journal ∧
      (hold (settle journal f.pull)).feed.Chunked source (hold (settle journal f.pull)).journal := by
  have hp := h.pull hf
  obtain ⟨b, -, hs⟩ | ⟨ending, -, -, hs⟩ := settle_cases hf journal
  · rw [hs]
    exact ⟨hp, hp⟩
  · rw [hs, hold_end]
    exact ⟨hp.event .exhausted, hp.event .exhausted⟩

theorem chunked_withChunkSize (source : Source) (chunk : Nat) :
    (withChunkSize source chunk).feed.Chunked source (withChunkSize source chunk).journal :=
  (chunked_settle (Feed.sound_ofSource source chunk) (Feed.chunked_ofSource source chunk)).2

theorem chunked_move (hl : l.Sound) (h : l.feed.Chunked source l.journal) (hm : Move l bytes l') :
    l'.feed.Chunked source l'.journal := by
  cases hm with
  | step hb => simpa only [advance, hb] using (chunked_settle hl.feed h).1
  | stepHolding hb => simpa only [advance, hb] using (chunked_settle hl.feed h).2
  | release => exact h
  | tell t => exact h.event _

theorem chunked_moves (hl : l.Sound) (h : l.feed.Chunked source l.journal) (hm : Moves l bytes l') :
    l'.feed.Chunked source l'.journal := by
  induction hm with
  | refl => exact h
  | move hms hm ih => exact chunked_move (hl.moves hms) ih hm

/-- A step pulls the feed once, and tells nothing else but that the lexer is exhausted. -/
theorem feed_settle (journal : Journal) {f : Feed} (hf : f.Sound) :
    ((settle journal f.pull).2.feed = f.pull.feed ∧ (hold (settle journal f.pull)).feed = f.pull.feed) ∧
      (settle journal f.pull).2.journal.rooms = journal.rooms ++ f.pull.entries.rooms ∧
      (hold (settle journal f.pull)).journal.rooms = journal.rooms ++ f.pull.entries.rooms := by
  obtain ⟨b, -, hs⟩ | ⟨ending, -, -, hs⟩ := settle_cases hf journal
  · rw [hs]
    exact ⟨⟨rfl, rfl⟩, Journal.rooms_append _ _, Journal.rooms_append _ _⟩
  · rw [hs, hold_end]
    simp [tell, Entry.room?, Journal.rooms_append]

/-- A move pulls the feed when it steps past a byte, and otherwise leaves it alone. -/
theorem feed_move (hl : l.Sound) (h : Move l bytes l') :
    (∃ b, l.cursor = .on b ∧ bytes = [b] ∧ l'.feed = l.feed.pull.feed ∧
      l'.journal.rooms = l.journal.rooms ++ l.feed.pull.entries.rooms) ∨
    (bytes = [] ∧ l'.feed = l.feed ∧ l'.journal.rooms = l.journal.rooms) := by
  cases h with
  | @step b hb =>
    obtain ⟨⟨hfeed, -⟩, hrooms, -⟩ := feed_settle l.journal hl.feed
    exact .inl ⟨b, hb, rfl, by simpa only [advance, hb] using hfeed, by simpa only [advance, hb] using hrooms⟩
  | @stepHolding b hb =>
    obtain ⟨⟨-, hfeed⟩, -, hrooms⟩ := feed_settle l.journal hl.feed
    exact .inl ⟨b, hb, rfl, by simpa only [advance, hb] using hfeed, by simpa only [advance, hb] using hrooms⟩
  | release => exact .inr ⟨rfl, rfl, rfl⟩
  | tell => exact .inr ⟨rfl, rfl, by simp [Entry.room?]⟩

theorem capacity_withChunkSize (source : Source) (chunk : Nat) :
    (withChunkSize source chunk).feed.capacity = max chunk 1 := by
  obtain ⟨⟨-, hfeed⟩, -⟩ := feed_settle #[] (Feed.sound_ofSource source chunk)
  rw [withChunkSize, hfeed, Feed.capacity_pull]
  rfl

theorem capacity_moves (hl : l.Sound) (h : Moves l past l') : l'.feed.capacity = l.feed.capacity := by
  induction h with
  | refl => rfl
  | move hms hm ih =>
    obtain ⟨b, -, -, hfeed, -⟩ | ⟨-, hfeed, -⟩ := feed_move (hl.moves hms) hm
    · rw [hfeed, Feed.capacity_pull, ih]
    · rw [hfeed, ih]

/-- Once the end is met the source is left alone. -/
theorem source_moves_of_ending (hl : l.Sound) {ending : Ending} (he : l.feed.ending = some ending)
    (h : Moves l past l') :
    l'.feed.ending = some ending ∧ l'.feed.source = l.feed.source ∧ l'.journal.rooms = l.journal.rooms := by
  induction h with
  | refl => exact ⟨he, rfl, rfl⟩
  | move hms hm ih =>
    obtain ⟨hend, hsource, hrooms⟩ := ih
    have hl' := hl.moves hms
    obtain ⟨b, -, -, hfeed, hreads⟩ | ⟨-, hfeed, hreads⟩ := feed_move hl' hm
    · obtain ⟨hend', hsource', hnone⟩ := Feed.pull_of_ending hl'.feed hend
      rw [hfeed, hreads, hsource', hnone, hsource, hrooms]
      exact ⟨hend', rfl, List.append_nil _⟩
    · rw [hfeed, hreads, hsource, hrooms]
      exact ⟨hend, rfl, rfl⟩

/-! How much is delivered. -/

/-- When the end is met the whole stream is delivered. -/
theorem delivered_of_ending (hl : l.Sound) (h : Accounts source past l) {ending : Ending}
    (he : l.feed.ending = some ending) : l.journal.delivered = past ++ l.stream.bytes := by
  rw [h.delivered, List.append_assoc]
  congr 1
  cases hc : l.cursor with
  | on b => simp [current?, Lexer.stream, hc, Feed.stream, he, Stream.prepend]
  | done held =>
    have hpending := hl.pending_of_done hc
    cases held <;> simp [current?, Lexer.stream, hc, hpending]

/-- Until the end is met the delivered bytes are the first of the stream. -/
theorem delivered_isPrefix (hl : l.Sound) (h : Accounts source past l) (he : l.feed.ending = none) :
    l.journal.delivered <+: past ++ l.stream.bytes := by
  cases hc : l.cursor with
  | on b =>
    refine ⟨l.feed.source.stream.bytes, ?_⟩
    rw [h.delivered]
    simp [current?, Lexer.stream, hc, Feed.stream, he, Stream.prepend]
  | done held =>
    have hfits := hl.cursor
    rw [hc] at hfits
    obtain ⟨-, -, ending, hend, -⟩ := hfits
    rw [he] at hend
    cases hend

/-- A lexer that stands on a byte stands in the chunk that was loaded last. -/
theorem div_capacity {b : UInt8} {k : Nat} (hl : l.Sound) (h : Accounts source past l) (hc : l.cursor = .on b)
    (hk : l.journal.delivered.length = k * l.feed.capacity + l.feed.buffer.size) :
    past.length / l.feed.capacity = k := by
  have hfits := hl.cursor
  rw [hc] at hfits
  obtain ⟨hge, -⟩ := hfits
  have hle := hl.feed.pos_le
  have hsize := hl.feed.size_le
  have hdelivered : l.journal.delivered.length = past.length + (l.feed.buffer.size - l.feed.pos + 1) := by
    rw [h.delivered]
    simp [current?, hc, Feed.pending]
  apply Nat.div_eq_of_lt_le
  · omega
  · rw [Nat.succ_mul]
    omega

/-- The chunk that holds the cursor is the last one asked for. -/
theorem length_delivered (hl : l.Sound) (h : Accounts source past l)
    (hchunked : l.feed.Chunked source l.journal) :
    l.journal.delivered.length =
      min (past ++ l.stream.bytes).length (l.feed.capacity * (past.length / l.feed.capacity + 1)) := by
  have hfits := hl.cursor
  cases hc : l.cursor with
  | done held =>
    -- past the end all bytes are stepped past, and the cursor's chunk reaches beyond them
    rw [hc] at hfits
    obtain ⟨-, -, ending, hend, -⟩ := hfits
    have hnil : l.stream.bytes = [] := by
      cases held <;> simp [Lexer.stream, hc]
    have hlt := Nat.lt_mul_div_succ past.length hl.feed.capacity_pos
    rw [delivered_of_ending hl h hend, hnil, List.append_nil]
    omega
  | on b =>
    rw [hc] at hfits
    obtain ⟨hge, -⟩ := hfits
    have hle := hl.feed.pos_le
    have hsize := hl.feed.size_le
    have hloaded : 0 < l.feed.buffer.size := by omega
    obtain ⟨k, hk⟩ := hchunked.loaded hloaded
    have hchunk : l.feed.capacity * (past.length / l.feed.capacity + 1) =
        k * l.feed.capacity + l.feed.capacity := by
      rw [div_capacity hl h hc hk, Nat.mul_succ, Nat.mul_comm]
    cases he : l.feed.ending with
    | some ending =>
      have hall := congrArg List.length (delivered_of_ending hl h he)
      omega
    | none =>
      have hbefore := (delivered_isPrefix hl h he).length_le
      have hfull := hchunked.capacity_le he hloaded
      omega

/-- What is known of the reads of a lexer on `source` that has stepped past `past`. -/
structure Demand (chunk : Nat) (source : Source) (past : List UInt8) (l : Lexer) : Prop where
  /-- Each read asks for what its chunk lacks, and is answered by the source as the reads before have left it. -/
  asked : ∀ (before : Journal) (room : Nat) (outcome : Except IoError (List UInt8)) (later : Journal),
    l.journal = before.push (.read room outcome) ++ later →
      room = chunk - before.delivered.length % chunk ∧
        ((source.afterReads before.rooms).read room).1 = outcome
  left : l.feed.source = source.afterReads l.journal.rooms
  /-- A move that reads has stepped past everything delivered before. -/
  used_up : ∀ bytes l', Move l bytes l' → l'.journal.rooms ≠ l.journal.rooms →
    l.journal.delivered = past ++ bytes
  delivered : l.journal.delivered.length =
    min source.stream.bytes.length (chunk * (past.length / chunk + 1))
  final_is_last : ∀ (before : Journal) (e : Entry) (later : Journal),
    l.journal = before.push e ++ later → e.isFinal = true → later.rooms = []
  untouched : (∃ e ∈ l.journal, e.isFinal = true) →
    ∀ more l', Moves l more l' → l'.feed.source = l.feed.source ∧ l'.journal.rooms = l.journal.rooms
  reads_le : l.journal.rooms.length ≤
    source.stream.bytes.length + l.journal.countP Entry.isInterrupted + 1

/-- A chunk is asked for only when all delivered bytes are stepped past. -/
theorem delivered_of_read (hl : l.Sound) (h : Accounts source past l) (hm : Move l bytes l')
    (hread : l'.journal.rooms ≠ l.journal.rooms) : l.journal.delivered = past ++ bytes := by
  obtain ⟨b, hb, rfl, -, hrooms⟩ | ⟨-, -, hrooms⟩ := feed_move hl hm
  · obtain hnil | hnone := Feed.pending_eq_nil_or hl.feed
    · rw [h.delivered, hnil]
      simp [current?, hb]
    · rw [hrooms, hnone] at hread
      exact absurd (List.append_nil _) hread
  · exact absurd hrooms hread

theorem demand_of_chunked {chunk : Nat} (hl : l.Sound) (h : Accounts source past l)
    (hchunked : l.feed.Chunked source l.journal) (hcapacity : l.feed.capacity = chunk)
    (hbytes : source.stream.bytes = past ++ l.stream.bytes) : Demand chunk source past l := by
  subst hcapacity
  have hdelivered := length_delivered hl h hchunked
  rw [← hbytes] at hdelivered
  refine
    { asked := ?_
      left := hchunked.metered.left
      used_up := fun bytes l' => delivered_of_read hl h
      delivered := hdelivered
      final_is_last := fun before e later => hchunked.metered.final_is_last
      untouched := ?_
      reads_le := ?_ }
  · intro before room outcome later hj
    obtain ⟨hroom, hout, -⟩ := hchunked.metered.read_of_split hj
    exact ⟨hroom, hout⟩
  · rintro ⟨e, he, hfinal⟩ more l' hm
    cases hend : l.feed.ending with
    | none =>
      have hopen := (hchunked.whole hend).1 e he
      rw [hfinal] at hopen
      cases hopen
    | some ending => exact (source_moves_of_ending hl hend hm).2
  · have hrooms := hchunked.metered.length_rooms_le
    have hfinal := hchunked.metered.countP_isFinal_le
    omega

/-- From construction on a lexer asks its source for no more than the chunk under its cursor, between the calls and
in the middle of them. -/
theorem moves_withChunkSize_demand (source : Source) (chunk : Nat) :
    (∀ past l, Moves (withChunkSize source chunk) past l → Demand (max chunk 1) source past l) ∧
    (∀ ops, ∃ past, Moves (withChunkSize source chunk) past ((withChunkSize source chunk).after ops) ∧
      Demand (max chunk 1) source past ((withChunkSize source chunk).after ops)) := by
  have hstart := sound_withChunkSize source chunk
  have hall : ∀ past l, Moves (withChunkSize source chunk) past l → Demand (max chunk 1) source past l := by
    intro past l hm
    have haccounts := (accounts_withChunkSize source chunk).moves hstart hm
    have hchunked := chunked_moves hstart (chunked_withChunkSize source chunk) hm
    have hbytes := bytes_stream_moves hstart hm
    rw [stream_withChunkSize] at hbytes
    refine demand_of_chunked (hstart.moves hm) haccounts hchunked ?_ hbytes
    rw [capacity_moves hstart hm, capacity_withChunkSize]
  refine ⟨hall, ?_⟩
  intro ops
  obtain ⟨past, hm⟩ := moves_after (withChunkSize source chunk) ops
  exact ⟨past, hm, hall past _ hm⟩

/-- Two bytes further on, with an interruption and a short read in the first chunk and the end met in the second.
What the source has behind its end stays there. -/
theorem moves_withChunkSize_demand_ended :
    Demand 2 [.data [0x78] none, .fail .interrupted, .data [0x3D, 0x31] (some 1), .eof, .data [0x79] none]
      [0x78, 0x3D] (withChunkSize [.data [0x78] none, .fail .interrupted, .data [0x3D, 0x31] (some 1), .eof,
        .data [0x79] none] 2).advance.2.advance.2 := by
  have h₁ : (withChunkSize [.data [0x78] none, .fail .interrupted, .data [0x3D, 0x31] (some 1), .eof,
      .data [0x79] none] 2).cursor = .on 0x78 := by decide +kernel
  have h₂ : (withChunkSize [.data [0x78] none, .fail .interrupted, .data [0x3D, 0x31] (some 1), .eof,
      .data [0x79] none] 2).advance.2.cursor = .on 0x3D := by decide +kernel
  exact (moves_withChunkSize_demand _ 2).1 _ _ (.move (.move .refl (.step h₁)) (.step h₂))

end StreamLexer.Lexer
