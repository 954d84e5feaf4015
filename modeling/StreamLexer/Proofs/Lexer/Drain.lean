import StreamLexer.Proofs.Lexer.Demand
import StreamLexer.Proofs.Lexer.End

/-! Draining a lexer. Every token takes a byte off the stream, and every read takes a byte or a failure off the source
or is the last one, so that all loops come to their end. Tokenizing and collecting make the same calls for the next
token one after the other; only a failure, at which tokenizing stops, makes collecting ask once more. -/
namespace StreamLexer

/-! How many reads can still be made. -/

/-- A bound for the reads that a feed may still make: one for each byte and each failure of the source, and one that
meets the end. -/
def Feed.readsLeft (f : Feed) : Nat := f.source.weight + if f.ending = none then 1 else 0

theorem Journal.length_rooms_read (j : Journal) (room : Nat) (outcome : Except IoError (List UInt8)) :
    (rooms (j.push (.read room outcome))).length = j.rooms.length + 1 := by
  simp [Entry.room?]

/-- Each read of a refill takes a byte or a failure off the source, or meets the end. -/
theorem rooms_gather_le (capacity : Nat) (source : Source) (bytes : Array UInt8) (reads : Journal) :
    (gather capacity source bytes reads).reads.rooms.length + (gather capacity source bytes reads).source.weight +
        (if (gather capacity source bytes reads).ending = none then 1 else 0) ≤
      reads.rooms.length + source.weight + 1 := by
  fun_induction gather capacity source bytes reads with
  | case1 source bytes reads hlt room rest hr =>
    have := Source.weight_read_ok hr
    simp only [List.length_nil] at this
    simp only [Journal.length_rooms_read, reduceCtorEq, if_false]
    omega
  | case2 source bytes reads hlt room b bs rest hr ih =>
    have := Source.weight_read_ok hr
    simp only [List.length_cons] at this
    rw [Journal.length_rooms_read] at ih
    omega
  | case3 source bytes reads hlt room e rest hr reads' he ih =>
    have := Source.weight_read_error hr
    simp only [reads'] at ih ⊢
    rw [Journal.length_rooms_read] at ih
    omega
  | case4 source bytes reads hlt room e rest hr reads' he =>
    have := Source.weight_read_error hr
    simp only [reads', Journal.length_rooms_read, reduceCtorEq, if_false]
    omega
  | case5 => simp

@[simp] theorem Gathered.rooms_entries (g : Gathered) : g.entries.rooms = g.reads.rooms := by
  unfold entries
  split
  · simp [Entry.room?]
  · simp [Entry.room?]
  · split <;> simp [Entry.room?]

/-- The reads of a pull are no longer to be made. -/
theorem Feed.readsLeft_pull {f : Feed} (hf : f.Sound) :
    f.pull.entries.rooms.length + f.pull.feed.readsLeft ≤ f.readsLeft := by
  have hp := hf.pulls
  have hg := rooms_gather_le f.capacity f.source #[] #[]
  have hnone : (Journal.rooms #[]).length = 0 := rfl
  generalize f.pull = p at hp
  cases hp with
  | loaded => simp [Journal.rooms, readsLeft]
  | ended => simp [Journal.rooms, readsLeft]
  | @refilled g _ he hgather _ =>
    subst hgather
    rw [hnone, Nat.zero_add] at hg
    simpa only [Gathered.rooms_entries, readsLeft, he, if_true, Nat.add_assoc] using hg
  | @emptied g ending _ he hgather _ hge =>
    subst hgather
    rw [hnone, Nat.zero_add, hge] at hg
    simpa only [Gathered.rooms_entries, readsLeft, he, if_true, Nat.add_assoc] using hg

namespace Lexer

variable {l l' : Lexer} {bytes past : List UInt8}

theorem readsLeft_move (hl : l.Sound) (h : Move l bytes l') :
    l'.journal.rooms.length + l'.feed.readsLeft ≤ l.journal.rooms.length + l.feed.readsLeft := by
  obtain ⟨b, -, -, hfeed, hrooms⟩ | ⟨-, hfeed, hrooms⟩ := feed_move hl h
  · have := Feed.readsLeft_pull hl.feed
    rw [hfeed, hrooms, List.length_append]
    omega
  · rw [hfeed, hrooms]

theorem readsLeft_moves (hl : l.Sound) (h : Moves l past l') :
    l'.journal.rooms.length + l'.feed.readsLeft ≤ l.journal.rooms.length + l.feed.readsLeft := by
  induction h with
  | refl => exact Nat.le_refl _
  | move hms hm ih => exact Nat.le_trans (readsLeft_move (hl.moves hms) hm) ih

/-! Calls for the next token, one after the other. -/

/-- The answers of `n` calls for the next token, and the lexer that they leave. -/
def calls (l : Lexer) : Nat → List (Except Error Token) × Lexer
  | 0 => ([], l)
  | n + 1 => (l.nextToken.1 :: (l.nextToken.2.calls n).1, (l.nextToken.2.calls n).2)

theorem calls_add (l : Lexer) (m n : Nat) :
    l.calls (m + n) = ((l.calls m).1 ++ ((l.calls m).2.calls n).1, ((l.calls m).2.calls n).2) := by
  induction m generalizing l with
  | zero => simp [calls]
  | succ m ih => simp [Nat.add_right_comm m 1 n, calls, ih]

theorem calls_one {r : Except Error Token} (h : l.nextToken = (r, l')) : l.calls 1 = ([r], l') := by
  simp [calls, h]

theorem Sound.nextToken (hl : l.Sound) : l.nextToken.2.Sound := by
  obtain ⟨past, hm⟩ := moves_nextToken l
  exact hl.moves hm

/-- What a call can answer: a token, for which it takes bytes off the stream, or a failure or the end, behind which
nothing is left. -/
theorem Sound.nextToken_cases (hl : l.Sound) :
    (∃ t l', l.nextToken = (.ok t, l') ∧ t.isEof = false ∧ l'.stream.bytes.length < l.stream.bytes.length) ∨
    (∃ e l', l.nextToken = (.error e, l') ∧ l'.nextToken = (.ok .eof, l')) ∨
    (∃ l', l.nextToken = (.ok .eof, l') ∧ l'.nextToken = (.ok .eof, l')) := by
  obtain ⟨l', heq, hl'⟩ := hl.shows.nextToken
  have hy := Munch.yields_next l.stream
  generalize Munch.next l.stream = p at hy heq hl'
  cases hy with
  | token ht _ hlt =>
    left
    exact ⟨_, l', heq, ht, by simpa only [hl'.stream] using hlt⟩
  | fault =>
    right; left
    exact ⟨_, l', heq, nextToken_ended hl'.cursor_nil⟩
  | eof =>
    right; right
    exact ⟨l', heq, nextToken_ended hl'.cursor_nil⟩

/-- The tokens that calls bring until one of them answers with the end or with a failure, and the lexer that this call
leaves. -/
inductive Brings : Lexer → List Token → Option Error → Lexer → Prop
  | ended {l l' : Lexer} (h : l.nextToken = (.ok .eof, l')) : Brings l [] none l'
  | failed {l l' : Lexer} {e : Error} (h : l.nextToken = (.error e, l')) (hend : l'.nextToken = (.ok .eof, l')) :
      Brings l [] (some e) l'
  | token {l l' l'' : Lexer} {t : Token} {ts : List Token} {failure : Option Error} (h : l.nextToken = (.ok t, l'))
      (ht : t.isEof = false) (tail : Brings l' ts failure l'') : Brings l (t :: ts) failure l''

/-- Calls bring no more tokens than there are bytes. -/
theorem Sound.brings (hl : l.Sound) :
    ∃ ts failure l', Brings l ts failure l' ∧ ts.length ≤ l.stream.bytes.length := by
  induction hn : l.stream.bytes.length using Nat.strong_induction_on generalizing l with
  | h n ih =>
    subst hn
    obtain ⟨t, l', h, ht, hlt⟩ | ⟨e, l', h, hend⟩ | ⟨l', h, -⟩ := hl.nextToken_cases
    · have hl' : l'.Sound := by simpa only [h] using hl.nextToken
      obtain ⟨ts, failure, l'', hbrings, hlen⟩ := ih _ hlt hl' rfl
      exact ⟨t :: ts, failure, l'', .token h ht hbrings, Nat.succ_le_of_lt (Nat.lt_of_le_of_lt hlen hlt)⟩
    · exact ⟨[], some e, l', .failed h hend, Nat.zero_le _⟩
    · exact ⟨[], none, l', .ended h, Nat.zero_le _⟩

section
variable {ts : List Token} {failure : Option Error}

/-- The last answer of the calls that drain a lexer. -/
def lastAnswer : Option Error → Except Error Token
  | none => .ok .eof
  | some e => .error e

theorem Brings.calls (h : Brings l ts failure l') :
    l.calls (ts.length + 1) = (ts.map .ok ++ [lastAnswer failure], l') := by
  induction h with
  | ended h => exact calls_one h
  | failed h => exact calls_one h
  | token h _ _ ih => simp [Lexer.calls, h, ih]

theorem Brings.nextToken_of_failure {e : Error} (h : Brings l ts (some e) l') : l'.nextToken = (.ok .eof, l') := by
  generalize hf : some e = failure at h
  induction h with
  | ended => cases hf
  | failed _ hend => exact hend
  | token _ _ _ ih => exact ih hf

theorem Brings.tokenizeOnto (h : Brings l ts failure l') (tokens : Array Token) :
    l.tokenizeOnto tokens =
      (match failure with
        | none => .ok (tokens ++ (ts ++ [Token.eof]).toArray)
        | some e => .error e, l') := by
  induction h generalizing tokens with
  | ended h => simpa using tokenizeOnto_eof h
  | failed h => exact tokenizeOnto_error h
  | @token _ _ _ t ts failure h ht _ ih =>
    rw [tokenizeOnto_token h ht, ih]
    cases failure <;> simp

/-- Collecting goes on behind a failure, and is told of the end. -/
theorem Brings.collectOnto (h : Brings l ts failure l') (items : Array (Except Error Token)) :
    l.collectOnto items = (items ++ (ts.map Except.ok ++ failure.toList.map Except.error).toArray, l') := by
  induction h generalizing items with
  | ended h => simpa using collectOnto_none (by simp [next?, h])
  | @failed l l' e h hend =>
    have hitem : l.next? = (some (.error e), l') := by simp [next?, h]
    have hnone : l'.next? = (none, l') := by simp [next?, hend]
    rw [collectOnto_some hitem, collectOnto_none hnone]
    simp
  | @token l l' _ t _ _ h ht _ ih =>
    have hitem : l.next? = (some (.ok t), l') := by simp [next?, h, ht]
    rw [collectOnto_some hitem, ih]
    simp

end

/-- The calls of a lexer come to their end: each is bounded by what is still to come. -/
structure Bounded (l : Lexer) : Prop where
  /-- A call steps past bytes of the stream only, and reads no more often than there is something left to read. -/
  perform : ∀ op : Operation, ∃ past, Moves l past (op.perform l).2 ∧ past.length ≤ l.stream.bytes.length ∧
    (op.perform l).2.journal.rooms.length ≤ l.journal.rooms.length + l.feed.source.weight + 1
  /-- A token costs at least one byte. -/
  token : ∀ t l', l.nextToken = (.ok t, l') → t.isEof = false →
    ∃ past, past ≠ [] ∧ Moves l past l' ∧ l.stream.bytes = past ++ l'.stream.bytes
  size_collect : l.collect.1.size ≤ l.stream.bytes.length + 1

theorem Sound.bounded (hl : l.Sound) : Bounded l := by
  refine ⟨?_, ?_, ?_⟩
  · intro op
    obtain ⟨past, hm⟩ := moves_perform l op
    have hbytes := congrArg List.length (bytes_stream_moves hl hm)
    have hreads := readsLeft_moves hl hm
    have hleft : l.feed.readsLeft ≤ l.feed.source.weight + 1 := by
      unfold Feed.readsLeft
      split <;> omega
    rw [List.length_append] at hbytes
    exact ⟨past, hm, by omega, by omega⟩
  · intro t l' h ht
    obtain ⟨past, hm⟩ := moves_nextToken l
    rw [h] at hm
    have hbytes := bytes_stream_moves hl hm
    refine ⟨past, ?_, hm, hbytes⟩
    rintro rfl
    obtain ⟨_, _, heq, -, hlt⟩ | ⟨_, _, heq, -⟩ | ⟨_, heq, -⟩ := hl.nextToken_cases
    · cases h.symm.trans heq
      simp [hbytes] at hlt
    · cases h.symm.trans heq
    · cases h.symm.trans heq
      simp at ht
  · obtain ⟨ts, failure, l', hbrings, hlen⟩ := hl.brings
    have hcollect : l.collect = _ := hbrings.collectOnto #[]
    have hfailure := failure.length_toList_le
    simp only [hcollect, Array.empty_append, List.size_toArray, List.length_append, List.length_map]
    omega

/-- Tokenizing and collecting bring the same, in the same calls up to the end or to a failure. -/
structure DrainsAlike (l : Lexer) : Prop where
  tokenize_ok_iff : ∀ ts : List Token,
    l.tokenize.1 = .ok (ts ++ [Token.eof]).toArray ↔ l.collect.1 = (ts.map .ok).toArray
  tokenize_error_iff : ∀ e : Error,
    l.tokenize.1 = .error e ↔ ∃ ts : List Token, l.collect.1 = (ts.map Except.ok ++ [Except.error e]).toArray
  /-- Collecting is one call an item, and one that is told of the end. -/
  collect_calls : l.calls (l.collect.1.size + 1) = (l.collect.1.toList ++ [.ok .eof], l.collect.2)
  /-- Tokenizing is one call a token, the end among them. -/
  calls_of_ok : ∀ ts, l.tokenize.1 = .ok ts →
    l.calls ts.size = (ts.toList.map .ok, l.tokenize.2) ∧ l.collect.2 = l.tokenize.2
  /-- Tokenizing ends with the call that failed. Collecting makes one more, which changes nothing. -/
  calls_of_error : ∀ e, l.tokenize.1 = .error e →
    l.calls l.collect.1.size = (l.collect.1.toList, l.tokenize.2) ∧
      l.tokenize.2.nextToken = (.ok .eof, l.tokenize.2) ∧ l.collect.2 = l.tokenize.2

theorem map_ok_ne_append_error (ts ts' : List Token) (e : Error) :
    ts.map Except.ok ≠ ts'.map Except.ok ++ [Except.error e] := by
  intro h
  have hmem : Except.error e ∈ ts.map Except.ok := by simp [h]
  simp at hmem

theorem Brings.drainsAlike_of_end {ts : List Token} (h : Brings l ts none l') : DrainsAlike l := by
  have htokenize : l.tokenize = _ := h.tokenizeOnto #[]
  have hcollect : l.collect = _ := h.collectOnto #[]
  have hcalls := h.calls
  have hinj : Function.Injective (Except.ok : Token → Except Error Token) := fun _ _ => Except.ok.inj
  simp only [Array.empty_append, Option.toList_none, List.map_nil, List.append_nil] at htokenize hcollect
  refine ⟨?_, ?_, ?_, ?_, ?_⟩
  · intro ts'
    simp [htokenize, hcollect, List.map_inj_right hinj]
  · intro e
    simp [htokenize, hcollect, map_ok_ne_append_error]
  · simpa [hcollect, lastAnswer] using hcalls
  · intro all hall
    rw [htokenize] at hall
    cases hall
    simpa [htokenize, hcollect, lastAnswer] using hcalls
  · intro e he
    simp [htokenize] at he

theorem Brings.drainsAlike_of_failure {ts : List Token} {e : Error} (h : Brings l ts (some e) l') :
    DrainsAlike l := by
  have htokenize : l.tokenize = _ := h.tokenizeOnto #[]
  have hcollect : l.collect = _ := h.collectOnto #[]
  have hcalls := h.calls
  have hend := h.nextToken_of_failure
  have hmore := calls_add l (ts.length + 1) 1
  rw [hcalls, calls_one hend] at hmore
  simp only [Array.empty_append, Option.toList_some, List.map_cons, List.map_nil] at htokenize hcollect
  refine ⟨?_, ?_, ?_, ?_, ?_⟩
  · intro ts'
    simp [htokenize, hcollect, (map_ok_ne_append_error _ _ _).symm]
  · intro e'
    rw [htokenize, hcollect]
    constructor
    · rintro ⟨⟩
      exact ⟨ts, rfl⟩
    · rintro ⟨ts', hitems⟩
      obtain ⟨-, hlast⟩ := List.append_inj' (congrArg Array.toList hitems) rfl
      simpa using hlast
  · simpa [hcollect, lastAnswer] using hmore
  · intro all hall
    simp [htokenize] at hall
  · intro _ _
    rw [htokenize, hcollect]
    exact ⟨by simpa [lastAnswer] using hcalls, hend, rfl⟩

theorem Sound.drainsAlike (hl : l.Sound) : DrainsAlike l := by
  obtain ⟨ts, failure, l', hbrings, -⟩ := hl.brings
  cases failure with
  | none => exact hbrings.drainsAlike_of_end
  | some e => exact hbrings.drainsAlike_of_failure

/-- Every lexer that a caller can come to, between the calls or in the middle of one, comes to the end of each of its
calls, and is drained alike by tokenizing and by collecting. -/
theorem moves_withChunkSize_drains (source : Source) (chunk : Nat) :
    (∀ past l, Moves (withChunkSize source chunk) past l → Bounded l ∧ DrainsAlike l) ∧
      ∀ ops, Bounded ((withChunkSize source chunk).after ops) ∧ DrainsAlike ((withChunkSize source chunk).after ops) := by
  have hall : ∀ past l, Moves (withChunkSize source chunk) past l → Bounded l ∧ DrainsAlike l := by
    intro past l hm
    have hl := (sound_withChunkSize source chunk).moves hm
    exact ⟨hl.bounded, hl.drainsAlike⟩
  refine ⟨hall, ?_⟩
  intro ops
  obtain ⟨past, hm⟩ := moves_after (withChunkSize source chunk) ops
  exact hall past _ hm

/-- Behind the first token of a source that fails in the middle of a word: tokenizing gives up the symbol, collecting
keeps it and asks once more. -/
theorem moves_withChunkSize_drains_failure :
    ((withChunkSize [.data [0x31, 0x3D] none, .fail .interrupted, .data [0x78] none, .fail (.simple .other)]
        2).after [.next]).tokenize.1 = .error (.sourceFault (.simple .other)) ∧
    ((withChunkSize [.data [0x31, 0x3D] none, .fail .interrupted, .data [0x78] none, .fail (.simple .other)]
        2).after [.next]).collect.2 =
      ((withChunkSize [.data [0x31, 0x3D] none, .fail .interrupted, .data [0x78] none, .fail (.simple .other)]
        2).after [.next]).tokenize.2 := by
  have hfails : ((withChunkSize [.data [0x31, 0x3D] none, .fail .interrupted, .data [0x78] none,
      .fail (.simple .other)] 2).after [.next]).tokenize.1 = .error (.sourceFault (.simple .other)) := by
    decide +kernel
  exact ⟨hfails, (((moves_withChunkSize_drains _ 2).2 [.next]).2.calls_of_error _ hfails).2.2⟩

end Lexer

end StreamLexer
