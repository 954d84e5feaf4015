import StreamLexer.Proofs.Lexer.Drain
import StreamLexer.Proofs.Lexer.Phased

/-! The log of a run is a faithful account of it. Refills, failures and the end stand in it as the phases of the journal
have them. The tokens in it are those that the calls for the next token answered with, whatever became of them
afterwards. -/
namespace StreamLexer

namespace Lexer

variable {l : Lexer}

/-! The tokens in a log. -/

/-- The token that an answer brings, unless it stands for the end. -/
def produced? : Except Error Token → Option Token
  | .ok t => if t.isEof then none else some t
  | .error _ => none

theorem tokens_eq_outward (j : Journal) : Log.tokens j.toList = j.outward.filterMap Event.token? := by
  rw [Journal.outward, List.filterMap_filter, Log.tokens]
  congr 1
  funext e
  cases e <;> rfl

/-- Of all that a call tells only its answer is a token. -/
theorem filterMap_token?_told (s : Stream) :
    (Munch.told s).filterMap Event.token? = (produced? (Munch.next s).1).toList := by
  have hexhausts : ∀ s', (Munch.exhausts s s').filterMap Event.token? = [] := by
    intro s'
    unfold Munch.exhausts
    split <;> rfl
  rw [Munch.told, List.filterMap_append, hexhausts, List.nil_append]
  cases (Munch.next s).1 with
  | error => rfl
  | ok t =>
    simp only [Munch.tells, produced?]
    split <;> rfl

theorem Sound.tokens_nextToken (hl : l.Sound) :
    ∃ new, l.nextToken.2.journal.toList = l.journal.toList ++ new ∧
      Log.tokens new = (produced? l.nextToken.1).toList := by
  obtain ⟨l', heq, hl'⟩ := hl.shows.nextToken
  obtain ⟨new, hnew, hout⟩ := hl'.journal
  rw [heq]
  refine ⟨new.toList, by simp [hnew], ?_⟩
  rw [tokens_eq_outward, hout, List.nil_append, filterMap_token?_told]

theorem Sound.tokens_calls (hl : l.Sound) (n : Nat) :
    ∃ new, (l.calls n).2.journal.toList = l.journal.toList ++ new ∧
      Log.tokens new = (l.calls n).1.filterMap produced? := by
  induction n generalizing l with
  | zero => exact ⟨[], by simp [calls], rfl⟩
  | succ n ih =>
    obtain ⟨first, hfirst, htoken⟩ := hl.tokens_nextToken
    obtain ⟨new, hnew, htokens⟩ := ih hl.nextToken
    refine ⟨first ++ new, by rw [calls, hnew, hfirst, List.append_assoc], ?_⟩
    rw [Log.tokens_append, htoken, htokens, calls, List.filterMap_cons]
    cases produced? l.nextToken.1 <;> rfl

/-- The tokens that calls answer with are complete ones of the stream, from its first one on. -/
theorem Sound.produced_calls (hl : l.Sound) (n : Nat) :
    ((l.calls n).1.filterMap produced?).map .ok <+: Munch.items l.stream := by
  induction n generalizing l with
  | zero => exact List.nil_prefix
  | succ n ih =>
    have hrest := ih hl.nextToken
    obtain ⟨l', heq, hl'⟩ := hl.shows.nextToken
    have hy := Munch.yields_next l.stream
    rw [heq, hl'.stream] at hrest
    rw [calls, heq, List.filterMap_cons]
    generalize Munch.next l.stream = p at hy hrest
    cases hy with
    | token ht hi =>
      rw [hi]
      simpa [produced?, ht, List.cons_prefix_cons] using hrest
    -- behind a failure or the end there is no item left, and so no token
    | fault _ hi =>
      rw [Munch.items_nil, List.prefix_nil] at hrest
      simp [produced?, List.map_eq_nil_iff.1 hrest]
    | eof he hi =>
      rw [Munch.items_nil, List.prefix_nil] at hrest
      simp [produced?, List.map_eq_nil_iff.1 hrest]

end Lexer

/-- The answers of the calls for the next token that an operation makes, beside the answer that it gives itself.
Tokenizing gives up the tokens before a failure. Collecting is told of the end, and does not answer with it. -/
inductive Operation.Asks : Operation → Answer → List (Except Error Token) → Prop
  | next (r : Except Error Token) : Asks .next (.item r) [r]
  | item {r : Except Error Token} (hr : r ≠ .ok .eof) : Asks .iterate (.item r) [r]
  | ended : Asks .iterate .ended [.ok .eof]
  | tokens (ts : List Token) : Asks .tokenize (.tokens (.ok (ts ++ [Token.eof]).toArray)) (ts.map .ok ++ [.ok .eof])
  | failed (ts : List Token) (e : Error) : Asks .tokenize (.tokens (.error e)) (ts.map .ok ++ [.error e])
  | items (ts : List Token) (failure : Option Error) :
      Asks .collect (.items (ts.map Except.ok ++ failure.toList.map Except.error).toArray)
        (ts.map Except.ok ++ failure.toList.map Except.error ++ [.ok .eof])

namespace Lexer

variable {l l' : Lexer} {ts : List Token} {failure : Option Error}

theorem Sound.asks_iterate (hl : l.Sound) :
    ∃ r, Operation.Asks .iterate (Operation.iterate.perform l).1 [r] ∧
      l.nextToken = (r, (Operation.iterate.perform l).2) := by
  obtain ⟨t, l', h, ht, -⟩ | ⟨e, l', h, -⟩ | ⟨l', h, -⟩ := hl.nextToken_cases
  · have hperform : Operation.iterate.perform l = (.item (.ok t), l') := by simp [Operation.perform, next?, h, ht]
    rw [hperform]
    refine ⟨.ok t, .item ?_, h⟩
    rintro ⟨⟩
    cases ht
  · have hperform : Operation.iterate.perform l = (.item (.error e), l') := by simp [Operation.perform, next?, h]
    rw [hperform]
    exact ⟨.error e, .item (by simp), h⟩
  · have hperform : Operation.iterate.perform l = (.ended, l') := by simp [Operation.perform, next?, h]
    rw [hperform]
    exact ⟨.ok .eof, .ended, h⟩

theorem Brings.asks_tokenize (h : Brings l ts failure l') :
    ∃ results, Operation.Asks .tokenize (Operation.tokenize.perform l).1 results ∧
      l.calls results.length = (results, (Operation.tokenize.perform l).2) := by
  have hcalls := h.calls
  have htokenize : l.tokenize = _ := h.tokenizeOnto #[]
  simp only [Operation.perform, htokenize, Array.empty_append]
  cases failure with
  | none => exact ⟨_, .tokens ts, by simpa [lastAnswer] using hcalls⟩
  | some e => exact ⟨_, .failed ts e, by simpa [lastAnswer] using hcalls⟩

/-- Collecting makes one call more than tokenizing where it meets a failure. -/
theorem Brings.asks_collect (h : Brings l ts failure l') :
    ∃ results, Operation.Asks .collect (Operation.collect.perform l).1 results ∧
      l.calls results.length = (results, (Operation.collect.perform l).2) := by
  have hcalls := h.calls
  have hcollect : l.collect = _ := h.collectOnto #[]
  simp only [Operation.perform, hcollect, Array.empty_append]
  refine ⟨_, .items ts failure, ?_⟩
  cases failure with
  | none => simpa [lastAnswer] using hcalls
  | some e =>
    have hmore := calls_add l (ts.length + 1) 1
    rw [hcalls, calls_one h.nextToken_of_failure] at hmore
    simpa [lastAnswer] using hmore

/-- Every operation is some calls for the next token. -/
theorem Sound.asks (hl : l.Sound) (op : Operation) :
    ∃ results, op.Asks (op.perform l).1 results ∧ l.calls results.length = (results, (op.perform l).2) := by
  obtain ⟨ts, failure, l', hbrings, -⟩ := hl.brings
  cases op with
  | next => exact ⟨[l.nextToken.1], .next _, rfl⟩
  | iterate =>
    obtain ⟨r, hasks, hnext⟩ := hl.asks_iterate
    exact ⟨[r], hasks, calls_one hnext⟩
  | tokenize => exact hbrings.asks_tokenize
  | collect => exact hbrings.asks_collect

end Lexer

/-- What the log of a run in chunks of `chunk` bytes says, held against the reads that were made of `source`. -/
structure Faithful (source : Source) (chunk : Nat) (rs : List Report) : Prop where
  /-- The bytes that the reads delivered are gone from the source. -/
  delivered : (Report.logs rs).delivered ++ (source.afterReads (Report.logs rs).rooms).bytes = source.bytes
  loaded : (Report.logs rs).loaded = (Report.logs rs).delivered.length
  refills_dropLast : ∀ refill ∈ (Report.logs rs).refills.dropLast, refill = (chunk, false)
  refills_le : ∀ refill ∈ (Report.logs rs).refills, refill.1 ≤ chunk
  /-- A refill is drained exactly when the read right before it brought nothing. -/
  drained_iff : ∀ before bytes drained later,
    Report.logs rs = before ++ .event (.refilled bytes drained) :: later →
      (drained = true ↔ ∃ room, before.getLast? = some (.read room (.ok [])))
  nothing_told : ∀ before room later, Report.logs rs = before ++ .read room (.ok []) :: later →
    ∃ bytes, later.head? = some (.event (.refilled bytes true))
  failure_told : ∀ before room error later, Report.logs rs = before ++ .read room (.error error) :: later →
    error.isInterrupted = false → ∃ buffered, later.head? = some (.event (.fault error buffered))
  faults_length_le : (Report.logs rs).faults.length ≤ 1
  /-- A failure is told behind the read that met it, with the bytes gathered before it, and in the same step these are
  told to be loaded, or the lexer to be exhausted. Nothing else is read or loaded from then on. -/
  fault : ∀ prev r rest before error buffered later, rs = prev ++ r :: rest →
    r.log = before ++ .event (.fault error buffered) :: later →
      (∃ room, (Report.logs prev ++ before).getLast? = some (.read room (.error error))) ∧
      buffered = (Report.logs prev ++ before).delivered.length % chunk ∧
      later.head? = some (.event (if buffered = 0 then .exhausted else .refilled buffered false)) ∧
      Log.rooms (later ++ Report.logs rest) = [] ∧ Log.refills (later ++ Report.logs rest).tail = []
  count_exhausted_le : (Report.logs rs).events.count .exhausted ≤ 1
  /-- It is told in the step that the lexer comes to be exhausted in. -/
  exhausted_iff : ∀ prev r rest, rs = prev ++ r :: rest →
    (.exhausted ∈ r.log.events ↔ r.exhausted = true ∧ ∀ r' ∈ prev, r'.exhausted = false)

section
variable {source : Source} {chunk : Nat} {q : Phase} {rs prev rest : List Report} {r : Report}

/-- A failure in the log of a step. -/
theorem Chain.fault (h : Chain chunk (.loading 0) (prev ++ r :: rest) q) {before later : Log} {error : IoError}
    {buffered : Nat} (hr : r.log = before ++ .event (.fault error buffered) :: later) :
    (∃ room, (Report.logs prev ++ before).getLast? = some (.read room (.error error))) ∧
      buffered = (Report.logs prev ++ before).delivered.length % chunk ∧
      later.head? = some (.event (if buffered = 0 then .exhausted else .refilled buffered false)) ∧
      Log.rooms (later ++ Report.logs rest) = [] ∧ Log.refills (later ++ Report.logs rest).tail = [] := by
  obtain ⟨m, m', hprev, hpath, hrest, -, hlater⟩ := h.split_at
  have hlog := hprev.path.append hpath
  rw [hr, ← List.append_assoc] at hlog
  obtain ⟨hread, hbuffered, hwarned⟩ := hlog.fault_at
  -- what stands next is written in the same step, which comes to rest; what never comes again is so in the whole run
  obtain ⟨-, hrooms, hrefills⟩ := (hwarned.append hlater.path).of_warned (hlater.isResting hrest)
  exact ⟨hread, hbuffered, (hwarned.of_warned hrest).1, hrooms, hrefills⟩

/-- The end in the log of a step. -/
theorem Chain.exhausted_iff (h : Chain chunk (.loading 0) (prev ++ r :: rest) q) :
    .exhausted ∈ r.log.events ↔ r.exhausted = true ∧ ∀ r' ∈ prev, r'.exhausted = false := by
  obtain ⟨m, m', hprev, hpath, -, hx, -⟩ := h.split_at
  rw [hpath.mem_exhausted_iff, hx, Ne, hprev.ended_iff, and_comm]
  simp

/-- Reports that stand in a chain, with an account of the bytes, are faithful. -/
theorem Chain.faithful (h : Chain chunk (.loading 0) rs q) (hq : q.IsResting)
    (hdelivered : (Report.logs rs).delivered ++ (source.afterReads (Report.logs rs).rooms).bytes = source.bytes) :
    Faithful source chunk rs := by
  have hpath := h.path
  refine
    { delivered := hdelivered
      loaded := ?_
      refills_dropLast := hpath.refills_dropLast
      refills_le := hpath.refills_le (Nat.zero_le chunk)
      drained_iff := ?_
      nothing_told := ?_
      failure_told := ?_
      faults_length_le := hpath.length_faults_le
      fault := ?_
      count_exhausted_le := ?_
      exhausted_iff := ?_ }
  · have hbalance := hpath.balance
    rw [q.gathered_of_isResting hq] at hbalance
    simpa [Phase.gathered] using hbalance.symm
  · intro before bytes drained later hlog
    rw [hlog] at hpath
    exact hpath.drained_iff
  · intro before room later hlog
    rw [hlog] at hpath
    exact hpath.nothing_told hq
  · intro before room error later hlog herror
    rw [hlog] at hpath
    exact hpath.failure_told hq herror
  · rintro prev r rest before error buffered later rfl hr
    exact h.fault hr
  · have hcount := hpath.count_exhausted
    split_ifs at hcount <;> omega
  · rintro prev r rest rfl
    exact h.exhausted_iff

end

namespace Lexer

/-- The tokens in the report of an operation are those that its calls for the next token answered with. -/
def Tells (l : Lexer) (op : Operation) (r : Report) (l' : Lexer) : Prop :=
  ∃ answer results, r.answer = some answer ∧ op.Asks answer results ∧ l.calls results.length = (results, l') ∧
    r.log.tokens = results.filterMap produced?

theorem Sound.tells {l : Lexer} (hl : l.Sound) (op : Operation) : l.Tells op (l.reported op) (op.perform l).2 := by
  obtain ⟨results, hasks, hcalls⟩ := hl.asks op
  obtain ⟨new, hnew, htokens⟩ := hl.tokens_calls results.length
  rw [hcalls] at hnew htokens
  exact ⟨_, results, rfl, hasks, hcalls, by rw [log_reported hnew, htokens]⟩

theorem Sound.exists_calls {l : Lexer} (hl : l.Sound) (ops : List Operation) : ∃ n, (l.calls n).2 = l.after ops := by
  induction ops generalizing l with
  | nil => exact ⟨0, rfl⟩
  | cons op ops ih =>
    obtain ⟨results, -, hcalls⟩ := hl.asks op
    obtain ⟨past, hm⟩ := moves_perform l op
    obtain ⟨n, hn⟩ := ih (hl.moves hm)
    exact ⟨results.length + n, by rw [calls_add, hcalls, hn, after_cons]⟩

theorem delivered_session (source : Source) (chunk : Nat) (ops : List Operation) :
    (Report.logs (session source chunk ops)).delivered ++
      (source.afterReads (Report.logs (session source chunk ops)).rooms).bytes = source.bytes := by
  have hstart := sound_withChunkSize source chunk
  obtain ⟨past, hm⟩ := moves_after (withChunkSize source chunk) ops
  have haccounts := (accounts_withChunkSize source chunk).moves hstart hm
  have hchunked := chunked_moves hstart (chunked_withChunkSize source chunk) hm
  rw [← (chain_session source chunk ops).2]
  have hleft := haccounts.undelivered
  rwa [hchunked.metered.left] at hleft

/-- No token is told when a lexer is constructed. -/
theorem tokens_withChunkSize (source : Source) (chunk : Nat) :
    Log.tokens (withChunkSize source chunk).journal.toList = [] := by
  obtain ⟨new, hnew, hout⟩ := (shows_withChunkSize (Eq.refl source.stream) chunk).journal
  rw [hnew, Array.empty_append, tokens_eq_outward, hout]
  split <;> rfl

/-- The tokens that a run tells are complete tokens of the stream, from its first one on. A run of bytes that a failure
cuts off is not among them. -/
theorem tokens_session (source : Source) (chunk : Nat) (ops : List Operation) :
    (Report.logs (session source chunk ops)).tokens.map .ok <+: Munch.items source.stream := by
  have hstart := sound_withChunkSize source chunk
  obtain ⟨n, hn⟩ := hstart.exists_calls ops
  obtain ⟨new, hnew, htokens⟩ := hstart.tokens_calls n
  have hproduced := hstart.produced_calls n
  rw [stream_withChunkSize, ← htokens] at hproduced
  rw [← (chain_session source chunk ops).2, ← hn, hnew, Log.tokens_append, tokens_withChunkSize, List.nil_append]
  exact hproduced

/-- One step of a run, with the steps before and behind it. -/
theorem session_split (source : Source) (chunk : Nat) (before : List Operation) (op : Operation)
    (later : List Operation) :
    session source chunk (before ++ op :: later) = session source chunk before ++
      ((withChunkSize source chunk).after before).reported op ::
        ((withChunkSize source chunk).after (before ++ [op])).run later := by
  rw [session, run_append, run_cons, after_append]
  rfl

/-- The log of every run is a faithful account of it, and tells in each step exactly the tokens that the calls for the
next token answered with. -/
theorem session_faithful (source : Source) (chunk : Nat) :
    (∀ ops, Faithful source (max chunk 1) (session source chunk ops) ∧
      (Report.logs (session source chunk ops)).tokens.map .ok <+: Munch.items source.stream) ∧
    (Report.logs (session source chunk [])).tokens = [] ∧
    ∀ before op later, ∃ r rest,
      session source chunk (before ++ op :: later) = session source chunk before ++ r :: rest ∧
        ((withChunkSize source chunk).after before).Tells op r ((withChunkSize source chunk).after (before ++ [op])) := by
  refine ⟨?_, ?_, ?_⟩
  · intro ops
    obtain ⟨hchain, -⟩ := chain_session source chunk ops
    have hdelivered := delivered_session source chunk ops
    exact ⟨hchain.faithful (isResting_phase _) hdelivered, tokens_session source chunk ops⟩
  · rw [← (chain_session source chunk []).2]
    exact tokens_withChunkSize source chunk
  · intro before op later
    obtain ⟨past, hm⟩ := moves_after (withChunkSize source chunk) before
    have hl := (sound_withChunkSize source chunk).moves hm
    refine ⟨_, _, session_split source chunk before op later, ?_⟩
    rw [after_append]
    exact hl.tells op

/-- Tokenizing tells of two tokens that it gives up, and not of the word that the failure cuts off. -/
theorem session_faithful_cut :
    ∃ r before later, session [.data [0x31, 0x20, 0x3D] none, .fail .interrupted, .data [0x78] none,
        .fail (.simple .other)] 3 [.tokenize] =
      session [.data [0x31, 0x20, 0x3D] none, .fail .interrupted, .data [0x78] none,
        .fail (.simple .other)] 3 [] ++ [r] ∧
      r.answer = some (.tokens (.error (.sourceFault (.simple .other)))) ∧
      r.log = before ++ .event (.fault (.simple .other) 1) :: later ∧
      later.head? = some (.event (.refilled 1 false)) ∧
      r.log.tokens = [.number "1", .single .assign 0x3D] := by
  have hfaithful := ((session_faithful [.data [0x31, 0x20, 0x3D] none, .fail .interrupted, .data [0x78] none,
    .fail (.simple .other)] 3).1 [.tokenize]).1
  have hlog : ((withChunkSize [.data [0x31, 0x20, 0x3D] none, .fail .interrupted, .data [0x78] none,
      .fail (.simple .other)] 3).reported .tokenize).log =
        [.event (.token (.number "1")), .read 3 (.error .interrupted), .read 3 (.ok [0x78]),
          .read 2 (.error (.simple .other))] ++ .event (.fault (.simple .other) 1) ::
        [.event (.refilled 1 false), .event (.token (.single .assign 0x3D)), .event .exhausted] := by
    decide +kernel
  have hfails : (withChunkSize [.data [0x31, 0x20, 0x3D] none, .fail .interrupted, .data [0x78] none,
      .fail (.simple .other)] 3).tokenize.1 = .error (.sourceFault (.simple .other)) := by
    decide +kernel
  have hsplit := session_split [.data [0x31, 0x20, 0x3D] none, .fail .interrupted, .data [0x78] none,
    .fail (.simple .other)] 3 [] .tokenize []
  refine ⟨_, _, _, hsplit, congrArg (fun answer => some (Answer.tokens answer)) hfails, hlog, ?_, ?_⟩
  · exact (hfaithful.fault _ _ [] _ _ _ _ hsplit hlog).2.2.1
  · exact congrArg Log.tokens hlog

end Lexer

end StreamLexer
