import StreamLexer.Proofs.Lexer.Simulation

/-! Calls that are determined by the stream. What a call answers, what it tells of tokens and of the end, and
the stream that it leaves are the same for all lexers that show the same stream. This holds of every call that
a caller can make; a call that drains the lexer answers with all that the stream holds. -/
namespace StreamLexer.Lexer

/-- Every lexer that shows `s` gives the same answer, tells the same, and then shows the same stream. -/
def Determined {α : Type} (s : Stream) (call : Lexer → α × Lexer) (answer : α) (told : List Event)
    (s' : Stream) : Prop :=
  ∀ start before l, Shows start before s l →
    ∃ l', call l = (answer, l') ∧ Shows start (before ++ told) s' l'

theorem determined_nextToken (s : Stream) :
    Determined s nextToken (Munch.next s).1 (Munch.told s) (Munch.next s).2 := by
  intro start before l h
  exact h.nextToken

section
variable {α β : Type} {s s' s'' : Stream} {call : Lexer → α × Lexer} {call' : Lexer → β × Lexer} {a : α} {c : β}
  {told told' : List Event}

/-- A call that puts another call's answer in its own words. -/
theorem Determined.map {other : Lexer → β × Lexer} (h : Determined s call a told s')
    (hother : ∀ l l', call l = (a, l') → other l = (c, l')) : Determined s other c told s' := by
  intro start before l hl
  obtain ⟨l', heq, hl'⟩ := h start before l hl
  exact ⟨l', hother l l' heq, hl'⟩

/-- A call that makes two calls one after the other. -/
theorem Determined.andThen {both : Lexer → β × Lexer} (h : Determined s call a told s')
    (h' : Determined s' call' c told' s'') (hboth : ∀ l l', call l = (a, l') → both l = call' l') :
    Determined s both c (told ++ told') s'' := by
  intro start before l hl
  obtain ⟨l', heq, hl'⟩ := h start before l hl
  obtain ⟨l'', heq', hl''⟩ := h' start _ l' hl'
  rw [List.append_assoc] at hl''
  exact ⟨l'', (hboth l l' heq).trans heq', hl''⟩

end

section
variable {s : Stream} {r : Except Error Token} {rest : List (Except Error Token)}

/-- A stream without items has only its end to answer with. -/
theorem determined_nextToken_nil (h : Munch.items s = []) :
    Determined s nextToken (.ok .eof) (Munch.told s) ⟨[], .clean⟩ := by
  have hnext := determined_nextToken s
  rwa [(Munch.next_of_items_nil h).2] at hnext

theorem determined_nextToken_cons (h : Munch.items s = r :: rest) :
    Determined s nextToken r (Munch.told s) (Munch.next s).2 := by
  have hnext := determined_nextToken s
  rwa [(Munch.next_of_items_cons h).1] at hnext

/-- The end of the stream is no item. -/
theorem determined_next?_nil (h : Munch.items s = []) :
    Determined s next? none (Munch.told s) ⟨[], .clean⟩ := by
  refine (determined_nextToken_nil h).map ?_
  intro l l' heq
  simp [next?, heq]

theorem determined_next?_cons (h : Munch.items s = r :: rest) :
    Determined s next? (some r) (Munch.told s) (Munch.next s).2 := by
  obtain ⟨-, -, hne⟩ := Munch.next_of_items_cons h
  refine (determined_nextToken_cons h).map ?_
  intro l l' heq
  cases r with
  | error e => simp [next?, heq]
  | ok t => simp [next?, heq, hne t rfl]

end

theorem collectOnto_some {l l' : Lexer} {item : Except Error Token} {items : Array (Except Error Token)}
    (h : l.next? = (some item, l')) : l.collectOnto items = l'.collectOnto (items.push item) := by
  conv_lhs => rw [collectOnto]
  split
  · rename_i heq
    cases h.symm.trans heq
    rfl
  · rename_i heq
    cases h.symm.trans heq

theorem collectOnto_none {l l' : Lexer} {items : Array (Except Error Token)} (h : l.next? = (none, l')) :
    l.collectOnto items = (items, l') := by
  rw [collectOnto]
  split
  · rename_i heq
    cases h.symm.trans heq
  · rename_i heq
    cases h.symm.trans heq
    rfl

/-- Collecting brings all answers that the stream holds. -/
theorem determined_collectOnto (s : Stream) (items : Array (Except Error Token)) :
    ∃ told, Determined s (fun l => l.collectOnto items) (items ++ (Munch.items s).toArray) told
      ⟨[], .clean⟩ := by
  induction hi : Munch.items s generalizing s items with
  | nil =>
    refine ⟨Munch.told s, (determined_next?_nil hi).map ?_⟩
    intro l l' heq
    simpa using collectOnto_none heq
  | cons r rest ih =>
    obtain ⟨-, hrest, -⟩ := Munch.next_of_items_cons hi
    obtain ⟨told, htold⟩ := ih (Munch.next s).2 (items.push r) hrest
    have happ : items ++ (r :: rest).toArray = items.push r ++ rest.toArray := by simp
    rw [happ]
    refine ⟨Munch.told s ++ told, (determined_next?_cons hi).andThen htold ?_⟩
    intro l l' heq
    exact collectOnto_some heq

theorem tokenizeOnto_token {l l' : Lexer} {t : Token} {tokens : Array Token}
    (h : l.nextToken = (.ok t, l')) (ht : t.isEof = false) :
    l.tokenizeOnto tokens = l'.tokenizeOnto (tokens.push t) := by
  conv_lhs => rw [tokenizeOnto]
  split
  · rename_i heq
    cases h.symm.trans heq
    simp [ht]
  · rename_i heq
    cases h.symm.trans heq

theorem tokenizeOnto_eof {l l' : Lexer} {tokens : Array Token} (h : l.nextToken = (.ok .eof, l')) :
    l.tokenizeOnto tokens = (.ok (tokens.push .eof), l') := by
  rw [tokenizeOnto]
  split
  · rename_i heq
    cases h.symm.trans heq
    simp
  · rename_i heq
    cases h.symm.trans heq

theorem tokenizeOnto_error {l l' : Lexer} {e : Error} {tokens : Array Token}
    (h : l.nextToken = (.error e, l')) : l.tokenizeOnto tokens = (.error e, l') := by
  rw [tokenizeOnto]
  split
  · rename_i heq
    cases h.symm.trans heq
  · rename_i heq
    cases h.symm.trans heq
    rfl

/-- Tokenizing brings all tokens that the stream holds, or the failure at its end. -/
theorem determined_tokenizeOnto (s : Stream) (tokens : Array Token) :
    ∃ told, Determined s (fun l => l.tokenizeOnto tokens)
      ((Munch.drained (Munch.items s)).map (tokens ++ ·.toArray)) told ⟨[], .clean⟩ := by
  induction hi : Munch.items s generalizing s tokens with
  | nil =>
    refine ⟨Munch.told s, (determined_nextToken_nil hi).map ?_⟩
    intro l l' heq
    simp [tokenizeOnto_eof heq, Munch.drained, Except.map]
  | cons r rest ih =>
    obtain ⟨hr, hrest, hne⟩ := Munch.next_of_items_cons hi
    have hnext := determined_nextToken_cons hi
    cases r with
    | error e =>
      rw [Munch.next_of_error hr] at hnext
      refine ⟨Munch.told s, hnext.map ?_⟩
      intro l l' heq
      simp [tokenizeOnto_error heq, Munch.drained, Except.map]
    | ok t =>
      obtain ⟨told, htold⟩ := ih (Munch.next s).2 (tokens.push t) hrest
      have hdrained : (Munch.drained (.ok t :: rest)).map (tokens ++ ·.toArray) =
          (Munch.drained rest).map (tokens.push t ++ ·.toArray) := by
        simp only [Munch.drained]
        cases Munch.drained rest with
        | error e => rfl
        | ok ts => simp [Except.map]
      rw [hdrained]
      refine ⟨Munch.told s ++ told, hnext.andThen htold ?_⟩
      intro l l' heq
      exact tokenizeOnto_token heq (hne t rfl)

/-- What a call answers on a stream. -/
def answer (s : Stream) : Operation → Answer
  | .next => .item (Munch.next s).1
  | .iterate =>
    match (Munch.items s).head? with
    | some r => .item r
    | none => .ended
  | .tokenize => .tokens ((Munch.drained (Munch.items s)).map (·.toArray))
  | .collect => .items (Munch.items s).toArray

/-- The stream that a call leaves. -/
def remaining (s : Stream) : Operation → Stream
  | .next => (Munch.next s).2
  | .iterate => (Munch.next s).2
  | .tokenize => ⟨[], .clean⟩
  | .collect => ⟨[], .clean⟩

/-- Every call is determined by the stream. -/
theorem determined_perform (s : Stream) (op : Operation) :
    ∃ told, Determined s op.perform (answer s op) told (remaining s op) := by
  cases op with
  | next =>
    refine ⟨Munch.told s, (determined_nextToken s).map ?_⟩
    intro l l' heq
    simp [Operation.perform, answer, heq]
  | iterate =>
    cases hi : Munch.items s with
    | nil =>
      have hleft : remaining s .iterate = ⟨[], .clean⟩ := by
        rw [remaining, (Munch.next_of_items_nil hi).2]
      rw [hleft]
      refine ⟨Munch.told s, (determined_next?_nil hi).map ?_⟩
      intro l l' heq
      simp [Operation.perform, answer, heq, hi]
    | cons r rest =>
      refine ⟨Munch.told s, (determined_next?_cons hi).map ?_⟩
      intro l l' heq
      simp [Operation.perform, answer, heq, hi]
  | tokenize =>
    obtain ⟨told, h⟩ := determined_tokenizeOnto s #[]
    refine ⟨told, h.map ?_⟩
    intro l l' heq
    simp [Operation.perform, answer, Lexer.tokenize, heq]
  | collect =>
    obtain ⟨told, h⟩ := determined_collectOnto s #[]
    refine ⟨told, h.map ?_⟩
    intro l l' heq
    simp [Operation.perform, answer, Lexer.collect, heq]

end StreamLexer.Lexer
