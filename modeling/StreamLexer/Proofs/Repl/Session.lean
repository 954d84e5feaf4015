import StreamLexer.Proofs.Lexer.Tokenize
import StreamLexer.Proofs.Munch.Join
import StreamLexer.Proofs.Repl.Transcript
import StreamLexer.Proofs.Text.Utf8

/-! What is seen of an interactive session. The session writes in portions, each with a flush behind it: the first
prompt, for each line its tokens with the next prompt, and the closing line feed. Nothing but the lines of the input
and the way it ends decides the portions. -/
namespace StreamLexer

namespace Action

/-- Texts that are written one after the other, with a flush behind them. -/
def portion (texts : List String) : List Action := texts.map write ++ [flush]

/-- The number of bytes up to the end of each text, if there are so many before the first. -/
def totals (before : Nat) : List String → List Nat
  | [] => []
  | text :: rest => (before + text.utf8ByteSize) :: totals (before + text.utf8ByteSize) rest

theorem output_portion (texts : List String) : output (portion texts) = Text.utf8 (String.join texts) := by
  rw [Text.utf8_join, output, portion, List.flatMap_append, List.flatMap_map]
  exact List.append_nil _

theorem marks_portion (before : Nat) (texts : List String) :
    marks before (portion texts) = [before + (String.join texts).utf8ByteSize] := by
  induction texts generalizing before with
  | nil => rfl
  | cons text texts ih =>
    have hsize : (bytes (.write text)).length = text.utf8ByteSize := Text.length_utf8 text
    have hcons : marks before (portion (text :: texts)) =
      marks (before + (bytes (.write text)).length) (portion texts) := rfl
    rw [hcons, ih, hsize, String.join_cons, String.utf8ByteSize_append, Nat.add_assoc]

theorem output_portions (portions : List (List String)) :
    output (portions.flatMap portion) = Text.utf8 (String.join (portions.map String.join)) := by
  rw [Text.utf8_join, List.flatMap_map, output, List.flatMap_assoc]
  exact congrArg portions.flatMap (funext output_portion)

theorem marks_portions (before : Nat) (portions : List (List String)) :
    marks before (portions.flatMap portion) = totals before (portions.map String.join) := by
  induction portions generalizing before with
  | nil => rfl
  | cons texts portions ih =>
    rw [List.flatMap_cons, marks_append, marks_portion, output_portion, Text.length_utf8, ih]
    rfl

end Action

/-- What is seen when these texts arrive one after the other, with a flush behind each. -/
def Transcript.Seen.ofPortions (result : Except Error Unit) (portions : List String) : Transcript.Seen :=
  ⟨result, Text.utf8 (String.join portions), Action.totals 0 portions⟩

/-- A transcript that writes in portions is seen as these. -/
theorem Transcript.seenOn_portions {b : Sink.Behaviour} (hb : b.Reliable) (result : Except Error Unit)
    (portions : List (List String)) :
    seenOn ⟨portions.flatMap Action.portion, result⟩ b = .ofPortions result (portions.map String.join) := by
  rw [seenOn_of_reliable _ hb, Action.output_portions, Action.marks_portions]
  rfl

/-- The text of a transcript is what it brings to a sink that takes everything. -/
theorem Transcript.utf8_text (actions : List Action) (result : Except Error Unit) :
    Text.utf8 (text ⟨actions, result⟩) = Action.output actions := by
  induction actions using List.reverseRecOn with
  | nil => exact Text.utf8_empty
  | append_singleton front a ih =>
    rw [Action.output_append, ← ih]
    cases a with
    | write added =>
      have happ : text ⟨front ++ [.write added], result⟩ = text ⟨front, result⟩ ++ added := by simp [text]
      rw [happ, Text.utf8_append]
      simp [Action.output, Action.bytes, Text.utf8]
    | flush => simp [text, Action.output, Action.bytes]

theorem Transcript.text_portions (result : Except Error Unit) (portions : List (List String)) :
    text ⟨portions.flatMap Action.portion, result⟩ = String.join (portions.map String.join) := by
  apply Text.utf8_injective
  rw [utf8_text, Action.output_portions]

namespace Repl

/-- What is seen of a session whose output goes to a fresh sink. -/
def seen (source : Source) (b : Sink.Behaviour) : Transcript.Seen := (transcript source).seenOn b

/-- What a session writes for lines with these tokens: the prompt, and for each line its tokens, one below the other,
and the next prompt. -/
def portions (shown : List (List Token)) : List String :=
  ">> " :: shown.map fun ts => String.join (ts.map fun t => t.display ++ "\n") ++ ">> "

/-- All that the lexers of some lines bring. -/
def lineItems (lines : List (List UInt8)) : List (List (Except Error Token)) :=
  lines.map fun line => (Lexer.ofSource (.ofBytes line)).collect.1.toList

/-- A line is lexed without a failure. -/
theorem collect_line (line : List UInt8) :
    (Lexer.ofSource (.ofBytes line)).collect.1.toList = (Munch.tokens line).map .ok := by
  rw [Lexer.collect_ofSource, Source.stream_ofBytes]
  rfl

theorem lineItems_eq (lines : List (List UInt8)) :
    lineItems lines = (lines.map Munch.tokens).map fun ts => ts.map .ok := by
  simp only [lineItems, collect_line, List.map_map, Function.comp_def]

/-- The texts that a session writes for some lines before the input ends, portion by portion. -/
def texts (lines : List (List UInt8)) : List (List String) :=
  [prompt] :: lines.map fun line => (Munch.tokens line).map (fun t => t.display ++ "\n") ++ [prompt]

theorem join_texts (lines : List (List UInt8)) :
    (texts lines).map String.join = portions (lines.map Munch.tokens) := by
  simp [texts, portions, prompt, Function.comp_def]

/-- All that a session does before the input ends. -/
theorem shown_eq (lines : List (List UInt8)) :
    promptActions ++ lines.flatMap answerActions = (texts lines).flatMap Action.portion := by
  have hline : answerActions = fun line =>
      Action.portion ((Munch.tokens line).map (fun t => t.display ++ "\n") ++ [prompt]) := by
    funext line
    simp [answerActions, lineActions, collect_line, itemText, Action.portion, promptActions]
  rw [hline, texts, List.flatMap_cons, List.flatMap_map]
  rfl

variable {source source' : Source} {b : Sink.Behaviour} {lines : List (List UInt8)}

/-- Only the lines and the way the input ends matter. -/
theorem seen_congr (h : source.lines = source'.lines) (b : Sink.Behaviour) : seen source b = seen source' b := by
  unfold seen transcript
  rw [h]

theorem transcript_of_clean (h : source.lines = (lines, .clean)) :
    transcript source = ⟨(texts lines ++ [["\n"]]).flatMap Action.portion, .ok ()⟩ := by
  have hclosing : [Action.write "\n", Action.flush] = [["\n"]].flatMap Action.portion := rfl
  simp only [transcript, h, shown_eq, closing]
  rw [hclosing, ← List.flatMap_append]

theorem transcript_of_failure {e : IoError} (h : source.lines = (lines, .failure e)) :
    transcript source = ⟨(texts lines).flatMap Action.portion, .error (.io e)⟩ := by
  simp only [transcript, h, shown_eq, closing, List.append_nil]

theorem seen_of_clean (hb : b.Reliable) (h : source.lines = (lines, .clean)) :
    seen source b = .ofPortions (.ok ()) (portions (lines.map Munch.tokens) ++ ["\n"]) := by
  rw [seen, transcript_of_clean h, Transcript.seenOn_portions hb, List.map_append, join_texts]
  rfl

theorem seen_of_failure {e : IoError} (hb : b.Reliable) (h : source.lines = (lines, .failure e)) :
    seen source b = .ofPortions (.error (.io e)) (portions (lines.map Munch.tokens)) := by
  rw [seen, transcript_of_failure h, Transcript.seenOn_portions hb, join_texts]

/-- An input without an early end is shown line by line, with a prompt before each line and behind the last, and a
line feed at the end. The lexers of the lines bring nothing but tokens, and these are the tokens of the whole input. -/
theorem seen_of_unbroken (h : ∀ s ∈ source, s.breaks = false) (hb : b.Reliable) :
    ∃ (lines : List (List UInt8)) (shown : List (List Token)),
      (∀ lines', LineReader.Cuts source.bytes lines' ↔ lines' = lines) ∧
      lineItems lines = shown.map (fun ts => ts.map .ok) ∧
      seen source b = .ofPortions (.ok ()) (portions shown ++ ["\n"]) ∧
      tokenize source = .ok (shown.flatten ++ [Token.eof]).toArray := by
  refine ⟨LineReader.cut source.bytes, (LineReader.cut source.bytes).map Munch.tokens, fun _ => LineReader.cuts_iff,
    lineItems_eq _, seen_of_clean hb (Source.lines_of_unbroken h), ?_⟩
  have htokens := Lexer.tokenizes_tokens source.bytes source 8 (Source.stream_of_unbroken h)
  rw [Munch.tokens_eq_flatMap_cut, List.flatMap_def] at htokens
  exact htokens

/-- A word, a blank line, and a last line without a line feed that arrives in two parts. -/
theorem seen_of_unbroken_lines :
    (∀ s ∈ ([.data [0x6C, 0x65, 0x74, 0x0A, 0x0D, 0x0A, 0x35] (some 2), .fail .interrupted,
      .data [0x36] none] : Source), s.breaks = false) ∧
    ∃ (lines : List (List UInt8)) (shown : List (List Token)),
      (∀ lines', LineReader.Cuts [0x6C, 0x65, 0x74, 0x0A, 0x0D, 0x0A, 0x35, 0x36] lines' ↔ lines' = lines) ∧
      lineItems lines = shown.map (fun ts => ts.map .ok) ∧
      seen [.data [0x6C, 0x65, 0x74, 0x0A, 0x0D, 0x0A, 0x35] (some 2), .fail .interrupted, .data [0x36] none]
        ⟨some 3, none, false, true, none, .simple .brokenPipe⟩ = .ofPortions (.ok ()) (portions shown ++ ["\n"]) ∧
      tokenize [.data [0x6C, 0x65, 0x74, 0x0A, 0x0D, 0x0A, 0x35] (some 2), .fail .interrupted, .data [0x36] none] =
        .ok (shown.flatten ++ [Token.eof]).toArray :=
  ⟨by decide, @seen_of_unbroken [.data [0x6C, 0x65, 0x74, 0x0A, 0x0D, 0x0A, 0x35] (some 2), .fail .interrupted,
    .data [0x36] none] ⟨some 3, none, false, true, none, .simple .brokenPipe⟩ (by decide) ⟨rfl, rfl⟩⟩

end Repl

end StreamLexer
