import StreamLexer.FileTree
import StreamLexer.Proofs.CommandLine.Table
import StreamLexer.Proofs.Repl.Session

/-! How a run ends. It fails on an unknown flag, on a file that cannot be opened, and on an input that fails while it is
read; the status and the second channel both say so, and the first channel keeps what came before the failure. An input
of which nothing can be read leaves a table without rows, or a session with a single prompt. Only a program that halts
at a count too large ends in another way. -/
namespace StreamLexer

/-- A source that brings all its bytes, or fails before the first one. Files and directories do. -/
inductive Source.Whole (source : Source) : Prop
  | unbroken (h : ∀ s ∈ source, s.breaks = false)
  | unread (e : IoError) (h : source.stream = ⟨[], .failure e⟩)

theorem FileTree.Place.whole_source (place : Place) : place.source.Whole := by
  cases place with
  | file contents => exact .unbroken (List.forall_mem_singleton.2 rfl)
  | directory => exact .unread (.os .isDirectory) rfl
  | outside => exact .unread (.os .isDirectory) rfl

namespace CommandLine

/-! The text of a session. -/

section
variable {source : Source} {lines : List (List UInt8)}

theorem ofTranscript_of_clean (h : source.lines = (lines, .clean)) (colour : Bool) :
    Outcome.ofTranscript colour (Repl.transcript source) =
      ⟨0, banner ++ String.join (Repl.portions (lines.map Munch.tokens) ++ ["\n"]), ""⟩ := by
  rw [Repl.transcript_of_clean h, Outcome.ofTranscript, Transcript.text_portions, List.map_append, Repl.join_texts]
  rfl

theorem ofTranscript_of_failure {e : IoError} (h : source.lines = (lines, .failure e)) (colour : Bool) :
    Outcome.ofTranscript colour (Repl.transcript source) =
      ⟨1, banner ++ String.join (Repl.portions (lines.map Munch.tokens)), failureLine colour (Error.io e).message⟩ := by
  rw [Repl.transcript_of_failure h, Outcome.ofTranscript, Transcript.text_portions, Repl.join_texts]
  rfl

end

/-- The ways in which a request ends, each with its outcome, which goes by whether colours are on. -/
inductive Ends (s : Surroundings) : Request → (Bool → Outcome) → Prop
  | session {lines : List (List UInt8)} (h : s.stdin.lines = (lines, .clean)) :
      Ends s .session fun _ => ⟨0, banner ++ String.join (Repl.portions (lines.map Munch.tokens) ++ ["\n"]), ""⟩
  | brokenSession {lines : List (List UInt8)} {e : IoError} (h : s.stdin.lines = (lines, .failure e)) :
      Ends s .session fun colour => ⟨1, banner ++ String.join (Repl.portions (lines.map Munch.tokens)),
        failureLine colour (Error.io e).message⟩
  | help : Ends s .help fun _ => ⟨0, help, ""⟩
  | unknownFlag (flag : String) :
      Ends s (.unknownFlag flag) fun _ => ⟨1, "", "Unknown flag: " ++ flag ++ "\n" ++ usage⟩
  | missingInput : Ends s .missingInput fun _ => ⟨1, "", "Error: No input file specified\n" ++ usage⟩
  | table {input : Input} {name blame : String} {source : Source} {bytes : List UInt8}
      (hopen : Opens s input name blame source) (h : source.stream = ⟨bytes, .clean⟩)
      (hcount : s.overflow.Counts (Munch.tokens bytes).length) :
      Ends s (.table input) fun colour =>
        ⟨0, unlines (Table.upper colour name (Munch.tokens bytes) ++ Table.lower (Munch.tokens bytes)), ""⟩
  | brokenTable {input : Input} {name blame : String} {source : Source} {bytes : List UInt8} {e : IoError}
      (hopen : Opens s input name blame source) (h : source.stream = ⟨bytes, .failure e⟩)
      (hcount : s.overflow.Counts (Munch.complete bytes).length) :
      Ends s (.table input) fun colour => ⟨1, unlines (Table.upper colour name (Munch.complete bytes)),
        failureLine colour (blame ++ (Error.sourceFault e).message)⟩
  | haltedTable {input : Input} {name blame : String} {source : Source} {notice : Notice}
      (hopen : Opens s input name blame source) (hhalts : s.overflow = .halts notice)
      (hmany : Overflow.limit ≤ source.stream.tokens.length) :
      Ends s (.table input) fun colour =>
        ⟨101, unlines (Table.upper colour name (source.stream.tokens.take Overflow.limit)), notice.text⟩
  | unopened {name : String} {e : IoError} (h : s.openFile name = .error e) :
      Ends s (.table (.file name)) fun colour =>
        ⟨1, "", failureLine colour ("Failed to open file '" ++ name ++ "': " ++ e.text)⟩

theorem answer_of_unopened {s : Surroundings} {name : String} {e : IoError} (h : s.openFile name = .error e)
    (colour : Bool) : answer { s with colour } (.table (.file name)) =
      ⟨1, "", failureLine colour ("Failed to open file '" ++ name ++ "': " ++ e.text)⟩ := by
  simp only [answer, answerFrom, Surroundings.inputs, h]
  rfl

theorem Opens.answer_of_halts {s : Surroundings} {input : Input} {name blame : String} {source : Source}
    {notice : Notice} (hopen : Opens s input name blame source) (hhalts : s.overflow = .halts notice)
    (hmany : Overflow.limit ≤ source.stream.tokens.length) (colour : Bool) :
    answer { s with colour } (.table input) =
      ⟨101, unlines (Table.upper colour name (source.stream.tokens.take Overflow.limit)), notice.text⟩ := by
  rw [hopen.answer_eq, hhalts, ofTable_of_halts hmany]

/-- An input can be opened, or it is a file that cannot. -/
theorem opens_or_unopened (s : Surroundings) (input : Input) :
    (∃ name blame source, Opens s input name blame source) ∨
      ∃ name e, input = .file name ∧ s.openFile name = .error e := by
  cases input with
  | standard => exact .inl ⟨_, _, _, .standard⟩
  | file name =>
    cases h : s.openFile name with
    | ok source => exact .inl ⟨_, _, _, .file h⟩
    | error e => exact .inr ⟨name, e, rfl, h⟩

/-- Every request ends, and in the same way with colours as without. -/
theorem exists_ends (s : Surroundings) (r : Request) :
    ∃ o, Ends s r o ∧ ∀ colour, answer { s with colour } r = o colour := by
  cases r with
  | session =>
    cases h : s.stdin.lines with
    | mk lines ending =>
      cases ending with
      | clean => exact ⟨_, .session h, ofTranscript_of_clean h⟩
      | failure e => exact ⟨_, .brokenSession h, ofTranscript_of_failure h⟩
  | help => exact ⟨_, .help, fun _ => rfl⟩
  | unknownFlag flag => exact ⟨_, .unknownFlag flag, fun _ => rfl⟩
  | missingInput => exact ⟨_, .missingInput, fun _ => rfl⟩
  | table input =>
    obtain ⟨name, blame, source, hopen⟩ | ⟨name, e, rfl, h⟩ := opens_or_unopened s input
    · obtain hcount | ⟨notice, hhalts, hmany⟩ := s.overflow.counts_or_halts source.stream.tokens.length
      · cases h : source.stream with
        | mk bytes ending =>
          rw [h] at hcount
          cases ending with
          | clean =>
            refine ⟨_, .table hopen h hcount, ?_⟩
            intro colour
            rw [hopen.answer_eq, ofTable_of_clean h hcount]
          | failure e =>
            refine ⟨_, .brokenTable hopen h hcount, ?_⟩
            intro colour
            rw [hopen.answer_eq, ofTable_of_failure h hcount]
      · exact ⟨_, .haltedTable hopen hhalts hmany, hopen.answer_of_halts hhalts hmany⟩
    · exact ⟨_, .unopened h, answer_of_unopened h⟩

/-! What the status and the two channels have to do with each other. -/

/-- The reasons to fail that a run may have if no input fails in the middle. -/
inductive Fails (s : Surroundings) : Request → Prop
  | unknownFlag (flag : String) : Fails s (.unknownFlag flag)
  | unopened {name : String} {e : IoError} (h : s.openFile name = .error e) : Fails s (.table (.file name))
  | unread {input : Input} {name blame : String} {source : Source} {e : IoError}
      (hopen : Opens s input name blame source) (h : source.stream = ⟨[], .failure e⟩) : Fails s (.table input)
  | unreadSession {e : IoError} (h : s.stdin.stream = ⟨[], .failure e⟩) : Fails s .session

/-- How the heading of a table begins. -/
def headingText (colour : Bool) : String := if colour then "\x1b[1mTokens for\x1b[0m '" else "Tokens for '"

/-- How a line begins that tells of a failure. -/
def errorText (colour : Bool) : String := if colour then "\x1b[1;31merror:\x1b[0m " else "error: "

/-- What the status and the texts of an outcome have to do with each other and with the request. The second channel
holds something exactly after a failure, and the first channel holds what came before it. A table that is complete ends
with the number of its tokens. -/
structure Consistent (s : Surroundings) (r : Request) (o : Outcome) : Prop where
  code : o.code = 0 ∨ o.code = 1
  silent : o.code = 0 ↔ o.stderr = ""
  unknownFlag {flag : String} (hr : r = .unknownFlag flag) : o.code = 1 ∧ o.stdout = ""
  unopened {name : String} {e : IoError} (hr : r = .table (.file name)) (h : s.openFile name = .error e) :
    o = ⟨1, "", errorText s.colour ++ ("Failed to open file '" ++ name ++ "': " ++ e.text) ++ "\n"⟩
  unread {input : Input} {name blame : String} {source : Source} {e : IoError} (hr : r = .table input)
    (hopen : Opens s input name blame source) (h : source.stream = ⟨[], .failure e⟩) :
    o = ⟨1, headingText s.colour ++ name ++ "':\n" ++ String.ofList (List.replicate 60 '=') ++ "\n",
      errorText s.colour ++ (blame ++ ("Source Fault: failed to read from byte source: " ++ e.text)) ++ "\n"⟩
  unreadSession {e : IoError} (hr : r = .session) (h : s.stdin.stream = ⟨[], .failure e⟩) :
    o = ⟨1, "Monkey v0.1.0 - Token REPL\nPress Ctrl-D to quit\n\n>> ",
      errorText s.colour ++ ("I/O Error: " ++ e.text) ++ "\n"⟩
  finished {input : Input} {name blame : String} {source : Source} (hr : r = .table input)
    (hopen : Opens s input name blame source) (h : o.code = 0) :
    ∃ above : List String, o.stdout = unlines (above ++
      ["Total tokens: " ++ toString (Int32.ofNat (Munch.tokens source.stream.bytes).length)])

theorem failureLine_eq (colour : Bool) (message : String) :
    failureLine colour message = errorText colour ++ message ++ "\n" := by
  have hlabel : Text.Style.boldRed.paint colour "error:" ++ " " = errorText colour := by
    cases colour <;> decide
  rw [failureLine, hlabel]

theorem failureLine_ne_empty (colour : Bool) (message : String) : failureLine colour message ≠ "" := by
  simp [failureLine]

theorem Table.unlines_header (colour : Bool) (name line : String) :
    unlines [header colour name, line] = headingText colour ++ name ++ "':\n" ++ line ++ "\n" := by
  have hheading : Text.Style.bold.paint colour "Tokens for" ++ " '" = headingText colour := by
    cases colour <;> decide
  rw [header, hheading, unlines_heading, unlines_cons, unlines_nil, String.append_empty, ← String.append_assoc]

/-- The text of a table that breaks off before its first row. -/
theorem Table.unlines_upper_nil (colour : Bool) (name : String) :
    unlines (upper colour name []) =
      headingText colour ++ name ++ "':\n" ++ String.ofList (List.replicate 60 '=') ++ "\n" := by
  rw [upper, rowsFrom_nil]
  exact unlines_header colour name rule

/-- Whether all tokens of the table that is asked for can be counted. -/
def Surroundings.Counts (s : Surroundings) (r : Request) : Prop :=
  ∀ input name blame source, r = .table input → Opens s input name blame source →
    s.overflow.Counts source.stream.tokens.length

theorem Surroundings.counts_of_wraps {s : Surroundings} (h : s.overflow = .wraps) (r : Request) : s.Counts r := by
  rintro input name blame source - -
  rw [h]
  exact .wrapped

/-- An input stands for one source. -/
theorem Opens.source_unique {s : Surroundings} {input : Input} {name name' blame blame' : String}
    {source source' : Source} (h : Opens s input name blame source) (h' : Opens s input name' blame' source') :
    source = source' := by
  cases h with
  | standard =>
    cases h'
    rfl
  | file hopen =>
    cases h' with
    | file hopen' => exact Except.ok.inj (hopen.symm.trans hopen')

section
variable {s : Surroundings} {r : Request} {o : Bool → Outcome}

theorem Ends.code (h : Ends s r o) (hs : s.Counts r) (colour : Bool) : (o colour).code = 0 ∨ (o colour).code = 1 := by
  cases h with
  | haltedTable hopen hhalts hmany =>
    have hcount := hs _ _ _ _ rfl hopen
    rw [hhalts] at hcount
    have hfew := hcount.lt_of_halts
    omega
  | _ => simp

theorem Ends.silent (h : Ends s r o) (colour : Bool) : (o colour).code = 0 ↔ (o colour).stderr = "" := by
  cases h with
  | @haltedTable _ _ _ _ notice => simp [notice.nonempty]
  | _ => simp [failureLine_ne_empty]

theorem Ends.finished {input : Input} {name blame : String} {source : Source} (h : Ends s (.table input) o)
    (hopen : Opens s input name blame source) (colour : Bool) (hcode : (o colour).code = 0) :
    ∃ above : List String, (o colour).stdout = unlines (above ++
      ["Total tokens: " ++ toString (Int32.ofNat (Munch.tokens source.stream.bytes).length)]) := by
  cases h with
  | @table input name' blame' source' bytes hopen' h hcount =>
    rw [hopen.source_unique hopen', h]
    refine ⟨Table.upper colour name' (Munch.tokens bytes) ++ [Table.rule], ?_⟩
    rw [List.append_assoc]
    rfl
  | brokenTable => cases hcode
  | haltedTable => cases hcode
  | unopened => cases hcode

/-- Surroundings in which every input arrives in whole, or not at all. -/
structure Surroundings.Whole (s : Surroundings) : Prop where
  stdin : s.stdin.Whole
  file {name : String} {source : Source} (h : s.openFile name = .ok source) : source.Whole

theorem Ends.fails (h : Ends s r o) (hr : r ≠ .missingInput) (hs : s.Whole) (colour : Bool)
    (hcode : (o colour).code = 1) : Fails s r := by
  cases h with
  | session => cases hcode
  | brokenSession h =>
    cases hs.stdin with
    | unbroken hall => cases (Source.lines_of_unbroken hall).symm.trans h
    | unread e hunread => exact .unreadSession hunread
  | help => cases hcode
  | unknownFlag flag => exact .unknownFlag flag
  | missingInput => exact absurd rfl hr
  | table => cases hcode
  | haltedTable => cases hcode
  | brokenTable hopen h =>
    cases hopen.source_of hs.stdin hs.file with
    | unbroken hall => cases (Source.stream_of_unbroken hall).symm.trans h
    | unread e hunread => exact .unread hopen hunread
  | unopened h => exact .unopened h

end

/-- An input of which nothing can be read has a table without rows, and without an end. -/
theorem Opens.answer_of_unread {s : Surroundings} {input : Input} {name blame : String} {source : Source} {e : IoError}
    (hopen : Opens s input name blame source) (h : source.stream = ⟨[], .failure e⟩) (colour : Bool) :
    answer { s with colour } (.table input) = ⟨1, unlines (Table.upper colour name []),
      failureLine colour (blame ++ (Error.sourceFault e).message)⟩ := by
  have hcount : s.overflow.Counts (Munch.complete []).length := by
    rw [Munch.complete_nil]
    exact .small (by decide)
  rw [hopen.answer_eq, ofTable_of_failure h hcount, Munch.complete_nil]

/-- Standard input of which nothing can be read leaves a session with its first prompt. -/
theorem answer_session_of_unread {s : Surroundings} {e : IoError} (h : s.stdin.stream = ⟨[], .failure e⟩)
    (colour : Bool) : answer { s with colour } .session =
      ⟨1, banner ++ Repl.prompt, failureLine colour (Error.io e).message⟩ :=
  ofTranscript_of_failure (Source.lines_of_unread h) colour

theorem consistent_answer {s : Surroundings} {r : Request} (hs : s.Counts r) : Consistent s r (answer s r) := by
  obtain ⟨o, hends, hall⟩ := exists_ends s r
  have ho : answer s r = o s.colour := hall s.colour
  constructor
  case code =>
    rw [ho]
    exact hends.code hs s.colour
  case silent =>
    rw [ho]
    exact hends.silent s.colour
  case unknownFlag =>
    rintro flag rfl
    exact ⟨rfl, rfl⟩
  case unopened =>
    rintro name e rfl h
    rw [← failureLine_eq]
    exact answer_of_unopened h s.colour
  case unread =>
    rintro input name blame source e rfl hopen h
    rw [← failureLine_eq, ← Table.unlines_upper_nil]
    exact hopen.answer_of_unread h s.colour
  case unreadSession =>
    rintro e rfl h
    have hshown : banner ++ Repl.prompt = "Monkey v0.1.0 - Token REPL\nPress Ctrl-D to quit\n\n>> " := by decide
    rw [← failureLine_eq, ← hshown]
    exact answer_session_of_unread h s.colour
  case finished =>
    rw [ho]
    rintro input name blame source rfl hopen
    exact hends.finished hopen s.colour

/-- A program that halts at a count too large has neither of the two statuses. -/
theorem consistent_answer_iff {s : Surroundings} {r : Request} : Consistent s r (answer s r) ↔ s.Counts r := by
  refine ⟨?_, consistent_answer⟩
  rintro h input name blame source rfl hopen
  obtain hcount | ⟨notice, hhalts, hmany⟩ := s.overflow.counts_or_halts source.stream.tokens.length
  · exact hcount
  · have hcode := h.code
    have hanswer : answer s (.table input) = _ := hopen.answer_of_halts hhalts hmany s.colour
    rw [hanswer] at hcode
    obtain hcode | hcode := hcode <;> cases hcode

/-- A run among the files and directories of a tree, with standard input taken from a place of any tree. -/
def Surroundings.inTree (overflow : Overflow) (colour : Bool) (stdin : FileTree.Place) (tree : FileTree) :
    Surroundings :=
  ⟨colour, stdin.source, tree.openPath, overflow⟩

theorem Surroundings.whole_inTree (overflow : Overflow) (colour : Bool) (stdin : FileTree.Place) (tree : FileTree) :
    (inTree overflow colour stdin tree).Whole := by
  refine ⟨stdin.whole_source, ?_⟩
  intro name source h
  obtain ⟨place, rfl⟩ := FileTree.exists_of_openPath_eq_ok h
  exact place.whole_source

/-- Whatever the arguments and the inputs, status and texts agree exactly if all tokens of the table can be counted; and
among the files and directories of a tree a run has no other reasons to fail than the four. -/
theorem run_consistent (args : List String) :
    (∀ s, Consistent s (.ofArgs args) (run s args) ↔ s.Counts (.ofArgs args)) ∧
    ∀ overflow colour stdin tree, (run (.inTree overflow colour stdin tree) args).code = 1 →
      Fails (.inTree overflow colour stdin tree) (.ofArgs args) := by
  refine ⟨fun s => consistent_answer_iff, ?_⟩
  intro overflow colour stdin tree hcode
  obtain ⟨o, hends, hall⟩ := exists_ends (.inTree overflow colour stdin tree) (.ofArgs args)
  have ho : run (.inTree overflow colour stdin tree) args = o colour := hall colour
  rw [ho] at hcode
  exact hends.fails (Request.ofArgs_ne_missingInput args) (Surroundings.whole_inTree overflow colour stdin tree) colour
    hcode

/-- A directory that is opened as a file, one that is standard input of a table and of a session, and a file that has no
name. -/
theorem run_consistent_directory :
    run ⟨true, [], fun _ => .ok FileTree.unreadable, .wraps⟩ ["d"] =
      ⟨1, headingText true ++ "d" ++ "':\n" ++ String.ofList (List.replicate 60 '=') ++ "\n",
        errorText true ++ ("d: " ++ ("Source Fault: failed to read from byte source: " ++
          "Is a directory (os error 21)")) ++ "\n"⟩ ∧
    run (.inTree .wraps false (.directory []) ⟨[], []⟩) ["-"] =
      ⟨1, headingText false ++ "<stdin>" ++ "':\n" ++ String.ofList (List.replicate 60 '=') ++ "\n",
        errorText false ++ ("" ++ ("Source Fault: failed to read from byte source: " ++
          "Is a directory (os error 21)")) ++ "\n"⟩ ∧
    Fails (.inTree .wraps false (.directory []) ⟨[], []⟩) (.ofArgs ["-"]) ∧
    run (.inTree .wraps true (.directory []) ⟨[], []⟩) [] =
      ⟨1, "Monkey v0.1.0 - Token REPL\nPress Ctrl-D to quit\n\n>> ",
        errorText true ++ ("I/O Error: " ++ "Is a directory (os error 21)") ++ "\n"⟩ ∧
    (run (.inTree .wraps true (.file []) ⟨[], []⟩) [""]).stdout = "" := by
  have htext : IoError.text (.os .isDirectory) = "Is a directory (os error 21)" := by decide
  have hall : ∀ args s, s.overflow = .wraps → Consistent s (.ofArgs args) (run s args) :=
    fun args s hs => ((run_consistent args).1 s).2 (Surroundings.counts_of_wraps hs _)
  have hstandard := (hall ["-"] (.inTree .wraps false (.directory []) ⟨[], []⟩) rfl).unread (by decide) .standard rfl
  rw [← htext]
  refine ⟨?_, hstandard, ?_, ?_, ?_⟩
  · exact (hall ["d"] ⟨true, [], fun _ => .ok FileTree.unreadable, .wraps⟩ rfl).unread (by decide) (.file rfl) rfl
  · exact (run_consistent ["-"]).2 .wraps false (.directory []) ⟨[], []⟩ (by rw [hstandard])
  · exact (hall [] (.inTree .wraps true (.directory []) ⟨[], []⟩) rfl).unreadSession rfl rfl
  · have hopen : (Surroundings.inTree .wraps true (.file []) ⟨[], []⟩).openFile "" = .error (.os .noEntry) := rfl
    rw [(hall [""] (.inTree .wraps true (.file []) ⟨[], []⟩) rfl).unopened (by decide) hopen]

/-- A program that halts at one token more than it can count ends neither well nor with a failure. -/
theorem run_consistent_overflow :
    (run (.crowded (.halts ⟨"attempt to add with overflow\n", by decide, by decide⟩)) ["-"]).code = 101 ∧
    ¬ Consistent (.crowded (.halts ⟨"attempt to add with overflow\n", by decide, by decide⟩)) (.ofArgs ["-"])
      (run (.crowded (.halts ⟨"attempt to add with overflow\n", by decide, by decide⟩)) ["-"]) := by
  generalize (⟨"attempt to add with overflow\n", by decide, by decide⟩ : Notice) = notice
  have htokens : (Surroundings.crowded (.halts notice)).stdin.stream.tokens =
      Munch.tokens (List.replicate Overflow.limit 0x3B) := by
    rw [Surroundings.crowded, Source.stream_ofBytes, Stream.tokens]
  have hmany : Overflow.limit ≤ (Surroundings.crowded (.halts notice)).stdin.stream.tokens.length := by
    rw [htokens, length_tokens_semicolons]
  have hanswer := Opens.standard.answer_of_halts rfl hmany false
  have hcode : (run (.crowded (.halts notice)) ["-"]).code = 101 := by
    rw [run_of_input _ (.inl rfl)]
    exact congrArg Outcome.code hanswer
  refine ⟨hcode, ?_⟩
  intro hconsistent
  obtain hown | hown := hconsistent.code
  · exact absurd (hcode.symm.trans hown) (by decide)
  · exact absurd (hcode.symm.trans hown) (by decide)

end CommandLine

end StreamLexer
