import StreamLexer.Proofs.CommandLine.Outcome
import StreamLexer.Proofs.Lexer.End
import StreamLexer.Proofs.Text.Style

/-! Colours are nothing but decoration. What a run writes is made of its own words, of arguments, of failure texts, and
of literals in quotes. No escape character comes out of a literal, so without colours there is none if there is none in
the arguments and the failure texts, and with colours there are only those of the style sequences. -/
namespace StreamLexer

open Text.Style (Plain Paints)

/-- A source whose failures are told without an escape character. -/
def Source.Legible (source : Source) : Prop := ∀ e, .fail e ∈ source → Plain e.text

namespace Source.Legible

variable {source : Source} {e : IoError}

theorem of_stream {bytes : List UInt8} (h : source.Legible) (hfail : source.stream = ⟨bytes, .failure e⟩) :
    Plain e.text := by
  have hfirst := firstFailure?_of_stream (congrArg Stream.ending hfail)
  obtain ⟨step, hmem, hstep⟩ := List.exists_of_findSome?_eq_some hfirst
  cases step with
  | data => cases hstep
  | fail e' =>
    rw [Step.failure?] at hstep
    split at hstep
    · cases hstep
    · cases hstep
      exact h e hmem
  | eof => cases hstep

theorem of_lines {lines : List (List UInt8)} (h : source.Legible) (hfail : source.lines = (lines, .failure e)) :
    Plain e.text := by
  rw [lines_eq] at hfail
  obtain ⟨pre, post, q, rfl, -⟩ := LineReader.Progress.lines_eq_failure_iff.1 hfail
  exact h e (List.mem_append_right pre List.mem_cons_self)

end Source.Legible

/-- The operating system's words hold no escape character. -/
theorem IoError.plain_text_os (cause : OsError) : Plain (text (.os cause)) := by
  cases cause <;> decide

theorem FileTree.legible_unreadable : unreadable.Legible := by
  intro e h
  cases List.mem_singleton.1 h
  exact IoError.plain_text_os .isDirectory

theorem FileTree.Place.legible_source (place : Place) : place.source.Legible := by
  cases place with
  | file contents => exact fun e h => by simp [source, Source.ofBytes] at h
  | directory => exact legible_unreadable
  | outside => exact legible_unreadable

namespace CommandLine

/-- Surroundings in which failures are told without an escape character. -/
structure Surroundings.Legible (s : Surroundings) : Prop where
  stdin : s.stdin.Legible
  file {name : String} {source : Source} (h : s.openFile name = .ok source) : source.Legible
  unopened {name : String} {e : IoError} (h : s.openFile name = .error e) : Plain e.text

theorem Surroundings.legible_inTree (overflow : Overflow) (colour : Bool) (stdin : FileTree.Place) (tree : FileTree) :
    (inTree overflow colour stdin tree).Legible := by
  refine ⟨stdin.legible_source, ?_, ?_⟩
  · intro name source h
    obtain ⟨place, rfl⟩ := FileTree.exists_of_openPath_eq_ok h
    exact place.legible_source
  · intro name e h
    obtain ⟨cause, rfl⟩ := FileTree.exists_of_openPath_eq_error h
    exact IoError.plain_text_os cause

/-! The parts of what a run writes. -/

theorem paints_unlines {lines lines' : List String} (h : List.Forall₂ Paints lines lines') :
    Paints (unlines lines) (unlines lines') := by
  induction h with
  | nil => exact .refl (by decide)
  | cons hline hrest ih =>
    rw [unlines_cons, unlines_cons]
    exact (hline.append_plain (by decide)).append ih

theorem plain_unlines {lines : List String} (h : ∀ line ∈ lines, Plain line) : Plain (unlines lines) :=
  (paints_unlines (List.forall₂_same.2 fun line hline => .refl (h line hline))).plain

theorem plain_banner : Plain banner := plain_unlines (by decide)

theorem plain_usage : Plain usage := plain_unlines (by decide)

theorem plain_help : Plain help := plain_unlines (by decide +kernel)

theorem paints_failureLine {message : String} (h : Plain message) :
    Paints (failureLine true message) (failureLine false message) :=
  (((Text.Style.boldRed.paints_paint (by decide)).append_plain (by decide)).append_plain h).append_plain (by decide)

namespace Table

theorem paints_header {name : String} (h : Plain name) : Paints (header true name) (header false name) :=
  (((Text.Style.bold.paints_paint (by decide)).append_plain (by decide)).append_plain h).append_plain (by decide)

/-- A literal may hold escape characters, but its row does not. -/
theorem paints_row (i : Nat) (t : Token) : Paints (row true i t) (row false i t) := by
  -- what holds of the whole row without colours holds of each of its parts
  have hplain : Plain (row false i t) := Text.Style.plain_of_isControl fun _ => isControl_of_mem_row
  rw [row, Text.Style.paint_plain] at hplain
  simp only [Text.Style.plain_append_iff] at hplain
  obtain ⟨⟨⟨⟨hnumber, hcolon⟩, hname⟩, hbar⟩, hliteral⟩ := hplain
  have hfront := ((Paints.refl hnumber).append_plain hcolon).append (Text.Style.cyan.paints_paint hname)
  exact (hfront.append_plain hbar).append_plain hliteral

theorem paints_upper {name : String} (h : Plain name) (tokens : List Token) :
    List.Forall₂ Paints (upper true name tokens) (upper false name tokens) := by
  refine .cons (paints_header h) (.cons (.refl ?_) ?_)
  · exact Text.Style.plain_of_isControl fun _ => isControl_of_mem_rule
  · rw [List.forall₂_iff_get]
    refine ⟨by simp [rowsFrom], ?_⟩
    intro i hi hi'
    simpa [rowsFrom] using paints_row _ _

theorem paints_lower (tokens : List Token) : List.Forall₂ Paints (lower tokens) (lower tokens) := by
  rw [List.forall₂_same]
  intro line hline
  have hmem : line ∈ body tokens := List.mem_cons_of_mem _ (List.mem_append_right _ hline)
  exact .refl (Text.Style.plain_of_isControl fun _ => isControl_of_mem_body hmem)

end Table

/-- A session shows no escape character, whatever its lines hold. -/
theorem plain_portions (shown : List (List Token)) : Plain (String.join (Repl.portions shown)) := by
  have hdisplay : ∀ t : Token, Plain t.display :=
    fun t => Text.Style.plain_of_isControl fun _ => Token.isControl_of_mem_display
  have hprompt : Plain ">> " := by decide
  rw [Text.Style.plain_join_iff, Repl.portions, List.forall_mem_cons, List.forall_mem_map]
  refine ⟨hprompt, ?_⟩
  intro ts hts
  rw [Text.Style.plain_append_iff, Text.Style.plain_join_iff, List.forall_mem_map]
  refine ⟨?_, hprompt⟩
  intro t ht
  exact Text.Style.plain_append_iff.2 ⟨hdisplay t, by decide⟩

/-! The two outcomes of a request. -/

/-- One outcome is the other with style sequences put into its texts. -/
structure Outcome.Paints (coloured plain : Outcome) : Prop where
  code : coloured.code = plain.code
  stdout : Text.Style.Paints coloured.stdout plain.stdout
  stderr : Text.Style.Paints coloured.stderr plain.stderr

theorem Opens.plain {s : Surroundings} {input : Input} {name blame : String} {source : Source}
    (h : Opens s input name blame source) (hnames : ∀ name ∈ (Request.table input).names, Plain name) :
    Plain name ∧ Plain blame := by
  cases h with
  | standard => decide
  | file =>
    have hname := hnames _ List.mem_cons_self
    exact ⟨hname, Text.Style.plain_append_iff.2 ⟨hname, by decide⟩⟩

/-- With colours and without, a request ends in the same way. -/
theorem Ends.paints {s : Surroundings} {r : Request} {o : Bool → Outcome} (h : Ends s r o) (hs : s.Legible)
    (hnames : ∀ name ∈ r.names, Plain name) : (o true).Paints (o false) := by
  have hempty : Plain "" := by decide
  cases h with
  | session h =>
    refine ⟨rfl, .refl ?_, .refl hempty⟩
    simp only [String.join_append, Text.Style.plain_append_iff]
    exact ⟨plain_banner, plain_portions _, by decide⟩
  | brokenSession h =>
    have he : Plain (Error.message (.io _)) := Text.Style.plain_append_iff.2 ⟨by decide, hs.stdin.of_lines h⟩
    refine ⟨rfl, .refl ?_, paints_failureLine he⟩
    exact Text.Style.plain_append_iff.2 ⟨plain_banner, plain_portions _⟩
  | help => exact ⟨rfl, .refl plain_help, .refl hempty⟩
  | unknownFlag flag =>
    refine ⟨rfl, .refl hempty, .refl ?_⟩
    simp only [Text.Style.plain_append_iff]
    exact ⟨⟨⟨by decide, hnames flag List.mem_cons_self⟩, by decide⟩, plain_usage⟩
  | missingInput => exact ⟨rfl, .refl hempty, .refl (Text.Style.plain_append_iff.2 ⟨by decide, plain_usage⟩)⟩
  | table hopen =>
    refine ⟨rfl, ?_, .refl hempty⟩
    exact paints_unlines (List.rel_append (Table.paints_upper (hopen.plain hnames).1 _) (Table.paints_lower _))
  | brokenTable hopen h =>
    obtain ⟨hname, hblame⟩ := hopen.plain hnames
    have he : Plain (Error.message (.sourceFault _)) :=
      Text.Style.plain_append_iff.2 ⟨by decide, (hopen.source_of hs.stdin hs.file).of_stream h⟩
    refine ⟨rfl, paints_unlines (Table.paints_upper hname _), paints_failureLine ?_⟩
    exact Text.Style.plain_append_iff.2 ⟨hblame, he⟩
  | @haltedTable _ _ _ _ notice hopen =>
    exact ⟨rfl, paints_unlines (Table.paints_upper (hopen.plain hnames).1 _), .refl notice.unescaped⟩
  | unopened h =>
    refine ⟨rfl, .refl hempty, paints_failureLine ?_⟩
    simp only [Text.Style.plain_append_iff]
    exact ⟨⟨⟨by decide, hnames _ List.mem_cons_self⟩, by decide⟩, hs.unopened h⟩

/-- One outcome shows in colours what the other shows without: the sequences are all that there is to delete, and no
escape character is left. -/
structure Outcome.Shows (coloured plain : Outcome) : Prop where
  code : coloured.code = plain.code
  stdout : Text.Style.erase coloured.stdout = plain.stdout
  stderr : Text.Style.erase coloured.stderr = plain.stderr
  unescaped : '\x1b' ∉ plain.stdout.toList ∧ '\x1b' ∉ plain.stderr.toList

theorem Outcome.Paints.shows {coloured plain : Outcome} (h : coloured.Paints plain) : coloured.Shows plain :=
  ⟨h.code, h.stdout.erase_eq, h.stderr.erase_eq, h.stdout.plain, h.stderr.plain⟩

/-- Colours change nothing but the looks of a run, if neither its arguments nor the failures of its inputs hold an
escape character. Among files and directories no failure does. -/
theorem run_colour {args : List String} (hargs : ∀ arg ∈ args, '\x1b' ∉ arg.toList) :
    (∀ s : Surroundings, s.Legible → (run { s with colour := true } args).Shows (run { s with colour := false } args)) ∧
    ∀ overflow stdin tree,
      (run (.inTree overflow true stdin tree) args).Shows (run (.inTree overflow false stdin tree) args) := by
  have hall : ∀ s : Surroundings, s.Legible →
      (run { s with colour := true } args).Shows (run { s with colour := false } args) := by
    intro s hs
    obtain ⟨o, hends, ho⟩ := exists_ends s (.ofArgs args)
    rw [run, run, ho, ho]
    exact (hends.paints hs fun name hname => hargs name (Request.mem_of_mem_names hname)).shows
  refine ⟨hall, ?_⟩
  intro overflow stdin tree
  exact hall (.inTree overflow true stdin tree) (Surroundings.legible_inTree overflow true stdin tree)

/-- Input that spells a style sequence of its own, and input that breaks off behind an escape character. -/
theorem run_colour_escape :
    (run (.inTree .wraps true (.file [0x1B, 0x5B, 0x31, 0x6D]) ⟨[], []⟩) ["-"]).Shows
      (run (.inTree .wraps false (.file [0x1B, 0x5B, 0x31, 0x6D]) ⟨[], []⟩) ["-"]) ∧
    (run ⟨true, [.data [0x1B, 0x0A] none, .fail (.custom .other "gone")], fun _ => .ok [], .wraps⟩ []).Shows
      (run ⟨false, [.data [0x1B, 0x0A] none, .fail (.custom .other "gone")], fun _ => .ok [], .wraps⟩ []) := by
  refine ⟨(run_colour (by decide)).2 _ _ _, (run_colour (by decide)).1 ⟨true, _, _, .wraps⟩ ⟨?_, ?_, ?_⟩⟩
  · intro e h
    have he : e = .custom .other "gone" := by simpa using h
    rw [he]
    decide
  · intro name source h
    cases h
    exact nofun
  · intro name e h
    cases h

end CommandLine

end StreamLexer
