import StreamLexer.CommandLine
import StreamLexer.FileTree

/-! What the arguments of a run settle, whatever their order. The first unknown flag does, wherever it stands; without
one help does; and without help the last argument alone. So there is always an input to read when nothing else is asked
for. Which inputs a run reads or opens is noted beside its outcome: none but the one that its request names. -/
namespace StreamLexer.CommandLine

def isHelp (arg : String) : Bool := arg == "-h" || arg == "--help"

/-- Whether an argument begins with a dash and is none of those that are known. -/
def isUnknownFlag (arg : String) : Bool := isDashed arg && arg != "-" && !isHelp arg

/-- The input that an argument names if it is no flag. -/
def inputOf (arg : String) : Input := if arg = "-" then .standard else .file arg

namespace Choice

variable {arg flag : String} {args : List String}

theorem take_of_unknown (h : isUnknownFlag arg = true) (c : Choice) : c.take arg = .error arg := by
  simp only [isUnknownFlag, isHelp, Bool.and_eq_true, bne_iff_ne, Bool.not_eq_true', Bool.or_eq_false_iff,
    beq_eq_false_iff_ne] at h
  obtain ⟨⟨hdashed, hstandard⟩, hshort, hlong⟩ := h
  rw [take, if_neg (by simp [hshort, hlong]), if_neg hstandard, if_pos hdashed]

theorem take_of_help (h : isHelp arg = true) (c : Choice) : c.take arg = .ok { c with help := true } := by
  have hspelt : arg = "--help" ∨ arg = "-h" := by simpa [isHelp, or_comm] using h
  rw [take, if_pos hspelt]

theorem take_of_input (hknown : isUnknownFlag arg = false) (hhelp : isHelp arg = false) (c : Choice) :
    c.take arg = .ok { c with input := some (inputOf arg) } := by
  have hspelt : ¬ (arg = "--help" ∨ arg = "-h") := by simpa [isHelp, and_comm] using hhelp
  rw [take, if_neg hspelt]
  by_cases hstandard : arg = "-"
  · rw [if_pos hstandard, inputOf, if_pos hstandard]
  · have hplain : ¬ isDashed arg = true := by simpa [isUnknownFlag, hstandard, hhelp] using hknown
    rw [if_neg hstandard, if_neg hplain, inputOf, if_neg hstandard]

/-- The first unknown flag ends the scan, whatever was settled before it. -/
theorem foldlM_take_of_unknown (h : args.find? isUnknownFlag = some flag) (c : Choice) :
    args.foldlM take c = .error flag := by
  induction args generalizing c with
  | nil => cases h
  | cons arg rest ih =>
    rw [List.foldlM_cons]
    cases hunknown : isUnknownFlag arg with
    | true =>
      rw [List.find?_cons_of_pos hunknown] at h
      cases h
      rw [take_of_unknown hunknown]
      rfl
    | false =>
      rw [List.find?_cons_of_neg (by simp [hunknown])] at h
      cases hhelp : isHelp arg with
      | true =>
        rw [take_of_help hhelp]
        exact ih h _
      | false =>
        rw [take_of_input hunknown hhelp]
        exact ih h _

/-- Without an unknown flag the scan comes to its end. By then it has noticed any help, and of the other arguments the
last one has taken the place of those before it. -/
theorem foldlM_take_of_known (h : ∀ arg ∈ args, isUnknownFlag arg = false) (c : Choice) :
    args.foldlM take c = .ok ⟨c.help || args.any isHelp,
      ((args.filter fun arg => !isHelp arg).getLast?.map inputOf).or c.input⟩ := by
  induction args generalizing c with
  | nil => simp [List.foldlM_nil, pure, Except.pure]
  | cons arg rest ih =>
    obtain ⟨hknown, hrest⟩ := List.forall_mem_cons.1 h
    rw [List.foldlM_cons]
    cases hhelp : isHelp arg with
    | true =>
      rw [take_of_help hhelp]
      refine (ih hrest _).trans ?_
      simp [hhelp]
    | false =>
      rw [take_of_input hknown hhelp]
      refine (ih hrest _).trans ?_
      rw [List.filter_cons_of_pos (by simp [hhelp]), List.getLast?_cons]
      cases (rest.filter fun arg => !isHelp arg).getLast? <;> simp [hhelp]

end Choice

namespace Request

variable {args : List String} {flag last : String}

theorem ofArgs_of_unknown (h : args.find? isUnknownFlag = some flag) : ofArgs args = .unknownFlag flag := by
  have hne : args.isEmpty = false := by
    cases args with
    | nil => cases h
    | cons => rfl
  simp only [ofArgs, hne, Choice.foldlM_take_of_unknown h, Bool.false_eq_true, if_false]

theorem ofArgs_of_help (h : ∀ arg ∈ args, isUnknownFlag arg = false) (hhelp : args.any isHelp = true) :
    ofArgs args = .help := by
  have hne : args.isEmpty = false := by
    cases args with
    | nil => cases hhelp
    | cons => rfl
  simp only [ofArgs, hne, Choice.foldlM_take_of_known h, Choice.request, hhelp, Bool.or_true, Bool.false_eq_true,
    if_false, if_true]

theorem ofArgs_of_last (h : ∀ arg ∈ args, isUnknownFlag arg = false) (hhelp : args.any isHelp = false)
    (hlast : args.getLast? = some last) : ofArgs args = .table (inputOf last) := by
  have hne : args.isEmpty = false := by
    cases args with
    | nil => cases hlast
    | cons => rfl
  have hall : args.filter (fun arg => !isHelp arg) = args := by
    rw [List.filter_eq_self]
    simpa using hhelp
  simp only [ofArgs, hne, Choice.foldlM_take_of_known h, Choice.request, hhelp, hall, hlast, Choice.none, Bool.or_false,
    Bool.false_eq_true, if_false, Option.map_some, Option.some_or]

/-- There is no other way for arguments to settle a request. -/
theorem ofArgs_cases (hne : args ≠ []) :
    (∃ flag, args.find? isUnknownFlag = some flag ∧ ofArgs args = .unknownFlag flag) ∨
    (∀ arg ∈ args, isUnknownFlag arg = false) ∧
      ((args.any isHelp = true ∧ ofArgs args = .help) ∨
      ∃ last, args.any isHelp = false ∧ args.getLast? = some last ∧ ofArgs args = .table (inputOf last)) := by
  cases h : args.find? isUnknownFlag with
  | some flag => exact .inl ⟨flag, rfl, ofArgs_of_unknown h⟩
  | none =>
    have hknown : ∀ arg ∈ args, isUnknownFlag arg = false := by simpa using h
    refine .inr ⟨hknown, ?_⟩
    cases hhelp : args.any isHelp with
    | true => exact .inl ⟨rfl, ofArgs_of_help hknown hhelp⟩
    | false =>
      have hlast := List.getLast?_eq_some_getLast hne
      exact .inr ⟨_, rfl, hlast, ofArgs_of_last hknown hhelp hlast⟩

theorem ofArgs_ne_missingInput (args : List String) : ofArgs args ≠ .missingInput := by
  by_cases hne : args = []
  · rw [hne]
    exact nofun
  · obtain ⟨flag, -, h⟩ | ⟨-, ⟨-, h⟩ | ⟨last, -, -, h⟩⟩ := ofArgs_cases hne
    all_goals rw [h]; exact nofun

/-- The arguments that a request repeats. -/
def names : Request → List String
  | unknownFlag flag => [flag]
  | table (.file name) => [name]
  | _ => []

theorem mem_of_mem_names {name : String} (h : name ∈ (ofArgs args).names) : name ∈ args := by
  by_cases hne : args = []
  · rw [hne] at h
    cases h
  · obtain ⟨flag, hflag, hargs⟩ | ⟨-, ⟨-, hargs⟩ | ⟨last, -, hlast, hargs⟩⟩ := ofArgs_cases hne
    · rw [hargs] at h
      rw [List.mem_singleton.1 h]
      exact List.mem_of_find?_eq_some hflag
    · rw [hargs] at h
      cases h
    · rw [hargs, inputOf] at h
      split at h
      · cases h
      · rw [List.mem_singleton.1 h]
        exact List.mem_of_getLast? hlast

/-- The inputs that are fetched for a request. -/
def inputs : Request → List Input
  | session => [.standard]
  | table input => [input]
  | _ => []

end Request

/-- The inputs of some surroundings, with a note of what is read or opened, in order. -/
def Surroundings.noting (s : Surroundings) : Inputs (StateM (List Input)) where
  standard fetched := (s.stdin, fetched ++ [.standard])
  openFile name fetched := (s.openFile name, fetched ++ [.file name])

/-- The outcome of a run, and what it read or opened. -/
def observed (s : Surroundings) (args : List String) : Outcome × List Input :=
  Id.run ((answerFrom s.overflow s.colour s.noting (.ofArgs args)).run [])

theorem observed_eq (s : Surroundings) (args : List String) :
    observed s args = (run s args, (Request.ofArgs args).inputs) := by
  unfold observed run
  cases Request.ofArgs args with
  | table input =>
    cases input with
    | standard => rfl
    | file name =>
      simp only [answer, answerFrom, Surroundings.noting, Surroundings.inputs]
      cases s.openFile name <;> rfl
  | _ => rfl

/-- Which arguments a run goes by. Help and flags that are not known are answered without a look at any input, and what
stands before the last argument has no say in what is shown. -/
theorem observed_of_args (s : Surroundings) :
    (∀ args, (observed s args).1 = run s args ∧ Request.ofArgs args ≠ .missingInput) ∧
    observed s [] = (.ofTranscript s.colour (Repl.transcript s.stdin), [.standard]) ∧
    (∀ args flag, args.find? isUnknownFlag = some flag →
      observed s args = (⟨1, "", "Unknown flag: " ++ flag ++ "\n" ++ usage⟩, [])) ∧
    ∀ args, (∀ arg ∈ args, isUnknownFlag arg = false) →
      (args.any isHelp = true → observed s args = (⟨0, help, ""⟩, [])) ∧
      (args.any isHelp = false → ∀ last, args.getLast? = some last →
        observed s args = observed s [last] ∧
        observed s [last] = (answer s (.table (inputOf last)), [inputOf last])) := by
  refine ⟨?_, observed_eq s [], ?_, ?_⟩
  · intro args
    exact ⟨congrArg Prod.fst (observed_eq s args), Request.ofArgs_ne_missingInput args⟩
  · intro args flag hflag
    rw [observed_eq, run, Request.ofArgs_of_unknown hflag]
    rfl
  · intro args hknown
    refine ⟨?_, ?_⟩
    · intro hhelp
      rw [observed_eq, run, Request.ofArgs_of_help hknown hhelp]
      rfl
    · intro hhelp last hlast
      -- the last argument is neither help nor an unknown flag, so alone it asks for the same
      have hmem : last ∈ args := List.mem_of_getLast? hlast
      have hplain : isHelp last = false := by simpa using List.any_eq_false.1 hhelp last hmem
      have halone : Request.ofArgs [last] = .table (inputOf last) :=
        Request.ofArgs_of_last (List.forall_mem_singleton.2 (hknown last hmem)) (by simp [hplain]) rfl
      have hsame : Request.ofArgs args = Request.ofArgs [last] :=
        (Request.ofArgs_of_last hknown hhelp hlast).trans halone.symm
      refine ⟨?_, ?_⟩
      · rw [observed_eq, observed_eq, run, run, hsame]
      · rw [observed_eq, run, halone]
        rfl

/-- An unknown flag before another one and behind help, help before an input, and a file behind standard input. -/
theorem observed_of_args_mixed :
    observed ⟨true, FileTree.unreadable, fun _ => .ok [], .wraps⟩ ["a", "-h", "--", "-v"] =
      (⟨1, "", "Unknown flag: " ++ "--" ++ "\n" ++ usage⟩, []) ∧
    observed ⟨true, FileTree.unreadable, fun _ => .ok [], .wraps⟩ ["a", "--help", "-"] = (⟨0, help, ""⟩, []) ∧
    observed ⟨true, FileTree.unreadable, fun _ => .ok [], .wraps⟩ ["a", "-", ""] =
      observed ⟨true, FileTree.unreadable, fun _ => .ok [], .wraps⟩ [""] ∧
    (observed ⟨true, FileTree.unreadable, fun _ => .ok [], .wraps⟩ [""]).2 = [.file ""] := by
  obtain ⟨-, -, hunknown, hknown⟩ := observed_of_args ⟨true, FileTree.unreadable, fun _ => .ok [], .wraps⟩
  obtain ⟨hsame, halone⟩ := (hknown ["a", "-", ""] (by decide)).2 (by decide) "" rfl
  exact ⟨hunknown _ "--" (by decide), (hknown _ (by decide)).1 (by decide), hsame, congrArg Prod.snd halone⟩

end StreamLexer.CommandLine
