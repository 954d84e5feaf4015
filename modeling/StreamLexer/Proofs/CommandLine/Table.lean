import StreamLexer.Proofs.CommandLine.Request
import StreamLexer.Proofs.Lexer.Tokenize
import StreamLexer.Proofs.Token.Display

/-! The text of a token table. Its lines are told apart by their line feeds, since none stands in a row, and a row tells
its token. So the table of a source that ends cleanly shows exactly the tokens of its bytes, and under one name two
contents have the same table only if they have the same tokens. All this is up to the counter: its last line counts the
rows exactly as long as these are fewer than it can count. -/
namespace StreamLexer

/-- The tokens that a stream brings before its end. A run that a failure cuts off is none. -/
def Stream.tokens : Stream → List Token
  | ⟨bytes, .clean⟩ => Munch.tokens bytes
  | ⟨bytes, .failure _⟩ => Munch.complete bytes

theorem Munch.items_eq (s : Stream) :
    items s = s.tokens.map .ok ++ s.ending.fault?.toList.map .error := by
  obtain ⟨bytes, ending⟩ := s
  cases ending with
  | clean => simp [items, Stream.tokens, Ending.fault?]
  | failure e => rfl

namespace CommandLine

theorem foldl_unlines (before : String) (lines : List String) :
    lines.foldl (fun s line => s ++ line ++ "\n") before = before ++ unlines lines := by
  induction lines generalizing before with
  | nil => simp [unlines]
  | cons line lines ih =>
    have hfront : unlines (line :: lines) = "" ++ line ++ "\n" ++ unlines lines := ih ("" ++ line ++ "\n")
    rw [List.foldl_cons, ih, hfront]
    simp [String.append_assoc]

@[simp] theorem unlines_nil : unlines [] = "" := rfl

theorem unlines_cons (line : String) (lines : List String) :
    unlines (line :: lines) = line ++ "\n" ++ unlines lines := by
  have hfront : unlines (line :: lines) = "" ++ line ++ "\n" ++ unlines lines := foldl_unlines _ lines
  simpa using hfront

theorem toList_unlines_cons (line : String) (lines : List String) :
    (unlines (line :: lines)).toList = line.toList ++ '\n' :: (unlines lines).toList := by
  simp [unlines_cons]

/-- Lines without a line feed inside can be told from their text. -/
theorem unlines_injective {lines lines' : List String} (h : ∀ line ∈ lines, '\n' ∉ line.toList)
    (h' : ∀ line ∈ lines', '\n' ∉ line.toList) (heq : unlines lines = unlines lines') : lines = lines' := by
  induction lines generalizing lines' with
  | nil =>
    cases lines' with
    | nil => rfl
    | cons line lines' =>
      have hchars := congrArg String.toList heq
      simp [toList_unlines_cons] at hchars
  | cons line lines ih =>
    cases lines' with
    | nil =>
      have hchars := congrArg String.toList heq
      simp [toList_unlines_cons] at hchars
    | cons line' lines' =>
      obtain ⟨hline, hrest⟩ := List.forall_mem_cons.1 h
      obtain ⟨hline', hrest'⟩ := List.forall_mem_cons.1 h'
      have hchars := congrArg String.toList heq
      rw [toList_unlines_cons, toList_unlines_cons] at hchars
      obtain ⟨hfirst, hlast⟩ := Text.split_at_first hline hline' hchars
      rw [String.toList_injective hfirst, ih hrest hrest' (String.toList_injective hlast)]

namespace Table

/-! What a table shows of a source. -/

/-- The rows of some tokens, of which the first has the number `n`. -/
def rowsFrom (colour : Bool) (n : Nat) (tokens : List Token) : List String :=
  tokens.mapIdx fun i => row colour (USize.ofNat (n + i)).toNat

@[simp] theorem rowsFrom_nil (colour : Bool) (n : Nat) : rowsFrom colour n [] = [] := List.mapIdx_nil

theorem rowsFrom_cons (colour : Bool) (n : Nat) (t : Token) (tokens : List Token) :
    rowsFrom colour n (t :: tokens) = row colour (USize.ofNat n).toNat t :: rowsFrom colour (n + 1) tokens := by
  simp only [rowsFrom, List.mapIdx_cons, Nat.add_zero, Nat.add_assoc, Nat.add_comm 1]

theorem rowsFrom_concat (colour : Bool) (n : Nat) (tokens : List Token) (t : Token) :
    rowsFrom colour n (tokens ++ [t]) =
      rowsFrom colour n tokens ++ [row colour (USize.ofNat (n + tokens.length)).toNat t] := List.mapIdx_concat

/-- The lines up to the last row. -/
def upper (colour : Bool) (name : String) (tokens : List Token) : List String :=
  header colour name :: rule :: rowsFrom colour 0 tokens

/-- The lines below the rows of a complete table. -/
def lower (tokens : List Token) : List String := [rule, total (Int32.ofNat tokens.length)]

theorem length_lower (tokens : List Token) : (lower tokens).length = 2 := rfl

variable {o : Overflow} {notice : Notice} {source : Source} {bytes : List UInt8} {tokens : List Token}
  {items : List (Except Error Token)}

/-- Tokens that can be counted are shown before the rest of the table. -/
theorem rowsOnto_append {n : Nat} (h : o.Counts (n + tokens.length)) (colour : Bool) (rows : Array String)
    (items : List (Except Error Token)) :
    rowsOnto o colour rows (USize.ofNat n) (Int32.ofNat n) (tokens.map .ok ++ items) =
      rowsOnto o colour (rows ++ rowsFrom colour n tokens) (USize.ofNat (n + tokens.length))
        (Int32.ofNat (n + tokens.length)) items := by
  induction tokens generalizing n rows with
  | nil => simp
  | cons t tokens ih =>
    have hlength : n + (t :: tokens).length = n + 1 + tokens.length := by
      rw [List.length_cons, Nat.add_right_comm, Nat.add_assoc]
    rw [hlength] at h ⊢
    have hcount := (h.mono (Nat.le_add_right _ _)).next_eq
    have hindex : USize.ofNat n + 1 = USize.ofNat (n + 1) := (USize.ofNat_add n 1).symm
    simp only [List.map_cons, List.cons_append, rowsOnto, hcount, hindex]
    rw [ih h, rowsFrom_cons]
    simp

/-- From the first token on, with nothing counted yet. -/
theorem rowsOnto_start (h : o.Counts tokens.length) (colour : Bool) (items : List (Except Error Token)) :
    rowsOnto o colour #[] 0 0 (tokens.map .ok ++ items) =
      rowsOnto o colour (rowsFrom colour 0 tokens).toArray (USize.ofNat tokens.length) (Int32.ofNat tokens.length)
        items := by
  have hstart := rowsOnto_append (n := 0) (by rwa [Nat.zero_add]) colour #[] items
  rw [Nat.zero_add, List.toArray_appendList, List.nil_append] at hstart
  exact hstart

theorem ofSource_of_clean (h : source.stream = ⟨bytes, .clean⟩) (hcount : o.Counts (Munch.tokens bytes).length)
    (colour : Bool) (name : String) :
    ofSource o colour name source =
      (unlines (upper colour name (Munch.tokens bytes) ++ lower (Munch.tokens bytes)),
        .total (Int32.ofNat (Munch.tokens bytes).length)) := by
  have hitems : Munch.items ⟨bytes, .clean⟩ = (Munch.tokens bytes).map .ok ++ [] := Munch.items_eq ⟨bytes, .clean⟩
  simp only [ofSource, Lexer.collect_ofSource, h, hitems, rowsOnto_start hcount, rowsOnto]
  rfl

theorem ofSource_of_failure {e : IoError} (h : source.stream = ⟨bytes, .failure e⟩)
    (hcount : o.Counts (Munch.complete bytes).length) (colour : Bool) (name : String) :
    ofSource o colour name source =
      (unlines (upper colour name (Munch.complete bytes)), .failed (.sourceFault e)) := by
  have hitems : Munch.items ⟨bytes, .failure e⟩ =
      (Munch.complete bytes).map .ok ++ [.error (.sourceFault e)] := Munch.items_eq ⟨bytes, .failure e⟩
  simp only [ofSource, Lexer.collect_ofSource, h, hitems, rowsOnto_start hcount, rowsOnto, Close.lines,
    List.append_nil]
  rfl

/-- A program that halts does so behind the row that it cannot count, whatever comes next. -/
theorem rowsOnto_of_halts (hlength : tokens.length = Overflow.limit) (colour : Bool)
    (items : List (Except Error Token)) :
    rowsOnto (.halts notice) colour #[] 0 0 (tokens.map .ok ++ items) =
      ((rowsFrom colour 0 tokens).toArray, .halted notice) := by
  obtain rfl | ⟨front, t, rfl⟩ := tokens.eq_nil_or_concat'
  · cases hlength
  rw [List.length_append, List.length_singleton] at hlength
  have hfront : (Overflow.halts notice).Counts front.length := .small (by omega)
  have hsplit : (front ++ [t]).map Except.ok ++ items = front.map Except.ok ++ .ok t :: items := by simp
  rw [hsplit, rowsOnto_start hfront, rowsFrom_concat, Nat.zero_add]
  simp only [rowsOnto, Overflow.next_maxValue notice hlength, List.push_toArray]

theorem ofSource_of_halts (h : Overflow.limit ≤ source.stream.tokens.length) (colour : Bool) (name : String) :
    ofSource (.halts notice) colour name source =
      (unlines (upper colour name (source.stream.tokens.take Overflow.limit)), .halted notice) := by
  have hlength : (source.stream.tokens.take Overflow.limit).length = Overflow.limit := List.length_take_of_le h
  have hitems := Munch.items_eq source.stream
  rw [← List.take_append_drop Overflow.limit source.stream.tokens, List.map_append, List.append_assoc] at hitems
  simp only [ofSource, Lexer.collect_ofSource, hitems, rowsOnto_of_halts hlength, Close.lines, List.append_nil, upper]

/-! What a row tells. -/

/-- The column of the names is as wide as it is meant to be, since no name is wider. -/
theorem length_nameColumn (k : Token.Kind) : (Text.Column.left 20 k.name).length = 20 := by
  have hall : ∀ k ∈ Token.Kind.all, k.name.length ≤ 20 := by decide
  rw [Text.Column.length_left, Nat.max_eq_left (hall k (Token.Kind.mem_all k))]

theorem nameColumn_injective {j k : Token.Kind} (h : Text.Column.left 20 j.name = Text.Column.left 20 k.name) :
    j = k := by
  have hall : ∀ j ∈ Token.Kind.all, ∀ k ∈ Token.Kind.all,
    Text.Column.left 20 j.name = Text.Column.left 20 k.name → j = k := by decide
  exact hall j (Token.Kind.mem_all j) k (Token.Kind.mem_all k) h

/-- The characters of a row without colours. -/
theorem toList_row (i : Nat) (t : Token) :
    (row false i t).toList = (Text.Column.right 4 i.repr).toList ++ ([':', ' '] ++
      ((Text.Column.left 20 t.kind.name).toList ++ ([' ', '|', ' ', '"'] ++
        (Text.Quoted.encode t.literal.toList ++ ['"'])))) := by
  simp [row, Text.Quoted.quote]

/-- A row tells its token. -/
theorem row_injective (i : Nat) : Function.Injective (row false i) := by
  intro t u h
  have hchars := congrArg String.toList h
  rw [toList_row, toList_row, List.append_cancel_left_eq, List.append_cancel_left_eq] at hchars
  have hwidth : (Text.Column.left 20 t.kind.name).toList.length = (Text.Column.left 20 u.kind.name).toList.length := by
    rw [String.length_toList, String.length_toList, length_nameColumn, length_nameColumn]
  obtain ⟨hname, hliteral⟩ := List.append_inj hchars hwidth
  rw [List.append_cancel_left_eq, List.append_cancel_right_eq] at hliteral
  have hkind := nameColumn_injective (String.toList_injective hname)
  have hliteral' := String.toList_injective (Text.Quoted.encode_injective hliteral)
  cases t
  cases u
  cases hkind
  cases hliteral'
  rfl

/-- All rows tell all tokens. -/
theorem rows_injective {tokens' : List Token} {n : Nat} (h : rowsFrom false n tokens = rowsFrom false n tokens') :
    tokens = tokens' := by
  apply List.ext_getElem?
  intro i
  have hrow := congrArg (·[i]?) h
  simp only [rowsFrom, List.getElem?_mapIdx] at hrow
  exact Option.map_injective (row_injective _) hrow

theorem isControl_of_mem_repr {n : Nat} {c : Char} (h : c ∈ n.repr.toList) : Text.isControl c = false := by
  rw [Nat.toList_repr] at h
  have hdigit := Nat.isDigit_of_mem_toDigits (by decide) (by decide) h
  simp only [Char.isDigit, Bool.and_eq_true, decide_eq_true_eq, ge_iff_le, UInt32.le_iff_toNat_le] at hdigit
  have hzero : '0'.val.toNat = 48 := rfl
  have hnine : '9'.val.toNat = 57 := rfl
  have htoNat : c.toNat = c.val.toNat := rfl
  simp only [Text.isControl, Bool.or_eq_false_iff, Bool.and_eq_false_iff, decide_eq_false_iff_not]
  omega

theorem isControl_of_mem_filling {width : Nat} {text : String} {c : Char}
    (h : c ∈ (Text.Column.filling width text).toList) : Text.isControl c = false := by
  rw [Text.Column.filling, String.toList_ofList] at h
  rw [List.eq_of_mem_replicate h]
  rfl

/-- No control character stands in a row. -/
theorem isControl_of_mem_row {i : Nat} {t : Token} {c : Char} (h : c ∈ (row false i t).toList) :
    Text.isControl c = false := by
  simp only [toList_row, Text.Column.right, Text.Column.left, String.toList_append, List.mem_append] at h
  obtain (h | h) | h | (h | h) | h | h | h := h
  · exact isControl_of_mem_filling h
  · exact isControl_of_mem_repr h
  · exact Text.isControl_of_mem (by decide) h
  · exact Token.Kind.isControl_of_mem_name h
  · exact isControl_of_mem_filling h
  · exact Text.isControl_of_mem (by decide) h
  · exact Text.Quoted.isControl_of_mem_encode h
  · exact Text.isControl_of_mem (by decide) h

theorem toList_rule : rule.toList = List.replicate 60 '=' := String.toList_ofList

theorem isControl_of_mem_rule {c : Char} (h : c ∈ rule.toList) : Text.isControl c = false := by
  rw [toList_rule] at h
  rw [List.eq_of_mem_replicate h]
  rfl

theorem isControl_of_mem_toString {n : Int} {c : Char} (h : c ∈ (toString n).toList) : Text.isControl c = false := by
  cases n with
  | ofNat n => exact isControl_of_mem_repr h
  | negSucc n =>
    have hsign : toString (Int.negSucc n) = "-" ++ (n + 1).repr := rfl
    rw [hsign, String.toList_append, List.mem_append] at h
    obtain h | h := h
    · exact Text.isControl_of_mem (by decide) h
    · exact isControl_of_mem_repr h

/-- No control character stands in the last line if none does in its number. -/
theorem isControl_of_mem_last {number : String} (h : ∀ c ∈ number.toList, Text.isControl c = false) {c : Char}
    (hc : c ∈ ("Total tokens: " ++ number).toList) : Text.isControl c = false := by
  rw [String.toList_append, List.mem_append] at hc
  obtain hc | hc := hc
  · exact Text.isControl_of_mem (by decide) hc
  · exact h c hc

theorem isControl_of_mem_total {n : Int32} {c : Char} (h : c ∈ (total n).toList) : Text.isControl c = false :=
  isControl_of_mem_last (fun _ => isControl_of_mem_toString) h

/-- The lines below the heading. -/
def body (tokens : List Token) : List String := rule :: (rowsFrom false 0 tokens ++ lower tokens)

theorem isControl_of_mem_rowsFrom {n : Nat} {line : String} {c : Char} (h : line ∈ rowsFrom false n tokens)
    (hc : c ∈ line.toList) : Text.isControl c = false := by
  obtain ⟨i, hi, rfl⟩ := List.mem_mapIdx.1 h
  exact isControl_of_mem_row hc

theorem isControl_of_mem_body {line : String} {c : Char} (h : line ∈ body tokens)
    (hc : c ∈ line.toList) : Text.isControl c = false := by
  simp only [body, lower, List.mem_cons, List.mem_append, List.not_mem_nil, or_false] at h
  obtain rfl | h | rfl | rfl := h
  · exact isControl_of_mem_rule hc
  · exact isControl_of_mem_rowsFrom h hc
  · exact isControl_of_mem_rule hc
  · exact isControl_of_mem_total hc

theorem newline_notMem_rule : '\n' ∉ rule.toList := fun hc => absurd (isControl_of_mem_rule hc) (by decide)

theorem newline_notMem_body {line : String} (h : line ∈ body tokens) : '\n' ∉ line.toList :=
  fun hc => absurd (isControl_of_mem_body h hc) (by decide)

/-- The lines below the heading tell the tokens. -/
theorem body_injective {tokens' : List Token} (h : unlines (body tokens) = unlines (body tokens')) :
    tokens = tokens' := by
  have hlines := unlines_injective (fun _ => newline_notMem_body) (fun _ => newline_notMem_body) h
  -- the closing lines are two in every table, so the rows end at the same line
  have hlower : (lower tokens).length = (lower tokens').length := by rw [length_lower, length_lower]
  obtain ⟨hrows, -⟩ := List.append_inj' (List.cons.inj hlines).2 hlower
  exact rows_injective hrows

end Table

variable {o : Overflow} {notice : Notice} {source : Source} {bytes : List UInt8} {tokens : List Token}

theorem ofTable_of_clean (h : source.stream = ⟨bytes, .clean⟩) (hcount : o.Counts (Munch.tokens bytes).length)
    (colour : Bool) (name blame : String) :
    Outcome.ofTable o colour name blame source =
      ⟨0, unlines (Table.upper colour name (Munch.tokens bytes) ++ Table.lower (Munch.tokens bytes)), ""⟩ := by
  rw [Outcome.ofTable, Table.ofSource_of_clean h hcount]
  rfl

theorem ofTable_of_failure {e : IoError} (h : source.stream = ⟨bytes, .failure e⟩)
    (hcount : o.Counts (Munch.complete bytes).length) (colour : Bool) (name blame : String) :
    Outcome.ofTable o colour name blame source =
      ⟨1, unlines (Table.upper colour name (Munch.complete bytes)),
        failureLine colour (blame ++ (Error.sourceFault e).message)⟩ := by
  rw [Outcome.ofTable, Table.ofSource_of_failure h hcount]
  rfl

theorem ofTable_of_halts (h : Overflow.limit ≤ source.stream.tokens.length) (colour : Bool) (name blame : String) :
    Outcome.ofTable (.halts notice) colour name blame source =
      ⟨101, unlines (Table.upper colour name (source.stream.tokens.take Overflow.limit)), notice.text⟩ := by
  rw [Outcome.ofTable, Table.ofSource_of_halts h]

/-- The source that an input stands for, with the name in the heading of its table and what is put before its
failures. -/
inductive Opens (s : Surroundings) : Input → String → String → Source → Prop
  | standard : Opens s .standard "<stdin>" "" s.stdin
  | file {name : String} {source : Source} (h : s.openFile name = .ok source) :
      Opens s (.file name) name (name ++ ": ") source

theorem Opens.answer_eq {s : Surroundings} {input : Input} {name blame : String} (h : Opens s input name blame source)
    (colour : Bool) : answer { s with colour } (.table input) = .ofTable s.overflow colour name blame source := by
  cases h with
  | standard => rfl
  | file hopen =>
    simp only [answer, answerFrom, Surroundings.inputs, hopen]
    rfl

/-- What holds of standard input and of every file that can be opened holds of the source of an input. -/
theorem Opens.source_of {P : Source → Prop} {s : Surroundings} {input : Input} {name blame : String}
    (h : Opens s input name blame source) (hstdin : P s.stdin)
    (hfile : ∀ {name source}, s.openFile name = .ok source → P source) : P source := by
  cases h with
  | standard => exact hstdin
  | file hopen => exact hfile hopen

/-- The only argument that gives a run some bytes under a name: standard input, or a file. However they are delivered,
they all arrive. -/
inductive Gives (s : Surroundings) (bytes : List UInt8) : String → String → Prop
  | standard (h : s.stdin.stream = ⟨bytes, .clean⟩) : Gives s bytes "-" "<stdin>"
  | file {name : String} {source : Source} (hname : isDashed name = false) (hopen : s.openFile name = .ok source)
      (h : source.stream = ⟨bytes, .clean⟩) : Gives s bytes name name

/-- Tables without colours. The rows stand between two rules of sixty signs, each row is a line of its own, and the last
line counts them. -/
inductive Tabulates (name : String) (tokens : List Token) : String → Prop
  | table {rows : List String} (hlength : rows.length = tokens.length)
      (hrow : ∀ (i : Nat) (t : Token), tokens[i]? = some t → rows[i]? = some
        (Text.Column.right 4 (toString i) ++ ": " ++ Text.Column.left 20 t.kind.name ++ " | " ++
          Text.Quoted.quote t.literal))
      (hline : ∀ row ∈ rows, '\n' ∉ row.toList) :
      Tabulates name tokens (unlines (("Tokens for '" ++ name ++ "':") :: String.ofList (List.replicate 60 '=') ::
        (rows ++ [String.ofList (List.replicate 60 '='), "Total tokens: " ++ toString rows.length])))

theorem unlines_heading (text : String) (lines : List String) :
    unlines ((text ++ "':") :: lines) = text ++ "':\n" ++ unlines lines := by
  have hend : text ++ "':" ++ "\n" = text ++ "':\n" := String.append_assoc
  rw [unlines_cons, hend]

/-- The text of a complete table: the heading with the name, and what stands below it. -/
theorem Table.unlines_complete (name : String) (tokens : List Token) :
    unlines (upper false name tokens ++ lower tokens) =
      "Tokens for '" ++ name ++ "':\n" ++ unlines (body tokens) := by
  have hfront : "Tokens for" ++ " '" = "Tokens for '" := rfl
  have hlines : upper false name tokens ++ lower tokens = header false name :: body tokens := rfl
  rw [hlines, header, unlines_heading, Text.Style.paint_plain, hfront]

/-- A number stands in the last line as it is exactly if it can be counted. -/
theorem Table.total_ofNat_iff {n : Nat} :
    total (Int32.ofNat n) = "Total tokens: " ++ toString n ↔ n < Overflow.limit := by
  rw [total, String.append_right_inj]
  constructor
  · intro h
    have hlt := Int32.toInt_lt (Int32.ofNat n)
    have htext : toString (Int32.ofNat n).toInt = n.repr := h
    cases hint : (Int32.ofNat n).toInt with
    | ofNat m =>
      have hrepr : toString (Int.ofNat m) = m.repr := rfl
      rw [hint, hrepr] at htext
      rw [hint, Int.ofNat_eq_natCast] at hlt
      have hdigits := congrArg (fun s => Nat.ofDigitChars 10 s.toList 0) htext
      simp only [Nat.toList_repr, Nat.ofDigitChars_ten_toDigits] at hdigits
      rw [Overflow.limit]
      omega
    | negSucc m =>
      -- there is no sign among the digits
      have hrepr : toString (Int.negSucc m) = "-" ++ (m + 1).repr := rfl
      have hsign : '-' ∈ n.repr.toList := by
        rw [← htext, hint, hrepr, String.toList_append]
        exact List.mem_append_left _ (List.mem_singleton_self '-')
      rw [Nat.toList_repr] at hsign
      exact absurd (Nat.isDigit_of_mem_toDigits (by decide) (by decide) hsign) (by decide)
  · intro h
    exact congrArg toString (Int32.toInt_ofNat_of_lt h)

theorem Table.tabulates (name : String) (h : tokens.length < Overflow.limit) :
    Tabulates name tokens (unlines (upper false name tokens ++ lower tokens)) := by
  have hlength : (rowsFrom false 0 tokens).length = tokens.length := List.length_mapIdx
  have htotal := total_ofNat_iff.2 h
  rw [← hlength] at htotal
  have hlines : upper false name tokens ++ lower tokens = ("Tokens for '" ++ name ++ "':") ::
      String.ofList (List.replicate 60 '=') :: (rowsFrom false 0 tokens ++ [String.ofList (List.replicate 60 '='),
        "Total tokens: " ++ toString (rowsFrom false 0 tokens).length]) := by
    rw [← htotal, hlength]
    rfl
  rw [hlines]
  refine .table hlength ?_ ?_
  · intro i t ht
    have hi : i < tokens.length := (List.getElem?_eq_some_iff.1 ht).1
    have hindex : (USize.ofNat i).toNat = i := by
      rw [Overflow.limit] at h
      exact USize.toNat_ofNat_of_lt_32 (by omega)
    rw [rowsFrom, List.getElem?_mapIdx, ht, Nat.zero_add, hindex]
    rfl
  · intro line hline hc
    exact absurd (isControl_of_mem_rowsFrom hline hc) (by decide)

/-- The last line counts the rows exactly as long as they are fewer than can be counted. -/
theorem Table.tabulates_iff (name : String) (tokens : List Token) :
    Tabulates name tokens (unlines (upper false name tokens ++ lower tokens)) ↔ tokens.length < Overflow.limit := by
  refine ⟨?_, Table.tabulates name⟩
  intro h
  rw [unlines_complete] at h
  generalize htext : "Tokens for '" ++ name ++ "':\n" ++ unlines (body tokens) = text at h
  cases h with
  | @table rows hlength hrow hline =>
    rw [unlines_heading, String.append_right_inj] at htext
    have hplain : ∀ line ∈ rule :: (rows ++ [rule, "Total tokens: " ++ toString rows.length]), '\n' ∉ line.toList := by
      simp only [List.forall_mem_cons, List.forall_mem_append]
      refine ⟨newline_notMem_rule, hline, newline_notMem_rule, ?_, nofun⟩
      exact fun hc => absurd (isControl_of_mem_last (fun _ => isControl_of_mem_repr) hc) (by decide)
    have hlines := (List.cons.inj (unlines_injective (fun _ => newline_notMem_body) hplain htext)).2
    obtain ⟨-, hlower⟩ := List.append_inj' hlines rfl
    rw [hlength] at hlower
    exact total_ofNat_iff.1 (List.cons.inj (List.cons.inj hlower).2).1

section
variable {s : Surroundings} {arg name : String}

/-- A single argument that is no flag is an input. -/
theorem run_of_input (s : Surroundings) (harg : arg = "-" ∨ isDashed arg = false) :
    run s [arg] = answer s (.table (inputOf arg)) := by
  have hplain : isUnknownFlag arg = false ∧ isHelp arg = false := by
    obtain rfl | hname := harg
    · decide
    · refine ⟨by simp [isUnknownFlag, hname], ?_⟩
      rw [isHelp, Bool.or_eq_false_iff, beq_eq_false_iff_ne, beq_eq_false_iff_ne]
      constructor <;> rintro rfl <;> cases hname
  have hlast : [arg].getLast? = some arg := rfl
  rw [run, Request.ofArgs_of_last (List.forall_mem_singleton.2 hplain.1) (by simp [hplain.2]) hlast]

theorem Gives.run_eq (hs : s.colour = false) (h : Gives s bytes arg name) :
    ∃ blame source, source.stream = ⟨bytes, .clean⟩ ∧ run s [arg] = .ofTable s.overflow false name blame source := by
  cases h with
  | standard h =>
    refine ⟨"", s.stdin, h, ?_⟩
    rw [run_of_input s (.inl rfl), ← hs]
    exact Opens.standard.answer_eq s.colour
  | @file _ source hname hopen h =>
    have hinput : inputOf arg = .file arg := if_neg (by rintro rfl; cases hname)
    refine ⟨arg ++ ": ", source, h, ?_⟩
    rw [run_of_input s (.inr hname), hinput, ← hs]
    exact (Opens.file hopen).answer_eq s.colour

theorem Gives.run_of_counts (hs : s.colour = false) (h : Gives s bytes arg name)
    (hcount : s.overflow.Counts (Munch.tokens bytes).length) :
    run s [arg] =
      ⟨0, unlines (Table.upper false name (Munch.tokens bytes) ++ Table.lower (Munch.tokens bytes)), ""⟩ := by
  obtain ⟨blame, source, hsource, hrun⟩ := h.run_eq hs
  rw [hrun, ofTable_of_clean hsource hcount]

theorem tokenize_ofBytes (bytes : List UInt8) :
    tokenize (.ofBytes bytes) = .ok (Munch.tokens bytes ++ [Token.eof]).toArray :=
  Lexer.tokenizes_tokens bytes _ Lexer.defaultChunkSize (Source.stream_ofBytes bytes)

/-- A run shows the table of its input, and ends well, exactly if there are fewer tokens than can be counted. -/
theorem Gives.tabulates_iff (hs : s.colour = false) (h : Gives s bytes arg name) :
    (∃ tokens text, tokenize (.ofBytes bytes) = .ok (tokens ++ [Token.eof]).toArray ∧ Tabulates name tokens text ∧
      run s [arg] = ⟨0, text, ""⟩) ↔ (Munch.tokens bytes).length < Overflow.limit := by
  constructor
  · rintro ⟨tokens, text, htokens, htable, hrun⟩
    have hsame : tokens = Munch.tokens bytes := by simpa using htokens.symm.trans (tokenize_ofBytes bytes)
    rw [hsame] at htable
    obtain hcount | ⟨notice, hhalts, hmany⟩ := s.overflow.counts_or_halts (Munch.tokens bytes).length
    · rw [h.run_of_counts hs hcount] at hrun
      cases hrun
      exact (Table.tabulates_iff name _).1 htable
    · obtain ⟨blame, source, hsource, heq⟩ := h.run_eq hs
      have hown : source.stream.tokens = Munch.tokens bytes := by rw [hsource, Stream.tokens]
      rw [heq, hhalts, ofTable_of_halts (by rwa [hown])] at hrun
      cases hrun
  · intro hcount
    exact ⟨_, _, tokenize_ofBytes bytes, Table.tabulates name hcount, h.run_of_counts hs (.small hcount)⟩

end

/-- The table of some bytes shows the tokens of these bytes, one after the other, and nothing but the heading tells how
the bytes were given. Under one name the tables of two contents are the same exactly if these have the same tokens.
This holds as long as the tokens can be counted. -/
theorem run_table {s s' : Surroundings} {bytes bytes' : List UInt8} {arg arg' name name' : String}
    (hs : s.colour = false) (hs' : s'.colour = false) (h : Gives s bytes arg name) (h' : Gives s' bytes' arg' name')
    (hcount : (Munch.tokens bytes).length < Overflow.limit) (hcount' : (Munch.tokens bytes').length < Overflow.limit) :
    (∃ tokens text, tokenize (.ofBytes bytes) = .ok (tokens ++ [Token.eof]).toArray ∧ Tabulates name tokens text ∧
      run s [arg] = ⟨0, text, ""⟩) ∧
    (bytes = bytes' → ∃ below, run s [arg] = ⟨0, "Tokens for '" ++ name ++ "':\n" ++ below, ""⟩ ∧
      run s' [arg'] = ⟨0, "Tokens for '" ++ name' ++ "':\n" ++ below, ""⟩) ∧
    (name = name' → ((run s [arg]).stdout = (run s' [arg']).stdout ↔
      tokenize (.ofBytes bytes) = tokenize (.ofBytes bytes'))) := by
  have hrun := h.run_of_counts hs (.small hcount)
  have hrun' := h'.run_of_counts hs' (.small hcount')
  refine ⟨(h.tabulates_iff hs).2 hcount, ?_, ?_⟩
  · rintro rfl
    refine ⟨unlines (Table.body (Munch.tokens bytes)), ?_, ?_⟩
    · rw [hrun, Table.unlines_complete]
    · rw [hrun', Table.unlines_complete]
  · rintro rfl
    rw [hrun, hrun', tokenize_ofBytes, tokenize_ofBytes, Table.unlines_complete, Table.unlines_complete]
    constructor
    · intro hstdout
      rw [Table.body_injective ((String.append_right_inj _).1 hstdout)]
    · intro heq
      have hsame : Munch.tokens bytes = Munch.tokens bytes' := by simpa using heq
      rw [hsame]

/-- A file that has the name under which standard input is shown, and standard input that arrives after an
interruption with a blank less. -/
theorem run_table_stdin :
    (∃ tokens text, tokenize (.ofBytes [0x22, 0x20]) = .ok (tokens ++ [Token.eof]).toArray ∧
      Tabulates "<stdin>" tokens text ∧
      run ⟨false, [.fail .interrupted, .data [0x22] none], fun _ => .ok (.ofBytes [0x22, 0x20]), .wraps⟩ ["<stdin>"] =
        ⟨0, text, ""⟩) ∧
    ((run ⟨false, [.fail .interrupted, .data [0x22] none], fun _ => .ok (.ofBytes [0x22, 0x20]), .wraps⟩
        ["<stdin>"]).stdout =
      (run ⟨false, [.fail .interrupted, .data [0x22] none], fun _ => .ok (.ofBytes [0x22, 0x20]), .wraps⟩
        ["-"]).stdout ↔
      tokenize (.ofBytes [0x22, 0x20]) = tokenize (.ofBytes [0x22])) := by
  have hfile : Gives ⟨false, [.fail .interrupted, .data [0x22] none], fun _ => .ok (.ofBytes [0x22, 0x20]), .wraps⟩
      [0x22, 0x20] "<stdin>" "<stdin>" := .file (by decide) rfl (Source.stream_ofBytes _)
  have hstandard : Gives ⟨false, [.fail .interrupted, .data [0x22] none], fun _ => .ok (.ofBytes [0x22, 0x20]), .wraps⟩
      [0x22] "-" "<stdin>" := .standard (by decide)
  obtain ⟨hshown, -, hsame⟩ := run_table rfl rfl hfile hstandard (by decide +kernel) (by decide +kernel)
  exact ⟨hshown, hsame rfl⟩

/-- Semicolons are a token each. -/
theorem length_tokens_semicolons (n : Nat) : (Munch.tokens (List.replicate n 0x3B)).length = n := by
  induction n with
  | zero => simp [Munch.tokens]
  | succ n ih =>
    have hlead : Munch.lead 0x3B (List.replicate n 0x3B) = (.single .semicolon 0x3B, List.replicate n 0x3B) := rfl
    rw [List.replicate_succ, Munch.tokens_lead _ (by decide), hlead, List.length_cons, ih]

/-- One token more on standard input than can be counted. -/
def Surroundings.crowded (overflow : Overflow) : Surroundings :=
  ⟨false, .ofBytes (List.replicate Overflow.limit 0x3B), fun _ => .error (.os .noEntry), overflow⟩

/-- Where counts wrap around, the last line tells a number below zero, so that this is no table of the tokens. -/
theorem run_table_overflow :
    (∃ above, run (.crowded .wraps) ["-"] = ⟨0, unlines (above ++ ["Total tokens: -2147483648"]), ""⟩) ∧
    ¬ ∃ tokens text, tokenize (.ofBytes (List.replicate Overflow.limit 0x3B)) = .ok (tokens ++ [Token.eof]).toArray ∧
      Tabulates "<stdin>" tokens text ∧ run (.crowded .wraps) ["-"] = ⟨0, text, ""⟩ := by
  have hlength := length_tokens_semicolons Overflow.limit
  have hgives : Gives (.crowded .wraps) (List.replicate Overflow.limit 0x3B) "-" "<stdin>" :=
    .standard (Source.stream_ofBytes _)
  constructor
  · have htotal : Table.total (Int32.ofNat Overflow.limit) = "Total tokens: -2147483648" := by decide
    refine ⟨Table.upper false "<stdin>" (Munch.tokens (List.replicate Overflow.limit 0x3B)) ++ [Table.rule], ?_⟩
    rw [hgives.run_of_counts rfl .wrapped, Table.lower, hlength, htotal, List.append_assoc]
    rfl
  · intro hshown
    have hfew := (hgives.tabulates_iff rfl).1 hshown
    rw [hlength] at hfew
    exact absurd hfew (Nat.lt_irrefl _)

end CommandLine

end StreamLexer
