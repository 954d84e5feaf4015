import StreamLexer.Byte
import StreamLexer.Source

/-! Reading lines of bytes. A line ends at a line feed, which is not part of it. A read that brings nothing
ends the line that has begun, and the next line reads on; without such a line it ends the input. Interrupted
reads are made again; any other failure takes the place of the line that has begun. -/
namespace StreamLexer

/-- A source with the bytes that were read ahead of the lines. -/
structure LineReader where
  source : Source
  pending : List UInt8

namespace LineReader

/-- The room of every read. -/
def room : Nat := 8192

def ofSource (source : Source) : LineReader := ⟨source, []⟩

/-- What is still to come; bytes that are read ahead count for less. -/
def weight (r : LineReader) : Nat := 2 * r.source.weight + r.pending.length

/-- Reads the rest of the line that begins with `line`. -/
def readLineOnto (r : LineReader) (line : Array UInt8) :
    Except IoError (Option (List UInt8)) × LineReader :=
  match _hp : r.pending with
  | b :: pending =>
    if b = Byte.newline then (.ok (some line.toList), { r with pending })
    else readLineOnto { r with pending } (line.push b)
  | [] =>
    match _hr : r.source.read room with
    | (.ok [], source) => (.ok (if line.isEmpty then none else some line.toList), { r with source })
    | (.ok (b :: bytes), source) => readLineOnto ⟨source, b :: bytes⟩ line
    | (.error e, source) =>
      if e.isInterrupted then readLineOnto { r with source } line else (.error e, { r with source })
termination_by r.weight
decreasing_by
  · simp only [weight, _hp, List.length_cons]
    omega
  · have := Source.weight_read_ok _hr
    simp only [weight, _hp, List.length_cons, List.length_nil] at this ⊢
    omega
  · have := Source.weight_read_error _hr
    simp only [weight, _hp, List.length_nil]
    omega

/-- The next line, nothing at the end of the input, or the failure that came before the line's end. -/
def readLine (r : LineReader) : Except IoError (Option (List UInt8)) × LineReader := r.readLineOnto #[]

theorem weight_readLineOnto_lt {r r' : LineReader} {line : Array UInt8} {out : List UInt8}
    (h : r.readLineOnto line = (.ok (some out), r')) : r'.weight < r.weight + line.size := by
  fun_induction readLineOnto r line with
  | case1 r line pending hp =>
    cases h
    simp only [weight, hp, List.length_cons]
    omega
  | case2 r line b pending hp hb ih =>
    have := ih h
    simp only [weight, hp, List.length_cons, Array.size_push] at this ⊢
    omega
  | case3 r line hp source hr =>
    split at h
    · cases h
    · rename_i hne
      cases h
      have hw := Source.weight_read_ok hr
      have : 0 < line.size := by
        rw [Array.isEmpty_iff_size_eq_zero] at hne
        omega
      simp only [weight, hp, List.length_nil] at hw ⊢
      omega
  | case4 r line hp b bytes source hr ih =>
    have hw := Source.weight_read_ok hr
    have := ih h
    simp only [weight, hp, List.length_cons, List.length_nil] at this hw ⊢
    omega
  | case5 r line hp e source hr he ih =>
    have hw := Source.weight_read_error hr
    have := ih h
    simp only [weight, hp, List.length_nil] at this ⊢
    omega
  | case6 => cases h

/-- Appends the lines that are left to `lines`, and says how the input ends. -/
def readAllOnto (r : LineReader) (lines : Array (List UInt8)) : Array (List UInt8) × Ending :=
  match _h : r.readLine with
  | (.ok (some line), r') => readAllOnto r' (lines.push line)
  | (.ok none, _) => (lines, .clean)
  | (.error e, _) => (lines, .failure e)
termination_by r.weight
decreasing_by simpa using weight_readLineOnto_lt _h

end LineReader

/-- The lines of a source and how its input ends. -/
def Source.lines (source : Source) : List (List UInt8) × Ending :=
  let (lines, ending) := (LineReader.ofSource source).readAllOnto #[]
  (lines.toList, ending)

end StreamLexer
