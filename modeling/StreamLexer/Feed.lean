import StreamLexer.Error
import StreamLexer.Journal
import StreamLexer.Source

/-! A feed hands out the bytes of a source one at a time. It loads them a chunk at a time: a refill reads
until the chunk is full, retries reads that are interrupted, and stops early at the end of the stream. Bytes
that arrived before a failure are handed out first; the failure follows them. Once a refill has met the end,
the source is left alone. -/
namespace StreamLexer

/-- What a refill gathered: the bytes, the source afterwards, the end if it was met, and the reads. -/
structure Gathered where
  bytes : Array UInt8
  source : Source
  ending : Option Ending
  reads : Journal

/-- Reads until `capacity` bytes are there or the stream ends. Interrupted reads are made again. -/
def gather (capacity : Nat) (source : Source) (bytes : Array UInt8) (reads : Journal) : Gathered :=
  if bytes.size < capacity then
    let room := capacity - bytes.size
    match _h : source.read room with
    | (.ok [], rest) => ⟨bytes, rest, some .clean, reads.push (.read room (.ok []))⟩
    | (.ok (b :: bs), rest) =>
      gather capacity rest (bytes ++ (b :: bs)) (reads.push (.read room (.ok (b :: bs))))
    | (.error e, rest) =>
      let reads := reads.push (.read room (.error e))
      if e.isInterrupted then gather capacity rest bytes reads
      else ⟨bytes, rest, some (.failure e), reads⟩
  else ⟨bytes, source, none, reads⟩
termination_by source.weight
decreasing_by
  · have := Source.weight_read_ok _h
    simp only [List.length_cons] at this
    omega
  · have := Source.weight_read_error _h
    omega

/-- The reads of a refill and what there is to tell about it. A refill that failed before the first byte
has nothing to load. -/
def Gathered.entries (g : Gathered) : Journal :=
  let refilled drained := Entry.event (.refilled g.bytes.size drained)
  match g.ending with
  | none => g.reads.push (refilled false)
  | some .clean => g.reads.push (refilled true)
  | some (.failure e) =>
    let told := g.reads.push (.event (.fault e g.bytes.size))
    if g.bytes.isEmpty then told else told.push (refilled false)

/-- No bytes are lost or made up: those still to come are those that were, less the gathered ones. -/
theorem weight_gather_le (capacity : Nat) (source : Source) (bytes : Array UInt8) (reads : Journal) :
    (gather capacity source bytes reads).source.weight +
      (gather capacity source bytes reads).bytes.size ≤ source.weight + bytes.size := by
  fun_induction gather capacity source bytes reads with
  | case1 source bytes reads hlt room rest h =>
    have := Source.weight_read_ok h
    simp only [List.length_nil] at this
    simp only
    omega
  | case2 source bytes reads hlt room b bs rest h ih =>
    have := Source.weight_read_ok h
    simp only [List.length_cons] at this
    have hsize : (bytes ++ (b :: bs)).size = bytes.size + (bs.length + 1) := by
      simp [← Array.length_toList]
    omega
  | case3 source bytes reads hlt room e rest h reads' he ih =>
    have := Source.weight_read_error h
    omega
  | case4 source bytes reads hlt room e rest h reads' he =>
    have := Source.weight_read_error h
    simp only
    omega
  | case5 => simp

/-- The chunk that was loaded last, how much of it has been handed out, and the end once a refill met it. -/
structure Feed where
  source : Source
  capacity : Nat
  buffer : Array UInt8
  pos : Nat
  ending : Option Ending

/-- What a pull brings: the next byte, nothing at a clean end, or the failure at the end. With it come the
feed afterwards and the lines for the journal. -/
structure Feed.Pulled where
  front : Except Error (Option UInt8)
  feed : Feed
  entries : Journal

/-- What a pull brings at the end. -/
def Ending.front : Ending → Except Error (Option UInt8)
  | .clean => .ok none
  | .failure e => .error (.sourceFault e)

theorem Ending.front_ne (e : Ending) (b : UInt8) : e.front ≠ .ok (some b) := by
  cases e <;> simp [Ending.front]

namespace Feed

/-- A feed that has loaded nothing yet. A chunk holds at least one byte. -/
def ofSource (source : Source) (capacity : Nat) : Feed := ⟨source, max capacity 1, #[], 0, none⟩

/-- Loads the next chunk and hands out its first byte. -/
def refill (f : Feed) : Pulled :=
  match f.ending with
  | some ending => ⟨ending.front, { f with buffer := #[], pos := 0 }, #[]⟩
  | none =>
    let g := gather f.capacity f.source #[] #[]
    match g.bytes[0]? with
    | some b => ⟨.ok (some b), ⟨g.source, f.capacity, g.bytes, 1, g.ending⟩, g.entries⟩
    | none =>
      ⟨(g.ending.getD .clean).front, ⟨g.source, f.capacity, #[], 0, g.ending⟩, g.entries⟩

/-- Hands out the next byte. -/
def pull (f : Feed) : Pulled :=
  match f.buffer[f.pos]? with
  | some b => ⟨.ok (some b), { f with pos := f.pos + 1 }, #[]⟩
  | none => f.refill

/-- The bytes and failures that are still to come, those that are loaded included. -/
def weight (f : Feed) : Nat := f.source.weight + (f.buffer.size - f.pos)

theorem weight_refill_le (f : Feed) : f.refill.feed.weight ≤ f.weight := by
  have hg := weight_gather_le f.capacity f.source #[] #[]
  simp only [Array.size_empty] at hg
  unfold refill
  split
  · simp only [weight, Array.size_empty]; omega
  · simp only
    split <;> simp only [weight, Array.size_empty] <;> omega

theorem weight_refill_lt {f : Feed} {b : UInt8} (h : f.refill.front = .ok (some b)) :
    f.refill.feed.weight < f.weight := by
  have hg := weight_gather_le f.capacity f.source #[] #[]
  simp only [Array.size_empty] at hg
  unfold refill at h ⊢
  split at h
  · exact absurd h (Ending.front_ne _ b)
  · simp only at h ⊢
    split at h
    · rename_i hb
      have := (Array.getElem?_eq_some_iff.1 hb).1
      simp only [weight]
      omega
    · exact absurd h (Ending.front_ne _ b)

theorem weight_pull_le (f : Feed) : f.pull.feed.weight ≤ f.weight := by
  unfold pull
  split
  · simp only [weight]; omega
  · exact weight_refill_le f

/-- A byte that is handed out is no longer to come. -/
theorem weight_pull_lt {f : Feed} {b : UInt8} (h : f.pull.front = .ok (some b)) :
    f.pull.feed.weight < f.weight := by
  unfold pull at h ⊢
  split at h
  · rename_i hb
    have := (Array.getElem?_eq_some_iff.1 hb).1
    simp only [weight]
    omega
  · exact weight_refill_lt h

end Feed

end StreamLexer
