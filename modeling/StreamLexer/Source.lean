import StreamLexer.Stream

/-! Scripted byte sources. A source is a list of steps that its reads use up one after the other: bytes
that are delivered in pieces, failures, and ends of the stream after which more may come. The stream of a
source is what arrives before its first end; each read either takes bytes off that stream, or leaves it
alone because it was interrupted, or meets its end. -/
namespace StreamLexer

/-- One step of a source. A limit bounds the bytes that one read delivers, and counts as at least one. -/
inductive Source.Step where
  | data (bytes : List UInt8) (limit : Option Nat)
  | fail (error : IoError)
  | eof
  deriving DecidableEq, Repr

/-- The steps that are left. -/
abbrev Source := List Source.Step

namespace Source

/-- A source that delivers its bytes in pieces of any size. -/
def ofBytes (bytes : List UInt8) : Source := [.data bytes none]

/-- Reads that are interrupted a number of times. -/
def interruptions (n : Nat) : Source := List.replicate n (.fail .interrupted)

/-- The most bytes that a read with room for `room` takes from a step. -/
def portion (room : Nat) : Option Nat → Nat
  | none => room
  | some limit => min room (max limit 1)

theorem portion_le (room : Nat) (limit : Option Nat) : portion room limit ≤ room := by
  cases limit <;> simp only [portion] <;> omega

theorem portion_pos {room : Nat} (h : 0 < room) (limit : Option Nat) : 0 < portion room limit := by
  cases limit <;> simp only [portion] <;> omega

/-- One read with room for `room` bytes. Steps whose bytes are used up are passed over in the same read;
delivering no bytes says that the stream is at an end. -/
def read (room : Nat) : Source → Except IoError (List UInt8) × Source
  | [] => (.ok [], [])
  | .data [] _ :: rest => read room rest
  | .data (b :: bs) limit :: rest =>
    let n := portion room limit
    (.ok ((b :: bs).take n), .data ((b :: bs).drop n) limit :: rest)
  | .fail e :: rest => (.error e, rest)
  | .eof :: rest => (.ok [], rest)

/-- The bytes and failures that are still to come. -/
def weight : Source → Nat
  | [] => 0
  | .data bytes _ :: rest => bytes.length + weight rest
  | .fail _ :: rest => weight rest + 1
  | .eof :: rest => weight rest

/-- Bytes that are delivered are no longer to come. -/
theorem weight_read_ok {room : Nat} {s s' : Source} {bytes : List UInt8}
    (h : s.read room = (.ok bytes, s')) : s'.weight + bytes.length = s.weight := by
  fun_induction read room s with
  | case1 => cases h; rfl
  | case2 limit rest ih => simpa [weight] using ih h
  | case3 b bs limit rest n =>
    cases h
    simp only [weight, List.length_take, List.length_drop]
    omega
  | case4 => cases h
  | case5 => cases h; simp [weight]

theorem weight_read_error {room : Nat} {s s' : Source} {e : IoError}
    (h : s.read room = (.error e, s')) : s'.weight + 1 = s.weight := by
  fun_induction read room s with
  | case1 => cases h
  | case2 limit rest ih => simpa [weight] using ih h
  | case3 => cases h
  | case4 => cases h; simp [weight]
  | case5 => cases h

theorem length_read_le {room : Nat} {s s' : Source} {bytes : List UInt8}
    (h : s.read room = (.ok bytes, s')) : bytes.length ≤ room := by
  fun_induction read room s with
  | case1 => cases h; simp
  | case2 limit rest ih => exact ih h
  | case3 b bs limit rest n =>
    cases h
    have := portion_le room limit
    simp only [List.length_take]
    omega
  | case4 => cases h
  | case5 => cases h; simp

/-- What arrives before the first end of the stream or the first failure that is no interruption. -/
def stream : Source → Stream
  | [] => ⟨[], .clean⟩
  | .data bytes _ :: rest => (stream rest).prepend bytes
  | .fail e :: rest => if e.isInterrupted then stream rest else ⟨[], .failure e⟩
  | .eof :: _ => ⟨[], .clean⟩

@[simp] theorem stream_ofBytes (bytes : List UInt8) : (ofBytes bytes).stream = ⟨bytes, .clean⟩ := by
  simp [ofBytes, stream, Stream.prepend]

/-- Bytes that are delivered are the first of the stream. -/
theorem stream_read_ok {room : Nat} {s s' : Source} {bytes : List UInt8} (hb : bytes ≠ [])
    (h : s.read room = (.ok bytes, s')) : s.stream = s'.stream.prepend bytes := by
  fun_induction read room s with
  | case1 => cases h; exact absurd rfl hb
  | case2 limit rest ih => simpa [stream] using ih h
  | case3 b bs limit rest n =>
    cases h
    simp only [stream, Stream.prepend_prepend, List.take_append_drop]
  | case4 => cases h
  | case5 => cases h; exact absurd rfl hb

/-- A read with room that delivers nothing is at the end of the stream. -/
theorem stream_read_nil {room : Nat} {s s' : Source} (hr : 0 < room)
    (h : s.read room = (.ok [], s')) : s.stream = ⟨[], .clean⟩ := by
  fun_induction read room s with
  | case1 => rfl
  | case2 limit rest ih => simpa [stream] using ih h
  | case3 b bs limit rest n =>
    have hn : 0 < n := portion_pos hr limit
    cases hn' : n with
    | zero => omega
    | succ m => simp [hn'] at h
  | case4 => cases h
  | case5 => rfl

/-- An interrupted read leaves the stream alone. -/
theorem stream_read_interrupted {room : Nat} {s s' : Source} {e : IoError}
    (he : e.isInterrupted = true) (h : s.read room = (.error e, s')) : s.stream = s'.stream := by
  fun_induction read room s with
  | case1 => cases h
  | case2 limit rest ih => simpa [stream] using ih h
  | case3 => cases h
  | case4 => cases h; simp [stream, he]
  | case5 => cases h

/-- Any other failed read is at the end of the stream. -/
theorem stream_read_failed {room : Nat} {s s' : Source} {e : IoError}
    (he : e.isInterrupted = false) (h : s.read room = (.error e, s')) :
    s.stream = ⟨[], .failure e⟩ := by
  fun_induction read room s with
  | case1 => cases h
  | case2 limit rest ih => simpa [stream] using ih h
  | case3 => cases h
  | case4 => cases h; simp [stream, he]
  | case5 => cases h

end Source

end StreamLexer
