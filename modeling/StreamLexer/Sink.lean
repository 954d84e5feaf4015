import StreamLexer.IoError

/-! Scripted byte sinks. A sink keeps the bytes that it accepts and the places at which it was flushed. It may
accept only a few bytes at a time, interrupt its writes, and fail once it has accepted all that it can hold
or at a given flush. -/
namespace StreamLexer

/-- How a sink behaves. A bound on the bytes of one write counts as at least one. -/
structure Sink.Behaviour where
  perWrite : Option Nat
  limit : Option Nat
  zeroAtLimit : Bool
  interrupts : Bool
  failingFlush : Option Nat
  error : IoError
  deriving DecidableEq, Repr

/-- A sink that never fails. -/
def Sink.Behaviour.patient : Sink.Behaviour := ⟨none, none, false, false, none, .simple .brokenPipe⟩

/-- A sink with the bytes that it accepted and the number of them at each flush. -/
structure Sink where
  behaviour : Sink.Behaviour
  written : Array UInt8
  flushes : Array Nat
  interruptNext : Bool

namespace Sink

/-- A sink that was not used yet. If it interrupts writes, it does so with every other one from the first on. -/
def ofBehaviour (b : Behaviour) : Sink := ⟨b, #[], #[], b.interrupts⟩

/-- What comes of one write. -/
inductive Outcome where
  | accepted (count : Nat)
  | interrupted
  | failed (error : IoError)
  deriving DecidableEq, Repr

def writeZero : IoError := .custom .writeZero "failed to write whole buffer"

/-- The first bytes, as many as one write may bring. -/
def acceptable (s : Sink) (bytes : List UInt8) : List UInt8 :=
  let bytes := match s.behaviour.perWrite with
    | none => bytes
    | some most => bytes.take (max most 1)
  match s.behaviour.limit with
  | none => bytes
  | some limit => bytes.take (limit - s.written.size)

/-- One write of some bytes, which accepts as many as it can. -/
def write (s : Sink) (bytes : List UInt8) : Outcome × Sink :=
  if s.interruptNext then (.interrupted, { s with interruptNext := false })
  else
    let part := s.acceptable bytes
    let s := { s with interruptNext := s.behaviour.interrupts }
    if part.isEmpty && !s.behaviour.zeroAtLimit then (.failed s.behaviour.error, s)
    else (.accepted part.length, { s with written := s.written ++ part })

/-- What is still to be done for some bytes, an interruption included. -/
def cost (s : Sink) (bytes : List UInt8) : Nat := 2 * bytes.length + if s.interruptNext then 1 else 0

theorem cost_accepted {s s' : Sink} {bytes : List UInt8} {n : Nat} (hb : bytes ≠ [])
    (h : s.write bytes = (.accepted (n + 1), s')) : s'.cost (bytes.drop (n + 1)) < s.cost bytes := by
  have hlen : 0 < bytes.length := List.length_pos_iff.2 hb
  unfold write at h
  split at h
  · cases h
  · rename_i hi
    simp only at h
    split at h
    · cases h
    · obtain ⟨-, rfl⟩ := Prod.mk.inj h
      simp only [cost, List.length_drop, hi, Bool.false_eq_true, if_false]
      split <;> omega

theorem cost_interrupted {s s' : Sink} {bytes : List UInt8} (h : s.write bytes = (.interrupted, s')) :
    s'.cost bytes < s.cost bytes := by
  unfold write at h
  split at h
  · rename_i hi
    cases h
    simp [cost, hi]
  · simp only at h
    split at h <;> cases h

/-- Writes all bytes. Interrupted writes are made again; a write that accepts nothing is a failure. A refusal at the
limit is final, whatever its kind. -/
def writeAll (s : Sink) (bytes : List UInt8) : Except IoError Unit × Sink :=
  if _hb : bytes = [] then (.ok (), s)
  else
    match _h : s.write bytes with
    | (.accepted 0, s') => (.error writeZero, s')
    | (.accepted (n + 1), s') => writeAll s' (bytes.drop (n + 1))
    | (.interrupted, s') => writeAll s' bytes
    | (.failed e, s') => (.error e, s')
termination_by s.cost bytes
decreasing_by
  · exact cost_accepted _hb _h
  · exact cost_interrupted _h

/-- Flushes the sink. A flush that fails is noted like the others. -/
def flush (s : Sink) : Except IoError Unit × Sink :=
  let s := { s with flushes := s.flushes.push s.written.size }
  if s.behaviour.failingFlush = some s.flushes.size then (.error s.behaviour.error, s) else (.ok (), s)

end Sink

end StreamLexer
