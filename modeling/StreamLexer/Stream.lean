import StreamLexer.Error

/-! A stream: the bytes that arrive before the end, and how the end comes. This is all of a source that a
lexer's answers can depend on. -/
namespace StreamLexer

/-- How a stream ends: with nothing more to read, or with a failure. -/
inductive Ending where
  | clean
  | failure (error : IoError)
  deriving DecidableEq, Repr

/-- The failure that a caller is told of at an end. -/
def Ending.fault? : Ending → Option Error
  | .clean => none
  | .failure e => some (.sourceFault e)

theorem Ending.fault?_eq_some_iff {ending : Ending} {e : Error} :
    ending.fault? = some e ↔ ∃ cause, ending = .failure cause ∧ e = .sourceFault cause := by
  cases ending with
  | clean => simp [fault?]
  | failure cause =>
    constructor
    · intro h
      cases h
      exact ⟨cause, rfl, rfl⟩
    · rintro ⟨_, h, rfl⟩
      cases h
      rfl

/-- The bytes before the end, with the end. -/
structure Stream where
  bytes : List UInt8
  ending : Ending
  deriving DecidableEq, Repr

/-- The stream that brings some bytes first. -/
def Stream.prepend (bytes : List UInt8) (s : Stream) : Stream := { s with bytes := bytes ++ s.bytes }

@[simp] theorem Stream.prepend_nil (s : Stream) : s.prepend [] = s := rfl

@[simp] theorem Stream.prepend_prepend (a b : List UInt8) (s : Stream) :
    (s.prepend b).prepend a = s.prepend (a ++ b) := by
  simp [Stream.prepend]

end StreamLexer
