/-! Columns of a table: text filled up with blanks to a width. Text that is wider than its column is
kept whole. -/
namespace StreamLexer.Text.Column

/-- The blanks that are missing from `s` to the width. -/
def filling (width : Nat) (s : String) : String :=
  String.ofList (List.replicate (width - s.length) ' ')

def right (width : Nat) (s : String) : String := filling width s ++ s

def left (width : Nat) (s : String) : String := s ++ filling width s

@[simp] theorem length_right (width : Nat) (s : String) :
    (right width s).length = max width s.length := by
  simp [right, filling]; omega

@[simp] theorem length_left (width : Nat) (s : String) :
    (left width s).length = max width s.length := by
  simp [left, filling]; omega

end StreamLexer.Text.Column
