import StreamLexer.Feed

/-! The stream of a feed: what it will hand out before its end, and that end. However the source splits its
bytes and wherever the chunks begin, a refill takes its bytes off the front of the stream in order, and a pull
takes off one byte or meets the end. -/
namespace StreamLexer

/-- What a refill leads to: the gathered bytes, then what the source has unless it has ended. -/
def Gathered.stream (g : Gathered) : Stream :=
  match g.ending with
  | some ending => ⟨g.bytes.toList, ending⟩
  | none => g.source.stream.prepend g.bytes.toList

/-- A refill takes its bytes off the front of the stream, in order, and meets the stream's own end. -/
theorem stream_gather (capacity : Nat) (source : Source) (bytes : Array UInt8) (reads : Journal) :
    (gather capacity source bytes reads).stream = source.stream.prepend bytes.toList := by
  fun_induction gather capacity source bytes reads with
  | case1 source bytes reads hlt room rest h =>
    have hroom : 0 < room := Nat.sub_pos_of_lt hlt
    simp [Gathered.stream, Stream.prepend, Source.stream_read_nil hroom h]
  | case2 source bytes reads hlt room b bs rest h ih =>
    rw [ih, Source.stream_read_ok (by simp) h]
    simp
  | case3 source bytes reads hlt room e rest h reads' he ih =>
    rw [ih, Source.stream_read_interrupted he h]
  | case4 source bytes reads hlt room e rest h reads' he =>
    simp [Gathered.stream, Stream.prepend, Source.stream_read_failed (by simpa using he) h]
  | case5 => rfl

/-- A refill that neither fills its chunk nor meets the end does not exist. -/
theorem size_gather {capacity : Nat} {source : Source} {bytes : Array UInt8} {reads : Journal}
    (h : (gather capacity source bytes reads).ending = none) :
    capacity ≤ (gather capacity source bytes reads).bytes.size := by
  fun_induction gather capacity source bytes reads with
  | case1 => cases h
  | case2 source bytes reads hlt room b bs rest hr ih => exact ih h
  | case3 source bytes reads hlt room e rest hr reads' he ih => exact ih h
  | case4 => cases h
  | case5 source bytes reads hlt => exact Nat.le_of_not_lt hlt

namespace Feed

/-- The bytes that are loaded and not yet handed out. -/
def pending (f : Feed) : List UInt8 := f.buffer.toList.drop f.pos

/-- What is still to come: the loaded bytes, then what the source has unless it has ended. -/
def stream (f : Feed) : Stream :=
  match f.ending with
  | some ending => ⟨f.pending, ending⟩
  | none => f.source.stream.prepend f.pending

/-- What a pull leads to: the byte that it brought, then what is still to come. -/
def Pulled.stream (p : Pulled) : Stream :=
  match p.front with
  | .ok (some b) => p.feed.stream.prepend [b]
  | .ok none => ⟨[], .clean⟩
  | .error e => ⟨[], .failure e.cause⟩

@[simp] theorem Pulled.stream_ending (e : Ending) (f : Feed) (j : Journal) :
    Pulled.stream ⟨e.front, f, j⟩ = ⟨[], e⟩ := by
  cases e <;> rfl

/-- A refill takes at most its first byte off the stream, once all loaded bytes are handed out. -/
theorem stream_refill {f : Feed} (hp : f.pending = []) (hc : 0 < f.capacity) :
    f.refill.stream = f.stream := by
  unfold refill
  split
  · rename_i ending he
    simp [stream, he, hp]
  · rename_i he
    have hg := stream_gather f.capacity f.source #[] #[]
    have hf : f.stream = f.source.stream := by simp [stream, he, hp]
    simp only
    split
    · rename_i b hb
      have hcons : (gather f.capacity f.source #[] #[]).bytes.toList =
          b :: (gather f.capacity f.source #[] #[]).bytes.toList.tail := by
        rw [← Array.getElem?_toList] at hb
        cases hl : (gather f.capacity f.source #[] #[]).bytes.toList with
        | nil => simp [hl] at hb
        | cons c cs => simpa [hl] using hb
      rw [hf, ← Stream.prepend_nil f.source.stream, ← hg]
      unfold Gathered.stream
      simp only [Pulled.stream, stream, pending]
      split
      · simp [Stream.prepend, ← hcons]
      · simp [← hcons]
    · rename_i hb
      have hnil : (gather f.capacity f.source #[] #[]).bytes = #[] := by
        simpa [Array.getElem?_eq_none_iff] using hb
      cases he' : (gather f.capacity f.source #[] #[]).ending with
      | none =>
        have := size_gather he'
        simp only [hnil, Array.size_empty] at this
        omega
      | some ending =>
        rw [hf, ← Stream.prepend_nil f.source.stream, ← hg]
        simp [Gathered.stream, he', hnil]

/-- A pull takes at most the first byte off the stream. -/
theorem stream_pull {f : Feed} (hc : 0 < f.capacity) : f.pull.stream = f.stream := by
  unfold pull
  split
  · rename_i b hb
    have hcons : f.pending = b :: f.buffer.toList.drop (f.pos + 1) := by
      rw [← Array.getElem?_toList] at hb
      obtain ⟨hlt, rfl⟩ := List.getElem?_eq_some_iff.1 hb
      exact List.drop_eq_getElem_cons hlt
    simp only [Pulled.stream, stream, hcons]
    split <;> simp [pending, Stream.prepend]
  · rename_i hb
    refine stream_refill ?_ hc
    simpa [pending] using hb

end Feed

end StreamLexer
