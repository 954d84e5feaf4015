import StreamLexer.Feed.Stream

/-! What one pull can do. A sound feed keeps its cursor within the bytes that it loaded, and never loads more
than its capacity. A pull of such a feed does one of four things: it hands out a loaded byte, repeats an end
that was met before, loads a chunk and hands out the first byte, or meets the end before any byte. Whatever
it does, the bytes that the source delivered and the bytes that were handed out stay in step. -/
namespace StreamLexer

namespace Journal

@[simp] theorem delivered_push (j : Journal) (e : Entry) :
    delivered (j.push e) = j.delivered ++ e.delivered := by
  simp [delivered]

@[simp] theorem events_push (j : Journal) (e : Entry) :
    events (j.push e) = j.events ++ e.event?.toList := by
  cases h : e.event? <;> simp [events, h]

end Journal

namespace Source

def Step.bytes : Step → List UInt8
  | .data bytes _ => bytes
  | .fail _ => []
  | .eof => []

/-- All bytes of a source, those behind its ends included. -/
def bytes (s : Source) : List UInt8 := s.flatMap Step.bytes

/-- A read takes what it delivers off the source, and nothing else. -/
theorem bytes_read {room : Nat} {s s' : Source} {outcome : Except IoError (List UInt8)}
    (h : s.read room = (outcome, s')) : (Entry.read room outcome).delivered ++ s'.bytes = s.bytes := by
  fun_induction read room s with
  | case1 => cases h; rfl
  | case2 limit rest ih => simpa [bytes, Step.bytes] using ih h
  | case3 b bs limit rest n =>
    cases h
    simp only [Entry.delivered, bytes, List.flatMap_cons, Step.bytes]
    rw [← List.append_assoc, List.take_append_drop]
  | case4 => cases h; rfl
  | case5 => cases h; rfl

end Source

/-- A refill keeps to the capacity. -/
theorem size_gather_le {capacity : Nat} {source : Source} {bytes : Array UInt8} {reads : Journal}
    (h : bytes.size ≤ capacity) : (gather capacity source bytes reads).bytes.size ≤ capacity := by
  fun_induction gather capacity source bytes reads with
  | case1 => exact h
  | case2 source bytes reads hlt room b bs rest hr ih =>
    apply ih
    have hle := Source.length_read_le hr
    have hsize : (bytes ++ (b :: bs)).size = bytes.size + (b :: bs).length := by
      simp [← Array.length_toList]
    omega
  | case3 source bytes reads hlt room e rest hr reads' he ih => exact ih h
  | case4 => exact h
  | case5 => exact h

theorem delivered_gather {capacity : Nat} {source : Source} {bytes : Array UInt8} {reads : Journal}
    (h : reads.delivered = bytes.toList) :
    (gather capacity source bytes reads).reads.delivered =
      (gather capacity source bytes reads).bytes.toList := by
  fun_induction gather capacity source bytes reads with
  | case1 => simp [h, Entry.delivered]
  | case2 source bytes reads hlt room b bs rest hr ih =>
    apply ih
    simp [h, Entry.delivered]
  | case3 source bytes reads hlt room e rest hr reads' he ih =>
    apply ih
    simp [reads', h, Entry.delivered]
  | case4 source bytes reads hlt room e rest hr reads' he => simp [reads', h, Entry.delivered]
  | case5 => exact h

/-- The gathered bytes are those that the reads of the refill delivered. -/
theorem delivered_refill (capacity : Nat) (source : Source) :
    (gather capacity source #[] #[]).reads.delivered = (gather capacity source #[] #[]).bytes.toList :=
  delivered_gather rfl

/-- What the reads of a refill delivered is what the source has lost. -/
theorem bytes_gather {capacity : Nat} {source : Source} {bytes : Array UInt8} {reads : Journal} :
    (gather capacity source bytes reads).reads.delivered ++
        (gather capacity source bytes reads).source.bytes =
      reads.delivered ++ source.bytes := by
  fun_induction gather capacity source bytes reads with
  | case1 source bytes reads hlt room rest hr =>
    rw [Journal.delivered_push, List.append_assoc, Source.bytes_read hr]
  | case2 source bytes reads hlt room b bs rest hr ih =>
    rw [ih, Journal.delivered_push, List.append_assoc, Source.bytes_read hr]
  | case3 source bytes reads hlt room e rest hr reads' he ih =>
    rw [ih, Journal.delivered_push, List.append_assoc, Source.bytes_read hr]
  | case4 source bytes reads hlt room e rest hr reads' he =>
    rw [Journal.delivered_push, List.append_assoc, Source.bytes_read hr]
  | case5 => rfl

/-- A refill that failed made a read that failed so, and the failure was no interruption. -/
theorem failed_gather {capacity : Nat} {source : Source} {bytes : Array UInt8} {reads : Journal}
    {e : IoError} (h : (gather capacity source bytes reads).ending = some (.failure e)) :
    e.isInterrupted = false ∧
      ∃ room, Entry.read room (.error e) ∈ (gather capacity source bytes reads).reads := by
  fun_induction gather capacity source bytes reads with
  | case1 => cases h
  | case2 source bytes reads hlt room b bs rest hr ih => exact ih h
  | case3 source bytes reads hlt room e' rest hr reads' he ih => exact ih h
  | case4 source bytes reads hlt room e' rest hr reads' he =>
    cases h
    refine ⟨by simpa using he, room, ?_⟩
    simp [reads']
  | case5 => cases h

/-- While it gathers, a feed tells of nothing but its reads. -/
theorem events_gather {capacity : Nat} {source : Source} {bytes : Array UInt8} {reads : Journal} :
    (gather capacity source bytes reads).reads.events = reads.events := by
  fun_induction gather capacity source bytes reads with
  | case1 => simp [Entry.event?]
  | case2 source bytes reads hlt room b bs rest hr ih => simpa [Entry.event?] using ih
  | case3 source bytes reads hlt room e rest hr reads' he ih => simpa [reads', Entry.event?] using ih
  | case4 source bytes reads hlt room e rest hr reads' he => simp [reads', Entry.event?]
  | case5 => rfl

namespace Gathered

@[simp] theorem delivered_entries (g : Gathered) : g.entries.delivered = g.reads.delivered := by
  unfold entries
  split
  · simp [Entry.delivered]
  · simp [Entry.delivered]
  · split <;> simp [Entry.delivered]

theorem mem_entries {g : Gathered} {e : Entry} (h : e ∈ g.reads) : e ∈ g.entries := by
  unfold entries
  split
  · simp [h]
  · simp [h]
  · split <;> simp [h]

end Gathered

namespace Feed

/-- The cursor of the feed lies within the loaded bytes, and those within the capacity. -/
structure Sound (f : Feed) : Prop where
  capacity_pos : 0 < f.capacity
  pos_le : f.pos ≤ f.buffer.size
  size_le : f.buffer.size ≤ f.capacity

theorem sound_ofSource (source : Source) (capacity : Nat) : (ofSource source capacity).Sound := by
  refine ⟨?_, ?_, ?_⟩
  · simp only [ofSource]; omega
  · simp [ofSource]
  · simp [ofSource]

/-- The ways in which a pull can go, each with all that it leads to. -/
inductive Pulls (f : Feed) : Pulled → Prop
  | loaded (h : f.pos < f.buffer.size) :
      Pulls f ⟨.ok (some f.buffer[f.pos]), { f with pos := f.pos + 1 }, #[]⟩
  | ended {ending : Ending} (hp : f.pos = f.buffer.size) (he : f.ending = some ending) :
      Pulls f ⟨ending.front, { f with buffer := #[], pos := 0 }, #[]⟩
  | refilled {g : Gathered} (hp : f.pos = f.buffer.size) (he : f.ending = none)
      (hg : gather f.capacity f.source #[] #[] = g) (h : 0 < g.bytes.size) :
      Pulls f ⟨.ok (some g.bytes[0]), ⟨g.source, f.capacity, g.bytes, 1, g.ending⟩, g.entries⟩
  | emptied {g : Gathered} {ending : Ending} (hp : f.pos = f.buffer.size) (he : f.ending = none)
      (hg : gather f.capacity f.source #[] #[] = g) (hb : g.bytes = #[]) (hge : g.ending = some ending) :
      Pulls f ⟨ending.front, ⟨g.source, f.capacity, #[], 0, some ending⟩, g.entries⟩

/-- A refill that is made with nothing left of the loaded bytes goes one of the last three ways. -/
theorem Sound.pulls_refill {f : Feed} (hf : f.Sound) (hp : f.pos = f.buffer.size) : f.Pulls f.refill := by
  unfold refill
  split
  · rename_i ending he
    exact .ended hp he
  · rename_i he
    simp only
    split
    · rename_i b hb
      obtain ⟨h, rfl⟩ := Array.getElem?_eq_some_iff.1 hb
      exact .refilled hp he rfl h
    · rename_i hb
      have hnil : (gather f.capacity f.source #[] #[]).bytes = #[] := by
        simpa [Array.getElem?_eq_none_iff] using hb
      cases hge : (gather f.capacity f.source #[] #[]).ending with
      | none =>
        -- a refill ends early only at an end, and there is room for one byte
        have hle := size_gather hge
        have hc := hf.capacity_pos
        simp only [hnil, Array.size_empty] at hle
        omega
      | some ending => exact .emptied hp he rfl hnil hge

theorem Sound.pulls {f : Feed} (hf : f.Sound) : f.Pulls f.pull := by
  have hle := hf.pos_le
  unfold pull
  split
  · rename_i b hb
    obtain ⟨h, rfl⟩ := Array.getElem?_eq_some_iff.1 hb
    exact .loaded h
  · rename_i hb
    have hge := Array.getElem?_eq_none_iff.1 hb
    exact hf.pulls_refill (by omega)

theorem Sound.of_pulls {f : Feed} {p : Pulled} (hf : f.Sound) (h : f.Pulls p) : p.feed.Sound := by
  obtain ⟨hc, hp, hs⟩ := hf
  cases h with
  | loaded h => exact ⟨hc, h, hs⟩
  | ended => exact ⟨hc, by simp, by simp⟩
  | refilled _ _ hg h =>
    subst hg
    exact ⟨hc, h, size_gather_le (by simp)⟩
  | emptied => exact ⟨hc, by simp, by simp⟩

/-- A pull keeps a feed sound. -/
theorem Sound.pull {f : Feed} (hf : f.Sound) : f.pull.feed.Sound := hf.of_pulls hf.pulls

/-- The byte that a pull handed out stands right before the cursor of the feed, and lies within the loaded
bytes. -/
theorem Sound.front_pull {f : Feed} {b : UInt8} (hf : f.Sound) (h : f.pull.front = .ok (some b)) :
    1 ≤ f.pull.feed.pos ∧ f.pull.feed.buffer[f.pull.feed.pos - 1]? = some b := by
  have hp := hf.pulls
  generalize f.pull = p at h hp
  cases hp with
  | loaded hlt => cases h; exact ⟨by simp, by simp⟩
  | ended => exact absurd h (Ending.front_ne _ b)
  | refilled _ _ hg hlt => cases h; exact ⟨by simp, by simp⟩
  | emptied => exact absurd h (Ending.front_ne _ b)

/-- A pull that hands out no byte met an end, and leaves nothing loaded. -/
theorem Sound.end_pull {f : Feed} (hf : f.Sound) (h : ∀ b, f.pull.front ≠ .ok (some b)) :
    f.pull.feed.pos = 0 ∧ f.pull.feed.buffer = #[] ∧
      ∃ ending, f.pull.feed.ending = some ending ∧ f.pull.front = ending.front := by
  have hp := hf.pulls
  generalize f.pull = p at h hp
  cases hp with
  | loaded => exact absurd rfl (h _)
  | ended _ he => exact ⟨rfl, rfl, _, he, rfl⟩
  | refilled => exact absurd rfl (h _)
  | emptied => exact ⟨rfl, rfl, _, rfl, rfl⟩

end Feed

end StreamLexer
