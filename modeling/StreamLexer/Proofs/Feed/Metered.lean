import StreamLexer.Proofs.Feed.Pull

/-! What a feed asks of its source. Each read asks for the bytes that its chunk still lacks, the source is left as
the reads leave it, and no read follows one that met the end. A journal that is written so is metered, and every
pull goes on with it. A pull reads only when it has nothing loaded, and a chunk that did not meet the end is full,
so that the chunks begin at the multiples of their size. -/
namespace StreamLexer

namespace Entry

/-- Whether a read met the end: it brought nothing, or it failed and need not be made again. -/
def isFinal : Entry → Bool
  | read _ (.ok bytes) => bytes.isEmpty
  | read _ (.error e) => !e.isInterrupted
  | event _ => false

/-- Whether a read was interrupted. -/
def isInterrupted : Entry → Bool
  | read _ (.ok _) => false
  | read _ (.error e) => e.isInterrupted
  | event _ => false

/-- A read brings a byte, or was interrupted, or met the end. -/
theorem read_cases (room : Nat) (outcome : Except IoError (List UInt8)) :
    0 < (read room outcome).delivered.length ∨ (read room outcome).isInterrupted = true ∨
      (read room outcome).isFinal = true := by
  rcases outcome with e | _ | ⟨b, bs⟩
  · cases h : e.isInterrupted
    · exact .inr (.inr (by simp [isFinal, h]))
    · exact .inr (.inl h)
  · exact .inr (.inr rfl)
  · exact .inl (by simp [delivered])

end Entry

/-- What reads with these rooms, one after the other, leave of a source. -/
def Source.afterReads (s : Source) (rooms : List Nat) : Source :=
  rooms.foldl (fun s room => (s.read room).2) s

theorem Source.afterReads_concat (s : Source) (rooms : List Nat) (room : Nat) :
    s.afterReads (rooms ++ [room]) = ((s.afterReads rooms).read room).2 := by
  simp [afterReads]

namespace Journal

@[simp] theorem rooms_push (j : Journal) (e : Entry) : rooms (j.push e) = j.rooms ++ e.room?.toList := by
  cases h : e.room? <;> simp [rooms, h]

/-- No read of the journal met the end. -/
def IsOpen (j : Journal) : Prop := ∀ e ∈ j, e.isFinal = false

theorem IsOpen.push {j : Journal} {e : Entry} (h : j.IsOpen) (he : e.isFinal = false) : IsOpen (j.push e) := by
  intro x hx
  rcases Array.mem_push.1 hx with hx | rfl
  · exact h x hx
  · exact he

/-- The journals of reading `source` in chunks, each with what is left of the source. A read is made only while
no read has met the end, and asks for what its chunk lacks. -/
inductive Metered (chunk : Nat) (source : Source) : Journal → Source → Prop
  | start : Metered chunk source #[] source
  | event {j : Journal} {s : Source} (tail : Metered chunk source j s) (e : Event) :
      Metered chunk source (j.push (.event e)) s
  | read {j : Journal} {s s' : Source} {room : Nat} {outcome : Except IoError (List UInt8)}
      (tail : Metered chunk source j s) (hopen : j.IsOpen)
      (hroom : room = chunk - j.delivered.length % chunk) (h : s.read room = (outcome, s')) :
      Metered chunk source (j.push (.read room outcome)) s'

variable {chunk : Nat} {source s : Source} {j : Journal}

theorem Metered.left (h : Metered chunk source j s) : s = source.afterReads j.rooms := by
  induction h with
  | start => rfl
  | event _ e ih => simpa [Entry.room?] using ih
  | read _ _ _ hread ih =>
    rw [rooms_push, Entry.room?, Option.toList_some, Source.afterReads_concat, ← ih, hread]

/-- Each read of a metered journal, seen from the lines before it. -/
theorem Metered.read_of_split (h : Metered chunk source j s) {before later : Journal} {room : Nat}
    {outcome : Except IoError (List UInt8)} (hj : j = before.push (.read room outcome) ++ later) :
    room = chunk - before.delivered.length % chunk ∧
      ((source.afterReads before.rooms).read room).1 = outcome ∧ before.IsOpen := by
  induction h generalizing later with
  | start => simp at hj
  | event _ e ih =>
    obtain ⟨-, hlast⟩ | ⟨later', -, hj'⟩ := Array.push_eq_append_iff.1 hj
    · cases (Array.push_eq_push.1 hlast).1
    · exact ih hj'
  | read tail hopen hroom hread ih =>
    obtain ⟨-, hlast⟩ | ⟨later', -, hj'⟩ := Array.push_eq_append_iff.1 hj
    · obtain ⟨hentry, rfl⟩ := Array.push_eq_push.1 hlast
      cases hentry
      refine ⟨hroom, ?_, hopen⟩
      rw [← tail.left, hread]
    · exact ih hj'

/-- No read follows one that met the end. -/
theorem Metered.final_is_last (h : Metered chunk source j s) {before later : Journal} {e : Entry}
    (hj : j = before.push e ++ later) (he : e.isFinal = true) : later.rooms = [] := by
  induction h generalizing later with
  | start => simp at hj
  | event _ event ih =>
    obtain ⟨rfl, -⟩ | ⟨later', rfl, hj'⟩ := Array.push_eq_append_iff.1 hj
    · rfl
    · simpa [Entry.room?] using ih hj'
  | read _ hopen _ _ ih =>
    obtain ⟨rfl, -⟩ | ⟨later', rfl, hj'⟩ := Array.push_eq_append_iff.1 hj
    · rfl
    · -- the line would stand in a journal in which no read has met the end
      have hmem : e ∈ before.push e ++ later' := Array.mem_append_left _ Array.mem_push_self
      rw [← hj'] at hmem
      rw [hopen e hmem] at he
      cases he

/-- At most one read met the end. -/
theorem Metered.countP_isFinal_le (h : Metered chunk source j s) : j.countP Entry.isFinal ≤ 1 := by
  induction h with
  | start => simp
  | event _ e ih => simpa [Array.countP_push, Entry.isFinal] using ih
  | @read j _ _ _ _ _ hopen _ _ ih =>
    have hzero : j.countP Entry.isFinal = 0 := by
      rw [Array.countP_eq_zero]
      intro e he
      simp [hopen e he]
    rw [Array.countP_push, hzero]
    split <;> omega

/-- Each read brings a byte of its own, or is counted as interrupted or final. -/
theorem Metered.length_rooms_le (h : Metered chunk source j s) :
    j.rooms.length ≤ j.delivered.length + j.countP Entry.isInterrupted + j.countP Entry.isFinal := by
  induction h with
  | start => simp [rooms]
  | event _ e ih =>
    simpa [Array.countP_push, Entry.room?, Entry.delivered, Entry.isInterrupted, Entry.isFinal] using ih
  | @read j _ _ room outcome _ _ _ _ ih =>
    have hcases := Entry.read_cases room outcome
    simp only [rooms_push, delivered_push, Array.countP_push, List.length_append, Entry.room?,
      Option.toList_some, List.length_singleton]
    obtain h | h | h := hcases
    · omega
    · rw [if_pos h]; omega
    · rw [if_pos h]; omega

end Journal

namespace Feed

/-- A feed whose journal is metered. As long as no end is met a whole number of chunks has been delivered, and a
chunk that is loaded is the last one of those, or what the end has left of it. -/
structure Chunked (source : Source) (j : Journal) (f : Feed) : Prop where
  metered : j.Metered f.capacity source f.source
  whole : f.ending = none → j.IsOpen ∧ f.capacity ∣ j.delivered.length
  loaded : 0 < f.buffer.size → ∃ k, j.delivered.length = k * f.capacity + f.buffer.size

theorem chunked_ofSource (source : Source) (capacity : Nat) : (ofSource source capacity).Chunked source #[] := by
  refine ⟨.start, ?_, ?_⟩
  · intro _
    exact ⟨by simp [Journal.IsOpen], by simp [Journal.delivered]⟩
  · simp [ofSource]

end Feed

section
variable {capacity : Nat} {source start : Source} {before reads : Journal} {bytes : Array UInt8}

/-- Behind whole chunks, what a chunk lacks is told by all the bytes delivered so far. -/
theorem room_of_whole (hwhole : capacity ∣ before.delivered.length) (hreads : reads.delivered = bytes.toList)
    (hlt : bytes.size < capacity) :
    capacity - bytes.size = capacity - (Journal.delivered (before ++ reads)).length % capacity := by
  obtain ⟨k, hk⟩ := hwhole
  rw [Journal.delivered_append, List.length_append, hk, hreads, Array.length_toList, Nat.mul_add_mod,
    Nat.mod_eq_of_lt hlt]

/-- A refill that begins behind whole chunks meters its reads, and leaves the journal open unless it meets the
end. -/
theorem metered_gather (h : Journal.Metered capacity start (before ++ reads) source)
    (hopen : Journal.IsOpen (before ++ reads)) (hwhole : capacity ∣ before.delivered.length)
    (hreads : reads.delivered = bytes.toList) :
    Journal.Metered capacity start (before ++ (gather capacity source bytes reads).reads)
        (gather capacity source bytes reads).source ∧
      ((gather capacity source bytes reads).ending = none →
        Journal.IsOpen (before ++ (gather capacity source bytes reads).reads)) := by
  fun_induction gather capacity source bytes reads with
  | case1 source bytes reads hlt room rest hr =>
    rw [← Array.push_append]
    exact ⟨h.read hopen (room_of_whole hwhole hreads hlt) hr, by simp⟩
  | case2 source bytes reads hlt room b bs rest hr ih =>
    apply ih
    · rw [← Array.push_append]
      exact h.read hopen (room_of_whole hwhole hreads hlt) hr
    · rw [← Array.push_append]
      exact hopen.push rfl
    · simp [hreads, Entry.delivered]
  | case3 source bytes reads hlt room e rest hr reads' he ih =>
    apply ih
    · rw [← Array.push_append]
      exact h.read hopen (room_of_whole hwhole hreads hlt) hr
    · rw [← Array.push_append]
      exact hopen.push (by simp [Entry.isFinal, he])
    · simp [reads', hreads, Entry.delivered]
  | case4 source bytes reads hlt room e rest hr reads' he =>
    rw [← Array.push_append]
    exact ⟨h.read hopen (room_of_whole hwhole hreads hlt) hr, by simp⟩
  | case5 => exact ⟨h, fun _ => hopen⟩

/-- What a refill tells beside its reads changes nothing in what it read. -/
theorem Gathered.metered_entries {g : Gathered} {s : Source}
    (h : Journal.Metered capacity start (before ++ g.reads) s) :
    Journal.Metered capacity start (before ++ g.entries) s := by
  unfold entries
  split
  · rw [← Array.push_append]
    exact h.event _
  · rw [← Array.push_append]
    exact h.event _
  · simp only
    split
    · rw [← Array.push_append]
      exact h.event _
    · rw [← Array.push_append, ← Array.push_append]
      exact (h.event _).event _

theorem Gathered.isOpen_entries {g : Gathered} (h : Journal.IsOpen (before ++ g.reads))
    (hg : g.ending = none) : Journal.IsOpen (before ++ g.entries) := by
  simp only [entries, hg, ← Array.push_append]
  exact h.push rfl

end

namespace Feed

variable {source : Source} {j : Journal} {f : Feed}

/-- As long as no end is met a loaded chunk is full. -/
theorem Chunked.capacity_le (h : f.Chunked source j) (he : f.ending = none) (hloaded : 0 < f.buffer.size) :
    f.capacity ≤ f.buffer.size := by
  obtain ⟨-, hwhole⟩ := h.whole he
  obtain ⟨k, hk⟩ := h.loaded hloaded
  rw [hk, Nat.dvd_add_right (Nat.dvd_mul_left _ k)] at hwhole
  exact Nat.le_of_dvd hloaded hwhole

theorem Chunked.event (h : f.Chunked source j) (e : Event) : f.Chunked source (j.push (.event e)) := by
  refine ⟨h.metered.event e, ?_, ?_⟩
  · intro he
    obtain ⟨hopen, hwhole⟩ := h.whole he
    exact ⟨hopen.push rfl, by simpa [Entry.delivered] using hwhole⟩
  · simpa [Entry.delivered] using h.loaded

/-- A refill goes on with a metered journal, and leaves it open unless it meets the end. -/
theorem Chunked.refill (h : f.Chunked source j) (he : f.ending = none) :
    Journal.Metered f.capacity source (j ++ (gather f.capacity f.source #[] #[]).reads)
        (gather f.capacity f.source #[] #[]).source ∧
      ((gather f.capacity f.source #[] #[]).ending = none →
        Journal.IsOpen (j ++ (gather f.capacity f.source #[] #[]).reads)) := by
  obtain ⟨hopen, hwhole⟩ := h.whole he
  refine metered_gather ?_ ?_ hwhole rfl
  · simpa using h.metered
  · simpa using hopen

/-- A pull goes on with a metered journal. -/
theorem Chunked.pull (h : f.Chunked source j) (hf : f.Sound) :
    f.pull.feed.Chunked source (j ++ f.pull.entries) := by
  have hp := hf.pulls
  generalize f.pull = p at hp
  cases hp with
  | loaded => simpa using ⟨h.metered, h.whole, h.loaded⟩
  | ended _ he =>
    refine ⟨by simpa using h.metered, ?_, by simp⟩
    simp [he]
  | @refilled g _ he hg hlt =>
    obtain ⟨hmetered, hopen⟩ := h.refill he
    obtain ⟨-, k, hk⟩ := h.whole he
    have hdelivered := delivered_refill f.capacity f.source
    have hle : (gather f.capacity f.source #[] #[]).bytes.size ≤ f.capacity := size_gather_le (by simp)
    subst hg
    have hlen : (Journal.delivered (j ++ (gather f.capacity f.source #[] #[]).entries)).length =
        f.capacity * k + (gather f.capacity f.source #[] #[]).bytes.size := by
      rw [Journal.delivered_append, Gathered.delivered_entries, hdelivered, List.length_append, hk,
        Array.length_toList]
    refine ⟨Gathered.metered_entries hmetered, ?_, ?_⟩
    · intro hnone
      refine ⟨Gathered.isOpen_entries (hopen hnone) hnone, k + 1, ?_⟩
      have hfull := Nat.le_antisymm hle (size_gather hnone)
      exact hlen.trans (by rw [hfull, Nat.mul_succ])
    · intro _
      exact ⟨k, by rw [hlen, Nat.mul_comm]⟩
  | @emptied g ending _ he hg hb hge =>
    obtain ⟨hmetered, -⟩ := h.refill he
    subst hg
    exact ⟨Gathered.metered_entries hmetered, by simp, by simp⟩

/-- A feed that has met the end reads nothing more. -/
theorem pull_of_ending {ending : Ending} (hf : f.Sound) (he : f.ending = some ending) :
    f.pull.feed.ending = some ending ∧ f.pull.feed.source = f.source ∧ f.pull.entries = #[] := by
  have hp := hf.pulls
  generalize f.pull = p at hp
  cases hp with
  | loaded => exact ⟨he, rfl, rfl⟩
  | ended => exact ⟨he, rfl, rfl⟩
  | refilled _ hnone => simp [hnone] at he
  | emptied _ hnone => simp [hnone] at he

/-- A feed reads only when it has nothing loaded. -/
theorem pending_eq_nil_or (hf : f.Sound) : f.pending = [] ∨ f.pull.entries = #[] := by
  have hp := hf.pulls
  generalize f.pull = p at hp
  cases hp with
  | loaded => exact .inr rfl
  | ended => exact .inr rfl
  | refilled hpos => exact .inl (by simp [pending, hpos])
  | emptied hpos => exact .inl (by simp [pending, hpos])

@[simp] theorem capacity_pull (f : Feed) : f.pull.feed.capacity = f.capacity := by
  unfold pull refill
  split
  · rfl
  · split
    · rfl
    · simp only
      split <;> rfl

end Feed

end StreamLexer
