import StreamLexer.Proofs.Journal.Phases

/-! What a feed writes into the journal, phase by phase. The reads of a refill gather a chunk or meet the end, what the
refill tells of them settles it, and a pull that hands out no byte leaves nothing to tell but that the lexer is
exhausted. -/
namespace StreamLexer

/-- Where the reads of a refill lead. -/
def Gathered.phase (g : Gathered) : Phase :=
  match g.ending with
  | none => .loading g.bytes.size
  | some .clean => .drained g.bytes.size
  | some (.failure e) => .failed g.bytes.size e

/-- Where a refill leads with what it tells. Before the first byte there is nothing to tell but the failure. -/
def Gathered.left (g : Gathered) : Phase :=
  match g.ending with
  | none => .loading 0
  | some .clean => .settled
  | some (.failure _) => if g.bytes.isEmpty then .warned 0 else .settled

/-- The reads of a refill, one line after the other. -/
theorem path_gather {capacity : Nat} {source : Source} {bytes : Array UInt8} {reads : Journal}
    (h : bytes.size ≤ capacity) :
    ∃ new, (gather capacity source bytes reads).reads.toList = reads.toList ++ new ∧
      Phase.Path capacity (.loading bytes.size) new (gather capacity source bytes reads).phase := by
  fun_induction gather capacity source bytes reads with
  | case1 source bytes reads hlt room rest hr =>
    exact ⟨[.read room (.ok [])], by simp, .single (.nothing hlt)⟩
  | case2 source bytes reads hlt room b bs rest hr ih =>
    have hlen := Source.length_read_le hr
    have hsize : (bytes ++ (b :: bs)).size = bytes.size + (b :: bs).length := by
      simp [← Array.length_toList]
    have hle : bytes.size + (b :: bs).length ≤ capacity := by omega
    obtain ⟨new, hnew, hpath⟩ := ih (by omega)
    rw [hsize] at hpath
    exact ⟨.read room (.ok (b :: bs)) :: new, hnew.trans (by simp), .cons (.bytes (by simp) hle) hpath⟩
  | case3 source bytes reads hlt room e rest hr reads' he ih =>
    obtain ⟨new, hnew, hpath⟩ := ih h
    exact ⟨.read room (.error e) :: new, hnew.trans (by simp [reads']), .cons (.interrupted he) hpath⟩
  | case4 source bytes reads hlt room e rest hr reads' he =>
    exact ⟨[.read room (.error e)], by simp [reads'], .single (.failure (by simpa using he) hlt)⟩
  | case5 source bytes reads => exact ⟨[], by simp, .nil _⟩

/-- A refill that begins behind whole chunks, with what it tells. -/
theorem path_refill (capacity : Nat) (source : Source) :
    Phase.Path capacity (.loading 0) (gather capacity source #[] #[]).entries.toList
      (gather capacity source #[] #[]).left := by
  have hle : (gather capacity source #[] #[]).bytes.size ≤ capacity := size_gather_le (by simp)
  -- a refill that is not full has met the end
  have hfull : (gather capacity source #[] #[]).ending = none →
      (gather capacity source #[] #[]).bytes.size = capacity :=
    fun hnone => Nat.le_antisymm hle (size_gather hnone)
  obtain ⟨new, hnew, hpath⟩ := @path_gather capacity source #[] #[] (Nat.zero_le capacity)
  generalize gather capacity source #[] #[] = g at hnew hpath hfull
  simp only [List.nil_append] at hnew
  subst hnew
  cases hge : g.ending with
  | none =>
    simp only [Gathered.phase, hge, hfull hge] at hpath
    simp only [Gathered.entries, Gathered.left, hge, hfull hge, Array.toList_push]
    exact hpath.append_single .full
  | some ending =>
    cases ending with
    | clean =>
      simp only [Gathered.phase, hge] at hpath
      simp only [Gathered.entries, Gathered.left, hge, Array.toList_push]
      exact hpath.append_single .drained
    | failure e =>
      simp only [Gathered.phase, hge] at hpath
      have hfault := hpath.append_single .fault
      by_cases hempty : g.bytes = #[]
      · simpa [Gathered.entries, Gathered.left, hge, hempty] using hfault
      · have hcut := hfault.append_single (.cut (Array.size_pos_iff.2 hempty))
        simpa [Gathered.entries, Gathered.left, hge, hempty] using hcut

namespace Feed

/-- Where the journal of a feed stands between two pulls. -/
def phase (f : Feed) : Phase := if f.ending.isNone then .loading 0 else .settled

/-- What a pull writes, and where it leads: on with its byte, or to the end of the journal. -/
theorem path_pull {f : Feed} (hf : f.Sound) :
    ∃ q, Phase.Path f.capacity f.phase f.pull.entries.toList q ∧
      (∀ b, f.pull.front = .ok (some b) → q = f.pull.feed.phase) ∧
      ((∀ b, f.pull.front ≠ .ok (some b)) → Phase.Step f.capacity q (.event .exhausted) .ended) := by
  have hp := hf.pulls
  have hrefill := path_refill f.capacity f.source
  generalize f.pull = p at hp
  cases hp with
  | loaded => exact ⟨f.phase, .nil _, fun _ _ => rfl, fun h => absurd rfl (h _)⟩
  | @ended ending _ he =>
    have hphase : f.phase = .settled := by simp [phase, he]
    rw [hphase]
    exact ⟨.settled, .nil _, fun b h => absurd h (ending.front_ne b), fun _ => .exhausted⟩
  | @refilled g _ he hg hlt =>
    have hphase : f.phase = .loading 0 := by simp [phase, he]
    have hne : g.bytes ≠ #[] := Array.size_pos_iff.1 hlt
    rw [hg] at hrefill
    rw [hphase]
    refine ⟨g.left, hrefill, ?_, fun h => absurd rfl (h _)⟩
    intro b _
    cases hge : g.ending with
    | none => simp [Gathered.left, phase, hge]
    | some ending => cases ending <;> simp [Gathered.left, phase, hge, hne]
  | @emptied g ending _ he hg hb hge =>
    have hphase : f.phase = .loading 0 := by simp [phase, he]
    rw [hg] at hrefill
    rw [hphase]
    refine ⟨g.left, hrefill, fun b h => absurd h (ending.front_ne b), ?_⟩
    intro _
    cases ending with
    | clean =>
      simp only [Gathered.left, hge]
      exact .exhausted
    | failure =>
      simp only [Gathered.left, hge, hb]
      exact .lost

end Feed

end StreamLexer
