import Mathlib.Algebra.GroupWithZero.Nat
import Mathlib.Data.List.Basic
import StreamLexer.Proofs.Feed.Pull

/-! The order in which a lexer may write its journal. A chunk is gathered read by read and told when it is full; a
read that brings nothing or fails is told with what was gathered before it; from then on there is nothing to tell but
tokens and, once, that the lexer is exhausted. All that is known of the counts in a journal and of what stands next to
what follows from this order. -/
namespace StreamLexer

deriving instance DecidableEq for Entry

theorem Entry.event?_eq_some_iff {e : Entry} {event : Event} : e.event? = some event ↔ e = .event event := by
  cases e <;> simp [event?]

/-- Lines of a journal. -/
abbrev Log := List Entry

namespace Event

/-- The bytes of a refill, and whether a read that brought nothing ended it. -/
def refill? : Event → Option (Nat × Bool)
  | refilled bytes drained => some (bytes, drained)
  | _ => none

theorem refill?_eq_some_iff {e : Event} {bytes : Nat} {drained : Bool} :
    e.refill? = some (bytes, drained) ↔ e = .refilled bytes drained := by
  cases e <;> simp [refill?]

def token? : Event → Option Token
  | token t => some t
  | _ => none

/-- A failure, and how many bytes were gathered before it. -/
def fault? : Event → Option (IoError × Nat)
  | fault e buffered => some (e, buffered)
  | _ => none

end Event

namespace Log

def events (log : Log) : List Event := log.filterMap Entry.event?

def rooms (log : Log) : List Nat := log.filterMap Entry.room?

def delivered (log : Log) : List UInt8 := log.flatMap Entry.delivered

def refills (log : Log) : List (Nat × Bool) := log.events.filterMap Event.refill?

def faults (log : Log) : List (IoError × Nat) := log.events.filterMap Event.fault?

def tokens (log : Log) : List Token := log.events.filterMap Event.token?

/-- The bytes that the refills tell of, all together. -/
def loaded (log : Log) : Nat := (log.refills.map Prod.fst).sum

theorem events_append (log later : Log) : events (log ++ later) = log.events ++ later.events := List.filterMap_append

theorem delivered_append (log later : Log) : delivered (log ++ later) = log.delivered ++ later.delivered :=
  List.flatMap_append

theorem refills_append (log later : Log) : refills (log ++ later) = log.refills ++ later.refills := by
  rw [refills, events_append, List.filterMap_append, refills, refills]

theorem faults_append (log later : Log) : faults (log ++ later) = log.faults ++ later.faults := by
  rw [faults, events_append, List.filterMap_append, faults, faults]

theorem tokens_append (log later : Log) : tokens (log ++ later) = log.tokens ++ later.tokens := by
  rw [tokens, events_append, List.filterMap_append, tokens, tokens]

theorem loaded_append (log later : Log) : loaded (log ++ later) = log.loaded + later.loaded := by
  rw [loaded, refills_append, List.map_append, List.sum_append, loaded, loaded]

theorem mem_refills {log : Log} {bytes : Nat} {drained : Bool} :
    (bytes, drained) ∈ log.refills ↔ .event (.refilled bytes drained) ∈ log := by
  simp [refills, events, Event.refill?_eq_some_iff, Entry.event?_eq_some_iff]

theorem refills_eq_nil {log : Log} (h : ∀ e ∈ log, ∀ bytes drained, e ≠ .event (.refilled bytes drained)) :
    log.refills = [] := by
  rw [List.eq_nil_iff_forall_not_mem]
  rintro ⟨bytes, drained⟩ hmem
  exact h _ (mem_refills.1 hmem) bytes drained rfl

theorem faults_eq_nil {log : Log} (h : ∀ e ∈ log, faults [e] = []) : log.faults = [] := by
  induction log with
  | nil => rfl
  | cons e log ih =>
    obtain ⟨he, hlog⟩ := List.forall_mem_cons.1 h
    have happ := faults_append [e] log
    rwa [he, ih hlog] at happ

end Log

/-- What has been read and not been told yet. -/
inductive Phase where
  /-- So many bytes of a chunk are gathered. -/
  | loading (gathered : Nat)
  /-- A read brought nothing. -/
  | drained (gathered : Nat)
  /-- A read failed, and need not be made again. -/
  | failed (gathered : Nat) (error : IoError)
  /-- The failure is told, and the bytes gathered before it are not. -/
  | warned (gathered : Nat)
  /-- All is told but that the lexer is exhausted. -/
  | settled
  | ended
  deriving DecidableEq

namespace Phase

/-- The bytes that are gathered and not told. -/
def gathered : Phase → Nat
  | loading n => n
  | drained n => n
  | failed n _ => n
  | warned n => n
  | settled => 0
  | ended => 0

/-- Where a journal stands between two moves of a lexer. -/
def IsResting : Phase → Prop
  | loading n => n = 0
  | drained _ => False
  | failed _ _ => False
  | warned _ => False
  | settled => True
  | ended => True

/-- A chunk that the end is met in is not full. -/
def Fits (chunk : Nat) : Phase → Prop
  | loading n => n ≤ chunk
  | drained n => n < chunk
  | failed n _ => n < chunk
  | warned n => n < chunk
  | settled => True
  | ended => True

/-- No read and no failure is to come. -/
def IsClosed : Phase → Prop
  | loading _ => False
  | drained _ => False
  | failed _ _ => False
  | warned _ => True
  | settled => True
  | ended => True

/-- No refill is to be told. -/
def IsTold : Phase → Prop
  | loading _ => False
  | drained _ => False
  | failed _ _ => False
  | warned _ => False
  | settled => True
  | ended => True

theorem gathered_of_isResting (p : Phase) (h : p.IsResting) : p.gathered = 0 := by
  cases p with
  | loading => exact h
  | settled => rfl
  | ended => rfl
  | _ => exact h.elim

/-- One line of the journal. -/
inductive Step (chunk : Nat) : Phase → Entry → Phase → Prop
  | bytes {n room : Nat} {bytes : List UInt8} (hne : bytes ≠ []) (hle : n + bytes.length ≤ chunk) :
      Step chunk (loading n) (.read room (.ok bytes)) (loading (n + bytes.length))
  | interrupted {n room : Nat} {e : IoError} (he : e.isInterrupted = true) :
      Step chunk (loading n) (.read room (.error e)) (loading n)
  | full : Step chunk (loading chunk) (.event (.refilled chunk false)) (loading 0)
  | nothing {n room : Nat} (hlt : n < chunk) : Step chunk (loading n) (.read room (.ok [])) (drained n)
  | drained {n : Nat} : Step chunk (drained n) (.event (.refilled n true)) settled
  | failure {n room : Nat} {e : IoError} (he : e.isInterrupted = false) (hlt : n < chunk) :
      Step chunk (loading n) (.read room (.error e)) (failed n e)
  | fault {n : Nat} {e : IoError} : Step chunk (failed n e) (.event (.fault e n)) (warned n)
  | cut {n : Nat} (hpos : 0 < n) : Step chunk (warned n) (.event (.refilled n false)) settled
  | lost : Step chunk (warned 0) (.event .exhausted) ended
  | exhausted : Step chunk settled (.event .exhausted) ended
  | token {p : Phase} (hp : p.IsResting) (t : Token) : Step chunk p (.event (.token t)) p

/-- The lines between two phases. -/
inductive Path (chunk : Nat) : Phase → Log → Phase → Prop
  | nil (p : Phase) : Path chunk p [] p
  | cons {p q r : Phase} {e : Entry} {log : Log} (h : Step chunk p e q) (tail : Path chunk q log r) :
      Path chunk p (e :: log) r

variable {chunk : Nat} {p q r : Phase} {e : Entry} {log later : Log}

theorem Path.single (h : Step chunk p e q) : Path chunk p [e] q := .cons h (.nil q)

theorem Path.append (h : Path chunk p log q) (h' : Path chunk q later r) : Path chunk p (log ++ later) r := by
  induction h with
  | nil => exact h'
  | cons hs _ ih => exact .cons hs (ih h')

theorem Path.split (h : Path chunk p (log ++ later) r) : ∃ q, Path chunk p log q ∧ Path chunk q later r := by
  induction log generalizing p with
  | nil => exact ⟨p, .nil p, h⟩
  | cons e log ih =>
    cases h with
    | cons hs tail =>
      obtain ⟨q, hlog, hlater⟩ := ih tail
      exact ⟨q, .cons hs hlog, hlater⟩

/-- The line at some place, with what stands before and behind it. -/
theorem Path.split_at (h : Path chunk p (log ++ e :: later) r) :
    ∃ q q', Path chunk p log q ∧ Step chunk q e q' ∧ Path chunk q' later r := by
  obtain ⟨q, hlog, hrest⟩ := h.split
  cases hrest with
  | cons hs hlater => exact ⟨q, _, hlog, hs, hlater⟩

theorem Path.append_single (h : Path chunk p log q) (hs : Step chunk q e r) : Path chunk p (log ++ [e]) r :=
  h.append (.single hs)

/-! What holds all along a journal. -/

/-- What one line preserves the whole journal preserves, and what it says of its line is true of all lines. -/
theorem Path.preserves {P : Phase → Prop} {Q : Entry → Prop}
    (hstep : ∀ {p q : Phase} {e : Entry}, Step chunk p e q → P p → Q e ∧ P q) (h : Path chunk p log q) (hp : P p) :
    (∀ e ∈ log, Q e) ∧ P q := by
  induction h with
  | nil => exact ⟨by simp, hp⟩
  | cons hs _ ih =>
    obtain ⟨he, hq⟩ := hstep hs hp
    obtain ⟨hlog, hr⟩ := ih hq
    exact ⟨List.forall_mem_cons.2 ⟨he, hlog⟩, hr⟩

/-- No refill tells of more than a chunk. -/
theorem Step.fits (h : Step chunk p e q) (hp : p.Fits chunk) :
    (∀ bytes drained, e = .event (.refilled bytes drained) → bytes ≤ chunk) ∧ q.Fits chunk := by
  cases h with
  | bytes _ hle => exact ⟨nofun, hle⟩
  | interrupted => exact ⟨nofun, hp⟩
  | full => exact ⟨by rintro _ _ ⟨⟩; exact Nat.le_refl chunk, Nat.zero_le chunk⟩
  | nothing hlt => exact ⟨nofun, hlt⟩
  | drained => exact ⟨by rintro _ _ ⟨⟩; exact Nat.le_of_lt hp, trivial⟩
  | failure _ hlt => exact ⟨nofun, hlt⟩
  | fault => exact ⟨nofun, hp⟩
  | cut => exact ⟨by rintro _ _ ⟨⟩; exact Nat.le_of_lt hp, trivial⟩
  | lost => exact ⟨nofun, trivial⟩
  | exhausted => exact ⟨nofun, trivial⟩
  | token => exact ⟨nofun, hp⟩

/-- Once all refills are told there is none. -/
theorem Step.isTold (h : Step chunk p e q) (hp : p.IsTold) :
    (∀ bytes drained, e ≠ .event (.refilled bytes drained)) ∧ q.IsTold := by
  cases h with
  | exhausted => exact ⟨nofun, trivial⟩
  | token => exact ⟨nofun, hp⟩
  | _ => exact hp.elim

/-- Once a failure is told there is no read and no other failure. -/
theorem Step.isClosed (h : Step chunk p e q) (hp : p.IsClosed) :
    (e.room? = none ∧ Log.faults [e] = []) ∧ q.IsClosed := by
  cases h with
  | cut => exact ⟨⟨rfl, rfl⟩, trivial⟩
  | lost => exact ⟨⟨rfl, rfl⟩, trivial⟩
  | exhausted => exact ⟨⟨rfl, rfl⟩, trivial⟩
  | token => exact ⟨⟨rfl, rfl⟩, hp⟩
  | _ => exact hp.elim

/-- What is delivered is gathered until it is told. -/
theorem Step.balance (h : Step chunk p e q) :
    p.gathered + (Log.delivered [e]).length = Log.loaded [e] + q.gathered := by
  cases h <;> simp [Log.delivered, Log.loaded, Log.refills, Log.events, List.filterMap_cons, Entry.delivered,
    Entry.event?, Event.refill?, gathered]

theorem Path.balance (h : Path chunk p log q) : p.gathered + log.delivered.length = log.loaded + q.gathered := by
  induction h with
  | nil => simp [Log.delivered, Log.loaded, Log.refills, Log.events]
  | @cons p q r e log hs _ ih =>
    have hstep := hs.balance
    have hdelivered := congrArg List.length (Log.delivered_append [e] log)
    have hloaded := Log.loaded_append [e] log
    rw [List.length_append] at hdelivered
    simp only [List.singleton_append] at hdelivered hloaded
    omega

theorem Path.refills_of_isTold (h : Path chunk p log q) (hp : p.IsTold) : log.refills = [] :=
  Log.refills_eq_nil (h.preserves Step.isTold hp).1

theorem Path.rooms_of_isClosed (h : Path chunk p log q) (hp : p.IsClosed) : log.rooms = [] := by
  rw [Log.rooms, List.filterMap_eq_nil_iff]
  intro e he
  exact ((h.preserves Step.isClosed hp).1 e he).1

theorem Path.faults_of_isClosed (h : Path chunk p log q) (hp : p.IsClosed) : log.faults = [] := by
  apply Log.faults_eq_nil
  intro e he
  exact ((h.preserves Step.isClosed hp).1 e he).2

/-- Refills tell of full chunks, and at most one of what the end has left of a chunk. -/
theorem Path.refills_eq (h : Path chunk p log q) :
    ∃ k last, log.refills = List.replicate k (chunk, false) ++ last ∧ last.length ≤ 1 ∧ (¬ q.IsTold → last = []) := by
  induction h with
  | nil => exact ⟨0, [], rfl, by simp, fun _ => rfl⟩
  | @cons p q r e log hs tail ih =>
    have happ := Log.refills_append [e] log
    obtain ⟨k, last, hlog, hlast, htold⟩ := ih
    -- a refill that meets the end is the last one, so that only full chunks stand before another
    have hcut : ∀ x, q.IsTold → Log.refills [e] = [x] →
        ∃ k last, Log.refills (e :: log) = List.replicate k (chunk, false) ++ last ∧ last.length ≤ 1 ∧
          (¬ r.IsTold → last = []) := by
      intro x hq hx
      rw [hx, tail.refills_of_isTold hq] at happ
      exact ⟨0, [x], happ, by simp, fun hr => absurd (tail.preserves Step.isTold hq).2 hr⟩
    cases hs with
    | full => exact ⟨k + 1, last, happ.trans (by rw [hlog]; rfl), hlast, htold⟩
    | drained => exact hcut _ trivial rfl
    | cut => exact hcut _ trivial rfl
    | _ => exact ⟨k, last, happ.trans (by rw [hlog]; rfl), hlast, htold⟩

theorem Path.refills_dropLast (h : Path chunk p log q) : ∀ r ∈ log.refills.dropLast, r = (chunk, false) := by
  obtain ⟨k, last, hlog, hlast, -⟩ := h.refills_eq
  intro r hr
  rw [hlog] at hr
  cases last with
  | nil =>
    rw [List.append_nil] at hr
    exact List.eq_of_mem_replicate (List.dropLast_subset _ hr)
  | cons x last =>
    have hnil : last = [] := by simpa using hlast
    rw [hnil, List.dropLast_concat] at hr
    exact List.eq_of_mem_replicate hr

theorem Path.refills_le (h : Path chunk p log q) (hp : p.Fits chunk) : ∀ r ∈ log.refills, r.1 ≤ chunk := by
  rintro ⟨bytes, drained⟩ hr
  exact (h.preserves Step.fits hp).1 _ (Log.mem_refills.1 hr) bytes drained rfl

theorem Path.length_faults_le (h : Path chunk p log q) : log.faults.length ≤ 1 := by
  induction h with
  | nil => simp [Log.faults, Log.events]
  | @cons p q r e log hs tail ih =>
    have happ := Log.faults_append [e] log
    cases hs with
    | fault =>
      rw [tail.faults_of_isClosed trivial] at happ
      exact Nat.le_of_eq (congrArg List.length happ)
    | _ => exact ih

theorem Step.count_exhausted (h : Step chunk p e q) :
    (Log.events [e]).count .exhausted + (if p = ended then 1 else 0) = if q = ended then 1 else 0 := by
  cases h <;> simp [Log.events, List.filterMap_cons, Entry.event?]

/-- The lexer is told to be exhausted once, and then nothing is left. -/
theorem Path.count_exhausted (h : Path chunk p log q) :
    log.events.count .exhausted + (if p = ended then 1 else 0) = if q = ended then 1 else 0 := by
  induction h with
  | nil => simp [Log.events]
  | @cons p q r e log hs _ ih =>
    have hstep := hs.count_exhausted
    have happ := Log.events_append [e] log
    simp only [List.singleton_append] at happ
    rw [happ, List.count_append]
    omega

theorem Path.eq_ended (h : Path chunk p log q) (hp : p = ended) : q = ended := by
  have hcount := h.count_exhausted
  by_contra hq
  rw [if_pos hp, if_neg hq] at hcount
  cases hcount

theorem Path.mem_exhausted_iff (h : Path chunk p log q) : .exhausted ∈ log.events ↔ p ≠ ended ∧ q = ended := by
  have hcount := h.count_exhausted
  rw [← List.count_pos_iff]
  generalize log.events.count .exhausted = k at hcount
  by_cases hp : p = ended
  · rw [if_pos hp, if_pos (h.eq_ended hp)] at hcount
    simp only [hp, ne_eq, not_true, false_and, iff_false]
    omega
  · rw [if_neg hp, Nat.add_zero] at hcount
    rw [hcount]
    split_ifs with hq <;> simp [hp, hq]

/-! What stands next to what. -/

/-- A read that brings nothing is told next, and nothing else is told so. -/
theorem Path.nothing_iff (h : Path chunk p log q) (hp : ∀ n, p ≠ drained n) :
    (∃ room, log.getLast? = some (.read room (.ok []))) ↔ ∃ n, q = drained n := by
  obtain rfl | ⟨log, e, rfl⟩ := log.eq_nil_or_concat
  · cases h
    simp [hp]
  · rw [List.concat_eq_append] at h ⊢
    obtain ⟨q', r, -, hs, hnil⟩ := h.split_at
    cases hnil
    rw [List.getLast?_concat]
    constructor
    · rintro ⟨room, ⟨⟩⟩
      cases hs with
      | bytes hne => exact absurd rfl hne
      | nothing => exact ⟨_, rfl⟩
    · rintro ⟨n, rfl⟩
      cases hs with
      | nothing => exact ⟨_, rfl⟩
      | token hp => exact hp.elim

theorem Path.drained_iff {bytes : Nat} {drained : Bool}
    (h : Path chunk (loading 0) (log ++ .event (.refilled bytes drained) :: later) r) :
    drained = true ↔ ∃ room, log.getLast? = some (.read room (.ok [])) := by
  obtain ⟨q, q', hlog, hs, -⟩ := h.split_at
  rw [hlog.nothing_iff nofun]
  cases hs <;> simp

/-- A read that brings nothing is told as one that drained its refill. -/
theorem Path.nothing_told {room : Nat} (h : Path chunk p (log ++ .read room (.ok []) :: later) r) (hr : r.IsResting) :
    ∃ bytes, later.head? = some (.event (.refilled bytes true)) := by
  obtain ⟨q, q', -, hs, hlater⟩ := h.split_at
  cases hs with
  | bytes hne => exact absurd rfl hne
  | nothing =>
    cases hlater with
    | nil => exact hr.elim
    | cons hs =>
      cases hs with
      | drained => exact ⟨_, rfl⟩
      | token hp => exact hp.elim

theorem Path.failure_told {room : Nat} {error : IoError}
    (h : Path chunk p (log ++ .read room (.error error) :: later) r) (hr : r.IsResting)
    (herror : error.isInterrupted = false) : ∃ buffered, later.head? = some (.event (.fault error buffered)) := by
  obtain ⟨q, q', -, hs, hlater⟩ := h.split_at
  cases hs with
  | interrupted he => simp [herror] at he
  | failure =>
    cases hlater with
    | nil => exact hr.elim
    | cons hs =>
      cases hs with
      | fault => exact ⟨_, rfl⟩
      | token hp => exact hp.elim

/-- Only a read that failed makes a failure to be told. -/
theorem Path.getLast_of_failed {n : Nat} {error : IoError} (h : Path chunk (loading 0) log (failed n error)) :
    ∃ room, log.getLast? = some (.read room (.error error)) := by
  obtain rfl | ⟨log, e, rfl⟩ := log.eq_nil_or_concat
  · cases h
  · rw [List.concat_eq_append] at h ⊢
    obtain ⟨q, q', -, hs, hnil⟩ := h.split_at
    cases hnil
    rw [List.getLast?_concat]
    cases hs with
    | failure => exact ⟨_, rfl⟩
    | token hp => exact hp.elim

/-- A failure is told right behind the read that met it, with the bytes of its chunk, and the journal is closed behind
it. -/
theorem Path.fault_at {error : IoError} {buffered : Nat}
    (h : Path chunk (loading 0) (log ++ .event (.fault error buffered) :: later) r) :
    (∃ room, log.getLast? = some (.read room (.error error))) ∧ buffered = log.delivered.length % chunk ∧
      Path chunk (warned buffered) later r := by
  obtain ⟨q, q', hlog, hs, hlater⟩ := h.split_at
  cases hs
  refine ⟨hlog.getLast_of_failed, ?_, hlater⟩
  -- up to here all refills were full, so that what is gathered is what whole chunks leave of the bytes
  have hlt : buffered < chunk := (hlog.preserves Step.fits (Nat.zero_le chunk)).2
  have hbalance := hlog.balance
  obtain ⟨k, last, hrefills, -, hlast⟩ := hlog.refills_eq
  have hloaded : log.loaded = k * chunk := by
    rw [Log.loaded, hrefills, hlast id, List.append_nil, List.map_replicate, List.sum_replicate_nat]
  simp only [gathered, Nat.zero_add] at hbalance
  rw [hbalance, hloaded, Nat.mul_add_mod_self_right, Nat.mod_eq_of_lt hlt]

/-- Behind a failure the bytes gathered before it are told, if there are any, and nothing is read or refilled any
more. -/
theorem Path.of_warned {n : Nat} (h : Path chunk (warned n) log q) (hq : q.IsResting) :
    log.head? = some (.event (if n = 0 then .exhausted else .refilled n false)) ∧ log.rooms = [] ∧
      Log.refills log.tail = [] := by
  refine ⟨?_, h.rooms_of_isClosed trivial, ?_⟩
  · cases h with
    | nil => exact hq.elim
    | cons hs =>
      cases hs with
      | cut hpos => simp [Nat.ne_of_gt hpos]
      | lost => rfl
      | token hp => exact hp.elim
  · cases h with
    | nil => rfl
    | cons hs tail =>
      cases hs with
      | cut => exact tail.refills_of_isTold trivial
      | lost => exact tail.refills_of_isTold trivial
      | token hp => exact hp.elim

end Phase

end StreamLexer
