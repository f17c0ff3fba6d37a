/-
Module: Emblem.Proofs.ReaderStability
Purpose: What is read does not depend on what follows it in a container. Every reader of values takes the
  same value, and as many octets, whether the document ends after them or goes on with a closing mark.
  So a text that is a document of its own can stand in a container.
Main exports: Closes, StableFrom, Stable, Stable.rounds, Stable.exists_space
-/
import Emblem.Json.Record
import Emblem.Proofs.ReaderRuns
import Mathlib.Data.List.TakeWhile

namespace Emblem.Json

open Reader (Takes Reads Refuses)

variable {α β σ : Type}

/-- The octets that end a value in a container, or a name in an object. -/
def closers : List UInt8 :=
  [',', ':', ']', '\x7d'].map octet

/-- Nothing follows, or a closing mark. -/
def Closes (tail : List UInt8) : Prop :=
  ∀ b ∈ tail.head?, b ∈ closers

theorem closes_nil : Closes [] := fun _ head => by cases head

theorem closes_cons {b : UInt8} (closer : b ∈ closers) (rest : List UInt8) : Closes (b :: rest) := by
  intro c head
  cases head
  exact closer

theorem forall_closers {p : UInt8 → Prop} (comma : p (octet ',')) (colon : p (octet ':'))
    (bracket : p (octet ']')) (brace : p (octet '\x7d')) : ∀ b ∈ closers, p b := by
  intro b member
  simp only [closers, List.map_cons, List.map_nil, List.mem_cons, List.not_mem_nil, or_false] at member
  rcases member with rfl | rfl | rfl | rfl
  · exact comma
  · exact colon
  · exact bracket
  · exact brace

/-- From octets of one sort, what a reader takes depends neither on where they stand nor on what follows
a closing mark; it adds no octets, and the value and the octets left are of another sort. -/
def StableFrom (before : List UInt8 → Prop) (r : Reader α) (after : α → List UInt8 → Prop) : Prop :=
  ∀ c a c', before c.rest → r.Takes c a c' → after a c'.rest ∧ c'.rest.length ≤ c.rest.length ∧
    ∀ tail, Closes tail → r.Reads (c.rest ++ tail) a (c'.rest ++ tail)

/-- What a reader takes depends neither on where the octets stand nor on what follows a closing mark. -/
abbrev Stable (r : Reader α) : Prop :=
  StableFrom (fun _ => True) r fun _ _ => True

/-- A reader that takes nothing. -/
def Never (r : Reader α) : Prop :=
  ∀ c a c', ¬r.Takes c a c'

/-! ### Stages -/

section Stages

variable {before before' : List UInt8 → Prop} {r : Reader α} {f : α → Reader β}
variable {middle after' : α → List UInt8 → Prop} {after : β → List UInt8 → Prop}

theorem never_fail (cause : Cause) : Never (fail cause : Reader α) := fun _ _ _ => not_takes_fail

theorem never_failOpen (cause : Cause) : Never (failOpen cause : Reader α) := fun _ _ _ => not_takes_failOpen

theorem never_throw (fault : Fault) : Never (throw fault : Reader α) :=
  fun _ _ _ taken => by cases taken

theorem never_bind_of_never (first : Never r) : Never (r >>= f) := by
  intro c b c' taken
  obtain ⟨a, m, taken, _⟩ := takes_bind_iff.1 taken
  exact first _ _ _ taken

theorem never_bind (last : ∀ a, Never (f a)) : Never (r >>= f) := by
  intro c b c' taken
  obtain ⟨a, m, _, second⟩ := takes_bind_iff.1 taken
  exact last a _ _ _ second

theorem Never.stable {r : Reader β} (never : Never r) : StableFrom before r after :=
  fun c a c' _ taken => absurd taken (never c a c')

theorem stable_fail (cause : Cause) : StableFrom before (fail cause) after :=
  (never_fail cause).stable

theorem stable_failOpen (cause : Cause) : StableFrom before (failOpen cause) after :=
  (never_failOpen cause).stable

theorem StableFrom.weaken {r : Reader β} {after' : β → List UInt8 → Prop} (stable : StableFrom before r after)
    (stronger : ∀ s, before' s → before s) (weaker : ∀ a s, after a s → after' a s) :
    StableFrom before' r after' := by
  intro c a c' here taken
  obtain ⟨reached, shorter, reads⟩ := stable c a c' (stronger _ here) taken
  exact ⟨weaker _ _ reached, shorter, reads⟩

/-- Where nothing is asked for and nothing promised, any reader that is stable does. -/
theorem StableFrom.of_stable {r : Reader β} (stable : Stable r) : StableFrom before r fun _ _ => True :=
  stable.weaken (fun _ _ => trivial) fun _ _ _ => trivial

/-- What is asked for may also be a fact about other things than the octets. -/
theorem stable_of_imp {p : Prop} {r : Reader β} (stable : p → StableFrom (fun _ => True) r after) :
    StableFrom (fun _ => p) r after :=
  fun c b c' known taken => stable known c b c' trivial taken

theorem stable_pure {b : β} (reached : ∀ s, before s → after b s) : StableFrom before (pure b) after := by
  intro c a c' here taken
  obtain ⟨rfl, rfl⟩ := takes_pure_iff.1 taken
  exact ⟨reached _ here, le_refl _, fun tail _ => .pure _ _⟩

theorem StableFrom.bind (first : StableFrom before r middle)
    (second : ∀ a, StableFrom (middle a) (f a) after) : StableFrom before (r >>= f) after := by
  intro c b c' here taken
  obtain ⟨a, m, taken, taken'⟩ := takes_bind_iff.1 taken
  obtain ⟨there, shorter, reads⟩ := first c a m here taken
  obtain ⟨last, shorter', reads'⟩ := second a m b c' there taken'
  exact ⟨last, shorter'.trans shorter, fun tail closes => (reads tail closes).bind (reads' tail closes)⟩

theorem StableFrom.settle (stable : StableFrom before r after') : StableFrom before (settle r) after' := by
  intro c a c' here taken
  obtain ⟨last, shorter, reads⟩ := stable c a c' here (takes_settle_iff.1 taken)
  exact ⟨last, shorter, fun tail closes => (reads tail closes).settle⟩

theorem Stable.enclosed {close : Reader Unit} (contents : Stable r) (mark : Stable close) :
    Stable (enclosed r close) := by
  intro c a c' _ taken
  obtain ⟨m, taken, closed⟩ := takes_enclosed_iff.1 taken
  obtain ⟨_, shorter, reads⟩ := contents c a m trivial taken
  obtain ⟨_, shorter', reads'⟩ := mark m () c' trivial closed
  exact ⟨trivial, shorter'.trans shorter, fun tail closes => (reads tail closes).enclosed (reads' tail closes)⟩

end Stages

/-! ### Single octets and runs of octets -/

section Octets

variable {before : List UInt8 → Prop} {f : Option UInt8 → Reader β} {after : β → List UInt8 → Prop}

/-- What is asked for after the octet that has been looked at: it is the next one. -/
def Ahead (b : UInt8) (s : List UInt8) : Prop :=
  s.head? = some b

theorem Ahead.ne_nil {b : UInt8} {s : List UInt8} (ahead : Ahead b s) : s ≠ [] := by
  rintro rfl
  cases ahead

theorem takes_next_iff {c c' : Cursor} {o : Option UInt8} : Takes next c o c' ↔ c.take = (o, c') := by
  have same : Reader.outcome next c = (.ok c.take.1, c.take.2) := rfl
  rw [Takes, same, Prod.ext_iff, Prod.ext_iff]
  simp

theorem takes_peek_iff {c c' : Cursor} {o : Option UInt8} : Takes peek c o c' ↔ c.look = (o, c') := by
  have same : Reader.outcome peek c = (.ok c.look.1, c.look.2) := rfl
  rw [Takes, same, Prod.ext_iff, Prod.ext_iff]
  simp

theorem takes_takeRun_iff {sort : UInt8 → Bool} {c c' : Cursor} {run : List UInt8} :
    Takes (takeRun sort) c run c' ↔ c.takeWhile sort = (run, c') := by
  have same : Reader.outcome (takeRun sort) c = (.ok (c.takeWhile sort).1, (c.takeWhile sort).2) := rfl
  rw [Takes, same, Prod.ext_iff, Prod.ext_iff]
  simp

/-- An octet is taken, and none that is missing. -/
theorem stable_next_bind (missing : Never (f none)) (there : ∀ b, StableFrom (fun _ => True) (f (some b)) after) :
    StableFrom before (next >>= f) after := by
  intro c b c' _ taken
  obtain ⟨o, m, first, second⟩ := takes_bind_iff.1 taken
  rw [takes_next_iff] at first
  obtain ⟨rest, p, ahead⟩ := c
  cases rest with
  | nil =>
      cases first
      exact absurd second (missing _ _ _)
  | cons u rest =>
      cases first
      obtain ⟨last, shorter, reads⟩ := there u _ b c' trivial second
      exact ⟨last, Nat.le_succ_of_le shorter, fun tail closes => (reads_next u _).bind (reads tail closes)⟩

theorem stable_discard : StableFrom (fun s => s ≠ []) discard fun _ _ => True := by
  rintro ⟨rest, p, ahead⟩ u c' some_octet taken
  cases rest with
  | nil => exact absurd rfl some_octet
  | cons b rest =>
      cases taken
      exact ⟨trivial, Nat.le_succ _, fun tail _ => reads_discard b _⟩

theorem stable_peek_bind (missing : Never (f none)) (there : ∀ b, StableFrom (Ahead b) (f (some b)) after) :
    StableFrom before (peek >>= f) after := by
  intro c b c' _ taken
  obtain ⟨o, m, first, second⟩ := takes_bind_iff.1 taken
  rw [takes_peek_iff] at first
  obtain ⟨rest, p, ahead⟩ := c
  cases rest with
  | nil =>
      cases first
      exact absurd second (missing _ _ _)
  | cons u rest =>
      cases first
      obtain ⟨last, shorter, reads⟩ := there u ⟨u :: rest, p, true⟩ b c' rfl second
      exact ⟨last, shorter, fun tail closes => (reads_peek u _).bind (reads tail closes)⟩

/-- What may end with the document is not continued by a closing mark. -/
theorem stable_peek_bind_open (missing : StableFrom (fun _ => True) (f none) after)
    (there : ∀ b, StableFrom (Ahead b) (f (some b)) after) (ends : ∀ b ∈ closers, f (some b) = f none) :
    StableFrom before (peek >>= f) after := by
  intro c b c' _ taken
  obtain ⟨o, m, first, second⟩ := takes_bind_iff.1 taken
  rw [takes_peek_iff] at first
  obtain ⟨rest, p, ahead⟩ := c
  cases rest with
  | cons u rest =>
      cases first
      obtain ⟨last, shorter, reads⟩ := there u ⟨u :: rest, p, true⟩ b c' rfl second
      exact ⟨last, shorter, fun tail closes => (reads_peek u _).bind (reads tail closes)⟩
  | nil =>
      cases first
      obtain ⟨last, shorter, reads⟩ := missing _ b c' trivial second
      refine ⟨last, shorter, ?_⟩
      intro tail closes
      cases tail with
      | nil => exact reads_peek_nil.bind (reads [] closes)
      | cons u tail =>
          have looked := reads_peek u tail
          refine looked.bind ?_
          rw [ends u (closes u rfl)]
          exact reads (u :: tail) closes

theorem stable_takeRun {sort : UInt8 → Bool} (ends : ∀ b ∈ closers, sort b = false) :
    StableFrom before (takeRun sort) fun _ _ => True := by
  intro c run c' _ taken
  rw [takes_takeRun_iff] at taken
  cases taken
  refine ⟨trivial, (List.dropWhile_suffix sort).length_le, ?_⟩
  intro tail closes
  have split : c.rest ++ tail = c.rest.takeWhile sort ++ (c.rest.dropWhile sort ++ tail) := by
    rw [← List.append_assoc, List.takeWhile_append_dropWhile]
  rw [split]
  refine reads_takeRun ?_ ?_
  · intro b member
    exact List.mem_takeWhile_imp member
  · intro b head
    cases dropped : c.rest.dropWhile sort with
    | nil =>
        rw [dropped] at head
        exact ends b (closes b head)
    | cons u rest =>
        rw [dropped] at head
        cases head
        have first := List.head?_dropWhile_not sort c.rest
        rw [dropped] at first
        exact first

theorem stable_peekPastSpace_bind (missing : Never (f none))
    (there : ∀ b, StableFrom (Ahead b) (f (some b)) after) : StableFrom before (peekPastSpace >>= f) after := by
  unfold peekPastSpace
  rw [bind_assoc]
  exact (stable_takeRun (forall_closers rfl rfl rfl rfl)).bind fun _ => stable_peek_bind missing there

theorem stable_peekValue : StableFrom before peekValue Ahead :=
  stable_peekPastSpace_bind (never_fail _) fun _ => stable_pure fun _ ahead => ahead

theorem stable_discard_bind {r : Reader β} {b : UInt8} (rest : StableFrom (fun _ => True) r after) :
    StableFrom (Ahead b) (do discard; r) after :=
  (stable_discard.weaken (fun _ ahead => ahead.ne_nil) fun _ _ _ => trivial).bind fun _ => rest

/-- What is looked up in the rest of the document must not see past a closing mark. -/
theorem stable_get_bind {γ : Type} {f : Cursor → Reader β} (look : List UInt8 → γ)
    (depends : ∀ c d : Cursor, look c.rest = look d.rest → f c = f d)
    (ends : ∀ s tail, Closes tail → look (s ++ tail) = look s)
    (stable : ∀ c, StableFrom (fun s => look s = look c.rest) (f c) after) :
    StableFrom before (get >>= f) after := by
  intro c b c' _ taken
  obtain ⟨m, m', first, second⟩ := takes_bind_iff.1 taken
  cases first
  obtain ⟨last, shorter, reads⟩ := stable c c b c' rfl second
  refine ⟨last, shorter, ?_⟩
  intro tail closes d here
  obtain ⟨d', left, taken'⟩ := reads tail closes d here
  refine ⟨d', left, takes_bind_iff.2 ⟨d, d, rfl, ?_⟩⟩
  rw [depends d c]
  · exact taken'
  · rw [here, ends _ _ closes]

end Octets

/-! ### Rounds -/

section Rounds

variable {step : σ → Reader (σ ⊕ β)}

/-- More rounds than are needed make no difference. -/
theorem takes_roundsWithin_succ {n : Nat} {s : σ} {c c' : Cursor} {b : β}
    (taken : Takes (roundsWithin step n s) c b c') : Takes (roundsWithin step (n + 1) s) c b c' := by
  induction n generalizing s c with
  | zero => exact absurd taken not_takes_fail
  | succ n ih =>
      obtain ⟨next, m, first, second⟩ := takes_bind_iff.1 taken
      refine takes_bind_iff.2 ⟨next, m, first, ?_⟩
      cases next with
      | inl t => exact ih second
      | inr b => exact second

theorem takes_roundsWithin_mono {n k : Nat} {s : σ} {c c' : Cursor} {b : β} (le : n ≤ k)
    (taken : Takes (roundsWithin step n s) c b c') : Takes (roundsWithin step k s) c b c' := by
  induction le with
  | refl => exact taken
  | step _ ih => exact takes_roundsWithin_succ ih

theorem Stable.roundsWithin (steps : ∀ s, Stable (step s)) (n : Nat) (s : σ) :
    Stable (roundsWithin step n s) := by
  induction n generalizing s with
  | zero => exact stable_fail _
  | succ n ih =>
      refine (steps s).bind fun next => ?_
      cases next with
      | inl t => exact ih t
      | inr b => exact stable_pure fun _ _ => trivial

/-- Rounds of a stable step are stable. -/
theorem Stable.rounds (steps : ∀ s, Stable (step s)) (s : σ) : Stable (rounds step s) := by
  -- The rounds are counted by what is left to read, of which there is more when something follows.
  intro c b c' _ taken
  obtain ⟨_, _, first, within⟩ := takes_bind_iff.1 taken
  cases first
  obtain ⟨_, shorter, reads⟩ := Stable.roundsWithin steps _ s c b c' trivial within
  refine ⟨trivial, shorter, ?_⟩
  intro tail closes d here
  obtain ⟨d', left, taken'⟩ := reads tail closes d here
  refine ⟨d', left, takes_bind_iff.2 ⟨d, d, rfl, takes_roundsWithin_mono ?_ taken'⟩⟩
  rw [here, List.length_append]
  omega

end Rounds

/-! ### Documents -/

section Documents

variable {r : Reader α} {octets space : List UInt8} {a : α}

theorem reads_readEnd (blank : Blank space) : Reads readEnd space () [] :=
  (reads_peekPastSpace_end blank).bind (.pure () [])

/-- Past the space, the octet that is looked at is the next one. -/
theorem exists_space_of_takes_peekValue {c c' : Cursor} {b : UInt8} (taken : Takes peekValue c b c') :
    ∃ space rest, Blank space ∧ c.rest = space ++ b :: rest ∧ c'.rest = b :: rest := by
  obtain ⟨o, m, looked, found⟩ := takes_bind_iff.1 taken
  obtain ⟨run, m', ran, peeked⟩ := takes_bind_iff.1 looked
  cases o with
  | none => exact absurd found not_takes_fail
  | some u =>
      obtain ⟨rfl, rfl⟩ := takes_pure_iff.1 found
      rw [takes_takeRun_iff] at ran
      rw [takes_peek_iff] at peeked
      cases ran
      cases dropped : c.rest.dropWhile isSpace with
      | nil =>
          simp only [Cursor.look, dropped] at peeked
          cases peeked
      | cons v rest =>
          simp only [Cursor.look, dropped] at peeked
          cases peeked
          refine ⟨c.rest.takeWhile isSpace, rest, fun _ member => List.mem_takeWhile_imp member, ?_, rfl⟩
          rw [← dropped, List.takeWhile_append_dropWhile]

/-- Before the end of a document there is only space. -/
theorem blank_of_takes_readEnd {c c' : Cursor} (taken : Takes readEnd c () c') : Blank c.rest := by
  obtain ⟨o, m, looked, ended⟩ := takes_bind_iff.1 taken
  obtain ⟨run, m', ran, peeked⟩ := takes_bind_iff.1 looked
  cases o with
  | some b => exact absurd ended not_takes_fail
  | none =>
      rw [takes_takeRun_iff] at ran
      rw [takes_peek_iff] at peeked
      cases ran
      have left : c.rest.dropWhile isSpace = [] := by
        cases dropped : c.rest.dropWhile isSpace with
        | nil => rfl
        | cons b rest =>
            simp only [Cursor.look, dropped] at peeked
            cases peeked
      exact List.dropWhile_eq_nil_iff.1 left

/-- What is taken from the octets up to space is their value as a document. -/
theorem document_of_reads (reads : r.Reads octets a space) (blank : Blank space) :
    r.document octets = .ok a := by
  have whole : Reads (do let a ← r; readEnd; return a) octets a [] :=
    reads.bind ((reads_readEnd blank).bind (.pure a []))
  obtain ⟨c', _, taken⟩ := whole (.start octets) rfl
  exact (Prod.ext_iff.1 taken).1

/-- A document of a stable reader can stand before any closing mark. -/
theorem Stable.exists_space (stable : Stable r) (document : r.document octets = .ok a) :
    ∃ space, Blank space ∧ space.length ≤ octets.length ∧
      ∀ tail, Closes tail → r.Reads (octets ++ tail) a (space ++ tail) := by
  have taken : Takes (do let a ← r; readEnd; return a) (.start octets) a
      (Reader.outcome (do let a ← r; readEnd; return a) (.start octets)).2 :=
    Prod.ext document rfl
  obtain ⟨a', m, first, second⟩ := takes_bind_iff.1 taken
  obtain ⟨_, m', ended, last⟩ := takes_bind_iff.1 second
  obtain ⟨rfl, _⟩ := takes_pure_iff.1 last
  exact ⟨m.rest, blank_of_takes_readEnd ended, (stable _ _ _ trivial first).2⟩

/-- What is made of a value is read where the value is. -/
theorem Stable.document_map (stable : Stable r) (document : r.document octets = .ok a) (f : α → β) :
    Reader.document (return f (← r)) octets = .ok (f a) := by
  obtain ⟨space, blank, _, reads⟩ := stable.exists_space document
  have whole := reads [] closes_nil
  rw [List.append_nil, List.append_nil] at whole
  exact document_of_reads (whole.bind (.pure _ _)) blank

theorem document_of_refuses (refuses : r.Refuses octets) : ∃ f, r.document octets = .error f := by
  obtain ⟨f, c', refused⟩ := Refuses.bind (f := fun a => do readEnd; return a) refuses (.start octets) rfl
  exact ⟨f, (Prod.ext_iff.1 refused).1⟩

end Documents

end Emblem.Json
