/-
Module: Emblem.Proofs.ReaderRuns
Purpose: What readers do with octets, wherever in a document these stand: a reader takes a value from the
  front of them and leaves the others, or refuses. Rounds take a value in so many steps that each leave
  fewer octets.
Main exports: Blank, Reader.Takes, Reader.Reads, Reader.Refuses, Reads.bind, Walks, Walks.reads,
  Walks.refuses
-/
import Emblem.Json.Reader

namespace Emblem.Json

variable {α β σ : Type}

/-- Octets that may stand between values. -/
def Blank (octets : List UInt8) : Prop :=
  ∀ b ∈ octets, isSpace b

@[simp] theorem blank_nil : Blank [] := fun _ member => by cases member

namespace Reader

/-- What a reader comes to, and where. -/
def outcome (r : Reader α) (c : Cursor) : Except Fault α × Cursor :=
  r.run.run c

/-- From one cursor the reader takes a value and comes to another cursor. -/
def Takes (r : Reader α) (c : Cursor) (a : α) (c' : Cursor) : Prop :=
  r.outcome c = (.ok a, c')

/-- From these octets the reader takes a value and leaves those, wherever they stand. -/
def Reads (r : Reader α) (octets : List UInt8) (a : α) (left : List UInt8) : Prop :=
  ∀ c : Cursor, c.rest = octets → ∃ c', c'.rest = left ∧ r.Takes c a c'

/-- From these octets the reader takes no value, wherever they stand. -/
def Refuses (r : Reader α) (octets : List UInt8) : Prop :=
  ∀ c : Cursor, c.rest = octets → ∃ f c', r.outcome c = (.error f, c')

end Reader

open Reader (Takes Reads Refuses)

/-! ### Stages -/

theorem outcome_bind (r : Reader α) (f : α → Reader β) (c : Cursor) :
    (r >>= f).outcome c =
      match r.outcome c with
      | (.ok a, c') => (f a).outcome c'
      | (.error e, c') => (.error e, c') := by
  unfold Reader.outcome
  rw [ExceptT.run_bind, StateT.run_bind]
  obtain ⟨result, c'⟩ := r.run.run c
  cases result <;> rfl

section Stages

variable {r : Reader α} {f : α → Reader β} {c c' : Cursor} {a : α} {b : β}
variable {octets middle left : List UInt8}

@[simp] theorem takes_pure_iff {a' : α} : Takes (pure a) c a' c' ↔ a = a' ∧ c = c' := by
  unfold Takes
  have same : Reader.outcome (pure a) c = (.ok a, c) := rfl
  rw [same]
  simp

@[simp] theorem takes_bind_iff :
    Takes (r >>= f) c b c' ↔ ∃ a m, Takes r c a m ∧ Takes (f a) m b c' := by
  unfold Takes
  rw [outcome_bind]
  constructor
  · intro taken
    split at taken
    case h_1 a m first => exact ⟨a, m, first, taken⟩
    case h_2 => cases taken
  · rintro ⟨a, m, first, second⟩
    rw [first]
    exact second

@[simp] theorem not_takes_fail {cause : Cause} : ¬Takes (fail cause : Reader α) c a c' :=
  fun taken => by cases taken

@[simp] theorem not_takes_failOpen {cause : Cause} : ¬Takes (failOpen cause : Reader α) c a c' :=
  fun taken => by cases taken

theorem Reader.Reads.pure (a : α) (octets : List UInt8) : Reads (Pure.pure a) octets a octets :=
  fun c here => ⟨c, here, rfl⟩

theorem Reader.Reads.bind (first : r.Reads octets a middle) (second : (f a).Reads middle b left) :
    Reads (r >>= f) octets b left := by
  intro c here
  obtain ⟨m, there, taken⟩ := first c here
  obtain ⟨c', last, taken'⟩ := second m there
  exact ⟨c', last, takes_bind_iff.2 ⟨a, m, taken, taken'⟩⟩

theorem refuses_failOpen (cause : Cause) (octets : List UInt8) :
    Refuses (failOpen cause : Reader α) octets :=
  fun _ _ => ⟨_, _, rfl⟩

theorem Reader.Refuses.bind (first : r.Refuses octets) : Refuses (r >>= f) octets := by
  intro c here
  obtain ⟨e, c', refused⟩ := first c here
  exact ⟨e, c', by rw [outcome_bind, refused]⟩

/-- A reader refuses also what its first stage takes, if the second one refuses the rest. -/
theorem Reader.Reads.refuses_bind (first : r.Reads octets a middle) (second : (f a).Refuses middle) :
    Refuses (r >>= f) octets := by
  intro c here
  obtain ⟨m, there, taken⟩ := first c here
  obtain ⟨e, c', refused⟩ := second m there
  refine ⟨e, c', ?_⟩
  rw [outcome_bind, taken]
  exact refused

end Stages

/-! ### Single octets and runs of octets -/

theorem reads_next (b : UInt8) (rest : List UInt8) : Reads next (b :: rest) (some b) rest := by
  rintro ⟨_, p, ahead⟩ rfl
  exact ⟨_, rfl, rfl⟩

theorem reads_peek (b : UInt8) (rest : List UInt8) : Reads peek (b :: rest) (some b) (b :: rest) := by
  rintro ⟨_, p, ahead⟩ rfl
  exact ⟨_, rfl, rfl⟩

theorem reads_peek_nil : Reads peek [] none [] := by
  rintro ⟨_, p, ahead⟩ rfl
  exact ⟨_, rfl, rfl⟩

theorem reads_discard (b : UInt8) (rest : List UInt8) : Reads discard (b :: rest) () rest :=
  (reads_next b rest).bind (.pure _ _)

theorem reads_takeRun {sort : UInt8 → Bool} {run rest : List UInt8} (inside : ∀ b ∈ run, sort b)
    (outside : ∀ b ∈ rest.head?, sort b = false) : Reads (takeRun sort) (run ++ rest) run rest := by
  have taken : (run ++ rest).takeWhile sort = run := by
    rw [List.takeWhile_append_of_pos inside]
    cases rest with
    | nil => simp
    | cons b rest => simp [outside b rfl]
  have left : (run ++ rest).dropWhile sort = rest := by
    rw [List.dropWhile_append_of_pos inside]
    cases rest with
    | nil => simp
    | cons b rest => simp [outside b rfl]
  intro c here
  have ran : (takeRun sort).outcome c = (.ok (c.takeWhile sort).1, (c.takeWhile sort).2) := rfl
  rw [← here] at taken left
  refine ⟨(c.takeWhile sort).2, left, ?_⟩
  have value : (c.takeWhile sort).1 = run := taken
  rw [Takes, ran, value]

section Space

variable {space rest : List UInt8} {b : UInt8} (blank : Blank space)

include blank

theorem reads_peekPastSpace (solid : isSpace b = false) :
    Reads peekPastSpace (space ++ b :: rest) (some b) (b :: rest) := by
  refine (reads_takeRun blank ?_).bind (reads_peek b rest)
  intro c head
  cases head
  exact solid

theorem reads_peekPastSpace_end : Reads peekPastSpace space none [] := by
  have run : Reads (takeRun isSpace) (space ++ []) space [] :=
    reads_takeRun blank fun _ head => by cases head
  rw [List.append_nil] at run
  exact run.bind reads_peek_nil

theorem reads_peekValue (solid : isSpace b = false) :
    Reads peekValue (space ++ b :: rest) b (b :: rest) :=
  (reads_peekPastSpace blank solid).bind (.pure _ _)

theorem reads_readColon : Reads readColon (space ++ octet ':' :: rest) () rest :=
  (reads_peekPastSpace blank (by decide)).bind (reads_discard _ _)

end Space

/-! ### Faults that are held back -/

section Captured

variable {r : Reader α} {close : Reader Unit} {c c' : Cursor} {a : α}
variable {octets middle left : List UInt8}

theorem outcome_capture (r : Reader α) (c : Cursor) :
    (capture r).outcome c = (.ok (r.outcome c).1, (r.outcome c).2) := rfl

theorem outcome_settle (r : Reader α) (c : Cursor) : (settle r).outcome c =
    match r.outcome c with
    | (.ok a, c') => (.ok a, c')
    | (.error ⟨cause, some p⟩, c') => (.error ⟨cause, some p⟩, c')
    | (.error ⟨cause, none⟩, c') => (.error ⟨cause, some c'.place⟩, c') := by
  unfold settle
  rw [outcome_bind, outcome_capture]
  obtain ⟨result, c'⟩ := r.outcome c
  cases result with
  | ok a => rfl
  | error f =>
      obtain ⟨cause, place⟩ := f
      cases place <;> rfl

/-- Settling a fault changes no value. -/
@[simp] theorem takes_settle_iff : Takes (settle r) c a c' ↔ Takes r c a c' := by
  unfold Takes
  rw [outcome_settle]
  split
  case h_1 same => rw [same]
  case h_2 same => rw [same]
  case h_3 same =>
      rw [same]
      simp

theorem Reader.Reads.settle (reads : r.Reads octets a left) : (settle r).Reads octets a left := by
  intro c here
  obtain ⟨c', last, taken⟩ := reads c here
  exact ⟨c', last, takes_settle_iff.2 taken⟩

theorem Reader.Refuses.settle (refuses : r.Refuses octets) : (settle r).Refuses octets := by
  intro c here
  obtain ⟨f, c', refused⟩ := refuses c here
  rw [outcome_settle, refused]
  obtain ⟨cause, place⟩ := f
  cases place <;> exact ⟨_, _, rfl⟩

/-- The contents are taken first and the closing mark then. -/
@[simp] theorem takes_enclosed_iff :
    Takes (enclosed r close) c a c' ↔ ∃ m, Takes r c a m ∧ Takes close m () c' := by
  unfold enclosed
  rw [takes_bind_iff]
  simp only [takes_bind_iff]
  unfold Takes
  simp only [outcome_capture]
  constructor
  · rintro ⟨contents, m, first, closing, m', second, last⟩
    cases contents with
    | error f => cases closing <;> cases last
    | ok a' =>
        cases closing with
        | error f => cases last
        | ok u =>
            cases last
            have contents := Prod.ext_iff.1 first
            have mark := Prod.ext_iff.1 second
            refine ⟨m, Prod.ext (Except.ok.inj contents.1) contents.2,
              Prod.ext (Except.ok.inj mark.1) mark.2⟩
  · rintro ⟨m, first, second⟩
    refine ⟨.ok a, m, ?_, .ok (), c', ?_, rfl⟩
    · rw [first]
    · rw [second]

theorem Reader.Reads.enclosed (contents : r.Reads octets a middle) (mark : close.Reads middle () left) :
    (enclosed r close).Reads octets a left := by
  intro c here
  obtain ⟨m, there, taken⟩ := contents c here
  obtain ⟨c', last, closed⟩ := mark m there
  exact ⟨c', last, takes_enclosed_iff.2 ⟨m, taken, closed⟩⟩

/-- What refuses its contents refuses, whatever is made of the closing mark. -/
theorem Reader.Refuses.enclosed (contents : r.Refuses octets) : (enclosed r close).Refuses octets := by
  intro c here
  obtain ⟨f, m, refused⟩ := contents c here
  unfold Json.enclosed
  rw [outcome_bind, outcome_capture, refused]
  simp only
  rw [outcome_bind, outcome_capture]
  exact ⟨_, _, rfl⟩

end Captured

/-! ### Rounds -/

/-- Some rounds that go on, each of which leaves fewer octets. -/
inductive Walks (step : σ → Reader (σ ⊕ β)) : σ → List UInt8 → σ → List UInt8 → Prop where
  | refl {s : σ} {octets : List UInt8} : Walks step s octets s octets
  | round {s s' t : σ} {octets middle left : List UInt8} (reads : (step s).Reads octets (.inl s') middle)
      (fewer : middle.length < octets.length) (rest : Walks step s' middle t left) :
      Walks step s octets t left

section Rounds

variable {step : σ → Reader (σ ⊕ β)} {s t : σ} {b : β} {octets middle left : List UInt8}

theorem reads_rounds (within : (roundsWithin step (octets.length + 1) s).Reads octets b left) :
    (rounds step s).Reads octets b left := by
  rintro c rfl
  exact within c rfl

theorem refuses_rounds (within : (roundsWithin step (octets.length + 1) s).Refuses octets) :
    (rounds step s).Refuses octets := by
  rintro c rfl
  exact within c rfl

/-- Rounds that go on and a last one are enough rounds. -/
theorem Walks.reads (walks : Walks step s octets t middle) (last : (step t).Reads middle (.inr b) left) :
    (rounds step s).Reads octets b left := by
  -- On the rounds walked: each of them leaves fewer octets, so that enough rounds are left for these.
  have within : ∀ n, octets.length < n → (roundsWithin step n s).Reads octets b left := by
    induction walks with
    | refl =>
        intro n enough
        cases n with
        | zero => cases enough
        | succ n => exact last.bind (.pure _ _)
    | round reads fewer _ ih =>
        intro n enough
        cases n with
        | zero => cases enough
        | succ n => exact reads.bind (ih last n (by omega))
  exact reads_rounds (within _ (Nat.lt_succ_self _))

/-- What a later round refuses, all of them together refuse. -/
theorem Walks.refuses (walks : Walks step s octets t middle) (last : (step t).Refuses middle) :
    (rounds step s).Refuses octets := by
  have within : ∀ n, octets.length < n → (roundsWithin step n s).Refuses octets := by
    induction walks with
    | refl =>
        intro n enough
        cases n with
        | zero => cases enough
        | succ n => exact last.bind
    | round reads fewer _ ih =>
        intro n enough
        cases n with
        | zero => cases enough
        | succ n => exact reads.refuses_bind (ih last n (by omega))
  exact refuses_rounds (within _ (Nat.lt_succ_self _))

end Rounds

end Emblem.Json
