/-
Module: Emblem.Proofs.Rebinding
Purpose: Bindings one after another. A step follows the last loop that does not leave it as it is, so
  that the last binding alone counts, but for a terminal step that it leaves out: this step keeps the
  chain that an earlier binding gave it.
Main exports: Loop.governing?, Loop.rebindAll_eq, Timeline.bindAll, Timeline.bindAll_eq_ok_iff,
  Timeline.Rebound, Timeline.bindAll_rebound
-/
import Emblem.Proofs.FlashHistory
import Mathlib.Data.List.Induction

namespace Emblem

/-! ### One step under many loops -/

namespace Loop

/-- A step under the loops of a list, one after another. -/
def rebindAll (loops : List Loop) (s : Step) : Step :=
  loops.foldl (fun s l => l.rebind s) s

/-- The loop of a list that a step follows in the end: the last one that does not leave it as it
is. -/
def governing? (loops : List Loop) (s : Step) : Option Loop :=
  loops.reverse.find? fun l => !l.leaves s

/-- A step chained to the terminal of a loop. -/
def chain (l : Loop) (s : Step) : Step :=
  { s with begin := .chained s.begin.offset l.terminal }

section Steps

variable {l : Loop} {loops : List Loop} {s : Step}

@[simp] theorem rebindAll_nil : rebindAll [] = id := rfl

theorem rebindAll_concat (loops : List Loop) (l : Loop) (s : Step) :
    rebindAll (loops ++ [l]) s = l.rebind (rebindAll loops s) := by
  simp [rebindAll]

theorem governing?_concat (loops : List Loop) (l : Loop) (s : Step) :
    governing? (loops ++ [l]) s = if l.leaves s then governing? loops s else some l := by
  cases left : l.leaves s <;> simp [governing?, left]

@[simp] theorem rebindAll_id (loops : List Loop) (s : Step) : (rebindAll loops s).id = s.id := by
  induction loops using List.reverseRecOn with
  | nil => rfl
  | append_singleton earlier l ih => rw [rebindAll_concat, rebind_id, ih]

@[simp] theorem rebindAll_offset (loops : List Loop) (s : Step) :
    (rebindAll loops s).begin.offset = s.begin.offset := by
  induction loops using List.reverseRecOn with
  | nil => rfl
  | append_singleton earlier l ih => rw [rebindAll_concat, rebind_offset, ih]

/-- Loops leave a step for its handle alone, which no binding changes. -/
theorem leaves_rebindAll : l.leaves (rebindAll loops s) = l.leaves s := by
  simp [leaves]

/-- Many bindings chain a step to the loop that it follows, at the offset that it always had. -/
theorem rebindAll_eq (loops : List Loop) (s : Step) :
    rebindAll loops s = match governing? loops s with
      | some l => l.chain s
      | none => s := by
  induction loops using List.reverseRecOn with
  | nil => rfl
  | append_singleton earlier l ih =>
      rw [rebindAll_concat, governing?_concat, rebind, leaves_rebindAll]
      cases left : l.leaves s with
      | true => simpa using ih
      | false =>
          simp only [Bool.false_eq_true, if_false, rebindAll_offset]
          rw [ih]
          cases governing? earlier s <;> rfl

/-- A step that the last loop does not leave as it is follows this loop, whatever was before. -/
theorem rebindAll_concat_of_not_leaves {last : Loop} (follows : last.leaves s = false) :
    rebindAll (loops ++ [last]) s = last.rebind s := by
  rw [rebindAll_eq, governing?_concat, follows, rebind, follows]
  rfl

/-- Bindings that are all the same do no more than one of them. -/
theorem rebindAll_concat_of_same {last : Loop} (same : ∀ l ∈ loops, l = last) :
    rebindAll (loops ++ [last]) s = last.rebind s := by
  cases left : last.leaves s with
  | false => exact rebindAll_concat_of_not_leaves left
  | true =>
      have none : governing? loops s = none := by
        rw [governing?, List.find?_eq_none]
        intro l member
        rw [same l (List.mem_reverse.1 member), left]
        simp
      rw [rebindAll_eq, governing?_concat, if_pos left, none, rebind, if_pos left]

/-- A loop leaves the terminal of a loop that excludes it just if it is this loop. -/
theorem leaves_iff_eq {last : Loop} (excludes : last.policy = .excludeTerminal)
    (here : s.id = last.terminal) : l.leaves s ↔ l = last := by
  rw [leaves, decide_eq_true_iff, here, ← excludes]
  constructor
  · rintro ⟨terminal, policy⟩
    cases l
    cases last
    cases terminal
    cases policy
    rfl
  · rintro rfl
    exact ⟨rfl, rfl⟩

end Steps

end Loop

/-! ### Timelines under many bindings -/

/-- The act of asking for a flash. -/
def Flash.act (f : Flash) : Timeline.Act :=
  .flash f.target f.resting f.start f.property

namespace Timeline

/-- Binds a timeline to one loop after another; each of the bindings must succeed. -/
def bindAll : Timeline → List Loop → Except Error Timeline
  | t, [] => .ok t
  | t, l :: rest => do
      let (_, bound) ← l.bind t
      bound.bindAll rest

/-- Loops can be bound one after another if all their terminals are there; each step is then rebound
by all of them. -/
theorem bindAll_eq_ok_iff {t after : Timeline} {loops : List Loop} :
    t.bindAll loops = .ok after ↔
      (∀ l ∈ loops, l.terminal.index < t.size) ∧
        after = { t with steps := t.steps.map (Loop.rebindAll loops) } := by
  induction loops generalizing t with
  | nil => simp [bindAll, eq_comm]
  | cons l rest ih =>
      rw [bindAll, bind_eq_ok_iff, List.forall_mem_cons]
      constructor
      · rintro ⟨⟨rewritten, bound⟩, first, others⟩
        obtain ⟨inside, _, rfl⟩ := Loop.bind_eq_ok_iff.1 first
        obtain ⟨insides, rfl⟩ := ih.1 others
        rw [Loop.bound_size] at insides
        refine ⟨⟨inside, insides⟩, ?_⟩
        simp [Loop.bound, Loop.rebindAll]
      · rintro ⟨⟨inside, insides⟩, rfl⟩
        refine ⟨_, Loop.bind_of_lt inside, ih.2 ⟨?_, ?_⟩⟩
        · rw [Loop.bound_size]
          exact insides
        · simp [Loop.bound, Loop.rebindAll]

/-- No step is chained. -/
def Unbound (t : Timeline) : Prop :=
  ∀ s ∈ t.steps, s.begin = .once s.begin.offset

/-- Flashes add steps that are not chained, and one that is refused adds none. -/
theorem Unbound.run_flashes {t : Timeline} (unbound : t.Unbound) (fs : List Flash) :
    (t.run (fs.map Flash.act)).Unbound := by
  induction fs generalizing t with
  | nil => exact unbound
  | cons f rest ih =>
      apply ih
      simp only [Flash.act, after]
      cases flashed : t.flash f.target f.resting f.start f.property with
      | error e => exact unbound
      | ok result =>
          obtain ⟨id, grown⟩ := result
          obtain ⟨_, _, rfl⟩ := flash_eq_ok_iff.1 flashed
          intro s member
          rcases List.mem_append.1 member with earlier | new
          · exact unbound s earlier
          · simp only [List.mem_cons, List.not_mem_nil, or_false] at new
            rcases new with rfl | rfl <;> rfl

/-- What an unbound timeline becomes under some bindings and a last one, beside what it becomes under
the last one alone. -/
structure Rebound (t : Timeline) (earlier : List Loop) (last : Loop) (after alone : Timeline) :
    Prop where
  /-- The earlier bindings leave no trace if the last one leaves out no step, or if they are the
  same; otherwise they do. -/
  eq_alone_iff : after = alone ↔
    last.policy = .includeTerminal ∨ ∀ l ∈ earlier, l = last
  /-- Their trace is on one step only. -/
  get?_of_ne : ∀ id, id ≠ last.terminal → after.get? id = alone.get? id
  /-- A terminal that the last loop leaves out begins once if there was no other loop, and otherwise
  stays chained to the terminal of the last other one. -/
  excluded : last.policy = .excludeTerminal → ∃ s, t.get? last.terminal = some s ∧
    s.begin = .once s.begin.offset ∧ alone.get? last.terminal = some s ∧
    after.get? last.terminal = some (match earlier.reverse.find? (· ≠ last) with
      | some other => other.chain s
      | none => s)

section Bound

variable {t after : Timeline} {earlier : List Loop} {last : Loop}

theorem get?_bindAll (done : t.bindAll (earlier ++ [last]) = .ok after) (id : StepId) :
    after.get? id = (t.get? id).map (Loop.rebindAll (earlier ++ [last])) := by
  obtain ⟨_, rfl⟩ := bindAll_eq_ok_iff.1 done
  simp [get?]

/-- A step other than the terminal of the last loop follows this loop. -/
theorem get?_bindAll_of_ne (anchored : t.Anchored) (done : t.bindAll (earlier ++ [last]) = .ok after)
    {id : StepId} (other : id ≠ last.terminal) : after.get? id = (last.bound t).get? id := by
  rw [get?_bindAll done, Loop.bound_get?]
  cases there : t.get? id with
  | none => rfl
  | some s =>
      have follows : last.leaves s = false := by
        simp [Loop.leaves, anchored.id_of_get? there, other]
      rw [Option.map_some, Option.map_some, Loop.rebindAll_concat_of_not_leaves follows]

/-- The terminal of a last loop that leaves it out follows the last other loop. -/
theorem get?_bindAll_terminal (anchored : t.Anchored) (excludes : last.policy = .excludeTerminal)
    (done : t.bindAll (earlier ++ [last]) = .ok after) {s : Step}
    (there : t.get? last.terminal = some s) :
    after.get? last.terminal = some (match earlier.reverse.find? (· ≠ last) with
      | some other => other.chain s
      | none => s) := by
  have here := anchored.id_of_get? there
  have left : last.leaves s = true := (Loop.leaves_iff_eq excludes here).2 rfl
  have others : (fun l : Loop => !l.leaves s) = fun l => decide (l ≠ last) := by
    funext l
    rw [decide_not, Bool.not_inj_iff, Bool.eq_iff_iff, Loop.leaves_iff_eq excludes here,
      decide_eq_true_iff]
  rw [get?_bindAll done, there, Option.map_some, Loop.rebindAll_eq, Loop.governing?_concat,
    if_pos left, Loop.governing?, others]

end Bound

/-- Bindings of an unbound timeline whose handles are places leave it as it is described. -/
theorem Anchored.rebound {t after : Timeline} (anchored : t.Anchored) (unbound : t.Unbound)
    {earlier : List Loop} {last : Loop} (done : t.bindAll (earlier ++ [last]) = .ok after) :
    t.Rebound earlier last after (last.bound t) := by
  have inside : last.terminal.index < t.size := (bindAll_eq_ok_iff.1 done).1 last (by simp)
  obtain ⟨s, there⟩ : ∃ s, t.get? last.terminal = some s := ⟨_, List.getElem?_eq_getElem inside⟩
  have once := unbound s (List.mem_of_getElem? there)
  have excluded : last.policy = .excludeTerminal → (last.bound t).get? last.terminal = some s := by
    intro excludes
    have left : last.leaves s = true :=
      (Loop.leaves_iff_eq excludes (anchored.id_of_get? there)).2 rfl
    rw [Loop.bound_get?, there, Option.map_some, Loop.rebind, if_pos left]
  refine ⟨⟨?_, ?_⟩, fun id other => get?_bindAll_of_ne anchored done other, fun excludes =>
    ⟨s, there, once, excluded excludes, get?_bindAll_terminal anchored excludes done there⟩⟩
  · rintro rfl
    cases policy : last.policy with
    | includeTerminal => exact .inl rfl
    | excludeTerminal =>
        right
        intro l member
        by_contra differs
        have kept := get?_bindAll_terminal anchored policy done there
        rw [excluded policy] at kept
        -- Some other loop was there, and the step would be chained to its terminal.
        cases found : earlier.reverse.find? (· ≠ last) with
        | none =>
            rw [List.find?_eq_none] at found
            exact absurd differs (by simpa using found l (List.mem_reverse.2 member))
        | some other =>
            rw [found] at kept
            have chained : s.begin = .chained s.begin.offset other.terminal :=
              congrArg Step.begin (Option.some.inj kept)
            rw [once] at chained
            cases chained
  · intro absorbed
    obtain ⟨_, rfl⟩ := bindAll_eq_ok_iff.1 done
    have same : Loop.rebindAll (earlier ++ [last]) = last.rebind := by
      funext r
      rcases absorbed with includes | same
      · exact Loop.rebindAll_concat_of_not_leaves (by simp [Loop.leaves, includes])
      · exact Loop.rebindAll_concat_of_same same
    rw [same]
    rfl

/-- However often a timeline of flashes is bound, and to whatever loops, it becomes what the last
loop alone would make of it, but for a terminal that this loop leaves out and that another loop has
chained before. -/
theorem bindAll_rebound (highlight : Color) (ramps : Ramps) (flashes : List Flash)
    (earlier : List Loop) (last : Loop) {after : Timeline}
    (done : ((empty highlight ramps).run (flashes.map Flash.act)).bindAll (earlier ++ [last]) =
      .ok after) :
    ∃ rewritten alone,
      last.bind ((empty highlight ramps).run (flashes.map Flash.act)) = .ok (rewritten, alone) ∧
        ((empty highlight ramps).run (flashes.map Flash.act)).Rebound earlier last after alone := by
  have unbound : (empty highlight ramps).Unbound := by
    intro s member
    cases member
  have anchored := (Anchored.empty highlight ramps).run (flashes.map Flash.act)
  have inside := (bindAll_eq_ok_iff.1 done).1 last (by simp)
  exact ⟨_, _, Loop.bind_of_lt inside, anchored.rebound (unbound.run_flashes flashes) done⟩

/-- A flash whose last step is chained to itself, and then to be left out. -/
theorem bindAll_rebound_flash :
    ∃ after, ((empty ⟨15, 157, 88⟩ ⟨1, 1.2⟩).run
        [Flash.act ⟨.node ⟨0⟩, ⟨153, 153, 153⟩, 0, .fill⟩]).bindAll
          ([⟨⟨1⟩, .includeTerminal⟩] ++ [⟨⟨1⟩, .excludeTerminal⟩]) = .ok after ∧
      ∃ rewritten alone,
        (⟨⟨1⟩, .excludeTerminal⟩ : Loop).bind ((empty ⟨15, 157, 88⟩ ⟨1, 1.2⟩).run
          [Flash.act ⟨.node ⟨0⟩, ⟨153, 153, 153⟩, 0, .fill⟩]) = .ok (rewritten, alone) ∧
        ((empty ⟨15, 157, 88⟩ ⟨1, 1.2⟩).run
          [Flash.act ⟨.node ⟨0⟩, ⟨153, 153, 153⟩, 0, .fill⟩]).Rebound
            [⟨⟨1⟩, .includeTerminal⟩] ⟨⟨1⟩, .excludeTerminal⟩ after alone :=
  ⟨_, rfl, bindAll_rebound ⟨15, 157, 88⟩ ⟨1, 1.2⟩ [⟨.node ⟨0⟩, ⟨153, 153, 153⟩, 0, .fill⟩]
    [⟨⟨1⟩, .includeTerminal⟩] ⟨⟨1⟩, .excludeTerminal⟩ rfl⟩

/-- A terminal that has been chained stays chained under a loop that leaves it out, so that the last
loop is not all that counts. -/
theorem bindAll_keeps_chain :
    ∃ after rewritten alone, ((empty ⟨15, 157, 88⟩ ⟨1, 1.2⟩).run
        [.flash (.node ⟨0⟩) ⟨153, 153, 153⟩ 0 .fill]).bindAll
          [⟨⟨1⟩, .includeTerminal⟩, ⟨⟨1⟩, .excludeTerminal⟩] = .ok after ∧
      (⟨⟨1⟩, .excludeTerminal⟩ : Loop).bind ((empty ⟨15, 157, 88⟩ ⟨1, 1.2⟩).run
        [.flash (.node ⟨0⟩) ⟨153, 153, 153⟩ 0 .fill]) = .ok (rewritten, alone) ∧
      (alone.get? ⟨1⟩).map (·.begin) = some (.once 1) ∧
      (after.get? ⟨1⟩).map (·.begin) = some (.chained 1 ⟨1⟩) ∧ after ≠ alone :=
  ⟨_, _, _, rfl, rfl, by decide, by decide, by decide⟩

end Timeline

end Emblem
