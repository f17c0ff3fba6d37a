/-
Module: Emblem.Proofs.LoopConservation
Purpose: What a binding changes and what it keeps. It gives steps other begins, with the offsets that
  they had, and changes nothing else. So the times of a timeline stay the same however often it is
  bound, and a binding that is done again changes nothing.
Main exports: Loop.Rebinds, Loop.Binds, Loop.binds_of_bind, Loop.bound_duration, Loop.period_of_bound,
  Timeline.Conserves, Timeline.run_conserves
-/
import Emblem.Proofs.Rebinding

namespace Emblem

namespace Loop

/-- What a loop makes of a step: its begin is chained to the terminal at the offset that it had, unless
it is a terminal that the loop leaves out, and the rest of it is as before. -/
structure Rebinds (l : Loop) (s rebound : Step) : Prop where
  id : rebound.id = s.id
  target : rebound.target = s.target
  property : rebound.property = s.property
  startColor : rebound.startColor = s.startColor
  endColor : rebound.endColor = s.endColor
  duration : rebound.duration = s.duration
  begin_excluded : s.id = l.terminal → l.policy = .excludeTerminal → rebound.begin = s.begin
  begin_chained : ¬(s.id = l.terminal ∧ l.policy = .excludeTerminal) →
    rebound.begin = .chained s.begin.offset l.terminal

/-- What a successful binding makes of a timeline, and the number that it tells. Every step stays in
its place. -/
structure Binds (l : Loop) (t : Timeline) (rewritten : Nat) (after : Timeline) : Prop where
  rewritten_included : l.policy = .includeTerminal → rewritten = t.size
  rewritten_excluded : l.policy = .excludeTerminal → rewritten + 1 = t.size
  steps : List.Forall₂ l.Rebinds t.steps after.steps
  highlight : after.highlight = t.highlight
  ramps : after.ramps = t.ramps

section Effect

variable {l : Loop} {t : Timeline}

theorem rebinds_rebind (l : Loop) (s : Step) : l.Rebinds s (l.rebind s) := by
  by_cases left : s.id = l.terminal ∧ l.policy = .excludeTerminal
  · have same : l.rebind s = s := if_pos (decide_eq_true left)
    rw [same]
    exact ⟨rfl, rfl, rfl, rfl, rfl, rfl, fun _ _ => rfl, fun follows => absurd left follows⟩
  · have chained : l.rebind s = l.chain s := by
      rw [rebind, leaves, decide_eq_false left]
      rfl
    rw [chained]
    exact ⟨rfl, rfl, rfl, rfl, rfl, rfl, fun here excludes => absurd ⟨here, excludes⟩ left,
      fun _ => rfl⟩

/-- A loop that includes its terminal leaves no step as it is. -/
theorem filter_of_includes (includes : l.policy = .includeTerminal) :
    (t.steps.filter fun s => !l.leaves s).length = t.size := by
  have all : (t.steps.filter fun s => !l.leaves s) = t.steps := by
    apply List.filter_eq_self.2
    intro s _
    simp [leaves, includes]
  rw [all, Timeline.size]

/-- A loop that excludes its terminal leaves this step as it is, and no other. -/
theorem filter_of_excludes (anchored : t.Anchored) (inside : l.terminal.index < t.size)
    (excludes : l.policy = .excludeTerminal) :
    (t.steps.filter fun s => !l.leaves s).length + 1 = t.size := by
  obtain ⟨s, member, here⟩ := anchored.exists_step inside
  have listed : l.terminal ∈ t.steps.map (·.id) := List.mem_map.2 ⟨s, member, here⟩
  -- Handles are distinct, so one step alone has that of the terminal.
  have left : (t.steps.filter l.leaves).length = 1 := by
    calc (t.steps.filter l.leaves).length
        = (t.steps.map (·.id)).count l.terminal := by
          rw [List.count, List.countP_map, List.countP_eq_length_filter]
          congr 2
          funext r
          simp [leaves, excludes, beq_eq_decide]
      _ = 1 := List.count_eq_one_of_mem anchored.ids_nodup listed
  have split := List.length_eq_length_filter_add (l := t.steps) l.leaves
  rw [left] at split
  rw [Timeline.size, split, Nat.add_comm]

/-- What a successful binding does. -/
theorem binds_of_bind (anchored : t.Anchored) {rewritten : Nat} {after : Timeline}
    (bound : l.bind t = .ok (rewritten, after)) : l.Binds t rewritten after := by
  obtain ⟨inside, rfl, rfl⟩ := Loop.bind_eq_ok_iff.1 bound
  refine ⟨filter_of_includes, filter_of_excludes anchored inside, ?_, rfl, rfl⟩
  apply List.forall₂_map_right_iff.2
  apply List.forall₂_same.2
  intro s _
  exact l.rebinds_rebind s

/-- A binding is refused just if its terminal is not among the steps. -/
theorem exists_bind_error_iff (anchored : t.Anchored) :
    (∃ e, l.bind t = .error e) ↔ ∀ s ∈ t.steps, s.id ≠ l.terminal := by
  constructor
  · rintro ⟨e, refused⟩ s member same
    have there := anchored.get?_id member
    rw [same, (bind_eq_error_iff.1 refused).1] at there
    cases there
  · intro absent
    have none : t.get? l.terminal = none := by
      apply List.getElem?_eq_none_iff.2
      by_contra inside
      obtain ⟨s, member, here⟩ := anchored.exists_step (Nat.lt_of_not_le inside)
      exact absent s member here
    exact ⟨_, bind_eq_error_iff.2 ⟨none, rfl⟩⟩

end Effect

/-! ### What bindings keep -/

/-- A binding changes no times. -/
theorem bound_duration (l : Loop) (t : Timeline) : (l.bound t).duration = t.duration := by
  have finishes : Step.finish ∘ l.rebind = Step.finish := by
    funext s
    simp [Step.finish]
  rw [Timeline.duration, bound, List.map_map, finishes]
  rfl

/-- A binding does not change how long a cycle of any loop takes. -/
theorem period_of_bound (l other : Loop) (t : Timeline) :
    l.period (other.bound t) = l.period t := by
  rw [period, period, bound_get?]
  cases t.get? l.terminal with
  | none => rfl
  | some s => simp [Step.finish]

/-- A timeline that is bound to a loop already stays as it is. -/
theorem bound_bound (l : Loop) (t : Timeline) : l.bound (l.bound t) = l.bound t := by
  have twice : l.rebind ∘ l.rebind = l.rebind := by
    funext s
    have same : ∀ r ∈ [l], r = l := fun r member => List.mem_singleton.1 member
    exact rebindAll_concat_of_same same
  rw [bound, bound, List.map_map, twice]

/-- A binding that is done again succeeds again, with the same result. -/
theorem bind_again {l : Loop} {t after : Timeline} {rewritten : Nat}
    (bound : l.bind t = .ok (rewritten, after)) : l.bind after = .ok (rewritten, after) := by
  obtain ⟨inside, rfl, rfl⟩ := Loop.bind_eq_ok_iff.1 bound
  apply Loop.bind_eq_ok_iff.2
  refine ⟨by rw [Loop.bound_size]; exact inside, ?_, (l.bound_bound t).symm⟩
  have sameLeaves : (fun s => !l.leaves s) ∘ l.rebind = fun s => !l.leaves s := by
    funext s
    simp [leaves]
  rw [Loop.bound, List.filter_map, List.length_map, sameLeaves]

end Loop

namespace Timeline

/-- Bindings one after another change no times. -/
theorem bindAll_times {t after : Timeline} {loops : List Loop}
    (done : t.bindAll loops = .ok after) :
    after.duration = t.duration ∧ ∀ l : Loop, l.period after = l.period t := by
  induction loops generalizing t with
  | nil =>
      cases done
      exact ⟨rfl, fun _ => rfl⟩
  | cons first rest ih =>
      obtain ⟨⟨rewritten, bound⟩, succeeded, others⟩ := bind_eq_ok_iff.1 done
      obtain ⟨_, _, rfl⟩ := Loop.bind_eq_ok_iff.1 succeeded
      obtain ⟨duration, period⟩ := ih others
      constructor
      · exact duration.trans (first.bound_duration t)
      · intro l
        exact (period l).trans (l.period_of_bound first t)

/-- What holds of bindings of a timeline. -/
structure Conserves (t : Timeline) : Prop where
  bind_error_iff : ∀ l : Loop, (∃ e, l.bind t = .error e) ↔ ∀ s ∈ t.steps, s.id ≠ l.terminal
  bind_refused : ∀ (l : Loop) (e : Error), l.bind t = .error e →
    e = .foreignTerminal l.terminal ∧ t.after (.bind l) = t
  bind_done : ∀ (l : Loop) (rewritten : Nat) (after : Timeline),
    l.bind t = .ok (rewritten, after) → l.Binds t rewritten after
  /-- Bindings of any number, to any terminals and under any policies, change no times. -/
  times : ∀ (loops : List Loop) (after : Timeline), t.bindAll loops = .ok after →
    after.duration = t.duration ∧ ∀ l : Loop, l.period after = l.period t
  again : ∀ (l : Loop) (rewritten : Nat) (after : Timeline),
    l.bind t = .ok (rewritten, after) → l.bind after = .ok (rewritten, after)

/-- Whatever flashes and bindings have made a timeline, a further binding changes its begins alone. -/
theorem run_conserves (highlight : Color) (ramps : Ramps) (acts : List Act) :
    ((empty highlight ramps).run acts).Conserves := by
  have anchored := (Anchored.empty highlight ramps).run acts
  generalize (empty highlight ramps).run acts = t at anchored
  constructor
  · intro l
    exact Loop.exists_bind_error_iff anchored
  · intro l e failed
    have refused : t.Refuses (.bind l) e := failed
    exact ⟨(Loop.bind_eq_error_iff.1 failed).2, after_of_refuses refused⟩
  · intro l rewritten after bound
    exact Loop.binds_of_bind anchored bound
  · intro loops after done
    exact bindAll_times done
  · intro l rewritten after bound
    exact Loop.bind_again bound

end Timeline

end Emblem
