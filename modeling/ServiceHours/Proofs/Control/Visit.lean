import ServiceHours.Proofs.Control.Steps
import ServiceHours.Proofs.Remote.Reachable

/-!
# A visit to a fleet

What one visit of a pass does to a fleet that scales at once.

* a decision that changes something brings the service to what its transition asks, or fails and leaves it as it was
  (`Fleet.carryOut_cases`, `Hosted.meets_scale`);
* `Agenda.visit_cases` says all that a visit can do;
* a plan is idle if a visit would change nothing (`Agenda.Idle`): visits of idle plans only look
  (`Agenda.visit_of_idle`), a visit without an error leaves its plan idle (`Agenda.idle_of_visit`), and no visit makes
  an idle plan busy (`Agenda.Idle.visit`).
-/

namespace ServiceHours

/-! ### Decisions -/

/-- The service is as the transition asks; a count of 0 asks for one task. -/
structure Hosted.Meets (h : Hosted) (t : Transition) : Prop where
  running : t.state = .running → h.state = .running ∧ h.tasks.length = max 1 t.count
  stopped : t.state = .stopped → h.state = .stopped ∧ h.tasks = []

theorem Hosted.Meets.state_ne_unknown {h : Hosted} {t : Transition} (hm : h.Meets t) : h.state ≠ .unknown := by
  intro hunknown
  rcases htarget : t.state with - | -
  · exact absurd ((hm.running htarget).1.symm.trans hunknown) nofun
  · exact absurd ((hm.stopped htarget).1.symm.trans hunknown) nofun

namespace Decision

/-- The number of tasks that the actions of a decision bring about. -/
def target? : Decision → Option Nat
  | skip _ | noOp => none
  | stop => some 0
  | start count => some count
  | rescale _ wanted => some wanted

private theorem isChange_eq_isSome_target (d : Decision) : d.isChange = d.target?.isSome := by
  cases d <;> rfl

theorem isChange_eq_false_iff {d : Decision} : d.isChange = false ↔ d = noOp ∨ ∃ reason, d = skip reason := by
  cases d <;> simp [isChange]

variable {h : Hosted} {t : Transition} {known : Bool}

/-- The decision table against a consistent service. -/
private theorem ofStatus_cases (hc : h.Consistent) (t : Transition) (known : Bool) :
    (ofStatus h.status t.state t.count known = skip .missing ∧ h.state = .unknown) ∨
    (ofStatus h.status t.state t.count known = noOp ∧ (h.Meets t ∨ h.state = .unknown ∧ t.state = .stopped)) ∨
    (ofStatus h.status t.state t.count known).target? =
      some (if t.state.isRunning then max 1 t.count else 0) ∧ ¬(h.state = .unknown ∧ t.state = .stopped) := by
  rcases hstate : h.state <;> rcases htarget : t.state <;> simp only [ofStatus, Hosted.status, hstate]
  case running.running =>
    unfold ofCounts wantedCount
    split
    · rename_i hlength
      refine Or.inr (Or.inl ⟨rfl, Or.inl ⟨fun _ => ⟨hstate, hlength⟩, fun hstop => ?_⟩⟩)
      rw [htarget] at hstop
      cases hstop
    · exact Or.inr (Or.inr ⟨rfl, nofun⟩)
  case running.stopped => exact Or.inr (Or.inr ⟨rfl, nofun⟩)
  case stopped.running => exact Or.inr (Or.inr ⟨rfl, nofun⟩)
  case stopped.stopped =>
    refine Or.inr (Or.inl ⟨trivial, Or.inl ⟨fun hrun => ?_, fun _ => ⟨hstate, hc.stopped hstate⟩⟩⟩)
    rw [htarget] at hrun
    cases hrun
  case unknown.running =>
    cases known with
    | true => exact Or.inr (Or.inr ⟨rfl, nofun⟩)
    | false => exact Or.inl ⟨rfl, trivial⟩
  case unknown.stopped =>
    cases known with
    | true => exact Or.inr (Or.inl ⟨rfl, Or.inr ⟨trivial, trivial⟩⟩)
    | false => exact Or.inl ⟨rfl, trivial⟩

/-- A service that is as the transition asks is left alone. -/
private theorem ofStatus_of_meets (hm : h.Meets t) : ofStatus h.status t.state t.count known = noOp := by
  rcases htarget : t.state with - | -
  · obtain ⟨hstate, hlength⟩ := hm.running htarget
    simp [ofStatus, Hosted.status, hstate, ofCounts, wantedCount, hlength]
  · obtain ⟨hstate, -⟩ := hm.stopped htarget
    simp [ofStatus, Hosted.status, hstate]

theorem isChange_ofStatus_of_unknown (hstate : h.state = .unknown) (hstop : t.state = .stopped) :
    (ofStatus h.status t.state t.count known).isChange = false := by
  cases known <;> simp [ofStatus, Hosted.status, hstate, hstop, isChange]

end Decision

/-- Scaling to the number that a transition asks for brings a service to where it asks it to be. -/
theorem Hosted.meets_scale (h : Hosted) (s : Service) (t : Transition) :
    (h.scale s (if t.state.isRunning then max 1 t.count else 0) false).Meets t := by
  have hlength := h.length_tasks_scale s (if t.state.isRunning then max 1 t.count else 0) false
  have hstate := h.state_scale s (if t.state.isRunning then max 1 t.count else 0) false
  generalize h.scale s _ false = scaled at *
  simp only [List.isEmpty_iff_length_eq_zero, hlength] at hstate
  constructor
  · intro htarget
    simp only [htarget, DesiredState.isRunning, if_true] at hlength hstate
    have hpos : max 1 t.count ≠ 0 := by omega
    exact ⟨by simpa [hpos] using hstate, by simpa using hlength⟩
  · intro htarget
    simp only [htarget, DesiredState.isRunning] at hlength hstate
    exact ⟨by simpa using hstate, by simpa using hlength⟩

/-! ### Carrying out -/

namespace Fleet

variable {f : Fleet} {s : Service} {h : Hosted} {d : Decision}

/-- A change of the count fails and leaves the service, or scales it at once. -/
private theorem perform_setDesiredCount_cases (hkeeps : f.keepsTasks = false) (hs : f.find? s = some h) (count : Nat) :
    (∃ e g, ((manager.perform (.setDesiredCount s count)) f).value = (.error e, g) ∧ g.find? s = some h) ∨
    (∃ g, ((manager.perform (.setDesiredCount s count)) f).value = (.ok (), g) ∧ s.isEmpty = false ∧
      g.find? s = some (h.scale s count false)) := by
  unfold Manager.perform
  split
  · exact Or.inl ⟨_, _, rfl, hs⟩
  · rename_i hname
    rw [Run.map_apply]
    simp only [manager, Run.silent_apply, setDesiredCount, hs]
    split
    · exact Or.inl ⟨_, _, rfl, hs⟩
    · refine Or.inr ⟨_, rfl, Bool.eq_false_iff.mpr hname, ?_⟩
      rw [find?_update_self, hkeeps]
      exact congrArg (Option.map _) hs

/-- Where no task is left there is nothing to end. -/
private theorem perform_stopRunningTasks (hname : s.isEmpty = false) (hs : f.find? s = some h) (hnil : h.tasks = []) :
    ((manager.perform (.stopRunningTasks s)) f).value = (.ok (), f.record (.runningTasks s)) := by
  have hlisted : (manager.runningTasks s f).value = (.ok [], f.record (.runningTasks s)) := by
    simp only [manager, Run.silent_apply, runningTasks, hs, hnil]
  have hended : (manager.stopRunningTasks s f).value = (.ok (), f.record (.runningTasks s)) := by
    rw [Manager.stopRunningTasks, Run.bind_apply, hlisted]
    rfl
  unfold Manager.perform
  split
  · rename_i hempty
    exact absurd hempty (Bool.eq_false_iff.mp hname)
  · rw [Run.map_apply]
    dsimp only
    rw [hended]
    rfl

/-- The actions of a decision fail and leave the service, or bring about what was decided. -/
private theorem executeAll_actions_cases (hkeeps : f.keepsTasks = false) (hs : f.find? s = some h) {count : Nat}
    (hd : d.target? = some count) :
    (∃ e g, ((manager.executeAll (d.actions s)) f).value = (.error e, g) ∧ g.find? s = some h) ∨
    (∃ g, ((manager.executeAll (d.actions s)) f).value = (.ok (), g) ∧ g.find? s = some (h.scale s count false)) := by
  have hscale := perform_setDesiredCount_cases hkeeps hs count
  cases d <;> cases hd <;> simp only [Decision.actions, Manager.executeAll_cons_value]
  case stop =>
    rcases hscale with ⟨e, g, he, hg⟩ | ⟨g, he, hname, hg⟩
    · rw [he]
      exact Or.inl ⟨e, g, rfl, hg⟩
    · -- Nothing is kept running, so the second action finds no task that it could fail to end.
      have hnil : (h.scale s 0 false).tasks = [] := by
        rw [← List.length_eq_zero_iff, Hosted.length_tasks_scale]
        rfl
      rw [he]
      dsimp only
      rw [perform_stopRunningTasks hname hg hnil]
      exact Or.inr ⟨_, rfl, hg⟩
  all_goals
    rcases hscale with ⟨e, g, he, hg⟩ | ⟨g, he, -, hg⟩ <;> rw [he]
    · exact Or.inl ⟨e, g, rfl, hg⟩
    · exact Or.inr ⟨g, rfl, hg⟩

/-- Carrying out a decision fails and leaves the service, or brings about what was decided. -/
theorem carryOut_cases (hkeeps : f.keepsTasks = false) (hs : f.find? s = some h) {count : Nat}
    (hd : d.target? = some count) :
    (∃ o g, (Agenda.carryOut manager s d f).value = (o, g) ∧ o.service = s ∧ o.error ≠ none ∧ g.find? s = some h) ∨
    (∃ g, (Agenda.carryOut manager s d f).value = ({ service := s, decision := d, applied := true }, g) ∧
      g.find? s = some (h.scale s count false)) := by
  rw [Agenda.carryOut_value]
  rcases executeAll_actions_cases hkeeps hs hd with ⟨e, g, he, hg⟩ | ⟨g, he, hg⟩
  · rw [he]
    exact Or.inl ⟨_, g, rfl, rfl, nofun, hg⟩
  · rw [he]
    exact Or.inr ⟨g, rfl, hg⟩

end Fleet

/-! ### Visits -/

namespace Fleet

/-- The fleet is consistent and scales at once. -/
structure Orderly (f : Fleet) : Prop where
  consistent : f.Consistent
  keepsTasks : f.keepsTasks = false

theorem Orderly.keepsOn (s : Service) : manager.KeepsOn Orderly s :=
  keepsOn_manager fun f c hc h =>
    ⟨h.consistent.after (.call c), (localTo_afterCall f hc).keepsTasks.trans h.keepsTasks⟩

/-- From `f` to `g` the service `s` was at most described. -/
def Looked (s : Service) (f g : Fleet) : Prop :=
  g = f ∨ g = f.record (.describe s)

theorem Looked.find? {s : Service} {f g : Fleet} (h : Looked s f g) (t : Service) : g.find? t = f.find? t := by
  rcases h with rfl | rfl <;> rfl

private theorem Looked.failingDescribe {s : Service} {f g : Fleet} (h : Looked s f g) :
    g.failingDescribe = f.failingDescribe := by
  rcases h with rfl | rfl <;> rfl

end Fleet

namespace Agenda

variable {a : Agenda} {now : Timestamp} {f g : Fleet} {p q : Plan} {t : Transition} {h : Hosted}

/-- What is decided on the plan `p` when its service is seen as `h` and `t` is its last transition. -/
def decisionOn (a : Agenda) (p : Plan) (t : Transition) (h : Hosted) : Decision :=
  Decision.ofStatus h.status t.state t.count (a.week.known p.service)

/-- A visit of the plan `p` gets as far as a decision: it sees its service as `h`, and `t` is its last transition. -/
structure Faces (a : Agenda) (now : Timestamp) (f : Fleet) (p : Plan) (t : Transition) (h : Hosted) : Prop where
  enabled : p.disabled = false
  transition : a.week.lastTransition p.service now = some t
  described : p.service ∉ f.failingDescribe
  hosted : f.find? p.service = some h

/-- All that a visit of the plan `p` can do, to the outcome and the fleet after it. -/
inductive Visited (a : Agenda) (now : Timestamp) (f : Fleet) (p : Plan) : Outcome × Fleet → Prop
  | unseen {reason : SkipCause} {g : Fleet} (hface : ∀ t h, ¬a.Faces now f p t h) (hlook : f.Looked p.service g) :
    a.Visited now f p (skipped p reason, g)
  | rested {t : Transition} {h : Hosted} (hface : a.Faces now f p t h) (hrest : (a.decisionOn p t h).isChange = false) :
    a.Visited now f p ({ service := p.service, decision := a.decisionOn p t h }, f.record (.describe p.service))
  | failed {t : Transition} {h : Hosted} {o : Outcome} {g : Fleet} (hface : a.Faces now f p t h)
    (hchange : (a.decisionOn p t h).isChange = true) (hservice : o.service = p.service) (herror : o.error ≠ none)
    (hsame : g.find? p.service = some h) : a.Visited now f p (o, g)
  | changed {t : Transition} {h h' : Hosted} {g : Fleet} (hface : a.Faces now f p t h)
    (hchange : (a.decisionOn p t h).isChange = true) (hafter : g.find? p.service = some h') (hmeets : h'.Meets t) :
    a.Visited now f p ({ service := p.service, decision := a.decisionOn p t h, applied := true }, g)

/-- A decision that changes something aims at what the transition asks for. -/
private theorem target_decisionOn (hc : h.Consistent) (hchange : (a.decisionOn p t h).isChange = true) :
    (a.decisionOn p t h).target? = some (if t.state.isRunning then max 1 t.count else 0) := by
  unfold decisionOn at *
  rcases Decision.ofStatus_cases hc t (a.week.known p.service) with ⟨he, -⟩ | ⟨he, -⟩ | ⟨he, -⟩
  · rw [he] at hchange
    cases hchange
  · rw [he] at hchange
    cases hchange
  · exact he

/-- What a visit does is one of these. -/
theorem visited (a : Agenda) (now : Timestamp) (hf : f.Orderly) (p : Plan) :
    a.Visited now f p (a.visit Fleet.manager now false p f).value := by
  have hdescribe : (Fleet.manager.describe p.service f).value = Fleet.describe p.service f := rfl
  simp only [visit_value, hdescribe, Bool.not_false, Bool.and_true]
  split
  · rename_i hdisabled
    exact .unseen (fun t h hface => absurd hdisabled (Bool.eq_false_iff.mp hface.enabled)) (Or.inl rfl)
  · rename_i henabled
    split
    · rename_i hnone
      exact .unseen (fun t h hface => absurd (hnone.symm.trans hface.transition) nofun) (Or.inl rfl)
    · rename_i t ht
      by_cases hfail : p.service ∈ f.failingDescribe
      · simp only [Fleet.describe, List.contains_iff_mem.mpr hfail, if_true]
        exact .unseen (fun t h hface => hface.described hfail) (Or.inr rfl)
      · rcases hs : f.find? p.service with - | h
        · simp only [Fleet.describe, List.contains_iff_mem, hfail, if_false, hs]
          exact .unseen (fun t h hface => absurd (hs.symm.trans hface.hosted) nofun) (Or.inr rfl)
        · have hface : a.Faces now f p t h := ⟨Bool.eq_false_iff.mpr henabled, ht, hfail, hs⟩
          simp only [Fleet.describe, List.contains_iff_mem, hfail, if_false, hs]
          split
          · rename_i hchange
            have hd := target_decisionOn (hf.consistent.of_find? hs) hchange
            rcases Fleet.carryOut_cases (f := f.record (.describe p.service)) hf.keepsTasks hs hd with
              ⟨o, g, he, hservice, herror, hsame⟩ | ⟨g, he, hafter⟩
            · exact he ▸ .failed hface hchange hservice herror hsame
            · exact he ▸ .changed hface hchange hafter (h.meets_scale p.service t)
          · rename_i hrest
            exact .rested hface (Bool.eq_false_iff.mpr hrest)

theorem localTo_visit (a : Agenda) (now : Timestamp) (f : Fleet) (p : Plan) :
    f.LocalTo p.service (a.visit Fleet.manager now false p f).value.2 :=
  a.keeps_visit now false (Fleet.LocalTo.keepsOn p.service f) f (Fleet.LocalTo.refl p.service f)

theorem orderly_visit (a : Agenda) (now : Timestamp) (hf : f.Orderly) (p : Plan) :
    (a.visit Fleet.manager now false p f).value.2.Orderly :=
  a.keeps_visit now false (Fleet.Orderly.keepsOn p.service) f hf

/-- A visit that neither skips nor fails leaves the service as its last transition asks, except for one whose state is
unknown and that is to be stopped. -/
theorem meets_of_visit (hf : f.Orderly) (herror : (a.visit Fleet.manager now false p f).value.1.error = none)
    (hskip : ∀ reason, (a.visit Fleet.manager now false p f).value.1.decision ≠ .skip reason) :
    ∃ t h, a.Faces now f p t h ∧ ((h.state = .unknown ∧ t.state = .stopped) ∨
      ∃ h', (a.visit Fleet.manager now false p f).value.2.find? p.service = some h' ∧ h'.Meets t) := by
  have hv := a.visited now hf p
  generalize (a.visit Fleet.manager now false p f).value = r at hv herror hskip ⊢
  cases hv with
  | unseen _ _ => exact absurd rfl (hskip _)
  | rested hface hrest =>
    rename_i t h
    refine ⟨t, h, hface, ?_⟩
    unfold decisionOn at hrest hskip
    rcases Decision.ofStatus_cases (hf.consistent.of_find? hface.hosted) t (a.week.known p.service) with
      ⟨he, -⟩ | ⟨-, hmeets | hunknown⟩ | ⟨htarget, -⟩
    · exact absurd he (hskip _)
    · exact Or.inr ⟨h, hface.hosted, hmeets⟩
    · exact Or.inl hunknown
    · rw [Decision.isChange_eq_isSome_target, htarget] at hrest
      cases hrest
  | failed _ _ _ herror' _ => exact absurd herror herror'
  | changed hface _ hafter hmeets => exact ⟨_, _, hface, Or.inr ⟨_, hafter, hmeets⟩⟩

/-! ### Idle plans -/

/-- A visit of the plan would decide to change nothing, if it got as far as a decision. -/
def Idle (a : Agenda) (now : Timestamp) (f : Fleet) (p : Plan) : Prop :=
  ∀ t h, a.Faces now f p t h → (a.decisionOn p t h).isChange = false

private theorem Faces.of_same (hface : a.Faces now g p t h) (hfail : g.failingDescribe = f.failingDescribe)
    (hsame : g.find? p.service = f.find? p.service) : a.Faces now f p t h :=
  ⟨hface.enabled, hface.transition, hfail ▸ hface.described, hsame ▸ hface.hosted⟩

private theorem Idle.of_same (hi : a.Idle now f p) (hfail : g.failingDescribe = f.failingDescribe)
    (hsame : g.find? p.service = f.find? p.service) : a.Idle now g p :=
  fun t h hface => hi t h (hface.of_same hfail hsame)

private theorem Faces.of_service (hface : a.Faces now f q t h) (hp : p.disabled = false)
    (hservice : q.service = p.service) :
    a.Faces now f p t h :=
  ⟨hp, hservice ▸ hface.transition, hservice ▸ hface.described, hservice ▸ hface.hosted⟩

private theorem decisionOn_of_service (a : Agenda) (hservice : q.service = p.service) (t : Transition) (h : Hosted) :
    a.decisionOn q t h = a.decisionOn p t h := by
  unfold decisionOn
  rw [hservice]

/-- A visit of an idle plan only looks, and has nothing to report. -/
theorem visit_of_idle (hf : f.Orderly) (hi : a.Idle now f p) :
    (a.visit Fleet.manager now false p f).value.1.decision.isChange = false ∧
      f.Looked p.service (a.visit Fleet.manager now false p f).value.2 := by
  have hv := a.visited now hf p
  generalize (a.visit Fleet.manager now false p f).value = r at hv ⊢
  cases hv with
  | unseen _ hlook => exact ⟨rfl, hlook⟩
  | rested _ hrest => exact ⟨hrest, Or.inr rfl⟩
  | failed hface hchange _ _ _ =>
    rw [hi _ _ hface] at hchange
    cases hchange
  | changed hface hchange _ _ =>
    rw [hi _ _ hface] at hchange
    cases hchange

/-- A plan of a service that is as its last transition asks is idle. -/
theorem idle_of_meets (ht : a.week.lastTransition p.service now = some t) (hs : f.find? p.service = some h)
    (hm : h.Meets t) : a.Idle now f p := by
  intro t' h' hface
  cases ht.symm.trans hface.transition
  cases hs.symm.trans hface.hosted
  exact congrArg Decision.isChange (Decision.ofStatus_of_meets hm)

/-- A visit without an error leaves nothing to do. -/
theorem idle_of_visit (hf : f.Orderly) (herror : (a.visit Fleet.manager now false p f).value.1.error = none) :
    a.Idle now (a.visit Fleet.manager now false p f).value.2 p := by
  have hlocal := a.localTo_visit now f p
  have hv := a.visited now hf p
  generalize (a.visit Fleet.manager now false p f).value = r at hlocal hv herror ⊢
  cases hv with
  | unseen hface hlook =>
    -- A visit that did not get as far as a decision does not get there the next time.
    intro t h hface'
    exact absurd (hface'.of_same hlook.failingDescribe (hlook.find? p.service)) (hface t h)
  | rested hface hrest =>
    intro t h hface'
    cases hface.transition.symm.trans hface'.transition
    cases hface.hosted.symm.trans hface'.hosted
    exact hrest
  | failed _ _ _ herror' _ => exact absurd herror herror'
  | changed hface _ hafter hmeets => exact idle_of_meets hface.transition hafter hmeets

/-- No visit makes an idle plan busy, not even one of another plan of the same service. -/
theorem Idle.visit (hi : a.Idle now f p) (hf : f.Orderly) (q : Plan) :
    a.Idle now (a.visit Fleet.manager now false q f).value.2 p := by
  have hlocal := a.localTo_visit now f q
  by_cases hservice : q.service = p.service
  · -- Both plans share the last transition, so a visit of `q` finds as little to do as one of `p`.
    by_cases hp : p.disabled = false
    · have hq : a.Idle now f q := fun t h hface =>
        (a.decisionOn_of_service hservice t h).symm ▸ hi t h (hface.of_service hp hservice)
      have hlook := (visit_of_idle hf hq).2
      exact hi.of_same hlook.failingDescribe (hlook.find? p.service)
    · exact fun t h hface => absurd hface.enabled hp
  · exact hi.of_same hlocal.failingDescribe (hlocal.find?_of_ne p.service (Ne.symm hservice))

end Agenda

end ServiceHours
