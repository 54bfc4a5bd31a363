import Sluice.Proofs.Clockwork
import Sluice.Proofs.Contest.Refill
import Sluice.Proofs.Delivery.Pace

/-!
# The books of a contest balance

A contest that has been set up is a course at its start, at which nothing is counted and all backlogs are empty
(`Enlisted`). Each event of `Contest.step` is one move of a course or a few in a row, and the clockwork makes nothing
but such events (`Stands`), so whatever holds in every course holds of every schedule of events and of `Contest.run`.

`books_balance` puts this together.
-/

namespace Sluice

namespace Contest

open Deliverer

variable {settings : DelivererSettings} {o : Options} {environment : Option String} {c c' c₀ : Contest}
  {event : Event} {stage : Stage}

/-! ### What does not change -/

/-- Two contests among the same targets, with resources of one size and backlogs of one length. -/
structure Alike (c c' : Contest) : Prop where
  targets : c.targets = c'.targets
  chunkSize : c.chunkSize = c'.chunkSize
  backlog : c.backlog = c'.backlog

namespace Alike

theorem refl (c : Contest) : Alike c c := ⟨rfl, rfl, rfl⟩

theorem work {event : Deliverer.Event Chunk} (x : Alike c c₀) (hwork : c.work event = some c') : Alike c' c₀ := by
  obtain ⟨reply, d', speed, final, -, rfl, -⟩ := work_eq_some hwork
  exact { x with }

end Alike

namespace Course

variable {m m' : Course}

theorem alike_work {event : Deliverer.Event Chunk} (x : m.contest.Alike c₀) (hwork : m.work event = some m') :
    m'.contest.Alike c₀ := by
  obtain ⟨c', hevent, rfl⟩ := Option.map_eq_some_iff.mp hwork
  exact x.work hevent

theorem alike_goOn (x : m.contest.Alike c₀) (hgo : m.goOn = some m') : m'.contest.Alike c₀ := by
  rw [goOn] at hgo
  split at hgo
  · cases hgo
    exact x
  · cases hgo
    exact x
  · cases hgo
    exact x
  · split at hgo
    · cases hgo
      exact { x with }
    · cases hgo
      exact x
  · obtain ⟨m₁, hwork, rfl⟩ := Option.map_eq_some_iff.mp hgo
    show m₁.contest.Alike c₀
    exact alike_work x hwork
  · cases hgo

theorem alike_step {move : Move} (x : m.contest.Alike c₀) (hstep : m.step move = some m') :
    m'.contest.Alike c₀ := by
  cases move with
  | goOn => exact alike_goOn x hstep
  | dismissed => exact alike_work x hstep
  | elapse span => exact alike_work x hstep
  | beginRefill =>
    rw [step, Option.ite_none_right_eq_some] at hstep
    cases hstep.2
    exact x
  | gauge =>
    rw [step, Option.ite_none_right_eq_some] at hstep
    obtain ⟨c', hevent, rfl⟩ := Option.map_eq_some_iff.mp hstep.2
    exact { x.work hevent with }
  | measure =>
    rw [step, Option.ite_none_right_eq_some] at hstep
    obtain ⟨m₁, hwork, rfl⟩ := Option.map_eq_some_iff.mp hstep.2
    show m₁.contest.Alike c₀
    exact alike_work x hwork
  | task event =>
    obtain ⟨c', hoccur, rfl⟩ := Option.map_eq_some_iff.mp hstep
    exact x.work (occur_move_eq_some.mp hoccur).2
  | count =>
    rw [step, Option.ite_none_left_eq_some] at hstep
    obtain ⟨delivery, -, rfl⟩ := Option.map_eq_some_iff.mp hstep.2
    exact { x with }
  | answer =>
    rw [step, Option.ite_none_right_eq_some] at hstep
    obtain ⟨m₁, hwork, rfl⟩ := Option.map_eq_some_iff.mp hstep.2
    show m₁.contest.Alike c₀
    exact alike_work x hwork

theorem Leads.alike (l : Leads { contest := c₀ } m) : m.contest.Alike c₀ := by
  obtain ⟨moves, rfl⟩ := l
  exact after_induction (P := fun m => m.contest.Alike c₀) (.refl c₀) (fun _ _ _ => alike_step) moves

end Course

/-! ### The start -/

/-- The contest that is set up for some options, once the targets are registered. -/
def opening (o : Options) (targets : List TargetId) (deliverer : Deliverer Chunk) : Contest :=
  { deliverer, targets, chunkSize := o.chunkSize, backlog := o.backlog }

/-- A deliverer in service to which nothing has happened but that some targets were registered. -/
structure Enlisted (settings : DelivererSettings) (targets : List TargetId) (d : Deliverer Chunk) : Prop where
  lived : ∃ h, Lived settings h d ∧ (∀ e ∈ registrations h, e.1 ∈ targets) ∧ submissions h = []
  serving : d.Serving
  settings : d.queue.settings = settings.queue
  empty : ∀ t ∈ targets, d.pendingOf t = some 0
  fresh : d.deliveredResources = 0

namespace Enlisted

variable {targets old : List TargetId} {d d' : Deliverer Chunk}

theorem new (settings : DelivererSettings) : Enlisted settings [] (Deliverer.ofSettings settings) where
  lived := ⟨[], .new settings, nofun, rfl⟩
  serving := .ofSettings settings
  settings := rfl
  empty := nofun
  fresh := rfl

/-- One more target is registered. -/
theorem addTarget {t : TargetId} {priority : Number.Single} (x : Enlisted settings old d)
    (hadd : d.addTarget t priority = .ok d') : Enlisted settings (old ++ [t]) d' := by
  obtain ⟨h, l, hregistered, hsubmitted⟩ := x.lived
  obtain ⟨-, r, queue, hqueue, hd'⟩ := addTarget_eq_ok hadd
  have hstep : d.step (.addTarget t priority) = some (.result (.ok ()), d') := by
    rw [Deliverer.step, if_pos x.serving.hasHandle, hadd]
    rfl
  refine ⟨⟨_, l.step hstep, fun e he => ?_, ?_⟩, x.serving.addTarget hadd, ?_, fun u hu => ?_, ?_⟩
  · rw [registrations_snoc] at he
    rcases List.mem_append.mp he with he | he
    · exact List.mem_append_left _ (hregistered e he)
    · change e ∈ ((d'.sinks.get? t).map (t, ·)).toList at he
      obtain ⟨sink, -, rfl⟩ := Option.map_eq_some_iff.mp (Option.mem_toList.mp he)
      exact List.mem_append_right _ (List.mem_singleton.mpr rfl)
  · rw [submissions_snoc_nil h rfl]
    exact hsubmitted
  · rw [hd']
    exact (FairQueue.settings_addTarget l.sound hqueue).trans x.settings
  · have hpending : d'.pendingOf u = if u = t then some 0 else d.pendingOf u := by
      rw [hd']
      exact FairQueue.pendingOf_addTarget l.sound hqueue
    rw [hpending]
    split
    · rfl
    · next hne => exact x.empty u ((List.mem_append.mp hu).resolve_right fun ht => hne (List.mem_singleton.mp ht))
  · rw [hd']
    exact x.fresh

/-- The targets of a list of priorities are registered one after the other. -/
theorem enlist {first : Nat} {priorities : List Number.Single} (x : Enlisted settings old d)
    (henlist : enlist first priorities d = .ok (targets, d')) :
    Enlisted settings (old ++ targets) d' ∧ targets = (List.range' first priorities.length).map Id.mk := by
  induction priorities generalizing first old d targets with
  | nil =>
    cases henlist
    exact ⟨(List.append_nil old).symm ▸ x, rfl⟩
  | cons priority rest ih =>
    rw [Contest.enlist] at henlist
    cases hadd : d.addTarget ⟨first⟩ priority with
    | error e =>
      rw [hadd] at henlist
      cases henlist
    | ok d₁ =>
      rw [hadd] at henlist
      change (Contest.enlist (first + 1) rest d₁ >>= _) = _ at henlist
      cases hrest : Contest.enlist (first + 1) rest d₁ with
      | error e =>
        rw [hrest] at henlist
        cases henlist
      | ok result =>
        rw [hrest] at henlist
        cases henlist
        obtain ⟨x', htargets⟩ := ih (x.addTarget hadd) hrest
        rw [List.append_assoc] at x'
        exact ⟨x', congrArg (⟨first⟩ :: ·) htargets⟩

/-- A contest has balanced books at its start. -/
theorem accounted (x : Enlisted settings targets d) (hnodup : targets.Nodup) :
    Course.Accounted settings { contest := opening o targets d } := by
  obtain ⟨h, l, hregistered, hsubmitted⟩ := x.lived
  have hnone : ∀ t, (opening o targets d).receivedBy t = 0 := fun t => by
    rw [receivedBy, opening, Roster.get?_empty, Option.getD_none]
  refine ⟨⟨h, l, hregistered, fun s hs => ?_⟩, hnodup, Bool.false_ne_true.elim, fun t => ?_, ?_,
    fun stats hstats => ?_⟩
  · rw [hsubmitted] at hs
    cases hs
  · exact (hnone t).symm ▸ Nat.dvd_zero _
  · show (targets.map (opening o targets d).receivedBy).sum = o.chunkSize * (d.deliveredResources + 0)
    rw [funext hnone, x.fresh, List.map_const', List.sum_replicate_nat]
    rfl
  · cases hstats

/-- A contest has room for its backlogs at its start. -/
theorem supplied (x : Enlisted settings targets d) (hroom : o.backlog ≤ settings.maxBacklog) :
    Course.Supplied { contest := opening o targets d } where
  room := by
    show o.backlog ≤ d.queue.settings.maxBacklog
    rw [x.settings]
    exact hroom
  waiting t ht := ⟨0, x.empty t ht⟩
  serving _ := x.serving
  fits := nofun

end Enlisted

/-- The settings leave room for the backlog. -/
theorem backlog_le_of_settings? (h : o.settings? environment = .ok settings) : o.backlog ≤ settings.maxBacklog := by
  rw [Options.settings?] at h
  cases hproduct : Room.product o.window 1000 with
  | error shortage =>
    rw [hproduct] at h
    cases h
  | ok window =>
    rw [hproduct] at h
    cases h
    exact Nat.le_max_right _ _

/-- The start of a contest is that of a course in which the books balance and the targets are supplied. -/
theorem kept_opening {targets : List TargetId} {d₀ d : Deliverer Chunk}
    (hsettings : o.settings? environment = .ok settings) (hbuilt : Deliverer.ofSettings? settings = .ok d₀)
    (henlist : enlist 1 o.priorities d₀ = .ok (targets, d)) :
    Course.Accounted settings { contest := opening o targets d } ∧
      Course.Supplied { contest := opening o targets d } := by
  rw [(ofSettings?_eq_ok hbuilt).2] at henlist
  obtain ⟨x, htargets⟩ := (Enlisted.new settings).enlist henlist
  rw [List.nil_append] at x
  have hnodup : targets.Nodup := by
    rw [htargets]
    exact List.Nodup.map (fun a b hab => congrArg Id.raw hab) List.nodup_range'
  exact ⟨x.accounted hnodup, x.supplied (backlog_le_of_settings? hsettings)⟩

/-- With the targets registered, all that can be missing is room for a resource. -/
theorem start?_eq {targets : List TargetId} {d₀ d : Deliverer Chunk}
    (hbuilt : Deliverer.ofSettings? settings = .ok d₀)
    (henlist : enlist 1 o.priorities d₀ = .ok (targets, d)) :
    start? o settings = ((Room.things o.chunkSize).mapError .noRoom).map fun _ => opening o targets d := by
  rw [start?, hbuilt]
  change ((enlist 1 o.priorities d₀).mapError ContestError.refused >>= _) = _
  rw [henlist]
  change ((Room.things o.chunkSize).mapError ContestError.noRoom >>= _) = _
  cases Room.things o.chunkSize <;> rfl

/-! ### Whole events -/

/-- What a contest becomes in a sequence of events. Those that cannot happen in their turn are passed over. -/
def after (c : Contest) (events : List Event) : Contest := events.foldl (fun c event => (c.occur event).getD c) c

theorem speed_work {event : Deliverer.Event Chunk} (hspeed : c.speed.isSome = true) (hwork : c.work event = some c') :
    c'.speed.isSome = true := by
  obtain ⟨⟨reply, d'⟩, -, rfl⟩ := Option.map_eq_some_iff.mp hwork
  cases reply with
  | speed => rfl
  | _ => exact hspeed

/-- The speed is not forgotten. -/
theorem speed_step (hspeed : c.speed.isSome = true) (hstep : c.step event = some (.ok c')) :
    c'.speed.isSome = true := by
  have worked : ∀ {event}, (c.work event).map Except.ok = some (.ok c' : Except DeliveryError Contest) →
      c'.speed.isSome = true := fun h => by
    obtain ⟨c₁, hwork, hc⟩ := Option.map_eq_some_iff.mp h
    cases hc
    exact speed_work hspeed hwork
  cases event with
  | refill =>
    rw [step, if_pos hspeed] at hstep
    cases hstep
  | finish =>
    rw [step, if_pos hspeed] at hstep
    cases hstep
  | move event =>
    rw [step, Option.ite_none_right_eq_some] at hstep
    exact worked hstep.2
  | take =>
    obtain ⟨delivery, -, hstep⟩ := Option.bind_eq_some_iff.mp hstep
    obtain ⟨c₁, hwork, hc⟩ := Option.map_eq_some_iff.mp hstep
    cases hc
    show c₁.speed.isSome = true
    exact speed_work hspeed hwork
  | dismissed =>
    rw [step] at hstep
    exact worked hstep
  | elapse span =>
    rw [step] at hstep
    exact worked hstep

/-- The speed is known after it has been measured. -/
theorem speed_measure (hwork : c.work .measure = some c') : c'.speed.isSome = true := by
  obtain ⟨⟨reply, d'⟩, hstep, rfl⟩ := Option.map_eq_some_iff.mp hwork
  rw [Deliverer.step, Option.ite_none_right_eq_some] at hstep
  cases hstep.2
  rfl

/-- A course that began with a contest leads to another one, where nothing is counted that has not been answered to. -/
def Stands (c₀ : Contest) (stage : Stage) (c : Contest) : Prop :=
  ∃ begun, Course.Leads { contest := c₀ } { contest := c, stage, begun }

namespace Stands

open Course (Leads)

theorem start (c₀ : Contest) : Stands c₀ .waiting c₀ := ⟨none, .refl _⟩

theorem alike (x : Stands c₀ stage c) : c.Alike c₀ := by
  obtain ⟨begun, l⟩ := x
  exact l.alike

/-- The sink that the handler visits counts its resource and answers. -/
theorem take (x : Stands c₀ stage c) {result : Except DeliveryError Contest} (hstep : c.step .take = some result) :
    ∃ c', result = .ok c' ∧ Stands c₀ stage c' := by
  obtain ⟨begun, l⟩ := x
  obtain ⟨delivery, hoffered, hwork⟩ := Option.bind_eq_some_iff.mp hstep
  obtain ⟨c₁, hevent, rfl⟩ := Option.map_eq_some_iff.mp hwork
  have hcount : Course.step { contest := c, stage, begun } .count =
      some { contest := c.countIn delivery, stage, begun, counted := true } := by
    show c.offered?.map _ = _
    rw [hoffered]
    rfl
  have hanswer : Course.step { contest := c.countIn delivery, stage, begun, counted := true } .answer =
      some { contest := c₁.countIn delivery, stage, begun } := by
    show (((c.countIn delivery).work (.deliverReturns .accepted)).map _).map _ = _
    rw [work_countIn, hevent]
    rfl
  exact ⟨c₁.countIn delivery, rfl, begun,
    l.trans ((Leads.of_step .count hcount).trans (.of_step .answer hanswer))⟩

/-- What is up to the deliverer's tasks, the sinks or the clock. -/
theorem other (x : Stands c₀ stage c) {result : Except DeliveryError Contest} (hstep : c.step event = some result)
    (hrefill : event ≠ .refill) (hfinish : event ≠ .finish) : ∃ c', result = .ok c' ∧ Stands c₀ stage c' := by
  have one : ∀ {c'} move, (∀ begun, Course.step { contest := c, stage, begun } move =
      some { contest := c', stage, begun }) → Stands c₀ stage c' := fun move hmove => by
    obtain ⟨begun, l⟩ := x
    exact ⟨begun, l.trans (.of_step move (hmove begun))⟩
  cases event with
  | refill => exact absurd rfl hrefill
  | finish => exact absurd rfl hfinish
  | take => exact x.take hstep
  | move event =>
    rw [Contest.step, Option.ite_none_right_eq_some] at hstep
    obtain ⟨c', hevent, rfl⟩ := Option.map_eq_some_iff.mp hstep.2
    refine ⟨c', rfl, one (.task event) fun begun => ?_⟩
    rw [Course.step, occur_move_eq_some.mpr ⟨hstep.1, hevent⟩]
    rfl
  | dismissed =>
    rw [Contest.step] at hstep
    obtain ⟨c', hevent, rfl⟩ := Option.map_eq_some_iff.mp hstep
    refine ⟨c', rfl, one .dismissed fun begun => ?_⟩
    rw [Course.step, Course.work, hevent]
    rfl
  | elapse span =>
    rw [Contest.step] at hstep
    obtain ⟨c', hevent, rfl⟩ := Option.map_eq_some_iff.mp hstep
    refine ⟨c', rfl, one (.elapse span) fun begun => ?_⟩
    rw [Course.step, Course.work, hevent]
    rfl

/-- The speed is measured and the deliverer is told to stop. -/
theorem finish (x : Stands c₀ .waiting c) {result : Except DeliveryError Contest}
    (hstep : c.step .finish = some result) :
    ∃ c', result = .ok c' ∧ Stands c₀ .stopping c' ∧ c'.speed.isSome = true := by
  obtain ⟨begun, l⟩ := x
  rw [Contest.step, Option.ite_none_left_eq_some] at hstep
  obtain ⟨c', hboth, rfl⟩ := Option.map_eq_some_iff.mp hstep.2
  obtain ⟨c₁, hmeasure, hstop⟩ := Option.bind_eq_some_iff.mp hboth
  have hmeasured : Course.step { contest := c, begun } .measure =
      some { contest := c₁, stage := .measured, begun } := by
    show ((c.work .measure).map _).map _ = _
    rw [hmeasure]
    rfl
  have hstopping : Course.step { contest := c₁, stage := .measured, begun } .goOn =
      some { contest := c', stage := .stopping, begun } := by
    show ((c₁.work (.stop stopCall)).map _).map _ = _
    rw [hstop]
    rfl
  exact ⟨c', rfl, ⟨begun, l.trans ((Leads.of_step .measure hmeasured).trans (.of_step .goOn hstopping))⟩,
    speed_work (speed_measure hmeasure) hstop⟩

end Stands

/-! ### Schedules of events -/

/-- A contest that some events have led to: either it goes on, or its speed has been measured and its deliverer has been
told to stop. -/
def Underway (c₀ c : Contest) : Prop := Stands c₀ .waiting c ∨ Stands c₀ .stopping c ∧ c.speed.isSome = true

theorem Underway.alike (x : Underway c₀ c) : c.Alike c₀ := by
  rcases x with x | ⟨x, -⟩
  · exact x.alike
  · exact x.alike

/-! ### The schedule of the clockwork -/

/-- The tasks of the clockwork make no event but those of the deliverer's tasks and of the sinks. -/
theorem tasksKeep_stands : clockwork.TasksKeep (Stands c₀ stage) := by
  intro task htask c c' x hmove
  cases List.mem_singleton.mp htask
  obtain ⟨event, hevent, hoccur⟩ := List.exists_of_findSome?_eq_some hmove
  have hother : event ≠ .refill ∧ event ≠ .finish := by
    rcases List.mem_cons.mp hevent with rfl | hevent
    · exact ⟨nofun, nofun⟩
    · rcases List.mem_cons.mp hevent with rfl | hevent
      · exact ⟨nofun, nofun⟩
      · obtain ⟨event, -, rfl⟩ := List.mem_map.mp hevent
        exact ⟨nofun, nofun⟩
  obtain ⟨c₁, hc₁, x'⟩ := x.other (occur_eq_some.mp hoccur) hother.1 hother.2
  cases hc₁
  exact x'

theorem Stands.setClock (x : Stands c₀ stage c) (t : Nat) : Stands c₀ stage (clockwork.setClock t c) := by
  show Stands c₀ stage ((c.occur (.elapse (t - c.deliverer.now))).getD c)
  cases hoccur : c.occur (.elapse (t - c.deliverer.now)) with
  | none => exact x
  | some c' =>
    obtain ⟨c₁, hc₁, x'⟩ := x.other (occur_eq_some.mp hoccur) nofun nofun
    cases hc₁
    exact x'

theorem Stands.settle (x : Stands c₀ stage c) : Stands c₀ stage (clockwork.settle c) :=
  Clockwork.settle_keeps tasksKeep_stands x

theorem Stands.advanceTo (x : Stands c₀ stage c) (limit : Nat) : Stands c₀ stage (clockwork.advanceTo limit c) :=
  Clockwork.advanceTo_keeps tasksKeep_stands (fun t _ x => x.setClock t) limit x

/-- The end of a run. -/
theorem Stands.finished (x : Stands c₀ .waiting c) : ∃ stage, Stands c₀ stage ((c.occur .finish).getD c) := by
  cases hoccur : c.occur .finish with
  | none => exact ⟨_, x⟩
  | some c' =>
    obtain ⟨c₁, hc₁, x', -⟩ := x.finish (occur_eq_some.mp hoccur)
    cases hc₁
    exact ⟨_, x'⟩

/-- What keeps a contest from being started keeps it from being held. -/
theorem run_eq_error {e : ContestError} (hsettings : o.settings? environment = .ok settings)
    (hstart : start? o settings = .error e) : run o environment = .error e := by
  rw [run, hsettings]
  change (start? o settings >>= _) = _
  rw [hstart]
  rfl

/-! ### What holds of every schedule -/

section

variable (a₀ : Course.Accounted settings { contest := c₀ }) (s₀ : Course.Supplied { contest := c₀ })

include a₀ s₀

/-- A refill succeeds, and afterwards all backlogs are full. -/
theorem Stands.refill (x : Stands c₀ .waiting c) :
    ∃ c', c.refill = .ok c' ∧ Stands c₀ .waiting c' ∧ c'.Full := by
  obtain ⟨begun, l⟩ := x
  obtain ⟨a, s⟩ := l.kept a₀ s₀
  obtain ⟨c', hrefill, hfull, hleads⟩ := Course.leads_refill a s rfl
  exact ⟨c', hrefill, ⟨_, l.trans hleads⟩, hfull⟩

/-- The counts balance with the counters that stopping the deliverer has answered with, or with the present ones. -/
theorem Stands.balanced (x : Stands c₀ stage c) : c.Balanced (c.final.getD c.deliverer.stats) := by
  obtain ⟨begun, l⟩ := x
  obtain ⟨a, -⟩ := l.kept a₀ s₀
  cases hfinal : c.final with
  | none => exact a.balanced_of_eq rfl rfl rfl
  | some stats => exact a.balanced_final hfinal

/-- **The step.** An event never fails, and after a refill all backlogs are full. -/
theorem Underway.step (x : Underway c₀ c) {result : Except DeliveryError Contest}
    (hstep : c.step event = some result) :
    ∃ c', result = .ok c' ∧ Underway c₀ c' ∧ (event = .refill → c'.Full) := by
  rcases x with x | ⟨x, hspeed⟩
  · by_cases hrefill : event = .refill
    · obtain ⟨c', hc', x', hfull⟩ := x.refill a₀ s₀
      rw [hrefill, Contest.step, Option.ite_none_left_eq_some, hc'] at hstep
      cases hstep.2
      exact ⟨c', rfl, .inl x', fun _ => hfull⟩
    · by_cases hfinish : event = .finish
      · rw [hfinish] at hstep
        obtain ⟨c', rfl, x'⟩ := x.finish hstep
        exact ⟨c', rfl, .inr x', fun h => absurd h hrefill⟩
      · obtain ⟨c', rfl, x'⟩ := x.other hstep hrefill hfinish
        exact ⟨c', rfl, .inl x', fun h => absurd h hrefill⟩
  · -- There is no refill any more, and no second end.
    have hrefill : event ≠ .refill := by
      rintro rfl
      rw [Contest.step, if_pos hspeed] at hstep
      cases hstep
    have hfinish : event ≠ .finish := by
      rintro rfl
      rw [Contest.step, if_pos hspeed] at hstep
      cases hstep
    obtain ⟨c', rfl, x'⟩ := x.other hstep hrefill hfinish
    exact ⟨c', rfl, .inr ⟨x', speed_step hspeed hstep⟩, fun h => absurd h hrefill⟩

/-- **The run.** Any events lead to a contest that is underway. -/
theorem underway_after (events : List Event) (x : Underway c₀ c) : Underway c₀ (c.after events) := by
  induction events generalizing c with
  | nil => exact x
  | cons event events ih =>
    refine ih (c := (c.occur event).getD c) ?_
    cases hoccur : c.occur event with
    | none => exact x
    | some c' =>
      obtain ⟨c₁, hc₁, x', -⟩ := x.step a₀ s₀ (occur_eq_some.mp hoccur)
      cases hc₁
      exact x'

theorem Underway.balanced (x : Underway c₀ c) : c.Balanced (c.final.getD c.deliverer.stats) := by
  rcases x with x | ⟨x, -⟩
  · exact x.balanced a₀ s₀
  · exact x.balanced a₀ s₀

/-- No refill of a run fails. -/
theorem Stands.compete (count : Nat) (x : Stands c₀ .waiting c) :
    ∃ c', Contest.compete count c = .ok c' ∧ Stands c₀ .waiting c' := by
  induction count generalizing c with
  | zero => exact ⟨c, rfl, x⟩
  | succ count ih =>
    obtain ⟨c₁, hrefill, x₁, -⟩ := x.refill a₀ s₀
    cases count with
    | zero => exact ⟨c₁, hrefill, x₁⟩
    | succ count =>
      obtain ⟨c', hcompete, x'⟩ := ih (x₁.advanceTo (c₁.deliverer.now + interval))
      refine ⟨c', ?_, x'⟩
      rw [Contest.compete, hrefill]
      · exact hcompete
      · nofun

/-- A contest that has been started is held to its end. -/
theorem run_eq_ok (hsettings : o.settings? environment = .ok settings) (hstart : start? o settings = .ok c₀) :
    ∃ c stage, run o environment = .ok c ∧ Stands c₀ stage c := by
  obtain ⟨c, hcompete, x⟩ := (Stands.start c₀).settle.compete a₀ s₀ (rounds o.duration)
  obtain ⟨stage, x'⟩ := x.finished
  refine ⟨clockwork.settle ((c.occur .finish).getD c), stage, ?_, x'.settle⟩
  rw [run, hsettings]
  change (start? o settings >>= _) = _
  rw [hstart]
  change ((Contest.compete (rounds o.duration) (clockwork.settle c₀)).mapError ContestError.refused >>= _) = _
  rw [hcompete]
  rfl

end

/-- **The books of a contest balance.** Let its settings be accepted and its targets be registered.

A course cuts refills into single calls, with the deliverer's tasks, the sinks and the clock at work between any two of
them. No refill of a course fails. A refill that nothing disturbs fills all backlogs up, and what they lack after any
refill has been handed out since it began. When the deliverer has stopped, what was counted for each target is a
multiple of the size of a resource, and all of it together is what the deliverer has delivered.

All this is true of every schedule of whole events too. A run is never refused; and given room for a resource it comes
to an end at which the counts balance with the counters that it reports. -/
theorem books_balance {targets : List TargetId} {d₀ d : Deliverer Chunk}
    (hsettings : o.settings? environment = .ok settings) (hbuilt : Deliverer.ofSettings? settings = .ok d₀)
    (henlist : enlist 1 o.priorities d₀ = .ok (targets, d)) :
    (∀ moves, let m := ({ contest := opening o targets d } : Course).after moves
      m.contest.Alike (opening o targets d) ∧
      (∀ e, m.stage ≠ .failed e) ∧
      (m.stage = .waiting → ∃ c, m.contest.refill = .ok c ∧ c.Full) ∧
      (m.stage = .waiting → ∀ begun, m.begun = some begun → ∀ t ∈ targets,
        ∃ n, m.contest.deliverer.pendingOf t = some n ∧
          o.backlog + begun ≤ n + m.contest.deliverer.queue.delivered) ∧
      ∀ stats, m.contest.final = some stats → m.contest.Balanced stats) ∧
    (∀ events event result, ((opening o targets d).after events).step event = some result →
      ∃ c, result = .ok c ∧ c.Alike (opening o targets d) ∧ (event = .refill → c.Full) ∧
        ∀ stats, c.final = some stats → c.Balanced stats) ∧
    (∀ e, run o environment ≠ .error (.refused e)) ∧
    (Room.things o.chunkSize = .ok () →
      ∃ c, run o environment = .ok c ∧ c.Alike (opening o targets d) ∧
        c.Balanced (c.final.getD c.deliverer.stats)) := by
  obtain ⟨a₀, s₀⟩ := kept_opening hsettings hbuilt henlist
  have hstart := start?_eq hbuilt henlist
  refine ⟨fun moves => ?_, fun events event result hstep => ?_, fun e => ?_, fun hroom => ?_⟩
  · obtain ⟨a, s⟩ := Course.kept_after a₀ s₀ moves
    have halike := (Course.Leads.alike ⟨moves, rfl⟩ : (Course.after _ moves).contest.Alike (opening o targets d))
    refine ⟨halike, fun e hfailed => ?_, fun hwaiting => ?_, fun hwaiting begun hbegun t ht => ?_, fun stats =>
      a.balanced_final⟩
    · have hfits := s.fits
      rw [hfailed] at hfits
      exact hfits
    · obtain ⟨c, hrefill, hfull, -⟩ := Course.leads_refill a s hwaiting
      exact ⟨c, hrefill, hfull⟩
    · have hfits := s.fits
      rw [hwaiting] at hfits
      obtain ⟨n, hn, hle⟩ := hfits begun hbegun t (halike.targets ▸ ht)
      rw [halike.backlog] at hle
      exact ⟨n, hn, hle⟩
  · have x := underway_after a₀ s₀ events (.inl (.start _))
    obtain ⟨c, rfl, x', hfull⟩ := x.step a₀ s₀ hstep
    refine ⟨c, rfl, x'.alike, hfull, fun stats hfinal => ?_⟩
    have hbalanced := x'.balanced a₀ s₀
    rwa [hfinal] at hbalanced
  · cases hroom : Room.things o.chunkSize with
    | error shortage =>
      rw [hroom] at hstart
      rw [run_eq_error hsettings hstart]
      nofun
    | ok =>
      rw [hroom] at hstart
      obtain ⟨c, stage, hrun, -⟩ := run_eq_ok a₀ s₀ hsettings hstart
      rw [hrun]
      nofun
  · rw [hroom] at hstart
    obtain ⟨c, stage, hrun, x⟩ := run_eq_ok a₀ s₀ hsettings hstart
    exact ⟨c, hrun, x.alike, x.balanced a₀ s₀⟩

/-- Two targets, with resources of four bytes and backlogs of two. -/
def pair : Options := { priorities := [.ofNat 1, .ofNat 2], chunkSize := 4, backlog := 2 }

/-- The usual settings, which have room for such backlogs. -/
def pairSettings : DelivererSettings := { DelivererSettings.standard with window := 1000000 }

/-- The moves in which a resource comes from the queue into the channel. -/
def reads : List Move := [.task .look, .task .ask]

/-- The moves in which a sink takes a resource from the channel. -/
def takes : List Move := [.task .receive, .task (.enter .handler), .count, .answer]

/-- In the midst of a refill a resource is delivered, and another one is in the channel when the deliverer is told to
stop. -/
def disturbed : List Move :=
  [.beginRefill, .goOn, .goOn] ++ reads ++ takes ++ List.replicate 7 .goOn ++ reads ++ [.measure, .task .look, .goOn] ++
    [.task .ask, .task .readerLeaves, .task .readerFinishes] ++ takes ++ [.task .receive] ++
    [.task (.dismissNext 1), .task (.enter .handler), .dismissed] ++
    [.task (.dismissNext 2), .task (.enter .handler), .dismissed] ++
    .task .handlerFinishes :: List.replicate 3 (.task .advanceLine)

/-- After a disturbed refill and an end with a resource on its way, two resources of four bytes have been counted on
both sides. -/
theorem books_balance_pair :
    pair.settings? none = .ok pairSettings ∧
      Deliverer.ofSettings? pairSettings = .ok (.ofSettings pairSettings : Deliverer Chunk) ∧
      ∃ targets d, enlist 1 pair.priorities (.ofSettings pairSettings) = .ok (targets, d) ∧
        ∃ stats, (({ contest := opening pair targets d } : Course).after disturbed).contest.final = some stats ∧
          stats.deliveredBytes = 8 ∧
          (({ contest := opening pair targets d } : Course).after disturbed).contest.Balanced stats := by
  have hsettings : pair.settings? none = .ok pairSettings := by decide +kernel
  have hfinal : ((enlist 1 pair.priorities (.ofSettings pairSettings)).map fun result =>
      (({ contest := opening pair result.1 result.2 } : Course).after disturbed).contest.final) =
        .ok (some ⟨0, 2, 2, 8, 0, 0⟩) := by decide +kernel
  refine ⟨hsettings, rfl, ?_⟩
  cases henlist : enlist 1 pair.priorities (.ofSettings pairSettings) with
  | error e =>
    rw [henlist] at hfinal
    cases hfinal
  | ok result =>
    obtain ⟨targets, d⟩ := result
    simp only [henlist, Except.map, Except.ok.injEq] at hfinal
    obtain ⟨-, -, -, -, hbalanced⟩ := (books_balance hsettings rfl henlist).1 disturbed
    exact ⟨targets, d, rfl, _, hfinal, rfl, hbalanced _ hfinal⟩

end Contest

end Sluice
