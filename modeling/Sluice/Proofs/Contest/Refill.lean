import Sluice.Proofs.Contest.Course

/-!
# Refills never fail

A refill asks for the backlog of a target and then submits what is missing, while the tasks of the deliverer go on. They
only draw on the backlogs, so no more waits for the target than has been asked for and submitted since, and there is
room for what is still missing. `Supplied` is this invariant, with a clause for each stage of a refill; it also says
that after a refill each backlog is full but for what has been handed out since the refill began.

`kept_step` is the step and `kept_after` the run. `leads_refill` says that a refill which nothing disturbs is
`Contest.refill`.
-/

namespace Sluice

namespace Contest

open Deliverer

variable {settings : DelivererSettings}

/-! ### The stages of a refill -/

/-- All backlogs are full. -/
def Full (c : Contest) : Prop := ∀ t ∈ c.targets, ∃ n, c.deliverer.pendingOf t = some n ∧ c.backlog ≤ n

/-- The backlog of a target is full but for some missing resources, and but for what has been handed out since a refill
began. -/
def Topped (d : Deliverer Chunk) (backlog begun : Nat) (t : TargetId) (missing : Nat) : Prop :=
  ∃ n, d.pendingOf t = some n ∧ backlog + begun ≤ n + missing + d.queue.delivered

/-- What is known of the backlogs at each stage. -/
def Stage.Fits (d : Deliverer Chunk) (targets : List TargetId) (backlog : Nat) (begun : Option Nat) : Stage → Prop
  | .waiting => ∀ b, begun = some b → ∀ t ∈ targets, Topped d backlog b t 0
  | .looking rest =>
    ∃ b, begun = some b ∧ b ≤ d.queue.delivered ∧ rest ⊆ targets ∧
      ∀ t ∈ targets, t ∈ rest ∨ Topped d backlog b t 0
  | .filling t missing rest =>
    ∃ b, begun = some b ∧ b ≤ d.queue.delivered ∧ t ∈ targets ∧ rest ⊆ targets ∧
      -- There is room for what is missing.
      (missing = 0 ∨ ∃ n, d.pendingOf t = some n ∧ n + missing ≤ backlog) ∧
      ∀ u ∈ targets, u ∈ rest ∨ Topped d backlog b u (if u = t then missing else 0)
  | .measured => True
  | .stopping => True
  | .failed _ => False

section

variable {d d' : Deliverer Chunk} {targets rest : List TargetId} {backlog begun missing : Nat} {t u : TargetId}

theorem Topped.drawn (w : FairQueue.Drawn d.queue d'.queue) (x : Topped d backlog begun t missing) :
    Topped d' backlog begun t missing := by
  obtain ⟨n, hn, hle⟩ := x
  obtain ⟨left, hleft, -, hdrawn⟩ := w.waiting t n hn
  exact ⟨left, hleft, by omega⟩

/-- The tasks of the deliverer leave every stage as it is. -/
theorem Stage.Fits.drawn {stage : Stage} {begun : Option Nat} (w : FairQueue.Drawn d.queue d'.queue)
    (x : stage.Fits d targets backlog begun) : stage.Fits d' targets backlog begun := by
  cases stage with
  | waiting => exact fun b hb t ht => (x b hb t ht).drawn w
  | looking rest =>
    obtain ⟨b, hb, hle, hrest, hall⟩ := x
    exact ⟨b, hb, hle.trans w.delivered, hrest, fun t ht => (hall t ht).imp id (·.drawn w)⟩
  | filling t missing rest =>
    obtain ⟨b, hb, hle, ht, hrest, hroom, hall⟩ := x
    refine ⟨b, hb, hle.trans w.delivered, ht, hrest, hroom.imp id ?_, fun u hu => (hall u hu).imp id (·.drawn w)⟩
    rintro ⟨n, hn, hfits⟩
    obtain ⟨left, hleft, hle, -⟩ := w.waiting t n hn
    exact ⟨left, hleft, by omega⟩
  | measured => trivial
  | stopping => trivial
  | failed error => exact x

/-- What a submission does to the backlogs. -/
theorem pendingOf_submit {chunk : Chunk} (hsound : Fair.Sound d.queue) (hsubmit : d.submit t chunk = .ok d') :
    d'.queue.settings = d.queue.settings ∧ d'.queue.delivered = d.queue.delivered ∧
      ∀ u, d'.pendingOf u = if u = t then (d.pendingOf u).map (· + 1) else d.pendingOf u := by
  obtain ⟨-, queue, hpush, rfl⟩ := submit_eq_ok hsubmit
  have hqueue : ({ d with queue } : Deliverer Chunk).wake.queue = queue := (Aside.wake _).queue
  rw [hqueue]
  refine ⟨FairQueue.settings_push hsound hpush, FairQueue.delivered_push hsound hpush, fun u => ?_⟩
  rw [pendingOf, hqueue]
  exact FairQueue.pendingOf_push hsound hpush

/-- A submission makes up for a missing resource. -/
theorem Topped.submit {chunk : Chunk} (hsound : Fair.Sound d.queue) (hsubmit : d.submit t chunk = .ok d')
    (x : Topped d backlog begun u (if u = t then missing + 1 else 0)) :
    Topped d' backlog begun u (if u = t then missing else 0) := by
  obtain ⟨-, hdelivered, hpending⟩ := pendingOf_submit hsound hsubmit
  obtain ⟨n, hn, hle⟩ := x
  by_cases hut : u = t
  · rw [if_pos hut] at hle ⊢
    refine ⟨n + 1, ?_, by omega⟩
    rw [hpending, if_pos hut, hn]
    rfl
  · rw [if_neg hut] at hle ⊢
    refine ⟨n, ?_, by omega⟩
    rw [hpending, if_neg hut, hn]

end

namespace Course

variable {m m' : Course}

/-! ### The step -/

/-- All targets are registered and there is room for their backlogs, and until it is told to stop the deliverer accepts
what is submitted. -/
structure Supplied (m : Course) : Prop where
  room : m.contest.backlog ≤ m.contest.deliverer.queue.settings.maxBacklog
  waiting : ∀ t ∈ m.contest.targets, ∃ n, m.contest.deliverer.pendingOf t = some n
  serving : m.stage ≠ .stopping → m.contest.deliverer.Serving
  fits : m.stage.Fits m.contest.deliverer m.contest.targets m.contest.backlog m.begun

/-- A move that draws on the queue. -/
theorem Supplied.drawn (s : Supplied m) {d' : Deliverer Chunk} (w : FairQueue.Drawn m.contest.deliverer.queue d'.queue)
    (hserving : m.stage ≠ .stopping → d'.Serving) :
    Supplied { m with contest := { m.contest with deliverer := d' } } where
  room := w.settings.symm ▸ s.room
  waiting t ht := by
    obtain ⟨n, hn⟩ := s.waiting t ht
    obtain ⟨left, hleft, -⟩ := w.waiting t n hn
    exact ⟨left, hleft⟩
  serving := hserving
  fits := s.fits.drawn w

/-- A calm event. -/
theorem Supplied.work {event : Deliverer.Event Chunk} {c' : Contest} (s : Supplied m) (a : Accounted settings m)
    (hwork : m.contest.work event = some c') (hcalm : event.isCalm = true) : Supplied { m with contest := c' } := by
  obtain ⟨reply, d', speed, final, hstep, rfl, -⟩ := work_eq_some hwork
  obtain ⟨h, x⟩ := a.recorded
  obtain ⟨handed, o⟩ := x.lived.orderly
  have s' := s.drawn ((x.lived.turn hstep).drawn o hcalm) fun hstage =>
    (step_effect hstep).serving (s.serving hstage) x.lived.tidy hcalm
  exact { s' with }

/-- The holder submits a missing resource, and the deliverer accepts it. -/
theorem Supplied.submit {t : TargetId} {missing : Nat} {rest : List TargetId} (s : Supplied m)
    (a : Accounted settings m) (hstage : m.stage = .filling t (missing + 1) rest) :
    ∃ d', m.contest.deliverer.submit t ⟨m.contest.chunkSize⟩ = .ok d' ∧
      d'.queue.delivered = m.contest.deliverer.queue.delivered ∧
      Supplied { m with contest := { m.contest with deliverer := d' }, stage := .filling t missing rest } ∧
      Accounted settings
        { m with contest := { m.contest with deliverer := d' }, stage := .filling t missing rest } := by
  obtain ⟨h, x⟩ := a.recorded
  have hserving : m.contest.deliverer.Serving := s.serving (by simp [hstage])
  have hfits := s.fits
  rw [hstage] at hfits
  obtain ⟨b, hb, hle, ht, hrest, hroom, hall⟩ := hfits
  obtain ⟨n, hn, hmissing⟩ := hroom.resolve_left (Nat.succ_ne_zero missing)
  have hspace := s.room
  have hspared : n + 1 + missing ≤ m.contest.backlog := by omega
  obtain ⟨d', hsubmit⟩ := hserving.submit_of_pendingOf ⟨m.contest.chunkSize⟩ hn (by omega)
  obtain ⟨hsettings, hdelivered, hpending⟩ := pendingOf_submit x.lived.sound hsubmit
  refine ⟨d', hsubmit, hdelivered,
    ⟨hsettings.symm ▸ s.room, fun u hu => ?_, fun _ => hserving.submit hsubmit, ?_⟩, ?_⟩
  · obtain ⟨k, hk⟩ := s.waiting u hu
    show ∃ n, d'.pendingOf u = some n
    rw [hpending, hk]
    split
    · exact ⟨k + 1, rfl⟩
    · exact ⟨k, rfl⟩
  · refine ⟨b, hb, hdelivered.symm ▸ hle, ht, hrest, .inr ⟨n + 1, ?_, hspared⟩, fun u hu => ?_⟩
    · rw [hpending, if_pos rfl, hn]
      rfl
    · exact (hall u hu).imp id (·.submit x.lived.sound hsubmit)
  · have hwork : m.contest.work (.submit t ⟨m.contest.chunkSize⟩) =
        some { m.contest with deliverer := d' } := by
      rw [Contest.work, Deliverer.step, if_pos hserving.hasHandle, hsubmit]
      rfl
    have a' := a.work hwork (.inr (.inr ⟨t, rfl⟩)) rfl
    exact { a' with }

/-- The holder asks for the backlog of a target. -/
theorem Supplied.look {t : TargetId} {rest : List TargetId} (s : Supplied m) (hstage : m.stage = .looking (t :: rest)) :
    Supplied { m with
      stage := .filling t (m.contest.backlog - (m.contest.deliverer.pendingOf t).getD m.contest.backlog) rest } := by
  have hfits := s.fits
  rw [hstage] at hfits
  obtain ⟨b, hb, hle, hrest, hall⟩ := hfits
  obtain ⟨ht, hrest⟩ := List.cons_subset.mp hrest
  obtain ⟨n, hn⟩ := s.waiting t ht
  have hmissing : m.contest.backlog - (m.contest.deliverer.pendingOf t).getD m.contest.backlog =
      m.contest.backlog - n := by rw [hn, Option.getD_some]
  rw [hmissing]
  have hroom : m.contest.backlog - n = 0 ∨ n + (m.contest.backlog - n) ≤ m.contest.backlog := by omega
  have htopped : m.contest.backlog + b ≤ n + (m.contest.backlog - n) + m.contest.deliverer.queue.delivered := by omega
  refine ⟨s.room, s.waiting, fun _ => s.serving (by simp [hstage]), b, hb, hle, ht, hrest,
    hroom.imp id fun hfits => ⟨n, hn, hfits⟩, fun u hu => ?_⟩
  by_cases hut : u = t
  · rw [if_pos hut, hut]
    exact .inr ⟨n, hn, htopped⟩
  · rw [if_neg hut]
    exact (hall u hu).imp (fun hmem => (List.mem_cons.mp hmem).resolve_left hut) id

/-- Whatever the holder does next, both invariants are kept. -/
theorem kept_goOn (a : Accounted settings m) (s : Supplied m) (hgo : m.goOn = some m') :
    Accounted settings m' ∧ Supplied m' := by
  have hfits := s.fits
  rw [goOn] at hgo
  split at hgo
  · next hstage =>
    cases hgo
    rw [hstage] at hfits
    obtain ⟨b, hb, -, -, hall⟩ := hfits
    refine ⟨{ a with }, s.room, s.waiting, fun _ => s.serving (by simp [hstage]), fun b' hb' t ht => ?_⟩
    cases hb.symm.trans hb'
    exact (hall t ht).resolve_left List.not_mem_nil
  · next t rest hstage =>
    cases hgo
    exact ⟨{ a with }, s.look hstage⟩
  · next t rest hstage =>
    cases hgo
    rw [hstage] at hfits
    obtain ⟨b, hb, hle, -, hrest, -, hall⟩ := hfits
    refine ⟨{ a with }, s.room, s.waiting, fun _ => s.serving (by simp [hstage]), b, hb, hle, hrest, fun u hu => ?_⟩
    have hu := hall u hu
    rwa [ite_self] at hu
  · next t missing rest hstage =>
    obtain ⟨d', hsubmit, -, s', a'⟩ := s.submit a hstage
    rw [hsubmit] at hgo
    cases hgo
    exact ⟨a', s'⟩
  · next hstage =>
    obtain ⟨m₁, hwork, rfl⟩ := Option.map_eq_some_iff.mp hgo
    obtain ⟨c', hevent, rfl⟩ := Option.map_eq_some_iff.mp hwork
    have a' := a.work hevent (.inr (.inl rfl)) rfl
    obtain ⟨reply, d', speed, final, hstep, rfl, -⟩ := work_eq_some hevent
    obtain ⟨h, x⟩ := a.recorded
    have hqueue : d'.queue = m.contest.deliverer.queue := (x.lived.turn hstep).queue_of_stop
    refine ⟨{ a' with }, hqueue.symm ▸ s.room, fun t ht => ?_, fun hne => absurd rfl hne, trivial⟩
    obtain ⟨n, hn⟩ := s.waiting t ht
    exact ⟨n, by rw [pendingOf, hqueue]; exact hn⟩
  · cases hgo

/-- A calm event in which no sink answers keeps both invariants. -/
theorem kept_work {event : Deliverer.Event Chunk} (a : Accounted settings m) (s : Supplied m)
    (hwork : m.work event = some m') (hcalm : event.isCalm = true)
    (hunanswered : event.isAnswer = false) : Accounted settings m' ∧ Supplied m' := by
  obtain ⟨c', hevent, rfl⟩ := Option.map_eq_some_iff.mp hwork
  exact ⟨a.work hevent (.inl hcalm) hunanswered, s.work a hevent hcalm⟩

/-- Every move keeps both invariants. -/
theorem kept_step {move : Move} (a : Accounted settings m) (s : Supplied m) (hstep : m.step move = some m') :
    Accounted settings m' ∧ Supplied m' := by
  cases move with
  | beginRefill =>
    rw [step] at hstep
    split at hstep
    · next hstage =>
      cases hstep
      refine ⟨{ a with }, s.room, s.waiting, fun _ => s.serving (by simp [hstage]), ?_⟩
      exact ⟨_, rfl, Nat.le_refl _, List.Subset.refl _, fun t ht => .inl ht⟩
    · cases hstep
  | goOn => exact kept_goOn a s hstep
  | gauge =>
    rw [step] at hstep
    split at hstep
    · obtain ⟨c', hevent, rfl⟩ := Option.map_eq_some_iff.mp hstep
      exact ⟨(a.work hevent (.inl rfl) rfl).withSpeed m.contest.speed, { s.work a hevent rfl with }⟩
    · cases hstep
  | measure =>
    rw [step] at hstep
    split at hstep
    · next hstage =>
      obtain ⟨m₁, hwork, rfl⟩ := Option.map_eq_some_iff.mp hstep
      obtain ⟨c', hevent, rfl⟩ := Option.map_eq_some_iff.mp hwork
      have a' := a.work hevent (.inl rfl) rfl
      have s' := s.work a hevent rfl
      exact ⟨{ a' with }, s'.room, s'.waiting, fun _ => s'.serving (by simp [hstage]), trivial⟩
    · cases hstep
  | task event =>
    obtain ⟨c', hoccur, rfl⟩ := Option.map_eq_some_iff.mp hstep
    obtain ⟨hmem, hevent⟩ := occur_move_eq_some.mp hoccur
    obtain ⟨hcalm, hunanswered⟩ := calm_of_mem_moves hmem
    exact ⟨a.work hevent (.inl hcalm) hunanswered, s.work a hevent hcalm⟩
  | count =>
    rw [step] at hstep
    split at hstep
    · cases hstep
    · next hcounted =>
      obtain ⟨delivery, hoffered, rfl⟩ := Option.map_eq_some_iff.mp hstep
      exact ⟨a.count (Bool.eq_false_iff.mpr hcounted) hoffered, { s with }⟩
  | answer =>
    rw [step] at hstep
    split at hstep
    · next hcounted =>
      obtain ⟨m₁, hwork, rfl⟩ := Option.map_eq_some_iff.mp hstep
      obtain ⟨c', hevent, rfl⟩ := Option.map_eq_some_iff.mp hwork
      exact ⟨a.answer hcounted hevent, { s.work a hevent rfl with }⟩
    · cases hstep
  | dismissed =>
    have hwork : m.work (.dismissReturns .handler) = some m' := hstep
    exact kept_work a s hwork rfl rfl
  | elapse span =>
    have hwork : m.work (.elapse span) = some m' := hstep
    exact kept_work a s hwork rfl rfl

/-- Both invariants hold in every course. -/
theorem kept_after (a : Accounted settings m) (s : Supplied m) (moves : List Move) :
    Accounted settings (m.after moves) ∧ Supplied (m.after moves) :=
  after_induction (P := fun m => Accounted settings m ∧ Supplied m) ⟨a, s⟩
    (fun _ _ _ k hstep => kept_step k.1 k.2 hstep) moves

/-! ### Whole refills -/

/-- Some moves lead from one point of a course to another. -/
def Leads (m m' : Course) : Prop := ∃ moves, m.after moves = m'

theorem Leads.refl (m : Course) : Leads m m := ⟨[], rfl⟩

theorem Leads.trans {m'' : Course} (l : Leads m m') (l' : Leads m' m'') : Leads m m'' := by
  obtain ⟨moves, rfl⟩ := l
  obtain ⟨more, rfl⟩ := l'
  exact ⟨moves ++ more, after_append m moves more⟩

theorem Leads.of_step (move : Move) (hstep : m.step move = some m') : Leads m m' := by
  refine ⟨[move], ?_⟩
  show (m.step move).getD m = m'
  rw [hstep]
  rfl

theorem Leads.kept (l : Leads m m') (a : Accounted settings m) (s : Supplied m) :
    Accounted settings m' ∧ Supplied m' := by
  obtain ⟨moves, rfl⟩ := l
  exact kept_after a s moves

/-- Without a move of anybody else, the submissions for a target are those of a whole refill. -/
theorem leads_submit {t : TargetId} {missing : Nat} {rest : List TargetId} (a : Accounted settings m) (s : Supplied m)
    (hstage : m.stage = .filling t missing rest) :
    ∃ d', Contest.submit t ⟨m.contest.chunkSize⟩ missing m.contest.deliverer = .ok d' ∧
      d'.queue.delivered = m.contest.deliverer.queue.delivered ∧
      Leads m { m with contest := { m.contest with deliverer := d' }, stage := .looking rest } := by
  induction missing generalizing m with
  | zero =>
    refine ⟨m.contest.deliverer, rfl, rfl, .of_step .goOn ?_⟩
    rw [step, goOn, hstage]
  | succ missing ih =>
    obtain ⟨d₁, hsubmit, hdelivered₁, s₁, a₁⟩ := s.submit a hstage
    obtain ⟨d', hrest, hdelivered, hleads⟩ := ih a₁ s₁ rfl
    refine ⟨d', ?_, hdelivered.trans hdelivered₁, .trans (.of_step .goOn ?_) hleads⟩
    · rw [Contest.submit, hsubmit]
      exact hrest
    · rw [step, goOn, hstage]
      simp only [hsubmit]

/-- Without a move of anybody else, the rest of a refill is that of a whole refill. -/
theorem leads_fill {rest : List TargetId} (a : Accounted settings m) (s : Supplied m)
    (hstage : m.stage = .looking rest) :
    ∃ d', fill ⟨m.contest.chunkSize⟩ m.contest.backlog rest m.contest.deliverer = .ok d' ∧
      d'.queue.delivered = m.contest.deliverer.queue.delivered ∧
      Leads m { m with contest := { m.contest with deliverer := d' }, stage := .waiting } := by
  induction rest generalizing m with
  | nil =>
    refine ⟨m.contest.deliverer, rfl, rfl, .of_step .goOn ?_⟩
    rw [step, goOn, hstage]
  | cons t rest ih =>
    have hlook : m.step .goOn = some { m with
        stage := .filling t (m.contest.backlog - (m.contest.deliverer.pendingOf t).getD m.contest.backlog) rest } := by
      rw [step, goOn, hstage]
    obtain ⟨a₁, s₁⟩ := kept_step a s hlook
    obtain ⟨d₁, hsubmit, hdelivered₁, hleads₁⟩ := leads_submit a₁ s₁ rfl
    obtain ⟨a₂, s₂⟩ := hleads₁.kept a₁ s₁
    obtain ⟨d', hfill, hdelivered, hleads⟩ := ih a₂ s₂ rfl
    refine ⟨d', ?_, hdelivered.trans hdelivered₁, (Leads.of_step .goOn hlook).trans (hleads₁.trans hleads)⟩
    rw [fill]
    show (Contest.submit t ⟨m.contest.chunkSize⟩ _ m.contest.deliverer >>= _) = _
    rw [hsubmit]
    exact hfill

/-- A refill that nothing disturbs is a whole refill. It succeeds, and afterwards all backlogs are full. -/
theorem leads_refill (a : Accounted settings m) (s : Supplied m) (hstage : m.stage = .waiting) :
    ∃ c, m.contest.refill = .ok c ∧ c.Full ∧
      Leads m { m with contest := c, begun := some m.contest.deliverer.queue.delivered } := by
  have hbegin : m.step .beginRefill = some { m with
      stage := .looking m.contest.targets, begun := some m.contest.deliverer.queue.delivered } := by
    rw [step, if_pos hstage]
  obtain ⟨a₁, s₁⟩ := kept_step a s hbegin
  obtain ⟨d', hfill, hdelivered, hfilled⟩ := leads_fill a₁ s₁ rfl
  have hleads := (Leads.of_step .beginRefill hbegin).trans hfilled
  have hfits := (hleads.kept a s).2.fits
  refine ⟨{ m.contest with deliverer := d' }, ?_, fun t ht => ?_, ?_⟩
  · show (fill ⟨m.contest.chunkSize⟩ m.contest.backlog m.contest.targets m.contest.deliverer).map _ = _
    rw [hfill]
    rfl
  · -- Nothing has been handed out since the refill began.
    obtain ⟨n, hn, hle⟩ := hfits _ rfl t ht
    change m.contest.backlog + m.contest.deliverer.queue.delivered ≤ n + 0 + d'.queue.delivered at hle
    have hsame : d'.queue.delivered = m.contest.deliverer.queue.delivered := hdelivered
    refine ⟨n, hn, ?_⟩
    show m.contest.backlog ≤ n
    omega
  · rw [← hstage] at hleads
    exact hleads

end Course

end Contest

end Sluice
