import Sluice.Contest.Basic
import Sluice.Proofs.Delivery.Service

/-!
# The course of a contest

`Contest.refill` fills all backlogs up at once. In a `Course` it is cut into the single calls to the deliverer that it
is made of, each of which is given the deliverer for itself: the backlog of a target is asked for, and then the missing
resources are submitted one by one. Between any two of these calls the tasks of the deliverer may move, sinks may count
and answer, and time may pass. A sink counts its resource first and answers afterwards.

The invariant `Accounted` compares what the sinks have counted with the counters of the deliverer, through the history
of the deliverer: they differ by the one resource that has been counted and not been answered to. After the end there is
no such resource, so that the counts balance (`Accounted.balanced_final`).
-/

namespace Sluice

namespace Deliverer

variable {ρ : Type} [Resource ρ] {settings : DelivererSettings} {h : List (Happening ρ)} {d d' : Deliverer ρ}
  {event : Event ρ} {reply : Reply ρ}

/-! ### Deliverers with a history -/

/-- What happens when one more event is scheduled. -/
theorem history_snoc {events : List (Event ρ)} (hstep : (d.after events).step event = some (reply, d')) :
    d.history (events ++ [event]) = d.history events ++ [⟨d.after events, event, reply, d'⟩] ∧
      d.after (events ++ [event]) = d' := by
  induction events generalizing d with
  | nil =>
    have hstep : d.step event = some (reply, d') := hstep
    rw [List.nil_append]
    simp only [history, after, hstep, List.nil_append, and_self]
  | cons first events ih =>
    rw [after] at hstep
    rw [List.cons_append, history, history, after, after]
    cases hfirst : d.step first with
    | none =>
      rw [hfirst] at hstep
      exact ih hstep
    | some result =>
      rw [hfirst] at hstep
      obtain ⟨hhistory, hafter⟩ := ih hstep
      exact ⟨congrArg (⟨d, first, result.1, result.2⟩ :: ·) hhistory, hafter⟩

/-- A deliverer that some schedule leads to, with what happened on the way. -/
def Lived (settings : DelivererSettings) (h : List (Happening ρ)) (d : Deliverer ρ) : Prop :=
  ∃ events, happenings settings events = h ∧ (ofSettings settings).after events = d

namespace Lived

theorem new (settings : DelivererSettings) : Lived settings [] (ofSettings settings : Deliverer ρ) :=
  ⟨[], rfl, rfl⟩

theorem step (l : Lived settings h d) (hstep : d.step event = some (reply, d')) :
    Lived settings (h ++ [⟨d, event, reply, d'⟩]) d' := by
  obtain ⟨events, rfl, rfl⟩ := l
  exact ⟨events ++ [event], history_snoc hstep⟩

theorem orderly (l : Lived settings h d) : ∃ handed, Orderly h handed d := by
  obtain ⟨events, rfl, rfl⟩ := l
  exact Orderly.after settings events

theorem tidy (l : Lived settings h d) : Processor.Tidy settings.capacity d.processor := by
  obtain ⟨events, rfl, rfl⟩ := l
  exact tidy_after settings events

theorem parting (l : Lived settings h d) : Parting d := by
  obtain ⟨events, rfl, rfl⟩ := l
  exact parting_after settings events

theorem books (l : Lived settings h d) : Books h d := by
  obtain ⟨events, rfl, rfl⟩ := l
  exact .after settings events

theorem handed (l : Lived settings h d) : Handed h d := by
  obtain ⟨events, rfl, rfl⟩ := l
  exact .after settings events

theorem turn (l : Lived settings h d) (hstep : d.step event = some (reply, d')) : Turn d event reply d' := by
  obtain ⟨handed, o⟩ := l.orderly
  exact (step_effect hstep).turn o

theorem balance (l : Lived settings h d) (hstep : d.step event = some (reply, d')) :
    Balance ⟨d, event, reply, d'⟩ := by
  obtain ⟨handed, o⟩ := l.orderly
  exact ((step_effect hstep).turn o).balance o

theorem sound (l : Lived settings h d) : Fair.Sound d.queue := l.handed.supplies.sound

/-- What was taken out of the queue was submitted, for a target that was registered. -/
theorem of_mem_takenOut (l : Lived settings h d) {e : Delivery ρ} (he : e ∈ takenOut h) :
    (e.target, e.registration) ∈ registrations h ∧ (∃ s ∈ submissions h, s.resource = e.resource) ∧
      e.size = Resource.size e.resource := by
  have x := l.handed
  refine ⟨x.supplies.mem_of_handed he, ?_, l.books.weighed e he⟩
  have hunder : e.resource ∈ Fair.resourcesUnder e.registration (takenOut h) :=
    List.mem_map_of_mem (List.mem_filter.mpr ⟨he, beq_self_eq_true _⟩)
  obtain ⟨s, hs, hresource⟩ := List.mem_map.mp ((x.supplies.handed_prefix e.registration).subset hunder)
  exact ⟨s, List.mem_of_mem_filter hs, hresource⟩

end Lived

omit [Resource ρ] in
/-- Calm events register nothing. -/
theorem registered_of_calm (hcalm : event.isCalm = true) :
    (⟨d, event, reply, d'⟩ : Happening ρ).registered = [] := by
  cases event with
  | addTarget => cases hcalm
  | _ => rfl

omit [Resource ρ] in
/-- Calm events submit nothing. -/
theorem submitted_of_calm (hcalm : event.isCalm = true) :
    (⟨d, event, reply, d'⟩ : Happening ρ).submitted = [] := by
  cases event with
  | submit => cases hcalm
  | _ => rfl

end Deliverer

namespace Contest

open Deliverer

/-! ### Moves -/

/-- Where the holder of a contest is. -/
inductive Stage where
  /-- Between two refills. -/
  | waiting
  /-- In a refill, about to ask for the backlog of the first of some targets. -/
  | looking (rest : List TargetId)
  /-- In a refill, about to submit the missing resources of a target. -/
  | filling (target : TargetId) (missing : Nat) (rest : List TargetId)
  /-- The speed has been measured. -/
  | measured
  /-- The deliverer has been told to stop. -/
  | stopping
  /-- A refill has failed. -/
  | failed (error : DeliveryError)
  deriving DecidableEq, Repr

/-- A contest at any point between two calls to the deliverer. -/
structure Course where
  contest : Contest
  stage : Stage := .waiting
  /-- How much the queue had handed out when the last refill began. -/
  begun : Option Nat := none
  /-- Whether the sink that the handler visits has counted its resource. -/
  counted : Bool := false

/-- What can happen in the course of a contest. -/
inductive Move where
  | beginRefill
  /-- The holder goes on, in a refill or after the speed has been measured. -/
  | goOn
  /-- The speed is measured between two refills. -/
  | gauge
  /-- The speed is measured at the end. -/
  | measure
  /-- A move of one of the deliverer's tasks. -/
  | task (event : Deliverer.Event Chunk)
  /-- The sink that the handler visits counts its resource. -/
  | count
  /-- The sink that the handler visits answers. -/
  | answer
  | dismissed
  | elapse (span : Nat)
  deriving DecidableEq, Repr

/-- A sink counts a resource. -/
def countIn (c : Contest) (delivery : Delivery Chunk) : Contest :=
  { c with received := c.received.set delivery.target (c.receivedBy delivery.target + delivery.resource.size) }

namespace Course

/-- Lets an event happen to the deliverer. -/
def work (m : Course) (event : Deliverer.Event Chunk) : Option Course :=
  (m.contest.work event).map fun contest => { m with contest }

/-- The next step of the holder. -/
def goOn (m : Course) : Option Course :=
  match m.stage with
  | .looking [] => some { m with stage := .waiting }
  | .looking (target :: rest) =>
    let missing := m.contest.backlog - (m.contest.deliverer.pendingOf target).getD m.contest.backlog
    some { m with stage := .filling target missing rest }
  | .filling _ 0 rest => some { m with stage := .looking rest }
  | .filling target (missing + 1) rest =>
    match m.contest.deliverer.submit target ⟨m.contest.chunkSize⟩ with
    | .ok deliverer =>
      some { m with contest := { m.contest with deliverer }, stage := .filling target missing rest }
    | .error error => some { m with stage := .failed error }
  | .measured => (m.work (.stop stopCall)).map fun m => { m with stage := .stopping }
  | _ => none

/-- What a move does, if it can be made. -/
def step (m : Course) : Move → Option Course
  | .beginRefill =>
    if m.stage = .waiting then
      some { m with stage := .looking m.contest.targets, begun := some m.contest.deliverer.queue.delivered }
    else none
  | .goOn => m.goOn
  | .gauge =>
    if m.stage = .waiting then
      (m.contest.work .measure).map fun c => { m with contest := { c with speed := m.contest.speed } }
    else none
  | .measure => if m.stage = .waiting then (m.work .measure).map fun m => { m with stage := .measured } else none
  | .task event => (m.contest.occur (.move event)).map fun contest => { m with contest }
  | .count =>
    if m.counted then none
    else m.contest.offered?.map fun delivery =>
      { m with contest := m.contest.countIn delivery, counted := true }
  | .answer =>
    if m.counted then (m.work (.deliverReturns .accepted)).map fun m => { m with counted := false } else none
  | .dismissed => m.work (.dismissReturns .handler)
  | .elapse span => m.work (.elapse span)

/-- The course of a contest after some moves. Those that cannot be made in their turn are passed over. -/
def after (m : Course) (moves : List Move) : Course := moves.foldl (fun m move => (m.step move).getD m) m

theorem after_append (m : Course) (moves more : List Move) : m.after (moves ++ more) = (m.after moves).after more :=
  List.foldl_append

/-- What holds at the start and is kept by every move holds after any moves. -/
theorem after_induction {P : Course → Prop} {m : Course} (start : P m)
    (next : ∀ m move m', P m → m.step move = some m' → P m') (moves : List Move) : P (m.after moves) := by
  induction moves generalizing m with
  | nil => exact start
  | cons move moves ih =>
    refine ih (m := (m.step move).getD m) ?_
    cases hstep : m.step move with
    | none => exact start
    | some m' => exact next m move m' start hstep

end Course

/-! ### Events in a contest -/

variable {c c' : Contest} {event : Deliverer.Event Chunk}

/-- What an event makes of a contest. -/
theorem work_eq_some (hwork : c.work event = some c') :
    ∃ reply deliverer speed final, c.deliverer.step event = some (reply, deliverer) ∧
      c' = { c with deliverer, speed, final } ∧
      ((∃ call stats, reply = .stopped call stats ∧ final = some stats) ∨ final = c.final) := by
  obtain ⟨⟨reply, deliverer⟩, hstep, rfl⟩ := Option.map_eq_some_iff.mp hwork
  cases reply with
  | stopped call stats => exact ⟨_, _, _, _, hstep, rfl, .inl ⟨call, stats, rfl, rfl⟩⟩
  | speed speed => exact ⟨_, _, _, _, hstep, rfl, .inr rfl⟩
  | _ => exact ⟨_, _, _, _, hstep, rfl, .inr rfl⟩

/-- What a sink has counted does not matter to the deliverer. -/
theorem work_countIn (c : Contest) (delivery : Delivery Chunk) (event : Deliverer.Event Chunk) :
    (c.countIn delivery).work event = (c.work event).map (·.countIn delivery) := by
  rw [work, work, Option.map_map]
  show (c.deliverer.step event).map _ = _
  refine congrArg (Option.map · _) (funext fun result => ?_)
  obtain ⟨reply, d⟩ := result
  cases reply <;> rfl

theorem occur_eq_some {event : Event} : c.occur event = some c' ↔ c.step event = some (.ok c') := by
  rw [occur]
  split
  · next c₁ hstep => rw [hstep, Option.some_inj, Option.some_inj, Except.ok.injEq]
  · next hnot => exact iff_of_false (by simp) (hnot c')

/-- A move of one of the tasks is one that it has. -/
theorem occur_move_eq_some :
    c.occur (.move event) = some c' ↔ event ∈ c.deliverer.moves ∧ c.work event = some c' := by
  rw [occur_eq_some, step, Option.ite_none_right_eq_some]
  exact and_congr_right fun _ =>
    ⟨fun h => by
      obtain ⟨c₁, hwork, hc⟩ := Option.map_eq_some_iff.mp h
      cases hc
      exact hwork,
    fun hwork => by rw [hwork, Option.map_some]⟩

/-- The resource that is offered is the one that the handler's visit brings. -/
theorem offered?_eq_some {delivery : Delivery Chunk} :
    c.offered? = some delivery ↔
      ∃ v, c.deliverer.visitOf? .handler = some v ∧ v.errand = .deliver delivery ∧ v.inside = true := by
  rw [offered?]
  constructor
  · intro h
    split at h
    · next visitor sink hv =>
      cases h
      exact ⟨_, hv, rfl, rfl⟩
    · cases h
  · rintro ⟨⟨visitor, sink, errand, inside⟩, hv, rfl, rfl⟩
    rw [hv]

/-- The events of a course: calm ones, submissions of resources of the one size, and the call that stops the
deliverer. -/
def Admits (c : Contest) (event : Deliverer.Event Chunk) : Prop :=
  event.isCalm = true ∨ event = .stop stopCall ∨ ∃ t, event = .submit t ⟨c.chunkSize⟩

theorem Admits.registered_eq {d d' : Deliverer Chunk} {reply : Reply Chunk} (hadmits : c.Admits event) :
    (⟨d, event, reply, d'⟩ : Happening Chunk).registered = [] := by
  obtain hcalm | rfl | ⟨t, rfl⟩ := hadmits
  · exact registered_of_calm hcalm
  · rfl
  · rfl

theorem Admits.of_mem_submitted {d d' : Deliverer Chunk} {reply : Reply Chunk} (hadmits : c.Admits event)
    {s : Submission Chunk} (hs : s ∈ (⟨d, event, reply, d'⟩ : Happening Chunk).submitted) :
    s.resource = ⟨c.chunkSize⟩ := by
  obtain hcalm | rfl | ⟨t, rfl⟩ := hadmits
  · rw [submitted_of_calm hcalm] at hs
    cases hs
  · cases hs
  · unfold Happening.submitted at hs
    split at hs
    · next hevent _ =>
      cases hevent
      rw [List.mem_singleton.mp hs]
    · cases hs

/-- A contest whose deliverer has a history, in which targets of the contest were registered and resources of the one
size were submitted. -/
structure Recorded (settings : DelivererSettings) (h : List (Happening Chunk)) (c : Contest) : Prop where
  lived : Lived settings h c.deliverer
  registered : ∀ e ∈ registrations h, e.1 ∈ c.targets
  chunks : ∀ s ∈ submissions h, s.resource = ⟨c.chunkSize⟩

namespace Recorded

variable {settings : DelivererSettings} {h : List (Happening Chunk)}

theorem step {d' : Deliverer Chunk} {reply : Reply Chunk} (x : Recorded settings h c) (hadmits : c.Admits event)
    (hstep : c.deliverer.step event = some (reply, d')) (speed : Option Number.Binary) (final : Option DelivererStats) :
    Recorded settings (h ++ [⟨c.deliverer, event, reply, d'⟩]) { c with deliverer := d', speed, final } where
  lived := x.lived.step hstep
  registered := by
    rw [registrations_snoc_nil h hadmits.registered_eq]
    exact x.registered
  chunks := by
    rw [submissions_snoc]
    intro s hs
    rcases List.mem_append.mp hs with hs | hs
    · exact x.chunks s hs
    · exact hadmits.of_mem_submitted hs

/-- Everything that was taken out of the queue has the one size, and was taken out for one of the targets. -/
theorem of_mem_takenOut (x : Recorded settings h c) {e : Delivery Chunk} (he : e ∈ takenOut h) :
    e.target ∈ c.targets ∧ e.resource.size = c.chunkSize ∧ e.size = c.chunkSize := by
  obtain ⟨hregistered, ⟨s, hs, hresource⟩, hsize⟩ := x.lived.of_mem_takenOut he
  have hchunk : e.resource.size = c.chunkSize := by
    rw [← hresource, x.chunks s hs]
  exact ⟨x.registered _ hregistered, hchunk, hsize.trans hchunk⟩

/-- A resource that a sink is called with was taken out of the queue. -/
theorem mem_takenOut_of_offered (x : Recorded settings h c) {delivery : Delivery Chunk}
    (hoffered : c.offered? = some delivery) : delivery ∈ takenOut h := by
  obtain ⟨v, hv, herrand, -⟩ := offered?_eq_some.mp hoffered
  rw [x.lived.books.transit, inTransit, inHand_of_deliver hv herrand]
  exact List.mem_append_right _ (List.mem_append_left _ List.mem_cons_self)

/-- The bytes that the deliverer has counted, as long as they fit into a word. -/
theorem deliveredBytes_eq (x : Recorded settings h c) :
    c.deliverer.deliveredBytes = Word.clip (c.chunkSize * c.deliverer.deliveredResources) := by
  have b := x.lived.books
  have hsizes : (acceptedBySinks h).map (·.size) = List.replicate (acceptedBySinks h).length c.chunkSize := by
    rw [← List.map_const']
    exact List.map_congr_left fun e he => (x.of_mem_takenOut (b.mem_takenOut he)).2.2
  rw [b.bytes, hsizes, List.sum_replicate_nat, Nat.mul_comm, b.delivered]

end Recorded

/-! ### What the sinks have counted -/

/-- When the value at one of some different places grows, the sum grows by as much. -/
theorem sum_map_add_at {targets : List TargetId} {f : TargetId → Nat} {t : TargetId} {n : Nat}
    (hnodup : targets.Nodup)
    (ht : t ∈ targets) : (targets.map fun u => if u = t then f u + n else f u).sum = (targets.map f).sum + n := by
  obtain ⟨front, back, rfl⟩ := List.append_of_mem ht
  have hne : ∀ u ∈ front ++ back, u ≠ t := fun u hu hut =>
    (List.nodup_cons.mp (List.nodup_middle.mp hnodup)).1 (hut ▸ hu)
  have hfront : front.map (fun u => if u = t then f u + n else f u) = front.map f :=
    List.map_congr_left fun u hu => if_neg (hne u (List.mem_append_left _ hu))
  have hback : back.map (fun u => if u = t then f u + n else f u) = back.map f :=
    List.map_congr_left fun u hu => if_neg (hne u (List.mem_append_right _ hu))
  simp only [List.map_append, List.map_cons, List.sum_append, List.sum_cons, hfront, hback, if_pos]
  omega

/-- The counts of the sinks of a contest agree with counters of the deliverer: the count of each target is a multiple of
the one size, and all of them together are as much as was delivered. -/
structure Balanced (c : Contest) (stats : DelivererStats) : Prop where
  whole : ∀ t ∈ c.targets, c.chunkSize ∣ c.receivedBy t
  resources : (c.targets.map c.receivedBy).sum = c.chunkSize * stats.deliveredResources
  bytes : (c.targets.map c.receivedBy).sum < 2 ^ 64 → stats.deliveredBytes = (c.targets.map c.receivedBy).sum

namespace Course

variable {settings : DelivererSettings} {m m' : Course}

/-- What the sinks have counted, by what the deliverer has counted. -/
structure Accounted (settings : DelivererSettings) (m : Course) : Prop where
  recorded : ∃ h, Recorded settings h m.contest
  nodup : m.contest.targets.Nodup
  /-- A resource that has been counted has not been answered to. -/
  offered : m.counted = true → ∃ delivery, m.contest.offered? = some delivery
  whole : ∀ t, m.contest.chunkSize ∣ m.contest.receivedBy t
  total : (m.contest.targets.map m.contest.receivedBy).sum =
    m.contest.chunkSize * (m.contest.deliverer.deliveredResources + m.counted.toNat)
  /-- After the end no more is delivered. -/
  final : ∀ stats, m.contest.final = some stats → m.contest.deliverer.processor.handler = .ended ∧
    stats.deliveredResources = m.contest.deliverer.deliveredResources ∧
    stats.deliveredBytes = m.contest.deliverer.deliveredBytes

namespace Accounted

/-- The counts balance with any counters that are those of the deliverer, when nothing is counted and not answered. -/
theorem balanced_of_eq (a : Accounted settings m) {stats : DelivererStats} (hcounted : m.counted = false)
    (hresources : stats.deliveredResources = m.contest.deliverer.deliveredResources)
    (hbytes : stats.deliveredBytes = m.contest.deliverer.deliveredBytes) : m.contest.Balanced stats := by
  obtain ⟨h, x⟩ := a.recorded
  have htotal := a.total
  rw [hcounted] at htotal
  refine ⟨fun t _ => a.whole t, hresources ▸ htotal, fun hfits => ?_⟩
  rw [htotal] at hfits ⊢
  rw [hbytes, x.deliveredBytes_eq]
  exact Word.clip_eq_of_le (Nat.le_of_lt_succ hfits)

/-- The counts balance with the counters that stopping the deliverer answers with. -/
theorem balanced_final (a : Accounted settings m) {stats : DelivererStats} (hfinal : m.contest.final = some stats) :
    m.contest.Balanced stats := by
  obtain ⟨h, x⟩ := a.recorded
  obtain ⟨hended, hresources, hbytes⟩ := a.final stats hfinal
  refine a.balanced_of_eq ?_ hresources hbytes
  cases hcounted : m.counted with
  | false => rfl
  | true =>
    obtain ⟨delivery, hoffered⟩ := a.offered hcounted
    obtain ⟨v, hv, -, -⟩ := offered?_eq_some.mp hoffered
    cases (x.lived.parting.alone hended).symm.trans hv

/-- The speed does not matter. -/
theorem withSpeed (a : Accounted settings m) (speed : Option Number.Binary) :
    Accounted settings { m with contest := { m.contest with speed } } := by
  obtain ⟨h, x⟩ := a.recorded
  exact { a with recorded := ⟨h, { x with }⟩ }

/-- An event of the course in which no sink answers. -/
theorem work {event : Deliverer.Event Chunk} {c' : Contest} (a : Accounted settings m)
    (hwork : m.contest.work event = some c') (hadmits : m.contest.Admits event)
    (hunanswered : event.isAnswer = false) : Accounted settings { m with contest := c' } := by
  obtain ⟨reply, d', speed, final, hstep, rfl, hfinal⟩ := work_eq_some hwork
  obtain ⟨h, x⟩ := a.recorded
  obtain ⟨handed, o⟩ := x.lived.orderly
  have e := x.lived.turn hstep
  obtain ⟨hresources, hbytes⟩ := (x.lived.balance hstep).of_unanswered hunanswered
  refine ⟨⟨_, x.step hadmits hstep speed final⟩, a.nodup, fun hcounted => ?_, a.whole, ?_,
    fun stats hstats => ?_⟩
  · obtain ⟨delivery, hoffered⟩ := a.offered hcounted
    obtain ⟨v, hv, herrand, hinside⟩ := offered?_eq_some.mp hoffered
    exact ⟨delivery, offered?_eq_some.mpr ⟨v, e.keepsVisit o hv herrand hinside hunanswered, herrand, hinside⟩⟩
  · show _ = m.contest.chunkSize * (d'.deliveredResources + m.counted.toNat)
    rw [hresources]
    exact a.total
  · show d'.processor.handler = .ended ∧ stats.deliveredResources = d'.deliveredResources ∧
      stats.deliveredBytes = d'.deliveredBytes
    rw [hresources, hbytes]
    obtain ⟨call, stats', rfl, rfl⟩ | rfl := hfinal
    · -- This event is the return of the call.
      cases hstats
      obtain ⟨rfl, -, hended⟩ := (step_effect hstep).ended_of_stopped x.lived.tidy
      exact ⟨hended, rfl, rfl⟩
    · obtain ⟨hended, hbefore⟩ := a.final stats hstats
      exact ⟨(e.resting o x.lived.parting hended).ended, hbefore⟩

/-- The sink that the handler visits counts its resource. -/
theorem count {delivery : Delivery Chunk} (a : Accounted settings m) (hcounted : m.counted = false)
    (hoffered : m.contest.offered? = some delivery) :
    Accounted settings { m with contest := m.contest.countIn delivery, counted := true } := by
  obtain ⟨h, x⟩ := a.recorded
  obtain ⟨htarget, hsize, -⟩ := x.of_mem_takenOut (x.mem_takenOut_of_offered hoffered)
  have hreceivedBy : ∀ t, (m.contest.countIn delivery).receivedBy t =
      if t = delivery.target then m.contest.receivedBy t + m.contest.chunkSize else m.contest.receivedBy t := by
    intro t
    rw [receivedBy, countIn, Roster.get?_set, hsize]
    by_cases ht : delivery.target = t
    · rw [if_pos ht, if_pos ht.symm, ht]
      rfl
    · rw [if_neg ht, if_neg (Ne.symm ht)]
      rfl
  refine ⟨⟨h, { x with }⟩, a.nodup, fun _ => ⟨delivery, hoffered⟩, fun t => ?_, ?_, a.final⟩
  · show m.contest.chunkSize ∣ _
    rw [hreceivedBy]
    split
    · exact Nat.dvd_add (a.whole t) (Nat.dvd_refl _)
    · exact a.whole t
  · have htotal := a.total
    rw [hcounted] at htotal
    show (m.contest.targets.map (m.contest.countIn delivery).receivedBy).sum =
      m.contest.chunkSize * (m.contest.deliverer.deliveredResources + 1)
    rw [funext hreceivedBy, sum_map_add_at a.nodup htarget, htotal]
    rfl

/-- The sink that the handler visits answers to the resource that it has counted. -/
theorem answer {c' : Contest} (a : Accounted settings m) (hcounted : m.counted = true)
    (hwork : m.contest.work (.deliverReturns .accepted) = some c') :
    Accounted settings { m with contest := c', counted := false } := by
  obtain ⟨reply, d', speed, final, hstep, rfl, hfinal⟩ := work_eq_some hwork
  obtain ⟨h, x⟩ := a.recorded
  obtain ⟨delivery, hoffered⟩ := a.offered hcounted
  obtain ⟨v, hv, herrand, -⟩ := offered?_eq_some.mp hoffered
  have hresources : d'.deliveredResources = m.contest.deliverer.deliveredResources + 1 := by
    have hdelivered := (x.lived.balance hstep).delivered
    rw [fates_accepted (inHand_of_deliver hv herrand)] at hdelivered
    exact hdelivered
  refine ⟨⟨_, x.step (.inl rfl) hstep speed final⟩, a.nodup, Bool.false_ne_true.elim, a.whole, ?_,
    fun stats hstats => ?_⟩
  · have htotal := a.total
    rw [hcounted] at htotal
    show _ = m.contest.chunkSize * (d'.deliveredResources + 0)
    rw [hresources]
    exact htotal
  · -- Nobody visits a sink after the end.
    obtain ⟨call, stats', rfl, -⟩ | rfl := hfinal
    · cases step_effect hstep
    · obtain ⟨hended, -⟩ := a.final stats hstats
      cases (x.lived.parting.alone hended).symm.trans hv

end Accounted

end Course

end Contest

end Sluice
