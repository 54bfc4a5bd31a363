import Sluice.Proofs.Pool.Custody

/-!
# Which object a call gets

`handed_out_latest_first` says, for every schedule of the single moves of all calls: an object is in the hands of one
call at most, and it is not kept at the same time. A call that gets an object gets the one given back last among those
that are kept, and a new one only if none was kept when it looked. The factory is not called otherwise, and when it
fails nobody loses an object. An object leaves the pool when its holder drops it, when it comes back and is not kept,
or with the closing of the pool, and it is never handed out again then. A call gets an object only if it has looked
whether the pool is closed, and found it open: that is the invariant `Cleared`, beside `Placed`.

What such a call gets may come after the pool has been closed: the call does not look again, and the factory may take
its time. `handed_out_overtaken` is a schedule in which it does.
-/

namespace Sluice

namespace Pool

variable {α : Type} {event : Event} {call : CallId}

/-! ### Who may get an object -/

section

variable {factory : Nat → Except String α} {p p' : Pool α} {reply : Reply α} {h : List (Happening α)}
  {s : Happening α} {c : CallId × Stage α} {stage next : Stage α} {first rest : List (CallId × Stage α)}

/-- A call has looked whether the pool is closed, at a time when nobody had begun to close it, and no other call has
borne its number since. -/
def FoundOpen (h : List (Happening α)) (call : CallId) : Prop :=
  ∃ early s late, h = early ++ s :: late ∧ s.event = .go call ∧ s.before.stage? call = some .admitted ∧
    (∀ r ∈ early, r.event ≠ .close) ∧ ∀ r ∈ late, ¬ r.event.asks call

/-- A call has looked for a kept object and found none, and the factory began to work for it under a number. -/
def Ordered (h : List (Happening α)) (call : CallId) (build : Nat) : Prop :=
  ∃ s ∈ h, s.event = .go call ∧ s.before.idle = [] ∧ s.before.builds = build

/-- The calls that seek an object have found the pool open. -/
structure Cleared (h : List (Happening α)) (p : Pool α) : Prop where
  unclosed : p.closed = false → ∀ s ∈ h, s.event ≠ .close
  found : ∀ c ∈ p.calls, c.2.seeks = true → FoundOpen h c.1
  ordered : ∀ c ∈ p.calls, ∀ build, c.2 = .building build → Ordered h c.1 build

/-- How a call has come to where it is after an event: it was there before, it has found the pool open, it has found
no kept object, or it does not seek an object. -/
inductive Arrives (p : Pool α) : Event → CallId × Stage α → Prop
  | stays {event : Event} {c : CallId × Stage α} : c ∈ p.calls → Arrives p event c
  | found {call : CallId} :
      p.closed = false → (call, .admitted) ∈ p.calls → Arrives p (.go call) (call, .looking)
  | ordered {call : CallId} :
      p.idle = [] → (call, .looking) ∈ p.calls → Arrives p (.go call) (call, .building p.builds)
  | other {event : Event} {c : CallId × Stage α} : c.2.seeks = false → Arrives p event c

theorem Arrives.of_move (hsplit : p.calls = first ++ (call, stage) :: rest) (hnext : Arrives p event (call, next))
    (hmem : c ∈ first ++ (call, next) :: rest) : Arrives p event c := by
  simp only [List.mem_append, List.mem_cons] at hmem
  rcases hmem with hmem | rfl | hmem
  · exact .stays (by rw [hsplit]; exact List.mem_append_left _ hmem)
  · exact hnext
  · exact .stays (by rw [hsplit]; exact List.mem_append_right _ (List.mem_cons_of_mem _ hmem))

theorem Arrives.of_snoc (hnew : stage.seeks = false) (hmem : c ∈ p.calls ++ [(call, stage)]) : Arrives p event c := by
  rcases List.mem_append.mp hmem with hmem | hmem
  · exact .stays hmem
  · obtain rfl := List.mem_singleton.mp hmem
    exact .other hnew

theorem Arrives.of_leave (hsplit : p.calls = first ++ (call, stage) :: rest)
    (hputs : Puts { p with calls := first ++ rest } p') (hmem : c ∈ p'.calls) : Arrives p event c := by
  have hsub : first ++ rest ⊆ p.calls := by
    rw [hsplit]
    exact (List.Sublist.append_left (List.sublist_cons_self _ _) first).subset
  cases hputs with
  | freed => exact .stays (hsub hmem)
  | passed =>
    rcases List.mem_append.mp hmem with hmem | hmem
    · exact .stays (hsub hmem)
    · obtain rfl := List.mem_singleton.mp hmem
      exact .other rfl

theorem Effect.arrives (e : Effect factory p event reply p') (hmem : c ∈ p'.calls) : Arrives p event c := by
  have hplace {call : CallId} {stage : Stage α} {first rest : List (CallId × Stage α)}
      (hsplit : p.calls = first ++ (call, stage) :: rest) : (call, stage) ∈ p.calls := by
    rw [hsplit]
    exact List.mem_append_right _ List.mem_cons_self
  cases e with
  | begun => exact .of_snoc rfl hmem
  | moved hsplit hmoves =>
    refine .of_move hsplit ?_ hmem
    cases hmoves with
    | found hopen => exact .found hopen (hplace hsplit)
    | _ => exact .other rfl
  | reused hsplit => exact .of_move hsplit (.other rfl) hmem
  | ordered hsplit hidle => exact .of_move hsplit (.ordered hidle (hplace hsplit)) hmem
  | built hsplit => exact .of_move hsplit (.other rfl) hmem
  | kept hsplit => exact .of_move hsplit (.other rfl) hmem
  | dropped hsplit => exact .of_move hsplit (.other rfl) hmem
  | left hsplit _ hputs => exact .of_leave hsplit hputs hmem
  | _ => exact .stays hmem

theorem asks_inj {other : CallId} (hasks : event.asks call) (hother : event.asks other) : call = other := by
  rcases hasks with rfl | rfl <;> rcases hother with hother | hother <;> cases hother <;> rfl

/-- A number that a call bears is not given to another one. -/
theorem Effect.new_of_asks (e : Effect factory p event reply p') (hasks : event.asks call) : call ∉ p.numbers := by
  cases e with
  | begun hasks' hnew => exact asks_inj hasks hasks' ▸ hnew
  | queued hnew => exact asks_inj hasks (.inl rfl) ▸ hnew
  | exhausted hnew => exact asks_inj hasks (.inr rfl) ▸ hnew
  | refused hasks' hnew => exact asks_inj hasks hasks' ▸ hnew
  | moved _ hmoves => cases hmoves <;> rcases hasks with hasks | hasks <;> cases hasks
  | dropped _ hsheds => cases hsheds <;> rcases hasks with hasks | hasks <;> cases hasks
  | left _ hleaves => cases hleaves <;> rcases hasks with hasks | hasks <;> cases hasks
  | _ => rcases hasks with hasks | hasks <;> cases hasks

/-- The mark is there once it is set. -/
theorem Effect.closed_of_close (e : Effect factory p .close reply p') : p'.closed = true := by
  cases e with
  | closed => rfl
  | begun hasks => rcases hasks with hasks | hasks <;> cases hasks
  | refused hasks => rcases hasks with hasks | hasks <;> cases hasks
  | moved _ hmoves => cases hmoves
  | dropped _ hsheds => cases hsheds
  | left _ hleaves => cases hleaves

theorem FoundOpen.snoc (k : FoundOpen h call) (hnot : ¬ s.event.asks call) : FoundOpen (h ++ [s]) call := by
  obtain ⟨early, g, late, rfl, hevent, hstage, hearly, hlate⟩ := k
  refine ⟨early, g, late ++ [s], by simp, hevent, hstage, hearly, fun r hr => ?_⟩
  rcases List.mem_append.mp hr with hr | hr
  · exact hlate r hr
  · obtain rfl := List.mem_singleton.mp hr
    exact hnot

namespace Cleared

theorem start (settings : PoolSettings) : Cleared [] (ofSettings settings : Pool α) where
  unclosed _ s hs := by cases hs
  found c hc := by cases hc
  ordered c hc := by cases hc

/-- Every event keeps the invariant. -/
theorem effect (k : Cleared h p) (d : p.Distinct) (e : Effect factory p event reply p') :
    Cleared (h ++ [⟨p, event, reply, p'⟩]) p' := by
  have hstays {c : CallId × Stage α} (hmem : c ∈ p.calls) : ¬ event.asks c.1 := fun hasks =>
    e.new_of_asks hasks (List.mem_append_left _ (List.mem_map.mpr ⟨c, hmem, rfl⟩))
  refine ⟨fun hopen r hr => ?_, fun c hc hseeks => ?_, fun c hc build hbuilding => ?_⟩
  · have hbefore : p.closed = false := by
      rw [Bool.eq_false_iff]
      exact fun hclosed => Bool.eq_false_iff.mp hopen (e.closed_of_closed hclosed)
    rcases List.mem_append.mp hr with hr | hr
    · exact k.unclosed hbefore r hr
    · obtain rfl := List.mem_singleton.mp hr
      rintro rfl
      cases hopen.symm.trans e.closed_of_close
  · cases e.arrives hc with
    | stays hmem => exact (k.found c hmem hseeks).snoc (hstays hmem)
    | found hopen hmem =>
      exact ⟨h, _, [], rfl, rfl, d.stage?_of_mem hmem, k.unclosed hopen, fun r hr => by cases hr⟩
    | ordered hidle hmem => exact (k.found _ hmem rfl).snoc (hstays hmem)
    | other hnot => cases hnot.symm.trans hseeks
  · cases e.arrives hc with
    | stays hmem =>
      obtain ⟨r, hr, hordered⟩ := k.ordered c hmem build hbuilding
      exact ⟨r, List.mem_append_left _ hr, hordered⟩
    | found => cases hbuilding
    | ordered hidle =>
      cases hbuilding
      exact ⟨_, List.mem_append_right _ List.mem_cons_self, rfl, hidle, rfl⟩
    | other hnot =>
      rw [hbuilding] at hnot
      cases hnot

end Cleared

/-- Every schedule keeps the invariant. -/
theorem cleared (factory : Nat → Except String α) (settings : PoolSettings) (events : List Event) :
    Cleared (happenings factory settings events) (afterEvents factory settings events) :=
  induction (P := fun h p => Cleared h p) (Cleared.start settings) (fun _ _ _ _ _ d k e => k.effect d e) events

end

/-! ### What a call gets -/

section

variable {factory : Nat → Except String α} {p p' : Pool (Tagged α)} {reply : Reply (Tagged α)}
  {h : List (Happening (Tagged α))} {o : Tagged α} {tag : Nat}

/-- A call that found the pool open gets an object that no call has and that has not left the pool: the one that came
back last among those that are kept, or one that the factory has built for it since no object was kept. -/
structure Lends (early : List (Happening (Tagged α))) (s : Happening (Tagged α)) (call : CallId) (o : Tagged α) :
    Prop where
  found : FoundOpen early call
  undropped : ∀ r ∈ early, ¬ Drops r o.tag
  unheld : o.tag ∉ s.before.calls.flatMap (·.2.tags)
  held : s.after.holding? call = some o
  latest :
    (∃ kept, s.before.idle = o :: kept ∧ s.after.idle = kept ∧ LastBack early o kept) ∨
    s.after.idle = s.before.idle ∧ Ordered early call o.tag ∧
      ∀ r ∈ early, ∀ u, r.reply = .outcome (.ok u) → u.tag ≠ o.tag

/-- A call that comes to hold an object holds it. -/
theorem holding?_of_move {q : Pool (Tagged α)} {stage : Stage (Tagged α)}
    {first rest : List (CallId × Stage (Tagged α))}
    (d : p.Distinct) (hsplit : p.calls = first ++ (call, stage) :: rest)
    (hcalls : q.calls = first ++ (call, .holding o) :: rest) (hwaiting : q.waiting = p.waiting) :
    q.holding? call = some o := by
  have hmem : (call, .holding o) ∈ q.calls := by
    rw [hcalls]
    exact List.mem_append_right _ List.mem_cons_self
  rw [holding?, (d.move hsplit hcalls hwaiting).stage?_of_mem hmem]
  rfl

theorem Placed.lends {factory : Nat → Except String α} (a : Placed h p) (k : Cleared h p) (d : p.Distinct)
    (e : Effect (tagging factory) p event (.outcome (.ok o)) p') :
    ∃ call, event = .go call ∧ Lends h ⟨p, event, .outcome (.ok o), p'⟩ call o := by
  have hplace {call : CallId} {stage : Stage (Tagged α)} {first rest : List (CallId × Stage (Tagged α))}
      (hsplit : p.calls = first ++ (call, stage) :: rest) : (call, stage) ∈ p.calls := by
    rw [hsplit]
    exact List.mem_append_right _ List.mem_cons_self
  cases e with
  | @reused call _ kept first rest hsplit hidle =>
    have hkept : o.tag ∈ p.idle.map (·.tag) := by simp [hidle]
    have htags : o.tag ∈ p.tags := List.mem_append_right _ hkept
    refine ⟨call, rfl, k.found _ (hplace hsplit) rfl, fun r hr hdrops => ?_, fun hheld => ?_,
      holding?_of_move d hsplit rfl rfl, .inl ⟨kept, hidle, rfl, a.layered o kept (hidle ▸ List.suffix_rfl)⟩⟩
    · exact (a.gone r hr o.tag hdrops).2 (List.mem_append_left _ htags)
    · exact (List.nodup_append.mp (List.nodup_append.mp a.distinct).1).2.2 _ hheld _ hkept rfl
  | @built call build _ first rest hsplit hbuilt =>
    have htag : o.tag = build := tag_of_tagging hbuilt
    have hpending : o.tag ∈ p.pending := by
      rw [htag]
      exact List.mem_flatMap.mpr ⟨_, hplace hsplit, List.mem_singleton_self _⟩
    refine ⟨call, rfl, k.found _ (hplace hsplit) rfl, fun r hr hdrops => ?_, fun hheld => ?_,
      holding?_of_move d hsplit rfl rfl,
      .inr ⟨rfl, k.ordered _ (hplace hsplit) _ (by rw [htag]), fun r hr u hreply hsame => ?_⟩⟩
    · exact (a.gone r hr o.tag hdrops).2 (List.mem_append_right _ hpending)
    · exact (List.nodup_append.mp a.distinct).2.2 _ (List.mem_append_left _ hheld) _ hpending rfl
    · exact (a.given r hr u hreply).2 (hsame ▸ hpending)
  | left _ hleaves => cases hleaves

/-- The factory is called only if no object is kept. -/
theorem Effect.idle_eq_nil {factory : Nat → Except String (Tagged α)} (e : Effect factory p event reply p')
    (hbuilds : p'.builds ≠ p.builds) : p.idle = [] := by
  cases e with
  | ordered _ hidle => exact hidle
  | left _ _ hputs => cases hputs <;> exact absurd rfl hbuilds
  | _ => exact absurd rfl hbuilds

/-- A call that has no object, and gets none, leaves the others where they are. -/
theorem held_setStage (d : p.Distinct) {stage next : Stage (Tagged α)} (hstage : p.stage? call = some stage)
    (hnone : stage.held? = none) (hnext : next.held? = none) : (p.setStage call next).held = p.held := by
  obtain ⟨first, rest, hsplit, hothers⟩ := d.place hstage
  simp only [setStage, restaged hsplit hothers]
  simp [held, hsplit, hnone, hnext]

/-- A call that gets an error leaves the objects where they are. -/
theorem Effect.of_error {factory : Nat → Except String (Tagged α)} {error : PoolError}
    (e : Effect factory p event (.outcome (.error error)) p') : p'.idle = p.idle ∧ p'.held = p.held := by
  cases e with
  | left hsplit hleaves hputs =>
    have hheld : p'.held = p.held := by
      cases hputs <;> cases hleaves <;> simp [held, hsplit, Stage.held?]
    exact ⟨by cases hputs <;> rfl, hheld⟩
  | _ => exact ⟨rfl, rfl⟩

/-- Nobody loses an object when the factory fails. -/
theorem step_of_failed {factory : Nat → Except String (Tagged α)} {build : Nat} {reason : String} (d : p.Distinct)
    (hstep : p.step factory (.go call) = some (reply, p')) (hstage : p.stage? call = some (.building build))
    (hfailed : factory build = .error reason) : p'.idle = p.idle ∧ p'.held = p.held := by
  simp only [step, hstage, proceed, hfailed] at hstep
  obtain ⟨-, rfl⟩ := Prod.mk.inj (Option.some.inj hstep)
  exact ⟨rfl, held_setStage d hstage rfl rfl⟩

/-- An object that comes back is put on top of the pile, if there is room for it. -/
theorem step_of_room {factory : Nat → Except String (Tagged α)}
    (hstep : p.step factory (.go call) = some (reply, p')) (hstage : p.stage? call = some (.returning o))
    (hroom : p.idle.length < p.settings.maxIdle) : p'.idle = o :: p.idle := by
  simp only [step, hstage, proceed, keep, if_pos hroom] at hstep
  obtain ⟨-, rfl⟩ := Prod.mk.inj (Option.some.inj hstep)
  rfl

theorem mem_tags_iff {stage : Stage (Tagged α)} {first rest : List (CallId × Stage (Tagged α))}
    (hsplit : p.calls = first ++ (call, stage) :: rest) :
    tag ∈ p.tags ↔ tag ∈ stage.tags ++ p.idle.map (·.tag) ∨ tag ∈ (first ++ rest).flatMap (·.2.tags) := by
  rw [(tags_split hsplit).mem_iff, List.mem_append, List.mem_append, List.mem_append]
  tauto

/-- What a call had, or what was kept, is there as long as the call has it then or it is kept. -/
theorem tags_subset_of_move {q : Pool (Tagged α)} {stage next : Stage (Tagged α)}
    {first rest : List (CallId × Stage (Tagged α))} (hsplit : p.calls = first ++ (call, stage) :: rest)
    (hcalls : q.calls = first ++ (call, next) :: rest)
    (hmarks : stage.tags ++ p.idle.map (·.tag) ⊆ next.tags ++ q.idle.map (·.tag)) : p.tags ⊆ q.tags := by
  intro tag htag
  rw [mem_tags_iff hcalls]
  exact ((mem_tags_iff hsplit).mp htag).imp_left fun hmem => hmarks hmem

/-- An object leaves the pool when it is dropped that a call has, or with the closing of the pool. -/
theorem Effect.of_drops {factory : Nat → Except String (Tagged α)} (e : Effect factory p event reply p')
    (hdrops : Drops ⟨p, event, reply, p'⟩ tag) :
    event = .sweep ∨ ∃ call stage, (call, stage) ∈ p.calls ∧ Sheds p event call stage ∧
      tag ∈ stage.tags := by
  obtain ⟨hbefore, hafter⟩ := hdrops
  have hgone {q : Pool (Tagged α)} (hq : p' = q) (hstays : p.tags ⊆ q.tags) : False := hafter (hq ▸ hstays hbefore)
  cases e with
  | begun => exact absurd (by simpa [tags, Stage.tags] using hbefore) hafter
  | moved hsplit hmoves =>
    refine (hgone rfl (tags_subset_of_move hsplit rfl ?_)).elim
    cases hmoves <;> exact List.Subset.refl _
  | reused hsplit hidle =>
    refine (hgone rfl (tags_subset_of_move hsplit rfl ?_)).elim
    rw [hidle]
    exact List.Subset.refl _
  | ordered hsplit => exact (hgone rfl (tags_subset_of_move hsplit rfl (List.Subset.refl _))).elim
  | built hsplit => exact (hgone rfl (tags_subset_of_move hsplit rfl (List.subset_cons_self _ _))).elim
  | kept hsplit => exact (hgone rfl (tags_subset_of_move hsplit rfl (List.Subset.refl _))).elim
  | @dropped _ call stage first rest hsplit hsheds =>
    refine .inr ⟨call, stage, ?_, hsheds, ?_⟩
    · rw [hsplit]
      exact List.mem_append_right _ List.mem_cons_self
    · rcases (mem_tags_iff hsplit).mp hbefore with hmem | hmem
      · rcases List.mem_append.mp hmem with hmem | hmem
        · exact hmem
        · exact absurd (List.mem_append_right _ hmem) hafter
      · refine absurd (List.mem_append_left _ ?_) hafter
        simp only [List.flatMap_append, List.flatMap_cons, List.mem_append] at hmem ⊢
        exact hmem.imp_right .inr
  | left hsplit hleaves hputs => exact absurd ((marks_of_leave hsplit hleaves hputs).1 ▸ hbefore) hafter
  | swept => exact .inl rfl
  | _ => exact absurd hbefore hafter

/-- An object that its holder drops leaves the pool. -/
theorem Placed.drops {factory : Nat → Except String (Tagged α)} (a : Placed h p) (d : p.Distinct)
    (hstep : p.step factory (.discard call) = some (reply, p')) (hheld : p.holding? call = some o) :
    Drops ⟨p, .discard call, reply, p'⟩ o.tag := by
  have hstage : p.stage? call = some (.holding o) := by
    rw [holding?] at hheld
    obtain ⟨stage, hstage, hholds⟩ := Option.bind_eq_some_iff.mp hheld
    cases stage <;> cases hholds
    exact hstage
  obtain ⟨first, rest, hsplit, hothers⟩ := d.place hstage
  simp only [step, hstage, setStage, restaged hsplit hothers] at hstep
  obtain ⟨-, rfl⟩ := Prod.mk.inj (Option.some.inj hstep)
  have hnodup : p.tags.Nodup := (List.nodup_append.mp a.distinct).1
  rw [(tags_split hsplit).nodup_iff] at hnodup
  refine ⟨(tags_split hsplit).mem_iff.mpr List.mem_cons_self, fun hstays => ?_⟩
  let q : Pool (Tagged α) :=
    { p with discarded := p.discarded + 1, calls := first ++ (call, .leaving none) :: rest }
  exact (List.nodup_cons.mp hnodup).1 ((tags_split (p := q) rfl).mem_iff.mp hstays)

/-- Whatever the factory, the settings and the schedule: marks on the objects change nothing else. No object is in the
hands of two calls, or held and kept. A call that gets an object has found the pool open, before anyone began to close
it. It gets the one that came back last among those that are kept, and the factory is called only for a call that
found none kept; when it fails, or a call gets an error for another reason, what is held and what is kept stay as they
are. An object that comes back is kept on top of the others if there is room. An object leaves the pool when its
holder drops it, when it comes back and is not kept, or with the closing of the pool, and is never handed out again. -/
theorem handed_out_latest_first (factory : Nat → Except String α) (settings : PoolSettings) (events : List Event) :
    let h := happenings (tagging factory) settings events
    happenings factory settings events = h.map (Happening.map Tagged.object) ∧
      (afterEvents (tagging factory) settings events).tags.Nodup ∧
      ∀ early s late, h = early ++ s :: late →
        (∀ o, s.reply = .outcome (.ok o) → ∃ call, s.event = .go call ∧ Lends early s call o) ∧
        (s.after.builds ≠ s.before.builds → s.before.idle = []) ∧
        (∀ error, s.reply = .outcome (.error error) → s.after.idle = s.before.idle ∧
          s.after.held = s.before.held) ∧
        (∀ call build reason, s.event = .go call → s.before.stage? call = some (.building build) →
          factory build = .error reason → s.after.idle = s.before.idle ∧ s.after.held = s.before.held) ∧
        (∀ call o, s.event = .go call → s.before.stage? call = some (.returning o) →
          s.before.idle.length < s.before.settings.maxIdle → s.after.idle = o :: s.before.idle) ∧
        (∀ call o, s.event = .discard call → s.before.holding? call = some o → Drops s o.tag) ∧
        ∀ tag, Drops s tag → s.event = .sweep ∨
          ∃ call stage, (call, stage) ∈ s.before.calls ∧ Sheds s.before s.event call stage ∧
            tag ∈ stage.tags := by
  intro h
  refine ⟨happenings_tagging factory settings events,
    (List.nodup_append.mp (placed factory settings events).distinct).1, fun early s late hsplit => ?_⟩
  obtain ⟨first, -, rfl, hstate, hstep, -⟩ := Schedule.split hsplit
  have a : Placed (happenings (tagging factory) settings first) s.before := hstate ▸ placed factory settings first
  have k : Cleared (happenings (tagging factory) settings first) s.before :=
    hstate ▸ cleared (tagging factory) settings first
  have d : s.before.Distinct := hstate ▸ distinct_after (tagging factory) settings first
  obtain ⟨before, event, reply, after⟩ := s
  have e := step_effect d hstep
  refine ⟨fun o hreply => ?_, e.idle_eq_nil, fun error hreply => ?_,
    fun call build reason hevent hstage hfailed => ?_,
    fun call o hevent hstage hroom => ?_, fun call o hevent hheld => ?_, fun tag hdrops => e.of_drops hdrops⟩
  · obtain rfl : reply = _ := hreply
    exact a.lends k d e
  · obtain rfl : reply = _ := hreply
    exact e.of_error
  · obtain rfl : event = _ := hevent
    exact step_of_failed d hstep hstage (by rw [tagging, hfailed]; rfl)
  · obtain rfl : event = _ := hevent
    exact step_of_room hstep hstage hroom
  · obtain rfl : event = _ := hevent
    exact a.drops d hstep hheld

/-- A call finds the pool open, and then the pool is closed before it has looked for a kept object. -/
def overtaken : List Event :=
  [.acquire 1, .go 1, .go 1, .go 1, .release 1, .go 1, .go 1, .acquire 2, .go 2, .close, .shut, .sweep]

/-- The pool is closed, no object is out or kept, and nobody is closing the pool any more. Then a call looks for a kept
object, the factory builds one, and the call gets it. -/
theorem handed_out_overtaken :
    let closed := afterEvents (tagging Except.ok) ⟨1, 1⟩ overtaken
    let p := afterEvents (tagging Except.ok) ⟨1, 1⟩ (overtaken ++ [.go 2, .go 2])
    (closed.closed = true ∧ closed.refuses = true ∧ closed.shutting = 0 ∧ closed.sweeping = 0) ∧
      (closed.idle = [] ∧ closed.held = [] ∧ closed.expelled = 1) ∧ p.held = [(2, ⟨1, 1⟩)] := by
  decide

/-- Two objects come back, and the one that came back last goes out first. -/
example :
    (afterEvents (tagging Except.ok) ⟨2, 2⟩ [.acquire 1, .go 1, .go 1, .go 1, .acquire 2, .go 2, .go 2, .go 2,
      .release 1, .go 1, .release 2, .go 1, .go 2, .go 2, .acquire 3, .go 3, .go 3]).held = [(3, ⟨1, 1⟩)] := by
  decide

end

end Pool

end Sluice
