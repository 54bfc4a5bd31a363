import Mathlib.Data.List.Nodup
import Mathlib.Data.List.Perm.Subperm
import Sluice.Proofs.Pool.Marks

/-!
# Where the objects of a pool are

The invariant `Placed` is about the objects of a pool in one list (`tags`), those that calls have and those that are
kept, and about the numbers under which the factory is at work (`pending`). No mark occurs twice: a call that gets a
kept object leaves the first list as it is, and one that gets a new object takes its mark from the second. An object
that leaves the pool does not come back (`Placed.gone`), and one that was handed out is not in the making
(`Placed.given`). The objects kept are piled up by the instants at which they came back, so the objects below one of
them came back before it and not since (`LastBack`).
-/

namespace Sluice

namespace Pool

variable {α : Type} {event : Event} {call : CallId}

/-- The marks of the object that a call has. -/
def Stage.tags : Stage (Tagged α) → List Nat
  | .holding o => [o.tag]
  | .returning o => [o.tag]
  | _ => []

/-- The number under which the factory is at work for a call. -/
def Stage.pending : Stage (Tagged α) → List Nat
  | .building build => [build]
  | _ => []

section

variable {factory : Nat → Except String (Tagged α)} {p p' q : Pool (Tagged α)} {reply : Reply (Tagged α)}
  {h : List (Happening (Tagged α))} {s : Happening (Tagged α)} {o : Tagged α} {kept : List (Tagged α)} {tag : Nat}
  {stage next : Stage (Tagged α)} {first rest : List (CallId × Stage (Tagged α))}

/-- The marks of the objects that calls have, and of those that are kept. -/
def tags (p : Pool (Tagged α)) : List Nat := p.calls.flatMap (·.2.tags) ++ p.idle.map (·.tag)

/-- The numbers under which the factory is at work. -/
def pending (p : Pool (Tagged α)) : List Nat := p.calls.flatMap (·.2.pending)

/-- An object comes back and is kept, or is dropped since there is no room for it. -/
def GivesBack (s : Happening (Tagged α)) (tag : Nat) : Prop :=
  ∃ call o, s.event = .go call ∧ s.before.stage? call = some (.returning o) ∧ o.tag = tag

/-- An object leaves the pool: a call had it or it was kept, and neither is so any more. -/
def Drops (s : Happening (Tagged α)) (tag : Nat) : Prop := tag ∈ s.before.tags ∧ tag ∉ s.after.tags

/-- An object came back, and since then neither did it nor did any of certain others. -/
def LastBack (h : List (Happening (Tagged α))) (o : Tagged α) (others : List (Tagged α)) : Prop :=
  ∃ early s late, h = early ++ s :: late ∧ GivesBack s o.tag ∧
    ∀ r ∈ late, ∀ u ∈ o :: others, ¬ GivesBack r u.tag

/-- Where the objects of a pool are after a history. -/
structure Placed (h : List (Happening (Tagged α))) (p : Pool (Tagged α)) : Prop where
  distinct : (p.tags ++ p.pending).Nodup
  built : ∀ tag ∈ p.tags ++ p.pending, tag < p.builds
  gone : ∀ s ∈ h, ∀ tag, Drops s tag → tag < p.builds ∧ tag ∉ p.tags ++ p.pending
  given : ∀ s ∈ h, ∀ o, s.reply = .outcome (.ok o) → o.tag < p.builds ∧ o.tag ∉ p.pending
  /-- The objects kept are piled up by the instants at which they came back. -/
  layered : ∀ o kept, o :: kept <:+ p.idle → LastBack h o kept

theorem LastBack.snoc (k : LastBack h o kept) (hnot : ∀ u ∈ o :: kept, ¬ GivesBack s u.tag) :
    LastBack (h ++ [s]) o kept := by
  obtain ⟨early, g, late, rfl, hback, hlate⟩ := k
  refine ⟨early, g, late ++ [s], by simp, hback, fun r hr => ?_⟩
  rcases List.mem_append.mp hr with hr | hr
  · exact hlate r hr
  · obtain rfl := List.mem_singleton.mp hr
    exact hnot

/-! ### What the calls have -/

/-- The marks of the calls but one, and of the objects that are kept. -/
def marksBut (first rest : List (CallId × Stage (Tagged α))) (idle : List (Tagged α)) : List Nat :=
  (first ++ rest).flatMap (·.2.tags) ++ idle.map (·.tag) ++ (first ++ rest).flatMap (·.2.pending)

/-- The marks of one call stand apart from the others. -/
theorem marks_split (hsplit : p.calls = first ++ (call, stage) :: rest) :
    (p.tags ++ p.pending).Perm (stage.tags ++ stage.pending ++ marksBut first rest p.idle) := by
  rw [tags, pending, hsplit, marksBut, List.perm_iff_count]
  intro tag
  simp only [List.flatMap_append, List.flatMap_cons, List.count_append]
  omega

theorem marksBut_cons (idle : List (Tagged α)) :
    (marksBut first rest (o :: idle)).Perm (o.tag :: marksBut first rest idle) := by
  rw [marksBut, marksBut, List.map_cons]
  exact List.perm_middle.append_right _

theorem tags_split (hsplit : p.calls = first ++ (call, stage) :: rest) :
    p.tags.Perm (stage.tags ++ ((first ++ rest).flatMap (·.2.tags) ++ p.idle.map (·.tag))) := by
  rw [tags, hsplit, List.perm_iff_count]
  intro tag
  simp only [List.flatMap_append, List.flatMap_cons, List.count_append]
  omega

theorem pending_split (hsplit : p.calls = first ++ (call, stage) :: rest) :
    p.pending.Perm (stage.pending ++ (first ++ rest).flatMap (·.2.pending)) := by
  rw [pending, hsplit, List.perm_iff_count]
  intro tag
  simp only [List.flatMap_append, List.flatMap_cons, List.count_append]
  omega

/-- A call that is over had no object, and a call that gets a permit has none. -/
theorem marks_of_leave (hsplit : p.calls = first ++ (call, stage) :: rest) (hleaves : Leaves p event reply call stage)
    (hputs : Puts { p with calls := first ++ rest } p') : p'.tags = p.tags ∧ p'.pending = p.pending := by
  have hnone : stage.tags = [] ∧ stage.pending = [] := by cases hleaves <;> exact ⟨rfl, rfl⟩
  have htags : tags { p with calls := first ++ rest } = p.tags := by simp [tags, hsplit, hnone.1]
  have hpending : pending { p with calls := first ++ rest } = p.pending := by simp [pending, hsplit, hnone.2]
  cases hputs with
  | freed => exact ⟨htags, hpending⟩
  | passed =>
    refine ⟨Eq.trans ?_ htags, Eq.trans ?_ hpending⟩
    · simp [tags, Stage.tags]
    · simp [pending, Stage.pending]

theorem mem_calls_of_stage? (hstage : p.stage? call = some stage) : (call, stage) ∈ p.calls := by
  obtain ⟨first, rest, hsplit, -⟩ := List.lookup_eq_some_iff.mp hstage
  rw [hsplit]
  exact List.mem_append_right _ List.mem_cons_self

namespace Placed

theorem start (settings : PoolSettings) : Placed [] (ofSettings settings : Pool (Tagged α)) where
  distinct := List.nodup_nil
  built tag htag := by cases htag
  gone s hs := by cases hs
  given s hs := by cases hs
  layered o kept hsuffix := by
    have := hsuffix.length_le
    simp [ofSettings] at this

/-- What a call has is not kept. -/
theorem apart (a : Placed h p) (hmem : (call, stage) ∈ p.calls) (htag : tag ∈ stage.tags) :
    tag ∉ p.idle.map (·.tag) := by
  have hnodup : p.tags.Nodup := (List.nodup_append.mp a.distinct).1
  exact fun hidle => (List.nodup_append.mp hnodup).2.2 tag (List.mem_flatMap.mpr ⟨_, hmem, htag⟩) tag hidle rfl

/-- Objects on the pile stay where they are, and what comes back is none of them. -/
theorem layered_snoc (a : Placed h p) (hbefore : s.before = p) {idle : List (Tagged α)} (hsuffix : idle <:+ p.idle) :
    ∀ o kept, o :: kept <:+ idle → LastBack (h ++ [s]) o kept := by
  intro o kept hpile
  have hpile := hpile.trans hsuffix
  refine (a.layered o kept hpile).snoc fun u hu => ?_
  rintro ⟨call, v, -, hstage, htag⟩
  rw [hbefore] at hstage
  refine a.apart (mem_calls_of_stage? hstage) (List.mem_singleton.mpr htag.symm) ?_
  exact List.mem_map_of_mem (hpile.subset hu)

/-- No mark is new in the pool, but for that under which the factory begins to work. -/
theorem extend (a : Placed h p) (hbefore : s.before = p) (hafter : s.after = p')
    (hdistinct : (p'.tags ++ p'.pending).Nodup) (hbuilds : p.builds ≤ p'.builds)
    (htags : ∀ tag ∈ p'.tags, tag ∈ p.tags ++ p.pending)
    (hpending : ∀ tag ∈ p'.pending, tag ∈ p.pending ∨ tag = p.builds ∧ p.builds < p'.builds)
    (hgiven : ∀ o, s.reply = .outcome (.ok o) → o.tag ∈ p'.tags)
    (hlayered : ∀ o kept, o :: kept <:+ p'.idle → LastBack (h ++ [s]) o kept) : Placed (h ++ [s]) p' := by
  subst hbefore hafter
  have hbuilt : ∀ tag ∈ s.after.tags ++ s.after.pending, tag < s.after.builds := by
    intro tag htag
    rcases List.mem_append.mp htag with htag | htag
    · exact Nat.lt_of_lt_of_le (a.built tag (htags tag htag)) hbuilds
    · rcases hpending tag htag with hold | ⟨rfl, hnew⟩
      · exact Nat.lt_of_lt_of_le (a.built tag (List.mem_append_right _ hold)) hbuilds
      · exact hnew
  have hunmade {tag : Nat} (hlt : tag < s.before.builds) (hnot : tag ∉ s.before.pending) :
      tag ∉ s.after.pending := by
    intro htag
    rcases hpending tag htag with hold | ⟨rfl, -⟩
    · exact hnot hold
    · exact Nat.lt_irrefl _ hlt
  refine ⟨hdistinct, hbuilt, fun r hr tag hdrops => ?_, fun r hr o hreply => ?_, hlayered⟩
  · rcases List.mem_append.mp hr with hr | hr
    · obtain ⟨hlt, hnot⟩ := a.gone r hr tag hdrops
      refine ⟨Nat.lt_of_lt_of_le hlt hbuilds, fun htag => ?_⟩
      rcases List.mem_append.mp htag with htag | htag
      · exact hnot (htags tag htag)
      · exact hunmade hlt (fun hold => hnot (List.mem_append_right _ hold)) htag
    · obtain rfl := List.mem_singleton.mp hr
      have hlt := a.built tag (List.mem_append_left _ hdrops.1)
      refine ⟨Nat.lt_of_lt_of_le hlt hbuilds, fun htag => ?_⟩
      rcases List.mem_append.mp htag with htag | htag
      · exact hdrops.2 htag
      · exact hunmade hlt (fun hold => (List.nodup_append.mp a.distinct).2.2 tag hdrops.1 tag hold rfl) htag
  · rcases List.mem_append.mp hr with hr | hr
    · obtain ⟨hlt, hnot⟩ := a.given r hr o hreply
      exact ⟨Nat.lt_of_lt_of_le hlt hbuilds, hunmade hlt hnot⟩
    · obtain rfl := List.mem_singleton.mp hr
      have htag := hgiven o hreply
      refine ⟨hbuilt o.tag (List.mem_append_left _ htag), fun hpending => ?_⟩
      exact (List.nodup_append.mp hdistinct).2.2 o.tag htag o.tag hpending rfl

/-- The factory does not begin to work: marks go from place to place, or leave the pool. -/
theorem shift (a : Placed h p) (hbefore : s.before = p) (hafter : s.after = p')
    (hmarks : (p'.tags ++ p'.pending).Subperm (p.tags ++ p.pending)) (hpending : p'.pending ⊆ p.pending)
    (hbuilds : p'.builds = p.builds) (hgiven : ∀ o, s.reply = .outcome (.ok o) → o.tag ∈ p'.tags)
    (hlayered : ∀ o kept, o :: kept <:+ p'.idle → LastBack (h ++ [s]) o kept) : Placed (h ++ [s]) p' := by
  obtain ⟨marks, hperm, hsub⟩ := hmarks
  refine a.extend hbefore hafter (hperm.nodup_iff.mp (a.distinct.sublist hsub)) (Nat.le_of_eq hbuilds.symm)
    (fun tag htag => ?_) (fun tag htag => .inl (hpending htag)) hgiven hlayered
  exact hsub.subset (hperm.mem_iff.mpr (List.mem_append_left _ htag))

/-- The objects stay where they are, and nothing is handed out. -/
theorem quiet (a : Placed h p) (hbefore : s.before = p) (hafter : s.after = p') (htags : p'.tags = p.tags)
    (hpending : p'.pending = p.pending) (hbuilds : p'.builds = p.builds) (hidle : p'.idle = p.idle)
    (hout : ∀ o, s.reply ≠ .outcome (.ok o)) : Placed (h ++ [s]) p' := by
  refine a.shift hbefore hafter ?_ (hpending ▸ List.Subset.refl _) hbuilds
    (fun o hreply => absurd hreply (hout o)) (a.layered_snoc hbefore (hidle ▸ List.suffix_rfl))
  rw [htags, hpending]

/-- A call comes to another stage, and what is kept may change. -/
theorem move (a : Placed h p) (hbefore : s.before = p) (hafter : s.after = p')
    (hsplit : p.calls = first ++ (call, stage) :: rest) (hcalls : p'.calls = first ++ (call, next) :: rest)
    (hbuilds : p'.builds = p.builds)
    (hmarks : (next.tags ++ next.pending ++ marksBut first rest p'.idle).Subperm
      (stage.tags ++ stage.pending ++ marksBut first rest p.idle))
    (hpending : next.pending ⊆ stage.pending) (hgiven : ∀ o, s.reply = .outcome (.ok o) → o.tag ∈ next.tags)
    (hlayered : ∀ o kept, o :: kept <:+ p'.idle → LastBack (h ++ [s]) o kept) : Placed (h ++ [s]) p' := by
  refine a.shift hbefore hafter ?_ (fun tag htag => ?_) hbuilds (fun o hreply => ?_) hlayered
  · exact ((marks_split hcalls).subperm_right.mpr hmarks).trans (marks_split hsplit).symm.subperm
  · rw [(pending_split hsplit).mem_iff]
    rcases List.mem_append.mp ((pending_split hcalls).mem_iff.mp htag) with hnew | hother
    · exact List.mem_append_left _ (hpending hnew)
    · exact List.mem_append_right _ hother
  · exact (tags_split hcalls).mem_iff.mpr (List.mem_append_left _ (hgiven o hreply))

/-- A move that changes nothing but the stage of a call. -/
theorem moved (a : Placed h p) (hbefore : s.before = p) (hafter : s.after = p')
    (hsplit : p.calls = first ++ (call, stage) :: rest) (hmoves : Moves factory p event call stage next)
    (hnext : p' = { p with calls := first ++ (call, next) :: rest }) (hquiet : s.reply = .quiet) :
    Placed (h ++ [s]) p' := by
  subst hnext
  have hout (o : Tagged α) : s.reply ≠ .outcome (.ok o) := by
    rw [hquiet]
    nofun
  have hlayered : ∀ o kept, o :: kept <:+ p.idle → LastBack (h ++ [s]) o kept :=
    a.layered_snoc hbefore List.suffix_rfl
  have hsame : (marksBut first rest p.idle).Subperm (marksBut first rest p.idle) := (List.Perm.refl _).subperm
  refine a.move hbefore hafter hsplit rfl rfl ?_ ?_ (fun o hreply => absurd hreply (hout o)) hlayered
  · cases hmoves with
    | resumed => exact hsame
    | found => exact hsame
    | barred => exact hsame
    | failed => exact (List.sublist_cons_self _ _).subperm
    | returned => exact (List.Perm.refl _).subperm
  · cases hmoves with
    | failed => exact List.nil_subset _
    | _ => exact List.Subset.refl _

/-- No object is kept, and the factory begins to work under a new number. -/
theorem order (a : Placed h p) (hbefore : s.before = p) (hsplit : p.calls = first ++ (call, .looking) :: rest)
    (hafter : s.after = { p with builds := p.builds + 1, calls := first ++ (call, .building p.builds) :: rest })
    (hquiet : s.reply = .quiet) :
    Placed (h ++ [s]) { p with builds := p.builds + 1, calls := first ++ (call, .building p.builds) :: rest } := by
  let q : Pool (Tagged α) := { p with builds := p.builds + 1, calls := first ++ (call, .building p.builds) :: rest }
  have hnext : q.calls = first ++ (call, .building p.builds) :: rest := rfl
  have hmarks : (q.tags ++ q.pending).Perm (p.builds :: (p.tags ++ p.pending)) :=
    (marks_split hnext).trans ((marks_split hsplit).symm.cons p.builds)
  have hnew : p.builds ∉ p.tags ++ p.pending := fun hmem => Nat.lt_irrefl _ (a.built _ hmem)
  have htags : q.tags.Perm p.tags :=
    (tags_split hnext).trans (tags_split hsplit).symm
  have hpending : q.pending.Perm (p.builds :: p.pending) :=
    (pending_split hnext).trans ((pending_split hsplit).symm.cons p.builds)
  refine a.extend hbefore hafter (hmarks.nodup_iff.mpr (List.nodup_cons.mpr ⟨hnew, a.distinct⟩)) (Nat.le_succ _)
    (fun tag htag => List.mem_append_left _ (htags.mem_iff.mp htag)) (fun tag htag => ?_) (fun o hreply => ?_)
    (a.layered_snoc hbefore List.suffix_rfl)
  · rcases List.mem_cons.mp (hpending.mem_iff.mp htag) with rfl | hold
    · exact .inr ⟨rfl, Nat.lt_succ_self _⟩
    · exact .inl hold
  · cases hquiet.symm.trans hreply

/-- A call gets the object on top of the pile. -/
theorem reuse (a : Placed h p) (hbefore : s.before = p) (hsplit : p.calls = first ++ (call, .looking) :: rest)
    (hidle : p.idle = o :: kept) {reused : Nat}
    (hafter : s.after = { p with idle := kept, reused, calls := first ++ (call, .holding o) :: rest })
    (hreply : s.reply = .outcome (.ok o)) :
    Placed (h ++ [s]) { p with idle := kept, reused, calls := first ++ (call, .holding o) :: rest } := by
  refine a.move hbefore hafter hsplit rfl rfl ?_ (List.Subset.refl _) (fun u hout => ?_) (a.layered_snoc hbefore ?_)
  · rw [hidle]
    exact (marksBut_cons kept).symm.subperm
  · cases hreply.symm.trans hout
    exact List.mem_singleton_self _
  · rw [hidle]
    exact List.suffix_cons o kept

/-- A call gets the object that the factory has built. -/
theorem build (a : Placed h p) (hbefore : s.before = p)
    (hsplit : p.calls = first ++ (call, .building o.tag) :: rest) {created : Nat}
    (hafter : s.after = { p with created, calls := first ++ (call, .holding o) :: rest })
    (hreply : s.reply = .outcome (.ok o)) :
    Placed (h ++ [s]) { p with created, calls := first ++ (call, .holding o) :: rest } := by
  refine a.move hbefore hafter hsplit rfl rfl (List.Perm.refl _).subperm (List.nil_subset _) (fun u hout => ?_)
    (a.layered_snoc hbefore List.suffix_rfl)
  cases hreply.symm.trans hout
  exact List.mem_singleton_self _

/-- An object comes back and is put on top of the pile. -/
theorem keep (a : Placed h p) (d : p.Distinct) (hsplit : p.calls = first ++ (call, .returning o) :: rest) :
    let q : Pool (Tagged α) := { p with idle := o :: p.idle, calls := first ++ (call, .leaving none) :: rest }
    Placed (h ++ [⟨p, .go call, .quiet, q⟩]) q := by
  intro q
  refine a.move rfl rfl hsplit rfl rfl (marksBut_cons p.idle).subperm (List.Subset.refl _) nofun
    (fun u below hpile => ?_)
  rcases List.suffix_cons_iff.mp hpile with htop | hbelow
  · cases htop
    have hmem : (call, .returning o) ∈ p.calls := by
      rw [hsplit]
      exact List.mem_append_right _ List.mem_cons_self
    exact ⟨h, _, [], rfl, ⟨call, o, rfl, d.stage?_of_mem hmem, rfl⟩, fun r hr => by cases hr⟩
  · exact a.layered_snoc rfl List.suffix_rfl u below hbelow

/-- An object is dropped that a call has. -/
theorem shed (a : Placed h p) (hbefore : s.before = p) (hsplit : p.calls = first ++ (call, stage) :: rest)
    (hsheds : Sheds p event call stage) {discarded : Nat}
    (hafter : s.after = { p with discarded, calls := first ++ (call, .leaving none) :: rest })
    (hquiet : s.reply = .quiet) :
    Placed (h ++ [s]) { p with discarded, calls := first ++ (call, .leaving none) :: rest } := by
  refine a.move hbefore hafter hsplit rfl rfl ?_ (List.nil_subset _) (fun o hreply => ?_)
    (a.layered_snoc hbefore List.suffix_rfl)
  · cases hsheds with
    | discarded => exact (List.sublist_cons_self _ _).subperm
    | closed => exact (List.sublist_cons_self _ _).subperm
    | full => exact (List.sublist_cons_self _ _).subperm
  · cases hquiet.symm.trans hreply

/-- The kept objects are dropped. -/
theorem sweep (a : Placed h p) {expelled sweeping : Nat} :
    let q : Pool (Tagged α) := { p with idle := [], expelled, sweeping }
    Placed (h ++ [⟨p, .sweep, .quiet, q⟩]) q := by
  intro q
  refine a.shift rfl rfl ?_ (List.Subset.refl _) rfl nofun (fun o kept hpile => ?_)
  · exact (((List.Sublist.refl _).append (List.nil_sublist _)).append (List.Sublist.refl _)).subperm
  · cases List.suffix_nil.mp hpile

/-- A call is over that has no object. -/
theorem leave (a : Placed h p) (hbefore : s.before = p) (hafter : s.after = p')
    (hsplit : p.calls = first ++ (call, stage) :: rest) (hleaves : Leaves p event reply call stage)
    (hputs : Puts { p with calls := first ++ rest } p') (hreply : s.reply = reply) : Placed (h ++ [s]) p' := by
  have hout (o : Tagged α) : s.reply ≠ .outcome (.ok o) := by
    rw [hreply]
    cases hleaves <;> nofun
  obtain ⟨htags, hpending⟩ := marks_of_leave hsplit hleaves hputs
  exact a.quiet hbefore hafter htags hpending (by cases hputs <;> rfl) (by cases hputs <;> rfl) hout

/-- Every event keeps the invariant. -/
theorem effect {factory : Nat → Except String α} (a : Placed h p) (d : p.Distinct)
    (e : Effect (tagging factory) p event reply p') : Placed (h ++ [⟨p, event, reply, p'⟩]) p' := by
  cases e with
  | begun => exact a.quiet rfl rfl (by simp [tags, Stage.tags]) (by simp [pending, Stage.pending]) rfl rfl nofun
  | queued => exact a.quiet rfl rfl rfl rfl rfl rfl nofun
  | exhausted => exact a.quiet rfl rfl rfl rfl rfl rfl nofun
  | refused => exact a.quiet rfl rfl rfl rfl rfl rfl nofun
  | refusedInLine => exact a.quiet rfl rfl rfl rfl rfl rfl nofun
  | withdrawn => exact a.quiet rfl rfl rfl rfl rfl rfl nofun
  | moved hsplit hmoves => exact a.moved rfl rfl hsplit hmoves rfl rfl
  | reused hsplit hidle => exact a.reuse rfl hsplit hidle rfl rfl
  | ordered hsplit => exact a.order rfl hsplit rfl rfl
  | built hsplit hbuilt =>
    rw [← tag_of_tagging hbuilt] at hsplit
    exact a.build rfl hsplit rfl rfl
  | kept hsplit => exact a.keep d hsplit
  | dropped hsplit hsheds => exact a.shed rfl hsplit hsheds rfl rfl
  | left hsplit hleaves hputs => exact a.leave rfl rfl hsplit hleaves hputs rfl
  | closed => exact a.quiet rfl rfl rfl rfl rfl rfl nofun
  | shut => exact a.quiet rfl rfl rfl rfl rfl rfl nofun
  | swept => exact a.sweep

end Placed

/-- Every schedule keeps the invariant. -/
theorem placed (factory : Nat → Except String α) (settings : PoolSettings) (events : List Event) :
    Placed (happenings (tagging factory) settings events) (afterEvents (tagging factory) settings events) :=
  induction (P := fun h p => Placed h p) (Placed.start settings) (fun _ _ _ _ _ d a e => a.effect d e) events

end

end Pool

end Sluice
