import Mathlib.Data.List.Nodup
import Sluice.Proofs.Delivery.Record

/-!
# The visits to one sink

A sink is visited by one visitor after the other, and it sees the visits one after the other: it is called with
a resource and answers, again and again, and at last it is dismissed. `Attended` says how far this has come. At
most two visits stand in the line of a sink, since one that brings a resource can only have a dismissal behind
it, and only the first one is inside.

There are six moves. A delivery joins the line of a sink that nobody has set out to dismiss
(`Attended.receive`). Somebody sets out to dismiss the sink, and it is left to him (`Attended.part`). The first
visitor enters (`Attended.enter`), and his visit ends with an answer (`Attended.answer`) or with the end of the
dismissal (`Attended.conclude`). And a dismissal may be given up before it begins (`Attended.giveUp`).
-/

namespace Sluice

namespace Deliverer

variable {ρ : Type}

/-! ### What a sink sees -/

/-- What a sink has seen of the visits that stand in its line. -/
def openings : List (Visit ρ) → List (Sighting ρ)
  | [] => []
  | v :: _ => if v.inside then [v.opening] else []

/-- What a sink sees of deliveries that are over. -/
def served (rounds : List (ρ × DeliveryOutcome)) : List (Sighting ρ) :=
  rounds.flatMap fun round => [.called round.1, .answered round.2]

/-- What a sink sees at the end: its dismissal, done or cut off. -/
def Ending (ending : List (Sighting ρ)) : Prop :=
  ending = [.dismissed, .released] ∨ ending = [.dismissed, .cutOff]

/-- The visits in the line of a sink and what it has seen. A sink is attached until somebody sets out to
dismiss it. -/
structure Attended (attached : Prop) (line : List (Visit ρ)) (seen : List (Sighting ρ)) : Prop where
  /-- Behind a delivery there can only be a dismissal, and nothing behind that. -/
  ordered : line.Pairwise fun v w => v.delivers = true ∧ w.delivers = false ∧ w.inside = false
  delivers : attached → ∀ v ∈ line, v.delivers = true
  seen_eq : ∃ rounds, seen = served rounds ++ openings line ∨
    line = [] ∧ ¬ attached ∧ ∃ ending, Ending ending ∧ seen = served rounds ++ ending

theorem served_concat (rounds : List (ρ × DeliveryOutcome)) (resource : ρ) (outcome : DeliveryOutcome) :
    served (rounds ++ [(resource, outcome)]) =
      served rounds ++ [.called resource] ++ [.answered outcome] := by
  rw [served, served, List.flatMap_append, List.flatMap_singleton, List.append_assoc]
  rfl

theorem openings_of_outside {line : List (Visit ρ)} (h : ∀ v ∈ line, v.inside = false) :
    openings line = [] := by
  cases line with
  | nil => rfl
  | cons v rest =>
    rw [openings, h v List.mem_cons_self]
    rfl

theorem openings_cases (line : List (Visit ρ)) :
    openings line = [] ∨ (∃ resource, openings line = [.called resource]) ∨ openings line = [.dismissed] := by
  cases line with
  | nil => exact .inl rfl
  | cons v rest =>
    rw [openings]
    split
    · rw [Visit.opening]
      split
      · exact .inr (.inl ⟨_, rfl⟩)
      · exact .inr (.inr rfl)
    · exact .inl rfl

theorem released_not_mem_served (rounds : List (ρ × DeliveryOutcome)) : .released ∉ served rounds := by
  rw [served, List.mem_flatMap]
  rintro ⟨round, -, hmem⟩
  simp at hmem

/-- The dismissal of a sink is done only at the very end. -/
theorem eq_of_released {rounds : List (ρ × DeliveryOutcome)} {ending : List (Sighting ρ)}
    (hending : ending = [] ∨ (∃ resource, ending = [.called resource]) ∨ ending = [.dismissed] ∨
      Ending ending) (hreleased : .released ∈ served rounds ++ ending) :
    ending = [.dismissed, .released] := by
  have hmem := (List.mem_append.mp hreleased).resolve_left (released_not_mem_served rounds)
  rcases hending with rfl | ⟨resource, rfl⟩ | rfl | rfl | rfl
  · cases hmem
  · simp at hmem
  · simp at hmem
  · rfl
  · simp at hmem

namespace Attended

variable {attached attached' : Prop} {line before rest : List (Visit ρ)} {seen : List (Sighting ρ)}
  {v : Visit ρ}

/-- A new sink. -/
theorem new (attached : Prop) : Attended attached ([] : List (Visit ρ)) [] where
  ordered := List.Pairwise.nil
  delivers _ _ hv := absurd hv List.not_mem_nil
  seen_eq := ⟨[], .inl rfl⟩

theorem of_iff (a : Attended attached line seen) (hiff : attached' ↔ attached) :
    Attended attached' line seen := by
  rw [propext hiff]
  exact a

/-! ### The shape of a line -/

/-- Only the first visit is inside. -/
theorem eq_of_inside (a : Attended attached line seen) (hv : v ∈ line) (hinside : v.inside = true) :
    ∃ rest, line = v :: rest := by
  cases line with
  | nil => exact absurd hv List.not_mem_nil
  | cons w rest =>
    rcases List.mem_cons.mp hv with rfl | hv
    · exact ⟨rest, rfl⟩
    · have hout := ((List.pairwise_cons.mp a.ordered).1 v hv).2.2
      cases hinside.symm.trans hout

/-- Nothing is behind a dismissal. -/
theorem eq_of_dismissal (a : Attended attached line seen) (hv : v ∈ line)
    (hdismissal : v.delivers = false) : ∃ before, line = before ++ [v] := by
  obtain ⟨before, rest, rfl⟩ := List.append_of_mem hv
  refine ⟨before, ?_⟩
  cases rest with
  | nil => rfl
  | cons w rest =>
    have hordered := (List.pairwise_append.mp a.ordered).2.1
    have hdelivers := ((List.pairwise_cons.mp hordered).1 w List.mem_cons_self).1
    cases hdelivers.symm.trans hdismissal

/-- A dismissal that is inside is alone. -/
theorem eq_singleton (a : Attended attached line seen) (hv : v ∈ line)
    (hdismissal : v.delivers = false) (hinside : v.inside = true) : line = [v] := by
  obtain ⟨rest, rfl⟩ := a.eq_of_inside hv hinside
  cases rest with
  | nil => rfl
  | cons w rest =>
    have hdelivers := ((List.pairwise_cons.mp a.ordered).1 w List.mem_cons_self).1
    cases hdelivers.symm.trans hdismissal

/-- A sink with a line is not over. -/
theorem seen_of_cons (a : Attended attached (v :: rest) seen) :
    ∃ rounds, seen = served rounds ++ openings (v :: rest) := by
  obtain ⟨rounds, hseen | ⟨hnil, -⟩⟩ := a.seen_eq
  · exact ⟨rounds, hseen⟩
  · cases hnil

theorem rest_outside (a : Attended attached (v :: rest) seen) : ∀ w ∈ rest, w.inside = false :=
  fun w hw => ((List.pairwise_cons.mp a.ordered).1 w hw).2.2

/-! ### The moves -/

/-- A delivery joins the line of a sink that nobody visits. -/
theorem receive (a : Attended attached [] seen) (hattached : attached) (hdelivers : v.delivers = true)
    (hout : v.inside = false) : Attended attached [v] seen where
  ordered := List.pairwise_singleton _ _
  delivers _ w hw := by
    rw [List.mem_singleton.mp hw]
    exact hdelivers
  seen_eq := by
    obtain ⟨rounds, hseen | ⟨-, hgone, -⟩⟩ := a.seen_eq
    · refine ⟨rounds, .inl ?_⟩
      rw [hseen, openings, openings, hout]
      rfl
    · exact absurd hattached hgone

/-- Somebody sets out to dismiss the sink. -/
theorem part (a : Attended attached line seen) (hattached : attached) (hdismissal : v.delivers = false)
    (hout : v.inside = false) : Attended False (line ++ [v]) seen where
  ordered := by
    refine List.pairwise_append.mpr ⟨a.ordered, List.pairwise_singleton _ _, ?_⟩
    intro w hw u hu
    rw [List.mem_singleton.mp hu]
    exact ⟨a.delivers hattached w hw, hdismissal, hout⟩
  delivers := False.elim
  seen_eq := by
    obtain ⟨rounds, hseen | ⟨-, hgone, -⟩⟩ := a.seen_eq
    · refine ⟨rounds, .inl ?_⟩
      rw [hseen]
      cases line with
      | nil =>
        rw [List.nil_append, openings, openings, hout]
        rfl
      | cons w rest => rfl
    · exact absurd hattached hgone

/-- The first visitor enters. -/
theorem enter (a : Attended attached (v :: rest) seen) (hout : v.inside = false) :
    Attended attached ({ v with inside := true } :: rest) (seen ++ [v.opening]) where
  ordered := by
    obtain ⟨hfirst, hrest⟩ := List.pairwise_cons.mp a.ordered
    exact List.pairwise_cons.mpr ⟨hfirst, hrest⟩
  delivers hattached w hw := by
    rcases List.mem_cons.mp hw with rfl | hw
    · exact a.delivers hattached v List.mem_cons_self
    · exact a.delivers hattached w (List.mem_cons_of_mem _ hw)
  seen_eq := by
    obtain ⟨rounds, hseen⟩ := a.seen_of_cons
    refine ⟨rounds, .inl ?_⟩
    rw [hseen, openings, hout]
    show served rounds ++ [] ++ [v.opening] = served rounds ++ [v.opening]
    rw [List.append_nil]

/-- The sink answers to a resource. -/
theorem answer (a : Attended attached (v :: rest) seen) {delivery : Delivery ρ}
    (herrand : v.errand = .deliver delivery) (hinside : v.inside = true) (outcome : DeliveryOutcome) :
    Attended attached rest (seen ++ [.answered outcome]) where
  ordered := (List.pairwise_cons.mp a.ordered).2
  delivers hattached w hw := a.delivers hattached w (List.mem_cons_of_mem _ hw)
  seen_eq := by
    obtain ⟨rounds, hseen⟩ := a.seen_of_cons
    refine ⟨rounds ++ [(delivery.resource, outcome)], .inl ?_⟩
    have hopening : v.opening = .called delivery.resource := by
      rw [Visit.opening, herrand]
    rw [hseen, openings, hinside, if_pos rfl, hopening, served_concat,
      openings_of_outside a.rest_outside, List.append_nil]

/-- The dismissal comes to an end. -/
theorem conclude (a : Attended attached [v] seen) (hdismissal : v.delivers = false)
    (hinside : v.inside = true) {last : Sighting ρ} (hlast : Ending [.dismissed, last]) :
    Attended attached [] (seen ++ [last]) where
  ordered := List.Pairwise.nil
  delivers _ w hw := absurd hw List.not_mem_nil
  seen_eq := by
    obtain ⟨rounds, hseen⟩ := a.seen_of_cons
    have hgone : ¬ attached := by
      intro hattached
      cases (a.delivers hattached v List.mem_cons_self).symm.trans hdismissal
    have hopening : v.opening = .dismissed := by
      obtain ⟨backlog, herrand⟩ := Visit.delivers_eq_false.mp hdismissal
      rw [Visit.opening, herrand]
    refine ⟨rounds, .inr ⟨rfl, hgone, [.dismissed, last], hlast, ?_⟩⟩
    rw [hseen, openings, hinside, if_pos rfl, hopening, List.append_assoc]
    rfl

/-- A dismissal is given up before it begins. -/
theorem giveUp (a : Attended attached (before ++ [v]) seen) (hout : v.inside = false) :
    Attended attached before seen where
  ordered := (List.pairwise_append.mp a.ordered).1
  delivers hattached w hw := a.delivers hattached w (List.mem_append_left _ hw)
  seen_eq := by
    cases before with
    | nil =>
      obtain ⟨rounds, hseen⟩ := a.seen_of_cons
      refine ⟨rounds, .inl ?_⟩
      rw [hseen, openings, openings, hout]
      rfl
    | cons w before =>
      obtain ⟨rounds, hseen⟩ := a.seen_of_cons
      exact ⟨rounds, .inl hseen⟩

/-! ### The shape of what is seen -/

theorem shape (a : Attended attached line seen) :
    ∃ rounds ending, seen = served rounds ++ ending ∧
      (ending = [] ∨ (∃ resource, ending = [.called resource]) ∨ ending = [.dismissed] ∨ Ending ending) := by
  obtain ⟨rounds, hseen | ⟨-, -, ending, hending, hseen⟩⟩ := a.seen_eq
  · exact ⟨rounds, openings line, hseen, (openings_cases line).imp_right (·.imp_right .inl)⟩
  · exact ⟨rounds, ending, hseen, .inr (.inr (.inr hending))⟩

end Attended

/-! ### The line of a sink -/

/-- The visits to a sink, in the order of their arrival. -/
def line (d : Deliverer ρ) (sink : Nat) : List (Visit ρ) := d.visits.filter (·.sink == sink)

section

variable {d : Deliverer ρ} {visitor : Visitor} {v : Visit ρ} {sink : Nat}

theorem mem_line : v ∈ d.line sink ↔ v ∈ d.visits ∧ v.sink = sink := by
  rw [line, List.mem_filter, beq_iff_eq]

theorem line_visit (d : Deliverer ρ) (visitor : Visitor) (sink other : Nat) (errand : Errand ρ) :
    (d.visit visitor sink errand).line other =
      d.line other ++ if sink = other then [({ visitor, sink, errand } : Visit ρ)] else [] := by
  rw [line, visit, List.filter_append, line]
  by_cases hsink : sink = other
  · rw [if_pos hsink, List.filter_cons_of_pos (by simpa using hsink)]
    rfl
  · rw [if_neg hsink, List.filter_cons_of_neg (by simpa using hsink)]
    rfl

theorem line_endVisit (d : Deliverer ρ) (visitor : Visitor) (sink : Nat) :
    (d.endVisit visitor).line sink = (d.line sink).filter (·.visitor != visitor) := by
  rw [line, line, endVisit, List.filter_filter, List.filter_filter]
  congr 1
  funext v
  exact Bool.and_comm _ _

theorem line_letIn (d : Deliverer ρ) (visitor : Visitor) (sink : Nat) :
    (d.letIn visitor).line sink =
      (d.line sink).map fun v => if v.visitor = visitor then { v with inside := true } else v := by
  rw [line, line, letIn, List.filter_map]
  congr 2
  funext v
  rw [Function.comp_apply]
  split <;> rfl

theorem visitOf?_eq_none : d.visitOf? visitor = none ↔ ∀ v ∈ d.visits, v.visitor ≠ visitor := by
  rw [visitOf?, List.find?_eq_none]
  simp only [beq_iff_eq]

theorem mem_of_visitOf? (hv : d.visitOf? visitor = some v) : v ∈ d.visits ∧ v.visitor = visitor :=
  ⟨List.mem_of_find?_eq_some hv, visitor_of_visitOf? hv⟩

/-- No visitor has two visits. -/
theorem eq_of_visitor (hnodup : (d.visits.map (·.visitor)).Nodup) (hv : d.visitOf? visitor = some v)
    {w : Visit ρ} (hw : w ∈ d.visits) (hvisitor : w.visitor = visitor) : w = v := by
  obtain ⟨hmem, hsame⟩ := mem_of_visitOf? hv
  exact List.inj_on_of_nodup_map hnodup hw hmem (hvisitor.trans hsame.symm)

/-- The line of a sink that a visitor does not visit. -/
theorem visitor_ne_of_mem_line (hnodup : (d.visits.map (·.visitor)).Nodup)
    (hv : d.visitOf? visitor = some v) {other : Nat} (hother : v.sink ≠ other) :
    ∀ w ∈ d.line other, w.visitor ≠ visitor := by
  intro w hw hvisitor
  obtain ⟨hmem, hsink⟩ := mem_line.mp hw
  rw [eq_of_visitor hnodup hv hmem hvisitor] at hsink
  exact hother hsink

theorem line_endVisit_of_ne (hnodup : (d.visits.map (·.visitor)).Nodup)
    (hv : d.visitOf? visitor = some v) {other : Nat} (hother : v.sink ≠ other) :
    (d.endVisit visitor).line other = d.line other := by
  rw [line_endVisit, List.filter_eq_self]
  intro w hw
  simpa using visitor_ne_of_mem_line hnodup hv hother w hw

theorem line_letIn_of_ne (hnodup : (d.visits.map (·.visitor)).Nodup)
    (hv : d.visitOf? visitor = some v) {other : Nat} (hother : v.sink ≠ other) :
    (d.letIn visitor).line other = d.line other := by
  rw [line_letIn]
  refine (List.map_congr_left fun w hw => ?_).trans (List.map_id _)
  exact if_neg (visitor_ne_of_mem_line hnodup hv hother w hw)

/-- When the visit of a visitor ends who has no other one, all other visits stay. -/
theorem filter_visitor_ne {before rest : List (Visit ρ)}
    (hnodup : ((before ++ v :: rest).map (·.visitor)).Nodup) :
    (before ++ v :: rest).filter (·.visitor != v.visitor) = before ++ rest := by
  rw [List.map_append, List.map_cons, List.nodup_middle, List.nodup_cons, ← List.map_append] at hnodup
  have hothers : ∀ w ∈ before ++ rest, (w.visitor != v.visitor) = true := by
    intro w hw
    rw [bne_iff_ne]
    intro hsame
    exact hnodup.1 (hsame ▸ List.mem_map_of_mem hw)
  rw [List.filter_append, List.filter_cons_of_neg (by simp), ← List.filter_append,
    List.filter_eq_self.mpr hothers]

/-- When the visit of a visitor ends, the others in the line stay. -/
theorem line_endVisit_eq (hnodup : (d.visits.map (·.visitor)).Nodup)
    (hv : d.visitOf? visitor = some v) {before rest : List (Visit ρ)}
    (hline : d.line v.sink = before ++ v :: rest) :
    (d.endVisit visitor).line v.sink = before ++ rest := by
  obtain ⟨-, rfl⟩ := mem_of_visitOf? hv
  have hsub : ((d.line v.sink).map (·.visitor)).Nodup := hnodup.sublist (List.filter_sublist.map _)
  rw [hline] at hsub
  rw [line_endVisit, hline, filter_visitor_ne hsub]

/-- When the first in the line enters, the others stay as they are. -/
theorem line_letIn_eq (hnodup : (d.visits.map (·.visitor)).Nodup)
    (hv : d.visitOf? visitor = some v) {rest : List (Visit ρ)} (hline : d.line v.sink = v :: rest) :
    (d.letIn visitor).line v.sink = { v with inside := true } :: rest := by
  obtain ⟨-, hvisitor⟩ := mem_of_visitOf? hv
  have hsub : ((d.line v.sink).map (·.visitor)).Nodup := hnodup.sublist (List.filter_sublist.map _)
  rw [hline, List.map_cons, List.nodup_cons] at hsub
  rw [line_letIn, hline, List.map_cons, if_pos hvisitor]
  congr 1
  refine (List.map_congr_left fun w hw => if_neg ?_).trans (List.map_id _)
  intro hsame
  refine hsub.1 ?_
  rw [hvisitor, ← hsame]
  exact List.mem_map_of_mem hw

/-- A visitor may enter when he is the first in the line. -/
theorem line_of_first (hnodup : (d.visits.map (·.visitor)).Nodup) (hv : d.visitOf? visitor = some v)
    (hfirst : (d.visits.find? (·.sink == v.sink)).any (·.visitor != visitor) = false) :
    ∃ rest, d.line v.sink = v :: rest := by
  obtain ⟨hmem, -⟩ := mem_of_visitOf? hv
  have hline : v ∈ d.line v.sink := mem_line.mpr ⟨hmem, rfl⟩
  rw [← List.head?_filter] at hfirst
  change (d.line v.sink).head?.any _ = false at hfirst
  cases hcons : d.line v.sink with
  | nil =>
    rw [hcons] at hline
    exact absurd hline List.not_mem_nil
  | cons w rest =>
    rw [hcons] at hfirst
    have hw : w ∈ d.line v.sink := by
      rw [hcons]
      exact List.mem_cons_self
    have hvisitor : w.visitor = visitor := by simpa using hfirst
    rw [eq_of_visitor hnodup hv (mem_line.mp hw).1 hvisitor]
    exact ⟨rest, rfl⟩

end

end Deliverer

end Sluice
